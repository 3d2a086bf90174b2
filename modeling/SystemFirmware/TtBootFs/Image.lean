import SystemFirmware.TtBootFs.Ranges

/-!
# Boot filesystem — what is in a built image

The writes that pass the overlap check keep apart (`writes_ok`), so the binary holds
each of them at its address and `0xFF` everywhere else. For images behind the reserved
area this gives the layout both readers rely on (`ImageOf`): the descriptors from
address 0 on, an erased gap up to the failover descriptor, the training word, and the
images.
-/

namespace SystemFirmware.TtBootFs

open Lib

theorem exists_of_isOk {ε α : Type} {x : Except ε α} (h : x.isOk = true) : ∃ a, x = .ok a := by
  cases x with
  | error e => simp [Except.isOk, Except.toBool] at h
  | ok a => exact ⟨a, rfl⟩

-- ---
-- Descriptors of entries

theorem toNat_cUint32 {x : ℤ} (hlo : 0 ≤ x) (hhi : x < 2 ^ 32) :
    ((cUint32 x).toNat : ℤ) = x := by
  unfold cUint32
  rw [UInt32.toNat_ofNat']
  omega

def TagChars (tag : Tag) : Prop := ∀ c ∈ tag, 1 ≤ c.toNat ∧ c.toNat ≤ 255

-- found by itself, the instance may run through every character there is
instance {tag : Tag} : Decidable (TagChars tag) := List.decidableBAll _ tag

variable {tag : Tag}

theorem toList_tagBytes (h : tag.length ≤ maxTagLen) :
    (tagBytes tag).toList =
      (tag.map fun c => UInt8.ofNat c.toNat) ++ List.replicate (maxTagLen - tag.length) 0 := by
  apply List.ext_getElem?
  intro i
  unfold tagBytes
  by_cases hi : i < tag.length
  · rw [List.getElem?_append_left (by simpa using hi)]
    have : i < maxTagLen := by omega
    simp [hi, this]
  · rw [List.getElem?_append_right (by simpa using hi), List.length_map]
    by_cases hlen : i < maxTagLen
    · have : i - tag.length < maxTagLen - tag.length := by omega
      simp [hi, hlen, this]
    · have : ¬ i - tag.length < maxTagLen - tag.length := by omega
      simp [hlen, this]

variable {c : Char}

theorem ofNat_toNat_ne_zero (h : 1 ≤ c.toNat ∧ c.toNat ≤ 255) : UInt8.ofNat c.toNat ≠ 0 := by
  intro hzero
  have := congrArg UInt8.toNat hzero
  rw [UInt8.toNat_ofNat'] at this
  simp only [UInt8.toNat_zero] at this
  omega

theorem ofNat_toNat_char (h : c.toNat ≤ 255) : Char.ofNat (UInt8.ofNat c.toNat).toNat = c := by
  rw [UInt8.toNat_ofNat', Nat.mod_eq_of_lt (by omega), Char.ofNat_toNat]

theorem tagStr_tagBytes (hshort : tag.length ≤ maxTagLen) (hchars : TagChars tag) :
    ((tagBytes tag).toList.takeWhile (· ≠ 0)).map (fun b => Char.ofNat b.toNat) = tag := by
  rw [toList_tagBytes hshort, List.takeWhile_append_of_pos]
  · have hzeros : (List.replicate (maxTagLen - tag.length) (0 : UInt8)).takeWhile
        (fun b => decide (b ≠ 0)) = [] := by
      rcases maxTagLen - tag.length with _ | n <;> simp
    rw [hzeros, List.append_nil, List.map_map]
    refine (List.map_congr_left ?_).trans (List.map_id _)
    intro c hc
    exact ofNat_toNat_char (hchars c hc).2
  · intro b hb
    obtain ⟨c, hc, rfl⟩ := List.mem_map.mp hb
    simpa using ofNat_toNat_ne_zero (hchars c hc)

-- ---
-- The overlap check

section

variable {δ : Type} {start stop : ℤ} {rs : List (Range δ)}

theorem stop_le_of_insertIndex {i index : ℕ} (hstart : ∀ r ∈ rs, r.start ≤ start)
    (h : insertIndex start stop rs i = .ok index) :
    (∀ r ∈ rs, r.stop ≤ start) ∧ index = i + rs.length := by
  induction rs generalizing i with
  | nil =>
    simp only [insertIndex, Except.ok.injEq] at h
    exact ⟨by simp, by simp [h]⟩
  | cons r rest ih =>
    have hr := hstart r List.mem_cons_self
    unfold insertIndex at h
    split at h
    · simp at h
    · rename_i hfree
      rw [if_neg (by omega)] at h
      obtain ⟨hrest, hindex⟩ := ih (fun q hq => hstart q (List.mem_cons_of_mem r hq)) h
      refine ⟨?_, by rw [hindex, List.length_cons]; omega⟩
      intro q hq
      rcases List.mem_cons.mp hq with rfl | hmem
      · omega
      · exact hrest q hmem

theorem RangeTracker.add_ok {t t' : RangeTracker δ} {data : Option δ}
    (hstart : ∀ r ∈ t.ranges, r.start ≤ start) (h : t.add start stop data = .ok t') :
    (∀ r ∈ t.ranges, r.stop ≤ start) ∧
      ∀ r, r ∈ t'.ranges ↔ r = ⟨start, stop, data⟩ ∨ r ∈ t.ranges := by
  obtain ⟨index, hindex, -, rfl⟩ := RangeTracker.add_inv h
  obtain ⟨hstop, hlen⟩ := stop_le_of_insertIndex hstart hindex
  exact ⟨hstop, fun r => List.mem_insertIdx (by omega)⟩

end

variable {ws : List Write}

theorem checkOverlap_ok {t t' : RangeTracker Unit}
    (hsorted : ws.Pairwise fun v w => v.addr ≤ w.addr)
    (hstart : ∀ r ∈ t.ranges, ∀ w ∈ ws, r.start ≤ w.addr) (h : checkOverlap ws t = .ok t') :
    (∀ r ∈ t.ranges, ∀ w ∈ ws, r.stop ≤ w.addr) ∧ ws.Pairwise fun v w => v.stop ≤ w.addr := by
  induction ws generalizing t with
  | nil => simp
  | cons w ws ih =>
    obtain ⟨hfirst, hrest⟩ := List.pairwise_cons.mp hsorted
    unfold checkOverlap at h
    rw [List.foldlM_cons] at h
    obtain ⟨t₁, hadd, h⟩ := bind_eq_ok.mp h
    obtain ⟨hstop, hmem⟩ := RangeTracker.add_ok
      (fun r hr => hstart r hr w List.mem_cons_self) hadd
    have hnext : ∀ r ∈ t₁.ranges, ∀ v ∈ ws, r.start ≤ v.addr := by
      intro r hr v hv
      rcases (hmem r).mp hr with rfl | hold
      · exact hfirst v hv
      · exact hstart r hold v (List.mem_cons_of_mem w hv)
    obtain ⟨hbehind, hpair⟩ := ih hrest hnext h
    refine ⟨?_, List.pairwise_cons.mpr ⟨?_, hpair⟩⟩
    · intro r hr v hv
      rcases List.mem_cons.mp hv with rfl | hv
      · exact hstop r hr
      · exact hbehind r ((hmem r).mpr (.inr hr)) v hv
    · intro v hv
      exact hbehind ⟨w.addr, w.stop, none⟩ ((hmem _).mpr (.inl rfl)) v hv

theorem sorted_byAddr (ws : List Write) :
    (ws.insertionSort fun v w => v.addr ≤ w.addr).Pairwise fun v w => v.addr ≤ w.addr := by
  have : Std.Total fun v w : Write => v.addr ≤ w.addr := ⟨fun v w => le_total _ _⟩
  have : IsTrans Write fun v w => v.addr ≤ w.addr := ⟨fun _ _ _ => le_trans⟩
  exact List.pairwise_insertionSort _ _

variable {fs : BootFs}

theorem writes_ok (h : fs.writes = .ok ws) :
    ∃ unsorted, fs.unsortedWrites = .ok unsorted ∧ ws.Perm unsorted ∧
      ws.Pairwise fun v w => v.stop ≤ w.addr := by
  obtain ⟨unsorted, hunsorted, h⟩ := bind_eq_ok.mp h
  obtain ⟨t, hcheck, h⟩ := bind_eq_ok.mp h
  obtain rfl := Except.ok.inj h
  refine ⟨unsorted, hunsorted, List.perm_insertionSort .., ?_⟩
  exact (checkOverlap_ok (sorted_byAddr unsorted) (by simp) hcheck).2

-- ---
-- The writes of a filesystem

def IsEntryWrite (descriptorAddr : ℤ) (e : FsEntry) (w : Write) : Prop :=
  (w.addr = descriptorAddr ∧ w.data.length = fdSize) ∨ (w.addr = e.spiAddr ∧ w.data = e.data)

variable {addr : ℤ}

theorem entryWrites_ok {always : Bool} {e : FsEntry} (h : entryWrites addr always e = .ok ws) :
    e.tag.length ≤ maxTagLen ∧
      ws = [⟨⟨addr, e.fd.bytes⟩, true⟩, ⟨⟨e.spiAddr, e.data⟩, always⟩] := by
  unfold entryWrites FsEntry.getDescriptor at h
  split at h
  · simp [bind, Except.bind] at h
  · simp only [bind, Except.bind, Except.ok.injEq] at h
    exact ⟨by omega, h.symm⟩

theorem orderWrites_cons_ok {rest : List Tag} (h : orderWrites fs (tag :: rest) addr = .ok ws) :
    ∃ e more, fs.get tag = some e ∧ e.tag.length ≤ maxTagLen ∧
      orderWrites fs rest (addr + fdSize) = .ok more ∧
      ws = [⟨⟨addr, e.fd.bytes⟩, true⟩, ⟨⟨e.spiAddr, e.data⟩, !e.provisioningOnly⟩] ++ more := by
  unfold orderWrites at h
  split at h
  · simp at h
  · rename_i e he
    obtain ⟨first, hfirst, h⟩ := bind_eq_ok.mp h
    obtain ⟨more, hmore, h⟩ := bind_eq_ok.mp h
    obtain ⟨hlen, rfl⟩ := entryWrites_ok hfirst
    exact ⟨e, more, he, hlen, hmore, (Except.ok.inj h).symm⟩

theorem orderWrites_ok {order : List Tag} (h : orderWrites fs order addr = .ok ws) :
    (∀ (k : ℕ) tag, order[k]? = some tag → ∃ e, fs.get tag = some e ∧
      e.tag.length ≤ maxTagLen ∧ ⟨⟨addr + fdSize * k, e.fd.bytes⟩, true⟩ ∈ ws ∧
      ⟨⟨e.spiAddr, e.data⟩, !e.provisioningOnly⟩ ∈ ws) ∧
    ∀ w ∈ ws, ∃ (k : ℕ) (tag : Tag) (e : FsEntry), order[k]? = some tag ∧
      fs.get tag = some e ∧ IsEntryWrite (addr + fdSize * k) e w := by
  induction order generalizing addr ws with
  | nil =>
    simp only [orderWrites, Except.ok.injEq] at h
    subst h
    simp
  | cons tag rest ih =>
    obtain ⟨e, more, he, hlen, hmore, rfl⟩ := orderWrites_cons_ok h
    obtain ⟨hhave, hall⟩ := ih hmore
    have hslot : ∀ k : ℕ, addr + fdSize + fdSize * k = addr + fdSize * (k + 1 : ℕ) := by
      intro k
      push_cast
      ring
    refine ⟨?_, ?_⟩
    · intro k tag' hk
      rcases k with _ | k
      · obtain rfl : tag = tag' := by simpa using hk
        exact ⟨e, he, hlen, by simp, by simp⟩
      · obtain ⟨e', hget, hlen', hmem, himg⟩ := hhave k tag' (by simpa using hk)
        rw [hslot] at hmem
        exact ⟨e', hget, hlen', List.mem_append_right _ hmem,
          List.mem_append_right _ himg⟩
    · intro w hw
      rcases List.mem_append.mp hw with hw | hw
      · refine ⟨0, tag, e, rfl, he, ?_⟩
        simp only [List.mem_cons, List.not_mem_nil, or_false] at hw
        rcases hw with rfl | rfl
        · exact .inl ⟨by simp, Fd.length_bytes⟩
        · exact .inr ⟨rfl, rfl⟩
      · obtain ⟨k, tag', e', hk, hget, hwrite⟩ := hall w hw
        rw [hslot] at hwrite
        exact ⟨k + 1, tag', e', hk, hget, hwrite⟩

theorem unsortedWrites_ok (h : fs.unsortedWrites = .ok ws) :
    ∃ entries failover, orderWrites fs fs.order 0 = .ok entries ∧
      entryWrites failoverHeadAddr true fs.failover = .ok failover ∧
      ws = entries ++ failover ++ [⟨⟨spiRxAddr, le32 spiRxValue⟩, true⟩] := by
  obtain ⟨entries, hentries, h⟩ := bind_eq_ok.mp h
  obtain ⟨failover, hfailover, h⟩ := bind_eq_ok.mp h
  exact ⟨entries, failover, hentries, hfailover, (Except.ok.inj h).symm⟩

-- ---
-- The binary

theorem foldl_extendBinary {acc : List UInt8} {last : ℤ} :
    (ws.foldl extendBinary (acc, last)).1 = acc ++ fillFrom 0xFF (ws.map Write.toPiece) last := by
  induction ws generalizing acc last with
  | nil => simp [fillFrom]
  | cons w ws ih =>
    rw [List.foldl_cons, extendBinary, ih, List.map_cons, fillFrom]
    simp [List.append_assoc, Piece.stop]

theorem toBinary_eq {allSections : Bool} (h : fs.writes = .ok ws) : fs.toBinary allSections =
      .ok (fillFrom 0xFF ((emitted allSections ws).map Write.toPiece) 0) := by
  simp [BootFs.toBinary, h, bind, Except.bind, foldl_extendBinary]

/-- Where the images start: behind the descriptors, the failover descriptor and
the training word. -/
def imageAddr : ℕ := 0x14000

/-- The image of `e` is found in `bin`, and its descriptor at `addr`. -/
structure HoldsEntry (bin : List UInt8) (addr : ℕ) (e : FsEntry) : Prop where
  tag : e.tag.length ≤ maxTagLen
  descriptor : slice bin addr fdSize = e.fd.bytes
  data : slice bin e.spiAddr.toNat e.data.length = e.data
  fits : e.spiAddr.toNat + e.data.length ≤ bin.length

/-- The layout of a built image. -/
structure ImageOf (fs : BootFs) (bin : List UInt8) : Prop where
  entry : ∀ (k : ℕ) tag, fs.order[k]? = some tag →
    ∃ e, fs.get tag = some e ∧ HoldsEntry bin (fdSize * k) e
  gap : ∀ a, fdSize * fs.order.length ≤ a → a < failoverHeadAddr → bin[a]? = some 0xFF
  failover : HoldsEntry bin failoverHeadAddr fs.failover
  spiRx : slice bin spiRxAddr 4 = le32 spiRxValue
  length : imageAddr ≤ bin.length

/-- The data of every entry lies behind the reserved area. -/
structure Placed (fs : BootFs) : Prop where
  count : fs.order.length ≤ 511
  entries : ∀ tag ∈ fs.order, ∀ e, fs.get tag = some e → (imageAddr : ℤ) ≤ e.spiAddr
  failover : (imageAddr : ℤ) ≤ fs.failover.spiAddr

section

variable {fs : BootFs} {ws : List Write}

theorem emitted_true : emitted true ws = ws := by
  simp [emitted]

variable {w : Write}

theorem Placed.write_cases (h : Placed fs) (hws : fs.writes = .ok ws) (hw : w ∈ ws) :
    (∃ k : ℕ, k < fs.order.length ∧ w.addr = fdSize * k ∧ w.data.length = fdSize) ∨
    (w.addr = failoverHeadAddr ∧ w.data.length = fdSize) ∨
    (w.addr = spiRxAddr ∧ w.data.length = 4) ∨ (imageAddr : ℤ) ≤ w.addr := by
  obtain ⟨unsorted, hunsorted, hperm, -⟩ := writes_ok hws
  obtain ⟨entries, failover, hentries, hfailover, rfl⟩ := unsortedWrites_ok hunsorted
  obtain ⟨-, rfl⟩ := entryWrites_ok hfailover
  have hmem := hperm.mem_iff.mp hw
  simp only [List.mem_append, List.mem_cons, List.not_mem_nil, or_false] at hmem
  rcases hmem with (hmem | rfl | rfl) | rfl
  · obtain ⟨k, tag, e, hk, hget, hwrite⟩ := (orderWrites_ok hentries).2 w hmem
    rcases hwrite with ⟨haddr, hlen⟩ | ⟨haddr, -⟩
    · refine .inl ⟨k, (List.getElem?_eq_some_iff.mp hk).1, ?_, hlen⟩
      rw [haddr]
      ring
    · refine .inr (.inr (.inr ?_))
      rw [haddr]
      exact h.entries tag (List.mem_of_getElem? hk) e hget
  · exact .inr (.inl ⟨rfl, Fd.length_bytes⟩)
  · exact .inr (.inr (.inr h.failover))
  · exact .inr (.inr (.inl ⟨rfl, length_le32⟩))

theorem slice_toBinary (hws : fs.writes = .ok ws) (hpos : ∀ w ∈ ws, 0 ≤ w.addr) {w : Write}
    (hw : w ∈ ws) :
    slice (fillFrom 0xFF (ws.map Write.toPiece) 0) w.addr.toNat w.data.length = w.data ∧
      w.addr.toNat + w.data.length ≤ (fillFrom (0xFF : UInt8) (ws.map Write.toPiece) 0).length := by
  obtain ⟨-, -, -, hpair⟩ := writes_ok hws
  have hsep : Separated (ws.map Write.toPiece) := List.pairwise_map.mpr hpair
  have hlast : ∀ q ∈ ws.map Write.toPiece, 0 ≤ q.addr := by
    intro q hq
    obtain ⟨v, hv, rfl⟩ := List.mem_map.mp hq
    exact hpos v hv
  have hmem := List.mem_map_of_mem (f := Write.toPiece) hw
  have hslice := slice_fillFrom (0xFF : UInt8) hsep hlast hmem
  have hstop := stop_le_fillFrom (0xFF : UInt8) hsep hlast hmem
  rw [sub_zero] at hslice
  refine ⟨hslice, ?_⟩
  have := hpos w hw
  unfold Piece.stop at hstop
  omega

theorem Placed.write_nonneg (h : Placed fs) (hws : fs.writes = .ok ws) (hw : w ∈ ws) :
    0 ≤ w.addr := by
  rcases h.write_cases hws hw with ⟨k, -, haddr, -⟩ | ⟨haddr, -⟩ | ⟨haddr, -⟩ | haddr <;>
    simp only [failoverHeadAddr, spiRxAddr, imageAddr, fdSize] at haddr <;> omega

theorem Placed.gap_toBinary (h : Placed fs) (hws : fs.writes = .ok ws) {a : ℕ}
    (hlo : fdSize * fs.order.length ≤ a) (hhi : a < failoverHeadAddr)
    (hin : a < (fillFrom (0xFF : UInt8) (ws.map Write.toPiece) 0).length) :
    (fillFrom (0xFF : UInt8) (ws.map Write.toPiece) 0)[a]? = some 0xFF := by
  obtain ⟨-, -, -, hpair⟩ := writes_ok hws
  have hsep : Separated (ws.map Write.toPiece) := List.pairwise_map.mpr hpair
  refine getElem?_fillFrom_gap (0xFF : UInt8) hsep ?_ hin ?_
  · intro q hq
    obtain ⟨w, hw, rfl⟩ := List.mem_map.mp hq
    exact h.write_nonneg hws hw
  · intro q hq hcovers
    obtain ⟨w, hw, rfl⟩ := List.mem_map.mp hq
    unfold Piece.Covers Piece.stop at hcovers
    have hcount := h.count
    rcases h.write_cases hws hw with ⟨k, hk, haddr, hlen⟩ | ⟨haddr, -⟩ | ⟨haddr, -⟩ | haddr <;>
      simp only [failoverHeadAddr, spiRxAddr, imageAddr, fdSize] at * <;> omega

theorem imageOf_toBinary (h : Placed fs) (hws : fs.writes = .ok ws) :
    ∃ bin, fs.toBinary true = .ok bin ∧ ImageOf fs bin := by
  refine ⟨_, toBinary_eq hws, ?_⟩
  rw [emitted_true]
  have hslice := fun {w} hw =>
    @slice_toBinary fs ws hws (fun _ => h.write_nonneg hws) w hw
  obtain ⟨unsorted, hunsorted, hperm, -⟩ := writes_ok hws
  obtain ⟨entries, failover, hentries, hfailover, rfl⟩ := unsortedWrites_ok hunsorted
  obtain ⟨hfailoverTag, rfl⟩ := entryWrites_ok hfailover
  -- the descriptor and the data of an entry, wherever the descriptor is
  have hentry : ∀ (addr : ℕ) (e : FsEntry) (always : Bool),
      e.tag.length ≤ maxTagLen → ⟨⟨addr, e.fd.bytes⟩, true⟩ ∈ ws →
      ⟨⟨e.spiAddr, e.data⟩, always⟩ ∈ ws →
      HoldsEntry (fillFrom 0xFF (ws.map Write.toPiece) 0) addr e := by
    intro addr e always htag hdescriptor hdata
    have hd := hslice hdescriptor
    rw [Fd.length_bytes, Int.toNat_natCast] at hd
    exact ⟨htag, hd.1, (hslice hdata).1, (hslice hdata).2⟩
  have hrx := hslice (hperm.mem_iff.mpr (List.mem_append_right _ List.mem_cons_self))
  rw [length_le32, Int.toNat_natCast] at hrx
  refine ⟨?_, ?_, ?_, hrx.1, ?_⟩
  · intro k tag hk
    obtain ⟨e, hget, htag, hdescriptor, hdata⟩ := (orderWrites_ok hentries).1 k tag hk
    refine ⟨e, hget, hentry _ e (!e.provisioningOnly) htag ?_ ?_⟩
    · rw [zero_add] at hdescriptor
      exact hperm.mem_iff.mpr (by push_cast; simp [hdescriptor])
    · exact hperm.mem_iff.mpr (by simp [hdata])
  · intro a hlo hhi
    refine h.gap_toBinary hws hlo hhi ?_
    have := hrx.2
    simp only [failoverHeadAddr, spiRxAddr] at *
    omega
  · refine hentry _ fs.failover true hfailoverTag ?_ ?_
    · exact hperm.mem_iff.mpr (by simp)
    · exact hperm.mem_iff.mpr (by simp)
  · have := hrx.2
    simp only [spiRxAddr, imageAddr] at *
    omega

end

end SystemFirmware.TtBootFs
