import SystemFirmware.TtBootFs.Fsck
import SystemFirmware.TtBootFs.Image

/-!
# Boot filesystem — image round trip

`from_binary` reads back what `to_binary` wrote: the scan of the descriptors stops in the
erased gap behind the last one, every tag leads back to its descriptor, and every
descriptor to its data (`fromBinary_toBinary`).
-/

namespace SystemFirmware.TtBootFs

open Lib

-- ---
-- What is asked of a filesystem

structure ReadableEntry (e : FsEntry) : Prop where
  size : e.data.length < 2 ^ 24
  load_lo : 0 ≤ e.loadAddr
  load_hi : e.loadAddr < 2 ^ 32
  aligned : e.spiAddr % 0x1000 = 0
  placed : (imageAddr : ℤ) ≤ e.spiAddr

/-- Few enough tags, each one short, of single-byte characters and not the failover's, and an
entry for each, stored under its own tag. -/
structure Readable (fs : BootFs) : Prop where
  distinct : fs.order.Nodup
  count : fs.order.length ≤ 511
  chars : ∀ tag ∈ fs.order, TagChars tag
  short : ∀ tag ∈ fs.order, tag.length ≤ maxTagLen
  reserved : failoverTag ∉ fs.order
  listed : ∀ tag, (fs.entries tag).isSome = true ↔ tag ∈ fs.order
  keyed : ∀ tag e, fs.entries tag = some e → e.tag = tag
  entries : ∀ tag e, fs.entries tag = some e → ReadableEntry e
  failover : ReadableEntry fs.failover

/-- The SPI addresses fit into the 32 bits of a descriptor. -/
structure Narrow (fs : BootFs) : Prop where
  entries : ∀ tag e, fs.entries tag = some e → e.spiAddr < 2 ^ 32
  failover : fs.failover.spiAddr < 2 ^ 32

structure SameImage (e e' : FsEntry) : Prop where
  data : e'.data = e.data
  spiAddr : e'.spiAddr = e.spiAddr
  loadAddr : e'.loadAddr = e.loadAddr
  executable : e'.executable = e.executable

def RoundTrips (fs : BootFs) : Prop :=
  ∃ bin fs', fs.toBinary true = .ok bin ∧ fromBinary bin 0x1000 = .ok fs' ∧
    fs'.order = fs.order ∧
    (∀ tag ∈ fs.order, ∃ e e', fs.get tag = some e ∧ fs'.get tag = some e' ∧ SameImage e e') ∧
    SameImage fs.failover fs'.failover

-- ---
-- Scanning the descriptors

variable {e : FsEntry}

theorem imageTagStr_fd (hshort : e.tag.length ≤ maxTagLen) (hchars : TagChars e.tag) :
    e.fd.imageTagStr = e.tag :=
  tagStr_tagBytes hshort hchars

variable {bin : List UInt8}

theorem ImageOf.erased {fs : BootFs} (h : ImageOf fs bin) {k : ℕ} (hlo : fs.order.length ≤ k)
    (hhi : fdSize * k + fdSize ≤ failoverHeadAddr) :
    flagInvalid (Fd.ofBytes (slice bin (fdSize * k) fdSize)).flags = true := by
  have hslice : slice bin (fdSize * k) fdSize = List.replicate fdSize 0xFF := by
    apply List.ext_getElem?
    intro i
    unfold slice
    by_cases hi : i < fdSize
    · have hstart : fdSize * fs.order.length ≤ fdSize * k := Nat.mul_le_mul_left _ hlo
      rw [List.getElem?_take_of_lt hi, List.getElem?_drop, h.gap _ (by omega) (by omega)]
      simp [hi]
    · rw [List.getElem?_take_eq_none (by omega)]
      simp [hi]
  rw [hslice]
  decide

def BootFs.fds (fs : BootFs) (order : List Tag) : List Fd :=
  order.filterMap fun tag => (fs.get tag).map FsEntry.fd

theorem iterFd_imageOf {fs : BootFs} (h : ImageOf fs bin) (hcount : fs.order.length ≤ 511)
    {rest : List Tag} {k : ℕ} (hrest : fs.order.drop k = rest) (hk : k ≤ fs.order.length) :
    iterFd bin (fdSize * k) = .ok (fs.fds rest) := by
  have hlength := h.length
  have hfit : fdSize * k + fdSize ≤ bin.length := by
    simp only [imageAddr, fdSize] at *
    omega
  induction rest generalizing k with
  | nil =>
    have hend : k = fs.order.length := le_antisymm hk (List.drop_eq_nil_iff.mp hrest)
    have herased := h.erased hend.ge (by simp only [failoverHeadAddr, fdSize]; omega)
    rw [iterFd, if_pos hfit]
    simp [herased, BootFs.fds]
  | cons tag rest ih =>
    have hlt : k < fs.order.length := by
      by_contra hge
      rw [List.drop_eq_nil_of_le (by omega)] at hrest
      simp at hrest
    have hget : fs.order[k]? = some tag := by
      have := congrArg List.head? hrest
      simpa [List.head?_drop] using this
    obtain ⟨e, he, hholds⟩ := h.entry k tag hget
    have hnext : fs.order.drop (k + 1) = rest := by
      rw [← List.tail_drop, hrest, List.tail_cons]
    have hvalid : flagInvalid e.fd.flags = false := flagInvalid_fdFlags
    have hmore := ih hnext hlt (by simp only [imageAddr, fdSize] at *; omega)
    rw [iterFd, if_pos hfit, hholds.descriptor, Fd.ofBytes_bytes]
    rw [Nat.mul_succ] at hmore
    simp [hvalid, hmore, BootFs.fds, he, bind, Except.bind]

-- ---
-- Checking the entries

def FsEntry.readBack (tag : Tag) (e : FsEntry) : FsEntry :=
  { e with provisioningOnly := false, tag := tag }

variable {tag : Tag}

theorem sameImage_readBack : SameImage e (e.readBack tag) :=
  ⟨rfl, rfl, rfl, rfl⟩

theorem checkEntry_holds {addr : ℕ} (h : HoldsEntry bin addr e) (hreadable : ReadableEntry e)
    (hnarrow : e.spiAddr < 2 ^ 32) : checkEntry tag e.fd bin 0x1000 = .ok (e.readBack tag) := by
  obtain ⟨hsize, hloadLo, hloadHi, haligned, hplaced⟩ := hreadable
  have himage : (imageAddr : ℤ) = 0x14000 := rfl
  have hspi : (e.fd.spiAddr.toNat : ℤ) = e.spiAddr := toNat_cUint32 (by omega) hnarrow
  have hload : (e.fd.copyDest.toNat : ℤ) = e.loadAddr := toNat_cUint32 hloadLo hloadHi
  have hlen : flagImageSize e.fd.flags = e.data.length := by
    rw [show e.fd.flags = fdFlags e.data.length false e.executable from rfl,
      flagImageSize_fdFlags, Nat.mod_eq_of_lt hsize]
  have hexec : flagExecutable e.fd.flags = e.executable := flagExecutable_fdFlags
  have hoffs : e.fd.spiAddr.toNat = e.spiAddr.toNat := by omega
  have hdata : slice bin e.fd.spiAddr.toNat (flagImageSize e.fd.flags) = e.data := by
    rw [hoffs, hlen]
    exact h.data
  have hcrc : e.fd.dataCrc = cksum e.data := rfl
  have hfits := h.fits
  unfold checkEntry
  simp only [hdata, hcrc, hexec, hspi, hload, ne_eq, not_true_eq_false, false_and, if_false]
  rw [if_neg (by omega), if_neg (by rw [hlen]; simp only [cksumSize]; omega)]
  rfl

section

variable {fs : BootFs}

variable {tag : Tag}

theorem Readable.get (h : Readable fs) (htag : tag ∈ fs.order) :
    ∃ e, fs.get tag = some e ∧ fs.entries tag = some e ∧ e.tag = tag := by
  obtain ⟨e, he⟩ := Option.isSome_iff_exists.mp ((h.listed tag).mpr htag)
  have hother : tag ≠ failoverTag := by
    rintro rfl
    exact h.reserved htag
  exact ⟨e, by rw [BootFs.get, if_neg hother, he], he, h.keyed tag e he⟩

variable {e : FsEntry}

theorem Readable.imageTagStr (h : Readable fs) (htag : tag ∈ fs.order) (he : fs.get tag = some e) :
    e.fd.imageTagStr = tag := by
  obtain ⟨e', he', -, hkey⟩ := h.get htag
  obtain rfl := Option.some.inj (he.symm.trans he')
  rw [imageTagStr_fd (hkey ▸ h.short tag htag) (hkey ▸ h.chars tag htag), hkey]

theorem Readable.map_imageTagStr (h : Readable fs) {order : List Tag} (hsub : order ⊆ fs.order) :
    (fs.fds order).map Fd.imageTagStr = order := by
  induction order with
  | nil => rfl
  | cons tag rest ih =>
    have htag := hsub List.mem_cons_self
    obtain ⟨e, he, -, -⟩ := h.get htag
    have hrest := ih fun t ht => hsub (List.mem_cons_of_mem tag ht)
    simp only [BootFs.fds, List.filterMap_cons, he, Option.map_some, List.map_cons,
      h.imageTagStr htag he] at hrest ⊢
    rw [hrest]

theorem Readable.lastWithTag (h : Readable fs) (htag : tag ∈ fs.order) (he : fs.get tag = some e) :
    TtBootFs.lastWithTag (fs.fds fs.order) tag = some e.fd := by
  have hmem : e.fd ∈ fs.fds fs.order :=
    List.mem_filterMap.mpr ⟨tag, htag, by rw [he, Option.map_some]⟩
  unfold TtBootFs.lastWithTag
  rcases hfind : (fs.fds fs.order).reverse.find? fun fd => fd.imageTagStr = tag with _ | fd
  · have hnone := List.find?_eq_none.mp hfind e.fd (List.mem_reverse.mpr hmem)
    simp [h.imageTagStr htag he] at hnone
  · -- whatever is found carries the tag, so it comes from the same entry
    obtain ⟨tag', htag', hfd⟩ := List.mem_filterMap.mp
      (List.mem_reverse.mp (List.mem_of_find?_eq_some hfind))
    obtain ⟨e', he', rfl⟩ := Option.map_eq_some_iff.mp hfd
    have hsame := List.find?_some hfind
    rw [decide_eq_true_eq, h.imageTagStr htag' he'] at hsame
    subst hsame
    rw [hfind, Option.some.inj (he.symm.trans he')]

theorem Readable.checkEntries (h : Readable fs) (hnarrow : Narrow fs) {bin : List UInt8}
    (himage : ImageOf fs bin) {order : List Tag} (hsub : order ⊆ fs.order) :
    TtBootFs.checkEntries (fs.fds fs.order) bin 0x1000 order =
      .ok (order.filterMap fun tag => (fs.get tag).map (FsEntry.readBack tag)) := by
  induction order with
  | nil => rfl
  | cons tag rest ih =>
    have htag := hsub List.mem_cons_self
    obtain ⟨e, he, hentry, -⟩ := h.get htag
    obtain ⟨k, hk⟩ := List.mem_iff_getElem?.mp htag
    obtain ⟨e', he', hholds⟩ := himage.entry k tag hk
    obtain rfl := Option.some.inj (he.symm.trans he')
    have hcheck : checkEntry tag e.fd bin 0x1000 = .ok (e.readBack tag) :=
      checkEntry_holds hholds (h.entries tag e hentry) (hnarrow.entries tag e hentry)
    rw [TtBootFs.checkEntries, h.lastWithTag htag he]
    simp only [hcheck, ih fun t ht => hsub (List.mem_cons_of_mem tag ht), bind, Except.bind,
      List.filterMap_cons, he, Option.map_some]

theorem find?_readBack (htag : tag ∈ fs.order) (he : fs.get tag = some e) :
    ((fs.order.filterMap fun tag => (fs.get tag).map (FsEntry.readBack tag)).find?
      fun e => e.tag = tag) = some (e.readBack tag) := by
  have hmem : e.readBack tag ∈
      fs.order.filterMap fun tag => (fs.get tag).map (FsEntry.readBack tag) :=
    List.mem_filterMap.mpr ⟨tag, htag, by rw [he, Option.map_some]⟩
  rcases hfind : (fs.order.filterMap fun tag => (fs.get tag).map (FsEntry.readBack tag)).find?
      (fun e => e.tag = tag) with _ | found
  · have hnone := List.find?_eq_none.mp hfind _ hmem
    simp [FsEntry.readBack] at hnone
  · obtain ⟨tag', -, hfound⟩ := List.mem_filterMap.mp (List.mem_of_find?_eq_some hfind)
    obtain ⟨e', he', rfl⟩ := Option.map_eq_some_iff.mp hfound
    have hsame := List.find?_some hfind
    obtain rfl : tag' = tag := of_decide_eq_true hsame
    rw [hfind, Option.some.inj (he.symm.trans he')]

/-- **Image round trip.** A readable filesystem with 32-bit SPI addresses whose
writes pass the overlap check is read back from its binary image. -/
theorem fromBinary_toBinary {ws : List Write} (h : Readable fs) (hnarrow : Narrow fs)
    (hws : fs.writes = .ok ws) : RoundTrips fs := by
  have hplaced : Placed fs := by
    refine ⟨h.count, ?_, h.failover.placed⟩
    intro tag htag e he
    obtain ⟨e', he', hentry, -⟩ := h.get htag
    obtain rfl := Option.some.inj (he.symm.trans he')
    exact (h.entries tag e hentry).placed
  obtain ⟨bin, hbin, himage⟩ := imageOf_toBinary hplaced hws
  have hscan : iterFd bin 0 = .ok (fs.fds fs.order) :=
    iterFd_imageOf himage h.count List.drop_zero (Nat.zero_le _)
  have hlength := himage.length
  have hrx : ofLe32 (slice bin spiRxAddr 4) = spiRxValue := by
    rw [himage.spiRx, ofLe32_le32]
  have hfailover : checkEntry failoverTag (Fd.ofBytes (slice bin failoverHeadAddr fdSize)) bin
      0x1000 = .ok (fs.failover.readBack failoverTag) := by
    rw [himage.failover.descriptor, Fd.ofBytes_bytes]
    exact checkEntry_holds himage.failover h.failover hnarrow.failover
  have hread : fromBinary bin 0x1000 = .ok ⟨fs.order, fun tag =>
      (fs.order.filterMap fun tag => (fs.get tag).map (FsEntry.readBack tag)).find?
        fun e => e.tag = tag, fs.failover.readBack failoverTag⟩ := by
    unfold fromBinary
    simp only [hscan, bind, Except.bind, h.map_imageTagStr (List.Subset.refl _)]
    rw [if_neg (by simp only [imageAddr, failoverHeadAddr, fdSize] at *; omega),
      if_neg (by simp only [imageAddr, spiRxAddr] at *; omega), if_neg (by simp [hrx])]
    simp only [h.checkEntries hnarrow himage (List.Subset.refl _), hfailover]
  refine ⟨bin, _, hbin, hread, rfl, ?_, sameImage_readBack⟩
  intro tag htag
  obtain ⟨e, he, -, -⟩ := h.get htag
  have hother : tag ≠ failoverTag := by
    rintro rfl
    exact h.reserved htag
  refine ⟨e, e.readBack tag, he, ?_, sameImage_readBack⟩
  rw [BootFs.get, if_neg hother]
  exact find?_readBack htag he

end

-- ---
-- A small filesystem

def smallFs (spiAddr loadAddr : ℤ) : BootFs where
  order := ["cmfw".toList, "ethfw".toList]
  entries := fun tag =>
    if tag = "cmfw".toList then
      some ⟨false, "cmfw".toList, [1, 2, 3, 4], spiAddr, loadAddr, true⟩
    else if tag = "ethfw".toList then
      some ⟨false, "ethfw".toList, [9, 10, 11, 12], 0x16000, 0, true⟩
    else none
  failover := ⟨false, [], [5, 6, 7, 8], 0x15000, 0, true⟩

theorem entries_smallFs {spiAddr loadAddr : ℤ}
    (he : (smallFs spiAddr loadAddr).entries tag = some e) :
    e = ⟨false, tag, [1, 2, 3, 4], spiAddr, loadAddr, true⟩ ∨
      e = ⟨false, tag, [9, 10, 11, 12], 0x16000, 0, true⟩ := by
  simp only [smallFs] at he
  split_ifs at he with hfirst hsecond
  · exact .inl (hfirst ▸ (Option.some.inj he).symm)
  · exact .inr (hsecond ▸ (Option.some.inj he).symm)

theorem readable_smallFs {spiAddr : ℤ} (haligned : spiAddr % 0x1000 = 0)
    (hplaced : (imageAddr : ℤ) ≤ spiAddr) : Readable (smallFs spiAddr 0) where
  distinct := by
    show ["cmfw".toList, "ethfw".toList].Nodup
    decide
  count := by
    show 2 ≤ 511
    decide
  chars := by
    show ∀ tag ∈ ["cmfw".toList, "ethfw".toList], TagChars tag
    decide
  short := by
    show ∀ tag ∈ ["cmfw".toList, "ethfw".toList], tag.length ≤ maxTagLen
    decide
  reserved := by
    show failoverTag ∉ ["cmfw".toList, "ethfw".toList]
    decide
  listed := by
    intro tag
    simp only [smallFs, List.mem_cons, List.not_mem_nil, or_false]
    split_ifs with hfirst hsecond
    · exact iff_of_true rfl (.inl hfirst)
    · exact iff_of_true rfl (.inr hsecond)
    · exact iff_of_false (by simp) fun h => h.elim hfirst hsecond
  keyed := by
    intro tag e he
    obtain rfl | rfl := entries_smallFs he <;> rfl
  entries := by
    intro tag e he
    obtain rfl | rfl := entries_smallFs he
    · exact ⟨(by decide : 4 < 2 ^ 24), le_rfl, (by decide : (0 : ℤ) < 2 ^ 32), haligned, hplaced⟩
    · exact ⟨(by decide : 4 < 2 ^ 24), le_rfl, (by decide : (0 : ℤ) < 2 ^ 32),
        (by decide : (0x16000 : ℤ) % 0x1000 = 0), (by decide : (imageAddr : ℤ) ≤ 0x16000)⟩
  failover := by
    show ReadableEntry ⟨false, [], [5, 6, 7, 8], 0x15000, 0, true⟩
    exact ⟨by decide, le_rfl, by decide, by decide, by decide⟩

theorem smallFs_roundTrips : (smallFs 0x14000 0).writes.isOk = true ∧
    RoundTrips (smallFs 0x14000 0) := by
  have hok : (smallFs 0x14000 0).writes.isOk = true := by decide +kernel
  obtain ⟨ws, hws⟩ := exists_of_isOk hok
  refine ⟨hok, fromBinary_toBinary (readable_smallFs (by decide) (by decide)) ?_ hws⟩
  refine ⟨?_, by decide⟩
  intro tag e he
  obtain rfl | rfl := entries_smallFs he <;> dsimp only <;> decide

-- ---
-- Wider addresses

theorem fromBinary_spiAddr_lt {data : List UInt8} {alignment : ℕ} {fs : BootFs}
    (h : fromBinary data alignment = .ok fs) (he : fs.entries tag = some e) :
    e.spiAddr < 2 ^ 32 := by
  obtain ⟨fds, -, -, -, hentries, -⟩ := fromBinary_ok h
  obtain ⟨fd, -, hcheck⟩ := hentries tag e he
  obtain ⟨-, rfl⟩ := checkEntry_eq_ok.mp hcheck
  have hlt := fd.spiAddr.toNat_lt
  show (fd.spiAddr.toNat : ℤ) < 2 ^ 32
  omega

/-- An image at 4 GiB meets everything the script asks for, but its SPI address
does not come back. -/
theorem spiAddr_beyond_32_bits_lost : ∃ fs : BootFs,
    Readable fs ∧ (∃ ws, fs.writes = .ok ws) ∧ ¬ RoundTrips fs := by
  refine ⟨smallFs (2 ^ 32) 0, readable_smallFs (by decide) (by decide),
    exists_of_isOk (by decide +kernel), ?_⟩
  rintro ⟨bin, fs', -, hread, -, htags, -⟩
  obtain ⟨e, e', he, he', hsame⟩ := htags "cmfw".toList List.mem_cons_self
  have hspi : e.spiAddr = 2 ^ 32 := by
    rw [← Option.some.inj he]
  have hlt := fromBinary_spiAddr_lt hread he'
  rw [hsame.spiAddr, hspi] at hlt
  exact absurd hlt (lt_irrefl _)

end SystemFirmware.TtBootFs
