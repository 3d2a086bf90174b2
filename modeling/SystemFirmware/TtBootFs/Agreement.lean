import SystemFirmware.TtBootFs.Device
import SystemFirmware.TtBootFs.RoundTrip

/-!
# Boot filesystem — the script and the firmware agree

A flash that holds a built image, erased behind it. Both lookups of the firmware walk the
same table: the one on flash stops at the erased slot behind the last descriptor, the
cached one skips all erased slots (`builder_device_agree`).
-/

namespace SystemFirmware.TtBootFs

open Lib

-- ---
-- Tags

def ZeroPadded : List UInt8 → Prop
  | [] => True
  | b :: bs => (b = 0 → ∀ x ∈ bs, x = 0) ∧ ZeroPadded bs

variable {n : ℕ}

variable {a b : List UInt8}

theorem strncmpEq_iff (ha : a.length = n) (hb : b.length = n) (hpa : ZeroPadded a)
    (hpb : ZeroPadded b) : strncmpEq n a b = true ↔ a = b := by
  induction n generalizing a b with
  | zero => simp_all [strncmpEq]
  | succ n ih =>
    obtain ⟨x, xs, rfl⟩ := List.exists_cons_of_length_eq_add_one ha
    obtain ⟨y, ys, rfl⟩ := List.exists_cons_of_length_eq_add_one hb
    rw [List.length_cons, Nat.add_right_cancel_iff] at ha hb
    have hrec := ih ha hb hpa.2 hpb.2
    simp only [strncmpEq, List.headD_cons, List.tail_cons, Bool.and_eq_true, beq_iff_eq,
      Bool.or_eq_true, List.cons.injEq, hrec]
    constructor
    · rintro ⟨rfl, rfl | hrest⟩
      · -- both tails are padding of the same length
        refine ⟨rfl, List.ext_getElem (ha.trans hb.symm) ?_⟩
        intro i hi hj
        rw [hpa.1 rfl _ (List.getElem_mem hi), hpb.1 rfl _ (List.getElem_mem hj)]
      · exact ⟨rfl, hrest⟩
    · rintro ⟨rfl, hrest⟩
      exact ⟨rfl, .inr hrest⟩

theorem zeroPadded_replicate : ZeroPadded (List.replicate n 0) := by
  induction n with
  | zero => trivial
  | succ n ih => exact ⟨fun _ x hx => List.eq_of_mem_replicate hx, ih⟩

theorem zeroPadded_append {s t : List UInt8} (hs : ∀ b ∈ s, b ≠ 0) (ht : ZeroPadded t) :
    ZeroPadded (s ++ t) := by
  induction s with
  | nil => exact ht
  | cons b s ih =>
    refine ⟨fun hzero => absurd hzero (hs b List.mem_cons_self), ?_⟩
    exact ih fun x hx => hs x (List.mem_cons_of_mem b hx)

theorem zeroPadded_tagBytes {tag : Tag} (hshort : tag.length ≤ maxTagLen)
    (hchars : TagChars tag) : ZeroPadded (tagBytes tag).toList := by
  rw [toList_tagBytes hshort]
  refine zeroPadded_append ?_ zeroPadded_replicate
  intro b hb
  obtain ⟨c, hc, rfl⟩ := List.mem_map.mp hb
  exact ofNat_toNat_ne_zero (hchars c hc)

-- ---
-- Checksums of descriptors

theorem chunkSum_append (h : a.length % 4 = 0) : chunkSum (a ++ b) = chunkSum a + chunkSum b := by
  fun_induction chunkSum a with
  | case1 b₀ b₁ b₂ b₃ rest ih =>
    have hrest : rest.length % 4 = 0 := by
      simp only [List.length_cons] at h
      omega
    simp only [List.cons_append, chunkSum, ih hrest, Nat.add_assoc]
  | case2 rest hshort =>
    obtain rfl := eq_nil_of_no_word h hshort
    simp [leValue]

/-- The script sums 32 bytes with a zero for the sum, the firmware the 28 before it. -/
theorem checksumOk_of_cksum {fd : Fd} (hcrc : fd.fdCrc = cksum { fd with fdCrc := 0 }.bytes) :
    checksumOk (fd.bytes.take (fdSize - 4)) fd.fdCrc = true := by
  have htake : fd.bytes.take (fdSize - 4) = fd.beforeCrc := List.take_left' Fd.length_beforeCrc
  have hbytes : { fd with fdCrc := 0 }.bytes = fd.beforeCrc ++ le32 0 := rfl
  have hsum : cksum (fd.beforeCrc ++ le32 0) = cksum fd.beforeCrc := by
    have hzero : chunkSum (le32 0) = 0 := by decide
    unfold cksum
    rw [if_neg (by simp), if_neg (by simp), chunkSum_append (by simp), hzero, Nat.add_zero]
  unfold checksumOk
  rw [htake, ttBootFsCksum_eq_cksum (by simp), hcrc, hbytes, hsum]
  exact beq_self_eq_true _

theorem checksumOk_fd {e : FsEntry} :
    checksumOk (e.fd.bytes.take (fdSize - 4)) e.fd.fdCrc = true :=
  checksumOk_of_cksum rfl

-- ---
-- The flash

def flashOf (bin : List UInt8) : Flash := fun a => bin[a]?.getD 0xFF

theorem read_flashOf {bin : List UInt8} {off : ℕ} (h : off + n ≤ bin.length) :
    Flash.read (flashOf bin) off n = slice bin off n := by
  apply List.ext_getElem?
  intro i
  unfold Flash.read flashOf slice
  by_cases hi : i < n
  · rw [List.getElem?_take_of_lt hi, List.getElem?_drop]
    have hin : off + i < bin.length := by omega
    simp [hi, hin]
  · rw [List.getElem?_take_eq_none (by omega)]
    simp [hi]

section

variable {fs : BootFs} {bin : List UInt8} {k : ℕ}

theorem fdBytesAt_entry (h : ImageOf fs bin) (hcount : fs.order.length ≤ imageCountMax) {tag : Tag}
    (hk : fs.order[k]? = some tag) :
    ∃ e, fs.get tag = some e ∧ fdBytesAt (flashOf bin) k = e.fd.bytes := by
  obtain ⟨e, he, hholds⟩ := h.entry k tag hk
  have hlt := (List.getElem?_eq_some_iff.mp hk).1
  have hlength := h.length
  refine ⟨e, he, ?_⟩
  rw [fdBytesAt, read_flashOf, ← hholds.descriptor, fdHeadAddr, Nat.zero_add, Nat.mul_comm]
  simp only [imageAddr, imageCountMax, fdSize, fdHeadAddr] at *
  omega

theorem fdBytesAt_gap (h : ImageOf fs bin) (hlo : fs.order.length ≤ k) (hhi : k < imageCountMax) :
    flagInvalid (Fd.ofBytes (fdBytesAt (flashOf bin) k)).flags = true := by
  have hlength := h.length
  have hbelow : fdSize * k + fdSize ≤ failoverHeadAddr := by
    simp only [failoverHeadAddr, imageCountMax, fdSize] at *
    omega
  rw [fdBytesAt, read_flashOf, fdHeadAddr, Nat.zero_add, Nat.mul_comm]
  · exact h.erased hlo hbelow
  · simp only [failoverHeadAddr, imageAddr, fdSize, fdHeadAddr] at *
    omega

theorem slot_cases (h : ImageOf fs bin) (hcount : fs.order.length ≤ imageCountMax)
    (hk : k < imageCountMax) :
    (∃ tag e, tag ∈ fs.order ∧ fs.get tag = some e ∧
      fdBytesAt (flashOf bin) k = e.fd.bytes ∧
      fs.fds (fs.order.drop k) = e.fd :: fs.fds (fs.order.drop (k + 1))) ∨
    (fs.fds (fs.order.drop k) = [] ∧ fs.fds (fs.order.drop (k + 1)) = [] ∧
      flagInvalid (Fd.ofBytes (fdBytesAt (flashOf bin) k)).flags = true) := by
  by_cases hlt : k < fs.order.length
  · obtain ⟨e, he, hbytes⟩ := fdBytesAt_entry h hcount (List.getElem?_eq_getElem hlt)
    refine .inl ⟨_, e, List.getElem_mem hlt, he, hbytes, ?_⟩
    rw [List.drop_eq_getElem_cons hlt]
    exact List.filterMap_cons_some (by rw [he, Option.map_some])
  · refine .inr ⟨?_, ?_, fdBytesAt_gap h (by omega) hk⟩
    · rw [List.drop_eq_nil_of_le (by omega)]
      rfl
    · rw [List.drop_eq_nil_of_le (by omega)]
      rfl

-- ---
-- The two walks

/-- The lookup both walks implement: the first descriptor with the tag. -/
def BootFs.lookup (fs : BootFs) (order : List Tag) (t : List UInt8) : Option Fd :=
  (fs.fds order).find? fun fd => fd.imageTag.toList = t

theorem flagInvalid_fd {e : FsEntry} : flagInvalid e.fd.flags = false := flagInvalid_fdFlags

variable {t : List UInt8}

theorem findFdFrom_flashOf (h : ImageOf fs bin) (hcount : fs.order.length ≤ imageCountMax)
    (hpadded : ∀ tag ∈ fs.order, ∀ e, fs.get tag = some e → ZeroPadded (tagBytes e.tag).toList)
    (hlen : t.length = maxTagLen) (ht : ZeroPadded t) {n : ℕ} (hn : k + n = imageCountMax) :
    findFdFrom (flashOf bin) (fun _ => true) t n k =
      match fs.lookup (fs.order.drop k) t with
      | some fd => .ok fd
      | none => .error .enoent := by
  induction n generalizing k with
  | zero =>
    rw [List.drop_eq_nil_of_le (by omega)]
    rfl
  | succ n ih =>
    have hnext := ih (k := k + 1) (by omega)
    unfold findFdFrom readAndValidateFd
    rcases slot_cases h hcount (k := k) (by omega) with
      ⟨tag, e, htag, he, hbytes, hfds⟩ | ⟨hfds, -, hinvalid⟩
    · have hcmp : strncmpEq maxTagLen t e.fd.imageTag.toList = true ↔ t = e.fd.imageTag.toList :=
        strncmpEq_iff hlen Vector.length_toList ht (hpadded tag htag e he)
      by_cases hsame : t = e.fd.imageTag.toList
      · have hfound : fs.lookup (fs.order.drop k) t = some e.fd := by
          simp [BootFs.lookup, hfds, hsame.symm]
        simp [hbytes, Fd.ofBytes_bytes, flagInvalid_fd, checksumOk_fd, hcmp.mpr hsame, hfound]
      · have hdiffer : strncmpEq maxTagLen t e.fd.imageTag.toList = false :=
          Bool.eq_false_iff.mpr fun heq => hsame (hcmp.mp heq)
        have hskip : fs.lookup (fs.order.drop k) t = fs.lookup (fs.order.drop (k + 1)) t := by
          simp [BootFs.lookup, hfds, Ne.symm hsame]
        simp [hbytes, Fd.ofBytes_bytes, flagInvalid_fd, checksumOk_fd, hdiffer, hskip, hnext]
    · simp [hinvalid, BootFs.lookup, hfds]

theorem findFdByTag_flashOf (h : ImageOf fs bin) (hcount : fs.order.length ≤ imageCountMax)
    (hlen : t.length = maxTagLen) {n : ℕ} (hn : k + n = imageCountMax) :
    findFdByTag t ((List.range' k n).map (fdBytesAt (flashOf bin))) =
      fs.lookup (fs.order.drop k) t := by
  induction n generalizing k with
  | zero =>
    rw [List.drop_eq_nil_of_le (by omega)]
    rfl
  | succ n ih =>
    have hnext := ih (k := k + 1) (by omega)
    rw [List.range'_succ, List.map_cons]
    unfold findFdByTag
    rcases slot_cases h hcount (k := k) (by omega) with
      ⟨tag, e, htag, he, hbytes, hfds⟩ | ⟨hfds, hrest, hinvalid⟩
    · have hcmp : memcmpEq maxTagLen e.fd.imageTag.toList t = true ↔ e.fd.imageTag.toList = t := by
        unfold memcmpEq
        rw [List.take_of_length_le (by simp), List.take_of_length_le hlen.le, beq_iff_eq]
      by_cases hsame : e.fd.imageTag.toList = t
      · have hfound : fs.lookup (fs.order.drop k) t = some e.fd := by
          simp [BootFs.lookup, hfds, hsame]
        simp [hbytes, Fd.ofBytes_bytes, flagInvalid_fd, checksumOk_fd, hcmp.mpr hsame, hfound]
      · have hdiffer : memcmpEq maxTagLen e.fd.imageTag.toList t = false :=
          Bool.eq_false_iff.mpr fun heq => hsame (hcmp.mp heq)
        have hskip : fs.lookup (fs.order.drop k) t = fs.lookup (fs.order.drop (k + 1)) t := by
          simp [BootFs.lookup, hfds, hsame]
        simp [hbytes, Fd.ofBytes_bytes, flagInvalid_fd, hdiffer, hskip, hnext]
    · have hskip : fs.lookup (fs.order.drop k) t = fs.lookup (fs.order.drop (k + 1)) t := by
        rw [BootFs.lookup, BootFs.lookup, hfds, hrest]
      simp [hinvalid, hskip, hnext]

end

-- ---
-- Agreement

/-- At most as many tags as the cache has slots, each a non-empty string of single-byte characters
that fits into a descriptor, with whole words of data behind the reserved area. -/
structure Mountable (fs : BootFs) : Prop where
  count : fs.order.length ≤ imageCountMax
  distinct : fs.order.Nodup
  nonempty : ∀ tag ∈ fs.order, tag ≠ []
  short : ∀ tag ∈ fs.order, tag.length ≤ maxTagLen
  chars : ∀ tag ∈ fs.order, TagChars tag
  keyed : ∀ tag ∈ fs.order, ∀ e, fs.get tag = some e → e.tag = tag
  words : ∀ tag ∈ fs.order, ∀ e, fs.get tag = some e → e.data.length % 4 = 0
  size : ∀ tag ∈ fs.order, ∀ e, fs.get tag = some e → e.data.length < 2 ^ 24
  placed : ∀ tag ∈ fs.order, ∀ e, fs.get tag = some e → (imageAddr : ℤ) ≤ e.spiAddr

structure Addressable (fs : BootFs) : Prop where
  spi_hi : ∀ tag ∈ fs.order, ∀ e, fs.get tag = some e → e.spiAddr < 2 ^ 32
  load_lo : ∀ tag ∈ fs.order, ∀ e, fs.get tag = some e → 0 ≤ e.loadAddr
  load_hi : ∀ tag ∈ fs.order, ∀ e, fs.get tag = some e → e.loadAddr < 2 ^ 32

def FailoverPlaced (fs : BootFs) : Prop := (imageAddr : ℤ) ≤ fs.failover.spiAddr

/-- The descriptor says of `e` what the script was told. -/
structure Describes (fd : Fd) (e : FsEntry) : Prop where
  spiAddr : (fd.spiAddr.toNat : ℤ) = e.spiAddr
  loadAddr : (fd.copyDest.toNat : ℤ) = e.loadAddr
  size : flagImageSize fd.flags = e.data.length
  executable : flagExecutable fd.flags = e.executable

/-- Both lookups find in the image of `fs` what it has under each tag, and nothing under others. -/
def Agrees (fs : BootFs) : Prop :=
  ∃ bin, fs.toBinary true = .ok bin ∧
    (∀ tag ∈ fs.order, ∃ e fd, fs.get tag = some e ∧ Describes fd e ∧
      ttBootFsFindFdByTag true (flashOf bin) (fun _ => true) (some (tagBytes tag).toList) = .ok fd ∧
      findFdByTag (tagBytes tag).toList (ttBootFsMount (flashOf bin)) = some fd ∧
      ∀ bufSize, e.data.length ≤ bufSize →
        ttBootFsGetFile (ttBootFsMount (flashOf bin)) (flashOf bin) (tagBytes tag).toList bufSize =
          .ok e.data) ∧
    ∀ t : List UInt8, t.length = maxTagLen → ZeroPadded t →
      (∀ tag ∈ fs.order, (tagBytes tag).toList ≠ t) →
      ttBootFsFindFdByTag true (flashOf bin) (fun _ => true) (some t) = .error .enoent ∧
      findFdByTag t (ttBootFsMount (flashOf bin)) = none

section

variable {fs : BootFs}

theorem mem_fds {order : List Tag} {fd : Fd} :
    fd ∈ fs.fds order ↔ ∃ tag ∈ order, ∃ e, fs.get tag = some e ∧ e.fd = fd := by
  simp [BootFs.fds, List.mem_filterMap]

variable {tag : Tag} {e : FsEntry}

theorem Mountable.imageTag (h : Mountable fs) (htag : tag ∈ fs.order) (he : fs.get tag = some e) :
    e.fd.imageTag = tagBytes tag := by
  have hkey := h.keyed tag htag e he
  show tagBytes e.tag = tagBytes tag
  rw [hkey]

theorem Mountable.tagBytes_inj (h : Mountable fs) {tag' : Tag} (htag : tag ∈ fs.order)
    (htag' : tag' ∈ fs.order) (heq : (tagBytes tag).toList = (tagBytes tag').toList) :
    tag = tag' := by
  rw [← tagStr_tagBytes (h.short tag htag) (h.chars tag htag), heq,
    tagStr_tagBytes (h.short tag' htag') (h.chars tag' htag')]

theorem Mountable.lookup_of_mem (h : Mountable fs) (htag : tag ∈ fs.order)
    (he : fs.get tag = some e) : fs.lookup fs.order (tagBytes tag).toList = some e.fd := by
  unfold BootFs.lookup
  rcases hfind : (fs.fds fs.order).find? fun fd => fd.imageTag.toList = (tagBytes tag).toList
    with _ | fd
  · have hmiss := List.find?_eq_none.mp hfind e.fd (mem_fds.mpr ⟨tag, htag, e, he, rfl⟩)
    simp [h.imageTag htag he] at hmiss
  · have hhit := List.find?_some hfind
    obtain ⟨tag', htag', e', he', rfl⟩ := mem_fds.mp (List.mem_of_find?_eq_some hfind)
    rw [decide_eq_true_eq, h.imageTag htag' he'] at hhit
    obtain rfl := h.tagBytes_inj htag' htag hhit
    rw [hfind, Option.some.inj (he.symm.trans he')]

variable {t : List UInt8}

theorem Mountable.lookup_of_notMem (h : Mountable fs)
    (habsent : ∀ tag ∈ fs.order, (tagBytes tag).toList ≠ t) : fs.lookup fs.order t = none := by
  refine List.find?_eq_none.mpr ?_
  intro fd hfd
  obtain ⟨tag, htag, e, he, rfl⟩ := mem_fds.mp hfd
  rw [decide_eq_true_eq, h.imageTag htag he]
  exact habsent tag htag

theorem Mountable.describes (h : Mountable fs) (haddr : Addressable fs) (htag : tag ∈ fs.order)
    (he : fs.get tag = some e) : Describes e.fd e where
  spiAddr := by
    have hplaced := h.placed tag htag e he
    have himage : (imageAddr : ℤ) = 0x14000 := rfl
    exact toNat_cUint32 (by omega) (haddr.spi_hi tag htag e he)
  loadAddr := toNat_cUint32 (haddr.load_lo tag htag e he) (haddr.load_hi tag htag e he)
  size := by
    show flagImageSize (fdFlags _ _ _) = _
    rw [flagImageSize_fdFlags, Nat.mod_eq_of_lt (h.size tag htag e he)]
  executable := flagExecutable_fdFlags

theorem getFile_of_findFdByTag {cache : List (List UInt8)} {bin : List UInt8} {addr : ℕ}
    (hfind : findFdByTag t cache = some e.fd) (hdesc : Describes e.fd e)
    (hholds : HoldsEntry bin addr e) (hwords : e.data.length % 4 = 0) {bufSize : ℕ}
    (hbuf : e.data.length ≤ bufSize) :
    ttBootFsGetFile cache (flashOf bin) t bufSize = .ok e.data := by
  have hspi : e.fd.spiAddr.toNat = e.spiAddr.toNat := by
    have := hdesc.spiAddr
    omega
  have hread : Flash.read (flashOf bin) e.fd.spiAddr.toNat e.data.length = e.data := by
    rw [hspi, read_flashOf hholds.fits, hholds.data]
  have hcrc : e.fd.dataCrc = cksum e.data := rfl
  simp [ttBootFsGetFile, hfind, hdesc.size, hread, ttBootFsCksum_eq_cksum hwords, hcrc, hbuf]

/-- **The build script and the firmware agree** on every filesystem that fits the
table, whose addresses fit into descriptors and whose failover image is out of
the way of the table. -/
theorem builder_device_agree {ws : List Write} (h : Mountable fs) (haddr : Addressable fs)
    (hfailover : FailoverPlaced fs) (hws : fs.writes = .ok ws) : Agrees fs := by
  have hplaced : Placed fs :=
    ⟨h.count.trans (by decide), h.placed, hfailover⟩
  obtain ⟨bin, hbin, himage⟩ := imageOf_toBinary hplaced hws
  have hpadded : ∀ tag ∈ fs.order, ∀ e, fs.get tag = some e →
      ZeroPadded (tagBytes e.tag).toList := by
    intro tag htag e he
    rw [h.keyed tag htag e he]
    exact zeroPadded_tagBytes (h.short tag htag) (h.chars tag htag)
  have hflash := fun t hlen ht => findFdFrom_flashOf himage h.count hpadded
    (t := t) (k := 0) hlen ht (Nat.zero_add imageCountMax)
  have hcache := fun t hlen => findFdByTag_flashOf himage h.count
    (t := t) (k := 0) hlen (Nat.zero_add imageCountMax)
  simp only [List.drop_zero, ← List.range_eq_range'] at hflash hcache
  refine ⟨bin, hbin, ?_, ?_⟩
  · intro tag htag
    obtain ⟨k, hk⟩ := List.getElem?_of_mem htag
    obtain ⟨e, he, hholds⟩ := himage.entry k tag hk
    have hlookup := h.lookup_of_mem htag he
    have hdesc := h.describes haddr htag he
    have hfind := hcache (tagBytes tag).toList Vector.length_toList
    rw [hlookup] at hfind
    refine ⟨e, e.fd, he, hdesc, ?_, hfind, ?_⟩
    · have hwalk := hflash (tagBytes tag).toList Vector.length_toList
        (zeroPadded_tagBytes (h.short tag htag) (h.chars tag htag))
      rw [hlookup] at hwalk
      exact hwalk
    · intro bufSize hbuf
      exact getFile_of_findFdByTag hfind hdesc hholds (h.words tag htag e he) hbuf
  · intro t hlen ht habsent
    have hlookup := h.lookup_of_notMem habsent
    have hwalk := hflash t hlen ht
    rw [hlookup] at hwalk
    exact ⟨hwalk, (hcache t hlen).trans hlookup⟩

end

-- ---
-- A small filesystem

variable {loadAddr : ℤ}

variable {spiAddr : ℤ}

theorem get_smallFs {tag : Tag} (htag : tag ∈ (smallFs spiAddr loadAddr).order) {e : FsEntry}
    (he : (smallFs spiAddr loadAddr).get tag = some e) :
    e = ⟨false, tag, [1, 2, 3, 4], spiAddr, loadAddr, true⟩ ∨
      e = ⟨false, tag, [9, 10, 11, 12], 0x16000, 0, true⟩ := by
  have hother : ∀ tag ∈ ["cmfw".toList, "ethfw".toList], tag ≠ failoverTag := by decide
  rw [BootFs.get, if_neg (hother tag htag)] at he
  exact entries_smallFs he

theorem mountable_smallFs : Mountable (smallFs 0x14000 loadAddr) where
  count := by
    show 2 ≤ imageCountMax
    decide
  distinct := by
    show ["cmfw".toList, "ethfw".toList].Nodup
    decide
  nonempty := by
    show ∀ tag ∈ ["cmfw".toList, "ethfw".toList], tag ≠ []
    decide
  short := by
    show ∀ tag ∈ ["cmfw".toList, "ethfw".toList], tag.length ≤ maxTagLen
    decide
  chars := by
    show ∀ tag ∈ ["cmfw".toList, "ethfw".toList], TagChars tag
    decide
  keyed := by
    intro tag htag e he
    obtain rfl | rfl := get_smallFs htag he <;> rfl
  words := by
    intro tag htag e he
    obtain rfl | rfl := get_smallFs htag he <;> exact (by decide : 4 % 4 = 0)
  size := by
    intro tag htag e he
    obtain rfl | rfl := get_smallFs htag he <;> exact (by decide : 4 < 2 ^ 24)
  placed := by
    intro tag htag e he
    obtain rfl | rfl := get_smallFs htag he
    · exact le_rfl
    · exact (by decide : (imageAddr : ℤ) ≤ 0x16000)

theorem failoverPlaced_smallFs : FailoverPlaced (smallFs spiAddr loadAddr) := by
  show (imageAddr : ℤ) ≤ 0x15000
  decide

theorem smallFs_agrees : (smallFs 0x14000 0x1000000).writes.isOk = true ∧
    Agrees (smallFs 0x14000 0x1000000) := by
  have hok : (smallFs 0x14000 0x1000000).writes.isOk = true := by decide +kernel
  obtain ⟨ws, hws⟩ := exists_of_isOk hok
  refine ⟨hok, builder_device_agree mountable_smallFs ⟨?_, ?_, ?_⟩ failoverPlaced_smallFs hws⟩
  all_goals
    intro tag htag e he
    obtain rfl | rfl := get_smallFs htag he <;> dsimp only <;> omega

-- ---
-- Without the conditions

def strayEntry : FsEntry := ⟨false, "stray".toList, [1, 2, 3, 4], 0x14000, 0, true⟩

def failoverInTable : BootFs where
  order := []
  entries := fun _ => none
  failover := ⟨false, [], strayEntry.fd.bytes, 0, 0, true⟩

theorem findFd_failoverInTable {bin : List UInt8} (hbin : failoverInTable.toBinary true = .ok bin) :
    ttBootFsFindFdByTag true (flashOf bin) (fun _ => true) (some (tagBytes strayEntry.tag).toList) =
      .ok strayEntry.fd := by
  have hstart : (failoverInTable.toBinary true).toOption.map (List.take fdSize) =
      some strayEntry.fd.bytes := by decide +kernel
  rw [hbin] at hstart
  have htake : bin.take fdSize = strayEntry.fd.bytes := Option.some.inj hstart
  have hlong : fdHeadAddr + 0 * fdSize + fdSize ≤ bin.length := by
    have hlen := congrArg List.length htake
    rw [List.length_take, Fd.length_bytes] at hlen
    simp only [fdHeadAddr, fdSize] at *
    omega
  have hslot : fdBytesAt (flashOf bin) 0 = strayEntry.fd.bytes := by
    rw [fdBytesAt, read_flashOf hlong, ← htake]
    rfl
  have hcmp : strncmpEq maxTagLen (tagBytes strayEntry.tag).toList strayEntry.fd.imageTag.toList =
      true := by decide
  show findFdFrom _ _ _ (31 + 1) 0 = _
  unfold findFdFrom readAndValidateFd
  simp [hslot, Fd.ofBytes_bytes, flagInvalid_fd, checksumOk_fd, hcmp]

/-- **Neither condition can be dropped**: a load address beyond 32 bits is lost in
the descriptor, and a failover image in the table can pass for a descriptor. -/
theorem builder_device_disagree :
    (∃ fs, Mountable fs ∧ FailoverPlaced fs ∧ (∃ ws, fs.writes = .ok ws) ∧ ¬ Agrees fs) ∧
    ∃ fs, Mountable fs ∧ Addressable fs ∧ (∃ ws, fs.writes = .ok ws) ∧ ¬ Agrees fs := by
  constructor
  · refine ⟨smallFs 0x14000 (2 ^ 32), mountable_smallFs, failoverPlaced_smallFs,
      exists_of_isOk (by decide +kernel), ?_⟩
    rintro ⟨bin, -, hfound, -⟩
    obtain ⟨e, fd, he, hdesc, -⟩ := hfound "cmfw".toList List.mem_cons_self
    have hload : e.loadAddr = 2 ^ 32 := by rw [← Option.some.inj he]
    have hlt := fd.copyDest.toNat_lt
    have := hdesc.loadAddr
    omega
  · have hnone : ∀ tag ∈ failoverInTable.order, False := fun _ htag => List.not_mem_nil htag
    refine ⟨failoverInTable, ?_, ?_, exists_of_isOk (by decide +kernel), ?_⟩
    · constructor
      · exact Nat.zero_le _
      · exact List.nodup_nil
      all_goals exact fun tag htag => (hnone tag htag).elim
    · constructor
      all_goals exact fun tag htag => (hnone tag htag).elim
    · rintro ⟨bin, hbin, -, habsent⟩
      have hmiss := (habsent (tagBytes strayEntry.tag).toList Vector.length_toList
        (zeroPadded_tagBytes (by decide) (by decide))
        fun tag htag => (hnone tag htag).elim).1
      rw [findFd_failoverInTable hbin] at hmiss
      simp at hmiss

end SystemFirmware.TtBootFs
