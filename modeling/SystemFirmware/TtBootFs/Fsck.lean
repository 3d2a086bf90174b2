import SystemFirmware.TtBootFs.Builder
import SystemFirmware.Lib.Except

/-!
# Boot filesystem — what reading an image accepts

`from_binary` reads the descriptors of an image and checks the data of each of them. The
size test of `check_entry` compares the length of the whole image with the size of one file
and leaves out where the file starts, and a slice beyond the end is shortened without
notice (`fromBinary_bounded`).
-/

namespace SystemFirmware.TtBootFs

open Lib

-- ---
-- The checks behind a result

def Fd.dataIn (fd : Fd) (data : List UInt8) : List UInt8 :=
  slice data fd.spiAddr.toNat (flagImageSize fd.flags)

def Fd.stop (fd : Fd) : ℕ := fd.spiAddr.toNat + flagImageSize fd.flags

def failoverFd (data : List UInt8) : Fd := Fd.ofBytes (slice data failoverHeadAddr fdSize)

/-- The tests of `check_entry`. The checksum is of the part of the file that is in the image. -/
def Passes (data : List UInt8) (alignment : ℕ) (tag : Tag) (fd : Fd) : Prop :=
  fd.spiAddr.toNat % alignment = 0 ∧ flagImageSize fd.flags + cksumSize ≤ data.length ∧
    (tag ∈ unchecked ∨ fd.dataCrc = cksum (fd.dataIn data))

def Fd.entry (fd : Fd) (tag : Tag) (data : List UInt8) : FsEntry where
  provisioningOnly := false
  tag := tag
  data := fd.dataIn data
  spiAddr := fd.spiAddr.toNat
  loadAddr := fd.copyDest.toNat
  executable := flagExecutable fd.flags

section

variable {tag : Tag} {fd : Fd} {data : List UInt8} {alignment : ℕ} {e : FsEntry} {fds : List Fd}
  {fs : BootFs}

theorem checkEntry_eq_ok : checkEntry tag fd data alignment = .ok e ↔
    Passes data alignment tag fd ∧ e = fd.entry tag data := by
  unfold checkEntry Passes
  dsimp only
  split_ifs with halign hsize hcrc
  · simp [halign]
  · simp [Nat.not_le.mpr hsize]
  · obtain ⟨hne, hchecked⟩ := hcrc
    refine iff_of_false (by simp) fun h => ?_
    exact h.1.2.2.elim hchecked hne
  · rw [not_and_or, not_not, not_not] at hcrc
    rw [and_iff_right ⟨not_not.mp halign, Nat.not_lt.mp hsize, hcrc.symm⟩, Except.ok.injEq]
    exact eq_comm

theorem checkEntries_ok {order : List Tag} {es : List FsEntry}
    (h : checkEntries fds data alignment order = .ok es) :
    (∀ e ∈ es, ∃ fd, lastWithTag fds e.tag = some fd ∧
      checkEntry e.tag fd data alignment = .ok e) ∧
    ∀ tag ∈ order, (lastWithTag fds tag).isSome → ∃ e ∈ es, e.tag = tag := by
  induction order generalizing es with
  | nil =>
    cases h
    simp
  | cons tag rest ih =>
    unfold checkEntries at h
    split at h
    · next hnone =>
      obtain ⟨hall, hhave⟩ := ih h
      refine ⟨hall, ?_⟩
      intro t ht hsome
      rcases List.mem_cons.mp ht with rfl | ht
      · rw [hnone] at hsome
        cases hsome
      · exact hhave t ht hsome
    · next fd hfd =>
      obtain ⟨e, hcheck, h⟩ := bind_eq_ok.mp h
      obtain ⟨more, hrest, h⟩ := bind_eq_ok.mp h
      obtain rfl := Except.ok.inj h
      obtain ⟨hall, hhave⟩ := ih hrest
      have htag : e.tag = tag := by rw [(checkEntry_eq_ok.mp hcheck).2]; rfl
      refine ⟨?_, ?_⟩
      · intro e' he'
        rcases List.mem_cons.mp he' with rfl | he'
        · rw [htag]
          exact ⟨fd, hfd, hcheck⟩
        · exact hall e' he'
      · intro t ht hsome
        rcases List.mem_cons.mp ht with rfl | ht
        · exact ⟨e, List.mem_cons_self, htag⟩
        · obtain ⟨e', he', htag'⟩ := hhave t ht hsome
          exact ⟨e', List.mem_cons_of_mem e he', htag'⟩

theorem checkEntries_of_passes {order : List Tag} (h : ∀ tag fd, lastWithTag fds tag = some fd →
    Passes data alignment tag fd) : ∃ es, checkEntries fds data alignment order = .ok es := by
  induction order with
  | nil => exact ⟨[], rfl⟩
  | cons tag rest ih =>
    obtain ⟨es, hes⟩ := ih
    unfold checkEntries
    split
    · exact ⟨es, hes⟩
    · next fd hfd =>
      rw [checkEntry_eq_ok.mpr ⟨h tag fd hfd, rfl⟩, hes]
      exact ⟨_, rfl⟩

theorem isSome_lastWithTag (h : tag ∈ fds.map Fd.imageTagStr) : (lastWithTag fds tag).isSome := by
  obtain ⟨fd, hfd, rfl⟩ := List.mem_map.mp h
  rw [lastWithTag, List.find?_isSome]
  exact ⟨fd, List.mem_reverse.mpr hfd, by simp⟩

theorem mem_order_of_lastWithTag (h : lastWithTag fds tag = some fd) :
    tag ∈ fds.map Fd.imageTagStr := by
  have hmem := List.mem_reverse.mp (List.mem_of_find?_eq_some h)
  exact List.mem_map.mpr ⟨fd, hmem, by simpa using List.find?_some h⟩

/-- The image is long enough for the training word, which is behind the failover's descriptor, and
holds it. -/
def Trained (data : List UInt8) : Prop :=
  spiRxAddr + 4 ≤ data.length ∧ ofLe32 (slice data spiRxAddr 4) = spiRxValue

theorem fromBinary_ok (h : fromBinary data alignment = .ok fs) :
    ∃ fds, iterFd data 0 = .ok fds ∧ Trained data ∧ fs.order = fds.map Fd.imageTagStr ∧
      (∀ tag e, fs.entries tag = some e → ∃ fd, lastWithTag fds tag = some fd ∧
        checkEntry tag fd data alignment = .ok e) ∧
      (∀ tag ∈ fs.order, ∃ e, fs.entries tag = some e) ∧
      checkEntry failoverTag (failoverFd data) data alignment = .ok fs.failover := by
  obtain ⟨fds, hfds, h⟩ := bind_eq_ok.mp h
  dsimp only at h
  split_ifs at h with _ hrx hword
  obtain ⟨es, hes, h⟩ := bind_eq_ok.mp h
  obtain ⟨failover, hfailover, h⟩ := bind_eq_ok.mp h
  obtain rfl := Except.ok.inj h
  obtain ⟨hall, hhave⟩ := checkEntries_ok hes
  refine ⟨fds, hfds, ⟨Nat.not_lt.mp hrx, not_not.mp hword⟩, rfl, ?_, ?_, hfailover⟩
  · intro tag e he
    obtain rfl : e.tag = tag := by simpa using List.find?_some he
    exact hall e (List.mem_of_find?_eq_some he)
  · intro tag htag
    obtain ⟨e, he, hetag⟩ := hhave tag htag (isSome_lastWithTag htag)
    exact Option.isSome_iff_exists.mp (List.find?_isSome.mpr ⟨e, he, by simpa using hetag⟩)

theorem fromBinary_of_passes (hfds : iterFd data 0 = .ok fds) (htrained : Trained data)
    (hentries : ∀ tag fd, lastWithTag fds tag = some fd → Passes data alignment tag fd)
    (hfailover : Passes data alignment failoverTag (failoverFd data)) :
    ∃ fs, fromBinary data alignment = .ok fs := by
  obtain ⟨es, hes⟩ := @checkEntries_of_passes data alignment fds (fds.map Fd.imageTagStr) hentries
  have hlen := htrained.1
  have hhead : ¬ data.length < failoverHeadAddr + fdSize := by
    simp only [spiRxAddr, failoverHeadAddr, fdSize] at *
    omega
  have hcheck := checkEntry_eq_ok.mpr ⟨hfailover, rfl⟩
  unfold failoverFd at hcheck
  unfold fromBinary
  simp only [hfds, bind, Except.bind, hes, hcheck]
  rw [if_neg hhead, if_neg (by omega), if_neg (not_not_intro htrained.2)]
  exact ⟨_, rfl⟩

theorem fromBinary_no_files (hfds : iterFd data 0 = .ok []) (hlen : spiRxAddr + 4 ≤ data.length)
    (hrx : slice data spiRxAddr 4 = le32 spiRxValue)
    (h : checkEntry failoverTag (failoverFd data) data alignment = .ok e) :
    fromBinary data alignment = .ok ⟨[], fun _ => none, e⟩ := by
  have hhead : ¬ data.length < failoverHeadAddr + fdSize := by
    simp only [spiRxAddr, failoverHeadAddr, fdSize] at *
    omega
  unfold failoverFd at h
  unfold fromBinary
  simp only [hfds, bind, Except.bind, List.map_nil, checkEntries, h, hrx, ofLe32_le32]
  rw [if_neg hhead, if_neg (by omega), if_neg (fun hne => hne rfl)]
  rfl

theorem length_dataIn (h : fd.stop ≤ data.length) :
    (fd.dataIn data).length = flagImageSize fd.flags := by
  unfold Fd.stop at h
  rw [Fd.dataIn, slice, List.length_take, List.length_drop]
  omega

-- ---
-- Files inside the image

/-- The range of the descriptor lies inside the image, and the entry has as many bytes. -/
def Inside (data : List UInt8) (fd : Fd) (e : FsEntry) : Prop :=
  fd.spiAddr.toNat + flagImageSize fd.flags ≤ data.length ∧ e.data.length = flagImageSize fd.flags

theorem inside_entry (h : fd.stop ≤ data.length) : Inside data fd (fd.entry tag data) :=
  ⟨h, length_dataIn h⟩

end

/-- **When the files of an accepted image are inside of it**: every entry that `from_binary` returns
comes from a descriptor whose range lies inside, exactly if no range reaches beyond the end, or the
image is refused all the same: by the scan, for its training word, or because a file does not pass
the tests, which do not look at where it ends. -/
theorem fromBinary_bounded (data : List UInt8) (alignment : ℕ) :
    (∀ fs, fromBinary data alignment = .ok fs →
      ∃ fds, iterFd data 0 = .ok fds ∧ fs.order = fds.map Fd.imageTagStr ∧
        (∀ tag ∈ fs.order, ∃ e, fs.entries tag = some e) ∧
        (∀ tag e, fs.entries tag = some e →
          ∃ fd, lastWithTag fds tag = some fd ∧ Inside data fd e) ∧
        Inside data (failoverFd data) fs.failover) ↔
    ∀ fds, iterFd data 0 = .ok fds → Trained data →
      (∀ tag fd, lastWithTag fds tag = some fd → Passes data alignment tag fd) →
      Passes data alignment failoverTag (failoverFd data) →
      (∀ tag fd, lastWithTag fds tag = some fd → fd.stop ≤ data.length) ∧
        (failoverFd data).stop ≤ data.length := by
  constructor
  · intro hbounded fds hfds htrained hentries hfailover
    obtain ⟨fs, hfs⟩ := fromBinary_of_passes hfds htrained hentries hfailover
    obtain ⟨fds', hfds', horder, hhave, hinside, hlast⟩ := hbounded fs hfs
    obtain rfl : fds' = fds := Except.ok.inj (hfds'.symm.trans hfds)
    refine ⟨fun tag fd hfd => ?_, hlast.1⟩
    obtain ⟨e, he⟩ := hhave tag (horder ▸ mem_order_of_lastWithTag hfd)
    obtain ⟨fd', hfd', hin, -⟩ := hinside tag e he
    obtain rfl : fd' = fd := Option.some.inj (hfd'.symm.trans hfd)
    exact hin
  · intro hstop fs hfs
    obtain ⟨fds, hfds, htrained, horder, hentries, hhave, hfailover⟩ := fromBinary_ok hfs
    have hpasses : ∀ tag fd, lastWithTag fds tag = some fd → Passes data alignment tag fd := by
      intro tag fd hfd
      obtain ⟨e, he⟩ := hhave tag (horder ▸ mem_order_of_lastWithTag hfd)
      obtain ⟨fd', hfd', hcheck⟩ := hentries tag e he
      obtain rfl : fd' = fd := Option.some.inj (hfd'.symm.trans hfd)
      exact (checkEntry_eq_ok.mp hcheck).1
    obtain ⟨hlastPasses, hlast⟩ := checkEntry_eq_ok.mp hfailover
    obtain ⟨hin, hfailoverIn⟩ := hstop fds hfds htrained hpasses hlastPasses
    refine ⟨fds, hfds, horder, hhave, fun tag e he => ?_, hlast ▸ inside_entry hfailoverIn⟩
    obtain ⟨fd, hfd, hcheck⟩ := hentries tag e he
    exact ⟨fd, hfd, (checkEntry_eq_ok.mp hcheck).2 ▸ inside_entry (hin tag fd hfd)⟩

def failoverOnly (fd : Fd) : List UInt8 :=
  List.replicate failoverHeadAddr 0xFF ++ (fd.bytes ++
    (List.replicate (spiRxAddr - failoverHeadAddr - fdSize) 0xFF ++ le32 spiRxValue))

section

variable {fd : Fd}

theorem length_failoverOnly : (failoverOnly fd).length = 0x14000 := by
  simp only [failoverOnly, List.length_append, List.length_replicate, Fd.length_bytes,
    length_le32, failoverHeadAddr, spiRxAddr, fdSize]

theorem slice_failoverOnly_erased {n : ℕ} (hn : n ≤ failoverHeadAddr) :
    slice (failoverOnly fd) 0 n = List.replicate n 0xFF := by
  rw [slice, List.drop_zero, failoverOnly, List.take_append_of_le_length (by simpa using hn),
    List.take_replicate, Nat.min_eq_left hn]

theorem failoverFd_failoverOnly : failoverFd (failoverOnly fd) = fd := by
  rw [failoverFd, slice, failoverOnly, List.drop_left' List.length_replicate,
    List.take_left' Fd.length_bytes, Fd.ofBytes_bytes]

theorem spiRx_failoverOnly : slice (failoverOnly fd) spiRxAddr 4 = le32 spiRxValue := by
  have hsplit : failoverOnly fd = (List.replicate failoverHeadAddr 0xFF ++ (fd.bytes ++
      List.replicate (spiRxAddr - failoverHeadAddr - fdSize) 0xFF)) ++ le32 spiRxValue := by
    simp only [failoverOnly, List.append_assoc]
  have hlen : (List.replicate failoverHeadAddr 0xFF ++ (fd.bytes ++
      List.replicate (spiRxAddr - failoverHeadAddr - fdSize) 0xFF)).length = spiRxAddr := by
    simp only [List.length_append, List.length_replicate, Fd.length_bytes, failoverHeadAddr,
      spiRxAddr, fdSize]
  rw [slice, hsplit, List.drop_left' hlen]
  exact List.take_of_length_le (by rw [length_le32])

theorem iterFd_failoverOnly : iterFd (failoverOnly fd) 0 = .ok [] := by
  have hinvalid : flagInvalid (Fd.ofBytes (List.replicate fdSize 0xFF)).flags = true := by decide
  rw [iterFd, if_pos (by rw [length_failoverOnly]; decide), slice_failoverOnly_erased (by decide)]
  dsimp only
  rw [if_pos hinvalid]

theorem fromBinary_failoverOnly {e : FsEntry} {alignment : ℕ}
    (h : checkEntry failoverTag fd (failoverOnly fd) alignment = .ok e) :
    fromBinary (failoverOnly fd) alignment = .ok ⟨[], fun _ => none, e⟩ := by
  refine fromBinary_no_files iterFd_failoverOnly ?_ spiRx_failoverOnly ?_
  · rw [length_failoverOnly]
    decide
  · rw [failoverFd_failoverOnly]
    exact h

end

def fourBytes (spiAddr dataCrc : UInt32) : Fd :=
  ⟨spiAddr, 0, fdFlags 4 false true, dataCrc, 0, Vector.replicate maxTagLen 0, 0⟩

/-- A failover behind the end of the image: the checksum of nothing is 0, and so says its
descriptor. -/
theorem fromBinary_beyond_end : ∃ fs,
    fromBinary (failoverOnly (fourBytes 0x14000 0)) 0x1000 = .ok fs ∧
      failoverFd (failoverOnly (fourBytes 0x14000 0)) = fourBytes 0x14000 0 ∧
      (failoverOnly (fourBytes 0x14000 0)).length < (fourBytes 0x14000 0).stop ∧
      fs.failover.data.length ≠ flagImageSize (fourBytes 0x14000 0).flags := by
  have hdata : slice (failoverOnly (fourBytes 0x14000 0)) (fourBytes 0x14000 0).spiAddr.toNat
      (flagImageSize (fourBytes 0x14000 0).flags) = [] := by
    rw [slice, List.drop_eq_nil_of_le (by rw [length_failoverOnly]; decide), List.take_nil]
  have hcheck : checkEntry failoverTag (fourBytes 0x14000 0) (failoverOnly (fourBytes 0x14000 0))
      0x1000 = .ok ⟨false, failoverTag, [], 0x14000, 0, true⟩ := by
    unfold checkEntry
    dsimp only
    rw [hdata, length_failoverOnly]
    decide
  refine ⟨_, fromBinary_failoverOnly hcheck, failoverFd_failoverOnly, ?_, by decide⟩
  rw [length_failoverOnly]
  decide

end SystemFirmware.TtBootFs
