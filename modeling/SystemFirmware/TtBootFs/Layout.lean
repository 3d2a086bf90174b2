import SystemFirmware.Lib.Bytes

/-!
# Boot filesystem — on-flash layout

The file descriptor as both sides see it: `tt_boot_fs_fd` of
`include/tenstorrent/tt_boot_fs.h` and the `ctypes` structure of the same name in
`scripts/tt_boot_fs.py`. Both lay it out as 32 little-endian bytes with the flag bits
packed from the least significant end (`Fd.ofBytes_bytes`).
-/

namespace SystemFirmware.TtBootFs

open Lib

/-! ## Flags -/

def fdFlags (imageSize : ℕ) (invalid executable : Bool) : UInt32 :=
  UInt32.ofNat (imageSize % 2 ^ 24 + 2 ^ 24 * invalid.toNat + 2 ^ 25 * executable.toNat)

def flagImageSize (flags : UInt32) : ℕ := flags.toNat % 2 ^ 24

def flagInvalid (flags : UInt32) : Bool := flags.toNat / 2 ^ 24 % 2 == 1

def flagExecutable (flags : UInt32) : Bool := flags.toNat / 2 ^ 25 % 2 == 1

section

variable {imageSize : ℕ} {invalid executable : Bool}

theorem toNat_fdFlags : (fdFlags imageSize invalid executable).toNat =
    imageSize % 2 ^ 24 + 2 ^ 24 * invalid.toNat + 2 ^ 25 * executable.toNat := by
  rw [fdFlags, UInt32.toNat_ofNat']
  have hinvalid := invalid.toNat_le
  have hexec := executable.toNat_le
  omega

@[simp] theorem flagImageSize_fdFlags :
    flagImageSize (fdFlags imageSize invalid executable) = imageSize % 2 ^ 24 := by
  rw [flagImageSize, toNat_fdFlags]
  omega

@[simp] theorem flagInvalid_fdFlags :
    flagInvalid (fdFlags imageSize invalid executable) = invalid := by
  have hexec := executable.toNat_le
  rw [flagInvalid, toNat_fdFlags]
  cases invalid <;> simp <;> omega

@[simp] theorem flagExecutable_fdFlags :
    flagExecutable (fdFlags imageSize invalid executable) = executable := by
  have hinvalid := invalid.toNat_le
  rw [flagExecutable, toNat_fdFlags]
  cases executable <;> simp <;> omega

end

/-! ## Descriptors -/

/-- `TT_BOOT_FS_IMAGE_TAG_SIZE`, `MAX_TAG_LEN`. -/
abbrev maxTagLen : ℕ := 8

@[ext]
structure Fd where
  spiAddr : UInt32
  copyDest : UInt32
  flags : UInt32
  dataCrc : UInt32
  securityFlags : UInt32
  imageTag : Vector UInt8 maxTagLen
  fdCrc : UInt32
  deriving DecidableEq

def fdSize : ℕ := 32

def Fd.beforeCrc (fd : Fd) : List UInt8 :=
  le32 fd.spiAddr ++ le32 fd.copyDest ++ le32 fd.flags ++ le32 fd.dataCrc ++
    le32 fd.securityFlags ++ fd.imageTag.toList

def Fd.bytes (fd : Fd) : List UInt8 := fd.beforeCrc ++ le32 fd.fdCrc

def Fd.ofBytes (bs : List UInt8) : Fd where
  spiAddr := ofLe32 (bs.take 4)
  copyDest := ofLe32 ((bs.drop 4).take 4)
  flags := ofLe32 ((bs.drop 8).take 4)
  dataCrc := ofLe32 ((bs.drop 12).take 4)
  securityFlags := ofLe32 ((bs.drop 16).take 4)
  imageTag := Vector.ofFn fun i => bs[20 + i.val]?.getD 0
  fdCrc := ofLe32 ((bs.drop 28).take 4)

variable {fd : Fd}

@[simp] theorem Fd.length_beforeCrc : fd.beforeCrc.length = 28 := by
  simp [beforeCrc, maxTagLen]

@[simp] theorem Fd.length_bytes : fd.bytes.length = fdSize := by
  simp [bytes, fdSize]

theorem Fd.ofBytes_bytes : Fd.ofBytes fd.bytes = fd := by
  have hlen : fd.imageTag.toList.length = maxTagLen := Vector.length_toList
  have hvector : (Vector.ofFn fun i => fd.bytes[20 + i.val]?.getD 0) = fd.imageTag := by
    apply Vector.ext
    intro i hi
    rw [Vector.getElem_ofFn, bytes, beforeCrc, List.append_assoc,
      List.getElem?_append_right (by simp)]
    have hpos : 20 + i - (le32 fd.spiAddr ++ le32 fd.copyDest ++ le32 fd.flags ++
        le32 fd.dataCrc ++ le32 fd.securityFlags).length = i := by simp
    rw [hpos, List.getElem?_append_left (by omega)]
    simp [hi]
  simp only [ofBytes, hvector]
  simp [bytes, beforeCrc, List.drop_append, List.drop_eq_nil_of_le, List.take_of_length_le]

example : Fd.ofBytes (Fd.bytes ⟨0x14000, 0x1000000, fdFlags 64 false true, 7, 0,
    #v[0x63, 0x6D, 0x66, 0x77, 0, 0, 0, 0], 9⟩) =
    ⟨0x14000, 0x1000000, fdFlags 64 false true, 7, 0,
      #v[0x63, 0x6D, 0x66, 0x77, 0, 0, 0, 0], 9⟩ := by decide

/-! ## Checksums -/

/-- The little-endian words of `data`, the last one shorter if need be. -/
def chunkSum : List UInt8 → ℕ
  | b₀ :: b₁ :: b₂ :: b₃ :: rest => leValue [b₀, b₁, b₂, b₃] + chunkSum rest
  | rest => leValue rest

/-- `cksum` of the build script. -/
def cksum (data : List UInt8) : UInt32 :=
  if data.length < 4 then 0 else UInt32.ofNat (chunkSum data)

/-- The word loop of `tt_boot_fs_cksum`. -/
def addWords : UInt32 → List UInt8 → UInt32
  | c, b₀ :: b₁ :: b₂ :: b₃ :: rest => addWords (c + ofLe32 [b₀, b₁, b₂, b₃]) rest
  | c, _ => c

/-- `tt_boot_fs_cksum`; `none` is its assertion that the size is a multiple of
four. -/
def ttBootFsCksum (c : UInt32) (data : List UInt8) : Option UInt32 :=
  if data.length = 0 then some 0
  else if data.length % 4 = 0 then some (addWords c data)
  else none

variable {data : List UInt8}

theorem eq_nil_of_no_word (h : data.length % 4 = 0)
    (hshort : ∀ b₀ b₁ b₂ b₃ rest, data = b₀ :: b₁ :: b₂ :: b₃ :: rest → False) : data = [] := by
  rcases data with _ | ⟨b₀, _ | ⟨b₁, _ | ⟨b₂, _ | ⟨b₃, rest⟩⟩⟩⟩
  · rfl
  · simp at h
  · simp at h
  · simp at h
  · exact (hshort b₀ b₁ b₂ b₃ rest rfl).elim

theorem addWords_eq_chunkSum {c : UInt32} (h : data.length % 4 = 0) :
    addWords c data = c + UInt32.ofNat (chunkSum data) := by
  fun_induction addWords c data with
  | case1 c b₀ b₁ b₂ b₃ rest ih =>
    have hrest : rest.length % 4 = 0 := by
      simp only [List.length_cons] at h
      omega
    rw [ih hrest, chunkSum, ofLe32, UInt32.ofNat_add, UInt32.add_assoc]
  | case2 rest c hshort =>
    obtain rfl := eq_nil_of_no_word h hshort
    simp [chunkSum, leValue]

theorem ttBootFsCksum_eq_cksum (h : data.length % 4 = 0) :
    ttBootFsCksum 0 data = some (cksum data) := by
  unfold ttBootFsCksum cksum
  by_cases hempty : data.length = 0
  · rw [if_pos hempty, if_pos (by omega)]
  · rw [if_neg hempty, if_pos h, if_neg (by omega), addWords_eq_chunkSum h, UInt32.zero_add]

end SystemFirmware.TtBootFs
