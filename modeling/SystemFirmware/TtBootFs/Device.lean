import SystemFirmware.TtBootFs.Layout
import SystemFirmware.Lib.Flash

/-!
# Boot filesystem — the device side

`lib/tenstorrent/boot_fs/tt_boot_fs.c`. There are two ways to look a file up:
`tt_boot_fs_find_fd_by_tag` walks the descriptor table on flash and stops at the first
invalid descriptor, the static `find_fd_by_tag` scans the cache that `tt_boot_fs_mount`
filled and skips invalid and damaged entries. The first compares tags with `strncmp`,
the second with `memcmp`.

Flash reads of the first may fail; `ioOk` says which, by the index of the descriptor,
each of which is read at most once in a call. The results of the HAL reads of the second
are ignored.
-/

namespace SystemFirmware.TtBootFs

open Lib

def imageCountMax : ℕ := 32

def fdHeadAddr : ℕ := 0

inductive Errno where
  | einval
  | eio
  | enxio
  | enoent
  deriving DecidableEq, Repr

/-- `strncmp(a, b, n) == 0`; the end of a list stands for the terminator. -/
def strncmpEq : ℕ → List UInt8 → List UInt8 → Bool
  | 0, _, _ => true
  | n + 1, a, b =>
    let x := a.headD 0
    let y := b.headD 0
    x == y && (x == 0 || strncmpEq n a.tail b.tail)

def memcmpEq (n : ℕ) (a b : List UInt8) : Bool := a.take n == b.take n

/-- `calculate_and_compare_checksum`, which no caller asks to skip. -/
def checksumOk (data : List UInt8) (expected : UInt32) : Bool :=
  ttBootFsCksum 0 data == some expected

/-! ## The descriptor table on flash -/

def fdBytesAt (f : Flash) (i : ℕ) : List UInt8 := Flash.read f (fdHeadAddr + i * fdSize) fdSize

/-- `read_and_validate_fd`: a descriptor, or `none` at the end of the table. -/
def readAndValidateFd (f : Flash) (ioOk : ℕ → Bool) (i : ℕ) : Except Errno (Option Fd) :=
  if !ioOk i then .error .eio
  else
    let bytes := fdBytesAt f i
    let fd := Fd.ofBytes bytes
    if flagInvalid fd.flags then .ok none
    else if checksumOk (bytes.take (fdSize - 4)) fd.fdCrc then .ok (some fd)
    else .error .enxio

/-- The loop of `tt_boot_fs_find_fd_by_tag` with `n` rounds left, at index `i`. -/
def findFdFrom (f : Flash) (ioOk : ℕ → Bool) (tag : List UInt8) : ℕ → ℕ → Except Errno Fd
  | 0, _ => .error .enoent
  | n + 1, i =>
    match readAndValidateFd f ioOk i with
    | .error e => .error e
    | .ok none => .error .enoent
    | .ok (some fd) =>
      if strncmpEq maxTagLen tag fd.imageTag.toList then .ok fd
      else findFdFrom f ioOk tag n (i + 1)

/-- `tt_boot_fs_find_fd_by_tag`; `tag` is `none` for a null pointer. -/
def ttBootFsFindFdByTag (ready : Bool) (f : Flash) (ioOk : ℕ → Bool) (tag : Option (List UInt8)) :
    Except Errno Fd :=
  match tag with
  | none => .error .einval
  | some tag => if !ready then .error .enxio else findFdFrom f ioOk tag imageCountMax 0

/-- The loop of `tt_boot_fs_ls` at index `i`, with `found` files so far and the stored elements of
`fds`; `none` after `fuel` rounds. -/
def lsFrom (f : Flash) (ioOk : ℕ → Bool) (hasFds : Bool) (nfds offset : ℕ) :
    (fuel i found : ℕ) → List (ℕ × Fd) → Option (Except Errno ℕ × List (ℕ × Fd))
  | 0, _, _, _ => none
  | fuel + 1, i, found, stored =>
    match readAndValidateFd f ioOk i with
    | .error e => some (.error e, stored)
    | .ok none => some (.ok found, stored)
    | .ok (some fd) =>
      if i ≥ offset then
        let stored := if hasFds ∧ found < nfds then stored ++ [(found, fd)] else stored
        if found + 1 = nfds then some (.ok (found + 1), stored)
        else lsFrom f ioOk hasFds nfds offset fuel (i + 1) (found + 1) stored
      else lsFrom f ioOk hasFds nfds offset fuel (i + 1) found stored

/-- `tt_boot_fs_ls`: what it returns, and stores into `fds` if that is not null. -/
def ttBootFsLs (ready : Bool) (f : Flash) (ioOk : ℕ → Bool) (hasFds : Bool) (nfds offset fuel : ℕ) :
    Option (Except Errno ℕ × List (ℕ × Fd)) :=
  if !ready then some (.error .enxio, [])
  else if nfds = 0 then some (.ok 0, [])
  else lsFrom f ioOk hasFds nfds offset fuel 0 0 []

/-! ## The cache -/

/-- `boot_fs_cache` as `tt_boot_fs_mount` loads it. -/
def ttBootFsMount (f : Flash) : List (List UInt8) := (List.range imageCountMax).map (fdBytesAt f)

/-- The static `find_fd_by_tag` over the cached descriptors. -/
def findFdByTag (tag : List UInt8) : List (List UInt8) → Option Fd
  | [] => none
  | bytes :: rest =>
    let fd := Fd.ofBytes bytes
    if flagInvalid fd.flags then findFdByTag tag rest
    else if !memcmpEq maxTagLen fd.imageTag.toList tag then findFdByTag tag rest
    else if !checksumOk (bytes.take (fdSize - 4)) fd.fdCrc then findFdByTag tag rest
    else some fd

inductive GetFileError where
  | err
  /-- The assertion in `tt_boot_fs_cksum`. -/
  | assertion
  deriving DecidableEq, Repr

/-- `tt_boot_fs_get_file`: the bytes stored into the buffer, as many as the reported size. -/
def ttBootFsGetFile (cache : List (List UInt8)) (f : Flash) (tag : List UInt8) (bufSize : ℕ) :
    Except GetFileError (List UInt8) :=
  match findFdByTag tag cache with
  | none => .error .err
  | some fd =>
    if flagImageSize fd.flags > bufSize then .error .err
    else
      let data := Flash.read f fd.spiAddr.toNat (flagImageSize fd.flags)
      match ttBootFsCksum 0 data with
      | none => .error .assertion
      | some c => if c == fd.dataCrc then .ok data else .error .err

end SystemFirmware.TtBootFs
