import Mathlib.Algebra.Ring.Nat
import SystemFirmware.Lib.Flash

/-!
# GDB remote — memory accesses

`read_memory` and `write_memory` of `scripts/pyluwen_gdb_remote.py`. The chip is accessed
by aligned words; a word is given by the four bytes that `struct.pack` makes of it. A write
of four bytes or more does not look at the alignment: each full word goes to its address
rounded down (`write_memory_exact`).
-/

namespace SystemFirmware.GdbRemote

open Lib

def wordAddr (address : ℕ) : ℕ := address % 2 ^ 32 / 4 * 4

def readMemory (mem : Flash) : (fuel address length : ℕ) → Option (List UInt8)
  | 0, _, _ => none
  | fuel + 1, address, length =>
    if length = 0 then some []
    else
      let word := mem.read (wordAddr address) 4
      let startOffset := address - wordAddr address
      let bytesNeeded := min (4 - startOffset) length
      (readMemory mem fuel (address + bytesNeeded) (length - bytesNeeded)).map fun later =>
        (word.drop startOffset).take bytesNeeded ++ later

def writeMemory : (fuel : ℕ) → Flash → (address : ℕ) → (data : List UInt8) → Option Flash
  | 0, _, _, _ => none
  | fuel + 1, mem, address, data =>
    if data.length = 0 then some mem
    else if 4 ≤ data.length then
      writeMemory fuel (mem.program (wordAddr address) (data.take 4)) (address + 4) (data.drop 4)
    else
      let word := mem.read (wordAddr address) 4
      let startOffset := address - wordAddr address
      let n := min (4 - startOffset) data.length
      let newWord := word.take startOffset ++ data.take n ++ word.drop (startOffset + n)
      writeMemory fuel (mem.program (wordAddr address) newWord) (address + n) (data.drop n)

variable {address : ℕ}

theorem wordAddr_add (h : address < 2 ^ 32) :
    wordAddr address + (address - wordAddr address) = address ∧
      address - wordAddr address = address % 4 := by
  unfold wordAddr
  omega

variable {mem : Flash} {fuel : ℕ}

theorem readMemory_eq {length : ℕ} (hfuel : length < fuel) (hend : address + length ≤ 2 ^ 32) :
    readMemory mem fuel address length = some (mem.read address length) := by
  induction fuel generalizing address length with
  | zero => omega
  | succ fuel ih =>
    rw [readMemory]
    by_cases hzero : length = 0
    · rw [if_pos hzero, hzero]
      rfl
    obtain ⟨hsum, hoff⟩ := wordAddr_add (show address < 2 ^ 32 by omega)
    obtain ⟨n, hn⟩ : ∃ n, min (4 - (address - wordAddr address)) length = n := ⟨_, rfl⟩
    simp only [if_neg hzero, hn]
    rw [ih (by omega) (by omega), Flash.drop_read, hsum, Flash.take_read (by omega),
      Option.map_some, Flash.read_append, Nat.add_sub_of_le (by omega)]

theorem writeMemory_eq {data : List UInt8} (hfuel : data.length < fuel)
    (hend : address + data.length ≤ 2 ^ 32) (hword : address % 4 = 0 ∨ data.length < 4) :
    writeMemory fuel mem address data = some (mem.program address data) := by
  induction fuel generalizing mem address data with
  | zero => omega
  | succ fuel ih =>
    rw [writeMemory]
    by_cases hzero : data.length = 0
    · rw [if_pos hzero, List.eq_nil_of_length_eq_zero hzero, Flash.program_of_read rfl]
    rw [if_neg hzero]
    obtain ⟨hsum, hoff⟩ := wordAddr_add (show address < 2 ^ 32 by omega)
    by_cases hfull : 4 ≤ data.length
    · have hdrop := List.length_drop (i := 4) (l := data)
      rw [if_pos hfull, show wordAddr address = address by omega, ih (by omega) (by omega) (by omega),
        Flash.program_take_drop hfull]
    · obtain ⟨n, hn⟩ : ∃ n, min (4 - (address - wordAddr address)) data.length = n := ⟨_, rfl⟩
      have hdrop := List.length_drop (i := n) (l := data)
      have htake : (data.take n).length = n := List.length_take_of_le (by omega)
      have hmerged := @Flash.program_merged mem (wordAddr address) 4 (data.take n)
        (address - wordAddr address) (by omega)
      rw [htake, hsum] at hmerged
      simp only [if_neg hfull, hn, hmerged]
      rw [ih (by omega) (by omega) (by omega), Flash.program_take_drop (by omega)]

theorem writeMemory_below {mem' : Flash} {data : List UInt8} {a : ℕ}
    (hend : address + data.length ≤ 2 ^ 32) (ha : a < address / 4 * 4)
    (h : writeMemory fuel mem address data = some mem') : mem' a = mem a := by
  induction fuel generalizing mem address data with
  | zero => cases h
  | succ fuel ih =>
    rw [writeMemory] at h
    by_cases hzero : data.length = 0
    · rw [if_pos hzero] at h
      rw [Option.some.inj h]
    have hword : wordAddr address = address / 4 * 4 := by
      unfold wordAddr
      omega
    rw [if_neg hzero, hword] at h
    split at h
    · have hdrop := List.length_drop (i := 4) (l := data)
      rw [ih (by omega) (by omega) h, Flash.program_outside (by omega)]
    · have hdrop := List.length_drop (i := min (4 - (address - address / 4 * 4)) data.length)
        (l := data)
      rw [ih (by omega) (by omega) h, Flash.program_outside (by omega)]

/-- The first full word of a write that is not aligned begins below its address. -/
theorem writeMemory_unaligned {data : List UInt8} (hend : address + data.length ≤ 2 ^ 32)
    (hunaligned : address % 4 ≠ 0) (hfull : 4 ≤ data.length)
    (h : writeMemory fuel mem address data = some (mem.program address data)) :
    mem (address / 4 * 4) = data.head?.getD 0 := by
  rcases fuel with _ | fuel
  · cases h
  have hword : wordAddr address = address / 4 * 4 := by
    unfold wordAddr
    omega
  have hdrop := List.length_drop (i := 4) (l := data)
  rw [writeMemory, if_neg (by omega), if_pos hfull, hword] at h
  have hbelow := writeMemory_below (by omega) (show address / 4 * 4 < (address + 4) / 4 * 4 by omega) h
  rw [Flash.program_outside (by omega)] at hbelow
  rw [hbelow]
  cases data with
  | nil => simp at hfull
  | cons b data =>
    have hfirst := @Flash.program_inside mem (address / 4 * 4) (b :: data.take 3) 0 (by simp)
    simpa using hfirst

/-- **When writes are exact.** For an address and a length, every write changes exactly the bytes it
is for, and they are read back, exactly if the address is aligned or the length is less than a
word. -/
theorem write_memory_exact {fuel address length : ℕ} (hfuel : length < fuel)
    (hend : address + length ≤ 2 ^ 32) :
    (∀ (mem : Flash) (data : List UInt8), data.length = length →
      writeMemory fuel mem address data = some (mem.program address data) ∧
        readMemory (mem.program address data) fuel address length = some data) ↔
      address % 4 = 0 ∨ length < 4 := by
  constructor
  · intro hexact
    by_contra hnot
    obtain ⟨hunaligned, hfull⟩ := not_or.mp hnot
    have hlength : (List.replicate length (1 : UInt8)).length = length := List.length_replicate
    have hbyte := writeMemory_unaligned (by omega) hunaligned (by omega)
      (hexact (fun _ => 0) _ hlength).1
    rw [List.head?_replicate, if_neg (by omega)] at hbyte
    exact absurd hbyte (by decide)
  · rintro hword mem data rfl
    refine ⟨writeMemory_eq hfuel hend hword, ?_⟩
    rw [readMemory_eq hfuel hend, Flash.read_program_self]

theorem write_memory_exact_crossing :
    writeMemory 4 (fun _ => 0) 7 [1, 2, 3] = some (Flash.program (fun _ => 0) 7 [1, 2, 3]) :=
  ((@write_memory_exact 4 7 3 (by decide) (by decide)).mpr (Or.inr (by decide))
    (fun _ => 0) [1, 2, 3] rfl).1

/-- Four bytes for address 2 are written to address 0. -/
theorem write_memory_not_exact : ∃ mem, writeMemory 5 (fun _ => 0) 2 [1, 2, 3, 4] = some mem ∧
    mem.read 0 8 = [1, 2, 3, 4, 0, 0, 0, 0] ∧ readMemory mem 5 2 4 = some [3, 4, 0, 0] :=
  ⟨_, rfl, rfl, rfl⟩

end SystemFirmware.GdbRemote
