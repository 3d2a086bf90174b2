import Mathlib.Data.Nat.Basic
import Mathlib.Data.List.Basic

/-!
# Byte-addressed flash

A flash is a function from addresses to bytes. `read` copies a region out of it, `patch`
replaces the bytes of one region and nothing else; erasing, programming and whatever an
interrupted operation leaves behind are all patches (`patch_inside`, `patch_outside`).
-/

namespace SystemFirmware.Lib

abbrev Flash := ℕ → UInt8

namespace Flash

def read (f : Flash) (off len : ℕ) : List UInt8 := (List.range len).map fun i => f (off + i)

def patch (f : Flash) (off len : ℕ) (g : ℕ → UInt8) : Flash := fun a =>
  if off ≤ a ∧ a < off + len then g (a - off) else f a

def erase (f : Flash) (off len : ℕ) : Flash := patch f off len fun _ => 0xFF

/-- A successful write of `bytes` to an erased region. -/
def program (f : Flash) (off : ℕ) (bytes : List UInt8) : Flash :=
  patch f off bytes.length fun i => bytes[i]?.getD 0

/-- A write to a region that need not be erased: bits are only cleared. -/
def clearBits (f : Flash) (off : ℕ) (bytes : List UInt8) : Flash :=
  patch f off bytes.length fun i => f (off + i) &&& bytes[i]?.getD 0

variable {f f' : Flash} {off len n a : ℕ} {g : ℕ → UInt8} {bytes : List UInt8}

@[simp] theorem length_read : (read f off len).length = len := by
  simp [read]

theorem getElem_read {i : ℕ} (hi : i < (read f off len).length) :
    (read f off len)[i] = f (off + i) := by
  simp [read]

theorem read_congr (h : ∀ i < len, f (off + i) = f' (off + i)) :
    read f off len = read f' off len := by
  apply List.map_congr_left
  intro i hi
  exact h i (List.mem_range.mp hi)

theorem take_read {k : ℕ} (h : k ≤ len) : (read f off len).take k = read f off k := by
  apply List.ext_getElem (by rw [List.length_take, length_read, length_read, Nat.min_eq_left h])
  intro i _ _
  rw [List.getElem_take, getElem_read, getElem_read]

theorem drop_read {k : ℕ} : (read f off len).drop k = read f (off + k) (len - k) := by
  apply List.ext_getElem (by simp)
  intro i _ _
  rw [List.getElem_drop, getElem_read, getElem_read, Nat.add_assoc]

theorem read_part {pre part post : List UInt8}
    (h : read f off (pre ++ part ++ post).length = pre ++ part ++ post) :
    read f (off + pre.length) part.length = part := by
  have hpart : part.length ≤ (pre ++ part ++ post).length - pre.length := by
    rw [List.length_append, List.length_append]
    omega
  rw [← take_read hpart, ← drop_read, h, List.append_assoc, List.drop_left, List.take_left]

theorem read_append {m : ℕ} : read f off m ++ read f (off + m) n = read f off (m + n) := by
  rw [← take_read (Nat.le_add_right m n), ← List.take_append_drop m (read f off (m + n)),
    drop_read, Nat.add_sub_cancel_left, List.take_left' (by simp)]

theorem patch_outside (h : a < off ∨ off + len ≤ a) : patch f off len g a = f a :=
  if_neg (by omega)

theorem patch_inside (hlo : off ≤ a) (hhi : a < off + len) : patch f off len g a = g (a - off) :=
  if_pos ⟨hlo, hhi⟩

theorem program_inside {i : ℕ} (hi : i < bytes.length) :
    program f off bytes (off + i) = bytes[i] := by
  rw [program, patch_inside (by omega) (by omega), Nat.add_sub_cancel_left]
  simp [hi]

theorem program_outside (h : a < off ∨ off + bytes.length ≤ a) : program f off bytes a = f a :=
  patch_outside h

theorem read_program {k : ℕ} (h : k + n ≤ bytes.length) :
    read (program f off bytes) (off + k) n = (bytes.drop k).take n := by
  apply List.ext_getElem (by simp; omega)
  intro i hi _
  rw [length_read] at hi
  rw [getElem_read, Nat.add_assoc, program_inside (by omega)]
  simp

theorem read_program_self : read (program f off bytes) off bytes.length = bytes :=
  (read_program (k := 0) (by omega)).trans (List.take_length ..)

theorem read_program_outside (h : a + n ≤ off ∨ off + bytes.length ≤ a) :
    read (program f off bytes) a n = read f a n :=
  read_congr fun i _ => program_outside (by omega)

theorem program_append {more : List UInt8} :
    program f off (bytes ++ more) = program (program f off bytes) (off + bytes.length) more := by
  funext a
  have hlen : (bytes ++ more).length = bytes.length + more.length := List.length_append
  by_cases h : a < off ∨ off + (bytes ++ more).length ≤ a
  · rw [program_outside h, program_outside (by omega), program_outside (by omega)]
  · obtain ⟨i, rfl⟩ : ∃ i, a = off + i := ⟨a - off, by omega⟩
    rw [program_inside (by omega)]
    by_cases hi : i < bytes.length
    · rw [program_outside (by omega), program_inside hi, List.getElem_append_left]
    · obtain ⟨j, rfl⟩ : ∃ j, i = bytes.length + j := ⟨i - bytes.length, by omega⟩
      rw [← Nat.add_assoc, program_inside (by omega), List.getElem_append_right (by omega)]
      simp

theorem program_take_drop (h : n ≤ bytes.length) :
    program (program f off (bytes.take n)) (off + n) (bytes.drop n) = program f off bytes := by
  have happ := @program_append f off (bytes.take n) (bytes.drop n)
  rw [List.take_append_drop, List.length_take, Nat.min_eq_left h] at happ
  exact happ.symm

theorem program_of_read (h : read f off bytes.length = bytes) : program f off bytes = f := by
  funext a
  by_cases ha : a < off ∨ off + bytes.length ≤ a
  · exact program_outside ha
  · obtain ⟨i, rfl⟩ : ∃ i, a = off + i := ⟨a - off, by omega⟩
    have hi : i < bytes.length := by omega
    have hread : (read f off bytes.length)[i]? = some (f (off + i)) := by simp [read, hi]
    rw [h, List.getElem?_eq_getElem hi] at hread
    rw [program_inside hi]
    exact Option.some.inj hread

theorem program_pieces (k : ℕ) {m : ℕ} (h : m * k ≤ bytes.length) :
    (List.range m).foldl (fun f i => program f (off + i * k) ((bytes.drop (i * k)).take k)) f =
      program f off (bytes.take (m * k)) := by
  induction m with
  | zero => simpa using (program_of_read rfl).symm
  | succ m ih =>
    rw [Nat.succ_mul] at h
    rw [List.range_succ, List.foldl_append, ih (by omega), Nat.succ_mul, List.take_add,
      program_append, List.length_take_of_le (by omega)]
    rfl

theorem program_merged {k : ℕ} (h : k + bytes.length ≤ len) :
    program f off ((read f off len).take k ++ bytes ++ (read f off len).drop (k + bytes.length)) =
      program f (off + k) bytes := by
  have hfront : program f off (read f off k) = f := program_of_read (by rw [length_read])
  rw [take_read (by omega), drop_read, program_append, program_append, hfront, length_read]
  refine program_of_read ?_
  rw [List.length_append, length_read, length_read]
  exact read_program_outside (by omega)

theorem exists_program_ne (h : read f off bytes.length ≠ bytes) :
    ∃ a, (off ≤ a ∧ a < off + bytes.length) ∧ program f off bytes a ≠ f a := by
  by_contra hnone
  apply h
  refine Eq.trans (read_congr ?_) (read_program_self (f := f))
  intro i hi
  by_contra hne
  exact hnone ⟨off + i, by omega, fun heq => hne heq.symm⟩

theorem clearBits_erase : clearBits (erase f off bytes.length) off bytes = program f off bytes := by
  funext a
  by_cases ha : a < off ∨ off + bytes.length ≤ a
  · rw [program_outside ha, clearBits, patch_outside ha, erase, patch_outside ha]
  · obtain ⟨i, rfl⟩ : ∃ i, a = off + i := ⟨a - off, by omega⟩
    have hi : i < bytes.length := by omega
    rw [program_inside hi, clearBits, patch_inside (by omega) (by omega), erase,
      Nat.add_sub_cancel_left, patch_inside (by omega) (by omega), List.getElem?_eq_getElem hi,
      Option.getD_some]
    exact UInt8.neg_one_and

theorem read_program_concat :
    read (program f off bytes) 0 (off + bytes.length) = read f 0 off ++ bytes := by
  rw [← read_append, Nat.zero_add, read_program_self, read_program_outside (by omega)]

theorem read_program_replace {pre old post : List UInt8}
    (h : read f 0 len = pre ++ old ++ post) (hoff : pre.length = off)
    (hlen : old.length = bytes.length) :
    read (program f off bytes) 0 len = pre ++ bytes ++ post := by
  have hsum : len = off + bytes.length + post.length := by
    have := congrArg List.length h
    simp only [length_read, List.length_append] at this
    omega
  have hpre : read f 0 off = pre := by
    have htake := congrArg (List.take off) h
    rwa [take_read (by omega), List.append_assoc, List.take_left' hoff] at htake
  have hpost : read (program f off bytes) (0 + (off + bytes.length)) post.length = post := by
    have hdrop := congrArg (List.drop (off + bytes.length)) h
    rw [drop_read, List.drop_left' (by rw [List.length_append]; omega),
      show len - (off + bytes.length) = post.length by omega] at hdrop
    exact (read_program_outside (by omega)).trans hdrop
  rw [hsum, ← read_append, read_program_concat, hpre, hpost]

end Flash

end SystemFirmware.Lib
