import Mathlib.Algebra.BigOperators.Group.List.Basic
import Mathlib.Algebra.Ring.Nat
import Mathlib.Data.List.Basic

/-!
# Circular buffers of the last values

A buffer of fixed size with a cursor at its oldest value, which the next value replaces.
`oldestFirst` reads it in the order of time (`oldestFirst_store`).
-/

namespace SystemFirmware.Lib.Circular

variable {α : Type*}

/-- The buffer from the cursor on, and then from the start. -/
def oldestFirst (buf : List α) (cursor : ℕ) : List α := buf.drop cursor ++ buf.take cursor

def advance (n cursor : ℕ) : ℕ := if cursor + 1 = n then 0 else cursor + 1

theorem advance_lt {n cursor : ℕ} (h : cursor < n) : advance n cursor < n := by
  unfold advance
  split_ifs <;> omega

section

variable {buf : List α} {cursor : ℕ}

theorem oldestFirst_perm : (oldestFirst buf cursor).Perm buf := by
  have hperm : (buf.drop cursor ++ buf.take cursor).Perm (buf.take cursor ++ buf.drop cursor) :=
    List.perm_append_comm
  rwa [List.take_append_drop] at hperm

theorem oldestFirst_cons (h : cursor < buf.length) :
    oldestFirst buf cursor = buf[cursor] :: (buf.drop (cursor + 1) ++ buf.take cursor) := by
  rw [oldestFirst, List.drop_eq_getElem_cons h, List.cons_append]

theorem sum_map_oldestFirst (f : α → ℕ) : ((oldestFirst buf cursor).map f).sum = (buf.map f).sum :=
  (oldestFirst_perm.map f).sum_eq

theorem oldestFirst_store (h : cursor < buf.length) (x : α) :
    oldestFirst (buf.set cursor x) (advance buf.length cursor) =
      (oldestFirst buf cursor).tail ++ [x] := by
  have htake : (buf.set cursor x).take (cursor + 1) = buf.take cursor ++ [x] := by
    rw [List.take_succ_eq_append_getElem (by rw [List.length_set]; exact h),
      List.take_set_of_le (Nat.le_refl cursor), List.getElem_set_self]
  have hdrop : (buf.set cursor x).drop (cursor + 1) = buf.drop (cursor + 1) :=
    List.drop_set_of_lt (Nat.lt_succ_self cursor)
  rw [oldestFirst_cons h, List.tail_cons, List.append_assoc, ← htake, ← hdrop]
  by_cases hend : cursor + 1 = buf.length
  · -- The cursor goes back to the start, and nothing is behind the new value.
    have hlen : (buf.set cursor x).length ≤ cursor + 1 := by
      rw [List.length_set]
      omega
    rw [advance, if_pos hend, oldestFirst, List.drop_zero, List.take_zero, List.append_nil,
      List.drop_eq_nil_of_le hlen, List.nil_append, List.take_of_length_le hlen]
  · rw [advance, if_neg hend, oldestFirst]

theorem sum_map_store (h : cursor < buf.length) (x : α) (f : α → ℕ) :
    ((buf.set cursor x).map f).sum + f buf[cursor] = (buf.map f).sum + f x := by
  have hbefore : ((oldestFirst buf cursor).map f).sum = (buf.map f).sum := sum_map_oldestFirst f
  have hafter : ((oldestFirst (buf.set cursor x) (advance buf.length cursor)).map f).sum =
      ((buf.set cursor x).map f).sum := sum_map_oldestFirst f
  rw [oldestFirst_store h, oldestFirst_cons h, List.tail_cons, List.map_append, List.sum_append,
    List.map_singleton, List.sum_singleton] at hafter
  rw [oldestFirst_cons h, List.map_cons, List.sum_cons] at hbefore
  omega

end

/-- In the order of time, the buffer is the end of `hist` behind a buffer full of `z`. -/
def Recent (z : α) (buf : List α) (cursor : ℕ) (hist : List α) : Prop :=
  oldestFirst buf cursor = (List.replicate buf.length z ++ hist).drop hist.length

section

variable {z x : α} {buf hist : List α} {cursor : ℕ}

theorem Recent.init {n : ℕ} : Recent z (List.replicate n z) 0 [] := by
  rw [Recent, oldestFirst, List.drop_zero, List.take_zero, List.length_replicate, List.length_nil,
    List.drop_zero]

theorem Recent.store (h : Recent z buf cursor hist) (hcursor : cursor < buf.length) :
    Recent z (buf.set cursor x) (advance buf.length cursor) (hist ++ [x]) := by
  have hle : hist.length + 1 ≤ (List.replicate buf.length z ++ hist).length := by
    rw [List.length_append, List.length_replicate]
    omega
  rw [Recent, oldestFirst_store hcursor, h, List.tail_drop, List.length_set, ← List.append_assoc,
    List.length_append, List.length_singleton, List.drop_append_of_le_length hle]

theorem Recent.sum_map (h : Recent z buf cursor hist) {f : α → ℕ} (hz : f z = 0) :
    (buf.map f).sum = ((hist.drop (hist.length - buf.length)).map f).sum := by
  have hsum : ((oldestFirst buf cursor).map f).sum = (buf.map f).sum := sum_map_oldestFirst f
  rw [← hsum, h, List.drop_append, List.length_replicate, List.drop_replicate,
    List.map_append, List.sum_append, List.map_replicate, hz, List.sum_replicate_nat,
    Nat.mul_zero, Nat.zero_add]

end

end SystemFirmware.Lib.Circular
