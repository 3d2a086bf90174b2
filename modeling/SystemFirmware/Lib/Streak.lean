import Mathlib.Data.List.Basic

/-!
# Streaks at the end of a history

`LastAll n p hist`: there are `n` last entries of a history and all have the property `p`.
A counter that is increased while entries have the property, up to a cap, and reset by one
that does not, decides it for every `n` up to the cap (`Counts.concat`).

`FirstAfter reset j k`: of the moments up to `k`, `j` is the first one after the last reset
before `k`. A timer that resets stop is started there.
-/

namespace SystemFirmware.Lib

variable {α : Type*}

def LastAll (n : ℕ) (p : α → Prop) (hist : List α) : Prop :=
  n ≤ hist.length ∧ ∀ x ∈ hist.drop (hist.length - n), p x

variable {p : α → Prop} {hist : List α} {x : α} {n : ℕ}

theorem lastAll_zero : LastAll 0 p hist := by
  refine ⟨Nat.zero_le _, fun x hx => ?_⟩
  rw [Nat.sub_zero, List.drop_length] at hx
  exact absurd hx List.not_mem_nil

theorem lastAll_concat_succ : LastAll (n + 1) p (hist ++ [x]) ↔ p x ∧ LastAll n p hist := by
  have hlen : (hist ++ [x]).length - (n + 1) = hist.length - n := by
    rw [List.length_append, List.length_singleton]
    omega
  rw [LastAll, LastAll, hlen, List.drop_append_of_le_length (Nat.sub_le _ _), List.length_append,
    List.length_singleton, Nat.add_le_add_iff_right, List.forall_mem_append,
    List.forall_mem_singleton]
  constructor
  · rintro ⟨hle, hbefore, hx⟩
    exact ⟨hx, hle, hbefore⟩
  · rintro ⟨hx, hle, hbefore⟩
    exact ⟨hle, hbefore, hx⟩

def Counts (cap : ℕ) (p : α → Prop) (hist : List α) (count : ℕ) : Prop :=
  ∀ n ≤ cap, n ≤ count ↔ LastAll n p hist

theorem Counts.nil {cap : ℕ} : Counts cap p [] 0 := by
  intro n _
  constructor
  · intro hn
    rw [Nat.le_zero.mp hn]
    exact lastAll_zero
  · exact And.left

theorem Counts.concat {cap count count' : ℕ} (h : Counts cap p hist count)
    (hhit : p x → count' = min (count + 1) cap) (hmiss : ¬p x → count' = 0) :
    Counts cap p (hist ++ [x]) count' := by
  intro n hn
  rcases n with _ | n
  · exact ⟨fun _ => lastAll_zero, fun _ => Nat.zero_le _⟩
  · rw [lastAll_concat_succ, ← h n (by omega)]
    by_cases hx : p x
    · rw [hhit hx]
      exact ⟨fun hle => ⟨hx, by omega⟩, fun hle => by omega⟩
    · rw [hmiss hx]
      exact ⟨fun hle => by omega, fun hle => absurd hle.1 hx⟩

-- ---
-- The first moment after the last reset

/-- There is no reset from `j` on before `k`, and there is one just before `j` unless `j` is the
beginning. -/
structure FirstAfter (reset : ℕ → Prop) (j k : ℕ) : Prop where
  le : j ≤ k
  start : j = 0 ∨ ∃ i, j = i + 1 ∧ reset i
  since : ∀ i, j ≤ i → i < k → ¬reset i

section

variable {reset : ℕ → Prop} {i j k : ℕ}

theorem FirstAfter.zero : FirstAfter reset 0 0 :=
  ⟨Nat.le_refl _, .inl rfl, fun _ _ hi => absurd hi (Nat.not_lt_zero _)⟩

theorem FirstAfter.restart (h : reset k) : FirstAfter reset (k + 1) (k + 1) :=
  ⟨Nat.le_refl _, .inr ⟨k, rfl, h⟩, fun _ hge hlt => absurd hlt (Nat.not_lt.mpr hge)⟩

theorem FirstAfter.next (h : FirstAfter reset j k) (hk : ¬reset k) :
    FirstAfter reset j (k + 1) := by
  refine ⟨Nat.le_succ_of_le h.le, h.start, fun i hge hlt => ?_⟩
  rcases Nat.lt_or_eq_of_le (Nat.le_of_lt_succ hlt) with hlt | rfl
  · exact h.since i hge hlt
  · exact hk

theorem FirstAfter.not_lt (hi : FirstAfter reset i k) (hj : FirstAfter reset j k) : ¬i < j := by
  intro hlt
  -- the reset just before `j` would be one since `i`
  rcases hj.start with rfl | ⟨m, rfl, hreset⟩
  · exact absurd hlt (Nat.not_lt_zero _)
  · exact hi.since m (Nat.le_of_lt_succ hlt) hj.le hreset

theorem FirstAfter.unique (hi : FirstAfter reset i k) (hj : FirstAfter reset j k) : i = j :=
  Nat.le_antisymm (Nat.not_lt.mp (hj.not_lt hi)) (Nat.not_lt.mp (hi.not_lt hj))

end

end SystemFirmware.Lib
