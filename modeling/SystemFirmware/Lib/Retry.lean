import Mathlib.Data.Nat.Basic

/-!
# Bounded retries

An attempt changes a state and returns a result, which counts as a failure or not. `retry
attempt failed n` makes one attempt and, as long as they fail, up to `n` more
(`retry_rule`).
-/

namespace SystemFirmware.Lib

variable {σ ρ : Type*}

section

variable (attempt : σ → ρ × σ) (failed : ρ → Prop) [DecidablePred failed]

def afterAttempts : ℕ → σ → σ
  | 0, s => s
  | k + 1, s => afterAttempts k (attempt s).2

def nthResult (k : ℕ) (s : σ) : ρ := (attempt (afterAttempts attempt k s)).1

def retry : ℕ → σ → ρ × σ
  | 0, s => attempt s
  | n + 1, s => if failed (attempt s).1 then retry n (attempt s).2 else attempt s

/-- The last attempt is the first one that does not fail, or the last one allowed. -/
theorem retry_spec (n : ℕ) (s : σ) : ∃ m ≤ n,
    retry attempt failed n s = (nthResult attempt m s, afterAttempts attempt (m + 1) s) ∧
      (∀ j < m, failed (nthResult attempt j s)) ∧
      (failed (nthResult attempt m s) → m = n) := by
  induction n generalizing s with
  | zero => exact ⟨0, le_refl 0, rfl, by simp, fun _ => rfl⟩
  | succ n ih =>
    by_cases hfailed : failed (attempt s).1
    · obtain ⟨m, hm, hretry, hbefore, hlast⟩ := ih (attempt s).2
      refine ⟨m + 1, by omega, ?_, ?_, ?_⟩
      · rw [retry, if_pos hfailed, hretry]
        rfl
      · intro j hj
        rcases j with _ | j
        · exact hfailed
        · exact hbefore j (by omega)
      · intro h
        rw [hlast h]
    · refine ⟨0, by omega, ?_, by simp, ?_⟩
      · rw [retry, if_neg hfailed]
        rfl
      · intro h
        exact absurd h hfailed

theorem retry_rule {P : σ → Prop} {Q : ρ → σ → Prop} {n : ℕ} {s : σ}
    (hattempt : ∀ s, P s → Q (attempt s).1 (attempt s).2)
    (hagain : ∀ r s, failed r → Q r s → P s) (hs : P s) :
    Q (retry attempt failed n s).1 (retry attempt failed n s).2 := by
  induction n generalizing s with
  | zero => exact hattempt s hs
  | succ n ih =>
    by_cases hfailed : failed (attempt s).1
    · rw [retry, if_pos hfailed]
      exact ih (hagain _ _ hfailed (hattempt s hs))
    · rw [retry, if_neg hfailed]
      exact hattempt s hs

end

end SystemFirmware.Lib
