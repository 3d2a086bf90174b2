import Mathlib.Data.List.Basic
import Mathlib.Data.Nat.Init

/-!
# Linearizability and fair runs

Concurrent operations are recorded as they complete, each with the numbers of its
first and its last atomic step. `Linearizes` says that an order of them explains
their results and keeps to real time. Operations that take effect at their last
step are explained by the order they complete in (`Linearizes.concat`).

`eventually_of_rank` is the liveness rule for one party of an infinite run: no
step raises the rank, and the party's own steps lower it.
-/

namespace SystemFirmware.Lib

/-- A completed operation, from its atomic step `first` to its atomic step `last`. -/
structure Completed (ω : Type*) where
  op : ω
  first : ℕ
  last : ℕ

variable {ω : Type*}

/-- `order` has the operations of `done`, none of which ended before the start of
one that precedes it, and is `legal` as a sequence. -/
structure Linearizes (legal : List ω → Prop) (done order : List (Completed ω)) : Prop where
  perm : order.Perm done
  realTime : order.Pairwise fun a b => ¬ b.last < a.first
  legal : legal (order.map Completed.op)

/-- An operation that takes effect at its last step comes last. -/
theorem Linearizes.concat {legal : List ω → Prop} {done : List (Completed ω)} {op : ω}
    {first now : ℕ} (h : Linearizes legal done done) (hstarted : ∀ a ∈ done, a.first ≤ now)
    (hlegal : legal (done.map Completed.op ++ [op])) :
    Linearizes legal (done ++ [⟨op, first, now⟩]) (done ++ [⟨op, first, now⟩]) := by
  refine ⟨.refl _, List.pairwise_append.mpr ⟨h.realTime, List.pairwise_singleton _ _, ?_⟩, ?_⟩
  · intro a ha b hb
    rw [List.mem_singleton.mp hb]
    exact Nat.not_lt.mpr (hstarted a ha)
  · rw [List.map_append]
    exact hlegal

/-- **Rank rule.** While `P` holds, no step raises the rank, a helpful step lowers
it, and one is always to come: so `P` ends in `Q`. -/
theorem eventually_of_rank (P helpful : ℕ → Prop) (rank : ℕ → ℕ) {Q : ℕ → Prop}
    (hstep : ∀ n, P n → Q (n + 1) ∨ P (n + 1) ∧ rank (n + 1) ≤ rank n ∧
      (helpful n → rank (n + 1) < rank n))
    (hfair : ∀ n, P n → ∃ m ≥ n, helpful m) {n : ℕ} (hn : P n) : ∃ m ≥ n, Q m := by
  induction hr : rank n using Nat.strong_induction_on generalizing n with
  | _ r ih =>
    obtain ⟨m, hnm, hm⟩ := hfair n hn
    -- up to the helpful step `m`, either `Q` was met or `P` still holds
    have hwait : (∃ i ≥ n, Q i) ∨ P m ∧ rank m ≤ rank n := by
      clear hm
      induction m, hnm using Nat.le_induction with
      | base => exact .inr ⟨hn, Nat.le_refl _⟩
      | succ m hnm ihm =>
        rcases ihm with hQ | ⟨hP, hle⟩
        · exact .inl hQ
        · rcases hstep m hP with hQ | ⟨hP', hle', -⟩
          · exact .inl ⟨m + 1, by omega, hQ⟩
          · exact .inr ⟨hP', Nat.le_trans hle' hle⟩
    rcases hwait with hQ | ⟨hP, hle⟩
    · exact hQ
    · rcases hstep m hP with hQ | ⟨hP', -, hlt⟩
      · exact ⟨m + 1, by omega, hQ⟩
      · obtain ⟨i, hi, hQ⟩ := ih _ (hr ▸ Nat.lt_of_lt_of_le (hlt hm) hle) hP' rfl
        exact ⟨i, by omega, hQ⟩

end SystemFirmware.Lib
