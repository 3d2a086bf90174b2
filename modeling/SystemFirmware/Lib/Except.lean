import Mathlib.Data.List.Basic

/-!
# Computations that can raise

A computation that raises is an `Except` value, and one that returns was built from parts
that returned: `bind_eq_ok` takes it apart. The rules for a loop over a list have an
invariant that may speak about the elements still to come: `foldlM_rule` for a loop that
returned, and `foldlM_total` for one that has to.
-/

namespace SystemFirmware.Lib

universe u

variable {ε α : Type*} {σ τ : Type u}

theorem bind_eq_ok {x : Except ε σ} {f : σ → Except ε τ} {b : τ} :
    (x >>= f) = .ok b ↔ ∃ a, x = .ok a ∧ f a = .ok b := by
  constructor
  · intro h
    cases x with
    | error e => cases h
    | ok a => exact ⟨a, rfl, h⟩
  · rintro ⟨a, rfl, h⟩
    exact h

/-- **Invariant rule for loops.** `I rest s` holds when `rest` is still to come. -/
theorem foldlM_rule (step : σ → α → Except ε σ) (I : List α → σ → Prop)
    (hstep : ∀ a rest s s', I (a :: rest) s → step s a = .ok s' → I rest s') {l : List α}
    {s s' : σ} (h : I l s) (hok : l.foldlM step s = .ok s') : I [] s' := by
  induction l generalizing s with
  | nil =>
    obtain rfl : s = s' := Except.ok.inj hok
    exact h
  | cons a rest ih =>
    rw [List.foldlM_cons] at hok
    obtain ⟨t, hfirst, hrest⟩ := bind_eq_ok.mp hok
    exact ih (hstep a rest s t h hfirst) hrest

/-- **Totality rule for loops.** -/
theorem foldlM_total (step : σ → α → Except ε σ) (I : List α → σ → Prop)
    (hstep : ∀ a rest s, I (a :: rest) s → ∃ s', step s a = .ok s' ∧ I rest s') {l : List α}
    {s : σ} (h : I l s) : ∃ s', l.foldlM step s = .ok s' ∧ I [] s' := by
  induction l generalizing s with
  | nil => exact ⟨s, rfl, h⟩
  | cons a rest ih =>
    obtain ⟨t, hfirst, ht⟩ := hstep a rest s h
    obtain ⟨s', hrest, hs'⟩ := ih ht
    refine ⟨s', ?_, hs'⟩
    rw [List.foldlM_cons]
    exact bind_eq_ok.mpr ⟨t, hfirst, hrest⟩

end SystemFirmware.Lib
