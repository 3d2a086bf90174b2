import Mathlib.Data.Nat.Basic

/-!
# Bisection

`bisect p fuel low high` halves the range `[low, high)` until it is empty. On a range where
`p` stays true once it is true, what remains is the first place where it is
(`bisect_spec`).
-/

namespace SystemFirmware.Lib

section

variable (p : ℕ → Prop)

structure Splits (low high r : ℕ) : Prop where
  le : low ≤ r
  le' : r ≤ high
  before : ∀ x, low ≤ x → x < r → ¬p x
  after : ∀ x, r ≤ x → x < high → p x

variable {p} in
theorem Splits.unique {low high r r' : ℕ} (h : Splits p low high r) (h' : Splits p low high r') :
    r = r' := by
  have hnot : ∀ {q q' : ℕ}, Splits p low high q → Splits p low high q' → ¬q < q' := by
    intro q q' hq hq' hlt
    exact hq'.before q hq.le hlt (hq.after q (le_refl q) (Nat.lt_of_lt_of_le hlt hq'.le'))
  have := hnot h h'
  have := hnot h' h
  omega

variable [DecidablePred p]

/-- The loop, with a bound on its rounds; `none` when they are used up. -/
def bisect : ℕ → ℕ → ℕ → Option ℕ
  | 0, _, _ => none
  | fuel + 1, low, high =>
    if low < high then
      if p ((low + high) / 2) then bisect fuel low ((low + high) / 2)
      else bisect fuel ((low + high) / 2 + 1) high
    else some low

/-- **Bisection is right.** One round more than the range is long is enough. -/
theorem bisect_spec {fuel low high : ℕ} (hle : low ≤ high) (hfuel : high - low < fuel)
    (hmono : ∀ x y, low ≤ x → x ≤ y → y < high → p x → p y) :
    ∃ r, bisect p fuel low high = some r ∧ Splits p low high r := by
  induction fuel generalizing low high with
  | zero => exact absurd hfuel (Nat.not_lt_zero _)
  | succ fuel ih =>
    by_cases hlt : low < high
    · obtain ⟨mid, hmid⟩ : ∃ mid, mid = (low + high) / 2 := ⟨_, rfl⟩
      by_cases hp : p mid
      · obtain ⟨r, hr, hsplit⟩ := @ih low mid (by omega) (by omega)
          fun x y hx hxy hy => hmono x y hx hxy (by omega)
        refine ⟨r, ?_, hsplit.le, ?_, hsplit.before, ?_⟩
        · rw [bisect, if_pos hlt, ← hmid, if_pos hp, hr]
        · have := hsplit.le'
          omega
        · intro x hrx hx
          by_cases hxm : x < mid
          · exact hsplit.after x hrx hxm
          · exact hmono mid x (by omega) (by omega) hx hp
      · obtain ⟨r, hr, hsplit⟩ := @ih (mid + 1) high (by omega) (by omega)
          fun x y hx hxy hy => hmono x y (by omega) hxy hy
        refine ⟨r, ?_, ?_, hsplit.le', ?_, hsplit.after⟩
        · rw [bisect, if_pos hlt, ← hmid, if_neg hp, hr]
        · have := hsplit.le
          omega
        · intro x hx hxr
          by_cases hmx : mid < x
          · exact hsplit.before x hmx hxr
          · exact fun hpx => hp (hmono x mid hx (by omega) (by omega) hpx)
    · refine ⟨low, ?_, le_refl low, hle, ?_, ?_⟩
      · rw [bisect, if_neg hlt]
      · intro x hx hxlow
        omega
      · intro x hx hxhigh
        omega

end

end SystemFirmware.Lib
