import Mathlib.Data.List.Basic
import Mathlib.Logic.Function.Basic

/-!
# Queues over free-running positions

One producer and one consumer share memory. Position `p` of a queue lives in the cell
`cell p`; positions only grow, and at most `cap` are in use at a time. All that the
rules need of the representation is that the next position shares its cell with none of
those in use (`Fresh`).

`Holds` ties the memory to the history of the queue: `hist` is everything ever published,
in order, and `taken` how much of it the consumer has released. `publish`, `load` and
`release` keep it.
-/

namespace SystemFirmware.Lib.Window

variable {ι α : Type*}

/-- Position `q` shares its cell with none of the `cap - 1` before it. -/
def Fresh (cell : ℕ → ι) (cap q : ℕ) : Prop := ∀ p < q, q < p + cap → cell p ≠ cell q

/-- The memory represents the queue that published `hist` from position `base` on and released
`taken` entries. -/
structure Holds (cell : ℕ → ι) (cap base : ℕ) (mem : ι → α) (hist : List α) (taken : ℕ) :
    Prop where
  taken_le : taken ≤ hist.length
  bounded : hist.length ≤ taken + cap
  entries : ∀ i, taken ≤ i → i < hist.length → hist[i]? = some (mem (cell (base + i)))

theorem Fresh.next_free {cell : ℕ → ι} {cap base taken n : ℕ} (h : Fresh cell cap (base + n))
    (hroom : n < taken + cap) {i : ℕ} (hlo : taken ≤ i) (hhi : i < n) :
    cell (base + i) ≠ cell (base + n) :=
  h (base + i) (by omega) (by omega)

namespace Holds

variable {cell : ℕ → ι} {cap base taken : ℕ} {mem : ι → α} {hist : List α}

theorem init : Holds cell cap base mem [] 0 where
  taken_le := Nat.le_refl 0
  bounded := Nat.zero_le _
  entries := by
    intro i _ hi
    simp at hi

/-- A store to a cell without unreleased entry leaves the queue as it is. -/
theorem store [DecidableEq ι] (h : Holds cell cap base mem hist taken) {a : ι} (x : α)
    (hfree : ∀ i, taken ≤ i → i < hist.length → cell (base + i) ≠ a) :
    Holds cell cap base (Function.update mem a x) hist taken where
  taken_le := h.taken_le
  bounded := h.bounded
  entries := by
    intro i hlo hhi
    rw [Function.update_of_ne (hfree i hlo hhi)]
    exact h.entries i hlo hhi

/-- **Publishing** the entry that is in the next cell. -/
theorem publish (h : Holds cell cap base mem hist taken) (hroom : hist.length < taken + cap)
    {x : α} (hx : mem (cell (base + hist.length)) = x) :
    Holds cell cap base mem (hist ++ [x]) taken where
  taken_le := by
    have := h.taken_le
    rw [List.length_append]
    omega
  bounded := by
    rw [List.length_append, List.length_singleton]
    omega
  entries := by
    intro i hlo hhi
    rw [List.length_append, List.length_singleton] at hhi
    by_cases hi : i < hist.length
    · rw [List.getElem?_append_left hi]
      exact h.entries i hlo hi
    · obtain rfl : i = hist.length := by omega
      rw [List.getElem?_concat_length, hx]

/-- **Loading** the cell of the oldest unreleased entry. -/
theorem load (h : Holds cell cap base mem hist taken) (hne : taken < hist.length) :
    hist[taken]? = some (mem (cell (base + taken))) :=
  h.entries taken (Nat.le_refl taken) hne

/-- **Releasing** that entry. -/
theorem release (h : Holds cell cap base mem hist taken) (hne : taken < hist.length) :
    Holds cell cap base mem hist (taken + 1) where
  taken_le := hne
  bounded := by
    have := h.bounded
    omega
  entries := fun i hlo hhi => h.entries i (by omega) hhi

end Holds

end SystemFirmware.Lib.Window
