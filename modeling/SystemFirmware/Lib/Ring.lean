import Mathlib.Data.Int.ModEq
import SystemFirmware.Lib.Window

/-!
# Ring queues with double-wrapped pointers

One producer and one consumer share `N` slots. The write and the read pointer run modulo
`2 * N`, so equal pointers mean empty and a difference of `N` means full; the slot of a
pointer is its residue modulo `N`.

`Ring.Holds` ties the shared words to the history of the queue: `hist` is everything ever
published (in order) and `taken` how much of it the consumer has released. Pointers are
only constrained modulo `2 * N`, which covers one stored before it is reduced. `write`,
`publish`, `read` and `release` keep it.
-/

namespace SystemFirmware.Lib.Ring

variable {α : Type*} {N : ℕ} [NeZero N]

def slot (N : ℕ) [NeZero N] (p : ℕ) : Fin N := Fin.ofNat N p

theorem slot_eq_iff {p q : ℕ} : slot N p = slot N q ↔ p % N = q % N := by
  simp [slot, Fin.ext_iff]

theorem slot_eq_of_mod {p q : ℕ} (h : p % (2 * N) = q % (2 * N)) : slot N p = slot N q := by
  rw [slot_eq_iff, ← Nat.mod_mul_left_mod p 2 N, ← Nat.mod_mul_left_mod q 2 N, h]

theorem slot_ne_of_lt {p q : ℕ} (hlt : p < q) (hnear : q < p + N) : slot N q ≠ slot N p := by
  rw [Ne, slot_eq_iff]
  intro h
  have hdvd : N ∣ q - p := (Nat.modEq_iff_dvd' hlt.le).mp h.symm
  have := Nat.le_of_dvd (by omega) hdvd
  omega

/-- The shared words represent the queue that published `hist` from pointer `base` on and released
`taken` entries. -/
structure Holds (N : ℕ) [NeZero N] (base : ℕ) (wptr rptr : ℕ) (slots : Fin N → α)
    (hist : List α) (taken : ℕ) : Prop where
  wptr_mod : wptr % (2 * N) = (base + hist.length) % (2 * N)
  rptr_mod : rptr % (2 * N) = (base + taken) % (2 * N)
  taken_le : taken ≤ hist.length
  bounded : hist.length ≤ taken + N
  entries : ∀ i, taken ≤ i → i < hist.length → hist[i]? = some (slots (slot N (base + i)))

namespace Holds

variable {base wptr rptr taken : ℕ} {slots : Fin N → α} {hist : List α}

theorem init (N : ℕ) [NeZero N] (base : ℕ) (slots : Fin N → α) :
    Holds N base base base slots [] 0 where
  wptr_mod := rfl
  rptr_mod := rfl
  taken_le := le_rfl
  bounded := Nat.zero_le _
  entries := by
    intro i _ hi
    simp at hi

variable (h : Holds N base wptr rptr slots hist taken)

include h

theorem window :
    Window.Holds (slot N) N base slots hist taken :=
  ⟨h.taken_le, h.bounded, h.entries⟩

theorem occupancy {d : ℕ}
    (hd : (rptr + d) % (2 * N) = wptr % (2 * N)) (hlt : d < 2 * N) :
    d = hist.length - taken := by
  have hN : 0 < N := Nat.pos_of_neZero N
  have hle := h.taken_le
  have hb := h.bounded
  have hmod : (base + taken + d) % (2 * N) = (base + taken + (hist.length - taken)) % (2 * N) := by
    have h1 : base + taken + (hist.length - taken) = base + hist.length := by omega
    rw [h1, ← h.wptr_mod, ← hd, Nat.add_mod rptr d, h.rptr_mod, ← Nat.add_mod]
  have hcancel : d % (2 * N) = (hist.length - taken) % (2 * N) :=
    Nat.ModEq.add_left_cancel' (base + taken) hmod
  rwa [Nat.mod_eq_of_lt hlt, Nat.mod_eq_of_lt (by omega)] at hcancel

theorem empty_iff :
    wptr % (2 * N) = rptr % (2 * N) ↔ taken = hist.length := by
  have hN : 0 < N := Nat.pos_of_neZero N
  constructor
  · intro heq
    have := h.occupancy (d := 0) (by simpa using heq.symm) (by omega)
    have := h.taken_le
    omega
  · intro heq
    rw [h.wptr_mod, h.rptr_mod, heq]

theorem write_slot_free
    (hroom : hist.length < taken + N) {i : ℕ} (hlo : taken ≤ i) (hhi : i < hist.length) :
    slot N (base + i) ≠ slot N wptr := by
  rw [slot_eq_of_mod h.wptr_mod]
  exact (slot_ne_of_lt (by omega) (by omega)).symm

/-- **Producer, entry store.** Writing the free slot leaves the represented
queue as it is. -/
theorem write
    (hroom : hist.length < taken + N) (x : α) :
    Holds N base wptr rptr (Function.update slots (slot N wptr) x) hist taken :=
  { h with entries := (h.window.store x fun _ => h.write_slot_free hroom).entries }

/-- **Producer, pointer store.** Once the entry is in its slot, moving the
write pointer publishes it. -/
theorem publish
    (hroom : hist.length < taken + N) {x : α} (hx : slots (slot N wptr) = x) {wptr' : ℕ}
    (hw : wptr' % (2 * N) = (wptr + 1) % (2 * N)) :
    Holds N base wptr' rptr slots (hist ++ [x]) taken := by
  have hnext : slots (slot N (base + hist.length)) = x := by
    rw [← slot_eq_of_mod h.wptr_mod, hx]
  have hwindow := h.window.publish hroom hnext
  refine ⟨?_, h.rptr_mod, hwindow.taken_le, hwindow.bounded, hwindow.entries⟩
  rw [hw, Nat.add_mod, h.wptr_mod, ← Nat.add_mod, List.length_append, List.length_singleton,
    Nat.add_assoc]

/-- **Consumer, entry load.** The slot under the read pointer holds the oldest
unreleased entry. -/
theorem read (hne : taken < hist.length) :
    hist[taken]? = some (slots (slot N rptr)) := by
  rw [slot_eq_of_mod h.rptr_mod]
  exact h.window.load hne

/-- **Consumer, pointer store.** Moving the read pointer releases that entry. -/
theorem release (hne : taken < hist.length)
    {rptr' : ℕ} (hr : rptr' % (2 * N) = (rptr + 1) % (2 * N)) :
    Holds N base wptr rptr' slots hist (taken + 1) := by
  have hwindow := h.window.release hne
  refine ⟨h.wptr_mod, ?_, hwindow.taken_le, hwindow.bounded, hwindow.entries⟩
  rw [hr, Nat.add_mod, h.rptr_mod, ← Nat.add_mod, Nat.add_assoc]

theorem congr {wptr' rptr' : ℕ}
    (hw : wptr' % (2 * N) = wptr % (2 * N)) (hr : rptr' % (2 * N) = rptr % (2 * N)) :
    Holds N base wptr' rptr' slots hist taken :=
  { h with wptr_mod := hw.trans h.wptr_mod, rptr_mod := hr.trans h.rptr_mod }

end Holds

end SystemFirmware.Lib.Ring
