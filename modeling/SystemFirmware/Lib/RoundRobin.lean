import Mathlib.Data.List.Range
import Mathlib.Data.List.Perm.Basic
import Mathlib.Algebra.Ring.Nat

/-!
# Round robin

Ids `0 .. n - 1` on a circle and a pointer to the one with the highest priority. A pick
takes an id at most as far ahead of the pointer as one that waits, and moves the pointer
right behind it. As long as the waiting id is not taken, none of the picks comes twice, and
there are fewer than `n` (`Turns.length_lt`).
-/

namespace SystemFirmware.Lib

def ahead (n p i : ℕ) : ℕ := if p ≤ i then i - p else i + n - p

/-- Picks from the pointer `p` on while `i` waits and is not taken. -/
inductive Turns (n i : ℕ) : ℕ → List ℕ → Prop
  | nil {p : ℕ} : Turns n i p []
  | cons {p k : ℕ} {ks : List ℕ} (hlt : k < n) (hne : k ≠ i) (hle : ahead n p k ≤ ahead n p i)
      (hks : Turns n i ((k + 1) % n) ks) : Turns n i p (k :: ks)

variable {n p i k j : ℕ} {ks : List ℕ}

theorem ahead_lt (hp : p < n) (hi : i < n) : ahead n p i < n := by
  unfold ahead
  split <;> omega

theorem ahead_inj (hp : p < n) (hk : k < n) (hi : i < n) (h : ahead n p k = ahead n p i) :
    k = i := by
  unfold ahead at h
  split at h <;> split at h <;> omega

theorem succ_mod_lt (hk : k < n) : (k + 1) % n < n := Nat.mod_lt _ (by omega)

theorem ahead_move (hp : p < n) (hk : k < n) (hi : i < n) (hj : j < n)
    (hki : ahead n p k < ahead n p i)
    (hji : ahead n ((k + 1) % n) j ≤ ahead n ((k + 1) % n) i) :
    ahead n p j = ahead n p k + 1 + ahead n ((k + 1) % n) j := by
  obtain hlast | hnext : k + 1 = n ∨ k + 1 < n := by omega
  · rw [hlast, Nat.mod_self] at hji ⊢
    unfold ahead at *
    split at hki <;> split at hki <;> simp only [Nat.zero_le, if_true] at hji ⊢ <;> split <;> omega
  · rw [Nat.mod_eq_of_lt hnext] at hji ⊢
    unfold ahead at *
    split at hki <;> split at hki <;> split at hji <;> split at hji <;> split <;> omega

theorem Turns.sorted (h : Turns n i p ks) (hp : p < n) (hi : i < n) :
    (ks.Pairwise fun k j => ahead n p k < ahead n p j) ∧
      ∀ k ∈ ks, k < n ∧ ahead n p k < ahead n p i := by
  induction h with
  | nil => exact ⟨List.Pairwise.nil, by simp⟩
  | @cons p k ks hlt hne hle hks ih =>
    obtain ⟨hsorted, hbelow⟩ := ih (succ_mod_lt hlt)
    have hki : ahead n p k < ahead n p i :=
      lt_of_le_of_ne hle fun heq => hne (ahead_inj hp hlt hi heq)
    have hmove : ∀ j ∈ ks, ahead n p j = ahead n p k + 1 + ahead n ((k + 1) % n) j := by
      intro j hj
      obtain ⟨hjn, hji⟩ := hbelow j hj
      exact ahead_move hp hlt hi hjn hki (le_of_lt hji)
    have hmovei := ahead_move hp hlt hi hi hki le_rfl
    constructor
    · refine List.pairwise_cons.mpr ⟨?_, hsorted.imp_of_mem ?_⟩
      · intro j hj
        rw [hmove j hj]
        omega
      · intro j l hj hl hjl
        rw [hmove j hj, hmove l hl]
        omega
    · intro j hj
      obtain rfl | hj := List.mem_cons.mp hj
      · exact ⟨hlt, hki⟩
      · obtain ⟨hjn, hji⟩ := hbelow j hj
        rw [hmove j hj, hmovei]
        exact ⟨hjn, by omega⟩

theorem Turns.nodup (h : Turns n i p ks) (hp : p < n) (hi : i < n) : ks.Nodup := by
  refine (h.sorted hp hi).1.imp ?_
  rintro k j hlt rfl
  exact absurd hlt (lt_irrefl _)

theorem Turns.length_lt (h : Turns n i p ks) (hp : p < n) (hi : i < n) : ks.length < n := by
  obtain ⟨hsorted, hbelow⟩ := h.sorted hp hi
  have hnodup : (ks.map (ahead n p)).Nodup := by
    refine List.pairwise_map.mpr (hsorted.imp ?_)
    intro k j hlt
    exact ne_of_lt hlt
  have hsub : ks.map (ahead n p) ⊆ List.range (ahead n p i) := by
    intro d hd
    obtain ⟨k, hk, rfl⟩ := List.mem_map.mp hd
    exact List.mem_range.mpr (hbelow k hk).2
  have hlength := (List.subperm_of_subset hnodup hsub).length_le
  rw [List.length_map, List.length_range] at hlength
  exact lt_of_le_of_lt hlength (ahead_lt hp hi)

end SystemFirmware.Lib
