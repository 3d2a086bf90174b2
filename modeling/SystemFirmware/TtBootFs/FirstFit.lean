import SystemFirmware.TtBootFs.FileImage

/-!
# RangeTracker — the first gap

`find_gap_of_size` walks over the held ranges and rounds the end of each one up to the
alignment, until the next range leaves enough room: that is the lowest address with room
(`gapFrom_isLeast`). `insert` adds the range that was found, so the question is whether `add`
lets it in (`RangeTracker.add_free`).
-/

namespace SystemFirmware.TtBootFs

open Lib

section

variable {δ : Type} {t : RangeTracker δ} {rs : List (Range δ)} {r : Range δ} {k : ℕ} {size : ℤ}

def Range.Misses (r q : Range δ) : Prop := r.stop ≤ q.start ∨ q.stop ≤ r.start

-- ---
-- Adds that are let in

theorem insertIndex_le {start stop : ℤ} {i index : ℕ}
    (h : insertIndex start stop rs i = .ok index) : i ≤ index ∧ index ≤ i + rs.length := by
  induction rs generalizing i with
  | nil =>
    obtain rfl : i = index := Except.ok.inj h
    exact ⟨le_rfl, le_rfl⟩
  | cons q rs ih =>
    rw [List.length_cons]
    rw [insertIndex] at h
    split at h
    · cases h
    · split at h
      · obtain rfl : i = index := Except.ok.inj h
        omega
      · have := ih h
        omega

theorem insertIndex_free {i : ℕ} (hr : r.Nonempty) (hfree : ∀ q ∈ rs, r.Misses q) :
    ∃ index, insertIndex r.start r.stop rs i = .ok index := by
  have hpos : r.start < r.stop := hr
  induction rs generalizing i with
  | nil => exact ⟨i, rfl⟩
  | cons q rs ih =>
    have hq : r.stop ≤ q.start ∨ q.stop ≤ r.start := hfree q List.mem_cons_self
    rw [insertIndex, if_neg (by omega)]
    split
    · exact ⟨i, rfl⟩
    · exact ih fun p hp => hfree p (List.mem_cons_of_mem q hp)

theorem RangeTracker.add_free (h : Apart t.ranges) (hr : r.Nonempty)
    (hfree : ∀ q ∈ t.ranges, r.Misses q) (halignment : t.alignment ≠ 0)
    (hdvd : t.alignment ∣ r.start) :
    ∃ t', t.add r.start r.stop r.data = .ok t' ∧ Apart t'.ranges ∧ t'.alignment = t.alignment ∧
      ∀ q ∈ t'.ranges, q = r ∨ q ∈ t.ranges := by
  have henclosed : ∀ q ∈ t.ranges, ¬ r.Encloses q := by
    intro q hq hinside
    have hqpos : q.start < q.stop := h.nonempty q hq
    have hmiss : r.stop ≤ q.start ∨ q.stop ≤ r.start := hfree q hq
    have := hinside.1
    have := hinside.2
    omega
  obtain ⟨index, hindex⟩ := insertIndex_free (i := 0) hr hfree
  have hadd : t.add r.start r.stop r.data =
      .ok ⟨t.ranges.insertIdx index r, t.alignment⟩ := by
    rw [RangeTracker.add, hindex]
    simp only [bind, Except.bind]
    rw [if_neg halignment, if_neg (not_not.mpr (Int.emod_eq_zero_of_dvd hdvd))]
  have hapart := h.afterAdd hr henclosed
  rw [RangeTracker.afterAdd, hadd] at hapart
  refine ⟨_, hadd, hapart, rfl, ?_⟩
  intro q hq
  exact (List.mem_insertIdx (by have := (insertIndex_le hindex).2; omega)).mp hq

-- ---
-- Where the gap is

theorem RangeTracker.alignUp_isLeast {value : ℤ} (halignment : t.alignment = 2 ^ k)
    (h : 0 ≤ value) : IsLeast {a | value ≤ a ∧ t.alignment ∣ a} (t.alignUp value) := by
  rw [RangeTracker.alignUp, halignment]
  exact Lib.alignUp_isLeast h

theorem le_gapFrom {bound last : ℤ} (halignment : t.alignment = 2 ^ k) (hbound : 0 ≤ bound)
    (hlast : bound ≤ last) (hstops : ∀ q ∈ rs, bound ≤ q.stop) :
    bound ≤ t.gapFrom size rs (t.alignUp last) ∧
      t.alignment ∣ t.gapFrom size rs (t.alignUp last) := by
  induction rs generalizing last with
  | nil =>
    obtain ⟨hle, hdvd⟩ := (t.alignUp_isLeast halignment (hbound.trans hlast)).1
    exact ⟨hlast.trans hle, hdvd⟩
  | cons r rs ih =>
    rw [RangeTracker.gapFrom]
    split
    · obtain ⟨hle, hdvd⟩ := (t.alignUp_isLeast halignment (hbound.trans hlast)).1
      exact ⟨hlast.trans hle, hdvd⟩
    · exact ih (hstops r List.mem_cons_self) fun q hq => hstops q (List.mem_cons_of_mem r hq)

/-- The gap is the first one: every lower aligned address behind `last` has a range in its way. -/
theorem gapFrom_isLeast (size : ℤ) {last : ℤ} (halignment : t.alignment = 2 ^ k) (h : Apart rs)
    (hlast : 0 ≤ last) (hbehind : ∀ q ∈ rs, last ≤ q.start) :
    IsLeast {a | last ≤ a ∧ t.alignment ∣ a ∧ ∀ q ∈ rs, a + size ≤ q.start ∨ q.stop ≤ a}
      (t.gapFrom size rs (t.alignUp last)) := by
  induction rs generalizing last with
  | nil => simpa [RangeTracker.gapFrom] using t.alignUp_isLeast halignment hlast
  | cons r rs ih =>
    obtain ⟨⟨hle, hdvd⟩, hleast⟩ := t.alignUp_isLeast halignment hlast
    have hr : r.start < r.stop := h.nonempty r List.mem_cons_self
    have hfirst := hbehind r List.mem_cons_self
    have hrest := (List.pairwise_cons.mp h.ordered).1
    rw [RangeTracker.gapFrom]
    split
    · -- there is room in front of `r`, and every other range lies behind `r`
      next hroom =>
      refine ⟨⟨hle, hdvd, ?_⟩, fun a ha => hleast ⟨ha.1, ha.2.1⟩⟩
      intro q hq
      obtain rfl | hq := List.mem_cons.mp hq
      · omega
      · have := hrest q hq
        omega
    · next hroom =>
      obtain ⟨⟨hstop, hdvd', hfree⟩, hleast'⟩ := ih h.tail (by omega) hrest
      refine ⟨⟨by omega, hdvd', ?_⟩, ?_⟩
      · intro q hq
        obtain rfl | hq := List.mem_cons.mp hq
        · exact .inr hstop
        · exact hfree q hq
      · rintro a ⟨hla, hda, hmiss⟩
        -- `a` is not in front of `r`, so it is behind
        have hup := hleast ⟨hla, hda⟩
        have hra : r.stop ≤ a := by
          have := hmiss r List.mem_cons_self
          omega
        exact hleast' ⟨hra, hda, fun q hq => hmiss q (List.mem_cons_of_mem r hq)⟩

end

-- ---
-- First-fit

/-- Where `size` bytes fit: the multiples of the alignment from `low` on that have no byte in a
range of `taken`, each of which is an address and a length. -/
def Fits (low alignment : ℤ) (taken : List (ℤ × ℕ)) (size : ℕ) : Set ℤ :=
  {a | low ≤ a ∧ alignment ∣ a ∧ ∀ p ∈ taken, a + size ≤ p.1 ∨ p.1 + p.2 ≤ a}

/-- First-fit on sizes alone: each in turn gets the lowest address where it fits. -/
inductive FirstFit (low alignment : ℤ) : List (ℤ × ℕ) → List ℕ → List (ℤ × ℕ) → Prop
  | done (taken : List (ℤ × ℕ)) : FirstFit low alignment taken [] []
  | next {taken places : List (ℤ × ℕ)} {sizes : List ℕ} {addr : ℤ} {size : ℕ} :
      IsLeast (Fits low alignment taken size) addr →
      FirstFit low alignment ((addr, size) :: taken) sizes places →
      FirstFit low alignment taken (size :: sizes) ((addr, size) :: places)

end SystemFirmware.TtBootFs
