import SystemFirmware.TtBootFs.Builder
import SystemFirmware.Lib.Except

/-!
# RangeTracker — which ranges it lets in

`RangeTracker.add` compares the two ends of the new range with the ranges that are held,
and stops at the first one that starts behind it. A range that encloses another one is
let in. With no range strictly inside the new one the two tests are enough
(`insertIndex_spec`).
-/

namespace SystemFirmware.TtBootFs

open Lib

-- ---
-- Sequences of adds

section

variable {δ : Type}

def Range.Nonempty (r : Range δ) : Prop := r.start < r.stop

def Range.Shares (r q : Range δ) : Prop := ∃ a, (r.start ≤ a ∧ a < r.stop) ∧ q.start ≤ a ∧ a < q.stop

def Range.Encloses (r q : Range δ) : Prop := r.start < q.start ∧ q.stop < r.stop

/-- `add`, and what is held afterwards: a call that raises has changed nothing. -/
def RangeTracker.afterAdd (t : RangeTracker δ) (r : Range δ) : RangeTracker δ :=
  match t.add r.start r.stop r.data with
  | .ok t' => t'
  | .error _ => t

def RangeTracker.afterAdds (t : RangeTracker δ) (adds : List (Range δ)) : RangeTracker δ :=
  adds.foldl RangeTracker.afterAdd t

def NoneEnclosed (t : RangeTracker δ) : List (Range δ) → Prop
  | [] => True
  | r :: adds => (∀ q ∈ t.ranges, ¬ r.Encloses q) ∧ NoneEnclosed (t.afterAdd r) adds

def RangeTracker.Disjoint (t : RangeTracker δ) : Prop :=
  t.ranges.Pairwise fun r q => r.start < q.start ∧ ¬ r.Shares q

-- ---
-- One add

variable {r : Range δ} {rs : List (Range δ)} {t : RangeTracker δ}

/-- One behind the other, and none of them empty. -/
structure Apart (rs : List (Range δ)) : Prop where
  ordered : rs.Pairwise fun r q => r.stop ≤ q.start
  nonempty : ∀ r ∈ rs, r.Nonempty

theorem Apart.tail {q : Range δ} (h : Apart (q :: rs)) : Apart rs where
  ordered := (List.pairwise_cons.mp h.ordered).2
  nonempty := fun r hr => h.nonempty r (List.mem_cons_of_mem q hr)

theorem insertIndex_spec {i index : ℕ} (h : Apart rs) (henclosed : ∀ q ∈ rs, ¬ r.Encloses q)
    (hok : insertIndex r.start r.stop rs i = .ok index) :
    ∃ before after, rs = before ++ after ∧ index = i + before.length ∧
      (∀ q ∈ before, q.stop ≤ r.start) ∧ ∀ q ∈ after, r.stop ≤ q.start := by
  induction rs generalizing i with
  | nil =>
    cases hok
    exact ⟨[], [], rfl, rfl, by simp, by simp⟩
  | cons q rs ih =>
    have hnonempty : q.start < q.stop := h.nonempty q List.mem_cons_self
    have hrest := (List.pairwise_cons.mp h.ordered).1
    have hinside : ¬ (r.start < q.start ∧ q.stop < r.stop) := henclosed q List.mem_cons_self
    rw [insertIndex] at hok
    split at hok
    · cases hok
    · next hfree =>
      split at hok
      · -- `q` starts behind the new range, and so do all the others
        next hbehind =>
        cases hok
        have hq : r.stop ≤ q.start := by omega
        refine ⟨[], q :: rs, rfl, rfl, by simp, ?_⟩
        intro p hp
        obtain rfl | hp := List.mem_cons.mp hp
        · exact hq
        · have := hrest p hp
          omega
      · next hbefore =>
        obtain ⟨before, after, rfl, hindex, hfront, hback⟩ :=
          ih h.tail (fun p hp => henclosed p (List.mem_cons_of_mem q hp)) hok
        refine ⟨q :: before, after, rfl, by rw [hindex, List.length_cons]; omega, ?_, hback⟩
        intro p hp
        obtain rfl | hp := List.mem_cons.mp hp
        · omega
        · exact hfront p hp

theorem insertIdx_between {α : Type} (x : α) (before after : List α) :
    (before ++ after).insertIdx before.length x = before ++ x :: after := by
  induction before with
  | nil => rfl
  | cons y before ih => rw [List.cons_append, List.length_cons, List.insertIdx_succ_cons, ih]; rfl

theorem RangeTracker.add_inv {t' : RangeTracker δ} {start stop : ℤ} {data : Option δ}
    (hok : t.add start stop data = .ok t') :
    ∃ index, insertIndex start stop t.ranges 0 = .ok index ∧ t.alignment ∣ start ∧
      t' = ⟨t.ranges.insertIdx index ⟨start, stop, data⟩, t.alignment⟩ := by
  obtain ⟨index, hindex, hok⟩ := bind_eq_ok.mp hok
  split at hok
  · cases hok
  · split at hok
    · cases hok
    · next haligned =>
      cases hok
      exact ⟨index, hindex, Int.dvd_of_emod_eq_zero (not_not.mp haligned), rfl⟩

theorem RangeTracker.add_spec {t' : RangeTracker δ} (h : Apart t.ranges)
    (henclosed : ∀ q ∈ t.ranges, ¬ r.Encloses q) (hok : t.add r.start r.stop r.data = .ok t') :
    ∃ before after, t.ranges = before ++ after ∧ t'.ranges = before ++ r :: after ∧
      (∀ q ∈ before, q.stop ≤ r.start) ∧ ∀ q ∈ after, r.stop ≤ q.start := by
  obtain ⟨index, hindex, -, rfl⟩ := RangeTracker.add_inv hok
  obtain ⟨before, after, hranges, hplace, hfront, hback⟩ := insertIndex_spec h henclosed hindex
  refine ⟨before, after, hranges, ?_, hfront, hback⟩
  rw [hranges, hplace, Nat.zero_add]
  exact insertIdx_between r before after

theorem Apart.afterAdd (h : Apart t.ranges) (hr : r.Nonempty)
    (henclosed : ∀ q ∈ t.ranges, ¬ r.Encloses q) : Apart (t.afterAdd r).ranges := by
  rw [RangeTracker.afterAdd]
  cases hadd : t.add r.start r.stop r.data with
  | error e => exact h
  | ok t' =>
    obtain ⟨before, after, hranges, hnew, hfront, hback⟩ := t.add_spec h henclosed hadd
    obtain ⟨hordered, hnonempty⟩ := h
    rw [hranges] at hordered hnonempty
    obtain ⟨hbefore, hafter, hacross⟩ := List.pairwise_append.mp hordered
    constructor
    · simp only [hnew]
      refine List.pairwise_append.mpr ⟨hbefore, List.pairwise_cons.mpr ⟨hback, hafter⟩, ?_⟩
      intro p hp q hq
      obtain rfl | hq := List.mem_cons.mp hq
      · exact hfront p hp
      · exact hacross p hp q hq
    · intro q hq
      simp only [hnew] at hq
      obtain hq | hq := List.mem_append.mp hq
      · exact hnonempty q (List.mem_append_left after hq)
      · obtain rfl | hq := List.mem_cons.mp hq
        · exact hr
        · exact hnonempty q (List.mem_append_right before hq)

theorem Apart.disjoint (h : Apart t.ranges) : t.Disjoint := by
  refine h.ordered.imp_of_mem ?_
  intro p q hp hq hpq
  have hnonempty : p.start < p.stop := h.nonempty p hp
  refine ⟨by omega, ?_⟩
  rintro ⟨a, ha, ha'⟩
  omega

theorem Apart.add_shared (h : Apart t.ranges) (henclosed : ∀ q ∈ t.ranges, ¬ r.Encloses q)
    (hshares : ∃ q ∈ t.ranges, r.Shares q) : ∃ e, t.add r.start r.stop r.data = .error e := by
  cases hadd : t.add r.start r.stop r.data with
  | error e => exact ⟨e, rfl⟩
  | ok t' =>
    obtain ⟨before, after, hranges, -, hfront, hback⟩ := t.add_spec h henclosed hadd
    obtain ⟨q, hq, a, ha, ha'⟩ := hshares
    rw [hranges] at hq
    obtain hq | hq := List.mem_append.mp hq
    · have := hfront q hq
      omega
    · have := hback q hq
      omega

-- ---
-- Every sequence of adds

theorem Apart.afterAdds {adds : List (Range δ)} (h : Apart t.ranges) (hadds : ∀ r ∈ adds, r.Nonempty)
    (henclosed : NoneEnclosed t adds) : Apart (t.afterAdds adds).ranges := by
  induction adds generalizing t with
  | nil => exact h
  | cons r adds ih =>
    have hstep := h.afterAdd (hadds r List.mem_cons_self) henclosed.1
    exact ih hstep (fun q hq => hadds q (List.mem_cons_of_mem r hq)) henclosed.2

def RangeTracker.init (δ : Type) (alignment : ℤ) : RangeTracker δ := ⟨[], alignment⟩

theorem Apart.init (alignment : ℤ) : Apart (RangeTracker.init δ alignment).ranges where
  ordered := List.Pairwise.nil
  nonempty := fun _ hr => absurd hr List.not_mem_nil

/-- **Sorted and disjoint** are the ranges after every sequence of adds, none of which encloses a
range that is held; and one more such add that shares an address with a held range raises and
leaves the tracker as it was. -/
theorem adds_keep_disjoint (alignment : ℤ) (adds : List (Range δ)) (hadds : ∀ r ∈ adds, r.Nonempty)
    (henclosed : NoneEnclosed (.init δ alignment) adds) :
    ((RangeTracker.init δ alignment).afterAdds adds).Disjoint ∧
      ∀ r,
        (∀ q ∈ ((RangeTracker.init δ alignment).afterAdds adds).ranges, ¬ r.Encloses q) →
        (∃ q ∈ ((RangeTracker.init δ alignment).afterAdds adds).ranges, r.Shares q) →
        (∃ e, ((RangeTracker.init δ alignment).afterAdds adds).add r.start r.stop r.data =
            .error e) ∧
          ((RangeTracker.init δ alignment).afterAdds adds).afterAdd r =
            (RangeTracker.init δ alignment).afterAdds adds := by
  have h := (Apart.init alignment).afterAdds hadds henclosed
  refine ⟨h.disjoint, ?_⟩
  intro r hinside hshares
  obtain ⟨e, he⟩ := h.add_shared hinside hshares
  exact ⟨⟨e, he⟩, by rw [RangeTracker.afterAdd, he]⟩

end

def twoImages : List (Range Unit) := [⟨0x4000, 0x5000, none⟩, ⟨0x1000, 0x3000, none⟩]

theorem twoImages_disjoint :
    ((RangeTracker.init Unit 0x1000).afterAdds twoImages).Disjoint ∧
      ∃ e, ((RangeTracker.init Unit 0x1000).afterAdds twoImages).add 0x2000 0x4000 none =
        .error e := by
  have hadds : ∀ r ∈ twoImages, r.Nonempty := by simp [twoImages, Range.Nonempty]
  have henclosed : NoneEnclosed (.init Unit 0x1000) twoImages := by
    simp [NoneEnclosed, twoImages, RangeTracker.afterAdd, RangeTracker.add, insertIndex,
      RangeTracker.init, bind, Except.bind, Range.Encloses]
  have h := adds_keep_disjoint 0x1000 twoImages hadds henclosed
  have hheld : ((RangeTracker.init Unit 0x1000).afterAdds twoImages).ranges =
      [⟨0x1000, 0x3000, none⟩, ⟨0x4000, 0x5000, none⟩] := rfl
  obtain ⟨he, -⟩ := h.2 ⟨0x2000, 0x4000, none⟩ (by simp [hheld, Range.Encloses])
    ⟨⟨0x1000, 0x3000, none⟩, by simp [hheld], 0x2000, by decide, by decide⟩
  exact ⟨h.1, he⟩

/-- A range around the held one is let in, so two ranges of the tracker overlap. -/
theorem enclosing_add_accepted :
    (RangeTracker.init Unit 0x1000).afterAdds [⟨0x2000, 0x3000, none⟩] =
        ⟨[⟨0x2000, 0x3000, none⟩], 0x1000⟩ ∧
      (⟨0x1000, 0x4000, none⟩ : Range Unit).Shares ⟨0x2000, 0x3000, none⟩ ∧
      ((RangeTracker.init Unit 0x1000).afterAdds [⟨0x2000, 0x3000, none⟩]).add 0x1000 0x4000 none =
        .ok ⟨[⟨0x1000, 0x4000, none⟩, ⟨0x2000, 0x3000, none⟩], 0x1000⟩ ∧
      ¬ (⟨[⟨0x1000, 0x4000, none⟩, ⟨0x2000, 0x3000, none⟩], 0x1000⟩ :
        RangeTracker Unit).Disjoint := by
  refine ⟨rfl, ⟨0x2000, by decide, by decide⟩, rfl, ?_⟩
  intro h
  have hpair := (List.pairwise_cons.mp h).1 ⟨0x2000, 0x3000, none⟩ List.mem_cons_self
  exact hpair.2 ⟨0x2000, by decide, by decide⟩

end SystemFirmware.TtBootFs
