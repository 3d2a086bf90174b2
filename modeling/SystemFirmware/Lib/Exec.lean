import Mathlib.Data.List.Basic

/-!
# Executions of labelled transition systems

A system is given by a guarded step function `step : σ → α → Option σ`: the label
carries every choice the environment makes, and `none` means that the labelled step is
not enabled. `exec step s as` runs a whole schedule.

An invariant of one step is one of a run (`exec_invariant`), also under a condition on
the steps (`exec_invariant_along`). `Reaches` says that something can still happen.
-/

namespace SystemFirmware.Lib

variable {σ α : Type*}

/-- Run a schedule; `none` as soon as one of its steps is not enabled. -/
def exec (step : σ → α → Option σ) : σ → List α → Option σ
  | s, [] => some s
  | s, a :: as => (step s a).bind fun t => exec step t as

/-- Every step of the schedule meets `C`, for the state it is taken in and its label. -/
def Along (step : σ → α → Option σ) (C : σ → α → Prop) : σ → List α → Prop
  | _, [] => True
  | s, a :: as => C s a ∧ ∀ t, step s a = some t → Along step C t as

variable {step : σ → α → Option σ} {s t u : σ} {a : α} {as bs : List α}

@[simp] theorem exec_nil : exec step s [] = some s := rfl

theorem exec_cons : exec step s (a :: as) = (step s a).bind fun t => exec step t as := rfl

theorem exec_cons_some :
    exec step s (a :: as) = some u ↔ ∃ t, step s a = some t ∧ exec step t as = some u := by
  rw [exec_cons, Option.bind_eq_some_iff]

instance Along.decidable {C : σ → α → Prop} [∀ s a, Decidable (C s a)] :
    ∀ (s : σ) (as : List α), Decidable (Along step C s as)
  | _, [] => .isTrue trivial
  | s, a :: as =>
    match h : step s a with
    | none => decidable_of_iff (C s a) ⟨fun hc => ⟨hc, fun _ ht => nomatch h.symm.trans ht⟩, And.left⟩
    | some t =>
      have : Decidable (Along step C t as) := Along.decidable t as
      decidable_of_iff (C s a ∧ Along step C t as)
        ⟨fun hc => ⟨hc.1, fun _ hu => Option.some.inj (h.symm.trans hu) ▸ hc.2⟩,
          fun hc => ⟨hc.1, hc.2 t h⟩⟩

/-- **Invariant rule, conditional.** What every enabled step that meets `C`
preserves, every run along `C` preserves. -/
theorem exec_invariant_along {Inv : σ → Prop} {C : σ → α → Prop}
    (hstep : ∀ s a t, Inv s → C s a → step s a = some t → Inv t)
    (hs : Inv s) (hC : Along step C s as) (h : exec step s as = some t) : Inv t := by
  induction as generalizing s with
  | nil =>
    rw [exec_nil, Option.some.injEq] at h
    exact h ▸ hs
  | cons a as ih =>
    obtain ⟨m, hsm, hmt⟩ := exec_cons_some.mp h
    exact ih (hstep s a m hs hC.1 hsm) (hC.2 m hsm) hmt

variable {C : σ → α → Prop}

theorem along_of_forall (h : ∀ s a, C s a) : Along step C s as := by
  induction as generalizing s with
  | nil => trivial
  | cons a as ih => exact ⟨h s a, fun _ _ => ih⟩

theorem along_true : Along step (fun _ _ => True) s as := along_of_forall fun _ _ => trivial

variable {P : α → Prop}

theorem along_of_forall_mem (h : ∀ a ∈ as, P a) : Along step (fun _ a => P a) s as := by
  induction as generalizing s with
  | nil => trivial
  | cons a as ih =>
    obtain ⟨ha, has⟩ := List.forall_mem_cons.mp h
    exact ⟨ha, fun _ _ => ih has⟩

variable {D : σ → α → Prop}

theorem Along.and (hC : Along step C s as) (hD : Along step D s as) :
    Along step (fun s a => C s a ∧ D s a) s as := by
  induction as generalizing s with
  | nil => trivial
  | cons a as ih => exact ⟨⟨hC.1, hD.1⟩, fun t ht => ih (hC.2 t ht) (hD.2 t ht)⟩

theorem Along.mono (himp : ∀ s a, C s a → D s a) (hC : Along step C s as) :
    Along step D s as := by
  induction as generalizing s with
  | nil => trivial
  | cons a as ih => exact ⟨himp s a hC.1, fun t ht => ih (hC.2 t ht)⟩

theorem exec_total (htotal : ∀ s a, ∃ t, step s a = some t) : ∃ t, exec step s as = some t := by
  induction as generalizing s with
  | nil => exact ⟨s, rfl⟩
  | cons a as ih =>
    obtain ⟨m, hm⟩ := htotal s a
    obtain ⟨t, ht⟩ := @ih m
    exact ⟨t, exec_cons_some.mpr ⟨m, hm, ht⟩⟩

/-- **Exact rule.** A property that a step keeps exactly if it meets `C` holds after every part of
a run exactly if the run is along `C`. `I` is what the steps keep in any case. -/
theorem forall_exec_take_iff {I Q : σ → Prop} (htotal : ∀ s a, ∃ t, step s a = some t)
    (hstep : ∀ s a t, P a → I s → Q s → step s a = some t → I t ∧ (Q t ↔ C s a))
    (hP : ∀ a ∈ as, P a) (hI : I s) (hQ : Q s) :
    (∀ n t, exec step s (as.take n) = some t → Q t) ↔ Along step C s as := by
  induction as generalizing s with
  | nil =>
    refine iff_of_true (fun n t h => ?_) trivial
    rw [List.take_nil, exec_nil, Option.some.injEq] at h
    exact h ▸ hQ
  | cons a as ih =>
    obtain ⟨ha, has⟩ := List.forall_mem_cons.mp hP
    constructor
    · intro h
      have hnext : ∀ t, step s a = some t → ∀ n u, exec step t (as.take n) = some u → Q u :=
        fun t ht n u hu => h (n + 1) u (exec_cons_some.mpr ⟨t, ht, hu⟩)
      have hiff : ∀ t, step s a = some t → I t ∧ (Q t ↔ C s a) := fun t => hstep s a t ha hI hQ
      obtain ⟨t, ht⟩ := htotal s a
      exact ⟨(hiff t ht).2.mp (hnext t ht 0 t rfl), fun u hu => (ih has (hiff u hu).1
        (hnext u hu 0 u rfl)).mp (hnext u hu)⟩
    · rintro ⟨hC, hrest⟩ (_ | n) t ht
      · exact Option.some.inj ht ▸ hQ
      · obtain ⟨u, hu, hrun⟩ := exec_cons_some.mp ht
        obtain ⟨hIu, hiff⟩ := hstep s a u ha hI hQ hu
        exact (ih has hIu (hiff.mpr hC)).mpr (hrest u hu) n t hrun

/-- **Invariant rule.** What every enabled step preserves, every run preserves. -/
theorem exec_invariant {Inv : σ → Prop}
    (hstep : ∀ s a t, Inv s → step s a = some t → Inv t)
    (hs : Inv s) (h : exec step s as = some t) : Inv t :=
  exec_invariant_along (fun s a t hi _ => hstep s a t hi) hs along_true h

theorem exec_append :
    exec step s (as ++ bs) = some u ↔ ∃ t, exec step s as = some t ∧ exec step t bs = some u := by
  induction as generalizing s with
  | nil => simp
  | cons a as ih =>
    rw [List.cons_append, exec_cons_some]
    constructor
    · rintro ⟨t, hstep, hrest⟩
      obtain ⟨m, hfirst, hsecond⟩ := ih.mp hrest
      exact ⟨m, exec_cons_some.mpr ⟨t, hstep, hfirst⟩, hsecond⟩
    · rintro ⟨m, hfirst, hsecond⟩
      obtain ⟨t, hstep, hrest⟩ := exec_cons_some.mp hfirst
      exact ⟨t, hstep, ih.mpr ⟨m, hrest, hsecond⟩⟩

def Reaches (step : σ → α → Option σ) (P : α → Prop) (s t : σ) : Prop :=
  ∃ as, (∀ a ∈ as, P a) ∧ exec step s as = some t

theorem Reaches.refl : Reaches step P s s := ⟨[], by simp, rfl⟩

theorem Reaches.trans (h : Reaches step P s t) (h' : Reaches step P t u) :
    Reaches step P s u := by
  obtain ⟨as, hP, hexec⟩ := h
  obtain ⟨bs, hP', hexec'⟩ := h'
  refine ⟨as ++ bs, ?_, exec_append.mpr ⟨t, hexec, hexec'⟩⟩
  intro a ha
  exact (List.mem_append.mp ha).elim (hP a) (hP' a)

theorem Reaches.single (hP : P a) (h : step s a = some t) : Reaches step P s t :=
  ⟨[a], by simpa using hP, exec_cons_some.mpr ⟨t, h, rfl⟩⟩

-- ---
-- Histories

theorem getElem?_concat_iff {n : ℕ} {l : List α} {a b : α} :
    (l ++ [a])[n]? = some b ↔ l[n]? = some b ∨ n = l.length ∧ a = b := by
  rcases Nat.lt_trichotomy n l.length with hlt | rfl | hgt
  · rw [List.getElem?_append_left hlt]
    exact ⟨.inl, fun h => h.resolve_right fun h' => absurd h'.1 (Nat.ne_of_lt hlt)⟩
  · simp
  · rw [List.getElem?_eq_none (by rw [List.length_append]; exact hgt),
      List.getElem?_eq_none (Nat.le_of_lt hgt)]
    simp [Nat.ne_of_gt hgt]

end SystemFirmware.Lib
