import SystemFirmware.Lib.Interrupt

/-!
# Every state of a program under interrupts

`wp` and its loop rule are about the moments at which the main thread waits. `AllSteps` is
about every state in between: an assertion that each step of the body keeps, apart from
exceptions, holds along every run without exceptions (`Loop.invariant_of_allSteps`).

`Loop.exec_bind` runs a part of the program as a part of a run, and `Loop.exec_triple` says
where it ends.
-/

namespace SystemFirmware.Lib

namespace Prog

variable {σ ι α β κ : Type}

-- ---
-- Properties of all steps

/-- Every step that the program can come to with inputs that are `ok` has the property `G`. -/
def AllSteps (ok : ι → Prop) (G : (σ → σ × Bool) → Prop) : Prog σ ι α → Prop
  | ret _ => True
  | op f next => G f ∧ ∀ b, AllSteps ok G (next b)
  | input next => ∀ i, ok i → AllSteps ok G (next i)
  | halt => True

namespace AllSteps

variable {ok : ι → Prop} {G : (σ → σ × Bool) → Prop} {p : Prog σ ι α}

theorem bind {k : α → Prog σ ι β} (h : AllSteps ok G p) (hk : ∀ a, AllSteps ok G (k a)) :
    AllSteps ok G (p >>= k) := by
  induction p with
  | ret a => exact hk a
  | op f next ih => exact ⟨h.1, fun b => ih b (h.2 b)⟩
  | input next ih => exact fun i hi => ih i (h i hi)
  | halt => trivial

theorem swap {f : σ → σ × Bool} (h : G f) : AllSteps ok G (swap f : Prog σ ι Bool) :=
  ⟨h, fun _ => trivial⟩

theorem act {f : σ → σ} (h : G fun s => (f s, true)) : AllSteps ok G (act f : Prog σ ι Unit) :=
  ⟨h, fun _ => trivial⟩

theorem receive_bind {k : ι → Prog σ ι β} (hk : ∀ i, ok i → AllSteps ok G (k i)) :
    AllSteps ok G (receive >>= k) := hk

theorem keeps {irq : σ → σ → Prop} {I : σ → Prop} (h : AllSteps (fun _ => True) G p)
    (hG : ∀ f, G f → ∀ s, I s → I (f s).1) : Keeps irq I p := by
  intro hI
  induction p with
  | ret a => exact fun s hs t ht => hI.star hs ht
  | op f next ih =>
    intro s hs t ht
    exact ih _ (h.2 _) _ (hG f h.1 t (hI.star hs ht))
  | input next ih => exact fun s hs i => ih i (h i trivial) s hs
  | halt => exact fun _ _ => trivial

end AllSteps

end Prog

-- ---
-- The main loop

namespace Loop

variable {σ ι κ : Type} {body : Prog σ ι Unit} {isr : κ → σ → σ} {m m' : Loop σ ι}
  {as : List (Action ι κ)}

def InputOk (ok : ι → Prop) : Action ι κ → Prop
  | .main i => ok i
  | _ => True

def Executes (steps : (σ → σ × Bool) → Prop) (m : Loop σ ι) : Action ι κ → Prop
  | .main _ => ∃ f next, m.code = .op f next ∧ steps f
  | _ => False

variable {a : Action ι κ}

theorem not_executes_false : ¬Executes (fun _ => False) m a := by
  intro h
  cases a with
  | main i =>
    obtain ⟨f, next, -, hfalse⟩ := h
    exact hfalse
  | wake => exact h
  | irq k => exact h

def AllLeft (ok : ι → Prop) (G : (σ → σ × Bool) → Prop) (m : Loop σ ι) : Prop :=
  m.code.AllSteps ok G

variable {ok : ι → Prop} {G : (σ → σ × Bool) → Prop}

theorem step_allLeft (hbody : body.AllSteps ok G) (hm : AllLeft ok G m) (hok : InputOk ok a)
    (hstep : step body isr m a = some m') : AllLeft ok G m' := by
  rcases step_cases hstep with ⟨i, s, f, next, rfl, rfl, rfl⟩ | ⟨i, s, next, rfl, rfl, rfl⟩ |
    ⟨s, u, rfl, rfl, rfl⟩ | ⟨k, s, code, rfl, rfl, rfl⟩
  · exact hm.2 _
  · exact hm i hok
  · exact hbody
  · exact hm

theorem exec_allLeft (hbody : body.AllSteps ok G) (hm : AllLeft ok G m)
    (hok : ∀ a ∈ as, InputOk ok a) (hrun : exec (step body isr) m as = some m') : AllLeft ok G m' :=
  exec_invariant_along (fun _ _ _ h ha => step_allLeft hbody h ha) hm (along_of_forall_mem hok) hrun

/-- **Runs from the middle.** If every step of the body is an exception or keeps `I`, then `I` is
kept along every run that makes none of the exceptions. -/
theorem invariant_of_allSteps {I : σ → Prop} {exception : (σ → σ × Bool) → Prop}
    (hbody : body.AllSteps ok fun f => exception f ∨ ∀ s, I s → I (f s).1)
    (hirq : ∀ k s, I s → I (isr k s))
    (hm : AllLeft ok (fun f => exception f ∨ ∀ s, I s → I (f s).1) m) (hI : I m.shared)
    (hok : ∀ a ∈ as, InputOk ok a)
    (hnone : Along (step body isr) (fun m a => ¬Executes exception m a) m as)
    (hrun : exec (step body isr) m as = some m') : I m'.shared := by
  have hinv := @exec_invariant_along _ _ (step body isr) m m' as fun m =>
    AllLeft ok (fun f => exception f ∨ ∀ s, I s → I (f s).1) m ∧ I m.shared
  refine (hinv ?_ ⟨hm, hI⟩ ((along_of_forall_mem hok).and hnone) hrun).2
  rintro m a m' ⟨hm, hI⟩ ⟨hok, hnot⟩ hstep
  refine ⟨step_allLeft hbody hm hok hstep, ?_⟩
  rcases step_cases hstep with ⟨i, s, f, next, rfl, rfl, rfl⟩ | ⟨i, s, next, rfl, rfl, rfl⟩ |
    ⟨s, u, rfl, rfl, rfl⟩ | ⟨k, s, code, rfl, rfl, rfl⟩
  · rcases hm.1 with hexception | hkeeps
    · exact absurd ⟨f, next, rfl, hexception⟩ hnot
    · exact hkeeps s hI
  · exact hI
  · exact hI
  · exact hirq k s hI

-- ---
-- Parts of a run

theorem exec_bind {p q : Prog σ ι Unit} {k : Unit → Prog σ ι Unit} {s t : σ}
    (hwake : ∀ a ∈ as, a ≠ .wake) (hrun : exec (step body isr) ⟨s, p⟩ as = some ⟨t, q⟩) :
    exec (step body isr) ⟨s, p >>= k⟩ as = some ⟨t, q >>= k⟩ := by
  induction as generalizing s p with
  | nil =>
    obtain ⟨rfl, rfl⟩ := Loop.mk.inj (Option.some.inj hrun)
    rfl
  | cons a as ih =>
    obtain ⟨ha, has⟩ := List.forall_mem_cons.mp hwake
    obtain ⟨⟨u, p'⟩, hstep, hrest⟩ := exec_cons_some.mp hrun
    refine exec_cons_some.mpr ⟨⟨u, p' >>= k⟩, ?_, ih has hrest⟩
    rcases step_cases hstep with ⟨i, s, f, next, rfl, hm, hm'⟩ | ⟨i, s, next, rfl, hm, hm'⟩ |
      ⟨s, u, rfl, -, -⟩ | ⟨j, s, code, rfl, hm, hm'⟩
    · obtain ⟨rfl, rfl⟩ := Loop.mk.inj hm
      obtain ⟨rfl, rfl⟩ := Loop.mk.inj hm'
      rfl
    · obtain ⟨rfl, rfl⟩ := Loop.mk.inj hm
      obtain ⟨rfl, rfl⟩ := Loop.mk.inj hm'
      rfl
    · exact absurd rfl ha
    · obtain ⟨rfl, rfl⟩ := Loop.mk.inj hm
      obtain ⟨rfl, rfl⟩ := Loop.mk.inj hm'
      rfl

theorem eq_of_waiting {m : Loop σ ι} (h : m.waiting = true) : m = ⟨m.shared, .ret ()⟩ := by
  obtain ⟨s, code⟩ := m
  cases code with
  | ret u => rfl
  | op f next => cases h
  | input next => cases h
  | halt => cases h

theorem exec_triple {allowed : κ → σ → Prop} {P Q : σ → Prop} {p : Prog σ ι Unit} {s t : σ}
    (h : Prog.Triple (Irq allowed isr) P p fun _ => Q) (hs : P s) (hwake : ∀ a ∈ as, a ≠ .wake)
    (hallowed : Along (step body isr) (Allowed allowed) ⟨s, p⟩ as)
    (hrun : exec (step body isr) ⟨s, p⟩ as = some ⟨t, .ret ()⟩) : Q t := by
  have hstart : LeadsTo (Irq allowed isr) Q (⟨s, p⟩ : Loop σ ι) := h s hs
  have hlead : LeadsTo (Irq allowed isr) Q (⟨t, .ret ()⟩ : Loop σ ι) :=
    exec_invariant_along (fun _ _ _ hm ha => step_leadsTo_of_ne_wake hm ha.1 ha.2) hstart
      (hallowed.and (along_of_forall_mem hwake)) hrun
  exact hlead t .refl

end Loop

end SystemFirmware.Lib
