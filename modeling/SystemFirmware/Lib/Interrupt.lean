import Mathlib.Logic.Relation
import SystemFirmware.Lib.Exec

/-!
# Programs under interrupts

A program of the main thread is a tree of atomic steps on a shared state, `Prog`. It is a
monad, so sequential code is written down as it stands; interrupts can come between any
two steps.

`wp` is the weakest precondition of a program for interrupts that may do `irq`: before
each step, and after the last, any number of them. The rules of `Triple` need assertions
that are `Stable` under interrupts. `Keeps` is for the programs that lead from an
assertion to itself.

`Loop` is a main thread that waits, runs its body and waits again (`loop_invariant`).
-/

namespace SystemFirmware.Lib

/-- A program with shared state `σ` and inputs `ι` that returns an `α`. -/
inductive Prog (σ ι α : Type) : Type where
  | ret (a : α)
  /-- An atomic step; its answer says how to go on. -/
  | op (f : σ → σ × Bool) (next : Bool → Prog σ ι α)
  /-- A value from outside. -/
  | input (next : ι → Prog σ ι α)
  | halt

namespace Prog

variable {σ ι α β κ : Type}

def bind : Prog σ ι α → (α → Prog σ ι β) → Prog σ ι β
  | ret a, k => k a
  | op f next, k => op f fun b => (next b).bind k
  | input next, k => input fun i => (next i).bind k
  | halt, _ => halt

instance : Monad (Prog σ ι) where
  pure := ret
  bind := bind

theorem bind_assoc {γ : Type} (p : Prog σ ι α) (k : α → Prog σ ι β) (l : β → Prog σ ι γ) :
    (p >>= k) >>= l = p >>= fun a => k a >>= l := by
  induction p with
  | ret a => rfl
  | op f next ih => exact congrArg (op f) (funext ih)
  | input next ih => exact congrArg input (funext ih)
  | halt => rfl

def act (f : σ → σ) : Prog σ ι Unit := op (fun s => (f s, true)) fun _ => ret ()

def swap (f : σ → σ × Bool) : Prog σ ι Bool := op f ret

def test (c : σ → Bool) : Prog σ ι Bool := swap fun s => (s, c s)

def receive : Prog σ ι ι := input ret

def ifElse (c : Prog σ ι Bool) (p q : Prog σ ι α) : Prog σ ι α := c >>= fun b => if b then p else q

def ifThen (c : Prog σ ι Bool) (p : Prog σ ι Unit) : Prog σ ι Unit := ifElse c p (ret ())

def forEach (l : List κ) (f : κ → Prog σ ι Unit) : Prog σ ι Unit :=
  l.foldr (fun x rest => f x >>= fun _ => rest) (ret ())

-- ---
-- Weakest preconditions

/-- However the interrupts come, the program ends in `Q`. -/
def wp (irq : σ → σ → Prop) (Q : α → σ → Prop) : Prog σ ι α → σ → Prop
  | ret a, s => ∀ t, Relation.ReflTransGen irq s t → Q a t
  | op f next, s => ∀ t, Relation.ReflTransGen irq s t → wp irq Q (next (f t).2) (f t).1
  | input next, s => ∀ i, wp irq Q (next i) s
  | halt, _ => True

def Stable (irq : σ → σ → Prop) (P : σ → Prop) : Prop := ∀ s t, P s → irq s t → P t

def Triple (irq : σ → σ → Prop) (P : σ → Prop) (p : Prog σ ι α) (Q : α → σ → Prop) : Prop :=
  ∀ s, P s → wp irq Q p s

variable {irq : σ → σ → Prop} {P P' : σ → Prop} {Q Q' : α → σ → Prop} {p : Prog σ ι α} {s t : σ}

theorem wp_irq (h : wp irq Q p s) (hirq : irq s t) : wp irq Q p t := by
  induction p with
  | ret a => exact fun u hu => h u (.head hirq hu)
  | op f next ih => exact fun u hu => h u (.head hirq hu)
  | input next ih => exact fun i => ih i (h i)
  | halt => trivial

theorem wp_mono (hQ : ∀ a s, Q a s → Q' a s) (h : wp irq Q p s) : wp irq Q' p s := by
  induction p generalizing s with
  | ret a => exact fun u hu => hQ a u (h u hu)
  | op f next ih => exact fun u hu => ih _ (h u hu)
  | input next ih => exact fun i => ih i (h i)
  | halt => trivial

theorem wp_bind {k : α → Prog σ ι β} {Q : β → σ → Prop}
    (h : wp irq (fun a => wp irq Q (k a)) p s) : wp irq Q (p >>= k) s := by
  induction p generalizing s with
  | ret a => exact h s .refl
  | op f next ih => exact fun u hu => ih _ (h u hu)
  | input next ih => exact fun i => ih i (h i)
  | halt => trivial

theorem Stable.star (hP : Stable irq P) (h : P s) (hst : Relation.ReflTransGen irq s t) : P t := by
  induction hst with
  | refl => exact h
  | tail _ hirq ih => exact hP _ _ ih hirq

-- ---
-- Rules for triples

theorem Triple.conseq (h : Triple irq P p Q) (hP : ∀ s, P' s → P s) (hQ : ∀ a s, Q a s → Q' a s) :
    Triple irq P' p Q' :=
  fun s hs => wp_mono hQ (h s (hP s hs))

theorem Triple.bind {k : α → Prog σ ι β} {R : β → σ → Prop} (h : Triple irq P p Q)
    (hk : ∀ a, Triple irq (Q a) (k a) R) : Triple irq P (p >>= k) R :=
  fun s hs => wp_bind (wp_mono (fun a t ht => hk a t ht) (h s hs))

theorem Triple.swap {f : σ → σ × Bool} {Q : Bool → σ → Prop} (hP : Stable irq P)
    (hQ : ∀ b, Stable irq (Q b)) (h : ∀ s, P s → Q (f s).2 (f s).1) :
    Triple irq P (swap f : Prog σ ι Bool) Q :=
  fun _ hs _ hst _ htu => (hQ _).star (h _ (hP.star hs hst)) htu

theorem Triple.act {f : σ → σ} {R : σ → Prop} (hP : Stable irq P) (hR : Stable irq R)
    (h : ∀ s, P s → R (f s)) : Triple irq P (act f : Prog σ ι Unit) fun _ => R :=
  fun _ hs _ hst _ htu => hR.star (h _ (hP.star hs hst)) htu

theorem Triple.ifElse {c : Prog σ ι Bool} {p q : Prog σ ι α} {T : Bool → σ → Prop}
    (hc : Triple irq P c T) (hp : Triple irq (T true) p Q) (hq : Triple irq (T false) q Q) :
    Triple irq P (ifElse c p q) Q := by
  refine hc.bind fun b => ?_
  cases b with
  | true => exact hp
  | false => exact hq

-- ---
-- Programs that keep an assertion

def Keeps (irq : σ → σ → Prop) (P : σ → Prop) (p : Prog σ ι α) : Prop :=
  Stable irq P → Triple irq P p fun _ => P

namespace Keeps

theorem triple (h : Keeps irq P p) (hP : Stable irq P) : Triple irq P p fun _ => P := h hP

theorem bind {k : α → Prog σ ι β} (h : Keeps irq P p) (hk : ∀ a, Keeps irq P (k a)) :
    Keeps irq P (p >>= k) :=
  fun hP => (h hP).bind fun a => hk a hP

theorem ret {a : α} : Keeps irq P (pure a : Prog σ ι α) := fun hP _ hs _ hst => hP.star hs hst

theorem halt : Keeps irq P (halt : Prog σ ι α) := fun _ _ _ => trivial

theorem act {f : σ → σ} (h : ∀ s, P s → P (f s)) : Keeps irq P (act f : Prog σ ι Unit) :=
  fun hP => Triple.act hP hP h

theorem swap {f : σ → σ × Bool} (h : ∀ s, P s → P (f s).1) :
    Keeps irq P (swap f : Prog σ ι Bool) :=
  fun hP => Triple.swap hP (fun _ => hP) h

theorem test {c : σ → Bool} : Keeps irq P (test c : Prog σ ι Bool) := swap fun _ hs => hs

theorem receive : Keeps irq P (receive : Prog σ ι ι) := fun hP _ hs _ _ hst => hP.star hs hst

theorem ifElse {c : Prog σ ι Bool} {p q : Prog σ ι α} (hc : Keeps irq P c) (hp : Keeps irq P p)
    (hq : Keeps irq P q) : Keeps irq P (ifElse c p q) :=
  fun hP => (hc hP).ifElse (hp hP) (hq hP)

theorem ifThen {c : Prog σ ι Bool} {p : Prog σ ι Unit} (hc : Keeps irq P c) (hp : Keeps irq P p) :
    Keeps irq P (ifThen c p) :=
  hc.ifElse hp ret

end Keeps

end Prog

-- ---
-- The main loop

/-- A main thread and what it shares with the interrupts. -/
structure Loop (σ ι : Type) where
  shared : σ
  /-- What is left of the body; nothing while it waits. -/
  code : Prog σ ι Unit

namespace Loop

variable {σ ι κ : Type}

def waiting (m : Loop σ ι) : Bool :=
  match m.code with
  | .ret _ => true
  | _ => false

inductive Action (ι κ : Type) where
  /-- The next step of the main thread. -/
  | main (i : ι)
  /-- The wait is over. -/
  | wake
  | irq (k : κ)

def step (body : Prog σ ι Unit) (isr : κ → σ → σ) (m : Loop σ ι) : Action ι κ → Option (Loop σ ι)
  | .main i =>
    match m.code with
    | .op f next => some ⟨(f m.shared).1, next (f m.shared).2⟩
    | .input next => some ⟨m.shared, next i⟩
    | _ => none
  | .wake => if m.waiting then some ⟨m.shared, body⟩ else none
  | .irq k => some ⟨isr k m.shared, m.code⟩

def Allowed (allowed : κ → σ → Prop) (m : Loop σ ι) : Action ι κ → Prop
  | .irq k => allowed k m.shared
  | _ => True

instance {allowed : κ → σ → Prop} [∀ k s, Decidable (allowed k s)] (m : Loop σ ι) (a : Action ι κ) :
    Decidable (Allowed allowed m a) :=
  match a with
  | .irq k => inferInstanceAs (Decidable (allowed k m.shared))
  | .main _ => .isTrue trivial
  | .wake => .isTrue trivial

def Irq (allowed : κ → σ → Prop) (isr : κ → σ → σ) (s t : σ) : Prop :=
  ∃ k, allowed k s ∧ t = isr k s

variable {body : Prog σ ι Unit} {isr : κ → σ → σ} {allowed : κ → σ → Prop} {I : σ → Prop}

variable {m m' : Loop σ ι} {a : Action ι κ}

theorem step_cases (h : step body isr m a = some m') :
    (∃ i s f next, a = .main i ∧ m = ⟨s, .op f next⟩ ∧ m' = ⟨(f s).1, next (f s).2⟩) ∨
    (∃ i s next, a = .main i ∧ m = ⟨s, .input next⟩ ∧ m' = ⟨s, next i⟩) ∨
    (∃ s u, a = .wake ∧ m = ⟨s, .ret u⟩ ∧ m' = ⟨s, body⟩) ∨
    ∃ k s code, a = .irq k ∧ m = ⟨s, code⟩ ∧ m' = ⟨isr k s, code⟩ := by
  obtain ⟨s, code⟩ := m
  cases a with
  | main i =>
    cases code with
    | op f next => exact .inl ⟨i, s, f, next, rfl, rfl, (Option.some.inj h).symm⟩
    | input next => exact .inr (.inl ⟨i, s, next, rfl, rfl, (Option.some.inj h).symm⟩)
    | ret u => cases h
    | halt => cases h
  | wake =>
    cases code with
    | ret u => exact .inr (.inr (.inl ⟨s, u, rfl, rfl, (Option.some.inj h).symm⟩))
    | op f next => cases h
    | input next => cases h
    | halt => cases h
  | irq k => exact .inr (.inr (.inr ⟨k, s, code, rfl, rfl, (Option.some.inj h).symm⟩))

def LeadsTo (irq : σ → σ → Prop) (I : σ → Prop) (m : Loop σ ι) : Prop :=
  Prog.wp irq (fun _ => I) m.code m.shared

theorem step_leadsTo_of_ne_wake (hm : LeadsTo (Irq allowed isr) I m) (ha : Allowed allowed m a)
    (hwake : a ≠ .wake) (hstep : step body isr m a = some m') : LeadsTo (Irq allowed isr) I m' := by
  rcases step_cases hstep with ⟨i, s, f, next, rfl, rfl, rfl⟩ | ⟨i, s, next, rfl, rfl, rfl⟩ |
    ⟨s, u, rfl, -, -⟩ | ⟨k, s, code, rfl, rfl, rfl⟩
  · exact hm s .refl
  · exact hm i
  · exact absurd rfl hwake
  · exact Prog.wp_irq hm ⟨k, ha, rfl⟩

theorem step_leadsTo (hbody : Prog.Triple (Irq allowed isr) I body fun _ => I)
    (hm : LeadsTo (Irq allowed isr) I m) (ha : Allowed allowed m a)
    (hstep : step body isr m a = some m') : LeadsTo (Irq allowed isr) I m' := by
  by_cases hwake : a = .wake
  · subst hwake
    rcases step_cases hstep with ⟨i, s, f, next, heq, -, -⟩ | ⟨i, s, next, heq, -, -⟩ |
      ⟨s, u, -, rfl, rfl⟩ | ⟨k, s, code, heq, -, -⟩
    · cases heq
    · cases heq
    · exact hbody s (hm s .refl)
    · cases heq
  · exact step_leadsTo_of_ne_wake hm ha hwake hstep

/-- **Loop rule.** What holds at the start, interrupts keep and the body re-establishes
holds whenever the main thread waits. -/
theorem loop_invariant {s : σ} {as : List (Action ι κ)}
    (hbody : Prog.Triple (Irq allowed isr) I body fun _ => I)
    (hI : Prog.Stable (Irq allowed isr) I) (hs : I s)
    (hallowed : Along (step body isr) (Allowed allowed) ⟨s, .ret ()⟩ as)
    (hrun : exec (step body isr) ⟨s, .ret ()⟩ as = some m) (hwaiting : m.waiting = true) :
    I m.shared := by
  have hstart : LeadsTo (Irq allowed isr) I (⟨s, .ret ()⟩ : Loop σ ι) := fun t ht => hI.star hs ht
  have hm : LeadsTo (Irq allowed isr) I m :=
    exec_invariant_along (fun _ _ _ => step_leadsTo hbody) hstart hallowed hrun
  obtain ⟨t, code⟩ := m
  cases code with
  | ret a => exact hm t .refl
  | op f next => cases hwaiting
  | input next => cases hwaiting
  | halt => cases hwaiting

end Loop

end SystemFirmware.Lib
