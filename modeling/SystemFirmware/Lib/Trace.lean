import Mathlib.Control.Monad.Writer
import Mathlib.Data.Nat.Notation

/-!
# Computations that leave a trace

A computation in `Writer (List ε)` has a value, and leaves the list of events that led to
it. A loop is a `foldlM` over its index.

* `All P m` — every event of `m` satisfies `P`. `all_bind` splits a sequence, and
  `all_foldlM` a loop with an invariant.
* `value_bind` — the value is what the same program without events computes.
-/

namespace SystemFirmware.Lib

abbrev Traced (ε α : Type) := Writer (List ε) α

namespace Traced

variable {ε α β σ : Type}

def value (m : Traced ε α) : α := m.run.1

def events (m : Traced ε α) : List ε := m.run.2

def touch (e : ε) (a : α) : Traced ε α := WriterT.mk (a, [e])

section

variable {m : Traced ε α} {f : α → Traced ε β} {a : α} {e : ε}

@[simp] theorem value_pure : value (pure a : Traced ε α) = a := rfl

@[simp] theorem value_bind : value (m >>= f) = value (f (value m)) := rfl

@[simp] theorem value_ite {P : Prop} [Decidable P] {m' : Traced ε α} :
    value (if P then m else m') = if P then value m else value m' := by
  split <;> rfl

theorem events_bind : events (m >>= f) = events m ++ events (f (value m)) := rfl

end

/-! ## Properties of all events -/

def All (P : ε → Prop) (m : Traced ε α) : Prop := ∀ e ∈ m.events, P e

instance {P : ε → Prop} [DecidablePred P] {m : Traced ε α} : Decidable (All P m) :=
  inferInstanceAs (Decidable (∀ e ∈ m.events, P e))

section

variable {P : ε → Prop} {m : Traced ε α} {f : α → Traced ε β} {a : α} {e : ε}

@[simp] theorem all_pure : All P (pure a : Traced ε α) :=
  fun _ he => absurd he List.not_mem_nil

@[simp] theorem all_touch : All P (touch e a) ↔ P e :=
  ⟨fun h => h e (List.mem_singleton_self e), fun h _ he => List.mem_singleton.mp he ▸ h⟩

@[simp] theorem all_bind : All P (m >>= f) ↔ All P m ∧ All P (f (value m)) := by
  unfold All
  rw [events_bind]
  exact List.forall_mem_append

variable {step : σ → α → Traced ε σ} {s : σ} {as : List α}

theorem all_foldlM (I : σ → Prop) (hs : I s)
    (hstep : ∀ a ∈ as, ∀ s, I s → All P (step s a) ∧ I (value (step s a))) :
    All P (as.foldlM step s) := by
  induction as generalizing s with
  | nil => exact all_pure
  | cons a as ih =>
    obtain ⟨hall, hnext⟩ := hstep a List.mem_cons_self s hs
    rw [List.foldlM_cons, all_bind]
    exact ⟨hall, ih hnext fun b hb => hstep b (List.mem_cons_of_mem _ hb)⟩

theorem all_foldlM_of_forall (hstep : ∀ a ∈ as, ∀ s, All P (step s a)) : All P (as.foldlM step s) :=
  all_foldlM (fun _ => True) trivial fun a ha s _ => ⟨hstep a ha s, trivial⟩

theorem all_forM {step : α → Traced ε PUnit} :
    All P (as.forM step) ↔ ∀ a ∈ as, All P (step a) := by
  induction as with
  | nil => simp
  | cons a as ih =>
    show All P (step a >>= fun _ => as.forM step) ↔ _
    rw [all_bind, ih, List.forall_mem_cons]

end

end Traced

end SystemFirmware.Lib
