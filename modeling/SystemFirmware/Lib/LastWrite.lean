import Mathlib.Data.List.Basic

/-!
# Locations that the last write decides

A location of a state that every step either overwrites with a value of its own or leaves
alone. `writes a` is the value that the step `a` writes, if it writes one. After a run, the
location holds the value of the last step that wrote (`foldl_lastWrite`).
-/

namespace SystemFirmware.Lib

variable {σ α β : Type*} {step : σ → α → σ} {writes : α → Option β}

theorem foldl_lastWrite (view : σ → β)
    (hstep : ∀ s a, view (step s a) = (writes a).getD (view s)) (s : σ) (as : List α) :
    view (as.foldl step s) = ((as.filterMap writes).getLast?).getD (view s) := by
  induction as generalizing s with
  | nil => rfl
  | cons a as ih =>
    rw [List.foldl_cons, ih, hstep]
    rcases ha : writes a with _ | b
    · rw [List.filterMap_cons_none ha, Option.getD_none]
    · rw [List.filterMap_cons_some ha, List.getLast?_cons, Option.getD_some, Option.getD_some]

theorem lastWrite_mem {as : List α} {b : β} (h : (as.filterMap writes).getLast? = some b) :
    ∃ a ∈ as, writes a = some b :=
  List.mem_filterMap.mp (List.mem_of_getLast? h)

end SystemFirmware.Lib
