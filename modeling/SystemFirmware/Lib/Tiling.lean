import Mathlib.Data.List.Basic

/-!
# Tilings

Items with a start and a length that lie one behind the other: `Tiles start len a xs b`
says that `xs`, in order, cover the addresses from `a` up to `b`, with no gap between two
of them and no address covered twice (`Tiles.bounds`).
-/

namespace SystemFirmware.Lib

variable {α : Type*} (start len : α → ℕ)

/-- The first item starts at `a`, every other one where the one before it ends, and the last
one ends at `b`. -/
def Tiles : ℕ → List α → ℕ → Prop
  | a, [], b => a = b
  | a, x :: xs, b => start x = a ∧ Tiles (a + len x) xs b

variable {start len} {a b : ℕ} {x : α} {xs : List α}

theorem Tiles.snoc (h : Tiles start len a xs b) (hx : start x = b) :
    Tiles start len a (xs ++ [x]) (b + len x) := by
  induction xs generalizing a with
  | nil => exact ⟨hx.trans h.symm, congrArg (· + len x) h⟩
  | cons y ys ih => exact ⟨h.1, ih h.2⟩

theorem Tiles.le (h : Tiles start len a xs b) : a ≤ b := by
  induction xs generalizing a with
  | nil => exact Nat.le_of_eq h
  | cons y ys ih => exact Nat.le_trans (Nat.le_add_right ..) (ih h.2)

theorem Tiles.bounds (h : Tiles start len a xs b) (hx : x ∈ xs) :
    a ≤ start x ∧ start x + len x ≤ b := by
  induction xs generalizing a with
  | nil => simp at hx
  | cons y ys ih =>
    obtain ⟨hstart, hrest⟩ := h
    rcases List.mem_cons.mp hx with rfl | hmem
    · exact ⟨Nat.le_of_eq hstart.symm, hstart ▸ hrest.le⟩
    · obtain ⟨hlo, hhi⟩ := ih hrest hmem
      exact ⟨by omega, hhi⟩

end SystemFirmware.Lib
