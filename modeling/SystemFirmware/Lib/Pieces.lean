import Mathlib.Data.List.Basic
import Mathlib.Data.Int.Basic

/-!
# Sparse images

An image given by pieces, each a run of values at an address. When the pieces are in order
and keep apart, writing them out one after the other with a filler in the gaps (`fillFrom`)
puts every piece at its address (`slice_fillFrom`).
-/

namespace SystemFirmware.Lib

variable {α : Type*}

structure Piece (α : Type*) where
  addr : ℤ
  data : List α

def Piece.stop (p : Piece α) : ℤ := p.addr + p.data.length

def Piece.Covers (p : Piece α) (a : ℤ) : Prop := p.addr ≤ a ∧ a < p.stop

def Separated (ps : List (Piece α)) : Prop := ps.Pairwise fun p q => p.stop ≤ q.addr

/-- The pieces from address `last` on, with `gap` in between. -/
def fillFrom (gap : α) : List (Piece α) → ℤ → List α
  | [], _ => []
  | p :: ps, last => List.replicate (p.addr - last).toNat gap ++ (p.data ++ fillFrom gap ps p.stop)

section

variable (gap : α) {p : Piece α} {ps : List (Piece α)} {last : ℤ}

theorem Separated.tail (h : Separated (p :: ps)) : Separated ps := (List.pairwise_cons.mp h).2

theorem Separated.stop_le (h : Separated (p :: ps)) : ∀ q ∈ ps, p.stop ≤ q.addr :=
  (List.pairwise_cons.mp h).1

theorem stop_le_fillFrom (h : Separated ps) (hlast : ∀ q ∈ ps, last ≤ q.addr) (hp : p ∈ ps) :
    p.stop ≤ last + (fillFrom gap ps last).length := by
  induction ps generalizing last with
  | nil => simp at hp
  | cons q ps ih =>
    have hq := hlast q List.mem_cons_self
    have hstop : q.stop = q.addr + q.data.length := rfl
    rw [fillFrom, List.length_append, List.length_append, List.length_replicate]
    rcases List.mem_cons.mp hp with rfl | hmem
    · omega
    · have := ih h.tail h.stop_le hmem
      omega

theorem slice_fillFrom (h : Separated ps) (hlast : ∀ q ∈ ps, last ≤ q.addr) (hp : p ∈ ps) :
    ((fillFrom gap ps last).drop (p.addr - last).toNat).take p.data.length = p.data := by
  induction ps generalizing last with
  | nil => simp at hp
  | cons q ps ih =>
    have hq := hlast q List.mem_cons_self
    have hstop : q.stop = q.addr + q.data.length := rfl
    rw [fillFrom]
    rcases List.mem_cons.mp hp with rfl | hmem
    · rw [List.drop_left' List.length_replicate, List.take_left' rfl]
    · -- skip the gap and the piece in front
      have hle := h.stop_le p hmem
      have hskip : (p.addr - last).toNat =
          (List.replicate (q.addr - last).toNat gap ++ q.data).length +
            (p.addr - q.stop).toNat := by
        rw [List.length_append, List.length_replicate]
        omega
      rw [← List.append_assoc, hskip, List.drop_length_add_append]
      exact ih h.tail h.stop_le hmem

theorem getElem?_fillFrom_gap (h : Separated ps) (hlast : ∀ q ∈ ps, last ≤ q.addr) {n : ℕ}
    (hn : n < (fillFrom gap ps last).length) (hgap : ∀ q ∈ ps, ¬ q.Covers (last + n)) :
    (fillFrom gap ps last)[n]? = some gap := by
  induction ps generalizing last n with
  | nil => simp [fillFrom] at hn
  | cons q ps ih =>
    have hq := hlast q List.mem_cons_self
    have hstop : q.stop = q.addr + q.data.length := rfl
    have hout := hgap q List.mem_cons_self
    rw [fillFrom] at hn ⊢
    rw [List.length_append, List.length_append, List.length_replicate] at hn
    unfold Piece.Covers at hout
    by_cases hbefore : n < (q.addr - last).toNat
    · rw [List.getElem?_append_left (by simpa using hbefore)]
      simp [hbefore]
    · -- behind the piece in front
      have hbehind : q.data.length ≤ n - (q.addr - last).toNat := by omega
      rw [List.getElem?_append_right (by simpa using hbefore), List.length_replicate,
        List.getElem?_append_right hbehind]
      apply ih h.tail h.stop_le (by omega)
      intro r hr
      have hr' := hgap r (List.mem_cons_of_mem q hr)
      have haddr : q.stop + ((n - (q.addr - last).toNat - q.data.length : ℕ) : ℤ) = last + n := by
        omega
      rw [haddr]
      exact hr'

end

end SystemFirmware.Lib
