import SystemFirmware.Lib.SeqNum

/-!
# Two-bank records

A record kept in two banks, each stamped with a wrap-safe sequence number. A reader tries
the banks whose header it accepts, the one with the newer number first and bank A first if
neither is ahead (`newestFirst_eq`).
-/

namespace SystemFirmware.Lib

inductive BankIdx where
  | a
  | b
  deriving DecidableEq, Repr

def BankIdx.other : BankIdx → BankIdx
  | .a => .b
  | .b => .a

variable {i : BankIdx}

theorem BankIdx.other_other : i.other.other = i := by
  cases i <;> rfl

theorem BankIdx.other_ne : i.other ≠ i := by
  cases i <;> decide

theorem BankIdx.eq_or_eq_other (i j : BankIdx) : j = i ∨ j = i.other := by
  cases i <;> cases j <;> decide

section

variable (accepted : BankIdx → Bool) (seq : BankIdx → UInt32)

/-- The accepted banks in order, swapped if the second one is newer. -/
def newestFirst : List BankIdx :=
  match [BankIdx.a, .b].filter accepted with
  | [x, y] => if seqIsNewer (seq y) (seq x) then [y, x] else [x, y]
  | order => order

/-- The bank that is tried first if it is accepted. -/
def preferred : BankIdx :=
  if accepted .a ∧ accepted .b ∧ seqIsNewer (seq .b) (seq .a) then .b else .a

variable {accepted seq}

theorem newestFirst_eq : newestFirst accepted seq =
    [preferred accepted seq, (preferred accepted seq).other].filter accepted := by
  unfold newestFirst preferred
  cases ha : accepted .a <;> cases hb : accepted .b <;>
    cases hseq : seqIsNewer (seq .b) (seq .a) <;> simp [ha, hb, hseq, BankIdx.other]

variable {good : BankIdx → Bool} {p i : BankIdx}

theorem find?_pair_eq_some :
    [p, p.other].find? good = some i ↔
      good i = true ∧ (i = p ∨ good i.other = false) := by
  cases p <;> cases i <;> cases ha : good .a <;> cases hb : good .b <;>
    simp [BankIdx.other, ha, hb]

theorem mem_takeWhile_pair :
    i ∈ ([p, p.other].filter accepted).takeWhile (fun i => !good i) ↔
      (accepted i = true ∧ (i = p ∨ (accepted i.other && good i.other) = false)) ∧
        good i = false := by
  cases p <;> cases i <;> cases ha : accepted .a <;> cases hb : accepted .b <;>
    cases hga : good .a <;> cases hgb : good .b <;> simp [BankIdx.other, ha, hb, hga, hgb]

end

end SystemFirmware.Lib
