import Mathlib.Algebra.Ring.Nat
import Mathlib.Data.Int.ModEq
import SystemFirmware.Lib.Window
import SystemFirmware.Vuart.Definitions

/-!
# Virtual UART — FIFO in both directions

The counters of a ring stand for positions that only grow, reduced modulo 2^32, and the
byte of a position is in the cell of its counter value modulo the capacity. Reducing twice
is reducing once as long as the counter has not wrapped, or if the capacity divides 2^32
(`vuart_fifo_of_unwrapped`).
-/

namespace SystemFirmware.Vuart

open Lib Lib.Window

-- ---
-- Counters and cells

theorem toNat_bufSize {h t : ℕ} (hle : h ≤ t) (hlt : t - h < 2 ^ 32) :
    (bufSize (UInt32.ofNat h) (UInt32.ofNat t)).toNat = t - h := by
  rw [bufSize, UInt32.toNat_sub, UInt32.toNat_ofNat', UInt32.toNat_ofNat']
  omega

theorem ofNat_add_one {n : ℕ} : UInt32.ofNat n + 1 = UInt32.ofNat (n + 1) := by
  rw [UInt32.ofNat_add]
  rfl

def cell (cap : Dir → UInt32) (d : Dir) (p : ℕ) : UInt32 := index cap d (UInt32.ofNat p)

/-- Reducing a position modulo 2^32 first makes no difference. -/
def Regular (cap p : ℕ) : Prop := p % 2 ^ 32 % cap = p % cap

theorem regular_of_lt {cap p : ℕ} (h : p < 2 ^ 32) : Regular cap p := by
  rw [Regular, Nat.mod_eq_of_lt h]

section

variable {cap : Dir → UInt32} {d : Dir} {p q : ℕ}

theorem cell_eq_iff :
    cell cap d p = cell cap d q ↔ p % 2 ^ 32 % (cap d).toNat = q % 2 ^ 32 % (cap d).toNat := by
  unfold cell index
  rw [UInt32.add_right_inj, ← UInt32.toNat_inj, UInt32.toNat_mod, UInt32.toNat_mod,
    UInt32.toNat_ofNat', UInt32.toNat_ofNat']

theorem fresh_cell (hregular : ∀ p ≤ q, Regular (cap d).toNat p) :
    Fresh (cell cap d) (cap d).toNat q := by
  intro p hlt hnear heq
  rw [cell_eq_iff, hregular p hlt.le, hregular q le_rfl] at heq
  have hdvd : (cap d).toNat ∣ q - p := (Nat.modEq_iff_dvd' hlt.le).mp heq
  have := Nat.le_of_dvd (by omega) hdvd
  omega

/-- There are two buffers, next to each other and within reach of 32 bits. -/
structure Fits (cap : Dir → UInt32) : Prop where
  pos : ∀ d, 1 ≤ (cap d).toNat
  area : (cap .tx).toNat + (cap .rx).toNat ≤ 2 ^ 32

variable (hfits : Fits cap)
include hfits

theorem toNat_mod_lt (counter : UInt32) : (counter % cap d).toNat < (cap d).toNat := by
  rw [UInt32.toNat_mod]
  exact Nat.mod_lt _ (hfits.pos d)

theorem toNat_index_tx (counter : UInt32) : (index cap .tx counter).toNat < (cap .tx).toNat := by
  rw [index, offs, UInt32.zero_add]
  exact toNat_mod_lt hfits counter

theorem toNat_index_rx (counter : UInt32) : (cap .tx).toNat ≤ (index cap .rx counter).toNat := by
  have hlt := @toNat_mod_lt cap .rx hfits counter
  have harea := hfits.area
  rw [index, offs, UInt32.toNat_add, Nat.mod_eq_of_lt (by omega)]
  exact Nat.le_add_right _ _

theorem index_ne_of_other {d' : Dir} (hne : d' ≠ d) (i j : UInt32) :
    index cap d' i ≠ index cap d j := by
  intro heq
  have heq := congrArg UInt32.toNat heq
  rcases d <;> rcases d'
  case tx.tx | rx.rx => exact hne rfl
  case tx.rx =>
    have := toNat_index_tx hfits j
    have := toNat_index_rx hfits i
    omega
  case rx.tx =>
    have := toNat_index_tx hfits i
    have := toNat_index_rx hfits j
    omega

end

-- ---
-- The invariant

def Ring.HasRoom (cap : ℕ) (r : Ring) : Prop := r.accepted.length < r.returned.length + cap

/-- What the producer's locals guarantee. The host checks for room before the call, the device in
it. -/
def OutInv (cap : Dir → UInt32) (d : Dir) (buf : UInt32 → UInt8) (r : Ring) : Prop :=
  match r.out with
  | .idle | .oflow => True
  | .loadTail _ => d = .rx → r.HasRoom (cap d).toNat
  | .loadHead _ tail => tail = r.tail ∧ (d = .rx → r.HasRoom (cap d).toNat)
  | .store _ tail => tail = r.tail ∧ r.HasRoom (cap d).toNat
  | .publish outChar tail =>
    tail = r.tail ∧ r.HasRoom (cap d).toNat ∧ buf (index cap d tail) = outChar

def InInv (r : Ring) : Prop :=
  match r.inp with
  | .idle | .loadHead => True
  | .loadTail head => head = r.head
  | .loadByte head => head = r.head ∧ r.returned.length < r.accepted.length
  | .exchange head ch => head = r.head ∧ r.accepted[r.returned.length]? = some ch

structure RingInv (cap : Dir → UInt32) (base : ℕ) (d : Dir) (buf : UInt32 → UInt8) (r : Ring) :
    Prop where
  head : r.head = UInt32.ofNat (base + r.returned.length)
  tail : r.tail = UInt32.ofNat (base + r.accepted.length)
  start : r.returned <+: r.accepted
  holds : Holds (cell cap d) (cap d).toNat base buf r.accepted r.returned.length
  out : OutInv cap d buf r
  inp : InInv r

def Inv (cap counter : Dir → UInt32) (s : World) : Prop :=
  ∀ d, RingInv cap (counter d).toNat d s.buf (s.ring d)

section

variable {cap counter : Dir → UInt32} {s t : World} {d : Dir} {base : ℕ} {buf : UInt32 → UInt8}
  {r : Ring}

theorem start_inv {txOflow : UInt32} : Inv cap counter (World.start counter txOflow buf) := by
  intro d
  exact ⟨UInt32.ofNat_toNat.symm, UInt32.ofNat_toNat.symm, List.prefix_rfl, Holds.init, trivial,
    trivial⟩

@[simp] theorem ring_set_self : (s.set d r).ring d = r := Function.update_self _ _ _

theorem ring_set_other {d' : Dir} (hne : d' ≠ d) : (s.set d r).ring d' = s.ring d' :=
  Function.update_of_ne hne _ _

theorem Inv.set (h : Inv cap counter s) (hr : RingInv cap (counter d).toNat d s.buf r) :
    Inv cap counter (s.set d r) := by
  intro d'
  by_cases hd : d' = d
  · subst hd
    rw [ring_set_self]
    exact hr
  · rw [ring_set_other hd]
    exact h d'

variable (h : RingInv cap base d buf r)

include h

theorem RingInv.moveOut {out : OutPc}
    (hout : OutInv cap d buf { r with out := out }) :
    RingInv cap base d buf { r with out := out } :=
  { h with out := hout }

theorem RingInv.moveIn {inp : InPc}
    (hinp : InInv { r with inp := inp }) : RingInv cap base d buf { r with inp := inp } :=
  { h with inp := hinp }

theorem RingInv.hasRoom
    (hfull : bufFull r.head r.tail (cap d) = false) : r.HasRoom (cap d).toNat := by
  have hle := h.holds.taken_le
  have hbounded := h.holds.bounded
  have hcap := (cap d).toNat_lt
  have hsize : (bufSize r.head r.tail).toNat = r.accepted.length - r.returned.length := by
    rw [h.head, h.tail, toNat_bufSize (by omega) (by omega)]
    omega
  have hne : (bufSize r.head r.tail).toNat ≠ (cap d).toNat := by
    intro heq
    rw [UInt32.toNat_inj] at heq
    simp [bufFull, heq] at hfull
  unfold Ring.HasRoom
  omega

theorem RingInv.nonempty (hempty : bufEmpty r.head r.tail = false) :
    r.returned.length < r.accepted.length := by
  have hle := h.holds.taken_le
  by_contra hge
  have heq : r.accepted.length = r.returned.length := by omega
  rw [bufEmpty, bufSize, h.head, h.tail, heq, UInt32.sub_self] at hempty
  simp at hempty

theorem RingInv.index_tail :
    index cap d r.tail = cell cap d (base + r.accepted.length) := by
  rw [h.tail, cell]

theorem RingInv.index_head :
    index cap d r.head = cell cap d (base + r.returned.length) := by
  rw [h.head, cell]

theorem RingInv.publish {outChar : UInt8}
    (hroom : r.HasRoom (cap d).toNat) (hbyte : buf (index cap d r.tail) = outChar) :
    RingInv cap base d buf
      { r with out := .idle, tail := r.tail + 1, accepted := r.accepted ++ [outChar] } where
  head := h.head
  tail := by
    show r.tail + 1 = _
    rw [h.tail, ofNat_add_one, List.length_append, List.length_singleton, Nat.add_assoc]
  start := h.start.trans (List.prefix_append _ _)
  holds := by
    rw [h.index_tail] at hbyte
    exact h.holds.publish hroom hbyte
  out := trivial
  inp := by
    have hinp := h.inp
    unfold InInv at hinp ⊢
    rcases hpc : r.inp
    all_goals simp only [hpc] at hinp ⊢
    case loadTail => exact hinp
    case loadByte =>
      rw [List.length_append]
      exact ⟨hinp.1, by omega⟩
    case exchange =>
      have hlt := (List.getElem?_eq_some_iff.mp hinp.2).1
      rw [List.getElem?_append_left hlt]
      exact hinp

theorem RingInv.exchange {ch : UInt8}
    (hget : r.accepted[r.returned.length]? = some ch) :
    RingInv cap base d buf
      { r with inp := .idle, head := r.head + 1, returned := r.returned ++ [ch] } where
  head := by
    show r.head + 1 = _
    rw [h.head, ofNat_add_one, List.length_append, List.length_singleton, Nat.add_assoc]
  tail := h.tail
  start := by
    obtain ⟨rest, hrest⟩ := h.start
    rw [← hrest, List.getElem?_append_right le_rfl, Nat.sub_self] at hget
    rcases rest with _ | ⟨b, rest⟩
    · simp at hget
    · obtain rfl : b = ch := by simpa using hget
      exact ⟨rest, by rw [← hrest, List.append_assoc]; rfl⟩
  holds := by
    have hlt := (List.getElem?_eq_some_iff.mp hget).1
    rw [List.length_append, List.length_singleton]
    exact h.holds.release hlt
  out := by
    -- room stays room when a byte is taken out
    have hout := h.out
    have hmore : r.HasRoom (cap d).toNat →
        r.accepted.length < (r.returned ++ [ch]).length + (cap d).toNat := by
      intro hroom
      rw [List.length_append, List.length_singleton]
      exact Nat.lt_of_lt_of_le hroom (by omega)
    unfold OutInv at hout ⊢
    rcases hpc : r.out
    all_goals simp only [hpc] at hout ⊢
    case loadTail => exact fun hd => hmore (hout hd)
    case loadHead => exact ⟨hout.1, fun hd => hmore (hout.2 hd)⟩
    case store => exact ⟨hout.1, hmore hout.2⟩
    case publish => exact ⟨hout.1, hmore hout.2.1, hout.2.2⟩
  inp := trivial

end

-- ---
-- Steps and runs

/-- In either ring, the capacity divides 2^32 or the tail counter has not wrapped. -/
def Unwrapped (cap counter : Dir → UInt32) (s : World) : Prop :=
  ∀ d, (cap d).toNat ∣ 2 ^ 32 ∨ (counter d).toNat + (s.ring d).accepted.length < 2 ^ 32

section

variable {cap counter : Dir → UInt32} {s t : World} {d : Dir}

theorem Unwrapped.fresh (h : Unwrapped cap counter s) :
    Fresh (cell cap d) (cap d).toNat ((counter d).toNat + (s.ring d).accepted.length) := by
  refine fresh_cell ?_
  intro p hp
  rcases h d with hdvd | hlt
  · exact Nat.mod_mod_of_dvd p hdvd
  · exact regular_of_lt (by omega)

variable {outChar : UInt8} {tail : UInt32}

section

variable (h : Inv cap counter s) (hfits : Fits cap) (hwrap : Unwrapped cap counter s)
include h hfits hwrap

theorem Inv.store_free (hpc : (s.ring d).out = .store outChar tail) (d' : Dir) {i : ℕ}
    (hlo : (s.ring d').returned.length ≤ i) (hhi : i < (s.ring d').accepted.length) :
    cell cap d' ((counter d').toNat + i) ≠ index cap d tail := by
  have hout := (h d).out
  simp only [OutInv, hpc] at hout
  obtain ⟨rfl, hroom⟩ := hout
  by_cases hd : d' = d
  · subst hd
    rw [(h d').index_tail]
    exact hwrap.fresh.next_free hroom hlo hhi
  · exact index_ne_of_other hfits hd _ _

theorem store_inv (hpc : (s.ring d).out = .store outChar tail) :
    Inv cap counter { s.set d { s.ring d with out := .publish outChar tail } with
      buf := Function.update s.buf (index cap d tail) outChar } := by
  have hout := (h d).out
  simp only [OutInv, hpc] at hout
  intro d'
  have hholds := (h d').holds.store outChar fun i => h.store_free hfits hwrap hpc d'
  by_cases hd : d' = d
  · subst hd
    show RingInv _ _ _ _ ((s.set d' _).ring d')
    rw [ring_set_self]
    exact ⟨(h d').head, (h d').tail, (h d').start, hholds,
      ⟨hout.1, hout.2, Function.update_self _ _ _⟩, (h d').inp⟩
  · show RingInv _ _ _ _ ((s.set d _).ring d')
    rw [ring_set_other hd]
    refine ⟨(h d').head, (h d').tail, (h d').start, hholds, ?_, (h d').inp⟩
    -- a byte the other producer has stored is in the other buffer
    have hother := (h d').out
    unfold OutInv at hother ⊢
    rcases hpc' : (s.ring d').out
    all_goals simp only [hpc'] at hother ⊢
    case publish c tail' =>
      rw [Function.update_of_ne (index_ne_of_other hfits hd _ _)]
      exact hother
    all_goals exact hother

theorem outStep_inv {expired : Bool} (hstep : outStep cap d expired s = some t) :
    Inv cap counter t := by
  have hout := (h d).out
  unfold OutInv at hout
  unfold outStep at hstep
  rcases hpc : (s.ring d).out
  all_goals simp only [hpc] at hstep hout
  case idle => simp at hstep
  case loadTail c =>
    rw [← Option.some.inj hstep]
    exact h.set ((h d).moveOut ⟨rfl, hout⟩)
  case loadHead c tail =>
    obtain ⟨rfl, hroom⟩ := hout
    split at hstep
    · rename_i hfull
      rw [← Option.some.inj hstep]
      refine h.set ((h d).moveOut ?_)
      rcases expired
      · exact fun hd => absurd (hfull.1.symm.trans hd) (by simp)
      · trivial
    · rename_i hfull
      rw [← Option.some.inj hstep]
      refine h.set ((h d).moveOut ⟨rfl, ?_⟩)
      -- the device has tested for room, the host before the call
      rcases d
      · exact (h .tx).hasRoom (Bool.eq_false_iff.mpr fun hf => hfull ⟨rfl, hf⟩)
      · exact hroom rfl
  case oflow =>
    rw [← Option.some.inj hstep]
    exact h.set ((h d).moveOut trivial)
  case store c tail =>
    rw [← Option.some.inj hstep]
    exact store_inv h hfits hwrap hpc
  case publish c tail =>
    obtain ⟨rfl, hroom, hbyte⟩ := hout
    rw [← Option.some.inj hstep]
    exact h.set ((h d).publish hroom hbyte)

end

theorem inStep_inv (h : Inv cap counter s) (hstep : inStep cap d s = some t) :
    Inv cap counter t := by
  have hinp := (h d).inp
  unfold InInv at hinp
  unfold inStep at hstep
  rcases hpc : (s.ring d).inp
  all_goals simp only [hpc] at hstep hinp
  case idle => simp at hstep
  case loadHead =>
    rw [← Option.some.inj hstep]
    exact h.set ((h d).moveIn rfl)
  case loadTail head =>
    subst hinp
    rw [← Option.some.inj hstep]
    refine h.set ((h d).moveIn ?_)
    split
    · trivial
    · rename_i hempty
      exact ⟨rfl, (h d).nonempty (Bool.eq_false_iff.mpr hempty)⟩
  case loadByte head =>
    obtain ⟨rfl, hlt⟩ := hinp
    rw [← Option.some.inj hstep]
    refine h.set ((h d).moveIn ⟨rfl, ?_⟩)
    rw [(h d).index_head]
    exact (h d).holds.load hlt
  case exchange head ch =>
    obtain ⟨rfl, hget⟩ := hinp
    rw [if_pos rfl] at hstep
    rw [← Option.some.inj hstep]
    exact h.set ((h d).exchange hget)

variable {a : Action}

theorem step_inv (hfits : Fits cap) (h : Inv cap counter s) (hwrap : Unwrapped cap counter s)
    (hstep : step cap s a = some t) : Inv cap counter t := by
  rcases a
  case pollOut d c =>
    simp only [step] at hstep
    split at hstep
    · rename_i hcall
      rw [← Option.some.inj hstep]
      exact h.set ((h d).moveOut fun hd => (h d).hasRoom (hcall.2 hd))
    · simp at hstep
  case out d expired => exact outStep_inv h hfits hwrap hstep
  case pollIn d =>
    simp only [step] at hstep
    split at hstep
    · rw [← Option.some.inj hstep]
      exact h.set ((h d).moveIn trivial)
    · simp at hstep
  case inp d => exact inStep_inv h hstep

theorem accepted_set {r : Ring} (hr : (s.ring d).accepted <+: r.accepted) (d' : Dir) :
    (s.ring d').accepted <+: ((s.set d r).ring d').accepted := by
  by_cases hd : d' = d
  · subst hd
    rw [ring_set_self]
    exact hr
  · have hsame : (s.set d r).ring d' = s.ring d' := ring_set_other hd
    exact hsame ▸ List.prefix_rfl

theorem step_accepted (hstep : step cap s a = some t) (d' : Dir) :
    (s.ring d').accepted <+: (t.ring d').accepted := by
  -- only the producer's last access changes the list
  have hsame : ∀ {d : Dir} {r : Ring}, r.accepted = (s.ring d).accepted →
      (s.ring d').accepted <+: ((s.set d r).ring d').accepted :=
    fun hr => accepted_set (hr ▸ List.prefix_rfl) d'
  rcases a
  case pollOut d c =>
    simp only [step] at hstep
    split at hstep
    · rw [← Option.some.inj hstep]
      exact hsame rfl
    · simp at hstep
  case out d expired =>
    simp only [step, outStep] at hstep
    split at hstep
    case h_1 => simp at hstep
    case h_3 => split at hstep <;> rw [← Option.some.inj hstep] <;> exact hsame rfl
    case h_6 =>
      rw [← Option.some.inj hstep]
      exact accepted_set (List.prefix_append _ _) d'
    all_goals
      rw [← Option.some.inj hstep]
      exact hsame rfl
  case pollIn d =>
    simp only [step] at hstep
    split at hstep
    · rw [← Option.some.inj hstep]
      exact hsame rfl
    · simp at hstep
  case inp d =>
    simp only [step, inStep] at hstep
    split at hstep
    case h_1 => simp at hstep
    case h_5 => split at hstep <;> rw [← Option.some.inj hstep] <;> exact hsame rfl
    all_goals
      rw [← Option.some.inj hstep]
      exact hsame rfl

theorem Unwrapped.of_step (hstep : step cap s a = some t) (h : Unwrapped cap counter t) :
    Unwrapped cap counter s := by
  intro d
  have hle := (step_accepted hstep d).length_le
  exact (h d).imp_right fun hlt => by omega

theorem exec_inv {actions : List Action} (hfits : Fits cap) {txOflow : UInt32}
    {buf : UInt32 → UInt8} (hrun : exec (step cap) (World.start counter txOflow buf) actions = some s)
    (hwrap : Unwrapped cap counter s) : Inv cap counter s := by
  have hkeep : ∀ s a t, (Unwrapped cap counter s → Inv cap counter s) → step cap s a = some t →
      (Unwrapped cap counter t → Inv cap counter t) := by
    intro s a t h hstep hwrap
    exact step_inv hfits (h (hwrap.of_step hstep)) (hwrap.of_step hstep) hstep
  exact exec_invariant hkeep (fun _ => start_inv) hrun hwrap

end

-- ---
-- What can still be read

def ConsumerOf (d : Dir) (a : Action) : Prop := a = .pollIn d ∨ a = .inp d

/-- Accesses left until the exchange of a call. -/
def InPc.rank : InPc → ℕ
  | .idle => 5
  | .loadHead => 4
  | .loadTail _ => 3
  | .loadByte _ => 2
  | .exchange _ _ => 1

def Ring.work (r : Ring) : ℕ := 6 * (r.accepted.length - r.returned.length) + r.inp.rank

section

variable {cap counter : Dir → UInt32} {s t : World} {d : Dir}

theorem consumer_step (h : Inv cap counter s)
    (hlt : (s.ring d).returned.length < (s.ring d).accepted.length) :
    ∃ a t, ConsumerOf d a ∧ step cap s a = some t ∧ Inv cap counter t ∧
      (t.ring d).accepted = (s.ring d).accepted ∧ (t.ring d).work < (s.ring d).work := by
  have hinp := (h d).inp
  unfold InInv at hinp
  rcases hpc : (s.ring d).inp
  all_goals simp only [hpc] at hinp
  case idle =>
    have hstep : step cap s (.pollIn d) = some (s.set d { s.ring d with inp := .loadHead }) :=
      if_pos hpc
    refine ⟨.pollIn d, _, .inl rfl, hstep, h.set ((h d).moveIn trivial), ?_⟩
    simp [Ring.work, hpc, InPc.rank]
  case loadHead =>
    have hstep : step cap s (.inp d) =
        some (s.set d { s.ring d with inp := .loadTail (s.ring d).head }) := by
      simp only [step, inStep, hpc]
    refine ⟨.inp d, _, .inr rfl, hstep, inStep_inv h hstep, ?_⟩
    simp [Ring.work, hpc, InPc.rank]
  case loadTail head =>
    subst hinp
    have hsome : bufEmpty (s.ring d).head (s.ring d).tail = false := by
      have hbounded := (h d).holds.bounded
      have hcap := (cap d).toNat_lt
      rw [bufEmpty, beq_eq_false_iff_ne, Ne, ← UInt32.toNat_inj, (h d).head, (h d).tail,
        toNat_bufSize (by omega) (by omega), UInt32.toNat_zero]
      omega
    have hstep : step cap s (.inp d) =
        some (s.set d { s.ring d with inp := .loadByte (s.ring d).head }) := by
      simp only [step, inStep, hpc, hsome, Bool.false_eq_true, if_false]
    refine ⟨.inp d, _, .inr rfl, hstep, inStep_inv h hstep, ?_⟩
    simp [Ring.work, hpc, InPc.rank]
  case loadByte head =>
    have hstep : step cap s (.inp d) = some (s.set d { s.ring d with
        inp := .exchange head (s.buf (index cap d head)) }) := by
      simp only [step, inStep, hpc]
    refine ⟨.inp d, _, .inr rfl, hstep, inStep_inv h hstep, ?_⟩
    simp [Ring.work, hpc, InPc.rank]
  case exchange head ch =>
    have hstep : step cap s (.inp d) = some (s.set d { s.ring d with
        inp := .idle, head := head + 1, returned := (s.ring d).returned ++ [ch] }) := by
      simp only [step, inStep, hpc, hinp.1, if_true]
    refine ⟨.inp d, _, .inr rfl, hstep, inStep_inv h hstep, ?_⟩
    simp only [ring_set_self, Ring.work, hpc, InPc.rank, List.length_append, List.length_singleton,
      true_and]
    omega

theorem consumer_drains (h : Inv cap counter s) :
    ∃ t, Reaches (step cap) (ConsumerOf d) s t ∧ (t.ring d).accepted = (s.ring d).accepted ∧
      (t.ring d).returned = (s.ring d).accepted := by
  obtain ⟨n, hn⟩ : ∃ n, (s.ring d).work ≤ n := ⟨_, le_rfl⟩
  induction n generalizing s with
  | zero =>
    rcases hpc : (s.ring d).inp <;> simp [Ring.work, hpc, InPc.rank] at hn
  | succ n ih =>
    by_cases hlt : (s.ring d).returned.length < (s.ring d).accepted.length
    · obtain ⟨a, m, ha, hstep, hinv, haccepted, hwork⟩ := consumer_step h hlt
      obtain ⟨t, hreach, htaccepted, htreturned⟩ := ih hinv (by omega)
      rw [haccepted] at htaccepted htreturned
      exact ⟨t, (Reaches.single ha hstep).trans hreach, htaccepted, htreturned⟩
    · exact ⟨s, Reaches.refl, rfl, (h d).start.eq_of_length_le (by omega)⟩

end

-- ---
-- The result

/-- The contract of one ring whose counters started at `counter`. -/
structure Fifo (cap : Dir → UInt32) (counter : Dir → UInt32) (d : Dir) (s : World) : Prop where
  /-- The bytes returned are the first ones accepted. -/
  inOrder : (s.ring d).returned <+: (s.ring d).accepted
  /-- Every byte not yet read is where its counter value says. -/
  unread : ∀ i, (s.ring d).returned.length ≤ i → i < (s.ring d).accepted.length →
    (s.ring d).accepted[i]? = some (s.buf (index cap d (counter d + UInt32.ofNat i)))
  /-- No producer is about to overwrite it. -/
  kept : ∀ i, (s.ring d).returned.length ≤ i → i < (s.ring d).accepted.length →
    ∀ d' outChar tail, (s.ring d').out = .store outChar tail →
      index cap d (counter d + UInt32.ofNat i) ≠ index cap d' tail
  /-- The calls of the consumer alone return all the rest. -/
  drains : ∃ t, Reaches (step cap) (ConsumerOf d) s t ∧
    (t.ring d).accepted = (s.ring d).accepted ∧ (t.ring d).returned = (s.ring d).accepted

theorem cell_counter {cap counter : Dir → UInt32} {d : Dir} {i : ℕ} :
    index cap d (counter d + UInt32.ofNat i) = cell cap d ((counter d).toNat + i) := by
  rw [cell, UInt32.ofNat_add, UInt32.ofNat_toNat]

/-- **FIFO in both directions**, in every state of every run whose counters have not
wrapped, or whose capacities divide 2^32. -/
theorem vuart_fifo_of_unwrapped {cap counter : Dir → UInt32} {txOflow : UInt32}
    {buf : UInt32 → UInt8} {actions : List Action} {s : World} (hfits : Fits cap)
    (hrun : exec (step cap) (World.start counter txOflow buf) actions = some s)
    (hwrap : Unwrapped cap counter s) : ∀ d, Fifo cap counter d s := by
  have hinv := exec_inv hfits hrun hwrap
  intro d
  refine ⟨(hinv d).start, ?_, ?_, consumer_drains hinv⟩
  · intro i hlo hhi
    rw [cell_counter]
    exact (hinv d).holds.entries i hlo hhi
  · intro i hlo hhi d' outChar tail hpc
    rw [cell_counter]
    exact hinv.store_free hfits hwrap hpc d hlo hhi

def fourBytes : Dir → UInt32 := fun _ => 4

def lastCounter : Dir → UInt32 := fun _ => 0xFFFFFFFF

def sendByte (d : Dir) (outChar : UInt8) : List Action :=
  .pollOut d outChar :: List.replicate 4 (.out d true)

def receiveByte (d : Dir) : List Action := .pollIn d :: List.replicate 4 (.inp d)

def acrossWrap : List Action :=
  sendByte .tx 1 ++ sendByte .rx 2 ++ sendByte .tx 3 ++ sendByte .rx 4 ++ receiveByte .tx ++
    receiveByte .rx

theorem acrossWrap_fifo : ∃ s,
    exec (step fourBytes) (World.start lastCounter 0 fun _ => 0) acrossWrap = some s ∧
    ((s.ring .tx).returned, (s.ring .rx).returned) = ([1], [2]) ∧
    ∀ d, Fifo fourBytes lastCounter d s := by
  have hrun : (exec (step fourBytes) (World.start lastCounter 0 fun _ => 0) acrossWrap).map
      (fun s => ((s.ring .tx).returned, (s.ring .rx).returned)) = some ([1], [2]) := by
    decide +kernel
  obtain ⟨s, hs, hreturned⟩ := Option.map_eq_some_iff.mp hrun
  refine ⟨s, hs, hreturned, vuart_fifo_of_unwrapped ⟨?_, by decide⟩ hs ?_⟩
  · intro d
    show 1 ≤ 4
    decide
  · intro d
    exact .inl (by decide : 4 ∣ 2 ^ 32)

def threeBytes : Dir → UInt32
  | .tx => 3
  | .rx => 4

def lostByte : List Action :=
  sendByte .tx 1 ++ sendByte .tx 2 ++ receiveByte .tx ++ receiveByte .tx

/-- **Counterexample.** Both 2^32 - 1 and 0 are multiples of three, so the byte behind the wrap
overwrites an unread one. -/
theorem wrap_overwrites : Fits threeBytes ∧ ∃ s,
    exec (step threeBytes) (World.start lastCounter 0 fun _ => 0) lostByte = some s ∧
    (s.ring .tx).accepted = [1, 2] ∧ (s.ring .tx).returned = [2, 2] := by
  refine ⟨⟨?_, by decide⟩, _, rfl, rfl, rfl⟩
  intro d
  rcases d <;> decide

end SystemFirmware.Vuart
