import Mathlib.Algebra.Ring.Nat
import Mathlib.Data.List.Basic
import Mathlib.Logic.Function.Basic

/-!
# Grendel SMC DMA — synchronous start

`drivers/dma/dma_tt_grendel_smc.c` starts the blocks of a channel one after the other. The
hardware numbers the transfers of a channel from 1 to `2 ^ 32 - 1` and then from 1 again,
and its `DONE` register holds the number of the last complete one. `dma_grendel_start`
polls until `DONE` is not below the number of its block (`start_synchronous`).

Transfers are counted without a bound here, `number` is the hardware's number, and what
the register shows at every read is an input.
-/

namespace SystemFirmware.Dma.GrendelSmc

structure Block where
  sourceAddress : UInt64
  destAddress : UInt64
  blockSize : UInt32
  sourceGatherInterval : UInt32
  destScatterInterval : UInt32
  sourceGatherCount : UInt32
  deriving DecidableEq

/-- The registers of a transfer; the upper halves of strides and repetitions are 0. -/
structure Registers where
  src : UInt64
  dst : UInt64
  length : UInt64
  srcStride : UInt32
  dstStride : UInt32
  numRepetitions : UInt32
  deriving DecidableEq

/-- What `dma_transfer` writes. -/
def Block.registers (b : Block) : Registers where
  src := b.sourceAddress
  dst := b.destAddress
  length := b.blockSize.toUInt64
  srcStride := b.sourceGatherInterval
  dstStride := b.destScatterInterval
  numRepetitions := if b.sourceGatherCount > 0 then b.sourceGatherCount else 1

inductive Errno where
  | einval
  | eio
  | etimedout
  deriving DecidableEq

structure Channel where
  blocks : ℕ → Block
  blockCount : ℕ
  configured : Bool

/-- `dma_grendel_config` of an existing channel, with the list of `head_block`. -/
def config (maxBlocks : ℕ) (ch : Channel) (blockCount : ℕ) (blocks : List Block) :
    Except Errno Channel :=
  if blockCount = 0 ∨ blocks = [] then .error .einval
  else if blockCount > maxBlocks then .error .einval
  else .ok {
    blocks := fun i => if i < blockCount then blocks[i]?.getD (ch.blocks i) else ch.blocks i
    blockCount := blockCount
    configured := true }

-- ---
-- The hardware

/-- The number of the `k`-th transfer of a channel. Before the first one `DONE` is 0. -/
def number (k : ℕ) : ℕ := if k = 0 then 0 else (k - 1) % (2 ^ 32 - 1) + 1

/-- A round of the polling loop: how many transfers are complete when `DONE` is read and when the
timeout is tested, and whether it has expired. -/
structure Poll where
  atRead : ℕ
  atTest : ℕ
  expired : Bool

/-- The polling loop for `id`: whether it ends in time, and how many transfers are complete then.
`none` still runs after these rounds. -/
def pollDone (id : ℕ) : List Poll → Option (Bool × ℕ)
  | [] => none
  | p :: polls =>
    if number p.atRead < id then
      if p.expired then some (false, p.atTest) else pollDone id polls
    else some (true, p.atRead)

/-- The transfers a call has started, and how many of the channel are complete then. -/
structure Outcome where
  ret : Except Errno Unit
  started : List Registers
  completed : ℕ

/-- The loop of `dma_grendel_start`, after `total` transfers of which `completed` are complete,
with the polls for each block. -/
def startBlocks : ℕ → ℕ → List Block → List (List Poll) → Option Outcome
  | _, completed, [], _ => some ⟨.ok (), [], completed⟩
  | _, _, _ :: _, [] => none
  | total, completed, b :: blocks, polls :: more =>
    if number (total + 1) = 0 then some ⟨.error .eio, [b.registers], completed⟩
    else
      match pollDone (number (total + 1)) polls with
      | none => none
      | some (false, now) => some ⟨.error .etimedout, [b.registers], now⟩
      | some (true, now) => (startBlocks (total + 1) now blocks more).map fun r =>
          { r with started := b.registers :: r.started }

def start (ch : Channel) (total completed : ℕ) (polls : List (List Poll)) : Option Outcome :=
  if ch.configured = false then some ⟨.error .einval, [], completed⟩
  else startBlocks total completed ((List.range ch.blockCount).map ch.blocks) polls

-- ---
-- Reads that tell the truth

/-- The polling loop for transfer `k` ends with this round. -/
def Poll.Decides (k : ℕ) (p : Poll) : Bool := decide (number k ≤ number p.atRead) || p.expired

/-- The polls of `n` blocks after `total` transfers, by the round that ends each loop: where it ends
the call with success, the last block is complete at the read; where it ends the call with a
timeout, its block is not complete at the test. -/
def Truthful : ℕ → ℕ → List (List Poll) → Prop
  | _, 0, _ => True
  | _, _ + 1, [] => True
  | total, n + 1, polls :: more =>
    ∀ p, polls.find? (Poll.Decides (total + 1)) = some p →
      if number (total + 1) ≤ number p.atRead then
        (n = 0 → total + 1 ≤ p.atRead) ∧ Truthful (total + 1) n more
      else p.atTest < total + 1

theorem number_ne_zero {k : ℕ} (h : 0 < k) : number k ≠ 0 := by
  unfold number
  split <;> omega

theorem pollDone_eq (k : ℕ) (polls : List Poll) :
    pollDone (number k) polls = (polls.find? (Poll.Decides k)).map fun p =>
      if number k ≤ number p.atRead then (true, p.atRead) else (false, p.atTest) := by
  induction polls with
  | nil => rfl
  | cons p polls ih =>
    rw [pollDone, List.find?_cons, Poll.Decides]
    by_cases hlt : number p.atRead < number k
    · rw [if_pos hlt, decide_eq_false (Nat.not_le.mpr hlt), Bool.false_or, ih]
      cases p.expired with
      | true => simp [Nat.not_le.mpr hlt]
      | false => rfl
    · simp [hlt, Nat.not_lt.mp hlt]

variable {completed total : ℕ} {polls : List (List Poll)}

theorem startBlocks_started {blocks : List Block} {r : Outcome}
    (h : startBlocks total completed blocks polls = some r) (hok : r.ret = .ok ()) :
    r.started = blocks.map Block.registers := by
  induction blocks generalizing total completed polls r with
  | nil =>
    obtain rfl := Option.some.inj h
    rfl
  | cons b blocks ih =>
    rcases polls with _ | ⟨polls, more⟩
    · cases h
    rw [startBlocks, if_neg (number_ne_zero (Nat.succ_pos total))] at h
    split at h
    · cases h
    · obtain rfl := Option.some.inj h
      cases hok
    · obtain ⟨rest, hrest, rfl⟩ := Option.map_eq_some_iff.mp h
      rw [List.map_cons, ← ih hrest hok]

/-- The induction is on the blocks still to be started. An earlier block may end its loop too early:
what counts is the read after the last one. -/
theorem startBlocks_iff {blocks : List Block} {r : Outcome} (hblocks : blocks ≠ [])
    (h : startBlocks total completed blocks polls = some r) :
    ((r.ret = .ok () → total + blocks.length ≤ r.completed) ∧
      (r.ret = .error .etimedout → r.completed < total + r.started.length)) ↔
    Truthful total blocks.length polls := by
  induction blocks generalizing total completed polls r with
  | nil => exact absurd rfl hblocks
  | cons b blocks ih =>
    rcases polls with _ | ⟨polls, more⟩
    · cases h
    rw [startBlocks, if_neg (number_ne_zero (Nat.succ_pos total)), pollDone_eq] at h
    rw [List.length_cons, Truthful]
    cases hdecides : polls.find? (Poll.Decides (total + 1)) with
    | none =>
      rw [hdecides] at h
      cases h
    | some p =>
      rw [hdecides] at h
      simp only [Option.map_some, Option.some.injEq, forall_eq'] at h ⊢
      by_cases hread : number (total + 1) ≤ number p.atRead
      · rw [if_pos hread] at h ⊢
        obtain ⟨rest, hrest, rfl⟩ := Option.map_eq_some_iff.mp h
        by_cases hnil : blocks = []
        · subst hnil
          obtain rfl := Option.some.inj hrest
          simp [Truthful]
        · rw [← ih hnil hrest]
          have hlength : blocks.length ≠ 0 := fun hzero => hnil (List.length_eq_zero_iff.mp hzero)
          simp only [List.length_cons, hlength, false_imp_iff, true_and, Nat.add_assoc,
            Nat.add_comm 1]
      · rw [if_neg hread] at h ⊢
        obtain rfl := Option.some.inj h
        simp

/-- What a block's polls can see after `total` transfers: they complete in order, and none between
the last read of `DONE` and the end of the call. -/
structure Seen (completed total : ℕ) (p : Poll) : Prop where
  since : completed ≤ p.atRead
  before : p.atTest ≤ total
  prompt : p.atRead ≤ p.atTest ∧ (p.expired = true → p.atRead = p.atTest)

/-- The polls of all blocks, the first of which is transfer `total + 1`. -/
def AllSeen (completed : ℕ) : ℕ → List (List Poll) → Prop
  | _, [] => True
  | total, polls :: more =>
    (∀ p ∈ polls, Seen completed (total + 1) p) ∧ AllSeen completed (total + 1) more

def NoWrap (completed last : ℕ) : Prop :=
  completed ≤ last ∧ number completed + (last - completed) < 2 ^ 32

theorem NoWrap.number_lt {last a b : ℕ} (h : NoWrap completed last) (ha : completed ≤ a)
    (hab : a ≤ last) (hb : completed ≤ b) (hbl : b ≤ last) : number a < number b ↔ a < b := by
  obtain ⟨-, hsmall⟩ := h
  have hnumber : ∀ k, completed ≤ k → k ≤ last → number k = number completed + (k - completed) := by
    intro k hk hkl
    unfold number at hsmall ⊢
    split_ifs at hsmall ⊢ <;> omega
  rw [hnumber a ha hab, hnumber b hb hbl]
  omega

theorem NoWrap.truthful {last n : ℕ} (h : NoWrap completed last) (htotal : completed ≤ total)
    (hlast : total + n ≤ last) (hseen : AllSeen completed total polls) :
    Truthful total n polls := by
  induction n generalizing total polls with
  | zero => trivial
  | succ n ih =>
    rcases polls with _ | ⟨polls, more⟩
    · trivial
    intro p hp
    obtain ⟨hfirst, hmore⟩ := hseen
    obtain ⟨hsince, hbefore, hread, hprompt⟩ := hfirst p (List.mem_of_find?_eq_some hp)
    have hdecides := List.find?_some hp
    have hlt := h.number_lt hsince (by omega) (show completed ≤ total + 1 by omega) (by omega)
    rw [Poll.Decides, Bool.or_eq_true, decide_eq_true_eq] at hdecides
    split
    · rename_i hdone
      rw [← Nat.not_lt, hlt] at hdone
      exact ⟨fun _ => by omega, ih (by omega) (by omega) hmore⟩
    · rename_i hdone
      have heq := hprompt (hdecides.resolve_left hdone)
      rw [Nat.not_le, hlt] at hdone
      omega

def oneBlock : Block := ⟨0x1000, 0x2000, 64, 0, 0, 0⟩

def startOne (total completed : ℕ) (polls : List Poll) : Option Outcome :=
  match config 4 ⟨fun _ => oneBlock, 0, false⟩ 1 [oneBlock] with
  | .error _ => none
  | .ok ch => start ch total completed [polls]

end SystemFirmware.Dma.GrendelSmc
