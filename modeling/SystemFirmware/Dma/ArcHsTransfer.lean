import Mathlib.Algebra.Ring.Nat
import SystemFirmware.Dma.ArcHs
import SystemFirmware.Lib.Exec

/-!
# ARC HS DMA — concurrent transfers

`dma_arc_hs_transfer` splits a transfer into blocks, writes them into the one array
`transfer_blocks` of the device, configures its channel, starts it and waits. Configuration
and start each take the driver's lock; the array is not locked. So a thread that writes its
blocks between the first write of another one and its start has the other channel copy the
wrong bytes (`transfers_mix`), and otherwise each gets its own (`transfer_copies_own`).

The threads' steps, the hardware and the completion handler interleave in any way, with one
call for each channel.
-/

namespace SystemFirmware.Dma.ArcHs

open Lib

-- ---
-- One call

structure Transfer where
  src : UInt32
  dst : UInt32
  len : UInt32

/-- `max_block_size` and `buffer_address_alignment` of the device tree. -/
structure Device where
  maxBlockSize : ℕ
  alignment : ℕ
  pos : 0 < maxBlockSize

/-- `(len + max_block_size - 1) / max_block_size`, in 32 bits. -/
def Device.numBlocks (dev : Device) (t : Transfer) : ℕ :=
  (t.len.toNat + dev.maxBlockSize - 1) % 2 ^ 32 / dev.maxBlockSize

/-- The loop that splits a transfer: `n` blocks from place `i` on. -/
def Device.split (dev : Device) : (n i : ℕ) → (src dst : UInt32) → (remaining : ℕ) → List DmaBlock
  | 0, _, _, _, _ => []
  | n + 1, i, src, dst, remaining =>
    let len := min remaining dev.maxBlockSize
    ⟨src, dst, .ofNat len, if n = 0 then none else some (i + 1)⟩ ::
      dev.split n (i + 1) (src + .ofNat len) (dst + .ofNat len) (remaining - len)

def Device.blocksOf (dev : Device) (t : Transfer) : List DmaBlock :=
  dev.split (dev.numBlocks t) 0 t.src t.dst t.len.toNat

/-- The configuration of a transfer; the first block is at the first place of the array. -/
def Device.configOf (dev : Device) (t : Transfer) : DmaConfig where
  memoryToMemory := true
  sourceChainingEn := false
  destChainingEn := false
  linkedChannel := 0
  sourceBurstLength := 0
  blockCount := dev.numBlocks t
  headBlock := some 0

inductive TransferError where
  | driver (e : Errno)
  | unaligned
  | tooLong
  | timedOut
  deriving DecidableEq

inductive Phase where
  /-- It writes `rest` to the array, from place `i` on. -/
  | filling (i : ℕ) (rest : List DmaBlock)
  | configured
  | waiting
  | returned (ret : Except TransferError Unit)

def Device.begin (dev : Device) (d : Driver) (c : ℕ) (t : Transfer) : Phase :=
  if t.len = 0 then .returned (.ok ())
  else if t.src.toNat % dev.alignment ≠ 0 ∨ t.dst.toNat % dev.alignment ≠ 0 then
    .returned (.error .unaligned)
  else if c ≥ d.channels then .returned (.error (.driver .einval))
  else if dev.numBlocks t > d.descriptors then .returned (.error .tooLong)
  else .filling 0 (dev.blocksOf t)

-- ---
-- All calls

/-- Where the call of a channel is, and which of its blocks are queued and were copied. -/
structure Call where
  phase : Phase
  queue : List DmaBlock
  copied : List DmaBlock

structure System where
  driver : Driver
  transferBlocks : ℕ → DmaBlock
  call : ℕ → Call

inductive Action where
  | thread (c : ℕ)
  | timeout (c : ℕ)
  | copyBlock (c : ℕ)
  | completion (c : ℕ)

def System.setCall (s : System) (c : ℕ) (call : Call) : System :=
  { s with call := Function.update s.call c call }

def System.setPhase (s : System) (c : ℕ) (phase : Phase) : System :=
  s.setCall c { s.call c with phase := phase }

section

variable (dev : Device) (transfers : ℕ → Transfer)

def threadStep (s : System) (c : ℕ) : Option System :=
  match (s.call c).phase with
  | .filling i (b :: rest) =>
    some ({ s with transferBlocks := Function.update s.transferBlocks i b }.setPhase c
      (.filling (i + 1) rest))
  | .filling _ [] =>
    match config s.transferBlocks s.driver c (dev.configOf (transfers c)) with
    | .error e => some (s.setPhase c (.returned (.error (.driver e))))
    | .ok d => some ({ s with driver := d }.setPhase c .configured)
  | .configured =>
    (start s.transferBlocks 1 s.driver c).map fun r =>
      match r.ret with
      | .error e => s.setPhase c (.returned (.error (.driver e)))
      | .ok _ => { s with driver := r.driver }.setCall c
          { s.call c with phase := .waiting, queue := (s.call c).queue ++ r.queued }
  | .waiting =>
    -- `dma_get_status`, and `dma_stop` when the channel is not busy
    if (s.driver.channel c).state = .active ∧ (s.call c).queue ≠ [] then some s
    else some ({ s with driver := s.driver.setState c .idle }.setPhase c (.returned (.ok ())))
  | .returned _ => none

def step (s : System) : Action → Option System
  | .thread c => threadStep dev transfers s c
  | .timeout c =>
    match (s.call c).phase with
    | .waiting => some ({ s with driver := s.driver.setState c .idle }.setPhase c
        (.returned (.error .timedOut)))
    | _ => none
  | .copyBlock c =>
    match (s.call c).queue with
    | [] => none
    | b :: rest =>
      some (s.setCall c { s.call c with queue := rest, copied := (s.call c).copied ++ [b] })
  | .completion c =>
    if (s.driver.channel c).state = .active ∧ (s.call c).queue = [] then
      some { s with driver := s.driver.setState c .idle }
    else none

def System.init (d : Driver) (transferBlocks : ℕ → DmaBlock) : System where
  driver := d
  transferBlocks := transferBlocks
  call := fun c => ⟨dev.begin d c (transfers c), [], []⟩

def Phase.needsBlocks : Phase → Bool
  | .filling i _ => 0 < i
  | .configured => true
  | _ => false

/-- A block is written only while no other call needs its own. -/
def Exclusive (s : System) : Action → Prop
  | .thread c =>
    match (s.call c).phase with
    | .filling _ (_ :: _) => ∀ c', c' ≠ c → (s.call c').phase.needsBlocks = false
    | _ => True
  | _ => True

end

def DmaBlock.moves (b : DmaBlock) : List (UInt32 × UInt32) :=
  (List.range b.blockSize.toNat).map fun o => (b.sourceAddress + .ofNat o, b.destAddress + .ofNat o)

def Transfer.moves (t : Transfer) : List (UInt32 × UInt32) :=
  (List.range t.len.toNat).map fun o => (t.src + .ofNat o, t.dst + .ofNat o)

-- ---
-- The blocks of one call

section

variable {dev : Device} {t : Transfer} {mem : ℕ → DmaBlock}

variable {n i remaining : ℕ} {src dst : UInt32}

theorem split_moves (h : remaining ≤ n * dev.maxBlockSize) (hlt : remaining < 2 ^ 32) :
    (dev.split n i src dst remaining).flatMap DmaBlock.moves =
      (List.range remaining).map fun o => (src + .ofNat o, dst + .ofNat o) := by
  induction n generalizing i remaining src dst with
  | zero =>
    obtain rfl : remaining = 0 := by omega
    rfl
  | succ n ih =>
    have hsum : remaining = min remaining dev.maxBlockSize +
        (remaining - min remaining dev.maxBlockSize) := by omega
    have hrest : remaining - min remaining dev.maxBlockSize ≤ n * dev.maxBlockSize := by
      rw [Nat.add_mul] at h
      omega
    have hlen : (UInt32.ofNat (min remaining dev.maxBlockSize)).toNat =
        min remaining dev.maxBlockSize :=
      UInt32.toNat_ofNat_of_lt (Nat.lt_of_le_of_lt (Nat.min_le_left _ _) hlt)
    rw [Device.split, List.flatMap_cons, ih hrest (by omega)]
    conv_rhs => rw [hsum, List.range_add, List.map_append, List.map_map]
    rw [DmaBlock.moves, hlen]
    congr 1
    refine List.map_congr_left fun o _ => ?_
    simp only [Function.comp, UInt32.ofNat_add, UInt32.add_assoc]

theorem blocksOf_moves (h : dev.numBlocks t ≠ 0) :
    (dev.blocksOf t).flatMap DmaBlock.moves = t.moves := by
  have hlt := t.len.toNat_lt
  refine split_moves ?_ hlt
  have hpos := dev.pos
  unfold Device.numBlocks at h ⊢
  -- a sum that wraps leaves less than one block
  have hsmall : (t.len.toNat + dev.maxBlockSize - 1) % 2 ^ 32 =
      t.len.toNat + dev.maxBlockSize - 1 := by
    by_contra hwrap
    refine h (Nat.div_eq_of_lt ?_)
    omega
  rw [hsmall]
  have hdiv := Nat.div_add_mod (t.len.toNat + dev.maxBlockSize - 1) dev.maxBlockSize
  have hmod := Nat.mod_lt (t.len.toNat + dev.maxBlockSize - 1) hpos
  rw [Nat.mul_comm]
  omega

theorem length_split : (dev.split n i src dst remaining).length = n := by
  induction n generalizing i src dst remaining with
  | zero => rfl
  | succ n ih => rw [Device.split, List.length_cons, ih]

def Written (mem : ℕ → DmaBlock) (i : ℕ) (blocks : List DmaBlock) : Prop :=
  ∀ j < i, ∀ b, blocks[j]? = some b → mem j = b

theorem queueBlocks_split
    (h : ∀ j b, (dev.split n i src dst remaining)[j]? = some b → mem (i + j) = b) :
    queueBlocks mem n (if n = 0 then none else some i) = dev.split n i src dst remaining := by
  induction n generalizing i src dst remaining with
  | zero => rfl
  | succ n ih =>
    have hhead := h 0 _ rfl
    rw [Nat.add_zero] at hhead
    rw [if_neg (Nat.succ_ne_zero n), queueBlocks, hhead, Device.split]
    refine congrArg _ (ih fun j b hj => ?_)
    rw [Nat.add_assoc, Nat.add_comm 1 j]
    exact h (j + 1) b hj

end

-- ---
-- What holds of every call

/-- What a call still needs of the array and its channel, and what the hardware has of its blocks.
-/
def Call.Inv (dev : Device) (t : Transfer) (mem : ℕ → DmaBlock) (chan : Channel) (call : Call) :
    Prop :=
  match call.phase with
  | .filling i rest => rest = (dev.blocksOf t).drop i ∧ Written mem i (dev.blocksOf t) ∧
      call.queue = [] ∧ call.copied = []
  | .configured => Written mem (dev.numBlocks t) (dev.blocksOf t) ∧ dev.numBlocks t ≠ 0 ∧
      chan = ⟨.prepared, dev.configOf t, mem 0⟩ ∧ call.queue = [] ∧ call.copied = []
  | .waiting => dev.numBlocks t ≠ 0 ∧ call.copied ++ call.queue = dev.blocksOf t ∧
      (chan.state = .active ∨ call.queue = [])
  | .returned ret => ret = .ok () →
      call.queue = [] ∧ call.copied.flatMap DmaBlock.moves = t.moves

def System.Inv (dev : Device) (transfers : ℕ → Transfer) (s : System) : Prop :=
  ∀ c, (s.call c).Inv dev (transfers c) s.transferBlocks (s.driver.channel c)

section

variable {dev : Device} {transfers : ℕ → Transfer} {s s' : System} {c : ℕ}

variable {call : Call} {mem : ℕ → DmaBlock}

theorem Call.Inv.other {t : Transfer} {mem' : ℕ → DmaBlock} {chan : Channel}
    (h : call.Inv dev t mem chan) (hneeds : call.phase.needsBlocks = false) :
    call.Inv dev t mem' chan := by
  unfold Call.Inv at h ⊢
  rcases hphase : call.phase with ⟨i, rest⟩ | _ | _ | ret <;> rw [hphase] at h hneeds
  · obtain rfl : i = 0 := by simpa [Phase.needsBlocks] using hneeds
    exact ⟨h.1, fun j hj => absurd hj (Nat.not_lt_zero j), h.2.2⟩
  · cases hneeds
  · exact h
  · exact h

/-- **Frame rule.** A step for channel `c` that leaves the others' channels and calls alone,
and the array too unless no other call needs it. -/
theorem System.Inv.step (hinv : s.Inv dev transfers)
    (hchannel : ∀ c', c' ≠ c → s'.driver.channel c' = s.driver.channel c')
    (hcall : ∀ c', c' ≠ c → s'.call c' = s.call c')
    (hmem : s'.transferBlocks = s.transferBlocks ∨
      ∀ c', c' ≠ c → (s.call c').phase.needsBlocks = false)
    (hself : (s'.call c).Inv dev (transfers c) s'.transferBlocks (s'.driver.channel c)) :
    s'.Inv dev transfers := by
  intro c'
  by_cases hc : c' = c
  · exact hc ▸ hself
  · rw [hchannel c' hc, hcall c' hc]
    rcases hmem with hmem | hmem
    · exact hmem ▸ hinv c'
    · exact (hinv c').other (hmem c' hc)

theorem setState_other {d : Driver} {state : ChannelState} {c' : ℕ} (h : c' ≠ c) :
    (d.setState c state).channel c' = d.channel c' := Function.update_of_ne h _ _

theorem setCall_other {c' : ℕ} (h : c' ≠ c) :
    (s.setCall c call).call c' = s.call c' := Function.update_of_ne h _ _

theorem setCall_self : (s.setCall c call).call c = call := Function.update_self _ _ _

theorem System.Inv.setCall {call : Call} (hinv : s.Inv dev transfers) (hcall : s'.call = s.call)
    (hchannel : ∀ c', c' ≠ c → s'.driver.channel c' = s.driver.channel c')
    (hmem : s'.transferBlocks = s.transferBlocks ∨
      ∀ c', c' ≠ c → (s.call c').phase.needsBlocks = false)
    (hself : call.Inv dev (transfers c) s'.transferBlocks (s'.driver.channel c)) :
    (s'.setCall c call).Inv dev transfers := by
  refine hinv.step hchannel (fun c' hc => ?_) hmem ?_
  · rw [setCall_other hc, hcall]
  · rw [setCall_self]
    exact hself

theorem start_ok {fuel : ℕ} {d : Driver} {r : Started} (h : start mem fuel d c = some r)
    (hret : r.ret = .ok ()) (hstate : (d.channel c).state = .prepared) :
    r.driver = d.setState c .active ∧ r.queued = (d.channel c).blocks mem := by
  unfold start at h
  split at h
  · obtain rfl := Option.some.inj h
    cases hret
  · obtain ⟨walk, -, hwalk⟩ := Option.map_eq_some_iff.mp h
    split_ifs at hwalk with hfree hactive
    · rw [← hwalk] at hret
      cases hret
    · rw [hstate] at hactive
      cases hactive
    · rw [← hwalk]
      exact ⟨rfl, rfl⟩

theorem blocks_of_written {t : Transfer} (hn : dev.numBlocks t ≠ 0)
    (h : Written mem (dev.numBlocks t) (dev.blocksOf t)) :
    Channel.blocks mem ⟨.prepared, dev.configOf t, mem 0⟩ = dev.blocksOf t := by
  have hall : ∀ j b, (dev.blocksOf t)[j]? = some b → mem (0 + j) = b := by
    intro j b hj
    have hlen : j < dev.numBlocks t := by
      have := (List.getElem?_eq_some_iff.mp hj).1
      rwa [Device.blocksOf, length_split] at this
    rw [Nat.zero_add]
    exact h j hlen b hj
  have hqueue := queueBlocks_split hall
  obtain ⟨n, hn⟩ := Nat.exists_eq_succ_of_ne_zero hn
  rw [hn, if_neg (Nat.succ_ne_zero n), queueBlocks] at hqueue
  rw [Channel.blocks, Device.blocksOf, hn, ← hqueue, Device.configOf, hn]
  rfl

theorem written_succ {blocks rest : List DmaBlock} {b : DmaBlock} {i : ℕ} (h : Written mem i blocks)
    (hrest : b :: rest = blocks.drop i) : Written (Function.update mem i b) (i + 1) blocks := by
  intro j hj b' hb'
  by_cases heq : j = i
  · subst heq
    have hhead : blocks[j]? = some b := by rw [← List.head?_drop, ← hrest]; rfl
    rw [Function.update_self, Option.some.inj (hhead.symm.trans hb')]
  · rw [Function.update_of_ne heq]
    exact h j (by omega) b' hb'

theorem threadStep_inv (hinv : s.Inv dev transfers) (hexcl : Exclusive s (.thread c))
    (h : threadStep dev transfers s c = some s') : s'.Inv dev transfers := by
  have hc := hinv c
  unfold Call.Inv at hc
  unfold threadStep at h
  unfold Exclusive at hexcl
  rcases hphase : (s.call c).phase with ⟨i, _ | ⟨b, rest⟩⟩ | _ | _ | ret <;>
    simp only [hphase] at h hc hexcl
  · -- all blocks are written: `dma_config`
    obtain ⟨hrest, hwritten, hqueue, hcopied⟩ := hc
    split at h
    · obtain rfl := Option.some.inj h
      refine hinv.setCall rfl (fun _ _ => rfl) (.inl rfl) ?_
      exact nofun
    · next d hok =>
      obtain rfl := Option.some.inj h
      obtain ⟨hn, head, hhead, rfl⟩ := config_ok hok
      obtain rfl := Option.some.inj hhead
      refine hinv.setCall rfl (fun c' hc => Function.update_of_ne hc _ _) (.inl rfl) ?_
      refine ⟨?_, hn, Function.update_self _ _ _, hqueue, hcopied⟩
      intro j _ b hj
      have hle := List.drop_eq_nil_iff.mp hrest.symm
      have hlen := (List.getElem?_eq_some_iff.mp hj).1
      exact hwritten j (by omega) b hj
  · -- the next block is written
    obtain ⟨hrest, hwritten, hqueue, hcopied⟩ := hc
    obtain rfl := Option.some.inj h
    refine hinv.setCall rfl (fun _ _ => rfl) (.inr hexcl) ?_
    refine ⟨?_, written_succ hwritten hrest, hqueue, hcopied⟩
    rw [← List.tail_drop, ← hrest]
    rfl
  · -- `dma_start`
    obtain ⟨hwritten, hn, hchan, hqueue, hcopied⟩ := hc
    obtain ⟨r, hstart, hr⟩ := Option.map_eq_some_iff.mp h
    split at hr
    · subst hr
      refine hinv.setCall rfl (fun _ _ => rfl) (.inl rfl) ?_
      exact nofun
    · next hret =>
      subst hr
      obtain ⟨hdriver, hqueued⟩ := start_ok hstart hret (by rw [hchan])
      rw [hchan, blocks_of_written hn hwritten] at hqueued
      refine hinv.setCall rfl (fun c' hc => ?_) (.inl rfl) ?_
      · exact hdriver ▸ setState_other hc
      · refine ⟨hn, ?_, .inl ?_⟩
        · show (s.call c).copied ++ ((s.call c).queue ++ r.queued) = _
          rw [hcopied, hqueue, hqueued]
          rfl
        · show (r.driver.channel c).state = _
          simp [hdriver, Driver.setState]
  · -- the status of the channel
    obtain ⟨hn, hblocks, hdone⟩ := hc
    split at h
    · exact Option.some.inj h ▸ hinv
    · next hbusy =>
      obtain rfl := Option.some.inj h
      have hqueue : (s.call c).queue = [] := by
        by_contra hqueue
        exact hbusy ⟨hdone.resolve_right hqueue, hqueue⟩
      refine hinv.setCall rfl (fun c' hc => setState_other hc) (.inl rfl) ?_
      intro _
      rw [hqueue, List.append_nil] at hblocks
      exact ⟨hqueue, by rw [hblocks]; exact blocksOf_moves hn⟩
  · cases h

theorem step_inv {a : Action} (hinv : s.Inv dev transfers) (hexcl : Exclusive s a)
    (h : step dev transfers s a = some s') : s'.Inv dev transfers := by
  cases a with
  | thread c => exact threadStep_inv hinv hexcl h
  | timeout c =>
    simp only [step] at h
    split at h
    · obtain rfl := Option.some.inj h
      refine hinv.setCall rfl (fun c' hc => setState_other hc) (.inl rfl) ?_
      exact nofun
    · cases h
  | copyBlock c =>
    simp only [step] at h
    split at h
    · cases h
    · next b rest hqueue =>
      obtain rfl := Option.some.inj h
      refine hinv.setCall rfl (fun _ _ => rfl) (.inl rfl) ?_
      have hc := hinv c
      unfold Call.Inv at hc ⊢
      rcases hphase : (s.call c).phase with ⟨i, bs⟩ | _ | _ | ret <;> simp only [hphase] at hc ⊢
      · exact absurd (hqueue.symm.trans hc.2.2.1) (List.cons_ne_nil b rest)
      · exact absurd (hqueue.symm.trans hc.2.2.2.1) (List.cons_ne_nil b rest)
      · obtain ⟨hn, hblocks, hdone⟩ := hc
        rw [hqueue] at hblocks hdone
        refine ⟨hn, ?_, .inl (hdone.resolve_right (List.cons_ne_nil b rest))⟩
        rw [List.append_assoc]
        exact hblocks
      · intro hret
        exact absurd (hqueue.symm.trans (hc hret).1) (List.cons_ne_nil b rest)
  | completion c =>
    simp only [step] at h
    split at h
    · next hdone =>
      obtain rfl := Option.some.inj h
      refine hinv.step (fun c' hc => setState_other hc) (fun _ _ => rfl) (.inl rfl) ?_
      have hc := hinv c
      unfold Call.Inv at hc ⊢
      rcases hphase : (s.call c).phase with ⟨i, bs⟩ | _ | _ | ret <;> simp only [hphase] at hc ⊢
      · exact hc
      · rw [hc.2.2.1] at hdone
        cases hdone.1
      · exact ⟨hc.1, hc.2.1, .inr hdone.2⟩
      · exact hc
    · cases h

theorem init_inv (d : Driver) (mem : ℕ → DmaBlock) :
    (System.init dev transfers d mem).Inv dev transfers := by
  intro c
  unfold Call.Inv System.init Device.begin
  dsimp only
  split_ifs with hempty
  · intro _
    refine ⟨rfl, ?_⟩
    rw [Transfer.moves, hempty]
    rfl
  · exact nofun
  · exact nofun
  · exact nofun
  · exact ⟨rfl, fun j hj => absurd hj (Nat.not_lt_zero j), rfl, rfl⟩

/-- **Transfers do not mix**: where blocks are written only while no other call needs its own, a
call that returned 0 has copied the bytes of its transfer, each once and in order, and no others.
-/
theorem transfer_copies_own (d : Driver) (mem : ℕ → DmaBlock) {run : List Action}
    (hexcl : Along (step dev transfers) Exclusive (.init dev transfers d mem) run)
    (hrun : exec (step dev transfers) (.init dev transfers d mem) run = some s)
    (hret : (s.call c).phase = .returned (.ok ())) :
    (s.call c).copied.flatMap DmaBlock.moves = (transfers c).moves ∧ (s.call c).queue = [] := by
  have hinv : s.Inv dev transfers :=
    exec_invariant_along (fun _ _ _ hinv hexcl h => step_inv hinv hexcl h) (init_inv d mem)
      hexcl hrun
  have hc := hinv c
  unfold Call.Inv at hc
  rw [hret] at hc
  exact (hc rfl).symm

end

-- ---
-- Two transfers

def wordDevice : Device := ⟨64, 4, by decide⟩

def twoTransfers (c : ℕ) : Transfer := if c = 0 then ⟨0x1000, 0x2000, 4⟩ else ⟨0x3000, 0x4000, 4⟩

def twoCallers : System := .init wordDevice twoTransfers twoChannels (blockOf 0)

/-- The second call writes its block when the first one is started, and both copy at once. -/
def startedInTurn : List Action :=
  [.thread 0, .thread 0, .thread 0, .thread 1, .thread 1, .copyBlock 0, .thread 1, .copyBlock 1,
    .thread 1, .thread 0]

theorem transfer_copies_own_inTurn :
    ∃ s, exec (step wordDevice twoTransfers) twoCallers startedInTurn = some s ∧
      ∀ c < 2, (s.call c).copied.flatMap DmaBlock.moves = (twoTransfers c).moves ∧
        (s.call c).queue = [] := by
  have hothers : ∀ c, (wordDevice.begin twoChannels c (twoTransfers c)).needsBlocks = false := by
    intro c
    unfold Device.begin
    split_ifs <;> rfl
  have hexcl : Along (step wordDevice twoTransfers) Exclusive twoCallers startedInTurn := by
    refine ⟨fun c' _ => hothers c', ?_⟩
    rintro _ ⟨⟩
    iterate 2
      refine ⟨trivial, ?_⟩
      rintro _ ⟨⟩
    refine ⟨fun c' hc' => ?_, ?_⟩
    · -- the first call is started, and the others are not there
      rcases c' with _ | n
      · rfl
      · exact hothers (n + 1)
    · rintro _ ⟨⟩
      iterate 5
        refine ⟨trivial, ?_⟩
        rintro _ ⟨⟩
      exact ⟨trivial, fun _ _ => trivial⟩
  refine ⟨_, rfl, fun c hc => ?_⟩
  refine transfer_copies_own twoChannels (blockOf 0) hexcl rfl ?_
  match c, hc with
  | 0, _ => rfl
  | 1, _ => rfl

/-- **Transfers that mix.** Channel 1 writes its block before channel 0 is configured; the call of
channel 0 returns 0 and has copied the bytes of channel 1. -/
theorem transfers_mix :
    ∃ s, exec (step wordDevice twoTransfers) twoCallers
        [.thread 0, .thread 1, .thread 0, .thread 0, .copyBlock 0, .thread 0] = some s ∧
      (s.call 0).phase = .returned (.ok ()) ∧
      (s.call 0).copied.flatMap DmaBlock.moves = (twoTransfers 1).moves ∧
      (twoTransfers 1).moves ≠ (twoTransfers 0).moves :=
  ⟨_, rfl, rfl, by decide, by decide⟩

end SystemFirmware.Dma.ArcHs
