import SystemFirmware.Lib.Except
import Mathlib.Logic.Function.Basic

/-!
# ARC HS DMA — channels and links

`drivers/dma/dma_arc_hs.c`. `dma_arc_hs_config` stores a configuration in its channel and
looks neither at the channel it is linked to nor at its burst length.

`dma_arc_hs_start` first follows the links (`start_terminates`). When a transfer is
complete, the linked channel is started with a size computed from its block and burst
length (`linked_size_le`).
-/

namespace SystemFirmware.Dma

open Lib

/-- `struct dma_block_config`. A pointer to a block is the number of its place in memory. -/
structure DmaBlock where
  sourceAddress : UInt32
  destAddress : UInt32
  blockSize : UInt32
  nextBlock : Option ℕ
  deriving DecidableEq

/-- The fields of `struct dma_config` that the driver reads. -/
structure DmaConfig where
  memoryToMemory : Bool
  sourceChainingEn : Bool
  destChainingEn : Bool
  linkedChannel : ℕ
  sourceBurstLength : UInt32
  blockCount : ℕ
  headBlock : Option ℕ

def DmaConfig.Chained (cfg : DmaConfig) : Prop :=
  cfg.sourceChainingEn = true ∨ cfg.destChainingEn = true

instance (cfg : DmaConfig) : Decidable cfg.Chained := inferInstanceAs (Decidable (_ ∨ _))

namespace ArcHs

inductive ChannelState where
  | free
  | idle
  | prepared
  | active
  | suspended
  deriving DecidableEq

structure Channel where
  state : ChannelState
  config : DmaConfig
  block : DmaBlock

/-- The channels, and `dev_config`. What lies behind the array is some memory. -/
structure Driver where
  channels : ℕ
  descriptors : ℕ
  channel : ℕ → Channel

inductive Errno where
  | einval
  | enotsup
  deriving DecidableEq

def Driver.setState (d : Driver) (c : ℕ) (state : ChannelState) : Driver :=
  { d with channel := Function.update d.channel c { d.channel c with state := state } }

def config (mem : ℕ → DmaBlock) (d : Driver) (c : ℕ) (cfg : DmaConfig) : Except Errno Driver :=
  if c ≥ d.channels then .error .einval
  else if cfg.blockCount = 0 then .error .einval
  else if cfg.blockCount > d.descriptors then .error .einval
  else if cfg.memoryToMemory = false then .error .enotsup
  else
    match cfg.headBlock with
    | none => .error .einval
    | some head => .ok { d with
        channel := Function.update d.channel c ⟨.prepared, cfg, mem head⟩ }

-- ---
-- Starting a channel

/-- The first loop of `dma_arc_hs_start`: the channels it accesses, and whether all are allocated.
-/
def walkLinks (d : Driver) : ℕ → ℕ → Option (List ℕ × Bool)
  | 0, _ => none
  | fuel + 1, c =>
    if (d.channel c).state = .free then some ([c], false)
    else if (d.channel c).config.Chained then
      (walkLinks d fuel (d.channel c).config.linkedChannel).map fun r => (c :: r.1, r.2)
    else some ([c], true)

def queueBlocks (mem : ℕ → DmaBlock) : ℕ → Option ℕ → List DmaBlock
  | 0, _ => []
  | _, none => []
  | n + 1, some a => mem a :: queueBlocks mem n (mem a).nextBlock

/-- The blocks that the hardware gets when a channel is started. -/
def Channel.blocks (mem : ℕ → DmaBlock) (chan : Channel) : List DmaBlock :=
  chan.block :: queueBlocks mem (chan.config.blockCount - 1) chan.block.nextBlock

structure Started where
  ret : Except Errno Unit
  driver : Driver
  queued : List DmaBlock
  accessed : List ℕ

/-- `dma_arc_hs_start`; `none` is a first loop not over after `fuel` rounds. -/
def start (mem : ℕ → DmaBlock) (fuel : ℕ) (d : Driver) (c : ℕ) : Option Started :=
  if c ≥ d.channels then some ⟨.error .einval, d, [], []⟩
  else (walkLinks d fuel c).map fun walk =>
    if walk.2 = false then ⟨.error .einval, d, [], walk.1⟩
    else if (d.channel c).state = .active then ⟨.ok (), d, [], walk.1⟩
    else ⟨.ok (), d.setState c .active, (d.channel c).blocks mem, walk.1⟩

/-- Links lead to channels that exist and have a lower rank. -/
def LinkDown (channels : ℕ) (rank : ℕ → ℕ) (c : ℕ) (cfg : DmaConfig) : Prop :=
  cfg.Chained → cfg.linkedChannel < channels ∧ rank cfg.linkedChannel < rank c

/-- A call of `dma_arc_hs_config`. -/
structure ConfigCall where
  mem : ℕ → DmaBlock
  channel : ℕ
  cfg : DmaConfig

def configAll (d : Driver) (calls : List ConfigCall) : Except Errno Driver :=
  calls.foldlM (fun d call => config call.mem d call.channel call.cfg) d

section

variable {d d' : Driver} {c : ℕ}

theorem config_ok {mem : ℕ → DmaBlock} {cfg : DmaConfig} (h : config mem d c cfg = .ok d') :
    cfg.blockCount ≠ 0 ∧ ∃ head, cfg.headBlock = some head ∧
      d' = { d with channel := Function.update d.channel c ⟨.prepared, cfg, mem head⟩ } := by
  unfold config at h
  split_ifs at h with _ hcount
  split at h
  · cases h
  · next head hhead => exact ⟨hcount, head, hhead, (Except.ok.inj h).symm⟩

theorem configAll_linked {calls : List ConfigCall} {rank : ℕ → ℕ}
    (hfree : ∀ c < d.channels, (d.channel c).state = .free)
    (hcalls : ∀ call ∈ calls, LinkDown d.channels rank call.channel call.cfg)
    (h : configAll d calls = .ok d') :
    d'.channels = d.channels ∧ ∀ c < d.channels,
      (d'.channel c).state = .free ∨ LinkDown d.channels rank c (d'.channel c).config := by
  refine (foldlM_rule _ (fun rest e => rest ⊆ calls ∧ e.channels = d.channels ∧
    ∀ c < d.channels, (e.channel c).state = .free ∨
      LinkDown d.channels rank c (e.channel c).config) ?_
    ⟨List.Subset.refl _, rfl, fun c hc => .inl (hfree c hc)⟩ h).2
  rintro call rest e e' ⟨hrest, hchannels, hinv⟩ hok
  obtain ⟨-, head, -, rfl⟩ := config_ok hok
  obtain ⟨hcall, hrest⟩ := List.cons_subset.mp hrest
  refine ⟨hrest, hchannels, ?_⟩
  intro c hc
  by_cases heq : c = call.channel
  · subst heq
    simp only [Function.update_self]
    exact .inr (hcalls call hcall)
  · simp only [Function.update_of_ne heq]
    exact hinv c hc

theorem walkLinks_of_rank {rank : ℕ → ℕ} {fuel : ℕ}
    (h : ∀ c < d.channels, (d.channel c).state = .free ∨
      LinkDown d.channels rank c (d.channel c).config) (hc : c < d.channels)
    (hfuel : rank c < fuel) :
    ∃ walk, walkLinks d fuel c = some walk ∧ ∀ a ∈ walk.1, a < d.channels := by
  induction fuel generalizing c with
  | zero => exact absurd hfuel (Nat.not_lt_zero _)
  | succ fuel ih =>
    rw [walkLinks]
    split
    · exact ⟨_, rfl, by simpa using hc⟩
    · next hfree =>
      split
      · next hchained =>
        obtain ⟨hlinked, hrank⟩ := (h c hc).resolve_left hfree hchained
        obtain ⟨walk, hwalk, hbounds⟩ := ih hlinked (by omega)
        exact ⟨_, by rw [hwalk]; rfl, by simpa using ⟨hc, hbounds⟩⟩
      · exact ⟨_, rfl, by simpa using hc⟩

/-- **Starting a channel comes to an end**, and has accessed only channels that exist, after any
accepted configurations of free channels whose links lead down in some order. -/
theorem start_terminates {calls : List ConfigCall} (rank : ℕ → ℕ)
    (hfree : ∀ c < d.channels, (d.channel c).state = .free)
    (hcalls : ∀ call ∈ calls, LinkDown d.channels rank call.channel call.cfg)
    (h : configAll d calls = .ok d') (mem : ℕ → DmaBlock) (hc : c < d.channels) :
    ∃ fuel result, start mem fuel d' c = some result ∧ ∀ a ∈ result.accessed, a < d.channels := by
  obtain ⟨hchannels, hinv⟩ := configAll_linked hfree hcalls h
  rw [← hchannels] at hinv hc ⊢
  obtain ⟨walk, hwalk, hbounds⟩ := walkLinks_of_rank hinv hc (Nat.lt_succ_self (rank c))
  refine ⟨_, _, by rw [start, if_neg (by omega), hwalk]; rfl, ?_⟩
  dsimp only
  split_ifs <;> exact hbounds

theorem walkLinks_self (hstate : (d.channel c).state ≠ .free)
    (hchained : (d.channel c).config.Chained) (hlinked : (d.channel c).config.linkedChannel = c)
    (fuel : ℕ) : walkLinks d fuel c = none := by
  induction fuel with
  | zero => rfl
  | succ fuel ih => rw [walkLinks, if_neg hstate, if_pos hchained, hlinked, ih]; rfl

end

def blockOf (size : UInt32) : ℕ → DmaBlock := fun _ => ⟨0x1000, 0x2000, size, none⟩

def linkedTo (sourceChainingEn destChainingEn : Bool) (linkedChannel : ℕ) (burst : UInt32) :
    DmaConfig :=
  ⟨true, sourceChainingEn, destChainingEn, linkedChannel, burst, 1, some 0⟩

def twoChannels : Driver := ⟨2, 256, fun _ => ⟨.free, linkedTo false false 0 1, blockOf 64 0⟩⟩

def linkedOnce : List ConfigCall :=
  [⟨blockOf 64, 0, linkedTo true false 1 16⟩, ⟨blockOf 64, 1, linkedTo false false 0 16⟩]

theorem start_terminates_linkedOnce :
    ∃ d, configAll twoChannels linkedOnce = .ok d ∧ ∃ fuel result,
      start (blockOf 64) fuel d 0 = some result ∧ ∀ a ∈ result.accessed, a < 2 := by
  have hcalls : ∀ call ∈ linkedOnce, LinkDown 2 (fun c => 2 - c) call.channel call.cfg := by
    simp [linkedOnce, LinkDown, linkedTo, DmaConfig.Chained]
  exact ⟨_, rfl, start_terminates (d := twoChannels) (c := 0) (fun c => 2 - c) (fun _ _ => rfl)
    hcalls rfl (blockOf 64) (by decide)⟩

/-- **Links that are followed.** A channel linked to itself is accepted, and its start does not
return; one linked to channel 5 of two is accepted, and its start leaves the array. -/
theorem start_follows_links :
    (∃ d, configAll twoChannels [⟨blockOf 64, 0, linkedTo true false 0 16⟩] = .ok d ∧
      ∀ fuel, start (blockOf 64) fuel d 0 = none) ∧
    ∃ d, configAll twoChannels [⟨blockOf 64, 0, linkedTo true false 5 16⟩] = .ok d ∧
      ∃ result, start (blockOf 64) 2 d 0 = some result ∧ 5 ∈ result.accessed := by
  refine ⟨⟨_, rfl, fun fuel => ?_⟩, _, rfl, _, rfl, by decide⟩
  rw [start, if_neg (by decide), walkLinks_self (by decide) (by decide) rfl]
  rfl

-- ---
-- Linked transfers

/-- `dma_arc_hs_calc_linked_transfer_size`, in 32 bits, for the complete channel's `cfg`; `none`
is a division by zero. -/
def calcLinkedTransferSize (cfg : DmaConfig) (blockSize burstLen : UInt32) : Option UInt32 :=
  if cfg.sourceChainingEn ∧ cfg.destChainingEn then some blockSize
  else if cfg.sourceChainingEn then
    if burstLen = 0 then none
    else
      let size := (blockSize / burstLen - 1) * burstLen
      some (if size = 0 then burstLen else size)
  else some (if blockSize < burstLen then blockSize else burstLen)

/-- What the completion of a channel starts. -/
inductive Triggered where
  | nothing
  | transfer (channel : ℕ) (size : UInt32)
  | divisionByZero
  deriving DecidableEq

/-- The end of a transfer of channel `c`, with `dma_arc_hs_trigger_linked_channel`. -/
def complete (d : Driver) (c : ℕ) : Triggered :=
  let cfg := (d.channel c).config
  let linked := ((d.setState c .idle).channel cfg.linkedChannel)
  if cfg.Chained ∧ cfg.linkedChannel < d.channels ∧ linked.state = .prepared then
    match calcLinkedTransferSize cfg linked.block.blockSize linked.config.sourceBurstLength with
    | none => .divisionByZero
    | some size => .transfer cfg.linkedChannel size
  else .nothing

/-- The burst length fits in the block; or it is so long that, as a negative number, it does. -/
def BurstFits (blockSize burstLen : UInt32) : Prop :=
  burstLen ≠ 0 ∧ (burstLen ≤ blockSize ∨ 0x100000000 ≤ blockSize.toNat + burstLen.toNat)

variable {blockSize burstLen : UInt32}

/-- All but the last burst: at least one fits, so the subtraction does not wrap. -/
theorem bursts_le (hpos : 0 < burstLen) (hle : burstLen ≤ blockSize) :
    (blockSize / burstLen - 1) * burstLen ≤ blockSize := by
  rw [UInt32.le_iff_toNat_le] at hle ⊢
  rw [UInt32.lt_iff_toNat_lt, UInt32.toNat_zero] at hpos
  have hone : 1 ≤ blockSize / burstLen := by
    rw [UInt32.le_iff_toNat_le, UInt32.toNat_div]
    exact (Nat.one_le_div_iff hpos).mpr hle
  calc ((blockSize / burstLen - 1) * burstLen).toNat
      ≤ (blockSize / burstLen - 1).toNat * burstLen.toNat := by
        rw [UInt32.toNat_mul]
        exact Nat.mod_le _ _
    _ ≤ blockSize.toNat / burstLen.toNat * burstLen.toNat := by
        rw [UInt32.toNat_sub_of_le _ _ hone, UInt32.toNat_div]
        exact Nat.mul_le_mul_right _ (Nat.sub_le _ _)
    _ ≤ blockSize.toNat := Nat.div_mul_le_self _ _

/-- No burst fits: the product of -1 and the burst length. -/
theorem bursts_toNat (hlt : blockSize < burstLen) :
    ((blockSize / burstLen - 1) * burstLen).toNat = 0x100000000 - burstLen.toNat := by
  rw [UInt32.lt_iff_toNat_lt] at hlt
  have hquot : blockSize / burstLen = 0 := by
    rw [← UInt32.toNat_inj, UInt32.toNat_div, UInt32.toNat_zero]
    exact Nat.div_eq_of_lt hlt
  have hburst := burstLen.toNat_lt
  rw [hquot, UInt32.toNat_mul, show (0 - 1 : UInt32).toNat = 0xFFFFFFFF from rfl]
  omega

theorem calcLinkedTransferSize_le_iff {cfg : DmaConfig} :
    (∃ size, calcLinkedTransferSize cfg blockSize burstLen = some size ∧ size ≤ blockSize) ↔
      (cfg.sourceChainingEn = true → cfg.destChainingEn = false → BurstFits blockSize burstLen) := by
  unfold calcLinkedTransferSize
  split_ifs with hboth hsource hzero hshort
  · exact iff_of_true ⟨_, rfl, UInt32.le_refl _⟩ fun _ hdest => by simp [hdest] at hboth
  · refine iff_of_false (by simp) fun h => ?_
    exact (h hsource (by simpa [hsource] using hboth)).1 hzero
  · have hdest : cfg.destChainingEn = false := by simpa [hsource] using hboth
    rw [imp_iff_right hsource, imp_iff_right hdest, BurstFits, and_iff_right hzero]
    simp only [Option.some.injEq, exists_eq_left']
    by_cases hle : burstLen ≤ blockSize
    · refine iff_of_true ?_ (Or.inl hle)
      split
      · exact hle
      · exact bursts_le (UInt32.pos_iff_ne_zero.mpr hzero) hle
    · have hsize := bursts_toNat (UInt32.not_le.mp hle)
      have hburst := burstLen.toNat_lt
      have hne : ¬ (blockSize / burstLen - 1) * burstLen = 0 := by
        rw [← UInt32.toNat_inj, hsize, UInt32.toNat_zero]
        omega
      rw [if_neg hne, or_iff_right hle, UInt32.le_iff_toNat_le, hsize]
      omega
  · exact iff_of_true ⟨_, rfl, UInt32.le_refl _⟩ fun h => absurd h hsource
  · exact iff_of_true ⟨_, rfl, UInt32.not_lt.mp hshort⟩ fun h => absurd h hsource

/-- The completion of channel `c` triggers its linked channel. -/
def Triggers (d : Driver) (c : ℕ) : Prop :=
  let linked := (d.channel c).config.linkedChannel
  (d.channel c).config.Chained ∧ linked < d.channels ∧ linked ≠ c ∧
    (d.channel linked).state = .prepared

theorem setState_idle_linked (d : Driver) (c l : ℕ) :
    (((d.setState c .idle).channel l).state = .prepared ↔
        l ≠ c ∧ (d.channel l).state = .prepared) ∧
      ((d.setState c .idle).channel l).config = (d.channel l).config ∧
      ((d.setState c .idle).channel l).block = (d.channel l).block := by
  by_cases hl : l = c
  · subst hl
    simp [Driver.setState]
  · simp [Driver.setState, hl]

/-- **When a linked transfer is inside its block**: a completion does not divide by zero and starts
the linked channel with at most its block size, exactly if it triggers none, or is not chained at
its source alone, or the burst length fits. -/
theorem linked_size_le (d : Driver) (c : ℕ) :
    (complete d c ≠ .divisionByZero ∧ ∀ linked size, complete d c = .transfer linked size →
        size ≤ (d.channel linked).block.blockSize) ↔
      (let cfg := (d.channel c).config;
        Triggers d c → cfg.sourceChainingEn = true → cfg.destChainingEn = false →
          BurstFits (d.channel cfg.linkedChannel).block.blockSize
            (d.channel cfg.linkedChannel).config.sourceBurstLength) := by
  obtain ⟨hstate, hconfig, hblock⟩ := setState_idle_linked d c (d.channel c).config.linkedChannel
  unfold complete
  dsimp only
  rw [hconfig, hblock]
  split
  · rename_i hready
    rw [imp_iff_right (show Triggers d c from ⟨hready.1, hready.2.1, hstate.mp hready.2.2⟩),
      ← calcLinkedTransferSize_le_iff]
    cases calcLinkedTransferSize (d.channel c).config _ _ with
    | none => simp
    | some size => simp
  · rename_i hnot
    exact iff_of_true ⟨by simp, by simp⟩ fun ⟨hchained, hlt, hready⟩ =>
      absurd ⟨hchained, hlt, hstate.mpr hready⟩ hnot

def sourceLinked (blockSize burst : UInt32) : Except Errno Driver := do
  let d ← config (blockOf 64) twoChannels 0 (linkedTo true false 1 16)
  let d ← config (blockOf blockSize) d 1 (linkedTo false false 0 burst)
  .ok (d.setState 0 .active)

/-- **Sizes outside the block.** A burst of 128 bytes for a block of 64 gives a size just below
2 ^ 32; a burst length of 0 divides by zero. -/
theorem linked_size_wraps :
    (∃ d, sourceLinked 64 128 = .ok d ∧ complete d 0 = .transfer 1 0xFFFFFF80) ∧
      ∃ d, sourceLinked 64 0 = .ok d ∧ complete d 0 = .divisionByZero :=
  ⟨⟨_, rfl, by decide⟩, _, rfl, by decide⟩

end ArcHs

end SystemFirmware.Dma
