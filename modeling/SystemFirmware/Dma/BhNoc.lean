import Mathlib.Data.List.Basic

/-!
# Blackhole NOC DMA — starting a channel

`drivers/dma/dma_tt_bh_noc.c`. A channel holds up to four blocks and a direction.
`tt_bh_dma_noc_start` turns the blocks into commands of the NOC, each of which moves data
from its target to its return address (`start_issues_blocks`).

Every direction but memory to memory returns after the first block (`start_drops_blocks`).
Memory to memory goes through a bounce buffer at address 0; to do so it changes the stored
block, and keeps the destination in an `int`.
-/

namespace SystemFirmware.Dma.BhNoc

/-- The fields of `struct dma_block_config` that the driver reads. -/
structure Block where
  sourceAddress : BitVec 64
  destAddress : BitVec 64
  blockSize : BitVec 32
  deriving DecidableEq

/-- `channel_direction`; `other` is a value that the driver refuses. -/
inductive Direction where
  | memoryToMemory
  | memoryToPeripheral
  | peripheralToMemory
  | broadcast
  | other
  deriving DecidableEq

structure Coords where
  sourceX : BitVec 8
  sourceY : BitVec 8
  destX : BitVec 8
  destY : BitVec 8
  deriving DecidableEq

inductive Errno where
  | einval
  | etimedout
  deriving DecidableEq

def maxTransferBlocks : ℕ := 4

/-- `struct tt_bh_dma_channel_data` without a linked channel and without callbacks. `blocks`
is the array of all blocks. -/
structure Channel where
  blocks : List Block
  blockCount : ℕ
  direction : Direction
  coords : Coords
  configured : Bool

/-- `tt_bh_dma_noc_config` of an existing channel, with the list of `head_block`. -/
def config (ch : Channel) (dir : Direction) (coords : Coords) (blockCount : ℕ)
    (listed : List Block) : Except Errno Channel :=
  if blockCount = 0 then .error .einval
  else if blockCount > maxTransferBlocks then .error .einval
  else
    let copied := listed.take blockCount
    .ok ⟨copied ++ ch.blocks.drop copied.length, blockCount, dir, coords, true⟩

-- ---
-- Commands

def nocCoordEncode (x y : BitVec 32) : BitVec 32 := y <<< 6 ||| x

/-- The start column is not used. -/
def nocCoordEncodeRange (_startX startY endX endY : BitVec 32) : BitVec 32 :=
  startY <<< 18 ||| startY <<< 12 ||| endY <<< 6 ||| endX

def Coords.source (c : Coords) : BitVec 32 :=
  nocCoordEncode (c.sourceX.setWidth 32) (c.sourceY.setWidth 32)

def Coords.dest (c : Coords) : BitVec 32 :=
  nocCoordEncode (c.destX.setWidth 32) (c.destY.setWidth 32)

def everyTensix : BitVec 32 := nocCoordEncodeRange 2 2 1 11

/-- An address of a node, or of the nodes of a broadcast. -/
structure Place where
  coord : BitVec 32
  addr : BitVec 64
  deriving DecidableEq

/-- What `noc_dma_transfer` writes to the registers. -/
structure Command where
  write : Bool
  multicast : Bool
  targ : Place
  ret : Place
  size : BitVec 32
  deriving DecidableEq

/-- The command of `tt_bh_dma_noc_start_mem_to_per`: a read. -/
def memToPer (c : Coords) (b : Block) : Command :=
  ⟨false, false, ⟨c.dest, b.destAddress⟩, ⟨c.source, b.sourceAddress⟩, b.blockSize⟩

/-- The command of `tt_bh_dma_noc_start_per_to_mem`: a write. -/
def perToMem (c : Coords) (b : Block) : Command :=
  ⟨true, false, ⟨c.source, b.sourceAddress⟩, ⟨c.dest, b.destAddress⟩, b.blockSize⟩

/-- The command of `noc_dma_write_multicast`. -/
def writeMulticast (c : Coords) (b : Block) : Command :=
  ⟨true, true, ⟨c.dest, b.sourceAddress⟩, ⟨everyTensix, b.destAddress⟩, b.blockSize⟩

-- ---
-- Starting a channel

/-- Whether the command register becomes free in time, and the wait for a read or a write expires.
-/
structure Round where
  readReady : Bool
  readExpired : Bool
  writeReady : Bool
  writeExpired : Bool

structure Outcome where
  ret : Except Errno Unit
  commands : List Command
  blocks : List Block

/-- `int dest_address_`, when it is stored as an address again. -/
def throughInt (a : BitVec 64) : BitVec 64 := (a.setWidth 32).signExtend 64

/-- The block while it is read, and while it is written from the bounce buffer. -/
def Block.reading (b : Block) : Block :=
  { b with destAddress := b.sourceAddress, sourceAddress := 0 }

def Block.writing (b : Block) : Block :=
  { b with destAddress := throughInt b.destAddress, sourceAddress := 0 }

/-- `MEMORY_TO_MEMORY` of one block. -/
def memToMem (c : Coords) (r : Round) (b : Block) : Except Errno Unit × List Command × Block :=
  if r.readReady = false then (.error .etimedout, [], b.reading)
  else if r.readExpired then (.error .etimedout, [memToPer c b.reading], b.writing)
  else if r.writeReady = false then (.error .etimedout, [memToPer c b.reading], b.writing)
  else if r.writeExpired then
    (.error .etimedout, [memToPer c b.reading, perToMem c b.writing], b.writing)
  else (.ok (), [memToPer c b.reading, perToMem c b.writing], b.writing)

def once (ready : Bool) (cmd : Command) (blocks : List Block) : Outcome :=
  if ready then ⟨.ok (), [cmd], blocks⟩ else ⟨.error .etimedout, [], blocks⟩

/-- The loop of `tt_bh_dma_noc_start`. -/
def startBlocks (dir : Direction) (c : Coords) : List Block → (ℕ → Round) → Outcome
  | [], _ => ⟨.ok (), [], []⟩
  | b :: blocks, rounds =>
    match dir with
    | .memoryToMemory =>
      match memToMem c (rounds 0) b with
      | (.error e, cmds, b') => ⟨.error e, cmds, b' :: blocks⟩
      | (.ok (), cmds, b') =>
        let rest := startBlocks dir c blocks fun i => rounds (i + 1)
        ⟨rest.ret, cmds ++ rest.commands, b' :: rest.blocks⟩
    | .memoryToPeripheral => once (rounds 0).readReady (memToPer c b) (b :: blocks)
    | .peripheralToMemory => once (rounds 0).writeReady (perToMem c b) (b :: blocks)
    | .broadcast => once (rounds 0).writeReady (writeMulticast c b) (b :: blocks)
    | .other => ⟨.error .einval, [], b :: blocks⟩

/-- `tt_bh_dma_noc_start` of an existing channel; `blocks` of the outcome is the array. -/
def start (ch : Channel) (rounds : ℕ → Round) : Outcome :=
  if ch.configured = false then ⟨.error .einval, [], ch.blocks⟩
  else
    let r := startBlocks ch.direction ch.coords (ch.blocks.take ch.blockCount) rounds
    { r with blocks := r.blocks ++ ch.blocks.drop ch.blockCount }

def afterStarts (ch : Channel) (starts : List (ℕ → Round)) : Channel :=
  starts.foldl (fun ch rounds => { ch with blocks := (start ch rounds).blocks }) ch

-- ---
-- What the blocks ask for

structure Move where
  source : Place
  dest : Place
  size : BitVec 32
  deriving DecidableEq

/-- A read as well as a write moves data from the target to the return address. -/
def Command.move (cmd : Command) : Move := ⟨cmd.targ, cmd.ret, cmd.size⟩

/-- How a block gets to its destination: memory to memory goes through address 0 of the source
node, and a broadcast starts at the local node. -/
def Block.moves (dir : Direction) (c : Coords) (b : Block) : List Move :=
  match dir with
  | .memoryToMemory =>
    [⟨⟨c.dest, b.sourceAddress⟩, ⟨c.source, 0⟩, b.blockSize⟩,
     ⟨⟨c.source, 0⟩, ⟨c.dest, b.destAddress⟩, b.blockSize⟩]
  | .broadcast => [⟨⟨c.dest, b.sourceAddress⟩, ⟨everyTensix, b.destAddress⟩, b.blockSize⟩]
  | _ => [⟨⟨c.source, b.sourceAddress⟩, ⟨c.dest, b.destAddress⟩, b.blockSize⟩]

/-- The cases in which a start does what its blocks ask for, after `earlier` starts. -/
def Handled (dir : Direction) (blocks : List Block) (earlier : List (ℕ → Round)) : Prop :=
  match dir with
  | .memoryToMemory => earlier = [] ∧ ∀ b ∈ blocks, throughInt b.destAddress = b.destAddress
  | .memoryToPeripheral => False
  | .peripheralToMemory | .broadcast => blocks.length = 1
  | .other => True

theorem memToMem_ok {c : Coords} {r : Round} {b b' : Block} {cmds : List Command}
    (hdest : throughInt b.destAddress = b.destAddress)
    (h : memToMem c r b = (.ok (), cmds, b')) :
    cmds.map Command.move = b.moves .memoryToMemory c := by
  unfold memToMem at h
  split_ifs at h <;> cases h
  simp [memToPer, perToMem, Block.reading, Block.writing, Block.moves, Command.move, hdest]

theorem startBlocks_memToMem {c : Coords} {blocks : List Block} {rounds : ℕ → Round}
    (hdest : ∀ b ∈ blocks, throughInt b.destAddress = b.destAddress)
    (h : (startBlocks .memoryToMemory c blocks rounds).ret = .ok ()) :
    (startBlocks .memoryToMemory c blocks rounds).commands.map Command.move =
      blocks.flatMap (Block.moves .memoryToMemory c) := by
  induction blocks generalizing rounds with
  | nil => rfl
  | cons b blocks ih =>
    simp only [startBlocks] at h ⊢
    split at h
    · cases h
    · next cmds b' hblock =>
      have hhead := memToMem_ok (hdest b List.mem_cons_self) hblock
      have htail := ih (fun x hx => hdest x (List.mem_cons_of_mem b hx)) h
      rw [List.flatMap_cons, ← hhead, ← htail]
      exact List.map_append

theorem once_ok {ready : Bool} {cmd : Command} {blocks : List Block}
    (h : (once ready cmd blocks).ret = .ok ()) : (once ready cmd blocks).commands = [cmd] := by
  unfold once at h ⊢
  split_ifs at h ⊢
  rfl

theorem startBlocks_keeps {dir : Direction} (c : Coords) (blocks : List Block)
    (rounds : ℕ → Round) (hdir : dir ≠ .memoryToMemory) :
    (startBlocks dir c blocks rounds).blocks = blocks := by
  have honce : ∀ ready cmd bs, (once ready cmd bs).blocks = bs := by
    intro ready cmd bs
    unfold once
    split <;> rfl
  cases blocks with
  | nil => rfl
  | cons b blocks => cases dir <;> first | exact absurd rfl hdir | rfl | exact honce _ _ _

theorem afterStarts_keeps {ch : Channel} (starts : List (ℕ → Round))
    (hdir : ch.direction ≠ .memoryToMemory) : afterStarts ch starts = ch := by
  induction starts with
  | nil => rfl
  | cons rounds starts ih =>
    have hstart : (start ch rounds).blocks = ch.blocks := by
      unfold start
      split
      · rfl
      · show (startBlocks ch.direction ch.coords (ch.blocks.take ch.blockCount) rounds).blocks ++ _
          = _
        rw [startBlocks_keeps _ _ _ hdir, List.take_append_drop]
    rw [afterStarts, List.foldl_cons, hstart]
    exact ih

/-- **A start issues every block.** In the cases of `Handled`, a start that returns 0 has issued
the commands that move each block once, from its source address to its destination address. -/
theorem start_issues_blocks {ch ch' : Channel} {dir : Direction} {coords : Coords}
    {blocks : List Block} {earlier : List (ℕ → Round)} {rounds : ℕ → Round}
    (hconfig : config ch dir coords blocks.length blocks = .ok ch')
    (hhandled : Handled dir blocks earlier)
    (h : (start (afterStarts ch' earlier) rounds).ret = .ok ()) :
    (start (afterStarts ch' earlier) rounds).commands.map Command.move =
      blocks.flatMap (Block.moves dir coords) := by
  unfold config at hconfig
  split_ifs at hconfig with hempty
  obtain rfl := Except.ok.inj hconfig
  -- Where the blocks are changed, there was no start before this one.
  have hafter : ∀ ch : Channel, ch.direction = dir → afterStarts ch earlier = ch := by
    rintro ch rfl
    by_cases hdir : ch.direction = .memoryToMemory
    · rw [hdir] at hhandled
      obtain ⟨rfl, -⟩ := hhandled
      rfl
    · exact afterStarts_keeps earlier hdir
  rw [hafter _ rfl] at h ⊢
  simp only [start, List.take_length, List.take_left, Bool.true_eq_false, if_false] at h ⊢
  cases dir with
  | memoryToMemory => exact startBlocks_memToMem hhandled.2 h
  | memoryToPeripheral => exact hhandled.elim
  | peripheralToMemory =>
    obtain ⟨b, rfl⟩ := List.length_eq_one_iff.mp hhandled
    rw [startBlocks, once_ok h]
    rfl
  | broadcast =>
    obtain ⟨b, rfl⟩ := List.length_eq_one_iff.mp hhandled
    rw [startBlocks, once_ok h]
    rfl
  | other =>
    obtain _ | ⟨b, blocks⟩ := blocks
    · exact absurd rfl hempty
    · cases h

-- ---
-- Two blocks

def idle : Channel := ⟨[], 0, .other, ⟨0, 0, 0, 0⟩, false⟩

def arcCoords : Coords := ⟨1, 2, 8, 0⟩

def inTime : ℕ → Round := fun _ => ⟨true, false, true, false⟩

def lastStart (dir : Direction) (blocks : List Block) (n : ℕ) :
    Option (Except Errno Unit × List Move) :=
  match config idle dir arcCoords blocks.length blocks with
  | .error _ => none
  | .ok ch =>
    let r := start (afterStarts ch (List.replicate n inTime)) inTime
    some (r.ret, r.commands.map Command.move)

def blockA : Block := ⟨0x1000, 0x2000, 64⟩

def blockB : Block := ⟨0x3000, 0x4000, 64⟩

theorem start_issues_blocks_memToMem :
    ∃ moves, lastStart .memoryToMemory [blockA, blockB] 0 = some (.ok (), moves) ∧
      moves = [blockA, blockB].flatMap (Block.moves .memoryToMemory arcCoords) := by
  refine ⟨_, rfl, ?_⟩
  exact @start_issues_blocks idle _ .memoryToMemory arcCoords [blockA, blockB] [] inTime rfl
    ⟨rfl, by decide⟩ rfl

/-- **Blocks that are lost.** Each of these starts returns 0. Of two blocks to memory only the
first is moved; a second start from memory to memory copies from address 0; an address above 4
GiB is cut; and memory to peripheral moves the other way. -/
theorem start_drops_blocks :
    lastStart .peripheralToMemory [blockA, blockB] 0 =
      some (.ok (), blockA.moves .peripheralToMemory arcCoords) ∧
    lastStart .memoryToMemory [blockA] 1 =
      some (.ok (), { blockA with sourceAddress := 0 }.moves .memoryToMemory arcCoords) ∧
    lastStart .memoryToMemory [{ blockA with destAddress := 0x100000000 }] 0 =
      some (.ok (), { blockA with destAddress := 0 }.moves .memoryToMemory arcCoords) ∧
    lastStart .memoryToPeripheral [blockA] 0 = some (.ok (),
      [⟨⟨arcCoords.dest, blockA.destAddress⟩, ⟨arcCoords.source, blockA.sourceAddress⟩, 64⟩]) :=
  ⟨rfl, rfl, rfl, rfl⟩

end SystemFirmware.Dma.BhNoc
