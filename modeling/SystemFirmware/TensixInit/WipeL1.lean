import Mathlib.Algebra.Ring.Nat
import SystemFirmware.Dma.BhNoc
import SystemFirmware.Lib.Exec
import SystemFirmware.Lib.Flash

/-!
# Tensix — wiping the L1

`wipe_l1` of `lib/tenstorrent/bh_arc/tensix_init.c`. A buffer of zeroes is copied to the start
of the L1 of one Tensix, which is then copied behind itself until the L1 is full, with one
command of the NOC DMA driver after the other.

A copy reads only the bytes below `offset`, which are cleared. The offset doubles, so after 21
rounds it has passed the end (`doublingLoop_wipes`).
-/

namespace SystemFirmware.TensixInit

open Lib Dma.BhNoc

def tensixL1Size : BitVec 32 := 0x180000

/-- `tt_dma_config` and `dma_start` of one block, when the command register is free. -/
def dmaStart (dir : Direction) (c : Coords) (b : Block) : List Command :=
  match config idle dir c 1 [b] with
  | .error _ => []
  | .ok ch => (start ch inTime).commands

/-- The loop; the source and the destination are the same Tensix. -/
def doublingLoop (c : Coords) : (fuel : ℕ) → (offset : BitVec 32) → Option (List Command)
  | 0, _ => none
  | fuel + 1, offset =>
    if offset < tensixL1Size then
      let size := if offset < tensixL1Size - offset then offset else tensixL1Size - offset
      (doublingLoop c fuel (offset + offset)).map fun later =>
        dmaStart .peripheralToMemory c ⟨0, offset.setWidth 64, size⟩ ++ later
    else some []

/-- The first transfer, from the buffer of `size` bytes in the memory of the ARC. -/
def wipeStart (x y : BitVec 8) (buffer : BitVec 64) (size : BitVec 32) : List Command :=
  dmaStart .memoryToPeripheral ⟨x, y, 8, 0⟩ ⟨0, buffer, size⟩

def wipeL1 (fuel : ℕ) (x y : BitVec 8) (buffer : BitVec 64) (size : BitVec 32) :
    Option (List Command) :=
  (doublingLoop ⟨x, y, x, y⟩ fuel size).map fun loop =>
    wipeStart x y buffer size ++ loop ++ dmaStart .broadcast ⟨x, y, x, y⟩ ⟨0, 0, tensixL1Size⟩

-- ---
-- Memory

/-- The bytes of each node, by its encoded coordinates. -/
abbrev Nodes := BitVec 32 → Flash

def copy (nodes : Nodes) (cmd : Command) : Option Nodes :=
  some (Function.update nodes cmd.ret.coord ((nodes cmd.ret.coord).program cmd.ret.addr.toNat
    ((nodes cmd.targ.coord).read cmd.targ.addr.toNat cmd.size.toNat)))

/-- The `memset` of `sram_buffer`, in the memory of the ARC. -/
def clearBuffer (nodes : Nodes) (buffer : BitVec 64) (size : BitVec 32) : Nodes :=
  Function.update nodes (nocCoordEncode 8 0)
    ((nodes (nocCoordEncode 8 0)).program buffer.toNat (List.replicate size.toNat 0))

def Cleared (nodes : Nodes) (node : BitVec 32) (n : ℕ) : Prop := ∀ a < n, nodes node a = 0

/-- A transfer reads cleared bytes, writes inside the L1, and twice its offset does not overflow. -/
def Safe (nodes : Nodes) (cmd : Command) : Prop :=
  (∀ i < cmd.size.toNat, nodes cmd.targ.coord (cmd.targ.addr.toNat + i) = 0) ∧
  cmd.ret.addr.toNat + cmd.size.toNat ≤ tensixL1Size.toNat ∧
  cmd.ret.addr.toNat + cmd.ret.addr.toNat < 2 ^ 32

/-- From `offset` on, the loop ends with any fuel above `k`, its transfers are safe, and the L1 is
0. -/
def Wipes (c : Coords) (nodes : Nodes) (offset : BitVec 32) (k : ℕ) : Prop :=
  ∃ cmds after, (∀ fuel > k, doublingLoop c fuel offset = some cmds) ∧
    Along copy Safe nodes cmds ∧ exec copy nodes cmds = some after ∧
    Cleared after c.dest tensixL1Size.toNat

section

variable {nodes : Nodes} {c : Coords} {offset size : BitVec 32}

theorem cleared_copy (cmd : Command) {n : ℕ} (h : Cleared nodes cmd.ret.coord n) (haddr : cmd.ret.addr.toNat ≤ n)
    (hread : ∀ i < cmd.size.toNat, nodes cmd.targ.coord (cmd.targ.addr.toNat + i) = 0) :
    ∃ after, copy nodes cmd = some after ∧
      Cleared after cmd.ret.coord (cmd.ret.addr.toNat + cmd.size.toNat) := by
  refine ⟨_, rfl, fun a ha => ?_⟩
  rw [Function.update_self]
  by_cases hlow : a < cmd.ret.addr.toNat
  · rw [Flash.program_outside (.inl hlow)]
    exact h a (by omega)
  · obtain ⟨i, rfl⟩ : ∃ i, a = cmd.ret.addr.toNat + i := ⟨_, (Nat.add_sub_of_le (by omega)).symm⟩
    rw [Flash.program_inside (by rw [Flash.length_read]; omega), Flash.getElem_read]
    exact hread i (by omega)

theorem toNat_size (h : offset < tensixL1Size) :
    (if offset < tensixL1Size - offset then offset else tensixL1Size - offset).toNat =
      min offset.toNat (tensixL1Size.toNat - offset.toNat) := by
  have hsub := BitVec.toNat_sub_of_le (BitVec.le_of_lt h)
  rw [← hsub]
  split
  · next hlt => exact (Nat.min_eq_left (Nat.le_of_lt hlt)).symm
  · next hle => exact (Nat.min_eq_right (Nat.le_of_not_lt hle)).symm

theorem wipes_end (h : tensixL1Size.toNat ≤ offset.toNat)
    (hcleared : Cleared nodes c.dest (min offset.toNat tensixL1Size.toNat)) (k : ℕ) :
    Wipes c nodes offset k := by
  refine ⟨[], nodes, fun fuel hfuel => ?_, trivial, rfl, by rwa [Nat.min_eq_right h] at hcleared⟩
  obtain ⟨fuel, rfl⟩ := Nat.exists_eq_add_one_of_ne_zero (Nat.ne_zero_of_lt hfuel)
  exact if_neg (Nat.not_lt.mpr h)

theorem doublingLoop_wipes {k : ℕ} (hc : c.source = c.dest)
    (hpos : 0 < offset.toNat) (henough : tensixL1Size.toNat ≤ offset.toNat * 2 ^ k)
    (hcleared : Cleared nodes c.dest (min offset.toNat tensixL1Size.toNat)) :
    Wipes c nodes offset k := by
  induction k generalizing offset nodes with
  | zero => exact wipes_end (by omega) hcleared 0
  | succ k ih =>
    by_cases hend : tensixL1Size.toNat ≤ offset.toNat
    · exact wipes_end hend hcleared _
    have hL : tensixL1Size.toNat = 0x180000 := rfl
    have hlt : offset < tensixL1Size := Nat.lt_of_not_le hend
    have hdouble : (offset + offset).toNat = offset.toNat + offset.toNat := by
      rw [BitVec.toNat_add]
      omega
    obtain ⟨size, hdef⟩ : ∃ size, (if offset < tensixL1Size - offset then offset
      else tensixL1Size - offset) = size := ⟨_, rfl⟩
    have hsize : size.toNat = _ := hdef ▸ toNat_size hlt
    let cmd := perToMem c ⟨0, offset.setWidth 64, size⟩
    have haddr : cmd.ret.addr.toNat = offset.toNat := by
      show (offset.setWidth 64).toNat = _
      rw [BitVec.toNat_setWidth]
      omega
    rw [Nat.min_eq_left (by omega)] at hcleared
    have hread : ∀ i < size.toNat, nodes c.source (0 + i) = 0 := by
      intro i hi
      rw [hc]
      exact hcleared _ (by omega)
    obtain ⟨next, hcopy, hnext⟩ := cleared_copy cmd hcleared (by omega) hread
    -- one round less is left, from twice the offset
    rw [haddr, show cmd.size = size from rfl, hsize, show _ + min _ _ =
      min (offset + offset).toNat tensixL1Size.toNat by omega] at hnext
    obtain ⟨later, after, hloop, halong, hexec, hafter⟩ := ih (by omega)
      (by rwa [hdouble, ← Nat.mul_two, Nat.mul_assoc, ← Nat.pow_succ']) hnext
    refine ⟨cmd :: later, after, ?_, ⟨⟨hread, ?_, by omega⟩, ?_⟩, ?_, hafter⟩
    · intro fuel hfuel
      obtain ⟨fuel, rfl⟩ := Nat.exists_eq_add_one_of_ne_zero (Nat.ne_zero_of_lt hfuel)
      rw [doublingLoop, if_pos hlt, hloop fuel (by omega), hdef]
      rfl
    · show _ + size.toNat ≤ _
      omega
    · intro t ht
      obtain rfl := Option.some.inj (hcopy.symm.trans ht)
      exact halong
    · rw [exec_cons, hcopy]
      exact hexec

/-- **The wipe clears everything.** For every size of the buffer from 1 to the size of the L1, the
loop ends within 21 rounds, and `wipe_l1` with it; its transfers read cleared bytes, write inside
the L1 and leave the offset below `2 ^ 32`; and then every byte of the L1 is 0. -/
theorem wipe_clears_l1 (x y : BitVec 8) (nodes : Nodes) (buffer : BitVec 64)
    (hpos : 0 < size.toNat) (hle : size.toNat ≤ tensixL1Size.toNat) :
    (∃ started, exec copy (clearBuffer nodes buffer size) (wipeStart x y buffer size) =
        some started ∧ Wipes ⟨x, y, x, y⟩ started size 21) ∧
      ∀ fuel > 21, (wipeL1 fuel x y buffer size).isSome = true := by
  have hbuffer : ∀ i < size.toNat,
      clearBuffer nodes buffer size (nocCoordEncode 8 0) (buffer.toNat + i) = 0 := by
    intro i hi
    rw [clearBuffer, Function.update_self, Flash.program_inside (by simpa using hi)]
    simp
  let cmd := memToPer ⟨x, y, 8, 0⟩ ⟨0, buffer, size⟩
  obtain ⟨started, hcopy, hstarted⟩ :=
    cleared_copy cmd (fun _ ha => absurd ha (Nat.not_lt_zero _)) le_rfl hbuffer
  rw [show cmd.ret.addr.toNat + cmd.size.toNat = min size.toNat tensixL1Size.toNat from
    (Nat.zero_add _).trans (Nat.min_eq_left hle).symm] at hstarted
  have henough : tensixL1Size.toNat ≤ size.toNat * 2 ^ 21 := by
    have : tensixL1Size.toNat = 0x180000 := rfl
    omega
  have hwipes := @doublingLoop_wipes started ⟨x, y, x, y⟩ size 21 rfl hpos henough hstarted
  refine ⟨⟨started, ?_, hwipes⟩, fun fuel hfuel => ?_⟩
  · show exec copy (clearBuffer nodes buffer size) [cmd] = _
    rw [exec_cons, hcopy]
    rfl
  · obtain ⟨loop, -, hloop, -⟩ := hwipes
    rw [wipeL1, hloop fuel hfuel]
    rfl

theorem wipe_clears_l1_byte :
    ∃ started, exec copy (clearBuffer (fun _ _ => 0xFF) 0x1000 1) (wipeStart 1 2 0x1000 1) =
        some started ∧ Wipes ⟨1, 2, 1, 2⟩ started 1 21 :=
  (wipe_clears_l1 1 2 (fun _ _ => 0xFF) 0x1000 (by decide) (by decide)).1

end

end SystemFirmware.TensixInit
