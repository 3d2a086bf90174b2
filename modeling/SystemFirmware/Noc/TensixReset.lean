import SystemFirmware.Harvesting.Translation
import SystemFirmware.Noc.DebugTranslation

/-!
# Reset of a single Tensix tile

`ToggleSingleTensixReset` of `lib/tenstorrent/bh_arc/reset.c`. The host names a tile by the
coordinate it uses on the network. The handler translates it as the network would, looks up
the column and the row, and toggles the reset lines of the tile and of its RISC cores.

Accesses to tables are events, as in `Noc.TableAccess`, and the changes of reset lines are
part of the result. What is written to the nodes and to the registers of the tile is not.

* `single_tensix_reset_hits_tile` — when the reset hits the tile and reads inside its tables.
* `logical_coordinate_resets_tile` — from the fuses to the reset lines.
-/

namespace SystemFirmware.Noc

open Lib
open Lib.Traced

-- ---
-- Reset lines

/-- The two devices of `reset_tt_bh.c` that the handler uses. -/
inductive ResetDev where
  | tensixReset
  | tensixRiscReset
  deriving DecidableEq

def ttBhResetBankStride : ℕ := 4

def resetSize : ℕ := 0x20

def resetMask : BitVec 32 := 0xffffffff#32

structure Line where
  dev : ResetDev
  offset : ℕ
  bit : ℕ
  deriving DecidableEq

/-- A call of `reset_tt_bh_lines_assert` or `reset_tt_bh_lines_deassert`. -/
structure LineChange where
  dev : ResetDev
  asserted : Bool
  offset : ℕ
  mask : BitVec 32
  deriving DecidableEq

def isValidOffset (offset : ℕ) : Prop := offset < resetSize ∧ offset % ttBhResetBankStride = 0

instance (offset : ℕ) : Decidable (isValidOffset offset) := inferInstanceAs (Decidable (_ ∧ _))

def LineChange.lines (change : LineChange) : List Line :=
  if isValidOffset change.offset then
    (bits (change.mask &&& resetMask)).map fun bit => ⟨change.dev, change.offset, bit⟩
  else []

-- ---
-- The handler

def numTensixX : ℕ := 14

def numTensixY : ℕ := 10

/-- A coordinate that is looked up if it is translated. -/
def lookUp (translated : Bool) (entry : Run ℕ) (coordinate : ℕ) : Run ℕ :=
  if translated then entry else return coordinate

def nocLogicalToPhysicalRun (nt : NocTranslation) (logicalX logicalY : ℕ) : Run (ℕ × ℕ) := do
  let physX ← lookUp (nt.translateEn && !nt.translateRowMask.getLsbD logicalY) (readX nt logicalX)
    logicalX
  let physY ← lookUp (nt.translateEn && !nt.translateColMask.getLsbD logicalX) (readY nt logicalY)
    logicalY
  return (physX, physY)

/-- The search of `NocToTensixPhysX` and `NocToTensixPhysY`: the first index converted to
`coordinate`. -/
def nocToTensixPhys (toNoc : ℕ → Run ℕ) (coordinate : ℕ) : List ℕ → Run ℕ
  | [] => return 0xFF
  | i :: rest => do
    let noc ← toNoc i
    if noc = coordinate then return i else nocToTensixPhys toNoc coordinate rest

section

variable (behind : Table → ℕ → ℕ)

/-- `NocToTensixPhysX` on the first network. -/
def nocToTensixPhysX (x : ℕ) : Run ℕ :=
  nocToTensixPhys (fun i => physXToNoc behind (i + 1) 0) x (List.range 14)

/-- `NocToTensixPhysY` on the first network. -/
def nocToTensixPhysY (y : ℕ) : Run ℕ :=
  nocToTensixPhys (fun i => physYToNoc behind (i + 2) 0) y (List.range numTensixY)

/-- `EnableOverlayCg` on a Tensix node, which has overlay registers. -/
def enableOverlayCg (px py : ℕ) : Run Unit := do
  getNodeType px py
  let _ ← physXToNoc behind px 0
  let _ ← physYToNoc behind py 0
  return ()

/-- `NocInitSingleTile` on a Tensix node; `cgEn` is whether clock gating is enabled. -/
def nocInitSingleTile (cgEn : Bool) (noc0X noc0Y : ℕ) : Run Unit := do
  let px ← readConst behind .kNoc0XToPhys kNoc0XToPhys noc0X
  let py ← readConst behind .kNoc0YToPhys kNoc0YToPhys noc0Y
  (List.range numNocs).forM fun nocId => setupNiuTlbPhys behind px py nocId
  if cgEn then enableOverlayCg behind px py else return ()

/-- `SetSingleTileClockGate`, which takes the coordinate for that of the first network. -/
def setSingleTileClockGate (noc0X noc0Y : ℕ) : Run Unit := do
  let px ← readConst behind .kNoc0XToPhys kNoc0XToPhys noc0X
  let py ← readConst behind .kNoc0YToPhys kNoc0YToPhys noc0Y
  getNodeType px py

structure TensixState where
  cgEn : Bool
  powerState : Bool

/-- The tile is gated again if Tensix is in low power. -/
def restoreClockGate (tensix : TensixState) (nocX nocY : ℕ) : Run Unit :=
  if tensix.powerState then return () else setSingleTileClockGate behind nocX nocY

structure ToggleOutcome where
  status : UInt8
  changes : List LineChange
  deriving DecidableEq

/-- The changes for one bit of a bank: the cores are held in reset around everything else. -/
def toggleLine (bankOffset bitIndex : ℕ) : List LineChange :=
  let mask := BitVec.twoPow 32 bitIndex
  [⟨.tensixRiscReset, true, bankOffset, mask⟩, ⟨.tensixReset, true, bankOffset, mask⟩,
    ⟨.tensixReset, false, bankOffset, mask⟩, ⟨.tensixRiscReset, false, bankOffset, mask⟩]

def toggleSingleTensixReset (tensix : TensixState) (globals : Globals) (nocX nocY : ℕ) :
    Run ToggleOutcome := do
  let (physX, physY) ← nocLogicalToPhysicalRun globals.translation.noc0 nocX nocY
  let tensixCol ← nocToTensixPhysX behind physX
  let tensixRow ← nocToTensixPhysY behind physY
  if tensixCol ≥ numTensixX ∨ tensixRow ≥ numTensixY then return ⟨1, []⟩
  else do
    let tensixIndex := (numTensixY * tensixCol + tensixRow) % 256
    nocInitSingleTile behind tensix.cgEn physX physY
    programNocTranslationSingleTile behind globals.translation physX physY
    restoreClockGate behind tensix nocX nocY
    return ⟨0, toggleLine (tensixIndex / 32 * ttBhResetBankStride) (tensixIndex % 32)⟩

end

-- ---
-- Tiles

/-- A Tensix tile by its physical column and row. -/
@[ext]
structure Tile where
  col : ℕ
  row : ℕ
  hcol : col < numTensixX
  hrow : row < numTensixY

namespace Tile

def x (tile : Tile) : ℕ := kPhysXToNoc0.getD (tile.col + 1) 0

def y (tile : Tile) : ℕ := kPhysYToNoc0.getD (tile.row + 2) 0

/-- The tiles are numbered column by column, and their lines fill the banks. -/
def line (tile : Tile) (dev : ResetDev) : Line where
  dev := dev
  offset := (numTensixY * tile.col + tile.row) / 32 * ttBhResetBankStride
  bit := (numTensixY * tile.col + tile.row) % 32

/-- The network takes a packet for the coordinate to the tile. -/
def Addressed (nt : NocTranslation) (nocX nocY : ℕ) (tile : Tile) : Prop :=
  nocLogicalToPhysical nt nocX nocY = (tile.x, tile.y)

theorem line_injective {tile tile' : Tile} {dev : ResetDev} (h : tile.line dev = tile'.line dev) :
    tile = tile' := by
  have hoffset := congrArg Line.offset h
  have hbit := congrArg Line.bit h
  have hrow := tile.hrow
  have hrow' := tile'.hrow
  simp only [line, numTensixY, ttBhResetBankStride] at hoffset hbit hrow hrow'
  exact Tile.ext (by omega) (by omega)

theorem x_lt (tile : Tile) : tile.x < nocXSize := by
  have hlt : ∀ col < numTensixX, kPhysXToNoc0.getD (col + 1) 0 < nocXSize := by decide
  exact hlt tile.col tile.hcol

theorem y_lt (tile : Tile) : tile.y < nocYSize := by
  have hlt : ∀ row < numTensixY, kPhysYToNoc0.getD (row + 2) 0 < nocYSize := by decide
  exact hlt tile.row tile.hrow

theorem toggleLine_lines (tile : Tile) (dev : ResetDev) :
    (toggleLine (tile.line dev).offset (tile.line dev).bit).map
        (fun change => (change.asserted, change.lines)) =
      [(true, [tile.line .tensixRiscReset]), (true, [tile.line .tensixReset]),
        (false, [tile.line .tensixReset]), (false, [tile.line .tensixRiscReset])] := by
  have hvalid : isValidOffset (tile.line dev).offset := by
    have hcol := tile.hcol
    have hrow := tile.hrow
    simp only [numTensixX, numTensixY] at hcol hrow
    refine ⟨?_, Nat.mul_mod_left _ _⟩
    show (numTensixY * tile.col + tile.row) / 32 * ttBhResetBankStride < resetSize
    rw [numTensixY, ttBhResetBankStride, resetSize]
    omega
  have hbits : bits (BitVec.twoPow 32 (tile.line dev).bit &&& resetMask) = [(tile.line dev).bit] := by
    rw [show resetMask = BitVec.allOnes 32 from rfl, BitVec.and_allOnes]
    exact bits_twoPow (Nat.mod_lt _ (by decide))
  have hlines : ∀ dev' asserted, LineChange.lines ⟨dev', asserted, (tile.line dev).offset,
      BitVec.twoPow 32 (tile.line dev).bit⟩ = [tile.line dev'] := by
    intro dev' asserted
    rw [LineChange.lines, if_pos hvalid, hbits]
    rfl
  simp only [toggleLine, List.map_cons, List.map_nil, hlines]

end Tile

-- ---
-- From coordinates to tiles

section

variable {behind : Table → ℕ → ℕ} {toNoc : ℕ → Run ℕ} {coordinate nocX nocY : ℕ} {is : List ℕ}
  {nt : NocTranslation} {tile : Tile}

theorem all_nocToTensixPhys (h : ∀ i ∈ is, All Access.InBounds (toNoc i)) :
    All Access.InBounds (nocToTensixPhys toNoc coordinate is) := by
  induction is with
  | nil => exact all_pure
  | cons i is ih =>
    obtain ⟨hfirst, hrest⟩ := List.forall_mem_cons.mp h
    rw [nocToTensixPhys, all_bind]
    refine ⟨hfirst, ?_⟩
    split
    · exact all_pure
    · exact ih hrest

/-- The search finds an index of the coordinate, or 0xFF if there is none. -/
theorem nocToTensixPhys_spec (toNoc : ℕ → Run ℕ) (coordinate : ℕ) (is : List ℕ) :
    (value (nocToTensixPhys toNoc coordinate is) = 0xFF ∧ ∀ i ∈ is, value (toNoc i) ≠ coordinate) ∨
      ∃ i ∈ is, value (nocToTensixPhys toNoc coordinate is) = i ∧ value (toNoc i) = coordinate := by
  induction is with
  | nil => exact Or.inl ⟨rfl, fun i hi => absurd hi List.not_mem_nil⟩
  | cons i is ih =>
    rw [nocToTensixPhys, value_bind, value_ite]
    by_cases hfound : value (toNoc i) = coordinate
    · rw [if_pos hfound]
      exact Or.inr ⟨i, List.mem_cons_self, rfl, hfound⟩
    · rw [if_neg hfound]
      rcases ih with ⟨hnone, hall⟩ | ⟨j, hj, hsearch⟩
      · exact Or.inl ⟨hnone, List.forall_mem_cons.mpr ⟨hfound, hall⟩⟩
      · exact Or.inr ⟨j, List.mem_cons_of_mem _ hj, hsearch⟩

variable {n i : ℕ} {f : ℕ → ℕ}

theorem nocToTensixPhys_found (hvalue : ∀ j < n, value (toNoc j) = f j)
    (hinj : ∀ j < n, ∀ k < n, f j = f k → j = k) (hi : i < n) :
    value (nocToTensixPhys toNoc (f i) (List.range n)) = i := by
  rcases nocToTensixPhys_spec toNoc (f i) (List.range n) with ⟨-, hall⟩ | ⟨j, hj, hfound, hcoordinate⟩
  · exact absurd (hvalue i hi) (hall i (List.mem_range.mpr hi))
  · have hj := List.mem_range.mp hj
    rw [hvalue j hj] at hcoordinate
    exact hfound.trans (hinj j hj i hi hcoordinate)

theorem nocToTensixPhys_sound (hvalue : ∀ j < n, value (toNoc j) = f j) (hn : n ≤ 0xFF)
    (hfound : value (nocToTensixPhys toNoc coordinate (List.range n)) < n) :
    f (value (nocToTensixPhys toNoc coordinate (List.range n))) = coordinate := by
  rcases nocToTensixPhys_spec toNoc coordinate (List.range n) with ⟨hnone, -⟩ | ⟨j, hj, hj', hcoordinate⟩
  · omega
  · rw [hj', ← hvalue j (List.mem_range.mp hj), hcoordinate]

theorem value_tensixPhysXToNoc (hi : i < numTensixX) :
    value (physXToNoc behind (i + 1) 0) = kPhysXToNoc0.getD (i + 1) 0 := by
  rw [numTensixX] at hi
  rw [physXToNoc, value_bind, value_readConst (show i + 1 < 17 by omega)]
  rfl

theorem value_tensixPhysYToNoc (hi : i < numTensixY) :
    value (physYToNoc behind (i + 2) 0) = kPhysYToNoc0.getD (i + 2) 0 := by
  rw [numTensixY] at hi
  rw [physYToNoc, value_bind, value_readConst (show i + 2 < 12 by omega)]
  rfl

theorem nocToTensixPhysX_tile (tile : Tile) : value (nocToTensixPhysX behind tile.x) = tile.col := by
  have hinj : ∀ i < numTensixX, ∀ j < numTensixX,
      kPhysXToNoc0.getD (i + 1) 0 = kPhysXToNoc0.getD (j + 1) 0 → i = j := by decide
  exact nocToTensixPhys_found (fun _ => value_tensixPhysXToNoc) hinj tile.hcol

theorem nocToTensixPhysY_tile (tile : Tile) : value (nocToTensixPhysY behind tile.y) = tile.row := by
  have hinj : ∀ i < numTensixY, ∀ j < numTensixY,
      kPhysYToNoc0.getD (i + 2) 0 = kPhysYToNoc0.getD (j + 2) 0 → i = j := by decide
  exact nocToTensixPhys_found (fun _ => value_tensixPhysYToNoc) hinj tile.hrow

theorem exists_tile {x y : ℕ} (hcol : value (nocToTensixPhysX behind x) < numTensixX)
    (hrow : value (nocToTensixPhysY behind y) < numTensixY) : ∃ tile : Tile, tile.x = x ∧ tile.y = y :=
  ⟨⟨_, _, hcol, hrow⟩,
    nocToTensixPhys_sound (fun _ => value_tensixPhysXToNoc) (by decide) hcol,
    nocToTensixPhys_sound (fun _ => value_tensixPhysYToNoc) (by decide) hrow⟩

theorem value_nocLogicalToPhysicalRun :
    value (nocLogicalToPhysicalRun nt nocX nocY) = nocLogicalToPhysical nt nocX nocY := by
  rw [nocLogicalToPhysicalRun, nocLogicalToPhysical]
  simp only [value_bind, lookUp, value_ite, value_pure]
  rfl

theorem all_lookUp {translated : Bool} {entry : Run ℕ} :
    All Access.InBounds (lookUp translated entry coordinate) ↔
      (translated = true → All Access.InBounds entry) := by
  unfold lookUp
  split
  · rename_i htranslated
    exact (imp_iff_right htranslated).symm
  · rename_i hraw
    exact iff_of_true all_pure fun htranslated => absurd htranslated hraw

theorem all_nocLogicalToPhysicalRun : All Access.InBounds (nocLogicalToPhysicalRun nt nocX nocY) ↔
    (nt.translateEn = true → (nt.translateRowMask.getLsbD nocY = true ∨ nocX < 32) ∧
      (nt.translateColMask.getLsbD nocX = true ∨ nocY < 32)) := by
  rw [nocLogicalToPhysicalRun, all_bind, all_bind, all_lookUp, all_lookUp, all_readX, all_readY]
  cases nt.translateEn with
  | true => simp [all_pure, or_iff_not_imp_left]
  | false => simp [all_pure]

end

-- ---
-- What the handler does

section

variable {behind : Table → ℕ → ℕ} {tensix : TensixState} {globals : Globals} {nocX nocY x y : ℕ}
  {tile : Tile}

theorem toggle_tile (h : tile.Addressed globals.translation.noc0 nocX nocY) :
    value (toggleSingleTensixReset behind tensix globals nocX nocY) =
      ⟨0, toggleLine (tile.line .tensixReset).offset (tile.line .tensixReset).bit⟩ := by
  have hcol := tile.hcol
  have hrow := tile.hrow
  have hindex : (numTensixY * tile.col + tile.row) % 256 = numTensixY * tile.col + tile.row := by
    rw [numTensixX] at hcol
    rw [numTensixY] at hrow ⊢
    omega
  rw [toggleSingleTensixReset, value_bind, value_nocLogicalToPhysicalRun, h]
  simp only [value_bind, nocToTensixPhysX_tile, nocToTensixPhysY_tile]
  rw [if_neg (by omega), hindex]
  rfl

theorem toggle_refused (h : ¬ ∃ tile : Tile, tile.Addressed globals.translation.noc0 nocX nocY) :
    value (toggleSingleTensixReset behind tensix globals nocX nocY) = ⟨1, []⟩ := by
  rw [toggleSingleTensixReset, value_bind, value_nocLogicalToPhysicalRun]
  rcases hphys : nocLogicalToPhysical globals.translation.noc0 nocX nocY with ⟨physX, physY⟩
  simp only [value_bind]
  rw [if_pos]
  · rfl
  · by_contra hfound
    rw [not_or, Nat.not_le, Nat.not_le] at hfound
    obtain ⟨tile, hx, hy⟩ := exists_tile hfound.1 hfound.2
    exact h ⟨tile, by rw [Tile.Addressed, hphys, hx, hy]⟩

theorem nocInitSingleTile_inBounds {cgEn : Bool} (hx : x < nocXSize) (hy : y < nocYSize) :
    All Access.InBounds (nocInitSingleTile behind cgEn x y) := by
  obtain ⟨hpx, hpy⟩ := @phys_lt x y behind hx hy
  rw [nocInitSingleTile, all_bind, all_bind, all_bind]
  refine ⟨all_element.mpr hx, all_element.mpr hy,
    all_forM.mpr fun nocId _ => setupNiuTlbPhys_inBounds hpx hpy, ?_⟩
  split
  · rw [enableOverlayCg, all_bind, all_bind, all_bind, all_physXToNoc, all_physYToNoc]
    exact ⟨getNodeType_inBounds hpx hpy, hpx, hpy, all_pure⟩
  · exact all_pure

theorem all_restoreClockGate : All Access.InBounds (restoreClockGate behind tensix nocX nocY) ↔
    tensix.powerState = true ∨ nocX < nocXSize ∧ nocY < nocYSize := by
  unfold restoreClockGate
  split
  · rename_i hon
    exact iff_of_true all_pure (Or.inl hon)
  · rename_i hoff
    rw [setSingleTileClockGate, all_bind, all_bind, or_iff_right hoff]
    refine ⟨fun h => ⟨all_element.mp h.1, all_element.mp h.2.1⟩, fun ⟨hx, hy⟩ => ?_⟩
    obtain ⟨hpx, hpy⟩ := @phys_lt nocX nocY behind hx hy
    exact ⟨all_element.mpr hx, all_element.mpr hy, getNodeType_inBounds hpx hpy⟩

theorem coordinate_of_disabled (hen : globals.translation.noc0.translateEn = false)
    (h : tile.Addressed globals.translation.noc0 nocX nocY) : nocX = tile.x ∧ nocY = tile.y := by
  rw [Tile.Addressed, nocLogicalToPhysical, hen] at h
  exact Prod.mk.inj h

/-- The accesses of the handler: the look-up, and for a tile the gating by the coordinate of the
host. The others are in bounds for every node. -/
theorem all_toggleSingleTensixReset :
    All Access.InBounds (toggleSingleTensixReset behind tensix globals nocX nocY) ↔
      All Access.InBounds (nocLogicalToPhysicalRun globals.translation.noc0 nocX nocY) ∧
        ((∃ tile : Tile, tile.Addressed globals.translation.noc0 nocX nocY) →
          All Access.InBounds (restoreClockGate behind tensix nocX nocY)) := by
  have hsearchX : ∀ x, All Access.InBounds (nocToTensixPhysX behind x) := by
    refine fun x => all_nocToTensixPhys fun i hi => all_physXToNoc.mpr ?_
    have := List.mem_range.mp hi
    rw [nocXSize]
    omega
  have hsearchY : ∀ y, All Access.InBounds (nocToTensixPhysY behind y) := by
    refine fun y => all_nocToTensixPhys fun i hi => all_physYToNoc.mpr ?_
    have := List.mem_range.mp hi
    rw [numTensixY] at this
    rw [nocYSize]
    omega
  rw [toggleSingleTensixReset, all_bind, value_nocLogicalToPhysicalRun]
  refine and_congr_right fun _ => ?_
  rcases hphys : nocLogicalToPhysical globals.translation.noc0 nocX nocY with ⟨physX, physY⟩
  simp only [all_bind, hsearchX, hsearchY, true_and]
  split
  · rename_i hnone
    refine iff_of_true all_pure ?_
    rintro ⟨tile, htile⟩
    obtain ⟨rfl, rfl⟩ := Prod.mk.inj (hphys.symm.trans htile)
    rw [nocToTensixPhysX_tile, nocToTensixPhysY_tile] at hnone
    have hcol := tile.hcol
    have hrow := tile.hrow
    omega
  · rename_i hfound
    rw [not_or, Nat.not_le, Nat.not_le] at hfound
    obtain ⟨tile, rfl, rfl⟩ := exists_tile hfound.1 hfound.2
    simp only [all_bind, all_pure, and_true]
    rw [imp_iff_right ⟨tile, hphys⟩]
    exact ⟨fun h => h.2.2, fun h => ⟨nocInitSingleTile_inBounds tile.x_lt tile.y_lt,
      programNocTranslationSingleTile_inBounds tile.x_lt tile.y_lt, h⟩⟩

end

/-- **When the reset hits the tile that is named, and reads inside of its tables.** Exactly where
translation is disabled; or where each coordinate that is looked up is in its table and, if Tensix
is in low power and a tile is addressed, the coordinates are those of a node. In any case a
coordinate without a tile is refused, and for the tile that is addressed its own line is asserted
and deasserted, and no other. -/
theorem single_tensix_reset_hits_tile (behind : Table → ℕ → ℕ) (tensix : TensixState)
    (globals : Globals) (nocX nocY : UInt8) :
    (let nt := globals.translation.noc0;
      let run := toggleSingleTensixReset behind tensix globals nocX.toNat nocY.toNat;
      (∀ a ∈ run.events, a.InBounds) ∧
      ((¬ ∃ tile : Tile, tile.Addressed nt nocX.toNat nocY.toNat) → run.value = ⟨1, []⟩) ∧
      (∀ tile : Tile, tile.Addressed nt nocX.toNat nocY.toNat → run.value.status = 0 ∧
        run.value.changes.map (fun change => (change.asserted, change.lines)) =
          [(true, [tile.line .tensixRiscReset]), (true, [tile.line .tensixReset]),
            (false, [tile.line .tensixReset]), (false, [tile.line .tensixRiscReset])]) ∧
      ∀ (tile tile' : Tile) (dev : ResetDev), tile.line dev = tile'.line dev → tile = tile') ↔
    (let nt := globals.translation.noc0;
      nt.translateEn = true →
        ((nt.translateRowMask.getLsbD nocY.toNat = true ∨ nocX.toNat < 32) ∧
          (nt.translateColMask.getLsbD nocX.toNat = true ∨ nocY.toNat < 32)) ∧
        ((∃ tile : Tile, tile.Addressed nt nocX.toNat nocY.toNat) →
          tensix.powerState = true ∨ nocX.toNat < nocXSize ∧ nocY.toNat < nocYSize)) := by
  have hbounds : All Access.InBounds
      (toggleSingleTensixReset behind tensix globals nocX.toNat nocY.toNat) ↔ _ :=
    all_toggleSingleTensixReset
  rw [all_nocLogicalToPhysicalRun, all_restoreClockGate] at hbounds
  dsimp only
  constructor
  · rintro ⟨hrun, -⟩ hen
    obtain ⟨hlookUp, hgate⟩ := hbounds.mp hrun
    exact ⟨hlookUp hen, hgate⟩
  · intro h
    refine ⟨hbounds.mpr ⟨fun hen => (h hen).1, ?_⟩, toggle_refused, fun tile htile => ?_,
      fun tile tile' dev => Tile.line_injective⟩
    · rintro ⟨tile, htile⟩
      cases hen : globals.translation.noc0.translateEn with
      | true => exact (h hen).2 ⟨tile, htile⟩
      | false =>
        obtain ⟨hx, hy⟩ := coordinate_of_disabled hen htile
        exact Or.inr ⟨hx ▸ tile.x_lt, hy ▸ tile.y_lt⟩
    · rw [toggle_tile htile]
      exact ⟨rfl, tile.toggleLine_lines .tensixReset⟩

def twoBadColumns : Globals where
  translation := (initNocTranslation 0 0x3#16 noBadGddr 0x120#16).getD
    ⟨clearedTranslation, clearedTranslation⟩
  nocTranslationEnabled := true

def firstGoodTile : Tile := ⟨2, 1, by decide, by decide⟩

/-- **Reads behind the tables.** 32 is looked up in 32 entries; and in low power 20, which also
addresses tiles, among 17 columns of nodes. -/
theorem single_tensix_reset_reads_behind :
    ¬ All Access.InBounds
      (toggleSingleTensixReset (fun _ _ => 0) ⟨true, true⟩ twoBadColumns 32 2) ∧
    ¬ All Access.InBounds
      (toggleSingleTensixReset (fun _ _ => 0) ⟨true, false⟩ twoBadColumns 20 2) := by
  decide +kernel

-- ---
-- From the fuses

section

open Harvesting

/-- **From the fuses to the reset lines.** With at most seven columns disabled by the fuses and
at most seven by the product specification, NOC translation is set up at boot, and a host that
names a tile by the logical coordinate of its node toggles the lines of that tile and no other. -/
theorem logical_coordinate_resets_tile {efuse : Efuse} {fwTable : FwTable}
    (hen : fwTable.harvestingEn = true) (hfused : 7 ≤ popcount (fused efuse).tensixColEnabled)
    (hspec : fwTable.tensixColDisableCount ≤ 7) (hnoc : fwTable.nocTranslationEn = true)
    (translation : Translations) :
    ∃ t, initNocTranslationFromHarvesting false fwTable (calculateHarvesting efuse fwTable)
        translation = some t ∧
      ∀ (behind : Table → ℕ → ℕ) (tensix : TensixState) (tile : Tile),
        let coord := t.noc0.logicalCoords tile.x tile.y
        let run := toggleSingleTensixReset behind tensix ⟨t, true⟩ (logicalX coord) (logicalY coord)
        run.value.status = 0 ∧ run.value.changes.map (fun change => (change.asserted, change.lines)) =
          [(true, [tile.line .tensixRiscReset]), (true, [tile.line .tensixReset]),
            (false, [tile.line .tensixReset]), (false, [tile.line .tensixRiscReset])] := by
  obtain ⟨hcolumns, hcount⟩ := tensixColEnabled_spec hen hfused hspec
  obtain ⟨hlow, hhigh⟩ := @ethEnabled_spec efuse _ hen
  obtain ⟨hbad, hsum⟩ := bits_bad hcolumns
  obtain ⟨skip, hskip, hskipCount⟩ := skipEth_spec hlow hhigh
  have hbadCount : popcount (badTensixCols (calculateHarvesting efuse fwTable)) ≤ 7 := by
    rw [badTensixCols]
    omega
  obtain ⟨nt, hcompute, hconsistent, -⟩ : ∃ nt, computeNocTranslation
      (if (calculateHarvesting efuse fwTable).pcieUsage 0 = pcieModeEp then 0 else 1)
      (badTensixCols (calculateHarvesting efuse fwTable))
      (badGddr (calculateHarvesting efuse fwTable)) skip = some nt ∧ _ ∧ _ :=
    computeNocTranslation_consistent hbad hbadCount hskipCount
  refine ⟨⟨nt, copyNoc0ToNoc1 nt⟩, ?_, ?_⟩
  · rw [initNocTranslationFromHarvesting, hnoc, hskip]
    show initNocTranslation _ _ _ skip = _
    rw [initNocTranslation, hcompute]
    rfl
  · intro behind tensix tile
    have haddressed : tile.Addressed nt (logicalX (nt.logicalCoords tile.x tile.y))
        (logicalY (nt.logicalCoords tile.x tile.y)) :=
      (hconsistent.addressed tile.x tile.x_lt tile.y tile.y_lt).roundTrip (by decide) (by decide)
    have htoggle := @toggle_tile behind tensix ⟨⟨nt, copyNoc0ToNoc1 nt⟩, true⟩ _ _ tile haddressed
    dsimp only at htoggle ⊢
    rw [htoggle]
    exact ⟨rfl, tile.toggleLine_lines .tensixReset⟩

theorem logical_coordinate_resets_tile_unfused :
    ∃ t, initNocTranslationFromHarvesting false productTable
        (calculateHarvesting unfused productTable) ⟨makeIdentity, makeIdentity⟩ = some t ∧
      (toggleSingleTensixReset (fun _ _ => 0) ⟨true, true⟩ ⟨t, true⟩
        (logicalX (t.noc0.logicalCoords firstGoodTile.x firstGoodTile.y))
        (logicalY (t.noc0.logicalCoords firstGoodTile.x firstGoodTile.y))).value.status = 0 := by
  obtain ⟨t, hinit, hreset⟩ := @logical_coordinate_resets_tile unfused productTable rfl
    (by decide +kernel) (by decide +kernel) rfl ⟨makeIdentity, makeIdentity⟩
  exact ⟨t, hinit, (hreset _ _ firstGoodTile).1⟩

end

end SystemFirmware.Noc
