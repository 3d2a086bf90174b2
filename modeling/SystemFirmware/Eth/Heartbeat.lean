import Mathlib.Algebra.Ring.Nat
import Mathlib.Data.List.Basic
import Mathlib.Logic.Function.Basic

/-!
# ETH tiles — heartbeats and resets

`lib/tenstorrent/bh_arc/eth.c` tells a live tile from a hung one by its heartbeat counter:
`GetEthHeartbeatStatus` compares it with the value of the poll before
(`poll_reports_changes`), kept in `saved_heartbeat`. `toggle_eth_reset_handler` resets the
tiles of a mask. When it starts their firmware it clears the saved value of every tile, so
that a hung tile that was not reset is reported as alive at the next poll
(`hung_tile_reported_alive`).

Handler and polls interleave in any way; a round of the poll's loop, for one tile, is one
step.
-/

namespace SystemFirmware.Eth

def maxEthInstances : ℕ := 14

-- ---
-- The reset handler

inductive TileStep where
  | assertResets (inst : ℕ)
  | deassertTileReset (inst : ℕ)
  | assertRiscSoftReset (inst : ℕ)
  | deassertRiscReset (inst : ℕ)
  | loadEthFwParts (inst : ℕ)
  | clearSavedHeartbeat (inst : ℕ)
  | releaseEthReset (inst : ℕ)
  deriving DecidableEq

/-- `ETH_RESET_ERR_*`; the last two are those of the lookup and of the load. -/
inductive ResetError where
  | invalidMask
  | cableFault
  | noFlash
  | lookup (code : ℕ)
  | load (code : ℕ)
  deriving DecidableEq

structure Request where
  ethInstMask : ℕ
  noFwReload : Bool
  ethEnabled : ℕ
  cableFault : Bool
  flashReady : Bool
  /-- The results of `lookup_eth_fw_parts_fds` and of `load_eth_fw_parts`; 0 is success. -/
  lookup : ℕ
  load : ℕ → ℕ

/-- `requested & tile_enable.eth_enabled`. -/
def Request.mask (rq : Request) : ℕ := rq.ethInstMask &&& rq.ethEnabled

def Request.tiles (rq : Request) : List ℕ := (List.range maxEthInstances).filter rq.mask.testBit

/-- The loop that loads the firmware of the tiles, up to the first failure. -/
def loadParts (load : ℕ → ℕ) : List ℕ → Except ResetError Unit × List TileStep
  | [] => (.ok (), [])
  | i :: rest =>
    if load i > 0 then (.error (.load (load i)), [.loadEthFwParts i])
    else ((loadParts load rest).1, .loadEthFwParts i :: (loadParts load rest).2)

/-- The loop that starts the firmware. It goes over all tiles. -/
def startFw (rq : Request) : List TileStep :=
  (List.range maxEthInstances).flatMap fun i =>
    .clearSavedHeartbeat i :: if rq.mask.testBit i then [.releaseEthReset i] else []

def resetTiles (rq : Request) : List TileStep :=
  rq.tiles.map .assertResets ++ rq.tiles.map .deassertTileReset ++
    rq.tiles.map .assertRiscSoftReset ++ rq.tiles.map .deassertRiscReset

/-- `toggle_eth_reset_handler`: `data[1]` of the response, and the steps. -/
def toggleEthResetHandler (rq : Request) : Except ResetError ℕ × List TileStep :=
  if rq.ethInstMask ≥ 2 ^ maxEthInstances then (.error .invalidMask, [])
  else if rq.mask = 0 then (.ok 0, [])
  else if rq.cableFault then (.error .cableFault, [])
  else if rq.noFwReload then (.ok rq.mask, resetTiles rq)
  else if ¬ rq.flashReady then (.error .noFlash, [])
  else if rq.lookup > 0 then (.error (.lookup rq.lookup), [])
  else
    match loadParts rq.load rq.tiles with
    | (.error e, steps) => (.error e, resetTiles rq ++ steps)
    | (.ok _, steps) => (.ok rq.mask, resetTiles rq ++ steps ++ startFw rq)

-- ---
-- Polls

inductive Action where
  | beat (inst : ℕ) (value : UInt32)
  | poll (inst : ℕ)
  | handler (step : TileStep)
  deriving DecidableEq

structure State where
  /-- `saved_heartbeat`. -/
  saved : ℕ → UInt32
  heartbeat : ℕ → UInt32

def State.step (s : State) : Action → State
  | .beat i value => { s with heartbeat := Function.update s.heartbeat i value }
  | .poll i => { s with saved := Function.update s.saved i (s.heartbeat i) }
  | .handler (.clearSavedHeartbeat i) => { s with saved := Function.update s.saved i 0 }
  | .handler _ => s

def pollBits (inst : ℕ) : State → List Action → List Bool
  | _, [] => []
  | s, a :: run =>
    (if a = .poll inst then [decide (s.saved inst ≠ s.heartbeat inst)] else []) ++
      pollBits inst (s.step a) run

/-- The counter of a tile at its polls. Nothing here depends on a handler. -/
def pollValues (inst : ℕ) : UInt32 → List Action → List UInt32
  | _, [] => []
  | now, .beat i value :: run => pollValues inst (if i = inst then value else now) run
  | now, .poll i :: run => (if i = inst then [now] else []) ++ pollValues inst now run
  | now, .handler _ :: run => pollValues inst now run

def changes (previous : UInt32) : List UInt32 → List Bool
  | [] => []
  | value :: values => decide (previous ≠ value) :: changes value values

/-- It asks not to start firmware, or selects no enabled tile. -/
def Request.StartsNothing (rq : Request) : Prop := rq.noFwReload = true ∨ rq.mask = 0

theorem Request.StartsNothing.keeps_saved {rq : Request} (h : rq.StartsNothing) (inst : ℕ) :
    .clearSavedHeartbeat inst ∉ (toggleEthResetHandler rq).2 := by
  unfold toggleEthResetHandler
  split_ifs with hmask hnone hcable hskip
  · simp
  · simp
  · simp
  · simp [resetTiles]
  all_goals exact absurd h (by simp [Request.StartsNothing, hnone, hskip])

theorem pollBits_eq_changes {inst : ℕ} {run : List Action} {s : State}
    (h : .handler (.clearSavedHeartbeat inst) ∉ run) :
    pollBits inst s run = changes (s.saved inst) (pollValues inst (s.heartbeat inst) run) := by
  induction run generalizing s with
  | nil => rfl
  | cons a run ih =>
    rw [pollBits, ih fun hmem => h (List.mem_cons_of_mem a hmem)]
    cases a with
    | beat i value =>
      simp only [State.step, pollValues, reduceCtorEq, if_false, List.nil_append]
      by_cases hi : i = inst
      · subst hi
        rw [Function.update_self, if_pos rfl]
      · rw [Function.update_of_ne (Ne.symm hi), if_neg hi]
    | poll i =>
      by_cases hi : i = inst
      · subst hi
        simp only [State.step, pollValues, if_true, Function.update_self, List.cons_append,
          List.nil_append, changes]
      · have hne : Action.poll i ≠ .poll inst := fun heq => hi (Action.poll.inj heq)
        simp only [State.step, pollValues, hne, hi, if_false, List.nil_append,
          Function.update_of_ne (Ne.symm hi)]
    | handler step =>
      simp only [pollValues, reduceCtorEq, if_false, List.nil_append]
      cases step with
      | clearSavedHeartbeat i =>
        have hi : i ≠ inst := fun heq => h (heq ▸ List.mem_cons_self)
        simp only [State.step, Function.update_of_ne (Ne.symm hi)]
      | _ => rfl

/-- **Heartbeats of other tiles.** In every interleaving of polls with the steps of reset
requests that start no firmware, the bit of a tile in each result is set exactly if its
counter differs from the one at the poll before. -/
theorem poll_reports_changes (rqs : List Request) (h : ∀ rq ∈ rqs, rq.StartsNothing)
    {run : List Action} (hrun : ∀ step, .handler step ∈ run →
      ∃ rq ∈ rqs, step ∈ (toggleEthResetHandler rq).2) (inst : ℕ) (s : State) :
    pollBits inst s run = changes (s.saved inst) (pollValues inst (s.heartbeat inst) run) := by
  refine pollBits_eq_changes fun hmem => ?_
  obtain ⟨rq, hrq, hstep⟩ := hrun _ hmem
  exact (h rq hrq).keeps_saved inst hstep

def resetTile0 (noFwReload : Bool) : Request where
  ethInstMask := 1
  noFwReload := noFwReload
  ethEnabled := 0x3FFF
  cableFault := false
  flashReady := true
  lookup := 0
  load := fun _ => 0

def pollAround (noFwReload : Bool) : List Action :=
  [.beat 1 5, .poll 1] ++ (toggleEthResetHandler (resetTile0 noFwReload)).2.map .handler ++
    [.poll 1]

theorem poll_reports_changes_resetTile0 :
    pollBits 1 ⟨fun _ => 0, fun _ => 0⟩ (pollAround true) = [true, false] := by
  rw [poll_reports_changes [resetTile0 true] (by simp [Request.StartsNothing, resetTile0])]
  · decide
  · intro step hstep
    simp only [pollAround, List.mem_append, List.mem_cons, List.not_mem_nil, or_false,
      List.mem_map, reduceCtorEq, false_or, or_self] at hstep
    obtain ⟨step', hstep', heq⟩ := hstep
    exact ⟨_, List.mem_singleton_self _, Action.handler.inj heq ▸ hstep'⟩

/-- With a reload of the firmware the second poll reports the hung tile 1 as alive. -/
theorem hung_tile_reported_alive :
    pollBits 1 ⟨fun _ => 0, fun _ => 0⟩ (pollAround false) = [true, true] ∧
      pollValues 1 0 (pollAround false) = [5, 5] ∧ (resetTile0 false).mask.testBit 1 = false := by
  decide

end SystemFirmware.Eth
