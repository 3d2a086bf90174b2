import SystemFirmware.DmcApp.Definitions
import SystemFirmware.Lib.Guarantee

/-!
# DmcApp — a property of the main loop from properties of its parts

The results about the main loop differ in what they say of a program, and agree in how the
property of the body follows from those of its parts. That is here, once.

`BodyLogic Φ` lists what is needed of `Φ`: that it is closed under the constructs of programs, and
holds of the steps that leave the watched data alone and of the parts which do not.
`BodyLogic.mainBody` is the body. `ResetLogic Φ` is for properties that the resets keep.
-/

namespace SystemFirmware.DmcApp

open Lib
open Cm2Dm (Cm2dmMessage Cm2DmMsgId cm2DmMsgCount)

variable {n : ℕ}

-- ---
-- The parts of handlers

def fanMsgId (forced : Bool) : Cm2DmMsgId :=
  if forced then .forcedFanSpeedUpdate else .fanSpeedUpdate

/-- The part of `handle_pgood_event` for a falling edge. -/
def pgoodFell (chip : Fin n) : Main n Unit :=
  Prog.ifThen (readChip chip fun c => c.pgoodFallTriggered && !c.pgoodSevereFault) do
    let input ← Prog.receive
    modifyChip chip fun c => { c with asicReset := true }
    modifyChip chip fun c => { c with
      pgoodSevereFault := c.pgoodSevereFault ||
        (c.pgoodLastTripMs ≠ 0 && input.uptime - c.pgoodLastTripMs < 1000)
      pgoodLastTripMs := input.uptime }
    modifyChip chip fun c => { c with pgoodFallTriggered := false }

/-- The part of `handle_pgood_event` for a rising edge. -/
def pgoodRose (chip : Fin n) : Main n Unit :=
  Prog.ifThen (readChip chip fun c => c.pgoodRiseTriggered && !c.pgoodSevereFault) do
    let _ ← bhChipResetChip chip true
    modifyChip chip fun c => { c with pgoodRiseTriggered := false }

theorem handlePgoodEvent_eq (chip : Fin n) :
    handlePgoodEvent chip = pgoodFell chip >>= fun _ => pgoodRose chip := rfl

theorem keep_setChip {α : Type} (part : ChipData → α) {s : State n} {i chip : Fin n}
    {data : ChipData} (h : part data = part (s.chips chip)) :
    part ((s.setChip chip data).chips i) = part (s.chips i) := by
  by_cases hi : i = chip
  · rw [hi, State.setChip_self]
    exact h
  · rw [State.setChip_of_ne hi]

/-- The data that results about the main loop are about. -/
structure Watched where
  fanSpeed : UInt8
  fanSpeedForced : Bool
  triggerReset : Bool
  inSequence : Bool

def ChipData.watched (c : ChipData) : Watched :=
  ⟨c.fanSpeed, c.fanSpeedForced, c.triggerReset, c.inSequence⟩

-- ---
-- Logics

/-- `Φ` is closed under the constructs of programs, for inputs that are `ok`. -/
structure ProgLogic (ok : Input → Prop) (Φ : (α : Type) → Main n α → Prop) : Prop where
  ret : ∀ {α : Type} (a : α), Φ α (pure a)
  halt : ∀ {α : Type}, Φ α .halt
  read : ∀ (chip : Fin n) c, Φ Bool (readChip chip c)
  bind : ∀ {α β : Type} {p : Main n α} {k : α → Main n β}, Φ α p → (∀ a, Φ β (k a)) →
    Φ β (p >>= k)
  receive : ∀ {β : Type} {k : Input → Main n β}, (∀ i, ok i → Φ β (k i)) → Φ β (Prog.receive >>= k)

namespace ProgLogic

variable {ok : Input → Prop} {Φ : (α : Type) → Main n α → Prop}

variable (h : ProgLogic ok Φ)

include h

theorem ifElse {α : Type} {c : Main n Bool} {p q : Main n α} (hc : Φ Bool c)
    (hp : Φ α p) (hq : Φ α q) : Φ α (Prog.ifElse c p q) := by
  refine h.bind hc fun b => ?_
  cases b with
  | true => exact hp
  | false => exact hq

theorem ifThen {c : Main n Bool} {p : Main n Unit} (hc : Φ Bool c)
    (hp : Φ Unit p) : Φ Unit (Prog.ifThen c p) :=
  h.ifElse hc hp (h.ret ())

theorem forEach {κ : Type} (l : List κ) {f : κ → Main n Unit}
    (hf : ∀ x, Φ Unit (f x)) : Φ Unit (Prog.forEach l f) := by
  induction l with
  | nil => exact h.ret ()
  | cons x l ih => exact h.bind (hf x) fun _ => ih

theorem outcome : Φ Bool (outcome : Main n Bool) :=
  h.receive fun i _ => h.ret i.flag

theorem resetAsic {chip : Fin n} {inSequence : Bool}
    (hcalled : Φ Unit (Prog.act (resetAsicCalled chip inSequence)))
    (hasic : ∀ b, Φ Unit (modifyChip chip fun c => { c with asicReset := b }))
    (hspi : ∀ b, Φ Unit (modifyChip chip fun c => { c with spiReset := b })) :
    Φ Bool (jtagBootromResetAsic chip inSequence) := by
  refine h.bind hcalled fun _ => h.bind (hasic true) fun _ => h.bind (hspi true) fun _ => ?_
  refine h.ifElse h.outcome ?_ (h.ret false)
  exact h.bind (hasic false) fun _ => h.bind (hspi false) fun _ => h.ret true

theorem resetChip {chip : Fin n} {forceReset : Bool}
    (hvalid : Φ Unit (modifyChip chip fun c => { c with lastCm2dmSeqNumValid := false }))
    (hsequence : Φ Bool (jtagBootromResetSequence chip forceReset)) :
    Φ Bool (bhChipResetChip chip forceReset) := by
  refine h.bind hvalid fun _ => h.ifElse h.outcome ?_ (h.ret false)
  exact h.bind hsequence fun _ => h.bind h.outcome fun _ => h.ret _

end ProgLogic

theorem allSteps_progLogic {ok : Input → Prop} {exception : (State n → State n × Bool) → Prop}
    {I : State n → Prop} :
    ProgLogic ok fun _ (p : Main n _) => p.AllSteps ok fun f => exception f ∨ ∀ s, I s → I (f s).1 where
  ret := fun _ => trivial
  halt := trivial
  read := fun _ _ => Prog.AllSteps.swap (.inr fun _ hs => hs)
  bind := Prog.AllSteps.bind
  receive := fun hk => Prog.AllSteps.receive_bind hk

/-- What is needed of `Φ` for the body of the main loop. -/
structure BodyLogic (cfg : Config) (ok : Input → Prop) (Φ : (α : Type) → Main n α → Prop) : Prop
    extends ProgLogic ok Φ where
  quiet : ∀ (chip : Fin n) {f : ChipData → ChipData}, (∀ c, (f c).watched = c.watched) →
    Φ Unit (modifyChip chip f)
  holdFan : ∀ chip, Φ Unit (holdFan cfg chip)
  fanMessage : ∀ chip (forced : Bool) {input : Input} {msg : Cm2dmMessage}, ok input →
    input.message = some msg → msg.msgId.toNat = (fanMsgId forced).toNat →
    Φ Bool (processFanSpeed cfg chip forced msg.data)
  resetSequence : ∀ chip forceReset, Φ Bool (jtagBootromResetSequence chip forceReset)
  perst : ∀ chip, Φ Unit (handlePerst chip)
  pgoodFell : ∀ chip, Φ Unit (pgoodFell chip)

namespace BodyLogic

variable {cfg : Config} {ok : Input → Prop} {Φ : (α : Type) → Main n α → Prop} {chip : Fin n}

variable (h : BodyLogic cfg ok Φ)

include h

theorem quiet_bind {β : Type} {f : ChipData → ChipData}
    {k : Unit → Main n β} (hf : ∀ c, (f c).watched = c.watched) (hk : Φ β (k ())) :
    Φ β (modifyChip chip f >>= k) :=
  h.bind (h.quiet chip hf) fun _ => hk

theorem resetChip (forceReset : Bool) :
    Φ Bool (bhChipResetChip chip forceReset) :=
  h.toProgLogic.resetChip (h.quiet _ fun _ => rfl) (h.resetSequence chip forceReset)

theorem thermTrip : Φ Unit (handleThermTrip cfg chip) := by
  refine h.ifThen (h.read _ _) (h.quiet_bind (fun _ => rfl) ?_)
  refine h.bind (h.holdFan chip) fun _ => h.ifThen (h.read _ _) ?_
  refine h.quiet_bind (fun _ => rfl) (h.quiet_bind (fun _ => rfl) (h.quiet_bind (fun _ => rfl) ?_))
  refine h.bind (h.resetChip true) fun _ => ?_
  refine h.bind (h.ifThen (h.read _ _) (h.quiet _ fun _ => rfl)) fun _ => ?_
  exact h.quiet _ fun _ => rfl

theorem watchdogReset : Φ Unit (handleWatchdogReset cfg chip) := by
  refine h.ifThen (h.read _ _) (h.quiet_bind (fun _ => rfl) (h.quiet_bind (fun _ => rfl) ?_))
  refine h.bind (h.ifThen h.outcome (h.receive fun _ _ => h.quiet _ fun _ => rfl)) fun _ => ?_
  refine h.quiet_bind (fun _ => rfl) (h.bind (h.holdFan chip) fun _ => ?_)
  refine h.quiet_bind (fun _ => rfl) (h.bind (h.resetChip true) fun _ => ?_)
  exact h.quiet_bind (fun _ => rfl) (h.quiet _ fun _ => rfl)

theorem pgoodEvent : Φ Unit (handlePgoodEvent chip) := by
  rw [handlePgoodEvent_eq]
  refine h.bind (h.pgoodFell chip) fun _ => h.ifThen (h.read _ _) ?_
  exact h.bind (h.resetChip true) fun _ => h.quiet _ fun _ => rfl

theorem sendInitData : Φ Unit (sendInitData chip) :=
  h.ifThen (h.read _ _) (h.ifThen h.outcome (h.quiet _ fun _ => rfl))

theorem resetReq {data : UInt32} :
    Φ Bool (processResetReq cfg chip data) := by
  unfold processResetReq
  split
  · exact h.quiet_bind (fun _ => rfl) (h.bind (h.resetChip true) fun _ => h.ret true)
  · split
    · exact h.halt
    · exact h.ret true

theorem storeProcessor {f : ChipData → ChipData}
    (hf : ∀ c, (f c).watched = c.watched) : Φ Bool (storeProcessor chip f) :=
  h.quiet_bind hf (h.ret false)

theorem msgProcessor {input : Input} {msg : Cm2dmMessage}
    (hok : ok input) (hmsg : input.message = some msg) :
    Φ Bool (msgProcessor cfg chip msg.msgId msg.data) := by
  unfold DmcApp.msgProcessor
  split
  · exact h.resetReq
  split
  · exact h.fanMessage chip false hok hmsg ‹_›
  split
  · exact h.fanMessage chip true hok hmsg ‹_›
  split
  · exact h.storeProcessor fun _ => rfl
  split
  · exact h.storeProcessor fun _ => rfl
  split
  · exact h.storeProcessor fun _ => rfl
  · exact h.ret false

theorem cm2dmRounds (rounds : ℕ) :
    Φ Unit (cm2dmRounds cfg chip rounds) := by
  induction rounds with
  | zero => exact h.ret ()
  | succ rounds ih =>
    refine h.receive fun input hok => ?_
    cases hmsg : input.message with
    | none => exact h.ret ()
    | some msg =>
      dsimp only
      split
      · exact h.ret ()
      · refine h.ifElse (h.read _ _) ih (h.quiet_bind (fun _ => rfl) ?_)
        exact h.ifElse (h.msgProcessor hok hmsg) (h.ret ()) ih

/-- **The body of the main loop.** -/
theorem mainBody : Φ Unit (mainBody cfg) := by
  refine h.bind (h.forEach _ fun _ => h.thermTrip) fun _ => ?_
  refine h.bind (h.forEach _ fun _ => h.watchdogReset) fun _ => ?_
  refine h.bind (h.forEach _ h.perst) fun _ => ?_
  refine h.bind (h.forEach _ fun _ => h.pgoodEvent) fun _ => ?_
  refine h.bind (h.forEach _ fun _ => h.sendInitData) fun _ => ?_
  exact h.ifThen h.outcome (h.forEach _ fun _ => h.cm2dmRounds _)

end BodyLogic

-- ---
-- The resets

/-- The watched data apart from what the resets keep for themselves. -/
def ChipData.fan (c : ChipData) : UInt8 × Bool := (c.fanSpeed, c.fanSpeedForced)

/-- What is needed of `Φ` for the resets, if only `jtag_bootrom_reset_asic` is special. -/
structure ResetLogic (ok : Input → Prop) (Φ : (α : Type) → Main n α → Prop) : Prop
    extends ProgLogic ok Φ where
  modify : ∀ (chip : Fin n) {f : ChipData → ChipData}, (∀ c, (f c).fan = c.fan) →
    Φ Unit (modifyChip chip f)
  resetAsic : ∀ chip inSequence, Φ Bool (jtagBootromResetAsic chip inSequence)

namespace ResetLogic

variable {ok : Input → Prop} {Φ : (α : Type) → Main n α → Prop} {chip : Fin n}

variable (h : ResetLogic ok Φ)

include h

theorem modify_bind {β : Type} {f : ChipData → ChipData}
    {k : Unit → Main n β} (hf : ∀ c, (f c).fan = c.fan) (hk : Φ β (k ())) :
    Φ β (modifyChip chip f >>= k) :=
  h.bind (h.modify chip hf) fun _ => hk

theorem softResetArc : Φ Unit (jtagBootromSoftResetArc chip) :=
  h.ifThen (h.read _ _) (h.modify _ fun _ => rfl)

theorem finish : Φ Unit (finishResetSequence chip) := by
  refine h.ifElse (h.read _ _) ?_ (h.modify _ fun _ => rfl)
  exact h.bind h.softResetArc fun _ => h.modify _ fun _ => rfl

theorem resetSequence (forceReset : Bool) :
    Φ Bool (jtagBootromResetSequence chip forceReset) := by
  refine h.bind (h.ifThen (h.ret forceReset) (h.modify _ fun _ => rfl)) fun _ => ?_
  refine h.modify_bind (fun _ => rfl) (h.ifElse (h.resetAsic chip true) ?_ ?_)
  · exact h.bind h.finish fun _ => h.ret true
  · exact h.modify_bind (fun _ => rfl) (h.ret false)

theorem resetChip (forceReset : Bool) :
    Φ Bool (bhChipResetChip chip forceReset) :=
  h.toProgLogic.resetChip (h.modify _ fun _ => rfl) (h.resetSequence forceReset)

theorem perst (htake : Φ Bool (takeTriggerReset chip)) : Φ Unit (handlePerst chip) := by
  refine h.ifThen htake (h.modify_bind (fun _ => rfl) ?_)
  refine h.modify_bind (fun _ => rfl) (h.modify_bind (fun _ => rfl) ?_)
  refine h.bind (h.ifThen (h.resetAsic chip false) h.softResetArc) fun _ => ?_
  refine h.bind (h.ifThen (h.read _ _) (h.modify _ fun _ => rfl)) fun _ => ?_
  exact h.modify _ fun _ => rfl

end ResetLogic

end SystemFirmware.DmcApp
