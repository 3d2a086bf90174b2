import SystemFirmware.Lib.RoundRobin
import SystemFirmware.Cm2Dm.Mailbox

/-!
# CM2DM mailbox — no starvation

`next_id_rr` looks for the lowest pending id from its pointer on, then from 0, and
leaves the pointer right behind it. On the circle of ids that is the pending id nearest
to the pointer (`nextIdRr_nearest`).

A pending bit is only cleared by the request that has chosen its id, so while an id
waits every pick is a turn of the round robin of `Lib.RoundRobin`, whatever is posted in
between.
-/

namespace SystemFirmware.Cm2Dm

open Lib

-- ---
-- The picks of a run

def pick (s : World) : Action → Option ℕ
  | .smbus =>
    if s.smbus = .reqGet ∧ s.mailbox.pendingMessages ≠ 0 then
      some (nextIdRr s.mailbox.nextIdRr s.mailbox.pendingMessages)
    else none
  | _ => none

def picks (s : World) : List Action → List ℕ
  | [] => []
  | a :: as =>
    (pick s a).toList ++ match step s a with
      | some t => picks t as
      | none => []

-- ---
-- One pick

variable {i : ℕ}

theorem getLsbD_genmask31 {l : ℕ} :
    (genmask31 l).getLsbD i = (decide (i < 32) && decide (l ≤ i)) := by
  rw [genmask31, BitVec.getLsbD_shiftLeft, BitVec.getLsbD_allOnes]
  by_cases hi : i < 32 <;> by_cases hl : l ≤ i <;> simp [hi, hl]
  omega

variable {rr : ℕ} {pending : BitVec 32}

theorem getLsbD_hiPending {j : ℕ} :
    (pending &&& genmask31 rr).getLsbD j = true ↔ pending.getLsbD j = true ∧ rr ≤ j := by
  rw [BitVec.getLsbD_and, getLsbD_genmask31, Bool.and_eq_true, Bool.and_eq_true,
    decide_eq_true_eq, decide_eq_true_eq]
  constructor
  · exact fun h => ⟨h.1, h.2.2⟩
  · exact fun h => ⟨h.1, BitVec.lt_of_getLsbD h.1, h.2⟩

theorem nextIdRr_nearest (hlt : ∀ j, pending.getLsbD j = true → j < cm2DmMsgCount)
    (hrr : rr < cm2DmMsgCount) (hi : pending.getLsbD i = true) :
    ahead cm2DmMsgCount rr (nextIdRr rr pending) ≤ ahead cm2DmMsgCount rr i := by
  have hne := ne_zero_of_getLsbD hi
  have hin := hlt i hi
  have hchosen := hlt _ (@nextIdRr_pending rr pending hne)
  simp only [nextIdRr] at hchosen ⊢
  split
  · -- some pending id from the pointer on
    rename_i hsome
    rw [if_pos hsome] at hchosen
    have hge := (getLsbD_hiPending.mp (lowestSet_spec hsome).1).2
    have hmin : rr ≤ i → lowestSet (pending &&& genmask31 rr) ≤ i :=
      fun hri => lowestSet_le (getLsbD_hiPending.mpr ⟨hi, hri⟩)
    unfold ahead
    split <;> split <;> omega
  · -- all of them are behind it
    rename_i hnone
    have hbehind : ∀ j, pending.getLsbD j = true → j < rr := by
      intro j hj
      by_contra hge
      exact hnone (ne_zero_of_getLsbD (getLsbD_hiPending.mpr ⟨hj, by omega⟩))
    have hmin := lowestSet_le hi
    have hchosenBehind := hbehind _ (lowestSet_spec hne).1
    have hiBehind := hbehind i hi
    unfold ahead
    split <;> split <;> omega

-- ---
-- While an id waits

def World.Waits (s : World) (i : ℕ) : Prop :=
  s.mailbox.pendingMessages.getLsbD i = true ∧ s.smbus ≠ .reqClear i

def pointerAfter (s : World) (a : Action) : ℕ :=
  match pick s a with
  | some k => (k + 1) % cm2DmMsgCount
  | none => s.mailbox.nextIdRr

variable {s t : World}

theorem smbusStep_turn (hstep : smbusStep s = some t) :
    t.mailbox.nextIdRr = pointerAfter s .smbus ∧
      (s.Waits i → pick s .smbus ≠ some i → t.Waits i) := by
  obtain ⟨m, smbus, posting, trace⟩ := s
  cases smbus with
  | idle => cases hstep
  | reqTest =>
    cases hstep
    refine ⟨rfl, fun hwaits _ => ⟨hwaits.1, ?_⟩⟩
    cases m.currMsgValid <;> simp
  | reqGet =>
    simp only [smbusStep] at hstep
    split at hstep
    · rename_i hpending
      cases hstep
      have hpick : pick ⟨m, .reqGet, posting, trace⟩ .smbus =
          some (nextIdRr m.nextIdRr m.pendingMessages) := if_pos ⟨rfl, hpending⟩
      refine ⟨by rw [pointerAfter, hpick], fun hwaits hne => ⟨hwaits.1, ?_⟩⟩
      rintro ⟨⟩
      exact hne hpick
    · rename_i hpending
      cases hstep
      have hpick : pick ⟨m, .reqGet, posting, trace⟩ .smbus = none :=
        if_neg fun h => hpending h.2
      exact ⟨by rw [pointerAfter, hpick], fun hwaits _ => ⟨hwaits.1, by simp⟩⟩
  | reqClear j =>
    cases hstep
    refine ⟨rfl, fun hwaits _ => ⟨?_, by simp⟩⟩
    have hji : j ≠ i := by
      rintro rfl
      exact hwaits.2 rfl
    rw [getLsbD_clearBit, hwaits.1]
    simp [hji]
  | reqMsgId | reqSeqNum | reqLoad | reqData | reqValid | reqCopy | ackClear =>
    cases hstep
    exact ⟨rfl, fun hwaits _ => ⟨hwaits.1, by simp⟩⟩

theorem step_turn {s t : World} {a : Action} {i : ℕ} (hstep : step s a = some t) :
    t.mailbox.nextIdRr = pointerAfter s a ∧ (s.Waits i → pick s a ≠ some i → t.Waits i) := by
  cases a with
  | store thread id data =>
    obtain ⟨-, rfl⟩ := step_store_cases hstep
    exact ⟨rfl, fun hwaits _ => hwaits⟩
  | setBit thread =>
    obtain ⟨id, -, rfl⟩ := step_setBit_cases hstep
    refine ⟨rfl, fun hwaits _ => ⟨?_, hwaits.2⟩⟩
    rw [getLsbD_setBit (lt_trans id.toNat_lt (by decide)), hwaits.1, Bool.or_true]
  | req =>
    obtain ⟨-, rfl⟩ := step_req_cases hstep
    exact ⟨rfl, fun hwaits _ => ⟨hwaits.1, by simp⟩⟩
  | ack data =>
    obtain ⟨-, ⟨-, rfl⟩ | ⟨-, rfl⟩⟩ := step_ack_cases hstep
    · exact ⟨rfl, fun hwaits _ => ⟨hwaits.1, by simp⟩⟩
    · exact ⟨rfl, fun hwaits _ => hwaits⟩
  | smbus => exact smbusStep_turn hstep

variable {a : Action}

theorem pick_eq_some {k : ℕ} (h : pick s a = some k) :
    s.mailbox.pendingMessages ≠ 0 ∧ k = nextIdRr s.mailbox.nextIdRr s.mailbox.pendingMessages := by
  cases a with
  | smbus =>
    simp only [pick] at h
    split at h
    · rename_i hget
      cases h
      exact ⟨hget.2, rfl⟩
    · cases h
  | store | setBit | req | ack => cases h

/-- The pointer is the number of an id. -/
structure TurnInv (s : World) : Prop where
  mailbox : Inv s
  pointer : s.mailbox.nextIdRr < cm2DmMsgCount

theorem start_turnInv : TurnInv World.start := ⟨start_inv, by decide⟩

theorem step_turnInv (h : TurnInv s) (hstep : step s a = some t) : TurnInv t := by
  refine ⟨step_inv h.mailbox hstep, ?_⟩
  rw [(@step_turn s t a 0 hstep).1, pointerAfter]
  split
  · exact Nat.mod_lt _ (by decide)
  · exact h.pointer

/-- **Turns.** While `i` waits, the picks of a run are turns of the round robin. -/
theorem picks_turns {actions : List Action} {first rest : List ℕ} (h : TurnInv s)
    (hwaits : s.Waits i) (hrun : exec step s actions = some t)
    (hpicks : picks s actions = first ++ rest) (hnever : i ∉ first) :
    Turns cm2DmMsgCount i s.mailbox.nextIdRr first := by
  induction actions generalizing s first with
  | nil =>
    obtain ⟨rfl, -⟩ := List.append_eq_nil_iff.mp hpicks.symm
    exact .nil
  | cons a actions ih =>
    obtain ⟨u, hstep, hrest⟩ := exec_cons_some.mp hrun
    obtain ⟨hpointer, hkeep⟩ := @step_turn s u a i hstep
    rw [pointerAfter] at hpointer
    rw [picks, hstep] at hpicks
    cases hpick : pick s a with
    | none =>
      rw [hpick] at hpicks hpointer
      rw [← show u.mailbox.nextIdRr = s.mailbox.nextIdRr from hpointer]
      exact ih (step_turnInv h hstep) (hkeep hwaits (by simp [hpick])) hrest hpicks hnever
    | some k =>
      rw [hpick] at hpicks hpointer
      obtain ⟨hpending, hk⟩ := pick_eq_some hpick
      cases first with
      | nil => exact .nil
      | cons j first =>
        obtain ⟨rfl, htail⟩ : k = j ∧ picks u actions = first ++ rest := List.cons.inj hpicks
        rw [List.mem_cons, not_or] at hnever
        have hne : pick s a ≠ some i := by
          rw [hpick]
          exact fun heq => hnever.1 (Option.some.inj heq).symm
        have hturns := ih (step_turnInv h hstep) (hkeep hwaits hne) hrest htail hnever.2
        rw [hpointer] at hturns
        refine .cons ?_ (Ne.symm hnever.1) ?_ hturns
        · rw [hk]
          exact h.mailbox.pending_lt _ (nextIdRr_pending hpending)
        · rw [hk]
          exact nextIdRr_nearest h.mailbox.pending_lt h.pointer hwaits.1

-- ---
-- The result

/-- **Starvation freedom.** From a pick with `id` pending on, whenever another id is chosen a
second time, `id` was chosen before; and `id` is among the next `kCm2DmMsgCount` picks, once there
are that many. -/
theorem mailbox_starvation_free {actions : List Action} {s : World} {k : ℕ}
    (hrun : exec step World.start actions = some s) (hpick : pick s .smbus = some k)
    (id : Cm2DmMsgId) (hpending : s.pendingBit id = true) (more : List Action) (t : World)
    (hmore : exec step s (.smbus :: more) = some t) :
    (∀ j first rest, j ≠ id.toNat → picks s (.smbus :: more) = first ++ j :: rest → j ∈ first →
        id.toNat ∈ first) ∧
      (cm2DmMsgCount ≤ (picks s (.smbus :: more)).length →
        id.toNat ∈ (picks s (.smbus :: more)).take cm2DmMsgCount) := by
  have h : TurnInv s := exec_invariant (fun _ _ _ => step_turnInv) start_turnInv hrun
  have hwaits : s.Waits id.toNat := by
    refine ⟨hpending, fun hclear => ?_⟩
    simp [pick, hclear] at hpick
  constructor
  · intro j first rest hj hpicks htwice
    by_contra hnever
    have hsplit : picks s (.smbus :: more) = (first ++ [j]) ++ rest := by simp [hpicks]
    have hnever' : id.toNat ∉ first ++ [j] := by
      rw [List.mem_append, List.mem_singleton, not_or]
      exact ⟨hnever, hj.symm⟩
    have hnodup := (picks_turns h hwaits hmore hsplit hnever').nodup h.pointer id.toNat_lt
    exact (List.nodup_append.mp hnodup).2.2 j htwice j (by simp) rfl
  · intro hlength
    by_contra hnever
    have hturns := picks_turns h hwaits hmore (List.take_append_drop cm2DmMsgCount _).symm hnever
    have hshort := hturns.length_lt h.pointer id.toNat_lt
    rw [List.length_take, Nat.min_eq_left hlength] at hshort
    exact absurd hshort (lt_irrefl _)

def twoPosted : List Action :=
  [.store 0 .ping 7, .setBit 0, .store 0 .fanSpeedUpdate 35, .setBit 0, .req, .smbus]

def pingAgain : List Action :=
  List.replicate 7 .smbus ++ [.ack [2, 0], .smbus, .store 0 .ping 8, .setBit 0, .req] ++
    List.replicate 9 .smbus

theorem twoPosted_starvation_free : ∃ s t, exec step World.start twoPosted = some s ∧
    pick s .smbus = some 2 ∧ s.pendingBit .fanSpeedUpdate = true ∧
    exec step s (.smbus :: pingAgain) = some t ∧ picks s (.smbus :: pingAgain) = [2, 3] ∧
    (∀ j first rest, j ≠ 3 → picks s (.smbus :: pingAgain) = first ++ j :: rest → j ∈ first →
      3 ∈ first) := by
  refine ⟨_, _, rfl, rfl, rfl, rfl, rfl, ?_⟩
  exact (@mailbox_starvation_free twoPosted _ _ rfl rfl .fanSpeedUpdate rfl pingAgain _ rfl).1

end SystemFirmware.Cm2Dm
