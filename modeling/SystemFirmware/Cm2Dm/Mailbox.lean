import SystemFirmware.Cm2Dm.Definitions

/-!
# CM2DM mailbox — no lost update

A post stores the value before it sets the bit, a request clears the bit before it reads
the value. So once the posts of an id are over, its last value is still announced by the
pending bit, or in the hands of the request that cleared the bit, or in the last message
put for that id (`Inv.delivered`, `mailbox_no_lost_update`).
-/

namespace SystemFirmware.Cm2Dm

open Lib

-- ---
-- What the trace says

def lastStored (stored : List (Cm2DmMsgId × UInt32)) (id : Cm2DmMsgId) : Option UInt32 :=
  ((stored.filter fun p => p.1 = id).getLast?).map Prod.snd

def lastPut (put : List Cm2dmMessage) (id : Cm2DmMsgId) : Option Cm2dmMessage :=
  (put.filter fun m => m.msgId.toNat = id.toNat).getLast?

theorem lastStored_concat (stored : List (Cm2DmMsgId × UInt32)) (id other : Cm2DmMsgId)
    (data : UInt32) :
    lastStored (stored ++ [(id, data)]) other =
      if id = other then some data else lastStored stored other := by
  simp only [lastStored, List.filter_append]
  split <;> simp_all

theorem lastPut_concat (put : List Cm2dmMessage) (m : Cm2dmMessage) (id : Cm2DmMsgId) :
    lastPut (put ++ [m]) id = if m.msgId.toNat = id.toNat then some m else lastPut put id := by
  simp only [lastPut, List.filter_append]
  split <;> simp_all

def World.pendingBit (s : World) (id : Cm2DmMsgId) : Bool :=
  s.mailbox.pendingMessages.getLsbD id.toNat

/-- Some thread has stored its value for `id` and not yet set the bit. -/
def World.Posting (s : World) (id : Cm2DmMsgId) : Prop := ∃ thread, s.posting thread = some id

/-- What a request that cleared bit `id` is about to put: what it loaded, or will find. -/
def World.inTransit (s : World) (id : Cm2DmMsgId) : Option UInt32 :=
  match s.smbus with
  | .reqMsgId i | .reqSeqNum i | .reqLoad i =>
    if i = id.toNat then some (s.mailbox.nextMsgs i) else none
  | .reqData i data => if i = id.toNat then some data else none
  | .reqValid =>
    if s.mailbox.currMsg.msgId.toNat = id.toNat then some s.mailbox.currMsg.data else none
  | _ => none

/-- The value of `id` handed over last, by the request under way or the last message put. -/
def World.handedOver (s : World) (id : Cm2DmMsgId) : Option UInt32 :=
  (s.inTransit id).or ((lastPut s.trace.put id).map Cm2dmMessage.data)

-- ---
-- The invariant

def SmbusInv (s : World) : Prop :=
  let m := s.mailbox
  match s.smbus with
  | .idle | .reqTest => True
  | .reqGet => m.currMsgValid = false
  | .reqClear i | .reqMsgId i => m.currMsgValid = false ∧ i < cm2DmMsgCount
  | .reqSeqNum i | .reqLoad i | .reqData i _ =>
    m.currMsgValid = false ∧ i < cm2DmMsgCount ∧ m.currMsg.msgId = i.toUInt8
  | .reqValid => m.currMsgValid = false
  | .reqCopy => True
  | .ackClear => m.currMsgValid = false

structure Inv (s : World) : Prop where
  pending_lt : ∀ i, s.mailbox.pendingMessages.getLsbD i = true → i < cm2DmMsgCount
  smbus : SmbusInv s
  stored : ∀ id data, lastStored s.trace.stored id = some data → s.mailbox.nextMsgs id.toNat = data
  /-- **No lost update**, with the posts still under way. -/
  delivered : ∀ id data, lastStored s.trace.stored id = some data →
    s.pendingBit id = true ∨ s.Posting id ∨ s.handedOver id = some (s.mailbox.nextMsgs id.toNat)

theorem start_inv : Inv World.start where
  pending_lt := by
    intro i hi
    simp [World.start, Cm2DmMsgState.init] at hi
  smbus := trivial
  stored := by
    intro id data h
    simp [lastStored, World.start] at h
  delivered := by
    intro id data h
    simp [lastStored, World.start] at h

theorem nextIdRr_pending {rr : ℕ} {pending : BitVec 32} (h : pending ≠ 0) :
    pending.getLsbD (nextIdRr rr pending) = true := by
  simp only [nextIdRr]
  split
  · rename_i hhi
    have := (lowestSet_spec hhi).1
    rw [BitVec.getLsbD_and, Bool.and_eq_true] at this
    exact this.1
  · exact (lowestSet_spec h).1

variable {i : ℕ}

theorem toUInt8_toNat_of_lt (h : i < cm2DmMsgCount) : i.toUInt8.toNat = i := by
  rw [Nat.toUInt8_eq, UInt8.toNat_ofNat', Nat.mod_eq_of_lt]
  exact lt_trans h (by decide)

-- ---
-- Steps of the SMBus side

variable {s : World} {m : Cm2DmMsgState}

theorem Inv.move (h : Inv s) {smbus : SmbusPc} {trace : Trace}
    (hpending : m.pendingMessages = s.mailbox.pendingMessages)
    (hnext : m.nextMsgs = s.mailbox.nextMsgs) (hstored : trace.stored = s.trace.stored)
    (hpc : SmbusInv ⟨m, smbus, s.posting, trace⟩)
    (hover : ∀ id, World.handedOver ⟨m, smbus, s.posting, trace⟩ id = s.handedOver id) :
    Inv ⟨m, smbus, s.posting, trace⟩ where
  pending_lt := by
    intro i hi
    exact h.pending_lt i (hpending ▸ hi)
  smbus := hpc
  stored := by
    intro id data hid
    rw [hnext]
    exact h.stored id data (hstored ▸ hid)
  delivered := by
    intro id data hid
    have hold := h.delivered id data (hstored ▸ hid)
    rw [hover]
    simp only [World.pendingBit, World.Posting, hpending, hnext] at hold ⊢
    exact hold

theorem Inv.clear {m : Cm2DmMsgState} {i : ℕ} {posting : ℕ → Option Cm2DmMsgId} {trace : Trace}
    (h : Inv ⟨m, .reqClear i, posting, trace⟩) :
    Inv ⟨{ m with pendingMessages := clearBit m.pendingMessages i }, .reqMsgId i, posting, trace⟩ := by
  refine ⟨?_, h.smbus, h.stored, ?_⟩
  · intro j hj
    rw [getLsbD_clearBit, Bool.and_eq_true] at hj
    exact h.pending_lt j hj.1
  · intro id data hid
    by_cases hi : i = id.toNat
    · subst hi
      exact .inr (.inr (congrArg (Option.or · _) (if_pos rfl)))
    · have hkeep : (clearBit m.pendingMessages i).getLsbD id.toNat =
          m.pendingMessages.getLsbD id.toNat := by simp [getLsbD_clearBit, hi]
      have hnone : World.inTransit ⟨{ m with pendingMessages := clearBit m.pendingMessages i },
          .reqMsgId i, posting, trace⟩ id = none := if_neg hi
      rcases h.delivered id data hid with hbit | hpost | hover
      · exact .inl (hkeep.trans hbit)
      · exact .inr (.inl hpost)
      · refine .inr (.inr ?_)
        rw [World.handedOver, hnone]
        exact hover

variable {t : World}

theorem smbusStep_inv (h : Inv s) (hstep : smbusStep s = some t) : Inv t := by
  obtain ⟨m, smbus, posting, trace⟩ := s
  have hpc := h.smbus
  cases smbus with
  | idle => simp [smbusStep] at hstep
  | reqTest =>
    simp only [smbusStep, Option.some.injEq] at hstep
    subst hstep
    cases hv : m.currMsgValid with
    | true => exact h.move rfl rfl rfl trivial (fun _ => rfl)
    | false => exact h.move rfl rfl rfl hv (fun _ => rfl)
  | reqGet =>
    simp only [smbusStep] at hstep
    split at hstep
    · rename_i hne
      rw [Option.some.injEq] at hstep
      subst hstep
      exact h.move rfl rfl rfl ⟨hpc, h.pending_lt _ (nextIdRr_pending hne)⟩ (fun _ => rfl)
    · rw [Option.some.injEq] at hstep
      subst hstep
      exact h.move rfl rfl rfl trivial (fun _ => rfl)
  | reqClear i =>
    rw [smbusStep, Option.some.injEq] at hstep
    subst hstep
    exact h.clear
  | reqMsgId i =>
    rw [smbusStep, Option.some.injEq] at hstep
    subst hstep
    exact h.move rfl rfl rfl ⟨hpc.1, hpc.2, rfl⟩ (fun _ => rfl)
  | reqSeqNum i =>
    rw [smbusStep, Option.some.injEq] at hstep
    subst hstep
    exact h.move rfl rfl rfl hpc (fun _ => rfl)
  | reqLoad i =>
    rw [smbusStep, Option.some.injEq] at hstep
    subst hstep
    exact h.move rfl rfl rfl hpc (fun _ => rfl)
  | reqData i data =>
    rw [smbusStep, Option.some.injEq] at hstep
    subst hstep
    obtain ⟨hinvalid, hlt, (hmsg : m.currMsg.msgId = i.toUInt8)⟩ := hpc
    refine h.move rfl rfl rfl hinvalid (fun id => ?_)
    simp only [World.handedOver, World.inTransit, hmsg, toUInt8_toNat_of_lt hlt]
  | reqValid =>
    rw [smbusStep, Option.some.injEq] at hstep
    subst hstep
    refine h.move rfl rfl rfl trivial (fun id => ?_)
    -- the message under way becomes the last one put
    simp only [World.handedOver, World.inTransit, lastPut_concat]
    split <;> simp
  | reqCopy =>
    rw [smbusStep, Option.some.injEq] at hstep
    subst hstep
    exact h.move rfl rfl rfl trivial (fun _ => rfl)
  | ackClear =>
    rw [smbusStep, Option.some.injEq] at hstep
    subst hstep
    exact h.move rfl rfl rfl trivial (fun _ => rfl)

-- ---
-- Steps of the posting threads, whole runs

theorem SmbusInv.frame (h : SmbusInv s) (hsmbus : t.smbus = s.smbus)
    (hvalid : t.mailbox.currMsgValid = s.mailbox.currMsgValid)
    (hmsg : t.mailbox.currMsg = s.mailbox.currMsg) : SmbusInv t := by
  simp only [SmbusInv, hsmbus, hvalid, hmsg] at h ⊢
  exact h

variable {id : Cm2DmMsgId}

theorem handedOver_update (hi : id.toNat ≠ i) (data : UInt32) (posting : ℕ → Option Cm2DmMsgId)
    (stored : List (Cm2DmMsgId × UInt32)) :
    World.handedOver { s with
      mailbox := { s.mailbox with nextMsgs := Function.update s.mailbox.nextMsgs i data }
      posting := posting
      trace := { s.trace with stored := stored } } id = s.handedOver id := by
  have hkeep : ∀ j, (if j = id.toNat then
      some (Function.update s.mailbox.nextMsgs i data j) else none) =
      if j = id.toNat then some (s.mailbox.nextMsgs j) else none := by
    intro j
    split
    · rename_i hj
      rw [Function.update_of_ne (hj ▸ hi)]
    · rfl
  obtain ⟨m, smbus, _, trace⟩ := s
  cases smbus <;> simp only [World.handedOver, World.inTransit, hkeep]

theorem store_inv {thread : ℕ} {data : UInt32} (h : Inv s)
    (hstep : step s (.store thread id data) = some t) : Inv t := by
  obtain ⟨hfree, rfl⟩ := step_store_cases hstep
  have hslot : ∀ {other : Cm2DmMsgId}, id ≠ other → other.toNat ≠ id.toNat :=
    fun hne heq => hne (Cm2DmMsgId.toNat_inj heq).symm
  refine ⟨h.pending_lt, h.smbus.frame rfl rfl rfl, ?_, ?_⟩
  · intro other value hother
    simp only [lastStored_concat] at hother
    split at hother
    · rename_i heq
      subst heq
      simpa using hother
    · rename_i hne
      simp only [Function.update_of_ne (hslot hne)]
      exact h.stored other value hother
  · intro other value hother
    simp only [lastStored_concat] at hother
    split at hother
    · -- the post of this very value is under way
      rename_i heq
      subst heq
      exact .inr (.inl ⟨thread, Function.update_self ..⟩)
    · rename_i hne
      rw [handedOver_update (hslot hne)]
      simp only [Function.update_of_ne (hslot hne)]
      refine (h.delivered other value hother).imp_right (Or.imp_left ?_)
      rintro ⟨poster, hposter⟩
      have hother : poster ≠ thread := by
        rintro rfl
        simp [hfree] at hposter
      exact ⟨poster, (Function.update_of_ne hother ..).trans hposter⟩

theorem setBit_inv {thread : ℕ} (h : Inv s) (hstep : step s (.setBit thread) = some t) : Inv t := by
  obtain ⟨posted, hposted, rfl⟩ := step_setBit_cases hstep
  have hword : posted.toNat < 32 := lt_trans posted.toNat_lt (by decide)
  refine ⟨?_, h.smbus.frame rfl rfl rfl, h.stored, ?_⟩
  · intro i hi
    rw [getLsbD_setBit hword, Bool.or_eq_true, decide_eq_true_eq] at hi
    rcases hi with rfl | hi
    · exact posted.toNat_lt
    · exact h.pending_lt i hi
  · intro id data hid
    rcases h.delivered id data hid with hbit | ⟨poster, hposter⟩ | hover
    · refine .inl ?_
      rw [World.pendingBit, getLsbD_setBit hword, Bool.or_eq_true]
      exact .inr hbit
    · by_cases hsame : posted = id
      · subst hsame
        exact .inl (getLsbD_setBit_self hword)
      · have hother : poster ≠ thread := by
          rintro rfl
          exact hsame (Option.some.inj (hposted.symm.trans hposter))
        exact .inr (.inl ⟨poster, (Function.update_of_ne hother ..).trans hposter⟩)
    · exact .inr (.inr hover)

theorem handedOver_idle (hidle : s.smbus = .idle) :
    s.handedOver id = (lastPut s.trace.put id).map Cm2dmMessage.data := by
  rw [World.handedOver, World.inTransit, hidle, Option.none_or]

variable {data : List UInt8}

theorem step_inv {a : Action} (h : Inv s) (hstep : step s a = some t) : Inv t := by
  cases a with
  | store thread id data => exact store_inv h hstep
  | setBit thread => exact setBit_inv h hstep
  | req =>
    obtain ⟨hidle, rfl⟩ := step_req_cases hstep
    exact h.move rfl rfl rfl trivial (fun _ => (handedOver_idle hidle).symm)
  | ack data =>
    obtain ⟨hidle, ⟨-, rfl⟩ | ⟨-, rfl⟩⟩ := step_ack_cases hstep
    · exact h.move rfl rfl rfl rfl (fun _ => (handedOver_idle hidle).symm)
    · exact h
  | smbus => exact smbusStep_inv h hstep

theorem exec_inv {actions : List Action} (hrun : exec step World.start actions = some s) : Inv s :=
  exec_invariant (fun _ _ _ => step_inv) start_inv hrun

-- ---
-- The message stays until its ack

/-- `t` holds the valid message of `s`, and whatever was returned in between was
that message. -/
def KeepsMessage (s t : World) : Prop :=
  t.mailbox.currMsgValid = true ∧ t.mailbox.currMsg = s.mailbox.currMsg ∧
    ∃ n, t.trace.returned = s.trace.returned ++ List.replicate n s.mailbox.currMsg

theorem KeepsMessage.refl (h : s.mailbox.currMsgValid = true) : KeepsMessage s s :=
  ⟨h, rfl, 0, by simp⟩

theorem KeepsMessage.trans {u : World} (hst : KeepsMessage s t) (htu : KeepsMessage t u) :
    KeepsMessage s u := by
  obtain ⟨_, hmsg, n, hn⟩ := hst
  obtain ⟨hvalid, hmsg', k, hk⟩ := htu
  refine ⟨hvalid, hmsg'.trans hmsg, n + k, ?_⟩
  rw [hk, hn, hmsg, List.append_assoc, List.replicate_append_replicate]

theorem ackMatches_iff :
    ackMatches m data = true ↔
      m.currMsgValid = true ∧ data = [m.currMsg.msgId, m.currMsg.seqNum] := by
  unfold ackMatches
  split
  · simp only [Bool.and_eq_true, beq_iff_eq, List.cons.injEq, and_true, and_assoc]
  · rename_i hshape
    refine ⟨by simp, ?_⟩
    rintro ⟨_, rfl⟩
    exact absurd rfl (hshape _ _)

theorem step_ack_of_not_matches {s t : World} {data : List UInt8}
    (hstep : step s (.ack data) = some t)
    (hno : ¬ (s.mailbox.currMsgValid = true ∧
      data = [s.mailbox.currMsg.msgId, s.mailbox.currMsg.seqNum])) : t = s := by
  rw [← ackMatches_iff] at hno
  obtain ⟨-, ⟨hmatch, -⟩ | ⟨-, heq⟩⟩ := step_ack_cases hstep
  · exact absurd hmatch hno
  · exact heq

theorem step_keeps_message {a : Action} (h : Inv s) (hvalid : s.mailbox.currMsgValid = true)
    (hstep : step s a = some t)
    (hack : a ≠ .ack [s.mailbox.currMsg.msgId, s.mailbox.currMsg.seqNum]) : KeepsMessage s t := by
  cases a with
  | store thread id data =>
    obtain ⟨-, rfl⟩ := step_store_cases hstep
    exact KeepsMessage.refl hvalid
  | setBit thread =>
    obtain ⟨-, -, rfl⟩ := step_setBit_cases hstep
    exact KeepsMessage.refl hvalid
  | req =>
    obtain ⟨-, rfl⟩ := step_req_cases hstep
    exact KeepsMessage.refl hvalid
  | ack data =>
    have hno : ¬ (s.mailbox.currMsgValid = true ∧
        data = [s.mailbox.currMsg.msgId, s.mailbox.currMsg.seqNum]) :=
      fun hmatch => hack (congrArg Action.ack hmatch.2)
    rw [step_ack_of_not_matches hstep hno]
    exact KeepsMessage.refl hvalid
  | smbus =>
    -- a valid message is seen only at the points that do not write to it
    obtain ⟨m, smbus, posting, trace⟩ := s
    obtain (hvalid : m.currMsgValid = true) := hvalid
    have hpc := h.smbus
    cases smbus with
    | reqTest =>
      rw [step, smbusStep, Option.some.injEq] at hstep
      exact hstep ▸ ⟨hvalid, rfl, 0, by simp⟩
    | reqCopy =>
      rw [step, smbusStep, Option.some.injEq] at hstep
      exact hstep ▸ ⟨hvalid, rfl, 1, rfl⟩
    | idle => simp [step, smbusStep] at hstep
    | reqClear | reqMsgId | reqSeqNum | reqLoad | reqData =>
      exact absurd (hvalid.symm.trans hpc.1) (by simp)
    | reqGet | reqValid | ackClear => exact absurd (hvalid.symm.trans hpc) (by simp)

theorem exec_keeps_message {actions : List Action} (h : Inv s)
    (hvalid : s.mailbox.currMsgValid = true) (hrun : exec step s actions = some t)
    (hack : .ack [s.mailbox.currMsg.msgId, s.mailbox.currMsg.seqNum] ∉ actions) :
    KeepsMessage s t := by
  induction actions generalizing s with
  | nil =>
    rw [exec_nil, Option.some.injEq] at hrun
    exact hrun ▸ KeepsMessage.refl hvalid
  | cons a rest ih =>
    obtain ⟨u, hstep, hrest⟩ := exec_cons_some.mp hrun
    rw [List.mem_cons, not_or] at hack
    have hkeep := step_keeps_message h hvalid hstep (Ne.symm hack.1)
    refine hkeep.trans (ih (step_inv h hstep) hkeep.1 hrest ?_)
    rw [hkeep.2.1]
    exact hack.2

-- ---
-- The result

/-- The last value of `id`: its bit is set, or the request that cleared it is going to put this
value, or the last message put for `id` carries it. -/
def NotLost (s : World) (id : Cm2DmMsgId) (data : UInt32) : Prop :=
  s.pendingBit id = true ∨ s.inTransit id = some data ∨
    ∃ m, lastPut s.trace.put id = some m ∧ m.data = data

theorem Inv.not_lost (h : Inv s) {data : UInt32} (hdone : ¬ s.Posting id)
    (hlast : lastStored s.trace.stored id = some data) : NotLost s id data := by
  rcases h.delivered id data hlast with hbit | hpost | hover
  · exact .inl hbit
  · exact absurd hpost hdone
  · rw [h.stored id data hlast, World.handedOver, Option.or_eq_some_iff] at hover
    rcases hover with htransit | ⟨-, hput⟩
    · exact .inr (.inl htransit)
    · exact .inr (.inr (Option.map_eq_some_iff.mp hput))

/-- **No lost update.** In every reachable state, once the posts of an id are
over its last value is not lost, a valid message is the only one returned until
the ack that names it, and every other ack leaves the state as it is. -/
theorem mailbox_no_lost_update {actions : List Action} {s : World}
    (hrun : exec step World.start actions = some s) :
    (∀ id data, ¬ s.Posting id → lastStored s.trace.stored id = some data → NotLost s id data) ∧
    (s.mailbox.currMsgValid = true → ∀ more t, exec step s more = some t →
      .ack [s.mailbox.currMsg.msgId, s.mailbox.currMsg.seqNum] ∉ more → KeepsMessage s t) ∧
    (∀ data t, step s (.ack data) = some t →
      ¬ (s.mailbox.currMsgValid = true ∧
        data = [s.mailbox.currMsg.msgId, s.mailbox.currMsg.seqNum]) → t = s) := by
  have h := exec_inv hrun
  refine ⟨?_, ?_, ?_⟩
  · intro id data hdone hlast
    exact h.not_lost hdone hlast
  · intro hvalid more t hmore hack
    exact exec_keeps_message h hvalid hmore hack
  · intro data t hstep hno
    exact step_ack_of_not_matches hstep hno

def pingTaken : List Action :=
  [.store 0 .ping 7, .setBit 0, .req, .smbus, .smbus, .smbus]

/-- A finished post whose bit is clear again and whose message is not put yet. -/
theorem posted_value_in_transit : ∃ s, exec step World.start pingTaken = some s ∧
    ¬ s.Posting .ping ∧ lastStored s.trace.stored .ping = some 7 ∧
    s.pendingBit .ping = false ∧ lastPut s.trace.put .ping = none := by
  refine ⟨_, rfl, ?_, rfl, by decide, rfl⟩
  rintro ⟨thread, hposting⟩
  simp [Function.update_apply, World.start] at hposting

theorem pingTaken_no_lost_update : ∃ s,
    exec step World.start (pingTaken ++ List.replicate 5 .smbus) = some s ∧
    s.mailbox.currMsgValid = true ∧
    (∀ id data, ¬ s.Posting id → lastStored s.trace.stored id = some data →
      NotLost s id data) := by
  refine ⟨_, rfl, rfl, ?_⟩
  exact (@mailbox_no_lost_update (pingTaken ++ List.replicate 5 .smbus) _ rfl).1

end SystemFirmware.Cm2Dm
