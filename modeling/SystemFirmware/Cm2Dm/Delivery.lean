import Mathlib.Data.List.Nodup
import SystemFirmware.Cm2Dm.Dmc
import SystemFirmware.Cm2Dm.Mailbox

/-!
# CM2DM messages — exactly once, in order

A stop-and-wait protocol: the SMC holds one message until its ack, so at most one instance
is put and not retired. The DMC is at most one instance behind or ahead of its acks:
outside of a round, the instances dispatched are at least those retired and at most those
put. Neighbouring instances differ in their 8-bit sequence number, so comparing with the
last one tells the held instance from the one before (`cm2dm_exactly_once`).
-/

namespace SystemFirmware.Cm2Dm.Dmc

open Lib

-- ---
-- Sequence numbers of the SMC

def FillInv (s : World) : Prop :=
  let m := s.mailbox
  match s.smbus with
  | .idle | .reqTest | .reqGet | .reqClear _ | .reqMsgId _ | .reqCopy =>
    m.nextSeqNum = UInt8.ofNat s.trace.put.length ∧ (m.currMsgValid = false → m.currMsg.msgId = 0)
  | .reqSeqNum _ => m.nextSeqNum = UInt8.ofNat s.trace.put.length
  | .reqLoad _ | .reqData _ _ | .reqValid =>
    m.nextSeqNum = UInt8.ofNat (s.trace.put.length + 1) ∧
      m.currMsg.seqNum = UInt8.ofNat s.trace.put.length ∧ m.currMsg.msgId.toNat < cm2DmMsgCount
  | .ackClear => m.nextSeqNum = UInt8.ofNat s.trace.put.length

/-- Instance `k` has sequence number `k`, modulo 256, and at most one instance is
not retired: the one in `curr_msg`. -/
structure Numbered (s : World) : Prop where
  seqNum : ∀ k m, s.trace.put[k]? = some m → m.seqNum = UInt8.ofNat k
  msgId : ∀ m ∈ s.trace.put, m.msgId.toNat < cm2DmMsgCount
  fill : FillInv s
  valid : s.mailbox.currMsgValid = true →
    s.trace.put.length = s.trace.retired + 1 ∧
      s.trace.put[s.trace.retired]? = some s.mailbox.currMsg
  invalid : s.mailbox.currMsgValid = false → s.trace.put.length = s.trace.retired

theorem numbered_start : Numbered World.start where
  seqNum := by simp [World.start]
  msgId := by simp [World.start]
  fill := ⟨rfl, fun _ => rfl⟩
  valid := by simp [World.start, Cm2DmMsgState.init]
  invalid := fun _ => rfl

section

variable {s t : World}

theorem Numbered.move (h : Numbered s) (hfill : FillInv t)
    (hput : t.trace.put = s.trace.put) (hretired : t.trace.retired = s.trace.retired)
    (hvalid : t.mailbox.currMsgValid = s.mailbox.currMsgValid)
    (hmsg : s.mailbox.currMsgValid = true → t.mailbox.currMsg = s.mailbox.currMsg) :
    Numbered t where
  seqNum := hput ▸ h.seqNum
  msgId := hput ▸ h.msgId
  fill := hfill
  valid := by
    intro hv
    rw [hvalid] at hv
    rw [hput, hretired, hmsg hv]
    exact h.valid hv
  invalid := by
    intro hv
    rw [hvalid] at hv
    rw [hput, hretired]
    exact h.invalid hv

theorem ofNat_succ {n : ℕ} : UInt8.ofNat n + 1 = UInt8.ofNat (n + 1) := by
  rw [UInt8.ofNat_add]
  rfl

theorem ofNat_ne_succ {n : ℕ} : UInt8.ofNat n ≠ UInt8.ofNat (n + 1) := by
  intro heq
  have := congrArg UInt8.toNat heq
  rw [UInt8.toNat_ofNat', UInt8.toNat_ofNat'] at this
  omega

theorem numbered_reqValid (h : Numbered s) (hinv : Inv s) (hpc : s.smbus = .reqValid) :
    Numbered { s with
      smbus := .reqCopy
      mailbox := { s.mailbox with currMsgValid := true }
      trace := { s.trace with put := s.trace.put ++ [s.mailbox.currMsg] } } := by
  have hfill := h.fill
  have hold := hinv.smbus
  simp only [FillInv, hpc] at hfill
  simp only [SmbusInv, hpc] at hold
  obtain ⟨hnext, hseq, hid⟩ := hfill
  have hcount := h.invalid hold
  refine ⟨?_, ?_, ⟨?_, by simp⟩, ?_, by simp⟩
  · intro k m hk
    rcases Nat.lt_trichotomy k s.trace.put.length with hlt | rfl | hgt
    · rw [List.getElem?_append_left hlt] at hk
      exact h.seqNum k m hk
    · rw [List.getElem?_concat_length] at hk
      rw [← Option.some.inj hk, hseq]
    · rw [List.getElem?_eq_none (by simp; omega)] at hk
      simp at hk
  · intro m hm
    rcases List.mem_append.mp hm with hm | hm
    · exact h.msgId m hm
    · rw [List.mem_singleton.mp hm]
      exact hid
  · simpa using hnext
  · intro _
    refine ⟨by simp [hcount], ?_⟩
    show (s.trace.put ++ [s.mailbox.currMsg])[s.trace.retired]? = some s.mailbox.currMsg
    rw [← hcount, List.getElem?_concat_length]

theorem numbered_smbus (h : Numbered s) (hinv : Inv s) (hstep : smbusStep s = some t) :
    Numbered t := by
  have hfill := h.fill
  have hold := hinv.smbus
  obtain ⟨m, smbus, posting, trace⟩ := s
  unfold smbusStep at hstep
  rcases smbus
  case idle => simp at hstep
  all_goals simp only [FillInv] at hfill
  all_goals simp only [SmbusInv] at hold
  case reqGet =>
    simp only at hstep
    split at hstep
    all_goals
      simp only [Option.some.injEq] at hstep
      subst hstep
      exact h.move hfill rfl rfl rfl fun _ => rfl
  all_goals
    simp only [Option.some.injEq] at hstep
    subst hstep
  case reqTest =>
    refine h.move ?_ rfl rfl rfl fun _ => rfl
    rcases hv : m.currMsgValid <;> simp only [FillInv, hv] <;> simpa [hv] using hfill
  case reqMsgId i =>
    exact h.move hfill.1 rfl rfl rfl fun hv => absurd (hv.symm.trans hold.1) (by simp)
  case reqSeqNum i =>
    refine h.move ⟨?_, hfill, ?_⟩ rfl rfl rfl fun hv => absurd (hv.symm.trans hold.1) (by simp)
    · show m.nextSeqNum + 1 = _
      rw [hfill, ofNat_succ]
    · show m.currMsg.msgId.toNat < cm2DmMsgCount
      rw [hold.2.2, toUInt8_toNat_of_lt hold.2.1]
      exact hold.2.1
  case reqData i data =>
    exact h.move hfill rfl rfl rfl fun hv => absurd (hv.symm.trans hold.1) (by simp)
  case reqValid => exact numbered_reqValid h hinv rfl
  case ackClear =>
    exact h.move ⟨hfill, fun _ => rfl⟩ rfl rfl rfl fun hv => absurd (hv.symm.trans hold) (by simp)
  case reqClear | reqLoad | reqCopy => exact h.move hfill rfl rfl rfl fun _ => rfl

/-- The threads that post do not touch the current message. -/
structure SameMessage (s t : World) : Prop where
  smbus : t.smbus = s.smbus
  nextSeqNum : t.mailbox.nextSeqNum = s.mailbox.nextSeqNum
  valid : t.mailbox.currMsgValid = s.mailbox.currMsgValid
  msg : t.mailbox.currMsg = s.mailbox.currMsg
  put : t.trace.put = s.trace.put
  retired : t.trace.retired = s.trace.retired

theorem sameMessage_store {thread : ℕ} {id : Cm2DmMsgId} {data : UInt32}
    (hstep : Cm2Dm.step s (.store thread id data) = some t) : SameMessage s t := by
  obtain ⟨-, rfl⟩ := step_store_cases hstep
  exact ⟨rfl, rfl, rfl, rfl, rfl, rfl⟩

theorem sameMessage_setBit {thread : ℕ} (hstep : Cm2Dm.step s (.setBit thread) = some t) :
    SameMessage s t := by
  obtain ⟨-, -, rfl⟩ := step_setBit_cases hstep
  exact ⟨rfl, rfl, rfl, rfl, rfl, rfl⟩

theorem SameMessage.numbered (h : SameMessage s t) (hn : Numbered s) : Numbered t := by
  refine hn.move ?_ h.put h.retired h.valid fun _ => h.msg
  have hfill := hn.fill
  simp only [FillInv, h.smbus, h.nextSeqNum, h.valid, h.msg, h.put] at hfill ⊢
  exact hfill

theorem numbered_req (h : Numbered s) (hstep : Cm2Dm.step s .req = some t) : Numbered t := by
  obtain ⟨hidle, rfl⟩ := step_req_cases hstep
  have hfill := h.fill
  simp only [FillInv, hidle] at hfill
  exact h.move hfill rfl rfl rfl fun _ => rfl

/-- The SMC has an instance for the DMC and no handler runs. -/
structure Held (s : World) (msg : Cm2dmMessage) (k : ℕ) : Prop where
  smbus : s.smbus = .idle
  valid : s.mailbox.currMsgValid = true
  count : s.trace.put.length = k + 1
  msg : s.mailbox.currMsg = msg

variable {msg : Cm2dmMessage} {k : ℕ}

theorem Held.retired (h : Held s msg k) (hn : Numbered s) :
    s.trace.retired = k ∧ s.trace.put[k]? = some msg := by
  obtain ⟨hcount, hget⟩ := hn.valid h.valid
  have hk : s.trace.retired = k := by
    have := h.count
    omega
  exact ⟨hk, by rw [← hk, hget, h.msg]⟩

theorem Held.ack (h : Held s msg k) (hstep : Cm2Dm.step s (.ack [msg.msgId, msg.seqNum]) = some t) :
    t = { s with
      smbus := .ackClear
      mailbox := { s.mailbox with currMsgValid := false }
      trace := { s.trace with retired := s.trace.retired + 1 } } := by
  have hmatch : ackMatches s.mailbox [msg.msgId, msg.seqNum] = true :=
    ackMatches_iff.mpr ⟨h.valid, by rw [h.msg]⟩
  obtain ⟨-, ⟨-, heq⟩ | ⟨hno, -⟩⟩ := step_ack_cases hstep
  · exact heq
  · exact absurd (hmatch.symm.trans hno) (by simp)

theorem Held.numbered_ack (h : Held s msg k) (hn : Numbered s)
    (hstep : Cm2Dm.step s (.ack [msg.msgId, msg.seqNum]) = some t) : Numbered t := by
  rw [h.ack hstep]
  have hfill := hn.fill
  simp only [FillInv, h.smbus] at hfill
  exact ⟨hn.seqNum, hn.msgId, hfill.1, by simp, fun _ => (hn.valid h.valid).1⟩

theorem smbus_effect (hstep : smbusStep s = some t) :
    t.trace.retired = s.trace.retired ∧
      (t.trace.put = s.trace.put ∨
        s.smbus = .reqValid ∧ t.trace.put = s.trace.put ++ [s.mailbox.currMsg]) := by
  unfold smbusStep at hstep
  rcases hpc : s.smbus
  all_goals simp only [hpc] at hstep
  case idle => simp at hstep
  case reqGet =>
    split at hstep
    all_goals
      rw [← Option.some.inj hstep]
      exact ⟨rfl, .inl rfl⟩
  case reqValid =>
    rw [← Option.some.inj hstep]
    exact ⟨rfl, .inr ⟨rfl, rfl⟩⟩
  all_goals
    rw [← Option.some.inj hstep]
    exact ⟨rfl, .inl rfl⟩

end

-- ---
-- The two sides

def Between (s : System) : Prop :=
  s.smc.trace.retired ≤ s.dispatched.length ∧ s.dispatched.length ≤ s.smc.trace.put.length

/-- Where the DMC is in a round. Between the ack and the duplicate check it can be
one instance behind the acks. -/
def RoundInv (s : System) : Prop :=
  match s.pc with
  | .idle | .request _ | .resetting => Between s
  | .reading _ => Between s ∧ ∀ msg k, s.reply = some (msg, k) →
      s.smc.smbus = .idle ∧ (msg.msgId ≠ 0 → Held s.smc msg k)
  | .acking _ msg k => Between s ∧ Held s.smc msg k ∧ msg.msgId ≠ 0
  | .checking _ msg k => (s.smc.smbus = .idle ∨ s.smc.smbus = .ackClear) ∧
      s.smc.trace.put.length = k + 1 ∧ s.smc.trace.retired ≤ k + 1 ∧
      s.smc.trace.put[k]? = some msg ∧ msg.msgId ≠ 0 ∧
      k ≤ s.dispatched.length ∧ s.dispatched.length ≤ k + 1

/-- What the DMC has dispatched, and what it remembers of it. -/
structure Dispatched (s : System) : Prop where
  inOrder : s.dispatched.map Prod.fst = List.range s.dispatched.length
  message : ∀ k msg, (k, msg) ∈ s.dispatched → s.smc.trace.put[k]? = some msg
  valid : s.lastCm2dmSeqNumValid = true ↔ 0 < s.dispatched.length
  seqNum : 0 < s.dispatched.length →
    s.lastCm2dmSeqNum = UInt8.ofNat (s.dispatched.length - 1)

structure Linked (s : System) : Prop where
  mailbox : Inv s.smc
  numbered : Numbered s.smc
  dispatched : Dispatched s
  round : RoundInv s

theorem linked_start {lastSeqNum : UInt8} : Linked (System.start lastSeqNum) where
  mailbox := start_inv
  numbered := numbered_start
  dispatched := ⟨rfl, by simp [System.start], by simp [System.start], by simp [System.start]⟩
  round := ⟨Nat.le_refl _, Nat.le_refl _⟩

section

variable {s t : System} {smc : World}

theorem Dispatched.mono (h : Dispatched s) {reply : Option (Cm2dmMessage × ℕ)} {pc : DmcPc}
    (hput : ∀ (k : ℕ) msg, s.smc.trace.put[k]? = some msg → smc.trace.put[k]? = some msg) :
    Dispatched { s with smc := smc, pc := pc, reply := reply } :=
  ⟨h.inOrder, fun k msg hmem => hput k msg (h.message k msg hmem), h.valid, h.seqNum⟩

theorem linked_sameMessage (h : Linked s) (hsame : SameMessage s.smc smc) (hinv : Inv smc) :
    Linked { s with smc := smc } where
  mailbox := hinv
  numbered := hsame.numbered h.numbered
  dispatched := by
    refine h.dispatched.mono ?_
    intro k msg hk
    rw [hsame.put]
    exact hk
  round := by
    have hround := h.round
    have hheld : ∀ msg k, Held s.smc msg k → Held smc msg k := by
      rintro msg k ⟨hsmbus, hvalid, hcount, hmsg⟩
      exact ⟨hsame.smbus.trans hsmbus, hsame.valid.trans hvalid, by rw [hsame.put, hcount],
        hsame.msg.trans hmsg⟩
    unfold RoundInv Between at *
    rcases hpc : s.pc
    all_goals simp only [hpc, hsame.put, hsame.retired, hsame.smbus] at hround ⊢
    case reading i =>
      refine ⟨hround.1, ?_⟩
      intro msg k hreply
      obtain ⟨hidle, himp⟩ := hround.2 msg k hreply
      exact ⟨hidle, fun hne => hheld msg k (himp hne)⟩
    case acking i msg k => exact ⟨hround.1, hheld msg k hround.2.1, hround.2.2⟩
    all_goals exact hround

variable {k : ℕ} {msg : Cm2dmMessage}

theorem put_of_smbus (hstep : smbusStep s.smc = some smc) (hk : s.smc.trace.put[k]? = some msg) :
    smc.trace.put[k]? = some msg := by
  rcases (smbus_effect hstep).2 with hput | ⟨-, hput⟩
  · rw [hput, hk]
  · rw [hput, List.getElem?_append_left (List.getElem?_eq_some_iff.mp hk).1, hk]

theorem held_of_reqCopy (hn : Numbered s.smc) (hpc : s.smc.smbus = .reqCopy)
    (hstep : smbusStep s.smc = some smc) :
    smc.smbus = .idle ∧ (s.smc.mailbox.currMsg.msgId ≠ 0 →
      Held smc s.smc.mailbox.currMsg (s.smc.trace.put.length - 1)) := by
  have hfill := hn.fill
  simp only [FillInv, hpc] at hfill
  simp only [smbusStep, hpc, Option.some.injEq] at hstep
  subst hstep
  refine ⟨rfl, ?_⟩
  intro hne
  have hvalid : s.smc.mailbox.currMsgValid = true := by
    by_contra hv
    exact hne (hfill.2 (Bool.eq_false_iff.mpr hv))
  refine ⟨rfl, hvalid, ?_, rfl⟩
  show s.smc.trace.put.length = s.smc.trace.put.length - 1 + 1
  have := (hn.valid hvalid).1
  omega

theorem linked_smbus (h : Linked s) (hstep : smbusStep s.smc = some smc) :
    Linked { s with
      smc := smc
      reply := if s.smc.smbus = .reqCopy then
        some (s.smc.mailbox.currMsg, s.smc.trace.put.length - 1) else s.reply } where
  mailbox := smbusStep_inv h.mailbox hstep
  numbered := numbered_smbus h.numbered h.mailbox hstep
  dispatched := h.dispatched.mono fun _ _ hk => put_of_smbus hstep hk
  round := by
    have hround := h.round
    obtain ⟨hretired, hput⟩ := smbus_effect hstep
    have hgrow : s.smc.trace.put.length ≤ smc.trace.put.length := by
      rcases hput with hput | ⟨-, hput⟩ <;> rw [hput]
      simp
    have hbusy : s.smc.smbus ≠ .idle := by
      intro hidle
      simp [smbusStep, hidle] at hstep
    have hbetween : Between s → smc.trace.retired ≤ s.dispatched.length ∧
        s.dispatched.length ≤ smc.trace.put.length := by
      rintro ⟨hlo, hhi⟩
      exact ⟨by omega, by omega⟩
    unfold RoundInv at *
    rcases hpc : s.pc
    all_goals simp only [hpc] at hround ⊢
    case idle | request | resetting => exact hbetween hround
    case reading i =>
      refine ⟨hbetween hround.1, ?_⟩
      intro msg k hreply
      by_cases hcopy : s.smc.smbus = .reqCopy
      · rw [if_pos hcopy, Option.some.injEq, Prod.mk.injEq] at hreply
        obtain ⟨rfl, rfl⟩ := hreply
        exact held_of_reqCopy h.numbered hcopy hstep
      · -- an earlier reply would mean that no handler runs
        rw [if_neg hcopy] at hreply
        exact absurd (hround.2 msg k hreply).1 hbusy
    case acking i msg k => exact absurd hround.2.1.smbus hbusy
    case checking i msg k =>
      obtain ⟨hquiet, hcount, hle, hget, hrest⟩ := hround
      have hclear : s.smc.smbus = .ackClear := hquiet.resolve_left hbusy
      have hsame : smc.trace.put = s.smc.trace.put := by
        rcases hput with hput | ⟨hvalid, -⟩
        · exact hput
        · simp [hclear] at hvalid
      have hidle : smc.smbus = .idle := by
        simp only [smbusStep, hclear, Option.some.injEq] at hstep
        rw [← hstep]
      rw [hsame, hretired]
      exact ⟨.inl hidle, hcount, hle, hget, hrest⟩

-- ---
-- Steps of the DMC

theorem Linked.goTo (h : Linked s) {pc : DmcPc} (hround : RoundInv { s with pc := pc }) :
    Linked { s with pc := pc } :=
  ⟨h.mailbox, h.numbered, h.dispatched.mono fun _ _ hk => hk, hround⟩

variable {i : ℕ}

theorem linked_request (h : Linked s) (hpc : s.pc = .request i)
    (hstep : Cm2Dm.step s.smc .req = some smc) :
    Linked { s with smc := smc, pc := .reading i, reply := none } := by
  have hround := h.round
  simp only [RoundInv, hpc] at hround
  have hinv := Cm2Dm.step_inv h.mailbox hstep
  have hnumbered := numbered_req h.numbered hstep
  obtain ⟨-, rfl⟩ := step_req_cases hstep
  exact ⟨hinv, hnumbered, h.dispatched.mono fun _ _ hk => hk, hround, by simp⟩

theorem linked_ack (h : Linked s) (hpc : s.pc = .acking i msg k)
    (hsmc : smc = s.smc ∨ Cm2Dm.step s.smc (.ack [msg.msgId, msg.seqNum]) = some smc) :
    Linked { s with smc := smc, pc := .checking i msg k } := by
  have hround := h.round
  simp only [RoundInv, hpc] at hround
  obtain ⟨⟨hlo, hhi⟩, hheld, hne⟩ := hround
  obtain ⟨hretired, hget⟩ := hheld.retired h.numbered
  have hcount := hheld.count
  have hbehind : k ≤ s.dispatched.length := by omega
  have hahead : s.dispatched.length ≤ k + 1 := by omega
  rcases hsmc with rfl | hstep
  · exact ⟨h.mailbox, h.numbered, h.dispatched.mono fun _ _ hk => hk, .inl hheld.smbus, hcount,
      hretired.le.trans (Nat.le_succ k), hget, hne, hbehind, hahead⟩
  · have hinv := Cm2Dm.step_inv h.mailbox hstep
    have hnumbered := hheld.numbered_ack h.numbered hstep
    have heffect := hheld.ack hstep
    subst heffect
    exact ⟨hinv, hnumbered, h.dispatched.mono fun _ _ hk => hk, .inr rfl, hcount,
      Nat.succ_le_succ hretired.le, hget, hne, hbehind, hahead⟩

theorem duplicate_iff (h : Linked s) (hpc : s.pc = .checking i msg k) :
    (s.lastCm2dmSeqNumValid = true ∧ s.lastCm2dmSeqNum = msg.seqNum) ↔
      s.dispatched.length = k + 1 := by
  have hround := h.round
  simp only [RoundInv, hpc] at hround
  obtain ⟨-, -, -, hget, -, hlo, hhi⟩ := hround
  have hseq := h.numbered.seqNum k msg hget
  constructor
  · rintro ⟨hvalid, hlast⟩
    have hpos := h.dispatched.valid.mp hvalid
    by_contra hne
    have hk : s.dispatched.length = k := by omega
    -- the instance before it has another sequence number
    rw [h.dispatched.seqNum hpos, hseq] at hlast
    obtain ⟨j, rfl⟩ : ∃ j, k = j + 1 := ⟨k - 1, by omega⟩
    rw [hk, Nat.add_sub_cancel] at hlast
    exact ofNat_ne_succ hlast
  · intro hdone
    have hpos : 0 < s.dispatched.length := by omega
    refine ⟨h.dispatched.valid.mpr hpos, ?_⟩
    rw [h.dispatched.seqNum hpos, hseq, hdone, Nat.add_sub_cancel]

theorem hasProcessor_of_checking (h : Linked s) (hpc : s.pc = .checking i msg k) :
    hasProcessor msg.msgId = true := by
  have hround := h.round
  simp only [RoundInv, hpc] at hround
  obtain ⟨-, -, -, hget, hne, -⟩ := hround
  have hlt := h.numbered.msgId msg (List.mem_of_getElem? hget)
  simp [hasProcessor, hlt, hne]

variable {answer : Answer}

theorem dispatch_of_checking (h : Linked s) (hpc : s.pc = .checking i msg k)
    (hnew : s.dispatched.length ≠ k + 1) :
    processMessage s i msg k answer = { s with
      lastCm2dmSeqNumValid := true
      lastCm2dmSeqNum := msg.seqNum
      pc := afterProcessor i answer
      dispatched := s.dispatched ++ [(k, msg)] } := by
  rw [processMessage, if_neg (mt (duplicate_iff h hpc).mp hnew)]
  simp only [hasProcessor_of_checking h hpc, if_true]

theorem roundInv_nextRound (h : Between s) : RoundInv { s with pc := nextRound i } := by
  unfold nextRound
  split <;> exact h

theorem roundInv_afterProcessor (h : Between s) :
    RoundInv { s with pc := afterProcessor i answer } := by
  rcases answer
  · exact roundInv_nextRound h
  · exact h
  · exact h

theorem linked_check (h : Linked s) (hpc : s.pc = .checking i msg k) :
    Linked (processMessage s i msg k answer) := by
  have hround := h.round
  simp only [RoundInv, hpc] at hround
  obtain ⟨-, hcount, hretired, hget, -, hlo, hhi⟩ := hround
  by_cases hdone : s.dispatched.length = k + 1
  · rw [processMessage, if_pos ((duplicate_iff h hpc).mpr hdone)]
    exact h.goTo (roundInv_nextRound ⟨by omega, by omega⟩)
  · have hk : s.dispatched.length = k := by omega
    rw [dispatch_of_checking h hpc hdone]
    refine ⟨h.mailbox, h.numbered, ⟨?_, ?_, by simp, ?_⟩, ?_⟩
    · simp only [List.map_append, List.map_singleton, List.length_append, List.length_singleton,
        List.range_succ, h.dispatched.inOrder, hk]
    · intro j m hmem
      rcases List.mem_append.mp hmem with hmem | hmem
      · exact h.dispatched.message j m hmem
      · obtain ⟨rfl, rfl⟩ := Prod.mk.inj (List.mem_singleton.mp hmem)
        exact hget
    · intro _
      show msg.seqNum = _
      rw [h.numbered.seqNum k msg hget, List.length_append, List.length_singleton, hk,
        Nat.add_sub_cancel]
    · refine roundInv_afterProcessor (s := { s with
        lastCm2dmSeqNumValid := true
        lastCm2dmSeqNum := msg.seqNum
        dispatched := s.dispatched ++ [(k, msg)] }) ⟨?_, ?_⟩
      · show s.smc.trace.retired ≤ (s.dispatched ++ [(k, msg)]).length
        rw [List.length_append, List.length_singleton]
        omega
      · show (s.dispatched ++ [(k, msg)]).length ≤ s.smc.trace.put.length
        rw [List.length_append, List.length_singleton]
        omega

theorem linked_readOk (h : Linked s) (hstep : step s .readOk = some t) : Linked t := by
  have hround := h.round
  simp only [step] at hstep
  split at hstep
  · rename_i i msg k hpc hreply
    simp only [RoundInv, hpc] at hround
    split at hstep
    · rw [← Option.some.inj hstep]
      exact h.goTo hround.1
    · rename_i hne
      rw [← Option.some.inj hstep]
      exact h.goTo ⟨hround.1, (hround.2 msg k hreply).2 hne, hne⟩
  · simp at hstep

theorem linked_readFail (h : Linked s) (hstep : step s .readFail = some t) : Linked t := by
  have hround := h.round
  simp only [step] at hstep
  split at hstep
  · rename_i i hpc
    simp only [RoundInv, hpc] at hround
    rw [← Option.some.inj hstep]
    exact h.goTo hround
  · rename_i i hpc
    simp only [RoundInv, hpc] at hround
    rw [← Option.some.inj hstep]
    exact h.goTo hround.1
  · simp at hstep

theorem step_linked {a : Action} (h : Linked s) (hstep : step s a = some t) : Linked t := by
  rcases a
  case store thread id data =>
    obtain ⟨smc, hsmc, rfl⟩ := Option.map_eq_some_iff.mp hstep
    exact linked_sameMessage h (sameMessage_store hsmc) (Cm2Dm.step_inv h.mailbox hsmc)
  case setBit thread =>
    obtain ⟨smc, hsmc, rfl⟩ := Option.map_eq_some_iff.mp hstep
    exact linked_sameMessage h (sameMessage_setBit hsmc) (Cm2Dm.step_inv h.mailbox hsmc)
  case smbus =>
    obtain ⟨smc, hsmc, rfl⟩ := Option.map_eq_some_iff.mp hstep
    exact linked_smbus h hsmc
  case poll =>
    have hround := h.round
    simp only [step] at hstep
    split at hstep
    · rename_i hpc
      simp only [RoundInv, hpc] at hround
      rw [← Option.some.inj hstep]
      exact h.goTo hround
    · simp at hstep
  case request =>
    simp only [step] at hstep
    split at hstep
    · rename_i i hpc
      obtain ⟨smc, hsmc, rfl⟩ := Option.map_eq_some_iff.mp hstep
      exact linked_request h hpc hsmc
    · simp at hstep
  case readFail => exact linked_readFail h hstep
  case readOk => exact linked_readOk h hstep
  case ack delivered =>
    simp only [step] at hstep
    split at hstep
    · rename_i i msg k hpc
      split at hstep
      · obtain ⟨smc, hsmc, rfl⟩ := Option.map_eq_some_iff.mp hstep
        exact linked_ack h hpc (.inr hsmc)
      · rw [← Option.some.inj hstep]
        exact linked_ack h hpc (.inl rfl)
    · simp at hstep
  case check answer =>
    simp only [step] at hstep
    split at hstep
    · rename_i i msg k hpc
      rw [← Option.some.inj hstep]
      exact linked_check h hpc
    · simp at hstep

theorem exec_linked {lastSeqNum : UInt8} {actions : List Action}
    (hrun : exec step (System.start lastSeqNum) actions = some s) : Linked s :=
  exec_invariant (fun _ _ _ => step_linked) linked_start hrun

-- ---
-- The result

/-- The DMC has acknowledged instance `k`, and its check dispatches it, whatever the answer. -/
def AboutToDispatch (s : System) (k : ℕ) : Prop :=
  ∃ i msg, s.pc = .checking i msg k ∧ s.smc.trace.put[k]? = some msg ∧
    ∀ answer, ∃ t, step s (.check answer) = some t ∧ t.dispatched = s.dispatched ++ [(k, msg)]

theorem Linked.retired_dispatched (h : Linked s) (hk : k < s.smc.trace.retired) :
    k < s.dispatched.length ∨ AboutToDispatch s k := by
  have hround := h.round
  unfold RoundInv at hround
  rcases hpc : s.pc
  all_goals simp only [hpc] at hround
  case idle | request | resetting => exact .inl (Nat.lt_of_lt_of_le hk hround.1)
  case reading => exact .inl (Nat.lt_of_lt_of_le hk hround.1.1)
  case acking => exact .inl (Nat.lt_of_lt_of_le hk hround.1.1)
  case checking i msg j =>
    obtain ⟨-, -, hretired, hget, -, hlo, hhi⟩ := hround
    by_cases hdone : k < s.dispatched.length
    · exact .inl hdone
    · -- not dispatched, so it is the instance the DMC holds
      obtain rfl : k = j := by omega
      refine .inr ⟨i, msg, hpc, hget, ?_⟩
      intro answer
      refine ⟨processMessage s i msg k answer, ?_, ?_⟩
      · simp only [step, hpc]
      · rw [dispatch_of_checking h hpc (by omega)]

/-- **Exactly once, in order**, from one chip reset to the next: the dispatched instances are the
first ones the SMC put, in order and each once; and every retired instance has been dispatched, or
is dispatched by the duplicate check that comes next. -/
theorem cm2dm_exactly_once {lastSeqNum : UInt8} {actions : List Action}
    (hrun : exec step (System.start lastSeqNum) actions = some s) :
    s.dispatched.map Prod.fst = List.range s.dispatched.length ∧
    (s.dispatched.map Prod.fst).Pairwise (· < ·) ∧
    (∀ k msg, (k, msg) ∈ s.dispatched → s.smc.trace.put[k]? = some msg) ∧
    ∀ k < s.smc.trace.retired,
      (s.dispatched.map Prod.fst).count k = 1 ∨ AboutToDispatch s k := by
  have h := exec_linked hrun
  have horder := h.dispatched.inOrder
  refine ⟨horder, ?_, h.dispatched.message, ?_⟩
  · rw [horder]
    exact List.pairwise_lt_range
  · intro k hk
    refine (h.retired_dispatched hk).imp_left ?_
    intro hlt
    rw [horder]
    exact List.count_eq_one_of_mem List.nodup_range (List.mem_range.mpr hlt)

end

def lostAck : List Action :=
  [.store 0 .ping 7, .setBit 0, .poll, .request] ++ List.replicate 9 .smbus ++
    [.readOk, .ack false, .check .goOn, .request, .smbus, .smbus, .readOk, .ack true, .check .goOn]

theorem lostAck_exactly_once : ∃ s, exec step (System.start 0) lostAck = some s ∧
    s.smc.trace.retired = 1 ∧ s.dispatched = [(0, ⟨2, 0, 7⟩)] ∧
    ∀ k < s.smc.trace.retired,
      (s.dispatched.map Prod.fst).count k = 1 ∨ AboutToDispatch s k := by
  refine ⟨_, rfl, rfl, rfl, ?_⟩
  exact (@cm2dm_exactly_once _ 0 lostAck rfl).2.2.2

end SystemFirmware.Cm2Dm.Dmc
