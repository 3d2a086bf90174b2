import SystemFirmware.Smbus.Definitions

/-!
# SMBus target — buffer safety

While data is received, `rcv_index < blocksize_w`, and while data is sent, `send_index <
blocksize_r`, both at most the size of the buffers (`buffers_in_bounds`).

Reception ends when `rcv_index` *equals* the announced length, so a length that does not
exceed the bytes already stored is never reached and the stores run on. There are two such
lengths: 0, and the length of a second block in the same transaction, which the return to
the command state after a process call allows without resetting `rcv_index`
(`short_length_overruns`).
-/

namespace SystemFirmware.Smbus

open Lib

-- ---
-- What is asked, and of whom

def Access.InBounds : Access → Prop
  | .rcvStore i | .rcvLoad i | .sendLoad i => i < maxMsgSize
  | .rcvCall _ _ | .sendCall => True
  | .nullDeref => False

/-- A send handler that succeeds reports a size in the buffer: one for a byte, two for a word. -/
def SendAnswer.Ok (answer : SendAnswer) (cmd : CmdDef) : Prop :=
  answer.ret = 0 → 1 ≤ answer.size.toNat ∧ answer.size.toNat ≤ maxMsgSize ∧
    (cmd.transType = .readByte → answer.size = 1) ∧ (cmd.transType = .readWord → answer.size = 2)

def SendContract (table : CmdTable) (w : World) : Callback → Prop
  | .readRequested answer | .readProcessed answer =>
    w.data.state = .cmd → ∀ cmd ∈ table w.data.command, answer.Ok cmd
  | .writeRequested | .writeReceived _ _ | .stop => True

def TransType.isBlockWrite : TransType → Bool
  | .writeBlock | .readWriteBlock => true
  | _ => false

/-- A length byte that is accepted exceeds the bytes stored before it. -/
def LengthExceedsStored (table : CmdTable) (w : World) : Callback → Prop
  | .writeReceived val _ =>
    w.data.state = .cmd → ∀ cmd ∈ table w.data.command, cmd.transType.isBlockWrite = true →
      val.toNat ≤ maxMsgSize → w.data.rcvIndex.toNat < val.toNat
  | .writeRequested | .readRequested _ | .readProcessed _ | .stop => True

-- ---
-- The invariant

/-- What the state says about the indices. -/
def Bounded (table : CmdTable) (d : TargetData) : Prop :=
  match d.state with
  | .idle => d.rcvIndex = 0 ∧ d.sendIndex = 0
  | .cmd => d.sendIndex = 0 ∧ d.rcvIndex.toNat ≤ maxMsgSize ∧
      ∃ cmd, table d.command = some cmd ∧ (cmd.transType ≠ .readWriteBlock → d.rcvIndex = 0)
  | .rcvData => d.sendIndex = 0 ∧ d.rcvIndex.toNat < d.blocksizeW.toNat ∧
      d.blocksizeW.toNat ≤ maxMsgSize ∧ ∃ cmd, table d.command = some cmd
  | .rcvPec => d.blocksizeW.toNat ≤ maxMsgSize ∧
      ∃ cmd, table d.command = some cmd ∧ cmd.transType ≠ .readWriteBlock
  | .sendData => d.sendIndex.toNat < d.blocksizeR.toNat ∧ d.blocksizeR.toNat ≤ maxMsgSize ∧
      d.rcvIndex.toNat ≤ maxMsgSize ∧ ∃ cmd, table d.command = some cmd
  | .sendPec => d.blocksizeR.toNat ≤ maxMsgSize ∧ d.rcvIndex.toNat ≤ maxMsgSize ∧
      ∃ cmd, table d.command = some cmd
  | .waitIdle => True

/-- The result of a handler: bounded data, and nothing done out of bounds. -/
structure Result.Safe (table : CmdTable) (r : Result) : Prop where
  bounded : Bounded table r.data
  log : ∀ a ∈ r.log, a.InBounds

section

variable {table : CmdTable} {address : UInt16} {d : TargetData} {val : UInt8} {answer : ℤ}
  {cmd : CmdDef}

theorem bounded_fail : Bounded table d.fail := trivial

theorem bounded_reset : Bounded table (resetStateMachine d) := ⟨rfl, rfl⟩

theorem safe_fail {ret : ℤ} : Result.Safe table ⟨d.fail, ret, []⟩ :=
  ⟨bounded_fail, by simp⟩

theorem toNat_succ {i : UInt8} (h : i.toNat < maxMsgSize) : (i + 1).toNat = i.toNat + 1 := by
  unfold maxMsgSize at h
  rw [UInt8.toNat_add, UInt8.toNat_one]
  omega

-- ---
-- Receiving

theorem safe_writeIdle (h : d.rcvIndex = 0 ∧ d.sendIndex = 0) :
    (writeIdle table d val).Safe table := by
  unfold writeIdle
  rcases htable : table val with _ | cmd
  · simp only [htable]
    exact safe_fail
  · simp only [htable]
    refine ⟨⟨h.2, ?_, cmd, htable, fun _ => h.1⟩, by simp⟩
    rw [show d.rcvIndex = 0 from h.1]
    decide

theorem safe_writeCmd (hcmd : table d.command = some cmd) (hsend : d.sendIndex = 0)
    (hrcv : cmd.transType ≠ .readWriteBlock → d.rcvIndex = 0)
    (hlen : cmd.transType.isBlockWrite = true → val.toNat ≤ maxMsgSize →
      d.rcvIndex.toNat < val.toNat) :
    (writeCmd cmd d val answer).Safe table := by
  unfold writeCmd
  rcases htype : cmd.transType
  case writeBlock | readWriteBlock =>
    by_cases hbig : val.toNat > maxMsgSize
    · simp only [if_pos hbig]
      exact safe_fail
    · simp only [if_neg hbig]
      rw [htype] at hlen
      exact ⟨⟨hsend, hlen rfl (by omega), by simpa using hbig, cmd, hcmd⟩, by simp⟩
  case writeByte =>
    have hzero : d.rcvIndex = 0 := hrcv (by simp [htype])
    by_cases hpec : cmd.pec = true
    · simp only [if_pos hpec]
      refine ⟨⟨(by decide : 1 ≤ maxMsgSize), cmd, hcmd, by simp [htype]⟩, ?_⟩
      simp [Access.InBounds, hzero, maxMsgSize]
    · simp only [if_neg hpec]
      refine ⟨trivial, ?_⟩
      simp [Access.InBounds, TargetData.rcvCall, hzero, maxMsgSize]
  case writeWord =>
    have hzero : d.rcvIndex = 0 := hrcv (by simp [htype])
    refine ⟨⟨hsend, ?_, (by decide : 2 ≤ maxMsgSize), cmd, hcmd⟩, ?_⟩
    · show (d.rcvIndex + 1).toNat < 2
      rw [hzero]
      decide
    · simp [Access.InBounds, hzero, maxMsgSize]
  all_goals exact safe_fail

theorem bounded_afterRcv (hcmd : table d.command = some cmd)
    (hback : cmd.transType = .readWriteBlock →
      d.sendIndex = 0 ∧ d.rcvIndex.toNat ≤ maxMsgSize) :
    Bounded table (d.afterRcv cmd.transType answer) := by
  unfold TargetData.afterRcv
  by_cases hcall : answer = 0 ∧ cmd.transType = .readWriteBlock
  · rw [if_pos hcall]
    obtain ⟨hsend, hrcv⟩ := hback hcall.2
    exact ⟨hsend, hrcv, cmd, hcmd, fun hne => absurd hcall.2 hne⟩
  · rw [if_neg hcall]
    by_cases hret : answer ≠ 0
    · rw [if_pos hret]
      exact bounded_fail
    · rw [if_neg hret]
      trivial

theorem safe_writeRcvData (hstate : d.state = .rcvData) (hcmd : table d.command = some cmd)
    (hsend : d.sendIndex = 0) (hlt : d.rcvIndex.toNat < d.blocksizeW.toNat)
    (hsize : d.blocksizeW.toNat ≤ maxMsgSize) :
    (writeRcvData cmd d val answer).Safe table := by
  have hin : d.rcvIndex.toNat < maxMsgSize := Nat.lt_of_lt_of_le hlt hsize
  have hnext : (d.rcvIndex + 1).toNat = d.rcvIndex.toNat + 1 := toNat_succ hin
  have hcmd' : table (d.store val).command = some cmd := hcmd
  unfold writeRcvData
  by_cases hlast : (d.store val).rcvIndex = (d.store val).blocksizeW
  · simp only [if_pos hlast]
    by_cases hpec : cmd.pec = true ∧ cmd.transType ≠ .readWriteBlock
    · rw [if_pos hpec]
      exact ⟨⟨hsize, cmd, hcmd, hpec.2⟩, by simpa [Access.InBounds] using hin⟩
    · rw [if_neg hpec]
      refine ⟨bounded_afterRcv hcmd' fun _ => ⟨hsend, ?_⟩, ?_⟩
      · show (d.rcvIndex + 1).toNat ≤ maxMsgSize
        omega
      · simpa [Access.InBounds, TargetData.rcvCall] using hin
  · simp only [if_neg hlast]
    have hne : (d.rcvIndex + 1).toNat ≠ d.blocksizeW.toNat := fun heq =>
      hlast (UInt8.toNat_inj.mp heq)
    have hmore : (d.store val).rcvIndex.toNat < (d.store val).blocksizeW.toNat := by
      show (d.rcvIndex + 1).toNat < d.blocksizeW.toNat
      omega
    refine ⟨?_, by simpa [Access.InBounds] using hin⟩
    have hstate' : (d.store val).state = .rcvData := hstate
    simp only [Bounded, hstate']
    exact ⟨hsend, hmore, hsize, cmd, hcmd⟩

theorem safe_writeRcvPec (hcmd : table d.command = some cmd)
    (htype : cmd.transType ≠ .readWriteBlock) (hsize : d.blocksizeW.toNat ≤ maxMsgSize) :
    (writeRcvPec address cmd d val answer).Safe table := by
  have hloads : ∀ a ∈ (List.range d.blocksizeW.toNat).map Access.rcvLoad, a.InBounds := by
    intro a ha
    obtain ⟨i, hi, rfl⟩ := List.mem_map.mp ha
    exact Nat.lt_of_lt_of_le (List.mem_range.mp hi) hsize
  unfold writeRcvPec
  by_cases hpec : rcvPecOf address cmd d ≠ val
  · simp only [if_pos hpec]
    exact ⟨bounded_fail, hloads⟩
  · simp only [if_neg hpec]
    refine ⟨bounded_afterRcv hcmd fun heq => absurd heq htype, ?_⟩
    intro a ha
    rcases List.mem_append.mp ha with ha | ha
    · exact hloads a ha
    · rw [List.mem_singleton.mp ha]
      trivial

theorem safe_writeHandler (h : Bounded table d)
    (hlen : d.state = .cmd → ∀ cmd ∈ table d.command, cmd.transType.isBlockWrite = true →
      val.toNat ≤ maxMsgSize → d.rcvIndex.toNat < val.toNat) :
    (writeHandler table address d val answer).Safe table := by
  unfold writeHandler
  rcases hstate : d.state
  all_goals simp only [Bounded, hstate] at h
  case idle => exact safe_writeIdle h
  case cmd =>
    obtain ⟨hsend, -, cmd, hcmd, hrcv⟩ := h
    simp only [withCmd, hcmd]
    exact safe_writeCmd hcmd hsend hrcv (hlen hstate cmd hcmd)
  case rcvData =>
    obtain ⟨hsend, hlt, hsize, cmd, hcmd⟩ := h
    simp only [withCmd, hcmd]
    exact safe_writeRcvData hstate hcmd hsend hlt hsize
  case rcvPec =>
    obtain ⟨hsize, cmd, hcmd, htype⟩ := h
    simp only [withCmd, hcmd]
    exact safe_writeRcvPec hcmd htype hsize
  all_goals exact safe_fail

-- ---
-- Sending

theorem bounded_afterData {state : SmbusState} (hstate : state = cmd.afterData)
    (hcmd : table d.command = some cmd) (hrcv : d.rcvIndex.toNat ≤ maxMsgSize)
    (hsize : d.blocksizeR.toNat ≤ maxMsgSize) : Bounded table { d with state := state } := by
  subst hstate
  unfold CmdDef.afterData
  rcases cmd.pec
  · trivial
  · exact ⟨hsize, hrcv, cmd, hcmd⟩

theorem safe_readCmd {answer : SendAnswer} (hcmd : table d.command = some cmd)
    (hsend : d.sendIndex = 0) (hrcv : d.rcvIndex.toNat ≤ maxMsgSize) (hok : answer.Ok cmd) :
    (readCmd cmd d answer).2.Safe table := by
  unfold readCmd
  by_cases hread : cmd.transType.isRead = true
  · by_cases hret : answer.ret = 0
    · obtain ⟨hlo, hhi, hbyte, hword⟩ := hok hret
      simp only [hread, hret, Bool.not_true, Bool.false_eq_true, if_false, ne_eq,
        not_true_eq_false]
      rcases htype : cmd.transType
      case readBlock | readWriteBlock =>
        refine ⟨⟨?_, hhi, hrcv, cmd, hcmd⟩, by simp [Access.InBounds]⟩
        show d.sendIndex.toNat < answer.size.toNat
        rw [hsend]
        exact hlo
      case readByte =>
        refine ⟨bounded_afterData (d := { d with
          sendData := answer.data, blocksizeR := answer.size, sendIndex := d.sendIndex + 1 })
          rfl hcmd hrcv hhi, ?_⟩
        simp [Access.InBounds, hsend, maxMsgSize]
      case readWord =>
        refine ⟨⟨?_, hhi, hrcv, cmd, hcmd⟩, ?_⟩
        · show (d.sendIndex + 1).toNat < answer.size.toNat
          rw [hsend, hword htype]
          decide
        · simp [Access.InBounds, hsend, maxMsgSize]
      all_goals simp [htype, TransType.isRead] at hread
    · simp only [hread, hret, Bool.not_true, Bool.false_eq_true, if_false, ne_eq,
        not_false_eq_true, if_true]
      exact ⟨bounded_fail, by simp [Access.InBounds]⟩
  · simp only [hread, Bool.not_false, if_true]
    exact safe_fail

theorem safe_readSendData (hstate : d.state = .sendData) (hcmd : table d.command = some cmd)
    (hlt : d.sendIndex.toNat < d.blocksizeR.toNat) (hsize : d.blocksizeR.toNat ≤ maxMsgSize)
    (hrcv : d.rcvIndex.toNat ≤ maxMsgSize) : (readSendData table d).2.Safe table := by
  have hin : d.sendIndex.toNat < maxMsgSize := Nat.lt_of_lt_of_le hlt hsize
  have hnext : (d.sendIndex + 1).toNat = d.sendIndex.toNat + 1 := toNat_succ hin
  unfold readSendData TargetData.load
  by_cases hlast : d.sendIndex + 1 = d.blocksizeR
  · simp only [if_pos hlast, hcmd]
    refine ⟨bounded_afterData (d := { d with sendIndex := d.sendIndex + 1 }) rfl hcmd hrcv hsize, ?_⟩
    simpa [Access.InBounds] using hin
  · simp only [if_neg hlast]
    have hne : (d.sendIndex + 1).toNat ≠ d.blocksizeR.toNat := fun heq =>
      hlast (UInt8.toNat_inj.mp heq)
    refine ⟨?_, by simpa [Access.InBounds] using hin⟩
    simp only [Bounded, hstate]
    exact ⟨by omega, hsize, hrcv, cmd, hcmd⟩

theorem safe_readSendPec (hsize : d.blocksizeR.toNat ≤ maxMsgSize)
    (hrcv : d.rcvIndex.toNat ≤ maxMsgSize) : (readSendPec address cmd d).2.Safe table := by
  refine ⟨trivial, ?_⟩
  intro a ha
  rcases List.mem_append.mp ha with ha | ha
  · obtain ⟨i, hi, rfl⟩ := List.mem_map.mp ha
    exact Nat.lt_of_lt_of_le (List.mem_range.mp hi) hrcv
  · obtain ⟨i, hi, rfl⟩ := List.mem_map.mp ha
    exact Nat.lt_of_lt_of_le (List.mem_range.mp hi) hsize

theorem safe_readHandler {answer : SendAnswer} (h : Bounded table d)
    (hok : d.state = .cmd → ∀ cmd ∈ table d.command, answer.Ok cmd) :
    (readHandler table address d answer).2.Safe table := by
  unfold readHandler
  rcases hstate : d.state
  all_goals simp only [Bounded, hstate] at h
  case cmd =>
    obtain ⟨hsend, hrcv, cmd, hcmd, -⟩ := h
    simp only [hcmd]
    exact safe_readCmd hcmd hsend hrcv (hok hstate cmd hcmd)
  case sendData =>
    obtain ⟨hlt, hsize, hrcv, cmd, hcmd⟩ := h
    exact safe_readSendData hstate hcmd hlt hsize hrcv
  case sendPec =>
    obtain ⟨hsize, hrcv, cmd, hcmd⟩ := h
    simp only [hcmd]
    exact safe_readSendPec hsize hrcv
  all_goals exact safe_fail

end

-- ---
-- Runs

structure Safe (table : CmdTable) (w : World) : Prop where
  bounded : Bounded table w.data
  trace : ∀ a ∈ w.trace, a.InBounds

section

variable {table : CmdTable} {address : UInt16} {w w' : World} {callbacks : List Callback}

theorem Safe.after {r : Result} (h : Safe table w) (hr : r.Safe table) : Safe table (w.after r) where
  bounded := hr.bounded
  trace := by
    intro a ha
    rcases List.mem_append.mp ha with ha | ha
    · exact h.trace a ha
    · exact hr.log a ha

theorem step_safe {callback : Callback} (h : Safe table w)
    (hC : SendContract table w callback ∧ LengthExceedsStored table w callback)
    (hstep : step table address w callback = some w') : Safe table w' := by
  obtain ⟨hsend, hlen⟩ := hC
  unfold step at hstep
  rcases callback
  all_goals
    simp only [Option.some.injEq] at hstep
    subst hstep
  case writeRequested | stop => exact ⟨bounded_reset, h.trace⟩
  case writeReceived val answer => exact h.after (safe_writeHandler h.bounded hlen)
  case readRequested answer | readProcessed answer =>
    exact h.after (safe_readHandler h.bounded hsend)

theorem step_total (w : World) (callback : Callback) :
    ∃ w', step table address w callback = some w' := by
  rcases callback <;> exact ⟨_, rfl⟩

/-- **No access is out of bounds** in any run of callbacks in which the send
handlers keep their contract and every length byte exceeds the bytes stored
before it. -/
theorem buffers_in_bounds
    (hsend : Along (step table address) (SendContract table) World.init callbacks)
    (hlen : Along (step table address) (LengthExceedsStored table) World.init callbacks) :
    ∃ w, exec (step table address) World.init callbacks = some w ∧
      ∀ a ∈ w.trace, a.InBounds := by
  obtain ⟨w, hw⟩ : ∃ w, exec (step table address) World.init callbacks = some w :=
    exec_total step_total
  have hinit : Safe table World.init := ⟨⟨rfl, rfl⟩, by simp [World.init]⟩
  exact ⟨w, hw, (exec_invariant_along (fun s a t => step_safe) hinit (hsend.and hlen) hw).trace⟩

end

-- ---
-- Concrete runs

instance {answer : SendAnswer} {cmd : CmdDef} : Decidable (answer.Ok cmd) :=
  inferInstanceAs (Decidable (_ → _))

instance {table : CmdTable} {w : World} : ∀ callback, Decidable (SendContract table w callback)
  | .readRequested answer | .readProcessed answer =>
    inferInstanceAs (Decidable (w.data.state = .cmd → ∀ cmd ∈ table w.data.command, answer.Ok cmd))
  | .writeRequested | .writeReceived _ _ | .stop => .isTrue trivial

instance {table : CmdTable} {w : World} :
    ∀ callback, Decidable (LengthExceedsStored table w callback)
  | .writeReceived val _ => inferInstanceAs (Decidable (w.data.state = .cmd →
      ∀ cmd ∈ table w.data.command, cmd.transType.isBlockWrite = true →
        val.toNat ≤ maxMsgSize → w.data.rcvIndex.toNat < val.toNat))
  | .writeRequested | .readRequested _ | .readProcessed _ | .stop => .isTrue trivial

def blockTable : CmdTable := fun command =>
  if command = 1 then some ⟨.writeBlock, false⟩
  else if command = 2 then some ⟨.readWriteBlock, false⟩
  else if command = 3 then some ⟨.readWord, false⟩
  else none

def blockThenWord : List Callback :=
  [.writeRequested, .writeReceived 1 0, .writeReceived 2 0, .writeReceived 7 0, .writeReceived 8 0,
    .stop, .writeRequested, .writeReceived 3 0, .readRequested ⟨0, fun _ => 9, 2⟩,
    .readProcessed ⟨0, fun _ => 9, 2⟩, .stop]

theorem blockThenWord_in_bounds : ∃ w,
    exec (step blockTable 0xA) World.init blockThenWord = some w ∧ ∀ a ∈ w.trace, a.InBounds :=
  buffers_in_bounds (by decide +kernel) (by decide +kernel)

/-- A block write that announces no data, and 65 bytes. -/
def zeroLength : List Callback :=
  [.writeRequested, .writeReceived 1 0, .writeReceived 0 0] ++
    List.replicate 65 (.writeReceived 0x55 0)

/-- A process call of one byte, a second length byte, and 64 bytes. -/
def secondLength : List Callback :=
  [.writeRequested, .writeReceived 2 0, .writeReceived 1 0, .writeReceived 0x55 0,
    .writeReceived 1 0] ++ List.replicate 64 (.writeReceived 0x55 0)

/-- The contract of the send handlers allows the run, which stores one past the end of
`received_data`. -/
def Overruns (callbacks : List Callback) : Prop :=
  Along (step blockTable 0xA) (SendContract blockTable) World.init callbacks ∧
    ∃ w, exec (step blockTable 0xA) World.init callbacks = some w ∧
      Access.rcvStore maxMsgSize ∈ w.trace

theorem overruns_of_any {callbacks : List Callback}
    (hcontract : Along (step blockTable 0xA) (SendContract blockTable) World.init callbacks)
    (hany : (exec (step blockTable 0xA) World.init callbacks).any
      (fun w => decide (Access.rcvStore maxMsgSize ∈ w.trace)) = true) : Overruns callbacks := by
  obtain ⟨w, hw⟩ : ∃ w, exec (step blockTable 0xA) World.init callbacks = some w :=
    exec_total step_total
  rw [hw, Option.any_some, decide_eq_true_eq] at hany
  exact ⟨hcontract, w, hw, hany⟩

/-- **A length byte that does not exceed the bytes stored before it overruns the
buffer**: a length of 0, and a second length in one transaction. -/
theorem short_length_overruns : Overruns zeroLength ∧ Overruns secondLength :=
  ⟨overruns_of_any (by decide +kernel) (by decide +kernel),
    overruns_of_any (by decide +kernel) (by decide +kernel)⟩

end SystemFirmware.Smbus
