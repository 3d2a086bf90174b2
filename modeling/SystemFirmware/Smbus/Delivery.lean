import SystemFirmware.Smbus.Safety

/-!
# SMBus target — delivery of writes

What the receive handler of a write command is shown, for any bytes between a start and the
next start or stop. `expectedCalls` says it without a state machine: the announced data if
all of it arrived, and with PEC only if the next byte is the CRC of the message. As it
holds for every sequence of bytes, it also says when the call is made (`write_delivery`).
-/

namespace SystemFirmware.Smbus

open Lib

-- ---
-- What is to be delivered

/-- The data of a write, once all of it has arrived, and the bytes behind it. -/
def payload : TransType → List UInt8 → Option (List UInt8 × List UInt8)
  | .writeByte, x :: rest => some ([x], rest)
  | .writeWord, x :: y :: rest => some ([x, y], rest)
  | .writeBlock, n :: rest =>
    if n.toNat ≤ rest.length then some (rest.take n.toNat, rest.drop n.toNat) else none
  | _, _ => none

/-- The CRC of a message: address, command, length of a block, data. -/
def messagePec (address : UInt16) (command : UInt8) (transType : TransType) (data : List UInt8) :
    UInt8 :=
  crc8 ([writeAddress address, command] ++
    (if transType = .writeBlock then [UInt8.ofNat data.length] else []) ++ data)

/-- The calls made for complete data: one, with PEC only if it is right. -/
def callsFor (address : UInt16) (command : UInt8) (cmd : CmdDef) (data rest : List UInt8) :
    List (List UInt8 × UInt8) :=
  if cmd.pec = true → rest.head? = some (messagePec address command cmd.transType data) then
    [(data, UInt8.ofNat data.length)]
  else []

/-- The calls of the receive handler for the bytes behind the command byte. -/
def expectedCalls (address : UInt16) (command : UInt8) (cmd : CmdDef) (bytes : List UInt8) :
    List (List UInt8 × UInt8) :=
  match payload cmd.transType bytes with
  | none => []
  | some (data, rest) => callsFor address command cmd data rest

/-- The calls of the receive handler in a log: the bytes and the size. -/
def rcvCalls (log : List Access) : List (List UInt8 × UInt8) :=
  log.filterMap fun
    | .rcvCall data size => some (data, size)
    | _ => none

def arrivals (bytes : List (UInt8 × ℤ)) : List Callback :=
  bytes.map fun b => .writeReceived b.1 b.2

section

variable {table : CmdTable} {address : UInt16} {w : World} {bytes rest : List (UInt8 × ℤ)}
  {cmd : CmdDef} {command size : UInt8} {acc : List UInt8} {d : TargetData}

theorem callsFor_length_le {data rest : List UInt8} :
    (callsFor address command cmd data rest).length ≤ 1 := by
  unfold callsFor
  split <;> simp

theorem expectedCalls_length_le {bytes : List UInt8} :
    (expectedCalls address command cmd bytes).length ≤ 1 := by
  unfold expectedCalls
  rcases payload cmd.transType bytes with _ | ⟨data, rest⟩
  · simp
  · exact callsFor_length_le

-- ---
-- Runs of arriving bytes

/-- The bytes are taken, and exactly `calls` are made for them. -/
def Calls (table : CmdTable) (address : UInt16) (w : World) (bytes : List (UInt8 × ℤ))
    (calls : List (List UInt8 × UInt8)) : Prop :=
  ∃ w', exec (step table address) w (arrivals bytes) = some w' ∧
    rcvCalls w'.trace = rcvCalls w.trace ++ calls

theorem Calls.nil : Calls table address w [] [] := ⟨w, rfl, by simp⟩

theorem Calls.cons {b : UInt8 × ℤ} {r : Result} {calls : List (List UInt8 × UInt8)}
    (hr : writeHandler table address w.data b.1 b.2 = r)
    (h : Calls table address (w.after r) rest calls) :
    Calls table address w (b :: rest) (rcvCalls r.log ++ calls) := by
  obtain ⟨w', hexec, hcalls⟩ := h
  refine ⟨w', exec_cons_some.mpr ⟨w.after r, ?_, hexec⟩, ?_⟩
  · rw [step, hr]
  · rw [hcalls, World.after, rcvCalls, List.filterMap_append, List.append_assoc]
    rfl

theorem calls_waitIdle (h : w.data.state = .waitIdle) : Calls table address w bytes [] := by
  induction bytes generalizing w with
  | nil => exact Calls.nil
  | cons b rest ih =>
    have hr : writeHandler table address w.data b.1 b.2 = ⟨w.data.fail, -1, []⟩ := by
      rw [writeHandler, h]
    exact Calls.cons hr (ih rfl)

variable {answer : ℤ}

theorem afterRcv_state (htype : cmd.transType ≠ .readWriteBlock) :
    (d.afterRcv cmd.transType answer).state = .waitIdle := by
  unfold TargetData.afterRcv
  rw [if_neg fun h => htype h.2]
  split <;> rfl

-- ---
-- What has been stored

/-- The bytes `acc` of a message of `size` bytes have been stored. -/
structure Stored (d : TargetData) (command size : UInt8) (acc : List UInt8) : Prop where
  command : d.command = command
  size : d.blocksizeW = size
  index : d.rcvIndex.toNat = acc.length
  received : d.received acc.length = acc

theorem Stored.store (h : Stored d command size acc) (hlt : acc.length < maxMsgSize) (val : UInt8) :
    Stored (d.store val) command size (acc ++ [val]) where
  command := h.command
  size := h.size
  index := by
    have hin : d.rcvIndex.toNat < maxMsgSize := h.index ▸ hlt
    show (d.rcvIndex + 1).toNat = _
    rw [toNat_succ hin, h.index, List.length_append, List.length_singleton]
  received := by
    rw [List.length_append, List.length_singleton, TargetData.received, List.range_succ,
      List.map_append, List.map_singleton]
    congr 1
    · -- the earlier bytes are below the index
      refine Eq.trans (List.map_congr_left ?_) h.received
      intro i hi
      have hne : i ≠ d.rcvIndex.toNat := by
        have := List.mem_range.mp hi
        have := h.index
        omega
      exact if_neg hne
    · show [if acc.length = d.rcvIndex.toNat then val else _] = [val]
      rw [if_pos h.index.symm]

theorem Stored.withState (h : Stored d command size acc) {state : SmbusState} :
    Stored { d with state := state } command size acc :=
  ⟨h.command, h.size, h.index, h.received⟩

theorem Stored.rcvCall (h : Stored d command size acc) (hsize : size.toNat = acc.length) :
    d.rcvCall = .rcvCall acc (UInt8.ofNat acc.length) := by
  rw [TargetData.rcvCall, h.size, hsize, h.received, ← hsize, UInt8.ofNat_toNat]

theorem Stored.rcvPecOf (h : Stored d command size acc) (hsize : size.toNat = acc.length) :
    rcvPecOf address cmd d = messagePec address command cmd.transType acc := by
  have hlen : UInt8.ofNat acc.length = size := by rw [← hsize, UInt8.ofNat_toNat]
  unfold Smbus.rcvPecOf messagePec crc8
  rw [h.command, h.size, hsize, h.received, hlen]
  by_cases hblock : cmd.transType = .writeBlock
  · simp only [if_pos hblock, List.foldl_append, List.foldl_cons, List.foldl_nil]
  · simp only [if_neg hblock, List.foldl_append, List.foldl_cons, List.foldl_nil]

-- ---
-- State by state

theorem calls_rcvPec (hstate : w.data.state = .rcvPec) (hcmd : table command = some cmd)
    (htype : cmd.transType ≠ .readWriteBlock) (hpec : cmd.pec = true)
    (hstored : Stored w.data command size acc) (hsize : size.toNat = acc.length) :
    Calls table address w bytes (callsFor address command cmd acc (bytes.map Prod.fst)) := by
  unfold callsFor
  rcases bytes with _ | ⟨b, rest⟩
  · rw [if_neg (by simp [hpec])]
    exact Calls.nil
  · have hrun : writeHandler table address w.data b.1 b.2 =
        writeRcvPec address cmd w.data b.1 b.2 := by
      rw [writeHandler, hstate]
      simp only [withCmd, hstored.command, hcmd]
    have hloads : rcvCalls ((List.range w.data.blocksizeW.toNat).map Access.rcvLoad) = [] := by
      simp [rcvCalls, List.filterMap_map]
    have hpecOf : rcvPecOf address cmd w.data = messagePec address command cmd.transType acc :=
      hstored.rcvPecOf hsize
    by_cases hright : b.1 = messagePec address command cmd.transType acc
    · rw [if_pos (by simp [hright])]
      have hr : writeRcvPec address cmd w.data b.1 b.2 = ⟨w.data.afterRcv cmd.transType b.2, b.2,
          (List.range w.data.blocksizeW.toNat).map Access.rcvLoad ++ [w.data.rcvCall]⟩ := by
        rw [writeRcvPec, hpecOf, if_neg (by simp [hright])]
      have hcalls : Calls table address w (b :: rest) _ := Calls.cons (hrun.trans hr)
        (calls_waitIdle (afterRcv_state htype))
      rw [rcvCalls, List.filterMap_append, ← rcvCalls, hloads, hstored.rcvCall hsize] at hcalls
      exact hcalls
    · rw [if_neg (by simpa [hpec] using hright)]
      have hr : writeRcvPec address cmd w.data b.1 b.2 = ⟨w.data.fail, -1,
          (List.range w.data.blocksizeW.toNat).map Access.rcvLoad⟩ := by
        rw [writeRcvPec, hpecOf, if_pos (Ne.symm hright)]
      have hcalls : Calls table address w (b :: rest) _ :=
        Calls.cons (hrun.trans hr) (calls_waitIdle rfl)
      rw [hloads] at hcalls
      exact hcalls

variable {b : UInt8 × ℤ}

theorem calls_complete {d' : TargetData} {ret : ℤ} {j : ℕ}
    (hrun : writeHandler table address w.data b.1 b.2 = ⟨d', ret, [.rcvStore j, d.rcvCall]⟩)
    (hstate : d'.state = .waitIdle) (hpec : ¬ cmd.pec = true)
    (hstored : Stored d command size acc) (hsize : size.toNat = acc.length) :
    Calls table address w (b :: rest) (callsFor address command cmd acc (rest.map Prod.fst)) := by
  have hcalls : Calls table address w (b :: rest) _ := Calls.cons hrun (calls_waitIdle hstate)
  rw [hstored.rcvCall hsize] at hcalls
  rw [callsFor, if_pos fun h => absurd h hpec]
  exact hcalls

theorem Stored.writeHandler {val : UInt8} {answer : ℤ} (h : Stored w.data command size acc)
    (hstate : w.data.state = .rcvData) (hcmd : table command = some cmd) :
    writeHandler table address w.data val answer = writeRcvData cmd w.data val answer := by
  rw [Smbus.writeHandler, hstate]
  simp only [withCmd, h.command, hcmd]

theorem calls_rcvData_cons {b : UInt8 × ℤ} {calls : List (List UInt8 × UInt8)}
    (hstate : w.data.state = .rcvData) (hcmd : table command = some cmd)
    (htype : cmd.transType ≠ .readWriteBlock) (hstored : Stored w.data command size acc)
    (hlt : acc.length < size.toNat) (hsize : size.toNat ≤ maxMsgSize)
    (hlast : size.toNat = acc.length + 1 →
      calls = callsFor address command cmd (acc ++ [b.1]) (rest.map Prod.fst))
    (hmore : size.toNat ≠ acc.length + 1 → ∀ w' : World, w'.data.state = .rcvData →
      Stored w'.data command size (acc ++ [b.1]) → Calls table address w' rest calls) :
    Calls table address w (b :: rest) calls := by
  have hnext := hstored.store (by omega) b.1
  have hrun : writeHandler table address w.data b.1 b.2 = writeRcvData cmd w.data b.1 b.2 :=
    hstored.writeHandler hstate hcmd
  have hend : (w.data.store b.1).rcvIndex = (w.data.store b.1).blocksizeW ↔
      size.toNat = acc.length + 1 := by
    rw [← UInt8.toNat_inj, hnext.index, hnext.size, List.length_append, List.length_singleton]
    exact eq_comm
  by_cases hdone : size.toNat = acc.length + 1
  · have hfull : size.toNat = (acc ++ [b.1]).length := by simpa using hdone
    rw [hlast hdone]
    by_cases hpec : cmd.pec = true
    · have hr : writeRcvData cmd w.data b.1 b.2 = ⟨{ w.data.store b.1 with state := .rcvPec }, 0,
          [.rcvStore w.data.rcvIndex.toNat]⟩ := by
        simp only [writeRcvData, if_pos (hend.mpr hdone), if_pos (And.intro hpec htype)]
      exact Calls.cons (hrun.trans hr) (calls_rcvPec rfl hcmd htype hpec hnext.withState hfull)
    · have hr : writeRcvData cmd w.data b.1 b.2 =
          ⟨(w.data.store b.1).afterRcv cmd.transType b.2, b.2,
            [.rcvStore w.data.rcvIndex.toNat, (w.data.store b.1).rcvCall]⟩ := by
        simp only [writeRcvData, if_pos (hend.mpr hdone), if_neg fun h => hpec (And.left h)]
      exact calls_complete (hrun.trans hr) (afterRcv_state htype) hpec hnext hfull
  · have hr : writeRcvData cmd w.data b.1 b.2 =
        ⟨w.data.store b.1, 0, [.rcvStore w.data.rcvIndex.toNat]⟩ := by
      simp only [writeRcvData, if_neg (mt hend.mp hdone)]
    exact Calls.cons (hrun.trans hr) (hmore hdone _ hstate hnext)

theorem calls_rcvData (hstate : w.data.state = .rcvData) (hcmd : table command = some cmd)
    (htype : cmd.transType ≠ .readWriteBlock) (hstored : Stored w.data command size acc)
    (hlt : acc.length < size.toNat) (hsize : size.toNat ≤ maxMsgSize) :
    Calls table address w bytes
      (if size.toNat ≤ acc.length + bytes.length then
        callsFor address command cmd (acc ++ (bytes.map Prod.fst).take (size.toNat - acc.length))
          ((bytes.map Prod.fst).drop (size.toNat - acc.length))
      else []) := by
  induction bytes generalizing w acc with
  | nil =>
    rw [if_neg (by simp only [List.length_nil]; omega)]
    exact Calls.nil
  | cons b rest ih =>
    refine calls_rcvData_cons hstate hcmd htype hstored hlt hsize ?_ ?_
    · intro hdone
      have hone : size.toNat - acc.length = 1 := by omega
      rw [if_pos (by simp only [List.length_cons]; omega), hone]
      simp
    · intro hdone w' hstate' hstored'
      have hone : size.toNat - acc.length = size.toNat - (acc ++ [b.1]).length + 1 := by
        rw [List.length_append, List.length_singleton]
        omega
      have hcalls := ih hstate' hstored' (by rw [List.length_append, List.length_singleton]; omega)
      rw [List.append_assoc, List.singleton_append] at hcalls
      rw [hone, List.map_cons, List.take_succ_cons, List.drop_succ_cons]
      have hlength : (acc ++ [b.1]).length + rest.length = acc.length + (b :: rest).length := by
        simp only [List.length_append, List.length_cons, List.length_nil]
        omega
      rw [hlength] at hcalls
      exact hcalls

def TransType.IsWrite (transType : TransType) : Prop :=
  transType = .writeByte ∨ transType = .writeWord ∨ transType = .writeBlock

theorem Stored.empty {size : UInt8} (hcommand : d.command = command) (hindex : d.rcvIndex = 0) :
    Stored { d with blocksizeW := size } command size [] :=
  ⟨hcommand, rfl, by rw [hindex]; rfl, rfl⟩

/-- In the command state, with nothing stored, the bytes go to `writeCmd`. -/
structure Started (table : CmdTable) (d : TargetData) (command : UInt8) (cmd : CmdDef) : Prop where
  state : d.state = .cmd
  current : d.command = command
  index : d.rcvIndex = 0
  defined : table command = some cmd

theorem Started.writeHandler {val : UInt8} {answer : ℤ} (h : Started table d command cmd) :
    writeHandler table address d val answer = writeCmd cmd d val answer := by
  rw [Smbus.writeHandler, h.state]
  simp only [withCmd, h.current, h.defined]

theorem calls_writeByte (h : Started table w.data command cmd)
    (htype : cmd.transType = .writeByte) :
    Calls table address w (b :: rest)
      (callsFor address command cmd [b.1] (rest.map Prod.fst)) := by
  have hother : cmd.transType ≠ .readWriteBlock := by simp [htype]
  have hempty : Stored { w.data with blocksizeW := 1 } command 1 [] :=
    Stored.empty h.current h.index
  have hstored := hempty.store (by decide) b.1
  by_cases hpec : cmd.pec = true
  · have hr : writeCmd cmd w.data b.1 b.2 =
        ⟨{ { w.data with blocksizeW := 1 }.store b.1 with state := .rcvPec }, 0,
          [.rcvStore w.data.rcvIndex.toNat]⟩ := by
      simp only [writeCmd, htype, if_pos hpec]
    exact Calls.cons (h.writeHandler.trans hr)
      (calls_rcvPec rfl h.defined hother hpec hstored.withState rfl)
  · have hr : writeCmd cmd w.data b.1 b.2 =
        ⟨{ { w.data with blocksizeW := 1 }.store b.1 with state := .waitIdle }, b.2,
          [.rcvStore w.data.rcvIndex.toNat,
            ({ w.data with blocksizeW := 1 }.store b.1).rcvCall]⟩ := by
      simp only [writeCmd, htype, if_neg hpec]
    exact calls_complete (h.writeHandler.trans hr) rfl hpec hstored rfl

theorem calls_writeWord (h : Started table w.data command cmd)
    (htype : cmd.transType = .writeWord) :
    Calls table address w (b :: rest)
      (if 2 ≤ 1 + rest.length then
        callsFor address command cmd ([b.1] ++ (rest.map Prod.fst).take 1)
          ((rest.map Prod.fst).drop 1)
      else []) := by
  have hother : cmd.transType ≠ .readWriteBlock := by simp [htype]
  have hempty : Stored { w.data with blocksizeW := 2 } command 2 [] :=
    Stored.empty h.current h.index
  have hstored := hempty.store (by decide) b.1
  have hr : writeCmd cmd w.data b.1 b.2 =
      ⟨{ { w.data with blocksizeW := 2 }.store b.1 with state := .rcvData }, 0,
        [.rcvStore w.data.rcvIndex.toNat]⟩ := by
    simp only [writeCmd, htype]
  have hcalls : Calls table address w (b :: rest) _ := Calls.cons (h.writeHandler.trans hr)
    (calls_rcvData rfl h.defined hother hstored.withState (by show 1 < 2; decide) (by decide))
  exact hcalls

theorem calls_writeBlock (h : Started table w.data command cmd)
    (htype : cmd.transType = .writeBlock) (hlo : 1 ≤ b.1.toNat) (hhi : b.1.toNat ≤ maxMsgSize) :
    Calls table address w (b :: rest)
      (if b.1.toNat ≤ 0 + rest.length then
        callsFor address command cmd ((rest.map Prod.fst).take b.1.toNat)
          ((rest.map Prod.fst).drop b.1.toNat)
      else []) := by
  have hother : cmd.transType ≠ .readWriteBlock := by simp [htype]
  have hr : writeCmd cmd w.data b.1 b.2 =
      ⟨{ w.data with blocksizeW := b.1, state := .rcvData }, 0, []⟩ := by
    simp only [writeCmd, htype, if_neg (Nat.not_lt.mpr hhi)]
  have hempty : Stored { w.data with blocksizeW := b.1 } command b.1 [] :=
    Stored.empty h.current h.index
  have hcalls : Calls table address w (b :: rest) _ :=
    Calls.cons (h.writeHandler.trans hr) (calls_rcvData rfl h.defined hother hempty.withState hlo hhi)
  exact hcalls

theorem calls_cmd (h : Started table w.data command cmd) (htype : cmd.transType.IsWrite)
    (hblock : cmd.transType = .writeBlock → ∀ n ∈ (bytes.map Prod.fst).head?,
      1 ≤ n.toNat ∧ n.toNat ≤ maxMsgSize) :
    Calls table address w bytes (expectedCalls address command cmd (bytes.map Prod.fst)) := by
  rcases bytes with _ | ⟨b, rest⟩
  · have hnone : expectedCalls address command cmd [] = [] := by
      rcases htype with h | h | h <;> simp [expectedCalls, payload, h]
    rw [List.map_nil, hnone]
    exact Calls.nil
  · rw [List.map_cons, expectedCalls]
    rcases htype with htype | htype | htype
    · rw [htype]
      exact calls_writeByte h htype
    · have hcalls : Calls table address w (b :: rest) _ := calls_writeWord h htype
      rw [htype]
      rcases rest with _ | ⟨c, rest⟩
      · exact hcalls
      · rw [if_pos (by simp only [List.length_cons]; omega)] at hcalls
        exact hcalls
    · obtain ⟨hlo, hhi⟩ := hblock htype b.1 rfl
      have hcalls : Calls table address w (b :: rest) _ := calls_writeBlock h htype hlo hhi
      rw [Nat.zero_add] at hcalls
      rw [htype, payload, List.length_map]
      by_cases hall : b.1.toNat ≤ rest.length
      · rw [if_pos hall] at hcalls ⊢
        exact hcalls
      · rw [if_neg hall] at hcalls ⊢
        exact hcalls

def World.started (w : World) (command : UInt8) : World :=
  ⟨{ resetStateMachine w.data with command := command, state := .cmd }, w.trace⟩

theorem started_spec (hcmd : table command = some cmd) :
    Started table (w.started command).data command cmd := ⟨rfl, rfl, rfl, hcmd⟩

theorem exec_started {callbacks : List Callback} (hcmd : table command = some cmd) :
    exec (step table address) w
        (.writeRequested :: .writeReceived command answer :: callbacks) =
      exec (step table address) (w.started command) callbacks := by
  have hstep : step table address { w with data := resetStateMachine w.data }
      (.writeReceived command answer) = some (w.started command) := by
    simp [step, writeHandler, resetStateMachine, writeIdle, hcmd, World.after, World.started]
  show exec (step table address) { w with data := resetStateMachine w.data }
    (.writeReceived command answer :: callbacks) = _
  rw [exec_cons, hstep, Option.bind_some]

/-- **Delivery of writes.** From any state, for a registered byte, word or block
write and any bytes behind its command byte, the calls of the receive handler are
the expected ones, at most one. -/
theorem write_delivery {answer : ℤ} (hcmd : table command = some cmd)
    (htype : cmd.transType.IsWrite)
    (hblock : cmd.transType = .writeBlock → ∀ n ∈ (bytes.map Prod.fst).head?,
      1 ≤ n.toNat ∧ n.toNat ≤ maxMsgSize) :
    ∃ w', exec (step table address) w
        (.writeRequested :: .writeReceived command answer :: arrivals bytes) = some w' ∧
      rcvCalls w'.trace =
        rcvCalls w.trace ++ expectedCalls address command cmd (bytes.map Prod.fst) ∧
      (expectedCalls address command cmd (bytes.map Prod.fst)).length ≤ 1 := by
  obtain ⟨w', hexec, hcalls⟩ : Calls table address (w.started command) bytes
      (expectedCalls address command cmd (bytes.map Prod.fst)) :=
    calls_cmd (started_spec hcmd) htype hblock
  exact ⟨w', (exec_started hcmd).trans hexec, hcalls, expectedCalls_length_le⟩

end

def pecTable : CmdTable := fun command => if command = 1 then some ⟨.writeBlock, true⟩ else none

theorem blockWithPec_delivered :
    expectedCalls 0xA 1 ⟨.writeBlock, true⟩ [2, 7, 8, 0x2E, 9] = [([7, 8], 2)] ∧
    ∃ w', exec (step pecTable 0xA) World.init
        (.writeRequested :: .writeReceived 1 0 :: arrivals [(2, 0), (7, 0), (8, 0), (0x2E, 0), (9, 0)]) =
          some w' ∧
      rcvCalls w'.trace =
        rcvCalls World.init.trace ++ expectedCalls 0xA 1 ⟨.writeBlock, true⟩ [2, 7, 8, 0x2E, 9] ∧
      (expectedCalls 0xA 1 ⟨.writeBlock, true⟩ [2, 7, 8, 0x2E, 9]).length ≤ 1 :=
  ⟨by decide +kernel, write_delivery rfl (.inr (.inr rfl)) (by decide +kernel)⟩

end SystemFirmware.Smbus
