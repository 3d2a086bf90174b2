import SystemFirmware.Smbus.Delivery

/-!
# SMBus target — the PEC of a read

The PEC behind the data of a read is computed at the end, from the command, the two
buffers and their indices. It is the right one if these still say what was transferred:
that is `ReadReady` before the first byte is read, and `handedOut_sendData` while the
data goes out.
-/

namespace SystemFirmware.Smbus

open Lib

-- ---
-- What is to be read

def TransType.isBlockRead : TransType → Bool
  | .readBlock | .readWriteBlock => true
  | _ => false

/-- The read part in front of the PEC: the size of a block, and the send handler's data. -/
def readFrame (transType : TransType) (answer : SendAnswer) : List UInt8 :=
  (if transType.isBlockRead then [answer.size] else []) ++
    (List.range answer.size.toNat).map answer.data

/-- Everything on the wire in front of the PEC, with both address bytes. -/
def wireBytes (address : UInt16) (command : UInt8) (written : List UInt8) (transType : TransType)
    (answer : SendAnswer) : List UInt8 :=
  [writeAddress address, command] ++ written ++ [readAddress address] ++ readFrame transType answer

def SizeFits (transType : TransType) (size : UInt8) : Prop :=
  match transType with
  | .readByte => size = 1
  | .readWord => size = 2
  | _ => 1 ≤ size.toNat ∧ size.toNat ≤ maxMsgSize

/-- The bytes before the repeated start: for a `READ_WRITE_BLOCK` a length and as many bytes, each
with the receive handler's answer should it be called. -/
def WritePart (transType : TransType) (written : List (UInt8 × ℤ)) : Prop :=
  match transType with
  | .readWriteBlock => ∃ length data, written = length :: data ∧
      data.length = length.1.toNat ∧ 1 ≤ length.1.toNat ∧ length.1.toNat ≤ maxMsgSize
  | _ => written = []

def handedOut (table : CmdTable) (address : UInt16) (d : TargetData) : List SendAnswer → List UInt8
  | [] => []
  | answer :: answers =>
    let (val, r) := readHandler table address d answer
    val :: handedOut table address r.data answers

def byteRead (table : CmdTable) (address : UInt16) (w : World) : Callback → Option UInt8
  | .readRequested answer | .readProcessed answer => some (readHandler table address w.data answer).1
  | _ => none

def bytesRead (table : CmdTable) (address : UInt16) (w : World) : List Callback → List UInt8
  | [] => []
  | callback :: callbacks =>
    (byteRead table address w callback).toList ++ match step table address w callback with
      | some w' => bytesRead table address w' callbacks
      | none => []

/-- A read: the command byte and the write part, a repeated start, and the read. Only the first
answer of the send handler is asked for. -/
def readTransaction (command : UInt8) (rcvAnswer : ℤ) (written : List (UInt8 × ℤ))
    (answer : SendAnswer) (answers : List SendAnswer) : List Callback :=
  (.writeRequested :: .writeReceived command rcvAnswer :: arrivals written) ++
    .readRequested answer :: answers.map .readProcessed

section

variable {table : CmdTable} {address : UInt16} {w : World} {cmd : CmdDef} {command size : UInt8}
  {d : TargetData} {written : List UInt8} {answer : SendAnswer} {answers : List SendAnswer}

-- ---
-- The read part

/-- Ready for the read: the buffer of received bytes says what was written. -/
structure ReadReady (table : CmdTable) (d : TargetData) (command : UInt8) (cmd : CmdDef)
    (written : List UInt8) : Prop where
  state : d.state = .cmd
  current : d.command = command
  defined : table command = some cmd
  index : d.sendIndex = 0
  received : (if cmd.transType = .readWriteBlock then [d.blocksizeW] else []) ++
    d.received d.rcvIndex.toNat = written

def TargetData.asked (d : TargetData) (answer : SendAnswer) : TargetData :=
  { d with sendData := answer.data, blocksizeR := answer.size }

theorem ReadReady.sendPecOf (h : ReadReady table d command cmd written) :
    sendPecOf address cmd (d.asked answer) =
      crc8 (wireBytes address command written cmd.transType answer) := by
  have hblock : cmd.transType.isBlockRead = true ↔
      cmd.transType = .readBlock ∨ cmd.transType = .readWriteBlock := by
    cases cmd.transType <;> simp [TransType.isBlockRead]
  rw [← h.received, ← h.current]
  unfold Smbus.sendPecOf wireBytes readFrame crc8 TargetData.asked
  simp only [hblock, TargetData.sent, TargetData.received]
  split <;> split <;>
    simp only [List.foldl_append, List.foldl_cons, List.foldl_nil, List.nil_append]

def TargetData.sending (d : TargetData) (state : SmbusState) (index : UInt8) : TargetData :=
  { d with state := state, sendIndex := index }

theorem handedOut_cons {val : UInt8} {r : Result}
    (hr : readHandler table address d answer = (val, r)) :
    handedOut table address d (answer :: answers) =
      val :: handedOut table address r.data answers := by
  rw [handedOut, hr]

theorem handedOut_sendPec {index : UInt8} (hcmd : table d.command = some cmd)
    (hlen : answers.length = 1) :
    handedOut table address (d.sending .sendPec index) answers = [sendPecOf address cmd d] := by
  obtain ⟨a, rfl⟩ := List.length_eq_one_iff.mp hlen
  have hr : readHandler table address (d.sending .sendPec index) a =
      readSendPec address cmd (d.sending .sendPec index) := by
    simp only [readHandler, TargetData.sending, hcmd]
  rw [handedOut_cons hr]
  rfl

theorem handedOut_sendData {index : UInt8} (hcmd : table d.command = some cmd)
    (hpec : cmd.pec = true) (hlt : index.toNat < d.blocksizeR.toNat)
    (hmax : d.blocksizeR.toNat ≤ maxMsgSize)
    (hlen : answers.length = d.blocksizeR.toNat - index.toNat + 1) :
    handedOut table address (d.sending .sendData index) answers =
      (d.sent d.blocksizeR.toNat).drop index.toNat ++ [sendPecOf address cmd d] := by
  induction answers generalizing index with
  | nil => simp at hlen
  | cons a answers ih =>
    rw [List.length_cons] at hlen
    have hnext : (index + 1).toNat = index.toNat + 1 := toNat_succ (by omega)
    have hdrop : (d.sent d.blocksizeR.toNat).drop index.toNat =
        d.sendData index.toNat :: (d.sent d.blocksizeR.toNat).drop (index.toNat + 1) := by
      rw [TargetData.sent, List.drop_eq_getElem_cons (by simpa using hlt)]
      simp
    rw [hdrop, List.cons_append]
    by_cases hend : index + 1 = d.blocksizeR
    · -- behind the last byte the PEC follows
      have hr : readHandler table address (d.sending .sendData index) a =
          (d.sendData index.toNat, ⟨d.sending .sendPec (index + 1), 0, [.sendLoad index.toNat]⟩) := by
        simp [readHandler, readSendData, TargetData.load, TargetData.sending, hend, hcmd,
          CmdDef.afterData, hpec]
      have hfull : d.blocksizeR.toNat = index.toNat + 1 := by rw [← hend, hnext]
      rw [handedOut_cons hr, handedOut_sendPec hcmd (by omega),
        List.drop_of_length_le (by simp [TargetData.sent, hfull])]
      rfl
    · have hr : readHandler table address (d.sending .sendData index) a =
          (d.sendData index.toNat,
            ⟨d.sending .sendData (index + 1), 0, [.sendLoad index.toNat]⟩) := by
        simp [readHandler, readSendData, TargetData.load, TargetData.sending, hend]
      have hmore : index.toNat + 1 ≠ d.blocksizeR.toNat := by
        rw [← hnext, ne_eq, UInt8.toNat_inj]
        exact hend
      rw [handedOut_cons hr, ih (by omega) (by omega), hnext]

theorem ReadReady.asked_command (h : ReadReady table d command cmd written) :
    table (d.asked answer).command = some cmd := h.current ▸ h.defined

theorem ReadReady.readHandler (h : ReadReady table d command cmd written) :
    readHandler table address d answer = readCmd cmd d answer := by
  simp only [Smbus.readHandler, h.state, h.current, h.defined]

theorem handedOut_block (h : ReadReady table d command cmd written) (hpec : cmd.pec = true)
    (hblock : cmd.transType.isBlockRead = true) (hret : answer.ret = 0)
    (hlo : 1 ≤ answer.size.toNat) (hhi : answer.size.toNat ≤ maxMsgSize)
    (hlen : answers.length = answer.size.toNat + 1) :
    handedOut table address d (answer :: answers) =
      answer.size :: (List.range answer.size.toNat).map answer.data ++
        [sendPecOf address cmd (d.asked answer)] := by
  have hr : readCmd cmd d answer =
      (answer.size, ⟨(d.asked answer).sending .sendData 0, 0, [.sendCall]⟩) := by
    cases htype : cmd.transType <;> simp [htype, TransType.isBlockRead] at hblock <;>
      simp [readCmd, htype, TransType.isRead, hret, ← h.index, TargetData.asked, TargetData.sending]
  have hdata := @handedOut_sendData table address cmd (d.asked answer) answers 0 h.asked_command hpec
    hlo hhi hlen
  rw [handedOut_cons (h.readHandler.trans hr), hdata]
  rfl

theorem handedOut_ready (h : ReadReady table d command cmd written) (hpec : cmd.pec = true)
    (hread : cmd.transType.isRead = true) (hret : answer.ret = 0)
    (hsize : SizeFits cmd.transType answer.size)
    (hlen : answers.length = (readFrame cmd.transType answer).length) :
    handedOut table address d (answer :: answers) =
      readFrame cmd.transType answer ++
        [crc8 (wireBytes address command written cmd.transType answer)] := by
  rw [← h.sendPecOf]
  have hblock := @handedOut_block table address cmd command d written answer answers h hpec
  cases htype : cmd.transType with
  | readByte =>
    obtain (hone : answer.size = 1) := by simpa only [htype, SizeFits] using hsize
    have hr : readCmd cmd d answer =
        (answer.data 0, ⟨(d.asked answer).sending .sendPec 1, 0, [.sendCall, .sendLoad 0]⟩) := by
      simp [readCmd, htype, TransType.isRead, hret, TargetData.load, h.index, CmdDef.afterData, hpec,
        TargetData.asked, TargetData.sending]
    simp only [htype, readFrame, TransType.isBlockRead, hone] at hlen ⊢
    rw [handedOut_cons (h.readHandler.trans hr), handedOut_sendPec h.asked_command (by simpa using hlen)]
    rfl
  | readWord =>
    obtain (htwo : answer.size = 2) := by simpa only [htype, SizeFits] using hsize
    have hr : readCmd cmd d answer =
        (answer.data 0, ⟨(d.asked answer).sending .sendData 1, 0, [.sendCall, .sendLoad 0]⟩) := by
      simp [readCmd, htype, TransType.isRead, hret, TargetData.load, h.index, TargetData.asked,
        TargetData.sending]
    have hasked : (d.asked answer).blocksizeR = 2 := htwo
    simp only [htype, readFrame, TransType.isBlockRead, htwo] at hlen ⊢
    rw [handedOut_cons (h.readHandler.trans hr), handedOut_sendData h.asked_command hpec
      (by rw [hasked]; decide) (by rw [hasked]; decide) (by rw [hasked]; simpa using hlen), hasked]
    rfl
  | readBlock | readWriteBlock =>
    obtain ⟨hlo, hhi⟩ : 1 ≤ answer.size.toNat ∧ answer.size.toNat ≤ maxMsgSize := by
      simpa only [htype, SizeFits] using hsize
    simp only [htype, readFrame, TransType.isBlockRead, if_true] at hlen hblock ⊢
    exact hblock trivial hret hlo hhi (by simpa [Nat.add_comm] using hlen)
  | writeByte | writeWord | writeBlock => simp [htype, TransType.isRead] at hread

-- ---
-- The write part

variable {data : List (UInt8 × ℤ)}

theorem rcvData_taken {acc : List UInt8} (hstate : w.data.state = .rcvData)
    (hcmd : table command = some cmd) (htype : cmd.transType = .readWriteBlock)
    (hstored : Stored w.data command size acc) (hindex : w.data.sendIndex = 0)
    (hsize : size.toNat ≤ maxMsgSize) (hlen : acc.length + data.length = size.toNat)
    (hne : data ≠ []) (htaken : ∀ b ∈ data.getLast?, b.2 = 0) :
    ∃ w', exec (step table address) w (arrivals data) = some w' ∧ w'.data.state = .cmd ∧
      Stored w'.data command size (acc ++ data.map Prod.fst) ∧ w'.data.sendIndex = 0 := by
  induction data generalizing w acc with
  | nil => exact absurd rfl hne
  | cons b data ih =>
    rw [List.length_cons] at hlen
    have hnext := hstored.store (by omega) b.1
    have hrun : writeHandler table address w.data b.1 b.2 = writeRcvData cmd w.data b.1 b.2 :=
      hstored.writeHandler hstate hcmd
    have hend : (w.data.store b.1).rcvIndex = (w.data.store b.1).blocksizeW ↔ data = [] := by
      rw [← UInt8.toNat_inj, hnext.index, hnext.size, List.length_append, List.length_singleton,
        ← List.length_eq_zero_iff]
      omega
    cases data with
    | nil =>
      -- the last byte: the receive handler is called and takes the block
      have hzero : b.2 = 0 := htaken b rfl
      have hr : writeRcvData cmd w.data b.1 b.2 = ⟨{ w.data.store b.1 with state := .cmd }, 0,
          [.rcvStore w.data.rcvIndex.toNat, (w.data.store b.1).rcvCall]⟩ := by
        simp [writeRcvData, hend.mpr rfl, htype, TargetData.afterRcv, hzero]
      refine ⟨w.after ⟨{ w.data.store b.1 with state := .cmd }, 0,
        [.rcvStore w.data.rcvIndex.toNat, (w.data.store b.1).rcvCall]⟩, ?_, rfl, hnext.withState,
        hindex⟩
      exact exec_cons_some.mpr ⟨_, congrArg some (congrArg w.after (hrun.trans hr)), rfl⟩
    | cons c data =>
      have hr : writeRcvData cmd w.data b.1 b.2 =
          ⟨w.data.store b.1, 0, [.rcvStore w.data.rcvIndex.toNat]⟩ := by
        simp only [writeRcvData, if_neg (mt hend.mp (List.cons_ne_nil c data))]
      obtain ⟨w', hexec, hstate', hstored', hindex'⟩ :=
        @ih (w.after ⟨w.data.store b.1, 0, [.rcvStore w.data.rcvIndex.toNat]⟩) (acc ++ [b.1])
          hstate hnext hindex (by simp only [List.length_append, List.length_singleton]; omega)
          (List.cons_ne_nil c data) htaken
      rw [List.append_assoc, List.singleton_append] at hstored'
      refine ⟨w', ?_, hstate', hstored', hindex'⟩
      exact exec_cons_some.mpr ⟨_, congrArg some (congrArg w.after (hrun.trans hr)), hexec⟩

theorem block_taken {length : UInt8 × ℤ} (h : Started table w.data command cmd)
    (htype : cmd.transType = .readWriteBlock) (hindex : w.data.sendIndex = 0)
    (hlen : data.length = length.1.toNat) (hlo : 1 ≤ length.1.toNat)
    (hhi : length.1.toNat ≤ maxMsgSize) (htaken : ∀ b ∈ data.getLast?, b.2 = 0) :
    ∃ w', exec (step table address) w (arrivals (length :: data)) = some w' ∧
      ReadReady table w'.data command cmd (length.1 :: data.map Prod.fst) := by
  have hr : writeCmd cmd w.data length.1 length.2 =
      ⟨{ w.data with blocksizeW := length.1, state := .rcvData }, 0, []⟩ := by
    simp only [writeCmd, htype, if_neg (Nat.not_lt.mpr hhi)]
  have hempty : Stored { w.data with blocksizeW := length.1 } command length.1 [] :=
    Stored.empty h.current h.index
  have hne : data ≠ [] := by
    rintro rfl
    simp at hlen
    omega
  obtain ⟨w', hexec, hstate, hstored, hsend⟩ := @rcvData_taken table address
    (w.after ⟨{ w.data with blocksizeW := length.1, state := .rcvData }, 0, []⟩) cmd command length.1
    data [] rfl h.defined htype hempty.withState hindex hhi (by simpa using hlen) hne htaken
  refine ⟨w', ?_, hstate, hstored.command, h.defined, hsend, ?_⟩
  · exact exec_cons_some.mpr ⟨_, congrArg some (congrArg w.after (h.writeHandler.trans hr)), hexec⟩
  · rw [if_pos htype, hstored.size, hstored.index, hstored.received]
    rfl

variable {written : List (UInt8 × ℤ)}

theorem write_part {answer : ℤ} (hcmd : table command = some cmd)
    (hwritten : WritePart cmd.transType written) (htaken : ∀ b ∈ written.getLast?, b.2 = 0) :
    ∃ w', exec (step table address) w
        (.writeRequested :: .writeReceived command answer :: arrivals written) = some w' ∧
      ReadReady table w'.data command cmd (written.map Prod.fst) := by
  rw [exec_started hcmd]
  by_cases htype : cmd.transType = .readWriteBlock
  · simp only [htype, WritePart] at hwritten
    obtain ⟨length, data, rfl, hlen, hlo, hhi⟩ := hwritten
    refine block_taken (started_spec hcmd) htype rfl hlen hlo hhi ?_
    intro b hb
    refine htaken b ?_
    cases data with
    | nil => cases hb
    | cons c data => rw [List.getLast?_cons_cons]; exact hb
  · have hnone : written = [] := by
      cases htype' : cmd.transType <;> simp_all [WritePart]
    rw [hnone]
    exact ⟨w.started command, rfl, rfl, rfl, hcmd, rfl, by rw [if_neg htype]; rfl⟩

-- ---
-- The transaction

theorem bytesRead_append {w' : World} {callbacks rest : List Callback}
    (hexec : exec (step table address) w callbacks = some w')
    (hnone : ∀ c ∈ callbacks, ∀ w, byteRead table address w c = none) :
    bytesRead table address w (callbacks ++ rest) = bytesRead table address w' rest := by
  induction callbacks generalizing w with
  | nil =>
    cases hexec
    rfl
  | cons c callbacks ih =>
    obtain ⟨u, hstep, hrest⟩ := exec_cons_some.mp hexec
    rw [List.cons_append, bytesRead, hnone c List.mem_cons_self, hstep]
    exact ih hrest fun c' hc' => hnone c' (List.mem_cons_of_mem c hc')

theorem bytesRead_processed :
    bytesRead table address w (answers.map .readProcessed) =
      handedOut table address w.data answers := by
  induction answers generalizing w with
  | nil => rfl
  | cons a answers ih =>
    rw [List.map_cons, bytesRead, handedOut]
    exact congrArg (_ :: ·) ih

theorem bytesRead_transaction {w' : World} {rcvAnswer : ℤ} (hexec : exec (step table address) w
      (.writeRequested :: .writeReceived command rcvAnswer :: arrivals written) = some w') :
    bytesRead table address w (readTransaction command rcvAnswer written answer answers) =
      handedOut table address w'.data (answer :: answers) := by
  rw [readTransaction, bytesRead_append hexec]
  · rw [bytesRead, handedOut]
    exact congrArg (_ :: ·) bytesRead_processed
  · intro c hc u
    simp only [List.mem_cons, arrivals, List.mem_map] at hc
    obtain rfl | rfl | ⟨b, -, rfl⟩ := hc <;> rfl

/-- **The PEC covers the wire.** For every registered read with PEC whose write part is taken and
whose size fits, the bytes read are the size of a block, the data of the send handler, and the CRC
of everything on the wire before it. -/
theorem read_pec_covers_wire {rcvAnswer : ℤ} {written : List (UInt8 × ℤ)}
    (hcmd : table command = some cmd) (hread : cmd.transType.isRead = true)
    (hpec : cmd.pec = true) (hwritten : WritePart cmd.transType written)
    (htaken : ∀ b ∈ written.getLast?, b.2 = 0) (hret : answer.ret = 0)
    (hsize : SizeFits cmd.transType answer.size)
    (hlen : answers.length = (readFrame cmd.transType answer).length) :
    bytesRead table address w (readTransaction command rcvAnswer written answer answers) =
      readFrame cmd.transType answer ++
        [crc8 (wireBytes address command (written.map Prod.fst) cmd.transType answer)] := by
  obtain ⟨w', hexec, hready⟩ := @write_part table address w cmd command written rcvAnswer hcmd
    hwritten htaken
  rw [bytesRead_transaction hexec]
  exact handedOut_ready hready hpec hread hret hsize hlen

end

def exchangeTable : CmdTable := fun command =>
  if command = 1 then some ⟨.readWriteBlock, true⟩ else none

def twoBytes : SendAnswer := ⟨0, fun i => if i = 0 then 0xCA else 0xFE, 2⟩

theorem exchange_pec_covers_wire :
    bytesRead exchangeTable 0xA World.init
        (readTransaction 1 0 [(1, 0), (7, 0)] twoBytes (List.replicate 3 twoBytes)) =
      [2, 0xCA, 0xFE, crc8 [0x14, 1, 1, 7, 0x15, 2, 0xCA, 0xFE]] := by
  have hwritten : WritePart .readWriteBlock [(1, 0), (7, 0)] :=
    ⟨(1, 0), [(7, 0)], rfl, rfl, by decide, by decide⟩
  have hsize : SizeFits .readWriteBlock twoBytes.size := ⟨by decide, by decide⟩
  exact @read_pec_covers_wire exchangeTable 0xA World.init ⟨.readWriteBlock, true⟩ 1 twoBytes
    (List.replicate 3 twoBytes) 0 [(1, 0), (7, 0)] rfl rfl rfl hwritten (by simp) rfl hsize rfl

/-- A block that is refused: the driver waits for the next start, and the read has no PEC. -/
theorem refused_block_reads_ones :
    bytesRead exchangeTable 0xA World.init
        (readTransaction 1 0 [(1, 0), (7, -1)] twoBytes (List.replicate 3 twoBytes)) =
      [0xFF, 0xFF, 0xFF, 0xFF] ∧
    exchangeTable 1 = some ⟨.readWriteBlock, true⟩ ∧
    WritePart .readWriteBlock [(1, 0), (7, -1)] ∧ SizeFits .readWriteBlock twoBytes.size := by
  refine ⟨rfl, rfl, ⟨(1, 0), [(7, -1)], rfl, rfl, ?_, ?_⟩, ?_, ?_⟩ <;> decide

end SystemFirmware.Smbus
