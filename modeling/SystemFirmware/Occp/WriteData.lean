import SystemFirmware.Occp.Transactions

/-!
# Open Chiplet Configuration Protocol — writes

A write goes out as a series of commands, each with as much data as fits into one message,
and a command that failed is sent again. What is assumed of the target (`StoresWrites`): it
stores the data of a command whole or not at all, and an answer without flags means that it
did. A failed command may have been stored, so a retry may store it again, which changes
nothing (`occpWriteData_transfers`).
-/

namespace SystemFirmware.Occp

open Lib

-- ---
-- What a target finds in a command

def IsWriteData (cmd : List UInt8) : Prop := (cmd.drop 4).take 2 = [appBase, baseMsgWriteData]

/-- The address in a request, whose halves are `address_low` and `address_high`. -/
def requestAddress (cmd : List UInt8) : ℕ := leValue ((cmd.drop 8).take 8)

def requestLength (cmd : List UInt8) : ℕ := leValue ((cmd.drop 16).take 4) % 2 ^ 11

def store (mem : Flash) (cmd : List UInt8) : Flash :=
  mem.program (requestAddress cmd) ((cmd.drop dataRequestSize).take (requestLength cmd))

/-- **The target.** A write changes the memory by being stored and in no other way, and it
has been stored when the answer has no flags. -/
structure StoresWrites {σ : Type} (backend : Backend σ) (mem : σ → Flash) : Prop where
  sent : ∀ target cmd, IsWriteData cmd →
    mem (backend.send target cmd).2 = mem target ∨
      mem (backend.send target cmd).2 = store (mem target) cmd
  answered : ∀ target cmd len, IsWriteData cmd → (backend.send target cmd).1 = 0 →
    mem (backend.receive (backend.send target cmd).2 len).2.2 = mem target ∨
      mem (backend.receive (backend.send target cmd).2 len).2.2 = store (mem target) cmd
  stored : ∀ target cmd len, IsWriteData cmd → (backend.send target cmd).1 = 0 →
    (backend.receive (backend.send target cmd).2 len).1 = 0 →
    flagsField (backend.receive (backend.send target cmd).2 len).2.1 = 0 →
    mem (backend.receive (backend.send target cmd).2 len).2.2 = store (mem target) cmd

/-- **Commands.** A command fits into a message, its length fields count the bytes behind
the header and behind the request, and its checksum is the one of its header. -/
structure WellFormed (crc8 : Crc8) (cmd : List UInt8) : Prop where
  size : cmd.length ≤ maxMsgSize
  length : headerSize + lengthField cmd = cmd.length
  request : dataRequestSize + requestLength cmd = cmd.length
  crc : cmd.head? = some (headerCrcOf crc8 cmd)

theorem store_store {mem : Flash} {cmd : List UInt8} :
    store (store mem cmd) cmd = store mem cmd := by
  unfold store Flash.program Flash.patch
  funext a
  split <;> rfl

-- ---
-- The command for a chunk

section

variable {crc8 : Crc8} {req : DataRequest} {addr : UInt64} {chunk : List UInt8}

def writeCommand (crc8 : Crc8) (req : DataRequest) (addr : UInt64) (chunk : List UInt8) :
    List UInt8 :=
  (req.fill crc8 baseMsgWriteData (dataRequestSize - headerSize + chunk.length) addr
    chunk.length).bytes ++ chunk

theorem requestAddress_writeCommand :
    requestAddress (writeCommand crc8 req addr chunk) = addr.toNat := by
  have hfield : (((writeCommand crc8 req addr chunk).drop 8).take 8) =
      le32 addr.toUInt32 ++ le32 (addr >>> 32).toUInt32 := rfl
  have hhigh : (addr >>> 32).toNat = addr.toNat / 2 ^ 32 := by
    rw [UInt64.toNat_shiftRight, Nat.shiftRight_eq_div_pow]
    rfl
  have hlt := addr.toNat_lt
  rw [requestAddress, hfield, leValue_append, leValue_le32, leValue_le32, length_le32,
    UInt64.toNat_toUInt32, UInt64.toNat_toUInt32, hhigh]
  omega

theorem isWriteData_writeCommand : IsWriteData (writeCommand crc8 req addr chunk) := rfl

variable (h : chunk.length ≤ maxMsgSize - dataRequestSize)
include h

theorem lengthField_writeCommand :
    lengthField (writeCommand crc8 req addr chunk) =
      dataRequestSize - headerSize + chunk.length := by
  have hfield : flagsAndLength (writeCommand crc8 req addr chunk) =
      leValue (leBytes 2 (req.header.cmdHeader.flags.toNat + 2 ^ 5 *
        (BitVec.ofNat 11 (dataRequestSize - headerSize + chunk.length)).toNat)) := rfl
  have hflags := req.header.cmdHeader.flags.isLt
  rw [lengthField, hfield, leValue_leBytes, BitVec.toNat_ofNat]
  simp only [maxMsgSize, dataRequestSize, headerSize] at h ⊢
  omega

theorem requestLength_writeCommand :
    requestLength (writeCommand crc8 req addr chunk) = chunk.length := by
  have hfield : (((writeCommand crc8 req addr chunk).drop 16).take 4) =
      leBytes 4 ((BitVec.ofNat 11 chunk.length).toNat + 2 ^ 11 * req.attributes.toNat +
        2 ^ 16 * req.reserved.toNat) := rfl
  rw [requestLength, hfield, leValue_leBytes, BitVec.toNat_ofNat]
  simp only [maxMsgSize, dataRequestSize] at h
  omega

theorem store_writeCommand {mem : Flash} :
    store mem (writeCommand crc8 req addr chunk) = mem.program addr.toNat chunk := by
  have hdata : (writeCommand crc8 req addr chunk).drop dataRequestSize = chunk := rfl
  rw [store, requestAddress_writeCommand, requestLength_writeCommand h, hdata, List.take_length]

theorem wellFormed_writeCommand : WellFormed crc8 (writeCommand crc8 req addr chunk) := by
  have hlen : (writeCommand crc8 req addr chunk).length = chunk.length + 20 := rfl
  refine ⟨?_, ?_, ?_, rfl⟩
  · rw [hlen]
    simp only [maxMsgSize, dataRequestSize] at h ⊢
    omega
  · rw [lengthField_writeCommand h, hlen]
    simp only [dataRequestSize, headerSize]
    omega
  · rw [requestLength_writeCommand h, hlen]
    simp only [dataRequestSize]
    omega

end

-- ---
-- One command with its retries

section

variable {σ : Type} {backend : Backend σ} {mem : σ → Flash} {crc8 : Crc8} {cmd : List UInt8}
  {responseLen : ℕ} {s t : Session σ}

theorem occpTxRx_mem (hb : StoresWrites backend mem) (hcmd : IsWriteData cmd) (responseLen : ℕ)
    (s : Session σ) :
    (mem (occpTxRx backend cmd responseLen s).2.target = mem s.target ∨
      mem (occpTxRx backend cmd responseLen s).2.target = store (mem s.target) cmd) ∧
    ((occpTxRx backend cmd responseLen s).1.1 = 0 →
      mem (occpTxRx backend cmd responseLen s).2.target = store (mem s.target) cmd) := by
  unfold occpTxRx
  dsimp only
  split_ifs with hsend hreceive hflags
  · exact ⟨hb.sent s.target cmd hcmd, fun h => absurd h hsend⟩
  · exact ⟨hb.answered s.target cmd responseLen hcmd (not_not.mp hsend), fun h => absurd h hreceive⟩
  · exact ⟨hb.answered s.target cmd responseLen hcmd (not_not.mp hsend),
      fun h => absurd (show -eio = 0 from h) (by decide)⟩
  · have hstored := hb.stored s.target cmd responseLen hcmd (not_not.mp hsend)
      (not_not.mp hreceive) (not_not.mp hflags)
    exact ⟨.inr hstored, fun _ => hstored⟩

/-- Between two states of a session only well-formed commands were sent. -/
def SendsWellFormed (crc8 : Crc8) (s s' : Session σ) : Prop :=
  ∃ cmds, s'.sent = s.sent ++ cmds ∧ ∀ cmd ∈ cmds, WellFormed crc8 cmd

theorem SendsWellFormed.refl : SendsWellFormed crc8 s s := ⟨[], by simp, by simp⟩

variable {u : Session σ}

theorem SendsWellFormed.trans (h : SendsWellFormed crc8 s t) (h' : SendsWellFormed crc8 t u) :
    SendsWellFormed crc8 s u := by
  obtain ⟨cmds, hcmds, hwf⟩ := h
  obtain ⟨more, hmore, hwf'⟩ := h'
  refine ⟨cmds ++ more, by rw [hmore, hcmds, List.append_assoc], ?_⟩
  intro cmd hcmd
  rcases List.mem_append.mp hcmd with hmem | hmem
  · exact hwf cmd hmem
  · exact hwf' cmd hmem

structure Transferred (mem : σ → Flash) (crc8 : Crc8) (address : ℕ) (data : List UInt8)
    (ret : ℤ) (s s' : Session σ) : Prop where
  commands : SendsWellFormed crc8 s s'
  outside : ∀ a, a < address ∨ address + data.length ≤ a → mem s'.target a = mem s.target a
  stored : ret = 0 → mem s'.target = (mem s.target).program address data

theorem occpRunTransaction_transfers (hb : StoresWrites backend mem) {chunk : List UInt8}
    (h : chunk.length ≤ maxMsgSize - dataRequestSize) (crc8 : Crc8) (req : DataRequest)
    (addr : UInt64) (retryCnt responseLen : ℕ) (s : Session σ) :
    Transferred mem crc8 addr.toNat chunk
      (occpRunTransaction backend retryCnt (writeCommand crc8 req addr chunk) responseLen s).1.1 s
      (occpRunTransaction backend retryCnt (writeCommand crc8 req addr chunk) responseLen s).2 := by
  rw [occpRunTransaction_eq_retry]
  obtain ⟨cmd, hcmd⟩ : ∃ cmd, cmd = writeCommand crc8 req addr chunk := ⟨_, rfl⟩
  rw [← hcmd]
  have hstore : store (mem s.target) cmd = (mem s.target).program addr.toNat chunk := by
    rw [hcmd, store_writeCommand h]
  -- before every attempt the data has been stored or not
  have hrun := retry_rule (occpTxRx backend cmd responseLen) Failed (n := retryCnt - 1) (s := s)
    (P := fun t => SendsWellFormed crc8 s t ∧
      (mem t.target = mem s.target ∨ mem t.target = store (mem s.target) cmd))
    (Q := fun r t => (SendsWellFormed crc8 s t ∧
      (mem t.target = mem s.target ∨ mem t.target = store (mem s.target) cmd)) ∧
      (r.1 = 0 → mem t.target = store (mem s.target) cmd))
    (by
      rintro t ⟨hsent, hmem⟩
      have hagain : store (mem t.target) cmd = store (mem s.target) cmd := by
        rcases hmem with hmem | hmem
        · rw [hmem]
        · rw [hmem, store_store]
      have hwrite : IsWriteData cmd := by
        rw [hcmd]
        exact isWriteData_writeCommand
      obtain ⟨hmem', hstored⟩ := occpTxRx_mem hb hwrite responseLen t
      rw [hagain] at hmem' hstored
      refine ⟨⟨hsent.trans ⟨[cmd], occpTxRx_sent, ?_⟩, ?_⟩, hstored⟩
      · intro c hc
        rw [List.mem_singleton.mp hc, hcmd]
        exact wellFormed_writeCommand h
      · rcases hmem' with hmem' | hmem'
        · rw [hmem']
          exact hmem
        · exact .inr hmem')
    (fun _ _ _ hq => hq.1) ⟨.refl, .inl rfl⟩
  obtain ⟨⟨hsent, hmem⟩, hstored⟩ := hrun
  refine ⟨hsent, ?_, ?_⟩
  · intro a ha
    rcases hmem with hmem | hmem
    · rw [hmem]
    · rw [hmem, hstore]
      exact Flash.program_outside ha
  · intro hret
    rw [hstored hret, hstore]

-- ---
-- The loop

variable {address : ℕ} {ret : ℤ}

theorem Transferred.nil : Transferred mem crc8 address [] ret s s := by
  refine ⟨.refl, fun _ _ => rfl, fun _ => ?_⟩
  funext a
  exact (Flash.program_outside (by simp only [List.length_nil]; omega)).symm

variable {rest : List UInt8}

theorem Transferred.append {chunk : List UInt8} (h : Transferred mem crc8 address chunk 0 s t)
    (h' : Transferred mem crc8 (address + chunk.length) rest ret t u) :
    Transferred mem crc8 address (chunk ++ rest) ret s u := by
  refine ⟨h.commands.trans h'.commands, ?_, ?_⟩
  · intro a ha
    rw [List.length_append] at ha
    rw [h'.outside a (by omega), h.outside a (by omega)]
  · intro hret
    rw [h'.stored hret, h.stored rfl, Flash.program_append]

theorem Transferred.failed {chunk : List UInt8} (hret : ret ≠ 0)
    (h : Transferred mem crc8 address chunk ret s t) :
    Transferred mem crc8 address (chunk ++ rest) ret s t := by
  refine ⟨h.commands, ?_, fun h => absurd h hret⟩
  intro a ha
  rw [List.length_append] at ha
  exact h.outside a (by omega)

theorem writeLoop_transfers {retryCount : UInt8} {fuel : ℕ} {req : DataRequest} {addr : UInt64}
    {data : List UInt8} (hb : StoresWrites backend mem) (haddr : data ≠ [] → addr.toNat = address)
    (hfits : address + data.length ≤ 2 ^ 64) (haligned : 4 ∣ data.length)
    (hfuel : data.length < fuel) :
    ∃ ret s', writeLoop backend crc8 retryCount fuel req addr data s = some (ret, s') ∧
      Transferred mem crc8 address data ret s s' := by
  induction fuel generalizing address req addr data s with
  | zero => omega
  | succ fuel ih =>
    rw [writeLoop]
    by_cases hpos : data.length > 0
    · rw [if_pos hpos]
      dsimp only
      obtain ⟨n, hn⟩ : ∃ n, n = min data.length (maxMsgSize - dataRequestSize) / 4 * 4 := ⟨_, rfl⟩
      rw [← hn]
      have hbounds : 0 < n ∧ n ≤ data.length ∧ n ≤ maxMsgSize - dataRequestSize ∧ 4 ∣ n := by
        simp only [maxMsgSize, dataRequestSize] at hn ⊢
        omega
      obtain ⟨hn0, hnle, hnmax, hn4⟩ := hbounds
      have hlen : (data.take n).length = n := List.length_take_of_le hnle
      have haddress := haddr (List.ne_nil_of_length_pos hpos)
      have hchunk := occpRunTransaction_transfers hb
        (show (data.take n).length ≤ maxMsgSize - dataRequestSize by rw [hlen]; exact hnmax)
        crc8 req addr retryCount.toNat headerSize s
      rw [writeCommand, hlen, haddress] at hchunk
      rw [← List.take_append_drop n data, List.take_left' hlen, List.drop_left' hlen]
      split
      · rename_i hret
        exact ⟨_, _, rfl, hchunk.failed hret⟩
      · rename_i hret
        rw [not_not.mp hret] at hchunk
        have hdrop := List.length_drop (i := n) (l := data)
        have hnext : data.drop n ≠ [] → (addr + UInt64.ofNat n).toNat = address + n := by
          intro hne
          have := List.length_pos_iff.mpr hne
          rw [UInt64.toNat_add, UInt64.toNat_ofNat', haddress]
          omega
        obtain ⟨ret, s', hloop, hrest⟩ := ih hnext (by omega) (by omega) (by omega)
        refine ⟨ret, s', hloop, hchunk.append ?_⟩
        rw [hlen]
        exact hrest
    · rw [if_neg hpos]
      obtain rfl : data = [] := List.eq_nil_of_length_eq_zero (by omega)
      exact ⟨0, s, rfl, .nil⟩

end

/-- **Writes.** To a target that stores writes, `occp_write_data` terminates. When it
returns 0 the memory is the old one with the data in its range; in any case nothing
outside of that range has changed and every command was well-formed. -/
theorem occpWriteData_transfers {σ : Type} {backend : Backend σ} {mem : σ → Flash} {crc8 : Crc8}
    {retryCount : UInt8} {fuel : ℕ} {address : UInt64} {data : List UInt8} {s : Session σ}
    (hb : StoresWrites backend mem) (haddress : 4 ∣ address.toNat) (hlength : 4 ∣ data.length)
    (hfits : address.toNat + data.length ≤ 2 ^ 64) (hfuel : data.length < fuel) :
    ∃ ret s', occpWriteData backend crc8 retryCount fuel address data s = some (ret, s') ∧
      (ret = 0 → mem s'.target = (mem s.target).program address.toNat data) ∧
      (∀ a, a < address.toNat ∨ address.toNat + data.length ≤ a →
        mem s'.target a = mem s.target a) ∧
      ∃ cmds, s'.sent = s.sent ++ cmds ∧ ∀ cmd ∈ cmds, WellFormed crc8 cmd := by
  have haligned : ¬ address % 4 ≠ 0 := by
    rw [not_not]
    apply UInt64.toNat_inj.mp
    rw [UInt64.toNat_mod]
    exact Nat.mod_eq_zero_of_dvd haddress
  obtain ⟨ret, s', hloop, htransferred⟩ : ∃ ret s',
      writeLoop backend crc8 retryCount fuel .zero address data s = some (ret, s') ∧
        Transferred mem crc8 address.toNat data ret s s' :=
    writeLoop_transfers hb (fun _ => rfl) hfits hlength hfuel
  refine ⟨ret, s', ?_, htransferred.stored, htransferred.outside, htransferred.commands⟩
  rw [occpWriteData, if_neg haligned, if_neg (by omega)]
  exact hloop

def obedient : Backend Flash where
  send := fun mem cmd => (0, store mem cmd)
  receive := fun mem len => (0, List.replicate len 0, mem)

theorem storesWrites_obedient : StoresWrites obedient id where
  sent := fun _ _ _ => .inr rfl
  answered := fun _ _ _ _ _ => .inr rfl
  stored := fun _ _ _ _ _ _ _ => rfl

theorem occpWriteData_transfers_obedient : ∃ ret s',
    occpWriteData obedient (fun _ _ _ _ => 0) 10 5 8 [1, 2, 3, 4] ⟨fun _ => 0, [], []⟩ =
      some (ret, s') ∧
      (ret = 0 → s'.target = Flash.program (fun _ => 0) 8 [1, 2, 3, 4]) := by
  obtain ⟨ret, s', hwrite, hstored, -⟩ := @occpWriteData_transfers Flash obedient id
    (fun _ _ _ _ => 0) 10 5 8 [1, 2, 3, 4] ⟨fun _ => 0, [], []⟩ storesWrites_obedient (by decide)
    (by decide) (by decide) (by decide)
  exact ⟨ret, s', hwrite, hstored⟩

end SystemFirmware.Occp
