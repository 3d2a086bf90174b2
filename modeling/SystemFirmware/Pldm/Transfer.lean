import SystemFirmware.Pldm.GetPdr
import SystemFirmware.Pldm.Repository

/-!
# The PDR provider — multipart reads

There is one transfer state for all clients, so a request of one client can end the
transfer of another. A request which the state does not match is refused: a NEXTPART
request is answered only with the part of the record it names, from the offset it names
(`handleGetPdr_cases`).
-/

namespace SystemFirmware.Pldm

open Lib

variable {crc8 : List UInt8 → UInt8} {cfg : ProviderConfig} {p : Provider} {repo : Repository}
  {info : RecordInfo} {i offset : ℕ} {req : ChunkRequest} {resp : ChunkResponse}

-- ---
-- Answers

/-- The answer is the part of record `i` that starts at `offset`. -/
structure IsChunk (crc8 : List UInt8 → UInt8) (repo : Repository) (i : ℕ) (info : RecordInfo)
    (offset : ℕ) (resp : ChunkResponse) : Prop where
  found : repo.records[i]? = some info
  nonempty : 0 < resp.recordData.length
  fits : offset + resp.recordData.length ≤ info.length
  data : resp.recordData = ((repo.recordData info).drop offset).take resp.recordData.length
  flag : resp.transferFlag = transferFlag (decide (offset = 0))
    (decide (offset + resp.recordData.length = info.length))
  next : resp.nextDataTransferHandle =
    if offset + resp.recordData.length = info.length then 0
    else UInt32.ofNat (offset + resp.recordData.length)
  crc : offset + resp.recordData.length = info.length →
    resp.transferCrc = crc8 (repo.recordData info)
  nextRecord : resp.nextRecordHandle = repo.nextHandle i

structure Inv (cfg : ProviderConfig) (p : Provider) : Prop where
  wf : WellFormed p.repo
  fits : p.repo.size ≤ cfg.pdrRepoCapacity
  selected : p.transfer.active = true →
    ∃ info, p.repo.records[p.transfer.recordIndex]? = some info ∧
      info.handle = p.transfer.recordHandle

/-- A transfer that is still open is about record `i`. -/
def Transfer.About (t : Transfer) (i : ℕ) (info : RecordInfo) : Prop :=
  t.active = true → t.recordIndex = i ∧ t.recordHandle = info.handle

theorem length_recordData : (repo.recordData info).length = info.length := Flash.length_read

theorem buildChunk_cases (h : Inv cfg p) (hcount : req.requestCount ≠ 0)
    (hmax : req.maxResponseCount ≠ 0) :
    (∃ e, buildChunk crc8 cfg p i offset req = (.error e, p)) ∨
      ∃ resp t info, buildChunk crc8 cfg p i offset req = (.ok resp, { p with transfer := t }) ∧
        IsChunk crc8 p.repo i info offset resp ∧ t.About i info := by
  cases hget : p.repo.records[i]? with
  | none => exact .inl ⟨.erange, by simp only [buildChunk, getRecordAtIndex, hget]⟩
  | some info =>
    have hcount' : req.requestCount.toNat ≠ 0 := fun hz => hcount (UInt16.toNat_inj.mp hz)
    simp only [buildChunk, h.wf.getRecordAtIndex_ok h.fits hget, length_recordData]
    by_cases hoff : offset ≥ info.length
    · exact .inl ⟨.erange, by simp only [hoff, if_true]⟩
    · obtain ⟨n, hn⟩ : ∃ n, n = min (min req.requestCount.toNat (info.length - offset))
        req.maxResponseCount := ⟨_, rfl⟩
      have hpos : 0 < n := by omega
      have hfits : offset + n ≤ info.length := by omega
      have hlast : (offset + n ≥ info.length) = (offset + n = info.length) :=
        propext ⟨fun hge => by omega, Nat.le_of_eq ∘ Eq.symm⟩
      have hlen : (((p.repo.recordData info).drop offset).take n).length = n := by
        rw [List.length_take, List.length_drop, length_recordData]
        omega
      simp only [hoff, if_false, ← hn, hlast]
      refine .inr ⟨_, _, info, rfl, ?_, ?_⟩
      · exact
          { found := hget
            nonempty := by rw [hlen]; exact hpos
            fits := by rw [hlen]; exact hfits
            data := by rw [hlen]
            flag := by rw [hlen]
            next := by simp only [hlen, decide_eq_true_eq]
            crc := by
              intro heq
              rw [hlen] at heq
              simp only [heq, decide_true, if_true]
            nextRecord := rfl }
      · intro hactive
        simp only [Bool.not_eq_true', decide_eq_false_iff_not] at hactive
        simp only [hactive, decide_false, Bool.false_eq_true, if_false, and_self]

/-- A request for a chunk is about record `i` from `offset` on. -/
def Asks (repo : Repository) (req : ChunkRequest) (i : ℕ) (info : RecordInfo) (offset : ℕ) : Prop :=
  (req.transferOpFlag = pldmGetFirstpart ∧ selectRecord repo req.recordHandle = .ok i ∧
      offset = 0) ∨
    (req.transferOpFlag = pldmGetNextpart ∧ req.recordHandle = info.handle ∧
      offset = req.dataTransferHandle.toNat)

theorem getChunk_cases (h : Inv cfg p) :
    (∃ e, getChunk crc8 cfg p req = (.error e, p)) ∨
      ∃ resp t i info offset, getChunk crc8 cfg p req = (.ok resp, { p with transfer := t }) ∧
        Asks p.repo req i info offset ∧ IsChunk crc8 p.repo i info offset resp ∧
        t.About i info := by
  by_cases hzero : req.requestCount = 0 ∨ req.maxResponseCount = 0
  · exact .inl ⟨.einval, by simp only [getChunk, hzero, if_true]⟩
  obtain ⟨hcount, hmax⟩ := not_or.mp hzero
  simp only [getChunk, hzero, if_false]
  by_cases hfirst : req.transferOpFlag = pldmGetFirstpart
  · simp only [hfirst, if_true]
    cases hselect : selectRecord p.repo req.recordHandle with
    | error e => exact .inl ⟨e, rfl⟩
    | ok i =>
      refine (buildChunk_cases h hcount hmax).imp id ?_
      rintro ⟨resp, t, info, hbuild, hchunk, habout⟩
      exact ⟨resp, t, i, info, 0, hbuild, .inl ⟨hfirst, hselect, rfl⟩, hchunk, habout⟩
  simp only [hfirst, if_false]
  by_cases hnext : req.transferOpFlag = pldmGetNextpart
  · simp only [hnext, if_true]
    split
    · exact .inl ⟨.ebadmsg, rfl⟩
    · rename_i hmatch
      simp only [Bool.or_eq_true, Bool.not_eq_true', bne_iff_ne, ne_eq, not_or, Decidable.not_not,
        Bool.not_eq_false] at hmatch
      obtain ⟨⟨hactive, hhandle⟩, -⟩ := hmatch
      obtain ⟨info, hget, hinfo⟩ := h.selected hactive
      refine (buildChunk_cases h hcount hmax).imp id ?_
      rintro ⟨resp, t, info', hbuild, hchunk, habout⟩
      obtain rfl : info' = info := Option.some.inj (hchunk.found.symm.trans hget)
      exact ⟨resp, t, _, info', _, hbuild, .inr ⟨hnext, hhandle.trans hinfo.symm, rfl⟩, hchunk,
        habout⟩
  · exact .inl ⟨.eopnotsupp, by simp only [hnext, if_false]⟩

/-- **What a GetPDR request does.** It fails and changes nothing, or it is answered with the
part of the record it asks for, and a transfer that stays open is about that record. -/
theorem handleGetPdr_cases {decoded : Except UInt8 GetPdrRequest} (h : Inv cfg p) :
    (∃ cc, handleGetPdr crc8 cfg p decoded = (.error cc, p)) ∨
      ∃ req resp t i info offset, decoded = .ok req ∧
        handleGetPdr crc8 cfg p decoded = (.ok resp, { p with transfer := t }) ∧
        Asks p.repo req.toChunkRequest i info offset ∧
        IsChunk crc8 p.repo i info offset resp ∧ t.About i info := by
  cases decoded with
  | error cc => exact .inl ⟨_, rfl⟩
  | ok req =>
    simp only [handleGetPdr]
    split
    · exact .inl ⟨_, rfl⟩
    split
    · exact .inl ⟨_, rfl⟩
    split
    · exact .inl ⟨_, rfl⟩
    rcases @getChunk_cases crc8 cfg p req.toChunkRequest h with
      ⟨e, he⟩ | ⟨resp, t, i, info, offset, hok, hasks, hchunk, habout⟩
    · exact .inl ⟨_, by rw [he]⟩
    · exact .inr ⟨req, resp, t, i, info, offset, rfl, by rw [hok], hasks, hchunk, habout⟩

variable {decoded : Except UInt8 GetPdrRequest}

theorem handleGetPdr_repo (h : Inv cfg p) :
    (handleGetPdr crc8 cfg p decoded).2.repo = p.repo := by
  rcases @handleGetPdr_cases crc8 cfg p decoded h with ⟨cc, he⟩ | ⟨_, _, _, _, _, _, _, hok, _⟩
  · rw [he]
  · rw [hok]

theorem handleGetPdr_inv {decoded : Except UInt8 GetPdrRequest} (h : Inv cfg p) :
    Inv cfg (handleGetPdr crc8 cfg p decoded).2 := by
  rcases @handleGetPdr_cases crc8 cfg p decoded h with
    ⟨cc, he⟩ | ⟨_, _, t, i, info, _, _, hok, _, hchunk, habout⟩
  · rw [he]
    exact h
  · rw [hok]
    refine ⟨h.wf, h.fits, fun hactive => ⟨info, ?_, (habout hactive).2.symm⟩⟩
    rw [(habout hactive).1]
    exact hchunk.found

theorem buildChunk_failed {e : Errno} (h : (buildChunk crc8 cfg p i offset req).1 = .error e) :
    (buildChunk crc8 cfg p i offset req).2 = p := by
  revert h
  simp only [buildChunk]
  split
  · exact fun _ => rfl
  split
  · exact fun _ => rfl
  · rintro ⟨⟩

theorem getChunk_failed {e : Errno} (h : (getChunk crc8 cfg p req).1 = .error e) :
    (getChunk crc8 cfg p req).2 = p := by
  revert h
  simp only [getChunk]
  split
  · exact fun _ => rfl
  split
  · split
    · exact fun _ => rfl
    · exact buildChunk_failed
  split
  · split
    · exact fun _ => rfl
    · exact buildChunk_failed
  · exact fun _ => rfl

theorem handleGetPdr_failed {cc : CompletionCode}
    (h : (handleGetPdr crc8 cfg p decoded).1 = .error cc) :
    (handleGetPdr crc8 cfg p decoded).2 = p := by
  cases decoded with
  | error cc => rfl
  | ok req =>
    revert h
    simp only [handleGetPdr]
    split
    · exact fun _ => rfl
    split
    · exact fun _ => rfl
    split
    · exact fun _ => rfl
    split
    · rename_i e p' hchunk
      have hfail := @getChunk_failed crc8 cfg p req.toChunkRequest e (by rw [hchunk])
      rw [hchunk] at hfail
      exact fun _ => hfail
    · rintro ⟨⟩

-- ---
-- Updates

theorem updateTidEid_inv {tid endpointId : UInt8} (h : Inv cfg p) :
    Inv cfg (updateTidEid cfg p tid endpointId).2 := by
  simp only [updateTidEid]
  split
  · exact h
  rename_i info hfirst
  split
  · exact h
  rename_i hsizes
  split
  · exact h
  obtain ⟨rest, hrecords⟩ := List.head?_eq_some_iff.mp (List.head?_eq_getElem? ▸ hfirst)
  refine ⟨⟨h.wf.tiles, h.wf.handles, fun other hmem => ?_, h.wf.largest⟩, h.fits, h.selected⟩
  refine (h.wf.headers other hmem).congr fun k hk => ?_
  have hapart : other.offset = info.offset ∨
      info.offset + terminusLocatorPdrSize ≤ other.offset := by
    have htiles := h.wf.tiles
    rw [hrecords] at hmem htiles
    rcases List.mem_cons.mp hmem with rfl | hrest
    · exact .inl rfl
    · have := htiles.2.bounds hrest
      have := htiles.1
      exact .inr (by omega)
  simp only [pdrHdrSize, terminusLocatorPdrSize, tidOffset, terminusLocatorValueOffset] at *
  rw [Flash.program_outside (by rw [List.length_singleton]; omega),
    Flash.program_outside (by rw [List.length_singleton]; omega)]

-- ---
-- Runs

theorem step_inv (h : Inv cfg p) (a : Action) : Inv cfg (p.step crc8 cfg a) := by
  cases a with
  | getPdr decoded => exact handleGetPdr_inv h
  | updateTidEid tid endpointId => exact updateTidEid_inv h

theorem run_inv (h : Inv cfg p) (actions : List Action) :
    Inv cfg (actions.foldl (Provider.step crc8 cfg) p) := by
  induction actions generalizing p with
  | nil => exact h
  | cons a actions ih => exact ih (step_inv h a)

variable {κ : Type*}

variable {requests : List (κ × Except UInt8 GetPdrRequest)} {c : κ}

theorem serve_answers {req : GetPdrRequest} {resp : ChunkResponse} (h : Inv cfg p)
    (hmem : ⟨c, .ok req, .ok resp⟩ ∈ serve crc8 cfg p requests) :
    ∃ i info offset, Asks p.repo req.toChunkRequest i info offset ∧
      IsChunk crc8 p.repo i info offset resp := by
  induction requests generalizing p with
  | nil => simp [serve] at hmem
  | cons request requests ih =>
    rw [serve] at hmem
    rcases List.mem_cons.mp hmem with heq | hrest
    · obtain ⟨-, hreq, hresp⟩ := Exchange.mk.inj heq
      rcases @handleGetPdr_cases crc8 cfg p request.2 h with
        ⟨cc, he⟩ | ⟨req', resp', t, i, info, offset, hreq', hok, hasks, hchunk, -⟩
      · rw [he] at hresp
        cases hresp
      · rw [hok] at hresp
        obtain rfl := Except.ok.inj hresp
        obtain rfl := Except.ok.inj (hreq.trans hreq')
        exact ⟨i, info, offset, hasks, hchunk⟩
    · obtain ⟨i, info, offset, hasks, hchunk⟩ := ih (handleGetPdr_inv h) hrest
      rw [handleGetPdr_repo h] at hasks hchunk
      exact ⟨i, info, offset, hasks, hchunk⟩

-- ---
-- Reads

def ChunkResponse.IsLast (resp : ChunkResponse) : Prop :=
  resp.transferFlag = .pldmEnd ∨ resp.transferFlag = .pldmStartAndEnd

/-- How a client goes on about record `i`: until the last part, it asks for the next one with a
handle of the record and the data transfer handle it got. -/
def Continues (repo : Repository) (i : ℕ) :
    ChunkResponse → List (GetPdrRequest × ChunkResponse) → Prop
  | resp, [] => resp.IsLast
  | resp, (req, resp') :: rest =>
    ¬ resp.IsLast ∧ req.transferOpFlag = pldmGetNextpart ∧
      selectRecord repo req.recordHandle = .ok i ∧
      req.dataTransferHandle = resp.nextDataTransferHandle ∧ Continues repo i resp' rest

def expectedFlags : ℕ → List TransferFlag
  | 0 => []
  | 1 => [.pldmStartAndEnd]
  | n + 2 => .pldmStart :: List.replicate n .pldmMiddle ++ [.pldmEnd]

theorem transferFlag_last {isFirst isLast : Bool} :
    (transferFlag isFirst isLast = .pldmEnd ∨ transferFlag isFirst isLast = .pldmStartAndEnd) ↔
      isLast = true := by
  cases isFirst <;> cases isLast <;> simp [transferFlag]

theorem IsChunk.isLast_iff (h : IsChunk crc8 repo i info offset resp) :
    resp.IsLast ↔ offset + resp.recordData.length = info.length := by
  rw [ChunkResponse.IsLast, h.flag, transferFlag_last, decide_eq_true_eq]

theorem IsChunk.following {next : GetPdrRequest} {resp' : ChunkResponse} {j : ℕ}
    {info' : RecordInfo} {offset' : ℕ} (hwf : WellFormed repo)
    (h : IsChunk crc8 repo i info offset resp) (hlast : ¬ resp.IsLast)
    (hop : next.transferOpFlag = pldmGetNextpart)
    (hselect : selectRecord repo next.recordHandle = .ok i)
    (hdata : next.dataTransferHandle = resp.nextDataTransferHandle)
    (hasks : Asks repo next.toChunkRequest j info' offset')
    (hchunk : IsChunk crc8 repo j info' offset' resp') :
    IsChunk crc8 repo i info (offset + resp.recordData.length) resp' := by
  rcases hasks with ⟨hfirst, -⟩ | ⟨-, hhandle, hoffset⟩
  · have : pldmGetNextpart = pldmGetFirstpart := hop.symm.trans hfirst
    exact absurd this (by decide)
  · have hself := hwf.selectRecord_ok hchunk.found
    rw [← hhandle] at hself
    obtain rfl : i = j := Except.ok.inj (hselect.symm.trans hself)
    obtain rfl : info' = info := Option.some.inj (hchunk.found.symm.trans h.found)
    have hheader := hwf.headers info' (List.mem_of_getElem? h.found)
    have hnext := h.next
    rw [if_neg (fun heq => hlast (h.isLast_iff.mpr heq))] at hnext
    have hsmall : offset + resp.recordData.length < UInt32.size := by
      have hlen := hheader.2.1
      have hfits := h.fits
      simp only [pdrHdrSize, UInt32.size] at hlen ⊢
      omega
    have : offset' = offset + resp.recordData.length := by
      rw [hoffset]
      show next.dataTransferHandle.toNat = _
      rw [hdata, hnext, UInt32.toNat_ofNat_of_lt' hsmall]
    rwa [this] at hchunk

/-- The exchanges a client collects after the first one. -/
def Answered (crc8 : List UInt8 → UInt8) (repo : Repository)
    (rest : List (GetPdrRequest × ChunkResponse)) : Prop :=
  ∀ e ∈ rest, ∃ i info offset, Asks repo e.1.toChunkRequest i info offset ∧
    IsChunk crc8 repo i info offset e.2

structure Reassembled (crc8 : List UInt8 → UInt8) (repo : Repository) (i : ℕ) (info : RecordInfo)
    (offset : ℕ) (parts : List ChunkResponse) : Prop where
  data : parts.flatMap (·.recordData) = (repo.recordData info).drop offset
  flags : parts.map (·.transferFlag) =
    if offset = 0 then expectedFlags parts.length
    else List.replicate (parts.length - 1) .pldmMiddle ++ [.pldmEnd]
  crc : ∀ last ∈ parts.getLast?, last.transferCrc = crc8 (repo.recordData info)
  nextRecord : ∀ part ∈ parts, part.nextRecordHandle = repo.nextHandle i

theorem IsChunk.append_drop (h : IsChunk crc8 repo i info offset resp) :
    resp.recordData ++ (repo.recordData info).drop (offset + resp.recordData.length) =
      (repo.recordData info).drop offset := by
  calc resp.recordData ++ (repo.recordData info).drop (offset + resp.recordData.length)
      = ((repo.recordData info).drop offset).take resp.recordData.length ++
          ((repo.recordData info).drop offset).drop resp.recordData.length := by
        rw [List.drop_drop, ← h.data]
    _ = (repo.recordData info).drop offset := List.take_append_drop ..

theorem IsChunk.reassembled_last (h : IsChunk crc8 repo i info offset resp)
    (hend : offset + resp.recordData.length = info.length) :
    Reassembled crc8 repo i info offset [resp] where
  data := by
    have happend := h.append_drop
    rw [hend, List.drop_of_length_le (Nat.le_of_eq length_recordData)] at happend
    rw [← happend, List.flatMap_singleton, List.append_nil]
  flags := by
    rw [List.map_singleton, h.flag, hend]
    by_cases hfirst : offset = 0 <;> simp [hfirst, transferFlag, expectedFlags]
  crc := by
    intro last hlast
    rw [← Option.some.inj hlast]
    exact h.crc hend
  nextRecord := by
    intro part hpart
    rw [List.mem_singleton.mp hpart]
    exact h.nextRecord

theorem IsChunk.reassembled_cons {parts : List ChunkResponse} (hne : parts ≠ [])
    (h : IsChunk crc8 repo i info offset resp)
    (hend : offset + resp.recordData.length ≠ info.length)
    (hread : Reassembled crc8 repo i info (offset + resp.recordData.length) parts) :
    Reassembled crc8 repo i info offset (resp :: parts) where
  data := by rw [List.flatMap_cons, hread.data, h.append_drop]
  flags := by
    have hpos := h.nonempty
    obtain ⟨part, parts, rfl⟩ := List.exists_cons_of_ne_nil hne
    rw [List.map_cons, hread.flags, h.flag, if_neg (by omega)]
    by_cases hfirst : offset = 0
    · subst hfirst
      rw [Nat.zero_add] at hend
      simp [hend, transferFlag, expectedFlags]
    · simp [hfirst, hend, transferFlag, List.replicate_succ]
  crc := by
    intro last hlast
    rw [List.getLast?_cons_of_ne_nil hne] at hlast
    exact hread.crc last hlast
  nextRecord := by
    intro part hpart
    rcases List.mem_cons.mp hpart with rfl | hrest
    · exact h.nextRecord
    · exact hread.nextRecord part hrest

variable {rest : List (GetPdrRequest × ChunkResponse)}

theorem Continues.reassembles (hwf : WellFormed repo) (h : Continues repo i resp rest)
    (hchunk : IsChunk crc8 repo i info offset resp) (hans : Answered crc8 repo rest) :
    Reassembled crc8 repo i info offset (resp :: rest.map Prod.snd) := by
  -- on the exchanges still to come: each begins where the parts before it end
  induction rest generalizing resp offset with
  | nil => exact hchunk.reassembled_last (hchunk.isLast_iff.mp h)
  | cons e rest ih =>
    obtain ⟨hlast, hop, hselect, hdata, hrest⟩ := h
    obtain ⟨j, info', offset', hasks, hchunk'⟩ := hans e List.mem_cons_self
    have hnext := hchunk.following hwf hlast hop hselect hdata hasks hchunk'
    have hread := ih hrest hnext (fun e he => hans e (List.mem_cons_of_mem _ he))
    exact hchunk.reassembled_cons (List.cons_ne_nil _ _)
      (fun hend => hlast (hchunk.isLast_iff.mpr hend)) hread

-- ---
-- The provider that init leaves behind

theorem init_inv {sensors : List NumericSensorDesc}
    (hinit : providerInit (providerConfig sensors) = .ok repo)
    (hsize : pdrRepoSize sensors < UInt32.size) :
    Inv (providerConfig sensors) { repo := repo } := by
  obtain ⟨hwf, hfits⟩ := wellFormed_of_init hinit hsize
  exact ⟨hwf, hfits, fun hactive => absurd hactive Bool.false_ne_true⟩

def Exchange.succeeded {κ : Type*} (c : κ) (e : GetPdrRequest × ChunkResponse) : Exchange κ :=
  ⟨c, .ok e.1, .ok e.2⟩

/-- Client `c` reads record `i`: a FIRSTPART request for it and the NEXTPART requests that follow
its handles, all successful, up to an answer flagged as the last. -/
structure IsRead {κ : Type*} (log : List (Exchange κ)) (repo : Repository) (c : κ) (i : ℕ)
    (info : RecordInfo) (first : GetPdrRequest × ChunkResponse)
    (rest : List (GetPdrRequest × ChunkResponse)) : Prop where
  exchanges : ((first :: rest).map (Exchange.succeeded c)).Sublist log
  firstPart : first.1.transferOpFlag = pldmGetFirstpart
  selects : selectRecord repo first.1.recordHandle = .ok i
  found : repo.records[i]? = some info
  continues : Continues repo i first.2 rest

variable {first : GetPdrRequest × ChunkResponse}

theorem IsRead.answered (hinv : Inv cfg p)
    (h : IsRead (serve crc8 cfg p requests) p.repo c i info first rest) :
    Answered crc8 p.repo (first :: rest) := by
  intro e he
  exact serve_answers hinv (h.exchanges.subset (List.mem_map_of_mem he))

theorem IsRead.first_chunk {log : List (Exchange κ)} (h : IsRead log repo c i info first rest)
    (hans : Answered crc8 repo (first :: rest)) : IsChunk crc8 repo i info 0 first.2 := by
  obtain ⟨j, info', offset, hasks, hchunk⟩ := hans first List.mem_cons_self
  rcases hasks with ⟨-, hselect, rfl⟩ | ⟨hnext, -⟩
  · obtain rfl : i = j := Except.ok.inj (h.selects.symm.trans hselect)
    obtain rfl : info' = info := Option.some.inj (hchunk.found.symm.trans h.found)
    exact hchunk
  · have : pldmGetFirstpart = pldmGetNextpart := h.firstPart.symm.trans hnext
    exact absurd this (by decide)

/-- **Multipart reads reassemble the record**, after any requests and updates (`before`), while
any clients send any requests and the terminus locator record is not updated: the parts a client
gets (`IsRead`) are the record, in order, with the right flags and CRC-8. A request that fails
leaves the transfer as it was. `hsize`: the sizes of the machine have 32 bits. -/
theorem multipart_read_reassembles {κ : Type*} (crc8 : List UInt8 → UInt8)
    {sensors : List NumericSensorDesc} {repo : Repository}
    (hinit : providerInit (providerConfig sensors) = .ok repo)
    (hsize : pdrRepoSize sensors < UInt32.size) (before : List Action)
    (requests : List (κ × Except UInt8 GetPdrRequest)) :
    (∀ p, p = before.foldl (Provider.step crc8 (providerConfig sensors)) { repo := repo } →
      ∀ c i info first rest,
        IsRead (serve crc8 (providerConfig sensors) p requests) p.repo c i info first rest →
        (first :: rest).flatMap (·.2.recordData) = p.repo.recordData info ∧
          (first :: rest).map (·.2.transferFlag) = expectedFlags (rest.length + 1) ∧
          (∀ last ∈ (first :: rest).getLast?,
            last.2.transferCrc = crc8 (p.repo.recordData info)) ∧
          ∀ e ∈ first :: rest, e.2.nextRecordHandle = p.repo.nextHandle i) ∧
      ∀ (p : Provider) (decoded : Except UInt8 GetPdrRequest) (cc : CompletionCode),
        (handleGetPdr crc8 (providerConfig sensors) p decoded).1 = .error cc →
        (handleGetPdr crc8 (providerConfig sensors) p decoded).2.transfer = p.transfer := by
  refine ⟨?_, fun p decoded cc hfail => congrArg Provider.transfer (handleGetPdr_failed hfail)⟩
  intro p hp c i info first rest hread
  have hinv : Inv (providerConfig sensors) p := hp ▸ run_inv (init_inv hinit hsize) before
  have hans := hread.answered hinv
  have hparts := hread.continues.reassembles hinv.wf (hread.first_chunk hans)
    (fun e he => hans e (List.mem_cons_of_mem _ he))
  rw [← List.map_cons] at hparts
  refine ⟨?_, ?_, ?_, ?_⟩
  · have hdata := hparts.data
    rwa [List.flatMap_map, List.drop_zero] at hdata
  · have hflags := hparts.flags
    rwa [List.map_map, if_pos rfl, List.length_map] at hflags
  · intro last hlast
    refine hparts.crc last.2 ?_
    rw [List.getLast?_map, Option.mem_def.mp hlast]
    rfl
  · intro e he
    exact hparts.nextRecord e.2 (List.mem_map_of_mem he)

def locatorRepo : Repository :=
  ({} : Repository).addRecord (Flash.program (fun _ => 0) 0 (terminusLocatorPdr 1)) 1 19

theorem providerInit_locator : providerInit (providerConfig []) = .ok locatorRepo := rfl

def locatorParts : (GetPdrRequest × ChunkResponse) × (GetPdrRequest × ChunkResponse) :=
  ((⟨0, 0, pldmGetFirstpart, 10, 0⟩, ⟨0, 10, .pldmStart, (terminusLocatorPdr 1).take 10, 0⟩),
    (⟨1, 10, pldmGetNextpart, 48, 0⟩, ⟨0, 0, .pldmEnd, (terminusLocatorPdr 1).drop 10, 7⟩))

def locatorRequests : List (Bool × Except UInt8 GetPdrRequest) :=
  [ (false, .ok locatorParts.1.1), (true, .ok ⟨1, 11, pldmGetNextpart, 48, 0⟩),
    (false, .ok locatorParts.2.1) ]

theorem locator_reassembles :
    [locatorParts.1, locatorParts.2].flatMap (·.2.recordData) =
      locatorRepo.recordData ⟨1, 0, 19⟩ := by
  have hlog : serve (fun _ => 7) (providerConfig []) { repo := locatorRepo } locatorRequests =
      [ Exchange.succeeded false locatorParts.1,
        ⟨true, .ok ⟨1, 11, pldmGetNextpart, 48, 0⟩, .error .platformInvalidDataTransferHandle⟩,
        Exchange.succeeded false locatorParts.2 ] := rfl
  have hread : IsRead (serve (fun _ => 7) (providerConfig []) { repo := locatorRepo }
      locatorRequests) locatorRepo false 0 ⟨1, 0, 19⟩ locatorParts.1 [locatorParts.2] := by
    refine ⟨?_, rfl, rfl, rfl, ?_, rfl, rfl, rfl, .inl rfl⟩
    · rw [hlog]
      exact .cons_cons _ (.cons _ (.cons_cons _ .slnil))
    · rintro (h | h) <;> cases h
  exact ((multipart_read_reassembles (fun _ => 7) providerInit_locator (by decide) []
    locatorRequests).1 _ rfl _ _ _ _ _ hread).1

end SystemFirmware.Pldm
