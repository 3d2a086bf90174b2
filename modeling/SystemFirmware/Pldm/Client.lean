import SystemFirmware.Pldm.Transfer

/-!
# The PDR provider — a client on its own

A client reads a record with FIRSTPART and then NEXTPART requests that repeat the handle it
began with, and nobody else sends anything. The provider keeps the handle of the record it
sends, and compares it with the handle of each NEXTPART (`get_pdr_client_completes_iff`).
-/

namespace SystemFirmware.Pldm

open Lib

variable {crc8 : List UInt8 → UInt8} {cfg : ProviderConfig} {p : Provider} {info : RecordInfo}
  {i offset : ℕ} {handle dataHandle : UInt32} {count : UInt16} {counts : ℕ → UInt16}
  {resp : ChunkResponse}

-- ---
-- The client

def partRequest (op : UInt8) (handle dataHandle : UInt32) (count : UInt16) : GetPdrRequest :=
  ⟨handle, dataHandle, op, count, pdrRecordChangeNum⟩

inductive ReadOutcome where
  /-- All requests succeeded, and the last answer was flagged as the end of the record. -/
  | complete (parts : List ChunkResponse)
  | refused (cc : CompletionCode)
  | unfinished
  deriving DecidableEq

def ReadOutcome.cons (resp : ChunkResponse) : ReadOutcome → ReadOutcome
  | .complete parts => .complete (resp :: parts)
  | outcome => outcome

instance (resp : ChunkResponse) : Decidable resp.IsLast := inferInstanceAs (Decidable (_ ∨ _))

/-- A client that follows the handles for at most `fuel` requests, with `counts k` bytes in the
`k`-th from here on. -/
def readRecord (crc8 : List UInt8 → UInt8) (cfg : ProviderConfig) (handle : UInt32) :
    ℕ → (ℕ → UInt16) → Provider → UInt8 → UInt32 → ReadOutcome
  | 0, _, _, _, _ => .unfinished
  | fuel + 1, counts, p, op, dataHandle =>
    match handleGetPdr crc8 cfg p (.ok (partRequest op handle dataHandle (counts 0))) with
    | (.error cc, _) => .refused cc
    | (.ok resp, p) =>
      if resp.IsLast then .complete [resp]
      else (readRecord crc8 cfg handle fuel (fun k => counts (k + 1)) p pldmGetNextpart
        resp.nextDataTransferHandle).cons resp

-- ---
-- One part

theorem handleGetPdr_part {op : UInt8} {result : Except Errno ChunkResponse × Provider}
    (hop : op = pldmGetFirstpart ∨ op = pldmGetNextpart) (hcount : count ≠ 0)
    (hchunk : getChunk crc8 cfg p (partRequest op handle dataHandle count).toChunkRequest = result) :
    handleGetPdr crc8 cfg p (.ok (partRequest op handle dataHandle count)) =
      (result.1.mapError completionCode, result.2) := by
  obtain ⟨req, hreq⟩ : ∃ req, req = partRequest op handle dataHandle count := ⟨_, rfl⟩
  have hchange : ¬ req.recordChangeNumber ≠ pdrRecordChangeNum := by
    rw [hreq]
    exact not_not_intro rfl
  have hzero : ¬ req.requestCount = 0 := by
    rw [hreq]
    exact hcount
  have hflag : ¬ (req.transferOpFlag ≠ pldmGetFirstpart ∧ req.transferOpFlag ≠ pldmGetNextpart) := by
    rw [hreq]
    rintro ⟨hfirst, hnext⟩
    exact hop.elim hfirst hnext
  rw [← hreq] at hchunk ⊢
  simp only [handleGetPdr, if_neg hchange, if_neg hzero, if_neg hflag, hchunk]
  rcases result with ⟨e | resp, p'⟩
  · rfl
  · rfl

theorem buildChunk_sends {req : ChunkRequest} (h : Inv cfg p)
    (hfound : p.repo.records[i]? = some info) (hoffset : offset < info.length)
    (hcount : req.requestCount ≠ 0) (hmax : req.maxResponseCount ≠ 0) :
    ∃ resp p', buildChunk crc8 cfg p i offset req = (.ok resp, p') ∧
      IsChunk crc8 p.repo i info offset resp ∧ resp.recordData.length =
        min (min req.requestCount.toNat (info.length - offset)) req.maxResponseCount ∧
      p'.repo = p.repo ∧ (¬ resp.IsLast → p'.transfer = ⟨true, info.handle, i, resp.nextDataTransferHandle⟩) := by
  have hrecord := h.wf.getRecordAtIndex_ok h.fits hfound
  have hinside : ¬ offset ≥ (p.repo.recordData info).length := by
    rw [length_recordData]
    omega
  obtain ⟨last, hlast⟩ : ∃ b, b = decide (offset + min (min req.requestCount.toNat
    ((p.repo.recordData info).length - offset)) req.maxResponseCount ≥
      (p.repo.recordData info).length) := ⟨_, rfl⟩
  rcases @buildChunk_cases crc8 cfg p i offset req h hcount hmax with
    ⟨e, he⟩ | ⟨resp, t, info', hbuild, hchunk, -⟩
  · simp only [buildChunk, hrecord, if_neg hinside] at he
    exact absurd (congrArg Prod.fst he) (by simp)
  · obtain rfl : info' = info := Option.some.inj (hchunk.found.symm.trans hfound)
    have hparts := hbuild
    simp only [buildChunk, hrecord, if_neg hinside, ← hlast] at hparts
    obtain ⟨hresp, hp⟩ := Prod.mk.inj hparts
    have hresp := Except.ok.inj hresp
    refine ⟨resp, _, hbuild, hchunk, ?_, rfl, fun hnotLast => ?_⟩
    · rw [← hresp, List.length_take, List.length_drop, length_recordData]
      omega
    · -- the flag of the answer says which branch was taken
      rcases last with _ | _
      · rw [← hp, ← hresp]
        rfl
      · refine absurd ?_ hnotLast
        rw [ChunkResponse.IsLast, ← hresp]
        exact transferFlag_last.mpr rfl

section

variable {req : ChunkRequest}

variable (hcount : req.requestCount ≠ 0) (hmax : req.maxResponseCount ≠ 0)
include hcount hmax

theorem getChunk_firstPart (hop : req.transferOpFlag = pldmGetFirstpart)
    (hselect : selectRecord p.repo req.recordHandle = .ok i) :
    getChunk crc8 cfg p req = buildChunk crc8 cfg p i 0 req := by
  simp only [getChunk, if_neg (not_or.mpr ⟨hcount, hmax⟩), if_pos hop, hselect]

theorem getChunk_nextPart (hop : req.transferOpFlag = pldmGetNextpart)
    (htransfer : p.transfer = ⟨true, req.recordHandle, i, req.dataTransferHandle⟩) :
    getChunk crc8 cfg p req = buildChunk crc8 cfg p i req.dataTransferHandle.toNat req := by
  have hnotFirst : req.transferOpFlag ≠ pldmGetFirstpart := by
    rw [hop]
    decide
  simp only [getChunk, if_neg (not_or.mpr ⟨hcount, hmax⟩), if_neg hnotFirst, if_pos hop, htransfer,
    Bool.not_true, bne_self_eq_false, Bool.or_self, Bool.false_eq_true, if_false]

theorem getChunk_mismatch (hop : req.transferOpFlag = pldmGetNextpart)
    (hother : req.recordHandle ≠ p.transfer.recordHandle) :
    getChunk crc8 cfg p req = (.error .ebadmsg, p) := by
  have hnotFirst : req.transferOpFlag ≠ pldmGetFirstpart := by
    rw [hop]
    decide
  simp only [getChunk, if_neg (not_or.mpr ⟨hcount, hmax⟩), if_neg hnotFirst, if_pos hop,
    bne_iff_ne.mpr hother, Bool.or_true, Bool.true_or, if_true]

end

theorem getPdrMaxDataLen_ne_zero : getPdrMaxDataLen ≠ 0 := by decide

/-- The request gets the part of record `i` from `offset` on. Unless it is the last, the
transfer stays open, with the handle of the record. -/
structure Sends (crc8 : List UInt8 → UInt8) (cfg : ProviderConfig) (p : Provider)
    (req : GetPdrRequest) (i : ℕ) (info : RecordInfo) (offset : ℕ) (resp : ChunkResponse)
    (p' : Provider) : Prop where
  answer : handleGetPdr crc8 cfg p (.ok req) = (.ok resp, p')
  chunk : IsChunk crc8 p.repo i info offset resp
  length : resp.recordData.length =
    min (min req.requestCount.toNat (info.length - offset)) getPdrMaxDataLen
  inv : Inv cfg p'
  repo : p'.repo = p.repo
  transfer : ¬ resp.IsLast → p'.transfer = ⟨true, info.handle, i, resp.nextDataTransferHandle⟩

theorem part_sends {op : UInt8} (hop : op = pldmGetFirstpart ∨ op = pldmGetNextpart)
    (h : Inv cfg p) (hfound : p.repo.records[i]? = some info) (hoffset : offset < info.length)
    (hcount : count ≠ 0)
    (hget : getChunk crc8 cfg p (partRequest op handle dataHandle count).toChunkRequest =
      buildChunk crc8 cfg p i offset (partRequest op handle dataHandle count).toChunkRequest) :
    ∃ resp p', Sends crc8 cfg p (partRequest op handle dataHandle count) i info offset resp p' := by
  obtain ⟨resp, p', hbuild, hchunk, hlength, hrepo, hopen⟩ := @buildChunk_sends crc8 cfg p info i offset
    (partRequest op handle dataHandle count).toChunkRequest h hfound hoffset hcount
    getPdrMaxDataLen_ne_zero
  have hanswer := handleGetPdr_part hop hcount (hget.trans hbuild)
  have hinv := @handleGetPdr_inv crc8 cfg p (.ok (partRequest op handle dataHandle count)) h
  rw [hanswer] at hinv
  exact ⟨resp, p', hanswer, hchunk, hlength, hinv, hrepo, hopen⟩

theorem firstPart_sends (h : Inv cfg p) (hselect : selectRecord p.repo handle = .ok i)
    (hfound : p.repo.records[i]? = some info) (hcount : count ≠ 0) :
    ∃ resp p', Sends crc8 cfg p (partRequest pldmGetFirstpart handle dataHandle count) i info 0
      resp p' := by
  have hlength : 0 < info.length := by
    have hheader := (h.wf.headers info (List.mem_of_getElem? hfound)).1
    rw [pdrHdrSize] at hheader
    omega
  exact part_sends (Or.inl rfl) h hfound hlength hcount
    (getChunk_firstPart hcount getPdrMaxDataLen_ne_zero rfl hselect)

theorem Sends.isLast_iff {req : GetPdrRequest} {p' : Provider}
    (h : Sends crc8 cfg p req i info 0 resp p') :
    resp.IsLast ↔ info.length ≤ min req.requestCount.toNat getPdrMaxDataLen := by
  have hlength := h.length
  have hfits := h.chunk.fits
  rw [h.chunk.isLast_iff]
  omega

theorem IsChunk.next_toNat {repo : Repository} (hwf : WellFormed repo)
    (h : IsChunk crc8 repo i info offset resp) (hlast : ¬ resp.IsLast) :
    resp.nextDataTransferHandle.toNat = offset + resp.recordData.length ∧
      offset + resp.recordData.length < info.length := by
  have hne : offset + resp.recordData.length ≠ info.length := fun heq =>
    hlast (h.isLast_iff.mpr heq)
  have hlt : offset + resp.recordData.length < info.length := Nat.lt_of_le_of_ne h.fits hne
  have hlen := (hwf.headers info (List.mem_of_getElem? h.found)).2.1
  rw [pdrHdrSize] at hlen
  rw [h.next, if_neg hne]
  exact ⟨UInt32.toNat_ofNat_of_lt' (show _ < 2 ^ 32 by omega), hlt⟩

-- ---
-- The whole read

theorem readRecord_round {op : UInt8} {n : ℕ} {p' : Provider}
    (hsent : Sends crc8 cfg p (partRequest op handle dataHandle (counts 0)) i info offset resp p')
    (hrest : ¬ resp.IsLast → ∃ parts, ∀ fuel, n ≤ fuel →
      readRecord crc8 cfg handle fuel (fun k => counts (k + 1)) p' pldmGetNextpart
        resp.nextDataTransferHandle = .complete parts) :
    ∃ parts, ∀ fuel, n < fuel →
      readRecord crc8 cfg handle fuel counts p op dataHandle = .complete parts := by
  by_cases hlast : resp.IsLast
  · refine ⟨[resp], fun fuel hfuel => ?_⟩
    obtain ⟨fuel, rfl⟩ := Nat.exists_eq_add_one_of_ne_zero (show fuel ≠ 0 by omega)
    simp only [readRecord, hsent.answer, if_pos hlast]
  · obtain ⟨parts, hparts⟩ := hrest hlast
    refine ⟨resp :: parts, fun fuel hfuel => ?_⟩
    obtain ⟨fuel, rfl⟩ := Nat.exists_eq_add_one_of_ne_zero (show fuel ≠ 0 by omega)
    simp only [readRecord, hsent.answer, if_neg hlast, hparts fuel (by omega)]
    rfl

theorem readRecord_nextParts (h : Inv cfg p) (hfound : p.repo.records[i]? = some info)
    (htransfer : p.transfer = ⟨true, info.handle, i, dataHandle⟩)
    (hoffset : dataHandle.toNat < info.length) (hcounts : ∀ k, counts k ≠ 0) :
    ∃ parts, ∀ fuel, info.length - dataHandle.toNat ≤ fuel →
      readRecord crc8 cfg info.handle fuel counts p pldmGetNextpart dataHandle =
        .complete parts := by
  induction hleft : info.length - dataHandle.toNat using Nat.strong_induction_on
    generalizing p dataHandle counts with
  | h left ih =>
    obtain ⟨resp, p', hsent⟩ := @part_sends crc8 cfg p info i dataHandle.toNat info.handle
      dataHandle (counts 0) pldmGetNextpart (Or.inr rfl) h hfound hoffset (hcounts 0)
      (getChunk_nextPart (hcounts 0) getPdrMaxDataLen_ne_zero rfl htransfer)
    obtain ⟨parts, hparts⟩ := @readRecord_round crc8 cfg p info i dataHandle.toNat info.handle
      dataHandle counts resp pldmGetNextpart (left - 1) p' hsent fun hlast => by
        obtain ⟨hnext, hinside⟩ := hsent.chunk.next_toNat h.wf hlast
        have hpos := hsent.chunk.nonempty
        obtain ⟨parts, hrest⟩ := ih (info.length - resp.nextDataTransferHandle.toNat) (by omega)
          hsent.inv (hsent.repo ▸ hfound) (hsent.transfer hlast) (by omega)
          (fun k => hcounts (k + 1)) rfl
        exact ⟨parts, fun fuel hfuel => hrest fuel (by omega)⟩
    exact ⟨parts, fun fuel hfuel => hparts fuel (by omega)⟩

theorem readRecord_completes (h : Inv cfg p) (hselect : selectRecord p.repo handle = .ok i)
    (hfound : p.repo.records[i]? = some info) (hcounts : ∀ k, counts k ≠ 0)
    (hnamed : handle = info.handle ∨ info.length ≤ min (counts 0).toNat getPdrMaxDataLen) :
    ∃ parts, ∀ fuel, info.length < fuel →
      readRecord crc8 cfg handle fuel counts p pldmGetFirstpart dataHandle = .complete parts := by
  obtain ⟨resp, p', hsent⟩ :=
    @firstPart_sends crc8 cfg p info i handle dataHandle (counts 0) h hselect hfound (hcounts 0)
  refine readRecord_round hsent fun hlast => ?_
  obtain rfl := hnamed.resolve_right fun hlength => hlast (hsent.isLast_iff.mpr hlength)
  obtain ⟨hnext, hinside⟩ := hsent.chunk.next_toNat h.wf hlast
  obtain ⟨parts, hrest⟩ := @readRecord_nextParts crc8 cfg p' info i
    resp.nextDataTransferHandle (fun k => counts (k + 1)) hsent.inv (hsent.repo ▸ hfound)
    (hsent.transfer hlast) (by omega) (fun k => hcounts (k + 1))
  exact ⟨parts, fun fuel hfuel => hrest fuel (by omega)⟩

/-- **Handle 0 is refused** with the second part, because the transfer has the handle of the
record. -/
theorem readRecord_zero_refused (h : Inv cfg p) (hfound : p.repo.records[0]? = some info)
    (hcounts : ∀ k, counts k ≠ 0)
    (hlong : ¬ info.length ≤ min (counts 0).toNat getPdrMaxDataLen) (fuel : ℕ) :
    readRecord crc8 cfg 0 (fuel + 2) counts p pldmGetFirstpart dataHandle =
      .refused .platformInvalidDataTransferHandle := by
  obtain ⟨resp, p', hsent⟩ :=
    @firstPart_sends crc8 cfg p info 0 0 dataHandle (counts 0) h rfl hfound (hcounts 0)
  have hlast : ¬ resp.IsLast := fun hlast => hlong (hsent.isLast_iff.mp hlast)
  have hother : (0 : UInt32) ≠ p'.transfer.recordHandle := by
    rw [hsent.transfer hlast]
    exact (h.wf.handle_ne_zero hfound).symm
  have hrefused := @handleGetPdr_part crc8 cfg p' 0 resp.nextDataTransferHandle (counts 1)
    pldmGetNextpart _ (Or.inr rfl) (hcounts 1)
    (getChunk_mismatch (hcounts 1) getPdrMaxDataLen_ne_zero rfl hother)
  simp only [readRecord, hsent.answer, if_neg hlast, hrefused]
  rfl

theorem selectRecord_handle (hne : handle ≠ 0) (hselect : selectRecord p.repo handle = .ok i)
    (hfound : p.repo.records[i]? = some info) : handle = info.handle := by
  rw [selectRecord, if_neg hne, findRecordIndex] at hselect
  rcases hidx : p.repo.records.findIdx? (·.handle = handle) with _ | j
  · rw [hidx] at hselect
    exact absurd hselect (by simp)
  · rw [hidx] at hselect
    obtain rfl : j = i := Except.ok.inj hselect
    obtain ⟨hlt, hj, -⟩ := List.findIdx?_eq_some_iff_getElem.mp hidx
    obtain ⟨_, hget⟩ := List.getElem?_eq_some_iff.mp hfound
    rw [hget] at hj
    exact (of_decide_eq_true hj).symm

theorem firstpart_accepted (h : Inv cfg p)
    (haccepted : (handleGetPdr crc8 cfg p
      (.ok (partRequest pldmGetFirstpart handle dataHandle count))).1 = .ok resp) :
    ∃ i info, selectRecord p.repo handle = .ok i ∧ p.repo.records[i]? = some info := by
  rcases @handleGetPdr_cases crc8 cfg p
    (.ok (partRequest pldmGetFirstpart handle dataHandle count)) h with
    ⟨cc, he⟩ | ⟨req, resp', t, i, info, offset, hreq, hok, hasks, hchunk, -⟩
  · rw [he] at haccepted
    exact absurd haccepted (by simp)
  · obtain rfl := Except.ok.inj hreq
    rcases hasks with ⟨-, hselect, -⟩ | ⟨hnext, -⟩
    · exact ⟨i, info, hselect, hchunk.found⟩
    · exact absurd hnext (show pldmGetFirstpart ≠ pldmGetNextpart by decide)

/-- **A client on its own**, whose FIRSTPART request is accepted and which goes on with any counts
of at least one byte, comes to the end of the record exactly if it did not begin with handle 0, or
its first count and the buffer of the provider have room for the whole first record. -/
theorem get_pdr_client_completes_iff (crc8 : List UInt8 → UInt8)
    {sensors : List NumericSensorDesc} {repo : Repository}
    (hinit : providerInit (providerConfig sensors) = .ok repo)
    (hsize : pdrRepoSize sensors < UInt32.size) (before : List Action) {p : Provider}
    (hp : p = before.foldl (Provider.step crc8 (providerConfig sensors)) { repo := repo })
    (handle dataHandle : UInt32) (counts : ℕ → UInt16) (hcounts : ∀ k, 1 ≤ counts k)
    {resp : ChunkResponse}
    (haccepted : (handleGetPdr crc8 (providerConfig sensors) p
      (.ok (partRequest pldmGetFirstpart handle dataHandle (counts 0)))).1 = .ok resp) :
    (∃ n parts, ∀ fuel, n ≤ fuel → readRecord crc8 (providerConfig sensors) handle fuel counts p
        pldmGetFirstpart dataHandle = .complete parts) ↔
      handle ≠ 0 ∨ ∀ info, p.repo.records[0]? = some info →
        info.length ≤ min (counts 0).toNat getPdrMaxDataLen := by
  have hinv : Inv (providerConfig sensors) p := hp ▸ run_inv (init_inv hinit hsize) before
  have hpos : ∀ k, counts k ≠ 0 := fun k hzero => by
    have hone := hcounts k
    rw [hzero] at hone
    exact absurd hone (by decide)
  obtain ⟨i, info, hselect, hfound⟩ := firstpart_accepted hinv haccepted
  by_cases hzero : handle = 0
  · subst hzero
    obtain rfl : 0 = i := Except.ok.inj hselect
    rw [or_iff_right (not_not_intro rfl)]
    constructor
    · rintro ⟨n, parts, hdone⟩ info' hfound'
      obtain rfl : info = info' := Option.some.inj (hfound.symm.trans hfound')
      by_contra hlong
      have hrefused := @readRecord_zero_refused crc8 _ _ _ dataHandle _ hinv hfound hpos hlong n
      rw [hdone (n + 2) (by omega)] at hrefused
      exact ReadOutcome.noConfusion hrefused
    · intro hfirst
      obtain ⟨parts, hdone⟩ := @readRecord_completes crc8 _ _ _ _ _ dataHandle _ hinv hselect hfound
        hpos (Or.inr (hfirst info hfound))
      exact ⟨info.length + 1, parts, fun fuel hfuel => hdone fuel hfuel⟩
  · refine iff_of_true ?_ (Or.inl hzero)
    obtain ⟨parts, hdone⟩ := @readRecord_completes crc8 _ _ _ _ _ dataHandle _ hinv hselect hfound
      hpos (Or.inl (selectRecord_handle hzero hselect hfound))
    exact ⟨info.length + 1, parts, fun fuel hfuel => hdone fuel hfuel⟩

theorem get_pdr_client_completes_locator :
    ∃ n parts, ∀ fuel, n ≤ fuel → readRecord (fun _ => 7) (providerConfig []) 1 fuel
      (fun _ => 7) { repo := locatorRepo } pldmGetFirstpart 0 = .complete parts :=
  (get_pdr_client_completes_iff (fun _ => 7) providerInit_locator (by decide) [] rfl 1 0
    (fun _ => 7) (fun _ => by decide) rfl).mpr (Or.inl (by decide))

/-- **A client that begins with handle 0 does not complete.** FIRSTPART is answered, and the first
NEXTPART refused. -/
theorem get_pdr_client_zero_refused :
    (handleGetPdr (fun _ => 7) (providerConfig []) { repo := locatorRepo }
        (.ok (partRequest pldmGetFirstpart 0 0 7))).1 =
      .ok ⟨0, 7, .pldmStart, (terminusLocatorPdr 1).take 7, 0⟩ ∧
      readRecord (fun _ => 7) (providerConfig []) 0 2 (fun _ => 7) { repo := locatorRepo }
        pldmGetFirstpart 0 = .refused .platformInvalidDataTransferHandle :=
  ⟨rfl, rfl⟩

end SystemFirmware.Pldm
