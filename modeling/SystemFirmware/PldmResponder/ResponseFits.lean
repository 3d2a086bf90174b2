import Mathlib.Data.List.Perm.Basic
import SystemFirmware.PldmResponder.Definitions

/-!
# PLDM responder — responses fit the buffer

The length of a response is checked only after it has been built, when a byte behind the
buffer would already be written. It never is (`pldm_responses_fit`): the longest responses
are the last part of a record in GetPDR, which takes all 64 bytes, and a chunk of shell
output.
-/

namespace SystemFirmware.PldmResponder

open Lib

variable {lib : Libpldm} {hdr : HeaderInfo} {cfg : Pldm.ProviderConfig} {env : Env} {s : State}
  {dev : Oem} {payload : List UInt8} {before : List Write} {e : Encoded} {size : ℕ}

-- ---
-- Encoded responses

def Within (writes : List Write) : Prop :=
  ∀ w ∈ writes, w.offset + w.bytes.length ≤ ttPldmMaxMessageLen

structure Response.Fits (r : Response) : Prop where
  within : Within r.writes
  length : r.respPldmLen ≤ ttPldmMaxMessageLen

theorem within_nil : Within [] := fun _ h => absurd h List.not_mem_nil

theorem Within.append {writes writes' : List Write} (h : Within writes) (h' : Within writes') :
    Within (writes ++ writes') := fun w hw =>
  (List.mem_append.mp hw).elim (h w) (h' w)

theorem within_encoded (he : e.bytes.length ≤ size) (hsize : size ≤ ttPldmMaxMessageLen) :
    Within [⟨0, e.bytes⟩] := by
  intro w hw
  rw [List.mem_singleton.mp hw]
  exact Nat.le_trans (Nat.le_of_eq (Nat.zero_add _)) (Nat.le_trans he hsize)

theorem failed_fits (errno : Errno) : (failed errno).Fits := ⟨within_nil, Nat.zero_le _⟩

theorem encoded_fits (hbefore : Within before) (he : e.bytes.length ≤ size)
    (hsize : size ≤ ttPldmMaxMessageLen) : (encoded before e size).Fits := by
  have hwithin := hbefore.append (within_encoded he hsize)
  unfold encoded
  split
  · exact ⟨hwithin, hsize⟩
  · exact ⟨hwithin, Nat.zero_le _⟩

/-- Writes that lie one behind the other, in whatever order they are made. -/
theorem tiled_fits {rc : Except Errno Unit} {writes tiles : List Write} {n : ℕ}
    (hperm : tiles.Perm writes) (htiles : Tiles Write.offset (·.bytes.length) 0 tiles n)
    (hn : n ≤ ttPldmMaxMessageLen) : (⟨rc, writes, n⟩ : Response).Fits where
  within _ hw := Nat.le_trans (htiles.bounds (hperm.mem_iff.mpr hw)).2 hn
  length := hn

theorem ccOnly_fits (hbefore : Within before) (cc : CompletionCode) :
    (pldmCcOnlyResponse lib hdr before cc).Fits :=
  encoded_fits hbefore (lib.encodeCcOnlyResp_size ..).1 (by decide)

theorem refused_fits {cc : CompletionCode} : (pldmCcOnlyResponse lib hdr [] cc).Fits :=
  ccOnly_fits within_nil cc

-- ---
-- Base commands

theorem tableOf_versions {type : UInt8} {versions : List UInt8}
    (h : tableOf s type pldmVersions pldmVersions oemVersions = .found versions) :
    versions.length = 8 := by
  have hpldm : pldmVersions.length = 8 := rfl
  have hoem : oemVersions.length = 8 := rfl
  unfold tableOf at h
  split at h
  · rw [← Table.found.inj h, hpldm]
  · split at h
    · rw [← Table.found.inj h, hpldm]
    · split at h
      · split at h
        · split at h
          · rw [← Table.found.inj h, hoem]
          · exact absurd h (by simp)
        · exact absurd h (by simp)
      · exact absurd h (by simp)

theorem getVersion_fits : (pldmHandleGetVersion lib hdr s payload).Fits := by
  unfold pldmHandleGetVersion
  split
  · exact refused_fits
  · split
    · exact refused_fits
    · split
      · exact refused_fits
      · exact refused_fits
      · rename_i versions htable
        refine encoded_fits within_nil (lib.encodeGetVersionResp_size ..).1 ?_
        rw [tableOf_versions htable]
        decide

theorem getCommands_fits : (pldmHandleGetCommands lib hdr s payload).Fits := by
  unfold pldmHandleGetCommands
  split
  · exact refused_fits
  · split
    · exact refused_fits
    · exact refused_fits
    · exact encoded_fits within_nil (lib.encodeGetCommandsResp_size ..).1 (by decide)

theorem base_fits : (pldmBaseBuildResponse lib hdr s payload).1.Fits := by
  unfold pldmBaseBuildResponse
  split_ifs
  · unfold pldmHandleGetTid
    split
    · exact refused_fits
    · exact encoded_fits within_nil (lib.encodeGetTidResp_size ..).1 (by decide)
  · unfold pldmHandleSetTid
    split
    · exact refused_fits
    · split
      · exact refused_fits
      · split <;> exact refused_fits
  · unfold pldmHandleGetTypes
    split
    · exact refused_fits
    · exact encoded_fits within_nil (lib.encodeGetPldmTypesResp_size ..).1 (by decide)
  · exact getVersion_fits
  · exact getCommands_fits
  · exact refused_fits

-- ---
-- Platform commands

section

variable {crc8 : List UInt8 → UInt8} {p : Pldm.Provider} {i offset : ℕ} {req : Pldm.ChunkRequest}
  {resp : Pldm.ChunkResponse}

theorem buildChunk_length (h : (Pldm.buildChunk crc8 cfg p i offset req).1 = .ok resp) :
    resp.recordData.length ≤ req.maxResponseCount := by
  unfold Pldm.buildChunk at h
  split at h
  · exact absurd h (by simp)
  · simp only at h
    split at h
    · exact absurd h (by simp)
    · rw [← Except.ok.inj h, List.length_take]
      omega

theorem getChunk_length (h : (Pldm.getChunk crc8 cfg p req).1 = .ok resp) :
    resp.recordData.length ≤ req.maxResponseCount := by
  unfold Pldm.getChunk at h
  split at h
  · exact absurd h (by simp)
  · split at h
    · split at h
      · exact absurd h (by simp)
      · exact buildChunk_length h
    · split at h
      · split at h
        · exact absurd h (by simp)
        · exact buildChunk_length h
      · exact absurd h (by simp)

theorem handleGetPdr_length {decoded : Except UInt8 Pldm.GetPdrRequest}
    (h : (Pldm.handleGetPdr crc8 cfg p decoded).1 = .ok resp) :
    resp.recordData.length ≤ Pldm.getPdrMaxDataLen := by
  unfold Pldm.handleGetPdr at h
  split at h
  · exact absurd h (by simp)
  · rename_i req
    split_ifs at h
    split at h
    · exact absurd h (by simp)
    · rename_i resp' p' hchunk
      have hlength := @getChunk_length cfg crc8 p req.toChunkRequest resp' (by rw [hchunk])
      rw [← Except.ok.inj h]
      exact hlength

theorem getPdrRespBytes_le (h : resp.recordData.length ≤ Pldm.getPdrMaxDataLen) :
    hdrSize + getPdrRespBytes resp ≤ ttPldmMaxMessageLen := by
  unfold getPdrRespBytes
  rw [Pldm.getPdrMaxDataLen] at h
  rw [hdrSize, getPdrMinRespBytes, ttPldmMaxMessageLen]
  split <;> omega

end

theorem getPdr_fits : (pldmHandleGetPdr lib hdr cfg s payload).1.Fits := by
  unfold pldmHandleGetPdr
  simp only
  split
  · exact refused_fits
  · split
    · exact refused_fits
    · rename_i p _ _ resp p' hhandle
      have hlength := @handleGetPdr_length cfg lib.pldmEdacCrc8 p resp (lib.decodeGetPdrReq payload)
        (by rw [hhandle])
      exact encoded_fits within_nil (lib.encodeGetPdrResp_size ..) (getPdrRespBytes_le hlength)

theorem getSensorReading_fits : (pldmHandleGetSensorReading lib hdr cfg env s payload).Fits := by
  unfold pldmHandleGetSensorReading
  split
  · exact refused_fits
  · split
    · exact refused_fits
    · split
      · exact refused_fits
      · split
        · exact refused_fits
        · split
          · exact refused_fits
          · exact encoded_fits within_nil (lib.encodeGetSensorReadingResp_size ..).1
              (show hdrSize + (getSensorReadingRespSize - 1 + 4) ≤ ttPldmMaxMessageLen by decide)

theorem platform_fits : (pldmPlatformBuildResponse lib hdr cfg env s payload).1.Fits := by
  unfold pldmPlatformBuildResponse
  split_ifs
  · unfold pldmHandleGetPdrRepositoryInfo
    split
    · exact refused_fits
    · split
      · exact refused_fits
      · exact encoded_fits within_nil (lib.encodeGetPdrRepositoryInfoResp_size ..).1 (by decide)
  · exact getPdr_fits
  · exact getSensorReading_fits
  · exact refused_fits

-- ---
-- OEM commands

variable {ctx : PldmOem.Context} {r : PldmOem.Result}

theorem handleGetResult_length (h : PldmOem.handleGetResult ctx payload = .result r) :
    r.chunk.length ≤ PldmOem.shellMaxChunkLen := by
  unfold PldmOem.handleGetResult at h
  simp only at h
  split at h
  · exact absurd h (by simp)
  · split at h
    · exact absurd h (by simp)
    · split at h
      · exact absurd h (by simp)
      · rw [← PldmOem.Reply.result.inj h, Flash.length_read]
        split_ifs <;> omega

theorem handleExec_no_result {queued running : Bool} :
    (PldmOem.handleExec ctx queued running payload).1 ≠ .result r := by
  unfold PldmOem.handleExec
  simp only
  split_ifs <;> simp

theorem handleCancel_no_result : (PldmOem.handleCancel ctx payload).1 ≠ .result r := by
  unfold PldmOem.handleCancel
  simp only
  split_ifs <;> simp

/-- A response whose header is there; the chunk is written before the byte with its length. -/
theorem shellRespond_fits {reply : PldmOem.Reply} (hlength : e.bytes.length = hdrSize)
    (hchunk : ∀ r, reply = .result r → r.chunk.length ≤ PldmOem.shellMaxChunkLen) :
    (shellRespond lib hdr [⟨0, e.bytes⟩] reply).Fits := by
  rcases reply with cc | ⟨cc, requestId, state⟩ | r
  · refine ccOnly_fits (fun w hw => ?_) _
    rw [List.mem_singleton.mp hw]
    show 0 + e.bytes.length ≤ _
    rw [hlength]
    decide
  · refine tiled_fits (List.Perm.refl _) ?_ (by decide)
    simp [Tiles, statusWrites, payloadWrite, hlength, hdrSize]
  · have hle := hchunk r rfl
    obtain ⟨w, hw⟩ : ∃ w, w = [⟨0, e.bytes⟩] ++ (resultWrites lib r).take 6 := ⟨_, rfl⟩
    refine @tiled_fits _ _ (w ++ [payloadWrite 12 [UInt8.ofNat r.chunk.length],
      payloadWrite 13 r.chunk, payloadWrite (13 + r.chunk.length) [if r.more then 1 else 0]]) _
      ?_ ?_ ?_
    · rw [hw, List.append_assoc]
      exact (((List.Perm.swap _ _ _).append_left _).append_left _)
    · rw [hw]
      simp [Tiles, resultWrites, payloadWrite, hlength, hdrSize]
      omega
    · rw [hdrSize, ttPldmMaxMessageLen]
      rw [PldmOem.shellMaxChunkLen] at hle
      omega

theorem shellHandle_fits {lengthOk : Bool} {handle : Oem → PldmOem.Reply × Oem}
    (hchunk : ∀ r, (handle dev).1 = .result r → r.chunk.length ≤ PldmOem.shellMaxChunkLen) :
    (shellHandle lib hdr dev lengthOk handle).1.Fits := by
  have hsize := lib.packPldmHeader_size { hdr with msgType := .response }
  have hwithin := within_encoded hsize.1 (by decide)
  unfold shellHandle
  simp only
  split
  · exact refused_fits
  · split
    · exact ⟨hwithin, Nat.zero_le _⟩
    · rename_i hcc
      exact shellRespond_fits (hsize.2 (not_not.mp hcc)) hchunk

theorem oem_fits : (pldmOemHandlerBuildResponse lib hdr dev payload).1.Fits := by
  unfold pldmOemHandlerBuildResponse
  split_ifs
  · exact failed_fits _
  · exact shellHandle_fits fun r h => absurd h handleExec_no_result
  · exact shellHandle_fits fun r h => handleGetResult_length h
  · exact shellHandle_fits fun r h => absurd h handleCancel_no_result
  · exact refused_fits

-- ---
-- The responder

theorem ttPldmBuildResponse_fits (req : List UInt8) :
    (ttPldmBuildResponse lib cfg env s req).1.Fits := by
  unfold ttPldmBuildResponse
  simp only
  split
  · exact failed_fits _
  · split
    · exact failed_fits _
    · split
      · exact failed_fits _
      · split
        · exact base_fits
        · split
          · exact platform_fits
          · split
            · exact refused_fits
            · split
              · exact oem_fits
              · exact refused_fits

/-- **No response leaves the buffer**: for every request and every state, what is written lies in
the 64 bytes behind the message type, the reported length does too, and the check behind the
building of the response never fires. -/
theorem pldm_responses_fit (lib : Libpldm) (cfg : Pldm.ProviderConfig) (env : Env) (s : State)
    (req : List UInt8) :
    (∀ w ∈ (ttPldmBuildResponse lib cfg env s req).1.writes,
      w.offset + w.bytes.length ≤ ttPldmMaxMessageLen) ∧
    (ttPldmBuildResponse lib cfg env s req).1.respPldmLen ≤ ttPldmMaxMessageLen ∧
    ∀ stack, (processRxMessage lib cfg env s stack (ttPldmMsgTypePldm :: req)).1 ≠ .tooLarge := by
  have hfits := @ttPldmBuildResponse_fits lib cfg env s req
  refine ⟨hfits.within, hfits.length, fun stack => ?_⟩
  unfold processRxMessage
  simp only
  split_ifs with htype hrc hlen
  · simp
  · simp
  · exact absurd hfits.length (Nat.not_le.mpr hlen)
  · simp

-- ---
-- An implementation of libpldm

/-- `n` bytes that start with `bytes`. -/
def layout (n : ℕ) (bytes : List UInt8) : Encoded := ⟨0, (bytes ++ List.replicate n 0).take n⟩

theorem layout_documented (n : ℕ) (bytes : List UInt8) : (layout n bytes).Documented n := by
  have hlength : (layout n bytes).bytes.length = n := by
    simp [layout]
  exact ⟨Nat.le_of_eq hlength, fun _ => hlength⟩

/-- The header of a response and of a request, as `unpack_pldm_header` tells them apart. -/
def unpackHeader : List UInt8 → Except UInt8 HeaderInfo
  | [first, type, command] => .ok
      { msgType := if first &&& 0xC0 = 0x80 then .request else .response
        instanceId := first &&& 0x1F
        pldmType := type &&& 0x3F
        command := command }
  | _ => .error 1

def documentedLibpldm : Libpldm where
  code _ := 0
  pldmEdacCrc8 _ := 0
  unpackPldmHeader := unpackHeader
  decodeSetTidReq _ := .error 1
  decodeGetVersionReq _ := .error 1
  decodeGetCommandsReq _ := .error 1
  decodeGetPdrReq _ := .error 1
  decodeGetSensorReadingReq _ := .error 1
  packPldmHeader hdr := layout _ [hdr.instanceId, hdr.pldmType, hdr.command]
  encodeCcOnlyResp inst type command cc := layout _ [inst, type, command, cc]
  encodeGetTidResp inst tid := layout _ [inst, pldmBase, 0x02, 0, tid]
  encodeGetPldmTypesResp inst types := layout _ ([inst, pldmBase, 0x04, 0] ++ types)
  encodeGetVersionResp inst versions :=
    layout _ ([inst, pldmBase, 0x03, 0, 0, 0, 0, 0, 0x05] ++ versions)
  encodeGetCommandsResp inst commands := layout _ ([inst, pldmBase, 0x05, 0] ++ commands)
  encodeGetPdrRepositoryInfoResp inst _ _ _ := layout _ [inst, pldmPlatform, 0x50, 0]
  encodeGetPdrResp inst _ := layout _ [inst, pldmPlatform, 0x51, 0]
  encodeGetSensorReadingResp inst reading :=
    layout _ ([inst, pldmPlatform, 0x11, 0, 4, 0, 0, 0, 0, 0] ++ reading)
  packPldmHeader_size _ := layout_documented ..
  encodeCcOnlyResp_size _ _ _ _ := layout_documented ..
  encodeGetTidResp_size _ _ := layout_documented ..
  encodeGetPldmTypesResp_size _ _ := layout_documented ..
  encodeGetVersionResp_size _ _ := layout_documented ..
  encodeGetCommandsResp_size _ _ := layout_documented ..
  encodeGetPdrRepositoryInfoResp_size _ _ _ _ := layout_documented ..
  encodeGetPdrResp_size _ _ := (layout_documented ..).1
  encodeGetSensorReadingResp_size _ _ := layout_documented ..

theorem pldm_responses_fit_getTid :
    (∀ w ∈ (ttPldmBuildResponse documentedLibpldm ⟨[], 0, 0⟩ ⟨fun _ => true, fun _ => none⟩
        ⟨9, none, none⟩ [0x83, 0x00, 0x02]).1.writes,
      w.offset + w.bytes.length ≤ ttPldmMaxMessageLen) ∧
    (processRxMessage documentedLibpldm ⟨[], 0, 0⟩ ⟨fun _ => true, fun _ => none⟩ ⟨9, none, none⟩
        (fun _ => 0xAA) [0x01, 0x83, 0x00, 0x02]).1 =
      .sent [0x01, 0x03, 0x00, 0x02, 0x00, 0x09] :=
  ⟨(pldm_responses_fit documentedLibpldm _ _ _ _).1, by decide⟩

end SystemFirmware.PldmResponder
