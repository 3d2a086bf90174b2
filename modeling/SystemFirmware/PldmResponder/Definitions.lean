import Mathlib.Algebra.Ring.Nat
import SystemFirmware.Pldm.GetPdr
import SystemFirmware.Pldm.SensorScaling
import SystemFirmware.PldmOem.Definitions

/-!
# PLDM responder — definitions

`drivers/pmci/pldm/pldm_mctp_responder.c` takes a PLDM request from MCTP, lets the
handlers of `pldm_base.c`, `pldm_platform.c` or `tt_pldm_oem.c` build the response in a
buffer on its stack, and sends as many bytes of it as they report.

A response is modelled by the writes to the buffer behind the message type byte, in their
order, and the reported length. The handlers of GetPDR and of the OEM commands are those
of `Pldm.GetPdr` and `PldmOem.Definitions`; here their answers become bytes.

* `Libpldm` is what the code uses of libpldm: decoders that may return anything, and
  encoders that write responses of the documented sizes.
* What the sensors return is an input, and so is which devices there are and are ready.
-/

namespace SystemFirmware.PldmResponder

open Lib

-- ---
-- libpldm

inductive MsgType where
  | response
  | request
  | reserved
  | asyncRequestNotify
  deriving DecidableEq

structure HeaderInfo where
  msgType : MsgType
  instanceId : UInt8
  pldmType : UInt8
  command : UInt8

/-- The completion codes the handlers name. -/
inductive CompletionCode where
  | success
  | error
  | errorInvalidData
  | errorInvalidLength
  | errorUnsupportedPldmCmd
  | errorInvalidPldmType
  | getPldmVersionInvalidTransferOperationFlag
  | getPldmVersionInvalidPldmTypeInRequestData
  | getPldmCommandsInvalidPldmTypeInRequestData
  | platformRearmUnavailableInPresentState
  | platformInvalidSensorId
  | sensorUnavailable
  /-- One that a decoder returned. -/
  | decoding (cc : UInt8)
  | getPdr (cc : Pldm.CompletionCode)
  | oem (cc : PldmOem.CompletionCode)

def hdrSize : ℕ := 3

/-- `PLDM_GET_TID_RESP_BYTES`: completion code and TID. -/
def getTidRespBytes : ℕ := 2

/-- `PLDM_BASE_GET_PLDM_TYPES_RESP_BYTES`: completion code and 64 bits. -/
def getPldmTypesRespBytes : ℕ := 9

/-- `PLDM_GET_COMMANDS_RESP_BYTES`: completion code and 256 bits. -/
def getCommandsRespBytes : ℕ := 33

/-- `PLDM_GET_PDR_REPOSITORY_INFO_RESP_BYTES`: code, state, two timestamps of 13 bytes, three
counters, timeout. -/
def getPdrRepositoryInfoRespBytes : ℕ := 41

/-- `PLDM_GET_PDR_MIN_RESP_BYTES`: completion code, two handles, flag and count. -/
def getPdrMinRespBytes : ℕ := 12

/-- `sizeof(struct pldm_get_sensor_reading_resp)`, which has one byte of the reading. -/
def getSensorReadingRespSize : ℕ := 8

/-- What an encoder returns, and the bytes it wrote from the start of the response. -/
structure Encoded where
  cc : UInt8
  bytes : List UInt8

/-- An encoder that succeeds writes exactly `size` bytes, and never more. -/
def Encoded.Documented (e : Encoded) (size : ℕ) : Prop :=
  e.bytes.length ≤ size ∧ (e.cc = 0 → e.bytes.length = size)

def isLastFlag (flag : Pldm.TransferFlag) : Bool :=
  flag == .pldmEnd || flag == .pldmStartAndEnd

/-- The bytes that follow the fixed part of a GetPDR response. -/
def getPdrRespBytes (resp : Pldm.ChunkResponse) : ℕ :=
  getPdrMinRespBytes + resp.recordData.length + (if isLastFlag resp.transferFlag then 1 else 0)

structure Libpldm where
  /-- The numbers of the completion codes. -/
  code : CompletionCode → UInt8
  pldmEdacCrc8 : List UInt8 → UInt8
  unpackPldmHeader : List UInt8 → Except UInt8 HeaderInfo
  decodeSetTidReq : List UInt8 → Except UInt8 UInt8
  /-- Transfer handle, operation flag, type. -/
  decodeGetVersionReq : List UInt8 → Except UInt8 (UInt32 × UInt8 × UInt8)
  /-- Type, version. -/
  decodeGetCommandsReq : List UInt8 → Except UInt8 (UInt8 × UInt32)
  decodeGetPdrReq : List UInt8 → Except UInt8 Pldm.GetPdrRequest
  /-- Sensor, rearm event state. -/
  decodeGetSensorReadingReq : List UInt8 → Except UInt8 (UInt16 × Bool)
  packPldmHeader : HeaderInfo → Encoded
  encodeCcOnlyResp : UInt8 → UInt8 → UInt8 → UInt8 → Encoded
  encodeGetTidResp : UInt8 → UInt8 → Encoded
  encodeGetPldmTypesResp : UInt8 → List UInt8 → Encoded
  encodeGetVersionResp : UInt8 → List UInt8 → Encoded
  encodeGetCommandsResp : UInt8 → List UInt8 → Encoded
  /-- Record count, repository size, size of the largest record. -/
  encodeGetPdrRepositoryInfoResp : UInt8 → ℕ → ℕ → ℕ → Encoded
  encodeGetPdrResp : UInt8 → Pldm.ChunkResponse → Encoded
  encodeGetSensorReadingResp : UInt8 → List UInt8 → Encoded
  packPldmHeader_size : ∀ hdr, (packPldmHeader hdr).Documented hdrSize
  encodeCcOnlyResp_size : ∀ inst type command cc,
    (encodeCcOnlyResp inst type command cc).Documented (hdrSize + 1)
  encodeGetTidResp_size : ∀ inst tid,
    (encodeGetTidResp inst tid).Documented (hdrSize + getTidRespBytes)
  encodeGetPldmTypesResp_size : ∀ inst types,
    (encodeGetPldmTypesResp inst types).Documented (hdrSize + getPldmTypesRespBytes)
  encodeGetVersionResp_size : ∀ inst versions,
    (encodeGetVersionResp inst versions).Documented (hdrSize + 1 + 4 + 1 + versions.length)
  encodeGetCommandsResp_size : ∀ inst commands,
    (encodeGetCommandsResp inst commands).Documented (hdrSize + getCommandsRespBytes)
  encodeGetPdrRepositoryInfoResp_size : ∀ inst count size largest,
    (encodeGetPdrRepositoryInfoResp inst count size largest).Documented
      (hdrSize + getPdrRepositoryInfoRespBytes)
  /-- The CRC byte of the last part is counted, whether or not the encoder writes it. -/
  encodeGetPdrResp_size : ∀ inst resp,
    (encodeGetPdrResp inst resp).bytes.length ≤ hdrSize + getPdrRespBytes resp
  encodeGetSensorReadingResp_size : ∀ inst reading,
    (encodeGetSensorReadingResp inst reading).Documented
      (hdrSize + (getSensorReadingRespSize - 1 + reading.length))

-- ---
-- Responses

structure Write where
  offset : ℕ
  bytes : List UInt8

inductive Errno where
  | emsgsize
  | ebadmsg
  | enomsg
  | einval
  | enodev
  deriving DecidableEq

/-- What building a response returns, wrote and reports in `*resp_pldm_len`. -/
structure Response where
  rc : Except Errno Unit
  writes : List Write
  respPldmLen : ℕ

def failed (e : Errno) : Response := ⟨.error e, [], 0⟩

/-- An encoder's response, after `before` was written; an error of the encoder is
`-EINVAL`. -/
def encoded (before : List Write) (e : Encoded) (len : ℕ) : Response :=
  if e.cc = 0 then ⟨.ok (), before ++ [⟨0, e.bytes⟩], len⟩
  else ⟨.error .einval, before ++ [⟨0, e.bytes⟩], 0⟩

section

variable (lib : Libpldm) (hdr : HeaderInfo)

def pldmCcOnlyResponse (before : List Write) (cc : CompletionCode) : Response :=
  encoded before (lib.encodeCcOnlyResp hdr.instanceId hdr.pldmType hdr.command (lib.code cc))
    (hdrSize + 1)

-- ---
-- The devices

/-- The OEM handler: whether it is ready, its context, and its work item. -/
structure Oem where
  ready : Bool
  ctx : PldmOem.Context
  queued : Bool
  running : Bool

/-- `pdr` is `none` if there is no provider or it is not ready; both get the same answers. -/
structure State where
  tid : UInt8
  pdr : Option Pldm.Provider
  oem : Option Oem

/-- What the devices outside do. -/
structure Env where
  sensorReady : Pldm.NumericSensorDesc → Bool
  readSensor : Pldm.NumericSensorDesc → Option Pldm.SensorValue

def pldmBase : UInt8 := 0

def pldmPlatform : UInt8 := 2

def pldmOemType : UInt8 := 0x3F

-- ---
-- Base commands

/-- `base_versions` and `pldm_platform_versions`, as alpha, update, minor and major. -/
def pldmVersions : List UInt8 := [0x00, 0xF0, 0xF1, 0xF1, 0xBA, 0xBE, 0x9D, 0x53]

def oemVersions : List UInt8 := [0x00, 0xF0, 0xF0, 0xF1, 0x2B, 0x76, 0x8E, 0x9A]

def commandBits (commands : List ℕ) : List UInt8 :=
  (List.range 32).map fun byte => UInt8.ofNat
    (((List.range 8).filter fun bit => commands.contains (8 * byte + bit)).map (2 ^ ·)).sum

/-- `base_commands`: SetTID, GetTID, GetPLDMVersion, GetPLDMTypes, GetPLDMCommands. -/
def baseCommands : List UInt8 := commandBits [0x01, 0x02, 0x03, 0x04, 0x05]

/-- `pldm_platform_commands`: GetSensorReading, GetPDRRepositoryInfo, GetPDR. -/
def platformCommands : List UInt8 := commandBits [0x11, 0x50, 0x51]

def oemCommands : List UInt8 := commandBits [0x01, 0x02, 0x03]

def pldmHandleGetTid (s : State) (payload : List UInt8) : Response :=
  if payload.length ≠ 0 then pldmCcOnlyResponse lib hdr [] .errorInvalidLength
  else encoded [] (lib.encodeGetTidResp hdr.instanceId s.tid) (hdrSize + getTidRespBytes)

def pldmHandleSetTid (s : State) (payload : List UInt8) : Response × State :=
  if payload.length ≠ 1 then (pldmCcOnlyResponse lib hdr [] .errorInvalidLength, s)
  else match lib.decodeSetTidReq payload with
    | .error _ => (pldmCcOnlyResponse lib hdr [] .errorInvalidData, s)
    | .ok newTid =>
      if newTid = 0x00 ∨ newTid = 0xFF then (pldmCcOnlyResponse lib hdr [] .errorInvalidData, s)
      else (pldmCcOnlyResponse lib hdr [] .success, { s with tid := newTid })

/-- `pldm_handle_get_types`; the last type has the last bit of the last byte. -/
def pldmHandleGetTypes (s : State) (payload : List UInt8) : Response :=
  if payload.length ≠ 0 then pldmCcOnlyResponse lib hdr [] .errorInvalidLength
  else
    let oemByte := if s.oem.isSome then 0x80 else 0x00
    encoded [] (lib.encodeGetPldmTypesResp hdr.instanceId [0x05, 0, 0, 0, 0, 0, 0, oemByte])
      (hdrSize + getPldmTypesRespBytes)

/-- The table of a type, for GetPLDMVersion and GetPLDMCommands. -/
inductive Table where
  | found (bytes : List UInt8)
  /-- The handler of the type has none. -/
  | missing
  | unknownType

def tableOf (s : State) (type : UInt8) (base platform oem : List UInt8) : Table :=
  if type = pldmBase then .found base
  else if type = pldmPlatform then .found platform
  else match s.oem with
    | some dev =>
      if type = pldmOemType then (if dev.ready then .found oem else .missing) else .unknownType
    | none => .unknownType

def pldmHandleGetVersion (s : State) (payload : List UInt8) : Response :=
  match lib.decodeGetVersionReq payload with
  | .error cc => pldmCcOnlyResponse lib hdr [] (.decoding cc)
  | .ok (_, transferOpflag, type) =>
    if transferOpflag ≠ Pldm.pldmGetFirstpart then
      pldmCcOnlyResponse lib hdr [] .getPldmVersionInvalidTransferOperationFlag
    else match tableOf s type pldmVersions pldmVersions oemVersions with
      | .missing => pldmCcOnlyResponse lib hdr [] .errorUnsupportedPldmCmd
      | .unknownType =>
        pldmCcOnlyResponse lib hdr [] .getPldmVersionInvalidPldmTypeInRequestData
      | .found versions => encoded [] (lib.encodeGetVersionResp hdr.instanceId versions)
          (hdrSize + 1 + 4 + 1 + versions.length)

def pldmHandleGetCommands (s : State) (payload : List UInt8) : Response :=
  match lib.decodeGetCommandsReq payload with
  | .error cc => pldmCcOnlyResponse lib hdr [] (.decoding cc)
  | .ok (type, _) =>
    match tableOf s type baseCommands platformCommands oemCommands with
    | .missing => pldmCcOnlyResponse lib hdr [] .errorUnsupportedPldmCmd
    | .unknownType =>
      pldmCcOnlyResponse lib hdr [] .getPldmCommandsInvalidPldmTypeInRequestData
    | .found commands => encoded [] (lib.encodeGetCommandsResp hdr.instanceId commands)
        (hdrSize + getCommandsRespBytes)

def pldmBaseBuildResponse (s : State) (payload : List UInt8) : Response × State :=
  if hdr.command = 0x02 then (pldmHandleGetTid lib hdr s payload, s)
  else if hdr.command = 0x01 then pldmHandleSetTid lib hdr s payload
  else if hdr.command = 0x04 then (pldmHandleGetTypes lib hdr s payload, s)
  else if hdr.command = 0x03 then (pldmHandleGetVersion lib hdr s payload, s)
  else if hdr.command = 0x05 then (pldmHandleGetCommands lib hdr s payload, s)
  else (pldmCcOnlyResponse lib hdr [] .errorUnsupportedPldmCmd, s)

-- ---
-- Platform commands

def pldmHandleGetPdrRepositoryInfo (s : State) (payload : List UInt8) : Response :=
  if payload.length ≠ 0 then pldmCcOnlyResponse lib hdr [] .errorInvalidLength
  else match s.pdr with
    | none => pldmCcOnlyResponse lib hdr [] .error
    | some p => encoded [] (lib.encodeGetPdrRepositoryInfoResp hdr.instanceId
        p.repo.records.length p.repo.size p.repo.largestRecordSize)
          (hdrSize + getPdrRepositoryInfoRespBytes)

/-- The checks of `pldm_handle_get_pdr` when there is no provider to ask. -/
def getPdrWithoutProvider : Except UInt8 Pldm.GetPdrRequest → Pldm.CompletionCode
  | .error cc => .decoding cc
  | .ok req =>
    if req.recordChangeNumber ≠ Pldm.pdrRecordChangeNum then .platformInvalidRecordChangeNumber
    else if req.requestCount = 0 then .errorInvalidData
    else if req.transferOpFlag ≠ Pldm.pldmGetFirstpart ∧
        req.transferOpFlag ≠ Pldm.pldmGetNextpart then .platformInvalidTransferOperationFlag
    else .error

def pldmHandleGetPdr (cfg : Pldm.ProviderConfig) (s : State) (payload : List UInt8) :
    Response × State :=
  let decoded := lib.decodeGetPdrReq payload
  match s.pdr with
  | none => (pldmCcOnlyResponse lib hdr [] (.getPdr (getPdrWithoutProvider decoded)), s)
  | some p =>
    match Pldm.handleGetPdr lib.pldmEdacCrc8 cfg p decoded with
    | (.error cc, p) => (pldmCcOnlyResponse lib hdr [] (.getPdr cc), { s with pdr := some p })
    | (.ok resp, p) => (encoded [] (lib.encodeGetPdrResp hdr.instanceId resp)
        (hdrSize + getPdrRespBytes resp), { s with pdr := some p })

def pldmHandleGetSensorReading (cfg : Pldm.ProviderConfig) (env : Env) (s : State)
    (payload : List UInt8) : Response :=
  match lib.decodeGetSensorReadingReq payload with
  | .error cc => pldmCcOnlyResponse lib hdr [] (.decoding cc)
  | .ok (sensorId, rearmEventState) =>
    if rearmEventState then
      pldmCcOnlyResponse lib hdr [] .platformRearmUnavailableInPresentState
    else match (if s.pdr.isSome then cfg.sensors.find? (·.sensorId = sensorId) else none) with
      | none => pldmCcOnlyResponse lib hdr [] .platformInvalidSensorId
      | some sensorDesc =>
        if !env.sensorReady sensorDesc then pldmCcOnlyResponse lib hdr [] .sensorUnavailable
        else match env.readSensor sensorDesc with
          | none => pldmCcOnlyResponse lib hdr [] .error
          | some value =>
            let reading := Pldm.pldmSensorValueToS32 value sensorDesc.unitModifier
            let presentReading := le32 reading.toUInt32
            encoded [] (lib.encodeGetSensorReadingResp hdr.instanceId presentReading)
              (hdrSize + (getSensorReadingRespSize - 1 + 4))

def pldmPlatformBuildResponse (cfg : Pldm.ProviderConfig) (env : Env) (s : State)
    (payload : List UInt8) : Response × State :=
  if hdr.command = 0x50 then (pldmHandleGetPdrRepositoryInfo lib hdr s payload, s)
  else if hdr.command = 0x51 then pldmHandleGetPdr lib hdr cfg s payload
  else if hdr.command = 0x11 then (pldmHandleGetSensorReading lib hdr cfg env s payload, s)
  else (pldmCcOnlyResponse lib hdr [] .errorUnsupportedPldmCmd, s)

-- ---
-- OEM commands

def shellStateByte : PldmOem.ShellState → UInt8
  | .idle => 0
  | .queued => 1
  | .running => 2
  | .done => 3
  | .failed => 4
  | .canceled => 5

/-- A write to `resp_payload[offset]`. -/
def payloadWrite (offset : ℕ) (bytes : List UInt8) : Write := ⟨hdrSize + offset, bytes⟩

def statusWrites (cc : PldmOem.CompletionCode) (requestId : UInt16) (state : PldmOem.ShellState) :
    List Write :=
  [payloadWrite 0 [lib.code (.oem cc)], payloadWrite 1 (le16 requestId),
    payloadWrite 3 [shellStateByte state]]

def resultWrites (r : PldmOem.Result) : List Write :=
  [payloadWrite 0 [lib.code .success], payloadWrite 1 (le16 r.requestId),
    payloadWrite 3 [shellStateByte r.state], payloadWrite 4 (le32 r.shellRc.toUInt32),
    payloadWrite 8 (le16 (UInt16.ofNat r.totalLen)), payloadWrite 10 (le16 (UInt16.ofNat r.offset)),
    payloadWrite 13 r.chunk, payloadWrite 12 [UInt8.ofNat r.chunk.length],
    payloadWrite (13 + r.chunk.length) [if r.more then 1 else 0]]

def shellRespond (before : List Write) : PldmOem.Reply → Response
  | .ccOnly cc => pldmCcOnlyResponse lib hdr before (.oem cc)
  | .status cc requestId state =>
    ⟨.ok (), before ++ statusWrites lib cc requestId state, hdrSize + 4⟩
  | .result r => ⟨.ok (), before ++ resultWrites lib r, hdrSize + 14 + r.chunk.length⟩

/-- The frame of the three handlers. A wrong length is answered at once; else the header is
written before the context is looked at. -/
def shellHandle (dev : Oem) (lengthOk : Bool) (handle : Oem → PldmOem.Reply × Oem) :
    Response × Oem :=
  if !lengthOk then (pldmCcOnlyResponse lib hdr [] (.oem .errorInvalidLength), dev)
  else
    let e := lib.packPldmHeader { hdr with msgType := .response }
    if e.cc ≠ 0 then (⟨.error .einval, [⟨0, e.bytes⟩], 0⟩, dev)
    else
      let (reply, dev) := handle dev
      (shellRespond lib hdr [⟨0, e.bytes⟩] reply, dev)

def ttPldmShellHandleExec (dev : Oem) (payload : List UInt8) : Response × Oem :=
  shellHandle lib hdr dev (PldmOem.execLengthOk payload) fun dev =>
    let (reply, ctx, queued) := PldmOem.handleExec dev.ctx dev.queued dev.running payload
    (reply, { dev with ctx := ctx, queued := queued })

def ttPldmShellHandleGetResult (dev : Oem) (payload : List UInt8) : Response × Oem :=
  shellHandle lib hdr dev (payload.length == 5) fun dev =>
    (PldmOem.handleGetResult dev.ctx payload, dev)

def ttPldmShellHandleCancel (dev : Oem) (payload : List UInt8) : Response × Oem :=
  shellHandle lib hdr dev (payload.length == 2) fun dev =>
    let (reply, ctx) := PldmOem.handleCancel dev.ctx payload
    (reply, { dev with ctx := ctx })

/-- `tt_pldm_shell_build_response`, and the check that the device is ready. -/
def pldmOemHandlerBuildResponse (dev : Oem) (payload : List UInt8) : Response × Oem :=
  if !dev.ready then (failed .enodev, dev)
  else if hdr.command = 0x01 then ttPldmShellHandleExec lib hdr dev payload
  else if hdr.command = 0x02 then ttPldmShellHandleGetResult lib hdr dev payload
  else if hdr.command = 0x03 then ttPldmShellHandleCancel lib hdr dev payload
  else (pldmCcOnlyResponse lib hdr [] .errorUnsupportedPldmCmd, dev)

end

-- ---
-- The responder

section

variable (lib : Libpldm) (cfg : Pldm.ProviderConfig) (env : Env)

def ttPldmBuildResponse (s : State) (req : List UInt8) : Response × State :=
  if req.length < hdrSize then (failed .emsgsize, s)
  else
    let payload := req.drop hdrSize
    match lib.unpackPldmHeader (req.take hdrSize) with
    | .error _ => (failed .ebadmsg, s)
    | .ok hdr =>
      if hdr.msgType ≠ .request then (failed .enomsg, s)
      else if hdr.pldmType = pldmBase then pldmBaseBuildResponse lib hdr s payload
      else if hdr.pldmType = pldmPlatform then pldmPlatformBuildResponse lib hdr cfg env s payload
      else match s.oem with
        | none => (pldmCcOnlyResponse lib hdr [] .errorInvalidPldmType, s)
        | some dev =>
          if hdr.pldmType = pldmOemType then
            let (resp, dev) := pldmOemHandlerBuildResponse lib hdr dev payload
            (resp, { s with oem := some dev })
          else (pldmCcOnlyResponse lib hdr [] .errorInvalidPldmType, s)

def ttPldmMaxMessageLen : ℕ := 64

def ttPldmMsgTypePldm : UInt8 := 0x01

/-- What becomes of a received message. -/
inductive Outcome where
  | ignored
  /-- Building the response failed, or there is none. -/
  | notBuilt
  /-- The check behind the building of the response fires. -/
  | tooLarge
  | sent (message : List UInt8)
  deriving DecidableEq

def applyWrites (buf : Flash) (writes : List Write) : Flash :=
  writes.foldl (fun buf w => buf.program w.offset w.bytes) buf

/-- `tt_pldm_mctp_process_rx_message`. `stack` is what lies in the buffer at first. -/
def processRxMessage (s : State) (stack : Flash) : List UInt8 → Outcome × State
  | [] => (.ignored, s)
  | msgType :: req =>
    if msgType ≠ ttPldmMsgTypePldm then (.ignored, s)
    else
      let (resp, s) := ttPldmBuildResponse lib cfg env s req
      if resp.rc ≠ .ok () ∨ resp.respPldmLen = 0 then (.notBuilt, s)
      else if resp.respPldmLen > ttPldmMaxMessageLen then (.tooLarge, s)
      else (.sent (ttPldmMsgTypePldm :: (applyWrites stack resp.writes).read 0 resp.respPldmLen), s)

end

end SystemFirmware.PldmResponder
