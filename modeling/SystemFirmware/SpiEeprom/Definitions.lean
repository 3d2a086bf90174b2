import SystemFirmware.Lib.Exec
import SystemFirmware.Lib.Flash

/-!
# SPI EEPROM messages — definitions

The host messages of `lib/tenstorrent/bh_arc/spi_eeprom.c`: reading and writing the SPI
flash through a scratch buffer in the controller's memory, and the lock that guards
writes.

Every flash operation gets its outcome as an input: it succeeds, or returns an error and
leaves arbitrary bytes in its region. A write only clears bits. The flash type, its
sector size, the address of the scratch buffer and whether the device is ready do not
change.
-/

namespace SystemFirmware.SpiEeprom

open Lib

def spiBufferSize : UInt32 := 4096

structure Board where
  jedecId : UInt32
  ready : Bool
  sectorSize : UInt32
  bufferAddress : UInt32

/-! ## The flash driver -/

/-- What becomes of one flash operation. -/
inductive FlashOutcome where
  | ok
  | error (rc : ℤ) (negative : rc < 0) (garbage : ℕ → UInt8)

/-- The flash, the outcomes of the next operations (later ones succeed), and start and length of
the regions to be erased, oldest first. -/
structure Device where
  flash : Flash
  outcomes : List FlashOutcome
  erased : List (ℕ × ℕ)

/-- A function that uses the flash and fails with a return code. -/
abbrev FlashM := EStateM ℤ Device

def nextOutcome : FlashM FlashOutcome :=
  modifyGet fun d => (d.outcomes.headD .ok, { d with outcomes := d.outcomes.tail })

def flashRead (addr : UInt32) (len : ℕ) : FlashM (List UInt8) := do
  match ← nextOutcome with
  | .ok => return Flash.read (← get).flash addr.toNat len
  | .error rc _ _ => throw rc

def flashErase (addr : UInt32) (len : ℕ) : FlashM Unit := do
  modify fun d => { d with erased := d.erased ++ [(addr.toNat, len)] }
  match ← nextOutcome with
  | .ok => modify fun d => { d with flash := d.flash.erase addr.toNat len }
  | .error rc _ garbage =>
    modify fun d => { d with flash := d.flash.patch addr.toNat len garbage }
    throw rc

def flashWrite (addr : UInt32) (bytes : List UInt8) : FlashM Unit := do
  match ← nextOutcome with
  | .ok => modify fun d => { d with flash := d.flash.clearBits addr.toNat bytes }
  | .error rc _ garbage =>
    modify fun d => { d with flash := d.flash.patch addr.toNat bytes.length garbage }
    throw rc

/-! ## `SpiSmartWrite` -/

def roundDown (x align : UInt32) : UInt32 := x / align * align

def roundUp (x align : UInt32) : UInt32 := (x + (align - 1)) / align * align

/-- The first and the last phase: `chunk` replaces the bytes from `offset` on, unless it is there.
-/
def mergeChunk (sectorSize addr : UInt32) (offset : ℕ) (chunk : List UInt8) : FlashM Unit := do
  let pageBuf ← flashRead addr sectorSize.toNat
  if (pageBuf.drop offset).take chunk.length ≠ chunk then
    let pageBuf := pageBuf.take offset ++ chunk ++ pageBuf.drop (offset + chunk.length)
    flashErase addr sectorSize.toNat
    flashWrite addr pageBuf

/-- The second phase, which writes whole sectors, and then the third. -/
def writeSectors (sectorSize : UInt32) : (fuel : ℕ) → (addr : UInt32) → List UInt8 → FlashM Unit
  | 0, _, _ => return ()
  | fuel + 1, addr, data =>
    if data.length > sectorSize.toNat then do
      let pageBuf ← flashRead addr sectorSize.toNat
      let sector := data.take sectorSize.toNat
      if pageBuf ≠ sector then
        flashErase addr sectorSize.toNat
        flashWrite addr sector
      writeSectors sectorSize fuel (addr + sectorSize) (data.drop sectorSize.toNat)
    else if data.length = 0 then return ()
    else mergeChunk sectorSize addr 0 data

/-- `SpiSmartWrite`. Each round of the second phase takes a sector off the data, whose length is
fuel enough. -/
def spiSmartWrite (sectorSize address : UInt32) (data : List UInt8) : FlashM Unit := do
  let addr := roundDown address sectorSize
  let chunkSize := min (roundUp (address + 1) sectorSize - address).toNat data.length
  mergeChunk sectorSize addr (address - addr).toNat (data.take chunkSize)
  writeSectors sectorSize (data.length + 1) (addr + sectorSize) (data.drop chunkSize)

/-! ## Messages -/

structure EepromRqst where
  bufferMemType : UInt8
  spiAddress : UInt32
  numBytes : UInt32
  csmAddr : UInt32

structure FlashUnlockRqst where
  numVariableWords : BitVec 3
  verifiedVariables : UInt32

inductive Message where
  | flashLock
  | flashUnlock (request : FlashUnlockRqst)
  | readEeprom (request : EepromRqst)
  | writeEeprom (request : EepromRqst)

structure Response where
  status : UInt8
  data1 : UInt32

structure State where
  flashLocked : Bool
  flash : Flash
  mem : ℕ → UInt8

section

variable (board : Board)

/-- `check_csm_region`: whether the region is not inside of the scratch buffer. -/
def checkCsmRegion (addr numBytes : UInt32) : Bool :=
  addr < board.bufferAddress || addr + numBytes > board.bufferAddress + spiBufferSize

def exitCode (rc : ℤ) : UInt8 := UInt8.ofInt rc

def checkRequest (request : EepromRqst) : Option UInt8 :=
  if !board.ready then some 1
  else if request.bufferMemType ≠ 0 then some 1
  else if checkCsmRegion board request.csmAddr request.numBytes then some 2
  else none

def readEepromHandler (request : EepromRqst) (outcomes : List FlashOutcome) (s : State) :
    UInt8 × State :=
  match checkRequest board request with
  | some status => (status, s)
  | none =>
    let store := fun bytes => { s with
      mem := Flash.patch s.mem request.csmAddr.toNat request.numBytes.toNat bytes }
    match outcomes.headD .ok with
    | .ok => (0, store fun i => s.flash (request.spiAddress.toNat + i))
    | .error rc _ garbage => (exitCode rc, store garbage)

def writeEepromHandler (request : EepromRqst) (outcomes : List FlashOutcome) (s : State) :
    UInt8 × State :=
  if s.flashLocked then (2, s)
  else match checkRequest board request with
    | some status => (status, s)
    | none =>
      let data := Flash.read s.mem request.csmAddr.toNat request.numBytes.toNat
      match (spiSmartWrite board.sectorSize request.spiAddress data).run ⟨s.flash, outcomes, []⟩ with
      | .ok _ d => (0, { s with flash := d.flash })
      | .error rc d => (exitCode rc, { s with flash := d.flash })

def flashLockHandler (s : State) : UInt8 × State := (0, { s with flashLocked := true })

/-- `FLASH_JEDEC_ID_MT25QU512ABB`. -/
def flashJedecIdMt25 : UInt32 := 0x20BB20

/-- `BIT(BOARD_VAR_SPI_JEDEC_ID)`. -/
def boardVarSpiJedecId : UInt32 := 1

def requiredBoardVariables : UInt32 :=
  if board.jedecId ≠ flashJedecIdMt25 then boardVarSpiJedecId else 0

def flashUnlockHandler (request : FlashUnlockRqst) (s : State) : Response × State :=
  let required := requiredBoardVariables board
  if !s.flashLocked && request.numVariableWords == 0 then (⟨0, required⟩, s)
  else
    let verified := if request.numVariableWords ≥ 1 then request.verifiedVariables else 0
    let satisfied := required &&& ~~~ verified == 0
    (⟨if satisfied then 0 else 1, required⟩, { s with flashLocked := !satisfied })

/-- The handler of a message. Only `FLASH_UNLOCK` of the flash messages sets `data[1]`. -/
def handle (message : Message) (outcomes : List FlashOutcome) (s : State) : Response × State :=
  match message with
  | .flashLock => let (status, s) := flashLockHandler s; (⟨status, 0⟩, s)
  | .flashUnlock request => flashUnlockHandler board request s
  | .readEeprom request => let (status, s) := readEepromHandler board request outcomes s; (⟨status, 0⟩, s)
  | .writeEeprom request => let (status, s) := writeEepromHandler board request outcomes s; (⟨status, 0⟩, s)

end

/-! ## The machine -/

/-- The state and, oldest first, the messages so far with their responses. -/
structure World where
  state : State
  log : List (Message × Response)

/-- The next message is processed, with the outcomes of its flash operations. -/
def step (board : Board) (s : World) (a : Message × List FlashOutcome) : Option World :=
  let (response, state) := handle board a.1 a.2 s.state
  some ⟨state, s.log ++ [(a.1, response)]⟩

end SystemFirmware.SpiEeprom
