import SystemFirmware.PcieLog.Definitions

/-!
# PCIe log framing

An entry is a header and a payload, and `msg_size` in the header counts both. The host goes
from one `msg_size` to the next (`parseEntries_flatMap`). Framing is a chain of appends
(`Appends`): the header with `msg_size` still zero, the pieces of the text, the NUL. The
size is then patched into the header.
-/

namespace SystemFirmware.PcieLog

open Lib

-- ---
-- Whole entries

/-- **A whole entry**: `msg_size` is the size of header and payload, which fits its 16 bits, and
the payload ends with a NUL. -/
structure Entry.Whole (e : Entry) : Prop where
  msgSize_eq : e.msgSize = entryHeaderSize + e.payload.length
  msgSize_lt : e.msgSize < 2 ^ 16
  nulTerminated : e.NulTerminated

def Entry.bytes (e : Entry) : List UInt8 :=
  entryHeader (UInt16.ofNat e.msgSize) e.logLevel e.source e.timestamp e.sequence ++ e.payload

@[simp] theorem length_entryHeader {msgSize : UInt16} {logLevel source : UInt8}
    {timestamp sequence : UInt32} :
    (entryHeader msgSize logLevel source timestamp sequence).length = entryHeaderSize := by
  simp [entryHeader, entryHeaderSize]

namespace Entry

variable {e : Entry} {rest : List UInt8}

theorem length_bytes : e.bytes.length = entryHeaderSize + e.payload.length := by
  rw [bytes, List.length_append, length_entryHeader]

theorem Whole.toNat_take_two (h : e.Whole) :
    (ofLe16 ((e.bytes ++ rest).take 2)).toNat = e.msgSize := by
  have htake : (e.bytes ++ rest).take 2 = le16 (UInt16.ofNat e.msgSize) := by
    rw [bytes, entryHeader]
    simp only [List.append_assoc]
    exact List.take_left' length_le16
  rw [htake, ofLe16_le16, UInt16.toNat_ofNat_of_lt' h.msgSize_lt]

theorem Whole.ofBytes_bytes (h : e.Whole) : ofBytes e.bytes = e := by
  have hsize : (ofLe16 (e.bytes.take 2)).toNat = e.msgSize := by
    rw [← h.toNat_take_two, List.append_nil]
  have htime : (e.bytes.drop 4).take 4 = le32 e.timestamp := rfl
  have hseq : (e.bytes.drop 8).take 4 = le32 e.sequence := rfl
  have hpayload : e.bytes.drop entryHeaderSize = e.payload := List.drop_left' length_entryHeader
  rw [ofBytes, hsize, htime, hseq, hpayload, ofLe32_le32, ofLe32_le32]
  rfl

end Entry

variable {fuel : ℕ}

theorem parseEntries_bytes_append {e : Entry} {rest : List UInt8} (h : e.Whole) :
    parseEntries (fuel + 1) (e.bytes ++ rest) = (e :: ·) <$> parseEntries fuel rest := by
  have hlen : e.bytes.length = e.msgSize := by rw [Entry.length_bytes, h.msgSize_eq]
  have hsize : entryHeaderSize ≤ e.msgSize ∧ e.msgSize ≤ (e.bytes ++ rest).length := by
    rw [List.length_append, hlen, h.msgSize_eq]
    omega
  have hne : e.bytes ++ rest ≠ [] := by
    intro hnil
    have := congrArg List.length hnil
    rw [List.length_append, Entry.length_bytes, entryHeaderSize, List.length_nil] at this
    omega
  rw [parseEntries.eq_def]
  split
  · exact absurd ‹_› hne
  · cases ‹fuel + 1 = 0›
  · obtain rfl := Nat.succ.inj ‹fuel + 1 = _ + 1›
    simp only [h.toNat_take_two]
    rw [if_pos hsize, List.take_left' hlen, List.drop_left' hlen, h.ofBytes_bytes]

variable {entries : List Entry}

/-- **Whole entries parse**: going from one `msg_size` to the next finds each of them, and nothing
else. -/
theorem parseEntries_flatMap (h : ∀ e ∈ entries, e.Whole) (hfuel : entries.length ≤ fuel) :
    parseEntries fuel (entries.flatMap Entry.bytes) = some entries := by
  induction entries generalizing fuel with
  | nil => cases fuel <;> rfl
  | cons e entries ih =>
    obtain ⟨fuel, rfl⟩ : ∃ k, fuel = k + 1 := Nat.exists_eq_succ_of_ne_zero (by
      rintro rfl
      cases hfuel)
    have htail := ih (fun e' he' => h e' (List.mem_cons_of_mem _ he'))
      (Nat.le_of_succ_le_succ hfuel)
    rw [List.flatMap_cons, parseEntries_bytes_append (h e List.mem_cons_self), htail]
    rfl

theorem length_le_length_flatMap_bytes :
    entries.length ≤ (entries.flatMap Entry.bytes).length := by
  induction entries with
  | nil => exact Nat.le_refl 0
  | cons e entries ih =>
    rw [List.flatMap_cons, List.length_append, List.length_cons, Entry.length_bytes,
      entryHeaderSize]
    omega

-- ---
-- Appending to the buffer

/-- What the buffer holds, `framed_log_buffer[0, framed_buffer_pos)`. -/
def State.content (s : State) : List UInt8 := s.framedLogBuffer.read 0 s.framedBufferPos

/-- The bytes come behind what the buffer holds; the host's buffer stays as it is. -/
structure Appends (s : State) (bytes : List UInt8) (s' : State) : Prop where
  content : s'.content = s.content ++ bytes
  available : s'.hostAvailable = s.hostAvailable
  iova : s'.logBufferIova = s.logBufferIova
  size : s'.logBufferSize = s.logBufferSize

theorem length_content {s : State} : s.content.length = s.framedBufferPos := Flash.length_read

namespace Appends

variable {s s' s'' : State} {bytes bytes' : List UInt8}

theorem refl (s : State) : Appends s [] s := ⟨(List.append_nil _).symm, rfl, rfl, rfl⟩

theorem trans (h : Appends s bytes s') (h' : Appends s' bytes' s'') :
    Appends s (bytes ++ bytes') s'' where
  content := by rw [h'.content, h.content, List.append_assoc]
  available := h'.available.trans h.available
  iova := h'.iova.trans h.iova
  size := h'.size.trans h.size

theorem pos_eq (h : Appends s bytes s') :
    s'.framedBufferPos = s.framedBufferPos + bytes.length := by
  rw [← length_content, h.content, List.length_append, length_content]

theorem access_eq (h : Appends s bytes s') : s'.access = s.access := by
  funext origin ops
  rw [State.access, h.iova, h.size]
  rfl

variable {sequence : UInt32}

theorem of_program {len : ℕ} (hlen : bytes.length = len) :
    Appends s bytes { s with
      sequenceNumber := sequence
      framedLogBuffer := s.framedLogBuffer.program s.framedBufferPos bytes
      framedBufferPos := s.framedBufferPos + len } where
  content := by
    subst hlen
    exact Flash.read_program_concat
  available := rfl
  iova := rfl
  size := rfl

theorem patch_msgSize {payload : List UInt8} {logLevel source : UInt8} {timestamp : UInt32}
    (msgSize : UInt16)
    (h : Appends s (entryHeader 0 logLevel source timestamp sequence ++ payload) s') :
    Appends s (entryHeader msgSize logLevel source timestamp sequence ++ payload)
      { s' with framedLogBuffer := s'.framedLogBuffer.program s.framedBufferPos (le16 msgSize) } where
  content := by
    have hcontent := h.content
    simp only [entryHeader, List.append_assoc] at hcontent
    rw [← List.append_assoc] at hcontent
    simp only [entryHeader, List.append_assoc]
    rw [← List.append_assoc]
    exact Flash.read_program_replace hcontent length_content (length_le16.trans length_le16.symm)
  available := h.available
  iova := h.iova
  size := h.size

end Appends

section

variable {bufferSize : ℕ} {s : State}

theorem putcInFrame_appends {data : List UInt8} :
    Appends s (data.take (bufferSize - 1 - s.framedBufferPos)) (putcInFrame bufferSize s data) ∧
      (putcInFrame bufferSize s data).sequenceNumber = s.sequenceNumber := by
  obtain ⟨n, hn⟩ : ∃ n, n = (if bufferSize - s.framedBufferPos > 1 then
      min data.length (bufferSize - s.framedBufferPos - 1) else 0) := ⟨_, rfl⟩
  have htake : data.take (bufferSize - 1 - s.framedBufferPos) = data.take n := by
    rw [List.take_eq_take_iff]
    split at hn <;> omega
  have hle : n ≤ data.length := by split at hn <;> omega
  rw [htake, putcInFrame, ← hn]
  by_cases hpos : n > 0
  · rw [if_pos hpos]
    exact ⟨.of_program (by rw [List.length_take, Nat.min_eq_left hle]), rfl⟩
  · rw [if_neg hpos, Nat.eq_zero_of_not_pos hpos, List.take_zero]
    exact ⟨.refl s, rfl⟩

theorem foldl_putcInFrame {text : List (List UInt8)} :
    Appends s (text.flatten.take (bufferSize - 1 - s.framedBufferPos))
        (text.foldl (putcInFrame bufferSize) s) ∧
      (text.foldl (putcInFrame bufferSize) s).sequenceNumber = s.sequenceNumber := by
  induction text generalizing s with
  | nil => exact ⟨by simpa using Appends.refl s, rfl⟩
  | cons data text ih =>
    obtain ⟨happ, hseq⟩ := @putcInFrame_appends bufferSize s data
    obtain ⟨happ', hseq'⟩ := @ih (putcInFrame bufferSize s data)
    refine ⟨?_, hseq'.trans hseq⟩
    -- the room that the first piece leaves
    have hroom : bufferSize - 1 - (putcInFrame bufferSize s data).framedBufferPos =
        bufferSize - 1 - s.framedBufferPos - data.length := by
      rw [happ.pos_eq, List.length_take]
      omega
    rw [List.flatten_cons, List.take_append, ← hroom]
    exact happ.trans happ'

/-- The entry a message is framed as: its text is cut off where the buffer ends. -/
def entryOf (bufferSize : ℕ) (msg : Message) (s : State) : Entry :=
  let payload :=
    msg.text.flatten.take (bufferSize - 1 - (s.framedBufferPos + entryHeaderSize)) ++ [0]
  { msgSize := entryHeaderSize + payload.length
    logLevel := msg.level
    source := fwLogSourceSmc
    timestamp := msg.timestamp
    sequence := s.sequenceNumber
    payload := payload }

theorem pos_add_length_entryOf_le {msg : Message}
    (hroom : s.framedBufferPos + entryHeaderSize + 1 ≤ bufferSize) :
    s.framedBufferPos + (entryOf bufferSize msg s).bytes.length ≤ bufferSize := by
  rw [Entry.length_bytes, entryOf, List.length_append, List.length_take, List.length_singleton]
  omega

variable {msg : Message}

theorem entryOf_whole (hsize : bufferSize < 2 ^ 16)
    (hroom : s.framedBufferPos + entryHeaderSize + 1 ≤ bufferSize) :
    (entryOf bufferSize msg s).Whole where
  msgSize_eq := rfl
  msgSize_lt := by
    have hle := @pos_add_length_entryOf_le bufferSize s msg hroom
    rw [Entry.length_bytes] at hle
    exact Nat.lt_of_le_of_lt (Nat.le_trans (Nat.le_add_left ..) hle) hsize
  nulTerminated := List.getLast?_concat

theorem frameEntry_spec {msg : Message} :
    Appends s (entryOf bufferSize msg s).bytes (frameEntry bufferSize msg s) ∧
      (frameEntry bufferSize msg s).sequenceNumber = s.sequenceNumber + 1 := by
  obtain ⟨s₁, hs₁⟩ : ∃ s₁, s₁ = { s with
      sequenceNumber := s.sequenceNumber + 1
      framedLogBuffer := s.framedLogBuffer.program s.framedBufferPos
        (entryHeader 0 msg.level fwLogSourceSmc msg.timestamp s.sequenceNumber)
      framedBufferPos := s.framedBufferPos + entryHeaderSize } := ⟨_, rfl⟩
  obtain ⟨htext, hseq⟩ := @foldl_putcInFrame bufferSize s₁ msg.text
  obtain ⟨s₂, hs₂⟩ : ∃ s₂, s₂ = msg.text.foldl (putcInFrame bufferSize) s₁ := ⟨_, rfl⟩
  rw [← hs₂] at htext hseq
  obtain ⟨s₃, hs₃⟩ : ∃ s₃, s₃ = { s₂ with
      framedLogBuffer := s₂.framedLogBuffer.program s₂.framedBufferPos [0]
      framedBufferPos := s₂.framedBufferPos + 1 } := ⟨_, rfl⟩
  have hheader : Appends s
      (entryHeader 0 msg.level fwLogSourceSmc msg.timestamp s.sequenceNumber) s₁ := by
    rw [hs₁]
    exact .of_program length_entryHeader
  have hnul : Appends s₂ [0] s₃ := by
    rw [hs₃]
    exact .of_program rfl
  have hpos : s₁.framedBufferPos = s.framedBufferPos + entryHeaderSize := by rw [hs₁]
  rw [hpos] at htext
  have hpayload : Appends s₁ (entryOf bufferSize msg s).payload s₃ := htext.trans hnul
  have hsize : entryHeaderSize + (s₃.framedBufferPos - s₁.framedBufferPos) =
      (entryOf bufferSize msg s).msgSize := by
    rw [hpayload.pos_eq, Nat.add_sub_cancel_left]
    rfl
  have hframe : frameEntry bufferSize msg s = { s₃ with
      framedLogBuffer := s₃.framedLogBuffer.program s.framedBufferPos
        (le16 (UInt16.ofNat (entryOf bufferSize msg s).msgSize)) } := by
    rw [← hsize, hs₃, hs₂, hs₁]
    rfl
  rw [hframe]
  refine ⟨(hheader.trans hpayload).patch_msgSize _, ?_⟩
  rw [hs₃]
  show s₂.sequenceNumber = _
  rw [hseq, hs₁]

theorem ofBytes_frameEntry (hsize : bufferSize < 2 ^ 16)
    (hroom : s.framedBufferPos + entryHeaderSize + 1 ≤ bufferSize) :
    Entry.ofBytes ((frameEntry bufferSize msg s).framedLogBuffer.read s.framedBufferPos
      ((frameEntry bufferSize msg s).framedBufferPos - s.framedBufferPos)) =
    entryOf bufferSize msg s := by
  have hcontent := congrArg (List.drop s.framedBufferPos)
    (@frameEntry_spec bufferSize s msg).1.content
  rw [List.drop_left' length_content, State.content, Flash.drop_read, Nat.zero_add] at hcontent
  rw [hcontent, (entryOf_whole hsize hroom).ofBytes_bytes]

end

end SystemFirmware.PcieLog
