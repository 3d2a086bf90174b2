import Mathlib.Algebra.Ring.Nat
import SystemFirmware.SpiEeprom.Definitions

/-!
# SPI EEPROM messages — the scratch buffer

The host says where in the controller's memory the data of a transfer is, and
`check_csm_region` is there to see that it is inside of `spi_global_buffer`. It compares
the end of the region, `addr + num_bytes`, which has 32 bits: a region at the end of the
address space has the end 0, which passes (`eeprom_within_scratch`).
-/

namespace SystemFirmware.SpiEeprom

open Lib

def InScratch (board : Board) (a : ℕ) : Prop :=
  board.bufferAddress.toNat ≤ a ∧ a < board.bufferAddress.toNat + spiBufferSize.toNat

instance (board : Board) (a : ℕ) : Decidable (InScratch board a) :=
  inferInstanceAs (Decidable (_ ∧ _))

section

variable {board : Board} {request : EepromRqst} {s : State} {outcomes : List FlashOutcome}

theorem checkRequest_eq_none : checkRequest board request = none ↔
    board.ready = true ∧ request.bufferMemType = 0 ∧
      board.bufferAddress.toNat ≤ request.csmAddr.toNat ∧
      (request.csmAddr.toNat + request.numBytes.toNat) % 2 ^ 32 ≤
        (board.bufferAddress.toNat + spiBufferSize.toNat) % 2 ^ 32 := by
  have hregion : checkCsmRegion board request.csmAddr request.numBytes = false ↔
      board.bufferAddress.toNat ≤ request.csmAddr.toNat ∧
        (request.csmAddr.toNat + request.numBytes.toNat) % 2 ^ 32 ≤
          (board.bufferAddress.toNat + spiBufferSize.toNat) % 2 ^ 32 := by
    rw [checkCsmRegion, Bool.or_eq_false_iff, decide_eq_false_iff_not, decide_eq_false_iff_not,
      UInt32.lt_iff_toNat_lt, gt_iff_lt, UInt32.lt_iff_toNat_lt, UInt32.toNat_add, UInt32.toNat_add,
      Nat.not_lt, Nat.not_lt]
  rw [← hregion, checkRequest]
  split_ifs <;> simp_all

theorem inScratch_of_check
    (hwrap : request.csmAddr.toNat + request.numBytes.toNat < 2 ^ 32)
    (hcheck : checkRequest board request = none) {i : ℕ} (hi : i < request.numBytes.toNat) :
    InScratch board (request.csmAddr.toNat + i) := by
  obtain ⟨-, -, hlow, hend⟩ := checkRequest_eq_none.mp hcheck
  rw [Nat.mod_eq_of_lt hwrap] at hend
  have hmod := Nat.mod_le (board.bufferAddress.toNat + spiBufferSize.toNat) (2 ^ 32)
  exact ⟨by omega, by omega⟩

theorem readEepromHandler_mem_outside {a : ℕ}
    (ha : checkRequest board request = none →
      a < request.csmAddr.toNat ∨ request.csmAddr.toNat + request.numBytes.toNat ≤ a) :
    (readEepromHandler board request outcomes s).2.mem a = s.mem a := by
  unfold readEepromHandler
  split
  · rfl
  · rename_i hcheck
    have hpatch : ∀ bytes, Flash.patch s.mem request.csmAddr.toNat request.numBytes.toNat bytes a =
        s.mem a := fun _ => Flash.patch_outside (ha hcheck)
    dsimp only
    split
    · exact hpatch fun i => s.flash (request.spiAddress.toNat + i)
    · exact hpatch _

theorem writeEepromHandler_congr {mem : ℕ → UInt8}
    (hmem : s.flashLocked = false → checkRequest board request = none →
      ∀ i < request.numBytes.toNat,
        mem (request.csmAddr.toNat + i) = s.mem (request.csmAddr.toNat + i)) :
    writeEepromHandler board request outcomes { s with mem := mem } =
      ((writeEepromHandler board request outcomes s).1,
        { (writeEepromHandler board request outcomes s).2 with mem := mem }) := by
  unfold writeEepromHandler
  by_cases hlocked : s.flashLocked = true
  · rw [if_pos hlocked, if_pos hlocked]
  · rw [if_neg hlocked, if_neg hlocked]
    rcases hcheck : checkRequest board request with _ | status
    · have hread : Flash.read mem request.csmAddr.toNat request.numBytes.toNat =
          Flash.read s.mem request.csmAddr.toNat request.numBytes.toNat :=
        Flash.read_congr (hmem (Bool.not_eq_true _ ▸ hlocked) hcheck)
      dsimp only
      rw [hread]
      split <;> rfl
    · rfl

end

/-- The addresses of the data that a message makes the flash driver store (`READ_EEPROM`) or load
(`WRITE_EEPROM`), in the 32 bits that the controller computes with. -/
def Handed (board : Board) (write : Bool) (request : EepromRqst) (s : State) (a : ℕ) : Prop :=
  ¬(write = true ∧ s.flashLocked = true) ∧ checkRequest board request = none ∧
    ∃ i < request.numBytes.toNat, a = (request.csmAddr.toNat + i) % 2 ^ 32

/-- The end of the region does not wrap, or the message is refused all the same: by the lock, the
flash, the type of the memory, or one of the two comparisons of `check_csm_region`. -/
def Confined (board : Board) (write : Bool) (request : EepromRqst) (s : State) : Prop :=
  request.csmAddr.toNat + request.numBytes.toNat < 2 ^ 32 ∨
    write = true ∧ s.flashLocked = true ∨ board.ready = false ∨ request.bufferMemType ≠ 0 ∨
    request.csmAddr.toNat < board.bufferAddress.toNat ∨
    2 ^ 32 + board.bufferAddress.toNat + spiBufferSize.toNat <
      request.csmAddr.toNat + request.numBytes.toNat

section

variable {board : Board} {write : Bool} {request : EepromRqst} {s : State}

theorem Confined.noWrap (h : Confined board write request s)
    (hlock : ¬(write = true ∧ s.flashLocked = true)) (hcheck : checkRequest board request = none) :
    request.csmAddr.toNat + request.numBytes.toNat < 2 ^ 32 := by
  obtain ⟨hready, htype, hlow, hend⟩ := checkRequest_eq_none.mp hcheck
  have hcsm := request.csmAddr.toNat_lt
  have hnum := request.numBytes.toNat_lt
  have hmod := Nat.mod_le (board.bufferAddress.toNat + spiBufferSize.toNat) (2 ^ 32)
  obtain h | h | h | h | h | h := h
  · exact h
  · exact absurd h hlock
  · simp [hready] at h
  · exact absurd htype h
  · omega
  · omega

/-- **When the data of a message is in the scratch buffer**: exactly if the region is `Confined`,
for a buffer that ends before the last address. -/
theorem handed_inScratch_iff
    (hbuffer : board.bufferAddress.toNat + spiBufferSize.toNat < 2 ^ 32) :
    (∀ a, Handed board write request s a → InScratch board a) ↔
      Confined board write request s := by
  constructor
  · intro hinside
    by_contra hnot
    simp only [Confined, not_or, Nat.not_lt, ne_eq, not_not, Bool.not_eq_false] at hnot
    obtain ⟨hwrap, hlock, hready, htype, hlow, hend⟩ := hnot
    have hcsm := request.csmAddr.toNat_lt
    have hcheck : checkRequest board request = none :=
      checkRequest_eq_none.mpr ⟨hready, htype, hlow, by omega⟩
    -- the last address is part of the region, and behind the buffer
    have hlast := hinside (2 ^ 32 - 1)
      ⟨hlock, hcheck, 2 ^ 32 - 1 - request.csmAddr.toNat, by omega, by omega⟩
    have hbehind := hlast.2
    omega
  · rintro h a ⟨hlock, hcheck, i, hi, rfl⟩
    have hwrap := h.noWrap hlock hcheck
    rw [Nat.mod_eq_of_lt (by omega)]
    exact inScratch_of_check hwrap hcheck hi

end

/-- **When the messages keep to the scratch buffer.** The data is in the buffer exactly if the
region is `Confined`; then a read stores nowhere else, and a write comes to the same in two memories
that have the same buffer. -/
theorem eeprom_within_scratch (board : Board) (request : EepromRqst) (s : State)
    (hbuffer : board.bufferAddress.toNat + spiBufferSize.toNat < 2 ^ 32) :
    (∀ write, (∀ a, Handed board write request s a → InScratch board a) ↔
        Confined board write request s) ∧
      (Confined board false request s → ∀ outcomes a, ¬InScratch board a →
        (readEepromHandler board request outcomes s).2.mem a = s.mem a) ∧
      (Confined board true request s → ∀ outcomes mem, (∀ a, InScratch board a → mem a = s.mem a) →
        writeEepromHandler board request outcomes { s with mem := mem } =
          ((writeEepromHandler board request outcomes s).1,
            { (writeEepromHandler board request outcomes s).2 with mem := mem })) := by
  refine ⟨fun write => handed_inScratch_iff hbuffer, ?_, ?_⟩
  · intro h outcomes a ha
    refine readEepromHandler_mem_outside fun hcheck => ?_
    by_contra hinside
    have hin := @inScratch_of_check board request (h.noWrap (by simp) hcheck) hcheck
      (a - request.csmAddr.toNat) (by omega)
    rw [Nat.add_sub_cancel' (by omega)] at hin
    exact ha hin
  · intro h outcomes mem hmem
    refine writeEepromHandler_congr fun hlock hcheck i hi => ?_
    exact hmem _ (inScratch_of_check (h.noWrap (by simp [hlock]) hcheck) hcheck hi)

def csmBoard : Board := ⟨0x20BB20, true, 4096, 0x10008000⟩

def fourBytes (csmAddr : UInt32) : EepromRqst := ⟨0, 0, 4, csmAddr⟩

def blank : State := ⟨false, fun _ => 0xFF, fun _ => 0⟩

theorem eeprom_within_scratch_start :
    checkRequest csmBoard (fourBytes 0x10008000) = none ∧
      (∀ a, Handed csmBoard true (fourBytes 0x10008000) blank a → InScratch csmBoard a) ∧
      ∀ a, ¬InScratch csmBoard a →
        (readEepromHandler csmBoard (fourBytes 0x10008000) [] blank).2.mem a = blank.mem a := by
  obtain ⟨hdata, hread, -⟩ := eeprom_within_scratch csmBoard (fourBytes 0x10008000) blank
    (by decide)
  exact ⟨by decide, (hdata true).mpr (.inl (by decide)), hread (.inl (by decide)) []⟩

/-- The last four bytes of the address space are not in the buffer. A read stores there, and a
write takes its data from there. -/
theorem wrapped_region_accepted :
    ¬InScratch csmBoard 0xFFFFFFFC ∧
      (readEepromHandler csmBoard (fourBytes 0xFFFFFFFC) [] blank).1 = 0 ∧
      (readEepromHandler csmBoard (fourBytes 0xFFFFFFFC) [] blank).2.mem 0xFFFFFFFC ≠
        blank.mem 0xFFFFFFFC ∧
      (writeEepromHandler csmBoard (fourBytes 0xFFFFFFFC) []
        { blank with mem := fun a => if a = 0xFFFFFFFC then 0x5A else 0 }).1 = 0 ∧
      (writeEepromHandler csmBoard (fourBytes 0xFFFFFFFC) []
        { blank with mem := fun a => if a = 0xFFFFFFFC then 0x5A else 0 }).2.flash 0 = 0x5A := by
  decide +kernel

end SystemFirmware.SpiEeprom
