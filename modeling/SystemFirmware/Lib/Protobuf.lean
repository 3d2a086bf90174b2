import Mathlib.Algebra.Ring.Nat
import Mathlib.Data.List.Basic

/-!
# The wire format of protocol buffers

A message is a sequence of records: a number with a wire type, and a value, which is a varint or
delimited by its length; the types of a fixed width are left out. Numbers are varints, seven bits
a byte, the lowest first (`readVarint_leb128`).

A reader takes the records one after another until the end or, if asked to, until a tag of zero
(`nullTerminated`). It finds the records that were encoded (`decodeRecords_encode`).
-/

namespace SystemFirmware.Lib

-- ---
-- Varints

def leb128 (n : ℕ) : List UInt8 :=
  if n < 128 then [UInt8.ofNat n] else UInt8.ofNat (n % 128 + 128) :: leb128 (n / 128)
termination_by n
decreasing_by omega

/-- A varint of at most `k` bytes, the last with a single bit, and what follows it. -/
def readVarint : ℕ → List UInt8 → Option (ℕ × List UInt8)
  | 0, _ => none
  | _ + 1, [] => none
  | k + 1, b :: rest =>
    if k = 0 ∧ 1 < b.toNat then none
    else if b.toNat < 128 then some (b.toNat, rest)
    else (readVarint k rest).map fun (n, rest) => (b.toNat - 128 + 128 * n, rest)

variable {n : ℕ}

theorem leb128_of_lt (h : n < 128) : leb128 n = [UInt8.ofNat n] := by
  rw [leb128, if_pos h]

theorem leb128_of_ge (h : ¬n < 128) :
    leb128 n = UInt8.ofNat (n % 128 + 128) :: leb128 (n / 128) := by
  rw [leb128, if_neg h]

theorem leb128_ne_nil (n : ℕ) : leb128 n ≠ [] := by
  rw [leb128]
  split <;> exact List.cons_ne_nil _ _

theorem toNat_ofNat_byte (h : n < 256) : (UInt8.ofNat n).toNat = n := by
  rw [UInt8.toNat_ofNat', Nat.mod_eq_of_lt h]

theorem readVarint_leb128 {k n : ℕ} (h : n < 2 ^ (7 * k + 1)) (rest : List UInt8) :
    readVarint (k + 1) (leb128 n ++ rest) = some (n, rest) := by
  induction k generalizing n with
  | zero =>
    have hn : n < 2 := h
    rw [leb128_of_lt (by omega), List.singleton_append, readVarint, toNat_ofNat_byte (by omega),
      if_neg (by omega), if_pos (by omega)]
  | succ k ih =>
    by_cases hsmall : n < 128
    · rw [leb128_of_lt hsmall, List.singleton_append, readVarint, toNat_ofNat_byte (by omega),
        if_neg (by omega), if_pos hsmall]
    · have hpow : 2 ^ (7 * (k + 1) + 1) = 2 ^ (7 * k + 1) * 128 := by
        rw [show 7 * (k + 1) + 1 = 7 * k + 1 + 7 by omega, Nat.pow_add]
      have hrest : n / 128 < 2 ^ (7 * k + 1) := by
        rw [hpow] at h
        exact Nat.div_lt_of_lt_mul (by omega)
      have hbyte : (UInt8.ofNat (n % 128 + 128)).toNat = n % 128 + 128 :=
        toNat_ofNat_byte (by omega)
      rw [leb128_of_ge hsmall, List.cons_append, readVarint, hbyte, if_neg (by omega),
        if_neg (by omega), ih hrest, Option.map_some]
      have hvalue : n % 128 + 128 - 128 + 128 * (n / 128) = n := by omega
      dsimp only
      rw [hvalue]

def readVarint64 (bytes : List UInt8) : Option (ℕ × List UInt8) := readVarint 10 bytes

def readVarint32 (bytes : List UInt8) : Option (ℕ × List UInt8) :=
  (readVarint64 bytes).filter fun (n, _) => n < 2 ^ 32

theorem readVarint64_leb128 (h : n < 2 ^ 64) (rest : List UInt8) :
    readVarint64 (leb128 n ++ rest) = some (n, rest) := @readVarint_leb128 9 n h rest

theorem readVarint32_leb128 (h : n < 2 ^ 32) (rest : List UInt8) :
    readVarint32 (leb128 n ++ rest) = some (n, rest) := by
  have h64 : n < 2 ^ 64 := by omega
  rw [readVarint32, readVarint64_leb128 h64]
  exact Option.filter_some_pos (decide_eq_true h)

-- ---
-- Records

inductive Wire
  | varint (n : ℕ)
  | delimited (bytes : List UInt8)
  deriving DecidableEq

def readBytes (n : ℕ) (bytes : List UInt8) : Option (List UInt8 × List UInt8) :=
  if n ≤ bytes.length then some (bytes.take n, bytes.drop n) else none

/-- The value of a record with the given wire type. -/
def readWire : ℕ → List UInt8 → Option (Wire × List UInt8)
  | 0, bytes => (readVarint64 bytes).map fun (n, rest) => (.varint n, rest)
  | 2, bytes => do
    let (n, rest) ← readVarint32 bytes
    let (value, rest) ← readBytes n rest
    return (.delimited value, rest)
  | _, _ => none

/-- The records of a message. Each takes a byte at least, so their number is enough fuel. -/
def readRecords (nullTerminated : Bool) : ℕ → List UInt8 → Option (List (ℕ × Wire))
  | _, [] => some []
  | 0, _ :: _ => none
  | fuel + 1, bytes => do
    let (key, rest) ← readVarint32 bytes
    if key / 8 = 0 then
      if nullTerminated then return [] else none
    else
      let (value, rest) ← readWire (key % 8) rest
      let records ← readRecords nullTerminated fuel rest
      return (key / 8, value) :: records

def encodeRecord : ℕ × Wire → List UInt8
  | (number, .varint n) => leb128 (8 * number) ++ leb128 n
  | (number, .delimited bytes) => leb128 (8 * number + 2) ++ (leb128 bytes.length ++ bytes)

def Wire.WellFormed : Wire → Prop
  | .varint n => n < 2 ^ 64
  | .delimited bytes => bytes.length < 2 ^ 32

/-- A record that can be read back. -/
structure RecordOk (record : ℕ × Wire) : Prop where
  number_pos : 0 < record.1
  number_lt : 8 * record.1 + 7 < 2 ^ 32
  value : record.2.WellFormed

theorem readBytes_append (bytes rest : List UInt8) :
    readBytes bytes.length (bytes ++ rest) = some (bytes, rest) := by
  rw [readBytes, if_pos (by simp), List.take_left, List.drop_left]

theorem encodeRecord_eq {record : ℕ × Wire} (h : RecordOk record) :
    ∃ type < 8, ∃ value, encodeRecord record = leb128 (8 * record.1 + type) ++ value ∧
      ∀ rest, readWire type (value ++ rest) = some (record.2, rest) := by
  obtain ⟨number, wire⟩ := record
  have hvalue := h.value
  cases wire with
  | varint n =>
    refine ⟨0, by decide, leb128 n, rfl, fun rest => ?_⟩
    rw [readWire, readVarint64_leb128 hvalue]
    rfl
  | delimited bytes =>
    refine ⟨2, by decide, leb128 bytes.length ++ bytes, rfl, fun rest => ?_⟩
    rw [readWire, List.append_assoc, readVarint32_leb128 hvalue]
    dsimp only [Option.bind_eq_bind, Option.bind_some]
    rw [readBytes_append]
    rfl

def encodeRecords (records : List (ℕ × Wire)) : List UInt8 := records.flatMap encodeRecord

/-- What may follow the records: nothing, or a tag of zero and anything. -/
inductive MessageEnd : Bool → List UInt8 → Prop
  | eof (nullTerminated : Bool) : MessageEnd nullTerminated []
  | zeroTag (padding : List UInt8) : MessageEnd true (0 :: padding)

section

variable {nullTerminated : Bool} {fuel : ℕ} {bytes tail : List UInt8}

theorem readRecords_of_ne_nil (h : bytes ≠ []) :
    readRecords nullTerminated (fuel + 1) bytes = (do
      let (key, rest) ← readVarint32 bytes
      if key / 8 = 0 then
        if nullTerminated then return [] else none
      else
        let (value, rest) ← readWire (key % 8) rest
        let records ← readRecords nullTerminated fuel rest
        return (key / 8, value) :: records) := by
  obtain ⟨b, bytes, rfl⟩ := List.exists_cons_of_ne_nil h
  rw [readRecords]
  exact h

theorem readRecords_end (h : MessageEnd nullTerminated tail) (hfuel : tail.length ≤ fuel) :
    readRecords nullTerminated fuel tail = some [] := by
  cases h with
  | eof => rw [readRecords]
  | zeroTag padding =>
    obtain ⟨fuel, rfl⟩ := Nat.exists_eq_add_of_le' (Nat.one_le_of_lt hfuel)
    have hzero : readVarint32 (0 :: padding) = some (0, padding) := by
      rw [← readVarint32_leb128 (by decide) padding, leb128_of_lt (by decide)]
      rfl
    rw [readRecords_of_ne_nil (List.cons_ne_nil _ _), hzero]
    rfl

variable {record : ℕ × Wire}

theorem readRecords_cons (h : RecordOk record) :
    readRecords nullTerminated (fuel + 1) (encodeRecord record ++ bytes) =
      (readRecords nullTerminated fuel bytes).map (record :: ·) := by
  obtain ⟨type, htype, value, hencode, hvalue⟩ := encodeRecord_eq h
  have hnumber : (8 * record.1 + type) / 8 = record.1 := by omega
  have hmod : (8 * record.1 + type) % 8 = type := by omega
  have hlt : 8 * record.1 + type < 2 ^ 32 := Nat.lt_of_le_of_lt (by omega) h.number_lt
  have hne : leb128 (8 * record.1 + type) ++ (value ++ bytes) ≠ [] :=
    List.append_ne_nil_of_left_ne_nil (leb128_ne_nil _) _
  rw [hencode, List.append_assoc, readRecords_of_ne_nil hne, readVarint32_leb128 hlt]
  dsimp only [Option.bind_eq_bind, Option.bind_some]
  rw [hnumber, hmod, if_neg (Nat.pos_iff_ne_zero.mp h.number_pos), hvalue]
  dsimp only [Option.bind_some]
  cases readRecords nullTerminated fuel bytes <;> rfl

variable {records : List (ℕ × Wire)}

theorem readRecords_encode (h : ∀ record ∈ records, RecordOk record)
    (hend : MessageEnd nullTerminated tail) (hfuel : records.length + tail.length ≤ fuel) :
    readRecords nullTerminated fuel (encodeRecords records ++ tail) = some records := by
  induction records generalizing fuel with
  | nil =>
    rw [List.length_nil, Nat.zero_add] at hfuel
    exact readRecords_end hend hfuel
  | cons record records ih =>
    rw [List.length_cons] at hfuel
    obtain ⟨fuel, rfl⟩ := Nat.exists_eq_add_of_le' (show 1 ≤ fuel by omega)
    have hrest := ih (fun r hr => h r (List.mem_cons_of_mem _ hr)) (show _ ≤ fuel by omega)
    rw [encodeRecords, List.flatMap_cons, List.append_assoc,
      readRecords_cons (h record List.mem_cons_self)]
    rw [encodeRecords] at hrest
    rw [hrest, Option.map_some]

theorem length_le_encodeRecords (records : List (ℕ × Wire)) :
    records.length ≤ (encodeRecords records).length := by
  induction records with
  | nil => exact Nat.le_refl 0
  | cons record records ih =>
    have hpos : 0 < (encodeRecord record).length := by
      obtain ⟨number, wire⟩ := record
      have hkey : ∀ n, 0 < (leb128 n).length := fun n => List.length_pos_of_ne_nil (leb128_ne_nil n)
      cases wire <;> rw [encodeRecord, List.length_append] <;>
        exact Nat.add_pos_left (hkey _) _
    rw [encodeRecords, List.flatMap_cons, List.length_append, List.length_cons]
    rw [encodeRecords] at ih
    omega

theorem length_encodeRecord_le (h : record ∈ records) :
    (encodeRecord record).length ≤ (encodeRecords records).length := by
  rw [encodeRecords, List.flatMap_def]
  exact (List.sublist_flatten_of_mem (List.mem_map_of_mem h)).length_le

/-- The records of the bytes. -/
def decodeRecords (nullTerminated : Bool) (bytes : List UInt8) : Option (List (ℕ × Wire)) :=
  readRecords nullTerminated bytes.length bytes

theorem decodeRecords_encode (h : ∀ record ∈ records, RecordOk record)
    (hend : MessageEnd nullTerminated tail) :
    decodeRecords nullTerminated (encodeRecords records ++ tail) = some records := by
  refine readRecords_encode h hend ?_
  rw [List.length_append]
  exact Nat.add_le_add_right (length_le_encodeRecords records) _

end

/-- Reading back what was written, value by value. -/
theorem mapM_map_of_inverse {α β : Type} {read : β → Option α} {write : α → β} {l : List α}
    (h : ∀ a ∈ l, read (write a) = some a) : (l.map write).mapM read = some l := by
  induction l with
  | nil => rfl
  | cons a l ih =>
    obtain ⟨ha, hl⟩ := List.forall_mem_cons.mp h
    rw [List.map_cons, List.mapM_cons, ha, ih hl]
    rfl

end SystemFirmware.Lib
