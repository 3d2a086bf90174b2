import Mathlib.Algebra.BigOperators.Group.List.Basic
import Mathlib.Algebra.Ring.Nat
import Mathlib.Data.List.Nodup
import SystemFirmware.Lib.Pieces

/-!
# Intel HEX

A reader of the format: lines of hexadecimal bytes behind a colon, each with its byte
count, 16-bit offset, record type, data and a checksum that makes the bytes add up to 0
modulo 256. Data records are placed at their offset from the last upper address a type-04
record set; a single end record is the last line (`Reads.decode_file`).
-/

namespace SystemFirmware.Lib.IntelHex

/-! ## Hexadecimal text -/

def digitUpper (n : ℕ) : Char := "0123456789ABCDEF".toList.getD n '0'

def digitLower (n : ℕ) : Char := "0123456789abcdef".toList.getD n '0'

def digitVal (c : Char) : Option ℕ :=
  if '0' ≤ c ∧ c ≤ '9' then some (c.toNat - '0'.toNat)
  else if 'A' ≤ c ∧ c ≤ 'F' then some (c.toNat - 'A'.toNat + 10)
  else if 'a' ≤ c ∧ c ≤ 'f' then some (c.toNat - 'a'.toNat + 10)
  else none

theorem digitVal_digitUpper {n : ℕ} (h : n < 16) : digitVal (digitUpper n) = some n := by
  revert n
  decide

theorem digitVal_digitLower {n : ℕ} (h : n < 16) : digitVal (digitLower n) = some n := by
  revert n
  decide

theorem digitVal_lt {c : Char} {d : ℕ} (h : digitVal c = some d) : d < 16 := by
  unfold digitVal at h
  simp only [Char.le_def, UInt32.le_iff_toNat_le] at h
  split at h
  · rename_i hdigit
    have hle : c.toNat ≤ '9'.toNat := hdigit.2
    have hzero : '0'.toNat = 48 := rfl
    have hnine : '9'.toNat = 57 := rfl
    have := Option.some.inj h
    omega
  · split at h
    · rename_i hdigit
      have hle : c.toNat ≤ 'F'.toNat := hdigit.2
      have ha : 'A'.toNat = 65 := rfl
      have hf : 'F'.toNat = 70 := rfl
      have := Option.some.inj h
      omega
    · split at h
      · rename_i hdigit
        have hle : c.toNat ≤ 'f'.toNat := hdigit.2
        have ha : 'a'.toNat = 97 := rfl
        have hf : 'f'.toNat = 102 := rfl
        have := Option.some.inj h
        omega
      · simp at h

def parseBytes : List Char → Option (List UInt8)
  | [] => some []
  | [_] => none
  | hi :: lo :: rest => do
    let h ← digitVal hi
    let l ← digitVal lo
    let bytes ← parseBytes rest
    some (UInt8.ofNat (16 * h + l) :: bytes)

def hexText (digit : ℕ → Char) (bytes : List UInt8) : List Char :=
  bytes.flatMap fun b => [digit (b.toNat / 16), digit (b.toNat % 16)]

theorem parseBytes_append {a b : List Char} {x : List UInt8} (h : parseBytes a = some x) :
    parseBytes (a ++ b) = (parseBytes b).map (x ++ ·) := by
  fun_induction parseBytes a generalizing x with
  | case1 =>
    rw [← Option.some.inj h]
    simp
  | case2 => simp at h
  | case3 hi lo rest ih =>
    simp only [bind, Option.bind_eq_some_iff, Option.some.injEq] at h
    obtain ⟨d, hd, e, he, bytes, hbytes, rfl⟩ := h
    simp only [List.cons_append, parseBytes, hd, he, ih hbytes, bind, Option.bind_some]
    rcases parseBytes b with _ | y <;> rfl

theorem parseBytes_hexText {digit : ℕ → Char} (hdigit : ∀ n < 16, digitVal (digit n) = some n)
    {bytes : List UInt8} : parseBytes (hexText digit bytes) = some bytes := by
  induction bytes with
  | nil => rfl
  | cons b bytes ih =>
    have hlt := b.toNat_lt
    have hhi := hdigit (b.toNat / 16) (by omega)
    have hlo := hdigit (b.toNat % 16) (by omega)
    have hbyte : 16 * (b.toNat / 16) + b.toNat % 16 = b.toNat := Nat.div_add_mod _ _
    show parseBytes (digit _ :: digit _ :: hexText digit bytes) = _
    simp only [parseBytes, hhi, hlo, ih, bind, Option.bind_some, hbyte, UInt8.ofNat_toNat]

theorem newline_notMem_of_parseBytes {text : List Char} {bytes : List UInt8}
    (h : parseBytes text = some bytes) : '\n' ∉ text := by
  have hnone : digitVal '\n' = none := by decide
  fun_induction parseBytes text generalizing bytes with
  | case1 => simp
  | case2 => simp at h
  | case3 hi lo rest ih =>
    simp only [bind, Option.bind_eq_some_iff, Option.some.injEq] at h
    obtain ⟨d, hd, e, he, more, hmore, rfl⟩ := h
    rintro hmem
    rcases List.mem_cons.mp hmem with rfl | hmem
    · simp [hnone] at hd
    · rcases List.mem_cons.mp hmem with rfl | hmem
      · simp [hnone] at he
      · exact ih hmore hmem

/-! ## Records -/

def byteSum (bytes : List UInt8) : ℕ := (bytes.map UInt8.toNat).sum

structure Record where
  offset : ℕ
  kind : UInt8
  data : List UInt8
  deriving DecidableEq

/-- A line without its line break. -/
def parseRecord : List Char → Option Record
  | ':' :: text =>
    match parseBytes text with
    | some (count :: hi :: lo :: kind :: rest) =>
      if rest.length = count.toNat + 1 ∧
          byteSum (count :: hi :: lo :: kind :: rest) % 256 = 0 then
        some ⟨256 * hi.toNat + lo.toNat, kind, rest.dropLast⟩
      else none
    | _ => none
  | _ => none

theorem parseRecord_of_parseBytes {text : List Char} {count hi lo kind sum : UInt8}
    {data : List UInt8} (htext : parseBytes text = some (count :: hi :: lo :: kind :: data ++ [sum]))
    (hcount : data.length = count.toNat)
    (hsum : (byteSum (count :: hi :: lo :: kind :: data) + sum.toNat) % 256 = 0) :
    parseRecord (':' :: text) = some ⟨256 * hi.toNat + lo.toNat, kind, data⟩ := by
  have hbytes : byteSum (count :: hi :: lo :: kind :: (data ++ [sum])) =
      byteSum (count :: hi :: lo :: kind :: data) + sum.toNat := by
    simp [byteSum, Nat.add_assoc]
  simp only [List.cons_append] at htext
  simp [parseRecord, htext, hcount, hbytes, hsum]

/-! ## Files -/

def placed (addr : ℕ) (data : List UInt8) : List (ℕ × UInt8) :=
  (List.range' addr data.length).zip data

def decodeLines : ℕ → List (List Char) → Option (List (ℕ × UInt8))
  | _, [] => none
  | upper, line :: rest =>
    match parseRecord line with
    | none => none
    | some r =>
      if r.kind = 0 then (decodeLines upper rest).map (placed (0x10000 * upper + r.offset) r.data ++ ·)
      else if r.kind = 4 then
        match r.data with
        | [hi, lo] => decodeLines (256 * hi.toNat + lo.toNat) rest
        | _ => none
      else if r.kind = 1 ∧ r.data = [] ∧ rest = [] then some []
      else none

def decode (text : List Char) : Option (List (ℕ × UInt8)) := decodeLines 0 (text.splitOn '\n')

section

variable {upper offset : ℕ} {line : List Char} {rest : List (List Char)} {data : List UInt8}

theorem decodeLines_data (h : parseRecord line = some ⟨offset, 0, data⟩) :
    decodeLines upper (line :: rest) =
      (decodeLines upper rest).map (placed (0x10000 * upper + offset) data ++ ·) := by
  simp [decodeLines, h]

theorem decodeLines_upper {hi lo : UInt8} (h : parseRecord line = some ⟨offset, 4, [hi, lo]⟩) :
    decodeLines upper (line :: rest) = decodeLines (256 * hi.toNat + lo.toNat) rest := by
  simp [decodeLines, h]

theorem decodeLines_end (h : parseRecord line = some ⟨offset, 1, []⟩) :
    decodeLines upper [line] = some [] := by
  simp [decodeLines, h]

theorem placed_append {addr : ℕ} {data' : List UInt8} :
    placed addr (data ++ data') = placed addr data ++ placed (addr + data.length) data' := by
  unfold placed
  rw [List.length_append, ← List.range'_append_1, List.zip_append (by simp)]

end

/-! ## Runs of lines -/

/-- The lines place `bytes` and take the upper address from `upper` to `upper'`. -/
structure Reads (lines : List (List Char)) (upper upper' : ℕ) (bytes : List (ℕ × UInt8)) :
    Prop where
  decode : ∀ rest, decodeLines upper (lines ++ rest) = (decodeLines upper' rest).map (bytes ++ ·)
  newline : ∀ line ∈ lines, '\n' ∉ line

section

variable {upper upper' upper'' : ℕ} {lines lines' : List (List Char)} {bytes bytes' : List (ℕ × UInt8)}

theorem Reads.nil : Reads [] upper upper [] where
  decode := by
    intro rest
    rcases h : decodeLines upper rest with _ | b <;> simp [h]
  newline := by simp

theorem Reads.append (h : Reads lines upper upper' bytes) (h' : Reads lines' upper' upper'' bytes') :
    Reads (lines ++ lines') upper upper'' (bytes ++ bytes') where
  decode := by
    intro rest
    rw [List.append_assoc, h.decode, h'.decode, Option.map_map]
    simp [Function.comp_def, List.append_assoc]
  newline := by
    intro line hline
    rcases List.mem_append.mp hline with hline | hline
    · exact h.newline line hline
    · exact h'.newline line hline

theorem Reads.decode_file {last : List Char} {offset : ℕ} (h : Reads lines 0 upper bytes)
    (hlast : parseRecord last = some ⟨offset, 1, []⟩) (hnewline : '\n' ∉ last) :
    IntelHex.decode (lines.flatMap (· ++ ['\n']) ++ last) = some bytes := by
  have htext : lines.flatMap (· ++ ['\n']) ++ last = ['\n'].intercalate (lines ++ [last]) := by
    clear h
    induction lines with
    | nil => simp
    | cons line lines ih =>
      obtain ⟨next, rest, hnext⟩ : ∃ next rest, lines ++ [last] = next :: rest :=
        List.exists_cons_of_ne_nil (by simp)
      rw [List.flatMap_cons, List.append_assoc, ih, List.cons_append, hnext,
        List.intercalate_cons_cons]
  have hsplit : (['\n'].intercalate (lines ++ [last])).splitOn '\n' = lines ++ [last] := by
    refine List.splitOn_intercalate '\n' ?_ (by simp)
    intro line hline
    rcases List.mem_append.mp hline with hline | hline
    · exact h.newline line hline
    · rw [List.mem_singleton.mp hline]
      exact hnewline
  rw [IntelHex.decode, htext, hsplit, h.decode, decodeLines_end hlast, Option.map_some,
    List.append_nil]

end

/-! ## Pieces -/

def placements (ps : List (Piece UInt8)) : List (ℕ × UInt8) :=
  ps.flatMap fun p => placed p.addr.toNat p.data

section

variable {addr a : ℕ} {data : List UInt8} {ps : List (Piece UInt8)}

theorem map_fst_placed : (placed addr data).map Prod.fst = List.range' addr data.length :=
  List.map_fst_zip (by simp)

theorem mem_addrs_placed : a ∈ (placed addr data).map Prod.fst ↔
    addr ≤ a ∧ a < addr + data.length := by
  rw [map_fst_placed, List.mem_range'_1]

theorem getElem?_of_mem_placed {b : UInt8} (h : (a, b) ∈ placed addr data) :
    addr ≤ a ∧ data[a - addr]? = some b := by
  obtain ⟨i, hi, hget⟩ := List.mem_iff_getElem.mp h
  unfold placed at hi hget
  rw [List.getElem_zip, Prod.mk.injEq, List.getElem_range'] at hget
  have hlen : i < data.length := by
    simpa using hi
  obtain ⟨haddr, hb⟩ := hget
  have hindex : a - addr = i := by omega
  rw [hindex, List.getElem?_eq_getElem hlen, hb]
  exact ⟨by omega, rfl⟩

theorem mem_addrs_placements (hpos : ∀ p ∈ ps, 0 ≤ p.addr) :
    a ∈ (placements ps).map Prod.fst ↔ ∃ p ∈ ps, p.Covers a := by
  unfold placements Piece.Covers Piece.stop
  rw [List.map_flatMap, List.mem_flatMap]
  constructor
  · rintro ⟨p, hp, ha⟩
    have := hpos p hp
    rw [mem_addrs_placed] at ha
    exact ⟨p, hp, by omega, by omega⟩
  · rintro ⟨p, hp, hlo, hhi⟩
    have := hpos p hp
    refine ⟨p, hp, ?_⟩
    rw [mem_addrs_placed]
    omega

theorem nodup_placements (hsep : Separated ps) (hpos : ∀ p ∈ ps, 0 ≤ p.addr) :
    ((placements ps).map Prod.fst).Nodup := by
  unfold placements
  rw [List.map_flatMap, List.nodup_flatMap]
  constructor
  · intro p _
    rw [map_fst_placed]
    exact List.nodup_range'
  · refine hsep.imp_of_mem ?_
    intro p q hp hq hstop a ha ha'
    have := hpos p hp
    have := hpos q hq
    unfold Piece.stop at hstop
    rw [mem_addrs_placed] at ha ha'
    omega

/-- **The placed bytes are those of the filled image.** -/
theorem placements_agree (gap : UInt8) (hsep : Separated ps) (hpos : ∀ p ∈ ps, 0 ≤ p.addr)
    {b : UInt8} (h : (a, b) ∈ placements ps) : (fillFrom gap ps 0)[a]? = some b := by
  obtain ⟨p, hp, hmem⟩ := List.mem_flatMap.mp h
  obtain ⟨hle, hget⟩ := getElem?_of_mem_placed hmem
  have hslice := slice_fillFrom gap hsep hpos hp
  have hlt := (List.getElem?_eq_some_iff.mp hget).1
  rw [← hslice, List.getElem?_take_of_lt hlt, List.getElem?_drop, sub_zero,
    Nat.add_sub_cancel' hle] at hget
  exact hget

end

end SystemFirmware.Lib.IntelHex
