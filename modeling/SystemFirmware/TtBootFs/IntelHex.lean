import SystemFirmware.Lib.IntelHex
import SystemFirmware.TtBootFs.RoundTrip

/-!
# Boot filesystem — Intel HEX output

`BootFs.to_intel_hex`: the emitted writes cut into records of at most 16 bytes that do not
cross a 64 KiB segment, with a type-04 record wherever the segment changes. What a reader
of the format places is what `to_binary` holds (`toIntelHex_matches_binary`).
-/

namespace SystemFirmware.TtBootFs

open Lib Lib.IntelHex

/-! ## The output -/

/-- `f"{n:0{width}X}"` for a number that fits, as all that are formatted do. -/
def hexNumber : ℕ → ℕ → List Char
  | 0, _ => []
  | width + 1, n => hexNumber width (n / 16) ++ [digitUpper (n % 16)]

def textSum : List Char → ℕ
  | hi :: lo :: rest => 16 * (digitVal hi).getD 0 + (digitVal lo).getD 0 + textSum rest
  | [digit] => (digitVal digit).getD 0
  | [] => 0

/-- `(-checksum) & 0xFF`. -/
def recordChecksum (record : List Char) : ℕ := (-(textSum record : ℤ) % 0x100).toNat

/-- `f":{record}{checksum:02X}"`. -/
def recordLine (record : List Char) : List Char :=
  ':' :: (record ++ hexNumber 2 (recordChecksum record))

def segmentRecord (segment : ℤ) : List Char :=
  "02".toList ++ "0000".toList ++ "04".toList ++
    hexText digitLower [UInt8.ofNat (segment.toNat / 0x100), UInt8.ofNat segment.toNat]

def dataRecord (offset : ℤ) (chunk : List UInt8) : List Char :=
  hexNumber 2 chunk.length ++ hexNumber 4 offset.toNat ++ "00".toList ++ hexText digitUpper chunk

inductive HexError where
  | build (e : BuildError)
  /-- "FW is being written to an address past 4G, cannot represent with ihex!" -/
  | past4G
  deriving DecidableEq

/-- The loop over the data of one write: the lines it adds, and
`current_segment` behind it. -/
def hexLines (endAddress address : ℤ) (data : List UInt8) (currentSegment : ℤ) :
    Except HexError (List (List Char) × ℤ) :=
  if address < endAddress then
    let segment := address / 0x10000 % 0x10000
    let offset := address % 0x10000
    let nextSegment := (segment + 1) * 0x10000
    -- `address & ~0xFFFF_FFFF`
    if address / 0x100000000 ≠ 0 then .error .past4G
    else
      let change := if segment ≠ currentSegment then [recordLine (segmentRecord segment)] else []
      let segmentEnd := min (min (address + 16) endAddress) nextSegment
      let chunkSize := segmentEnd - address
      let chunk := data.take chunkSize.toNat
      match hexLines endAddress (address + chunkSize) (data.drop chunkSize.toNat) segment with
      | .error e => .error e
      | .ok (lines, last) => .ok (change ++ recordLine (dataRecord offset chunk) :: lines, last)
  else .ok ([], currentSegment)
termination_by (endAddress - address).toNat
decreasing_by omega

def writesLines : List Write → ℤ → Except HexError (List (List Char))
  | [], _ => .ok []
  | w :: ws, currentSegment =>
    match hexLines w.stop w.addr w.data currentSegment with
    | .error e => .error e
    | .ok (lines, last) =>
      match writesLines ws last with
      | .error e => .error e
      | .ok more => .ok (lines ++ more)

def BootFs.toIntelHex (fs : BootFs) (allSections : Bool) : Except HexError (List Char) :=
  match fs.writes with
  | .error e => .error (.build e)
  | .ok ws =>
    match writesLines (emitted allSections ws) (-1) with
    | .error e => .error e
    | .ok lines => .ok (lines.flatMap (· ++ ['\n']) ++ ":00000001FF".toList)

-- ---
-- Reading one line

variable {n : ℕ}

theorem parseBytes_hexNumber_two (h : n < 0x100) :
    parseBytes (hexNumber 2 n) = some [UInt8.ofNat n] := by
  have hhi := digitVal_digitUpper (n := n / 16 % 16) (by omega)
  have hlo := digitVal_digitUpper (n := n % 16) (by omega)
  have hvalue : 16 * (n / 16 % 16) + n % 16 = n := by omega
  show parseBytes [digitUpper (n / 16 % 16), digitUpper (n % 16)] = _
  simp only [parseBytes, hhi, hlo, bind, Option.bind_some, hvalue]

theorem parseBytes_hexNumber_four (h : n < 0x10000) :
    parseBytes (hexNumber 4 n) = some [UInt8.ofNat (n / 0x100), UInt8.ofNat (n % 0x100)] := by
  have hsplit : hexNumber 4 n = hexNumber 2 (n / 0x100) ++ hexNumber 2 (n % 0x100) := by
    have h₀ : n % 0x100 % 16 = n % 16 := by omega
    have h₁ : n % 0x100 / 16 % 16 = n / 16 % 16 := by omega
    have h₂ : n / 0x100 = n / 16 / 16 := by omega
    simp only [hexNumber, h₀, h₁, h₂, List.nil_append, List.append_assoc]
  rw [hsplit, parseBytes_append (parseBytes_hexNumber_two (by omega)),
    parseBytes_hexNumber_two (by omega)]
  rfl

variable {bytes : List UInt8}

theorem textSum_of_parseBytes {text : List Char} (h : parseBytes text = some bytes) :
    textSum text = byteSum bytes := by
  fun_induction parseBytes text generalizing bytes with
  | case1 =>
    rw [← Option.some.inj h]
    rfl
  | case2 => simp at h
  | case3 hi lo rest ih =>
    simp only [bind, Option.bind_eq_some_iff, Option.some.injEq] at h
    obtain ⟨d, hd, e, he, more, hmore, rfl⟩ := h
    have hdlt := digitVal_lt hd
    have helt := digitVal_lt he
    have hbyte : (UInt8.ofNat (16 * d + e)).toNat = 16 * d + e := by
      rw [UInt8.toNat_ofNat']
      omega
    have hsum : byteSum (UInt8.ofNat (16 * d + e) :: more) = 16 * d + e + byteSum more := by
      rw [byteSum, List.map_cons, List.sum_cons, hbyte, byteSum]
    rw [textSum, hd, he, ih hmore, hsum, Option.getD_some, Option.getD_some]

variable {record : List Char}

theorem recordChecksum_lt : recordChecksum record < 0x100 := by
  unfold recordChecksum
  omega

theorem parseBytes_recordLine (h : parseBytes record = some bytes) :
    parseBytes (record ++ hexNumber 2 (recordChecksum record)) =
      some (bytes ++ [UInt8.ofNat (recordChecksum record)]) := by
  rw [parseBytes_append h, parseBytes_hexNumber_two recordChecksum_lt]
  rfl

variable {data : List UInt8}

theorem parseRecord_recordLine {count hi lo kind : UInt8}
    (h : parseBytes record = some (count :: hi :: lo :: kind :: data))
    (hcount : data.length = count.toNat) :
    parseRecord (recordLine record) = some ⟨256 * hi.toNat + lo.toNat, kind, data⟩ := by
  refine parseRecord_of_parseBytes (parseBytes_recordLine h) hcount ?_
  rw [← textSum_of_parseBytes h, UInt8.toNat_ofNat']
  unfold recordChecksum
  omega

theorem newline_notMem_recordLine (h : parseBytes record = some bytes) :
    '\n' ∉ recordLine record := by
  have hrest := newline_notMem_of_parseBytes (parseBytes_recordLine h)
  unfold recordLine
  rw [List.mem_cons, not_or]
  exact ⟨by decide, hrest⟩

variable {segment : ℤ}

theorem parseBytes_segmentRecord :
    parseBytes (segmentRecord segment) =
      some [2, 0, 0, 4, UInt8.ofNat (segment.toNat / 0x100), UInt8.ofNat segment.toNat] := by
  have hhead : parseBytes ("02".toList ++ "0000".toList ++ "04".toList) = some [2, 0, 0, 4] := by
    decide
  unfold segmentRecord
  rw [parseBytes_append hhead, parseBytes_hexText fun n hn => digitVal_digitLower hn]
  rfl

variable {offset : ℤ} {chunk : List UInt8}

theorem parseBytes_dataRecord (hoffset : offset.toNat < 0x10000) (hlen : chunk.length < 0x100) :
    parseBytes (dataRecord offset chunk) =
      some (UInt8.ofNat chunk.length :: UInt8.ofNat (offset.toNat / 0x100) ::
        UInt8.ofNat (offset.toNat % 0x100) :: 0 :: chunk) := by
  have hkind : parseBytes "00".toList = some [0] := by decide
  unfold dataRecord
  rw [List.append_assoc, List.append_assoc, parseBytes_append (parseBytes_hexNumber_two hlen),
    parseBytes_append (parseBytes_hexNumber_four hoffset), parseBytes_append hkind,
    parseBytes_hexText fun n hn => digitVal_digitUpper hn]
  rfl

variable {upper : ℕ}

theorem reads_segmentRecord (hlo : 0 ≤ segment) (hhi : segment < 0x10000) :
    Reads [recordLine (segmentRecord segment)] upper segment.toNat [] where
  decode := by
    intro rest
    have hvalue : 256 * (UInt8.ofNat (segment.toNat / 0x100)).toNat +
        (UInt8.ofNat segment.toNat).toNat = segment.toNat := by
      rw [UInt8.toNat_ofNat', UInt8.toNat_ofNat']
      omega
    rw [List.cons_append, decodeLines_upper (parseRecord_recordLine parseBytes_segmentRecord rfl),
      hvalue]
    simp
  newline := by
    intro line hline
    rw [List.mem_singleton.mp hline]
    exact newline_notMem_recordLine parseBytes_segmentRecord

theorem reads_dataRecord (hoffset : offset.toNat < 0x10000) (hlen : chunk.length < 0x100) :
    Reads [recordLine (dataRecord offset chunk)] upper upper
      (placed (0x10000 * upper + offset.toNat) chunk) where
  decode := by
    intro rest
    have hvalue : 256 * (UInt8.ofNat (offset.toNat / 0x100)).toNat +
        (UInt8.ofNat (offset.toNat % 0x100)).toNat = offset.toNat := by
      rw [UInt8.toNat_ofNat', UInt8.toNat_ofNat']
      omega
    have hcount : chunk.length = (UInt8.ofNat chunk.length).toNat := by
      rw [UInt8.toNat_ofNat']
      omega
    rw [List.cons_append, decodeLines_data
      (parseRecord_recordLine (parseBytes_dataRecord hoffset hlen) hcount), hvalue]
    rfl
  newline := by
    intro line hline
    rw [List.mem_singleton.mp hline]
    exact newline_notMem_recordLine (parseBytes_dataRecord hoffset hlen)

-- ---
-- The loops

/-- The loop and the reader are in the same segment, or the loop in none yet. -/
def SameSegment (currentSegment : ℤ) (upper : ℕ) : Prop :=
  currentSegment = upper ∨ currentSegment = -1

variable {currentSegment : ℤ}

variable {endAddress address : ℤ}

theorem decodeLines_hexLines (hlo : 0 ≤ address) (hend : address + data.length = endAddress)
    (hhi : endAddress ≤ 0x100000000) (hsame : SameSegment currentSegment upper) :
    ∃ lines last upper', hexLines endAddress address data currentSegment = .ok (lines, last) ∧
      SameSegment last upper' ∧ Reads lines upper upper' (placed address.toNat data) := by
  induction hn : data.length using Nat.strong_induction_on
    generalizing address data currentSegment upper with
  | _ n ih =>
    unfold hexLines
    by_cases hmore : address < endAddress
    · obtain ⟨segment, hsegment⟩ : ∃ s, s = address / 0x10000 % 0x10000 := ⟨_, rfl⟩
      obtain ⟨size, hsize⟩ : ∃ k : ℤ,
          k = min (min (address + 16) endAddress) ((segment + 1) * 0x10000) - address := ⟨_, rfl⟩
      have hfit : address / 0x100000000 = 0 := by omega
      have hsizePos : 0 < size := by omega
      have hsizeLe : size.toNat ≤ data.length := by omega
      have hchunk : (data.take size.toNat).length = size.toNat := List.length_take_of_le hsizeLe
      -- the rest of the data, from the reader's new upper address
      obtain ⟨lines, last, upper', hlines, hlast, hreads⟩ : ∃ lines last upper',
          hexLines endAddress (address + size) (data.drop size.toNat) segment =
            .ok (lines, last) ∧ SameSegment last upper' ∧ Reads lines segment.toNat upper'
              (placed (address + size).toNat (data.drop size.toNat)) :=
        ih (data.drop size.toNat).length (by rw [List.length_drop]; omega) (by omega)
          (by rw [List.length_drop]; omega) (.inl (by omega)) rfl
      have hchange : Reads (if segment ≠ currentSegment then [recordLine (segmentRecord segment)]
          else []) upper segment.toNat [] := by
        by_cases hsegments : segment = currentSegment
        · -- the reader is there already
          have hupper : segment.toNat = upper := by
            rcases hsame with hsame | hsame <;> omega
          rw [if_neg (not_not.mpr hsegments), hupper]
          exact Reads.nil
        · rw [if_pos hsegments]
          exact reads_segmentRecord (by omega) (by omega)
      have hdata : Reads [recordLine (dataRecord (address % 0x10000) (data.take size.toNat))]
          segment.toNat segment.toNat (placed (0x10000 * segment.toNat +
            (address % 0x10000).toNat) (data.take size.toNat)) :=
        reads_dataRecord (by omega) (by omega)
      have haddr : 0x10000 * segment.toNat + (address % 0x10000).toNat = address.toNat := by omega
      have hnext : (address + size).toNat = address.toNat + (data.take size.toNat).length := by omega
      rw [haddr] at hdata
      rw [hnext] at hreads
      have hall := (hchange.append hdata).append hreads
      rw [List.nil_append, ← placed_append, List.take_append_drop, List.append_assoc,
        List.singleton_append] at hall
      refine ⟨_, last, upper', ?_, hlast, hall⟩
      simp only [hmore, if_true, hfit, ne_eq, not_true_eq_false, if_false, ← hsegment, ← hsize,
        hlines]
    · obtain rfl : data = [] := List.eq_nil_of_length_eq_zero (by omega)
      rw [if_neg hmore]
      exact ⟨[], currentSegment, upper, rfl, hsame, Reads.nil⟩

variable {ws : List Write}

theorem decodeLines_writesLines (hlo : ∀ w ∈ ws, 0 ≤ w.addr)
    (hhi : ∀ w ∈ ws, w.stop ≤ 0x100000000) (hsame : SameSegment currentSegment upper) :
    ∃ lines upper', writesLines ws currentSegment = .ok lines ∧
      Reads lines upper upper' (placements (ws.map Write.toPiece)) := by
  induction ws generalizing currentSegment upper with
  | nil => exact ⟨[], upper, rfl, Reads.nil⟩
  | cons w ws ih =>
    obtain ⟨lines, last, upper', hlines, hlast, hreads⟩ :=
      decodeLines_hexLines (hlo w List.mem_cons_self) (rfl : _ = w.stop)
        (hhi w List.mem_cons_self) hsame
    obtain ⟨more, upper'', hmore, hreads'⟩ :=
      ih (fun v hv => hlo v (List.mem_cons_of_mem w hv))
        (fun v hv => hhi v (List.mem_cons_of_mem w hv)) hlast
    refine ⟨lines ++ more, upper'', ?_, hreads.append hreads'⟩
    simp only [writesLines, hlines, hmore]

-- ---
-- The file

/-- The file places exactly the bytes of the emitted writes, as the binary has them; the rest of
the binary is filler. -/
def HexMatchesBinary (fs : BootFs) (allSections : Bool) : Prop :=
  ∃ ws text bin bytes, fs.writes = .ok ws ∧ fs.toIntelHex allSections = .ok text ∧
    fs.toBinary allSections = .ok bin ∧ decode text = some bytes ∧
    (bytes.map Prod.fst).Nodup ∧
    (∀ a : ℕ, a ∈ bytes.map Prod.fst ↔ ∃ w ∈ emitted allSections ws, w.Covers a) ∧
    (∀ a b, (a, b) ∈ bytes → bin[a]? = some b) ∧
    ∀ a < bin.length, a ∉ bytes.map Prod.fst → bin[a]? = some 0xFF

/-- **Intel HEX output equals binary output**, for writes that start at or above
address 0 and end at or below 4 GiB. -/
theorem toIntelHex_matches_binary {fs : BootFs} {ws : List Write} {allSections : Bool}
    (hws : fs.writes = .ok ws) (hlo : ∀ w ∈ emitted allSections ws, 0 ≤ w.addr)
    (hhi : ∀ w ∈ emitted allSections ws, w.stop ≤ 0x100000000) :
    HexMatchesBinary fs allSections := by
  obtain ⟨lines, upper, hlines, hreads⟩ : ∃ lines upper,
      writesLines (emitted allSections ws) (-1) = .ok lines ∧
        Reads lines 0 upper (placements ((emitted allSections ws).map Write.toPiece)) :=
    decodeLines_writesLines hlo hhi (.inr rfl)
  have hend : parseRecord ":00000001FF".toList = some ⟨0, 1, []⟩ := by decide
  have hdecode := hreads.decode_file hend (by decide)
  have hpos : ∀ p ∈ (emitted allSections ws).map Write.toPiece, 0 ≤ p.addr := by
    intro p hp
    obtain ⟨w, hw, rfl⟩ := List.mem_map.mp hp
    exact hlo w hw
  have hsep : Separated ((emitted allSections ws).map Write.toPiece) := by
    obtain ⟨-, -, -, hpair⟩ := writes_ok hws
    exact List.pairwise_map.mpr (hpair.sublist List.filter_sublist)
  have hcovers : ∀ a : ℕ, a ∈ (placements ((emitted allSections ws).map Write.toPiece)).map
      Prod.fst ↔ ∃ w ∈ emitted allSections ws, w.Covers a := by
    intro a
    rw [mem_addrs_placements hpos]
    simp
  refine ⟨ws, _, _, _, hws, ?_, toBinary_eq hws, hdecode, nodup_placements hsep hpos, hcovers,
    fun a b hmem => placements_agree 0xFF hsep hpos hmem, ?_⟩
  · simp only [BootFs.toIntelHex, hws, hlines]
  · intro a ha hnone
    refine getElem?_fillFrom_gap 0xFF hsep hpos ha ?_
    intro p hp hcovered
    obtain ⟨w, hw, rfl⟩ := List.mem_map.mp hp
    rw [zero_add] at hcovered
    exact hnone ((hcovers a).mpr ⟨w, hw, hcovered⟩)

theorem smallFs_hex_matches : (smallFs 0x14000 0).writes.isOk = true ∧
    HexMatchesBinary (smallFs 0x14000 0) true := by
  have hok : (smallFs 0x14000 0).writes.isOk = true := by decide +kernel
  obtain ⟨ws, hws⟩ := exists_of_isOk hok
  have hrange : (match (smallFs 0x14000 0).writes with
      | .ok ws => ws.all fun w => decide (0 ≤ w.addr) && decide (w.stop ≤ 0x100000000)
      | .error _ => false) = true := by decide +kernel
  simp only [hws, List.all_eq_true, Bool.and_eq_true, decide_eq_true_eq] at hrange
  refine ⟨hok, toIntelHex_matches_binary hws ?_ ?_⟩
  · intro w hw
    exact (hrange w (List.mem_of_mem_filter hw)).1
  · intro w hw
    exact (hrange w (List.mem_of_mem_filter hw)).2

-- ---
-- Below address 0

theorem hexLines_negative (hneg : address < 0) (hmore : address < endAddress) :
    hexLines endAddress address data currentSegment = .error .past4G := by
  have houtside : address / 0x100000000 ≠ 0 := by omega
  unfold hexLines
  rw [if_pos hmore, if_pos houtside]

theorem writesLines_negative {w : Write} (hw : w ∈ ws) (hneg : w.addr < 0)
    (hmore : w.addr < w.stop) {lines : List (List Char)} :
    writesLines ws currentSegment ≠ .ok lines := by
  induction ws generalizing currentSegment lines with
  | nil => simp at hw
  | cons v ws ih =>
    unfold writesLines
    rcases List.mem_cons.mp hw with rfl | hmem
    · simp [hexLines_negative hneg hmore]
    · rcases hexLines v.stop v.addr v.data currentSegment with e | ⟨lines', last⟩
      · simp
      · rcases hmoreLines : writesLines ws last with e | more
        · simp [hmoreLines]
        · exact absurd hmoreLines (ih hmem)

/-- **Below address 0 there is no file**: the writes pass all checks and end below
4 GiB, but the conversion raises. -/
theorem negative_spiAddr_not_represented : ∃ fs ws, fs.writes = .ok ws ∧
    (∀ w ∈ ws, w.stop ≤ 0x100000000) ∧ ∀ allSections, ¬ HexMatchesBinary fs allSections := by
  obtain ⟨ws, hws⟩ := exists_of_isOk
    (by decide +kernel : (smallFs (-0x1000) 0).writes.isOk = true)
  have hrange : (match (smallFs (-0x1000) 0).writes with
      | .ok ws => (ws.any fun w => w.always && decide (w.addr < 0) && decide (w.addr < w.stop)) &&
          ws.all fun w => decide (w.stop ≤ 0x100000000)
      | .error _ => false) = true := by decide +kernel
  simp only [hws, Bool.and_eq_true, List.any_eq_true, List.all_eq_true, decide_eq_true_eq]
    at hrange
  obtain ⟨⟨w, hw, ⟨halways, hneg⟩, hmore⟩, hhi⟩ := hrange
  refine ⟨smallFs (-0x1000) 0, ws, hws, hhi, ?_⟩
  rintro allSections ⟨-, text, -, -, -, htext, -⟩
  have hemitted : w ∈ emitted allSections ws :=
    List.mem_filter.mpr ⟨hw, by rw [halways, Bool.true_or]⟩
  unfold BootFs.toIntelHex at htext
  rcases hlines : writesLines (emitted allSections ws) (-1) with e | lines
  · simp [hws, hlines] at htext
  · exact writesLines_negative hemitted hneg hmore hlines

end SystemFirmware.TtBootFs
