import SystemFirmware.BhArcTelem.Q31
import SystemFirmware.Lib.Bytes

/-!
# Telemetry sensor — sampling and decoding

A read request of `drivers/sensor/tenstorrent/bh_arc_telem/bh_arc_telem.c` fills one sample
for each channel; the decoder looks for a channel among them. It is not told how many
samples there are. `get_frame_count` looks at the first one only, and `decode` at the first
`max_count` (`sampled_channel_found`).
-/

namespace SystemFirmware.BhArcTelem

open Lib

/-- `struct sensor_chan_spec`. -/
structure ChanSpec where
  chanType : UInt16
  chanIdx : UInt16
  deriving DecidableEq

/-- `struct bh_arc_telem_map`. -/
structure TelemMap where
  channel : UInt16
  channelIndex : UInt8
  telemTag : UInt8
  scaleMicro : BitVec 32

/-- `struct bh_arc_telem_rtio_data`. -/
structure Sample where
  spec : ChanSpec
  telemTag : UInt8
  scaleMicro : BitVec 32
  raw : BitVec 32

/-- What the SMBus gives for one tag: two results, and the bytes received. -/
structure Response where
  written : ℤ
  received : ℤ
  rcvBuf : List UInt8

def findMap (maps : List TelemMap) (channel : UInt16) (channelIndex : UInt8) : Option TelemMap :=
  maps.find? fun m => m.channel = channel ∧ m.channelIndex = channelIndex

/-- `bh_arc_telem_read_raw`; `TAG_COUNT` is 86. -/
def readRaw (map : TelemMap) (r : Response) : Except Fault (BitVec 32) :=
  if map.telemTag = 0 ∨ map.telemTag ≥ 86 then .error .einval
  else if r.written ≠ 0 then .error (.smbus r.written)
  else if r.received ≠ 0 then .error (.smbus r.received)
  else if r.rcvBuf.length < 7 then .error .eio
  else .ok (.ofNat 32 (leValue ((r.rcvBuf.drop 3).take 4)))

/-- One round of the loop of `bh_arc_telem_submit_sample`. -/
def fillSample (maps : List TelemMap) (request : ChanSpec × Response) : Except Fault Sample :=
  match findMap maps request.1.chanType request.1.chanIdx.toUInt8 with
  | none => .error .enotsup
  | some map => (readRaw map request.2).map fun raw =>
    ⟨request.1, map.telemTag, map.scaleMicro, raw⟩

def submitSample (maps : List TelemMap) (requests : List (ChanSpec × Response)) :
    Except Fault (List Sample) :=
  requests.mapM (fillSample maps)

def getFrameCount (samples : List Sample) (spec : ChanSpec) : Except Fault ℕ :=
  match samples[0]? with
  | none => .error .outOfBounds
  | some sample => .ok (if sample.spec = spec then 1 else 0)

def Sample.reading (s : Sample) : Except Fault (ℤ × ℕ) :=
  rawToMicro s.telemTag s.scaleMicro s.raw >>= microToQ31

/-- The loop of `bh_arc_telem_decoder_decode`. -/
def decodeFrom (samples : List Sample) (spec : ChanSpec) :
    (left i : ℕ) → Except Fault (ℕ × (ℤ × ℕ))
  | 0, _ => .error .enodata
  | left + 1, i =>
    match samples[i]? with
    | none => .error .outOfBounds
    | some sample =>
      if sample.spec ≠ spec then decodeFrom samples spec left (i + 1)
      else sample.reading.map fun reading => (i + 1, reading)

/-- `bh_arc_telem_decoder_decode`: the new `fit`, and the reading. -/
def decode (samples : List Sample) (spec : ChanSpec) (fit maxCount : ℕ) :
    Except Fault (ℕ × (ℤ × ℕ)) :=
  if maxCount = 0 then .error .einval
  else if fit ≥ maxCount then .error .enodata
  else decodeFrom samples spec (maxCount - fit) fit

variable {maps : List TelemMap} {sample : Sample}

theorem fillSample_spec {request : ChanSpec × Response} (h : fillSample maps request = .ok sample) :
    sample.spec = request.1 := by
  unfold fillSample at h
  split at h
  · cases h
  · cases hraw : readRaw _ request.2 with
    | error e => rw [hraw] at h; cases h
    | ok raw => rw [hraw] at h; cases h; rfl

variable {samples : List Sample}

theorem submitSample_specs {requests : List (ChanSpec × Response)}
    (h : submitSample maps requests = .ok samples) :
    samples.map Sample.spec = requests.map Prod.fst := by
  induction requests generalizing samples with
  | nil => cases h; rfl
  | cons request requests ih =>
    rw [submitSample, List.mapM_cons] at h
    obtain ⟨sample, hfirst, h⟩ := bind_eq_ok.mp h
    obtain ⟨rest, hrest, h⟩ := bind_eq_ok.mp h
    cases h
    rw [List.map_cons, List.map_cons, fillSample_spec hfirst, ih hrest]

theorem decodeFrom_finds {k : ℕ} (hk : samples[k]? = some sample)
    (hbefore : ∀ j < k, ∀ s, samples[j]? = some s → s.spec ≠ sample.spec) {left i : ℕ}
    (hi : i ≤ k) (hleft : k < i + left) :
    decodeFrom samples sample.spec left i = sample.reading.map fun reading => (k + 1, reading) := by
  induction left generalizing i with
  | zero => omega
  | succ left ih =>
    rw [decodeFrom]
    rcases hi.lt_or_eq with hlt | rfl
    · have hsome := List.getElem?_eq_getElem
        (hlt.trans (List.getElem?_eq_some_iff.mp hk).1)
      rw [hsome]
      simp only [ne_eq, hbefore i hlt _ hsome, not_false_eq_true, if_true]
      exact ih hlt (by omega)
    · rw [hk]
      simp

/-- What a sample stands for. -/
def Sample.value (s : Sample) : ℚ :=
  if s.telemTag = tagAsicTemperature then s.raw.toInt / 65536
  else s.raw.toInt * s.scaleMicro.toInt / 10 ^ 6

/-- The reading is within one unit of its last bit, and a microdegree, of the value. -/
def Sample.Reads (s : Sample) (reading : ℤ × ℕ) : Prop :=
  |q31Value reading - s.value| < 2 ^ ((reading.2 : ℤ) - 31) + 1 / 10 ^ 6

/-- The value has a Q31 form; a temperature always has one. -/
def Sample.Representable (s : Sample) : Prop :=
  s.telemTag = tagAsicTemperature ∨
    -(2 ^ 30 * 10 ^ 6 + 500000) < s.raw.toInt * s.scaleMicro.toInt ∧
      s.raw.toInt * s.scaleMicro.toInt < 2 ^ 30 * 10 ^ 6

/-- **Which samples have a reading**, and that it is theirs. -/
theorem reading_ok_iff : (∃ reading, sample.reading = .ok reading) ↔ sample.Representable := by
  by_cases htag : sample.telemTag = tagAsicTemperature
  · obtain ⟨degrees, v, s, hmicro, hrun, -⟩ :=
      (@q31_accurate 0 (by decide) sample.scaleMicro sample.raw).2
    refine iff_of_true ⟨(v, s), ?_⟩ (Or.inl htag)
    rw [Sample.reading, htag, hmicro]
    exact hrun
  · have hle : |sample.raw.toInt * sample.scaleMicro.toInt| ≤ 2 ^ 62 := by
      rw [abs_mul]
      have hraw : |sample.raw.toInt| ≤ 2 ^ 31 := abs_le.mpr ⟨sample.raw.le_toInt, sample.raw.toInt_lt.le⟩
      have hscale : |sample.scaleMicro.toInt| ≤ 2 ^ 31 :=
        abs_le.mpr ⟨sample.scaleMicro.le_toInt, sample.scaleMicro.toInt_lt.le⟩
      exact (mul_le_mul hraw hscale (abs_nonneg _) (by norm_num)).trans (by norm_num)
    rw [Sample.Representable, or_iff_right htag, ← microToQ31_ok_iff hle, Sample.reading, rawToMicro,
      if_neg htag, int64_ok (hle.trans_lt (by norm_num))]
    rfl

theorem reads_of_reading {reading : ℤ × ℕ} (h : sample.reading = .ok reading) :
    sample.Reads reading := by
  unfold Sample.Reads Sample.value
  by_cases htag : sample.telemTag = tagAsicTemperature
  · obtain ⟨degrees, v, s, hmicro, hrun, herror⟩ :=
      (@q31_accurate 0 (by decide) sample.scaleMicro sample.raw).2
    rw [Sample.reading, htag, hmicro] at h
    obtain rfl := Except.ok.inj (hrun.symm.trans h)
    rw [if_pos htag]
    exact herror
  · obtain ⟨micro, hmicro, hrun⟩ := bind_eq_ok.mp h
    obtain rfl : sample.raw.toInt * sample.scaleMicro.toInt = micro := by
      rw [rawToMicro, if_neg htag, int64] at hmicro
      split at hmicro
      · exact Except.ok.inj hmicro
      · cases hmicro
    have herror := microToQ31_error hrun
    rw [if_neg htag]
    push_cast at herror
    linarith

/-- **When a sampled channel is found**: it is counted, and decoded with every limit, exactly if it is
the first of the request and its value is representable. A later one is not counted, and decoded
with a limit behind its sample. -/
theorem sampled_channel_found {maps : List TelemMap} {requests : List (ChanSpec × Response)}
    {samples : List Sample} (hfill : submitSample maps requests = .ok samples)
    (hdistinct : (requests.map Prod.fst).Nodup) {k : ℕ} {sample : Sample}
    (hk : samples[k]? = some sample) :
    ((getFrameCount samples sample.spec = .ok 1 ∧ ∃ reading, sample.Reads reading ∧
        ∀ maxCount, 1 ≤ maxCount → decode samples sample.spec 0 maxCount = .ok (k + 1, reading)) ↔
      k = 0 ∧ sample.Representable) ∧
    getFrameCount samples sample.spec = .ok (if k = 0 then 1 else 0) ∧
    (sample.Representable → ∃ reading, sample.Reads reading ∧
      ∀ maxCount, k < maxCount → decode samples sample.spec 0 maxCount = .ok (k + 1, reading)) := by
  rw [← submitSample_specs hfill] at hdistinct
  have hinj : ∀ j s, samples[j]? = some s → s.spec = sample.spec → j = k := by
    intro j s hj heq
    refine (List.getElem?_inj ?_ hdistinct).mp ?_
    · rw [List.length_map]
      exact (List.getElem?_eq_some_iff.mp hj).1
    · rw [List.getElem?_map, List.getElem?_map, hj, hk, Option.map_some, Option.map_some, heq]
  have hcount : getFrameCount samples sample.spec = .ok (if k = 0 then 1 else 0) := by
    obtain ⟨first, hfirst⟩ : ∃ first, samples[0]? = some first :=
      ⟨_, List.getElem?_eq_getElem (Nat.zero_lt_of_lt (List.getElem?_eq_some_iff.mp hk).1)⟩
    have hiff : first.spec = sample.spec ↔ k = 0 := by
      refine ⟨fun heq => (hinj 0 first hfirst heq).symm, ?_⟩
      rintro rfl
      rw [Option.some.inj (hfirst.symm.trans hk)]
    simp only [getFrameCount, hfirst, hiff]
  have hdecode : ∀ maxCount, k < maxCount → decode samples sample.spec 0 maxCount =
      sample.reading.map fun reading => (k + 1, reading) := by
    intro maxCount hmax
    rw [decode, if_neg (by omega), if_neg (by omega), decodeFrom_finds hk
      (fun j hj s hs heq => hj.ne (hinj j s hs heq)) (Nat.zero_le k) (by omega)]
  have hfound : sample.Representable → ∃ reading, sample.Reads reading ∧
      ∀ maxCount, k < maxCount → decode samples sample.spec 0 maxCount = .ok (k + 1, reading) := by
    intro hrepresentable
    obtain ⟨reading, hreading⟩ := reading_ok_iff.mpr hrepresentable
    refine ⟨reading, reads_of_reading hreading, fun maxCount hmax => ?_⟩
    rw [hdecode maxCount hmax, hreading]
    rfl
  refine ⟨⟨?_, ?_⟩, hcount, hfound⟩
  · rintro ⟨hone, reading, -, hall⟩
    obtain rfl : k = 0 := by
      by_contra hne
      rw [hcount, if_neg hne] at hone
      cases hone
    refine ⟨rfl, reading_ok_iff.mp ?_⟩
    have hfirst := hdecode 1 Nat.one_pos
    rw [hall 1 le_rfl] at hfirst
    cases hreading : sample.reading with
    | error e =>
      rw [hreading] at hfirst
      cases hfirst
    | ok reading => exact ⟨reading, rfl⟩
  · rintro ⟨rfl, hrepresentable⟩
    exact ⟨hcount, hfound hrepresentable⟩

def twoMaps : List TelemMap := [⟨1, 0, 6, 1000⟩, ⟨2, 0, 11, 0⟩]

def twoRequests : List (ChanSpec × Response) :=
  [(⟨1, 0⟩, ⟨0, 0, [0, 0, 0, 5, 0, 0, 0]⟩), (⟨2, 0⟩, ⟨0, 0, [0, 0, 0, 0, 0, 1, 0]⟩)]

def twoSamples : List Sample := [⟨⟨1, 0⟩, 6, 1000, 5⟩, ⟨⟨2, 0⟩, 11, 0, 0x10000⟩]

theorem sampled_channel_found_first :
    getFrameCount twoSamples ⟨1, 0⟩ = .ok 1 ∧ ∃ reading, Sample.Reads ⟨⟨1, 0⟩, 6, 1000, 5⟩ reading ∧
      ∀ maxCount, 1 ≤ maxCount → decode twoSamples ⟨1, 0⟩ 0 maxCount = .ok (1, reading) :=
  (@sampled_channel_found twoMaps twoRequests twoSamples rfl (by decide) 0 _ rfl).1.mpr
    ⟨rfl, Or.inr ⟨by decide, by decide⟩⟩

/-- The second sampled channel has no frame, and is not found with `max_count = 1`. -/
theorem second_channel_not_found : submitSample twoMaps twoRequests = .ok twoSamples ∧
    getFrameCount twoSamples ⟨2, 0⟩ = .ok 0 ∧ decode twoSamples ⟨2, 0⟩ 0 1 = .error .enodata :=
  ⟨rfl, rfl, rfl⟩

end SystemFirmware.BhArcTelem
