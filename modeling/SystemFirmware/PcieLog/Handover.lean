import SystemFirmware.Lib.Exec
import SystemFirmware.PcieLog.Framing

/-!
# PCIe log handover

The host's buffer has one owner at a time. A flush looks at `magic` and `owner`, writes the
data area and `write_offset`, and then makes the host the owner
(`log_entries_whole_in_order`).
-/

namespace SystemFirmware.PcieLog

open Lib

-- ---
-- Flushes

/-- A flush that hands a batch to the host: `magic` and `owner` are read, the data area is written
word by word, then `write_offset`, then `owner`. -/
def handoverOps (iova : UInt64) (owner : UInt32) (batch : List UInt8) : List HostOp :=
  [ .read32 (windowAddr (iova + 8)) fwLogBufferMagic, .read32 (windowAddr (iova + 12)) owner ] ++
    (wordsOf batch).mapIdx
      (fun k word => .write32 ((iova.toNat + bufferHeaderSize + 4 * k) % 2 ^ 24) word) ++
    [ .write32 (windowAddr iova) (UInt32.ofNat (bufferHeaderSize + batch.length)),
      .write32 (windowAddr (iova + 12)) ownerHost, .msi ]

variable {words : List UInt32}

/-- `write_addr` goes up by four bytes a word; that it has 32 bits makes no difference in the
window. -/
theorem dataWrites_eq_mapIdx {writeAddr : UInt32} :
    dataWrites writeAddr words =
      words.mapIdx fun k word => .write32 ((writeAddr.toNat + 4 * k) % 2 ^ 24) word := by
  induction words generalizing writeAddr with
  | nil => rfl
  | cons word words ih =>
    have hnext : ∀ k, ((writeAddr + 4).toNat + 4 * k) % 2 ^ 24 =
        (writeAddr.toNat + 4 * (k + 1)) % 2 ^ 24 := by
      intro k
      rw [UInt32.toNat_add, show (4 : UInt32).toNat = 4 from rfl]
      omega
    rw [dataWrites, List.mapIdx_cons, ih, windowAddr, UInt32.toNat_toUInt64]
    simp only [hnext, Nat.mul_zero, Nat.add_zero]

variable {iova : UInt64}

theorem dataWrites_dataArea :
    dataWrites (iova + UInt64.ofNat bufferHeaderSize).toUInt32 words =
      words.mapIdx fun k word =>
        .write32 ((iova.toNat + bufferHeaderSize + 4 * k) % 2 ^ 24) word := by
  have haddr : ∀ k, ((iova + UInt64.ofNat bufferHeaderSize).toUInt32.toNat + 4 * k) % 2 ^ 24 =
      (iova.toNat + bufferHeaderSize + 4 * k) % 2 ^ 24 := by
    intro k
    rw [UInt64.toNat_toUInt32, UInt64.toNat_add, bufferHeaderSize,
      show (UInt64.ofNat 16).toNat = 16 from rfl]
    omega
  rw [dataWrites_eq_mapIdx]
  simp only [haddr]

def NoWrite (ops : List HostOp) : Prop := ∀ addr data, .write32 addr data ∉ ops

/-- What the accesses of a flush may be, by the batch it has. -/
def FlushOps (iova : UInt64) (batch : List UInt8) (ops : List HostOp) : Prop :=
  NoWrite ops ∨ ∃ owner, owner &&& 0xFF ≠ ownerHost ∧ ops = handoverOps iova owner batch

/-- What of the framed buffer a flush has room for. -/
def State.batch (s : State) : List UInt8 :=
  s.framedLogBuffer.read 0 (min s.framedBufferPos (s.logBufferSize.toNat - bufferHeaderSize))

structure FlushResult (s : State) (ops : List HostOp) (s' : State) : Prop where
  state : s' = s ∨ s' = { s with framedBufferPos := 0 }
  ops : FlushOps s.logBufferIova s.batch ops

theorem FlushResult.refl (s : State) : FlushResult s [] s where
  state := .inl rfl
  ops := .inl fun _ _ => List.not_mem_nil

variable {ops : List HostOp}

theorem FlushResult.access_eq {s s' : State} (h : FlushResult s ops s') :
    s'.access = s.access := by
  obtain rfl | rfl := h.state <;> rfl

/-- **What a flush does**: no write at all, or the accesses of a handover. -/
theorem flushBufferToHost_result (host : HostHeader) (s : State) :
    FlushResult s (flushBufferToHost host s).1 (flushBufferToHost host s).2 := by
  rw [flushBufferToHost]
  split
  · exact .refl s
  · split
    · exact ⟨.inr rfl, .inl (by simp [NoWrite])⟩
    · split
      · exact ⟨.inr rfl, .inl (by simp [NoWrite])⟩
      · next hmagic howner =>
        refine ⟨.inr rfl, .inr ⟨host.owner, howner, ?_⟩⟩
        rw [handoverOps, State.batch, Flash.length_read, ← dataWrites_dataArea,
          ← not_ne_iff.mp hmagic]

-- ---
-- The invariant

structure Framed (entries : List Entry) (bytes : List UInt8) : Prop where
  bytes_eq : bytes = entries.flatMap Entry.bytes
  whole : ∀ e ∈ entries, e.Whole

theorem Framed.nil : Framed [] [] where
  bytes_eq := rfl
  whole := fun _ he => absurd he List.not_mem_nil

variable {entries : List Entry} {bytes : List UInt8} {e : Entry}

theorem Framed.concat (h : Framed entries bytes) (he : e.Whole) :
    Framed (entries ++ [e]) (bytes ++ e.bytes) where
  bytes_eq := by
    rw [List.flatMap_append, ← h.bytes_eq, List.flatMap_singleton]
  whole := by
    intro e' he'
    rw [List.mem_append, List.mem_singleton] at he'
    obtain he' | rfl := he'
    · exact h.whole e' he'
    · exact he

theorem Framed.parse (h : Framed entries bytes) :
    parseEntries bytes.length bytes = some entries := by
  rw [h.bytes_eq]
  exact parseEntries_flatMap h.whole length_le_length_flatMap_bytes

section

variable (bufferSize : ℕ)

/-- A flush whose batch has whole entries if the host's buffer is large enough. -/
def FlushAccess (framed : List Entry) (a : Access) : Prop :=
  ∃ batch, batch.length ≤ bufferSize ∧ FlushOps a.iova batch a.ops ∧
    (bufferSize + bufferHeaderSize ≤ a.bufferSize.toNat →
      ∃ entries, Framed entries batch ∧ entries <:+: framed)

structure Inv (w : World) : Prop where
  pos_le : w.state.framedBufferPos ≤ bufferSize
  content : ∃ entries, Framed entries w.state.content ∧ entries <:+ w.framed
  sequence : w.state.sequenceNumber = UInt32.ofNat w.outcomes.length
  numbered : ∀ i e, w.outcomes[i]? = some (some e) → e.sequence = UInt32.ofNat i
  flushes : ∀ a ∈ w.accesses, a.origin = .flush → FlushAccess bufferSize w.framed a

end

variable {bufferSize : ℕ} {w : World}

theorem init_inv : Inv bufferSize {} where
  pos_le := Nat.zero_le _
  content := ⟨[], .nil, List.nil_suffix⟩
  sequence := rfl
  numbered := fun _ _ h => by cases h
  flushes := fun _ h => absurd h List.not_mem_nil

theorem FlushAccess.mono {framed framed' : List Entry} {a : Access}
    (h : FlushAccess bufferSize framed a) (hle : framed <+: framed') :
    FlushAccess bufferSize framed' a := by
  obtain ⟨batch, hlen, hops, hwhole⟩ := h
  refine ⟨batch, hlen, hops, fun hsize => ?_⟩
  obtain ⟨entries, hframed, hinfix⟩ := hwhole hsize
  exact ⟨entries, hframed, hinfix.trans hle.isInfix⟩

namespace Inv

variable (h : Inv bufferSize w)
include h

theorem record {a : Access} (ha : a.origin = .flush → FlushAccess bufferSize w.framed a) :
    Inv bufferSize { w with accesses := w.accesses ++ [a] } where
  pos_le := h.pos_le
  content := h.content
  sequence := h.sequence
  numbered := h.numbered
  flushes := by
    intro a' ha'
    rw [List.mem_append, List.mem_singleton] at ha'
    obtain ha' | rfl := ha'
    · exact h.flushes a' ha'
    · exact ha

theorem keep {s' : State} (hcontent : s'.content = w.state.content)
    (hsequence : s'.sequenceNumber = w.state.sequenceNumber) :
    Inv bufferSize { w with state := s' } where
  pos_le := by
    rw [← length_content, hcontent, length_content]
    exact h.pos_le
  content := by
    rw [hcontent]
    exact h.content
  sequence := hsequence.trans h.sequence
  numbered := h.numbered
  flushes := h.flushes

theorem empty :
    Inv bufferSize { w with state := { w.state with framedBufferPos := 0 } } where
  pos_le := Nat.zero_le _
  content := ⟨[], .nil, List.nil_suffix⟩
  sequence := h.sequence
  numbered := h.numbered
  flushes := h.flushes

theorem batch_eq (hsize : bufferSize + bufferHeaderSize ≤ w.state.logBufferSize.toNat) :
    w.state.batch = w.state.content := by
  have hle := h.pos_le
  rw [State.batch, State.content, Nat.min_eq_left (by omega)]

variable {s' : State}

theorem flush {ops : List HostOp} (hflush : FlushResult w.state ops s') :
    Inv bufferSize { w with state := s', accesses := w.accesses ++ [s'.access .flush ops] } := by
  have haccess : FlushAccess bufferSize w.framed (w.state.access .flush ops) := by
    refine ⟨w.state.batch, ?_, hflush.ops, fun hsize => ?_⟩
    · rw [State.batch, Flash.length_read]
      exact Nat.le_trans (Nat.min_le_left ..) h.pos_le
    obtain ⟨entries, hframed, hsuffix⟩ := h.content
    exact ⟨entries, h.batch_eq hsize ▸ hframed, hsuffix.isInfix⟩
  obtain rfl | rfl := hflush.state
  · exact h.record fun _ => haccess
  · exact h.empty.record fun _ => haccess

theorem next {o : Option Entry} (hpos : s'.framedBufferPos ≤ bufferSize)
    (hcontent : ∃ entries, Framed entries s'.content ∧ entries <:+ w.framed ++ o.toList)
    (hsequence : s'.sequenceNumber = w.state.sequenceNumber + 1)
    (hnumber : ∀ e, o = some e → e.sequence = w.state.sequenceNumber) :
    Inv bufferSize { w with state := s', outcomes := w.outcomes ++ [o] } := by
  have hframed : World.framed { w with state := s', outcomes := w.outcomes ++ [o] } =
      w.framed ++ o.toList := by
    cases o <;> simp [World.framed]
  constructor
  case pos_le => exact hpos
  case content =>
    rw [hframed]
    exact hcontent
  case sequence =>
    rw [hsequence, h.sequence, List.length_append, List.length_singleton]
    exact (UInt32.ofNat_add ..).symm
  case numbered =>
    intro i e hget
    obtain hold | ⟨rfl, hlast⟩ := getElem?_concat_iff.mp hget
    · exact h.numbered i e hold
    · rw [hnumber e hlast, h.sequence]
  case flushes =>
    intro a ha horigin
    rw [hframed]
    exact (h.flushes a ha horigin).mono (List.prefix_append ..)

theorem drop :
    Inv bufferSize { w with
      state := { w.state with sequenceNumber := w.state.sequenceNumber + 1 }
      outcomes := w.outcomes ++ [none] } := by
  obtain ⟨entries, hframed, hsuffix⟩ := h.content
  exact h.next h.pos_le ⟨entries, hframed, by simpa using hsuffix⟩ rfl (by rintro e ⟨⟩)

theorem frame {msg : Message} (hsize : bufferSize < 2 ^ 16)
    (hroom : w.state.framedBufferPos + entryHeaderSize + 1 ≤ bufferSize) :
    Inv bufferSize { w with
      state := frameEntry bufferSize msg w.state
      outcomes := w.outcomes ++ [some (entryOf bufferSize msg w.state)] } := by
  obtain ⟨happ, hseq⟩ := @frameEntry_spec bufferSize w.state msg
  obtain ⟨entries, hframed, hsuffix⟩ := h.content
  refine h.next ?_ ⟨entries ++ [entryOf bufferSize msg w.state], ?_, ?_⟩ hseq ?_
  · rw [happ.pos_eq]
    exact pos_add_length_entryOf_le hroom
  · rw [happ.content]
    exact hframed.concat (entryOf_whole hsize hroom)
  · obtain ⟨before, hbefore⟩ := hsuffix
    exact ⟨before, by rw [← hbefore, List.append_assoc]; rfl⟩
  · rintro e ⟨⟩
    rfl

end Inv

-- ---
-- Steps and runs

theorem backendProcess_cases (msg : Message) (locked : Bool) (early late : HostHeader) (s : State) :
    backendProcess bufferSize msg locked early late s = (.ignored, [], [], s) ∨
    (∃ ops s₁, FlushResult s ops s₁ ∧
      backendProcess bufferSize msg locked early late s =
        (.dropped, ops, [], { s₁ with sequenceNumber := s₁.sequenceNumber + 1 })) ∨
    ∃ entry ops s₁ ops' s₂, FlushResult s ops s₁ ∧
      s₁.framedBufferPos + entryHeaderSize + 1 ≤ bufferSize ∧
      FlushResult (frameEntry bufferSize msg s₁) ops' s₂ ∧
      (bufferSize < 2 ^ 16 → entry = entryOf bufferSize msg s₁) ∧
      backendProcess bufferSize msg locked early late s = (.framed entry, ops, ops', s₂) := by
  rw [backendProcess]
  by_cases hignored : msg.level = logLevelNone ∧ msg.hasSource = false
  · exact .inl (if_pos hignored)
  rw [if_neg hignored]
  cases locked with
  | false => exact .inr (.inl ⟨[], s, .refl s, rfl⟩)
  | true =>
    -- the flush that makes room, if it is due
    obtain ⟨r, hr⟩ : ∃ r, r = (if s.framedBufferPos + flushThresholdBytes > bufferSize then
        flushBufferToHost early s else ([], s)) := ⟨_, rfl⟩
    have hearly : FlushResult s r.1 r.2 := by
      rw [hr]
      split
      · exact flushBufferToHost_result early s
      · exact .refl s
    obtain ⟨ops, s₁⟩ := r
    simp only [Bool.not_true, Bool.false_eq_true, if_false, ← hr]
    by_cases hroom : s₁.framedBufferPos + entryHeaderSize + 1 > bufferSize
    · exact .inr (.inl ⟨ops, s₁, hearly, if_pos hroom⟩)
    · -- the flush of an error message
      obtain ⟨r', hr'⟩ : ∃ r', r' = (if msg.level = logLevelErr then
          flushBufferToHost late (frameEntry bufferSize msg s₁)
        else ([], frameEntry bufferSize msg s₁)) := ⟨_, rfl⟩
      have hlate : FlushResult (frameEntry bufferSize msg s₁) r'.1 r'.2 := by
        rw [hr']
        split
        · exact flushBufferToHost_result late _
        · exact .refl _
      obtain ⟨ops', s₂⟩ := r'
      refine .inr (.inr ⟨_, ops, s₁, ops', s₂, hearly, Nat.not_lt.mp hroom, hlate,
        fun hsize => ofBytes_frameEntry hsize (Nat.not_lt.mp hroom), ?_⟩)
      rw [if_neg hroom, ← hr']

theorem process_inv {msg : Message} {locked : Bool} {early late : HostHeader}
    (h : Inv bufferSize w) (hsize : bufferSize < 2 ^ 16) :
    Inv bufferSize (step bufferSize w (.process msg locked early late)) := by
  rw [step]
  obtain heq | ⟨ops, s₁, hearly, heq⟩ |
      ⟨entry, ops, s₁, ops', s₂, hearly, hroom, hlate, hentry, heq⟩ :=
    @backendProcess_cases bufferSize msg locked early late w.state
  · have hdone := (h.flush (.refl _)).flush (.refl _)
    rw [List.append_assoc] at hdone
    simp only [heq, Outcome.toList, List.append_nil]
    exact hdone
  · have hdone := (h.flush hearly).drop.flush (.refl _)
    rw [List.append_assoc] at hdone
    rw [heq]
    exact hdone
  · have hdone := ((h.flush hearly).frame hsize hroom).flush hlate
    have haccess : s₁.access = s₂.access := by
      rw [hlate.access_eq, (@frameEntry_spec bufferSize s₁ msg).1.access_eq]
    rw [List.append_assoc, haccess, ← hentry hsize] at hdone
    rw [heq]
    exact hdone

theorem step_inv (h : Inv bufferSize w) (hsize : bufferSize < 2 ^ 16) (a : Action) :
    Inv bufferSize (step bufferSize w a) := by
  cases a with
  | process msg locked early late => exact process_inv h hsize
  | flush locked host =>
    cases locked with
    | false => exact h
    | true => exact h.flush (flushBufferToHost_result host w.state)
  | setup bufferAddrLo bufferAddrHi hostBufferSize locked =>
    have hsame : (setupTtPcieLogBackend bufferAddrLo bufferAddrHi hostBufferSize locked
          w.state).2.content = w.state.content ∧
        (setupTtPcieLogBackend bufferAddrLo bufferAddrHi hostBufferSize locked
          w.state).2.sequenceNumber = w.state.sequenceNumber := by
      rw [setupTtPcieLogBackend]
      split <;> exact ⟨rfl, rfl⟩
    exact (h.keep hsame.1 hsame.2).record (by rintro ⟨⟩)
  | release locked =>
    rw [step, releaseTtPcieLogBackend]
    split
    · exact h
    · exact h.keep rfl rfl

theorem run_inv (h : Inv bufferSize w) (hsize : bufferSize < 2 ^ 16) (actions : List Action) :
    Inv bufferSize (run bufferSize w actions) := by
  induction actions generalizing w with
  | nil => exact h
  | cons a actions ih => exact ih (step_inv h hsize a)

-- ---
-- Sequence numbers

theorem World.mem_framed : e ∈ w.framed ↔ some e ∈ w.outcomes := by
  simp [World.framed]

namespace Inv

variable {i : ℕ} (h : Inv bufferSize w) (hcount : w.outcomes.length < 2 ^ 32)
include h hcount

theorem toNat_sequence {e : Entry} (he : w.outcomes[i]? = some (some e)) :
    e.sequence.toNat = i := by
  have hi : i < w.outcomes.length := (List.getElem?_eq_some_iff.mp he).1
  rw [h.numbered i e he, UInt32.toNat_ofNat_of_lt' (Nat.lt_trans hi hcount)]

theorem exists_sequence_iff (hi : i < w.outcomes.length) :
    (∃ e ∈ w.framed, e.sequence.toNat = i) ↔ w.outcomes[i]? ≠ some none := by
  constructor
  · rintro ⟨e, hmem, rfl⟩ hnone
    obtain ⟨j, hj⟩ := List.mem_iff_getElem?.mp (World.mem_framed.mp hmem)
    rw [h.toNat_sequence hcount hj, hj] at hnone
    cases hnone
  · intro hdropped
    cases ho : w.outcomes[i] with
    | none => exact absurd (List.getElem?_eq_some_iff.mpr ⟨hi, ho⟩) hdropped
    | some e =>
      have hget : w.outcomes[i]? = some (some e) := List.getElem?_eq_some_iff.mpr ⟨hi, ho⟩
      exact ⟨e, World.mem_framed.mpr (List.mem_of_getElem? hget), h.toNat_sequence hcount hget⟩

theorem pairwise_sequence : w.framed.Pairwise fun e e' => e.sequence < e'.sequence := by
  rw [World.framed, List.pairwise_filterMap, List.pairwise_iff_getElem]
  intro i j hi hj hlt e he e' he'
  have hnum := h.toNat_sequence hcount (List.getElem?_eq_some_iff.mpr ⟨hi, he⟩)
  have hnum' := h.toNat_sequence hcount (List.getElem?_eq_some_iff.mpr ⟨hj, he'⟩)
  rw [UInt32.lt_iff_toNat_lt, hnum, hnum']
  exact hlt

end Inv

-- ---
-- The order of accesses

variable {batch : List UInt8} {before after : List HostOp} {addr : ℕ} {data : UInt32}

theorem handoverOps_order {owner : UInt32}
    (h : handoverOps iova owner batch = before ++ .write32 addr data :: after) :
    .read32 (windowAddr (iova + 8)) fwLogBufferMagic ∈ before ∧
      .read32 (windowAddr (iova + 12)) owner ∈ before ∧
      (.write32 (windowAddr (iova + 12)) ownerHost ∈ after ∨
        addr = windowAddr (iova + 12) ∧ data = ownerHost ∧ after = [.msi]) := by
  obtain ⟨writes, hwrites⟩ : ∃ writes, handoverOps iova owner batch =
      .read32 (windowAddr (iova + 8)) fwLogBufferMagic ::
        .read32 (windowAddr (iova + 12)) owner ::
          (writes ++ [.write32 (windowAddr (iova + 12)) ownerHost, .msi]) :=
    ⟨_ ++ [_], by rw [handoverOps, List.append_assoc, List.append_assoc]; rfl⟩
  rw [hwrites] at h
  -- the reads are the first two accesses, and neither is a write
  obtain - | ⟨first, - | ⟨second, rest⟩⟩ := before
  · cases h
  · cases h
  simp only [List.cons_append, List.cons.injEq] at h
  obtain ⟨rfl, rfl, h⟩ := h
  refine ⟨List.mem_cons_self, List.mem_cons_of_mem _ List.mem_cons_self, ?_⟩
  obtain ⟨middle, -, htail⟩ | ⟨middle, -, htail⟩ := List.append_eq_append_iff.mp h
  · obtain - | ⟨op, - | ⟨op', middle⟩⟩ := middle
    · cases htail
      exact .inr ⟨rfl, rfl, rfl⟩
    · cases htail
    · have := congrArg List.length htail
      simp at this
  · obtain - | ⟨op, middle⟩ := middle
    · cases htail
      exact .inr ⟨rfl, rfl, rfl⟩
    · cases htail
      exact .inl (by simp)

theorem FlushOps.order (h : FlushOps iova batch ops)
    (hops : ops = before ++ .write32 addr data :: after) :
    .read32 (windowAddr (iova + 8)) fwLogBufferMagic ∈ before ∧
      (∃ owner, owner &&& 0xFF ≠ ownerHost ∧ .read32 (windowAddr (iova + 12)) owner ∈ before) ∧
      (.write32 (windowAddr (iova + 12)) ownerHost ∈ after ∨
        addr = windowAddr (iova + 12) ∧ data = ownerHost ∧ after = [.msi]) := by
  obtain hnone | ⟨owner, howner, rfl⟩ := h
  · exact absurd (hops ▸ by simp) (hnone addr data)
  · obtain ⟨hmagic, hread, hlast⟩ := handoverOps_order hops
    exact ⟨hmagic, ⟨owner, howner, hread⟩, hlast⟩

-- ---
-- Every run

/-- **The host gets whole entries in order.** Whenever the mutex is free:

* the framed buffer parses into whole entries that end with a NUL, the last ones that were framed;
* the `n`-th message has the number `n`, so those of dropped messages are missing;
* a flush hands a batch of whole entries to a host's buffer that is large enough, with
  `write_offset` just behind it;
* it writes only after it has read a valid `magic` and an `owner` that is not the host, and its
  last write makes the host the owner.

A buffer that goes on behind the end of the TLB window is written from its start again. -/
theorem log_entries_whole_in_order {bufferSize : ℕ} {actions : List Action} {w : World}
    (hw : w = run bufferSize {} actions) (hsize : bufferSize ≤ 65535)
    (hcount : w.outcomes.length < 2 ^ 32) :
    (w.state.framedBufferPos ≤ bufferSize ∧
      ∃ entries, parseEntries w.state.framedBufferPos
          (w.state.framedLogBuffer.read 0 w.state.framedBufferPos) = some entries ∧
        (∀ e ∈ entries, e.NulTerminated) ∧ entries <:+ w.framed) ∧
    ((∀ (i : ℕ) (e : Entry), w.outcomes[i]? = some (some e) → e.sequence.toNat = i) ∧
      (∀ i < w.outcomes.length,
        (∃ e ∈ w.framed, e.sequence.toNat = i) ↔ w.outcomes[i]? ≠ some none) ∧
      w.framed.Pairwise fun e e' => e.sequence < e'.sequence) ∧
    (∀ a ∈ w.accesses, a.origin = .flush →
      bufferSize + bufferHeaderSize ≤ a.bufferSize.toNat → ¬ NoWrite a.ops →
      ∃ owner batch entries, a.ops = handoverOps a.iova owner batch ∧
        parseEntries batch.length batch = some entries ∧
        (∀ e ∈ entries, e.NulTerminated) ∧ entries <:+: w.framed) ∧
    ∀ a ∈ w.accesses, a.origin = .flush → ∀ before addr data after,
      a.ops = before ++ .write32 addr data :: after →
      .read32 (windowAddr (a.iova + 8)) fwLogBufferMagic ∈ before ∧
      (∃ owner, owner &&& 0xFF ≠ ownerHost ∧ .read32 (windowAddr (a.iova + 12)) owner ∈ before) ∧
      (.write32 (windowAddr (a.iova + 12)) ownerHost ∈ after ∨
        addr = windowAddr (a.iova + 12) ∧ data = ownerHost ∧ after = [.msi]) := by
  have h : Inv bufferSize w := hw ▸ run_inv init_inv (Nat.lt_succ_of_le hsize) actions
  refine ⟨⟨h.pos_le, ?_⟩, ⟨fun _ _ he => h.toNat_sequence hcount he,
    fun _ hi => h.exists_sequence_iff hcount hi, h.pairwise_sequence hcount⟩, ?_, ?_⟩
  · obtain ⟨entries, hframed, hsuffix⟩ := h.content
    have hparse := hframed.parse
    rw [length_content] at hparse
    exact ⟨entries, hparse, fun e he => (hframed.whole e he).nulTerminated, hsuffix⟩
  · intro a ha horigin hlarge hwrites
    obtain ⟨batch, -, hops, hwhole⟩ := h.flushes a ha horigin
    obtain ⟨entries, hframed, hinfix⟩ := hwhole hlarge
    obtain ⟨owner, -, hhandover⟩ := hops.resolve_left hwrites
    exact ⟨owner, batch, entries, hhandover, hframed.parse,
      fun e he => (hframed.whole e he).nulTerminated, hinfix⟩
  · intro a ha horigin before addr data after hops
    obtain ⟨batch, -, hflush, -⟩ := h.flushes a ha horigin
    exact hflush.order hops

def errorAfterDrop : List Action :=
  let fw : HostHeader := ⟨fwLogBufferMagic, ownerFw⟩
  [ .setup 0x1000 0 400 true,
    .process ⟨3, true, 7, [[0x75], [0x70]]⟩ true fw fw,
    .process ⟨3, true, 8, [[0x6F, 0x6B]]⟩ false fw fw,
    .process ⟨logLevelErr, true, 9, [[0x78]]⟩ true fw fw ]

theorem errorAfterDrop_in_order :
    (run 300 {} errorAfterDrop).framed.map Entry.sequence = [0, 2] ∧
    ∃ a ∈ (run 300 {} errorAfterDrop).accesses, ∃ owner batch entries,
      a.ops = handoverOps a.iova owner batch ∧
        parseEntries batch.length batch = some entries ∧ ∀ e ∈ entries, e.NulTerminated := by
  obtain ⟨-, -, hbatch, -⟩ :=
    @log_entries_whole_in_order 300 errorAfterDrop _ rfl (by decide) (by decide)
  refine ⟨by decide, _, List.mem_of_getElem? (i := 6) rfl, ?_⟩
  obtain ⟨owner, batch, entries, hops, hparse, hnul, -⟩ :=
    hbatch _ (List.mem_of_getElem? (i := 6) rfl) rfl (by decide)
      fun hnone => hnone 0x1000 (16 + 29) (by decide)
  exact ⟨owner, batch, entries, hops, hparse, hnul⟩

end SystemFirmware.PcieLog
