import SystemFirmware.GddrCal.Definitions

/-!
# GDDR calibration store — power-fail safety

A write only touches the bank that is not active, so at every point the flash holds the
table of the last write that returned 0, or one of a later write that was cut off or
failed. `Inv` ties the cached statics to the banks: the active bank is valid and
acceptable, and a clean read finds something acceptable whatever is in the other bank
(`gddrCal_power_fail_safe`).
-/

namespace SystemFirmware.GddrCal

open Lib

variable {crc32IeeeUpdate : UInt32 → List UInt8 → UInt32} {parts : Partitions}

-- ---
-- Valid banks and the newest one

def Bank.isValid (crc32IeeeUpdate : UInt32 → List UInt8 → UInt32) (bank : Bank) : Bool :=
  hdrIsPlausible bank.hdr && bank.hdr.cksum == bankCrc crc32IeeeUpdate bank

def bankAt (parts : Partitions) (f : Flash) (i : BankIdx) : Bank := readBank f (parts.offset i)

def newest (crc32IeeeUpdate : UInt32 → List UInt8 → UInt32) (image : BankIdx → Bank) :
    Option BankIdx :=
  match (image .a).isValid crc32IeeeUpdate, (image .b).isValid crc32IeeeUpdate with
  | true, true => if seqIsNewer (image .b).hdr.seq (image .a).hdr.seq then some .b else some .a
  | true, false => some .a
  | false, true => some .b
  | false, false => none

variable {f : Flash}

theorem tryCandidates_clean :
    tryCandidates crc32IeeeUpdate parts f .clean (candidates parts f .clean) =
      newest crc32IeeeUpdate (bankAt parts f) := by
  have hhdr : ∀ i, readHdr f (parts.offset i) = (bankAt parts f i).hdr := fun _ => rfl
  have hbank : ∀ i, readBank f (parts.offset i) = bankAt parts f i := fun _ => rfl
  simp only [candidates, newestFirst, ReadOutcome.clean, newest, Bank.isValid, hhdr, Bool.true_and]
  cases hpa : hdrIsPlausible (bankAt parts f .a).hdr <;>
    cases hpb : hdrIsPlausible (bankAt parts f .b).hdr <;>
    cases hca : (bankAt parts f .a).hdr.cksum == bankCrc crc32IeeeUpdate (bankAt parts f .a) <;>
    cases hcb : (bankAt parts f .b).hdr.cksum == bankCrc crc32IeeeUpdate (bankAt parts f .b) <;>
    cases hseq : seqIsNewer (bankAt parts f .b).hdr.seq (bankAt parts f .a).hdr.seq <;>
    simp [hpa, hpb, hseq, tryCandidates, hbank, hca, hcb]

variable {active : Active}

theorem gddrCalRead_clean :
    gddrCalRead crc32IeeeUpdate parts true .clean f active =
      match newest crc32IeeeUpdate (bankAt parts f) with
      | some i => (.ok (bankAt parts f i).table, ⟨(bankAt parts f i).hdr.seq, i, true⟩)
      | none => (.error .enoent, { active with haveActive := false }) := by
  simp only [gddrCalRead, tryCandidates_clean]
  rfl

section

variable {image image' : BankIdx → Bank} {i : BankIdx}

theorem newest_isValid (h : newest crc32IeeeUpdate image = some i) :
    (image i).isValid crc32IeeeUpdate = true := by
  unfold newest at h
  split at h
  · split at h <;> simp_all
  all_goals simp_all

theorem newest_eq_none : newest crc32IeeeUpdate image = none ↔
    ∀ i, (image i).isValid crc32IeeeUpdate = false := by
  constructor
  · intro h i
    unfold newest at h
    split at h
    · split at h <;> simp at h
    · simp at h
    · simp at h
    · cases i <;> assumption
  · intro h
    simp [newest, h]

theorem newest_of_other_invalid (hi : (image i).isValid crc32IeeeUpdate = true)
    (ho : (image i.other).isValid crc32IeeeUpdate = false) :
    newest crc32IeeeUpdate image = some i := by
  cases i <;> simp_all [newest, BankIdx.other]

theorem newest_of_newer (hi : (image i).isValid crc32IeeeUpdate = true)
    (hseq : seqIsNewer (image i).hdr.seq (image i.other).hdr.seq = true) :
    newest crc32IeeeUpdate image = some i := by
  have hback := seqIsNewer_asymm hseq
  cases i with
  | a =>
    obtain (hback : seqIsNewer (image .b).hdr.seq (image .a).hdr.seq = false) := hback
    cases ho : (image .b).isValid crc32IeeeUpdate <;> simp [newest, hi, ho, hback]
  | b =>
    obtain (hseq : seqIsNewer (image .b).hdr.seq (image .a).hdr.seq = true) := hseq
    cases ho : (image .a).isValid crc32IeeeUpdate <;> simp [newest, hi, ho, hseq]

end

-- ---
-- What a write does

theorem writeSeq_ne_erased : writeSeq active ≠ gddrCalSeqErased := by
  obtain ⟨seq, hseq⟩ : ∃ seq, seq = if active.haveActive then active.seq + 1 else 0 := ⟨_, rfl⟩
  rw [writeSeq, ← hseq]
  by_cases herased : seq = gddrCalSeqErased
  · simp [herased, gddrCalSeqErased]
  · simp [herased]

theorem writeSeq_newer (hactive : active.haveActive = true) :
    seqIsNewer (writeSeq active) active.seq = true := by
  simp only [writeSeq, hactive, if_true, beq_iff_eq]
  split
  · -- the erased value is skipped: 0 follows 0xFFFFFFFE
    rename_i herased
    have hlast : active.seq = 0xFFFFFFFE := by
      have := congrArg (· - 1) herased
      simpa [gddrCalSeqErased] using this
    rw [hlast]
    decide
  · rw [seqIsNewer_iff]
    have hone : active.seq + 1 - active.seq = 1 := by
      rw [UInt32.add_comm, UInt32.add_sub_cancel]
    rw [hone]
    decide

variable {table : GddrCalTable}

theorem newBank_isValid :
    (newBank crc32IeeeUpdate active table).isValid crc32IeeeUpdate = true := by
  have hcrc : bankCrc crc32IeeeUpdate (newBank crc32IeeeUpdate active table) =
      (newBank crc32IeeeUpdate active table).hdr.cksum := rfl
  have hseq : (newBank crc32IeeeUpdate active table).hdr.seq = writeSeq active := rfl
  rw [Bank.isValid, hcrc, hdrIsPlausible, hseq]
  simp [newBank, writeSeq_ne_erased]

/-- `g` differs from `f` at most inside the partition of bank `i`. -/
def SameOutside (parts : Partitions) (i : BankIdx) (f g : Flash) : Prop :=
  ∀ a, a < parts.offset i ∨ parts.offset i + parts.size ≤ a → g a = f a

variable {g : Flash} {off : ℕ}

theorem SameOutside.patch {i : BankIdx} {len : ℕ} {bytes : ℕ → UInt8}
    (h : SameOutside parts i f g) (hlo : parts.offset i ≤ off)
    (hhi : off + len ≤ parts.offset i + parts.size) :
    SameOutside parts i f (Flash.patch g off len bytes) := by
  intro a ha
  rw [Flash.patch_outside (by omega)]
  exact h a ha

theorem SameOutside.bankAt_other {i : BankIdx} (h : SameOutside parts i f g) :
    bankAt parts g i.other = bankAt parts f i.other := by
  have hfits := parts.fits
  have hapart : parts.offset i + parts.size ≤ parts.offset i.other ∨
      parts.offset i.other + parts.size ≤ parts.offset i := by
    have := parts.disjoint
    cases i <;> simp only [BankIdx.other] <;> omega
  have hsame : ∀ k < hdrSize + tableSize,
      g (parts.offset i.other + k) = f (parts.offset i.other + k) := by
    intro k hk
    exact h _ (by omega)
  have hword : ∀ k, k + 4 ≤ hdrSize →
      Flash.read g (parts.offset i.other + k) 4 = Flash.read f (parts.offset i.other + k) 4 := by
    intro k hk
    apply Flash.read_congr
    intro j hj
    rw [Nat.add_assoc]
    exact hsame _ (by omega)
  refine Bank.ext ?_ (funext fun k => ?_)
  · simp only [bankAt, readBank, readHdr]
    have hfirst := hword 0 (by decide)
    rw [Nat.add_zero] at hfirst
    rw [hfirst, hword 4 (by decide), hword 8 (by decide), hword 12 (by decide)]
  · simp only [bankAt, readBank, Nat.add_assoc]
    exact hsame _ (by have := k.isLt; omega)

theorem readHdr_program {h : BankHdr} : readHdr (Flash.program f off h.bytes) off = h := by
  have hlen : h.bytes.length = 16 := by simp [BankHdr.bytes, BankHdr.beforeCksum]
  have hword : ∀ k, k + 4 ≤ 16 → Flash.read (Flash.program f off h.bytes) (off + k) 4 =
      (h.bytes.drop k).take 4 := fun k hk => Flash.read_program (by omega)
  have hfirst := hword 0 (by decide)
  rw [Nat.add_zero] at hfirst
  simp only [readHdr, hfirst, hword 4 (by decide), hword 8 (by decide), hword 12 (by decide)]
  simp [BankHdr.bytes, BankHdr.beforeCksum, List.drop_append, List.drop_eq_nil_of_le,
    List.take_of_length_le]

theorem readBank_program {bank : Bank} :
    readBank (Flash.program (Flash.program f (off + hdrSize) (List.ofFn bank.table)) off
      bank.hdr.bytes) off = bank := by
  refine Bank.ext readHdr_program (funext fun k => ?_)
  have hhdr : bank.hdr.bytes.length = hdrSize := by
    simp [BankHdr.bytes, BankHdr.beforeCksum, hdrSize]
  simp only [readBank]
  rw [Flash.program, Flash.patch_outside (by omega),
    Flash.program_inside (by simp)]
  simp

/-- A call of `gddr_cal_write` stays inside its target bank, which holds the prepared bank and
becomes active if it returns 0; else the statics are as before. -/
structure WriteSpec (crc32IeeeUpdate : UInt32 → List UInt8 → UInt32) (parts : Partitions)
    (table : GddrCalTable) (f : Flash) (active : Active) (g : Flash) (result : WriteResult)
    (after : Active) : Prop where
  frame : SameOutside parts (writeTarget active) f g
  of_ok : result.isOk = true →
    bankAt parts g (writeTarget active) = newBank crc32IeeeUpdate active table ∧
      after = ⟨writeSeq active, writeTarget active, true⟩
  of_failed : result.isOk = false → after = active

theorem WriteSpec.failed {result : WriteResult}
    (hframe : SameOutside parts (writeTarget active) f g) (hresult : result.isOk = false) :
    WriteSpec crc32IeeeUpdate parts table f active g result active :=
  ⟨hframe, fun hok => absurd (hok.symm.trans hresult) (by decide), fun _ => rfl⟩

theorem flashOp_cases {P : Flash → WriteResult → Active → Prop} {f done : Flash} {off len : ℕ}
    {outcome : FlashOutcome} {next : Flash → Flash × WriteResult × Active}
    (hnext : P (next done).1 (next done).2.1 (next done).2.2)
    (hend : ∀ garbage result, result.isOk = false →
      P (Flash.patch f off len garbage) result active) :
    let out := flashOp f done off len active outcome next
    P out.1 out.2.1 out.2.2 := by
  cases outcome with
  | ok => exact hnext
  | error rc garbage => exact hend garbage _ rfl
  | powerLoss garbage => exact hend garbage _ rfl

theorem gddrCalWrite_spec {ready : Bool} {outcome : WriteOutcome} {f : Flash} :
    let out := gddrCalWrite crc32IeeeUpdate parts ready outcome table f active
    WriteSpec crc32IeeeUpdate parts table f active out.1 out.2.1 out.2.2 := by
  obtain ⟨bank, hbank⟩ : ∃ bank, bank = newBank crc32IeeeUpdate active table := ⟨_, rfl⟩
  have hfits := parts.fits
  have hhdr : bank.hdr.bytes.length = hdrSize := by
    simp [BankHdr.bytes, BankHdr.beforeCksum, hdrSize]
  have hsame : SameOutside parts (writeTarget active) f f := fun _ _ => rfl
  simp only [gddrCalWrite, ← hbank]
  cases ready with
  | false => exact WriteSpec.failed hsame rfl
  | true =>
    -- each operation lies inside the target bank, so the frame grows along
    have herase : SameOutside parts (writeTarget active) f
        (Flash.erase f (parts.offset (writeTarget active)) parts.size) :=
      hsame.patch le_rfl le_rfl
    have hbody : SameOutside parts (writeTarget active) f
        (Flash.program (Flash.erase f (parts.offset (writeTarget active)) parts.size)
          (parts.offset (writeTarget active) + hdrSize) (List.ofFn bank.table)) :=
      herase.patch (by omega) (by rw [List.length_ofFn]; omega)
    simp only [Bool.not_true, Bool.false_eq_true, if_false]
    refine flashOp_cases (P := WriteSpec crc32IeeeUpdate parts table f active) ?_ ?_
    case refine_2 =>
      intro garbage result hresult
      exact WriteSpec.failed (hsame.patch le_rfl le_rfl) hresult
    refine flashOp_cases (P := WriteSpec crc32IeeeUpdate parts table f active) ?_ ?_
    case refine_2 =>
      intro garbage result hresult
      exact WriteSpec.failed (herase.patch (by omega) (by omega)) hresult
    refine flashOp_cases (P := WriteSpec crc32IeeeUpdate parts table f active) ?_ ?_
    case refine_2 =>
      intro garbage result hresult
      exact WriteSpec.failed (hbody.patch le_rfl (by omega)) hresult
    have hdone : SameOutside parts (writeTarget active) f
        (Flash.program (Flash.program (Flash.erase f (parts.offset (writeTarget active)) parts.size)
          (parts.offset (writeTarget active) + hdrSize) (List.ofFn bank.table))
          (parts.offset (writeTarget active)) bank.hdr.bytes) :=
      hbody.patch le_rfl (by omega)
    cases outcome.readBack with
    | some rc => exact WriteSpec.failed hdone rfl
    | none =>
      simp only
      split
      · exact WriteSpec.failed hdone rfl
      · refine ⟨hdone, fun _ => ⟨?_, ?_⟩, by simp [WriteResult.isOk]⟩
        · rw [bankAt, readBank_program, hbank]
        · rw [hbank]
          rfl

-- ---
-- What a boot may find

def lastOk (writes : List (GddrCalTable × Bool)) : Option GddrCalTable :=
  ((writes.filter Prod.snd).getLast?).map Prod.fst

/-- The tables of the later writes, which were cut off or returned an error. -/
def laterFailed (writes : List (GddrCalTable × Bool)) : List GddrCalTable :=
  (writes.reverse.takeWhile fun w => !w.2).map Prod.fst

variable {writes : List (GddrCalTable × Bool)}

theorem lastOk_concat {ok : Bool} :
    lastOk (writes ++ [(table, ok)]) = if ok then some table else lastOk writes := by
  cases ok <;> simp [lastOk, List.filter_append]

theorem laterFailed_concat {ok : Bool} :
    laterFailed (writes ++ [(table, ok)]) = if ok then [] else table :: laterFailed writes := by
  cases ok <;> simp [laterFailed]

/-- A table the first read after a boot may return; before any write has returned 0, also that of
the initial flash. -/
def Acceptable (initial : Option GddrCalTable) (writes : List (GddrCalTable × Bool))
    (table : GddrCalTable) : Prop :=
  lastOk writes = some table ∨ table ∈ laterFailed writes ∨
    (lastOk writes = none ∧ initial = some table)

theorem Acceptable.of_failed {initial : Option GddrCalTable} {other : GddrCalTable}
    (h : Acceptable initial writes table) :
    Acceptable initial (writes ++ [(other, false)]) table := by
  simp only [Acceptable, lastOk_concat, laterFailed_concat, Bool.false_eq_true, if_false]
  exact h.imp_right (Or.imp_left (List.mem_cons_of_mem other))

def initialTable (crc32IeeeUpdate : UInt32 → List UInt8 → UInt32) (parts : Partitions)
    (f : Flash) : Option GddrCalTable :=
  (newest crc32IeeeUpdate (bankAt parts f)).map fun i => (bankAt parts f i).table

def BootSafe (crc32IeeeUpdate : UInt32 → List UInt8 → UInt32)
    (initial : Option GddrCalTable) (writes : List (GddrCalTable × Bool))
    (image : BankIdx → Bank) : Prop :=
  match newest crc32IeeeUpdate image with
  | some i => Acceptable initial writes (image i).table
  | none => lastOk writes = none ∧ initial = none

def ActiveInv (crc32IeeeUpdate : UInt32 → List UInt8 → UInt32)
    (initial : Option GddrCalTable) (writes : List (GddrCalTable × Bool))
    (image : BankIdx → Bank) (active : Active) : Prop :=
  if active.haveActive then
    (image active.bank).isValid crc32IeeeUpdate = true ∧
      (image active.bank).hdr.seq = active.seq ∧
      Acceptable initial writes (image active.bank).table
  else
    (image .b).isValid crc32IeeeUpdate = false ∧ lastOk writes = none ∧ initial = none

section

variable {initial : Option GddrCalTable} {writes : List (GddrCalTable × Bool)}
  {image image' : BankIdx → Bank} {active : Active} {table : GddrCalTable}

theorem ActiveInv.untouched (h : ActiveInv crc32IeeeUpdate initial writes image active)
    (hkeep : image' (writeTarget active).other = image (writeTarget active).other) :
    ActiveInv crc32IeeeUpdate initial (writes ++ [(table, false)]) image' active := by
  unfold ActiveInv writeTarget at *
  split at h
  · rename_i hactive
    rw [if_pos hactive, BankIdx.other_other] at hkeep
    obtain ⟨hvalid, hseq, hok⟩ := h
    rw [if_pos hactive, hkeep]
    exact ⟨hvalid, hseq, hok.of_failed⟩
  · rename_i hactive
    rw [if_neg hactive] at hkeep
    obtain ⟨hinvalid, hlast, hinitial⟩ := h
    rw [if_neg hactive, lastOk_concat]
    exact ⟨(congrArg _ hkeep).trans hinvalid, hlast, hinitial⟩

theorem BootSafe.write_failed (hboot : BootSafe crc32IeeeUpdate initial writes image)
    (h : ActiveInv crc32IeeeUpdate initial writes image active)
    (hkeep : image' (writeTarget active).other = image (writeTarget active).other)
    (htorn : (image' (writeTarget active)).isValid crc32IeeeUpdate = true →
      image' (writeTarget active) = image (writeTarget active) ∨
        image' (writeTarget active) = newBank crc32IeeeUpdate active table) :
    BootSafe crc32IeeeUpdate initial (writes ++ [(table, false)]) image' := by
  have hafter : ActiveInv crc32IeeeUpdate initial (writes ++ [(table, false)]) image' active :=
    h.untouched hkeep
  unfold BootSafe
  split
  · rename_i i hnewest
    have hvalid := newest_isValid hnewest
    rcases BankIdx.eq_or_eq_other (writeTarget active) i with rfl | rfl
    · rcases htorn hvalid with hsame | hnew
      · -- nothing changed, so the read before the call decides
        have himage : image' = image := by
          funext j
          rcases BankIdx.eq_or_eq_other (writeTarget active) j with rfl | rfl
          · exact hsame
          · exact hkeep
        rw [himage] at hnewest ⊢
        unfold BootSafe at hboot
        rw [hnewest] at hboot
        exact hboot.of_failed
      · refine .inr (.inl ?_)
        rw [hnew, laterFailed_concat]
        exact List.mem_cons_self
    · unfold ActiveInv at hafter
      unfold writeTarget at hvalid ⊢
      split at hafter
      · rename_i hactive
        rw [if_pos hactive, BankIdx.other_other]
        exact hafter.2.2
      · rename_i hactive
        rw [if_neg hactive] at hvalid
        exact absurd (hvalid.symm.trans hafter.1) (by decide)
  · rename_i hnone
    unfold ActiveInv at hafter
    split at hafter
    · exact absurd (hafter.1.symm.trans (newest_eq_none.mp hnone _)) (by decide)
    · exact hafter.2

theorem newest_of_written
    (h : if active.haveActive then (image active.bank).hdr.seq = active.seq
      else (image .b).isValid crc32IeeeUpdate = false)
    (hkeep : image' (writeTarget active).other = image (writeTarget active).other)
    (hnew : image' (writeTarget active) = newBank crc32IeeeUpdate active table) :
    newest crc32IeeeUpdate image' = some (writeTarget active) := by
  have hvalid : (image' (writeTarget active)).isValid crc32IeeeUpdate = true := by
    rw [hnew]
    exact newBank_isValid
  split at h
  · rename_i hactive
    apply newest_of_newer hvalid
    have hseq : (image' (writeTarget active).other).hdr.seq = active.seq := by
      rw [hkeep, writeTarget, if_pos hactive, BankIdx.other_other]
      exact h
    rw [hnew, hseq]
    exact writeSeq_newer hactive
  · rename_i hactive
    apply newest_of_other_invalid hvalid
    rw [hkeep, writeTarget, if_neg hactive]
    exact h

theorem newest_write_ok (h : ActiveInv crc32IeeeUpdate initial writes image active)
    (hkeep : image' (writeTarget active).other = image (writeTarget active).other)
    (hnew : image' (writeTarget active) = newBank crc32IeeeUpdate active table) :
    newest crc32IeeeUpdate image' = some (writeTarget active) := by
  refine newest_of_written ?_ hkeep hnew
  unfold ActiveInv at h
  cases hactive : active.haveActive with
  | true =>
    rw [if_pos hactive] at h
    exact h.2.1
  | false =>
    rw [if_neg (by rw [hactive]; decide)] at h
    exact h.1

end

-- ---
-- Runs

/-- **The CRC rejects torn banks.** What a write leaves in its target bank passes the checks
only if it is a complete image: the one from before the call, or the one the call wrote. -/
def RejectsTorn (crc32IeeeUpdate : UInt32 → List UInt8 → UInt32) (parts : Partitions)
    (s : World) : Action → Prop
  | .boot => True
  | .write table ready outcome =>
    let target := writeTarget s.active
    let after := bankAt parts
      (gddrCalWrite crc32IeeeUpdate parts ready outcome table s.flash s.active).1 target
    after.isValid crc32IeeeUpdate = true →
      after = bankAt parts s.flash target ∨ after = newBank crc32IeeeUpdate s.active table

instance RejectsTorn.decidable (s : World) :
    ∀ a, Decidable (RejectsTorn crc32IeeeUpdate parts s a)
  | .boot => .isTrue trivial
  | .write _ _ _ => inferInstanceAs (Decidable (_ → _ ∨ _))

structure Inv (crc32IeeeUpdate : UInt32 → List UInt8 → UInt32) (parts : Partitions)
    (initial : Option GddrCalTable) (s : World) : Prop where
  boot : BootSafe crc32IeeeUpdate initial s.writes (bankAt parts s.flash)
  active : s.powered = true →
    ActiveInv crc32IeeeUpdate initial s.writes (bankAt parts s.flash) s.active

theorem start_inv :
    Inv crc32IeeeUpdate parts (initialTable crc32IeeeUpdate parts f) (World.start f) where
  boot := by
    simp only [BootSafe, World.start, initialTable]
    split
    · rename_i i hi
      exact .inr (.inr ⟨rfl, by rw [hi]; rfl⟩)
    · rename_i hnone
      exact ⟨rfl, by rw [hnone]; rfl⟩
  active := by
    intro hpowered
    simp [World.start] at hpowered

section

variable {initial : Option GddrCalTable} {s t : World}

theorem boot_inv (h : Inv crc32IeeeUpdate parts initial s)
    (hstep : step crc32IeeeUpdate parts s .boot = some t) :
    Inv crc32IeeeUpdate parts initial t := by
  rw [step, Option.some.injEq] at hstep
  subst hstep
  refine ⟨h.boot, fun _ => ?_⟩
  have hboot := h.boot
  simp only [World.bootRead, gddrCalRead_clean]
  unfold BootSafe at hboot
  split at hboot
  · rename_i i hnewest
    simp only [ActiveInv, if_true]
    exact ⟨newest_isValid hnewest, trivial, hboot⟩
  · rename_i hnone
    simp only [ActiveInv, Bool.false_eq_true, if_false]
    exact ⟨newest_eq_none.mp hnone .b, hboot⟩

theorem write_inv {table : GddrCalTable} {ready : Bool} {outcome : WriteOutcome}
    (h : Inv crc32IeeeUpdate parts initial s)
    (htorn : RejectsTorn crc32IeeeUpdate parts s (.write table ready outcome))
    (hstep : step crc32IeeeUpdate parts s (.write table ready outcome) = some t) :
    Inv crc32IeeeUpdate parts initial t := by
  have hspec := @gddrCalWrite_spec crc32IeeeUpdate parts s.active table ready outcome s.flash
  simp only [step] at hstep
  split at hstep
  case isFalse => simp at hstep
  rename_i hpowered
  have hactive := h.active hpowered
  simp only [RejectsTorn] at htorn
  obtain ⟨g, result, after, hout⟩ : ∃ g result after,
      gddrCalWrite crc32IeeeUpdate parts ready outcome table s.flash s.active =
        (g, result, after) := ⟨_, _, _, rfl⟩
  simp only [hout] at hspec htorn hstep
  have hkeep := hspec.frame.bankAt_other
  cases hok : result.isOk with
  | false =>
    obtain rfl := hspec.of_failed hok
    have hboot := h.boot.write_failed hactive hkeep htorn
    cases result with
    | powerLost =>
      rw [Option.some.injEq] at hstep
      subst hstep
      exact ⟨hboot, by simp⟩
    | returned rc =>
      simp only [hok, Option.some.injEq] at hstep
      subst hstep
      exact ⟨hboot, fun _ => hactive.untouched hkeep⟩
  | true =>
    obtain ⟨hnew, rfl⟩ := hspec.of_ok hok
    have hnewest := newest_write_ok hactive hkeep hnew
    have hlast : Acceptable initial (s.writes ++ [(table, true)])
        (bankAt parts g (writeTarget s.active)).table := by
      rw [hnew, Acceptable, lastOk_concat]
      exact .inl rfl
    cases result with
    | powerLost => simp [WriteResult.isOk] at hok
    | returned rc =>
      simp only [hok, Option.some.injEq] at hstep
      subst hstep
      refine ⟨?_, fun _ => ?_⟩
      · simp only [BootSafe, hnewest]
        exact hlast
      · simp only [ActiveInv, if_true]
        exact ⟨newest_isValid hnewest, by rw [hnew]; rfl, hlast⟩

theorem step_inv {a : Action} (h : Inv crc32IeeeUpdate parts initial s)
    (htorn : RejectsTorn crc32IeeeUpdate parts s a)
    (hstep : step crc32IeeeUpdate parts s a = some t) : Inv crc32IeeeUpdate parts initial t := by
  cases a with
  | boot => exact boot_inv h hstep
  | write table ready outcome => exact write_inv h htorn hstep

end

/-- **Power-fail safety.** In every run of boots and writes, interrupted or failing at any flash
operation, the first read after the next boot returns the table of the last write that returned
0 or of a later one, and `ENOENT` only if no write returned 0 and no bank was valid to begin
with. -/
theorem gddrCal_power_fail_safe {f : Flash} {actions : List Action} {s : World}
    (hrun : exec (step crc32IeeeUpdate parts) (World.start f) actions = some s)
    (htorn : Along (step crc32IeeeUpdate parts) (RejectsTorn crc32IeeeUpdate parts)
      (World.start f) actions) :
    match (s.bootRead crc32IeeeUpdate parts).1 with
    | .ok table =>
      lastOk s.writes = some table ∨ table ∈ laterFailed s.writes ∨
        (lastOk s.writes = none ∧
          ((World.start f).bootRead crc32IeeeUpdate parts).1 = .ok table)
    | .error e =>
      e = .enoent ∧ lastOk s.writes = none ∧
        ∀ i, (bankAt parts f i).isValid crc32IeeeUpdate = false := by
  have h : Inv crc32IeeeUpdate parts (initialTable crc32IeeeUpdate parts f) s :=
    exec_invariant_along (fun _ _ _ => step_inv) start_inv htorn hrun
  have hboot := h.boot
  simp only [World.bootRead, gddrCalRead_clean]
  unfold BootSafe at hboot
  split at hboot
  · rename_i i hnewest
    refine hboot.imp_right (Or.imp_right ?_)
    rintro ⟨hlast, hinitial⟩
    obtain ⟨j, hj, htable⟩ := Option.map_eq_some_iff.mp hinitial
    refine ⟨hlast, ?_⟩
    simp only [World.start, hj, htable]
  · rename_i hnone
    exact ⟨rfl, hboot.1, newest_eq_none.mp (Option.map_eq_none_iff.mp hboot.2)⟩

def sumCrc (crc : UInt32) (bytes : List UInt8) : UInt32 :=
  bytes.foldl (fun c b => c * 31 + b.toUInt32) crc

def cutSecondWrite : List Action :=
  [.boot, .write (fun _ => 1) true .clean,
    .write (fun _ => 2) true ⟨.ok, .ok, .powerLoss fun _ => 0, none⟩]

theorem cutSecondWrite_power_fail_safe : ∃ s,
    exec (step sumCrc boardPartitions) (World.start fun _ => 0xFF) cutSecondWrite = some s ∧
    s.powered = false ∧
    match (s.bootRead sumCrc boardPartitions).1 with
    | .ok table =>
      lastOk s.writes = some table ∨ table ∈ laterFailed s.writes ∨
        (lastOk s.writes = none ∧
          ((World.start fun _ => 0xFF).bootRead sumCrc boardPartitions).1 = .ok table)
    | .error e =>
      e = .enoent ∧ lastOk s.writes = none ∧
        ∀ i, (bankAt boardPartitions (fun _ => 0xFF) i).isValid sumCrc = false := by
  -- one evaluation for both facts, which share the two writes
  have heval : (exec (step sumCrc boardPartitions) (World.start fun _ => 0xFF)
        cutSecondWrite).any (!·.powered) = true ∧
      Along (step sumCrc boardPartitions) (RejectsTorn sumCrc boardPartitions)
        (World.start fun _ => 0xFF) cutSecondWrite := by
    decide +kernel
  obtain ⟨hany, htorn⟩ := heval
  obtain ⟨s, hrun, hcut⟩ := (Option.any_eq_true _ _).mp hany
  refine ⟨s, hrun, by simpa using hcut, ?_⟩
  exact gddrCal_power_fail_safe hrun htorn

end SystemFirmware.GddrCal
