import SystemFirmware.GddrCal.PowerFail

/-!
# GDDR calibration store — transient read errors

`gddr_cal_read` forgets the active bank before it looks at the flash. If the reads of
the two headers fail, the next `gddr_cal_write` starts over at bank A with number 0: it
may erase the live table, and bank B may stay ahead of what it writes.

As long as the statics are those of a read without errors, none of this happens
(`Session.settled`, `gddrCalWrite_durable`).
-/

namespace SystemFirmware.GddrCal

open Lib

-- ---
-- Calls

def ReadOutcome.errorFree (outcome : ReadOutcome) : Bool :=
  outcome.hdrOk .a && outcome.hdrOk .b && outcome.bankOk .a && outcome.bankOk .b

inductive Call where
  | read (ready : Bool) (outcome : ReadOutcome)
  | write (table : GddrCalTable) (ready : Bool) (outcome : WriteOutcome)

def Call.isRead : Call → Bool
  | .read _ _ => true
  | .write _ _ _ => false

structure Session where
  flash : Flash
  active : Active
  /-- Since the last error-free read every write has returned 0. -/
  settled : Bool

section

variable (crc32IeeeUpdate : UInt32 → List UInt8 → UInt32) (parts : Partitions)

def Session.start (f : Flash) : Session := ⟨f, Active.init, false⟩

/-- One call; after a power loss the statics are those of the next power-up. -/
def Session.call (s : Session) : Call → Session
  | .read ready outcome =>
    let (_, active) := gddrCalRead crc32IeeeUpdate parts ready outcome s.flash s.active
    ⟨s.flash, active, ready && outcome.errorFree⟩
  | .write table ready outcome =>
    match gddrCalWrite crc32IeeeUpdate parts ready outcome table s.flash s.active with
    | (f, .powerLost, _) => .start f
    | (f, .returned rc, active) => ⟨f, active, s.settled && (WriteResult.returned rc).isOk⟩

def Session.run (s : Session) (calls : List Call) : Session :=
  calls.foldl (Session.call crc32IeeeUpdate parts) s

def selectedBank (f : Flash) : Option BankIdx :=
  let (_, active) := gddrCalRead crc32IeeeUpdate parts true .clean f Active.init
  if active.haveActive then some active.bank else none

/-- The statics are those an error-free read would set. -/
def Synced (image : BankIdx → Bank) (active : Active) : Prop :=
  match newest crc32IeeeUpdate image with
  | some i => active = ⟨(image i).hdr.seq, i, true⟩
  | none => active.haveActive = false

end

variable {crc32IeeeUpdate : UInt32 → List UInt8 → UInt32} {parts : Partitions}

theorem ReadOutcome.eq_clean {outcome : ReadOutcome} (h : outcome.errorFree = true) :
    outcome = .clean := by
  obtain ⟨hdrOk, bankOk⟩ := outcome
  simp only [errorFree, Bool.and_eq_true] at h
  obtain ⟨⟨⟨hha, hhb⟩, hba⟩, hbb⟩ := h
  rw [ReadOutcome.clean, ReadOutcome.mk.injEq]
  constructor
  · funext i
    cases i <;> assumption
  · funext i
    cases i <;> assumption

variable {f : Flash}

theorem selectedBank_eq :
    selectedBank crc32IeeeUpdate parts f = newest crc32IeeeUpdate (bankAt parts f) := by
  rw [selectedBank, gddrCalRead_clean]
  cases newest crc32IeeeUpdate (bankAt parts f) <;> rfl

variable {s : Session} {ready : Bool}

theorem Session.call_read {outcome : ReadOutcome} :
    s.call crc32IeeeUpdate parts (.read ready outcome) =
      ⟨s.flash, (gddrCalRead crc32IeeeUpdate parts ready outcome s.flash s.active).2,
        ready && outcome.errorFree⟩ := rfl

theorem Session.call_write_flash {table : GddrCalTable} {outcome : WriteOutcome} :
    (s.call crc32IeeeUpdate parts (.write table ready outcome)).flash =
      (gddrCalWrite crc32IeeeUpdate parts ready outcome table s.flash s.active).1 := by
  rw [Session.call]
  obtain ⟨g, result, active⟩ := gddrCalWrite crc32IeeeUpdate parts ready outcome table s.flash s.active
  cases result <;> rfl

-- ---
-- One call

section

variable {image image' : BankIdx → Bank} {active : Active} {table : GddrCalTable}

theorem Synced.target_ne {i : BankIdx} (h : Synced crc32IeeeUpdate image active)
    (hi : newest crc32IeeeUpdate image = some i) : writeTarget active = i.other := by
  rw [Synced, hi] at h
  rw [h]
  rfl

theorem Synced.seq_known (h : Synced crc32IeeeUpdate image active) :
    if active.haveActive then (image active.bank).hdr.seq = active.seq
    else (image .b).isValid crc32IeeeUpdate = false := by
  rw [Synced] at h
  split at h
  · rw [h]
    rfl
  · rename_i hnone
    rw [h]
    exact newest_eq_none.mp hnone .b

end

theorem read_synced {active : Active} :
    Synced crc32IeeeUpdate (bankAt parts f)
      (gddrCalRead crc32IeeeUpdate parts true .clean f active).2 := by
  rw [gddrCalRead_clean, Synced]
  cases newest crc32IeeeUpdate (bankAt parts f) <;> rfl

theorem newest_after_write {outcome : WriteOutcome} {table : GddrCalTable} {active : Active}
    (h : Synced crc32IeeeUpdate (bankAt parts f) active)
    (hok : (gddrCalWrite crc32IeeeUpdate parts ready outcome table f active).2.1.isOk = true) :
    newest crc32IeeeUpdate
        (bankAt parts (gddrCalWrite crc32IeeeUpdate parts ready outcome table f active).1) =
      some (writeTarget active) := by
  have hspec := @gddrCalWrite_spec crc32IeeeUpdate parts active table ready outcome f
  exact newest_of_written h.seq_known hspec.frame.bankAt_other (hspec.of_ok hok).1

theorem write_synced {ready : Bool} {outcome : WriteOutcome} {table : GddrCalTable}
    {f : Flash} {active : Active} (h : Synced crc32IeeeUpdate (bankAt parts f) active)
    (hok : (gddrCalWrite crc32IeeeUpdate parts ready outcome table f active).2.1.isOk = true) :
    Synced crc32IeeeUpdate
      (bankAt parts (gddrCalWrite crc32IeeeUpdate parts ready outcome table f active).1)
      (gddrCalWrite crc32IeeeUpdate parts ready outcome table f active).2.2 := by
  have hspec := @gddrCalWrite_spec crc32IeeeUpdate parts active table ready outcome f
  obtain ⟨hnew, hafter⟩ := hspec.of_ok hok
  rw [Synced, newest_after_write h hok, hafter]
  simp only [hnew]
  rfl

-- ---
-- Runs

def SettledInv (crc32IeeeUpdate : UInt32 → List UInt8 → UInt32) (parts : Partitions)
    (s : Session) : Prop :=
  s.settled = true → Synced crc32IeeeUpdate (bankAt parts s.flash) s.active

theorem call_synced (h : SettledInv crc32IeeeUpdate parts s) (c : Call) :
    SettledInv crc32IeeeUpdate parts (s.call crc32IeeeUpdate parts c) := by
  cases c with
  | read ready outcome =>
    rw [Session.call_read]
    intro hsettled
    obtain ⟨rfl, hfree⟩ := Bool.and_eq_true_iff.mp hsettled
    rw [ReadOutcome.eq_clean hfree]
    exact read_synced
  | write table ready outcome =>
    intro hsettled
    have hwrite := @write_synced crc32IeeeUpdate parts ready outcome table s.flash s.active
    obtain ⟨f, result, active, hout⟩ : ∃ f result active,
        gddrCalWrite crc32IeeeUpdate parts ready outcome table s.flash s.active =
          (f, result, active) := ⟨_, _, _, rfl⟩
    simp only [Session.call, hout] at hsettled hwrite ⊢
    cases result with
    | powerLost => cases hsettled
    | returned rc =>
      obtain ⟨hbefore, hok⟩ := Bool.and_eq_true_iff.mp hsettled
      exact hwrite (h hbefore) hok

/-- **Settled means synced**, after every sequence of calls on any flash content. -/
theorem settled_synced (h : SettledInv crc32IeeeUpdate parts s) (calls : List Call) :
    SettledInv crc32IeeeUpdate parts (s.run crc32IeeeUpdate parts calls) := by
  induction calls generalizing s with
  | nil => exact h
  | cons c calls ih => exact ih (call_synced h c)

theorem Session.run_append {calls calls' : List Call} :
    s.run crc32IeeeUpdate parts (calls ++ calls') =
      (s.run crc32IeeeUpdate parts calls).run crc32IeeeUpdate parts calls' :=
  List.foldl_append

theorem run_reads_flash {reads : List Call} (h : ∀ c ∈ reads, c.isRead = true) :
    (s.run crc32IeeeUpdate parts reads).flash = s.flash := by
  induction reads generalizing s with
  | nil => rfl
  | cons c reads ih =>
    have hread := h c List.mem_cons_self
    cases c with
    | read ready outcome => exact ih fun c hc => h c (List.mem_cons_of_mem _ hc)
    | write table ready outcome => cases hread

/-- **Durable writes.** A write in a settled session does not touch the bank that an error-free
read would select, and if it returns 0 then, after any reads with any errors, an error-free read
returns its table. -/
theorem gddrCalWrite_durable (f : Flash) (calls : List Call) (table : GddrCalTable) (ready : Bool)
    (outcome : WriteOutcome) (s : Session)
    (hrun : s = (Session.start f).run crc32IeeeUpdate parts calls) (hsettled : s.settled = true) :
    let out := gddrCalWrite crc32IeeeUpdate parts ready outcome table s.flash s.active
    (∀ i, selectedBank crc32IeeeUpdate parts s.flash = some i →
        writeTarget s.active ≠ i ∧ bankAt parts out.1 i = bankAt parts s.flash i) ∧
      (out.2.1.isOk = true → ∀ reads : List Call, (∀ c ∈ reads, c.isRead = true) →
        let after := (s.call crc32IeeeUpdate parts (.write table ready outcome)).run
          crc32IeeeUpdate parts reads
        (gddrCalRead crc32IeeeUpdate parts true .clean after.flash after.active).1 =
          .ok table) := by
  have hstart : SettledInv crc32IeeeUpdate parts (Session.start f) := by
    intro h
    cases h
  have hsynced : Synced crc32IeeeUpdate (bankAt parts s.flash) s.active := by
    rw [hrun] at hsettled ⊢
    exact settled_synced hstart calls hsettled
  have hspec := @gddrCalWrite_spec crc32IeeeUpdate parts s.active table ready outcome s.flash
  intro out
  constructor
  · intro i hi
    rw [selectedBank_eq] at hi
    have htarget := hsynced.target_ne hi
    have hkeep := hspec.frame.bankAt_other
    rw [htarget, BankIdx.other_other] at hkeep
    exact ⟨htarget ▸ BankIdx.other_ne, hkeep⟩
  · intro hok reads hreads after
    have hflash : after.flash = out.1 := (run_reads_flash hreads).trans Session.call_write_flash
    have hnew : bankAt parts out.1 (writeTarget s.active) =
        newBank crc32IeeeUpdate s.active table := (hspec.of_ok hok).1
    rw [hflash, gddrCalRead_clean, newest_after_write hsynced hok]
    simp only [hnew]
    rfl

-- ---
-- A failed read between two writes

theorem gddrCalWrite_clean_isOk {table : GddrCalTable} {f : Flash} {active : Active} :
    (gddrCalWrite crc32IeeeUpdate parts true .clean table f active).2.1.isOk = true := by
  have hvalid := @newBank_isValid crc32IeeeUpdate active table
  rw [Bank.isValid, Bool.and_eq_true_iff, beq_iff_eq] at hvalid
  simp only [gddrCalWrite, WriteOutcome.clean, flashOp, readBank_program, Bool.not_true,
    Bool.false_eq_true, if_false, hvalid.1, ← hvalid.2, bne_self_eq_false, Bool.or_self]
  rfl

theorem Session.call_clean_write {s : Session} {table : GddrCalTable} :
    let t := s.call crc32IeeeUpdate parts (.write table true .clean)
    bankAt parts t.flash (writeTarget s.active) = newBank crc32IeeeUpdate s.active table ∧
      bankAt parts t.flash (writeTarget s.active).other =
        bankAt parts s.flash (writeTarget s.active).other ∧
      t.active = ⟨writeSeq s.active, writeTarget s.active, true⟩ ∧ t.settled = s.settled := by
  have hspec := @gddrCalWrite_spec crc32IeeeUpdate parts s.active table true .clean s.flash
  have hok := @gddrCalWrite_clean_isOk crc32IeeeUpdate parts table s.flash s.active
  obtain ⟨g, result, active, hout⟩ : ∃ g result active,
      gddrCalWrite crc32IeeeUpdate parts true .clean table s.flash s.active =
        (g, result, active) := ⟨_, _, _, rfl⟩
  simp only [Session.call, hout] at hspec hok ⊢
  obtain ⟨hnew, hafter⟩ := hspec.of_ok hok
  cases result with
  | powerLost => cases hok
  | returned rc => exact ⟨hnew, hspec.frame.bankAt_other, hafter, by simp only [hok, Bool.and_true]⟩

def firstWrite : List Call := [.read true .clean, .write (fun _ => 1) true .clean]

def failedRead : Call := .read true ⟨fun _ => false, fun _ => false⟩

theorem blank_newest : newest crc32IeeeUpdate (bankAt parts fun _ => 0xFF) = none := by
  rw [newest_eq_none]
  intro i
  have hread : Flash.read (fun _ => 0xFF) (parts.offset i) 4 = [0xFF, 0xFF, 0xFF, 0xFF] := rfl
  have hmagic : ((bankAt parts (fun _ => 0xFF) i).hdr.magic == gddrCalMagic) = false := by
    simp only [bankAt, readBank, readHdr, hread]
    decide
  rw [Bank.isValid, hdrIsPlausible, hmagic]
  rfl

theorem run_firstWrite :
    let s := (Session.start fun _ => 0xFF).run crc32IeeeUpdate parts firstWrite
    newest crc32IeeeUpdate (bankAt parts s.flash) = some .a ∧ s.active = ⟨0, .a, true⟩ ∧
      s.settled = true := by
  have hread : (Session.start fun _ => 0xFF).call crc32IeeeUpdate parts (.read true .clean) =
      ⟨fun _ => 0xFF, Active.init, true⟩ := by
    rw [Session.call_read, Session.start, gddrCalRead_clean, blank_newest]
    rfl
  obtain ⟨hnew, hother, hactive, hsettled⟩ :=
    @Session.call_clean_write crc32IeeeUpdate parts ⟨fun _ => 0xFF, Active.init, true⟩ fun _ => 1
  rw [firstWrite, Session.run, List.foldl_cons, hread, List.foldl_cons, List.foldl_nil]
  refine ⟨newest_of_written ?_ hother hnew, hactive, hsettled⟩
  exact newest_eq_none.mp blank_newest .b

theorem firstWrite_durable : ∃ s,
    s = (Session.start fun _ => 0xFF).run sumCrc boardPartitions firstWrite ∧
    selectedBank sumCrc boardPartitions s.flash = some .a ∧ writeTarget s.active ≠ .a ∧
    let after := (s.call sumCrc boardPartitions (.write (fun _ => 2) true .clean)).run sumCrc
      boardPartitions [failedRead]
    (gddrCalRead sumCrc boardPartitions true .clean after.flash after.active).1 =
      .ok fun _ => 2 := by
  obtain ⟨hnewest, -, hsettled⟩ := @run_firstWrite sumCrc boardPartitions
  rw [← selectedBank_eq] at hnewest
  have h := gddrCalWrite_durable (fun _ => 0xFF) firstWrite (fun _ => 2) true .clean _ rfl hsettled
  refine ⟨_, rfl, hnewest, (h.1 .a hnewest).1, ?_⟩
  exact h.2 gddrCalWrite_clean_isOk [failedRead] (by simp [failedRead, Call.isRead])

theorem Session.call_failedRead :
    s.call crc32IeeeUpdate parts failedRead =
      ⟨s.flash, { s.active with haveActive := false }, false⟩ := rfl

theorem newest_after_failedRead {s t : Session} {table table' : GddrCalTable} {g : Flash}
    (hactive : s.active = ⟨0, .a, true⟩)
    (ht : t = (s.call crc32IeeeUpdate parts (.write table true .clean)).call crc32IeeeUpdate parts
      failedRead)
    (hg : g = (gddrCalWrite crc32IeeeUpdate parts true .clean table' t.flash t.active).1) :
    newest crc32IeeeUpdate (bankAt parts g) = some .b ∧ (bankAt parts g .b).table = table := by
  obtain ⟨hnew, -, hafter, -⟩ := @Session.call_clean_write crc32IeeeUpdate parts s table
  rw [Session.call_failedRead] at ht
  have hspec := @gddrCalWrite_spec crc32IeeeUpdate parts t.active table' true .clean t.flash
  have ha := (hspec.of_ok gddrCalWrite_clean_isOk).1
  have hb := hspec.frame.bankAt_other
  have hclear : t.active = ⟨1, .b, false⟩ := by
    rw [ht, hafter, hactive]
    rfl
  have htarget : writeTarget ⟨1, .b, false⟩ = .a := rfl
  have htarget' : writeTarget ⟨0, .a, true⟩ = BankIdx.a.other := rfl
  rw [← hg, hclear, htarget] at ha hb
  rw [hactive, htarget'] at hnew
  rw [show t.flash = _ from congrArg Session.flash ht, hnew] at hb
  have hseq : ∀ active table, (newBank crc32IeeeUpdate active table).hdr.seq = writeSeq active :=
    fun _ _ => rfl
  refine ⟨newest_of_newer ?_ ?_, ?_⟩
  · rw [show bankAt parts g .b = _ from hb]
    exact newBank_isValid
  · rw [show bankAt parts g .b = _ from hb, show bankAt parts g BankIdx.b.other = _ from ha, hseq,
      hseq]
    decide
  · rw [show bankAt parts g .b = _ from hb]
    rfl

/-- After a failed read the live bank A is erased; with the live table in bank B the write returns
0, but the old table is still found. -/
theorem failed_read_forgets :
    (let s := (Session.start fun _ => 0xFF).run sumCrc boardPartitions (firstWrite ++ [failedRead])
     selectedBank sumCrc boardPartitions s.flash = some .a ∧ writeTarget s.active = .a) ∧
    (let s := (Session.start fun _ => 0xFF).run sumCrc boardPartitions
        (firstWrite ++ [.write (fun _ => 2) true .clean, failedRead])
     let out := gddrCalWrite sumCrc boardPartitions true .clean (fun _ => 3) s.flash s.active
     out.2.1.isOk = true ∧
       (gddrCalRead sumCrc boardPartitions true .clean out.1 out.2.2).1 = .ok (fun _ => 2)) := by
  obtain ⟨hnewest, hactive, -⟩ := @run_firstWrite sumCrc boardPartitions
  rw [Session.run_append, Session.run_append]
  obtain ⟨s, hs⟩ : ∃ s, s = (Session.start fun _ => 0xFF).run sumCrc boardPartitions firstWrite :=
    ⟨_, rfl⟩
  rw [← hs] at hnewest hactive ⊢
  refine ⟨⟨?_, ?_⟩, gddrCalWrite_clean_isOk, ?_⟩
  · rw [selectedBank_eq]
    exact hnewest
  · rfl
  · obtain ⟨hlive, htable⟩ :=
      @newest_after_failedRead sumCrc boardPartitions s _ (fun _ => 2) (fun _ => 3) _ hactive rfl rfl
    rw [gddrCalRead_clean]
    simp only [Session.run, List.foldl_cons, List.foldl_nil, hlive, htable]

end SystemFirmware.GddrCal
