import SystemFirmware.BhFwtable.Definitions
import SystemFirmware.Lib.Bits

/-!
# Firmware table — CCFGOVR bank selection and merge

Which bank is applied, what it does to the table and what the state word says afterwards,
for every flash content and every pattern of failing reads (`applyCcfgovr_merged`).
-/

namespace SystemFirmware.BhFwtable

open Lib TtBootFs

-- ---
-- The merge

def Overridable.apply {α : Type} (o : Overridable α) (sectionPresent : Bool) (old : α) : α :=
  if sectionPresent && o.has then o.value else old

/-- The table with the allow-listed fields of the override, and the presence flags of the DRAM and
Ethernet sections. -/
def overridden (ovr : FwTableOverride) (t : FwTable) : FwTable :=
  { t with
    chipLimits := { t.chipLimits with
      tdpLimit := ovr.chipLimits.tdpLimit.apply ovr.hasChipLimits t.chipLimits.tdpLimit
      maxTdpLimit := ovr.chipLimits.maxTdpLimit.apply ovr.hasChipLimits t.chipLimits.maxTdpLimit
      kernelThrottlerStopNopsFreq := ovr.chipLimits.kernelThrottlerStopNopsFreq.apply
        ovr.hasChipLimits t.chipLimits.kernelThrottlerStopNopsFreq }
    featureEnable := { t.featureEnable with
      kernelThrottlerAtFloorEn := ovr.featureEnable.kernelThrottlerAtFloorEn.apply
        ovr.hasFeatureEnable t.featureEnable.kernelThrottlerAtFloorEn
      gddrThermTripEn := ovr.featureEnable.gddrThermTripEn.apply
        ovr.hasFeatureEnable t.featureEnable.gddrThermTripEn
      bypassCableFaultDetection := ovr.featureEnable.bypassCableFaultDetection.apply
        ovr.hasFeatureEnable t.featureEnable.bypassCableFaultDetection }
    dramTable := { t.dramTable with
      softHarvestDramMask := ovr.dramTable.softHarvestDramMask.apply
        ovr.hasDramTable t.dramTable.softHarvestDramMask }
    hasDramTable := t.hasDramTable || (ovr.hasDramTable && ovr.dramTable.softHarvestDramMask.has)
    pci0PropertyTable := { t.pci0PropertyTable with
      maxPcieSpeed := ovr.pci0PropertyTable.maxPcieSpeed.apply
        ovr.hasPci0PropertyTable t.pci0PropertyTable.maxPcieSpeed }
    pci1PropertyTable := { t.pci1PropertyTable with
      maxPcieSpeed := ovr.pci1PropertyTable.maxPcieSpeed.apply
        ovr.hasPci1PropertyTable t.pci1PropertyTable.maxPcieSpeed }
    ethPropertyTable := { t.ethPropertyTable with
      ethSpeedOverride := ovr.ethPropertyTable.ethSpeedOverride.apply
        ovr.hasEthPropertyTable t.ethPropertyTable.ethSpeedOverride
      hasEthSpeedOverride := t.ethPropertyTable.hasEthSpeedOverride ||
        (ovr.hasEthPropertyTable && ovr.ethPropertyTable.ethSpeedOverride.has) }
    hasEthPropertyTable := t.hasEthPropertyTable ||
      (ovr.hasEthPropertyTable && ovr.ethPropertyTable.ethSpeedOverride.has) }

section

variable {α : Type} {present : Bool} {o : Overridable α}

theorem mergeField_eq (store : α → FwTable → FwTable) (get : FwTable → α)
    (hstore : ∀ t, store (get t) t = t) (t : FwTable) :
    mergeField present o store t = store (o.apply present (get t)) t := by
  rw [mergeField, Overridable.apply]
  cases present && o.has with
  | false => exact (hstore t).symm
  | true => rfl

end

theorem mergeField_softHarvestDramMask {present : Bool} {o : Overridable UInt32} (t : FwTable) :
    mergeField present o .setSoftHarvestDramMask t =
      { t with
        dramTable.softHarvestDramMask := o.apply present t.dramTable.softHarvestDramMask
        hasDramTable := t.hasDramTable || (present && o.has) } := by
  rw [mergeField, Overridable.apply]
  cases present && o.has <;> simp [FwTable.setSoftHarvestDramMask]

theorem mergeField_ethSpeedOverride {present : Bool} {o : Overridable UInt32} (t : FwTable) :
    mergeField present o .setEthSpeedOverride t =
      { t with
        ethPropertyTable.ethSpeedOverride := o.apply present t.ethPropertyTable.ethSpeedOverride
        ethPropertyTable.hasEthSpeedOverride :=
          t.ethPropertyTable.hasEthSpeedOverride || (present && o.has)
        hasEthPropertyTable := t.hasEthPropertyTable || (present && o.has) } := by
  rw [mergeField, Overridable.apply]
  cases present && o.has <;> simp [FwTable.setEthSpeedOverride]

theorem mergeOverride_eq_overridden {ovr : FwTableOverride} {t : FwTable} :
    mergeOverride ovr t = overridden ovr t := by
  -- every store is a field update that gives back the table if nothing changes
  simp only [mergeOverride, mergeField_softHarvestDramMask, mergeField_ethSpeedOverride,
    mergeField_eq .setTdpLimit (·.chipLimits.tdpLimit) (fun _ => rfl),
    mergeField_eq .setMaxTdpLimit (·.chipLimits.maxTdpLimit) (fun _ => rfl),
    mergeField_eq .setKernelThrottlerStopNopsFreq (·.chipLimits.kernelThrottlerStopNopsFreq)
      (fun _ => rfl),
    mergeField_eq .setKernelThrottlerAtFloorEn (·.featureEnable.kernelThrottlerAtFloorEn)
      (fun _ => rfl),
    mergeField_eq .setGddrThermTripEn (·.featureEnable.gddrThermTripEn) (fun _ => rfl),
    mergeField_eq .setBypassCableFaultDetection (·.featureEnable.bypassCableFaultDetection)
      (fun _ => rfl),
    mergeField_eq .setPci0MaxPcieSpeed (·.pci0PropertyTable.maxPcieSpeed) (fun _ => rfl),
    mergeField_eq .setPci1MaxPcieSpeed (·.pci1PropertyTable.maxPcieSpeed) (fun _ => rfl)]
  simp only [FwTable.setTdpLimit, FwTable.setMaxTdpLimit, FwTable.setKernelThrottlerStopNopsFreq,
    FwTable.setKernelThrottlerAtFloorEn, FwTable.setGddrThermTripEn,
    FwTable.setBypassCableFaultDetection, FwTable.setPci0MaxPcieSpeed,
    FwTable.setPci1MaxPcieSpeed, overridden]

-- ---
-- The state word

def bankState (state : UInt32) (i : BankIdx) : UInt32 := (state &&& stateMask i) >>> stateShift i

section

variable {data : BhFwtableData} {i : BankIdx} {state : BankState}

theorem bankState_set_self :
    bankState (ccfgovrSetBankState data i state).ccfgovrState i = state.toUInt32 := by
  rw [bankState, ccfgovrSetBankState, insertField_and_self]
  cases i <;> cases state <;> decide

theorem bankState_set_other :
    bankState (ccfgovrSetBankState data i state).ccfgovrState i.other =
      bankState data.ccfgovrState i.other := by
  rw [bankState, ccfgovrSetBankState, insertField_and_disjoint (by cases i <;> decide), bankState]

theorem bankState_hasOverrides {s : UInt32} :
    bankState (s ||| stateHasOverrides) i = bankState s i := by
  have hmask : stateHasOverrides &&& stateMask i = 0 := by cases i <;> decide
  rw [bankState, or_and_of_disjoint hmask, bankState]

end

-- ---
-- The loop over the candidates

section

variable (crc32IeeeUpdate : UInt32 → List UInt8 → UInt32)
  (decode : List UInt8 → Option FwTableOverride) (f : Flash) (reads : BankIdx → BankReads)
  (banks : BankIdx → CcfgovrBankInfo)

/-- One round of the loop: `none` if the bank fails, otherwise what its body
decodes to (nothing for an empty body). -/
def tryBank (i : BankIdx) : Option (Option FwTableOverride) :=
  match ccfgovrLoadAndVerifyBody crc32IeeeUpdate f (reads i) (banks i) with
  | none => none
  | some body => if (banks i).hdr.bodyLen == 0 then some none else (decode body).map some

def tableAfter (t : FwTable) : Option FwTableOverride → FwTable
  | none => t
  | some ovr => mergeOverride ovr t

def applyBank (i : BankIdx) (data : BhFwtableData) (body : Option FwTableOverride) :
    BhFwtableData :=
  let state := (ccfgovrSetBankState data i .applied).ccfgovrState
  ⟨tableAfter data.fwTable body, if body.isSome then state ||| stateHasOverrides else state,
    (banks i).hdr.seq⟩

variable {crc32IeeeUpdate decode f reads banks} {data : BhFwtableData}

theorem tryBanks_cons {i : BankIdx} {rest : List BankIdx} :
    tryBanks crc32IeeeUpdate decode f reads banks (i :: rest) data =
      match tryBank crc32IeeeUpdate decode f reads banks i with
      | none => tryBanks crc32IeeeUpdate decode f reads banks rest
          (ccfgovrSetBankState data i .rejected)
      | some body => applyBank banks i data body := by
  rw [tryBanks, tryBank]
  cases ccfgovrLoadAndVerifyBody crc32IeeeUpdate f (reads i) (banks i) with
  | none => rfl
  | some body =>
    cases (banks i).hdr.bodyLen == 0 with
    | true => rfl
    | false =>
      simp only [Bool.false_eq_true, if_false]
      cases decode body <;> rfl

theorem bankState_applyBank {i j : BankIdx} {body : Option FwTableOverride} :
    bankState (applyBank banks i data body).ccfgovrState j =
      if j = i then BankState.applied.toUInt32 else bankState data.ccfgovrState j := by
  have hstate : bankState (applyBank banks i data body).ccfgovrState j =
      bankState (ccfgovrSetBankState data i .applied).ccfgovrState j := by
    cases body with
    | none => rfl
    | some ovr => exact bankState_hasOverrides
  rw [hstate]
  rcases BankIdx.eq_or_eq_other i j with rfl | rfl
  · rw [if_pos rfl, bankState_set_self]
  · rw [if_neg BankIdx.other_ne, bankState_set_other]

/-- The loop applies the first candidate that verifies, marks the ones before it
as rejected and leaves the others as they were. -/
theorem tryBanks_spec {order : List BankIdx} (hnodup : order.Nodup) :
    let verifies := fun i => (tryBank crc32IeeeUpdate decode f reads banks i).isSome
    let after := tryBanks crc32IeeeUpdate decode f reads banks order data
    (after.fwTable = match order.find? verifies with
      | none => data.fwTable
      | some i => ((tryBank crc32IeeeUpdate decode f reads banks i).map
          (tableAfter data.fwTable)).getD data.fwTable) ∧
    after.ccfgovrSeq = ((order.find? verifies).map fun i => (banks i).hdr.seq).getD
      data.ccfgovrSeq ∧
    ∀ j, bankState after.ccfgovrState j =
      if order.find? verifies = some j then BankState.applied.toUInt32
      else if j ∈ order.takeWhile (fun i => !verifies i) then BankState.rejected.toUInt32
      else bankState data.ccfgovrState j := by
  induction order generalizing data with
  | nil => exact ⟨rfl, rfl, fun _ => rfl⟩
  | cons i rest ih =>
    obtain ⟨hi, hrest⟩ := List.nodup_cons.mp hnodup
    simp only [tryBanks_cons, List.find?_cons, List.takeWhile_cons]
    cases htry : tryBank crc32IeeeUpdate decode f reads banks i with
    | some body =>
      refine ⟨?_, rfl, fun j => ?_⟩
      · simp only [Option.isSome_some, htry]
        rfl
      rw [bankState_applyBank]
      by_cases hj : j = i
      · simp [hj]
      · simp [hj, Ne.symm hj]
    | none =>
      obtain ⟨htable, hseq, hstate⟩ := @ih (ccfgovrSetBankState data i .rejected) hrest
      refine ⟨htable, hseq, fun j => ?_⟩
      simp only [Option.isSome_none, Bool.not_false, if_true, List.mem_cons]
      rw [hstate j]
      rcases BankIdx.eq_or_eq_other i j with rfl | rfl
      · -- the bank just rejected does not come again
        have hfound : List.find? (fun i => (tryBank crc32IeeeUpdate decode f reads banks i).isSome)
            rest ≠ some j := fun h => hi (List.mem_of_find?_eq_some h)
        have htaken : j ∉ rest.takeWhile fun i =>
            !(tryBank crc32IeeeUpdate decode f reads banks i).isSome :=
          fun h => hi (List.takeWhile_sublist _ |>.mem h)
        rw [if_neg hfound, if_neg htaken, if_neg hfound, if_pos (.inl rfl), bankState_set_self]
      · simp only [BankIdx.other_ne, false_or, bankState_set_other]

end

-- ---
-- The whole call

section

variable (crc32IeeeUpdate : UInt32 → List UInt8 → UInt32)
  (decode : List UInt8 → Option FwTableOverride) (ready : Bool) (f : Flash)
  (reads : BankIdx → BankReads)

def bankInfo (i : BankIdx) : CcfgovrBankInfo := ccfgovrReadHeader ready f (reads i) (ccfgovrTag i)

def headerOk (i : BankIdx) : Bool := (bankInfo ready f reads i).headerValid

def bodyOf (i : BankIdx) : List UInt8 :=
  Flash.read f ((bankInfo ready f reads i).spiAddr + UInt32.ofNat ccfgovrHdrSize).toNat
    (bankInfo ready f reads i).hdr.bodyLen.toNat

/-- Bank `i` is fit to be applied: a plausible header, a readable body, the CRC, and a body that
is empty or decodes. -/
def qualifies (i : BankIdx) : Bool :=
  let hdr := (bankInfo ready f reads i).hdr
  let body := bodyOf ready f reads i
  headerOk ready f reads i && (hdr.bodyLen == 0 || (reads i).body) &&
    crc32IeeeUpdate (crc32IeeeUpdate 0 hdr.beforeCksum) body == hdr.cksum &&
    (hdr.bodyLen == 0 || (decode body).isSome)

def tryOrder : List BankIdx :=
  let ahead := ((bankInfo ready f reads .b).hdr.seq - (bankInfo ready f reads .a).hdr.seq).toNat
  if headerOk ready f reads .a ∧ headerOk ready f reads .b ∧ 0 < ahead ∧ ahead < 2 ^ 31 then
    [.b, .a]
  else [.a, .b]

def chosenBank : Option BankIdx :=
  (tryOrder ready f reads).find? (qualifies crc32IeeeUpdate decode ready f reads)

/-- Bank `i` gets its turn: it is plausible and the one before it, if any, is
not fit to be applied. -/
def Tried (i : BankIdx) : Prop :=
  headerOk ready f reads i = true ∧ ((tryOrder ready f reads).head? = some i ∨
    qualifies crc32IeeeUpdate decode ready f reads i.other = false)

/-- What the call is to do, in terms of the bank to be applied. -/
structure Merged (before after : BhFwtableData) : Prop where
  table : after.fwTable = match chosenBank crc32IeeeUpdate decode ready f reads with
    | none => before.fwTable
    | some i =>
      if (bankInfo ready f reads i).hdr.bodyLen = 0 then before.fwTable
      else ((decode (bodyOf ready f reads i)).map (overridden · before.fwTable)).getD before.fwTable
  seq : after.ccfgovrSeq = ((chosenBank crc32IeeeUpdate decode ready f reads).map
    fun i => (bankInfo ready f reads i).hdr.seq).getD 0
  applied_iff : ∀ i, bankState after.ccfgovrState i = BankState.applied.toUInt32 ↔
    chosenBank crc32IeeeUpdate decode ready f reads = some i
  at_most_one : ∀ i, bankState after.ccfgovrState i = BankState.applied.toUInt32 →
    bankState after.ccfgovrState i.other ≠ BankState.applied.toUInt32
  empty_iff : ∀ i, bankState after.ccfgovrState i = BankState.empty.toUInt32 ↔
    headerOk ready f reads i = false
  rejected_iff : ∀ i, bankState after.ccfgovrState i = BankState.rejected.toUInt32 ↔
    Tried crc32IeeeUpdate decode ready f reads i ∧
      qualifies crc32IeeeUpdate decode ready f reads i = false
  standby_iff : ∀ i, bankState after.ccfgovrState i = BankState.standby.toUInt32 ↔
    headerOk ready f reads i = true ∧ ¬ Tried crc32IeeeUpdate decode ready f reads i

variable {crc32IeeeUpdate decode ready f reads} {i : BankIdx}

theorem headerOk_hdr :
    headerOk ready f reads i = true →
      ccfgovrHeaderIsPlausible (bankInfo ready f reads i).hdr = true := by
  unfold headerOk bankInfo ccfgovrReadHeader
  split
  · simp
  · split
    · simp
    · split
      · simp
      · exact id

theorem load_eq (h : headerOk ready f reads i = true) :
    ccfgovrLoadAndVerifyBody crc32IeeeUpdate f (reads i) (bankInfo ready f reads i) =
      let hdr := (bankInfo ready f reads i).hdr
      let body := bodyOf ready f reads i
      if (hdr.bodyLen == 0 || (reads i).body) &&
          crc32IeeeUpdate (crc32IeeeUpdate 0 hdr.beforeCksum) body == hdr.cksum then some body
      else none := by
  have hlen : ¬ (bankInfo ready f reads i).hdr.bodyLen.toNat > ccfgovrDecodeBodyMax := by
    have := headerOk_hdr h
    simp only [ccfgovrHeaderIsPlausible, Bool.and_eq_true, decide_eq_true_eq] at this
    omega
  have hzero : ∀ len : UInt32, decide (len.toNat > 0) = !(len == 0) := by
    intro len
    rw [Bool.eq_iff_iff]
    simp [← UInt32.toNat_inj, Nat.pos_iff_ne_zero]
  simp only [ccfgovrLoadAndVerifyBody, if_neg hlen, hzero, bodyOf]
  cases (bankInfo ready f reads i).hdr.bodyLen == 0 <;> cases (reads i).body <;>
    simp

theorem qualifies_eq : qualifies crc32IeeeUpdate decode ready f reads i =
    (headerOk ready f reads i &&
      (tryBank crc32IeeeUpdate decode f reads (bankInfo ready f reads) i).isSome) := by
  cases hheader : headerOk ready f reads i with
  | false => simp [qualifies, hheader]
  | true =>
    simp only [qualifies, hheader, Bool.true_and, tryBank, load_eq hheader]
    split
    · rename_i hnone
      split at hnone
      · simp at hnone
      · rename_i hfail
        rw [Bool.not_eq_true] at hfail
        simp [hfail]
    · rename_i body hsome
      split at hsome
      · rename_i hpass
        obtain rfl := Option.some.inj hsome
        rw [hpass, Bool.true_and]
        cases (bankInfo ready f reads i).hdr.bodyLen == 0 <;> simp
      · simp at hsome

def firstBank (ready : Bool) (f : Flash) (reads : BankIdx → BankReads) : BankIdx :=
  preferred (headerOk ready f reads) fun i => (bankInfo ready f reads i).hdr.seq

theorem tryOrder_eq :
    tryOrder ready f reads = [firstBank ready f reads, (firstBank ready f reads).other] := by
  simp only [tryOrder, firstBank, preferred, seqIsNewer_iff]
  split <;> rfl

theorem chosenBank_eq_some :
    chosenBank crc32IeeeUpdate decode ready f reads = some i ↔
      qualifies crc32IeeeUpdate decode ready f reads i = true ∧
        (i = firstBank ready f reads ∨
          qualifies crc32IeeeUpdate decode ready f reads i.other = false) := by
  rw [chosenBank, tryOrder_eq]
  exact find?_pair_eq_some

theorem tried_iff : Tried crc32IeeeUpdate decode ready f reads i ↔
    headerOk ready f reads i = true ∧ (i = firstBank ready f reads ∨
      qualifies crc32IeeeUpdate decode ready f reads i.other = false) := by
  rw [Tried, tryOrder_eq, List.head?_cons, Option.some.injEq, eq_comm (a := i)]

theorem bankState_standby {valid : BankIdx → Bool} {t : FwTable} {j : BankIdx} :
    let after := ([BankIdx.a, .b].filter valid).foldl
      (fun data i => ccfgovrSetBankState data i .standby) ⟨t, 0, 0⟩
    after.fwTable = t ∧ after.ccfgovrSeq = 0 ∧ bankState after.ccfgovrState j =
      if valid j then BankState.standby.toUInt32 else BankState.empty.toUInt32 := by
  have hzero : ∀ i, bankState 0 i = BankState.empty.toUInt32 := by
    intro i
    cases i <;> decide
  have hab : ∀ data : BhFwtableData, bankState (ccfgovrSetBankState data .b .standby).ccfgovrState
      .a = bankState data.ccfgovrState .a := fun _ => bankState_set_other
  have hba : ∀ data : BhFwtableData, bankState (ccfgovrSetBankState data .a .standby).ccfgovrState
      .b = bankState data.ccfgovrState .b := fun _ => bankState_set_other
  cases ha : valid .a <;> cases hb : valid .b <;> refine ⟨?_, ?_, ?_⟩ <;>
    first
      | simp [ha, hb, ccfgovrSetBankState]; done
      | cases j <;> simp [ha, hb, hzero, hab, hba, bankState_set_self]

theorem mem_rejected {j : BankIdx} :
    j ∈ (newestFirst (headerOk ready f reads) fun i =>
      (bankInfo ready f reads i).hdr.seq).takeWhile (fun i =>
        !(tryBank crc32IeeeUpdate decode f reads (bankInfo ready f reads) i).isSome) ↔
    Tried crc32IeeeUpdate decode ready f reads j ∧
      qualifies crc32IeeeUpdate decode ready f reads j = false := by
  rw [newestFirst_eq, mem_takeWhile_pair, tried_iff, ← qualifies_eq]
  refine and_congr_right fun ⟨hheader, _⟩ => ?_
  rw [qualifies_eq, hheader, Bool.true_and]

theorem find?_verifies : (newestFirst (headerOk ready f reads) fun i =>
      (bankInfo ready f reads i).hdr.seq).find? (fun i =>
        (tryBank crc32IeeeUpdate decode f reads (bankInfo ready f reads) i).isSome) =
    chosenBank crc32IeeeUpdate decode ready f reads := by
  rw [newestFirst_eq, List.find?_filter, chosenBank, tryOrder_eq]
  refine congrArg (List.find? · _) (funext fun i => ?_)
  rw [qualifies_eq]
  simp

theorem tableAfter_of_qualifies {t : FwTable}
    (h : qualifies crc32IeeeUpdate decode ready f reads i = true) :
    ((tryBank crc32IeeeUpdate decode f reads (bankInfo ready f reads) i).map
        (tableAfter t)).getD t =
      if (bankInfo ready f reads i).hdr.bodyLen = 0 then t
      else ((decode (bodyOf ready f reads i)).map (overridden · t)).getD t := by
  simp only [qualifies, Bool.and_eq_true] at h
  obtain ⟨⟨⟨hheader, hread⟩, hcrc⟩, -⟩ := h
  simp only [tryBank, load_eq hheader, hread, hcrc, Bool.and_true, if_true]
  by_cases hlen : (bankInfo ready f reads i).hdr.bodyLen = 0
  · simp [hlen, tableAfter]
  · simp only [beq_iff_eq, hlen, if_false]
    cases decode (bodyOf ready f reads i) with
    | none => rfl
    | some ovr => exact mergeOverride_eq_overridden

theorem headerOk_of_qualifies (h : qualifies crc32IeeeUpdate decode ready f reads i = true) :
    headerOk ready f reads i = true := by
  rw [qualifies_eq, Bool.and_eq_true] at h
  exact h.1

theorem chosenBank_iff_tried :
    chosenBank crc32IeeeUpdate decode ready f reads = some i ↔
      Tried crc32IeeeUpdate decode ready f reads i ∧
        qualifies crc32IeeeUpdate decode ready f reads i = true := by
  rw [chosenBank_eq_some, tried_iff]
  constructor
  · rintro ⟨hfit, hturn⟩
    exact ⟨⟨headerOk_of_qualifies hfit, hturn⟩, hfit⟩
  · rintro ⟨⟨-, hturn⟩, hfit⟩
    exact ⟨hfit, hturn⟩

instance {i : BankIdx} : Decidable (Tried crc32IeeeUpdate decode ready f reads i) :=
  inferInstanceAs (Decidable (_ ∧ _))

def stateAfter (crc32IeeeUpdate : UInt32 → List UInt8 → UInt32)
    (decode : List UInt8 → Option FwTableOverride) (ready : Bool) (f : Flash)
    (reads : BankIdx → BankReads) (i : BankIdx) : BankState :=
  if Tried crc32IeeeUpdate decode ready f reads i then
    if qualifies crc32IeeeUpdate decode ready f reads i then .applied else .rejected
  else if headerOk ready f reads i then .standby else .empty

theorem apply_spec {data : BhFwtableData} :
    let after := ttBhFwtableApplyCcfgovr crc32IeeeUpdate decode ready f reads data
    let chosen := chosenBank crc32IeeeUpdate decode ready f reads
    (after.fwTable = match chosen with
      | none => data.fwTable
      | some i => ((tryBank crc32IeeeUpdate decode f reads (bankInfo ready f reads) i).map
          (tableAfter data.fwTable)).getD data.fwTable) ∧
    after.ccfgovrSeq = (chosen.map fun i => (bankInfo ready f reads i).hdr.seq).getD 0 ∧
    ∀ j, bankState after.ccfgovrState j =
      (stateAfter crc32IeeeUpdate decode ready f reads j).toUInt32 := by
  have hnodup : (newestFirst (headerOk ready f reads) fun i =>
      (bankInfo ready f reads i).hdr.seq).Nodup := by
    rw [newestFirst_eq]
    apply List.Pairwise.filter
    simp [Ne.symm BankIdx.other_ne]
  have hmarked := fun j => @bankState_standby (headerOk ready f reads) data.fwTable j
  obtain ⟨htable, hseq, hstate⟩ := @tryBanks_spec crc32IeeeUpdate decode f reads
    (bankInfo ready f reads) (([BankIdx.a, .b].filter (headerOk ready f reads)).foldl
      (fun data i => ccfgovrSetBankState data i .standby) ⟨data.fwTable, 0, 0⟩) _ hnodup
  rw [find?_verifies, (hmarked .a).1] at htable
  rw [find?_verifies, (hmarked .a).2.1] at hseq
  refine ⟨htable, hseq, fun j => ?_⟩
  have hj := hstate j
  simp only [find?_verifies, (hmarked j).2.2, chosenBank_iff_tried, mem_rejected] at hj
  refine hj.trans ?_
  rw [stateAfter]
  by_cases htried : Tried crc32IeeeUpdate decode ready f reads j
  · cases qualifies crc32IeeeUpdate decode ready f reads j <;> simp [htried]
  · cases headerOk ready f reads j <;> simp [htried]

theorem BankState.toUInt32_inj {a b : BankState} : a.toUInt32 = b.toUInt32 ↔ a = b := by
  cases a <;> cases b <;> decide

/-- **Bank selection and merge.** For every flash content, every pattern of
failing reads and every table before. -/
theorem applyCcfgovr_merged {data : BhFwtableData} :
    Merged crc32IeeeUpdate decode ready f reads data
      (ttBhFwtableApplyCcfgovr crc32IeeeUpdate decode ready f reads data) := by
  obtain ⟨htable, hseq, hstate⟩ := @apply_spec crc32IeeeUpdate decode ready f reads data
  have happlied : ∀ i, stateAfter crc32IeeeUpdate decode ready f reads i = .applied ↔
      chosenBank crc32IeeeUpdate decode ready f reads = some i := by
    intro i
    rw [chosenBank_iff_tried, stateAfter]
    split_ifs <;> simp_all
  constructor
  case table =>
    rw [htable]
    cases hchosen : chosenBank crc32IeeeUpdate decode ready f reads with
    | none => rfl
    | some i => exact tableAfter_of_qualifies (chosenBank_iff_tried.mp hchosen).2
  case seq => exact hseq
  all_goals
    intro i
    simp only [hstate, BankState.toUInt32_inj, ne_eq]
  case applied_iff => exact happlied i
  case at_most_one =>
    rw [happlied, happlied]
    intro hi hother
    exact BankIdx.other_ne (Option.some.inj (hother.symm.trans hi))
  case empty_iff =>
    rw [stateAfter]
    split_ifs <;> simp_all [Tried]
  case rejected_iff =>
    rw [stateAfter]
    split_ifs <;> simp_all
  case standby_iff =>
    rw [stateAfter]
    split_ifs <;> simp_all

end

end SystemFirmware.BhFwtable
