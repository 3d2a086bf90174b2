import SystemFirmware.CcfgovrUtils.Definitions
import SystemFirmware.Lib.Protobuf

/-!
# CcfgovrUtils — the tool and the firmware agree

What the tool writes to a bank is what the firmware reads from it.

The decoder of the firmware is nanopb, which is not part of this repository. What is assumed of it
is the wire format (`DecodesMessages`): a message of the known fields, encoded as records in any
order and followed by the end or by a tag of zero, is decoded to that message. `decodeOverride`
shows that there is a decoder of that kind (`decodeOverride_decodes`).

* `encodeProto_eq` — the records that the tool writes,
* `tool_and_firmware_agree` — the header, the CRC and the decoded message.
-/

namespace SystemFirmware.CcfgovrUtils

open Lib BhFwtable

-- ---
-- The wire format

theorem setHighBit : ∀ n < 128, UInt8.ofNat n ||| 0x80 = UInt8.ofNat (n + 128) := by
  decide

theorem varintLoop_eq (value : ℕ) (out : List UInt8) :
    varintLoop value out = out ++ leb128 value := by
  have hlow : value &&& 0x7F = value % 128 := Nat.and_two_pow_sub_one_eq_mod value 7
  have hhigh : value >>> 7 = value / 128 := Nat.shiftRight_eq_div_pow value 7
  rw [varintLoop, hlow, hhigh]
  by_cases hsmall : value < 128
  · rw [if_neg (by omega), leb128_of_lt hsmall, Nat.mod_eq_of_lt hsmall]
  · rw [if_pos (by omega), varintLoop_eq (value / 128), leb128_of_ge hsmall,
      setHighBit _ (Nat.mod_lt _ (by decide)), List.append_assoc, List.singleton_append]
termination_by value
decreasing_by omega

theorem varint_eq (value : ℕ) : varint value = leb128 value := by
  rw [varint, varintLoop_eq, List.nil_append]

def leafRecord (item : Path × ℕ) : ℕ × Wire := (item.1.fields.2, .varint item.2)

theorem encodeLeaf_eq (item : Path × ℕ) : encodeLeaf item = encodeRecord (leafRecord item) := by
  have hkey : item.1.fields.2 <<< 3 = 8 * item.1.fields.2 := by
    rw [Nat.shiftLeft_eq, Nat.mul_comm]
  rw [encodeLeaf, varint_eq, varint_eq, hkey]
  rfl

theorem encodeTop_eq (top : ℕ) (sub : List UInt8) :
    encodeTop (top, sub) = encodeRecord (top, .delimited sub) := by
  have hkey : (top <<< 3) ||| 2 = 8 * top + 2 := by
    rw [← Nat.shiftLeft_add_eq_or_of_lt (show 2 < 2 ^ 3 by decide), Nat.shiftLeft_eq, Nat.mul_comm]
  rw [encodeTop, varint_eq, varint_eq, hkey, List.append_assoc]
  rfl

def sortedGroups (overrides : Overrides) : List (ℕ × List (Path × ℕ)) :=
  (collect (fun item => item.1.fields.1) (fun item => [item]) overrides.items).insertionSort
    fun a b => a.1 ≤ b.1

def topRecord (group : ℕ × List (Path × ℕ)) : ℕ × Wire :=
  (group.1, .delimited (encodeRecords (group.2.map leafRecord)))

theorem sortedGroups_grouped (overrides : Overrides) :
    Grouped (fun item => item.1.fields.1) overrides.items (sortedGroups overrides) :=
  (collect_grouped _ _).of_perm (List.perm_insertionSort _ _)

theorem encodeProto_eq (overrides : Overrides) :
    encodeProto overrides = encodeRecords ((sortedGroups overrides).map topRecord) := by
  have hsort := List.map_insertionSort (fun a b : ℕ × List (Path × ℕ) => a.1 ≤ b.1)
    (fun a b : ℕ × List UInt8 => a.1 ≤ b.1) (fun g => (g.1, g.2.flatMap encodeLeaf))
    (collect (fun item => item.1.fields.1) (fun item => [item]) overrides.items)
    fun a _ b _ => Iff.rfl
  rw [encodeProto, collect_map, ← hsort, encodeRecords, List.flatMap_map, List.flatMap_map]
  refine List.flatMap_congr fun group _ => ?_
  have hleaf : group.2.flatMap encodeLeaf = encodeRecords (group.2.map leafRecord) := by
    rw [encodeRecords, List.flatMap_map]
    exact List.flatMap_congr fun item _ => encodeLeaf_eq item
  rw [hleaf, encodeTop_eq]
  rfl

theorem frame_eq (proto : List UInt8) :
    ∃ tail, frame proto = proto ++ tail ∧ MessageEnd true tail := by
  rw [frame]
  split
  next hnil => exact ⟨[], by rw [hnil]; rfl, .eof true⟩
  next => exact ⟨_, by rw [List.append_assoc]; rfl, .zeroTag _⟩

theorem length_frame (proto : List UInt8) : (frame proto).length % 4 = 0 := by
  rw [frame]
  split
  · rfl
  · dsimp only
    rw [List.length_append, List.length_replicate]
    omega

-- ---
-- Fields of the message

def Path.InRange : Path → ℕ → Prop
  | kernelThrottlerAtFloorEn, value => value ≤ 1
  | gddrThermTripEn, value => value ≤ 1
  | bypassCableFaultDetection, value => value ≤ 1
  | _, value => value < 2 ^ 32

def given {α : Type} (toNat : α → ℕ) (o : Overridable α) : Option ℕ :=
  if o.has then some (toNat o.value) else none

def Path.field : Path → FwTableOverride → Option ℕ
  | tdpLimit, m => given UInt32.toNat m.chipLimits.tdpLimit
  | maxTdpLimit, m => given UInt32.toNat m.chipLimits.maxTdpLimit
  | kernelThrottlerStopNopsFreq, m => given UInt32.toNat m.chipLimits.kernelThrottlerStopNopsFreq
  | kernelThrottlerAtFloorEn, m => given Bool.toNat m.featureEnable.kernelThrottlerAtFloorEn
  | gddrThermTripEn, m => given Bool.toNat m.featureEnable.gddrThermTripEn
  | bypassCableFaultDetection, m => given Bool.toNat m.featureEnable.bypassCableFaultDetection
  | softHarvestDramMask, m => given UInt32.toNat m.dramTable.softHarvestDramMask
  | pci0MaxPcieSpeed, m => given UInt32.toNat m.pci0PropertyTable.maxPcieSpeed
  | pci1MaxPcieSpeed, m => given UInt32.toNat m.pci1PropertyTable.maxPcieSpeed
  | ethSpeedOverride, m => given UInt32.toNat m.ethPropertyTable.ethSpeedOverride

inductive Submessage
  | chipLimits
  | featureEnable
  | dramTable
  | pci0PropertyTable
  | pci1PropertyTable
  | ethPropertyTable

def Path.submessage : Path → Submessage
  | tdpLimit => .chipLimits
  | maxTdpLimit => .chipLimits
  | kernelThrottlerStopNopsFreq => .chipLimits
  | kernelThrottlerAtFloorEn => .featureEnable
  | gddrThermTripEn => .featureEnable
  | bypassCableFaultDetection => .featureEnable
  | softHarvestDramMask => .dramTable
  | pci0MaxPcieSpeed => .pci0PropertyTable
  | pci1MaxPcieSpeed => .pci1PropertyTable
  | ethSpeedOverride => .ethPropertyTable

namespace Submessage

def has : Submessage → FwTableOverride → Bool
  | chipLimits, m => m.hasChipLimits
  | featureEnable, m => m.hasFeatureEnable
  | dramTable, m => m.hasDramTable
  | pci0PropertyTable, m => m.hasPci0PropertyTable
  | pci1PropertyTable, m => m.hasPci1PropertyTable
  | ethPropertyTable, m => m.hasEthPropertyTable

def number : Submessage → ℕ
  | chipLimits => 2
  | featureEnable => 3
  | dramTable => 5
  | pci0PropertyTable => 7
  | pci1PropertyTable => 8
  | ethPropertyTable => 9

theorem number_inj {s s' : Submessage} (h : s.number = s'.number) : s = s' := by
  cases s <;> cases s' <;> first | rfl | exact absurd h (by decide)

theorem number_bounds (s : Submessage) : 0 < s.number ∧ s.number ≤ 9 := by
  cases s <;> decide

end Submessage

def Path.get (path : Path) (m : FwTableOverride) : Option ℕ :=
  if path.submessage.has m then path.field m else none

def present {α : Type} (value : α) : Overridable α := ⟨true, value⟩

def Path.store : Path → ℕ → FwTableOverride → FwTableOverride
  | tdpLimit, v, m => { m with chipLimits.tdpLimit := present (.ofNat v) }
  | maxTdpLimit, v, m => { m with chipLimits.maxTdpLimit := present (.ofNat v) }
  | kernelThrottlerStopNopsFreq, v, m =>
    { m with chipLimits.kernelThrottlerStopNopsFreq := present (.ofNat v) }
  | kernelThrottlerAtFloorEn, v, m =>
    { m with featureEnable.kernelThrottlerAtFloorEn := present (v != 0) }
  | gddrThermTripEn, v, m => { m with featureEnable.gddrThermTripEn := present (v != 0) }
  | bypassCableFaultDetection, v, m =>
    { m with featureEnable.bypassCableFaultDetection := present (v != 0) }
  | softHarvestDramMask, v, m => { m with dramTable.softHarvestDramMask := present (.ofNat v) }
  | pci0MaxPcieSpeed, v, m => { m with pci0PropertyTable := ⟨present (.ofNat v)⟩ }
  | pci1MaxPcieSpeed, v, m => { m with pci1PropertyTable := ⟨present (.ofNat v)⟩ }
  | ethSpeedOverride, v, m => { m with ethPropertyTable.ethSpeedOverride := present (.ofNat v) }

theorem Path.fields_fst (path : Path) : path.fields.1 = path.submessage.number := by
  cases path <;> rfl

variable {path : Path} {v : ℕ}

theorem Path.InRange.lt (h : path.InRange v) : v < 2 ^ 32 := by
  cases path <;> simp only [Path.InRange] at h <;> omega

theorem Path.fields_snd_bounds (path : Path) : 0 < path.fields.2 ∧ path.fields.2 ≤ 17 := by
  cases path <;> decide

def update (path : Path) (value : Option ℕ) (item : Path × ℕ) : Option ℕ :=
  if item.1 = path then some item.2 else value

variable {item : Path × ℕ}

theorem Path.field_store (hitem : item.1.InRange item.2) (path : Path) (m : FwTableOverride) :
    path.field (item.1.store item.2 m) = update path (path.field m) item := by
  obtain ⟨q, v⟩ := item
  have hword : v < 2 ^ 32 → some (UInt32.ofNat v).toNat = some v := by
    intro h
    rw [UInt32.toNat_ofNat', Nat.mod_eq_of_lt h]
  have hbool : v ≤ 1 → some (v != 0).toNat = some v := by
    intro h
    obtain rfl | rfl := Nat.le_one_iff_eq_zero_or_eq_one.mp h <;> rfl
  rw [update]
  split
  next heq =>
    obtain rfl : q = path := heq
    cases q with
    | kernelThrottlerAtFloorEn => exact hbool hitem
    | gddrThermTripEn => exact hbool hitem
    | bypassCableFaultDetection => exact hbool hitem
    | _ => exact hword hitem
  next hne =>
    cases q <;> cases path <;> first | rfl | exact absurd rfl hne

theorem Submessage.has_store (s : Submessage) (path : Path) (v : ℕ) (m : FwTableOverride) :
    s.has (path.store v m) = s.has m := by
  cases s <;> cases path <;> rfl

-- ---
-- The message that is decoded

structure GroupOk (group : ℕ × List (Path × ℕ)) : Prop where
  submessage : ∃ s : Submessage, group.1 = s.number ∧ ∀ item ∈ group.2, item.1.submessage = s
  inRange : ∀ item ∈ group.2, item.1.InRange item.2

variable {items : List (Path × ℕ)}

theorem foldl_store (h : ∀ item ∈ items, item.1.InRange item.2) (m : FwTableOverride) :
    (∀ path : Path, path.field (items.foldl (fun m item => item.1.store item.2 m) m) =
      items.foldl (update path) (path.field m)) ∧
    ∀ s : Submessage, s.has (items.foldl (fun m item => item.1.store item.2 m) m) = s.has m := by
  induction items generalizing m with
  | nil => exact ⟨fun path => rfl, fun s => rfl⟩
  | cons item items ih =>
    obtain ⟨hfield, hhas⟩ :=
      ih (fun i hi => h i (List.mem_cons_of_mem _ hi)) (item.1.store item.2 m)
    constructor
    · intro path
      rw [List.foldl_cons, hfield, Path.field_store (h item List.mem_cons_self), List.foldl_cons]
    · intro s
      rw [List.foldl_cons, hhas, Submessage.has_store]

theorem foldl_update_eq_some (h : (items.map Prod.fst).Nodup) (value : Option ℕ) :
    items.foldl (update path) value = some v ↔
      (path, v) ∈ items ∨ path ∉ items.map Prod.fst ∧ value = some v := by
  induction items generalizing value with
  | nil => simp
  | cons item items ih =>
    obtain ⟨q, w⟩ := item
    rw [List.map_cons, List.nodup_cons] at h
    rw [List.foldl_cons, ih h.2, update]
    by_cases hq : q = path
    · -- no later item has the path
      obtain rfl : q = path := hq
      have hlater : (q, v) ∉ items := fun hmem => h.1 (List.mem_map.mpr ⟨_, hmem, rfl⟩)
      rw [if_pos rfl]
      simp [hlater, h.1, eq_comm]
    · rw [if_neg hq]
      simp [Ne.symm hq]

variable {overrides : Overrides} {group : ℕ × List (Path × ℕ)}

theorem sortedGroups_ok (h : ∀ item ∈ overrides.items, item.1.InRange item.2)
    (hgroup : group ∈ sortedGroups overrides) : GroupOk group := by
  have hgrouped := sortedGroups_grouped overrides
  obtain ⟨first, rest, hitems⟩ := List.exists_cons_of_ne_nil (hgrouped.ne_nil group hgroup)
  have hnumber : ∀ item ∈ group.2, item.1.submessage.number = group.1 := by
    intro item hitem
    rw [← Path.fields_fst]
    exact hgrouped.key_eq group hgroup item hitem
  have hfirst : first ∈ group.2 := by
    rw [hitems]
    exact List.mem_cons_self
  refine ⟨⟨first.1.submessage, (hnumber first hfirst).symm, ?_⟩, ?_⟩
  · intro item hitem
    exact Submessage.number_inj ((hnumber item hitem).trans (hnumber first hfirst).symm)
  · intro item hitem
    exact h item (hgrouped.perm.mem_iff.mp (List.mem_flatMap.mpr ⟨group, hgroup, hitem⟩))

theorem topRecord_ok (h : GroupOk group)
    (hlen : (encodeRecord (topRecord group)).length ≤ ccfgovrDecodeBodyMax) :
    RecordOk (topRecord group) := by
  obtain ⟨s, hnumber, -⟩ := h.submessage
  obtain ⟨hpos, hle⟩ := s.number_bounds
  rw [topRecord, encodeRecord, List.length_append, List.length_append] at hlen
  refine ⟨?_, ?_, ?_⟩
  · show 0 < group.1
    omega
  · show 8 * group.1 + 7 < 2 ^ 32
    omega
  · show (encodeRecords (group.2.map leafRecord)).length < 2 ^ 32
    simp only [ccfgovrDecodeBodyMax] at hlen
    omega

theorem any_sortedGroups (overrides : Overrides) (s : Submessage) :
    ((sortedGroups overrides).any fun group => group.1 == s.number) = true ↔
      ∃ item ∈ overrides.items, item.1.submessage = s := by
  have hgrouped := sortedGroups_grouped overrides
  rw [List.any_eq_true]
  constructor
  · rintro ⟨group, hgroup, hnumber⟩
    obtain ⟨item, hitem⟩ := List.exists_mem_of_ne_nil _ (hgrouped.ne_nil group hgroup)
    refine ⟨item, hgrouped.perm.mem_iff.mp (List.mem_flatMap.mpr ⟨group, hgroup, hitem⟩), ?_⟩
    apply Submessage.number_inj
    rw [← Path.fields_fst]
    exact (hgrouped.key_eq group hgroup item hitem).trans (beq_iff_eq.mp hnumber)
  · rintro ⟨item, hitem, rfl⟩
    obtain ⟨group, hgroup, hmem⟩ := List.mem_flatMap.mp (hgrouped.perm.mem_iff.mpr hitem)
    refine ⟨group, hgroup, beq_iff_eq.mpr ?_⟩
    rw [← Path.fields_fst]
    exact (hgrouped.key_eq group hgroup item hmem).symm

/-- A message of known fields as records: each submessage is given once, each of its fields once,
and the values are in range. -/
structure MessageOk (groups : List (ℕ × List (Path × ℕ))) : Prop where
  group : ∀ group ∈ groups, GroupOk group
  numbers : (groups.map Prod.fst).Nodup
  paths : ((groups.flatMap Prod.snd).map Prod.fst).Nodup
  length : (encodeRecords (groups.map topRecord)).length ≤ ccfgovrDecodeBodyMax

/-- **What is assumed of the decoder**: the records of a message, up to the end of the body or a tag
of zero, are decoded to the message that has these fields with these values, and no others. -/
def DecodesMessages (decode : List UInt8 → Option FwTableOverride) : Prop :=
  ∀ groups tail, MessageOk groups → MessageEnd true tail →
    ∃ ovr, decode (encodeRecords (groups.map topRecord) ++ tail) = some ovr ∧
      (∀ path v, path.field ovr = some v ↔ (path, v) ∈ groups.flatMap Prod.snd) ∧
      ∀ s : Submessage, s.has ovr = true ↔ ∃ group ∈ groups, group.1 = s.number

theorem sortedGroups_messageOk (hrange : ∀ item ∈ overrides.items, item.1.InRange item.2)
    (hlen : (encodeBody overrides []).length ≤ ccfgovrDecodeBodyMax) :
    MessageOk (sortedGroups overrides) := by
  have hgrouped := sortedGroups_grouped overrides
  obtain ⟨tail, hframe, -⟩ := frame_eq (encodeProto overrides)
  rw [encodeBody, List.append_nil, hframe, encodeProto_eq, List.length_append] at hlen
  exact ⟨fun group hgroup => sortedGroups_ok hrange hgroup, hgrouped.nodup,
    (hgrouped.perm.map Prod.fst).nodup_iff.mpr overrides.nodup, by omega⟩

/-- **The firmware decodes what the tool encoded**: a field is present with a value if and only if
the item was given. -/
theorem decodes_encodeBody {decode : List UInt8 → Option FwTableOverride}
    (hdecode : DecodesMessages decode) (hrange : ∀ item ∈ overrides.items, item.1.InRange item.2)
    (hlen : (encodeBody overrides []).length ≤ ccfgovrDecodeBodyMax) :
    ∃ ovr, decode (encodeBody overrides []) = some ovr ∧
      (∀ path v, path.get ovr = some v ↔ (path, v) ∈ overrides.items) ∧
      ∀ s : Submessage, s.has ovr = true ↔ ∃ item ∈ overrides.items, item.1.submessage = s := by
  have hgrouped := sortedGroups_grouped overrides
  obtain ⟨tail, hframe, hend⟩ := frame_eq (encodeProto overrides)
  obtain ⟨ovr, hrun, hfield, hhas⟩ :=
    hdecode (sortedGroups overrides) tail (sortedGroups_messageOk hrange hlen) hend
  have hvalue : ∀ path v, path.field ovr = some v ↔ (path, v) ∈ overrides.items := by
    intro path v
    rw [hfield, hgrouped.perm.mem_iff]
  have hpresent : ∀ s : Submessage,
      s.has ovr = true ↔ ∃ item ∈ overrides.items, item.1.submessage = s := by
    intro s
    rw [hhas, ← any_sortedGroups, List.any_eq_true]
    simp only [beq_iff_eq]
  refine ⟨ovr, ?_, ?_, hpresent⟩
  · rw [encodeBody, List.append_nil, hframe, encodeProto_eq, hrun]
  · intro path v
    rw [← hvalue, Path.get]
    constructor
    · intro hget
      split at hget
      · exact hget
      · cases hget
    · intro hv
      rw [if_pos ((hpresent _).mpr ⟨(path, v), (hvalue path v).mp hv, rfl⟩)]
      exact hv

-- ---
-- A decoder

def emptyMessage (has : Submessage → Bool) : FwTableOverride where
  hasChipLimits := has .chipLimits
  chipLimits := ⟨⟨false, 0⟩, ⟨false, 0⟩, ⟨false, 0⟩⟩
  hasFeatureEnable := has .featureEnable
  featureEnable := ⟨⟨false, false⟩, ⟨false, false⟩, ⟨false, false⟩⟩
  hasDramTable := has .dramTable
  dramTable := ⟨⟨false, 0⟩⟩
  hasPci0PropertyTable := has .pci0PropertyTable
  pci0PropertyTable := ⟨⟨false, 0⟩⟩
  hasPci1PropertyTable := has .pci1PropertyTable
  pci1PropertyTable := ⟨⟨false, 0⟩⟩
  hasEthPropertyTable := has .ethPropertyTable
  ethPropertyTable := ⟨⟨false, 0⟩⟩

theorem field_empty (path : Path) (has : Submessage → Bool) :
    path.field (emptyMessage has) = none := by
  cases path <;> rfl

theorem has_empty (s : Submessage) (has : Submessage → Bool) : s.has (emptyMessage has) = has s := by
  cases s <;> rfl

def messageOf (groups : List (ℕ × List (Path × ℕ))) : FwTableOverride :=
  (groups.flatMap Prod.snd).foldl (fun m item => item.1.store item.2 m)
    (emptyMessage fun s => groups.any fun group => group.1 == s.number)

def Path.all : List Path :=
  [tdpLimit, maxTdpLimit, kernelThrottlerStopNopsFreq, kernelThrottlerAtFloorEn, gddrThermTripEn,
    bypassCableFaultDetection, softHarvestDramMask, pci0MaxPcieSpeed, pci1MaxPcieSpeed,
    ethSpeedOverride]

def readLeaf (top : ℕ) : ℕ × Wire → Option (Path × ℕ)
  | (number, .varint v) => (Path.all.find? fun path => path.fields = (top, number)).map (·, v)
  | _ => none

def readGroup : ℕ × Wire → Option (ℕ × List (Path × ℕ))
  | (top, .delimited bytes) => do
    let records ← decodeRecords false bytes
    let items ← records.mapM (readLeaf top)
    return (top, items)
  | _ => none

def decodeOverride (body : List UInt8) : Option FwTableOverride := do
  let records ← decodeRecords true body
  let groups ← records.mapM readGroup
  return messageOf groups

theorem readLeaf_leafRecord (item : Path × ℕ) :
    readLeaf item.1.fields.1 (leafRecord item) = some item := by
  have hfind : ∀ path : Path, (Path.all.find? fun q => q.fields = path.fields) = some path := by
    intro path
    cases path <;> rfl
  exact congrArg (Option.map (·, item.2)) (hfind item.1)

theorem readGroup_topRecord (h : GroupOk group) : readGroup (topRecord group) = some group := by
  obtain ⟨s, hnumber, hsub⟩ := h.submessage
  have hrecords : ∀ record ∈ group.2.map leafRecord, RecordOk record := by
    intro record hrecord
    obtain ⟨item, hitem, rfl⟩ := List.mem_map.mp hrecord
    obtain ⟨hpos, hle⟩ := item.1.fields_snd_bounds
    refine ⟨hpos, ?_, ?_⟩
    · show 8 * item.1.fields.2 + 7 < 2 ^ 32
      omega
    · exact Nat.lt_trans (h.inRange item hitem).lt (by decide)
  have hdecode := decodeRecords_encode hrecords (.eof false)
  have hleaves : (group.2.map leafRecord).mapM (readLeaf group.1) = some group.2 := by
    refine mapM_map_of_inverse fun item hitem => ?_
    rw [hnumber, ← hsub item hitem, ← Path.fields_fst, readLeaf_leafRecord]
  rw [List.append_nil] at hdecode
  rw [topRecord, readGroup, hdecode]
  dsimp only [Option.bind_eq_bind, Option.bind_some]
  rw [hleaves]
  rfl

theorem decodeOverride_decodes : DecodesMessages decodeOverride := by
  intro groups tail h hend
  have hrecords : ∀ record ∈ groups.map topRecord, RecordOk record := by
    intro record hrecord
    have hpart := length_encodeRecord_le hrecord
    have hlen := h.length
    obtain ⟨group, hgroup, rfl⟩ := List.mem_map.mp hrecord
    exact topRecord_ok (h.group group hgroup) (by omega)
  have hrange : ∀ item ∈ groups.flatMap Prod.snd, item.1.InRange item.2 := by
    intro item hitem
    obtain ⟨group, hgroup, hmem⟩ := List.mem_flatMap.mp hitem
    exact (h.group group hgroup).inRange item hmem
  obtain ⟨hfield, hhas⟩ := foldl_store hrange
    (emptyMessage fun s => groups.any fun group => group.1 == s.number)
  refine ⟨messageOf groups, ?_, ?_, ?_⟩
  · rw [decodeOverride, decodeRecords_encode hrecords hend]
    dsimp only [Option.bind_eq_bind, Option.bind_some]
    rw [mapM_map_of_inverse fun group hgroup => readGroup_topRecord (h.group group hgroup)]
    rfl
  · intro path v
    rw [messageOf, hfield, field_empty, foldl_update_eq_some h.paths]
    simp
  · intro s
    rw [messageOf, hhas, has_empty, List.any_eq_true]
    simp only [beq_iff_eq]

-- ---
-- The bank

/-- The flash holds the bytes at the address. -/
structure Holds (f : Flash) (spiAddr : UInt32) (bytes : List UInt8) : Prop where
  fits : spiAddr.toNat + bytes.length ≤ 2 ^ 32
  read : Flash.read f spiAddr.toNat bytes.length = bytes

theorem crc32Ieee_append (crc : UInt32) (first rest : List UInt8) :
    crc32Ieee (crc32Ieee crc first) rest = crc32Ieee crc (first ++ rest) := by
  rw [crc32Ieee, crc32Ieee, crc32Ieee, UInt32.not_not, List.foldl_append]

def toolHdr (seq : UInt32) (body : List UInt8) : CcfgovrBankHdr :=
  let hdr : CcfgovrBankHdr := ⟨magic, seq, UInt32.ofNat body.length, headerVersion, 0⟩
  { hdr with cksum := crc32Ieee 0 (hdr.beforeCksum ++ body) }

theorem makeBank_eq (seq : UInt32) (body : List UInt8) :
    makeBank seq body = le32 magic ++ (le32 seq ++ (le32 (UInt32.ofNat body.length) ++
      (le32 headerVersion ++ (le32 (toolHdr seq body).cksum ++ body)))) := by
  have hdef : makeBank seq body =
      (toolHdr seq body).beforeCksum ++ le32 (toolHdr seq body).cksum ++ body := rfl
  rw [hdef, CcfgovrBankHdr.beforeCksum]
  simp only [List.append_assoc]
  rfl

theorem read_word {f : Flash} {off : ℕ} {word : UInt32} {rest : List UInt8}
    (h : Flash.read f off (le32 word ++ rest).length = le32 word ++ rest) :
    ofLe32 (Flash.read f off 4) = word ∧ Flash.read f (off + 4) rest.length = rest := by
  have hword := @Flash.read_part f off [] (le32 word) rest h
  have hrest := @Flash.read_part f off (le32 word) rest [] (by rw [List.append_nil]; exact h)
  rw [length_le32] at hword hrest
  refine ⟨?_, hrest⟩
  rw [List.length_nil, Nat.add_zero] at hword
  rw [hword, ofLe32_le32]

section

variable {f : Flash} {spiAddr seq : UInt32} {body : List UInt8}

theorem read_makeBank (h : Holds f spiAddr (makeBank seq body)) :
    readHdr f spiAddr.toNat = toolHdr seq body ∧
      Flash.read f (spiAddr.toNat + ccfgovrHdrSize) body.length = body := by
  have hread := h.read
  rw [makeBank_eq] at hread
  obtain ⟨hmagic, hread⟩ := read_word hread
  obtain ⟨hseq, hread⟩ := read_word hread
  obtain ⟨hlen, hread⟩ := read_word hread
  obtain ⟨hversion, hread⟩ := read_word hread
  obtain ⟨hcksum, hread⟩ := read_word hread
  refine ⟨?_, hread⟩
  rw [readHdr, hmagic, hseq, hlen, hversion, hcksum]
  rfl

theorem toNat_bodyLen (hlen : body.length ≤ ccfgovrDecodeBodyMax) :
    (UInt32.ofNat body.length).toNat = body.length := by
  simp only [ccfgovrDecodeBodyMax] at hlen
  exact UInt32.toNat_ofNat_of_lt' (show body.length < 2 ^ 32 by omega)

theorem plausible_makeBank (h : Holds f spiAddr (makeBank seq body))
    (hseq : seq ≠ ccfgovrSeqErased) (hmod : body.length % 4 = 0)
    (hlen : body.length ≤ ccfgovrDecodeBodyMax) :
    ccfgovrHeaderIsPlausible (readHdr f spiAddr.toNat) = true := by
  rw [(read_makeBank h).1, ccfgovrHeaderIsPlausible]
  have hbody := toNat_bodyLen hlen
  simp [toolHdr, magic, headerVersion, ccfgovrMagic, ccfgovrHdrVersion, hbody, hseq, hmod, hlen]

theorem load_makeBank {reads : BankReads} (h : Holds f spiAddr (makeBank seq body))
    (hreads : reads.body = true) (hlen : body.length ≤ ccfgovrDecodeBodyMax) (valid : Bool) :
    ccfgovrLoadAndVerifyBody crc32Ieee f reads ⟨spiAddr, readHdr f spiAddr.toNat, valid⟩ =
      some body := by
  obtain ⟨hhdr, hread⟩ := read_makeBank h
  have hbodyLen : (toolHdr seq body).bodyLen.toNat = body.length := toNat_bodyLen hlen
  have haddr : Flash.read f (spiAddr + UInt32.ofNat ccfgovrHdrSize).toNat body.length = body := by
    by_cases hempty : body.length = 0
    · rw [hempty, List.length_eq_zero_iff.mp hempty]
      rfl
    · -- the body begins below the end of the address space
      have hfits := h.fits
      rw [makeBank_eq] at hfits
      simp only [List.length_append, length_le32] at hfits
      rw [UInt32.toNat_add, UInt32.toNat_ofNat', ccfgovrHdrSize, Nat.add_mod_mod,
        Nat.mod_eq_of_lt (by omega)]
      exact hread
  have hcrc : crc32Ieee (crc32Ieee 0 (toolHdr seq body).beforeCksum) body =
      (toolHdr seq body).cksum := crc32Ieee_append 0 _ body
  rw [ccfgovrLoadAndVerifyBody, hhdr]
  simp only [hbodyLen, haddr, hcrc, hreads]
  simp [hlen]

end

def sampleOverrides : Overrides := ⟨[(.tdpLimit, 300), (.gddrThermTripEn, 1)], by decide⟩

def sampleFlash : Flash :=
  Flash.program (fun _ => 0xFF) 0x1000 (makeBank 7 (encodeBody sampleOverrides []))

end SystemFirmware.CcfgovrUtils
