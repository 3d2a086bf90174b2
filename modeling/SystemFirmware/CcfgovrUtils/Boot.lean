import SystemFirmware.BhFwtable.Partition
import SystemFirmware.CcfgovrUtils.Agreement

/-!
# CcfgovrUtils — booting with a bank of the tool

From the items that the tool was given to the firmware table after the boot, through the
flash (`boot_applies_overrides`).
-/

namespace SystemFirmware.CcfgovrUtils

open Lib BhFwtable TtBootFs

/-- The tool wrote the items to bank `i`, and the reads of the bank succeed. -/
structure Written (ready : Bool) (f : Flash) (reads : BankIdx → BankReads) (i : BankIdx)
    (overrides : Overrides) (seq : UInt32) : Prop where
  inRange : ∀ item ∈ overrides.items, item.1.InRange item.2
  length : (encodeBody overrides []).length ≤ ccfgovrDecodeBodyMax
  seq_ne : seq ≠ ccfgovrSeqErased
  hdrRead : (reads i).hdr = true
  bodyRead : (reads i).body = true
  bank : ∃ fd, ttBootFsFindFdByTag ready f (reads i).find (some (ccfgovrTag i)) = .ok fd ∧
    ccfgovrHdrSize ≤ flagImageSize fd.flags ∧
    Holds f fd.spiAddr (makeBank seq (encodeBody overrides []))

section

variable {decode : List UInt8 → Option FwTableOverride} {ready : Bool} {f : Flash}
  {reads : BankIdx → BankReads} {i : BankIdx} {overrides : Overrides} {seq : UInt32}

theorem Written.bankInfo_eq (h : Written ready f reads i overrides seq) :
    ∃ spiAddr, bankInfo ready f reads i = ⟨spiAddr, toolHdr seq (encodeBody overrides []), true⟩ ∧
      Holds f spiAddr (makeBank seq (encodeBody overrides [])) := by
  obtain ⟨fd, hfd, hsize, hholds⟩ := h.bank
  have hheader := plausible_makeBank hholds h.seq_ne (length_frame _) h.length
  rw [(read_makeBank hholds).1] at hheader
  refine ⟨fd.spiAddr, ?_, hholds⟩
  rw [bankInfo, ccfgovrReadHeader, hfd]
  dsimp only
  rw [if_neg (Nat.not_lt.mpr hsize), h.hdrRead, (read_makeBank hholds).1, hheader]
  rfl

theorem items_eq_nil (hdecode : DecodesMessages decode)
    (h : Written ready f reads i overrides seq) (hnil : encodeBody overrides [] = []) :
    overrides.items = [] := by
  obtain ⟨ovr, hrun, hfield, -⟩ :=
    hdecode [] [] ⟨nofun, .nil, .nil, Nat.zero_le _⟩ (.eof true)
  obtain ⟨ovr', hrun', hfields, hhas⟩ := decodes_encodeBody hdecode h.inRange h.length
  rw [hnil] at hrun'
  obtain rfl : ovr = ovr' := Option.some.inj (hrun.symm.trans hrun')
  refine List.eq_nil_iff_forall_not_mem.mpr fun ⟨path, v⟩ hitem => ?_
  have hget := (hfields path v).mpr hitem
  rw [Path.get, if_pos ((hhas _).mpr ⟨_, hitem, rfl⟩)] at hget
  exact List.not_mem_nil ((hfield path v).mp hget)

/-- In its round the bank is applied, and merges a message that has exactly the given values. -/
theorem Written.tryBank_eq (hdecode : DecodesMessages decode)
    (h : Written ready f reads i overrides seq) :
    ∃ result, tryBank crc32Ieee decode f reads (bankInfo ready f reads) i = some result ∧
      ∃ ovr, (∀ path v, path.get ovr = some v ↔ (path, v) ∈ overrides.items) ∧
        ∀ t, tableAfter t result = mergeOverride ovr t := by
  obtain ⟨spiAddr, hinfo, hholds⟩ := h.bankInfo_eq
  obtain ⟨ovr, hrun, hfields, -⟩ := decodes_encodeBody hdecode h.inRange h.length
  have hload := load_makeBank hholds h.bodyRead h.length true
  rw [(read_makeBank hholds).1] at hload
  rw [tryBank, hinfo, hload]
  dsimp only
  split
  next hempty =>
    -- nothing is decoded, and nothing was given
    have hnil : encodeBody overrides [] = [] := by
      have hlen : UInt32.ofNat (encodeBody overrides []).length = 0 := beq_iff_eq.mp hempty
      rw [← List.length_eq_zero_iff, ← toNat_bodyLen h.length, hlen]
      rfl
    refine ⟨none, rfl, emptyMessage fun _ => false, fun path v => ?_, fun t => rfl⟩
    rw [items_eq_nil hdecode h hnil, Path.get, has_empty]
    simp
  next =>
    exact ⟨some ovr, by rw [hrun]; rfl, ovr, hfields, fun t => rfl⟩

end

def bootFlash : Flash :=
  (Flash.program (fun _ => 0xFF) 0 (bankFd 532).bytes).program 0x1000
    (makeBank 7 (encodeBody sampleOverrides []))

end SystemFirmware.CcfgovrUtils
