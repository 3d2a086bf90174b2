import SystemFirmware.BhFwtable.Ccfgovr

/-!
# Firmware table — banks and their partitions

A CCFGOVR bank is a header and a body in a partition of the boot filesystem. The length of
the body comes from the header and is checked against the decode buffer only:
`ccfgovr_read_header` compares the size of the partition with the header alone
(`applied_in_partition`).
-/

namespace SystemFirmware.BhFwtable

open Lib TtBootFs

section

variable {crc32IeeeUpdate : UInt32 → List UInt8 → UInt32}
  {decode : List UInt8 → Option FwTableOverride} {ready : Bool} {f : Flash}
  {reads : BankIdx → BankReads} {i : BankIdx} {data : BhFwtableData}

/-- The flash addresses of header and body. That of the body is computed in 32 bits. -/
def CcfgovrBankInfo.Reads (info : CcfgovrBankInfo) (a : ℕ) : Prop :=
  (info.spiAddr.toNat ≤ a ∧ a < info.spiAddr.toNat + ccfgovrHdrSize) ∨
    ((info.spiAddr + UInt32.ofNat ccfgovrHdrSize).toNat ≤ a ∧
      a < (info.spiAddr + UInt32.ofNat ccfgovrHdrSize).toNat + info.hdr.bodyLen.toNat)

theorem headerOk_fd (h : headerOk ready f reads i = true) :
    ∃ fd, ttBootFsFindFdByTag ready f (reads i).find (some (ccfgovrTag i)) = .ok fd ∧
      (bankInfo ready f reads i).spiAddr = fd.spiAddr ∧
      (bankInfo ready f reads i).hdr = readHdr f fd.spiAddr.toNat ∧
      ccfgovrHdrSize ≤ flagImageSize fd.flags := by
  unfold headerOk bankInfo ccfgovrReadHeader at h
  unfold bankInfo ccfgovrReadHeader
  split at h
  · cases h
  · next fd hfd =>
    refine ⟨fd, hfd, ?_⟩
    split_ifs at h ⊢ with hsize hread
    exact ⟨rfl, rfl, Nat.not_lt.mp hsize⟩

theorem headerOk_of_applied
    (h : bankState (ttBhFwtableApplyCcfgovr crc32IeeeUpdate decode ready f reads data).ccfgovrState
      i = BankState.applied.toUInt32) : headerOk ready f reads i = true := by
  obtain ⟨-, -, hstate⟩ := @apply_spec crc32IeeeUpdate decode ready f reads data
  rw [hstate i, BankState.toUInt32_inj, stateAfter] at h
  split at h
  · next htried => exact htried.1
  · split at h <;> cases h

end

/-- **When an applied bank is inside its partition**: header and body, and so every address that was
read, lie in it exactly if the length of the body, as the header in the flash has it, is zero, or
has room behind the header, whose end is inside the 32-bit address space. -/
theorem applied_in_partition {crc32IeeeUpdate : UInt32 → List UInt8 → UInt32}
    {decode : List UInt8 → Option FwTableOverride} {ready : Bool} {f : Flash}
    {reads : BankIdx → BankReads} {i : BankIdx} {data : BhFwtableData}
    (h : bankState (ttBhFwtableApplyCcfgovr crc32IeeeUpdate decode ready f reads data).ccfgovrState
      i = BankState.applied.toUInt32) :
    (∃ fd, ttBootFsFindFdByTag ready f (reads i).find (some (ccfgovrTag i)) = .ok fd ∧
      ccfgovrHdrSize + (bankInfo ready f reads i).hdr.bodyLen.toNat ≤ flagImageSize fd.flags ∧
      ∀ a, (bankInfo ready f reads i).Reads a →
        fd.spiAddr.toNat ≤ a ∧ a < fd.spiAddr.toNat + flagImageSize fd.flags) ↔
      ∀ fd, ttBootFsFindFdByTag ready f (reads i).find (some (ccfgovrTag i)) = .ok fd →
        (readHdr f fd.spiAddr.toNat).bodyLen = 0 ∨
          fd.spiAddr.toNat + ccfgovrHdrSize < 2 ^ 32 ∧ ccfgovrHdrSize +
            (readHdr f fd.spiAddr.toNat).bodyLen.toNat ≤ flagImageSize fd.flags := by
  obtain ⟨fd, hfd, hspi, hhdr, hsize⟩ := headerOk_fd (headerOk_of_applied h)
  have hbody : (fd.spiAddr + UInt32.ofNat ccfgovrHdrSize).toNat =
      (fd.spiAddr.toNat + ccfgovrHdrSize) % 2 ^ 32 := by
    rw [UInt32.toNat_add, UInt32.toNat_ofNat']
    rfl
  have hlt := fd.spiAddr.toNat_lt
  rw [hfd]
  simp only [Except.ok.injEq, exists_eq_left', forall_eq', CcfgovrBankInfo.Reads, hspi, hhdr, hbody,
    ← UInt32.toNat_inj, UInt32.toNat_zero]
  rw [ccfgovrHdrSize] at hsize ⊢
  constructor
  · rintro ⟨hlen, hinside⟩
    by_cases hzero : (readHdr f fd.spiAddr.toNat).bodyLen.toNat = 0
    · exact .inl hzero
    · -- the first byte of the body is behind the header only if its address does not wrap
      have hfirst := hinside _ (.inr ⟨le_rfl, by omega⟩)
      exact .inr ⟨by omega, hlen⟩
  · intro hroom
    refine ⟨by omega, fun a ha => ?_⟩
    omega

-- ---
-- A bank with a body of one word

/-- One bit of the CRC-32 of IEEE 802.3. -/
def crc32Bit (crc : UInt32) : UInt32 :=
  if crc &&& 1 = 1 then (crc >>> 1) ^^^ 0xEDB88320 else crc >>> 1

def crc32Ieee (crc : UInt32) (bytes : List UInt8) : UInt32 :=
  ~~~ bytes.foldl (fun crc b => Nat.repeat crc32Bit 8 (crc ^^^ b.toUInt32)) (~~~ crc)

/-- A decoder that knows the empty message only, which starts with its terminator. -/
def decodeEmpty (body : List UInt8) : Option FwTableOverride :=
  if body.head? = some 0 then some default else none

def bankFd (imageSize : ℕ) : Fd :=
  let fd : Fd := ⟨0x1000, 0, fdFlags imageSize false false, 0, 0,
    Vector.ofFn fun k => ((ccfgovrTag .a)[k.val]?).getD 0, 0⟩
  { fd with fdCrc := addWords 0 fd.beforeCrc }

/-- The header of a bank with a body of one word, all zeros. -/
def oneWordHdr : CcfgovrBankHdr :=
  let hdr : CcfgovrBankHdr := ⟨ccfgovrMagic, 0, 4, ccfgovrHdrVersion, 0⟩
  { hdr with cksum := crc32Ieee (crc32Ieee 0 hdr.beforeCksum) (List.replicate 4 0) }

def oneWordBank (imageSize : ℕ) : Flash :=
  ((Flash.program (fun _ => 0xFF) 0 (bankFd imageSize).bytes).program 0x1000
    (oneWordHdr.beforeCksum ++ le32 oneWordHdr.cksum)).program (0x1000 + ccfgovrHdrSize)
    (List.replicate 4 0)

def allReads : BankIdx → BankReads := fun _ => ⟨fun _ => true, true, true⟩

theorem applied_in_partition_oneWord :
    ∃ fd, ttBootFsFindFdByTag true (oneWordBank 24) (fun _ => true) (some (ccfgovrTag .a)) =
        .ok fd ∧
      ccfgovrHdrSize + (bankInfo true (oneWordBank 24) allReads .a).hdr.bodyLen.toNat ≤
        flagImageSize fd.flags := by
  have hfd : ttBootFsFindFdByTag true (oneWordBank 24) (fun _ => true) (some (ccfgovrTag .a)) =
      .ok (bankFd 24) := by decide +kernel
  obtain ⟨fd, hfind, hsize, -⟩ := (@applied_in_partition crc32Ieee decodeEmpty true
    (oneWordBank 24) allReads .a default (by decide +kernel)).mpr (by
      intro fd hfind
      obtain rfl : bankFd 24 = fd := Except.ok.inj (hfd.symm.trans hfind)
      exact .inr (by decide +kernel))
  exact ⟨fd, hfind, hsize⟩

/-- In a partition of 20 bytes it is applied as well: the header fills it, and the body lies
behind. -/
theorem applied_beyond_partition :
    bankState (ttBhFwtableApplyCcfgovr crc32Ieee decodeEmpty true (oneWordBank 20) allReads
        default).ccfgovrState .a = BankState.applied.toUInt32 ∧
      ttBootFsFindFdByTag true (oneWordBank 20) (fun _ => true) (some (ccfgovrTag .a)) =
        .ok (bankFd 20) ∧
      flagImageSize (bankFd 20).flags <
        ccfgovrHdrSize + (bankInfo true (oneWordBank 20) allReads .a).hdr.bodyLen.toNat := by
  decide +kernel

end SystemFirmware.BhFwtable
