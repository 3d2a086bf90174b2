import SystemFirmware.TtBootFs.Builder

/-!
# Boot filesystem — loading an image

`BootImage.loads` of the build script reads a binary and pads it. The firmware's checksum
runs over whole words, so the length has to be a multiple of four: either the configuration
asks for one with `padto`, or `loads` appends `len % 4` zeros, which is the right number
for even lengths only (`loads_cksum`).
-/

namespace SystemFirmware.TtBootFs

structure BootImage where
  provisioningOnly : Bool
  tag : Tag
  binary : List UInt8
  executable : Bool
  spiAddr : Option ℤ
  loadAddr : ℤ
  deriving DecidableEq

structure ImageConfig where
  binary : Option (List UInt8)
  padto : ℤ
  executable : Bool
  offset : Option ℤ
  provisioningOnly : Bool
  /-- The value of the expression `source`, `none` if evaluating it raises. -/
  source : Option (Option ℤ)

inductive LoadError where
  /-- "path ... is not a file". -/
  | notAFile
  /-- "{tag} padto value {padto} is not a multiple of 4". -/
  | padtoUnaligned (tag : Tag) (padto : ℤ)
  /-- "{tag} padto value {padto} is < the binary size {len}". -/
  | padtoTooSmall (tag : Tag) (padto : ℤ) (len : ℕ)
  /-- "{tag} is longer than the maximum allowed tag size (8)." -/
  | tagTooLong (tag : Tag)
  /-- "While loading {tag} If executable is set load_addr must also be set". -/
  | noLoadAddr (tag : Tag)
  /-- The expression `source` raises. -/
  | badSource
  deriving DecidableEq

def padBinary (tag : Tag) (padto : ℤ) (binary : List UInt8) : Except LoadError (List UInt8) :=
  if padto = 0 then .ok binary
  else if padto % 4 ≠ 0 then .error (.padtoUnaligned tag padto)
  else if padto < binary.length then .error (.padtoTooSmall tag padto binary.length)
  else .ok (binary ++ List.replicate (padto - binary.length).toNat 0)

/-- `binary += bytes((len(binary) % 4))`. -/
def padWord (binary : List UInt8) : List UInt8 :=
  binary ++ List.replicate (binary.length % 4) 0

def BootImage.loads (tag : Tag) (config : ImageConfig) : Except LoadError BootImage :=
  match config.binary with
  | none => .error .notAFile
  | some binary =>
    match padBinary tag config.padto binary with
    | .error e => .error e
    | .ok binary =>
      if tag.length > maxTagLen then .error (.tagTooLong tag)
      else if config.executable ∧ config.offset = none then .error (.noLoadAddr tag)
      else match config.source with
        | none => .error .badSource
        | some spiAddr => .ok {
            provisioningOnly := config.provisioningOnly
            tag := tag
            binary := padWord binary
            executable := config.executable
            spiAddr := spiAddr
            loadAddr := config.offset.getD 0 }

section

variable {tag : Tag} {config : ImageConfig} {content padded : List UInt8} {padto : ℤ}
  {image : BootImage}

theorem padBinary_ok (h : padBinary tag padto content = .ok padded) :
    (∃ n, padded = content ++ List.replicate n 0) ∧ (padto ≠ 0 → padded.length % 4 = 0) ∧
      (padto = 0 → padded = content) := by
  unfold padBinary at h
  split at h
  · next hzero =>
    cases h
    exact ⟨⟨0, by simp⟩, fun hne => absurd hzero hne, fun _ => rfl⟩
  · next hzero =>
    split at h
    · cases h
    · next haligned =>
      split at h
      · cases h
      · next hlen =>
        cases h
        refine ⟨⟨_, rfl⟩, ?_, fun hz => absurd hz hzero⟩
        intro _
        rw [List.length_append, List.length_replicate]
        omega

theorem loads_ok (h : BootImage.loads tag config = .ok image) :
    ∃ content padded, config.binary = some content ∧
      padBinary tag config.padto content = .ok padded ∧ image.binary = padWord padded ∧
      image.tag = tag ∧ tag.length ≤ maxTagLen := by
  unfold BootImage.loads at h
  split at h
  · cases h
  · next content hcontent =>
    split at h
    · cases h
    · next padded hpadded =>
      split at h
      · cases h
      · next htag =>
        split at h
        · cases h
        · split at h
          · cases h
          · cases h
            exact ⟨content, padded, hcontent, hpadded, rfl, rfl, by omega⟩

end

/-- **Checksums of loaded images.** Exactly with a length to pad to, or a file of even length, the
binary is the content of the file followed by zeros, in whole words, and the firmware's checksum
over it is the `data_crc` of the build script. -/
theorem loads_cksum {tag : Tag} {config : ImageConfig} {content : List UInt8} {image : BootImage}
    (hfile : config.binary = some content) (h : BootImage.loads tag config = .ok image) :
    config.padto ≠ 0 ∨ content.length % 2 = 0 ↔
      image.binary.length % 4 = 0 ∧ (∃ n, image.binary = content ++ List.replicate n 0) ∧
        ∀ e : FsEntry, e.data = image.binary →
          ttBootFsCksum 0 image.binary = some e.fd.dataCrc := by
  obtain ⟨content', padded, hcontent, hpadded, hbinary, -, -⟩ := loads_ok h
  obtain rfl : content = content' := Option.some.inj (hfile.symm.trans hcontent)
  obtain ⟨⟨n, hzeros⟩, hwords, hsame⟩ := padBinary_ok hpadded
  have hlength : image.binary.length = padded.length + padded.length % 4 := by
    rw [hbinary, padWord, List.length_append, List.length_replicate]
  have hwhole : config.padto ≠ 0 ∨ content.length % 2 = 0 ↔ image.binary.length % 4 = 0 := by
    rw [hlength]
    by_cases hzero : config.padto = 0
    · rw [hsame hzero]
      simp only [hzero, ne_eq, not_true_eq_false, false_or]
      omega
    · have := hwords hzero
      exact iff_of_true (.inl hzero) (by omega)
  refine ⟨fun hpad => ⟨hwhole.mp hpad, ?_, ?_⟩, fun hok => hwhole.mpr hok.1⟩
  · refine ⟨n + padded.length % 4, ?_⟩
    rw [hbinary, padWord, ← List.replicate_append_replicate, ← List.append_assoc, ← hzeros]
  · intro e he
    rw [ttBootFsCksum_eq_cksum (hwhole.mp hpad), ← he]
    rfl

def plainConfig (content : List UInt8) : ImageConfig :=
  ⟨some content, 0, false, none, false, some none⟩

theorem loads_cksum_twoBytes :
    BootImage.loads "cmfw".toList (plainConfig [1, 2]) =
        .ok ⟨false, "cmfw".toList, [1, 2, 0, 0], false, none, 0⟩ ∧
      ttBootFsCksum 0 [1, 2, 0, 0] =
        some (FsEntry.fd ⟨false, "cmfw".toList, [1, 2, 0, 0], 0x14000, 0, false⟩).dataCrc := by
  have hloads : BootImage.loads "cmfw".toList (plainConfig [1, 2]) =
      .ok ⟨false, "cmfw".toList, [1, 2, 0, 0], false, none, 0⟩ := by decide
  exact ⟨hloads, ((loads_cksum rfl hloads).mp (.inr rfl)).2.2 ⟨false, "cmfw".toList, [1, 2, 0, 0],
    0x14000, 0, false⟩ rfl⟩

/-- A file of one byte gets one byte of padding, and the firmware's checksum asserts. -/
theorem loads_odd_length :
    BootImage.loads "cmfw".toList (plainConfig [1]) =
        .ok ⟨false, "cmfw".toList, [1, 0], false, none, 0⟩ ∧
      ttBootFsCksum 0 [1, 0] = none := by
  decide

end SystemFirmware.TtBootFs
