import SystemFirmware.SpiEeprom.Definitions
import Mathlib.Algebra.Ring.Nat

/-!
# SPI EEPROM messages — writing

`SpiSmartWrite` replaces a range of bytes in a flash whose bits a write can only clear: a
sector that changes is read, erased and written back. The first chunk ends at the end of
its sector, whole sectors follow, and the last chunk may be shorter. The address of the
next sector has 32 bits; it may pass the end of the address space only when nothing is left
to write (`spiSmartWrite_exact`).
-/

namespace SystemFirmware.SpiEeprom

open Lib

-- ---
-- The flash driver without failures

def Device.Calm (d : Device) : Prop := ∀ o ∈ d.outcomes, o = .ok

def Device.next (d : Device) : Device := { d with outcomes := d.outcomes.tail }

section

variable {d d' : Device} {addr : UInt32} {len : ℕ} {bytes : List UInt8}

theorem Device.Calm.next (h : d.Calm) : d.next.Calm := fun o ho => h o (List.mem_of_mem_tail ho)

theorem nextOutcome_run (h : d.Calm) : nextOutcome d = .ok .ok d.next := by
  have hhead : d.outcomes.headD .ok = .ok := by
    cases houtcomes : d.outcomes with
    | nil => rfl
    | cons o rest => exact h o (by rw [houtcomes]; exact List.mem_cons_self)
  show EStateM.Result.ok (d.outcomes.headD .ok) d.next = _
  rw [hhead]

theorem flashRead_run (h : d.Calm) :
    flashRead addr len d = .ok (Flash.read d.flash addr.toNat len) d.next := by
  unfold flashRead
  show EStateM.bind nextOutcome _ d = _
  rw [EStateM.bind, nextOutcome_run h]
  rfl

theorem flashErase_run (h : d.Calm) :
    flashErase addr len d = .ok () { d.next with
      flash := d.flash.erase addr.toNat len, erased := d.erased ++ [(addr.toNat, len)] } := by
  have hnext := nextOutcome_run (d := { d with erased := d.erased ++ [(addr.toNat, len)] }) h
  have hlog : (modify fun d => { d with erased := d.erased ++ [(addr.toNat, len)] } : FlashM Unit) d =
      .ok () { d with erased := d.erased ++ [(addr.toNat, len)] } := rfl
  unfold flashErase
  show EStateM.bind (modify _) _ d = _
  rw [EStateM.bind, hlog]
  show EStateM.bind nextOutcome _ _ = _
  rw [EStateM.bind, hnext]
  rfl

theorem flashWrite_run (h : d.Calm) :
    flashWrite addr bytes d = .ok () { d.next with
      flash := d.flash.clearBits addr.toNat bytes } := by
  unfold flashWrite
  show EStateM.bind nextOutcome _ d = _
  rw [EStateM.bind, nextOutcome_run h]
  rfl

theorem rewrite_run (addr : UInt32) (h : d.Calm) (hlen : bytes.length = len) :
    ∃ d₀ d', flashErase addr len d = .ok () d₀ ∧ flashWrite addr bytes d₀ = .ok () d' ∧ d'.Calm ∧
      d'.flash = d.flash.program addr.toNat bytes ∧
      d'.erased = d.erased ++ [(addr.toNat, len)] := by
  subst hlen
  exact ⟨_, _, flashErase_run h, flashWrite_run h.next, h.next.next, Flash.clearBits_erase, rfl⟩

end

-- ---
-- What a part of a write does

section

variable {d d₁ d₂ : Device} {size address : ℕ} {data more : List UInt8}

/-- **Part of a write.** Bytes were written, and the regions erased are sectors in which a byte
changed. -/
structure Wrote (size address : ℕ) (data : List UInt8) (d d' : Device) : Prop where
  calm : d'.Calm
  flash : d'.flash = d.flash.program address data
  erased : ∃ regions, d'.erased = d.erased ++ regions ∧ ∀ r ∈ regions, r.2 = size ∧ size ∣ r.1 ∧
    ∃ a, (r.1 ≤ a ∧ a < r.1 + size) ∧ d'.flash a ≠ d.flash a

theorem Wrote.unchanged (h : d₁.Calm) (hflash : d₁.flash = d.flash) (herased : d₁.erased = d.erased)
    (hread : Flash.read d.flash address data.length = data) : Wrote size address data d d₁ where
  calm := h
  flash := by rw [hflash, Flash.program_of_read hread]
  erased := ⟨[], by simp [herased], by simp⟩

theorem Wrote.inside (h : Wrote size address data d d₁) {a : ℕ} (hne : d₁.flash a ≠ d.flash a) :
    address ≤ a ∧ a < address + data.length := by
  by_contra hout
  exact hne (by rw [h.flash]; exact Flash.program_outside (by omega))

theorem Wrote.append (h : Wrote size address data d d₁)
    (h' : Wrote size (address + data.length) more d₁ d₂) :
    Wrote size address (data ++ more) d d₂ := by
  obtain ⟨regions, hregions, hchanged⟩ := h.erased
  obtain ⟨regions', hregions', hchanged'⟩ := h'.erased
  -- no byte is changed by both
  have honce : ∀ a, d₁.flash a = d.flash a ∨ d₂.flash a = d₁.flash a := by
    intro a
    by_contra hboth
    obtain ⟨hfirst, hsecond⟩ := not_or.mp hboth
    have := (h.inside hfirst).2
    have := (h'.inside hsecond).1
    omega
  refine ⟨h'.calm, ?_, regions ++ regions', ?_, ?_⟩
  · rw [h'.flash, h.flash, Flash.program_append]
  · rw [hregions', hregions, List.append_assoc]
  · intro r hr
    rcases List.mem_append.mp hr with hr | hr
    · obtain ⟨hsize, haligned, a, ha, hne⟩ := hchanged r hr
      exact ⟨hsize, haligned, a, ha, by rw [(honce a).resolve_left hne]; exact hne⟩
    · obtain ⟨hsize, haligned, a, ha, hne⟩ := hchanged' r hr
      exact ⟨hsize, haligned, a, ha, by rw [← (honce a).resolve_right hne]; exact hne⟩

theorem Wrote.sectors (h : Wrote size address data d d₁) {total : ℕ} (hsectors : size ∣ total)
    (hin : address + data.length ≤ total) :
    ∃ regions, d₁.erased = d.erased ++ regions ∧ ∀ r ∈ regions,
      r.2 = size ∧ size ∣ r.1 ∧ r.1 + size ≤ total ∧
      Flash.read d₁.flash r.1 size ≠ Flash.read d.flash r.1 size := by
  obtain ⟨regions, hregions, hchanged⟩ := h.erased
  refine ⟨regions, hregions, ?_⟩
  intro r hr
  obtain ⟨hsize, haligned, a, ha, hne⟩ := hchanged r hr
  refine ⟨hsize, haligned, ?_, ?_⟩
  · have hbefore := (h.inside hne).2
    obtain ⟨p, hp⟩ := haligned
    obtain ⟨q, hq⟩ := hsectors
    have hpq : p < q := by
      by_contra hge
      have := Nat.mul_le_mul_left size (Nat.le_of_not_lt hge)
      omega
    have hle := Nat.mul_le_mul_left size hpq
    rw [Nat.mul_succ] at hle
    omega
  · intro hsame
    apply hne
    have hget := congrArg (fun bytes => bytes[a - r.1]?) hsame
    simpa [Flash.read, show a - r.1 < size by omega, show r.1 + (a - r.1) = a by omega] using hget

theorem Wrote.rewritten {sector : ℕ} {d' : Device} (haligned : size ∣ sector)
    (hin : sector ≤ address ∧ address + data.length ≤ sector + size)
    (hcalm : d'.Calm) (hflash : d'.flash = d.flash.program address data)
    (herased : d'.erased = d.erased ++ [(sector, size)])
    (hne : Flash.read d.flash address data.length ≠ data) : Wrote size address data d d' := by
  refine ⟨hcalm, hflash, [(sector, size)], herased, ?_⟩
  intro r hr
  rw [List.mem_singleton.mp hr]
  obtain ⟨a, ha, hchanged⟩ := Flash.exists_program_ne hne
  exact ⟨rfl, haligned, a, by dsimp only; omega, by rw [hflash]; exact hchanged⟩

end

-- ---
-- The phases

section

variable {d : Device} {sectorSize addr : UInt32} {data chunk : List UInt8}

theorem mergeChunk_wrote {offset : ℕ} (h : d.Calm) (haligned : sectorSize.toNat ∣ addr.toNat)
    (hin : offset + chunk.length ≤ sectorSize.toNat) :
    ∃ d', mergeChunk sectorSize addr offset chunk d = .ok () d' ∧
      Wrote sectorSize.toNat (addr.toNat + offset) chunk d d' := by
  have hthere : ((Flash.read d.flash addr.toNat sectorSize.toNat).drop offset).take chunk.length =
      Flash.read d.flash (addr.toNat + offset) chunk.length := by
    rw [Flash.drop_read, Flash.take_read (by omega)]
  unfold mergeChunk
  show ∃ d', EStateM.bind (flashRead addr sectorSize.toNat) _ d = .ok () d' ∧ _
  rw [EStateM.bind, flashRead_run h]
  dsimp only
  rw [hthere]
  by_cases hsame : Flash.read d.flash (addr.toNat + offset) chunk.length = chunk
  · rw [if_neg (not_not.mpr hsame)]
    exact ⟨d.next, rfl, Wrote.unchanged h.next rfl rfl hsame⟩
  · rw [if_pos hsame]
    have hlen : ((Flash.read d.flash addr.toNat sectorSize.toNat).take offset ++ chunk ++
        (Flash.read d.flash addr.toNat sectorSize.toNat).drop (offset + chunk.length)).length =
        sectorSize.toNat := by
      simp only [List.length_append, List.length_take, List.length_drop, Flash.length_read]
      omega
    obtain ⟨d₀, d', herase, hwrite, hcalm, hflash, herased⟩ := rewrite_run addr h.next hlen
    refine ⟨d', ?_, Wrote.rewritten haligned (by omega) hcalm ?_ herased hsame⟩
    · show EStateM.bind (flashErase addr sectorSize.toNat) _ d.next = _
      rw [EStateM.bind, herase]
      exact hwrite
    · rw [hflash]
      exact Flash.program_merged hin

theorem writeSectors_wrote {fuel address : ℕ} (h : d.Calm) (hpos : 0 < sectorSize.toNat)
    (haddr : data ≠ [] → addr.toNat = address) (haligned : sectorSize.toNat ∣ address)
    (hfits : address + data.length ≤ 2 ^ 32) (hfuel : data.length < fuel) :
    ∃ d', writeSectors sectorSize fuel addr data d = .ok () d' ∧
      Wrote sectorSize.toNat address data d d' := by
  induction fuel generalizing d addr address data with
  | zero => omega
  | succ fuel ih =>
    unfold writeSectors
    by_cases hmore : data.length > sectorSize.toNat
    · rw [if_pos hmore]
      obtain rfl := haddr (List.ne_nil_of_length_pos (by omega))
      have hlen : (data.take sectorSize.toNat).length = sectorSize.toNat :=
        List.length_take_of_le (by omega)
      have hrest := List.length_drop (i := sectorSize.toNat) (l := data)
      -- the rounds after this one, whatever it did
      have hnext : ∀ {d₁}, Wrote sectorSize.toNat addr.toNat (data.take sectorSize.toNat) d d₁ →
          ∃ d₂, writeSectors sectorSize fuel (addr + sectorSize) (data.drop sectorSize.toNat) d₁ =
            .ok () d₂ ∧ Wrote sectorSize.toNat addr.toNat data d d₂ := by
        intro d₁ hwrote
        have haddr' : data.drop sectorSize.toNat ≠ [] →
            (addr + sectorSize).toNat = addr.toNat + sectorSize.toNat := by
          intro hne
          have := List.length_pos_iff.mpr hne
          rw [UInt32.toNat_add]
          omega
        obtain ⟨d₂, hloop, hwrote'⟩ := ih hwrote.calm haddr'
          (Nat.dvd_add haligned (Nat.dvd_refl _)) (by omega) (by omega)
        have happend : Wrote sectorSize.toNat addr.toNat
            (data.take sectorSize.toNat ++ data.drop sectorSize.toNat) d d₂ :=
          hwrote.append (by rw [hlen]; exact hwrote')
        rw [List.take_append_drop] at happend
        exact ⟨d₂, hloop, happend⟩
      show ∃ d', EStateM.bind (flashRead addr sectorSize.toNat) _ d = .ok () d' ∧ _
      rw [EStateM.bind, flashRead_run h]
      dsimp only
      by_cases hsame : Flash.read d.flash addr.toNat sectorSize.toNat = data.take sectorSize.toNat
      · rw [if_neg (not_not.mpr hsame)]
        exact hnext (Wrote.unchanged h.next rfl rfl (by rw [hlen]; exact hsame))
      · rw [if_pos hsame]
        obtain ⟨d₀, d₁, herase, hwrite, hcalm, hflash, herased⟩ :=
          rewrite_run addr h.next hlen
        obtain ⟨d₂, hloop, hwrote⟩ := hnext (Wrote.rewritten haligned (by omega) hcalm hflash
          herased (by rw [hlen]; exact hsame))
        refine ⟨d₂, ?_, hwrote⟩
        show EStateM.bind (flashErase addr sectorSize.toNat) _ d.next = _
        rw [EStateM.bind, herase]
        show EStateM.bind (flashWrite addr (data.take sectorSize.toNat)) _ d₀ = _
        rw [EStateM.bind, hwrite]
        exact hloop
    · rw [if_neg hmore]
      by_cases hempty : data.length = 0
      · rw [if_pos hempty]
        obtain rfl := List.eq_nil_of_length_eq_zero hempty
        exact ⟨d, rfl, Wrote.unchanged h rfl rfl rfl⟩
      · rw [if_neg hempty]
        obtain rfl := haddr (List.ne_nil_of_length_pos (by omega))
        exact mergeChunk_wrote h haligned (show 0 + data.length ≤ sectorSize.toNat by omega)

end

-- ---
-- The whole write

section

variable {address sectorSize : UInt32}

theorem toNat_roundDown : (roundDown address sectorSize).toNat =
    address.toNat - address.toNat % sectorSize.toNat := by
  have hlt := address.toNat_lt
  have hle := Nat.div_mul_le_self address.toNat sectorSize.toNat
  rw [roundDown, UInt32.toNat_mul, UInt32.toNat_div, Nat.mod_eq_of_lt (by omega),
    Nat.div_mul_self_eq_mod_sub_self]

theorem toNat_sub_roundDown : (address - roundDown address sectorSize).toNat =
    address.toNat % sectorSize.toNat := by
  have hle := Nat.mod_le address.toNat sectorSize.toNat
  have hbelow : roundDown address sectorSize ≤ address := by
    rw [UInt32.le_iff_toNat_le, toNat_roundDown]
    omega
  rw [UInt32.toNat_sub_of_le _ _ hbelow, toNat_roundDown]
  omega

theorem toNat_roundUp_sub (hdvd : sectorSize.toNat ∣ 2 ^ 32) (hpos : 0 < sectorSize.toNat) :
    (roundUp (address + 1) sectorSize - address).toNat =
      sectorSize.toNat - address.toNat % sectorSize.toNat := by
  have hlt := address.toNat_lt
  have hsize := sectorSize.toNat_lt
  have hone : (sectorSize - 1).toNat = sectorSize.toNat - 1 := by
    rw [UInt32.toNat_sub_of_le _ _ (by rw [UInt32.le_iff_toNat_le]; exact hpos)]
    rfl
  have hsum : (address + 1 + (sectorSize - 1)).toNat = (address.toNat + sectorSize.toNat) % 2 ^ 32 := by
    rw [UInt32.toNat_add, UInt32.toNat_add, hone, show (1 : UInt32).toNat = 1 from rfl]
    omega
  have hmod : (address.toNat + sectorSize.toNat) % 2 ^ 32 % sectorSize.toNat =
      address.toNat % sectorSize.toNat := by
    rw [Nat.mod_mod_of_dvd _ hdvd, Nat.add_mod_right]
  have hup : (roundUp (address + 1) sectorSize).toNat =
      (address.toNat + sectorSize.toNat) % 2 ^ 32 - address.toNat % sectorSize.toNat := by
    show (roundDown (address + 1 + (sectorSize - 1)) sectorSize).toNat = _
    rw [toNat_roundDown, hsum, hmod]
  have hle : address.toNat % sectorSize.toNat ≤ (address.toNat + sectorSize.toNat) % 2 ^ 32 := by
    rw [← hmod]
    exact Nat.mod_le _ _
  have hrest := Nat.mod_lt address.toNat hpos
  rw [UInt32.toNat_sub, hup]
  omega

theorem spiSmartWrite_wrote {data : List UInt8} {d : Device} (hdvd : sectorSize.toNat ∣ 2 ^ 32)
    (hpos : 0 < sectorSize.toNat) (hin : address.toNat + data.length ≤ 2 ^ 32) (h : d.Calm) :
    ∃ d', (spiSmartWrite sectorSize address data).run d = .ok () d' ∧
      Wrote sectorSize.toNat address.toNat data d d' := by
  obtain ⟨rest, hrest⟩ : ∃ rest, rest = address.toNat % sectorSize.toNat := ⟨_, rfl⟩
  have hlt : rest < sectorSize.toNat := hrest ▸ Nat.mod_lt _ hpos
  have hle : rest ≤ address.toNat := hrest ▸ Nat.mod_le _ _
  have hdown : (roundDown address sectorSize).toNat = address.toNat - rest := by
    rw [toNat_roundDown, hrest]
  have haligned : sectorSize.toNat ∣ address.toNat - rest := by
    rw [hrest]
    exact Nat.dvd_sub_mod address.toNat
  obtain ⟨n, hn⟩ : ∃ n, n = min (sectorSize.toNat - rest) data.length := ⟨_, rfl⟩
  have hlen : (data.take n).length = n := List.length_take_of_le (by omega)
  -- the first chunk, and then whole sectors up to the last chunk
  obtain ⟨d₁, hfirst, hwrote⟩ := mergeChunk_wrote h
    (show sectorSize.toNat ∣ (roundDown address sectorSize).toNat by rw [hdown]; exact haligned)
    (show rest + (data.take n).length ≤ sectorSize.toNat by rw [hlen]; omega)
  have hstart : (roundDown address sectorSize).toNat + rest = address.toNat := by omega
  rw [hstart] at hwrote
  obtain ⟨d₂, hsecond, hwrote'⟩ : ∃ d₂, writeSectors sectorSize (data.length + 1)
      (roundDown address sectorSize + sectorSize) (data.drop n) d₁ = .ok () d₂ ∧
      Wrote sectorSize.toNat (address.toNat + n) (data.drop n) d₁ d₂ := by
    have hdrop := List.length_drop (i := n) (l := data)
    by_cases hne : data.drop n = []
    · rw [hne]
      exact ⟨d₁, rfl, Wrote.unchanged hwrote.calm rfl rfl rfl⟩
    · have hmore := List.length_pos_iff.mpr hne
      have hnext : address.toNat + n = address.toNat - rest + sectorSize.toNat := by omega
      refine writeSectors_wrote hwrote.calm hpos (fun _ => ?_) ?_ (by omega) (by omega)
      · rw [UInt32.toNat_add, hdown, hnext]
        omega
      · rw [hnext]
        exact Nat.dvd_add haligned (Nat.dvd_refl _)
  have hall : Wrote sectorSize.toNat address.toNat (data.take n ++ data.drop n) d d₂ :=
    hwrote.append (by rw [hlen]; exact hwrote')
  rw [List.take_append_drop] at hall
  refine ⟨d₂, ?_, hall⟩
  show EStateM.bind (mergeChunk sectorSize (roundDown address sectorSize)
    (address - roundDown address sectorSize).toNat (data.take (min (roundUp (address + 1)
      sectorSize - address).toNat data.length))) _ d = _
  rw [toNat_roundUp_sub hdvd hpos, toNat_sub_roundDown, ← hrest, ← hn, EStateM.bind, hfirst]
  exact hsecond

end

/-- **Byte-exact writes.** When no flash operation fails, `SpiSmartWrite` returns 0 and the
flash is the old one with exactly the given range replaced; every region that was erased is
a sector of the flash whose content has changed. -/
theorem spiSmartWrite_exact {sectorSize address : UInt32} {size : ℕ} {data : List UInt8}
    {d : Device} (hpow : ∃ k ≤ 12, sectorSize.toNat = 2 ^ k) (hsize : size ≤ 2 ^ 32)
    (hsectors : sectorSize.toNat ∣ size) (hin : address.toNat + data.length ≤ size)
    (hok : ∀ o ∈ d.outcomes, o = .ok) :
    ∃ d', (spiSmartWrite sectorSize address data).run d = .ok () d' ∧
      d'.flash = d.flash.program address.toNat data ∧
      ∃ regions, d'.erased = d.erased ++ regions ∧ ∀ r ∈ regions,
        r.2 = sectorSize.toNat ∧ sectorSize.toNat ∣ r.1 ∧ r.1 + sectorSize.toNat ≤ size ∧
        Flash.read d'.flash r.1 sectorSize.toNat ≠ Flash.read d.flash r.1 sectorSize.toNat := by
  obtain ⟨k, hk, hpow⟩ := hpow
  have hpos : 0 < sectorSize.toNat := by
    rw [hpow]
    exact Nat.two_pow_pos k
  have hdvd : sectorSize.toNat ∣ 2 ^ 32 := by
    rw [hpow]
    exact Nat.pow_dvd_pow 2 (by omega)
  obtain ⟨d', hrun, hwrote⟩ := spiSmartWrite_wrote hdvd hpos (Nat.le_trans hin hsize) hok
  exact ⟨d', hrun, hwrote.flash, hwrote.sectors hsectors hin⟩

theorem spiSmartWrite_exact_sixBytes :
    ∃ d', (spiSmartWrite 4096 4094 [1, 2, 3, 4, 5, 6]).run ⟨fun _ => 0xFF, [], []⟩ = .ok () d' ∧
      d'.flash = Flash.program (fun _ => 0xFF) 4094 [1, 2, 3, 4, 5, 6] := by
  obtain ⟨d', hrun, hflash, -⟩ := @spiSmartWrite_exact 4096 4094 8192 [1, 2, 3, 4, 5, 6]
    ⟨fun _ => 0xFF, [], []⟩ ⟨12, by decide, rfl⟩ (by decide) (by decide) (by decide) (by simp)
  exact ⟨d', hrun, hflash⟩

end SystemFirmware.SpiEeprom
