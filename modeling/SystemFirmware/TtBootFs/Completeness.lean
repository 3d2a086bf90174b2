import SystemFirmware.TtBootFs.Placement

/-!
# Boot filesystem — which configurations can be placed

The other direction of the placement: for given addresses that are aligned, behind the
reserved addresses and apart, `to_boot_fs` does not raise. Each floating image gets the lowest
address where it fits (`Filled.findGapOfSize_isLeast`), so the ranges of the tracker keep
apart, every `add` lets its range in, and the places are those of first-fit on the sizes
(`place_firstFit`).

The overlap check of `writes` also sees the failover. Its given address is not in the
tracker when the floating images are placed, so one of them may get it, and `writes` succeeds
exactly when none does (`toBootFs_writes_succeed`).
-/

namespace SystemFirmware.TtBootFs

open Lib

-- ---
-- Compatible configurations

def GivenFits (blockSize : ℤ) (image : BootImage) : Prop :=
  ∀ spiAddr, image.spiAddr = some spiAddr → (imageAddr : ℤ) ≤ spiAddr ∧ blockSize ∣ spiAddr

def GivenApart (image other : BootImage) : Prop :=
  ∀ a b, image.spiAddr = some a → other.spiAddr = some b →
    a + image.binary.length ≤ b ∨ b + other.binary.length ≤ a

/-- What is asked of a configuration for it to be placed. -/
structure FileImage.Compatible (file : FileImage) : Prop extends file.WellFormed where
  failoverNonempty : file.failover.binary ≠ []
  failoverShort : file.failover.tag.length ≤ maxTagLen
  given : ∀ image ∈ file.images, GivenFits file.blockSize image
  failoverGiven : GivenFits file.blockSize file.failover
  givenApart : file.images.Pairwise GivenApart
  failoverGivenApart : ∀ image ∈ file.images, GivenApart image file.failover

-- ---
-- Placing the images

section

variable {blockSize addr : ℤ} {t : RangeTracker BootImage} {placed : List (ℤ × BootImage)}
  {image : BootImage} {k : ℕ}

theorem Filled.add_free (h : Filled blockSize t placed) (hapart : Apart t.ranges)
    (himage : image.binary ≠ []) (hblock : blockSize ≠ 0) (hbehind : (imageAddr : ℤ) ≤ addr)
    (hdvd : blockSize ∣ addr) (hfree : ∀ p ∈ placed, (rangeOf (addr, image)).Misses (rangeOf p)) :
    ∃ t', t.add addr (addr + image.binary.length) (some image) = .ok t' ∧ Apart t'.ranges := by
  have hlen : 0 < image.binary.length := List.length_pos_iff.mpr himage
  have hnonempty : (rangeOf (addr, image)).Nonempty := by
    simp only [Range.Nonempty, rangeOf]
    omega
  have hmisses : ∀ q ∈ t.ranges, (rangeOf (addr, image)).Misses q := by
    intro q hq
    rw [h.ranges] at hq
    obtain rfl | hq := List.mem_cons.mp hq
    · exact .inr hbehind
    · obtain ⟨p, hp, rfl⟩ := List.mem_map.mp hq
      exact hfree p hp
  obtain ⟨t', hadd, hapart', -, -⟩ := RangeTracker.add_free hapart hnonempty hmisses
    (h.alignment ▸ hblock) (h.alignment ▸ hdvd)
  exact ⟨t', hadd, hapart'⟩

def spanOf (placed : ℤ × BootImage) : ℤ × ℕ := (placed.1, placed.2.binary.length)

theorem Filled.findGapOfSize_isLeast (h : Filled blockSize t placed) (hapart : Apart t.ranges)
    (hblock : blockSize = 2 ^ k) (size : ℕ) :
    IsLeast (Fits imageAddr blockSize (placed.map spanOf) size) (t.findGapOfSize size).1 := by
  rw [h.ranges] at hapart
  have hleast := gapFrom_isLeast size (h.alignment.trans hblock) hapart.tail
    (Int.natCast_nonneg imageAddr) (List.pairwise_cons.mp hapart.ordered).1
  rw [h.findGapOfSize_eq]
  simpa only [Fits, List.forall_mem_map, h.alignment, rangeOf, spanOf] using hleast

/-- The ranges at the given addresses, and the sizes of the images without one. -/
def givenOf (images : List BootImage) : List (ℤ × ℕ) :=
  images.filterMap fun image => image.spiAddr.map fun spiAddr => (spiAddr, image.binary.length)

def floatingOf (images : List BootImage) : List ℕ :=
  (images.filter fun image => image.spiAddr.isNone).map fun image => image.binary.length

/-- The state of the first loop over `images`, with the images `rest` still to come. -/
structure GivenHeld (blockSize : ℤ) (images : List BootImage) (t : RangeTracker BootImage)
    (placed : List (ℤ × BootImage)) (rest : List BootImage) : Prop where
  filled : Filled blockSize t placed
  apart : Apart t.ranges
  given : ∀ p ∈ placed, p.2.spiAddr = some p.1
  free : ∀ p ∈ placed, ∀ other ∈ rest, GivenApart p.2 other
  spans : (placed.map spanOf ++ givenOf rest).Perm (givenOf images)

theorem addGiven_succeeds {images rest : List BootImage} (hblock : blockSize ≠ 0)
    (h : GivenHeld blockSize images t placed (image :: rest)) (himage : image.binary ≠ [])
    (hfits : GivenFits blockSize image) (hnext : ∀ other ∈ rest, GivenApart image other) :
    ∃ t', addGiven blockSize t image = .ok t' ∧
      ∃ placed', GivenHeld blockSize images t' placed' rest := by
  have hlater : ∀ p ∈ placed, ∀ other ∈ rest, GivenApart p.2 other :=
    fun p hp other hother => h.free p hp other (List.mem_cons_of_mem image hother)
  have hspans := h.spans
  cases hspi : image.spiAddr with
  | none =>
    rw [givenOf, List.filterMap_cons_none (by simp [hspi])] at hspans
    exact ⟨t, by rw [addGiven, hspi], placed, h.filled, h.apart, h.given, hlater, hspans⟩
  | some spiAddr =>
    rw [givenOf, List.filterMap_cons_some (by rw [hspi]; rfl)] at hspans
    obtain ⟨hbehind, hdvd⟩ := hfits spiAddr hspi
    have hmisses : ∀ p ∈ placed, (rangeOf (spiAddr, image)).Misses (rangeOf p) := by
      intro p hp
      exact (h.free p hp image List.mem_cons_self p.1 spiAddr (h.given p hp) hspi).symm
    obtain ⟨t', hadd, hapart⟩ := h.filled.add_free h.apart himage hblock hbehind hdvd hmisses
    obtain ⟨placed', hfilled, hperm⟩ := h.filled.add himage
      ((Int.natCast_nonneg imageAddr).trans hbehind)
      (fun a ha => Option.some.inj (hspi.symm.trans ha)) hadd
    refine ⟨t', ?_, placed', hfilled, hapart, ?_, ?_, ?_⟩
    · rw [addGiven, hspi]
      simp only [hblock, if_false, Int.emod_eq_zero_of_dvd hdvd, ne_eq, not_true_eq_false]
      exact hadd
    · intro p hp
      obtain rfl | hp := List.mem_cons.mp (hperm.mem_iff.mp hp)
      · exact hspi
      · exact h.given p hp
    · intro p hp other hother
      obtain rfl | hp := List.mem_cons.mp (hperm.mem_iff.mp hp)
      · exact hnext other hother
      · exact hlater p hp other hother
    · exact ((hperm.map spanOf).append_right _).trans (List.perm_middle.symm.trans hspans)

/-- The state of the second loop, with the images `rest` still to come: first-fit for their
sizes goes on from the ranges that are held, and completes `places`. -/
structure FloatingHeld (blockSize : ℤ) (images : List BootImage) (t : RangeTracker BootImage)
    (placed : List (ℤ × BootImage)) (places : List (ℤ × ℕ)) (rest : List BootImage) : Prop where
  filled : Filled blockSize t placed
  apart : Apart t.ranges
  floating : ∀ q, q ∈ places ↔ ∃ p ∈ placed, p.2.spiAddr = none ∧ spanOf p = q
  fit : ∃ taken, (∀ q, q ∈ taken ↔ q ∈ placed.map spanOf) ∧
    ∀ more, FirstFit imageAddr blockSize taken (floatingOf rest) more →
      FirstFit imageAddr blockSize (givenOf images) (floatingOf images) (places ++ more)

theorem insertFloating_succeeds {images rest : List BootImage} {places : List (ℤ × ℕ)}
    (hblock : blockSize = 2 ^ k)
    (h : FloatingHeld blockSize images t placed places (image :: rest))
    (himage : image.binary ≠ []) :
    ∃ t', insertFloating t image = .ok t' ∧
      ∃ placed' places', FloatingHeld blockSize images t' placed' places' rest := by
  obtain ⟨taken, htaken, hfit⟩ := h.fit
  cases hspi : image.spiAddr with
  | some spiAddr =>
    rw [floatingOf, List.filter_cons_of_neg (by simp [hspi])] at hfit
    exact ⟨t, by rw [insertFloating, hspi], placed, places, h.filled, h.apart, h.floating,
      taken, htaken, hfit⟩
  | none =>
    rw [floatingOf, List.filter_cons_of_pos (by simp [hspi])] at hfit
    have hstop := (h.filled.le_findGapOfSize hblock image.binary.length).2.2
    have hleast := h.filled.findGapOfSize_isLeast h.apart hblock image.binary.length
    generalize haddr : (t.findGapOfSize image.binary.length).1 = addr at hstop hleast
    obtain ⟨hbehind, hdvd, hmiss⟩ := hleast.1
    have hzero : blockSize ≠ 0 := by
      rw [hblock]
      positivity
    obtain ⟨t', hadd, hapart'⟩ := h.filled.add_free h.apart himage hzero hbehind hdvd
      fun p hp => hmiss (spanOf p) (List.mem_map_of_mem hp)
    obtain ⟨placed', hfilled, hperm⟩ := h.filled.add himage
      ((Int.natCast_nonneg imageAddr).trans hbehind)
      (fun a ha => by rw [hspi] at ha; cases ha) hadd
    refine ⟨t', ?_, placed', places ++ [spanOf (addr, image)], hfilled, hapart', ?_,
      spanOf (addr, image) :: taken, ?_, ?_⟩
    · rw [insertFloating, hspi]
      simp only [RangeTracker.insert, haddr, hstop]
      exact hadd
    · intro q
      simp [hperm.mem_iff, h.floating, hspi, or_comm, eq_comm]
    · intro q
      simp [(hperm.map spanOf).mem_iff, htaken]
    · intro more hmore
      rw [List.append_assoc]
      refine hfit _ (.next ?_ hmore)
      simpa only [Fits, htaken] using hleast

end

/-- `place` succeeds, and the floating images get the places of first-fit. -/
theorem place_firstFit {file : FileImage} (h : file.Compatible) :
    ∃ t placed places, file.place = .ok t ∧
      FirstFit imageAddr file.blockSize (givenOf file.images) (floatingOf file.images) places ∧
      Filled file.blockSize t placed ∧ Apart t.ranges ∧
      ∀ q, q ∈ places ↔ ∃ p ∈ placed, p.2.spiAddr = none ∧ spanOf p = q := by
  obtain ⟨k, hblock⟩ := h.block
  have hzero : file.blockSize ≠ 0 := by
    rw [hblock]
    positivity
  have hreserve : (RangeTracker.init BootImage file.blockSize).add 0 0x14000 none =
      .ok ⟨[reservedRange], file.blockSize⟩ := by
    simp [RangeTracker.add, RangeTracker.init, insertIndex, bind, Except.bind, hzero,
      reservedRange, imageAddr]
  have hstart :
      GivenHeld file.blockSize file.images ⟨[reservedRange], file.blockSize⟩ [] file.images := by
    refine ⟨⟨rfl, by simp⟩, ⟨List.pairwise_singleton .., ?_⟩, by simp, by simp, .refl _⟩
    simp [Range.Nonempty, reservedRange, imageAddr]
  obtain ⟨t₁, hgiven, -, -, placed₁, hheld⟩ := foldlM_total (addGiven file.blockSize)
    (fun rest t => rest ⊆ file.images ∧ rest.Pairwise GivenApart ∧
      ∃ placed, GivenHeld file.blockSize file.images t placed rest)
    (by
      rintro image rest t ⟨hsubset, hpair, placed, hheld⟩
      obtain ⟨himage, hrest⟩ := List.cons_subset.mp hsubset
      obtain ⟨hnext, hpair⟩ := List.pairwise_cons.mp hpair
      obtain ⟨t', hstep, hheld'⟩ := addGiven_succeeds hzero hheld (h.nonempty image himage)
        (h.given image himage) hnext
      exact ⟨t', hstep, hrest, hpair, hheld'⟩)
    ⟨List.Subset.refl _, h.givenApart, [], hstart⟩
  have hspans : (placed₁.map spanOf).Perm (givenOf file.images) := by
    simpa [givenOf] using hheld.spans
  have hstart₂ : FloatingHeld file.blockSize file.images t₁ placed₁ [] file.images := by
    refine ⟨hheld.filled, hheld.apart, fun q => iff_of_false List.not_mem_nil ?_,
      _, fun q => hspans.symm.mem_iff, fun more hmore => hmore⟩
    rintro ⟨p, hp, hnone, -⟩
    cases hnone.symm.trans (hheld.given p hp)
  obtain ⟨t, hfloating, -, placed, places, hheld⟩ := foldlM_total insertFloating
    (fun rest t => rest ⊆ file.images ∧
      ∃ placed places, FloatingHeld file.blockSize file.images t placed places rest)
    (by
      rintro image rest t ⟨hsubset, placed, places, hheld⟩
      obtain ⟨himage, hrest⟩ := List.cons_subset.mp hsubset
      obtain ⟨t', hstep, hheld'⟩ := insertFloating_succeeds hblock hheld (h.nonempty image himage)
      exact ⟨t', hstep, hrest, hheld'⟩)
    ⟨List.Subset.refl _, placed₁, [], hstart₂⟩
  obtain ⟨taken, -, hfit⟩ := hheld.fit
  refine ⟨t, placed, places, bind_eq_ok.mpr ⟨_, hreserve, bind_eq_ok.mpr ⟨t₁, hgiven, hfloating⟩⟩,
    ?_, hheld.filled, hheld.apart, hheld.floating⟩
  simpa using hfit [] (.done taken)

-- ---
-- The overlap check

/-- The state of the check, with the writes `rest` still to come. -/
structure CheckReady (rest : List Write) (t : RangeTracker Unit) : Prop where
  ordered : rest.Pairwise fun v w => v.stop ≤ w.addr
  nonempty : ∀ w ∈ rest, w.data ≠ []
  alignment : t.alignment = 1
  apart : Apart t.ranges
  behind : ∀ q ∈ t.ranges, ∀ w ∈ rest, q.stop ≤ w.addr

theorem CheckReady.step {w : Write} {rest : List Write} {t : RangeTracker Unit}
    (h : CheckReady (w :: rest) t) :
    ∃ t', t.add w.addr w.stop none = .ok t' ∧ CheckReady rest t' := by
  obtain ⟨hfirst, hrest⟩ := List.pairwise_cons.mp h.ordered
  have hlen : 0 < w.data.length := List.length_pos_iff.mpr (h.nonempty w List.mem_cons_self)
  have hnonempty : Range.Nonempty (⟨w.addr, w.stop, none⟩ : Range Unit) := by
    simp only [Range.Nonempty, Piece.stop]
    omega
  obtain ⟨t', hadd, hapart, halignment, hmem⟩ := RangeTracker.add_free h.apart hnonempty
    (fun q hq => .inr (h.behind q hq w List.mem_cons_self))
    (by rw [h.alignment]; decide) (by rw [h.alignment]; exact one_dvd _)
  refine ⟨t', hadd, hrest, fun v hv => h.nonempty v (List.mem_cons_of_mem w hv),
    halignment.trans h.alignment, hapart, ?_⟩
  intro q hq v hv
  obtain rfl | hq := hmem q hq
  · exact hfirst v hv
  · exact h.behind q hq v (List.mem_cons_of_mem w hv)

theorem checkOverlap_succeeds {ws : List Write} (hordered : ws.Pairwise fun v w => v.stop ≤ w.addr)
    (hnonempty : ∀ w ∈ ws, w.data ≠ []) : ∃ t, checkOverlap ws ⟨[], 1⟩ = .ok t := by
  have hready : CheckReady ws ⟨[], 1⟩ := ⟨hordered, hnonempty, rfl, ⟨.nil, by simp⟩, by simp⟩
  obtain ⟨t, hok, -⟩ := foldlM_total _ CheckReady (fun _ _ _ h => h.step) hready
  exact ⟨t, hok⟩

theorem writes_of_misses {fs : BootFs} {unsorted : List Write}
    (h : fs.unsortedWrites = .ok unsorted) (hmisses : unsorted.Pairwise Write.Misses)
    (hnonempty : ∀ w ∈ unsorted, w.data ≠ []) : ∃ ws, fs.writes = .ok ws := by
  obtain ⟨sorted, hsorted⟩ :
      ∃ sorted, sorted = unsorted.insertionSort fun v w => v.addr ≤ w.addr := ⟨_, rfl⟩
  have hperm : sorted.Perm unsorted := by
    rw [hsorted]
    exact List.perm_insertionSort ..
  have hbyAddr : sorted.Pairwise fun v w => v.addr ≤ w.addr := by
    rw [hsorted]
    exact sorted_byAddr unsorted
  have hne : ∀ w ∈ sorted, w.data ≠ [] := fun w hw => hnonempty w (hperm.mem_iff.mp hw)
  have hordered : sorted.Pairwise fun v w => v.stop ≤ w.addr := by
    have hboth := hbyAddr.and ((hperm.pairwise_iff fun hvw => Or.symm hvw).mpr hmisses)
    refine hboth.imp_of_mem ?_
    intro v w hv hw hvw
    have hlen : 0 < w.data.length := List.length_pos_iff.mpr (hne w hw)
    obtain ⟨hle, hmiss | hmiss⟩ := hvw
    · exact hmiss
    · -- `w` would end in front of `v`, but it does not start there
      simp only [Piece.stop] at hmiss
      omega
  obtain ⟨t, hcheck⟩ := checkOverlap_succeeds hordered hne
  refine ⟨sorted, bind_eq_ok.mpr ⟨unsorted, h, bind_eq_ok.mpr ⟨t, ?_, ?_⟩⟩⟩
  · rw [← hsorted]
    exact hcheck
  · rw [hsorted]

-- ---
-- The writes of a placed filesystem

structure Writable (e : FsEntry) : Prop where
  short : e.tag.length ≤ maxTagLen
  nonempty : e.data ≠ []
  behind : (imageAddr : ℤ) ≤ e.spiAddr

section

variable {fs : BootFs} {order : List Tag} {addr : ℤ} {ws : List Write}

theorem entryWrites_of_short {e : FsEntry} (addr : ℤ) (always : Bool)
    (h : e.tag.length ≤ maxTagLen) :
    entryWrites addr always e =
      .ok [⟨⟨addr, e.fd.bytes⟩, true⟩, ⟨⟨e.spiAddr, e.data⟩, always⟩] := by
  rw [entryWrites, FsEntry.getDescriptor, if_neg (by omega)]
  rfl

theorem orderWrites_succeeds
    (h : ∀ tag ∈ order, ∃ e, fs.get tag = some e ∧ e.tag.length ≤ maxTagLen) :
    ∃ ws, orderWrites fs order addr = .ok ws := by
  induction order generalizing addr with
  | nil => exact ⟨[], rfl⟩
  | cons tag rest ih =>
    obtain ⟨e, hget, hshort⟩ := h tag List.mem_cons_self
    obtain ⟨more, hmore⟩ := @ih (addr + fdSize) fun tag' htag' =>
      h tag' (List.mem_cons_of_mem tag htag')
    have hfirst := entryWrites_of_short addr (!e.provisioningOnly) hshort
    rw [orderWrites, hget]
    exact ⟨_, bind_eq_ok.mpr ⟨_, hfirst, bind_eq_ok.mpr ⟨more, hmore, rfl⟩⟩⟩

theorem orderWrites_cases (h : orderWrites fs order addr = .ok ws) {w : Write} (hw : w ∈ ws) :
    (addr ≤ w.addr ∧ w.stop ≤ addr + fdSize * order.length ∧ w.data ≠ []) ∨
      ∃ tag ∈ order, ∃ e, fs.get tag = some e ∧ w.addr = e.spiAddr ∧ w.data = e.data := by
  obtain ⟨j, tag, e, hj, hget, hwrite⟩ := (orderWrites_ok h).2 w hw
  obtain ⟨haddr, hlen⟩ | ⟨haddr, hdata⟩ := hwrite
  · have hj' := (List.getElem?_eq_some_iff.mp hj).1
    refine .inl ⟨?_, ?_, ?_⟩
    · rw [haddr]
      simp only [fdSize]
      omega
    · rw [Piece.stop, haddr, hlen]
      simp only [fdSize]
      omega
    · rw [← List.length_pos_iff, hlen]
      decide
  · exact .inr ⟨tag, List.mem_of_getElem? hj, e, hget, haddr, hdata⟩

theorem orderWrites_misses (h : orderWrites fs order addr = .ok ws)
    (hroom : addr + fdSize * order.length ≤ failoverHeadAddr)
    (hbehind : ∀ tag ∈ order, ∀ e, fs.get tag = some e → (imageAddr : ℤ) ≤ e.spiAddr)
    (hapart : order.Pairwise (TagsApart fs)) : ws.Pairwise Write.Misses := by
  induction order generalizing addr ws with
  | nil =>
    obtain rfl : [] = ws := Except.ok.inj h
    exact .nil
  | cons tag rest ih =>
    obtain ⟨e, more, hget, -, hmore, rfl⟩ := orderWrites_cons_ok h
    obtain ⟨hfirst, hrest⟩ := List.pairwise_cons.mp hapart
    have hdata := hbehind tag List.mem_cons_self e hget
    have hbytes : e.fd.bytes.length = fdSize := Fd.length_bytes
    simp only [List.length_cons, fdSize, failoverHeadAddr, imageAddr] at hroom hdata hbytes
    refine List.pairwise_append.mpr ⟨?_, ?_, ?_⟩
    · refine List.pairwise_pair.mpr (.inl ?_)
      simp only [Piece.stop]
      omega
    · refine ih hmore ?_ (fun tag' htag' => hbehind tag' (List.mem_cons_of_mem tag htag')) hrest
      simp only [fdSize, failoverHeadAddr]
      omega
    · intro v hv w hw
      simp only [List.mem_cons, List.not_mem_nil, or_false] at hv
      obtain ⟨hlo, hhi, -⟩ | ⟨tag', htag', e', hget', haddr, hdata'⟩ := orderWrites_cases hmore hw
      · simp only [fdSize] at hlo hhi
        obtain rfl | rfl := hv
        · refine .inl ?_
          simp only [Piece.stop]
          omega
        · refine .inr ?_
          show w.stop ≤ e.spiAddr
          omega
      · have hbehind' := hbehind tag' (List.mem_cons_of_mem tag htag') e' hget'
        simp only [imageAddr] at hbehind'
        obtain rfl | rfl := hv
        · refine .inl ?_
          simp only [Piece.stop]
          omega
        · have hmiss := hfirst tag' htag' e e' hget hget'
          rw [Write.Misses, Piece.stop, Piece.stop, haddr, hdata']
          exact hmiss

theorem orderWrites_place (h : orderWrites fs fs.order 0 = .ok ws) (hcount : fs.order.length ≤ 511)
    (hwritable : ∀ tag ∈ fs.order, ∀ e, fs.get tag = some e → Writable e)
    (hfailoverApart : ∀ tag ∈ fs.order, ∀ e, fs.get tag = some e → e.Apart fs.failover)
    {w : Write} (hw : w ∈ ws) :
    w.data ≠ [] ∧ (w.stop ≤ failoverHeadAddr ∨ (imageAddr : ℤ) ≤ w.addr ∧
      (w.stop ≤ fs.failover.spiAddr ∨
        fs.failover.spiAddr + fs.failover.data.length ≤ w.addr)) := by
  obtain ⟨-, hhi, hne⟩ | ⟨tag, htag, e, hget, haddr, hdata⟩ := orderWrites_cases h hw
  · refine ⟨hne, .inl ?_⟩
    simp only [fdSize] at hhi
    simp only [failoverHeadAddr]
    omega
  · have he := hwritable tag htag e hget
    rw [Piece.stop, haddr, hdata]
    exact ⟨he.nonempty, .inr ⟨he.behind, hfailoverApart tag htag e hget⟩⟩

theorem writes_succeed (hcount : fs.order.length ≤ 511)
    (hentries : ∀ tag ∈ fs.order, ∃ e, fs.get tag = some e ∧ Writable e)
    (hfailover : Writable fs.failover) (hapart : fs.order.Pairwise (TagsApart fs))
    (hfailoverApart : ∀ tag ∈ fs.order, ∀ e, fs.get tag = some e → e.Apart fs.failover) :
    ∃ ws, fs.writes = .ok ws := by
  have hwritable : ∀ tag ∈ fs.order, ∀ e, fs.get tag = some e → Writable e := by
    intro tag htag e hget
    obtain ⟨e', hget', hwritable⟩ := hentries tag htag
    exact Option.some.inj (hget.symm.trans hget') ▸ hwritable
  obtain ⟨entries, horder⟩ := @orderWrites_succeeds fs fs.order 0 fun tag htag =>
    (hentries tag htag).imp fun e he => ⟨he.1, he.2.short⟩
  have hunsorted : fs.unsortedWrites = .ok (entries ++
      [⟨⟨failoverHeadAddr, fs.failover.fd.bytes⟩, true⟩,
        ⟨⟨fs.failover.spiAddr, fs.failover.data⟩, true⟩] ++
      [⟨⟨spiRxAddr, le32 spiRxValue⟩, true⟩]) :=
    bind_eq_ok.mpr ⟨entries, horder, bind_eq_ok.mpr
      ⟨_, entryWrites_of_short failoverHeadAddr true hfailover.short, rfl⟩⟩
  have hcases := fun w hw =>
    @orderWrites_place fs entries horder hcount hwritable hfailoverApart w hw
  have hbehind := hfailover.behind
  have hbytes : fs.failover.fd.bytes.length = fdSize := Fd.length_bytes
  have hword : (le32 spiRxValue).length = 4 := length_le32
  simp only [failoverHeadAddr, imageAddr, fdSize] at hcases hbehind hbytes
  refine writes_of_misses hunsorted (List.pairwise_append.mpr
    ⟨List.pairwise_append.mpr ⟨?_, ?_, ?_⟩, List.pairwise_singleton .., ?_⟩) ?_
  · refine orderWrites_misses horder ?_ (fun tag htag e hget => (hwritable tag htag e hget).behind)
      hapart
    simp only [fdSize, failoverHeadAddr]
    omega
  · refine List.pairwise_pair.mpr (.inl ?_)
    simp only [Piece.stop, failoverHeadAddr]
    omega
  · intro v hv w hw
    have hv := (hcases v hv).2
    simp only [List.mem_cons, List.not_mem_nil, or_false] at hw
    obtain rfl | rfl := hw <;> simp only [Write.Misses, Piece.stop, failoverHeadAddr] at hv ⊢ <;>
      omega
  · intro v hv w hw
    obtain rfl := List.mem_singleton.mp hw
    simp only [List.mem_append, List.mem_cons, List.not_mem_nil, or_false] at hv
    obtain hv | rfl | rfl := hv
    · have hv := (hcases v hv).2
      simp only [Write.Misses, Piece.stop, spiRxAddr] at hv ⊢
      omega
    · simp only [Write.Misses, Piece.stop, failoverHeadAddr, spiRxAddr]
      omega
    · simp only [Write.Misses, Piece.stop, spiRxAddr]
      omega
  · intro w hw
    simp only [List.mem_append, List.mem_cons, List.not_mem_nil, or_false] at hw
    obtain (hw | rfl | rfl) | rfl := hw
    · exact (hcases w hw).1
    · exact List.ne_nil_of_length_pos (by simp only; omega)
    · exact hfailover.nonempty
    · exact List.ne_nil_of_length_pos (by simp only; omega)

end

-- ---
-- Both steps succeed

section

variable {file : FileImage} {t : RangeTracker BootImage} {placed : List (ℤ × BootImage)}

theorem bootFsOf_tagsApart (h : file.WellFormed) (hfilled : Filled file.blockSize t placed)
    (hperm : (placed.map Prod.snd).Perm file.images) (hapart : Apart t.ranges) :
    (file.bootFsOf t).order.Pairwise (TagsApart (file.bootFsOf t)) := by
  have hget : ∀ p ∈ placed, (file.bootFsOf t).get p.2.tag = some (p.2.entryAt p.1) := by
    intro p hp
    exact bootFsOf_get hfilled (tagsOf_nodup h.distinct hperm) hp
      (h.notFailover p.2 (hperm.mem_iff.mp (List.mem_map_of_mem hp)))
  have htags : (tagsOf placed).Perm (file.images.map BootImage.tag) := by
    have hmap := hperm.map BootImage.tag
    rwa [List.map_map] at hmap
  have hplaced : (tagsOf placed).Pairwise (TagsApart (file.bootFsOf t)) := by
    rw [hfilled.ranges] at hapart
    refine List.pairwise_map.mpr ((List.pairwise_map.mp hapart.tail.ordered).imp_of_mem ?_)
    intro p q hp hq hle e e' he he'
    obtain rfl := Option.some.inj ((hget p hp).symm.trans he)
    obtain rfl := Option.some.inj ((hget q hq).symm.trans he')
    exact .inl hle
  have horder := (bootFsOf_order_perm h.distinct hfilled hperm).trans htags.symm
  exact (horder.pairwise_iff fun hab e e' he he' => (hab e' e he' he).symm).mpr hplaced

/-- A placed image is apart from the failover, unless it is a floating one on its address. -/
theorem bootFsOf_failoverApart (h : file.Compatible) (hfilled : Filled file.blockSize t placed)
    (hapart : Apart t.ranges) {p : ℤ × BootImage} (hp : p ∈ placed) (himage : p.2 ∈ file.images) :
    (p.2.entryAt p.1).Apart (file.bootFsOf t).failover ↔
      ∀ a, file.failover.spiAddr = some a → p.2.spiAddr = none →
        p.1 + p.2.binary.length ≤ a ∨ a + file.failover.binary.length ≤ p.1 := by
  obtain ⟨k, hblock⟩ := h.block
  show p.1 + (p.2.binary.length : ℤ) ≤ file.failoverAddr t ∨
    file.failoverAddr t + (file.failover.binary.length : ℤ) ≤ p.1 ↔ _
  rw [FileImage.failoverAddr]
  cases hfailover : file.failover.spiAddr with
  | none =>
    have hmiss := (hfilled.findGapOfSize_isLeast hapart hblock file.failover.binary.length).1.2.2
    refine iff_of_true (hmiss (spanOf p) (List.mem_map_of_mem hp)).symm ?_
    intro a ha
    cases ha
  | some a =>
    refine ⟨fun hmiss b hb _ => Option.some.inj hb ▸ hmiss, ?_⟩
    intro hfree
    cases himageAddr : p.2.spiAddr with
    | none => exact hfree a rfl himageAddr
    | some b =>
      rw [(hfilled.inPlace p hp).given b himageAddr]
      exact h.failoverGivenApart p.2 himage b a himageAddr hfailover

theorem bootFsOf_writable (h : file.Compatible) (hfilled : Filled file.blockSize t placed)
    (hperm : (placed.map Prod.snd).Perm file.images) {tag : Tag}
    (htag : tag ∈ (file.bootFsOf t).order) :
    ∃ p ∈ placed, p.2 ∈ file.images ∧ p.2.tag = tag ∧
      (file.bootFsOf t).get tag = some (p.2.entryAt p.1) ∧ Writable (p.2.entryAt p.1) := by
  have horder := bootFsOf_order_perm h.distinct hfilled hperm
  obtain ⟨image, himage, rfl⟩ := List.mem_map.mp (horder.mem_iff.mp htag)
  obtain ⟨addr, hp, hget⟩ := h.placed_get hfilled hperm himage
  exact ⟨(addr, image), hp, himage, rfl, hget, h.short image himage, h.nonempty image himage,
    (hfilled.inPlace _ hp).behind⟩

theorem bootFsOf_failover_writable (h : file.Compatible)
    (hfilled : Filled file.blockSize t placed) : Writable (file.bootFsOf t).failover := by
  obtain ⟨k, hblock⟩ := h.block
  refine ⟨h.failoverShort, h.failoverNonempty, ?_⟩
  show (imageAddr : ℤ) ≤ file.failoverAddr t
  rw [FileImage.failoverAddr]
  split
  · next a ha => exact (h.failoverGiven a ha).1
  · exact (hfilled.le_findGapOfSize hblock file.failover.binary.length).1

end

/-- **Compatible configurations are placed.** `to_boot_fs` succeeds for every choice and order
of the images without a given address. `writes` then succeeds exactly when the failover has no
given address or first-fit puts none of their sizes on its bytes. -/
theorem toBootFs_writes_succeed {file : FileImage} (h : file.Compatible) :
    ∃ fs places, file.toBootFs = .ok fs ∧
      FirstFit imageAddr file.blockSize (givenOf file.images) (floatingOf file.images) places ∧
      ((∃ ws, fs.writes = .ok ws) ↔
        ∀ a, file.failover.spiAddr = some a → ∀ p ∈ places,
          p.1 + p.2 ≤ a ∨ a + file.failover.binary.length ≤ p.1) := by
  obtain ⟨k, hblock⟩ := h.block
  obtain ⟨t, placed, places, hplace, hfit, hfilled, hapart, hplaces⟩ := place_firstFit h
  have hplaceable : ∀ image ∈ file.images, Placeable image := by
    intro image himage
    refine ⟨h.nonempty image himage, ?_⟩
    intro spiAddr hsome
    exact (Int.natCast_nonneg imageAddr).trans (h.given image himage spiAddr hsome).1
  have hperm : (placed.map Prod.snd).Perm file.images := by
    obtain ⟨placed', hfilled', hperm⟩ := place_filled hblock hplaceable hplace
    rwa [hfilled'.iter.symm.trans hfilled.iter] at hperm
  have horder := bootFsOf_order_perm h.distinct hfilled hperm
  refine ⟨file.bootFsOf t, places, bind_eq_ok.mpr ⟨t, hplace, rfl⟩, hfit, ?_, ?_⟩
  · rintro ⟨ws, hws⟩ a ha q hq
    obtain ⟨p, hp, hnone, rfl⟩ := (hplaces q).mp hq
    have himage := hperm.mem_iff.mp (List.mem_map_of_mem hp)
    refine (bootFsOf_failoverApart h hfilled hapart hp himage).mp ?_ a ha hnone
    refine (writes_tagsApart hws).2 p.2.tag
      (horder.mem_iff.mpr (List.mem_map_of_mem himage)) _ ?_
    exact bootFsOf_get hfilled (tagsOf_nodup h.distinct hperm) hp (h.notFailover p.2 himage)
  · intro hfree
    have hcount : (file.bootFsOf t).order.length ≤ 511 := by
      rw [horder.length_eq, List.length_map]
      exact h.count
    refine writes_succeed hcount ?_ (bootFsOf_failover_writable h hfilled)
      (bootFsOf_tagsApart h.toWellFormed hfilled hperm hapart) ?_
    · intro tag htag
      obtain ⟨p, -, -, -, hget, hwritable⟩ := bootFsOf_writable h hfilled hperm htag
      exact ⟨_, hget, hwritable⟩
    · intro tag htag e he
      obtain ⟨p, hp, himage, rfl, hget, -⟩ := bootFsOf_writable h hfilled hperm htag
      obtain rfl := Option.some.inj (hget.symm.trans he)
      refine (bootFsOf_failoverApart h hfilled hapart hp himage).mpr fun a ha hnone => ?_
      exact hfree a ha (spanOf p) ((hplaces _).mpr ⟨p, hp, hnone, rfl⟩)

theorem twoImageFile_compatible : twoImageFile.Compatible where
  toWellFormed := twoImageFile_wellFormed
  failoverNonempty := by decide
  failoverShort := by decide
  given := by simp [twoImageFile, GivenFits, imageAddr]
  failoverGiven := by simp [twoImageFile, GivenFits]
  givenApart := by simp [twoImageFile, GivenApart]
  failoverGivenApart := by simp [twoImageFile, GivenApart]

theorem toBootFs_writes_succeed_twoImages :
    ∃ fs ws, twoImageFile.toBootFs = .ok fs ∧ fs.writes = .ok ws := by
  obtain ⟨fs, places, hfs, -, hwrites⟩ := toBootFs_writes_succeed twoImageFile_compatible
  obtain ⟨ws, hws⟩ := hwrites.mpr fun a ha => by cases ha
  exact ⟨fs, ws, hfs, hws⟩

def givenFailoverFile : FileImage where
  blockSize := 0x1000
  images := [⟨false, "cmfw".toList, [1], false, none, 0⟩]
  failover := ⟨false, [], [3], true, some 0x14000, 0⟩

theorem givenFailoverFile_compatible : givenFailoverFile.Compatible where
  block := ⟨12, rfl⟩
  reserved := by decide
  count := by decide
  nonempty := by decide
  distinct := by decide
  short := by decide
  notFailover := by decide
  failoverNonempty := by decide
  failoverShort := by decide
  given := by simp [givenFailoverFile, GivenFits]
  failoverGiven := by simp [givenFailoverFile, GivenFits, imageAddr]
  givenApart := by simp [givenFailoverFile]
  failoverGivenApart := by simp [givenFailoverFile, GivenApart]

/-- The image is put on the address of the failover, and `writes` raises. -/
theorem given_failover_taken :
    givenFailoverFile.Compatible ∧
      ∃ fs, givenFailoverFile.toBootFs = .ok fs ∧
        fs.writes = .error (.overlap 0x14000 0x14001 0x14000 0x14001) := by
  refine ⟨givenFailoverFile_compatible, ?_⟩
  obtain ⟨fs, hfs⟩ := exists_of_isOk (show givenFailoverFile.toBootFs.isOk = true by
    decide +kernel)
  have hrun : ((givenFailoverFile.toBootFs >>= BootFs.writes).map fun _ => ()) =
      .error (.overlap 0x14000 0x14001 0x14000 0x14001) := by decide +kernel
  rw [hfs] at hrun
  refine ⟨fs, hfs, ?_⟩
  cases hws : fs.writes with
  | error e =>
    simp only [bind, Except.bind, hws, Except.map, Except.error.injEq] at hrun
    rw [hrun]
  | ok ws => simp [bind, Except.bind, hws, Except.map] at hrun

end SystemFirmware.TtBootFs
