import SystemFirmware.TtBootFs.FirstFit
import SystemFirmware.TtBootFs.Image

/-!
# Boot filesystem — where the images are placed

The tracker of `to_boot_fs` holds the reserved addresses in front and one range for every
image that was placed (`Filled`). Both loops keep this, whether or not the ranges keep
apart: `add` may let an image in that encloses another one, and only the overlap check of
`writes` finds that.
-/

namespace SystemFirmware.TtBootFs

open Lib

-- ---
-- The tracker while the images are placed

def reservedRange : Range BootImage := ⟨0, imageAddr, none⟩

def rangeOf (placed : ℤ × BootImage) : Range BootImage :=
  ⟨placed.1, placed.1 + placed.2.binary.length, some placed.2⟩

structure InPlace (blockSize : ℤ) (placed : ℤ × BootImage) : Prop where
  behind : (imageAddr : ℤ) ≤ placed.1
  aligned : blockSize ∣ placed.1
  given : ∀ spiAddr, placed.2.spiAddr = some spiAddr → placed.1 = spiAddr

/-- The tracker holds the reserved addresses and the images `placed`. -/
structure Filled (blockSize : ℤ) (t : RangeTracker BootImage) (placed : List (ℤ × BootImage)) :
    Prop where
  tracker : t = ⟨reservedRange :: placed.map rangeOf, blockSize⟩
  inPlace : ∀ p ∈ placed, InPlace blockSize p

structure Placeable (image : BootImage) : Prop where
  nonempty : image.binary ≠ []
  given : ∀ spiAddr, image.spiAddr = some spiAddr → 0 ≤ spiAddr

section

variable {blockSize addr : ℤ} {t t' : RangeTracker BootImage} {placed : List (ℤ × BootImage)}
  {image : BootImage} {images : List BootImage} {k : ℕ}

section

variable (h : Filled blockSize t placed)

include h

theorem Filled.ranges :
    t.ranges = reservedRange :: placed.map rangeOf := by rw [h.tracker]

theorem Filled.alignment : t.alignment = blockSize := by
  rw [h.tracker]

theorem Filled.iter : t.iter = placed := by
  rw [RangeTracker.iter, h.ranges, List.filterMap_cons_none rfl, List.filterMap_map]
  exact List.filterMap_some

theorem Filled.add (himage : image.binary ≠ []) (hpos : 0 ≤ addr)
    (hgiven : ∀ spiAddr, image.spiAddr = some spiAddr → addr = spiAddr)
    (hok : t.add addr (addr + image.binary.length) (some image) = .ok t') :
    ∃ placed', Filled blockSize t' placed' ∧ placed'.Perm ((addr, image) :: placed) := by
  obtain ⟨index, hindex, hdvd, rfl⟩ := RangeTracker.add_inv hok
  have hlen : 0 < image.binary.length := List.length_pos_iff.mpr himage
  rw [h.ranges, insertIndex] at hindex
  split at hindex
  · cases hindex
  · next hfree =>
    -- the new range starts neither in the reserved addresses nor in front of them
    have hbehind : (imageAddr : ℤ) ≤ addr := by
      simp only [reservedRange] at hfree
      omega
    have hfront : ¬ reservedRange.start > addr := by
      simp only [reservedRange]
      omega
    rw [if_neg hfront] at hindex
    obtain ⟨hlo, hhi⟩ := insertIndex_le hindex
    rw [List.length_map] at hhi
    obtain ⟨i, rfl⟩ : ∃ i, index = i + 1 := ⟨index - 1, by omega⟩
    have hperm := List.perm_insertIdx (addr, image) placed (show i ≤ placed.length by omega)
    refine ⟨placed.insertIdx i (addr, image), ⟨?_, ?_⟩, hperm⟩
    · rw [h.ranges, h.alignment, List.insertIdx_succ_cons, List.map_insertIdx]
      rfl
    · intro p hp
      obtain rfl | hp := List.mem_cons.mp (hperm.mem_iff.mp hp)
      · exact ⟨hbehind, h.alignment ▸ hdvd, hgiven⟩
      · exact h.inPlace p hp

/-- The reserved addresses are in front, so the search starts behind them. -/
theorem Filled.findGapOfSize_eq (size : ℕ) :
    t.findGapOfSize size =
      (t.gapFrom size (placed.map rangeOf) (t.alignUp imageAddr),
        t.gapFrom size (placed.map rangeOf) (t.alignUp imageAddr) + size) := by
  have hfront : ¬ reservedRange.start > (size : ℤ) := by
    simp only [reservedRange]
    omega
  rw [RangeTracker.findGapOfSize, h.ranges]
  exact if_neg hfront

theorem Filled.le_findGapOfSize (hblock : blockSize = 2 ^ k)
    (size : ℕ) :
    (imageAddr : ℤ) ≤ (t.findGapOfSize size).1 ∧ blockSize ∣ (t.findGapOfSize size).1 ∧
      (t.findGapOfSize size).2 = (t.findGapOfSize size).1 + size := by
  have hstops : ∀ q ∈ placed.map rangeOf, (imageAddr : ℤ) ≤ q.stop := by
    intro q hq
    obtain ⟨p, hp, rfl⟩ := List.mem_map.mp hq
    have := (h.inPlace p hp).behind
    simp only [rangeOf]
    omega
  rw [h.findGapOfSize_eq, ← h.alignment]
  obtain ⟨hle, hdvd⟩ := le_gapFrom (h.alignment.trans hblock) (Int.natCast_nonneg imageAddr)
    le_rfl hstops
  exact ⟨hle, hdvd, rfl⟩

-- ---
-- The two loops

theorem addGiven_filled (himage : Placeable image)
    (hok : addGiven blockSize t image = .ok t') :
    ∃ placed', Filled blockSize t' placed' ∧
      (placed'.map Prod.snd).Perm
        ([image].filter (fun image => image.spiAddr.isSome) ++ placed.map Prod.snd) := by
  rw [addGiven] at hok
  split at hok
  · next hnone =>
    cases hok
    exact ⟨placed, h, by simp [hnone]⟩
  · next spiAddr hsome =>
    split at hok
    · cases hok
    · split at hok
      · cases hok
      · obtain ⟨placed', hfilled, hperm⟩ := h.add himage.nonempty (himage.given spiAddr hsome)
          (fun a ha => Option.some.inj (hsome.symm.trans ha)) hok
        exact ⟨placed', hfilled, by simpa [hsome] using hperm.map Prod.snd⟩

end

theorem insertFloating_filled (hblock : blockSize = 2 ^ k) (h : Filled blockSize t placed)
    (himage : Placeable image) (hok : insertFloating t image = .ok t') :
    ∃ placed', Filled blockSize t' placed' ∧
      (placed'.map Prod.snd).Perm
        ([image].filter (fun image => !image.spiAddr.isSome) ++ placed.map Prod.snd) := by
  rw [insertFloating] at hok
  split at hok
  · next spiAddr hsome =>
    cases hok
    exact ⟨placed, h, by simp [hsome]⟩
  · next hnone =>
    obtain ⟨hbehind, -, hstop⟩ := h.le_findGapOfSize hblock image.binary.length
    rw [RangeTracker.insert, hstop] at hok
    obtain ⟨placed', hfilled, hperm⟩ := h.add himage.nonempty
      ((Int.natCast_nonneg imageAddr).trans hbehind)
      (fun a ha => by rw [hnone] at ha; cases ha) hok
    exact ⟨placed', hfilled, by simpa [hnone] using hperm.map Prod.snd⟩

theorem foldlM_filled {step : RangeTracker BootImage → BootImage → Except BuildError _}
    {select : BootImage → Bool}
    (hstep : ∀ {t t' placed image}, image ∈ images → Filled blockSize t placed →
      step t image = .ok t' → ∃ placed', Filled blockSize t' placed' ∧
        (placed'.map Prod.snd).Perm ([image].filter select ++ placed.map Prod.snd))
    (h : Filled blockSize t placed) (hok : images.foldlM step t = .ok t') :
    ∃ placed', Filled blockSize t' placed' ∧
      (placed'.map Prod.snd).Perm (images.filter select ++ placed.map Prod.snd) := by
  have hrun := foldlM_rule step (fun rest t => rest ⊆ images ∧ ∃ placed', Filled blockSize t placed' ∧
    (rest.filter select ++ placed'.map Prod.snd).Perm
      (images.filter select ++ placed.map Prod.snd)) ?_ ⟨List.Subset.refl _, placed, h, .refl _⟩ hok
  · exact hrun.2
  · rintro image rest t t' ⟨hsubset, placed₁, hfilled₁, hperm₁⟩ hok
    obtain ⟨himage, hrest⟩ := List.cons_subset.mp hsubset
    obtain ⟨placed', hfilled, hperm⟩ := hstep himage hfilled₁ hok
    refine ⟨hrest, placed', hfilled, .trans ?_ hperm₁⟩
    rw [← List.singleton_append, List.filter_append, List.append_assoc]
    exact (hperm.append_left _).trans (List.perm_append_comm_assoc ..)

end

theorem place_filled {file : FileImage} {t : RangeTracker BootImage} {k : ℕ}
    (hblock : file.blockSize = 2 ^ k) (himages : ∀ image ∈ file.images, Placeable image)
    (hok : file.place = .ok t) :
    ∃ placed, Filled file.blockSize t placed ∧ (placed.map Prod.snd).Perm file.images := by
  obtain ⟨t₀, hreserve, hok⟩ := bind_eq_ok.mp hok
  obtain ⟨t₁, hgiven, hfloating⟩ := bind_eq_ok.mp hok
  have hfilled₀ : Filled file.blockSize t₀ [] := by
    obtain ⟨index, hindex, -, rfl⟩ := RangeTracker.add_inv hreserve
    obtain rfl : 0 = index := Except.ok.inj hindex
    exact ⟨rfl, by simp⟩
  obtain ⟨placed₁, hfilled₁, hperm₁⟩ := foldlM_filled
    (fun hmem h => addGiven_filled h (himages _ hmem)) hfilled₀ hgiven
  obtain ⟨placed, hfilled, hperm⟩ := foldlM_filled
    (fun hmem h => insertFloating_filled hblock h (himages _ hmem)) hfilled₁ hfloating
  refine ⟨placed, hfilled, hperm.trans ?_⟩
  -- the images of the two loops together are all of them
  rw [List.map_nil, List.append_nil] at hperm₁
  exact ((hperm₁.append_left _).trans List.perm_append_comm).trans
    (List.filter_append_perm _ file.images)

-- ---
-- The filesystem made of the tracker

section

variable {placed : List (ℤ × BootImage)} {acc : (Tag → Option FsEntry) × List Tag}

def tagsOf (placed : List (ℤ × BootImage)) : List Tag := placed.map fun p => p.2.tag

theorem foldl_placeEntry_other {tag : Tag} (h : tag ∉ tagsOf placed) :
    (placed.foldl placeEntry acc).1 tag = acc.1 tag := by
  induction placed generalizing acc with
  | nil => rfl
  | cons p placed ih =>
    rw [tagsOf, List.map_cons, List.mem_cons, not_or] at h
    rw [List.foldl_cons, ih h.2, placeEntry]
    exact if_neg h.1

theorem foldl_placeEntry_get {p : ℤ × BootImage} (hdistinct : (tagsOf placed).Nodup)
    (hp : p ∈ placed) :
    (placed.foldl placeEntry acc).1 p.2.tag = some (p.2.entryAt p.1) := by
  induction placed generalizing acc with
  | nil => cases hp
  | cons q placed ih =>
    obtain ⟨hfirst, hrest⟩ := List.nodup_cons.mp hdistinct
    rw [List.foldl_cons]
    obtain rfl | hp := List.mem_cons.mp hp
    · rw [foldl_placeEntry_other hfirst, placeEntry]
      exact if_pos rfl
    · exact ih hrest hp

theorem foldl_placeEntry_order (hdistinct : (tagsOf placed).Nodup) :
    (placed.foldl placeEntry acc).2 =
      acc.2 ++ (tagsOf placed).filter fun tag => tag ∉ acc.2 := by
  induction placed generalizing acc with
  | nil => exact (List.append_nil _).symm
  | cons p placed ih =>
    have hcons : tagsOf (p :: placed) = p.2.tag :: tagsOf placed := rfl
    rw [hcons] at hdistinct
    obtain ⟨hfirst, hrest⟩ := List.nodup_cons.mp hdistinct
    rw [List.foldl_cons, ih hrest, placeEntry, hcons]
    by_cases hmem : p.2.tag ∈ acc.2
    · have hcontains : acc.2.contains p.2.tag = true := List.contains_iff_mem.mpr hmem
      simp only [if_pos hcontains]
      rw [List.filter_cons_of_neg (by simp [hmem])]
    · -- the tag of `p` comes now, and no other image has it
      have hsame : (tagsOf placed).filter (fun tag => tag ∉ acc.2 ++ [p.2.tag]) =
          (tagsOf placed).filter fun tag => tag ∉ acc.2 := by
        apply List.filter_congr
        intro tag htag
        have hne : tag ≠ p.2.tag := fun heq => hfirst (heq ▸ htag)
        simp [hne]
      have hcontains : ¬ acc.2.contains p.2.tag = true := List.contains_iff_mem.not.mpr hmem
      rw [List.filter_cons_of_pos (by simp [hmem])]
      simp only [if_neg hcontains]
      rw [hsame, List.append_assoc, List.singleton_append]

end

section

variable {file : FileImage} {t : RangeTracker BootImage} {placed : List (ℤ × BootImage)}

theorem tagsOf_nodup (hdistinct : (file.images.map BootImage.tag).Nodup)
    (hperm : (placed.map Prod.snd).Perm file.images) : (tagsOf placed).Nodup := by
  have htags : tagsOf placed = (placed.map Prod.snd).map BootImage.tag := by
    rw [tagsOf, List.map_map]
    rfl
  rw [htags]
  exact (hperm.map BootImage.tag).nodup_iff.mpr hdistinct

theorem bootFsOf_get {p : ℤ × BootImage} (hfilled : Filled file.blockSize t placed)
    (hdistinct : (tagsOf placed).Nodup) (hp : p ∈ placed) (htag : p.2.tag ≠ failoverTag) :
    (file.bootFsOf t).get p.2.tag = some (p.2.entryAt p.1) := by
  rw [BootFs.get, if_neg htag]
  show (t.iter.foldl placeEntry (fun _ => none, file.executableTags)).1 p.2.tag = _
  rw [hfilled.iter]
  exact foldl_placeEntry_get hdistinct hp

theorem bootFsOf_order (hfilled : Filled file.blockSize t placed)
    (hdistinct : (tagsOf placed).Nodup) :
    (file.bootFsOf t).order =
      file.executableTags ++ (tagsOf placed).filter fun tag => tag ∉ file.executableTags := by
  show (t.iter.foldl placeEntry (fun _ => none, file.executableTags)).2 = _
  rw [hfilled.iter]
  exact foldl_placeEntry_order hdistinct

theorem mem_executableTags (hdistinct : (file.images.map BootImage.tag).Nodup) {image : BootImage}
    (himage : image ∈ file.images) : image.tag ∈ file.executableTags ↔ image.executable = true := by
  constructor
  · intro hmem
    obtain ⟨other, hother, htag⟩ := List.mem_map.mp hmem
    obtain ⟨hmem, hexecutable⟩ := List.mem_filter.mp hother
    rw [← List.inj_on_of_nodup_map hdistinct hmem himage htag]
    exact hexecutable
  · intro hexecutable
    exact List.mem_map.mpr ⟨image, List.mem_filter.mpr ⟨himage, hexecutable⟩, rfl⟩

theorem bootFsOf_order_perm (hdistinct : (file.images.map BootImage.tag).Nodup)
    (hfilled : Filled file.blockSize t placed)
    (hperm : (placed.map Prod.snd).Perm file.images) :
    (file.bootFsOf t).order.Perm (file.images.map BootImage.tag) := by
  rw [bootFsOf_order hfilled (tagsOf_nodup hdistinct hperm)]
  have htags : (tagsOf placed).Perm (file.images.map BootImage.tag) := by
    have hmap := hperm.map BootImage.tag
    rwa [List.map_map] at hmap
  have hothers : (file.images.map BootImage.tag).filter (fun tag => tag ∉ file.executableTags) =
      (file.images.filter fun image => !image.executable).map BootImage.tag := by
    rw [List.filter_map]
    congr 1
    apply List.filter_congr
    intro image himage
    have := mem_executableTags hdistinct himage
    cases hexecutable : image.executable <;> simp [this, hexecutable]
  have hsplit := (List.filter_append_perm (fun image => image.executable) file.images).map
    BootImage.tag
  rw [List.map_append, ← hothers] at hsplit
  exact ((htags.filter _).append_left _).trans hsplit

end

-- ---
-- What the overlap check gives

def Write.Misses (v w : Write) : Prop := v.stop ≤ w.addr ∨ w.stop ≤ v.addr

def FsEntry.Apart (e e' : FsEntry) : Prop :=
  e.spiAddr + e.data.length ≤ e'.spiAddr ∨ e'.spiAddr + e'.data.length ≤ e.spiAddr

theorem FsEntry.Apart.symm {e e' : FsEntry} (h : e.Apart e') : e'.Apart e := Or.symm h

def TagsApart (fs : BootFs) (tag tag' : Tag) : Prop :=
  ∀ e e', fs.get tag = some e → fs.get tag' = some e' → e.Apart e'

section

variable {fs : BootFs} {ws : List Write}

theorem unsortedWrites_misses (h : fs.writes = .ok ws) :
    ∃ unsorted, fs.unsortedWrites = .ok unsorted ∧ unsorted.Pairwise Write.Misses := by
  obtain ⟨unsorted, hunsorted, hperm, hpair⟩ := writes_ok h
  have hmisses : ws.Pairwise Write.Misses := hpair.imp fun hle => .inl hle
  exact ⟨unsorted, hunsorted, (hperm.pairwise_iff fun hvw => Or.symm hvw).mp hmisses⟩

theorem orderWrites_apart {order : List Tag} {addr : ℤ} (h : orderWrites fs order addr = .ok ws)
    (hws : ws.Pairwise Write.Misses) : order.Pairwise (TagsApart fs) := by
  induction order generalizing addr ws with
  | nil => exact .nil
  | cons tag rest ih =>
    obtain ⟨e, more, hget, -, hmore, rfl⟩ := orderWrites_cons_ok h
    obtain ⟨-, hrest, hacross⟩ := List.pairwise_append.mp hws
    refine List.pairwise_cons.mpr ⟨?_, ih hmore hrest⟩
    intro tag' htag' e₁ e' he₁ he'
    obtain rfl : e = e₁ := Option.some.inj (hget.symm.trans he₁)
    obtain ⟨j, hj⟩ := List.mem_iff_getElem?.mp htag'
    obtain ⟨e₂, he₂, -, -, hdata⟩ := (orderWrites_ok hmore).1 j tag' hj
    obtain rfl : e' = e₂ := Option.some.inj (he'.symm.trans he₂)
    exact hacross _ (List.mem_cons_of_mem _ List.mem_cons_self) _ hdata

theorem writes_tagsApart (h : fs.writes = .ok ws) :
    fs.order.Pairwise (TagsApart fs) ∧
      ∀ tag ∈ fs.order, ∀ e, fs.get tag = some e → e.Apart fs.failover := by
  obtain ⟨unsorted, hunsorted, hmisses⟩ := unsortedWrites_misses h
  obtain ⟨entries, failover, hentries, hfailover, rfl⟩ := unsortedWrites_ok hunsorted
  obtain ⟨-, rfl⟩ := entryWrites_ok hfailover
  obtain ⟨hentriesMiss, -, hacross⟩ :=
    List.pairwise_append.mp (List.pairwise_append.mp hmisses).1
  refine ⟨orderWrites_apart hentries hentriesMiss, ?_⟩
  intro tag htag e hget
  obtain ⟨j, hj⟩ := List.mem_iff_getElem?.mp htag
  obtain ⟨e', he', -, -, hdata⟩ := (orderWrites_ok hentries).1 j tag hj
  obtain rfl : e = e' := Option.some.inj (hget.symm.trans he')
  exact hacross _ hdata _ (List.mem_cons_of_mem _ List.mem_cons_self)

end

-- ---
-- The placement

/-- The block size is a power of two that divides the reserved addresses, and at most 511 images,
none of them empty, have distinct tags that fit into a descriptor and are not the failover's. -/
structure FileImage.WellFormed (file : FileImage) : Prop where
  block : ∃ k : ℕ, file.blockSize = 2 ^ k
  reserved : file.blockSize ∣ imageAddr
  count : file.images.length ≤ 511
  nonempty : ∀ image ∈ file.images, image.binary ≠ []
  distinct : (file.images.map BootImage.tag).Nodup
  short : ∀ image ∈ file.images, image.tag.length ≤ maxTagLen
  notFailover : ∀ image ∈ file.images, image.tag ≠ failoverTag

/-- Where the images of a configuration are in a filesystem. -/
structure Placement (file : FileImage) (fs : BootFs) : Prop where
  /-- Every tag once. -/
  once : fs.order.Perm (file.images.map BootImage.tag)
  /-- The executable images in front, in the order of the configuration. -/
  executables : file.executableTags <+: fs.order
  image : ∀ image ∈ file.images, ∃ addr, fs.get image.tag = some (image.entryAt addr) ∧
    (imageAddr : ℤ) ≤ addr ∧ (∀ spiAddr, image.spiAddr = some spiAddr → addr = spiAddr) ∧
    (image.spiAddr = none → file.blockSize ∣ addr)
  failover : fs.failover.data = file.failover.binary ∧
    (∀ spiAddr, file.failover.spiAddr = some spiAddr → fs.failover.spiAddr = spiAddr) ∧
    (file.failover.spiAddr = none → (imageAddr : ℤ) ≤ fs.failover.spiAddr)
  apart : ∀ image ∈ file.images, ∀ other ∈ file.images, image ≠ other →
    TagsApart fs image.tag other.tag
  failoverApart : ∀ image ∈ file.images, ∀ e, fs.get image.tag = some e → e.Apart fs.failover

theorem toBootFs_ok {file : FileImage} {fs : BootFs} (h : file.toBootFs = .ok fs) :
    ∃ t, file.place = .ok t ∧ fs = file.bootFsOf t := by
  obtain ⟨t, hplace, hfs⟩ := bind_eq_ok.mp h
  exact ⟨t, hplace, (Except.ok.inj hfs).symm⟩

section

variable {file : FileImage} {t : RangeTracker BootImage} {placed : List (ℤ × BootImage)}

theorem FileImage.WellFormed.placed_get (h : file.WellFormed)
    (hfilled : Filled file.blockSize t placed)
    (hperm : (placed.map Prod.snd).Perm file.images) {image : BootImage}
    (himage : image ∈ file.images) :
    ∃ addr, (addr, image) ∈ placed ∧
      (file.bootFsOf t).get image.tag = some (image.entryAt addr) := by
  obtain ⟨⟨addr, image'⟩, hp, rfl⟩ := List.mem_map.mp (hperm.mem_iff.mpr himage)
  exact ⟨addr, hp, bootFsOf_get hfilled (tagsOf_nodup h.distinct hperm) hp
    (h.notFailover image' himage)⟩

end

/-- **Image placement**, when no given address is negative: the order has every tag once, with the
executable images in front; every image is at its given address, or at a multiple of the block
size, behind the reserved addresses; and no two of the images and the failover share an address.
-/
theorem toBootFs_placement {file : FileImage} {fs : BootFs} {ws : List Write}
    (h : file.WellFormed)
    (hgiven : ∀ image ∈ file.images, ∀ spiAddr, image.spiAddr = some spiAddr → 0 ≤ spiAddr)
    (hfs : file.toBootFs = .ok fs) (hws : fs.writes = .ok ws) : Placement file fs := by
  obtain ⟨t, hplace, rfl⟩ := toBootFs_ok hfs
  obtain ⟨k, hblock⟩ := h.block
  obtain ⟨placed, hfilled, hperm⟩ := place_filled hblock
    (fun image himage => ⟨h.nonempty image himage, hgiven image himage⟩) hplace
  have hnodup := tagsOf_nodup h.distinct hperm
  have horder := bootFsOf_order_perm h.distinct hfilled hperm
  have hmem : ∀ image ∈ file.images, image.tag ∈ (file.bootFsOf t).order := by
    intro image himage
    exact horder.mem_iff.mpr (List.mem_map_of_mem himage)
  obtain ⟨hapart, hfailover⟩ := writes_tagsApart hws
  refine ⟨horder, ?_, ?_, ⟨rfl, ?_, ?_⟩, ?_, ?_⟩
  · rw [bootFsOf_order hfilled hnodup]
    exact ⟨_, rfl⟩
  · intro image himage
    obtain ⟨addr, hp, hget⟩ := h.placed_get hfilled hperm himage
    have hinPlace := hfilled.inPlace _ hp
    exact ⟨addr, hget, hinPlace.behind, hinPlace.given, fun _ => hinPlace.aligned⟩
  · intro spiAddr hsome
    show file.failoverAddr t = spiAddr
    rw [FileImage.failoverAddr, hsome]
  · intro hnone
    show (imageAddr : ℤ) ≤ file.failoverAddr t
    rw [FileImage.failoverAddr, hnone]
    exact (hfilled.le_findGapOfSize hblock file.failover.binary.length).1
  · intro image himage other hother hne
    have hsymm : Std.Symm (TagsApart (file.bootFsOf t)) :=
      ⟨fun tag tag' hab e e' he he' => (hab e' e he' he).symm⟩
    refine hapart.forall (hmem image himage) (hmem other hother) ?_
    exact fun htag => hne (List.inj_on_of_nodup_map h.distinct himage hother htag)
  · intro image himage e hget
    exact hfailover image.tag (hmem image himage) e hget

def twoImageFile : FileImage where
  blockSize := 0x1000
  images := [⟨false, "cmfw".toList, [1], false, none, 0⟩,
    ⟨false, "boardcfg".toList, [2], false, some 0x14000, 0⟩]
  failover := ⟨false, [], [3], true, none, 0⟩

theorem twoImageFile_wellFormed : twoImageFile.WellFormed where
  block := ⟨12, rfl⟩
  reserved := by decide
  count := by decide
  nonempty := by decide
  distinct := by decide
  short := by decide
  notFailover := by decide

theorem toBootFs_placement_twoImages :
    ∃ fs ws, twoImageFile.toBootFs = .ok fs ∧ fs.writes = .ok ws ∧ Placement twoImageFile fs := by
  obtain ⟨ws, hws⟩ := exists_of_isOk
    (show (twoImageFile.toBootFs >>= BootFs.writes).isOk = true by decide +kernel)
  obtain ⟨fs, hfs, hws⟩ := bind_eq_ok.mp hws
  exact ⟨fs, ws, hfs, hws, toBootFs_placement twoImageFile_wellFormed (by decide) hfs hws⟩

def negativeFile : FileImage where
  blockSize := 0x1000
  images := [⟨false, "cmfw".toList, [1], false, some (-0x1000), 0⟩]
  failover := ⟨false, [], [3], true, some 0x14000, 0⟩

/-- A negative address is in front of the reserved addresses, and nothing refuses it. -/
theorem negative_spiAddr_placed :
    negativeFile.WellFormed ∧
      ∃ fs ws e, negativeFile.toBootFs = .ok fs ∧ fs.writes = .ok ws ∧
        fs.get "cmfw".toList = some e ∧ e.spiAddr < imageAddr := by
  refine ⟨⟨⟨12, rfl⟩, ?_, ?_, ?_, ?_, ?_, ?_⟩, _, _, _, rfl, rfl, rfl, ?_⟩ <;> decide

end SystemFirmware.TtBootFs
