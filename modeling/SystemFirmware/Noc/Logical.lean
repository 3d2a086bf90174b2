import SystemFirmware.Noc.Tensix

/-!
# NOC translation — logical coordinates address their nodes

Looking a node's logical coordinate up in the tables has to give the node back.
`ApplyLogicalCoords` cannot break that: it writes a coordinate to the node the tables map
that coordinate to. Only a change of a table entry in use can, so the invariant bounds the
entries in use, and every group after the Tensix columns writes entries above the bound
(`noc_translation_consistent`).
-/

namespace SystemFirmware.Noc

open Lib

-- ---
-- Coordinates

variable {i : ℕ}

theorem mem_interval {first last : ℕ} : i ∈ interval first last ↔ first ≤ i ∧ i ≤ last := by
  rw [interval, List.mem_range'_1]
  omega

theorem toNat_logicalCoord {x y : ℕ} (hx : x < 64) (hy : y < 64) :
    (logicalCoord x y).toNat = y * 64 + x := by
  have hor : y <<< 6 ||| x = y * 64 + x := by
    rw [← Nat.shiftLeft_add_eq_or_of_lt (show x < 2 ^ 6 from hx), Nat.shiftLeft_eq]
  rw [logicalCoord, hor]
  exact UInt16.toNat_ofNat_of_lt' (show y * 64 + x < 65536 by omega)

theorem logicalX_logicalCoord {x y : ℕ} (hx : x < 64) (hy : y < 64) :
    logicalX (logicalCoord x y) = x := by
  rw [logicalX, toNat_logicalCoord hx hy]
  omega

theorem logicalY_logicalCoord {x y : ℕ} (hx : x < 64) (hy : y < 64) :
    logicalY (logicalCoord x y) = y := by
  rw [logicalY, toNat_logicalCoord hx hy]
  omega

theorem setLogicalCoord_apply (coords : ℕ → ℕ → UInt16) (postX postY lx ly x y : ℕ) :
    setLogicalCoord coords postX postY lx ly x y =
      if x = postX ∧ y = postY then logicalCoord lx ly else coords x y := by
  rw [setLogicalCoord]
  by_cases hx : x = postX
  · subst hx
    by_cases hy : y = postY
    · subst hy
      simp
    · simp [hy]
  · simp [hx]

/-- The masks `ComputeNocTranslation` uses: columns are not translated on rows 0
and 1, rows always are. -/
structure Masks (nt : NocTranslation) : Prop where
  enabled : nt.translateEn = true
  row : nt.translateRowMask = 0x3#32
  col : nt.translateColMask = 0x0#32

section

variable {nt : NocTranslation} {lx ly : ℕ}

theorem Masks.translated (h : Masks nt) (hrow : 2 ≤ ly) :
    nocLogicalToPhysical nt lx ly = (nt.translateTableX lx, nt.translateTableY ly) := by
  have hmask : (0x3#32).getLsbD ly = false := by
    rw [show 0x3#32 = BitVec.ofNat 32 (2 ^ 2 - 1) from rfl, getLsbD_lowMask, Bool.and_eq_false_iff]
    exact .inr (decide_eq_false (by omega))
  simp [nocLogicalToPhysical, h.enabled, h.row, h.col, hmask]

theorem Masks.blocked (h : Masks nt) (hrow : ly < 2) :
    nocLogicalToPhysical nt lx ly = (lx, nt.translateTableY ly) := by
  have hmask : (0x3#32).getLsbD ly = true := by
    rw [show 0x3#32 = BitVec.ofNat 32 (2 ^ 2 - 1) from rfl, getLsbD_lowMask, Bool.and_eq_true]
    exact ⟨decide_eq_true (by omega), decide_eq_true hrow⟩
  simp [nocLogicalToPhysical, h.enabled, h.row, h.col, hmask]

end

-- ---
-- Addressing

/-- The logical coordinate of the node at `(x, y)` addresses it, and uses entries up
to the bounds. -/
def Addressed (nt : NocTranslation) (boundX boundY x y : ℕ) (coords : ℕ → ℕ → UInt16) : Prop :=
  ∃ lx ly, lx ≤ boundX ∧ ly ≤ boundY ∧ coords x y = logicalCoord lx ly ∧
    nocLogicalToPhysical nt lx ly = (x, y)

theorem foldl_of_mem {α β : Type} {f : β → α → β} {P : β → Prop} {l : List α} {a : α} (ha : a ∈ l)
    (hset : ∀ b, P (f b a)) (hkeep : ∀ b, ∀ c ∈ l, P b → P (f b c)) (b : β) : P (l.foldl f b) := by
  induction l generalizing b with
  | nil => simp at ha
  | cons c l ih =>
    rcases List.mem_cons.mp ha with rfl | hmem
    · exact List.foldlRecOn l f (hset b) fun b hb c hc => hkeep b c (List.mem_cons_of_mem _ hc) hb
    · exact ih hmem (fun b c hc => hkeep b c (List.mem_cons_of_mem _ hc)) (f b c)

section

variable {nt : NocTranslation} {boundX boundY x y : ℕ} {coords : ℕ → ℕ → UInt16} {post pre : Box}

theorem Addressed.set {postX postY lx ly : ℕ} (h : Addressed nt boundX boundY x y coords)
    (hx : lx ≤ boundX) (hy : ly ≤ boundY) (hmap : nocLogicalToPhysical nt lx ly = (postX, postY)) :
    Addressed nt boundX boundY x y (setLogicalCoord coords postX postY lx ly) := by
  rw [Addressed, setLogicalCoord_apply]
  split
  · rename_i heq
    exact ⟨lx, ly, hx, hy, rfl, by rw [hmap, heq.1, heq.2]⟩
  · exact h

/-- The box of a call: unblocked rows, and entries up to the bounds. -/
structure InBounds (boundX boundY : ℕ) (pre : Box) : Prop where
  x : pre.xEnd ≤ boundX
  y : pre.yEnd ≤ boundY
  row : 2 ≤ pre.yStart

variable (hmasks : Masks nt) (hpre : InBounds boundX boundY pre)
include hmasks hpre

theorem applyColumn_keeps {preX : ℕ} (hpreX : preX ≤ pre.xEnd)
    (h : Addressed nt boundX boundY x y coords) :
    Addressed nt boundX boundY x y (applyColumn nt post pre preX coords) := by
  unfold applyColumn
  refine List.foldlRecOn (motive := Addressed nt boundX boundY x y)
    _ _ h fun coords hcoords preY hpreY => ?_
  obtain ⟨hstart, hend⟩ := mem_interval.mp hpreY
  have := hpre.row
  dsimp only
  split
  · exact hcoords
  · exact hcoords.set (hpreX.trans hpre.x) (hend.trans hpre.y) (hmasks.translated (by omega))

theorem applyLogicalCoords_keeps (h : Addressed nt boundX boundY x y nt.logicalCoords) :
    Addressed (applyLogicalCoords nt post pre) boundX boundY x y
      (applyLogicalCoords nt post pre).logicalCoords := by
  show Addressed nt boundX boundY x y _
  refine List.foldlRecOn (motive := Addressed nt boundX boundY x y)
    _ _ h fun coords hcoords preX hpreX => ?_
  dsimp only
  split
  · exact hcoords
  · exact applyColumn_keeps hmasks hpre (mem_interval.mp hpreX).2 hcoords

theorem applyLogicalCoords_sets {preX preY : ℕ} (hpreX : preX ∈ interval pre.xStart pre.xEnd)
    (hpreY : preY ∈ interval pre.yStart pre.yEnd) (hx : x ∈ interval post.xStart post.xEnd)
    (hy : y ∈ interval post.yStart post.yEnd) (htableX : nt.translateTableX preX = x)
    (htableY : nt.translateTableY preY = y) :
    Addressed (applyLogicalCoords nt post pre) boundX boundY x y
      (applyLogicalCoords nt post pre).logicalCoords := by
  show Addressed nt boundX boundY x y _
  rw [mem_interval] at hx hy
  have hpreX' := mem_interval.mp hpreX
  have hpreY' := mem_interval.mp hpreY
  have hrow := hpre.row
  have hset : ∀ coords : ℕ → ℕ → UInt16,
      Addressed nt boundX boundY x y (setLogicalCoord coords x y preX preY) := by
    intro coords
    rw [Addressed, setLogicalCoord_apply, if_pos ⟨rfl, rfl⟩]
    refine ⟨preX, preY, hpreX'.2.trans hpre.x, hpreY'.2.trans hpre.y, rfl, ?_⟩
    rw [hmasks.translated (by omega), htableX, htableY]
  refine foldl_of_mem (P := Addressed nt boundX boundY x y) hpreX ?_ ?_ _
  · intro coords
    dsimp only
    rw [htableX, if_neg (by omega)]
    refine foldl_of_mem (P := Addressed nt boundX boundY x y) hpreY ?_ ?_ _
    · intro coords
      dsimp only
      rw [htableX, htableY, if_neg (by omega)]
      exact hset coords
    · intro coords preY hpreY hcoords
      obtain ⟨hstart, hend⟩ := mem_interval.mp hpreY
      dsimp only
      split
      · exact hcoords
      · exact hcoords.set (hpreX'.2.trans hpre.x) (hend.trans hpre.y) (hmasks.translated (by omega))
  · intro coords preX hpreX hcoords
    dsimp only
    split
    · exact hcoords
    · exact applyColumn_keeps hmasks hpre (mem_interval.mp hpreX).2 hcoords

end

-- ---
-- The groups

/-- Every node is addressed by its logical coordinate. -/
structure Consistent (nt : NocTranslation) (boundX boundY : ℕ) : Prop where
  masks : Masks nt
  addressed : ∀ x < nocXSize, ∀ y < nocYSize, Addressed nt boundX boundY x y nt.logicalCoords

section

variable {nt : NocTranslation} {boundX boundY : ℕ}

theorem Consistent.tables (h : Consistent nt boundX boundY) {tableX tableY : ℕ → ℕ}
    {boundX' boundY' : ℕ} (hx : ∀ i ≤ boundX, tableX i = nt.translateTableX i)
    (hy : ∀ i ≤ boundY, tableY i = nt.translateTableY i) (hboundX : boundX ≤ boundX')
    (hboundY : boundY ≤ boundY') :
    Consistent { nt with translateTableX := tableX, translateTableY := tableY } boundX' boundY' where
  masks := ⟨h.masks.enabled, h.masks.row, h.masks.col⟩
  addressed := by
    intro x hx' y hy'
    obtain ⟨lx, ly, hlx, hly, hcoord, hmap⟩ := h.addressed x hx' y hy'
    refine ⟨lx, ly, hlx.trans hboundX, hly.trans hboundY, hcoord, ?_⟩
    rw [← hmap]
    simp only [nocLogicalToPhysical, hx lx hlx, hy ly hly]

theorem Masks.apply (h : Masks nt) {post pre : Box} : Masks (applyLogicalCoords nt post pre) :=
  ⟨h.enabled, h.row, h.col⟩

theorem Consistent.apply (h : Consistent nt boundX boundY) {post pre : Box}
    (hpre : InBounds boundX boundY pre) : Consistent (applyLogicalCoords nt post pre) boundX boundY where
  masks := h.masks.apply
  addressed := fun x hx y hy => applyLogicalCoords_keeps h.masks hpre (h.addressed x hx y hy)

variable {table : ℕ → ℕ} {i : ℕ}

theorem copyBytes_of_lt {start : ℕ} {bytes : List ℕ} (hi : i < start) :
    copyBytes table start bytes i = table i := if_neg (by omega)

theorem gddrTable_of_lt {badGddr : ℕ} (hi : i < 12) : gddrTable badGddr table i = table i := by
  refine List.foldlRecOn (motive := fun t : ℕ → ℕ => t i = table i) _ _ rfl fun t ht gddr _ => ?_
  rw [copyBytes_of_lt (by omega), ht]

theorem placeGddr_consistent (h : Consistent nt 16 11) (badGddr : ℕ) :
    Consistent (placeGddr badGddr nt) 18 23 := by
  have hpre : InBounds 18 23 ⟨17, 12, 18, 23⟩ := ⟨by decide, by decide, by decide⟩
  have hy : ∀ i ≤ 11, gddrTable badGddr nt.translateTableY i = nt.translateTableY i :=
    fun i hi => gddrTable_of_lt (by omega)
  have hx : ∀ i ≤ 16, Function.update
      (Function.update nt.translateTableX (if badGddr ≥ 4 then 17 else 18) 0)
      (if badGddr ≥ 4 then 18 else 17) 9 i = nt.translateTableX i := by
    intro i hi
    rw [Function.update_of_ne (by split <;> omega), Function.update_of_ne (by split <;> omega)]
  exact ((h.tables hx hy (by decide) (by decide)).apply hpre).apply hpre

theorem placePcie_consistent (h : Consistent nt 18 23) (pcieInstance : ℕ) :
    Consistent (placePcie pcieInstance nt) 19 24 := by
  have hx : ∀ i ≤ 18, Function.update nt.translateTableX 19 (if pcieInstance ≠ 0 then 11 else 2) i =
      nt.translateTableX i := fun i hi => Function.update_of_ne (by omega) _ _
  have hy : ∀ i ≤ 23, Function.update nt.translateTableY 24 0 i = nt.translateTableY i :=
    fun i hi => Function.update_of_ne (by omega) _ _
  exact (h.tables hx hy (by decide) (by decide)).apply ⟨by decide, by decide, by decide⟩

theorem placeEth_consistent (h : Consistent nt 19 24) {skipEth : BitVec 16} {nt' : NocTranslation}
    (heth : placeEth skipEth nt = some nt') : Consistent nt' 31 25 := by
  obtain ⟨columns, -, heth⟩ := Option.bind_eq_some_iff.mp heth
  rw [← Option.some.inj heth]
  have hx : ∀ i ≤ 19, copyBytes nt.translateTableX 20 columns i = nt.translateTableX i :=
    fun i hi => copyBytes_of_lt (by omega)
  have hy : ∀ i ≤ 24, Function.update nt.translateTableY 25 1 i = nt.translateTableY i :=
    fun i hi => Function.update_of_ne (by omega) _ _
  have hpre : InBounds 31 25 ⟨20, 25, 31, 25⟩ := ⟨by decide, by decide, by decide⟩
  exact ((h.tables hx hy (by decide) (by decide)).apply hpre).apply hpre

theorem placeL2Cpu_consistent (h : Consistent nt 31 25) : Consistent (placeL2Cpu nt) 31 29 := by
  have hy : ∀ i ≤ 25, copyBytes nt.translateTableY 26 kL2CpuNoc0Y i = nt.translateTableY i :=
    fun i hi => copyBytes_of_lt (by omega)
  exact (h.tables (fun _ _ => rfl) hy (by decide) (by decide)).apply ⟨by decide, by decide, by decide⟩

theorem placeSecurity_consistent (h : Consistent nt 31 29) : Consistent (placeSecurity nt) 31 30 := by
  have hy : ∀ i ≤ 29, Function.update nt.translateTableY 30 2 i = nt.translateTableY i :=
    fun i hi => Function.update_of_ne (by omega) _ _
  exact (h.tables (fun _ _ => rfl) hy (by decide) (by decide)).apply ⟨by decide, by decide, by decide⟩

end

-- ---
-- The Tensix group

/-- The two calls for the Tensix nodes, west and east of the middle columns. -/
def applyTensix (nt : NocTranslation) : NocTranslation :=
  applyLogicalCoords (applyLogicalCoords nt ⟨1, 2, 7, 11⟩ ⟨1, 2, 16, 11⟩)
    ⟨10, 2, 16, 11⟩ ⟨1, 2, 16, 11⟩

section

variable {nt : NocTranslation} {x y : ℕ}

theorem inBounds_tensix : InBounds 16 11 ⟨1, 2, 16, 11⟩ := ⟨le_rfl, le_rfl, le_rfl⟩

theorem applyTensix_sets (hmasks : Masks nt) {preX : ℕ} (hpre : preX ∈ tensixCols)
    (htableX : nt.translateTableX preX = x) (htableY : nt.translateTableY y = y)
    (hx : x ∈ tensixCols) (hy : y ∈ interval 2 11) :
    Addressed (applyTensix nt) 16 11 x y (applyTensix nt).logicalCoords := by
  have hpreX : preX ∈ interval 1 16 := by
    rw [tensixCols, List.mem_append, mem_interval, mem_interval] at hpre
    exact mem_interval.mpr (by omega)
  rcases List.mem_append.mp hx with hwest | heast
  · have hset := @applyLogicalCoords_sets nt 16 11 x y ⟨1, 2, 7, 11⟩ _ hmasks inBounds_tensix preX y
      hpreX hy hwest hy htableX htableY
    exact applyLogicalCoords_keeps hmasks.apply inBounds_tensix hset
  · exact applyLogicalCoords_sets hmasks.apply inBounds_tensix hpreX hy heast hy htableX htableY

theorem applyTensix_keeps (hmasks : Masks nt) (h : Addressed nt 16 11 x y nt.logicalCoords) :
    Addressed (applyTensix nt) 16 11 x y (applyTensix nt).logicalCoords :=
  applyLogicalCoords_keeps hmasks.apply inBounds_tensix
    (applyLogicalCoords_keeps hmasks inBounds_tensix h)

theorem addressed_identity (hmasks : Masks nt) (hx : x ≤ 16) (hy : y ≤ 11)
    (hcoord : nt.logicalCoords x y = logicalCoord x y) (htableY : nt.translateTableY y = y)
    (htableX : 2 ≤ y → nt.translateTableX x = x) :
    Addressed nt 16 11 x y nt.logicalCoords := by
  refine ⟨x, y, hx, hy, hcoord, ?_⟩
  rcases Nat.lt_or_ge y 2 with hrow | hrow
  · rw [hmasks.blocked hrow, htableY]
  · rw [hmasks.translated hrow, htableX hrow, htableY]

end

variable {badTensixCols : BitVec 16}

/-- The columns are permuted, so every Tensix node is addressed anew. The others keep the
identity. -/
theorem placeTensix_consistent {nt : NocTranslation} (hcols : ∀ i ∈ bits badTensixCols, i < 14)
    (hcount : (bits badTensixCols).length ≤ 7) (hmasks : Masks nt)
    (htableX : nt.translateTableX = makeIdentity.translateTableX)
    (htableY : nt.translateTableY = makeIdentity.translateTableY)
    (hcoords : nt.logicalCoords = makeIdentity.logicalCoords) :
    ∃ nt', placeTensix badTensixCols nt = some nt' ∧ Consistent nt' 16 11 ∧
      tensixCols.map nt'.translateTableX = goodCols badTensixCols ++ (badCols badTensixCols).reverse := by
  obtain ⟨table, htable, hmap, hother⟩ := map_tensixTable hcols hcount nt.translateTableX
  have hmasks' : Masks { nt with translateTableX := table } :=
    ⟨hmasks.enabled, hmasks.row, hmasks.col⟩
  refine ⟨applyTensix { nt with translateTableX := table }, ?_, ⟨hmasks'.apply.apply, ?_⟩, hmap⟩
  · rw [placeTensix, htable]
    rfl
  · intro x hx y hy
    have hrow : nt.translateTableY y = y := by
      rw [htableY]
      exact if_pos hy
    by_cases hnode : x ∈ tensixCols ∧ 2 ≤ y
    · obtain ⟨preX, hpreX, htable⟩ := List.mem_map.mp
        ((map_tensixCols_perm hcols hmap).mem_iff.mpr hnode.1)
      exact applyTensix_sets hmasks' hpreX htable hrow hnode.1
        (mem_interval.mpr ⟨hnode.2, Nat.le_of_lt_succ hy⟩)
    · apply applyTensix_keeps hmasks'
      apply addressed_identity hmasks' (Nat.le_of_lt_succ hx) (Nat.le_of_lt_succ hy) ?_ hrow
      · intro hrow'
        show table x = x
        rw [hother x fun hmem => hnode ⟨hmem, hrow'⟩, htableX]
        exact if_pos hx
      · show nt.logicalCoords x y = _
        rw [hcoords]
        rfl

theorem copyBytesSkipIndices_isSome {input : List ℕ} {count : ℕ} {skipMask : BitVec 32}
    (henough : count + (List.range input.length).countP skipMask.getLsbD ≤ input.length) :
    ∃ out, copyBytesSkipIndices count input skipMask = some out := by
  induction input generalizing count skipMask with
  | nil =>
    obtain rfl : count = 0 := by simpa using henough
    exact ⟨[], rfl⟩
  | cons byte input ih =>
    cases count with
    | zero => exact ⟨[], rfl⟩
    | succ count =>
      rw [List.length_cons, List.range_succ_eq_map, List.countP_cons, List.countP_map] at henough
      have hshift : (List.range input.length).countP (skipMask >>> 1).getLsbD =
          (List.range input.length).countP (skipMask.getLsbD ∘ Nat.succ) :=
        List.countP_congr fun i _ => by
          rw [BitVec.getLsbD_ushiftRight, Function.comp_apply, Nat.succ_eq_one_add]
      rw [copyBytesSkipIndices]
      split
      · rename_i hskip
        rw [if_pos hskip] at henough
        exact ih (by omega)
      · rename_i hskip
        rw [if_neg hskip] at henough
        obtain ⟨out, hout⟩ : ∃ out, copyBytesSkipIndices count input (skipMask >>> 1) = some out :=
          ih (by omega)
        exact ⟨byte :: out, by rw [hout]; rfl⟩

variable {skipEth : BitVec 16}

theorem placeEth_isSome (hskip : (List.range 14).countP skipEth.getLsbD ≤ 2) (nt : NocTranslation) :
    ∃ nt', placeEth skipEth nt = some nt' := by
  have hwide : (List.range 14).countP (skipEth.setWidth 32).getLsbD =
      (List.range 14).countP skipEth.getLsbD := by
    refine List.countP_congr fun i hi => ?_
    rw [BitVec.getLsbD_setWidth, Bool.and_eq_true, decide_eq_true_eq]
    exact and_iff_right_of_imp fun _ => by
      rw [List.mem_range] at hi
      omega
  obtain ⟨columns, hcolumns⟩ :
      ∃ out, copyBytesSkipIndices 12 kTensixEthNoc0X (skipEth.setWidth 32) = some out :=
    copyBytesSkipIndices_isSome
      (show 12 + (List.range 14).countP (skipEth.setWidth 32).getLsbD ≤ 14 by omega)
  rw [placeEth, hcolumns]
  exact ⟨_, rfl⟩

variable {pcieInstance badGddr : ℕ}

theorem placeEth_tableX {nt nt' : NocTranslation}
    (heth : placeEth skipEth (placePcie pcieInstance (placeGddr badGddr nt)) = some nt')
    (hi : i ≤ 16) : nt'.translateTableX i = nt.translateTableX i := by
  obtain ⟨columns, -, heth⟩ := Option.bind_eq_some_iff.mp heth
  rw [← Option.some.inj heth]
  show copyBytes (Function.update (Function.update (Function.update nt.translateTableX
    (if badGddr ≥ 4 then 17 else 18) 0) (if badGddr ≥ 4 then 18 else 17) 9) 19 _) 20 columns i = _
  rw [copyBytes_of_lt (by omega), Function.update_of_ne (by omega),
    Function.update_of_ne (by split <;> omega), Function.update_of_ne (by split <;> omega)]

-- ---
-- Round trips

section

variable {nt : NocTranslation} {boundX boundY x y : ℕ}

theorem Addressed.roundTrip {coords : ℕ → ℕ → UInt16} (h : Addressed nt boundX boundY x y coords)
    (hboundX : boundX < 64) (hboundY : boundY < 64) :
    nocLogicalToPhysical nt (logicalX (coords x y)) (logicalY (coords x y)) = (x, y) := by
  obtain ⟨lx, ly, hlx, hly, hcoord, hmap⟩ := h
  rw [hcoord, logicalX_logicalCoord (by omega) (by omega), logicalY_logicalCoord (by omega) (by omega)]
  exact hmap

/-- The tables of the second network count from the other corner, and so do its
nodes. -/
theorem noc1_roundTrip (h : Consistent nt 31 30) (hx : x < nocXSize) (hy : y < nocYSize) :
    let coord := (copyNoc0ToNoc1 nt).logicalCoords x y
    2 ≤ logicalY coord →
      nocLogicalToPhysical (copyNoc0ToNoc1 nt) (logicalX coord) (logicalY coord) = (x, y) := by
  intro coord hrow
  have hmasks : Masks (copyNoc0ToNoc1 nt) := ⟨h.masks.enabled, h.masks.row, h.masks.col⟩
  have hnode : nocLogicalToPhysical nt (logicalX coord) (logicalY coord) =
      (nocXSize - x - 1, nocYSize - y - 1) :=
    (h.addressed _ (by omega) _ (by omega)).roundTrip (by decide) (by decide)
  rw [h.masks.translated hrow, Prod.mk.injEq] at hnode
  rw [hmasks.translated hrow]
  show (nocXSize - nt.translateTableX (logicalX coord) - 1,
    nocYSize - nt.translateTableY (logicalY coord) - 1) = (x, y)
  rw [hnode.1, hnode.2, Prod.mk.injEq]
  omega

end

-- ---
-- Both networks

/-- `ComputeNocTranslation` returns, the Tensix entries hold the good columns and
then the bad ones, and every node is addressed. -/
theorem computeNocTranslation_consistent (hcols : ∀ i ∈ bits badTensixCols, i < 14)
    (hcount : (bits badTensixCols).length ≤ 7)
    (hskip : (List.range 14).countP skipEth.getLsbD ≤ 2) :
    ∃ nt, computeNocTranslation pcieInstance badTensixCols badGddr skipEth = some nt ∧
      Consistent nt 31 30 ∧
      tensixCols.map nt.translateTableX = goodCols badTensixCols ++ (badCols badTensixCols).reverse := by
  have hstart : Masks { makeIdentity with
      translateRowMask := makeIdentity.translateRowMask ||| 0x3#32 } := ⟨rfl, rfl, rfl⟩
  obtain ⟨tensix, htensix, hconsistent, hmap⟩ :=
    placeTensix_consistent hcols hcount hstart rfl rfl rfl
  obtain ⟨eth, heth⟩ : ∃ nt,
      placeEth skipEth (placePcie pcieInstance (placeGddr badGddr tensix)) = some nt :=
    placeEth_isSome hskip _
  have hcompute : computeNocTranslation pcieInstance badTensixCols badGddr skipEth =
      some (placeSecurity (placeL2Cpu eth)) := by
    simp only [computeNocTranslation, htensix, Option.bind_eq_bind, Option.bind_some, heth,
      Option.pure_def]
  have heth31 : Consistent eth 31 25 :=
    placeEth_consistent (placePcie_consistent (placeGddr_consistent hconsistent _) _) heth
  refine ⟨_, hcompute, placeSecurity_consistent (placeL2Cpu_consistent heth31), ?_⟩
  rw [← hmap]
  refine List.map_congr_left fun i hi => ?_
  rw [tensixCols, List.mem_append, mem_interval, mem_interval] at hi
  show eth.translateTableX i = tensix.translateTableX i
  exact placeEth_tableX heth (by omega)

/-- **Logical coordinates and tables agree**, for at most seven bad columns, every bad GDDR
controller, either PCIe instance and every `skip_eth` with at most two of its low fourteen bits
set. The Tensix columns are permuted, good ones first in increasing order, and the logical
coordinate of a node is mapped back to it; on the second network where the logical row is
translated. -/
theorem noc_translation_consistent {pcieInstance badGddr : ℕ} {badTensixCols skipEth : BitVec 16}
    (hcols : ∀ i ∈ bits badTensixCols, i < 14) (hcount : (bits badTensixCols).length ≤ 7)
    (hskip : (List.range 14).countP skipEth.getLsbD ≤ 2) :
    ∃ t, initNocTranslation pcieInstance badTensixCols badGddr skipEth = some t ∧
      tensixCols.map t.noc0.translateTableX =
        goodCols badTensixCols ++ (badCols badTensixCols).reverse ∧
      (tensixCols.map t.noc0.translateTableX).Perm tensixCols ∧
      (∀ x < nocXSize, ∀ y < nocYSize,
        let coord := t.noc0.logicalCoords x y
        nocLogicalToPhysical t.noc0 (logicalX coord) (logicalY coord) = (x, y)) ∧
      (∀ x < nocXSize, ∀ y < nocYSize, ∀ x' < nocXSize, ∀ y' < nocYSize,
        t.noc0.logicalCoords x y = t.noc0.logicalCoords x' y' → x = x' ∧ y = y') ∧
      ∀ x < nocXSize, ∀ y < nocYSize,
        let coord := t.noc1.logicalCoords x y
        2 ≤ logicalY coord →
          nocLogicalToPhysical t.noc1 (logicalX coord) (logicalY coord) = (x, y) := by
  obtain ⟨nt, hcompute, hconsistent, hmap⟩ :
      ∃ nt, computeNocTranslation pcieInstance badTensixCols badGddr skipEth = some nt ∧ _ ∧ _ :=
    computeNocTranslation_consistent hcols hcount hskip
  have hround := fun x hx y hy => (hconsistent.addressed x hx y hy).roundTrip (by decide) (by decide)
  refine ⟨⟨nt, copyNoc0ToNoc1 nt⟩, ?_, hmap, map_tensixCols_perm hcols hmap, hround, ?_, ?_⟩
  · rw [initNocTranslation, hcompute]
    rfl
  · intro x hx y hy x' hx' y' hy' hcoord
    have hnode := hround x hx y hy
    rw [hcoord, hround x' hx' y' hy', Prod.mk.injEq] at hnode
    exact ⟨hnode.1.symm, hnode.2.symm⟩
  · intro x hx y hy
    exact noc1_roundTrip hconsistent hx hy

theorem harvested_consistent :
    ∃ t, initNocTranslation 1 0x83#16 2 0x210#16 = some t ∧
      tensixCols.map t.noc0.translateTableX = [2, 3, 4, 5, 6, 7, 10, 11, 12, 14, 15, 13, 16, 1] ∧
      ∀ x < nocXSize, ∀ y < nocYSize,
        nocLogicalToPhysical t.noc0 (logicalX (t.noc0.logicalCoords x y))
          (logicalY (t.noc0.logicalCoords x y)) = (x, y) := by
  obtain ⟨t, hinit, hmap, -, hround, -⟩ :
      ∃ t, initNocTranslation 1 0x83#16 2 0x210#16 = some t ∧ _ ∧ _ ∧ _ ∧ _ :=
    noc_translation_consistent (by decide) (by decide) (by decide)
  refine ⟨t, hinit, ?_, hround⟩
  rw [hmap]
  decide

end SystemFirmware.Noc
