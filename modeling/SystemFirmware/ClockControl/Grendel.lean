import Mathlib.Algebra.Order.Field.Rat
import Mathlib.Data.Nat.Bitwise
import Mathlib.Tactic.Linarith
import SystemFirmware.Lib.Bits

/-!
# Clock control — the PLLs of Grendel

`drivers/clock_control/clock_control_tt_grendel.c`. A PLL has one frequency control word of 8
integer and 14 fractional bits, and four outputs with a post divider each.

`set_rate` cuts the integer part to eight bits before it checks the range
(`set_rate_accurate`). And it writes the control word for one output, although the other
outputs share it (`set_rate_keeps_others`).
-/

namespace SystemFirmware.ClockControl.Grendel

open Lib

inductive Errno
  | einval | etimedout | eagain
  deriving DecidableEq

/-- The fields of the registers; they are wide enough for what the driver writes. -/
structure Layout where
  freqAcqMask : UInt32
  fcwIntMask : UInt32
  fcwFracMask : UInt32
  /-- `postdiv_mask_for_output`. -/
  postdivMask : ℕ → UInt32
  /-- The position of its lowest bit. -/
  postdivShift : ℕ → UInt32
  int_fits : ∀ v < 2 ^ 8, .ofNat v &&& fcwIntMask = .ofNat v
  frac_fits : ∀ v < 2 ^ 14, .ofNat v &&& fcwFracMask = .ofNat v
  postdiv_fits : ∀ output < 4, ∀ v ≤ 4,
    (.ofNat v <<< postdivShift output &&& postdivMask output) >>> postdivShift output = .ofNat v
  disjoint : ∀ output < 4, ∀ other < 4, other ≠ output →
    postdivMask output &&& postdivMask other = 0

structure Registers where
  enables : UInt32
  fcwInt : UInt32
  fcwFrac : UInt32
  postdivArray : UInt32
  /-- The fields of `POSTDIV_CONFIG`. -/
  postdivConfig : ℕ → UInt8

variable (l : Layout)

def Layout.getPostdiv (regs : Registers) (output : ℕ) : ℕ :=
  ((regs.postdivArray &&& l.postdivMask output) >>> l.postdivShift output).toUInt8.toNat

def Layout.setPostdiv (regs : Registers) (output postdiv : ℕ) : Registers :=
  let mask := l.postdivMask output
  { regs with postdivArray := (regs.postdivArray &&& ~~~mask) |||
      ((.ofNat postdiv : UInt32) <<< l.postdivShift output &&& mask) }

structure Setting where
  postdiv : ℕ
  fcwInt : ℕ
  fcwFrac : ℕ

/-- `fcw_fixed`; it has at most 50 bits. -/
def fcwFixed (tgtRate refClk : UInt32) (postdiv : ℕ) : ℕ :=
  tgtRate.toNat * 2 ^ (postdiv + 14) / refClk.toNat

/-- The loop over the post dividers, with `left` of them still to come. -/
def search (tgtRate refClk : UInt32) : (left postdiv : ℕ) → Option Setting
  | 0, _ => none
  | left + 1, postdiv =>
    let fixed := fcwFixed tgtRate refClk postdiv
    let fcwInt := fixed / 2 ^ 14 % 256
    if 16 ≤ fcwInt ∧ fcwInt ≤ 255 then some ⟨postdiv, fcwInt, fixed % 2 ^ 14⟩
    else search tgtRate refClk left (postdiv + 1)

/-- The register writes of `set_rate`. -/
def Layout.program (regs : Registers) (output : ℕ) (s : Setting) : Registers :=
  let enables := regs.enables &&& ~~~l.freqAcqMask
  let regs := { regs with enables, fcwInt := .ofNat s.fcwInt, fcwFrac := .ofNat s.fcwFrac }
  let regs := l.setPostdiv regs output s.postdiv
  { regs with enables := enables ||| l.freqAcqMask }

/-- `clock_control_tt_grendel_set_rate`; `locked` says whether the PLL locks in time. -/
def Layout.setRate (refClk : UInt32) (regs : Registers) (output : ℕ) (tgtRate : UInt32)
    (locked : Bool) : Except Errno Unit × Registers :=
  if output ≥ 4 then (.error .einval, regs)
  else if tgtRate = 0 ∨ refClk = 0 then (.error .einval, regs)
  else match search tgtRate refClk 4 1 with
    | none => (.error .einval, regs)
    | some s => (if locked then .ok () else .error .etimedout, l.program regs output s)

/-- The control word that `get_rate` reads. -/
def Layout.fcwCombined (regs : Registers) : ℕ :=
  (regs.fcwInt &&& l.fcwIntMask).toNat <<< 14 ||| (regs.fcwFrac &&& l.fcwFracMask).toNat

def Layout.getRate (refClk : UInt32) (regs : Registers) (output : ℕ) : Except Errno UInt32 :=
  if output ≥ 4 then .error .einval
  else if regs.postdivConfig output = 3 then .error .eagain
  else if regs.postdivConfig output = 2 then .ok refClk
  else .ok (.ofNat (refClk.toNat * l.fcwCombined regs % 2 ^ 64 /
    2 ^ (14 + l.getPostdiv regs output)))

-- ---
-- What is programmed

variable {l} {refClk rate : UInt32} {regs : Registers} {output other : ℕ} {s : Setting}

/-- The first post divider exponent with which the integer part of the control word, cut to eight
bits, is in range. -/
def FirstPostdiv (rate refClk : UInt32) (k : ℕ) : Prop :=
  1 ≤ k ∧ k ≤ 4 ∧ 16 ≤ rate.toNat * 2 ^ k / refClk.toNat % 256 ∧
    ∀ j, 1 ≤ j → j < k → rate.toNat * 2 ^ j / refClk.toNat % 256 < 16

theorem FirstPostdiv.unique {j k : ℕ} (hj : FirstPostdiv rate refClk j)
    (hk : FirstPostdiv rate refClk k) : j = k := by
  obtain ⟨hj1, -, hjfit, hjfirst⟩ := hj
  obtain ⟨hk1, -, hkfit, hkfirst⟩ := hk
  rcases Nat.lt_trichotomy j k with hlt | heq | hlt
  · have := hkfirst j hj1 hlt
    omega
  · exact heq
  · have := hjfirst k hk1 hlt
    omega

theorem fcwFixed_div (k : ℕ) :
    fcwFixed rate refClk k / 2 ^ 14 = rate.toNat * 2 ^ k / refClk.toNat := by
  rw [fcwFixed, pow_add, ← mul_assoc, Nat.div_div_eq_div_mul, mul_comm refClk.toNat,
    Nat.mul_comm _ (2 ^ 14), Nat.mul_div_mul_left _ _ (by norm_num)]

theorem search_none {left postdiv : ℕ} (h : search rate refClk left postdiv = none) {k : ℕ}
    (hlo : postdiv ≤ k) (hhi : k < postdiv + left) :
    rate.toNat * 2 ^ k / refClk.toNat % 256 < 16 := by
  induction left generalizing postdiv with
  | zero => omega
  | succ left ih =>
    simp only [search, fcwFixed_div] at h
    split_ifs at h with hfound
    rcases Nat.eq_or_lt_of_le hlo with rfl | hlt
    · omega
    · exact ih h hlt (by omega)

/-- What the loop finds: the parts of the control word, modulo `2 ^ 22`. -/
theorem search_some {left postdiv : ℕ} (h : search rate refClk left postdiv = some s) :
    (postdiv ≤ s.postdiv ∧ s.postdiv < postdiv + left ∧
      16 ≤ rate.toNat * 2 ^ s.postdiv / refClk.toNat % 256 ∧
      ∀ j, postdiv ≤ j → j < s.postdiv → rate.toNat * 2 ^ j / refClk.toNat % 256 < 16) ∧
    s.fcwInt < 256 ∧ s.fcwFrac < 2 ^ 14 ∧
      s.fcwInt * 2 ^ 14 + s.fcwFrac = fcwFixed rate refClk s.postdiv % 2 ^ 22 := by
  induction left generalizing postdiv with
  | zero => cases h
  | succ left ih =>
    simp only [search] at h
    split_ifs at h with hfound
    · cases h
      have hfit := hfound.1
      rw [fcwFixed_div] at hfit
      dsimp only
      exact ⟨⟨Nat.le_refl _, by omega, hfit, fun j hlo hlt => by omega⟩, Nat.mod_lt _ (by norm_num),
        Nat.mod_lt _ (by norm_num), by omega⟩
    · obtain ⟨⟨hlo, hhi, hfit, hfirst⟩, hword⟩ := ih h
      rw [fcwFixed_div] at hfound
      refine ⟨⟨by omega, by omega, hfit, fun j hj hlt => ?_⟩, hword⟩
      rcases Nat.eq_or_lt_of_le hj with rfl | hlt'
      · omega
      · exact hfirst j hlt' hlt

/-- The control word for a rate with a post divider exponent. -/
def wordFor (rate refClk : UInt32) (k : ℕ) : ℕ := fcwFixed rate refClk k % 2 ^ 22

/-- What an accepted call programs. -/
structure Programs (rate refClk : UInt32) (s : Setting) : Prop where
  first : FirstPostdiv rate refClk s.postdiv
  int_lt : s.fcwInt < 256
  frac_lt : s.fcwFrac < 2 ^ 14
  word : s.fcwInt * 2 ^ 14 + s.fcwFrac = wordFor rate refClk s.postdiv

theorem Layout.setRate_cases (locked : Bool) :
    (l.setRate refClk regs output rate locked = (.error .einval, regs) ∧
      (output ≥ 4 ∨ ∀ k, ¬FirstPostdiv rate refClk k)) ∨
    ∃ s, output < 4 ∧ Programs rate refClk s ∧
      (l.setRate refClk regs output rate locked).1 ≠ .error .einval ∧
      (l.setRate refClk regs output rate locked).2 = l.program regs output s := by
  by_cases hout : output ≥ 4
  · exact .inl ⟨if_pos hout, .inl hout⟩
  rw [setRate, if_neg hout]
  by_cases hzero : rate = 0 ∨ refClk = 0
  · refine .inl ⟨if_pos hzero, .inr fun k ⟨_, _, hfit, _⟩ => ?_⟩
    rcases hzero with rfl | rfl
    · simp at hfit
    · simp at hfit
  · rw [if_neg hzero]
    cases hs : search rate refClk 4 1 with
    | none =>
      refine .inl ⟨rfl, .inr fun k ⟨hlo, hhi, hfit, _⟩ => ?_⟩
      have := search_none hs hlo (by omega)
      omega
    | some s =>
      obtain ⟨⟨hlo, hhi, hfit, hfirst⟩, hint, hfrac, hword⟩ := search_some hs
      refine .inr ⟨s, not_le.mp hout, ⟨⟨hlo, by omega, hfit, hfirst⟩, hint, hfrac, hword⟩, ?_, rfl⟩
      cases locked <;> simp

theorem toNat_ofNat_of_lt {n : ℕ} (h : n < 2 ^ 32) : (UInt32.ofNat n).toNat = n :=
  UInt32.toNat_ofNat_of_lt' h

theorem Layout.fcwCombined_program (hint : s.fcwInt < 256) (hfrac : s.fcwFrac < 2 ^ 14) :
    l.fcwCombined (l.program regs output s) = s.fcwInt * 2 ^ 14 + s.fcwFrac := by
  change (UInt32.ofNat s.fcwInt &&& l.fcwIntMask).toNat <<< 14 |||
    (UInt32.ofNat s.fcwFrac &&& l.fcwFracMask).toNat = _
  rw [l.int_fits _ hint, l.frac_fits _ hfrac, toNat_ofNat_of_lt (show s.fcwInt < 2 ^ 32 by omega),
    toNat_ofNat_of_lt (show s.fcwFrac < 2 ^ 32 by omega), ← Nat.shiftLeft_add_eq_or_of_lt hfrac,
    Nat.shiftLeft_eq]

theorem Layout.postdivArray_program : (l.program regs output s).postdivArray =
    (regs.postdivArray &&& ~~~l.postdivMask output) |||
      ((.ofNat s.postdiv : UInt32) <<< l.postdivShift output &&& l.postdivMask output) :=
  rfl

theorem Layout.postdivConfig_program :
    (l.program regs output s).postdivConfig = regs.postdivConfig := rfl

theorem Layout.getPostdiv_program (hout : output < 4) (hs : s.postdiv ≤ 4) :
    l.getPostdiv (l.program regs output s) output = s.postdiv := by
  rw [getPostdiv, postdivArray_program, insertField_and_self, l.postdiv_fits output hout _ hs,
    UInt32.toNat_toUInt8, toNat_ofNat_of_lt (by omega)]
  omega

theorem Layout.getPostdiv_program_of_ne (hout : output < 4) (hother : other < 4)
    (hne : other ≠ output) :
    l.getPostdiv (l.program regs output s) other = l.getPostdiv regs other := by
  rw [getPostdiv, postdivArray_program, insertField_and_disjoint (l.disjoint _ hout _ hother hne),
    getPostdiv]

/-- `get_rate` of any output after an accepted call: the control word has at most 22 bits. -/
theorem Layout.getRate_program (hs : Programs rate refClk s) (hother : other < 4)
    (hgate : regs.postdivConfig other ≠ 3) (hbypass : regs.postdivConfig other ≠ 2) :
    l.getRate refClk (l.program regs output s) other =
      .ok (.ofNat (refClk.toNat * wordFor rate refClk s.postdiv /
        2 ^ (14 + l.getPostdiv (l.program regs output s) other))) := by
  have hproduct : refClk.toNat * wordFor rate refClk s.postdiv < 2 ^ 64 :=
    calc _ < 2 ^ 32 * 2 ^ 22 := Nat.mul_lt_mul_of_lt_of_le refClk.toNat_lt
          (Nat.mod_lt _ (by norm_num)).le (by norm_num)
      _ ≤ 2 ^ 64 := by norm_num
  rw [getRate, if_neg (not_le.mpr hother), postdivConfig_program, if_neg hgate, if_neg hbypass,
    fcwCombined_program hs.int_lt hs.frac_lt, hs.word, Nat.mod_eq_of_lt hproduct]

theorem div_mul_div_near {r ref d : ℕ} (href : 0 < ref) (hd : 0 < d) :
    ref * (r * d / ref) / d ≤ r ∧ r * d < (ref * (r * d / ref) / d + 1) * d + ref := by
  have hfirst := Nat.div_add_mod (r * d) ref
  have hmod := Nat.mod_lt (r * d) href
  have hsecond := Nat.div_add_mod' (ref * (r * d / ref)) d
  have hmod' := Nat.mod_lt (ref * (r * d / ref)) hd
  refine ⟨Nat.div_le_of_le_mul (by rw [mul_comm d]; omega), ?_⟩
  rw [Nat.add_mul, one_mul]
  omega

/-- With the first post divider the rate fits: then no exponent that is tried before the first that
is in range overflows, nor does that one. -/
theorem FirstPostdiv.lt {k : ℕ} (h : FirstPostdiv rate refClk k)
    (hrate : 2 * rate.toNat < 256 * refClk.toNat) : rate.toNat * 2 ^ k < 256 * refClk.toNat := by
  obtain ⟨hlo, hhi, -, hfirst⟩ := h
  have href : 0 < refClk.toNat := by omega
  have hsteps : ∀ j, 1 ≤ j → j ≤ k → rate.toNat * 2 ^ j < 256 * refClk.toNat := by
    intro j hj
    induction j, hj using Nat.le_induction with
    | base => intro; omega
    | succ j hj ih =>
      intro hjk
      have hquot : rate.toNat * 2 ^ j / refClk.toNat < 256 :=
        (Nat.div_lt_iff_lt_mul href).mpr (ih (by omega))
      have hsmall : rate.toNat * 2 ^ j / refClk.toNat < 16 := by
        have := hfirst j hj (by omega)
        omega
      have := (Nat.div_lt_iff_lt_mul href).mp hsmall
      rw [pow_succ, ← mul_assoc]
      omega
  exact hsteps k hlo le_rfl

theorem wordFor_of_lt {k : ℕ} (h : rate.toNat * 2 ^ k < 256 * refClk.toNat) :
    wordFor rate refClk k = rate.toNat * 2 ^ (14 + k) / refClk.toNat := by
  have href : 0 < refClk.toNat := by omega
  have hquot := (Nat.div_lt_iff_lt_mul href).mpr h
  rw [← fcwFixed_div] at hquot
  rw [wordFor, Nat.mod_eq_of_lt (by omega), fcwFixed, add_comm]

/-- One bit more than the control word has: the rate that is set is far below. -/
theorem wordFor_far {k d : ℕ} (hd : 2 ^ (14 + k) = d)
    (h : 256 * refClk.toNat ≤ rate.toNat * 2 ^ k) :
    refClk.toNat * wordFor rate refClk k / d * d + refClk.toNat * 2 ^ 22 ≤ rate.toNat * d := by
  rcases Nat.eq_zero_or_pos refClk.toNat with hzero | href
  · simp [hzero]
  have hquot := (Nat.le_div_iff_mul_le href).mpr h
  rw [← fcwFixed_div] at hquot
  have hword : wordFor rate refClk k + 2 ^ 22 ≤ fcwFixed rate refClk k := by
    rw [wordFor]
    omega
  calc refClk.toNat * wordFor rate refClk k / d * d + refClk.toNat * 2 ^ 22
      ≤ refClk.toNat * wordFor rate refClk k + refClk.toNat * 2 ^ 22 :=
        Nat.add_le_add_right (Nat.div_mul_le_self _ _) _
    _ = refClk.toNat * (wordFor rate refClk k + 2 ^ 22) := (Nat.mul_add _ _ _).symm
    _ ≤ refClk.toNat * fcwFixed rate refClk k := Nat.mul_le_mul_left _ hword
    _ ≤ rate.toNat * d := by
        rw [fcwFixed, add_comm k, hd]
        exact Nat.mul_div_le _ _

/-- **When a rate is refused, or met** within one step of the control word and one hertz: exactly if
it is below 128 reference clocks, or no integer part, cut to eight bits, is in range. -/
theorem set_rate_accurate (locked : Bool) (hgate : regs.postdivConfig output ≠ 3)
    (hbypass : regs.postdivConfig output ≠ 2) :
    (l.setRate refClk regs output rate locked = (.error .einval, regs) ∨
      ∃ g, l.getRate refClk (l.setRate refClk regs output rate locked).2 output = .ok g ∧
        g ≤ rate ∧ (rate.toNat - g.toNat : ℚ) < refClk.toNat /
          2 ^ (14 + l.getPostdiv (l.setRate refClk regs output rate locked).2 output) + 1) ↔
      output ≥ 4 ∨ 2 * rate.toNat < 256 * refClk.toNat ∨ ∀ k, ¬FirstPostdiv rate refClk k := by
  obtain ⟨hrefused, hwhy⟩ | ⟨s, hout, hs, hnot, hset⟩ := l.setRate_cases locked
  · exact iff_of_true (.inl hrefused) (hwhy.imp_right .inr)
  have hk := hs.first.2.1
  have hpostdiv : l.getPostdiv (l.program regs output s) output = s.postdiv :=
    Layout.getPostdiv_program hout hk
  have hget := @Layout.getRate_program l _ _ regs output _ _ hs hout hgate hbypass
  have hpow : 2 ^ (14 + s.postdiv) ≤ 2 ^ 18 := Nat.pow_le_pow_right (by norm_num) (by omega)
  obtain ⟨d, hd⟩ : ∃ d, 2 ^ (14 + s.postdiv) = d := ⟨_, rfl⟩
  have hdpos : 0 < d := hd ▸ Nat.pow_pos (by norm_num)
  have hdq : (0 : ℚ) < d := by exact_mod_cast hdpos
  have hdcast : (2 : ℚ) ^ (14 + s.postdiv) = d := by
    rw [← hd]
    norm_num
  have hrlt := rate.toNat_lt
  have href : 0 < refClk.toNat := by
    rcases Nat.eq_zero_or_pos refClk.toNat with hzero | hpos
    · have hfit := hs.first.2.2.1
      simp [hzero] at hfit
    · exact hpos
  rw [hpostdiv, hd] at hget
  rw [hset, hpostdiv, hdcast, or_iff_right (fun h => hnot (congrArg Prod.fst h)),
    or_iff_right (show ¬ output ≥ 4 by omega), or_iff_left (fun h => h _ hs.first), hget]
  simp only [Except.ok.injEq, exists_eq_left']
  by_cases hrate : 2 * rate.toNat < 256 * refClk.toNat
  · refine iff_of_true ?_ hrate
    rw [wordFor_of_lt (hs.first.lt hrate), hd]
    obtain ⟨hle, hnear⟩ := @div_mul_div_near rate.toNat _ d href hdpos
    have hg := toNat_ofNat_of_lt (hle.trans_lt hrlt)
    refine ⟨by rw [UInt32.le_iff_toNat_le, hg]; exact hle, ?_⟩
    have hcast : (rate.toNat : ℚ) * d <
        ((refClk.toNat * (rate.toNat * d / refClk.toNat) / d : ℕ) + 1) * d + refClk.toNat := by
      exact_mod_cast hnear
    rw [hg, ← sub_lt_iff_lt_add, lt_div_iff₀ hdq]
    linarith
  · refine iff_of_false (fun ⟨_, hnear⟩ => ?_) hrate
    have htwo : rate.toNat * 2 ≤ rate.toNat * 2 ^ s.postdiv :=
      Nat.mul_le_mul_left _ (Nat.le_self_pow (by have := hs.first.1; omega) 2)
    have hfar := wordFor_far hd (show 256 * refClk.toNat ≤ rate.toNat * 2 ^ s.postdiv by omega)
    have hle : refClk.toNat * wordFor rate refClk s.postdiv / d ≤ rate.toNat :=
      Nat.le_of_mul_le_mul_right (by omega) hdpos
    rw [toNat_ofNat_of_lt (hle.trans_lt hrlt), ← sub_lt_iff_lt_add, lt_div_iff₀ hdq] at hnear
    have hcast : ((refClk.toNat * wordFor rate refClk s.postdiv / d : ℕ) : ℚ) * d +
        refClk.toNat * 2 ^ 22 ≤ rate.toNat * d := by exact_mod_cast hfar
    have hdle : (d : ℚ) ≤ 2 ^ 18 := by exact_mod_cast hd ▸ hpow
    have hone : (1 : ℚ) ≤ refClk.toNat := by exact_mod_cast href
    linarith

theorem ofNat_and_low {n v : ℕ} (hn : n ≤ 32) (hv : v < 2 ^ n) :
    UInt32.ofNat v &&& .ofNat (2 ^ n - 1) = .ofNat v := by
  have hpow : 2 ^ n ≤ 2 ^ 32 := Nat.pow_le_pow_right (by norm_num) hn
  rw [← UInt32.toNat_inj, UInt32.toNat_and, toNat_ofNat_of_lt (by omega),
    toNat_ofNat_of_lt (by omega), Nat.and_two_pow_sub_one_eq_mod, Nat.mod_eq_of_lt hv]

def byteLayout : Layout where
  freqAcqMask := 2
  fcwIntMask := 0xFF
  fcwFracMask := 0x3FFF
  postdivMask output := 7 <<< (.ofNat (8 * output) : UInt32)
  postdivShift output := .ofNat (8 * output)
  int_fits _ hv := ofNat_and_low (by norm_num) hv
  frac_fits _ hv := ofNat_and_low (by norm_num) hv
  postdiv_fits := by decide
  disjoint := by decide

def running : Registers := ⟨3, 32, 0, 0x0101, fun _ => 0⟩

theorem set_rate_accurate_running : ∃ g, byteLayout.getRate 25000000
      (byteLayout.setRate 25000000 running 0 1000000001 true).2 0 = .ok g ∧ g ≤ 1000000001 := by
  obtain h | ⟨g, hget, hle, -⟩ := (@set_rate_accurate byteLayout 25000000 1000000001 running 0
    true (by decide) (by decide)).mpr (.inr (.inl (by decide)))
  · cases congrArg Prod.fst h
  · exact ⟨g, hget, hle⟩

/-- With a reference of 25 MHz, 3.4 GHz is accepted and sets 200 MHz. -/
theorem set_rate_not_accurate :
    (byteLayout.setRate 25000000 running 0 3400000000 true).1 = .ok () ∧ byteLayout.getRate 25000000
      (byteLayout.setRate 25000000 running 0 3400000000 true).2 0 = .ok 200000000 :=
  ⟨rfl, rfl⟩

-- ---
-- The other outputs

/-- **When a call leaves the other outputs alone**: exactly if the control word of the rate, with the
first post divider that is in range, gives every other output that runs the rate it has. -/
theorem set_rate_keeps_others (l : Layout) (refClk rate : UInt32) (regs : Registers) (output : ℕ)
    (locked : Bool) :
    (∀ other < 4, other ≠ output → regs.postdivConfig other ≠ 3 → regs.postdivConfig other ≠ 2 →
      l.getRate refClk (l.setRate refClk regs output rate locked).2 other =
        l.getRate refClk regs other) ↔
      output ≥ 4 ∨ ∀ k, FirstPostdiv rate refClk k → ∀ other < 4, other ≠ output →
        regs.postdivConfig other ≠ 3 → regs.postdivConfig other ≠ 2 →
          l.getRate refClk regs other = .ok (.ofNat (refClk.toNat *
            (rate.toNat * 2 ^ (k + 14) / refClk.toNat % 2 ^ 22) /
              2 ^ (14 + l.getPostdiv regs other))) := by
  obtain ⟨hrefused, hwhy⟩ | ⟨s, hout, hs, -, hset⟩ := l.setRate_cases locked
  · refine iff_of_true (fun other _ _ _ _ => by rw [hrefused]) (hwhy.imp_right ?_)
    exact fun hnone k hk => absurd hk (hnone k)
  rw [or_iff_right (show ¬ output ≥ 4 by omega), hset]
  have hget : ∀ other < 4, other ≠ output → regs.postdivConfig other ≠ 3 →
      regs.postdivConfig other ≠ 2 → l.getRate refClk (l.program regs output s) other =
        .ok (.ofNat (refClk.toNat * wordFor rate refClk s.postdiv /
          2 ^ (14 + l.getPostdiv regs other))) := by
    intro other hother hne hgate hbypass
    rw [Layout.getRate_program hs hother hgate hbypass,
      Layout.getPostdiv_program_of_ne hout hother hne]
  constructor
  · intro hkeeps k hk other hother hne hgate hbypass
    obtain rfl := hk.unique hs.first
    rw [← hkeeps other hother hne hgate hbypass, hget other hother hne hgate hbypass]
    rfl
  · intro hword other hother hne hgate hbypass
    rw [hword _ hs.first other hother hne hgate hbypass, hget other hother hne hgate hbypass]
    rfl

/-- With 500 MHz on output 0, output 1 goes from 400 MHz to 500 MHz. -/
theorem set_rate_changes_other : byteLayout.getRate 25000000 running 1 = .ok 400000000 ∧
    (byteLayout.setRate 25000000 running 0 500000000 true).1 = .ok () ∧ byteLayout.getRate 25000000
      (byteLayout.setRate 25000000 running 0 500000000 true).2 1 = .ok 500000000 :=
  ⟨rfl, rfl, rfl⟩

end SystemFirmware.ClockControl.Grendel
