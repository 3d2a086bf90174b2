import Mathlib.Data.Nat.Basic
import Mathlib.Tactic.Ring

/-!
# Little-endian numbers

`leBytes n x` are the low `n` bytes of `x`, least significant first, and
`leValue` is the number such bytes stand for. Reading the bytes of a number back
gives the number, up to truncation (`leValue_leBytes`).
-/

namespace SystemFirmware.Lib

def leBytes : ℕ → ℕ → List UInt8
  | 0, _ => []
  | n + 1, x => UInt8.ofNat x :: leBytes n (x / 256)

def leValue : List UInt8 → ℕ
  | [] => 0
  | b :: bs => b.toNat + 256 * leValue bs

@[simp] theorem length_leBytes {n x : ℕ} : (leBytes n x).length = n := by
  induction n generalizing x with
  | zero => rfl
  | succ n ih => simp [leBytes, ih]

theorem leValue_leBytes {n x : ℕ} : leValue (leBytes n x) = x % 256 ^ n := by
  induction n generalizing x with
  | zero => simp [leBytes, leValue, Nat.mod_one]
  | succ n ih =>
    rw [leBytes, leValue, ih, pow_succ, mul_comm (256 ^ n), Nat.mod_mul, UInt8.toNat_ofNat']

theorem leValue_lt {bs : List UInt8} : leValue bs < 256 ^ bs.length := by
  induction bs with
  | nil => simp [leValue]
  | cons b bs ih =>
    have := b.toNat_lt
    rw [leValue, List.length_cons, pow_succ]
    omega

theorem leBytes_leValue {bs : List UInt8} : leBytes bs.length (leValue bs) = bs := by
  induction bs with
  | nil => rfl
  | cons b bs ih =>
    have hlt := b.toNat_lt
    have hbyte : UInt8.ofNat (b.toNat + 256 * leValue bs) = b := by
      rw [← UInt8.toNat_inj, UInt8.toNat_ofNat']
      omega
    rw [List.length_cons, leBytes, leValue, hbyte,
      show (b.toNat + 256 * leValue bs) / 256 = leValue bs by omega, ih]

theorem leValue_append {bs cs : List UInt8} :
    leValue (bs ++ cs) = leValue bs + 256 ^ bs.length * leValue cs := by
  induction bs with
  | nil => simp [leValue]
  | cons b bs ih =>
    rw [List.cons_append, leValue, ih, leValue, List.length_cons, pow_succ]
    ring

-- ---
-- 16-bit words

def le16 (x : UInt16) : List UInt8 := leBytes 2 x.toNat

def ofLe16 (bs : List UInt8) : UInt16 := UInt16.ofNat (leValue bs)

@[simp] theorem length_le16 {x : UInt16} : (le16 x).length = 2 := length_leBytes

@[simp] theorem ofLe16_le16 {x : UInt16} : ofLe16 (le16 x) = x := by
  apply UInt16.toNat_inj.mp
  have := x.toNat_lt
  rw [ofLe16, le16, leValue_leBytes, UInt16.toNat_ofNat']
  omega

-- ---
-- 32-bit words

def le32 (x : UInt32) : List UInt8 := leBytes 4 x.toNat

def ofLe32 (bs : List UInt8) : UInt32 := UInt32.ofNat (leValue bs)

@[simp] theorem length_le32 {x : UInt32} : (le32 x).length = 4 := length_leBytes

@[simp] theorem ofLe32_le32 {x : UInt32} : ofLe32 (le32 x) = x := by
  apply UInt32.toNat_inj.mp
  have := x.toNat_lt
  rw [ofLe32, le32, leValue_leBytes, UInt32.toNat_ofNat']
  omega

theorem leValue_le32 {x : UInt32} : leValue (le32 x) = x.toNat := by
  have := x.toNat_lt
  rw [le32, leValue_leBytes]
  omega

theorem le32_ofLe32 {bs : List UInt8} (h : bs.length = 4) : le32 (ofLe32 bs) = bs := by
  have hlt := @leValue_lt bs
  rw [h] at hlt
  rw [le32, ofLe32, UInt32.toNat_ofNat', Nat.mod_eq_of_lt (by omega), ← h, leBytes_leValue]

end SystemFirmware.Lib
