import Mathlib.Data.Nat.Digits.Lemmas
import StupidOS.Lib.Word

/-!
# Numerals

The canonical decimal numeral of a number, with a sign or without (`decimal`, `signedDecimal`),
and hexadecimal ones of a fixed width (`hexFixed`), whose digits `rol` brings to the end of a word
one by one (`rotateLeft_digit`).
-/

namespace StupidOS

def digit (d : Nat) : Byte := BitVec.ofNat 8 (0x30 + d)

/-- An upper-case hexadecimal digit. -/
def hexDigit (d : Nat) : Byte := BitVec.ofNat 8 (if d < 10 then 0x30 + d else 0x37 + d)

/-- The digits of `n` without leading zeros; `0` for 0. -/
def decimal (n : Nat) : List Byte :=
  if n = 0 then [digit 0] else ((Nat.digits 10 n).map digit).reverse

/-- With a `-` in front of a negative one. -/
def signedDecimal (v : Int) : List Byte :=
  if v < 0 then 0x2D :: decimal v.natAbs else decimal v.natAbs

/-- The last `k` hexadecimal digits of `n`. -/
def hexFixed (k n : Nat) : List Byte :=
  (List.range k).map fun i => hexDigit (n / 16 ^ (k - 1 - i) % 16)

theorem length_hexFixed (k n : Nat) : (hexFixed k n).length = k := by
  rw [hexFixed, List.length_map, List.length_range]

theorem hexDigit_ne_zero {d : Nat} (hd : d < 16) : hexDigit d ≠ 0 := by
  interval_cases d <;> decide

theorem decimal_of_lt {n : Nat} (h : n < 10) : decimal n = [digit n] := by
  rw [decimal]
  by_cases hzero : n = 0
  · rw [if_pos hzero, hzero]
  · rw [if_neg hzero, Nat.digits_of_lt 10 n hzero h]
    rfl

/-- The last digit, and those before. -/
theorem decimal_step {n : Nat} (h : 10 ≤ n) : decimal n = decimal (n / 10) ++ [digit (n % 10)] := by
  have hquot : n / 10 ≠ 0 := by omega
  rw [decimal, if_neg (by omega), decimal, if_neg hquot,
    Nat.digits_def' (by decide) (by omega), List.map_cons, List.reverse_cons]

theorem digit_inj {d e : Nat} (hd : d < 10) (he : e < 10) (h : digit d = digit e) : d = e := by
  have hnat := congrArg BitVec.toNat h
  rw [digit, digit, BitVec.toNat_ofNat, BitVec.toNat_ofNat] at hnat
  omega

theorem decimal_ne_nil (n : Nat) : decimal n ≠ [] := by
  rcases Nat.lt_or_ge n 10 with h | h
  · rw [decimal_of_lt h]
    exact List.cons_ne_nil _ _
  · rw [decimal_step h]
    exact List.append_ne_nil_of_right_ne_nil _ (List.cons_ne_nil _ _)

/-- A number is told by its numeral. -/
theorem decimal_inj {n m : Nat} (h : decimal n = decimal m) : n = m := by
  induction n using Nat.strongRecOn generalizing m with
  | ind n ih =>
      rcases Nat.lt_or_ge n 10 with hn | hn
      · rcases Nat.lt_or_ge m 10 with hm | hm
        · rw [decimal_of_lt hn, decimal_of_lt hm] at h
          exact digit_inj hn hm (List.singleton_inj.mp h)
        · rw [decimal_of_lt hn, decimal_step hm] at h
          have hlen := congrArg List.length h
          have hpos := List.length_pos_iff.mpr (decimal_ne_nil (m / 10))
          rw [List.length_append, List.length_singleton, List.length_singleton] at hlen
          omega
      · rcases Nat.lt_or_ge m 10 with hm | hm
        · rw [decimal_of_lt hm, decimal_step hn] at h
          have hlen := congrArg List.length h
          have hpos := List.length_pos_iff.mpr (decimal_ne_nil (n / 10))
          rw [List.length_append, List.length_singleton, List.length_singleton] at hlen
          omega
        · rw [decimal_step hn, decimal_step hm] at h
          rcases List.append_inj' h rfl with ⟨hfirst, hlast⟩
          have hquot := ih (n / 10) (by omega) hfirst
          have hrem := digit_inj (by omega) (by omega) (List.singleton_inj.mp hlast)
          omega

/-! ## Digits turned into place -/

/-- Turned left by `i` hexadecimal digits. -/
theorem getLsbD_rotateLeft_digits (x : Word) {i k : Nat} (hi : i ≤ 8) (hk : k < 32) :
    (x.rotateLeft (4 * i)).getLsbD k
      = x.getLsbD (if k < 4 * i then 32 - 4 * i + k else k - 4 * i) := by
  rw [BitVec.getLsbD_rotateLeft, decide_eq_true hk, Bool.true_and]
  rcases Nat.lt_or_eq_of_le hi with hlt | rfl
  · rw [Nat.mod_eq_of_lt (by omega)]
    by_cases hturned : k < 4 * i
    · rw [if_pos hturned, decide_eq_true hturned, cond_true]
    · rw [if_neg hturned, decide_eq_false hturned, cond_false]
  · rw [if_pos hk]
    simp

theorem rotateLeft_again (x : Word) {i : Nat} (hi : i < 8) :
    (x.rotateLeft (4 * i)).rotateLeft 4 = x.rotateLeft (4 * (i + 1)) := by
  apply BitVec.eq_of_getLsbD_eq
  intro k hk
  have hone := getLsbD_rotateLeft_digits (x.rotateLeft (4 * i)) (show 1 ≤ 8 by decide) hk
  rw [Nat.mul_one] at hone
  rw [hone, getLsbD_rotateLeft_digits x (by omega) (by split <;> omega),
    getLsbD_rotateLeft_digits x hi hk]
  congr 1
  split <;> split <;> split <;> omega

/-- The digit that comes last when there are `i` in front of it. -/
theorem rotateLeft_digit (x : Word) {i : Nat} (hi : i < 8) :
    (x.rotateLeft (4 * (i + 1)) &&& 0xF).toNat = x.toNat / 16 ^ (7 - i) % 16 := by
  have hshift : x.rotateLeft (4 * (i + 1)) &&& 0xF = (x >>> (4 * (7 - i))) &&& 0xF := by
    apply BitVec.eq_of_getLsbD_eq
    intro k hk
    rw [BitVec.getLsbD_and, BitVec.getLsbD_and, BitVec.getLsbD_ushiftRight,
      getLsbD_rotateLeft_digits x hi hk]
    by_cases hlow : k < 4
    · rw [if_pos (by omega), show 32 - 4 * (i + 1) + k = 4 * (7 - i) + k by omega]
    · have hmask : (0xF : Word).getLsbD k = false :=
        Nat.testBit_lt_two_pow (Nat.lt_of_lt_of_le (by decide)
          (Nat.pow_le_pow_right (by decide) (Nat.le_of_not_lt hlow)))
      rw [hmask, Bool.and_false, Bool.and_false]
  rw [hshift, BitVec.toNat_and, BitVec.toNat_ushiftRight, Nat.shiftRight_eq_div_pow,
    show (2 : Nat) ^ (4 * (7 - i)) = 16 ^ (7 - i) from pow_mul 2 4 _]
  exact Nat.and_two_pow_sub_one_eq_mod _ 4
end StupidOS
