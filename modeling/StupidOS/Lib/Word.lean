import Mathlib.Tactic.Common
import Mathlib.Data.BitVec

/-!
# Machine words

The word types of the programs modelled, and what their bit operations are on
the numbers they stand for.
-/

namespace StupidOS

abbrev Byte := BitVec 8
abbrev Half := BitVec 16
abbrev Word := BitVec 32

/-- A word as a signed number. -/
theorem toInt_eq_ite (x : Word) :
    x.toInt = if x.toNat < 2 ^ 31 then (x.toNat : Int) else (x.toNat : Int) - 2 ^ 32 := by
  rw [BitVec.toInt_eq_toNat_cond]
  split <;> split <;> omega

/-- Signed and unsigned order agree below `2 ^ 31`. -/
theorem slt_of_lt {x y : Word} (hx : x.toNat < 2 ^ 31) (hy : y.toNat < 2 ^ 31) :
    x.slt y = decide (x.toNat < y.toNat) := by
  rw [BitVec.slt_eq_decide, toInt_eq_ite, toInt_eq_ite, if_pos hx, if_pos hy]
  simp

/-- Signed and unsigned order agree from `2 ^ 31` on. -/
theorem slt_of_ge {x y : Word} (hx : 2 ^ 31 ≤ x.toNat) (hy : 2 ^ 31 ≤ y.toNat) :
    x.slt y = decide (x.toNat < y.toNat) := by
  rw [BitVec.slt_eq_decide, toInt_eq_ite, toInt_eq_ite, if_neg (by omega), if_neg (by omega)]
  by_cases h : x.toNat < y.toNat
  · simp [h]
  · simp [h]

/-- A number below `2 ^ 32` as a word. -/
theorem toNat_ofNat_of_lt {n : Nat} (h : n < 2 ^ 32) : (BitVec.ofNat 32 n).toNat = n := by
  rw [BitVec.toNat_ofNat, Nat.mod_eq_of_lt h]

theorem offset_toNat {w : Nat} (a : BitVec w) {i : Nat} (hi : i < 2 ^ w) :
    (a + BitVec.ofNat w i - a).toNat = i := by
  rw [BitVec.add_comm, BitVec.add_sub_cancel, BitVec.toNat_ofNat, Nat.mod_eq_of_lt hi]

theorem iterate_add_one {w : Nat} (p : BitVec w) (n : Nat) :
    (· + 1)^[n] p = p + BitVec.ofNat w n := by
  induction n generalizing p with
  | zero => exact (BitVec.add_zero p).symm
  | succ n ih =>
      rw [Function.iterate_succ_apply, ih, BitVec.add_assoc, Nat.add_comm, BitVec.ofNat_add]
      rfl

/-- The first hexadecimal digit comes last. -/
theorem rotateLeft_four (x : Word) :
    (x.rotateLeft 4).toNat = x.toNat * 16 % 2 ^ 32 + x.toNat / 2 ^ 28 := by
  have hhigh : x.toNat <<< 4 % 2 ^ 32 = (x.toNat % 2 ^ 28) <<< 4 := by
    rw [Nat.shiftLeft_eq, Nat.shiftLeft_eq]
    omega
  have hlow : x.toNat >>> 28 < 2 ^ 4 := by
    rw [Nat.shiftRight_eq_div_pow]
    omega
  have hmul : x.toNat * 16 % 2 ^ 32 = x.toNat % 2 ^ 28 * 2 ^ 4 := by omega
  rw [BitVec.toNat_rotateLeft]
  change x.toNat <<< 4 % 2 ^ 32 ||| x.toNat >>> 28 = _
  rw [hhigh, ← Nat.shiftLeft_add_eq_or_of_lt hlow, Nat.shiftLeft_eq, Nat.shiftRight_eq_div_pow,
    hmul]

/-! ## Page arithmetic -/

/-- Masking with `0xFFF` keeps the offset in a page. -/
theorem and_fff_toNat (x : Word) : (x &&& 0xFFF).toNat = x.toNat % 4096 := by
  rw [BitVec.toNat_and]
  exact Nat.and_two_pow_sub_one_eq_mod x.toNat 12

theorem and_3ff_toNat (x : Word) : (x &&& 0x3FF).toNat = x.toNat % 1024 := by
  rw [BitVec.toNat_and]
  exact Nat.and_two_pow_sub_one_eq_mod x.toNat 10

/-- Masking with `0xFFFFF000` rounds down to a page. -/
theorem and_fffff000_toNat (x : Word) : (x &&& 0xFFFFF000).toNat = x.toNat / 4096 * 4096 := by
  have hbits : ∀ i : Fin 32, (0xFFFFF000#32).getLsbD i.val = decide (12 ≤ i.val) := by decide
  have hshift : x &&& (0xFFFFF000 : Word) = (x >>> 12) <<< 12 := by
    apply BitVec.eq_of_getLsbD_eq
    intro i hi
    have hmask : (0xFFFFF000 : Word).getLsbD i = decide (12 ≤ i) := hbits ⟨i, hi⟩
    rw [BitVec.getLsbD_and, hmask, BitVec.getLsbD_shiftLeft, BitVec.getLsbD_ushiftRight]
    by_cases h12 : 12 ≤ i
    · simp [h12, hi, show ¬ i < 12 by omega, show 12 + (i - 12) = i by omega]
    · simp [h12, show i < 12 by omega]
  have hlt := x.isLt
  rw [hshift, BitVec.toNat_shiftLeft, BitVec.toNat_ushiftRight, Nat.shiftRight_eq_div_pow,
    Nat.shiftLeft_eq]
  omega

/-- Setting the two lowest bits of a multiple of 4 adds 3. -/
theorem or_three_toNat {x : Word} (h : x.toNat % 4 = 0) : (x ||| 3).toNat = x.toNat + 3 := by
  have hand : x &&& (3 : Word) = 0 := by
    apply BitVec.eq_of_toNat_eq
    rw [BitVec.toNat_and]
    exact (Nat.and_two_pow_sub_one_eq_mod x.toNat 2).trans h
  have hlt := x.isLt
  rw [← BitVec.add_eq_or_of_and_eq_zero _ _ hand]
  bv_omega

end StupidOS
