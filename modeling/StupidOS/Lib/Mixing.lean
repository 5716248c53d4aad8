import Mathlib.Data.Fintype.Card
import Mathlib.Data.BitVec
import Mathlib.SetTheory.Cardinal.Finite

/-!
# Words mixed by shifts and products

The two steps of a mixing function, `x ^^^ (x >>> k)` and a product with a number that has an
inverse, are bijections on the words of any width. So as many words go to a residue as have it.
-/

namespace StupidOS

variable {w : Nat}

/-- `x XOR (x >> k)` -/
def xorShift (k : Nat) (x : BitVec w) : BitVec w := x ^^^ (x >>> k)

/-- Only 0 is the same after a shift. -/
theorem eq_zero_of_shift {k : Nat} (hk : 0 < k) {x : BitVec w} (h : x = x >>> k) : x = 0#w := by
  have hnat : x.toNat = x.toNat / 2 ^ k := by
    calc x.toNat = (x >>> k).toNat := congrArg BitVec.toNat h
      _ = x.toNat / 2 ^ k := by rw [BitVec.toNat_ushiftRight, Nat.shiftRight_eq_div_pow]
  apply BitVec.eq_of_toNat_eq
  rw [BitVec.toNat_zero]
  by_contra hne
  have hsmaller := Nat.div_lt_self (Nat.pos_of_ne_zero hne) (Nat.one_lt_two_pow hk.ne')
  omega

/-- What two words differ in is shifted like a word. -/
theorem xorShift_injective {k : Nat} (hk : 0 < k) : Function.Injective (xorShift (w := w) k) := by
  intro x y h
  have hdiff : x ^^^ y = (x ^^^ y) >>> k := by
    rw [xorShift, xorShift] at h
    rw [BitVec.ushiftRight_xor_distrib]
    calc x ^^^ y = (x ^^^ (x >>> k)) ^^^ (x >>> k) ^^^ y := by
          rw [BitVec.xor_assoc x, BitVec.xor_self, BitVec.xor_zero]
      _ = (y ^^^ (y >>> k)) ^^^ (x >>> k) ^^^ y := by rw [h]
      _ = (x >>> k) ^^^ (y >>> k) := by
          ext i hi
          simp only [BitVec.getElem_xor]
          cases y[i] <;> cases (y >>> k)[i] <;> cases (x >>> k)[i] <;> rfl
  exact BitVec.xor_eq_zero_iff.mp (eq_zero_of_shift hk hdiff)

theorem finite_words : Finite (BitVec w) := by
  have hinj : Function.Injective (BitVec.toFin (w := w)) := fun _ _ h => BitVec.toFin_inj.mp h
  exact Finite.of_injective _ hinj

theorem xorShift_bijective {k : Nat} (hk : 0 < k) : Function.Bijective (xorShift (w := w) k) := by
  have hfinite : Finite (BitVec w) := finite_words
  exact Finite.injective_iff_bijective.mp (xorShift_injective hk)

theorem mul_bijective {c d : BitVec w} (h : c * d = 1#w) :
    Function.Bijective fun x : BitVec w => x * c := by
  refine Function.bijective_iff_has_inverse.mpr ⟨fun x => x * d, ?_, ?_⟩
  · intro x
    change x * c * d = x
    rw [BitVec.mul_assoc, h, BitVec.mul_one]
  · intro x
    change x * d * c = x
    rw [BitVec.mul_assoc, BitVec.mul_comm d c, h, BitVec.mul_one]

/-- The words with the low bits `b`, in order. -/
def residueEquiv {k : Nat} (hk : k ≤ w) {b : Nat} (hb : b < 2 ^ k) :
    {x : BitVec w // x.toNat % 2 ^ k = b} ≃ Fin (2 ^ (w - k)) where
  toFun x := ⟨x.val.toNat / 2 ^ k, by
    rw [Nat.div_lt_iff_lt_mul (Nat.two_pow_pos k), ← Nat.pow_add, Nat.sub_add_cancel hk]
    exact x.val.isLt⟩
  invFun q := ⟨BitVec.ofNat w (2 ^ k * q.val + b), by
    rw [BitVec.toNat_ofNat, Nat.mod_mod_of_dvd _ (Nat.pow_dvd_pow 2 hk), Nat.mul_add_mod,
      Nat.mod_eq_of_lt hb]⟩
  left_inv x := by
    apply Subtype.ext
    apply BitVec.eq_of_toNat_eq
    have hdiv := Nat.div_add_mod x.val.toNat (2 ^ k)
    rw [x.property] at hdiv
    change (BitVec.ofNat w (2 ^ k * (x.val.toNat / 2 ^ k) + b)).toNat = x.val.toNat
    rw [hdiv, BitVec.toNat_ofNat, Nat.mod_eq_of_lt x.val.isLt]
  right_inv q := by
    apply Fin.ext
    have hlt : 2 ^ k * q.val + b < 2 ^ w := by
      calc 2 ^ k * q.val + b < 2 ^ k * (q.val + 1) := by
            rw [Nat.mul_add_one]
            omega
        _ ≤ 2 ^ k * 2 ^ (w - k) := Nat.mul_le_mul_left _ q.isLt
        _ = 2 ^ w := by rw [← Nat.pow_add, Nat.add_sub_cancel' hk]
    change (BitVec.ofNat w (2 ^ k * q.val + b)).toNat / 2 ^ k = q.val
    rw [BitVec.toNat_ofNat, Nat.mod_eq_of_lt hlt, Nat.mul_add_div (Nat.two_pow_pos k),
      Nat.div_eq_of_lt hb, Nat.add_zero]

/-- A bijection sends as many words to each residue. -/
theorem card_residue {f : BitVec w → BitVec w} (hf : Function.Bijective f) {k : Nat} (hk : k ≤ w)
    {b : Nat} (hb : b < 2 ^ k) : Nat.card {x // (f x).toNat % 2 ^ k = b} = 2 ^ (w - k) := by
  have hmoved : {x // (f x).toNat % 2 ^ k = b} ≃ {y : BitVec w // y.toNat % 2 ^ k = b} :=
    (Equiv.ofBijective f hf).subtypeEquiv fun _ => Iff.rfl
  rw [Nat.card_congr (hmoved.trans (residueEquiv hk hb)), Nat.card_eq_fintype_card,
    Fintype.card_fin]

end StupidOS
