import StupidOS.Lib.Word

/-!
# Decimal text

`strtol` and `atoi` on the bytes of a string, with a 64-bit `long` and a 32-bit `int`, for
bases up to ten. `DecField w` is a number as it stands in a fixed-width text field: digits,
then blanks up to `w` bytes.
-/

namespace StupidOS

def blank : Byte := 0x20

/-- `isspace` -/
def isSpace (c : Byte) : Bool := c = blank || (0x09 ≤ c && c ≤ 0x0D)

/-- The value of a digit. -/
def digitVal (base : Nat) (c : Byte) : Option Nat :=
  if 0x30 ≤ c.toNat ∧ c.toNat - 0x30 < base then some (c.toNat - 0x30) else none

/-- The digits at the start, behind those that make up `acc`. -/
def strtolDigits (base : Nat) : List Byte → Nat → Nat
  | [], acc => acc
  | c :: cs, acc =>
    match digitVal base c with
    | none => acc
    | some d => strtolDigits base cs (base * acc + d)

/-- A number is cut off at `LONG_MIN` and `LONG_MAX`. -/
def clampLong (v : Int) : Int := max (-2 ^ 63) (min (2 ^ 63 - 1) v)

/-- `strtol`, of which the end pointer is not used. -/
def strtol (str : List Byte) (base : Nat) : Int :=
  match str.dropWhile isSpace with
  | [] => 0
  | c :: cs =>
    if c = 0x2D then clampLong (-(strtolDigits base cs 0))
    else if c = 0x2B then clampLong (strtolDigits base cs 0)
    else clampLong (strtolDigits base (c :: cs) 0)

/-- `atoi` -/
def atoi (str : List Byte) : Int := (BitVec.ofInt 32 (strtol str 10)).toInt

/-! ## Fields -/

/-- A decimal number in a text field of `w` bytes. -/
structure DecField (w : Nat) where
  digits : List (Fin 10)
  nonempty : digits ≠ []
  fits : digits.length ≤ w

/-- The digit as text. -/
def digitChar (d : Fin 10) : Byte := BitVec.ofNat 8 (0x30 + d)

/-- The value of a digit string, behind the digits that make up `acc`. -/
def digitsVal (digits : List (Fin 10)) (acc : Nat) : Nat :=
  digits.foldl (fun acc d => 10 * acc + d) acc

namespace DecField

variable {w : Nat}

def val (f : DecField w) : Nat := digitsVal f.digits 0

def bytes (f : DecField w) : List Byte :=
  f.digits.map digitChar ++ List.replicate (w - f.digits.length) blank

@[simp] theorem length_bytes (f : DecField w) : f.bytes.length = w := by
  have hfits := f.fits
  rw [bytes, List.length_append, List.length_map, List.length_replicate]
  omega

end DecField

theorem digitVal_digitChar (d : Fin 10) : digitVal 10 (digitChar d) = some d := by
  revert d
  decide

theorem digitChar_text (d : Fin 10) :
    isSpace (digitChar d) = false ∧ digitChar d ≠ 0x2D ∧ digitChar d ≠ 0x2B := by
  revert d
  decide

/-- What follows a number is not a digit. -/
def EndsDigits (str : List Byte) : Prop := ∀ c cs, str = c :: cs → digitVal 10 c = none

theorem endsDigits_blanks (k : Nat) : EndsDigits (List.replicate k blank) := by
  intro c cs h
  have hc : c ∈ List.replicate k blank := by
    rw [h]
    exact List.mem_cons_self ..
  rw [List.eq_of_mem_replicate hc]
  decide

theorem endsDigits_blank (str : List Byte) : EndsDigits (blank :: str) := by
  intro c cs h
  rw [← (List.cons.inj h).1]
  decide

theorem strtolDigits_append (digits : List (Fin 10)) {str : List Byte} (hstr : EndsDigits str)
    (acc : Nat) : strtolDigits 10 (digits.map digitChar ++ str) acc = digitsVal digits acc := by
  induction digits generalizing acc with
  | nil =>
      cases str with
      | nil => rfl
      | cons c cs =>
          rw [List.map_nil, List.nil_append, strtolDigits, hstr c cs rfl]
          rfl
  | cons d digits ih =>
      rw [List.map_cons, List.cons_append, strtolDigits, digitVal_digitChar]
      exact ih (10 * acc + d)

theorem digitsVal_lt (digits : List (Fin 10)) {acc k : Nat} (hacc : acc < 10 ^ k) :
    digitsVal digits acc < 10 ^ (k + digits.length) := by
  induction digits generalizing acc k with
  | nil => exact hacc
  | cons d digits ih =>
      have hd := d.isLt
      have hpow : 10 ^ (k + 1) = 10 * 10 ^ k := Nat.pow_succ'
      have hnext : 10 * acc + d < 10 ^ (k + 1) := by omega
      have hsum : k + (digits.length + 1) = k + 1 + digits.length := by omega
      rw [List.length_cons, hsum]
      exact ih hnext

/-- A number below `LONG_MAX` is read as it is. -/
theorem strtol_digits {digits : List (Fin 10)} (hne : digits ≠ []) {str : List Byte}
    (hstr : EndsDigits str) (hlt : digitsVal digits 0 < 2 ^ 63) :
    strtol (digits.map digitChar ++ str) 10 = digitsVal digits 0 := by
  cases digits with
  | nil => exact absurd rfl hne
  | cons d digits =>
      rcases digitChar_text d with ⟨hspace, hminus, hplus⟩
      have hskip : (digitChar d :: (digits.map digitChar ++ str)).dropWhile isSpace
          = digitChar d :: (digits.map digitChar ++ str) := by
        rw [List.dropWhile_cons_of_neg (by rw [hspace]; exact Bool.false_ne_true)]
      have hval := strtolDigits_append (d :: digits) hstr 0
      rw [List.map_cons, List.cons_append] at hval
      rw [strtol, List.map_cons, List.cons_append, hskip]
      dsimp only
      rw [if_neg hminus, if_neg hplus, hval, clampLong]
      omega

namespace DecField

variable {w : Nat} (f : DecField w)

theorem val_lt : f.val < 10 ^ w := by
  have hlt := @digitsVal_lt f.digits 0 0 (by decide)
  rw [Nat.zero_add] at hlt
  exact Nat.lt_of_lt_of_le hlt (Nat.pow_le_pow_right (by decide) f.fits)

theorem strtol_bytes (hw : w ≤ 18) : strtol f.bytes 10 = f.val := by
  have hpow : 10 ^ w ≤ 10 ^ 18 := Nat.pow_le_pow_right (by decide) hw
  have hlt : f.val < 2 ^ 63 := Nat.lt_of_lt_of_le f.val_lt (Nat.le_trans hpow (by decide))
  exact strtol_digits f.nonempty (endsDigits_blanks _) hlt

/-- `atoi` reads on behind the field, unless a blank ends the number. -/
theorem atoi_bytes (hblank : f.digits.length < w) (hval : f.val < 2 ^ 31) (str : List Byte) :
    atoi (f.bytes ++ str) = f.val := by
  obtain ⟨k, hk⟩ : ∃ k, w - f.digits.length = k + 1 := ⟨w - f.digits.length - 1, by omega⟩
  have hval' : digitsVal f.digits 0 < 2 ^ 63 := Nat.lt_trans hval (by decide)
  have hread := strtol_digits f.nonempty
    (endsDigits_blank (List.replicate k blank ++ str)) hval'
  have hint : (BitVec.ofInt 32 (f.val : Int)).toInt = f.val := by
    rw [BitVec.toInt_ofInt, Int.bmod_def]
    omega
  rw [atoi, bytes, hk, List.replicate_succ, List.append_assoc, List.cons_append, hread]
  exact hint

end DecField

end StupidOS
