import Mathlib.Data.List.TakeWhile
import StupidOS.Lib.Bytes

/-!
# Records in byte strings

Numbers at fixed offsets (`leAt`), tables of records of one size (`recordsAt`), and strings
that end with a NUL (`cstr`), with the lemmas that read back what was written.
-/

namespace StupidOS

/-- The number of `n` bytes at offset `off`. -/
def leAt (bs : List Byte) (off n : Nat) : Nat := ofLe ((bs.drop off).take n)

theorem leAt_head (n v : Nat) (rest : List Byte) :
    leAt (leBytes n v ++ rest) 0 n = v % 256 ^ n := by
  rw [leAt, List.drop_zero, List.take_left' (length_leBytes n v), ofLe_leBytes]

theorem leAt_skip {bs rest : List Byte} {off : Nat} (n : Nat) (h : bs.length ≤ off) :
    leAt (bs ++ rest) off n = leAt rest (off - bs.length) n := by
  rw [leAt, leAt, List.drop_append, List.drop_eq_nil_of_le h, List.nil_append]

/-- A number in the first `k` bytes. -/
theorem leAt_take (bs : List Byte) {off n k : Nat} (h : off + n ≤ k) :
    leAt (bs.take k) off n = leAt bs off n := by
  rw [leAt, leAt, List.drop_take, List.take_take, Nat.min_eq_left (by omega)]

/-! ## Tables -/

/-- `n` records of `k` bytes each. -/
def recordsAt {α : Type} (dec : List Byte → α) (k n : Nat) (bs : List Byte) : List α :=
  (List.range n).map (fun i => dec (bs.drop (k * i)))

section Tables

variable {α : Type} {enc : α → List Byte} {dec : List Byte → α} {k : Nat}

theorem length_flatMap (hlen : ∀ a, (enc a).length = k) (l : List α) :
    (l.flatMap enc).length = k * l.length := by
  induction l with
  | nil => rfl
  | cons a l ih =>
      rw [List.flatMap_cons, List.length_append, hlen, ih, List.length_cons, Nat.mul_succ,
        Nat.add_comm]

/-- A table reads back. -/
theorem recordsAt_flatMap (hlen : ∀ a, (enc a).length = k)
    (hdec : ∀ a rest, dec (enc a ++ rest) = a) (l : List α) (rest : List Byte) :
    recordsAt dec k l.length (l.flatMap enc ++ rest) = l := by
  induction l with
  | nil => rfl
  | cons a l ih =>
      have hshift : ∀ i, (enc a ++ (l.flatMap enc ++ rest)).drop (k * (i + 1))
          = (l.flatMap enc ++ rest).drop (k * i) := by
        intro i
        rw [Nat.mul_succ, Nat.add_comm, ← List.drop_drop, List.drop_left' (hlen a)]
      have htail : (List.range l.length).map
          (fun i => dec ((enc a ++ (l.flatMap enc ++ rest)).drop (k * (i + 1)))) = l := by
        refine Eq.trans (List.map_congr_left ?_) ih
        intro i _
        rw [hshift]
      rw [recordsAt, List.length_cons, List.range_succ_eq_map, List.map_cons, List.map_map,
        List.flatMap_cons, List.append_assoc, Nat.mul_zero, List.drop_zero, hdec]
      exact congrArg (a :: ·) htail

end Tables

/-! ## Strings -/

/-- The string at offset `off`, without its NUL. -/
def cstr (bs : List Byte) (off : Nat) : List Byte := (bs.drop off).takeWhile (· ≠ 0)

theorem cstr_append {s : List Byte} (hs : 0 ∉ s) (before rest : List Byte) :
    cstr (before ++ (s ++ 0 :: rest)) before.length = s := by
  have hall : ∀ b ∈ s, (b ≠ 0 : Bool) = true := by
    intro b hb
    exact decide_eq_true (fun h0 => hs (h0 ▸ hb))
  rw [cstr, List.drop_left, List.takeWhile_append_of_pos hall, List.takeWhile_cons_of_neg (by simp),
    List.append_nil]

end StupidOS
