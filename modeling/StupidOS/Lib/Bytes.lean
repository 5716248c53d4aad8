import StupidOS.Lib.Word

/-!
# Byte strings

Little-endian numbers as lists of bytes (`leBytes`, `ofLe`), and the memory of one object by
offset (`Obj`). A store to an object goes where its offset says, also outside the object; so
a C structure is an `Obj` with fields at fixed offsets, and what a stray store hits is its
neighbour in the layout.
-/

namespace StupidOS

/-! ## Little-endian numbers -/

/-- The `n` low bytes of `v`, the least significant first. -/
def leBytes : Nat → Nat → List Byte
  | 0, _ => []
  | n + 1, v => BitVec.ofNat 8 v :: leBytes n (v / 256)

/-- The number that a byte string stands for. -/
def ofLe : List Byte → Nat
  | [] => 0
  | b :: bs => b.toNat + 256 * ofLe bs

@[simp] theorem length_leBytes (n v : Nat) : (leBytes n v).length = n := by
  induction n generalizing v with
  | zero => rfl
  | succ n ih => rw [leBytes, List.length_cons, ih]

theorem ofLe_leBytes (n v : Nat) : ofLe (leBytes n v) = v % 256 ^ n := by
  induction n generalizing v with
  | zero => rw [Nat.pow_zero, Nat.mod_one, leBytes, ofLe]
  | succ n ih =>
      have hmod : v % (256 * 256 ^ n) = v % 256 + 256 * (v / 256 % 256 ^ n) := Nat.mod_mul
      have hpow : 256 ^ (n + 1) = 256 * 256 ^ n := Nat.pow_succ'
      rw [leBytes, ofLe, ih, BitVec.toNat_ofNat, hpow, hmod]

theorem ofLe_lt (bs : List Byte) : ofLe bs < 256 ^ bs.length := by
  induction bs with
  | nil => decide
  | cons b bs ih =>
      have hb := b.isLt
      have hpow : 256 ^ (bs.length + 1) = 256 * 256 ^ bs.length := Nat.pow_succ'
      rw [ofLe, List.length_cons, hpow]
      omega

theorem ofLe_append (bs : List Byte) (b : Byte) :
    ofLe (bs ++ [b]) = ofLe bs + 256 ^ bs.length * b.toNat := by
  induction bs with
  | nil => simp [ofLe]
  | cons c bs ih =>
      have hpow : 256 ^ (bs.length + 1) = 256 * 256 ^ bs.length := Nat.pow_succ'
      rw [List.cons_append, ofLe, ofLe, ih, List.length_cons, hpow, Nat.mul_add, Nat.mul_assoc,
        Nat.add_assoc]

/-! ## Objects -/

/-- The memory at and around an object, by the distance from its start. -/
abbrev Obj := Int → Byte

/-- `strcmp` of a string and the one at `off` gives 0. -/
def strcmpEq (str : List Byte) (o : Obj) (off : Int) : Bool :=
  (List.range (str.length + 1)).map (fun i : Nat => o (off + i)) = str ++ [0]

namespace Obj

/-- Store a byte string at `a`. -/
def store (o : Obj) (a : Int) (bs : List Byte) : Obj :=
  fun x => if a ≤ x then (bs[(x - a).toNat]?).getD (o x) else o x

/-- The `n` bytes at `a`. -/
def load (o : Obj) (a : Int) (n : Nat) : List Byte := (List.range n).map (fun i : Nat => o (a + i))

/-- The number of `n` bytes at `a`. -/
def field (o : Obj) (a : Int) (n : Nat) : Nat := ofLe (o.load a n)

/-- Store a number of `n` bytes at `a`; a negative one as its two's complement. -/
def setField (o : Obj) (a : Int) (n : Nat) (v : Int) : Obj :=
  o.store a (leBytes n (v % (256 : Int) ^ n).toNat)

@[simp] theorem length_load (o : Obj) (a : Int) (n : Nat) : (o.load a n).length = n := by
  rw [load, List.length_map, List.length_range]

theorem store_in (o : Obj) (a : Int) {bs : List Byte} {i : Nat} {b : Byte} (h : bs[i]? = some b) :
    o.store a bs (a + i) = b := by
  have hi : (a + i - a).toNat = i := by omega
  rw [store, if_pos (by omega), hi, h]
  rfl

theorem store_out (o : Obj) {a x : Int} {bs : List Byte} (h : x < a ∨ a + bs.length ≤ x) :
    o.store a bs x = o x := by
  unfold store
  split
  · rw [List.getElem?_eq_none (by omega)]
    rfl
  · rfl

@[simp] theorem store_nil (o : Obj) (a : Int) : o.store a [] = o := by
  funext x
  exact store_out o (by simp; omega)

/-- Two stores, the second right behind the first. -/
theorem store_append (o : Obj) (a : Int) (bs cs : List Byte) :
    (o.store a bs).store (a + bs.length) cs = o.store a (bs ++ cs) := by
  funext x
  by_cases hlo : x < a
  · rw [store_out _ (Or.inl (by omega)), store_out _ (Or.inl hlo), store_out _ (Or.inl hlo)]
  · obtain ⟨i, rfl⟩ : ∃ i : Nat, x = a + i := ⟨(x - a).toNat, by omega⟩
    by_cases hi : i < bs.length
    · have hget : bs[i]? = some bs[i] := List.getElem?_eq_getElem hi
      rw [store_out _ (Or.inl (by omega)), store_in o a hget,
        store_in o a ((List.getElem?_append_left hi).trans hget)]
    · obtain ⟨j, rfl⟩ : ∃ j, i = bs.length + j := ⟨i - bs.length, by omega⟩
      by_cases hj : j < cs.length
      · have hget : cs[j]? = some cs[j] := List.getElem?_eq_getElem hj
        have hboth : (bs ++ cs)[bs.length + j]? = some cs[j] := by
          rw [List.getElem?_append_right (by omega), Nat.add_sub_cancel_left, hget]
        have hassoc : a + ((bs.length + j : Nat) : Int) = a + bs.length + j := by omega
        rw [store_in o a hboth, hassoc, store_in _ _ hget]
      · rw [store_out _ (Or.inr (by omega)), store_out _ (Or.inr (by omega)),
          store_out _ (Or.inr (by rw [List.length_append]; omega))]

theorem getElem?_load (o : Obj) (a : Int) {n i : Nat} (hi : i < n) :
    (o.load a n)[i]? = some (o (a + i)) := by
  rw [load, List.getElem?_map, List.getElem?_range hi]
  rfl

theorem take_load (o : Obj) (a : Int) {k n : Nat} (h : k ≤ n) :
    (o.load a n).take k = o.load a k := by
  rw [load, load, ← List.map_take, List.take_range, Nat.min_eq_left h]

/-- A part of what is loaded. -/
theorem drop_load (o : Obj) (a : Int) {k m n : Nat} (h : k + m ≤ n) :
    ((o.load a n).drop k).take m = o.load (a + k) m := by
  apply List.ext_getElem?
  intro i
  by_cases hi : i < m
  · have haddr : a + ((k + i : Nat) : Int) = a + k + i := by omega
    rw [List.getElem?_take_of_lt hi, List.getElem?_drop, getElem?_load _ _ (by omega),
      getElem?_load _ _ hi, haddr]
  · rw [List.getElem?_eq_none (by rw [List.length_take]; omega),
      List.getElem?_eq_none (by rw [length_load]; omega)]

theorem load_append (o : Obj) (a : Int) (n k : Nat) :
    o.load a (n + k) = o.load a n ++ o.load (a + n) k := by
  rw [load, load, load, List.range_add, List.map_append, List.map_map]
  congr 1
  apply List.map_congr_left
  intro i _
  have haddr : a + ((n + i : Nat) : Int) = a + n + i := by omega
  exact congrArg o haddr

/-- A store to the same place. -/
theorem store_over (o : Obj) (a : Int) {bs cs : List Byte} (h : bs.length ≤ cs.length) :
    (o.store a bs).store a cs = o.store a cs := by
  funext x
  by_cases hx : x < a ∨ a + cs.length ≤ x
  · rw [store_out _ hx, store_out o (by omega), store_out o hx]
  · obtain ⟨i, rfl⟩ : ∃ i : Nat, x = a + i := ⟨(x - a).toNat, by omega⟩
    have hget : cs[i]? = some cs[i] := List.getElem?_eq_getElem (by omega)
    rw [store_in _ a hget, store_in o a hget]

/-- Two stores side by side. -/
theorem store_comm (o : Obj) {a b : Int} {bs cs : List Byte}
    (h : a + bs.length ≤ b ∨ b + cs.length ≤ a) :
    (o.store a bs).store b cs = (o.store b cs).store a bs := by
  funext x
  by_cases hb : x < b ∨ b + cs.length ≤ x
  · rw [store_out (o.store a bs) hb]
    change _ = if a ≤ x then (bs[(x - a).toNat]?).getD (o.store b cs x) else o.store b cs x
    rw [store_out o hb]
    rfl
  · have ha : x < a ∨ a + bs.length ≤ x := by omega
    rw [store_out (o.store b cs) ha]
    change (if b ≤ x then (cs[(x - b).toNat]?).getD (o.store a bs x) else o.store a bs x) = _
    rw [store_out o ha]
    rfl

/-- What was stored is read back. -/
theorem load_store (o : Obj) (a : Int) (bs : List Byte) :
    (o.store a bs).load a bs.length = bs := by
  apply List.ext_getElem?
  intro i
  by_cases hi : i < bs.length
  · have hget : bs[i]? = some bs[i] := List.getElem?_eq_getElem hi
    rw [getElem?_load _ _ hi, store_in o a hget, hget]
  · rw [List.getElem?_eq_none (by rw [length_load]; omega), List.getElem?_eq_none (by omega)]

/-- What is there is stored back. -/
theorem store_load (o : Obj) (a : Int) (n : Nat) : o.store a (o.load a n) = o := by
  funext x
  by_cases hin : a ≤ x ∧ x < a + n
  · obtain ⟨i, rfl⟩ : ∃ i : Nat, x = a + i := ⟨(x - a).toNat, by omega⟩
    exact store_in o a (getElem?_load o a (by omega))
  · exact store_out o (by rw [length_load]; omega)

theorem load_one (o : Obj) (a : Int) : o.load a 1 = [o a] := by
  change [o (a + 0)] = _
  rw [Int.add_zero]

/-- A part of what was stored. -/
theorem load_store_part (o : Obj) (a : Int) {bs : List Byte} {k n : Nat}
    (h : k + n ≤ bs.length) : (o.store a bs).load (a + k) n = (bs.drop k).take n := by
  apply List.ext_getElem?
  intro i
  by_cases hi : i < n
  · have hget : bs[k + i]? = some bs[k + i] := List.getElem?_eq_getElem (by omega)
    have haddr : a + k + i = a + ((k + i : Nat) : Int) := by omega
    rw [getElem?_load _ _ hi, haddr, store_in o a hget, List.getElem?_take_of_lt hi,
      List.getElem?_drop, hget]
  · rw [List.getElem?_eq_none (by rw [length_load]; omega),
      List.getElem?_eq_none (by rw [List.length_take]; omega)]

/-- A store to one of the bytes. -/
theorem load_store_one (o : Obj) (a : Int) {i n : Nat} (hi : i < n) (b : Byte) :
    (o.store (a + i) [b]).load a n = (o.load a n).set i b := by
  apply List.ext_getElem?
  intro j
  by_cases hj : j < n
  · rw [getElem?_load _ _ hj, List.getElem?_set, length_load]
    by_cases hij : i = j
    · have hstore := store_in o (a + i) (show [b][0]? = some b from rfl)
      rw [Int.natCast_zero, Int.add_zero] at hstore
      rw [if_pos hij, if_pos hi, ← hij, hstore]
    · have hout : a + j < a + i ∨ a + i + ([b] : List Byte).length ≤ a + (j : Int) := by
        rw [List.length_singleton]
        omega
      rw [if_neg hij, getElem?_load _ _ hj, store_out o hout]
  · rw [List.getElem?_eq_none (by rw [length_load]; omega),
      List.getElem?_eq_none (by rw [List.length_set, length_load]; omega)]

/-- A store elsewhere is not noticed. -/
theorem load_store_apart (o : Obj) {a b : Int} {bs : List Byte} {n : Nat}
    (h : a + n ≤ b ∨ b + bs.length ≤ a) : (o.store b bs).load a n = o.load a n := by
  apply List.map_congr_left
  intro i hi
  rw [List.mem_range] at hi
  exact store_out o (by omega)

theorem load_congr {o o' : Obj} {a : Int} {n : Nat} (h : ∀ i : Nat, i < n → o' (a + i) = o (a + i)) :
    o'.load a n = o.load a n := by
  apply List.map_congr_left
  intro i hi
  exact h i (List.mem_range.mp hi)

/-- The most significant byte. -/
theorem field_succ (o : Obj) (a : Int) (n : Nat) :
    o.field a (n + 1) = o.field a n + 256 ^ n * (o (a + n)).toNat := by
  have hload : o.load a (n + 1) = o.load a n ++ [o (a + n)] := by
    rw [load, List.range_succ, List.map_append]
    rfl
  rw [field, hload, ofLe_append, length_load, field]

theorem field_setField (o : Obj) (a : Int) (n : Nat) (v : Int) :
    ((o.setField a n v).field a n : Int) = v % (256 : Int) ^ n := by
  have hcast : ((256 ^ n : Nat) : Int) = 256 ^ n := Int.natCast_pow 256 n
  have hpos : 0 < 256 ^ n := Nat.pow_pos (by decide)
  have hnonneg := Int.emod_nonneg v (b := 256 ^ n) (by omega)
  have hlt := Int.emod_lt_of_pos v (b := 256 ^ n) (by omega)
  have hload := load_store o a (leBytes n (v % (256 : Int) ^ n).toNat)
  rw [length_leBytes] at hload
  rw [field, setField, hload, ofLe_leBytes, Nat.mod_eq_of_lt (by omega)]
  omega

theorem field_store_apart (o : Obj) {a b : Int} {bs : List Byte} {n : Nat}
    (h : a + n ≤ b ∨ b + bs.length ≤ a) : (o.store b bs).field a n = o.field a n := by
  rw [field, load_store_apart o h, field]

theorem field_setField_apart (o : Obj) {a b : Int} {n k : Nat} (v : Int)
    (h : a + n ≤ b ∨ b + k ≤ a) : (o.setField b k v).field a n = o.field a n := by
  apply field_store_apart
  rw [length_leBytes]
  exact h

end Obj

end StupidOS
