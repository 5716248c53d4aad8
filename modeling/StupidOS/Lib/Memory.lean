import StupidOS.Lib.Word

/-!
# Byte-addressed memory with 32-bit little-endian words

Addresses are 32-bit words and wrap around, so a range `[a, a + n)` may cross the
top of the address space; `Sep` says that two ranges share no byte. Every frame
lemma below takes its side condition in that form.
-/

namespace StupidOS

/-- The contents of a 4 GiB address space. -/
abbrev Mem := Word → Byte

/-- Byte `i` of a word, byte 0 being the least significant. -/
def byteOf (w : Word) (i : Nat) : Byte := w.extractLsb' (8 * i) 8

/-- The `n` bytes at `a` and the `k` bytes at `b` do not overlap. -/
def Sep (a : Word) (n : Nat) (b : Word) (k : Nat) : Prop :=
  n ≤ (b - a).toNat ∧ k ≤ (a - b).toNat

instance (a : Word) (n : Nat) (b : Word) (k : Nat) : Decidable (Sep a n b k) :=
  inferInstanceAs (Decidable (_ ∧ _))

theorem Sep.symm {a b : Word} {n k : Nat} (h : Sep a n b k) : Sep b k a n := ⟨h.2, h.1⟩

/-- Ranges that do not wrap are apart when one ends before the other starts. -/
theorem Sep.of_le {a b : Word} {n k : Nat} (hn : 0 < n) (hk : 0 < k)
    (ha : a.toNat + n ≤ 2 ^ 32) (hb : b.toNat + k ≤ 2 ^ 32)
    (h : a.toNat + n ≤ b.toNat ∨ b.toNat + k ≤ a.toNat) : Sep a n b k := by
  unfold Sep
  rcases h with h | h
  · constructor <;> bv_omega
  · constructor <;> bv_omega

namespace Mem

/-- The little-endian word at `a`. -/
def read32 (m : Mem) (a : Word) : Word :=
  m (a + 3) ++ m (a + 2) ++ m (a + 1) ++ m a

/-- Store one byte at `a`. -/
def write8 (m : Mem) (a : Word) (b : Byte) : Mem :=
  fun x => if x = a then b else m x

/-- Store the little-endian word `w` at `a`. -/
def write32 (m : Mem) (a w : Word) : Mem :=
  fun x => if (x - a).toNat < 4 then byteOf w (x - a).toNat else m x

/-- Two memories agree on the `n` bytes at `a`. -/
def AgreeOn (m m' : Mem) (a : Word) (n : Nat) : Prop :=
  ∀ i, i < n → m' (a + BitVec.ofNat 32 i) = m (a + BitVec.ofNat 32 i)

/-! ## Reading back -/

theorem append_byteOf (w : Word) :
    (byteOf w 3 ++ byteOf w 2 ++ byteOf w 1 ++ byteOf w 0 : Word) = w := by
  ext i hi
  simp only [byteOf, BitVec.getElem_append, BitVec.getElem_extractLsb']
  rw [← BitVec.getLsbD_eq_getElem]
  split
  · simp
  · split
    · congr 1
      omega
    · split
      · congr 1
        omega
      · congr 1
        omega

@[simp] theorem read32_write32 (m : Mem) (a w : Word) : (m.write32 a w).read32 a = w := by
  have h0 : (m.write32 a w) a = byteOf w 0 := by simp [write32]
  have h1 : (m.write32 a w) (a + 1) = byteOf w 1 := by simp [write32]
  have h2 : (m.write32 a w) (a + 2) = byteOf w 2 := by simp [write32]
  have h3 : (m.write32 a w) (a + 3) = byteOf w 3 := by simp [write32]
  rw [read32, h0, h1, h2, h3, append_byteOf]

/-! ## Frames -/

theorem write32_frame (m : Mem) {a x : Word} (w : Word) (h : 4 ≤ (x - a).toNat) :
    (m.write32 a w) x = m x := by
  rw [write32, if_neg (Nat.not_lt.mpr h)]

theorem write8_frame (m : Mem) {a x : Word} (b : Byte) (h : x ≠ a) :
    (m.write8 a b) x = m x := by
  simp [write8, h]

theorem read32_congr {m m' : Mem} {a : Word} (h0 : m' a = m a) (h1 : m' (a + 1) = m (a + 1))
    (h2 : m' (a + 2) = m (a + 2)) (h3 : m' (a + 3) = m (a + 3)) :
    m'.read32 a = m.read32 a := by
  rw [read32, read32, h0, h1, h2, h3]

theorem AgreeOn.read32 {m m' : Mem} {a : Word} {n : Nat} (h : AgreeOn m m' a n) (hn : 4 ≤ n) :
    m'.read32 a = m.read32 a := by
  have h0 := h 0 (by omega)
  have h1 := h 1 (by omega)
  have h2 := h 2 (by omega)
  have h3 := h 3 (by omega)
  simp only [BitVec.add_zero] at h0 h1 h2 h3
  exact read32_congr h0 h1 h2 h3

theorem agreeOn_write32 (m : Mem) {a b : Word} {n : Nat} (w : Word) (h : Sep a n b 4) :
    AgreeOn m (m.write32 b w) a n := by
  intro i hi
  obtain ⟨h₁, h₂⟩ := h
  apply write32_frame
  bv_omega

/-- A word store leaves every word apart from it alone. -/
theorem read32_write32_of_sep (m : Mem) {a b : Word} (w : Word) (h : Sep a 4 b 4) :
    (m.write32 b w).read32 a = m.read32 a :=
  (agreeOn_write32 m w h).read32 (Nat.le_refl 4)

/-- Byte `i` of the word at `a` is the byte at `a + i`. -/
theorem byteOf_read32 (m : Mem) (a : Word) {i : Nat} (hi : i < 4) :
    byteOf (m.read32 a) i = m (a + BitVec.ofNat 32 i) := by
  ext j hj
  rw [← BitVec.getLsbD_eq_getElem, ← BitVec.getLsbD_eq_getElem]
  simp only [byteOf, read32, BitVec.getLsbD_extractLsb', BitVec.getLsbD_append, hj]
  have hcases : i = 0 ∨ i = 1 ∨ i = 2 ∨ i = 3 := by omega
  rcases hcases with rfl | rfl | rfl | rfl
  · simp [hj]
  · simp [hj, show ¬ 8 + j < 8 by omega]
  · simp [hj, show ¬ 16 + j < 8 by omega, show ¬ 16 + j - 8 < 8 by omega,
      show 16 + j - 8 - 8 = j by omega]
  · simp [show ¬ 24 + j < 8 by omega, show ¬ 24 + j - 8 < 8 by omega,
      show ¬ 24 + j - 8 - 8 < 8 by omega, show 24 + j - 8 - 8 - 8 = j by omega]

/-- A store of the word already there changes nothing. -/
theorem write32_read32_self (m : Mem) (a : Word) : m.write32 a (m.read32 a) = m := by
  funext x
  unfold write32
  split
  · rename_i hx
    rw [byteOf_read32 m a hx]
    congr 1
    bv_omega
  · rfl

/-- Of two stores to one word the last one counts. -/
theorem write32_write32 (m : Mem) (a w w' : Word) :
    (m.write32 a w).write32 a w' = m.write32 a w' := by
  funext x
  unfold write32
  split
  · rfl
  · rfl

/-- Stores to words that are apart commute. -/
theorem write32_comm (m : Mem) {a b : Word} (w w' : Word) (h : Sep a 4 b 4) :
    (m.write32 a w).write32 b w' = (m.write32 b w').write32 a w := by
  funext x
  unfold Sep at h
  unfold write32
  by_cases ha : (x - a).toNat < 4
  · have hb : ¬ (x - b).toNat < 4 := by bv_omega
    simp only [ha, hb, if_true, if_false]
  · simp only [ha, if_false]

/-- Words are equal when their bytes are. -/
theorem read32_of_bytes {m m' : Mem} {a b : Word}
    (h : ∀ k : Word, k.toNat < 4 → m' (b + k) = m (a + k)) : m'.read32 b = m.read32 a := by
  have hzero : ∀ w : Word, w + 0 = w := fun w => BitVec.add_zero w
  have h0 := h 0 (by decide)
  rw [hzero, hzero] at h0
  rw [read32, read32, h0, h 1 (by decide), h 2 (by decide), h 3 (by decide)]

/-- A copy of the bytes has the words. -/
theorem read32_moved {m m' : Mem} {a b : Word} {n : Nat}
    (h : ∀ i, i < n → m' (b + BitVec.ofNat 32 i) = m (a + BitVec.ofNat 32 i)) {i : Nat}
    (hi : i + 4 ≤ n) :
    m'.read32 (b + BitVec.ofNat 32 i) = m.read32 (a + BitVec.ofNat 32 i) := by
  apply read32_of_bytes
  intro k hk
  have hat : ∀ p : Word, p + BitVec.ofNat 32 i + k = p + BitVec.ofNat 32 (i + k.toNat) := by
    intro p
    rw [BitVec.add_assoc, BitVec.ofNat_add, BitVec.ofNat_toNat, BitVec.setWidth_eq]
  rw [hat, hat, h _ (by omega)]

end Mem

end StupidOS
