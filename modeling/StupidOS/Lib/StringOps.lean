import StupidOS.Lib.Memory

/-!
# Repeated string instructions

`rep movsw` and `rep stosw` with the direction flag clear, and the 16-bit accesses they
are made of. A forward copy to lower addresses may overlap its source: every unit is read
before the copy gets to it (`repMovsw_apply`).
-/

namespace StupidOS

namespace Mem

/-- The little-endian 16-bit word at `a`. -/
def read16 (m : Mem) (a : Word) : Half := m (a + 1) ++ m a

/-- Byte `i` of a 16-bit word. -/
def byteOf16 (h : Half) (i : Nat) : Byte := h.extractLsb' (8 * i) 8

/-- Store the little-endian 16-bit word `h` at `a`. -/
def write16 (m : Mem) (a : Word) (h : Half) : Mem :=
  fun x => if (x - a).toNat < 2 then byteOf16 h (x - a).toNat else m x

/-- `rep movsw` -/
def repMovsw (m : Mem) : Nat → Word → Word → Mem
  | 0, _, _ => m
  | ecx + 1, esi, edi => repMovsw (m.write16 edi (m.read16 esi)) ecx (esi + 2) (edi + 2)

/-- `rep stosw` -/
def repStosw (m : Mem) (ax : Half) : Nat → Word → Mem
  | 0, _ => m
  | ecx + 1, edi => repStosw (m.write16 edi ax) ax ecx (edi + 2)

/-! ## Single words -/

theorem append_byteOf16 (h : Half) : (byteOf16 h 1 ++ byteOf16 h 0 : Half) = h := by
  ext i hi
  simp only [byteOf16, BitVec.getElem_append, BitVec.getElem_extractLsb']
  rw [← BitVec.getLsbD_eq_getElem]
  split
  · simp
  · congr 1
    omega

theorem byteOf16_append (a b : Byte) {i : Nat} (hi : i < 2) :
    byteOf16 (a ++ b) i = if i = 0 then b else a := by
  ext j hj
  rw [← BitVec.getLsbD_eq_getElem, ← BitVec.getLsbD_eq_getElem]
  simp only [byteOf16, BitVec.getLsbD_extractLsb', BitVec.getLsbD_append, hj]
  have hcases : i = 0 ∨ i = 1 := by omega
  rcases hcases with rfl | rfl
  · simp [hj]
  · simp [show ¬ 8 + j < 8 by omega]

theorem byteOf16_read16 (m : Mem) (a : Word) {i : Nat} (hi : i < 2) :
    byteOf16 (m.read16 a) i = m (a + BitVec.ofNat 32 i) := by
  rw [read16, byteOf16_append _ _ hi]
  have hcases : i = 0 ∨ i = 1 := by omega
  rcases hcases with rfl | rfl
  · rw [if_pos rfl, BitVec.add_zero]
  · rw [if_neg Nat.one_ne_zero]
    rfl

theorem write16_apply (m : Mem) {a x : Word} (h : Half) (hx : (x - a).toNat < 2) :
    m.write16 a h x = byteOf16 h (x - a).toNat := by
  rw [write16, if_pos hx]

theorem write16_frame (m : Mem) {a x : Word} (h : Half) (hx : 2 ≤ (x - a).toNat) :
    m.write16 a h x = m x := by
  rw [write16, if_neg (Nat.not_lt.mpr hx)]

@[simp] theorem read16_write16 (m : Mem) (a : Word) (h : Half) :
    (m.write16 a h).read16 a = h := by
  have h0 : m.write16 a h a = byteOf16 h 0 := by simp [write16]
  have h1 : m.write16 a h (a + 1) = byteOf16 h 1 := by simp [write16]
  rw [read16, h0, h1, append_byteOf16]

theorem read16_write16_of_sep (m : Mem) {a b : Word} (h : Half) (hsep : Sep a 2 b 2) :
    (m.write16 b h).read16 a = m.read16 a := by
  unfold Sep at hsep
  have h0 : m.write16 b h a = m a := write16_frame m h (by omega)
  have h1 : m.write16 b h (a + 1) = m (a + 1) := write16_frame m h (by bv_omega)
  rw [read16, read16, h0, h1]

theorem read16_of_bytes {m m' : Mem} {a b : Word}
    (h : ∀ k : Word, k.toNat < 2 → m' (b + k) = m (a + k)) : m'.read16 b = m.read16 a := by
  have hzero : ∀ w : Word, w + 0 = w := fun w => BitVec.add_zero w
  have h0 := h 0 (by decide)
  rw [hzero, hzero] at h0
  rw [read16, read16, h0, h 1 (by decide)]

theorem read16_congr {m m' : Mem} {a : Word} (h0 : m' a = m a) (h1 : m' (a + 1) = m (a + 1)) :
    m'.read16 a = m.read16 a := by
  rw [read16, read16, h0, h1]

theorem append_bytes (a b c d : Byte) :
    (a ++ b : Half) ++ (c ++ d : Half) = (a ++ b ++ c ++ d : Word) := by
  ext i hi
  simp only [BitVec.getElem_append]
  grind

theorem append_read16 (m : Mem) (a : Word) : m.read16 (a + 2) ++ m.read16 a = m.read32 a := by
  have hnext : a + 2 + 1 = a + 3 := by bv_omega
  rw [read16, read16, read32, hnext, append_bytes]

theorem write8_write8 (m : Mem) (a : Word) (h : Half) :
    (m.write8 a (h.setWidth 8)).write8 (a + 1) ((h >>> 8).setWidth 8) = m.write16 a h := by
  funext x
  unfold write8 write16
  by_cases h1 : x = a + 1
  · subst h1
    have hdist : (a + 1 - a).toNat = 1 := by bv_omega
    rw [if_pos rfl, hdist, if_pos (by decide)]
    ext i hi
    simp [byteOf16, BitVec.getElem_extractLsb', BitVec.getLsbD_ushiftRight]
  · rw [if_neg h1]
    by_cases h0 : x = a
    · subst h0
      have hdist : (x - x).toNat = 0 := by bv_omega
      rw [if_pos rfl, hdist, if_pos (by decide)]
      ext i hi
      simp [byteOf16, BitVec.getElem_extractLsb']
    · rw [if_neg h0, if_neg (by bv_omega)]

/-! ## Blocks -/

/-- A forward copy from higher addresses moves the old contents. -/
theorem repMovsw_apply (m : Mem) (ecx : Nat) (esi edi x : Word) (hdist : 2 ≤ (esi - edi).toNat)
    (hfit : (esi - edi).toNat + 2 * ecx ≤ 2 ^ 32) :
    m.repMovsw ecx esi edi x
      = if (x - edi).toNat < 2 * ecx then m (x - edi + esi) else m x := by
  induction ecx generalizing m esi edi with
  | zero => rw [repMovsw, if_neg (by omega)]
  | succ n ih =>
      have hnext : esi + 2 - (edi + 2) = esi - edi := by bv_omega
      rw [repMovsw, ih _ _ _ (by rw [hnext]; exact hdist) (by rw [hnext]; omega)]
      have hmoved : x - (edi + 2) + (esi + 2) = x - edi + esi := by bv_omega
      rw [hmoved]
      by_cases hfirst : (x - edi).toNat < 2
      · -- the unit just stored: the rest of the copy is above it
        have hrest : ¬ (x - (edi + 2)).toNat < 2 * n := by bv_omega
        have hx : esi + BitVec.ofNat 32 (x - edi).toNat = x - edi + esi := by
          rw [BitVec.ofNat_toNat, BitVec.setWidth_eq, BitVec.add_comm]
        rw [if_neg hrest, if_pos (by omega), write16_apply _ _ hfirst, byteOf16_read16 _ _ hfirst,
          hx]
      · have hsource : ∀ y : Word, y = x - edi + esi → (x - edi).toNat < 2 * (n + 1) →
            2 ≤ (y - edi).toNat := by
          intro y hy hlt
          bv_omega
        have hiff : (x - (edi + 2)).toNat < 2 * n ↔ (x - edi).toNat < 2 * (n + 1) := by
          constructor <;> intro h <;> bv_omega
        by_cases hin : (x - edi).toNat < 2 * (n + 1)
        · rw [if_pos (hiff.mpr hin), if_pos hin]
          exact write16_frame _ _ (hsource _ rfl hin)
        · rw [if_neg (fun h => hin (hiff.mp h)), if_neg hin]
          exact write16_frame _ _ (by omega)

theorem repStosw_apply (m : Mem) (ax : Half) (ecx : Nat) (edi x : Word)
    (hfit : 2 * ecx ≤ 2 ^ 32) :
    m.repStosw ax ecx edi x
      = if (x - edi).toNat < 2 * ecx then byteOf16 ax ((x - edi).toNat % 2) else m x := by
  induction ecx generalizing m edi with
  | zero => rw [repStosw, if_neg (by omega)]
  | succ n ih =>
      rw [repStosw, ih _ _ (by omega)]
      by_cases hfirst : (x - edi).toNat < 2
      · have hrest : ¬ (x - (edi + 2)).toNat < 2 * n := by bv_omega
        rw [if_neg hrest, if_pos (by omega), write16_apply _ _ hfirst, Nat.mod_eq_of_lt hfirst]
      · have hoff : (x - edi).toNat = (x - (edi + 2)).toNat + 2 := by bv_omega
        rw [write16_frame _ _ (by omega), hoff, Nat.add_mod_right]
        by_cases hin : (x - (edi + 2)).toNat < 2 * n
        · rw [if_pos hin, if_pos (by omega)]
        · rw [if_neg hin, if_neg (by omega)]

end Mem

end StupidOS
