import StupidOS.Kernel.PmmRuns
import StupidOS.Kernel.Mappings

/-!
# The low-memory bitmap (`_pmm_init_low_memory`)

The loop sets one bit for each page below `low_mem`, and is driven by `low_mem` alone:
the 8 words of the bitmap cover the first MiB. Up to there it sets exactly the bits
asked for and stores to the bitmap only (`pmmInitLowMemory_bits`).
-/

namespace StupidOS.Kernel

variable {K : KernelImage}

/-! ## The bitmap -/

/-- The physical address of word `j` of the bitmap. -/
def KernelImage.bitmapPhys (K : KernelImage) (j : Nat) : Word :=
  K.au32PmmLowMemBitmap + BitVec.ofNat 32 (4 * j) - kernelVirtBase

/-- Bit `i` of the bitmap. -/
def lowMemBit (K : KernelImage) (m : Mem) (i : Nat) : Bool :=
  (m.read32 (K.bitmapPhys (i / 32))).getLsbD (i % 32)

/-- The bitmap is all that differs. -/
structure BitmapOnly (K : KernelImage) (mc mc' : Machine) : Prop where
  paging : KernelPaging K.kend mc'
  same : ∀ x : Word, x.toNat < K.headPhys.toNat + 4 ∨ K.headPhys.toNat + 36 ≤ x.toNat →
    mc'.mem x = mc.mem x

/-- Word `j` of the bitmap. -/
theorem bitmap_word {j : Nat} (hj : j < 8) :
    InKernel K.kend (K.au32PmmLowMemBitmap + BitVec.ofNat 32 (4 * j)) ∧
      (K.au32PmmLowMemBitmap + BitVec.ofNat 32 (4 * j) - kernelVirtBase).toNat =
        K.headPhys.toNat + 4 + 4 * j := by
  have hlow := K.head_low
  have hhigh := K.head_high
  have hend := K.kend_high
  have hphys := K.headPhys_toNat
  have hnat : (K.au32PmmLowMemBitmap + BitVec.ofNat 32 (4 * j)).toNat =
      K.pPmmFreeListHead.toNat + 4 + 4 * j := by
    unfold KernelImage.au32PmmLowMemBitmap
    bv_omega
  refine ⟨⟨by omega, by omega⟩, ?_⟩
  unfold kernelVirtBase
  bv_omega

/-- A store to the bitmap. -/
theorem BitmapOnly.store {mc mc' : Machine} (h : BitmapOnly K mc mc') {j : Nat} (hj : j < 8)
    (w : Word) :
    ∃ mc'', mc'.store32 (K.au32PmmLowMemBitmap + BitVec.ofNat 32 (4 * j)) w = some mc'' ∧
      mc''.mem = mc'.mem.write32 (K.bitmapPhys j) w ∧ BitmapOnly K mc mc'' := by
  have hhi := K.kend_high
  rcases bitmap_word (K := K) hj with ⟨hin, hnat⟩
  refine ⟨_, h.paging.store_image hhi hin w, rfl, h.paging.put hhi (hin.offPaging hhi) w, ?_⟩
  intro x hx
  rw [Machine.put_mem, ← h.same x hx]
  rcases K.imageEnd_bounds with ⟨hend, hlow, hhigh⟩
  generalize K.au32PmmLowMemBitmap + BitVec.ofNat 32 (4 * j) - kernelVirtBase = a at hnat ⊢
  exact Mem.write32_frame _ _ (by bv_omega)

/-- A word outside the bitmap. -/
theorem BitmapOnly.read {mc mc' : Machine} (h : BitmapOnly K mc mc') {a : Word}
    (ha : a.toNat + 4 ≤ K.headPhys.toNat + 4 ∨ K.headPhys.toNat + 36 ≤ a.toNat)
    (hfits : a.toNat + 4 ≤ 2 ^ 32) : mc'.mem.read32 a = mc.mem.read32 a :=
  Mem.read32_congr (h.same _ (by bv_omega)) (h.same _ (by bv_omega)) (h.same _ (by bv_omega))
    (h.same _ (by bv_omega))

theorem bitmapPhys_sep {i j : Nat} (hi : i < 8) (hj : j < 8) (hne : i ≠ j) :
    Sep (K.bitmapPhys i) 4 (K.bitmapPhys j) 4 := by
  have h₁ := (bitmap_word (K := K) hi).2
  have h₂ := (bitmap_word (K := K) hj).2
  rcases K.imageEnd_bounds with ⟨hend, hlow, hhigh⟩
  change (K.bitmapPhys i).toNat = _ at h₁
  change (K.bitmapPhys j).toNat = _ at h₂
  exact Sep.of_le (by omega) (by omega) (by omega) (by omega) (by omega)

/-- Setting bit `j` sets that bit and no other. -/
theorem lowMemBit_set (m : Mem) {i j : Nat} (hi : i < 256) (hj : j < 256) :
    lowMemBit K (m.write32 (K.bitmapPhys (j / 32))
      (m.read32 (K.bitmapPhys (j / 32)) ||| (1 : Word) <<< (j % 32))) i =
      (lowMemBit K m i || decide (i = j)) := by
  unfold lowMemBit
  by_cases hword : i / 32 = j / 32
  · rw [hword, Mem.read32_write32, BitVec.getLsbD_or]
    congr 1
    have hlt : i % 32 < 32 := Nat.mod_lt i (by omega)
    have hone : ∀ a b : Fin 32, ((1 : Word) <<< b.val).getLsbD a.val = decide (a.val = b.val) := by
      decide
    have hbit : ((1 : Word) <<< (j % 32)).getLsbD (i % 32) = decide (i % 32 = j % 32) :=
      hone ⟨i % 32, hlt⟩ ⟨j % 32, Nat.mod_lt j (by omega)⟩
    rw [hbit]
    exact decide_eq_decide.mpr (by omega)
  · have hne : i ≠ j := fun heq => hword (by rw [heq])
    rw [Mem.read32_write32_of_sep _ _ (bitmapPhys_sep (by omega) (by omega) hword),
      decide_eq_false hne, Bool.or_false]

/-- Clearing the bitmap, from word `8 - n` on. -/
theorem repStosdVirt_bitmap {mc mc' : Machine} (h : BitmapOnly K mc mc') {n : Nat} (hn : n ≤ 8)
    (hzero : ∀ j, j < 8 - n → mc'.mem.read32 (K.bitmapPhys j) = 0) :
    ∃ mc'', repStosdVirt mc' (K.au32PmmLowMemBitmap + BitVec.ofNat 32 (4 * (8 - n))) 0 n =
        some mc'' ∧ BitmapOnly K mc mc'' ∧ ∀ j, j < 8 → mc''.mem.read32 (K.bitmapPhys j) = 0 := by
  induction n generalizing mc' with
  | zero => exact ⟨mc', rfl, h, hzero⟩
  | succ n ih =>
      rcases h.store (show 8 - (n + 1) < 8 by omega) 0 with ⟨mc₁, hst, hmem, h₁⟩
      have hzero₁ : ∀ j, j < 8 - n → mc₁.mem.read32 (K.bitmapPhys j) = 0 := by
        intro j hj
        rw [hmem]
        by_cases heq : j = 8 - (n + 1)
        · rw [heq, Mem.read32_write32]
        · rw [Mem.read32_write32_of_sep _ _ (bitmapPhys_sep (by omega) (by omega) heq)]
          exact hzero j (by omega)
      rcases ih h₁ (by omega) hzero₁ with ⟨mc₂, hrest, h₂⟩
      refine ⟨mc₂, ?_, h₂⟩
      have hedi : K.au32PmmLowMemBitmap + BitVec.ofNat 32 (4 * (8 - (n + 1))) + 4 =
          K.au32PmmLowMemBitmap + BitVec.ofNat 32 (4 * (8 - n)) := by
        have h4 : 4 * (8 - n) = 4 * (8 - (n + 1)) + 4 := by omega
        rw [h4]
        bv_omega
      rw [repStosdVirt, Option.bind_eq_bind, hst, Option.bind_some, hedi, hrest]

theorem lowMem_word : InKernel K.kend K.lowMem ∧
    (K.lowMem - kernelVirtBase).toNat = K.stBootInfo.toNat + 652 - 0xC0000000 := by
  have hlow := K.boot_low
  have hhigh := K.boot_high
  have hend := K.kend_high
  have hnat : K.lowMem.toNat = K.stBootInfo.toNat + 652 := by
    unfold KernelImage.lowMem
    bv_omega
  refine ⟨⟨by omega, by omega⟩, ?_⟩
  unfold kernelVirtBase
  bv_omega

/-! ## The loop -/

/-- The loop before page `i`. -/
def atPage (K : KernelImage) (mc : Machine) (ebx : Word) (i : Nat) :
    Machine × Word × Word × Word × Word :=
  (mc, BitVec.ofNat 32 (4096 * i), BitVec.ofNat 32 (i % 32),
    K.au32PmmLowMemBitmap + BitVec.ofNat 32 (4 * (i / 32)), ebx)

/-- The bits of the first `i` pages are set, and nothing but the bitmap has changed. -/
structure BitmapUpTo (K : KernelImage) (mc : Machine) (i : Nat) (mc' : Machine) : Prop where
  only : BitmapOnly K mc mc'
  bits : ∀ j, j < 256 → lowMemBit K mc'.mem j = decide (j < i)

/-- EBX after `n` passes: the bit that the last one set. -/
def lastBit (ebx : Word) (n : Nat) : Word :=
  if n = 0 then ebx else (1 : Word) <<< ((n - 1) % 32)

/-- The number of passes: the whole pages below `low_mem`, none where it is negative in the
comparison. -/
def lowPages (low : Word) : Nat := if low.toNat < 2 ^ 31 then low.toNat / 4096 else 0

theorem page_add (i : Nat) :
    BitVec.ofNat 32 (4096 * i) + pageSize = BitVec.ofNat 32 (4096 * (i + 1)) := by
  unfold pageSize
  bv_omega

/-- The comparison of the loop at page `i`. -/
theorem low_slt_page {low : Word} (hsigned : low.toNat < 2 ^ 31) {i : Nat} (hi : i ≤ 256) :
    low.slt (BitVec.ofNat 32 (4096 * (i + 1))) = decide (low.toNat < 4096 * (i + 1)) := by
  have hnat : (BitVec.ofNat 32 (4096 * (i + 1))).toNat = 4096 * (i + 1) :=
    toNat_ofNat_of_lt (by omega)
  rw [slt_of_lt hsigned (by omega), hnat]

section Loop

variable {mc : Machine} {low : Word} (hlow : mc.mem.read32 (K.lowMem - kernelVirtBase) = low)

include hlow

/-- `low_mem` does not lie in the bitmap. -/
theorem BitmapOnly.load_lowMem {mc' : Machine} (h : BitmapOnly K mc mc') :
    mc'.load32 K.lowMem = some low := by
  rcases lowMem_word (K := K) with ⟨hlin, hlnat⟩
  have hbounds := K.headPhys_toNat
  have hapart := K.apart
  have hblow := K.boot_low
  have hbhigh := K.boot_high
  have hhlow := K.head_low
  have hend := K.kend_high
  rw [h.paging.load_image hend hlin, ← hlow, h.read (by omega) (by omega)]

variable (hsigned : low.toNat < 2 ^ 31)

include hsigned

theorem pmmInitLowMemoryBody_done {mc' : Machine} (h : BitmapOnly K mc mc') {i : Nat}
    (hi : i ≤ 256) (hlt : low.toNat < 4096 * (i + 1)) (ebx : Word) :
    pmmInitLowMemoryBody K (atPage K mc' ebx i) = some (.done (mc', ebx)) := by
  unfold pmmInitLowMemoryBody atPage
  simp only [h.load_lowMem hlow, Option.bind_eq_bind, Option.bind_some, page_add,
    low_slt_page hsigned hi, decide_eq_true_eq, if_pos hlt]
  rfl

/-- A page below `low_mem`. -/
theorem pmmInitLowMemoryBody_again {mc' : Machine} {i : Nat} (h : BitmapUpTo K mc i mc')
    (hi : i < 256) (hle : 4096 * (i + 1) ≤ low.toNat) (ebx : Word) :
    ∃ mc'', BitmapUpTo K mc (i + 1) mc'' ∧ pmmInitLowMemoryBody K (atPage K mc' ebx i) =
      some (.again (atPage K mc'' (lastBit ebx (i + 1)) (i + 1))) := by
  have hhi := K.kend_high
  have hj : i / 32 < 8 := by omega
  rcases bitmap_word (K := K) hj with ⟨hin, -⟩
  have hread := h.only.paging.load_image hhi hin
  have hshift : (BitVec.ofNat 32 (i % 32)).toNat % 32 = i % 32 := by
    rw [toNat_ofNat_of_lt (by omega), Nat.mod_mod]
  rcases h.only.store hj (mc'.mem.read32 (K.bitmapPhys (i / 32)) ||| (1 : Word) <<< (i % 32)) with
    ⟨mc₁, hst, hmem, h₁⟩
  -- the pass sets bit `i` and no other
  have hbits : ∀ j, j < 256 → lowMemBit K mc₁.mem j = decide (j < i + 1) := by
    intro j hj'
    rw [hmem, lowMemBit_set _ hj' hi, h.bits j hj', ← Bool.decide_or]
    exact decide_eq_decide.mpr (by omega)
  refine ⟨mc₁, ⟨h₁, hbits⟩, ?_⟩
  have hlast : lastBit ebx (i + 1) = (1 : Word) <<< (i % 32) := if_neg (Nat.succ_ne_zero i)
  rw [hlast]
  have hecx : BitVec.ofNat 32 (i % 32) + 1 = BitVec.ofNat 32 (i % 32 + 1) := by
    rw [BitVec.ofNat_add]
    rfl
  have hult : (BitVec.ofNat 32 (i % 32 + 1)).ult 32 = decide (i % 32 + 1 < 32) := by
    unfold BitVec.ult
    rw [toNat_ofNat_of_lt (by omega)]
    rfl
  have hword : mc'.mem.read32 (K.au32PmmLowMemBitmap + BitVec.ofNat 32 (4 * (i / 32)) -
      kernelVirtBase) = mc'.mem.read32 (K.bitmapPhys (i / 32)) := rfl
  unfold pmmInitLowMemoryBody atPage
  simp only [h.only.load_lowMem hlow, Option.bind_eq_bind, Option.bind_some, page_add,
    low_slt_page hsigned (Nat.le_of_lt hi), decide_eq_true_eq, if_neg (Nat.not_lt.mpr hle),
    hread, hword, hshift, hst, hecx, hult]
  split
  · have hrem : (i + 1) % 32 = i % 32 + 1 ∧ (i + 1) / 32 = i / 32 := by omega
    rw [hrem.1, hrem.2]
    rfl
  · have hrem : (i + 1) % 32 = 0 ∧ (i + 1) / 32 = i / 32 + 1 := by omega
    have hedi : K.au32PmmLowMemBitmap + BitVec.ofNat 32 (4 * (i / 32)) + 4 =
        K.au32PmmLowMemBitmap + BitVec.ofNat 32 (4 * (i / 32 + 1)) := by
      bv_omega
    rw [hrem.1, hrem.2, hedi]
    rfl

/-- The first `n` passes. -/
theorem pmmInitLowMemory_passes {mc₁ : Machine} (h : BitmapUpTo K mc 0 mc₁) (ebx : Word) {n : Nat}
    (hn : n ≤ 256) (hle : 4096 * n ≤ low.toNat) :
    ∃ mc', BitmapUpTo K mc n mc' ∧
      ∀ fuel, iterate (pmmInitLowMemoryBody K) (fuel + n) (atPage K mc₁ ebx 0) =
        iterate (pmmInitLowMemoryBody K) fuel (atPage K mc' (lastBit ebx n) n) := by
  induction n with
  | zero => exact ⟨mc₁, h, fun _ => rfl⟩
  | succ n ih =>
      rcases ih (by omega) (by omega) with ⟨mc₂, h₂, hrun⟩
      rcases pmmInitLowMemoryBody_again hlow hsigned h₂ (by omega) hle (lastBit ebx n) with
        ⟨mc₃, h₃, hbody⟩
      refine ⟨mc₃, h₃, ?_⟩
      intro fuel
      have hfuel : fuel + (n + 1) = fuel + 1 + n := by omega
      rw [hfuel, hrun (fuel + 1), iterate_again hbody]
      rfl

end Loop

/-- The bitmap is cleared first. -/
theorem pmmInitLowMemory_eq {mc : Machine} (h : KernelPaging K.kend mc) (regs : SavedRegs) :
    ∃ mc₁, BitmapUpTo K mc 0 mc₁ ∧ ∀ fuel, pmmInitLowMemory K fuel mc regs =
      (iterate (pmmInitLowMemoryBody K) fuel (atPage K mc₁ regs.ebx 0)).map
        (fun r => (r.1, { regs with ebx := r.2 })) := by
  have h0 : BitmapOnly K mc mc := ⟨h, fun _ _ => rfl⟩
  have hstart : K.au32PmmLowMemBitmap + BitVec.ofNat 32 (4 * 0) = K.au32PmmLowMemBitmap := by
    bv_omega
  rcases repStosdVirt_bitmap h0 (Nat.le_refl 8) (fun j hj => absurd hj (by omega)) with
    ⟨mc₁, hclear, h₁, hzero⟩
  rw [Nat.sub_self, hstart] at hclear
  refine ⟨mc₁, ⟨h₁, ?_⟩, ?_⟩
  · intro j hj
    rw [lowMemBit, hzero _ (by omega), decide_eq_false (Nat.not_lt_zero j)]
    exact BitVec.getLsbD_zero
  · intro fuel
    unfold pmmInitLowMemory
    rw [Option.bind_eq_bind, hclear, Option.bind_some, Option.bind_eq_bind, atPage, hstart]
    cases iterate (pmmInitLowMemoryBody K) fuel
      (mc₁, BitVec.ofNat 32 (4096 * 0), BitVec.ofNat 32 (0 % 32), K.au32PmmLowMemBitmap,
        regs.ebx) with
    | none => rfl
    | some r => rfl

/-- For a low memory that the bitmap covers, `_pmm_init_low_memory` returns with exactly
the bits of the pages below it set. -/
theorem pmmInitLowMemory_bits {mc : Machine} (h : KernelPaging K.kend mc) {low : Word}
    (hlow : mc.mem.read32 (K.lowMem - kernelVirtBase) = low) (hlt : low.toNat < 0x101000)
    (regs : SavedRegs) {fuel : Nat} (hfuel : 256 < fuel) :
    ∃ mc' regs', pmmInitLowMemory K fuel mc regs = some (mc', regs') ∧
      regs' = { regs with ebx := lastBit regs.ebx (low.toNat / 4096) } ∧
      BitmapUpTo K mc (low.toNat / 4096) mc' := by
  rcases pmmInitLowMemory_eq h regs with ⟨mc₁, h₁, heq⟩
  rcases pmmInitLowMemory_passes hlow (by omega) h₁ regs.ebx (n := low.toNat / 4096) (by omega)
    (by omega) with ⟨mc₂, h₂, hrun⟩
  have hdone := pmmInitLowMemoryBody_done hlow (by omega) h₂.only (i := low.toNat / 4096)
    (by omega) (by omega) (lastBit regs.ebx (low.toNat / 4096))
  have hsplit : fuel = (fuel - low.toNat / 4096 - 1) + 1 + low.toNat / 4096 := by omega
  refine ⟨mc₂, _, ?_, rfl, h₂⟩
  rw [heq, hsplit, hrun, iterate_done hdone]
  rfl

/-! ## Larger values of `low_mem` -/

/-- What `_pmm_init_low_memory` is for: the bits of the pages below `low_mem`, and
nothing but the bitmap stored to. -/
structure LowMemInit (K : KernelImage) (low : Word) (mc mc' : Machine) : Prop where
  bits : ∀ i, i < 256 → lowMemBit K mc'.mem i = decide (4096 * (i + 1) ≤ low.toNat)
  same : ∀ x : Word, x.toNat < K.headPhys.toNat + 4 ∨ K.headPhys.toNat + 36 ≤ x.toNat →
    mc'.mem x = mc.mem x

/-- It returns and does so, whatever memory holds. -/
def LowMemMeets (K : KernelImage) (low : Word) : Prop :=
  ∀ mc regs, KernelPaging K.kend mc → mc.mem.read32 (K.lowMem - kernelVirtBase) = low →
    ∃ fuel mc' regs', pmmInitLowMemory K fuel mc regs = some (mc', regs') ∧
      LowMemInit K low mc mc'

/-- A page that may be written may be read. -/
theorem walk_of_store {m : Mem} {cr3 v p : Word} (h : walk true m cr3 v = some p) :
    walk false m cr3 v = some p := by
  have hallow : ∀ e, entryAllows true e = true → entryAllows false e = true := by
    intro e he
    rw [entryAllows, Bool.and_eq_true] at he
    rw [entryAllows, he.1]
    rfl
  unfold walk at *
  split at h
  · rename_i hpde
    split at h
    · rename_i hpte
      rw [if_pos (hallow _ hpde), if_pos (hallow _ hpte)]
      exact h
    · cases h
  · cases h

/-- A store of a word with more bits set only sets bits. -/
theorem Mem.write32_or (m : Mem) (p w x : Word) :
    ∃ b, (m.write32 p (m.read32 p ||| w)) x = m x ||| b := by
  unfold Mem.write32
  split
  · rename_i hx
    have hbyte : byteOf (m.read32 p ||| w) (x - p).toNat = m x ||| byteOf w (x - p).toNat := by
      have hold := Mem.byteOf_read32 m p hx
      have haddr : p + BitVec.ofNat 32 (x - p).toNat = x := by bv_omega
      rw [haddr] at hold
      rw [← hold]
      exact BitVec.extractLsb'_or
    exact ⟨_, hbyte⟩
  · exact ⟨0, BitVec.or_zero.symm⟩

/-- What a pass can do to memory: set bits of one word. -/
theorem pmmInitLowMemoryBody_cases {s : Machine × Word × Word × Word × Word}
    {pass : Pass (Machine × Word × Word × Word × Word) (Machine × Word)}
    (h : pmmInitLowMemoryBody K s = some pass) :
    (∃ ebx, pass = .done (s.1, ebx)) ∨
      ∃ mc' p w rest, mc'.mem = s.1.mem.write32 p (s.1.mem.read32 p ||| w) ∧
        pass = .again (mc', rest) := by
  rcases s with ⟨mc, eax, ecx, edi, ebx⟩
  unfold pmmInitLowMemoryBody at h
  rcases Option.bind_eq_some_iff.mp h with ⟨low, -, hcmp⟩
  dsimp only at hcmp
  by_cases hslt : low.slt (eax + pageSize) = true
  · rw [if_pos hslt] at hcmp
    exact Or.inl ⟨ebx, (Option.some.inj hcmp).symm⟩
  · rw [if_neg hslt] at hcmp
    rcases Option.bind_eq_some_iff.mp hcmp with ⟨word, hload, hrest⟩
    rcases Option.bind_eq_some_iff.mp hrest with ⟨mc', hstore, hnext⟩
    rcases Option.map_eq_some_iff.mp hstore with ⟨p, hwalk, hmem⟩
    rw [Machine.load32, walk_of_store hwalk, Option.map_some, Option.some.injEq] at hload
    right
    refine ⟨mc', p, (1 : Word) <<< (ecx.toNat % 32), ?_⟩
    rw [← hmem, hload]
    by_cases hult : (ecx + 1).ult 32 = true
    · rw [if_pos hult] at hnext
      exact ⟨_, rfl, by rw [hmem]; exact (Option.some.inj hnext).symm⟩
    · rw [if_neg hult] at hnext
      exact ⟨_, rfl, by rw [hmem]; exact (Option.some.inj hnext).symm⟩

/-- A set bit stays set until the loop returns. -/
theorem pmmInitLowMemory_keeps {s : Machine × Word × Word × Word × Word} {x : Word} {k fuel : Nat}
    (hset : (s.1.mem x).getLsbD k = true) {r : Machine × Word}
    (hr : iterate (pmmInitLowMemoryBody K) fuel s = some r) : (r.1.mem x).getLsbD k = true := by
  refine iterate_sound (fun s => (s.1.mem x).getLsbD k = true)
    (fun r => (r.1.mem x).getLsbD k = true) ?_ ?_ hset hr
  · intro s s' hs hbody
    rcases pmmInitLowMemoryBody_cases hbody with ⟨ebx, hdone⟩ | ⟨mc', p, w, rest, hmem, hagain⟩
    · cases hdone
    · rw [(Pass.again.inj hagain)]
      rcases Mem.write32_or s.1.mem p w x with ⟨b, hb⟩
      dsimp only
      rw [hmem, hb, BitVec.getLsbD_or, hs, Bool.true_or]
  · intro s r hs hbody
    rcases pmmInitLowMemoryBody_cases hbody with ⟨ebx, hdone⟩ | ⟨mc', p, w, rest, hmem, hagain⟩
    · rw [Pass.done.inj hdone]
      exact hs
    · cases hagain

/-- Values that are negative in the comparison end the loop at once. -/
theorem pmmInitLowMemory_negative {low : Word} (hneg : 2 ^ 31 ≤ low.toNat) {mc : Machine}
    (h : KernelPaging K.kend mc) (hlow : mc.mem.read32 (K.lowMem - kernelVirtBase) = low)
    (regs : SavedRegs) :
    ∃ mc', BitmapUpTo K mc 0 mc' ∧
      ∀ fuel, pmmInitLowMemory K (fuel + 1) mc regs = some (mc', regs) := by
  rcases pmmInitLowMemory_eq h regs with ⟨mc₁, h₁, heq⟩
  refine ⟨mc₁, h₁, ?_⟩
  intro fuel
  have hslt : low.slt (BitVec.ofNat 32 (4096 * (0 + 1))) = true := by
    have hnat : (BitVec.ofNat 32 (4096 * (0 + 1))).toNat = 4096 := rfl
    rw [BitVec.slt_eq_decide, toInt_eq_ite, toInt_eq_ite, hnat, if_neg (by omega),
      if_pos (by omega)]
    exact decide_eq_true (by omega)
  have hdone : pmmInitLowMemoryBody K (atPage K mc₁ regs.ebx 0) = some (.done (mc₁, regs.ebx)) := by
    unfold pmmInitLowMemoryBody atPage
    simp only [h₁.only.load_lowMem hlow, Option.bind_eq_bind, Option.bind_some, page_add,
      if_pos hslt]
    rfl
  rw [heq, iterate_done hdone]
  rfl

/-- They set no bit at all. -/
theorem lowMem_negative {low : Word} (hneg : 2 ^ 31 ≤ low.toNat) {mc : Machine}
    (h : KernelPaging K.kend mc) (hlow : mc.mem.read32 (K.lowMem - kernelVirtBase) = low)
    (regs : SavedRegs) :
    ¬ ∃ fuel mc' regs', pmmInitLowMemory K fuel mc regs = some (mc', regs') ∧
      LowMemInit K low mc mc' := by
  intro hmeets
  rcases hmeets with ⟨fuel, mc', regs', hres, hinit⟩
  rcases pmmInitLowMemory_negative hneg h hlow regs with ⟨mc₁, h₁, hrun⟩
  have hmc : mc₁ = mc' := by
    cases fuel with
    | zero =>
        rcases pmmInitLowMemory_eq h regs with ⟨mc₂, -, heq⟩
        rw [heq] at hres
        cases hres
    | succ fuel =>
        rw [hrun fuel] at hres
        exact congrArg Prod.fst (Option.some.inj hres)
  have hbit := hinit.bits 0 (by omega)
  have hbelow : 4096 * (0 + 1) ≤ low.toNat := by omega
  rw [← hmc, h₁.bits 0 (by omega), decide_eq_true hbelow] at hbit
  exact absurd hbit (by decide)

/-- It returns with nothing but the bitmap changed in either case. -/
theorem pmmInitLowMemory_returns {mc : Machine} (h : KernelPaging K.kend mc) {low : Word}
    (hlow : mc.mem.read32 (K.lowMem - kernelVirtBase) = low)
    (hle : low.toNat < 0x101000 ∨ 2 ^ 31 ≤ low.toNat) (regs : SavedRegs) {fuel : Nat}
    (hfuel : 256 < fuel) :
    ∃ mc' regs', pmmInitLowMemory K fuel mc regs = some (mc', regs') ∧
      regs' = { regs with ebx := lastBit regs.ebx (lowPages low) } ∧ BitmapOnly K mc mc' := by
  rcases hle with hle | hneg
  · rcases pmmInitLowMemory_bits h hlow hle regs hfuel with ⟨mc', regs', hres, hregs, hbits⟩
    refine ⟨mc', regs', hres, ?_, hbits.only⟩
    rw [hregs, lowPages, if_pos (by omega)]
  · rcases pmmInitLowMemory_negative hneg h hlow regs with ⟨mc', hbits, hrun⟩
    have hsplit : fuel = fuel - 1 + 1 := by omega
    refine ⟨mc', regs, ?_, ?_, hbits.only⟩
    · rw [hsplit]
      exact hrun (fuel - 1)
    · rw [lowPages, if_neg (by omega)]
      rfl

/-- A store through the kernel's mapping of the page that its image ends in. -/
theorem KernelPaging.walk_page {kend : Word} {mc : Machine} (h : KernelPaging kend mc)
    (hhi : kend.toNat ≤ 0xC0400000) (store : Bool) {v : Word}
    (hv : KernelPage kend (v.toNat / 4096)) :
    walk store mc.mem mc.cr3 v = some (v - kernelVirtBase) := by
  rw [kernelPage_iff hhi] at hv
  -- so few pages that one table holds them
  have hpages : kernelPages kend ≤ 1024 := by
    unfold kernelPages
    omega
  have hpde := h.dir.pde v
  have htable : (0x400000 : Word) + BitVec.ofNat 32 (4096 * (v.toNat / 2 ^ 22)) = kernelTable := by
    unfold kernelTable
    bv_omega
  rw [htable] at hpde
  rcases h.table.walk (by decide) (by decide) (by decide) hpde (by omega) store with ⟨-, hwalk⟩
  rw [h.cr3, hwalk, Option.some.injEq]
  unfold kernelVirtBase
  bv_omega

/-- A machine with nothing but the kernel mapped, and memory empty but for `low_mem`. -/
theorem exists_emptyMachine (K : KernelImage) (low : Word) :
    ∃ mc, KernelPaging K.kend mc ∧ RestNotPresent K.kend mc.mem ∧
      mc.mem.read32 (K.lowMem - kernelVirtBase) = low ∧
      ∀ x : Word, 0x100000 ≤ x.toNat → x.toNat < 0x700000 →
        4 ≤ (x - (K.lowMem - kernelVirtBase)).toNat → mc.mem x = 0 := by
  have hhi := K.kend_high
  have hlo := K.kend_low
  have hblow := K.boot_low
  have hbhigh := K.boot_high
  rcases lowMem_word (K := K) with ⟨-, hnat⟩
  rcases common32_paging demoLayout (Mem.write32 (fun _ => 0) (K.lowMem - kernelVirtBase) low) 0
    (Nat.le_refl 1024) with ⟨mc₀, -, hloader, hframe₀⟩
  have hz : (0 : Word).toNat = 0 := rfl
  have hkend : 0xC0000000 < K.kend.toNat := by omega
  rcases mmBootstrap_writes demoLayout hloader hkend hhi (Nat.le_refl 1024) with
    ⟨mc, -, hpaging, hframe⟩
  generalize K.lowMem - kernelVirtBase = a at hnat hframe₀ ⊢
  have hsame : ∀ x : Word, 0x100000 ≤ x.toNat → x.toNat < 0x700000 →
      mc.mem x = (Mem.write32 (fun _ => 0) a low) x := by
    intro x hx hx'
    have hpages : kernelPages K.kend ≤ 1024 := kernelPages_le hhi
    have htable : kernelTable.toNat = 0x700000 := rfl
    have hdir : kernelDirectory.toNat = 0x7FF000 := rfl
    rw [hframe x (by bv_omega) (by bv_omega)]
    exact hframe₀ x (by omega)
  refine ⟨mc, hpaging, ?_, ?_, ?_⟩
  · intro i hi hout
    have hzero : tableEntry mc₀.mem i = 0 := by
      have hbyte : ∀ x : Word, 0x400000 ≤ x.toNat → mc₀.mem x = 0 := by
        intro x hx
        rw [hframe₀ x (by omega)]
        exact Mem.write32_frame _ _ (by bv_omega)
      rw [tableEntry, Mem.read32, hbyte _ (by bv_omega), hbyte _ (by bv_omega),
        hbyte _ (by bv_omega), hbyte _ (by bv_omega)]
      rfl
    rw [tableEntry_kept hhi hframe hi hout, hzero]
    rfl
  · rw [Mem.read32_congr (hsame a (by omega) (by omega)) (hsame _ (by bv_omega) (by bv_omega))
      (hsame _ (by bv_omega) (by bv_omega)) (hsame _ (by bv_omega) (by bv_omega)),
      Mem.read32_write32]
  · intro x hx hx' hsep
    rw [hsame x hx hx']
    exact Mem.write32_frame _ _ hsep

/-- The first word behind the bitmap. -/
def KernelImage.bitmapEnd (K : KernelImage) : Word :=
  K.au32PmmLowMemBitmap + BitVec.ofNat 32 (4 * (256 / 32))

theorem bitmapEnd_toNat : K.bitmapEnd.toNat = K.pPmmFreeListHead.toNat + 36 ∧
    (K.bitmapEnd - kernelVirtBase).toNat = K.headPhys.toNat + 36 := by
  have hlow := K.head_low
  have hhigh := K.head_high
  have hend := K.kend_high
  have hphys := K.headPhys_toNat
  have hvirt : K.bitmapEnd.toNat = K.pPmmFreeListHead.toNat + 36 := by
    unfold KernelImage.bitmapEnd KernelImage.au32PmmLowMemBitmap
    bv_omega
  refine ⟨hvirt, ?_⟩
  unfold kernelVirtBase
  bv_omega

/-- Page 256 has no bit in the bitmap: the pass for it stores behind, if it can. -/
theorem pmmInitLowMemoryBody_overrun {mc mc' : Machine} {low : Word}
    (hlow : mc.mem.read32 (K.lowMem - kernelVirtBase) = low) (hlo : 0x101000 ≤ low.toNat)
    (hsigned : low.toNat < 2 ^ 31) (h : BitmapOnly K mc mc')
    (hrest : RestNotPresent K.kend mc'.mem) (ebx : Word) :
    pmmInitLowMemoryBody K (atPage K mc' ebx 256) = none ∨
      ∃ mc'' s', pmmInitLowMemoryBody K (atPage K mc' ebx 256) = some (.again (mc'', s')) ∧
        (mc''.mem (K.bitmapEnd - kernelVirtBase)).getLsbD 0 = true := by
  have hhi := K.kend_high
  have hhlow := K.head_low
  have hhigh := K.head_high
  rcases bitmapEnd_toNat (K := K) with ⟨hvirt, hphys⟩
  have hslt : ¬ low.slt (BitVec.ofNat 32 (4096 * (256 + 1))) = true := by
    rw [low_slt_page hsigned (Nat.le_refl 256), decide_eq_true_eq]
    omega
  have hedi : K.au32PmmLowMemBitmap + BitVec.ofNat 32 (4 * (256 / 32)) = K.bitmapEnd := rfl
  unfold pmmInitLowMemoryBody atPage
  simp only [h.load_lowMem hlow, Option.bind_eq_bind, Option.bind_some, page_add, if_neg hslt, hedi]
  -- the word behind the bitmap is mapped, or the access faults
  by_cases hin : KernelPage K.kend (K.bitmapEnd.toNat / 4096)
  · right
    rw [Machine.load32, h.paging.walk_page hhi false hin, Option.map_some, Option.bind_some,
      Machine.store32, h.paging.walk_page hhi true hin, Option.map_some, Option.bind_some]
    refine ⟨_, _, rfl, ?_⟩
    generalize K.bitmapEnd - kernelVirtBase = p
    have hself : (p - p).toNat = 0 := by bv_omega
    dsimp only
    rw [Mem.write32, hself, if_pos (by omega)]
    have hone : ((1 : Word) <<< ((BitVec.ofNat 32 (256 % 32)).toNat % 32)).getLsbD 0 = true := by
      decide
    rw [byteOf, BitVec.getLsbD_extractLsb', BitVec.getLsbD_or, hone, Bool.or_true]
    rfl
  · left
    have hnone : walk false mc'.mem mc'.cr3 K.bitmapEnd = none := by
      by_contra hsome
      rcases h.paging.maps_iff.mpr hrest K.bitmapEnd (Option.ne_none_iff_isSome.mp hsome) with
        hpage | hwindow
      · exact hin hpage
      · omega
    rw [Machine.load32, hnone]
    rfl

/-- With 257 pages or more below `low_mem` the bitmap is too small. -/
theorem lowMem_overrun {low : Word} (hlo : 0x101000 ≤ low.toNat) (hsigned : low.toNat < 2 ^ 31) :
    ¬ LowMemMeets K low := by
  intro hmeets
  -- memory that is zero shows what the loop stores behind the bitmap
  rcases exists_emptyMachine K low with ⟨mc, hpaging, hrest, hlow, hempty⟩
  rcases hmeets mc ⟨0, 0, 0⟩ hpaging hlow with ⟨fuel, mc', regs', hres, hinit⟩
  rcases pmmInitLowMemory_eq hpaging ⟨0, 0, 0⟩ with ⟨mc₁, h₁, heq⟩
  rcases pmmInitLowMemory_passes hlow hsigned h₁ 0 (n := 256) (Nat.le_refl 256) (by omega) with
    ⟨mc₂, h₂, hrun⟩
  rcases K.imageEnd_bounds with ⟨hend, himage, hend'⟩
  rcases bitmapEnd_toNat (K := K) with ⟨-, hphys⟩
  rw [heq] at hres
  rcases Option.map_eq_some_iff.mp hres with ⟨r, hr, hmc⟩
  have hr₂ : iterate (pmmInitLowMemoryBody K) (fuel + 1) (atPage K mc₂ (lastBit 0 256) 256) = some r := by
    rw [← hrun]
    exact iterate_mono (by omega) hr
  have hrest₂ : RestNotPresent K.kend mc₂.mem := by
    refine hrest.congr ?_
    intro i hi _
    exact h₂.only.read (Or.inr (by bv_omega)) (by bv_omega)
  have hclear : (mc'.mem (K.bitmapEnd - kernelVirtBase)).getLsbD 0 = false := by
    rcases lowMem_word (K := K) with ⟨-, hlnat⟩
    have hapart := K.apart
    have hhphys := K.headPhys_toNat
    have hhlow := K.head_low
    have hblow := K.boot_low
    rw [hinit.same _ (by omega), hempty _ (by omega) (by omega) (by bv_omega)]
    exact BitVec.getLsbD_zero
  rcases pmmInitLowMemoryBody_overrun hlow hlo hsigned h₂.only hrest₂ (lastBit 0 256) with
    hnone | ⟨mc₃, s₃, hagain, hset⟩
  · rw [iterate, hnone] at hr₂
    cases hr₂
  · rw [iterate_again hagain] at hr₂
    -- a bit once set stays set
    have hkept := pmmInitLowMemory_keeps hset hr₂
    have hmc' : r.1 = mc' := congrArg Prod.fst hmc
    rw [hmc', hclear] at hkept
    exact absurd hkept (by decide)

/-- **The low-memory bitmap.** `_pmm_init_low_memory` does what it is for, whatever
memory holds, exactly for the values of `low_mem` that reach less than one page past
the pages of the bitmap. -/
theorem pmmInitLowMemory_iff (K : KernelImage) (low : Word) :
    LowMemMeets K low ↔ low.toNat < 0x101000 := by
  constructor
  · intro hmeets
    by_contra hge
    by_cases hsigned : low.toNat < 2 ^ 31
    · exact lowMem_overrun (by omega) hsigned hmeets
    · rcases exists_emptyMachine K low with ⟨mc, hpaging, -, hlow, -⟩
      exact lowMem_negative (by omega) hpaging hlow ⟨0, 0, 0⟩ (hmeets mc ⟨0, 0, 0⟩ hpaging hlow)
  · intro hlt mc regs hpaging hlow
    rcases pmmInitLowMemory_bits hpaging hlow hlt regs (Nat.lt_succ_self 256) with
      ⟨mc', regs', hres, -, hbits⟩
    refine ⟨257, mc', regs', hres, ?_, hbits.only.same⟩
    intro i hi
    rw [hbits.bits i hi]
    exact decide_eq_decide.mpr (by omega)

/-- A kernel of 64 KiB with its variables at 0xC0108000. -/
def demoImage : KernelImage where
  kend := 0xC0110000
  pPmmFreeListHead := 0xC0108000
  stBootInfo := 0xC0109000
  kend_low := by decide
  kend_high := by decide
  head_low := by decide
  head_high := by decide
  boot_low := by decide
  boot_high := by decide
  apart := by decide

/-- The bitmap does not hold 1 MiB and 4 KiB. -/
theorem pmmInitLowMemory_counterexample : ¬ LowMemMeets demoImage 0x101000 :=
  lowMem_overrun (by decide) (by decide)

end StupidOS.Kernel
