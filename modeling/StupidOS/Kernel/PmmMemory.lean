import StupidOS.Kernel.PmmFit

/-!
# The memory that the page allocator hands out

From `pmm_init` on, over runs with any page counts: every block handed out is memory
that the machine has, and every page from 0x800000 on can be had. `pmm_init` takes the
block at 0x800000 without looking at the size of the memory, and the comparisons of
`pmm_alloc` are signed, so this depends on `high_mem` (`memoryOk_iff`) and on the counts.
-/

namespace StupidOS.Kernel

variable (K : KernelImage)

/-! ## What is asked for -/

/-- One call with any page count, or stores into the blocks handed out. -/
def pmmCall (s : PmmState) (op : PmmOp) (s' : PmmState) : Prop :=
  match op with
  | .alloc n =>
      1 ≤ n.toNat ∧ ∃ fuel regs r, pmmAlloc K fuel s.mc n regs = some r ∧
        s' = ⟨r.mc, if r.eax = 0 then s.out else (r.eax, n) :: s.out⟩
  | .free p n =>
      (p, n) ∈ s.out ∧ ∃ regs mc regs', pmmFree K s.mc p n regs = some (mc, regs') ∧
        s' = ⟨mc, s.out.erase (p, n)⟩
  | .write m =>
      (∀ x : Word, (∀ b ∈ s.out, ¬ (b.1.toNat ≤ x.toNat ∧
        x.toNat < b.1.toNat + 4096 * b.2.toNat)) → m x = s.mc.mem x) ∧
      s' = ⟨{ s.mc with mem := m }, s.out⟩

/-- The blocks handed out lie below `high`, off the kernel image and the page tables. -/
def InMemory (high : Word) (s : PmmState) : Prop :=
  ∀ b ∈ s.out, b.1.toNat + 4096 * b.2.toNat ≤ high.toNat ∧
    Extent.Apart ⟨0x100000, K.imageEnd - 0x100000⟩ (heldBlock b) ∧
    Extent.Apart ⟨0x400000, 0x400000⟩ (heldBlock b)

/-- What `pmm_init` leaves is right for a machine whose memory ends at `high`. -/
structure MemoryOk (high : Word) (mc : Machine) : Prop where
  /-- The headers of the list lie in memory. -/
  headers : ∀ l, PmmList K mc.mem l → ∀ p ∈ l, 0x100000 ≤ p.toNat ∧ p.toNat + 8 ≤ high.toNat
  /-- Allocating single pages gets to each page from 0x800000 on. -/
  obtainable : ∀ page : Word, page.toNat % 4096 = 0 → 0x800000 ≤ page.toNat →
    page.toNat + 4096 ≤ high.toNat →
    ∃ r, Run (pmmCall K) ⟨mc, []⟩ r ∧ (∀ c ∈ r, c.1 = .alloc 1) ∧ ∃ c ∈ r, (page, 1) ∈ c.2.out

/-- The comparisons of an allocation are right. -/
def CountMeets (s : PmmState) : PmmOp → Prop
  | .alloc n => ∀ l, PmmList K s.mc.mem l → SearchMeets n (l.map s.mc.mem.read32)
  | .free _ _ => True
  | .write _ => True

variable {K}

/-! ## Blocks of memory -/

/-- Whole pages off the kernel image and the page tables and below `high`. The block at
0x800000 is empty where there is less than a page of memory behind it. -/
structure RamBlock (K : KernelImage) (high : Nat) (e : Extent) : Prop where
  base : e.base % 4096 = 0
  len : e.len % 4096 = 0
  small : e.len < 2 ^ 31
  place : K.imageEnd ≤ e.base ∧ e.base + e.len ≤ 0x400000 ∧ 0 < e.len ∨
    0x800000 ≤ e.base ∧ e.base + e.len ≤ high / 4096 * 4096 ∧
      (0 < e.len ∨ high / 4096 * 4096 = 0x800000)

theorem RamBlock.divisible (K : KernelImage) (high : Word) :
    Divisible K (RamBlock K high.toNat) := by
  have hlt := high.isLt
  refine ⟨?_, RamBlock.small, ?_, ?_, ?_⟩
  · intro p n h
    have hplace := h.place
    dsimp only at hplace
    exact Header.of_place h.base (by omega)
  · intro e h
    have hplace := h.place
    omega
  · intro b k n h hk hn
    rcases h with ⟨hbase, hlen, hsmall, hplace⟩
    dsimp only at hbase hlen hsmall hplace
    refine ⟨⟨hbase, ?_, ?_, ?_⟩, ⟨?_, ?_, ?_, ?_⟩⟩ <;> dsimp only <;> omega
  · intro e f he hf hpos hapart
    have hlen := he.len
    have hplace := he.place
    have hplace' := hf.place
    unfold Extent.Apart at hapart
    omega

/-- The invariant of the runs. -/
def MemoryReach (K : KernelImage) (high : Word) (total : Nat) (s : PmmState) : Prop :=
  (∃ l, Tiled K (RamBlock K high.toNat) total s l) ∧
    ∀ b ∈ s.out, 0 < b.2.toNat ∧ b.2.toNat < 2 ^ 19

/-- A block that the search comes to holds the pages asked for, which are few. -/
theorem Tiled.count {high : Word} {total : Nat} {s : PmmState} {l : List Word} {n : Word}
    (h : Tiled K (RamBlock K high.toNat) total s l)
    (hmeets : SearchMeets n (l.map s.mc.mem.read32)) {p : Word}
    (hfind : l.find? (taken s.mc.mem n) = some p) : n.toNat < 2 ^ 19 := by
  rw [searchMeets_iff] at hmeets
  rw [hmeets] at hfind
  have hholds : 4096 * n.toNat ≤ (s.mc.mem.read32 p).toNat := by
    simpa [holdsPages] using List.find?_some hfind
  have hsmall : (s.mc.mem.read32 p).toNat < 2 ^ 31 :=
    (h.good_free (List.mem_of_find?_eq_some hfind)).small
  omega

theorem pmmCall_reach {high : Word} {total : Nat} (s : PmmState) (op : PmmOp) (s' : PmmState)
    (h : MemoryReach K high total s) (hmeets : CountMeets K s op) (hstep : pmmCall K s op s') :
    MemoryReach K high total s' := by
  have hgood := RamBlock.divisible K high
  rcases h with ⟨⟨l, hinv⟩, hcount⟩
  cases op with
  | alloc n =>
      rcases hstep with ⟨hn, fuel, regs, r, hr, rfl⟩
      -- the same call with fuel for the whole list
      have hbig := pmmAlloc_mono (Nat.le_max_left fuel (l.length + 1)) hr
      rcases hinv.alloc hgood hn (fun p hp => hinv.count (hmeets l hinv.free.list) hp) regs
        (show l.length < max fuel (l.length + 1) by omega) with ⟨r', hr', hcases⟩
      have heq : r = r' := Option.some.inj (hbig.symm.trans hr')
      subst heq
      rcases hcases with ⟨heax, -, w, hmc⟩ | ⟨heax, hn', l', hinv'⟩
      · rw [if_pos heax, hmc]
        exact ⟨⟨l, hinv.temp w⟩, hcount⟩
      · rw [if_neg heax]
        refine ⟨⟨l', hinv'⟩, ?_⟩
        intro b hb
        rcases List.mem_cons.mp hb with rfl | hb
        · exact ⟨hn, hn'⟩
        · exact hcount b hb
  | free p n =>
      rcases hstep with ⟨hb, regs, mc, regs', hr, rfl⟩
      rcases hinv.giveBack hgood hb (hcount _ hb).1 (hcount _ hb).2 regs with
        ⟨mc', regs'', hr', hinv'⟩
      have heq := Option.some.inj (hr.symm.trans hr')
      have hmc : mc = mc' := congrArg Prod.fst heq
      subst hmc
      exact ⟨⟨_, hinv'⟩, fun b hb' => hcount b (List.mem_of_mem_erase hb')⟩
  | write m =>
      rcases hstep with ⟨hm, rfl⟩
      exact ⟨⟨l, hinv.write hgood hm⟩, hcount⟩

theorem MemoryReach.inMemory {high : Word} {total : Nat} (hmin : 0x800000 ≤ high.toNat)
    {s : PmmState} (h : MemoryReach K high total s) : InMemory K high s := by
  rcases h with ⟨⟨l, hinv⟩, hcount⟩
  rcases K.imageEnd_bounds with ⟨hhead, hlow, hend⟩
  intro b hb
  have hplace := (hinv.good_out hb).place
  unfold Extent.Apart
  unfold heldBlock at hplace ⊢
  dsimp only at hplace ⊢
  omega

/-! ## Single pages -/

/-- One page off the end of the first block of the list. -/
theorem FreeList.alloc_page {mc : Machine} {p : Word} {l : List Word} (h : FreeList K mc (p :: l))
    {m : Nat} (hsize : (mc.mem.read32 p).toNat = 4096 * (m + 1)) (hsmall : m + 1 < 2 ^ 19)
    (htop : p.toNat + 4096 * m < 2 ^ 32) :
    ∃ r, pmmAlloc K ((p :: l).length + 1) mc 1 ⟨0, 0, 0⟩ = some r ∧
      r.eax.toNat = p.toNat + 4096 * m ∧
      (0 < m → ∃ w : Word, w.toNat = 4096 * m ∧ Shortened K mc (p :: l) p w r.mc) := by
  rcases pmmAlloc_spec h 1 ⟨0, 0, 0⟩ (Nat.lt_succ_self (p :: l).length) with ⟨r, hr, hleaves⟩
  have hone : ((1 : Word) <<< 12).toNat = 4096 := rfl
  have hslt : (mc.mem.read32 p).slt ((1 : Word) <<< 12) = false := by
    rw [slt_of_lt (by omega) (by omega), hsize, hone]
    exact decide_eq_false (by omega)
  have hfind : (p :: l).find? (taken mc.mem 1) = some p := by
    rw [List.find?_cons_of_pos]
    rw [taken, hslt]
    rfl
  rw [hfind] at hleaves
  rcases hleaves with ⟨heax, -, hcases⟩
  have hsub : (mc.mem.read32 p - (1 : Word) <<< 12).toNat = 4096 * m := by
    rw [BitVec.toNat_sub_of_le (by rw [BitVec.le_def]; omega), hsize, hone]
    omega
  refine ⟨r, hr, ?_, ?_⟩
  · rw [heax, BitVec.toNat_add, hsub, Nat.mod_eq_of_lt htop]
  · intro hm
    rcases hcases with ⟨-, hmc⟩ | ⟨heq, -⟩
    · exact ⟨_, hsub, hmc⟩
    · rw [heq, hone] at hsize
      omega

/-- A call for a page hands out the last page of the first block of the list. -/
theorem FreeList.call_page {s : PmmState} {p : Word} {l : List Word} (hp : 0 < p.toNat)
    (h : FreeList K s.mc (p :: l)) {m : Nat}
    (hsize : (s.mc.mem.read32 p).toNat = 4096 * (m + 1)) (hsmall : m + 1 < 2 ^ 19)
    (htop : p.toNat + 4096 * m < 2 ^ 32) :
    ∃ mc' page, pmmCall K s (.alloc 1) ⟨mc', (page, 1) :: s.out⟩ ∧
      page.toNat = p.toNat + 4096 * m ∧
      (0 < m → FreeList K mc' (p :: l) ∧ (mc'.mem.read32 p).toNat = 4096 * m) := by
  rcases h.alloc_page hsize hsmall htop with ⟨r, hr, heax, hshort⟩
  have hne : r.eax ≠ 0 := by
    intro h0
    rw [h0] at heax
    change 0 = _ at heax
    omega
  refine ⟨r.mc, r.eax, ⟨by decide, _, _, r, hr, ?_⟩, heax, ?_⟩
  · rw [if_neg hne]
  · intro hm
    rcases hshort hm with ⟨w, hw, hmc⟩
    refine ⟨hmc.free, ?_⟩
    rw [hmc.size, hw]

/-- From the end of the block down to page `j`. -/
theorem FreeList.obtain {p : Word} {l : List Word} {j m : Nat} (hjm : j ≤ m) (hp : 0 < p.toNat)
    {s : PmmState} (h : FreeList K s.mc (p :: l))
    (hsize : (s.mc.mem.read32 p).toNat = 4096 * (m + 1)) (hsmall : m + 1 < 2 ^ 19)
    (htop : p.toNat + 4096 * m < 2 ^ 32) {page : Word} (hpage : page.toNat = p.toNat + 4096 * j) :
    ∃ r, Run (pmmCall K) s r ∧ (∀ c ∈ r, c.1 = .alloc 1) ∧ ∃ c ∈ r, (page, 1) ∈ c.2.out := by
  induction m generalizing s with
  | zero =>
      rcases h.call_page hp hsize hsmall htop with ⟨mc', page', hstep, haddr, -⟩
      have hsame : page' = page := BitVec.eq_of_toNat_eq (by omega)
      subst hsame
      refine ⟨[(.alloc 1, ⟨mc', (page', 1) :: s.out⟩)], ⟨hstep, trivial⟩, ?_,
        _, List.mem_cons_self, List.mem_cons_self⟩
      intro c hc
      rw [List.mem_singleton.mp hc]
  | succ m ih =>
      rcases h.call_page hp hsize hsmall htop with ⟨mc', page', hstep, haddr, hrest⟩
      rcases hrest (Nat.succ_pos m) with ⟨hfree, hsize'⟩
      by_cases hlast : j = m + 1
      · have hsame : page' = page := BitVec.eq_of_toNat_eq (by omega)
        subst hsame
        refine ⟨[(.alloc 1, ⟨mc', (page', 1) :: s.out⟩)], ⟨hstep, trivial⟩, ?_,
          _, List.mem_cons_self, List.mem_cons_self⟩
        intro c hc
        rw [List.mem_singleton.mp hc]
      · -- the page is one of those further down
        rcases ih (s := ⟨mc', (page', 1) :: s.out⟩) (by omega) hfree hsize' (by omega) (by omega)
          with ⟨rest, hrun, hops, c, hc, hmem⟩
        refine ⟨(.alloc 1, ⟨mc', (page', 1) :: s.out⟩) :: rest, ⟨hstep, hrun⟩, ?_,
          c, List.mem_cons_of_mem _ hc, hmem⟩
        intro c' hc'
        rcases List.mem_cons.mp hc' with rfl | hc'
        · rfl
        · exact hops c' hc'

/-! ## Memory that the comparison takes for negative -/

/-- The block at 0x800000 has 2^31 bytes or more; the others lie below 0x400000. -/
def LargeBlock (K : KernelImage) (s : PmmState) : Prop :=
  ∃ l, FreeList K s.mc l ∧ (0x800000 : Word) ∈ l ∧ 2 ^ 31 ≤ (s.mc.mem.read32 0x800000).toNat ∧
    (∀ q ∈ l, q ≠ 0x800000 → q.toNat + (s.mc.mem.read32 q).toNat ≤ 0x400000) ∧
    ∀ b ∈ s.out, b.1.toNat < 0x400000

/-- Allocating a page never gets to it. -/
theorem pmmCall_large {s s' : PmmState} (h : LargeBlock K s) (hstep : pmmCall K s (.alloc 1) s') :
    LargeBlock K s' := by
  rcases h with ⟨l, hfree, hmem, hlarge, hbelow, hout⟩
  rcases hstep with ⟨-, fuel, regs, r, hr, rfl⟩
  have hbig := pmmAlloc_mono (Nat.le_max_left fuel (l.length + 1)) hr
  rcases pmmAlloc_spec hfree 1 regs (show l.length < max fuel (l.length + 1) by omega) with
    ⟨r', hr', hleaves⟩
  have heq : r = r' := Option.some.inj (hbig.symm.trans hr')
  subst heq
  -- the first block that the comparison takes
  cases hfind : l.find? (taken s.mc.mem 1) with
  | none =>
      rw [hfind] at hleaves
      rcases hleaves with ⟨heax, -, w, hmc⟩
      rcases hfree.temp w with ⟨hfree', hsame⟩
      rw [if_pos heax, hmc]
      refine ⟨l, hfree', hmem, ?_, ?_, hout⟩
      · rw [hsame _ hmem]
        exact hlarge
      · intro q hq hne
        rw [hsame q hq]
        exact hbelow q hq hne
  | some p =>
      rw [hfind] at hleaves
      rcases hleaves with ⟨heax, -, hcases⟩
      have hpl := List.mem_of_find?_eq_some hfind
      have hone : ((1 : Word) <<< 12).toNat = 4096 := rfl
      have htaken : (s.mc.mem.read32 p).slt ((1 : Word) <<< 12) = false := by
        simpa [taken] using List.find?_some hfind
      -- a size of 2^31 or more is negative to the comparison
      have hfit : 4096 ≤ (s.mc.mem.read32 p).toNat ∧ (s.mc.mem.read32 p).toNat < 2 ^ 31 := by
        have hslt := slt_shl12 1 (s.mc.mem.read32 p)
        have hmod : (1 : Word).toNat % 2 ^ 20 = 1 := rfl
        rw [htaken, hmod, if_pos (by omega)] at hslt
        have hnot := mt hslt.mpr (by decide)
        omega
      have hp8M : p ≠ 0x800000 := by
        rintro rfl
        omega
      have hend := hbelow p hpl hp8M
      have hsub : (s.mc.mem.read32 p - (1 : Word) <<< 12).toNat =
          (s.mc.mem.read32 p).toNat - 4096 := by
        rw [BitVec.toNat_sub_of_le (by rw [BitVec.le_def]; omega), hone]
      have haddr : r.eax.toNat < 0x400000 := by
        rw [heax, BitVec.toNat_add, hsub]
        omega
      have hout' : ∀ b ∈ (if r.eax = 0 then s.out else (r.eax, 1) :: s.out),
          b.1.toNat < 0x400000 := by
        intro b hb
        split at hb
        · exact hout b hb
        · rcases List.mem_cons.mp hb with rfl | hb
          · exact haddr
          · exact hout b hb
      rcases hcases with ⟨-, hmc⟩ | ⟨-, hmc⟩
      · refine ⟨l, hmc.free, hmem, ?_, ?_, hout'⟩
        · rw [hmc.others _ hmem hp8M.symm]
          exact hlarge
        · intro q hq hne
          by_cases hqp : q = p
          · rw [hqp, hmc.size, hsub]
            omega
          · rw [hmc.others q hq hqp]
            exact hbelow q hq hne
      · refine ⟨l.erase p, hmc.free, (List.mem_erase_of_ne hp8M.symm).mpr hmem, ?_, ?_, hout'⟩
        · rw [hmc.others _ hmem hp8M.symm]
          exact hlarge
        · intro q hq hne
          have hqp : q ≠ p := by
            rintro rfl
            exact hfree.nodup.not_mem_erase hq
          have hql := List.mem_of_mem_erase hq
          rw [hmc.others q hql hqp]
          exact hbelow q hql hne

/-- Nor does any number of them. -/
theorem run_large {s : PmmState} {r : List (PmmOp × PmmState)} (h : LargeBlock K s)
    (hrun : Run (pmmCall K) s r) (hops : ∀ c ∈ r, c.1 = .alloc 1) :
    ∀ c ∈ r, LargeBlock K c.2 := by
  induction r generalizing s with
  | nil => simp
  | cons c r ih =>
      rcases c with ⟨op, s'⟩
      have hop : op = .alloc 1 := hops _ List.mem_cons_self
      subst hop
      have hs' := pmmCall_large h hrun.1
      intro c hc
      rcases List.mem_cons.mp hc with rfl | hc
      · exact hs'
      · exact ih hs' hrun.2 (fun c hc => hops c (List.mem_cons_of_mem _ hc)) c hc

/-! ## From `pmm_init` on -/

/-- What `pmm_init` leaves: one block at 0x800000, and one below 0x400000. -/
structure Initialised (K : KernelImage) (high : Word) (mc : Machine) : Prop where
  free : FreeList K mc (0x800000 :: belowBlocks K)
  size : mc.mem.read32 0x800000 = (high &&& -pageSize) - 0x800000
  below : ∀ q ∈ belowBlocks K, (mc.mem.read32 q).toNat = 0x400000 - K.firstPage

/-- The size of the block at 0x800000, where `high` is not below it. -/
theorem toNat_region {high : Word} (hmin : 0x800000 ≤ high.toNat) :
    ((high &&& -pageSize) - 0x800000).toNat = high.toNat / 4096 * 4096 - 0x800000 := by
  have hedx := and_neg_pageSize_toNat high
  have h8M := toNat_8M
  have hlt := high.isLt
  generalize high &&& -pageSize = edx at hedx ⊢
  rw [BitVec.toNat_sub_of_le (by rw [BitVec.le_def]; omega), hedx, h8M]

namespace Initialised

variable {high : Word} {mc : Machine}

theorem parcels (h : Initialised K high mc) (hmin : 0x800000 ≤ high.toNat)
    (hmax : high.toNat < 0x80800000) :
    ∃ total, Parcels (RamBlock K high.toNat) total
      ((0x800000 :: belowBlocks K).map (blockAt mc.mem)) := by
  rcases K.firstPage_bounds with ⟨himage, hle, halign⟩
  have hlen := toNat_region hmin
  have hsize : (mc.mem.read32 0x800000).toNat = high.toNat / 4096 * 4096 - 0x800000 := by
    rw [h.size, hlen]
  refine ⟨_, pmmInit_parcels hsize h.below ?_ ?_⟩
  · refine ⟨?_, ?_, ?_, Or.inr ⟨Nat.le_refl _, ?_, ?_⟩⟩ <;> dsimp only <;> omega
  · intro hroom
    refine ⟨halign, ?_, ?_, Or.inl ⟨himage, ?_, ?_⟩⟩ <;> dsimp only <;> omega

theorem reach (h : Initialised K high mc) (hmin : 0x800000 ≤ high.toNat)
    (hmax : high.toNat < 0x80800000) :
    ∃ total, MemoryReach K high total ⟨mc, []⟩ := by
  rcases h.parcels hmin hmax with ⟨total, hpar⟩
  refine ⟨total, ⟨_, h.free, ?_⟩, by simp⟩
  rw [List.map_nil, List.append_nil]
  exact hpar

/-- Enough memory, and not too much for the comparison. -/
theorem ok (h : Initialised K high mc) (hmin : 0x800008 ≤ high.toNat)
    (hmax : high.toNat < 0x80800000) : MemoryOk K high mc := by
  rcases K.firstPage_bounds with ⟨himage, hle, halign⟩
  rcases K.imageEnd_bounds with ⟨hhead, hlow, hend⟩
  have h8M := toNat_8M
  have h8 : 0x800000 ≤ high.toNat := by omega
  have hlen := toNat_region h8
  refine ⟨?_, ?_⟩
  · intro l hl p hp
    rw [Chain.unique hl h.free.list] at hp
    rcases List.mem_cons.mp hp with rfl | hp
    · omega
    · rcases mem_belowBlocks hp with ⟨hp', hroom⟩
      omega
  · intro page hpage hlo hhi
    -- the page has the number `j`, and the last page of the block `m`
    have hm : ∃ m, high.toNat / 4096 * 4096 = 0x800000 + 4096 * (m + 1) :=
      ⟨high.toNat / 4096 - 0x801, by omega⟩
    have hj : ∃ j, page.toNat = 0x800000 + 4096 * j := ⟨page.toNat / 4096 - 0x800, by omega⟩
    rcases hm with ⟨m, hm⟩
    rcases hj with ⟨j, hj⟩
    have hsize : (mc.mem.read32 0x800000).toNat = 4096 * (m + 1) := by
      rw [h.size, hlen, hm, Nat.add_sub_cancel_left]
    have hjm : j ≤ m := by omega
    have hsmall : m + 1 < 2 ^ 19 := by omega
    have htop : (0x800000 : Word).toNat + 4096 * m < 2 ^ 32 := by omega
    have hpage' : page.toNat = (0x800000 : Word).toNat + 4096 * j := by rw [hj, h8M]
    have hpos : 0 < (0x800000 : Word).toNat := by omega
    exact FreeList.obtain (s := ⟨mc, []⟩) hjm hpos h.free hsize hsmall htop hpage'

/-- The header at 0x800000 is written in any case. -/
theorem min_of_ok (h : Initialised K high mc) (hok : MemoryOk K high mc) :
    0x800008 ≤ high.toNat := by
  have h8M := toNat_8M
  have hp := (hok.headers _ h.free.list 0x800000 List.mem_cons_self).2
  omega

/-- A block of 2^31 bytes or more is never used for a page. -/
theorem max_of_ok (h : Initialised K high mc) (hok : MemoryOk K high mc) :
    high.toNat < 0x80800000 := by
  by_contra hge
  have h8M := toNat_8M
  have h8 : 0x800000 ≤ high.toNat := by omega
  have hlen := toNat_region h8
  have hlarge : LargeBlock K ⟨mc, []⟩ := by
    refine ⟨_, h.free, List.mem_cons_self, ?_, ?_, by simp⟩
    · dsimp only
      rw [h.size, hlen]
      omega
    · intro q hq hne
      rcases List.mem_cons.mp hq with rfl | hq
      · exact absurd rfl hne
      · rcases K.firstPage_bounds with ⟨-, hle, -⟩
        rcases mem_belowBlocks hq with ⟨hq', -⟩
        dsimp only
        rw [h.below q hq, hq']
        omega
  rcases hok.obtainable 0x800000 (by decide) (by decide) (by omega) with
    ⟨r, hrun, hops, c, hc, hmem⟩
  rcases run_large hlarge hrun hops c hc with ⟨l, -, -, -, -, hout⟩
  have haddr := hout _ hmem
  dsimp only at haddr
  omega

end Initialised

/-- **`pmm_init` and the memory there is.** What it leaves is right for exactly these
sizes of memory, and then all runs whose counts the comparison is right about hand out
memory that the machine has. -/
theorem pmmInit_memory_iff (K : KernelImage) {mc : Machine} (h : KernelPaging K.kend mc)
    (hhead : mc.mem.read32 K.headPhys = 0) {low high : Word}
    (hlow : mc.mem.read32 (K.lowMem - kernelVirtBase) = low)
    (hle : low.toNat < 0x101000 ∨ 2 ^ 31 ≤ low.toNat)
    (hhigh : mc.mem.read32 (K.highMem - kernelVirtBase) = high) (regs : SavedRegs) :
    ∃ mc' regs', pmmInit K 257 mc regs = some (mc', 0, regs') ∧
      (MemoryOk K high mc' ↔ 0x800008 ≤ high.toNat ∧ high.toNat < 0x80800000) ∧
      (0x800008 ≤ high.toNat → high.toNat < 0x80800000 →
        ∀ r, Run (pmmCall K) ⟨mc', []⟩ r → RunMeets (CountMeets K) ⟨mc', []⟩ r →
          ∀ c ∈ r, InMemory K high c.2) := by
  rcases pmmInit_list h hhead hlow hle hhigh regs (Nat.lt_succ_self 256) with
    ⟨mc', regs', hres, hfree, hsize, hbelow, -⟩
  have hinit : Initialised K high mc' := ⟨hfree, hsize, hbelow⟩
  refine ⟨mc', regs', hres, ⟨?_, ?_⟩, ?_⟩
  · intro hok
    exact ⟨hinit.min_of_ok hok, hinit.max_of_ok hok⟩
  · intro hrange
    exact hinit.ok hrange.1 hrange.2
  · intro hmin hmax r hrun hmeets c hc
    rcases hinit.reach (by omega) hmax with ⟨total, hstart⟩
    exact (Run.invariant_of_meets (MemoryReach K high total) pmmCall_reach hstart hrun hmeets c
      hc).inMemory (by omega)

/-- 16 MiB of memory. -/
theorem pmmInit_memory_iff_16MB : ∃ mc mc' regs', KernelPaging demoImage.kend mc ∧
    mc.mem.read32 (demoImage.highMem - kernelVirtBase) = 0x1000000 ∧
    pmmInit demoImage 257 mc ⟨0, 0, 0⟩ = some (mc', 0, regs') ∧ MemoryOk demoImage 0x1000000 mc' ∧
    ∀ r, Run (pmmCall demoImage) ⟨mc', []⟩ r → RunMeets (CountMeets demoImage) ⟨mc', []⟩ r →
      ∀ c ∈ r, InMemory demoImage 0x1000000 c.2 := by
  rcases exists_machine demoImage 0 0x1000000 with ⟨mc, hpaging, hhead, hlow, hhigh⟩
  rcases pmmInit_memory_iff demoImage hpaging hhead hlow (Or.inl (by decide)) hhigh ⟨0, 0, 0⟩ with
    ⟨mc', regs', hres, hok, hruns⟩
  exact ⟨mc, mc', regs', hpaging, hhigh, hres, hok.mpr ⟨by decide, by decide⟩,
    hruns (by decide) (by decide)⟩

/-- With 4 MiB of memory a header is written behind its end. -/
theorem pmmInit_memory_counterexample : ∃ mc mc' regs', KernelPaging demoImage.kend mc ∧
    mc.mem.read32 (demoImage.highMem - kernelVirtBase) = 0x400000 ∧
    pmmInit demoImage 257 mc ⟨0, 0, 0⟩ = some (mc', 0, regs') ∧
    ¬ MemoryOk demoImage 0x400000 mc' := by
  rcases exists_machine demoImage 0 0x400000 with ⟨mc, hpaging, hhead, hlow, hhigh⟩
  rcases pmmInit_list hpaging hhead hlow (Or.inl (by decide)) hhigh ⟨0, 0, 0⟩
    (Nat.lt_succ_self 256) with ⟨mc', regs', hres, hfree, hsize, hbelow, -⟩
  refine ⟨mc, mc', regs', hpaging, hhigh, hres, ?_⟩
  intro hok
  have hmin := Initialised.min_of_ok ⟨hfree, hsize, hbelow⟩ hok
  exact absurd hmin (by decide)

end StupidOS.Kernel
