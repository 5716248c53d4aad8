import StupidOS.Kernel.PmmLowMem

/-!
# The free list that `pmm_init` builds

`pmm_init` makes a list of one or two blocks: the pages from 0x800000 on, and those
between the kernel image and 0x400000. With the invariant of `Kernel.PmmRuns` this
gives the results about whole runs.
-/

namespace StupidOS.Kernel

variable {K : KernelImage}

/-! ## The regions -/

theorem highMem_word : InKernel K.kend K.highMem ∧
    (K.highMem - kernelVirtBase).toNat = K.stBootInfo.toNat + 648 - 0xC0000000 := by
  have hlow := K.boot_low
  have hhigh := K.boot_high
  have hend := K.kend_high
  have hnat : K.highMem.toNat = K.stBootInfo.toNat + 648 := by
    unfold KernelImage.highMem
    bv_omega
  refine ⟨⟨by omega, by omega⟩, ?_⟩
  unfold kernelVirtBase
  bv_omega

/-- The first page behind the kernel image. -/
def KernelImage.firstPage (K : KernelImage) : Nat := (K.imageEnd + 4095) / 4096 * 4096

theorem KernelImage.firstPage_bounds (K : KernelImage) :
    K.imageEnd ≤ K.firstPage ∧ K.firstPage ≤ 0x400000 ∧ K.firstPage % 4096 = 0 := by
  rcases K.imageEnd_bounds with ⟨hend, hlow, hhigh⟩
  unfold KernelImage.firstPage
  omega

/-- The bytes that `pmm_init` puts on the list. -/
def pmmTotal (K : KernelImage) (high : Word) : Nat :=
  (if 0x1000 < 0x400000 - K.firstPage then 0x400000 - K.firstPage else 0) +
    (high.toNat / 4096 * 4096 - 0x800000)

/-- The block below 0x400000: `pmm_init` wants more than one page. -/
def belowBlocks (K : KernelImage) : List Word :=
  if 0x1000 < 0x400000 - K.firstPage then [BitVec.ofNat 32 K.firstPage] else []

/-- A page for a header, off the kernel image and the page tables. -/
theorem Header.of_place {p : Word} (halign : p.toNat % 4096 = 0)
    (hplace : K.imageEnd ≤ p.toNat ∧ p.toNat < 0x400000 ∨ 0x800000 ≤ p.toNat) : Header K p := by
  rcases K.imageEnd_bounds with ⟨hend, hlow, hhigh⟩
  have hlt := p.isLt
  have hnext : (p + rangeNext).toNat = p.toNat + 4 := by
    unfold rangeNext
    bv_omega
  refine ⟨halign, ?_, ?_, ?_, ?_⟩
  · unfold OffPaging
    omega
  · unfold OffPaging
    omega
  · exact Sep.of_le (by omega) (by omega) (by omega) (by omega) (by omega)
  · exact Sep.of_le (by omega) (by omega) (by omega) (by omega) (by omega)

theorem mem_belowBlocks {q : Word} (hq : q ∈ belowBlocks K) :
    q.toNat = K.firstPage ∧ 0x1000 < 0x400000 - K.firstPage := by
  rcases K.firstPage_bounds with ⟨hend, hle, halign⟩
  unfold belowBlocks at hq
  split at hq
  · rename_i hroom
    rw [List.mem_singleton.mp hq]
    exact ⟨toNat_ofNat_of_lt (by omega), hroom⟩
  · exact absurd hq List.not_mem_nil

/-- `_pmm_init_region` puts a region in front of the list. -/
theorem pmmInitRegion_list {mc : Machine} {l : List Word} (h : FreeList K mc l) {p : Word}
    (edx : Word) (hp : Header K p) (hne : p ≠ 0) (hnew : p ∉ l) (regs : SavedRegs) :
    ∃ mc' regs', pmmInitRegion K mc p edx regs = some (mc', regs') ∧ FreeList K mc' (p :: l) ∧
      mc'.mem.read32 p = edx - p ∧ (∀ q ∈ l, mc'.mem.read32 q = mc.mem.read32 q) ∧
      ∀ a, OffPaging a → Sep a 4 p 4 → Sep a 4 (p + rangeNext) 4 → Sep a 4 K.headPhys 4 →
        mc'.mem.read32 a = mc.mem.read32 a := by
  rcases h.push hp hne hnew (edx - p) with ⟨hfree, hsize, hsame⟩
  have hcomm : (mc.put p (edx - p)).put (p + rangeNext) (mc.mem.read32 K.headPhys) =
      (mc.put (p + rangeNext) (mc.mem.read32 K.headPhys)).put p (edx - p) := by
    unfold Machine.put
    dsimp only
    rw [Mem.write32_comm _ _ _ (sep_size_next p)]
  have heq := pmmInitRegion_eq h.paging hp edx regs
  rw [hcomm] at heq
  refine ⟨_, _, heq, hfree, hsize, hsame, ?_⟩
  intro a ha h₁ h₂ h₃
  rw [Machine.temp_read _ ha, Machine.put_mem, Mem.read32_write32_of_sep _ _ h₃,
    Machine.put_mem, Mem.read32_write32_of_sep _ _ h₁, Machine.put_mem,
    Mem.read32_write32_of_sep _ _ h₂]

/-- `-PAGE_SIZE` is the mask of the page frame. -/
theorem and_neg_pageSize_toNat (w : Word) : (w &&& -pageSize).toNat = w.toNat / 4096 * 4096 :=
  and_fffff000_toNat w

/-- The list before any region is added. -/
theorem BitmapOnly.empty {mc mc' : Machine} (h : BitmapOnly K mc mc')
    (hhead : mc.mem.read32 K.headPhys = 0) : FreeList K mc' [] := by
  rcases K.imageEnd_bounds with ⟨hend, hlow, hhigh⟩
  refine ⟨h.paging, ?_, fun p hp => absurd hp List.not_mem_nil⟩
  change mc'.mem.read32 K.headPhys = 0
  rw [h.read (by omega) (by omega), hhead]

/-- The first region: the pages between the kernel image and 0x400000, if there is
more than one. -/
theorem pmmInitBelow_list {mc : Machine} (h : FreeList K mc []) (regs : SavedRegs) {eax : Word}
    (heax : eax.toNat = K.firstPage) :
    ∃ mc' regs', pmmInitBelow K mc eax regs = some (mc', regs') ∧
      FreeList K mc' (belowBlocks K) ∧
      (∀ q ∈ belowBlocks K, (mc'.mem.read32 q).toNat = 0x400000 - K.firstPage) ∧
      ∀ a : Word, 0x100000 ≤ a.toNat → a.toNat + 4 ≤ K.imageEnd → Sep a 4 K.headPhys 4 →
        mc'.mem.read32 a = mc.mem.read32 a := by
  rcases K.imageEnd_bounds with ⟨hend, hlow, hhigh⟩
  rcases K.firstPage_bounds with ⟨himage, hle, halign⟩
  have hsub : (0x400000 - eax : Word).toNat = 0x400000 - K.firstPage := by bv_omega
  have h4M : (0x400000 : Word).toNat = 0x400000 := by decide
  have h4K : pageSize.toNat = 0x1000 := by decide
  -- below 2^31 the signed comparisons are right
  have hslt : eax.slt 0x400000 = true ↔ K.firstPage < 0x400000 := by
    rw [slt_of_lt (by omega) (by omega), heax, h4M, decide_eq_true_eq]
  have hslt' : pageSize.slt (0x400000 - eax) = true ↔ 0x1000 < 0x400000 - K.firstPage := by
    rw [slt_of_lt (by omega) (by omega), hsub, h4K, decide_eq_true_eq]
  unfold pmmInitBelow belowBlocks
  dsimp only
  by_cases hroom : 0x1000 < 0x400000 - K.firstPage
  · rw [if_neg (not_not.mpr (hslt.mpr (by omega))), if_neg (not_not.mpr (hslt'.mpr hroom)),
      if_pos hroom]
    -- the block starts at the first page behind the image
    have hblock : BitVec.ofNat 32 K.firstPage = eax := by
      apply BitVec.eq_of_toNat_eq
      rw [heax]
      exact toNat_ofNat_of_lt (by omega)
    have hp : Header K eax := Header.of_place (by omega) (Or.inl (by omega))
    have hne : eax ≠ 0 := by
      rintro rfl
      change 0 = K.firstPage at heax
      omega
    rcases pmmInitRegion_list h 0x400000 hp hne List.not_mem_nil regs with
      ⟨mc', regs', hres, hfree, hsize, -, hread⟩
    rw [hblock]
    refine ⟨mc', regs', hres, hfree, ?_, ?_⟩
    · intro q hq
      rw [List.mem_singleton.mp hq, hsize, hsub]
    · intro a halo hahi hah
      have hnext : (eax + rangeNext).toNat = eax.toNat + 4 := by
        unfold rangeNext
        bv_omega
      refine hread a (Or.inl (by omega)) ?_ ?_ hah
      · exact Sep.of_le (by omega) (by omega) (by omega) (by omega) (by omega)
      · exact Sep.of_le (by omega) (by omega) (by omega) (by omega) (by omega)
  · rw [if_neg hroom]
    refine ⟨mc, regs, ?_, h, fun q hq => absurd hq List.not_mem_nil, fun _ _ _ _ => rfl⟩
    rw [if_pos (fun h => hroom (hslt'.mp h)), ite_self]

theorem toNat_8M : (0x800000 : Word).toNat = 0x800000 := rfl

/-- The list that `pmm_init` builds, whatever the size of the memory. -/
theorem pmmInit_list {mc : Machine} (h : KernelPaging K.kend mc)
    (hhead : mc.mem.read32 K.headPhys = 0) {low high : Word}
    (hlow : mc.mem.read32 (K.lowMem - kernelVirtBase) = low)
    (hle : low.toNat < 0x101000 ∨ 2 ^ 31 ≤ low.toNat)
    (hhigh : mc.mem.read32 (K.highMem - kernelVirtBase) = high) (regs : SavedRegs) {fuel : Nat}
    (hfuel : 256 < fuel) :
    ∃ mc' regs', pmmInit K fuel mc regs = some (mc', 0, regs') ∧
      FreeList K mc' (0x800000 :: belowBlocks K) ∧
      mc'.mem.read32 0x800000 = (high &&& -pageSize) - 0x800000 ∧
      (∀ q ∈ belowBlocks K, (mc'.mem.read32 q).toNat = 0x400000 - K.firstPage) ∧
      ∀ a : Word, K.headPhys.toNat + 36 ≤ a.toNat → a.toNat + 4 ≤ K.imageEnd →
        mc'.mem.read32 a = mc.mem.read32 a := by
  have hkhi := K.kend_high
  have hklo := K.kend_low
  have hbhigh := K.boot_high
  have hblow := K.boot_low
  have hapart := K.apart
  have hphys := K.headPhys_toNat
  have hheadlow := K.head_low
  rcases K.imageEnd_bounds with ⟨hend, hheadphys, himage⟩
  rcases K.firstPage_bounds with ⟨hfirst, hfirst', -⟩
  rcases highMem_word (K := K) with ⟨hin, hnat⟩
  rcases pmmInitLowMemory_returns h hlow hle regs hfuel with ⟨mc₁, regs₁, hlowres, -, hb⟩
  have heax : ((K.kend - kernelVirtBase + (pageSize - 1)) &&& -pageSize).toNat = K.firstPage := by
    rw [and_neg_pageSize_toNat]
    have hsum : (K.kend - kernelVirtBase + (pageSize - 1)).toNat = K.imageEnd + 4095 := by
      unfold kernelVirtBase pageSize KernelImage.imageEnd
      bv_omega
    rw [hsum]
    rfl
  rcases pmmInitBelow_list (hb.empty hhead) regs₁ heax with
    ⟨mc₂, regs₂, hbelow, hfree, hsizes, hread⟩
  -- `high_mem` lies in the image, which the first block does not touch
  have hhigh₂ : mc₂.load32 K.highMem = some high := by
    rw [hfree.paging.load_image hkhi hin, ← hhigh]
    have hdef : K.imageEnd = K.kend.toNat - 0xC0000000 := rfl
    rw [hread _ (by omega) (by omega)
      (Sep.of_le (by omega) (by omega) (by omega) (by omega) (by omega)),
      hb.read (by omega) (by omega)]
  have hp : Header K 0x800000 := Header.of_place (by decide) (Or.inr (by decide))
  have hnew : (0x800000 : Word) ∉ belowBlocks K := by
    intro hmem
    have h8M := toNat_8M
    rcases mem_belowBlocks hmem with ⟨hq, -⟩
    omega
  rcases pmmInitRegion_list hfree (high &&& -pageSize) hp (by decide) hnew regs₂ with
    ⟨mc₃, regs₃, hsecond, hfree₃, hsize₃, hsame₃, hread₃⟩
  refine ⟨mc₃, regs₃, ?_, hfree₃, hsize₃, ?_, ?_⟩
  · unfold pmmInit
    simp only [hlowres, Option.bind_eq_bind, Option.bind_some, hbelow, hhigh₂, hsecond]
    rfl
  · intro q hq
    rw [hsame₃ q hq]
    exact hsizes q hq
  · -- the image behind the variables
    intro a ha hahi
    have hahead : Sep a 4 K.headPhys 4 :=
      Sep.of_le (by omega) (by omega) (by omega) (by omega) (by omega)
    have h8M := toNat_8M
    have hnext : ((0x800000 : Word) + rangeNext).toNat = 0x800004 := rfl
    rw [hread₃ a (Or.inl (by omega))
      (Sep.of_le (by omega) (by omega) (by omega) (by omega) (by omega))
      (Sep.of_le (by omega) (by omega) (by omega) (by omega) (by omega)) hahead,
      hread a (by omega) hahi hahead, hb.read (Or.inr (by omega)) (by omega)]

/-- Two regions, the second one below the first, if there is a second one. -/
theorem parcels_regions {good : Extent → Prop} {e b n : Nat} {below : List Extent}
    (hgood : good ⟨0x800000, e⟩) (hbelow : 0x1000 < n → good ⟨b, n⟩ ∧ b + n ≤ 0x800000)
    (hlist : below = if 0x1000 < n then [⟨b, n⟩] else []) :
    Parcels good ((if 0x1000 < n then n else 0) + e) (⟨0x800000, e⟩ :: below) := by
  rw [hlist, Nat.add_comm]
  by_cases hroom : 0x1000 < n
  · rw [if_pos hroom, if_pos hroom]
    refine Parcels.cons ⟨?_, List.pairwise_singleton _ _, by simp⟩ hgood ?_
    · intro r hr
      rw [List.mem_singleton.mp hr]
      exact (hbelow hroom).1
    · intro r hr
      rw [List.mem_singleton.mp hr]
      exact Or.inr (hbelow hroom).2
  · rw [if_neg hroom, if_neg hroom]
    exact Parcels.cons ⟨by simp, List.Pairwise.nil, rfl⟩ hgood (by simp)

/-- The list parcels out the two regions. -/
theorem pmmInit_parcels {good : Extent → Prop} {mc : Machine} {e : Nat}
    (hsize : (mc.mem.read32 0x800000).toNat = e)
    (hsizes : ∀ q ∈ belowBlocks K, (mc.mem.read32 q).toNat = 0x400000 - K.firstPage)
    (hgood : good ⟨0x800000, e⟩)
    (hbelow : 0x1000 < 0x400000 - K.firstPage → good ⟨K.firstPage, 0x400000 - K.firstPage⟩) :
    Parcels good ((if 0x1000 < 0x400000 - K.firstPage then 0x400000 - K.firstPage else 0) + e)
      ((0x800000 :: belowBlocks K).map (blockAt mc.mem)) := by
  rcases K.firstPage_bounds with ⟨-, hle, -⟩
  have hfirst : blockAt mc.mem 0x800000 = ⟨0x800000, e⟩ := by
    unfold blockAt
    rw [hsize, toNat_8M]
  rw [List.map_cons, hfirst]
  refine parcels_regions hgood (fun hroom => ⟨hbelow hroom, by omega⟩) ?_
  unfold belowBlocks at hsizes ⊢
  split
  · rename_i hroom
    rw [if_pos hroom] at hsizes
    have hsize' := hsizes _ List.mem_cons_self
    rw [List.map_singleton, List.singleton_inj]
    unfold blockAt
    rw [hsize', toNat_ofNat_of_lt (by omega)]
  · rfl

/-- `pmm_init` builds a list of all whole pages between the kernel image and 0x400000
and from 0x800000 to the end of memory. -/
theorem pmmInit_spec {mc : Machine} (h : KernelPaging K.kend mc)
    (hhead : mc.mem.read32 K.headPhys = 0)
    (hle : (mc.mem.read32 (K.lowMem - kernelVirtBase)).toNat ≤ 0x100000) {high : Word}
    (hhigh : mc.mem.read32 (K.highMem - kernelVirtBase) = high) (hmin : 0x801000 ≤ high.toNat)
    (hmax : high.toNat - 0x800000 < 2 ^ 31) (regs : SavedRegs) {fuel : Nat} (hfuel : 256 < fuel) :
    ∃ mc' regs' l, pmmInit K fuel mc regs = some (mc', 0, regs') ∧
      PmmInv K (pmmTotal K high) ⟨mc', []⟩ l := by
  rcases pmmInit_list h hhead rfl (Or.inl (by omega)) hhigh regs hfuel with
    ⟨mc', regs', hres, hfree, hsize, hsizes, -⟩
  rcases K.firstPage_bounds with ⟨himage, hle', halign⟩
  have hlt := high.isLt
  -- in this form the bound is one on the sum
  have hmax' : high.toNat < 0x800000 + 2 ^ 31 := by omega
  clear hmax
  have hedx : (high &&& -pageSize).toNat = high.toNat / 4096 * 4096 := and_neg_pageSize_toNat high
  have hlen : ((high &&& -pageSize) - 0x800000).toNat = high.toNat / 4096 * 4096 - 0x800000 := by
    generalize high &&& -pageSize = edx at hedx
    bv_omega
  refine ⟨mc', regs', _, hres, hfree.paging, hfree.list, ?_⟩
  rw [List.map_nil, List.append_nil]
  refine pmmInit_parcels (by rw [hsize, hlen]) hsizes ?_ ?_
  · exact Allocatable.of_place (by omega) (by omega) (by omega) (by omega) (by omega)
  · intro hroom
    exact Allocatable.of_place (by omega) (by omega) (by omega) (by omega) (by omega)

/-! ## Whole runs -/

/-- The allocator does its job in a state. -/
structure PmmOk (K : KernelImage) (total : Nat) (s : PmmState) : Prop where
  aligned : ∀ b ∈ s.out, b.1.toNat % 4096 = 0
  disjoint : s.out.Pairwise (fun b c => Extent.Apart (heldBlock b) (heldBlock c))
  image : ∀ b ∈ s.out, Extent.Apart ⟨0x100000, K.imageEnd - 0x100000⟩ (heldBlock b)
  window : ∀ b ∈ s.out, Extent.Apart ⟨0x400000, 0x400000⟩ (heldBlock b)
  /-- The list is acyclic and ends at 0, shares nothing with the blocks handed out, and
  no byte is lost. -/
  list : ∃ l, PmmList K s.mc.mem l ∧ l.Nodup ∧
    (∀ b ∈ s.out, ∀ p ∈ l, Extent.Apart (heldBlock b) (blockAt s.mc.mem p)) ∧
    (l.map (fun p => (s.mc.mem.read32 p).toNat)).sum +
      (s.out.map (fun b => 4096 * b.2.toNat)).sum = total
  /-- Every call returns, and one that fails leaves the list as it was. -/
  allocs : ∀ n regs, 1 ≤ n.toNat → n.toNat < 2 ^ 19 →
    ∃ fuel r, pmmAlloc K fuel s.mc n regs = some r ∧
      (r.eax = 0 → r.edx = enomem ∧ ∀ l, PmmList K s.mc.mem l →
        PmmList K r.mc.mem l ∧ l.map (blockAt r.mc.mem) = l.map (blockAt s.mc.mem))
  frees : ∀ b ∈ s.out, ∀ regs, ∃ mc regs', pmmFree K s.mc b.1 b.2 regs = some (mc, regs')

theorem PmmReach.ok {total : Nat} {s : PmmState} (h : PmmReach K total s) : PmmOk K total s := by
  rcases h with ⟨⟨l, hinv⟩, hcount⟩
  have himage := K.imageEnd_bounds
  refine ⟨?_, ?_, ?_, ?_, ⟨l, hinv.list, Chain.nodup hinv.list, ?_, ?_⟩, ?_, ?_⟩
  · intro b hb
    exact (hinv.allocatable_out hb).base
  · have hout := (List.pairwise_append.mp hinv.parcels.apart).2.1
    rwa [List.pairwise_map] at hout
  · intro b hb
    have hplace := (hinv.allocatable_out hb).place
    unfold Extent.Apart
    dsimp only
    omega
  · intro b hb
    have hplace := (hinv.allocatable_out hb).place
    unfold Extent.Apart
    dsimp only
    omega
  · intro b hb p hp
    exact (hinv.parcels.apart_of_append (List.mem_map_of_mem hp) (List.mem_map_of_mem hb)).symm
  · have htotal := hinv.parcels.total
    rw [List.map_append, List.sum_append, List.map_map, List.map_map] at htotal
    exact htotal
  · intro n regs hn hn'
    rcases hinv.alloc hn hn' regs (Nat.lt_succ_self l.length) with ⟨r, hr, hcases⟩
    refine ⟨_, r, hr, ?_⟩
    intro h0
    rcases hcases with ⟨-, hedx, w, hmc⟩ | ⟨hne, -⟩
    · refine ⟨hedx, ?_⟩
      intro l' hl'
      -- a failed call left the list as it was
      obtain rfl : l' = l := Chain.unique hl' hinv.list
      have htemp := hinv.temp w
      rw [hmc]
      exact ⟨htemp.list, map_blockAt_congr
        (fun q hq => s.mc.temp_read (hinv.allocatable hq).header.off_size w)⟩
    · exact absurd h0 hne
  · intro b hb regs
    rcases hinv.free hb (hcount b hb) regs with ⟨mc, regs', hres, -⟩
    exact ⟨mc, regs', hres⟩

/-- From `mm_bootstrap` and `pmm_init` on, every state of every run of allocations,
releases and stores into the pages handed out is as it should be. -/
theorem pmmRuns (L : LoaderLayout) (K : KernelImage) (mc₀ : Machine) (hpaging : LoaderPaging L mc₀)
    (hhead : mc₀.mem.read32 K.headPhys = 0)
    (hlow : (mc₀.mem.read32 (K.lowMem - kernelVirtBase)).toNat ≤ 0x100000) (high : Word)
    (hhigh : mc₀.mem.read32 (K.highMem - kernelVirtBase) = high) (hmin : 0x801000 ≤ high.toNat)
    (hmax : high.toNat - 0x800000 < 2 ^ 31) (regs : SavedRegs) :
    ∃ mc mc₁ regs₁, mmBootstrap K.kend 1024 mc₀ = some mc ∧
      pmmInit K 257 mc regs = some (mc₁, 0, regs₁) ∧
      ∀ r, Run (pmmStep K) ⟨mc₁, []⟩ r →
        PmmOk K (pmmTotal K high) ⟨mc₁, []⟩ ∧ ∀ p ∈ r, PmmOk K (pmmTotal K high) p.2 := by
  have hklo := K.kend_low
  have hkhi := K.kend_high
  have hbhigh := K.boot_high
  have hblow := K.boot_low
  rcases K.imageEnd_bounds with ⟨hend, hphys, himage⟩
  rcases lowMem_word (K := K) with ⟨-, hlnat⟩
  rcases highMem_word (K := K) with ⟨-, hhnat⟩
  rcases mmBootstrap_spec L hpaging (by omega) hkhi (Nat.le_refl 1024) with ⟨mc, hmc, hk, hframe⟩
  -- the variables of the kernel are not touched by `mm_bootstrap`
  have hread : ∀ a : Word, a.toNat + 4 ≤ 0x700000 → mc.mem.read32 a = mc₀.mem.read32 a := by
    intro a ha
    exact Mem.read32_congr (hframe _ (by bv_omega)) (hframe _ (by bv_omega))
      (hframe _ (by bv_omega)) (hframe _ (by bv_omega))
  rw [← hread _ (by omega)] at hhead hlow hhigh
  rcases pmmInit_spec hk hhead hlow hhigh hmin hmax regs (Nat.lt_succ_self 256) with
    ⟨mc₁, regs₁, l, hinit, hinv⟩
  have hstart : PmmReach K (pmmTotal K high) ⟨mc₁, []⟩ := ⟨⟨l, hinv⟩, by simp⟩
  refine ⟨mc, mc₁, regs₁, hmc, hinit, ?_⟩
  intro r hr
  refine ⟨hstart.ok, ?_⟩
  intro p hp
  exact (Run.invariant (PmmReach K (pmmTotal K high)) pmmStep_reach hstart hr p hp).ok

/-- 16 MiB of memory. -/
theorem pmmRuns_demo :
    ∃ mc₀ : Machine, LoaderPaging demoLayout mc₀ ∧
      mc₀.mem.read32 (demoImage.highMem - kernelVirtBase) = 0x1000000 ∧
      ∃ mc mc₁ regs₁, mmBootstrap demoImage.kend 1024 mc₀ = some mc ∧
        pmmInit demoImage 257 mc ⟨0, 0, 0⟩ = some (mc₁, 0, regs₁) ∧
        ∀ r, Run (pmmStep demoImage) ⟨mc₁, []⟩ r →
          PmmOk demoImage (pmmTotal demoImage 0x1000000) ⟨mc₁, []⟩ ∧
          ∀ p ∈ r, PmmOk demoImage (pmmTotal demoImage 0x1000000) p.2 := by
  rcases common32_paging demoLayout
    (Mem.write32 (fun _ => 0) (demoImage.highMem - kernelVirtBase) 0x1000000) 0
    (Nat.le_refl 1024) with ⟨mc₀, -, hpaging, hframe⟩
  have hread : ∀ a : Word, 0x100000 ≤ a.toNat → a.toNat + 4 ≤ 2 ^ 32 →
      mc₀.mem.read32 a = (Mem.write32 (fun _ => 0) (demoImage.highMem - kernelVirtBase)
        0x1000000).read32 a := by
    intro a ha hfits
    have hz : (0 : Word).toNat = 0 := rfl
    exact Mem.read32_congr (hframe _ (by omega)) (hframe _ (by bv_omega))
      (hframe _ (by bv_omega)) (hframe _ (by bv_omega))
  have hhigh : mc₀.mem.read32 (demoImage.highMem - kernelVirtBase) = 0x1000000 := by
    rw [hread _ (by decide) (by decide), Mem.read32_write32]
  refine ⟨mc₀, hpaging, hhigh, ?_⟩
  refine pmmRuns demoLayout demoImage mc₀ hpaging ?_ ?_ 0x1000000 hhigh (by decide) (by decide)
    ⟨0, 0, 0⟩
  · rw [hread _ (by decide) (by decide)]
    decide
  · rw [hread _ (by decide) (by decide)]
    decide

end StupidOS.Kernel
