import StupidOS.Kernel.Mmu

/-!
# Boot page tables and recursive paging (`loader.asm`, `mm/bootstrap.inc`)

`common32` of the loader builds tables that map the first 4 MiB at 0 and at
`KERNEL_VIRT_BASE`, and the 4 MiB behind them right after. Running on these,
`mm_bootstrap` fills the kernel's page table at 0x700000 and a page directory at
0x7FF000 whose entries are the 1024 pages from 0x400000 on, itself the last one.
So the page-table entry for any address shows up in the last 4 MiB of the address
space (`RecursiveDir.walk_pte`).
-/

namespace StupidOS.Kernel

/-! ## Constants -/

def kernelBase : Word := 0x100000

def kernelPreload : Word := 0xF000

def mmKernelPteBase : Word := 0xFFC00000

def pmmVirtTemp : Word := 0xD0000000

/-- `0x400000 + (768 * PAGE_SIZE)`, the kernel's page table. -/
def kernelTable : Word := 0x700000

/-- `0x400000 + (1023 * PAGE_SIZE)`, the kernel's page directory. -/
def kernelDirectory : Word := 0x7FF000

/-! ## The routines -/

/-- Where fasm put `boot_page_directory`; the two page tables follow it, and all
three lie in the loader, below 1 MiB. -/
structure LoaderLayout where
  bootPageDirectory : Word
  aligned : bootPageDirectory.toNat % 4096 = 0
  low : bootPageDirectory.toNat + 0x3000 ≤ 0x100000

namespace LoaderLayout

variable (L : LoaderLayout)

def boot0PageTable : Word := L.bootPageDirectory + 0x1000

def bootKernelPagingTable : Word := L.bootPageDirectory + 0x2000

end LoaderLayout

/-- `rep movsb` -/
def repMovsb (m : Mem) (edi esi : Word) : Nat → Mem
  | 0 => m
  | ecx + 1 => repMovsb (m.write8 edi (m esi)) (edi + 1) (esi + 1) ecx

/-- The loop condition `inc ecx; cmp ecx, 1024; jb`. -/
def below1024 (_esi ecx : Word) : Bool := ecx.ult 1024

/-- A store with paging disabled. -/
def storePhys (m : Mem) (a w : Word) : Option Mem := some (m.write32 a w)

/-- The step "add entries to page directory" of `common32`. -/
def addPageDirectoryEntries (L : LoaderLayout) (m : Mem) : Mem :=
  let m := m.write32 L.bootPageDirectory (L.boot0PageTable + (pteP ||| pteW))
  let m := m.write32 (L.bootPageDirectory + 768 * 4) (L.boot0PageTable + (pteP ||| pteW))
  m.write32 (L.bootPageDirectory + 769 * 4) (L.bootKernelPagingTable + (pteP ||| pteW))

/-- `common32` up to the jump to the kernel. -/
def common32 (L : LoaderLayout) (fuel : Nat) (m : Mem) (uKernelSize : Word) : Option Machine := do
  let m := m.write32 0xB8000 0x07690748
  -- move kernel to 0x100000
  let m := repMovsb m kernelBase kernelPreload uKernelSize.toNat
  -- identity map first 4MB
  let (m, esi) ← iterate (fillPass storePhys below1024) fuel (m, 0, L.boot0PageTable, 0)
  -- map 4mb right after kernel
  let (m, _) ← iterate (fillPass storePhys below1024) fuel (m, esi, L.bootKernelPagingTable, 0)
  return ⟨addPageDirectoryEntries L m, L.bootPageDirectory⟩

/-- `mm_bootstrap`. `kend` is the end of the kernel. The first loop does not count
its passes. -/
def mmBootstrap (kend : Word) (fuel : Nat) (mc : Machine) : Option Machine := do
  -- map first 4MB at KERNEL_VIRT_BASE
  let (mc, _) ← iterate
    (fillPass Machine.store32 (fun esi _ => esi.ult (kend - kernelVirtBase))) fuel
    (mc, 0, kernelVirtBase + 0x400000 + 768 * pageSize, 0)
  -- recursive page dir
  let (mc, _) ← iterate (fillPass Machine.store32 below1024) fuel
    (mc, 0x400000, kernelVirtBase + 0x400000 + 1023 * pageSize, 0)
  return { mc with cr3 := 0x400000 + 1023 * pageSize }

/-- `_pmm_map_temp_page`. `eax` is the physical address. -/
def pmmMapTempPage (mc : Machine) (eax : Word) : Option Machine :=
  mc.store32 (mmKernelPteBase + (pmmVirtTemp >>> 12) * 4) (eax ||| 3)

/-- `_pmm_unmap_temp_page` -/
def pmmUnmapTempPage (mc : Machine) : Option Machine :=
  mc.store32 (mmKernelPteBase + (pmmVirtTemp >>> 12) * 4) 0

/-! ## The loader's address space -/

/-- The part of the loader's tables that the kernel runs on. -/
structure LoaderPaging (L : LoaderLayout) (mc : Machine) : Prop where
  cr3 : mc.cr3 = L.bootPageDirectory
  pde768 : mc.mem.read32 (L.bootPageDirectory + 768 * 4) = L.boot0PageTable ||| 3
  pde769 : mc.mem.read32 (L.bootPageDirectory + 769 * 4) = L.bootKernelPagingTable ||| 3
  table0 : TableMaps mc.mem L.boot0PageTable 0 1024
  table1 : TableMaps mc.mem L.bootKernelPagingTable 0x400000 1024

theorem below1024_eq {i : Nat} (hi : i ≤ 1024) (esi : Word) :
    below1024 esi (BitVec.ofNat 32 i) = decide (i < 1024) := by
  unfold below1024 BitVec.ult
  rw [toNat_ofNat_of_lt (by omega)]
  rfl

section Loader

variable (L : LoaderLayout)

theorem boot0PageTable_toNat : L.boot0PageTable.toNat = L.bootPageDirectory.toNat + 0x1000 := by
  have hlow := L.low
  unfold LoaderLayout.boot0PageTable
  bv_omega

theorem bootKernelPagingTable_toNat :
    L.bootKernelPagingTable.toNat = L.bootPageDirectory.toNat + 0x2000 := by
  have hlow := L.low
  unfold LoaderLayout.bootKernelPagingTable
  bv_omega

/-- Filling one of the loader's page tables at its physical address. -/
theorem fill_phys (m : Mem) (table first : Word) {fuel : Nat} (hfuel : 1024 ≤ fuel) :
    ∃ m', iterate (fillPass storePhys below1024) fuel (m, first, table, 0) =
        some (m', first + BitVec.ofNat 32 (4096 * 1024)) ∧
      TableMaps m' table first 1024 ∧ ∀ x, 4096 ≤ (x - table).toNat → m' x = m x := by
  rcases fill_spec storePhys below1024 (fun m => m) (fun _ => True) table table first
    (show 0 < 1024 by omega) (Nat.le_refl 1024) hfuel (fun m w i _ _ => ⟨_, rfl, rfl, trivial⟩)
    (fun i _ hi => below1024_eq hi _) (m := m) trivial with ⟨m', hres, -, htab, hframe⟩
  exact ⟨m', hres, htab, hframe⟩

/-- A table is not disturbed by a change of memory outside it. -/
theorem TableMaps.congr {m m' : Mem} {table first : Word} {n : Nat} (hn : n ≤ 1024)
    (h : TableMaps m table first n) (hmem : ∀ x, (x - table).toNat < 4 * n → m' x = m x) :
    TableMaps m' table first n := by
  intro i hi
  rw [Mem.read32_congr (hmem _ (by bv_omega)) (hmem _ (by bv_omega)) (hmem _ (by bv_omega))
    (hmem _ (by bv_omega))]
  exact h i hi

/-- An entry made by an addition is the one an `or` makes. -/
theorem add_pw_eq {w : Word} (h : w.toNat % 4096 = 0) : w + (pteP ||| pteW) = w ||| 3 := by
  have hor := or_three_toNat (x := w) (by omega)
  have hpw : pteP ||| pteW = 3 := by decide
  rw [hpw]
  bv_omega

theorem repMovsb_frame {m : Mem} {edi esi x : Word} {n : Nat} (hx : n ≤ (x - edi).toNat) :
    repMovsb m edi esi n x = m x := by
  induction n generalizing m edi esi with
  | zero => rfl
  | succ n ih =>
      rw [repMovsb, ih (by bv_omega)]
      refine Mem.write8_frame m _ ?_
      rintro rfl
      simp at hx

/-- `common32` builds these tables, whatever memory holds, and leaves memory behind the
kernel alone. -/
theorem common32_paging (m : Mem) (uKernelSize : Word) {fuel : Nat} (hfuel : 1024 ≤ fuel) :
    ∃ mc, common32 L fuel m uKernelSize = some mc ∧ LoaderPaging L mc ∧
      ∀ x : Word, 0x100000 + uKernelSize.toNat ≤ x.toNat → mc.mem x = m x := by
  have hlow := L.low
  have hal := L.aligned
  have h0 := boot0PageTable_toNat L
  have h1 := bootKernelPagingTable_toNat L
  rcases fill_phys (repMovsb (m.write32 0xB8000 0x07690748) kernelBase kernelPreload
    uKernelSize.toNat) L.boot0PageTable 0 hfuel with ⟨m₁, hres₁, htab₁, hframe₁⟩
  rcases fill_phys m₁ L.bootKernelPagingTable (0 + BitVec.ofNat 32 (4096 * 1024)) hfuel with
    ⟨m₂, hres₂, htab₂, hframe₂⟩
  -- the three directory entries lie outside both tables
  have hdir : ∀ x : Word, L.bootPageDirectory.toNat + 0x1000 ≤ x.toNat →
      addPageDirectoryEntries L m₂ x = m₂ x := by
    intro x hx
    unfold addPageDirectoryEntries
    rw [Mem.write32_frame _ _ (by bv_omega), Mem.write32_frame _ _ (by bv_omega),
      Mem.write32_frame _ _ (by bv_omega)]
  refine ⟨⟨addPageDirectoryEntries L m₂, L.bootPageDirectory⟩, ?_, ?_, ?_⟩
  · unfold common32
    dsimp only
    rw [hres₁]
    change (iterate _ fuel (m₁, _, _, _)).bind _ = _
    rw [hres₂]
    rfl
  · refine ⟨rfl, ?_, ?_, ?_, ?_⟩
    · unfold addPageDirectoryEntries
      dsimp only
      rw [Mem.read32_write32_of_sep _ _ (by unfold Sep; constructor <;> bv_omega),
        Mem.read32_write32, add_pw_eq (by omega)]
    · unfold addPageDirectoryEntries
      dsimp only
      rw [Mem.read32_write32, add_pw_eq (by omega)]
    · refine TableMaps.congr (Nat.le_refl 1024) htab₁ (fun x hx => ?_)
      exact (hdir x (by bv_omega)).trans (hframe₂ x (by bv_omega))
    · refine TableMaps.congr (Nat.le_refl 1024) htab₂ (fun x hx => ?_)
      exact hdir x (by bv_omega)
  · intro x hx
    dsimp only
    rw [hdir x (by omega), hframe₂ x (by bv_omega), hframe₁ x (by bv_omega),
      repMovsb_frame (by unfold kernelBase; bv_omega), Mem.write32_frame _ _ (by bv_omega)]

/-- The loader maps 8 MiB from `KERNEL_VIRT_BASE` on to physical memory from 0 on. -/
theorem LoaderPaging.walk {mc : Machine} (h : LoaderPaging L mc) (store : Bool) {v : Word}
    (hlo : 0xC0000000 ≤ v.toNat) (hhi : v.toNat < 0xC0800000) :
    Kernel.walk store mc.mem mc.cr3 v = some (v - kernelVirtBase) := by
  have hlow := L.low
  have hal := L.aligned
  have h0 := boot0PageTable_toNat L
  have h1 := bootKernelPagingTable_toNat L
  have hidx := pdeIndex_toNat v
  rw [h.cr3]
  by_cases hv : v.toNat < 0xC0400000
  · have hpde : pdeIndex v = 768 := BitVec.eq_of_toNat_eq (by rw [hidx]; change _ = 768; omega)
    have hread := h.pde768
    rcases h.table0.walk (v := v) (by decide) (by omega) hal
      (by rw [hpde]; exact hread) (by omega) store with ⟨-, hwalk⟩
    rw [hwalk, Option.some.injEq]
    unfold kernelVirtBase
    bv_omega
  · have hpde : pdeIndex v = 769 := BitVec.eq_of_toNat_eq (by rw [hidx]; change _ = 769; omega)
    have hread := h.pde769
    rcases h.table1.walk (v := v) (by decide) (by omega) hal
      (by rw [hpde]; exact hread) (by omega) store with ⟨-, hwalk⟩
    rw [hwalk, Option.some.injEq]
    unfold kernelVirtBase
    bv_omega

end Loader

/-! ## Recursive paging -/

/-- The page directory that `mm_bootstrap` builds: entry `i` is page `i` of the 4 MiB
at 0x400000, so the directory itself is entry 1023. -/
def RecursiveDir (m : Mem) : Prop := TableMaps m kernelDirectory 0x400000 1024

section Recursive

variable {m : Mem} (h : RecursiveDir m)

include h

theorem RecursiveDir.pde (v : Word) :
    m.read32 (kernelDirectory + 4 * pdeIndex v) =
      (0x400000 + BitVec.ofNat 32 (4096 * (v.toNat / 2 ^ 22))) ||| 3 := by
  have hlt := v.isLt
  have hread := h (v.toNat / 2 ^ 22) (by omega)
  rw [four_mul_eq, pdeIndex_toNat]
  exact hread

/-- The page-table entry used for `v` is word `v >> 12` of the 4 MiB at 0x400000. -/
theorem RecursiveDir.pteAddr (v : Word) :
    Kernel.pteAddr m kernelDirectory v = (0x400000 : Word) + (v >>> 12) * 4 := by
  have hlt := v.isLt
  have hdir : kernelDirectory.toNat % 4096 = 0 := by decide
  have hshift : (v >>> 12).toNat = v.toNat / 4096 := by
    rw [BitVec.toNat_ushiftRight, Nat.shiftRight_eq_div_pow]
  have hidx := pteIndex_toNat v
  have htable : ((0x400000 : Word) + BitVec.ofNat 32 (4096 * (v.toNat / 2 ^ 22))).toNat % 4096 =
      0 := by bv_omega
  rw [Kernel.pteAddr, pdeAddr, pageFrame_of_aligned hdir, h.pde, pageFrame_or_three htable,
    four_mul_eq, hidx]
  bv_omega

/-- That word is mapped at `MM_KERNEL_PTE_BASE + (v >> 12) * 4`. -/
theorem RecursiveDir.walk_pte (store : Bool) (v : Word) :
    walk store m kernelDirectory (mmKernelPteBase + (v >>> 12) * 4) =
      some ((0x400000 : Word) + (v >>> 12) * 4) := by
  have hlt := v.isLt
  have hshift : (v >>> 12).toNat = v.toNat / 4096 := by
    rw [BitVec.toNat_ushiftRight, Nat.shiftRight_eq_div_pow]
  have hva : (mmKernelPteBase + (v >>> 12) * 4).toNat = 0xFFC00000 + v.toNat / 4096 * 4 := by
    unfold mmKernelPteBase
    bv_omega
  have hpde := h.pde (mmKernelPteBase + (v >>> 12) * 4)
  have hself : (0x400000 : Word) + BitVec.ofNat 32
      (4096 * ((mmKernelPteBase + (v >>> 12) * 4).toNat / 2 ^ 22)) = kernelDirectory := by
    rw [hva]
    unfold kernelDirectory
    bv_omega
  rw [hself] at hpde
  rcases TableMaps.walk h (by decide) (by decide) (by decide) hpde
    (by omega) store with ⟨-, hwalk⟩
  rw [hwalk, Option.some.injEq, hva]
  bv_omega

end Recursive

/-! ## The kernel's address space -/

/-- The number of pages that the kernel image takes. -/
def kernelPages (kend : Word) : Nat := (kend.toNat - 0xC0000000 + 4095) / 4096

/-- What `mm_bootstrap` leaves the kernel to run on. -/
structure KernelPaging (kend : Word) (mc : Machine) : Prop where
  cr3 : mc.cr3 = kernelDirectory
  dir : RecursiveDir mc.mem
  table : TableMaps mc.mem kernelTable 0 (kernelPages kend)

section Kernel

variable (L : LoaderLayout) {kend : Word}

/-- Nothing else of memory counts than the three pages of the tables. -/
theorem LoaderPaging.congr {mc mc' : Machine} (h : LoaderPaging L mc) (hcr3 : mc'.cr3 = mc.cr3)
    (hmem : ∀ x : Word, (x - L.bootPageDirectory).toNat < 0x3000 → mc'.mem x = mc.mem x) :
    LoaderPaging L mc' := by
  have hlow := L.low
  have h0 := boot0PageTable_toNat L
  have h1 := bootKernelPagingTable_toNat L
  refine ⟨hcr3.trans h.cr3, ?_, ?_, ?_, ?_⟩
  · rw [← h.pde768]
    exact Mem.read32_congr (hmem _ (by bv_omega)) (hmem _ (by bv_omega)) (hmem _ (by bv_omega))
      (hmem _ (by bv_omega))
  · rw [← h.pde769]
    exact Mem.read32_congr (hmem _ (by bv_omega)) (hmem _ (by bv_omega)) (hmem _ (by bv_omega))
      (hmem _ (by bv_omega))
  · exact h.table0.congr (Nat.le_refl 1024) (fun x hx => hmem x (by bv_omega))
  · exact h.table1.congr (Nat.le_refl 1024) (fun x hx => hmem x (by bv_omega))

/-- A store by the kernel, running on the loader's tables, above the first MiB. -/
theorem LoaderPaging.store {mc : Machine} (h : LoaderPaging L mc) {v : Word}
    (hlo : 0xC0100000 ≤ v.toNat) (hhi : v.toNat + 4 ≤ 0xC0800000) (w : Word) :
    ∃ mc', mc.store32 v w = some mc' ∧ mc'.mem = mc.mem.write32 (v - kernelVirtBase) w ∧
      LoaderPaging L mc' := by
  have hlow := L.low
  have hwalk := h.walk L true (v := v) (by omega) (by omega)
  refine ⟨{ mc with mem := mc.mem.write32 (v - kernelVirtBase) w }, ?_, rfl, ?_⟩
  · rw [Machine.store32, hwalk]
    rfl
  · refine h.congr L rfl (fun x hx => ?_)
    exact Mem.write32_frame _ _ (by unfold kernelVirtBase; bv_omega)

/-- A filling loop of `mm_bootstrap`, which runs on the loader's tables. -/
theorem fill_virt {mc : Machine} (h : LoaderPaging L mc) (more : Word → Word → Bool)
    (base first : Word) {n fuel : Nat} (hpos : 0 < n) (hn : n ≤ 1024) (hfuel : n ≤ fuel)
    (hlo : 0xC0100000 ≤ base.toNat) (hhi : base.toNat + 4096 ≤ 0xC0800000)
    (hmore : ∀ i, 0 < i → i ≤ n →
      more (first + BitVec.ofNat 32 (4096 * i)) (BitVec.ofNat 32 i) = decide (i < n)) :
    ∃ mc', iterate (fillPass Machine.store32 more) fuel (mc, first, base, 0) =
        some (mc', first + BitVec.ofNat 32 (4096 * n)) ∧
      LoaderPaging L mc' ∧ TableMaps mc'.mem (base - kernelVirtBase) first n ∧
      ∀ x, 4 * n ≤ (x - (base - kernelVirtBase)).toNat → mc'.mem x = mc.mem x := by
  refine fill_spec Machine.store32 more Machine.mem (LoaderPaging L) base (base - kernelVirtBase)
    first hpos hn hfuel (fun mc w i hi hmc => ?_) hmore h
  rcases hmc.store L (v := base + BitVec.ofNat 32 (4 * i)) (by bv_omega) (by bv_omega) w with
    ⟨mc', hst, hmem, hmc'⟩
  refine ⟨mc', hst, ?_, hmc'⟩
  have haddr : base + BitVec.ofNat 32 (4 * i) - kernelVirtBase =
      base - kernelVirtBase + BitVec.ofNat 32 (4 * i) := by
    unfold kernelVirtBase
    bv_omega
  rw [hmem, haddr]

/-- `mm_bootstrap` on the loader's tables: it returns, and writes the entries of the
kernel image and the page directory only. -/
theorem mmBootstrap_writes {mc : Machine} (h : LoaderPaging L mc) (hlo : 0xC0000000 < kend.toNat)
    (hhi : kend.toNat ≤ 0xC0400000) {fuel : Nat} (hfuel : 1024 ≤ fuel) :
    ∃ mc', mmBootstrap kend fuel mc = some mc' ∧ KernelPaging kend mc' ∧
      ∀ x : Word, 4 * kernelPages kend ≤ (x - kernelTable).toNat →
        4096 ≤ (x - kernelDirectory).toNat → mc'.mem x = mc.mem x := by
  have hpages : 0 < kernelPages kend ∧ kernelPages kend ≤ 1024 := by
    unfold kernelPages
    omega
  have hsub : (kend - kernelVirtBase).toNat = kend.toNat - 0xC0000000 := by
    unfold kernelVirtBase
    bv_omega
  have hmore : ∀ i, 0 < i → i ≤ kernelPages kend →
      (0 + BitVec.ofNat 32 (4096 * i)).ult (kend - kernelVirtBase) =
        decide (i < kernelPages kend) := by
    intro i _ hi
    have hnat : (0 + BitVec.ofNat 32 (4096 * i)).toNat = 4096 * i := by bv_omega
    rw [BitVec.ult, hnat, hsub, decide_eq_decide]
    unfold kernelPages
    omega
  -- the loop over the image, then the loop over the directory
  rcases fill_virt L h (fun esi _ => esi.ult (kend - kernelVirtBase))
    (kernelVirtBase + 0x400000 + 768 * pageSize) 0 hpages.1 hpages.2 (le_trans hpages.2 hfuel)
    (by decide) (by decide) hmore with ⟨mc₁, hres₁, h₁, htab₁, hframe₁⟩
  rcases fill_virt L h₁ below1024 (kernelVirtBase + 0x400000 + 1023 * pageSize) 0x400000
    (show 0 < 1024 by omega) (Nat.le_refl 1024) hfuel (by decide) (by decide)
    (fun i _ hi => below1024_eq hi _) with ⟨mc₂, hres₂, -, htab₂, hframe₂⟩
  have htable : kernelVirtBase + 0x400000 + 768 * pageSize - kernelVirtBase = kernelTable := by
    decide
  have hdir : kernelVirtBase + 0x400000 + 1023 * pageSize - kernelVirtBase = kernelDirectory := by
    decide
  rw [htable] at htab₁ hframe₁
  rw [hdir] at htab₂ hframe₂
  refine ⟨{ mc₂ with cr3 := kernelDirectory }, ?_, ⟨rfl, htab₂, ?_⟩, ?_⟩
  · unfold mmBootstrap
    change (iterate _ fuel (mc, _, _, _)).bind _ = _
    rw [hres₁]
    change (iterate _ fuel (mc₁, _, _, _)).bind _ = _
    rw [hres₂]
    rfl
  -- the directory does not overlap the entries of the image
  · refine htab₁.congr hpages.2 (fun x hx => hframe₂ x ?_)
    unfold kernelTable at hx
    unfold kernelDirectory
    bv_omega
  · intro x hx hx'
    exact (hframe₂ x hx').trans (hframe₁ x hx)

/-- `mm_bootstrap` changes nothing but the kernel's page table and page directory. -/
theorem mmBootstrap_spec {mc : Machine} (h : LoaderPaging L mc) (hlo : 0xC0000000 < kend.toNat)
    (hhi : kend.toNat ≤ 0xC0400000) {fuel : Nat} (hfuel : 1024 ≤ fuel) :
    ∃ mc', mmBootstrap kend fuel mc = some mc' ∧ KernelPaging kend mc' ∧
      ∀ x : Word, x.toNat < 0x700000 ∨ 0x800000 ≤ x.toNat → mc'.mem x = mc.mem x := by
  rcases mmBootstrap_writes L h hlo hhi hfuel with ⟨mc', hres, hpaging, hframe⟩
  refine ⟨mc', hres, hpaging, ?_⟩
  intro x hx
  have hpages : kernelPages kend ≤ 1024 := by
    unfold kernelPages
    omega
  have htable : kernelTable.toNat = 0x700000 := rfl
  have hdir : kernelDirectory.toNat = 0x7FF000 := rfl
  exact hframe x (by bv_omega) (by bv_omega)

/-- The kernel image keeps its addresses across the change of CR3. -/
theorem KernelPaging.walk_kernel {mc : Machine} (h : KernelPaging kend mc)
    (hhi : kend.toNat ≤ 0xC0400000) (store : Bool) {v : Word} (hv : 0xC0000000 ≤ v.toNat)
    (hv' : v.toNat < kend.toNat) :
    walk store mc.mem mc.cr3 v = some (v - kernelVirtBase) := by
  have hpde := h.dir.pde v
  have htable : (0x400000 : Word) + BitVec.ofNat 32 (4096 * (v.toNat / 2 ^ 22)) = kernelTable := by
    unfold kernelTable
    bv_omega
  rw [htable] at hpde
  have hpage : v.toNat / 4096 % 1024 < kernelPages kend := by
    unfold kernelPages
    omega
  rcases h.table.walk (by decide) (by decide) (by decide) hpde hpage store with ⟨-, hwalk⟩
  rw [h.cr3, hwalk, Option.some.injEq]
  unfold kernelVirtBase
  bv_omega

end Kernel

/-! ## The temporary page -/

/-- The physical address of the page-table entry for `PMM_VIRT_TEMP`. -/
def tempEntry : Word := 0x740000

theorem tempEntry_walk {mc : Machine} (hcr3 : mc.cr3 = kernelDirectory)
    (hdir : RecursiveDir mc.mem) (w : Word) :
    mc.store32 (mmKernelPteBase + (pmmVirtTemp >>> 12) * 4) w =
      some { mc with mem := mc.mem.write32 tempEntry w } := by
  have haddr : (0x400000 : Word) + (pmmVirtTemp >>> 12) * 4 = tempEntry := by decide
  rw [Machine.store32, hcr3, hdir.walk_pte true pmmVirtTemp, haddr]
  simp only [Option.map_some]

/-- The temporary entry is no part of the page directory. -/
theorem RecursiveDir.write_temp {m : Mem} (h : RecursiveDir m) (w : Word) :
    RecursiveDir (m.write32 tempEntry w) := by
  refine TableMaps.congr (Nat.le_refl 1024) h (fun x hx => Mem.write32_frame _ _ ?_)
  unfold kernelDirectory at hx
  unfold tempEntry
  bv_omega

/-- `_pmm_map_temp_page` makes the page at `PMM_VIRT_TEMP` the one at `eax`. -/
theorem pmmMapTempPage_spec {mc : Machine} (hcr3 : mc.cr3 = kernelDirectory)
    (hdir : RecursiveDir mc.mem) {eax : Word} (heax : eax.toNat % 4096 = 0) :
    pmmMapTempPage mc eax = some { mc with mem := mc.mem.write32 tempEntry (eax ||| 3) } ∧
    ∀ (store : Bool) (k : Word), k.toNat < 4096 →
      walk store (mc.mem.write32 tempEntry (eax ||| 3)) kernelDirectory (pmmVirtTemp + k) =
        some (eax + k) := by
  refine ⟨tempEntry_walk hcr3 hdir _, ?_⟩
  intro store k hk
  have hnat : (pmmVirtTemp + k).toNat = 0xD0000000 + k.toNat := by
    unfold pmmVirtTemp
    bv_omega
  have hpde := (hdir.write_temp (eax ||| 3)).pde (pmmVirtTemp + k)
  have htable : (0x400000 : Word) + BitVec.ofNat 32 (4096 * ((pmmVirtTemp + k).toNat / 2 ^ 22)) =
      tempEntry := by
    rw [hnat]
    unfold tempEntry
    bv_omega
  rw [htable] at hpde
  have hidx : tempEntry + 4 * pteIndex (pmmVirtTemp + k) = tempEntry := by
    have := pteIndex_toNat (pmmVirtTemp + k)
    rw [hnat] at this
    bv_omega
  have hpte : (mc.mem.write32 tempEntry (eax ||| 3)).read32
      (tempEntry + 4 * pteIndex (pmmVirtTemp + k)) = eax ||| 3 := by
    rw [hidx, Mem.read32_write32]
  have hoff := pageOffset_toNat (pmmVirtTemp + k)
  rw [(walk_eq store (by decide) (by decide) heax hpde hpte).2, Option.some.injEq]
  bv_omega

/-- From `common32` and `mm_bootstrap` on, whatever physical memory held and
whatever is stored in between, the loader's tables apart: the kernel image keeps
its translation, the last 4 MiB of the address space are the page-table entries,
and the temporary page shows any page it is set to. -/
theorem recursivePaging (L : LoaderLayout) (kend uKernelSize : Word) (m₀ : Mem)
    (hlo : 0xC0000000 < kend.toNat) (hhi : kend.toNat ≤ 0xC0400000) :
    ∃ mc, common32 L 1024 m₀ uKernelSize = some mc ∧
    ∀ mc₁ : Machine, mc₁.cr3 = mc.cr3 →
      (∀ x : Word, (x - L.bootPageDirectory).toNat < 0x3000 → mc₁.mem x = mc.mem x) →
    ∃ mc₂, mmBootstrap kend 1024 mc₁ = some mc₂ ∧
      mc₂.cr3 = 0x400000 + 1023 * 4096 ∧
      (∀ store (v : Word), kernelVirtBase.toNat ≤ v.toNat → v.toNat < kend.toNat →
        walk store mc₂.mem mc₂.cr3 v = some (v - kernelVirtBase) ∧
        walk store mc₁.mem mc₁.cr3 v = some (v - kernelVirtBase)) ∧
      (∀ store (v : Word), walk store mc₂.mem mc₂.cr3 (mmKernelPteBase + (v >>> 12) * 4) =
          some ((0x400000 : Word) + (v >>> 12) * 4) ∧
        pteAddr mc₂.mem mc₂.cr3 v = (0x400000 : Word) + (v >>> 12) * 4) ∧
      ∀ p : Word, p.toNat % 4096 = 0 → ∃ mc₃, pmmMapTempPage mc₂ p = some mc₃ ∧
        ∀ store, walk store mc₃.mem mc₃.cr3 pmmVirtTemp = some p := by
  rcases common32_paging L m₀ uKernelSize (Nat.le_refl 1024) with ⟨mc, hmc, hpaging, -⟩
  refine ⟨mc, hmc, ?_⟩
  intro mc₁ hcr3 hmem
  have hpaging₁ := hpaging.congr L hcr3 hmem
  rcases mmBootstrap_spec L hpaging₁ hlo hhi (Nat.le_refl 1024) with ⟨mc₂, hmc₂, hk, -⟩
  refine ⟨mc₂, hmc₂, by rw [hk.cr3]; decide, ?_, ?_, ?_⟩
  · intro store v hv hv'
    have hbase : kernelVirtBase.toNat = 0xC0000000 := by decide
    rw [hbase] at hv
    exact ⟨hk.walk_kernel hhi store hv hv', hpaging₁.walk L store hv (by omega)⟩
  · intro store v
    rw [hk.cr3]
    exact ⟨hk.dir.walk_pte store v, hk.dir.pteAddr v⟩
  · intro p hp
    rcases pmmMapTempPage_spec hk.cr3 hk.dir hp with ⟨hres, hwalk⟩
    refine ⟨_, hres, ?_⟩
    intro store
    -- the first word of the page
    have h0 := hwalk store 0 (by decide)
    have hv : pmmVirtTemp + 0 = pmmVirtTemp := by decide
    have hp0 : p + 0 = p := by bv_omega
    rw [hv, hp0] at h0
    dsimp only
    rw [hk.cr3]
    exact h0

/-- The theorem for a loader whose tables start at 0x8000 and a kernel of 64 KiB. -/
def demoLayout : LoaderLayout := ⟨0x8000, by decide, by decide⟩

theorem recursivePaging_demo :
    ∃ mc, common32 demoLayout 1024 (fun _ => 0) 0x10000 = some mc ∧
    ∀ mc₁ : Machine, mc₁.cr3 = mc.cr3 →
      (∀ x : Word, (x - demoLayout.bootPageDirectory).toNat < 0x3000 → mc₁.mem x = mc.mem x) →
    ∃ mc₂, mmBootstrap 0xC0110000 1024 mc₁ = some mc₂ ∧
      mc₂.cr3 = 0x400000 + 1023 * 4096 ∧
      (∀ store (v : Word), kernelVirtBase.toNat ≤ v.toNat → v.toNat < (0xC0110000 : Word).toNat →
        walk store mc₂.mem mc₂.cr3 v = some (v - kernelVirtBase) ∧
        walk store mc₁.mem mc₁.cr3 v = some (v - kernelVirtBase)) ∧
      (∀ store (v : Word), walk store mc₂.mem mc₂.cr3 (mmKernelPteBase + (v >>> 12) * 4) =
          some ((0x400000 : Word) + (v >>> 12) * 4) ∧
        pteAddr mc₂.mem mc₂.cr3 v = (0x400000 : Word) + (v >>> 12) * 4) ∧
      ∀ p : Word, p.toNat % 4096 = 0 → ∃ mc₃, pmmMapTempPage mc₂ p = some mc₃ ∧
        ∀ store, walk store mc₃.mem mc₃.cr3 pmmVirtTemp = some p :=
  recursivePaging demoLayout 0xC0110000 0x10000 (fun _ => 0) (by decide) (by decide)

end StupidOS.Kernel
