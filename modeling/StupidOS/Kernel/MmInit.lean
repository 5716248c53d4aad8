import StupidOS.Kernel.Kmain
import StupidOS.Kernel.Pic
import StupidOS.Kernel.VmemSystem

/-!
# The start of the allocators (`kernel.asm`, `kernel/mm/mm.inc`)

`mm_init` starts the page allocator and then the virtual memory allocator: it creates the arena of
the kernel, from the end of the kernel to the temporary page, and allocates from it once. All that
the latter stores lies in the image, behind the variables of the page allocator, whose list is as
it was (`mmInit_list`). The same goes for the stores of `klog` and of `idt_setup` in `kmain`, which
here runs to its end (`Tiled.kept`).
-/

namespace StupidOS.Kernel

/-! ## Data and code -/

/-- Where fasm put the variables of `mm_init` and `idt_setup`: behind those of the page allocator
the descriptors of `vmem.inc` and the arena of the kernel, behind the descriptor table and `pGDT`
the gates. -/
structure MmImage extends KmainImage where
  vmem : VmemStatics
  szVmemKernelName : Word
  stVmemKernel : Word
  idt : IdtImage
  head_statics : pPmmFreeListHead.toNat + 36 ≤ vmem.aVmemStaticSegs.toNat
  statics_arena : vmem.aVmemStaticSegs.toNat + 1800 ≤ stVmemKernel.toNat
  arena_gdt : stVmemKernel.toNat + 248 ≤ gdt.toNat
  gdt_gates : gdt.toNat + 54 ≤ idt.aInterruptGate.toNat
  gates_boot : idt.aInterruptGate.toNat + 256 * 8 ≤ stBootInfo.toNat

/-- Memory by the kernel's addresses. -/
def kernelView (m : Mem) : Mem := fun v => m (v - kernelVirtBase)

/-- A routine all of whose loads and stores are in the image of the kernel, which is mapped from
`KERNEL_VIRT_BASE` on. -/
def Machine.inImage (mc : Machine) (f : Mem → Option Mem) : Option Machine :=
  (f (kernelView mc.mem)).map fun m => { mc with mem := fun x => m (x + kernelVirtBase) }

/-- What is not known of the frames: the registers when `mm_init` and `pmm_alloc` are called, the
word above the arguments of `vmem_create`, and the locals of `vmem_xalloc`. -/
structure MmFrames where
  regs : SavedRegs
  allocRegs : SavedRegs
  above : Word
  junk : Word × Word × Word

/-- The stores of several calls of `klog`. -/
def klogsStored (K : KmainImage) (mc : Machine) : List KlogStores → Option Machine
  | [] => some mc
  | log :: logs => do
    let mc ← klogStored K log mc
    klogsStored K mc logs

/-- The calls of `klog` from `mm_init` on, those of `mm_init` in a list. -/
structure MmLogs extends KmainLogs where
  mmInit : List KlogStores
  pmmAlloc : KlogStores
  pmmFree : KlogStores

variable (K : MmImage)

/-- `mm_init`. What `klog` stores is stored first; nothing else here loads or stores it. -/
def mmInit (logs : List KlogStores) (fuel : Nat) (fr : MmFrames) (mc : Machine) :
    Option Machine := do
  let mc ← klogsStored K.toKmainImage mc logs
  let (mc, _, _) ← pmmInit K.toKernelImage fuel mc fr.regs
  let mc ← mc.inImage (vmemBootstrap K.vmem fuel)
  let mc ← mc.inImage fun m => some (vmemCreate K.vmem m K.stVmemKernel K.szVmemKernelName K.kend
    ⟨pmmVirtTemp - K.kend, 4096, 0, 0, 0, 4, fr.above⟩)
  mc.inImage fun m => do
    let (_, _, m) ← vmemAlloc K.vmem fuel m K.stVmemKernel 4096 vmemVmBestfit fr.junk
    return m

/-- `kmain` from `mm_bootstrap` to `idt_setup`, but for `pic_init`: the allocators are started, and
four pages are allocated and released. -/
def kmainMemory (logs : MmLogs) (fuel : Nat) (fr : MmFrames) (mc : Machine) : Option Machine := do
  let mc ← kmainBootstrap K.toKmainImage logs.toKmainLogs fuel mc
  let mc ← mmInit K logs.mmInit fuel fr mc
  let mc ← klogStored K.toKmainImage logs.pmmAlloc mc
  let r ← pmmAlloc K.toKernelImage fuel mc 4 fr.allocRegs
  let mc ← klogStored K.toKmainImage logs.pmmFree r.mc
  let (mc, _) ← pmmFree K.toKernelImage mc r.eax 4 r.regs
  mc.inImage (idtSetup K.idt fuel)

/-- How `kmain` ends: with a complaint about the magic number, or with everything started. -/
inductive KmainExit where
  | errorMagic
  | halt (mc : Machine) (gdtr : TableRegister) (tr : TaskRegister) (pics : Pics)

/-- `kmain`, without `pit_init` -/
def kmain (logs : MmLogs) (fuel : Nat) (eax ebx : Word) (fr : MmFrames) (pics : Pics)
    (mc : Machine) : Option KmainExit :=
  if eax ≠ bootBootloaderMagic then some .errorMagic
  else do
    let (mc, gdtr, tr) ← kmainSetup K.toKmainImage logs.toKmainLogs mc ebx
    let mc ← kmainMemory K logs fuel fr mc
    return .halt mc gdtr tr (picInit pics)

/-! ## The arena of the kernel -/

namespace MmImage

/-- The arena lies in the image. -/
theorem arena_kend : K.stVmemKernel.toNat + 248 ≤ K.kend.toNat := by
  have harena := K.arena_gdt
  have hgdt := K.gdt_boot
  have hboot := K.boot_high
  omega

/-- The physical addresses of `pVmemFreeSegHead` and `iVmemFreeSegCount`. -/
theorem poolPhys :
    (K.vmem.pVmemFreeSegHead - kernelVirtBase).toNat
        = K.vmem.aVmemStaticSegs.toNat + 1792 - 0xC0000000 ∧
      (K.vmem.iVmemFreeSegCount - kernelVirtBase).toNat
        = K.vmem.aVmemStaticSegs.toNat + 1796 - 0xC0000000 ∧
      K.pPmmFreeListHead.toNat + 36 ≤ K.vmem.aVmemStaticSegs.toNat ∧
      K.vmem.aVmemStaticSegs.toNat + 1800 ≤ K.gdt.toNat := by
  have hheadlow := K.head_low
  have hstatics := K.head_statics
  have harena := K.statics_arena
  have hgdt := K.arena_gdt
  have hpoolnat := K.vmem.head_toNat
  have hcountnat := K.vmem.count_toNat
  unfold kernelVirtBase
  refine ⟨?_, ?_, hstatics, by omega⟩ <;> bv_omega

/-- `stVmemKernel`, with what `vmem_create` gets for it. -/
def arena (above : Word) : VmemArena K.vmem where
  addr := K.stVmemKernel
  name := K.szVmemKernelName
  base := K.kend
  args := ⟨pmmVirtTemp - K.kend, 4096, 0, 0, 0, 4, above⟩
  source := rfl
  fits := by
    have hhigh := K.arena_kend
    have hend := K.kend_high
    omega
  half := by
    have hlow := K.head_low
    have hstatics := K.head_statics
    have harena := K.statics_arena
    omega
  apart := Or.inr K.statics_arena
  span := by
    have hlow := K.kend_low
    have hhigh := K.kend_high
    unfold pmmVirtTemp
    bv_omega

/-- A word that is not from the descriptors up to the arena. -/
def Beside (a : Word) : Prop :=
  a.toNat + 4 ≤ 2 ^ 32 ∧
    (a.toNat + 4 ≤ K.vmem.aVmemStaticSegs.toNat ∨ K.stVmemKernel.toNat + 248 ≤ a.toNat)

variable {K}

theorem Beside.aside {a : Word} (h : K.Beside a) (above : Word) : Aside (K.arena above) a := by
  have harena := K.statics_arena
  have hstatics := K.vmem.fits
  have hfits := (K.arena above).fits
  have haddr : (K.arena above).addr = K.stVmemKernel := rfl
  rw [haddr] at hfits
  rcases h with ⟨ha, hplace⟩
  refine ⟨offPool_of_place K.vmem ha (by omega), ?_, ?_⟩
  · intro i hi
    have hword := (K.arena above).word_toNat (k := 56 + 4 * i) (by omega)
    rw [haddr] at hword
    unfold VmemArena.freelist
    exact Sep.of_le (by omega) (by omega) (by omega) (by omega) (by omega)
  · intro k hk
    have h63 := seg63_toNat K.vmem
    have hfield : (K.vmem.field k).toNat = K.vmem.aVmemStaticSegs.toNat + 1764 + k.toNat := by
      unfold VmemStatics.field
      bv_omega
    exact Sep.of_le (by omega) (by omega) (by omega) (by omega) (by omega)

/-- The first allocation finds the span. -/
theorem arena_found {above : Word} {m : Mem} (h : ArenaFresh (K.arena above) m) :
    Found (K.arena above) m 4096 vmemVmBestfit := by
  have hlow := K.kend_low
  have hhigh := K.kend_high
  have hsize : (K.arena above).args.size.toNat = 0xD0000000 - K.kend.toNat := by
    change (pmmVirtTemp - K.kend).toNat = _
    unfold pmmVirtTemp
    bv_omega
  have hne := h.listed (by omega)
  have hclass : 12 ≤ Nat.log2 (K.arena above).args.size.toNat :=
    (Nat.le_log2 (by omega)).mpr (by omega)
  refine ⟨Nat.log2 (K.arena above).args.size.toNat, hclass, log2_lt, hne, ?_⟩
  intro _
  rw [(h.size _ log2_lt hne).2.1, slt_of_lt (by decide) (by omega), decide_eq_true_iff, hsize]
  have hrequest : (4096 : Word).toNat = 4096 := rfl
  omega

/-- The three calls of the virtual memory allocator, and what they leave alone. -/
theorem arena_started {m : Mem} (hhead : m.read32 K.vmem.pVmemFreeSegHead = 0)
    (hcount : m.read32 K.vmem.iVmemFreeSegCount = 0) (above : Word) (junk : Word × Word × Word)
    {fuel : Nat} (hfuel : 201 ≤ fuel) :
    ∃ m₁ eax edx m', vmemBootstrap K.vmem fuel m = some m₁ ∧
      vmemAlloc K.vmem fuel (vmemCreate K.vmem m₁ K.stVmemKernel K.szVmemKernelName K.kend
          ⟨pmmVirtTemp - K.kend, 4096, 0, 0, 0, 4, above⟩)
        K.stVmemKernel 4096 vmemVmBestfit junk = some (eax, edx, m') ∧
      ∀ a, K.Beside a → m'.read32 a = m.read32 a := by
  rcases vmemBootstrap_spec K.vmem hhead hcount with ⟨m₁, hboot, hinv, -⟩
  have hboot := iterate_mono (show 64 ≤ fuel by omega) hboot
  have hstuck := poolStuck_of_listInv K.vmem hinv
  have hfresh := vmemCreate_fresh (K.arena above) hstuck
  rcases vmemAlloc_ends hfresh.linked (show vmemVmBestfit &&& vmemVmFitMask ≠ 0 by decide)
    (Or.inl (arena_found hfresh)) junk with ⟨eax, edx, m', hrun, hcalled, -⟩
  refine ⟨m₁, eax, edx, m', hboot, vmemAlloc_mono hfresh.linked (by decide) hfuel hrun, ?_⟩
  intro a ha
  have haside := ha.aside above
  have happ : a.toNat + 4 ≤ K.stVmemKernel.toNat ∨ K.stVmemKernel.toNat + 248 ≤ a.toNat := by
    have harena := K.statics_arena
    have hplace := ha.2
    omega
  rw [hcalled.frame a haside, (vmemCreate_spec (K.arena above) hstuck _ _ _).2.2.2 a haside,
    vmemCreateObject_frame (K.arena above) m₁ _ _ _ ha.1 happ,
    vmemBootstrap_frame K.vmem hhead hcount hboot haside.pool]

end MmImage

/-! ## The page allocator afterwards -/

variable {K}

theorem kernelView_image (m : Mem) : kernelView (fun x => m (x + kernelVirtBase)) = m := by
  funext v
  have hback : v - kernelVirtBase + kernelVirtBase = v := by bv_omega
  exact congrArg m hback

theorem kernelView_read32 (m : Mem) (a : Word) :
    (kernelView m).read32 a = m.read32 (a - kernelVirtBase) := by
  apply Mem.read32_of_bytes
  intro k hk
  have hat : a + k - kernelVirtBase = a - kernelVirtBase + k := by bv_omega
  exact congrArg m hat

/-- The list is kept with its head and the words from the end of the image to `top`, in front of
which its headers are. -/
theorem FreeList.kept {K : KernelImage} {mc : Machine} {l : List Word} (h : FreeList K mc l)
    {top : Nat} (htop : 0x800000 ≤ top)
    (hplace : ∀ q ∈ l, K.imageEnd ≤ q.toNat ∧ q.toNat + 8 ≤ top ∧ q.toNat + 8 ≤ 2 ^ 32) {m : Mem}
    (hhead : m.read32 K.headPhys = mc.mem.read32 K.headPhys)
    (hword : ∀ a : Word, K.imageEnd ≤ a.toNat → a.toNat + 4 ≤ top →
      m.read32 a = mc.mem.read32 a) : FreeList K { mc with mem := m } l := by
  rcases K.imageEnd_bounds with ⟨-, -, hend⟩
  refine ⟨⟨h.paging.cr3, ?_, ?_⟩, ?_, h.header⟩
  · intro i hi
    refine (hword _ ?_ ?_).trans (h.paging.dir i hi)
    · unfold kernelDirectory
      bv_omega
    · unfold kernelDirectory
      bv_omega
  · have hpages := kernelPages_le K.kend_high
    intro i hi
    refine (hword _ ?_ ?_).trans (h.paging.table i hi)
    · unfold kernelTable
      bv_omega
    · unfold kernelTable
      bv_omega
  · refine h.list.congr hhead fun q hq => ?_
    rcases hplace q hq with ⟨hlo, hhi, hfits⟩
    have hnext : (q + rangeNext).toNat = q.toNat + 4 := by
      unfold rangeNext
      bv_omega
    exact hword _ (by omega) (by omega)

/-- The allocator is kept with its words: the head, and all behind the image. -/
theorem Tiled.kept {K : KernelImage} {good : Extent → Prop} (hgood : Divisible K good) {total : Nat}
    {s : PmmState} {l : List Word} (h : Tiled K good total s l) {m : Mem}
    (hhead : m.read32 K.headPhys = s.mc.mem.read32 K.headPhys)
    (hword : ∀ a : Word, K.imageEnd ≤ a.toNat → a.toNat + 4 ≤ 2 ^ 32 →
      m.read32 a = s.mc.mem.read32 a) : Tiled K good total ⟨{ s.mc with mem := m }, s.out⟩ l := by
  have hplace : ∀ q ∈ l, K.imageEnd ≤ q.toNat ∧ q.toNat + 8 ≤ 2 ^ 32 := by
    intro q hq
    have haligned := (h.free.header q hq).aligned
    have hlt := q.isLt
    have hin := hgood.place (h.good_free hq)
    rcases K.imageEnd_bounds with ⟨-, -, hend⟩
    unfold blockAt at hin
    dsimp only at hin
    omega
  refine ⟨h.free.kept (by decide) (fun q hq => ?_) hhead hword, ?_⟩
  · have hq' := hplace q hq
    exact ⟨hq'.1, hq'.2, hq'.2⟩
  · have hsame : ∀ q ∈ l, m.read32 q = s.mc.mem.read32 q := by
      intro q hq
      have hq' := hplace q hq
      exact hword q hq'.1 (by omega)
    dsimp only
    rw [map_blockAt_congr hsame]
    exact h.parcels

/-- A word of a range in which memories agree. -/
theorem read32_of_range {m m' : Mem} {lo hi : Nat}
    (h : ∀ x : Word, lo ≤ x.toNat → x.toNat < hi → m' x = m x) {a : Word} (ha : lo ≤ a.toNat)
    (hend : a.toNat + 4 ≤ hi) (hfits : a.toNat + 4 ≤ 2 ^ 32) : m'.read32 a = m.read32 a :=
  Mem.read32_congr (h _ ha (by omega)) (h _ (by bv_omega) (by bv_omega))
    (h _ (by bv_omega) (by bv_omega)) (h _ (by bv_omega) (by bv_omega))

/-- Words that `klog` does not store to. -/
theorem read32_offLog (K : KmainImage) {m m' : Mem} (h : ∀ x, OffLog K x → m' x = m x) {a : Word}
    (ha : K.pPmmFreeListHead.toNat ≤ a.toNat + 0xC0000000) (hfits : a.toNat + 4 ≤ 2 ^ 32) :
    m'.read32 a = m.read32 a :=
  read32_of_range (fun x hx _ => h x (offLog_of_place K (.inr (by omega)))) (Nat.le_refl _) hfits
    hfits

theorem KernelPaging.klogsStored (K : KmainImage) (logs : List KlogStores) {mc : Machine}
    (h : KernelPaging K.kend mc) :
    Stored (KernelPaging K.kend) (OffLog K) mc (klogsStored K mc logs) := by
  induction logs generalizing mc with
  | nil => exact ⟨mc, rfl, h, rfl, fun _ _ => rfl⟩
  | cons log logs ih =>
      exact ((KernelPaging.storable K).klogStored h log).bind fun _ h' => ih h'

/-- A call of `klog` leaves the allocator as it was. -/
theorem Tiled.klog (K : KmainImage) {good : Extent → Prop} (hgood : Divisible K.toKernelImage good)
    {total : Nat} {s : PmmState} {l : List Word} (h : Tiled K.toKernelImage good total s l)
    (log : KlogStores) :
    ∃ mc, klogStored K log s.mc = some mc ∧ Tiled K.toKernelImage good total ⟨mc, s.out⟩ l ∧
      ∀ a : Word, K.imageEnd ≤ a.toNat → a.toNat + 4 ≤ 2 ^ 32 →
        mc.mem.read32 a = s.mc.mem.read32 a := by
  have hhigh := K.head_high
  have hend : K.imageEnd = K.kend.toNat - 0xC0000000 := rfl
  have hheadnat := K.headPhys_toNat
  rcases (KernelPaging.storable K).klogStored h.free.paging log with
    ⟨mc, hmc, -, hcr3, hframe⟩
  have hword : ∀ a : Word, K.imageEnd ≤ a.toNat → a.toNat + 4 ≤ 2 ^ 32 →
      mc.mem.read32 a = s.mc.mem.read32 a := by
    intro a ha hfits
    exact read32_offLog K hframe (by omega) hfits
  have hsame : (⟨mc.mem, s.mc.cr3⟩ : Machine) = mc := by rw [← hcr3]
  refine ⟨mc, hmc, ?_, hword⟩
  rw [← hsame]
  exact h.kept hgood (read32_offLog K hframe (by omega) (by omega)) hword

/-- What `mm_init` leaves is what `pmm_init` leaves. -/
theorem mmInit_list {mc : Machine} (h : KernelPaging K.kend mc)
    (hhead : mc.mem.read32 K.headPhys = 0) {low high : Word}
    (hlow : mc.mem.read32 (K.lowMem - kernelVirtBase) = low) (hle : low.toNat < 0x101000)
    (hhigh : mc.mem.read32 (K.highMem - kernelVirtBase) = high)
    (hpool : mc.mem.read32 (K.vmem.pVmemFreeSegHead - kernelVirtBase) = 0)
    (hcount : mc.mem.read32 (K.vmem.iVmemFreeSegCount - kernelVirtBase) = 0)
    (logs : List KlogStores) (fr : MmFrames) {fuel : Nat} (hfuel : 256 < fuel) :
    ∃ mc', mmInit K logs fuel fr mc = some mc' ∧ Initialised K.toKernelImage high mc' := by
  have hstatics := K.head_statics
  have harena := K.statics_arena
  have hkend := K.arena_kend
  have hklo := K.kend_low
  have hkhi := K.kend_high
  have hheadlow := K.head_low
  have hhg := K.head_gdt
  have hgb := K.gdt_boot
  have hbhigh := K.boot_high
  have hheadnat := K.headPhys_toNat
  have hdef : K.imageEnd = K.kend.toNat - 0xC0000000 := rfl
  rcases lowMem_word (K := K.toKernelImage) with ⟨-, hlnat⟩
  rcases highMem_word (K := K.toKernelImage) with ⟨-, hhnat⟩
  rcases K.firstPage_bounds with ⟨hfirst, hfirst', -⟩
  rcases K.poolPhys with ⟨hpoolphys, hcountphys, -, -⟩
  rcases KernelPaging.klogsStored K.toKmainImage logs h with ⟨mc₀, hmc₀, h₀, -, hlogged⟩
  have hread := fun a => @read32_offLog K.toKmainImage _ _ hlogged a
  rw [← hread _ (by omega) (by omega)] at hhead hlow hhigh hpool hcount
  rcases pmmInit_list h₀ hhead hlow (Or.inl hle) hhigh fr.regs hfuel with
    ⟨mc₁, regs₁, hmc₁, hfree, hsize, hbelow, hkept⟩
  -- the variables of the virtual memory allocator are still zero
  have hpool₁ : (kernelView mc₁.mem).read32 K.vmem.pVmemFreeSegHead = 0 := by
    rw [kernelView_read32, hkept _ (by omega) (by omega), hpool]
  have hcount₁ : (kernelView mc₁.mem).read32 K.vmem.iVmemFreeSegCount = 0 := by
    rw [kernelView_read32, hkept _ (by omega) (by omega), hcount]
  rcases MmImage.arena_started hpool₁ hcount₁ fr.above fr.junk (show 201 ≤ fuel by omega) with
    ⟨m₁, eax, edx, m', hboot, halloc, hframe⟩
  have hword : ∀ a : Word, a.toNat + 0xC0000004 ≤ K.vmem.aVmemStaticSegs.toNat ∨
      K.imageEnd ≤ a.toNat → a.toNat + 4 ≤ 0x40000000 →
      Mem.read32 (fun x => m' (x + kernelVirtBase)) a = mc₁.mem.read32 a := by
    intro a hplace hfits
    have hat : (a + kernelVirtBase).toNat = a.toNat + 0xC0000000 := by
      unfold kernelVirtBase
      bv_omega
    have hback : a + kernelVirtBase - kernelVirtBase = a := by bv_omega
    have hbeside := hframe (a + kernelVirtBase) ⟨by omega, by omega⟩
    rw [kernelView_read32, hback] at hbeside
    rw [← hbeside, ← kernelView_image m', kernelView_read32, hback, kernelView_image]
  have h8M := toNat_8M
  have hblocks : ∀ q ∈ 0x800000 :: belowBlocks K.toKernelImage,
      K.imageEnd ≤ q.toNat ∧ q.toNat + 8 ≤ 0x40000000 := by
    intro q hq
    rcases List.mem_cons.mp hq with rfl | hq
    · omega
    · rcases mem_belowBlocks hq with ⟨hqnat, -⟩
      omega
  refine ⟨{ mc₁ with mem := fun x => m' (x + kernelVirtBase) }, ?_,
    hfree.kept (by decide) (fun q hq => ?_) (hword _ (Or.inl (by omega)) (by omega))
      fun a ha => hword a (Or.inr ha), ?_, ?_⟩
  · simp only [mmInit, hmc₀, hmc₁, Machine.inImage, hboot, halloc, kernelView_image,
      Option.map_some, Option.bind_eq_bind, Option.bind_some, Option.pure_def]
  · rcases hblocks q hq with ⟨hlo, hhi⟩
    exact ⟨hlo, hhi, by omega⟩
  · rw [hword _ (Or.inr (by omega)) (by omega), hsize]
  · intro q hq
    rcases hblocks q (List.mem_cons_of_mem _ hq) with ⟨hlo, hhi⟩
    rw [hword q (Or.inr hlo) (by omega)]
    exact hbelow q hq

/-- The kernel of 128 KiB with its variables. -/
def demoMm : MmImage where
  toKmainImage := demoKmain
  vmem := ⟨0xC0101100, by decide⟩
  szVmemKernelName := 0xC0101FF0
  stVmemKernel := 0xC0101900
  idt := { demoIdt with
    aInterruptGate := 0xC0103000
    aISRTable := 0xC0102100
    gates_high := by decide
    table_high := by decide
    apart := by decide }
  head_statics := by decide
  statics_arena := by decide
  arena_gdt := by decide
  gdt_gates := by decide
  gates_boot := by decide

end StupidOS.Kernel
