import StupidOS.Lib.StringOps
import StupidOS.Boot.BootInfo
import StupidOS.Kernel.KlogOutput
import StupidOS.Kernel.PmmMemory

/-!
# From the loader to the kernel's page tables (`kernel.asm`, `gdt.inc`)

`memory_get_map` fills the boot structure, `common32` enables paging and jumps to the kernel,
and `kmain` copies the boot structure into the kernel's image, sets up the task state segment,
changes to the kernel's page tables and starts the allocators; this is about `kmain` up to
`mm_bootstrap`. The routine that is to clear the task state segment copies what lies behind the
boot structure instead (`kmain_tss`). Of a call of `klog` there is what it stores: the digits of
the time, in the kernel's image, and words of the screen. The segments are flat.
-/

namespace StupidOS.Kernel

/-! ## Layout -/

/-- `BOOT_BOOTLOADER_MAGIC` -/
def bootBootloaderMagic : Word := 0x53545044

/-- `sizeof.BootInfo` -/
def sizeofBootInfo : Nat := 656

/-- `sizeof.TSS` -/
def sizeofTSS : Nat := 104

/-- `TSS.iomap` -/
def tssIomap : Word := 102

/-- `sizeof.Inode` -/
def sizeofInode : Nat := 70

/-- Where fasm put the data of the loader: `boot_structure`, with `inode_cache` behind it, in
front of the tables. All of it lies in the conventional memory. -/
structure LoaderImage extends LoaderLayout where
  bootStructure : Word
  boot_high : bootStructure.toNat + 726 ≤ bootPageDirectory.toNat
  conventional : bootPageDirectory.toNat + 0x3000 ≤ 0xA0000

def LoaderImage.inodeCache (L : LoaderImage) : Word := L.bootStructure + 656

/-- Where fasm put the data of the kernel that `kmain` uses, in this order: the time that `klog`
prints, the variables of the page allocator, the descriptor table with `pGDT` behind it, and the
boot structure with `kTSS` behind it. -/
structure KmainImage extends KernelImage where
  szTime : Word
  gdt : Word
  time_low : 0xC0100000 ≤ szTime.toNat
  time_head : szTime.toNat + 12 ≤ pPmmFreeListHead.toNat
  head_gdt : pPmmFreeListHead.toNat + 36 ≤ gdt.toNat
  gdt_boot : gdt.toNat + 54 ≤ stBootInfo.toNat
  tss_high : stBootInfo.toNat + 760 ≤ kend.toNat

namespace KmainImage

variable (K : KmainImage)

def kTSS : Word := K.stBootInfo + 656

/-- `gdt.tss` -/
def gdtTss : Word := K.gdt + 40

def pGDT : Word := K.gdt + 48

end KmainImage

/-! ## Bytes through the page tables -/

namespace Machine

variable (mc : Machine)

def load8 (v : Word) : Option Byte := (walk false mc.mem mc.cr3 v).map mc.mem

def store8 (v : Word) (b : Byte) : Option Machine :=
  (walk true mc.mem mc.cr3 v).map fun p => { mc with mem := mc.mem.write8 p b }

def load16 (v : Word) : Option Half := do
  let lo ← mc.load8 v
  let hi ← mc.load8 (v + 1)
  return hi ++ lo

def store16 (v : Word) (w : Half) : Option Machine := do
  let mc ← mc.store8 v (w.setWidth 8)
  mc.store8 (v + 1) ((w >>> 8).setWidth 8)

end Machine

/-- `rep movsb` through the page tables. -/
def repMovsbVirt (mc : Machine) (edi esi : Word) : Nat → Option Machine
  | 0 => some mc
  | ecx + 1 => do
    let b ← mc.load8 esi
    let mc ← mc.store8 edi b
    repMovsbVirt mc (edi + 1) (esi + 1) ecx

/-! ## Descriptors -/

/-- A segment descriptor. -/
structure Descriptor where
  limit : BitVec 20
  base : Word
  access : Byte
  flags : BitVec 4
deriving DecidableEq, Repr

/-- GDTR -/
structure TableRegister where
  limit : Half
  base : Word
deriving DecidableEq, Repr

/-- TR, with the part of the descriptor that the processor keeps. -/
structure TaskRegister where
  selector : Half
  base : Word
  limit : BitVec 20
deriving DecidableEq, Repr

def loadDescriptor (mc : Machine) (a : Word) : Option Descriptor := do
  let limit ← mc.load16 a
  let base ← mc.load16 (a + 2)
  let baseh0 ← mc.load8 (a + 4)
  let access ← mc.load8 (a + 5)
  let flags ← mc.load8 (a + 6)
  let baseh1 ← mc.load8 (a + 7)
  return ⟨flags.setWidth 4 ++ limit, baseh1 ++ baseh0 ++ base, access, flags.extractLsb' 4 4⟩

/-- `lgdt [v]` -/
def lgdt (mc : Machine) (v : Word) : Option TableRegister := do
  let limit ← mc.load16 v
  let lo ← mc.load16 (v + 2)
  let hi ← mc.load16 (v + 4)
  return ⟨limit, hi ++ lo⟩

/-- `ltr`. The selector is to lie in the table, and the descriptor is to be that of a task
state segment that is present and not busy; then it is marked busy. -/
def ltr (gdtr : TableRegister) (selector : Half) (mc : Machine) :
    Option (Machine × TaskRegister) := do
  let offset := selector &&& 0xFFF8
  if offset = 0 ∨ selector.getLsbD 2 = true ∨ gdtr.limit.toNat < offset.toNat + 7 then
    none
  else
    let a := gdtr.base + offset.setWidth 32
    let d ← loadDescriptor mc a
    if d.access &&& 0x97 ≠ 0x81 then
      none
    else
      let mc ← mc.store8 (a + 5) (d.access ||| 2)
      return (mc, ⟨selector, d.base, d.limit⟩)

/-- Whether code without I/O privilege may access a port: if the bytes of its bit in the I/O
map lie within the limit, and the bit is clear. -/
def portAllowed (mc : Machine) (tr : TaskRegister) (port : Half) : Option Bool := do
  if tr.limit.toNat < 103 then
    return false
  else
    let iomap ← mc.load16 (tr.base + tssIomap)
    if tr.limit.toNat < iomap.toNat + port.toNat / 8 + 1 then
      return false
    else
      let bits ← mc.load8 (tr.base + BitVec.ofNat 32 (iomap.toNat + port.toNat / 8))
      return !bits.getLsbD (port.toNat % 8)

/-! ## What `klog` stores -/

/-- What a call of `klog` without arguments stores besides its stack: what the clock says, and words
of the screen, each at an offset of 16 bits, as `cga_putc` has them. -/
structure KlogStores where
  clock : Logged.Clock
  screen : List (Half × Half)

/-- The two digits of `al`, at `a`. -/
def storeBcd (mc : Machine) (a : Word) (al : Byte) : Option Machine := do
  let mc ← mc.store8 a (((al >>> 4) &&& 0xF) + 0x30)
  mc.store8 (a + 1) ((al &&& 0xF) + 0x30)

/-- `mov [edx], ax` of `cga_putc`, and what its `rep movsw` and `rep stosw` store. -/
def storeScreen (mc : Machine) : List (Half × Half) → Option Machine
  | [] => some mc
  | (pos, ax) :: screen => do
    let mc ← mc.store16 (cgaMemory + pos.setWidth 32) ax
    storeScreen mc screen

variable (K : KmainImage)

/-- The stores of `klog`: `_klog_print_time` first, then the characters. -/
def klogStored (log : KlogStores) (mc : Machine) : Option Machine := do
  let mc ← storeBcd mc (K.szTime + 1) log.clock.hour
  let mc ← storeBcd mc (K.szTime + 4) log.clock.minute
  let mc ← storeBcd mc (K.szTime + 7) log.clock.second
  storeScreen mc log.screen

/-- The calls of `klog` with `szMsgKernelAlive`, `szMsgBuildDate` and `szMsgMmBootstrap`. -/
structure KmainLogs where
  alive : KlogStores
  buildDate : KlogStores
  mmBootstrap : KlogStores

/-! ## The routines -/

/-- `gdt_set_tss`. `eax` is the address of the segment. -/
def gdtSetTss (mc : Machine) (eax : Word) : Option Machine := do
  let ecx : Word := BitVec.ofNat 32 sizeofTSS
  let mc ← mc.store16 K.gdtTss (ecx.setWidth 16)
  let mc ← mc.store16 (K.gdtTss + 2) (eax.setWidth 16)
  let ecx := ecx >>> 16
  let eax := eax >>> 16
  let mc ← mc.store8 (K.gdtTss + 4) (eax.setWidth 8)
  let mc ← mc.store8 (K.gdtTss + 7) ((eax >>> 8).setWidth 8)
  let mc ← mc.store8 (K.gdtTss + 5) 0x89
  mc.store8 (K.gdtTss + 6) ((ecx.setWidth 8 &&& 0xF) ||| 0x40)

/-- `kmain` up to `tss_flush`. `ebx` is the address of the boot structure. -/
def kmainSetup (logs : KmainLogs) (mc : Machine) (ebx : Word) :
    Option (Machine × TableRegister × TaskRegister) := do
  -- copy boot structure
  let mc ← repMovsbVirt mc K.stBootInfo ebx sizeofBootInfo
  let esi := ebx + BitVec.ofNat 32 sizeofBootInfo
  -- print hello world
  let mc ← mc.store32 0xC00B8000 0x08740953
  let mc ← mc.store32 0xC00B8004 0x05700675
  let mc ← mc.store32 0xC00B8008 0x03640469
  let mc ← mc.store32 0xC00B800C 0x0153024F
  let mc ← klogStored K logs.alive mc
  let mc ← klogStored K logs.buildDate mc
  -- clear tss
  let mc ← repMovsbVirt mc K.kTSS esi sizeofTSS
  let mc ← mc.store16 (K.kTSS + tssIomap) 0xdfff
  let mc ← gdtSetTss K mc K.kTSS
  let gdtr ← lgdt mc K.pGDT
  let (mc, tr) ← ltr gdtr 0x2B mc
  return (mc, gdtr, tr)

/-- `mm_bootstrap`, with its call of `klog` -/
def kmainBootstrap (logs : KmainLogs) (fuel : Nat) (mc : Machine) : Option Machine := do
  let mc ← klogStored K logs.mmBootstrap mc
  mmBootstrap K.kend fuel mc

/-! ## Copies -/

/-- A forward copy to where the source is not. -/
theorem repMovsb_copied {m : Mem} {edi esi : Word} {n i : Nat} (hsep : Sep edi n esi n)
    (hi : i < n) :
    repMovsb m edi esi n (edi + BitVec.ofNat 32 i) = m (esi + BitVec.ofNat 32 i) := by
  induction n generalizing m edi esi i with
  | zero => exact absurd hi (Nat.not_lt_zero i)
  | succ n ih =>
      unfold Sep at hsep
      rw [repMovsb]
      cases i with
      | zero =>
          rw [repMovsb_frame (by bv_omega)]
          simp [Mem.write8]
      | succ j =>
          have hdst : edi + BitVec.ofNat 32 (j + 1) = edi + 1 + BitVec.ofNat 32 j := by bv_omega
          have hsrc : esi + BitVec.ofNat 32 (j + 1) = esi + 1 + BitVec.ofNat 32 j := by bv_omega
          rw [hdst, hsrc, ih (by unfold Sep; constructor <;> bv_omega) (by omega)]
          exact Mem.write8_frame _ _ (by bv_omega)

/-- The kernel's addresses are mapped for `n` bytes from `v` on. -/
def Mapped (mc : Machine) (v : Word) (n : Nat) : Prop :=
  ∀ k : Word, k.toNat < n →
    walk false mc.mem mc.cr3 (v + k) = some (v - kernelVirtBase + k)

namespace Mapped

variable {mc : Machine} {v : Word} {n : Nat} (h : Mapped mc v n)

include h

theorem load8 {k : Word} (hk : k.toNat < n) :
    mc.load8 (v + k) = some (mc.mem (v - kernelVirtBase + k)) := by
  rw [Machine.load8, h k hk, Option.map_some]

theorem load16 (hn : n ≤ 2 ^ 31) {k : Word} (hk : k.toNat + 2 ≤ n) :
    mc.load16 (v + k) = some (mc.mem.read16 (v - kernelVirtBase + k)) := by
  have hnext : k.toNat + 1 = (k + 1).toNat := by bv_omega
  rw [Machine.load16, h.load8 (by omega), BitVec.add_assoc, h.load8 (by omega),
    ← BitVec.add_assoc]
  rfl

theorem load16_first (hn : n ≤ 2 ^ 31) (hn' : 2 ≤ n) :
    mc.load16 v = some (mc.mem.read16 (v - kernelVirtBase)) := by
  have hv : v + 0 = v := by bv_omega
  have hp : v - kernelVirtBase + 0 = v - kernelVirtBase := by bv_omega
  have hload := h.load16 hn (k := 0) hn'
  rwa [hv, hp] at hload

end Mapped

/-! ## The address space of `kmain` -/

/-- The loader's tables, which also map the first 4 MiB to themselves. -/
structure KmainSpace (L : LoaderImage) (mc : Machine) : Prop where
  paging : LoaderPaging L.toLoaderLayout mc
  pde0 : mc.mem.read32 L.bootPageDirectory = L.boot0PageTable ||| 3

/-- The kernel's addresses from the end of the conventional memory on. -/
def Upper (v : Word) (n : Nat) : Prop := 0xC00A0000 ≤ v.toNat ∧ v.toNat + n ≤ 0xC0800000

/-- A physical address that `klog` does not store to: not on the screen, nor a digit of the time. -/
structure OffLog (K : KmainImage) (x : Word) : Prop where
  screen : x.toNat < 0xB8000 ∨ 0xC8001 ≤ x.toNat
  time : (x - (K.szTime - kernelVirtBase)).toNat ∉ [1, 2, 4, 5, 7, 8]

/-- Neither the conventional memory nor what lies behind the time is stored to by `klog`. -/
theorem offLog_of_place (K : KmainImage) {x : Word} (hx : x.toNat < 0xB8000 ∨
    K.pPmmFreeListHead.toNat ≤ x.toNat + 0xC0000000) : OffLog K x := by
  have hlow := K.time_low
  have hhead := K.time_head
  have hhigh := K.head_high
  have hend := K.kend_high
  have hdigit : ∀ i ∈ [1, 2, 4, 5, 7, 8], i ≤ 8 := by decide
  refine ⟨by omega, fun hmem => ?_⟩
  have hle := hdigit _ hmem
  unfold kernelVirtBase at hle
  bv_omega

namespace KmainSpace

variable {L : LoaderImage} {mc : Machine} (h : KmainSpace L mc)

/-- Stores outside the loader's tables. -/
theorem keep {mc' : Machine} (h : KmainSpace L mc) (hcr3 : mc'.cr3 = mc.cr3)
    (hmem : ∀ x : Word, x.toNat < 0xA0000 → mc'.mem x = mc.mem x) : KmainSpace L mc' := by
  have hlow := L.conventional
  have h0 := boot0PageTable_toNat L.toLoaderLayout
  have h1 := bootKernelPagingTable_toNat L.toLoaderLayout
  refine ⟨⟨hcr3.trans h.paging.cr3, ?_, ?_, ?_, ?_⟩, ?_⟩
  · rw [← h.paging.pde768]
    exact Mem.read32_congr (hmem _ (by bv_omega)) (hmem _ (by bv_omega)) (hmem _ (by bv_omega))
      (hmem _ (by bv_omega))
  · rw [← h.paging.pde769]
    exact Mem.read32_congr (hmem _ (by bv_omega)) (hmem _ (by bv_omega)) (hmem _ (by bv_omega))
      (hmem _ (by bv_omega))
  · exact h.paging.table0.congr (Nat.le_refl 1024) (fun x hx => hmem x (by bv_omega))
  · exact h.paging.table1.congr (Nat.le_refl 1024) (fun x hx => hmem x (by bv_omega))
  · rw [← h.pde0]
    exact Mem.read32_congr (hmem _ (by bv_omega)) (hmem _ (by bv_omega)) (hmem _ (by bv_omega))
      (hmem _ (by bv_omega))

include h in
theorem walk_low (store : Bool) {v : Word} (hv : v.toNat < 0x400000) :
    walk store mc.mem mc.cr3 v = some v := by
  have hal := L.aligned
  have h0 := boot0PageTable_toNat L.toLoaderLayout
  have hpde : pdeIndex v = 0 := by
    apply BitVec.eq_of_toNat_eq
    rw [pdeIndex_toNat]
    exact Nat.div_eq_of_lt (by omega)
  have hread : mc.mem.read32 (L.bootPageDirectory + 4 * pdeIndex v) = L.boot0PageTable ||| 3 := by
    have hslot : L.bootPageDirectory + 4 * 0 = L.bootPageDirectory := by bv_omega
    rw [hpde, hslot]
    exact h.pde0
  rw [h.paging.cr3, (h.paging.table0.walk (by decide) (by omega) hal hread (by omega) store).2,
    Option.some.injEq]
  bv_omega

include h in
theorem walk_upper (store : Bool) {v : Word} (hv : Upper v 1) :
    walk store mc.mem mc.cr3 v = some (v - kernelVirtBase) := by
  unfold Upper at hv
  exact h.paging.walk L.toLoaderLayout store (by omega) (by omega)

include h in
theorem mapped {v : Word} {n : Nat} (hv : Upper v n) : Mapped mc v n := by
  intro k hk
  unfold Upper at hv
  have hat : v + k - kernelVirtBase = v - kernelVirtBase + k := by bv_omega
  rw [h.walk_upper false (by unfold Upper; bv_omega), hat]

include h in
theorem load8_low {v : Word} (hv : v.toNat < 0x400000) : mc.load8 v = some (mc.mem v) := by
  rw [Machine.load8, h.walk_low false hv, Option.map_some]

include h in
theorem store8 {v : Word} (hv : Upper v 1) (b : Byte) :
    mc.store8 v b = some { mc with mem := mc.mem.write8 (v - kernelVirtBase) b } ∧
      KmainSpace L { mc with mem := mc.mem.write8 (v - kernelVirtBase) b } := by
  constructor
  · rw [Machine.store8, h.walk_upper true hv, Option.map_some]
  · unfold Upper at hv
    refine h.keep rfl fun x hx => Mem.write8_frame _ _ ?_
    unfold kernelVirtBase
    bv_omega

include h in
theorem store16 {v : Word} (hv : Upper v 2) (w : Half) :
    mc.store16 v w = some { mc with mem := mc.mem.write16 (v - kernelVirtBase) w } ∧
      KmainSpace L { mc with mem := mc.mem.write16 (v - kernelVirtBase) w } := by
  unfold Upper at hv
  have hnext : v + 1 - kernelVirtBase = v - kernelVirtBase + 1 := by bv_omega
  rcases h.store8 (v := v) (by unfold Upper; omega) (w.setWidth 8) with ⟨hfirst, h₁⟩
  rcases h₁.store8 (v := v + 1) (by unfold Upper; bv_omega) ((w >>> 8).setWidth 8) with
    ⟨hsecond, h₂⟩
  rw [hnext, Mem.write8_write8] at hsecond h₂
  refine ⟨?_, h₂⟩
  rw [Machine.store16, hfirst]
  exact hsecond

include h in
theorem store32 {v : Word} (hv : Upper v 4) (w : Word) :
    mc.store32 v w = some { mc with mem := mc.mem.write32 (v - kernelVirtBase) w } ∧
      KmainSpace L { mc with mem := mc.mem.write32 (v - kernelVirtBase) w } := by
  unfold Upper at hv
  constructor
  · rw [Machine.store32, h.walk_upper true (by unfold Upper; omega), Option.map_some]
  · refine h.keep rfl fun x hx => Mem.write32_frame _ _ ?_
    unfold kernelVirtBase
    bv_omega

/-- From the first 4 MiB into the kernel. -/
theorem repMovsbVirt {mc : Machine} (h : KmainSpace L mc) (edi esi : Word) {n : Nat}
    (hsrc : esi.toNat + n ≤ 0x400000) (hdst : Upper edi n) :
    Kernel.repMovsbVirt mc edi esi n
        = some { mc with mem := repMovsb mc.mem (edi - kernelVirtBase) esi n } ∧
      KmainSpace L { mc with mem := repMovsb mc.mem (edi - kernelVirtBase) esi n } := by
  induction n generalizing mc edi esi with
  | zero => exact ⟨rfl, h⟩
  | succ n ih =>
      unfold Upper at hdst
      have hnext : edi + 1 - kernelVirtBase = edi - kernelVirtBase + 1 := by bv_omega
      rcases h.store8 (v := edi) (by unfold Upper; omega) (mc.mem esi) with ⟨hstore, h₁⟩
      rcases ih h₁ (edi + 1) (esi + 1) (by bv_omega)
        (by unfold Upper; constructor <;> bv_omega) with ⟨hrest, h₂⟩
      rw [hnext] at hrest h₂
      refine ⟨?_, h₂⟩
      rw [Kernel.repMovsbVirt, h.load8_low (by omega)]
      dsimp only [Option.bind_eq_bind, Option.bind_some]
      rw [hstore]
      exact hrest

end KmainSpace

/-! ### The stores of `klog` -/

/-- Single stores to the kernel's addresses, between the end of the conventional memory and `kend`,
succeed and leave `P` true. -/
def Storable (K : KmainImage) (P : Machine → Prop) : Prop :=
  ∀ mc, P mc → ∀ v : Word, 0xC00A0000 ≤ v.toNat → v.toNat < K.kend.toNat → ∀ b,
    mc.store8 v b = some { mc with mem := mc.mem.write8 (v - kernelVirtBase) b } ∧
      P { mc with mem := mc.mem.write8 (v - kernelVirtBase) b }

theorem KmainSpace.storable (K : KmainImage) (L : LoaderImage) : Storable K (KmainSpace L) := by
  have hend := K.kend_high
  intro mc h v hlo hhi b
  exact h.store8 (by unfold Upper; omega) b

theorem KernelPaging.storable (K : KmainImage) : Storable K (KernelPaging K.kend) := by
  have hend := K.kend_high
  intro mc h v hlo hhi b
  have hwalk := h.walk_kernel hend true (by omega) hhi
  refine ⟨by rw [Machine.store8, hwalk, Option.map_some], h.cr3, ?_, ?_⟩
  · refine h.dir.congr (Nat.le_refl 1024) fun x hx => Mem.write8_frame _ _ ?_
    unfold kernelDirectory at hx
    unfold kernelVirtBase
    bv_omega
  · have hpages := kernelPages_le hend
    refine h.table.congr hpages fun x hx => Mem.write8_frame _ _ ?_
    unfold kernelTable at hx
    unfold kernelVirtBase
    bv_omega

/-- Stores off which nothing has changed. -/
def Stored (P : Machine → Prop) (Off : Word → Prop) (mc : Machine) (r : Option Machine) : Prop :=
  ∃ mc', r = some mc' ∧ P mc' ∧ mc'.cr3 = mc.cr3 ∧ ∀ x, Off x → mc'.mem x = mc.mem x

section Stores

variable {K : KmainImage} {P : Machine → Prop} {mc : Machine} (hP : Storable K P)

theorem Stored.bind {Off : Word → Prop} {r : Option Machine} (h : Stored P Off mc r)
    {f : Machine → Option Machine} (hf : ∀ mc', P mc' → Stored P Off mc' (f mc')) :
    Stored P Off mc (r.bind f) := by
  rcases h with ⟨mc', rfl, hspace, hcr3, hframe⟩
  rcases hf mc' hspace with ⟨mc'', hr, hspace', hcr3', hframe'⟩
  exact ⟨mc'', hr, hspace', hcr3'.trans hcr3, fun x hx => (hframe' x hx).trans (hframe x hx)⟩

include hP

/-- A store where `Off` does not hold. -/
theorem Storable.one (h : P mc) {Off : Word → Prop} {v : Word} (hlo : 0xC00A0000 ≤ v.toNat)
    (hhi : v.toNat < K.kend.toNat) (hoff : ¬ Off (v - kernelVirtBase)) (b : Byte) :
    Stored P Off mc (mc.store8 v b) := by
  rcases hP mc h v hlo hhi b with ⟨hstore, hspace⟩
  refine ⟨_, hstore, hspace, rfl, ?_⟩
  intro x hx
  refine Mem.write8_frame _ _ ?_
  rintro rfl
  exact hoff hx

/-- A digit of the time. -/
theorem Storable.digit (h : P mc) {i : Nat} (hi : i ∈ [1, 2, 4, 5, 7, 8]) (al : Byte) :
    Stored P (OffLog K) mc (mc.store8 (K.szTime + BitVec.ofNat 32 i) al) := by
  have hlow := K.time_low
  have hhead := K.time_head
  have hhigh := K.head_high
  have hend := K.kend_high
  have hlt : i ≤ 8 := by
    simp only [List.mem_cons, List.not_mem_nil, or_false] at hi
    omega
  refine hP.one h (by bv_omega) (by bv_omega) (fun hx => hx.time ?_) al
  have hat : (K.szTime + BitVec.ofNat 32 i - kernelVirtBase - (K.szTime - kernelVirtBase)).toNat
      = i := by
    bv_omega
  rwa [hat]

theorem Storable.bcd (h : P mc) {i : Nat} (hi : i ∈ [1, 2, 4, 5, 7, 8])
    (hnext : i + 1 ∈ [1, 2, 4, 5, 7, 8]) (al : Byte) :
    Stored P (OffLog K) mc (storeBcd mc (K.szTime + BitVec.ofNat 32 i) al) := by
  have hat : K.szTime + BitVec.ofNat 32 i + 1 = K.szTime + BitVec.ofNat 32 (i + 1) := by
    rw [BitVec.add_assoc, BitVec.ofNat_add]
    rfl
  rw [storeBcd, hat]
  exact (hP.digit h hi _).bind fun _ h' => hP.digit h' hnext _

theorem Storable.screen (screen : List (Half × Half)) {mc : Machine} (h : P mc) :
    Stored P (OffLog K) mc (storeScreen mc screen) := by
  have hlow := K.kend_low
  have hend := K.kend_high
  induction screen generalizing mc with
  | nil => exact ⟨mc, rfl, h, rfl, fun _ _ => rfl⟩
  | cons store screen ih =>
      rcases store with ⟨pos, ax⟩
      have hpos := pos.isLt
      have hwide : (pos.setWidth 32).toNat = pos.toNat := BitVec.toNat_setWidth_of_le (by decide)
      -- both bytes are on the screen
      have hbyte : ∀ (mc : Machine) (k : Word) (b : Byte), P mc → k.toNat < 2 →
          Stored P (OffLog K) mc (mc.store8 (cgaMemory + pos.setWidth 32 + k) b) := by
        intro mc k b h hk
        refine hP.one h (by unfold cgaMemory; bv_omega) (by unfold cgaMemory; bv_omega) ?_ b
        intro hx
        have hscreen := hx.screen
        unfold cgaMemory kernelVirtBase at hscreen
        bv_omega
      have hzero : cgaMemory + pos.setWidth 32 + 0 = cgaMemory + pos.setWidth 32 := by bv_omega
      have hfirst := hbyte mc 0 (ax.setWidth 8) h (by decide)
      rw [hzero] at hfirst
      rw [storeScreen, Machine.store16]
      exact (hfirst.bind fun mc' h' => hbyte mc' 1 _ h' (by decide)).bind fun _ h' => ih h'

/-- A call of `klog`. -/
theorem Storable.klogStored (h : P mc) (log : KlogStores) :
    Stored P (OffLog K) mc (klogStored K log mc) := by
  refine (hP.bcd h (i := 1) (by decide) (by decide) _).bind fun _ h₁ => ?_
  refine (hP.bcd h₁ (i := 4) (by decide) (by decide) _).bind fun _ h₂ => ?_
  refine (hP.bcd h₂ (i := 7) (by decide) (by decide) _).bind fun _ h₃ => ?_
  exact hP.screen log.screen h₃

end Stores

/-! ## The task state segment -/

/-- The descriptor at a physical address. -/
def descriptorAt (m : Mem) (a : Word) : Descriptor :=
  ⟨(m (a + 6)).setWidth 4 ++ m.read16 a, m (a + 7) ++ m (a + 4) ++ m.read16 (a + 2), m (a + 5),
    (m (a + 6)).extractLsb' 4 4⟩

theorem descriptorAt_congr {m m' : Mem} {a : Word}
    (h : ∀ k : Word, k.toNat < 8 → m' (a + k) = m (a + k)) :
    descriptorAt m' a = descriptorAt m a := by
  have h0 := h 0 (by decide)
  have ha : a + 0 = a := by bv_omega
  have h3 : a + 2 + 1 = a + 3 := by bv_omega
  rw [ha] at h0
  simp only [descriptorAt, Mem.read16, h3, h0, h 1 (by decide), h 2 (by decide),
    h 3 (by decide), h 4 (by decide), h 5 (by decide), h 6 (by decide), h 7 (by decide)]

/-- The stores of `gdt_set_tss`. -/
def writeTss (m : Mem) (a eax : Word) : Mem :=
  let m := m.write16 a 104
  let m := m.write16 (a + 2) (eax.setWidth 16)
  let m := m.write8 (a + 4) ((eax >>> 16).setWidth 8)
  let m := m.write8 (a + 7) ((eax >>> 24).setWidth 8)
  let m := m.write8 (a + 5) 0x89
  m.write8 (a + 6) 0x40

theorem writeTss_words (m : Mem) {a x : Word} (eax : Word)
    (hx : (x - a).toNat < 4 ∨ 8 ≤ (x - a).toNat) :
    writeTss m a eax x = ((m.write16 a 104).write16 (a + 2) (eax.setWidth 16)) x := by
  unfold writeTss
  rw [Mem.write8_frame _ _ (by bv_omega), Mem.write8_frame _ _ (by bv_omega),
    Mem.write8_frame _ _ (by bv_omega), Mem.write8_frame _ _ (by bv_omega)]

theorem writeTss_frame (m : Mem) {a x : Word} (eax : Word) (hx : 8 ≤ (x - a).toNat) :
    writeTss m a eax x = m x := by
  rw [writeTss_words m eax (.inr hx), Mem.write16_frame _ _ (by bv_omega),
    Mem.write16_frame _ _ (by omega)]

theorem append_eax (eax : Word) : (eax >>> 24).setWidth 8 ++ (eax >>> 16).setWidth 8
    ++ eax.setWidth 16 = eax := by
  ext i hi
  simp only [BitVec.getElem_append, BitVec.getElem_setWidth, BitVec.getLsbD_ushiftRight]
  rw [← BitVec.getLsbD_eq_getElem]
  split
  · rfl
  · split
    · congr 1
      omega
    · congr 1
      omega

/-- What `gdt_set_tss` makes of the descriptor: a task state segment that is present. -/
theorem descriptorAt_writeTss (m : Mem) (a eax : Word) :
    descriptorAt (writeTss m a eax) a = ⟨104, eax, 0x89, 4⟩ := by
  have hlimit : (writeTss m a eax).read16 a = 104 := by
    rw [Mem.read16, writeTss_words m eax (by bv_omega), writeTss_words m eax (by bv_omega),
      ← Mem.read16, Mem.read16_write16_of_sep _ _ (by unfold Sep; constructor <;> bv_omega),
      Mem.read16_write16]
  have hbase : (writeTss m a eax).read16 (a + 2) = eax.setWidth 16 := by
    rw [Mem.read16, writeTss_words m eax (by bv_omega), writeTss_words m eax (by bv_omega),
      ← Mem.read16, Mem.read16_write16]
  have h4 : writeTss m a eax (a + 4) = (eax >>> 16).setWidth 8 := by
    simp [writeTss, Mem.write8]
  have h5 : writeTss m a eax (a + 5) = 0x89 := by
    simp [writeTss, Mem.write8]
  have h6 : writeTss m a eax (a + 6) = 0x40 := by
    simp [writeTss, Mem.write8]
  have h7 : writeTss m a eax (a + 7) = (eax >>> 24).setWidth 8 := by
    simp [writeTss, Mem.write8]
  unfold descriptorAt
  rw [hlimit, hbase, h4, h5, h6, h7, append_eax]
  rfl

theorem Mapped.loadDescriptor {mc : Machine} {v : Word} (h : Mapped mc v 8) :
    Kernel.loadDescriptor mc v = some (descriptorAt mc.mem (v - kernelVirtBase)) := by
  rw [Kernel.loadDescriptor, h.load16_first (by decide) (by decide),
    h.load16 (by decide) (by decide), h.load8 (by decide), h.load8 (by decide),
    h.load8 (by decide), h.load8 (by decide)]
  rfl

theorem Mapped.lgdt {mc : Machine} {v : Word} (h : Mapped mc v 6) :
    Kernel.lgdt mc v = some ⟨mc.mem.read16 (v - kernelVirtBase),
      mc.mem.read32 (v - kernelVirtBase + 2)⟩ := by
  have hat : v - kernelVirtBase + 4 = v - kernelVirtBase + 2 + 2 := by bv_omega
  rw [Kernel.lgdt, h.load16_first (by decide) (by decide), h.load16 (by decide) (by decide),
    h.load16 (by decide) (by decide), hat]
  dsimp only [Option.bind_eq_bind, Option.bind_some, Option.pure_def]
  rw [Mem.append_read16]

section Tss

variable (K : KmainImage) {L : LoaderImage} {mc : Machine}

/-- The descriptor and `pGDT` lie in the kernel's image. -/
theorem KmainImage.gdt_toNat : K.gdtTss.toNat = K.gdt.toNat + 40 ∧
    K.pGDT.toNat = K.gdt.toNat + 48 ∧ K.kTSS.toNat = K.stBootInfo.toNat + 656 := by
  have hend := K.kend_high
  have hgdt := K.gdt_boot
  have htss := K.tss_high
  unfold gdtTss pGDT kTSS
  refine ⟨?_, ?_, ?_⟩ <;> bv_omega

theorem gdtSetTss_eq (h : KmainSpace L mc) (eax : Word) :
    gdtSetTss K mc eax
        = some { mc with mem := writeTss mc.mem (K.gdtTss - kernelVirtBase) eax } ∧
      KmainSpace L { mc with mem := writeTss mc.mem (K.gdtTss - kernelVirtBase) eax } := by
  have hend := K.kend_high
  have hgdt := K.gdt_boot
  have htss := K.tss_high
  have hhead := K.head_low
  have hlow := K.head_gdt
  rcases K.gdt_toNat with ⟨hnat, -, -⟩
  have hat : ∀ k : Word, K.gdtTss + k - kernelVirtBase = K.gdtTss - kernelVirtBase + k := by
    intro k
    bv_omega
  have hin : ∀ k : Word, k.toNat < 8 → Upper (K.gdtTss + k) 1 := by
    intro k hk
    unfold Upper
    bv_omega
  have hsecond : Upper (K.gdtTss + 2) 2 := by
    unfold Upper
    bv_omega
  rcases h.store16 (v := K.gdtTss) (by unfold Upper; omega) 104 with ⟨hst₁, h₁⟩
  rcases h₁.store16 hsecond (eax.setWidth 16) with ⟨hst₂, h₂⟩
  rcases h₂.store8 (hin 4 (by decide)) ((eax >>> 16).setWidth 8) with ⟨hst₃, h₃⟩
  rcases h₃.store8 (hin 7 (by decide)) ((eax >>> 24).setWidth 8) with ⟨hst₄, h₄⟩
  rcases h₄.store8 (hin 5 (by decide)) 0x89 with ⟨hst₅, h₅⟩
  rcases h₅.store8 (hin 6 (by decide)) 0x40 with ⟨hst₆, h₆⟩
  have hbyte : eax >>> 16 >>> 8 = eax >>> 24 := (BitVec.shiftRight_add eax 16 8).symm
  have hlimit : (BitVec.ofNat 32 sizeofTSS).setWidth 16 = (104 : Half) := rfl
  have hflags : ((BitVec.ofNat 32 sizeofTSS >>> 16).setWidth 8 &&& 0xF) ||| 0x40 = (0x40 : Byte) :=
    rfl
  simp only [hat] at hst₂ hst₃ hst₄ hst₅ hst₆ h₆
  refine ⟨?_, h₆⟩
  simp only [gdtSetTss, Option.bind_eq_bind, hlimit, hflags, hbyte, hst₁, hst₂, hst₃, hst₄, hst₅,
    hst₆, Option.bind_some]
  rfl

/-- `tss_flush` loads the descriptor and marks it busy. -/
theorem ltr_eq (h : KmainSpace L mc) {base : Word}
    (hd : descriptorAt mc.mem (K.gdtTss - kernelVirtBase) = ⟨104, base, 0x89, 4⟩) :
    ltr ⟨47, K.gdt⟩ 0x2B mc = some ({ mc with
        mem := mc.mem.write8 (K.gdtTss - kernelVirtBase + 5) 0x8B }, ⟨0x2B, base, 104⟩) ∧
      KmainSpace L { mc with mem := mc.mem.write8 (K.gdtTss - kernelVirtBase + 5) 0x8B } := by
  have hend := K.kend_high
  have hgdt := K.gdt_boot
  have htss := K.tss_high
  have hhead := K.head_low
  have hlow := K.head_gdt
  rcases K.gdt_toNat with ⟨hnat, -, -⟩
  have hat : K.gdtTss + 5 - kernelVirtBase = K.gdtTss - kernelVirtBase + 5 := by bv_omega
  rcases h.store8 (v := K.gdtTss + 5) (by unfold Upper; bv_omega) 0x8B with ⟨hstore, hspace⟩
  rw [hat] at hstore hspace
  refine ⟨?_, hspace⟩
  have haddr : K.gdt + (40 : Half).setWidth 32 = K.gdtTss := rfl
  have hoffset : (0x2B : Half) &&& 0xFFF8 = 40 := rfl
  have hload := (h.mapped (v := K.gdtTss) (n := 8) (by unfold Upper; omega)).loadDescriptor
  rw [hd] at hload
  have hguard : ¬ ((40 : Half) = 0 ∨ (0x2B : Half).getLsbD 2 = true ∨
      (47 : Half).toNat < (40 : Half).toNat + 7) := by decide
  have htype : ¬ (0x89 : Byte) &&& 0x97 ≠ 0x81 := by decide
  have hbusy : (0x89 : Byte) ||| 2 = 0x8B := rfl
  unfold ltr
  simp only [hoffset, hguard, if_false, haddr, hload, Option.bind_eq_bind, Option.bind_some, htype,
    hbusy, hstore]
  rfl

end Tss

/-! ## The state in which `mm_bootstrap` is called -/

/-- The stores of the greeting. -/
def writeHello (m : Mem) : Mem :=
  (((m.write32 0xB8000 0x08740953).write32 0xB8004 0x05700675).write32 0xB8008 0x03640469).write32
    0xB800C 0x0153024F

theorem writeHello_frame (m : Mem) {x : Word} (hx : 16 ≤ (x - 0xB8000).toNat) :
    writeHello m x = m x := by
  unfold writeHello
  rw [Mem.write32_frame _ _ (by bv_omega), Mem.write32_frame _ _ (by bv_omega),
    Mem.write32_frame _ _ (by bv_omega), Mem.write32_frame _ _ (by bv_omega)]

theorem KmainSpace.hello {L : LoaderImage} {mc : Machine} (h : KmainSpace L mc) :
    KmainSpace L { mc with mem := writeHello mc.mem } ∧
      ∀ f : Machine → Option (Machine × TableRegister × TaskRegister),
        ((mc.store32 0xC00B8000 0x08740953).bind fun mc =>
          (mc.store32 0xC00B8004 0x05700675).bind fun mc =>
          (mc.store32 0xC00B8008 0x03640469).bind fun mc =>
          (mc.store32 0xC00B800C 0x0153024F).bind f) = f { mc with mem := writeHello mc.mem } := by
  have hat : ∀ v : Word, v.toNat < 0x10000 → Upper (0xC00B8000 + v) 4 := by
    intro v hv
    unfold Upper
    bv_omega
  rcases h.store32 (hat 0 (by decide)) 0x08740953 with ⟨hst₁, h₁⟩
  rcases h₁.store32 (hat 4 (by decide)) 0x05700675 with ⟨hst₂, h₂⟩
  rcases h₂.store32 (hat 8 (by decide)) 0x03640469 with ⟨hst₃, h₃⟩
  rcases h₃.store32 (hat 12 (by decide)) 0x0153024F with ⟨hst₄, h₄⟩
  refine ⟨h₄, fun f => ?_⟩
  change (mc.store32 (0xC00B8000 + 0) _).bind _ = _
  rw [hst₁, Option.bind_some]
  change (Machine.store32 _ (0xC00B8000 + 4) _).bind _ = _
  rw [hst₂, Option.bind_some]
  change (Machine.store32 _ (0xC00B8000 + 8) _).bind _ = _
  rw [hst₃, Option.bind_some]
  change (Machine.store32 _ (0xC00B8000 + 12) _).bind _ = _
  rw [hst₄]
  rfl

theorem descriptorAt_access (m : Mem) (a : Word) (b : Byte) :
    descriptorAt (m.write8 (a + 5) b) a = { descriptorAt m a with access := b } := by
  have hkept : ∀ k : Word, k ≠ 5 → m.write8 (a + 5) b (a + k) = m (a + k) := by
    intro k hk
    exact Mem.write8_frame m b (by bv_omega)
  have h0 : m.write8 (a + 5) b a = m a := Mem.write8_frame m b (by bv_omega)
  have h3 : a + 2 + 1 = a + 3 := by bv_omega
  simp only [descriptorAt, Mem.read16, h3, h0, hkept 1 (by decide), hkept 2 (by decide),
    hkept 3 (by decide), hkept 4 (by decide), hkept 6 (by decide), hkept 7 (by decide)]
  simp [Mem.write8]

/-- The stores of `kmainSetup` before it calls `klog`, for a boot structure at `a`. -/
def greetMem (K : KmainImage) (a : Word) (m : Mem) : Mem :=
  writeHello (repMovsb m (K.stBootInfo - kernelVirtBase) a 656)

/-- Its stores after that. -/
def segmentMem (K : KmainImage) (a : Word) (m : Mem) : Mem :=
  let m := repMovsb m (K.kTSS - kernelVirtBase) (a + 656) 104
  let m := m.write16 (K.kTSS - kernelVirtBase + 102) 0xdfff
  let m := writeTss m (K.gdtTss - kernelVirtBase) K.kTSS
  m.write8 (K.gdtTss - kernelVirtBase + 5) 0x8B

/-- What `kmain` has made of memory `m` by the time it calls `mm_bootstrap`. -/
structure KmainReady (K : KmainImage) (a : Word) (m m' : Mem) : Prop where
  info : ∀ i, i < 656 → m' (K.stBootInfo - kernelVirtBase + BitVec.ofNat 32 i)
    = m (a + BitVec.ofNat 32 i)
  /-- The segment is a copy of what is behind the boot structure, up to the I/O map base. -/
  tss : ∀ i, i < 102 → m' (K.kTSS - kernelVirtBase + BitVec.ofNat 32 i)
    = m (a + 656 + BitVec.ofNat 32 i)
  iomap : m'.read16 (K.kTSS - kernelVirtBase + 102) = 0xdfff
  descriptor : descriptorAt m' (K.gdtTss - kernelVirtBase) = ⟨104, K.kTSS, 0x8B, 4⟩
  others : ∀ x : Word, OffLog K x →
    760 ≤ (x - (K.stBootInfo - kernelVirtBase)).toNat →
    8 ≤ (x - (K.gdtTss - kernelVirtBase)).toNat → m' x = m x

/-- The physical addresses of the boot structure, the segment and its descriptor. -/
theorem KmainImage.phys (K : KmainImage) :
    0x100000 ≤ (K.gdtTss - kernelVirtBase).toNat ∧
    (K.gdtTss - kernelVirtBase).toNat + 14 ≤ (K.stBootInfo - kernelVirtBase).toNat ∧
    K.kTSS - kernelVirtBase = K.stBootInfo - kernelVirtBase + 656 ∧
    (K.stBootInfo - kernelVirtBase).toNat + 760 ≤ 0x400000 := by
  have hend := K.kend_high
  have hgdt := K.gdt_boot
  have htss := K.tss_high
  have hhead := K.head_low
  have hlow := K.head_gdt
  rcases K.gdt_toNat with ⟨hgnat, -, -⟩
  unfold kernelVirtBase kTSS
  refine ⟨?_, ?_, ?_, ?_⟩ <;> bv_omega

theorem segmentMem_ready (K : KmainImage) {a : Word} (ha : a.toNat + 760 ≤ 0xB8000) {m m₂ : Mem}
    (hlogged : ∀ x, OffLog K x → m₂ x = greetMem K a m x) :
    KmainReady K a m (segmentMem K a m₂) := by
  have hhead := K.head_gdt
  have hgdt := K.gdt_boot
  have hend := K.kend_high
  have htss := K.tss_high
  have hlow := K.head_low
  have hsnat : (K.stBootInfo - kernelVirtBase).toNat = K.stBootInfo.toNat - 0xC0000000 := by
    unfold kernelVirtBase
    bv_omega
  rcases K.phys with ⟨hg, hgb, ht, hb⟩
  -- each of the stores on its own
  obtain ⟨b, hbdef⟩ : ∃ b, b = K.stBootInfo - kernelVirtBase := ⟨_, rfl⟩
  obtain ⟨g, hgdef⟩ : ∃ g, g = K.gdtTss - kernelVirtBase := ⟨_, rfl⟩
  obtain ⟨m₁, hm₁⟩ : ∃ m₁, m₁ = repMovsb m b a 656 := ⟨_, rfl⟩
  obtain ⟨m₃, hm₃⟩ : ∃ m₃, m₃ = repMovsb m₂ (b + 656) (a + 656) 104 := ⟨_, rfl⟩
  obtain ⟨m₄, hm₄⟩ : ∃ m₄, m₄ = m₃.write16 (b + 656 + 102) 0xdfff := ⟨_, rfl⟩
  obtain ⟨m₅, hm₅⟩ : ∃ m₅, m₅ = (writeTss m₄ g K.kTSS).write8 (g + 5) 0x8B := ⟨_, rfl⟩
  have hmem : segmentMem K a m₂ = m₅ := by
    rw [hm₅, hm₄, hm₃, hgdef, hbdef, ← ht]
    rfl
  rw [← hbdef] at hgb ht hb hsnat
  rw [← hgdef] at hg hgb
  have hframe₁ : ∀ x : Word, 656 ≤ (x - b).toNat → m₁ x = m x := by
    intro x hx
    rw [hm₁, repMovsb_frame hx]
  have hframe₂ : ∀ x : Word, OffLog K x → m₂ x = m₁ x := by
    intro x hx
    have hscreen := hx.screen
    rw [hlogged x hx, greetMem, writeHello_frame _ (by bv_omega), hm₁, hbdef]
  have hframe₃ : ∀ x : Word, 104 ≤ (x - (b + 656)).toNat → m₃ x = m₂ x := by
    intro x hx
    rw [hm₃, repMovsb_frame hx]
  have hframe₄ : ∀ x : Word, 2 ≤ (x - (b + 656 + 102)).toNat → m₄ x = m₃ x := by
    intro x hx
    rw [hm₄, Mem.write16_frame _ _ hx]
  have hframe₅ : ∀ x : Word, 8 ≤ (x - g).toNat → m₅ x = m₄ x := by
    intro x hx
    rw [hm₅, Mem.write8_frame _ _ (by bv_omega), writeTss_frame _ _ hx]
  rw [hmem]
  refine ⟨?_, ?_, ?_, ?_, ?_⟩
  · intro i hi
    rw [← hbdef, hframe₅ _ (by bv_omega), hframe₄ _ (by bv_omega), hframe₃ _ (by bv_omega),
      hframe₂ _ (offLog_of_place K (by right; bv_omega)), hm₁]
    exact repMovsb_copied (by unfold Sep; constructor <;> bv_omega) hi
  · intro i hi
    rw [ht, hframe₅ _ (by bv_omega), hframe₄ _ (by bv_omega), hm₃,
      repMovsb_copied (by unfold Sep; constructor <;> bv_omega) (by omega),
      hframe₂ _ (offLog_of_place K (by left; bv_omega)), hframe₁ _ (by bv_omega)]
  · rw [ht, Mem.read16, hframe₅ _ (by bv_omega), hframe₅ _ (by bv_omega), ← Mem.read16, hm₄,
      Mem.read16_write16]
  · rw [← hgdef, hm₅, descriptorAt_access, descriptorAt_writeTss]
  · intro x hlog hinfo hdesc
    rw [← hbdef] at hinfo
    rw [← hgdef] at hdesc
    rw [hframe₅ _ hdesc, hframe₄ _ (by bv_omega), hframe₃ _ (by bv_omega), hframe₂ _ hlog,
      hframe₁ _ (by omega)]

theorem kmainSetup_spec (K : KmainImage) (logs : KmainLogs) {L : LoaderImage} {mc : Machine}
    (h : KmainSpace L mc) (hlimit : mc.mem.read16 (K.pGDT - kernelVirtBase) = 47)
    (hbase : mc.mem.read32 (K.pGDT - kernelVirtBase + 2) = K.gdt) :
    ∃ mc', kmainSetup K logs mc L.bootStructure
        = some (mc', ⟨47, K.gdt⟩, ⟨0x2B, K.kTSS, 104⟩) ∧
      KmainSpace L mc' ∧ KmainReady K L.bootStructure mc.mem mc'.mem := by
  have hend := K.kend_high
  have hgdt := K.gdt_boot
  have htss := K.tss_high
  have hhead := K.head_low
  have hlow := K.head_gdt
  have hconv := L.conventional
  have hboot := L.boot_high
  rcases K.gdt_toNat with ⟨hgnat, hpnat, htnat⟩
  have hinfo : Upper K.stBootInfo 656 := by
    unfold Upper
    omega
  have hseg : Upper K.kTSS 104 := by
    unfold Upper
    omega
  have hmap : Upper (K.kTSS + tssIomap) 2 := by
    unfold Upper tssIomap
    bv_omega
  have hpgdt : Upper K.pGDT 6 := by
    unfold Upper
    omega
  have hmapat : K.kTSS + tssIomap - kernelVirtBase = K.kTSS - kernelVirtBase + 102 := by
    unfold tssIomap
    bv_omega
  rcases h.repMovsbVirt K.stBootInfo L.bootStructure (by omega) hinfo with ⟨hst₁, h₁⟩
  rcases h₁.hello with ⟨h₂, hst₂⟩
  have hstorable := KmainSpace.storable K L
  rcases hstorable.klogStored h₂ logs.alive with ⟨mc₃, hlog₁, hspace₃, -, hframe₃⟩
  rcases hstorable.klogStored hspace₃ logs.buildDate with ⟨mc₄, hlog₂, hspace₄, -, hframe₄⟩
  rcases hspace₄.repMovsbVirt K.kTSS (L.bootStructure + 656) (by bv_omega) hseg with
    ⟨hst₃, h₃⟩
  rcases h₃.store16 hmap 0xdfff with ⟨hst₄, h₄⟩
  rcases gdtSetTss_eq K h₄ K.kTSS with ⟨hst₅, h₅⟩
  rcases ltr_eq K h₅ (descriptorAt_writeTss _ _ _) with ⟨hst₆, h₆⟩
  have hst₇ := (h₅.mapped hpgdt).lgdt
  rw [hmapat] at hst₄ hst₅ hst₆ hst₇ h₆
  have hlogged : ∀ x, OffLog K x → mc₄.mem x = greetMem K L.bootStructure mc.mem x := by
    intro x hx
    rw [hframe₄ x hx, hframe₃ x hx, greetMem]
  have hready := segmentMem_ready K (by omega) hlogged
  unfold segmentMem at hready
  dsimp only at hready hst₂ hst₃ hst₄ hst₅ hst₆ hst₇ h₆
  refine ⟨_, ?_, h₆, hready⟩
  rcases K.phys with ⟨hg, hgb, ht, hb⟩
  -- `pGDT` is as it was
  have hp : K.pGDT - kernelVirtBase = K.gdtTss - kernelVirtBase + 8 := by
    unfold KmainImage.pGDT KmainImage.gdtTss
    bv_omega
  have hpphys : (K.pGDT - kernelVirtBase).toNat = K.pGDT.toNat - 0xC0000000 := by
    unfold kernelVirtBase
    bv_omega
  have hkept : ∀ x : Word, (x - (K.pGDT - kernelVirtBase)).toNat < 6 →
      writeTss ((repMovsb mc₄.mem (K.kTSS - kernelVirtBase) (L.bootStructure + 656) 104).write16
        (K.kTSS - kernelVirtBase + 102) 57343) (K.gdtTss - kernelVirtBase) K.kTSS x = mc.mem x := by
    intro x hx
    have hlog := offLog_of_place K (x := x) (by right; bv_omega)
    rw [← hready.others x hlog (by bv_omega) (by bv_omega), Mem.write8_frame _ _ (by bv_omega)]
  have hone : ∀ k : Word, k.toNat < 6 → (K.pGDT - kernelVirtBase + k -
      (K.pGDT - kernelVirtBase)).toNat < 6 := by
    intro k hk
    bv_omega
  rw [Mem.read16_congr (hkept _ (by bv_omega)) (hkept _ (hone 1 (by decide))), hlimit,
    Mem.read32_congr (hkept _ (hone 2 (by decide))) (hkept _ (by bv_omega))
      (hkept _ (by bv_omega)) (hkept _ (by bv_omega)), hbase] at hst₇
  have hinfoSize : BitVec.ofNat 32 656 = (656 : Word) := rfl
  simp only [kmainSetup, sizeofBootInfo, sizeofTSS, hinfoSize, Option.bind_eq_bind, hst₁,
    Option.bind_some, hst₂, hlog₁, hlog₂, hst₃, hst₄, hst₅, hst₆, hst₇, Option.pure_def]

/-! ## What the loader leaves -/

/-- `common32` from the file of the kernel at `KERNEL_PRELOAD`: it is copied to `KERNEL_BASE`,
and the conventional memory keeps everything but the tables. -/
theorem common32_loaded (L : LoaderImage) (m : Mem) {size : Word} (hsize : size.toNat ≤ 0xA9000)
    {fuel : Nat} (hfuel : 1024 ≤ fuel) :
    ∃ mc, common32 L.toLoaderLayout fuel m size = some mc ∧ KmainSpace L mc ∧
      (∀ i, i < size.toNat →
        mc.mem (kernelBase + BitVec.ofNat 32 i) = m (kernelPreload + BitVec.ofNat 32 i)) ∧
      ∀ x : Word, x.toNat < 0xB8000 → x.toNat < L.bootPageDirectory.toNat ∨
        L.bootPageDirectory.toNat + 0x3000 ≤ x.toNat → mc.mem x = m x := by
  have hconv := L.conventional
  have hal := L.aligned
  have h0 := boot0PageTable_toNat L.toLoaderLayout
  have h1 := bootKernelPagingTable_toNat L.toLoaderLayout
  rcases common32_paging L.toLoaderLayout m size hfuel with ⟨mc, hmc, hpaging, -⟩
  -- once more, for the rest of memory
  obtain ⟨m₀, hm₀⟩ : ∃ m₀, m₀ = m.write32 0xB8000 0x07690748 := ⟨_, rfl⟩
  rcases fill_phys (repMovsb m₀ kernelBase kernelPreload size.toNat) L.boot0PageTable 0 hfuel with
    ⟨m₁, hres₁, -, hframe₁⟩
  rcases fill_phys m₁ L.bootKernelPagingTable (0 + BitVec.ofNat 32 (4096 * 1024)) hfuel with
    ⟨m₂, hres₂, -, hframe₂⟩
  have heq : mc = ⟨addPageDirectoryEntries L.toLoaderLayout m₂, L.bootPageDirectory⟩ := by
    apply Option.some.inj
    rw [← hmc]
    unfold common32
    dsimp only
    rw [← hm₀, hres₁]
    change (iterate _ fuel (m₁, _, _, _)).bind _ = _
    rw [hres₂]
    rfl
  have hframe : ∀ x : Word, x.toNat < L.bootPageDirectory.toNat ∨
      L.bootPageDirectory.toNat + 0x3000 ≤ x.toNat →
      mc.mem x = repMovsb m₀ kernelBase kernelPreload size.toNat x := by
    intro x hx
    rw [heq]
    dsimp only [addPageDirectoryEntries]
    rw [Mem.write32_frame _ _ (by bv_omega), Mem.write32_frame _ _ (by bv_omega),
      Mem.write32_frame _ _ (by bv_omega), hframe₂ x (by bv_omega), hframe₁ x (by bv_omega)]
  refine ⟨mc, hmc, ⟨hpaging, ?_⟩, ?_, ?_⟩
  · rw [heq]
    dsimp only [addPageDirectoryEntries]
    rw [Mem.read32_write32_of_sep _ _ (by unfold Sep; constructor <;> bv_omega),
      Mem.read32_write32_of_sep _ _ (by unfold Sep; constructor <;> bv_omega), Mem.read32_write32,
      add_pw_eq (by omega)]
  · intro i hi
    rw [hframe _ (by unfold kernelBase; bv_omega), repMovsb_copied ?_ hi, hm₀]
    · exact Mem.write32_frame _ _ (by unfold kernelPreload; bv_omega)
    · unfold Sep kernelBase kernelPreload
      constructor <;> bv_omega
  · intro x hx hoff
    rw [hframe x hoff, repMovsb_frame (by unfold kernelBase; bv_omega), hm₀]
    exact Mem.write32_frame _ _ (by bv_omega)

/-- `mm_bootstrap` after `kmainSetup`: the page tables of the kernel, and below them nothing has
changed but for what `klog` stores. -/
theorem kmainBootstrap_spec (K : KmainImage) (logs : KmainLogs) {L : LoaderImage} {mc : Machine}
    (h : KmainSpace L mc) {fuel : Nat} (hfuel : 1024 ≤ fuel) :
    ∃ mc', kmainBootstrap K logs fuel mc = some mc' ∧ KernelPaging K.kend mc' ∧
      ∀ x, OffLog K x → x.toNat < 0x700000 → mc'.mem x = mc.mem x := by
  have hklo := K.kend_low
  rcases (KmainSpace.storable K L).klogStored h logs.mmBootstrap with
    ⟨mc₁, hlog, hspace, -, hlogged⟩
  rcases mmBootstrap_spec L.toLoaderLayout hspace.paging (by omega) K.kend_high hfuel with
    ⟨mc₂, hmc₂, hk, hframe⟩
  refine ⟨mc₂, ?_, hk, ?_⟩
  · rw [kmainBootstrap, hlog]
    exact hmc₂
  · intro x hx hlow
    rw [hframe x (.inl hlow), hlogged x hx]

/-- Where the loader reads a byte of the kernel, whose address is `v`, from the disk to. -/
def preloaded (v : Word) : Word := kernelPreload + (v - kernelVirtBase - kernelBase)

theorem preloaded_copied {m m' : Mem} {n : Nat} (h : ∀ i, i < n →
    m' (kernelBase + BitVec.ofNat 32 i) = m (kernelPreload + BitVec.ofNat 32 i)) {v : Word}
    (hv : 0xC0100000 ≤ v.toNat) (hvn : v.toNat < 0xC0100000 + n) :
    m' (v - kernelVirtBase) = m (preloaded v) := by
  have hcopied := h (v.toNat - 0xC0100000) (by omega)
  have hto : kernelBase + BitVec.ofNat 32 (v.toNat - 0xC0100000) = v - kernelVirtBase := by
    unfold kernelBase kernelVirtBase
    bv_omega
  have hfrom : kernelPreload + BitVec.ofNat 32 (v.toNat - 0xC0100000) = preloaded v := by
    unfold preloaded kernelBase kernelVirtBase
    bv_omega
  rwa [hto, hfrom] at hcopied

/-- The file of the kernel, at `KERNEL_PRELOAD`: the list of free pages is empty, and `pGDT`
is for the six descriptors. -/
structure KernelFile (K : KmainImage) (m : Mem) (size : Word) : Prop where
  small : size.toNat ≤ 0xA9000
  holds : K.gdt.toNat + 54 ≤ 0xC0100000 + size.toNat
  head : m.read32 (preloaded K.pPmmFreeListHead) = 0
  limit : m.read16 (preloaded K.pGDT) = 47
  base : m.read32 (preloaded K.pGDT + 2) = K.gdt

/-- What the loader hands over to `kmain`. -/
structure HandedOver (L : LoaderImage) (K : KmainImage) (m : Mem) (mc : Machine) : Prop where
  space : KmainSpace L mc
  head : mc.mem.read32 K.headPhys = 0
  limit : mc.mem.read16 (K.pGDT - kernelVirtBase) = 47
  base : mc.mem.read32 (K.pGDT - kernelVirtBase + 2) = K.gdt
  data : ∀ i, i < 726 → mc.mem (L.bootStructure + BitVec.ofNat 32 i)
    = m (L.bootStructure + BitVec.ofNat 32 i)

theorem common32_hands (L : LoaderImage) (K : KmainImage) {m : Mem} {size : Word}
    (hfile : KernelFile K m size) {fuel : Nat} (hfuel : 1024 ≤ fuel) :
    ∃ mc, common32 L.toLoaderLayout fuel m size = some mc ∧ HandedOver L K m mc := by
  have hend := K.kend_high
  have hgdt := K.gdt_boot
  have htss := K.tss_high
  have hhead := K.head_low
  have hlow := K.head_gdt
  have hconv := L.conventional
  have hboot := L.boot_high
  have hsmall := hfile.small
  have hholds := hfile.holds
  rcases K.gdt_toNat with ⟨-, hpnat, -⟩
  rcases common32_loaded L m hsmall hfuel with ⟨mc, hmc, hspace, hcopy, hkept⟩
  have hbyte : ∀ v : Word, 0xC0100000 ≤ v.toNat → v.toNat < 0xC0100000 + size.toNat →
      mc.mem (v - kernelVirtBase) = m (preloaded v) := fun v => preloaded_copied hcopy
  have hat : ∀ v k : Word, v - kernelVirtBase + k = v + k - kernelVirtBase ∧
      preloaded v + k = preloaded (v + k) := by
    intro v k
    unfold preloaded
    constructor <;> bv_omega
  have hword : ∀ v : Word, 0xC0100000 ≤ v.toNat → v.toNat + 3 < 0xC0100000 + size.toNat →
      mc.mem.read32 (v - kernelVirtBase) = m.read32 (preloaded v) := by
    intro v hv hvk
    apply Mem.read32_of_bytes
    intro k hk
    rw [(hat v k).1, (hat v k).2]
    exact hbyte _ (by bv_omega) (by bv_omega)
  refine ⟨mc, hmc, hspace, ?_, ?_, ?_, ?_⟩
  · rw [← hfile.head]
    exact hword _ hhead (by omega)
  · rw [← hfile.limit]
    apply Mem.read16_of_bytes
    intro k hk
    rw [(hat K.pGDT k).1, (hat K.pGDT k).2]
    exact hbyte _ (by bv_omega) (by bv_omega)
  · rw [← hfile.base, (hat K.pGDT 2).1, (hat K.pGDT 2).2]
    exact hword _ (by bv_omega) (by bv_omega)
  · intro i hi
    exact hkept _ (by bv_omega) (.inl (by bv_omega))

/-! ## The task state segment after `mm_bootstrap` -/

theorem KernelPaging.mapped {kend : Word} {mc : Machine} (h : KernelPaging kend mc)
    (hhi : kend.toNat ≤ 0xC0400000) {v : Word} {n : Nat} (hv : 0xC0000000 ≤ v.toNat)
    (hv' : v.toNat + n ≤ kend.toNat) : Mapped mc v n := by
  intro k hk
  have hat : v + k - kernelVirtBase = v - kernelVirtBase + k := by bv_omega
  rw [h.walk_kernel hhi false (by bv_omega) (by bv_omega), hat]

/-- An I/O map base behind the limit allows no port. -/
theorem portAllowed_none {mc : Machine} {tr : TaskRegister} {iomap : Half} (port : Half)
    (hload : mc.load16 (tr.base + tssIomap) = some iomap) (hbase : tr.limit.toNat ≤ iomap.toNat) :
    portAllowed mc tr port = some false := by
  unfold portAllowed
  split
  · rfl
  · rw [hload]
    dsimp only [Option.bind_eq_bind, Option.bind_some]
    rw [if_pos (by omega)]
    rfl

/-- **The task state segment.** Whatever the file of the kernel is beyond its tables, TR is
loaded with the segment, and code without I/O privilege may access no port. But the segment is
not cleared: its first 70 bytes, with the stack for privilege level 0 in them, are the inode
that the loader has read last. -/
theorem kmain_tss (L : LoaderImage) (K : KmainImage) (logs : KmainLogs) {m : Mem} {size : Word}
    (hfile : KernelFile K m size) :
    ∃ mc mc₁ mc₂, common32 L.toLoaderLayout 1024 m size = some mc ∧
      kmainSetup K logs mc L.bootStructure = some (mc₁, ⟨47, K.gdt⟩, ⟨0x2B, K.kTSS, 104⟩) ∧
      kmainBootstrap K logs 1024 mc₁ = some mc₂ ∧
      loadDescriptor mc₂ K.gdtTss = some ⟨104, K.kTSS, 0x8B, 4⟩ ∧
      (∀ port, portAllowed mc₂ ⟨0x2B, K.kTSS, 104⟩ port = some false) ∧
      ∀ i, i < sizeofInode →
        mc₂.load8 (K.kTSS + BitVec.ofNat 32 i) = some (m (L.inodeCache + BitVec.ofNat 32 i)) := by
  have hklo := K.kend_low
  have hkhi := K.kend_high
  have hgdt := K.gdt_boot
  have htss := K.tss_high
  have hhead := K.head_low
  have hlow := K.head_gdt
  have hboot := L.boot_high
  rcases K.gdt_toNat with ⟨hgnat, -, htnat⟩
  rcases K.phys with ⟨hg, hgb, ht, hb⟩
  rcases common32_hands L K hfile (Nat.le_refl 1024) with ⟨mc, hmc, hands⟩
  rcases kmainSetup_spec K logs hands.space hands.limit hands.base with
    ⟨mc₁, hmc₁, hspace, hready⟩
  rcases kmainBootstrap_spec K logs hspace (Nat.le_refl 1024) with ⟨mc₂, hmc₂, hk, hframe⟩
  have hkept : ∀ a k : Word, K.pPmmFreeListHead.toNat ≤ a.toNat + 0xC0000000 →
      a.toNat + k.toNat < 0x700000 → mc₂.mem (a + k) = mc₁.mem (a + k) := by
    intro a k ha hak
    exact hframe _ (offLog_of_place K (.inr (by bv_omega))) (by bv_omega)
  have htp : (K.kTSS - kernelVirtBase).toNat = K.stBootInfo.toNat + 656 - 0xC0000000 := by
    rw [ht]
    unfold kernelVirtBase
    bv_omega
  have hgp : (K.gdtTss - kernelVirtBase).toNat = K.gdtTss.toNat - 0xC0000000 := by
    unfold kernelVirtBase
    bv_omega
  have hgate : Mapped mc₂ K.gdtTss 8 := hk.mapped hkhi (by omega) (by omega)
  have hseg : Mapped mc₂ K.kTSS 104 := hk.mapped hkhi (by omega) (by omega)
  refine ⟨mc, mc₁, mc₂, hmc, hmc₁, hmc₂, ?_, ?_, ?_⟩
  · rw [hgate.loadDescriptor, ← hready.descriptor]
    exact congrArg some (descriptorAt_congr fun k hk => hkept _ _ (by omega) (by omega))
  · intro port
    have hiomap : mc₂.mem.read16 (K.kTSS - kernelVirtBase + tssIomap) = 0xdfff := by
      rw [← hready.iomap]
      refine Mem.read16_congr (hkept _ _ (by omega) ?_) ?_
      · unfold tssIomap
        bv_omega
      · rw [BitVec.add_assoc]
        exact hkept _ _ (by omega) (by unfold tssIomap; bv_omega)
    refine portAllowed_none port (hseg.load16 (by decide) (by decide)) ?_
    rw [hiomap]
    change (104 : BitVec 20).toNat ≤ (0xdfff : Half).toNat
    decide
  · intro i hi
    unfold sizeofInode at hi
    have hsrc : L.bootStructure + 656 + BitVec.ofNat 32 i
        = L.bootStructure + BitVec.ofNat 32 (656 + i) := by bv_omega
    have hload := hseg.load8 (k := BitVec.ofNat 32 i) (by bv_omega)
    rw [hload, hkept _ _ (by omega) (by bv_omega), hready.tss i (by omega), hsrc,
      hands.data _ (by omega)]
    unfold LoaderImage.inodeCache
    rw [hsrc]

/-- A loader whose tables start at 0x8000. -/
def demoLoader : LoaderImage where
  toLoaderLayout := demoLayout
  bootStructure := 0x7000
  boot_high := by decide
  conventional := by decide

/-- A kernel of 128 KiB, whose file has 16 KiB. -/
def demoKmain : KmainImage where
  kend := 0xC0120000
  pPmmFreeListHead := 0xC0101000
  stBootInfo := 0xC0104000
  szTime := 0xC0100800
  gdt := 0xC0102000
  time_low := by decide
  time_head := by decide
  kend_low := by decide
  kend_high := by decide
  head_low := by decide
  head_high := by decide
  boot_low := by decide
  boot_high := by decide
  apart := by decide
  head_gdt := by decide
  gdt_boot := by decide
  tss_high := by decide

/-- At 23:59:07, and a line on the screen. -/
def demoLogs : KmainLogs where
  alive := ⟨⟨0x23, 0x59, 0x07⟩, [(160, 0x074F), (162, 0x076B)]⟩
  buildDate := ⟨⟨0x23, 0x59, 0x07⟩, []⟩
  mmBootstrap := ⟨⟨0x23, 0x59, 0x08⟩, []⟩

/-- Memory with nothing but `pGDT` in the file of the kernel. -/
def demoHandOver : Mem := Mem.write32 (Mem.write16 (fun _ => 0) 0x11030 47) 0x11032 0xC0102000

theorem demoHandOver_file : KernelFile demoKmain demoHandOver 0x4000 :=
  ⟨by decide, by decide, by decide, by decide, by decide⟩

theorem kmain_tss_demo :
    ∃ mc mc₁ mc₂, common32 demoLayout 1024 demoHandOver 0x4000 = some mc ∧
      kmainSetup demoKmain demoLogs mc 0x7000
        = some (mc₁, ⟨47, 0xC0102000⟩, ⟨0x2B, 0xC0104290, 104⟩) ∧
      kmainBootstrap demoKmain demoLogs 1024 mc₁ = some mc₂ ∧
      loadDescriptor mc₂ demoKmain.gdtTss = some ⟨104, 0xC0104290, 0x8B, 4⟩ ∧
      (∀ port, portAllowed mc₂ ⟨0x2B, 0xC0104290, 104⟩ port = some false) ∧
      ∀ i, i < sizeofInode → mc₂.load8 (0xC0104290 + BitVec.ofNat 32 i)
        = some (demoHandOver (demoLoader.inodeCache + BitVec.ofNat 32 i)) :=
  kmain_tss demoLoader demoKmain demoLogs demoHandOver_file

end StupidOS.Kernel
