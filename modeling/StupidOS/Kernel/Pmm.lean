import StupidOS.Kernel.Bootstrap

/-!
# The physical page allocator (`kernel/mm/pmm.inc`)

The free memory is a linked list of blocks, each with its size and the physical
address of the next one in its first two words. The list is reached through the
temporary page at `PMM_VIRT_TEMP`: a block is mapped there, read or written, and
unmapped again. The variables of the allocator lie in the kernel image and are
reached through the kernel's page table. Calls of `klog` are left out.
-/

namespace StupidOS.Kernel

/-! ## Layout -/

/-- Field offsets of `PMMFreeRange`. -/
def rangeSize : Word := 0
def rangeNext : Word := 4

/-- Where the linker put the end of the kernel and the variables that the
allocator uses: `pPmmFreeListHead` with the 8 words of `au32PmmLowMemBitmap` right
after it, and the boot structure (656 bytes). -/
structure KernelImage where
  kend : Word
  pPmmFreeListHead : Word
  stBootInfo : Word
  kend_low : 0xC0100000 < kend.toNat
  kend_high : kend.toNat ≤ 0xC0400000
  head_low : 0xC0100000 ≤ pPmmFreeListHead.toNat
  head_high : pPmmFreeListHead.toNat + 36 ≤ kend.toNat
  boot_low : 0xC0100000 ≤ stBootInfo.toNat
  boot_high : stBootInfo.toNat + 656 ≤ kend.toNat
  apart : pPmmFreeListHead.toNat + 36 ≤ stBootInfo.toNat ∨
    stBootInfo.toNat + 656 ≤ pPmmFreeListHead.toNat

namespace KernelImage

variable (K : KernelImage)

def au32PmmLowMemBitmap : Word := K.pPmmFreeListHead + 4

/-- `stBootInfo.high_mem` -/
def highMem : Word := K.stBootInfo + 648

/-- `stBootInfo.low_mem` -/
def lowMem : Word := K.stBootInfo + 652

end KernelImage

/-- The registers that a routine is to preserve. -/
structure SavedRegs where
  ebx : Word
  esi : Word
  edi : Word
deriving DecidableEq, Repr

/-! ## Private functions -/

variable (K : KernelImage)

/-- `_pmm_init_region`. ESI and EDI are popped in the order in which they were
pushed, so they come back exchanged. -/
def pmmInitRegion (mc : Machine) (eax edx : Word) (regs : SavedRegs) :
    Option (Machine × SavedRegs) := do
  let edi := eax
  let esi := edx
  let mc ← pmmMapTempPage mc eax
  let ecx := 0
  -- compute size
  let esi := esi - edi
  let mc ← mc.store32 pmmVirtTemp esi
  let mc ← mc.store32 (pmmVirtTemp + rangeNext) ecx
  let ecx ← mc.load32 K.pPmmFreeListHead
  let mc ← if ecx = 0 then some mc else mc.store32 (pmmVirtTemp + rangeNext) ecx
  let mc ← mc.store32 K.pPmmFreeListHead edi
  let mc ← pmmUnmapTempPage mc
  return (mc, { regs with esi := regs.edi, edi := regs.esi })

/-- `rep stosd` through the page tables. -/
def repStosdVirt (mc : Machine) (edi eax : Word) : Nat → Option Machine
  | 0 => some mc
  | ecx + 1 => do
    let mc ← mc.store32 edi eax
    repStosdVirt mc (edi + 4) eax ecx

/-- One pass of the loop of `_pmm_init_low_memory`: machine, EAX, ECX, EDI and EBX. -/
def pmmInitLowMemoryBody : Machine × Word × Word × Word × Word →
    Option (Pass (Machine × Word × Word × Word × Word) (Machine × Word))
  | (mc, eax, ecx, edi, ebx) => do
    let eax := eax + pageSize
    let low ← mc.load32 K.lowMem
    if low.slt eax then
      return .done (mc, ebx)
    else
      let ebx := (1 : Word) <<< (ecx.toNat % 32)
      let word ← mc.load32 edi
      let mc ← mc.store32 edi (word ||| ebx)
      let ecx := ecx + 1
      if ecx.ult 32 then
        return .again (mc, eax, ecx, edi, ebx)
      else
        return .again (mc, eax, 0, edi + 4, ebx)

/-- `_pmm_init_low_memory`. EBX is not saved. -/
def pmmInitLowMemory (fuel : Nat) (mc : Machine) (regs : SavedRegs) :
    Option (Machine × SavedRegs) := do
  -- clear bitmap
  let mc ← repStosdVirt mc K.au32PmmLowMemBitmap 0 8
  let (mc, ebx) ← iterate (pmmInitLowMemoryBody K) fuel
    (mc, 0, 0, K.au32PmmLowMemBitmap, regs.ebx)
  return (mc, { regs with ebx := ebx })

/-! ## Public functions -/

/-- One pass of the loop of `pmm_alloc`: machine, EAX, EBX and ESI. It leaves with
`none` at the end of the list, and with the new size, the previous block and the
block found otherwise. -/
def pmmAllocBody (edi : Word) : Machine × Word × Word × Word →
    Option (Pass (Machine × Word × Word × Word) (Machine × Option (Word × Word × Word)))
  | (mc, eax, ebx, esi) =>
    if eax = 0 then
      -- no memory left :'(
      some (.done (mc, none))
    else do
      let mc ← pmmMapTempPage mc eax
      -- get size
      let size ← mc.load32 (pmmVirtTemp + rangeSize)
      if ¬ size.slt edi then
        return .done (mc, some (size - edi, ebx, esi))
      else
        -- get next block
        let ebx := esi
        let esi ← mc.load32 (pmmVirtTemp + rangeNext)
        let mc ← pmmUnmapTempPage mc
        let eax := esi
        return .again (mc, eax, ebx, esi)

/-- The part of `pmm_alloc` after "memory found": machine and the address (ESI). -/
def pmmAllocFound (mc : Machine) (eax ebx esi : Word) : Option (Machine × Word) := do
  -- new size
  let mc ← mc.store32 (pmmVirtTemp + rangeSize) eax
  -- compute physical address and store it in esi
  let esi := esi + eax
  let mc ←
    if eax ≠ 0 then some mc
    else do
      -- remove block if no free space left
      let edi ← mc.load32 (pmmVirtTemp + rangeNext)
      if ebx = 0 then
        mc.store32 K.pPmmFreeListHead edi
      else
        let mc ← pmmUnmapTempPage mc
        let mc ← pmmMapTempPage mc ebx
        mc.store32 (pmmVirtTemp + rangeNext) edi
  let mc ← pmmUnmapTempPage mc
  return (mc, esi)

/-- What `pmm_alloc` returns: the machine, EAX, EDX, and the saved registers. -/
structure PmmResult where
  mc : Machine
  eax : Word
  edx : Word
  regs : SavedRegs

/-- `pmm_alloc`. `eax` is the number of pages. -/
def pmmAlloc (fuel : Nat) (mc : Machine) (eax : Word) (regs : SavedRegs) : Option PmmResult := do
  -- multiply by page size
  let edi := eax <<< 12
  let ebx := 0
  let eax ← mc.load32 K.pPmmFreeListHead
  let esi := eax
  let (mc, found) ← iterate (pmmAllocBody edi) fuel (mc, eax, ebx, esi)
  match found with
  | none => return ⟨mc, 0, enomem, regs⟩
  | some (eax, ebx, esi) => do
    let (mc, esi) ← pmmAllocFound K mc eax ebx esi
    return ⟨mc, esi, 0, regs⟩

/-- `pmm_free`. `eax` is the block, `edx` the number of pages. ESI and EDI come back
exchanged. -/
def pmmFree (mc : Machine) (eax edx : Word) (regs : SavedRegs) : Option (Machine × SavedRegs) := do
  let edx := edx <<< 12
  let edi := edx
  let esi := eax
  let mc ← pmmMapTempPage mc eax
  let eax ← mc.load32 K.pPmmFreeListHead
  let mc ← mc.store32 (pmmVirtTemp + rangeNext) eax
  let mc ← mc.store32 (pmmVirtTemp + rangeSize) edi
  let mc ← mc.store32 K.pPmmFreeListHead esi
  let mc ← pmmUnmapTempPage mc
  return (mc, { regs with esi := regs.edi, edi := regs.esi })

/-- The first region of `pmm_init`, from `eax` to 0x400000, with the two jumps over it. -/
def pmmInitBelow (mc : Machine) (eax : Word) (regs : SavedRegs) : Option (Machine × SavedRegs) :=
  let edx := 0x400000 - eax
  if ¬ eax.slt 0x400000 then some (mc, regs)
  else if ¬ pageSize.slt edx then some (mc, regs)
  else pmmInitRegion K mc eax 0x400000 regs

/-- `pmm_init`. EAX on return is 0. -/
def pmmInit (fuel : Nat) (mc : Machine) (regs : SavedRegs) :
    Option (Machine × Word × SavedRegs) := do
  let (mc, regs) ← pmmInitLowMemory K fuel mc regs
  let eax := K.kend - kernelVirtBase
  -- PAGE_ALIGN_UP
  let eax := (eax + (pageSize - 1)) &&& -pageSize
  let (mc, regs) ← pmmInitBelow K mc eax regs
  let eax := 0x800000
  let edx ← mc.load32 K.highMem
  -- PAGE_ALIGN_DOWN
  let edx := edx &&& -pageSize
  let (mc, regs) ← pmmInitRegion K mc eax edx regs
  return (mc, 0, regs)

end StupidOS.Kernel
