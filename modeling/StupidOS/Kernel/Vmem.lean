import StupidOS.Kernel.VmemSeg
import StupidOS.Kernel.Const

/-!
# Vmem arenas (`kernel/mm/vmem.inc`)

The routines on `Vmem` objects as the kernel has them: `vmem_create` with the
span it adds, and `vmem_xalloc` with its two search strategies, its split logic
and its exits. Stack locals (`[ebp - n]`) are Lean locals; an uninitialised one
is a parameter. The tail-queue routines and `_vmem_refill`, `_vmem_hashtable_insert`
are empty in the source and stay so here. Calls of `klog` touch no arena and no
descriptor and are left out.
-/

namespace StupidOS.Kernel

/-! ## Constants and layout -/

/-- Strategy and mode flags. -/
def vmemVmBestfit : Word := 1
def vmemVmInstantfit : Word := 2
def vmemVmPopulating : Word := 64

/-- `VMEM_VM_FIT_MASK` -/
def vmemVmFitMask : Word := vmemVmBestfit ||| vmemVmInstantfit

/-- `VMEM_MIN_RESERVE` -/
def vmemMinReserve : Word := 4

/-- `VMEM_FREELISTS_N` -/
def vmemFreelistsN : Word := 32

/-- `VMEM_ALLOC` and `VMEM_FREE`, the type masks of `vmem_size`. -/
def vmemMaskAlloc : Word := 1
def vmemMaskFree : Word := 2

/-- Segment types. -/
def vmemSegmentAllocated : Word := 0
def vmemSegmentFree : Word := 1
def vmemSegmentStaticSpan : Word := 3

/-- Field offsets of `Vmem`; the object is 248 bytes long. -/
def vmBase : Word := 16
def vmSize : Word := 20
def vmQuantum : Word := 24
def vmFlags : Word := 40
def vmInUse : Word := 44
def vmSegqueue : Word := 48
def vmFreelist : Word := 56
def vmHashtable : Word := 184

/-- `bsr`: the position of the highest set bit (0 for 0, where the instruction
leaves the destination undefined). -/
def bsr (w : Word) : Word := BitVec.ofNat 32 (Nat.log2 w.toNat)

/-- `VMEM_GET_LIST_FROM_SIZE reg, VMEM_FREELISTS_N` -/
def vmemGetListFromSize (reg : Word) : Word :=
  let reg := bsr reg
  let reg := reg ^^^ 31
  let reg := reg + -vmemFreelistsN
  let reg := -reg
  reg - 1

/-! ## Private functions -/

variable (S : VmemStatics)

/-- `tailq_insert_tail`: only returns. -/
def tailqInsertTail (m : Mem) (_eax _edx : Word) : Mem := m

/-- `tailq_insert_after`: only returns. -/
def tailqInsertAfter (m : Mem) (_eax _edx _ecx : Word) : Mem := m

/-- `_vmem_refill`: EAX is zeroed before the test, so nothing is added. -/
def vmemRefill (m : Mem) : Mem := m

/-- `_vmem_hashtable_insert`: only returns. -/
def vmemHashtableInsert (m : Mem) (_eax _edx : Word) : Mem := m

/-- `_vmem_segfit`: EAX on return, and the word stored through `addrp`. -/
def vmemSegfit (m : Mem) (eax _edx _ecx _phase _nocross _minaddr _maxaddr : Word) :
    Word × Word :=
  (0, m.read32 (eax + segBase))

/-- `_vmem_add_to_freelist`. `eax` is the arena, `edx` the segment. -/
def vmemAddToFreelist (m : Mem) (eax edx : Word) : Mem :=
  let ecx := m.read32 (edx + segSize)
  let ecx := vmemGetListFromSize ecx
  let ecx := ecx <<< 2
  let eax := eax + vmFreelist + ecx
  listInsertHead m eax (edx + segSeglist)

/-- `_vmem_insert_segment`. `eax` is the arena, `edx` the segment, `ecx` the
queue entry to insert after. -/
def vmemInsertSegment (m : Mem) (eax edx ecx : Word) : Mem :=
  tailqInsertAfter m (eax + vmSegqueue) ecx (edx + segSegqueue)

/-- `_vmem_add`: the span `[edx, edx + ecx)` becomes a span segment and a free
segment of the arena `eax`. EAX on return, and memory. -/
def vmemAddSpan (m : Mem) (eax edx ecx _flags type : Word) : Word × Mem :=
  let esi := eax
  let edi := edx
  let ebx := ecx
  -- create new span
  let (eax, m) := vmemSegalloc S m
  if eax = 0 then (eax, m) else
  let m := m.write32 (eax + segBase) edi
  let m := m.write32 (eax + segSize) ebx
  let m := m.write32 (eax + segType) type
  let local8 := eax
  -- create free segment
  let (eax, m) := vmemSegalloc S m
  if eax = 0 then (eax, m) else
  let m := m.write32 (eax + segBase) edi
  let m := m.write32 (eax + segSize) ebx
  let m := m.write32 (eax + segType) vmemSegmentFree
  let local4 := eax
  let m := tailqInsertTail m (esi + vmSegqueue) (local8 + segSegqueue)
  let m := tailqInsertAfter m (esi + vmSegqueue) (local8 + segSegqueue) (local4 + segSegqueue)
  let ebx := vmemGetListFromSize ebx <<< 2
  let eax := esi + vmFreelist + ebx
  (eax, listInsertHead m eax (local4 + segSeglist))

/-! ## Public functions -/

/-- `vmem_add`. Its EAX is that of the trace call (`vmemAddEax`), and no caller uses it. -/
def vmemAdd (m : Mem) (eax edx ecx flags : Word) : Mem :=
  (vmemAddSpan S m eax edx ecx flags vmemSegmentStaticSpan).2

/-- `CONFIG_TRACE_VMEM` -/
def configTraceVmem : Bool := true

/-- `lodsb`: a byte into AL, the rest of EAX as it was. -/
def lodsb (eax : Word) (al : Byte) : Word := (eax &&& 0xFFFFFF00) ||| al.setWidth 32

/-- EAX after `_klog_print_str` of a string at `eax`, which is read up to its NUL. -/
def klogPrintStr (eax : Word) : List Byte → Word
  | [] => eax
  | al :: rest =>
    let eax := lodsb eax al
    if al = 0 then eax else klogPrintStr eax rest

/-- EAX after `klog`, whose last act is to print the line break at `szCRLF`. -/
def klog (szCRLF : Word) : Word := klogPrintStr szCRLF [cr, lf, 0]

/-- EAX after `vmem_add`. -/
def vmemAddEax (szCRLF : Word) (m : Mem) (eax edx ecx flags : Word) : Word :=
  let eax := (vmemAddSpan S m eax edx ecx flags vmemSegmentStaticSpan).1
  if configTraceVmem then klog szCRLF else eax

/-- The copy of the arena's name in `vmem_create`: `fuel` is 15 minus `cl`. -/
def vmemCopyName : Nat → Mem → Word → Word → Mem
  | 0, m, _, _ => m
  | fuel + 1, m, esi, edx =>
    let al := m esi
    if al = 0 then m else vmemCopyName fuel (m.write8 edx al) (esi + 1) (edx + 1)

/-- `rep stosd` of `ecx` words. -/
def repStosd (m : Mem) (edi eax : Word) : Nat → Mem
  | 0 => m
  | ecx + 1 => repStosd (m.write32 edi eax) (edi + 4) eax ecx

/-- `rep movsd` from a list of words standing for the source. -/
def repMovsd (m : Mem) (edi : Word) : List Word → Mem
  | [] => m
  | w :: ws => repMovsd (m.write32 edi w) (edi + 4) ws

/-- The stack arguments of `vmem_create`, and the word of the caller's frame
above them: seven words are copied where six are passed. -/
structure VmemCreateArgs where
  size : Word
  quantum : Word
  alloc : Word
  free : Word
  source : Word
  flags : Word
  above : Word

/-- `vmem_create` up to the test of the source. -/
def vmemCreateObject (m : Mem) (eax edx ecx : Word) (args : VmemCreateArgs) : Mem :=
  -- zero Vmem object
  let m := repStosd m eax 0 62
  -- copy name
  let m := vmemCopyName 15 m edx eax
  let m := m.write32 (eax + vmBase) ecx
  -- copy other from stack to struct
  let m := repMovsd m (eax + vmSize)
    [args.size, args.quantum, args.alloc, args.free, args.source, args.flags, args.above]
  -- initialize segqueue
  m.write32 (eax + vmSegqueue + 4) (eax + vmSegqueue)

/-- `vmem_create`. `eax` is the object, `edx` the name, `ecx` the base. -/
def vmemCreate (m : Mem) (eax edx ecx : Word) (args : VmemCreateArgs) : Mem :=
  let m := vmemCreateObject m eax edx ecx args
  if args.source ≠ 0 then m else
  let size := m.read32 (eax + vmSize)
  if size = 0 then m else
  vmemAdd S m eax ecx size (m.read32 (eax + vmFlags))

/-- What the search of `vmem_xalloc` reads besides memory: the arena (`esi`), the
size (`edi`), the alignment (`ebx`) and the stack arguments. -/
structure XallocArgs where
  esi : Word
  edi : Word
  ebx : Word
  phase : Word
  nocross : Word
  minaddr : Word
  maxaddr : Word
  flags : Word

/-- The labels of the search. -/
inductive XallocAt where
  | retryStrat
  | retry
  | instantFit
  | bestFit
  | bestFitLoop (eax : Word)
  | next
deriving DecidableEq, Repr

/-- Where the search is, with `[ebp - 12]`, `[ebp - 16]` and `[ebp - 20]`. -/
structure XallocSearch where
  pos : XallocAt
  local12 : Word
  local16 : Word
  local20 : Word

/-- One step of the search; it leaves with `[ebp - 16]` and `[ebp - 20]` at
`.found`, with `none` at `.fail`. -/
def xallocBody (m : Mem) (a : XallocArgs) (s : XallocSearch) :
    Option (Pass XallocSearch (Option (Word × Word))) :=
  match s.pos with
  | .retryStrat =>
    -- get freelist
    let edx := vmemGetListFromSize a.edi <<< 2
    some (.again { s with pos := .retry, local12 := a.esi + vmFreelist + edx })
  | .retry =>
    if a.flags &&& vmemVmInstantfit = 0 then
      some (.again { s with pos := .bestFit })
    else if a.edi &&& (a.edi - 1) = 0 then
      some (.again { s with pos := .instantFit })
    else
      -- if not power of two use next
      some (.again { s with pos := .instantFit, local12 := s.local12 + 4 })
  | .instantFit =>
    if ¬ s.local12.slt (a.esi + vmHashtable) then
      some (.again { s with pos := .next })
    else
      let eax := m.read32 s.local12
      if eax = 0 then
        some (.again { s with local12 := s.local12 + 4 })
      else
        let seg := eax - segSeglist
        let (eax, start) :=
          vmemSegfit m seg a.edi a.ebx a.phase a.nocross a.minaddr a.maxaddr
        if eax = 0 then
          some (.done (some (seg, start)))
        else
          some (.again { s with local12 := s.local12 + 4, local16 := seg, local20 := start })
  | .bestFit => some (.again { s with pos := .bestFitLoop s.local12 })
  | .bestFitLoop eax =>
    -- iterate each item in list
    let eax := m.read32 eax
    if eax = 0 then
      let local12 := s.local12 + 4
      if local12.slt (a.esi + vmHashtable) then
        some (.again { s with pos := .bestFit, local12 := local12 })
      else
        some (.again { s with pos := .next, local12 := local12 })
    else
      let seg := eax - segSeglist
      if ¬ a.edi.slt (m.read32 (seg + segSize)) then
        some (.again { s with pos := .bestFitLoop (seg + segSeglist), local16 := seg })
      else
        let (eax, start) :=
          vmemSegfit m seg a.edi a.ebx a.phase a.nocross a.minaddr a.maxaddr
        if eax = 0 then
          some (.done (some (seg, start)))
        else
          some (.again { s with
            pos := .bestFitLoop (seg + segSeglist), local16 := seg, local20 := start })
  | .next =>
    if a.flags &&& vmemVmInstantfit = 0 then
      some (.done none)
    else
      -- the changed flags are left in EAX
      some (.again { s with pos := .retryStrat })

/-- `vmem_xalloc.found`: the segment `[ebp - 16]` is cut to `[ebp - 20]` and the
size. Memory, `[ebp - 8]`, `[ebp - 4]` and the address (`edi`). -/
def xallocFound (m : Mem) (esi edi local4 local8 local16 local20 : Word) :
    Mem × Word × Word × Word :=
  -- remove seg from freelist
  let m := listRemove m (local16 + segSeglist)
  -- split left
  let eax := m.read32 (local16 + segBase)
  let (m, local8) :=
    if eax = local20 then (m, local8) else
    let m := m.write32 (local8 + segType) vmemSegmentFree
    let m := m.write32 (local8 + segBase) eax
    let ecx := local20 - eax
    let m := m.write32 (local8 + segSize) ecx
    let m := m.write32 (local16 + segBase) local20
    let edx := m.read32 (local16 + segSize) - ecx
    let m := m.write32 (local16 + segSize) edx
    let m := vmemAddToFreelist m esi local8
    let m := vmemInsertSegment m esi local8 (m.read32 (local16 + segSegqueue + 4))
    (m, 0)
  -- split right
  let ecx := m.read32 (local16 + segSize)
  let (m, local4, local16) :=
    if edi = ecx then (m, local4, local16) else
    let eax := m.read32 (esi + vmQuantum) - 1
    let ecx := ecx - edi
    if ¬ eax.slt ecx then (m, local4, local16) else
    -- offset the segment
    let m := m.write32 (local16 + segSize) ecx
    let eax := m.read32 (local16 + segBase)
    let ecx := eax
    let m := m.write32 (local16 + segBase) (eax + edi)
    let m := m.write32 (local4 + segBase) ecx
    let m := m.write32 (local4 + segSize) edi
    -- insert to free list
    let m := vmemAddToFreelist m esi local4
    let m := vmemInsertSegment m esi local4 (m.read32 (local16 + segSegqueue + 4))
    (m, 0, local4)
  let m := m.write32 (local16 + segType) vmemSegmentAllocated
  let m := vmemHashtableInsert m esi local16
  (m, local8, local4, m.read32 (local16 + segBase))

/-- `vmem_xalloc.end`: the descriptors still held in `[ebp - 8]` and `[ebp - 4]`
go back to the pool. -/
def xallocEnd (m : Mem) (edi ebx local4 local8 : Word) : Word × Word × Mem :=
  let m := if local8 = 0 then m else vmemSegfree S m local8
  let m := if local4 = 0 then m else vmemSegfree S m local4
  (edi, ebx, m)

/-- `vmem_xalloc`. `eax` is the arena, `edx` the size, `ecx` the alignment;
`junk` is what the locals hold at entry. EAX, EDX and memory on return. -/
def vmemXalloc (fuel : Nat) (m : Mem) (eax edx ecx phase nocross minaddr maxaddr flags : Word)
    (junk : Word × Word × Word) : Option (Word × Word × Mem) :=
  let esi := eax
  let edi := edx
  let ebx := ecx
  -- refill segment if needed
  let m :=
    if flags &&& vmemVmPopulating = 0 then m
    else if vmemMinReserve.slt (m.read32 S.iVmemFreeSegCount) then m
    else vmemRefill m
  let (eax, m) := vmemSegalloc S m
  if eax = 0 then some (xallocEnd S m 0 enomem 0 0) else
  let local8 := eax
  let (eax, m) := vmemSegalloc S m
  if eax = 0 then some (xallocEnd S m 0 enomem 0 local8) else
  let local4 := eax
  -- set alignment to quantum if not set; a given alignment jumps into the search
  let start : Option (XallocAt × Word) :=
    if ebx ≠ 0 then some (.instantFit, ebx)
    else if flags &&& vmemVmFitMask = 0 then none
    else some (.retryStrat, m.read32 (esi + vmQuantum))
  match start with
  | none => some (xallocEnd S m 0 enomem local4 local8)
  | some (pos, ebx) =>
    let args : XallocArgs := ⟨esi, edi, ebx, phase, nocross, minaddr, maxaddr, flags⟩
    match iterate (xallocBody m args) fuel ⟨pos, junk.1, junk.2.1, junk.2.2⟩ with
    | none => none
    | some none => some (xallocEnd S m 0 enomem local4 local8)
    | some (some (local16, local20)) =>
      let (m, local8, local4, edi) := xallocFound m esi edi local4 local8 local16 local20
      some (xallocEnd S m edi 0 local4 local8)

/-- `vmem_alloc`. `eax` is the arena, `edx` the size, `ecx` the flags. -/
def vmemAlloc (fuel : Nat) (m : Mem) (eax edx ecx : Word) (junk : Word × Word × Word) :
    Option (Word × Word × Mem) :=
  vmemXalloc S fuel m eax edx 0 0 0 0 (-1) ecx junk

/-- `vmem_size`. `eax` is the arena, `edx` the type mask. -/
def vmemSize (m : Mem) (eax edx : Word) : Word :=
  let mask := edx &&& (vmemMaskAlloc ||| vmemMaskFree)
  if mask = vmemMaskAlloc then m.read32 (eax + vmInUse)
  else if mask = vmemMaskFree then m.read32 (eax + vmSize) - m.read32 (eax + vmInUse)
  else m.read32 (eax + vmSize)

end StupidOS.Kernel
