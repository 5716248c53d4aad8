import StupidOS.Kernel.PmmLowMem
import StupidOS.Kernel.Klog

/-!
# The page allocator on the stack (`kernel/mm/pmm.inc`)

The routines of `pmm.inc` with the pushes, pops and calls they make, `klog` among them.
Whenever one of `Kernel.pmmAlloc`, `Kernel.pmmFree`, `Kernel.pmmInitRegion` and
`Kernel.pmmInitLowMemory` returns, the one here does, with the same memory and the same
registers (`Agrees`). The stack and the text memory of the console are apart from the
memory that the allocator works on.
-/

namespace StupidOS.Kernel.OnStack

variable (A : CallSite → Word) (E : KlogData) (K : KernelImage)

/-! ## Messages -/

/-- The messages of the routines. -/
inductive PmmMessage where
  | szMsgPmmFreeRange
  | szTracePmmAlloc
  | szTracePmmFree
deriving DecidableEq, Repr

def ascii (s : String) : List Byte := s.toList.map fun c => BitVec.ofNat 8 c.toNat

def PmmMessage.text : PmmMessage → List Byte
  | szMsgPmmFreeRange => ascii "PMM: add free memory region %x - %x"
  | szTracePmmAlloc => ascii "Trace(PMM): Alloc block (size: %u)"
  | szTracePmmFree => ascii "Trace(PMM): Free block (addr: %x, size: %u)"

-- the addresses of the messages
variable (T : PmmMessage → Word)

def cgaColorFgCyan : Byte := 0x03
def cgaColorFgLightGray : Byte := 0x07

/-- The `TRACE` macro -/
def trace (site : CallSite) (msg : PmmMessage) (args : List Word) (ecx : Word) (s : Cga)
    (f : Frame) : Option (Cga × Frame) := do
  let f := f.pushAll args
  let s := { s with color := cgaColorFgCyan }
  let (s, f) ← f.call (A site) (klog A E (T msg) ecx msg.text s)
  let f := f.drop args.length
  let s := { s with color := cgaColorFgLightGray }
  return (s, f)

/-! ## The routines -/

/-- `_pmm_init_region` -/
def pmmInitRegion (eax ecx edx : Word) (mc : Machine) (s : Cga) (f : Frame) :
    Option ((Machine × Cga) × Word × Frame) := do
  let f := f.enter
  let f := f.push f.edi
  let f := f.push f.esi
  let f := f.setEdi eax
  let f := f.setEsi edx
  let f := f.push edx
  let f := f.push eax
  let (s, f) ← f.call (A (.pmmInitRegion 0))
    (klog A E (T .szMsgPmmFreeRange) ecx PmmMessage.szMsgPmmFreeRange.text s)
  let eax := f.word 0
  let f := f.drop 1
  -- pop edx
  let f := f.drop 1
  let mc ← pmmMapTempPage mc eax
  let f := f.leaf (A (.pmmInitRegion 1))
  let ecx := 0
  -- compute size
  let f := f.setEsi (f.esi - f.edi)
  let mc ← mc.store32 pmmVirtTemp f.esi
  let mc ← mc.store32 (pmmVirtTemp + rangeNext) ecx
  let ecx ← mc.load32 K.pPmmFreeListHead
  let mc ← (if ecx = 0 then some mc else mc.store32 (pmmVirtTemp + rangeNext) ecx)
  let mc ← mc.store32 K.pPmmFreeListHead f.edi
  let mc ← pmmUnmapTempPage mc
  let f := f.leaf (A (.pmmInitRegion 2))
  let f := f.popEdi
  let f := f.popEsi
  return ((mc, s), f.leave.ret)

/-- `_pmm_init_low_memory`. The loop runs without the stack; what it leaves in EDI is
overwritten by the pop behind it. -/
def pmmInitLowMemory (fuel : Nat) (ecx : Word) (mc : Machine) (s : Cga) (f : Frame) :
    Option ((Machine × Cga) × Word × Frame) := do
  let f := f.enter
  let eax ← mc.load32 K.lowMem
  let f := f.push eax
  let f := f.push 0
  let (s, f) ← f.call (A .pmmInitLowMemory)
    (klog A E (T .szMsgPmmFreeRange) ecx PmmMessage.szMsgPmmFreeRange.text s)
  let f := f.drop 2
  -- clear bitmap
  let f := f.push f.edi
  let mc ← repStosdVirt mc K.au32PmmLowMemBitmap 0 8
  let f := f.setEdi K.au32PmmLowMemBitmap
  let (mc, ebx) ← iterate (pmmInitLowMemoryBody K) fuel (mc, 0, 0, f.edi, f.ebx)
  let f := f.setEbx ebx
  let f := f.popEdi
  return ((mc, s), f.leave.ret)

/-- One pass of the loop of `pmm_alloc`: machine, EAX and the registers. It leaves with EAX
where a block is found. -/
def pmmAllocBody : Machine × Word × Frame →
    Option (Pass (Machine × Word × Frame) (Machine × Frame × Option Word))
  | (mc, eax, f) =>
    if eax = 0 then
      -- no memory left :'(
      some (.done (mc, f, none))
    else do
      let mc ← pmmMapTempPage mc eax
      let f := f.leaf (A (.pmmAlloc 1))
      -- get size
      let size ← mc.load32 (pmmVirtTemp + rangeSize)
      if ¬ size.slt f.edi then
        return .done (mc, f, some (size - f.edi))
      else
        -- get next block
        let f := f.setEbx f.esi
        let esi ← mc.load32 (pmmVirtTemp + rangeNext)
        let f := f.setEsi esi
        let mc ← pmmUnmapTempPage mc
        let f := f.leaf (A (.pmmAlloc 2))
        return .again (mc, f.esi, f)

/-- "memory found" in `pmm_alloc` -/
def pmmAllocFound (mc : Machine) (eax : Word) (f : Frame) : Option (Machine × Frame) := do
  -- new size
  let mc ← mc.store32 (pmmVirtTemp + rangeSize) eax
  let f := f.setEsi (f.esi + eax)
  let (mc, f) ←
    (if eax ≠ 0 then some (mc, f)
    else do
      let edi ← mc.load32 (pmmVirtTemp + rangeNext)
      let f := f.setEdi edi
      if f.ebx = 0 then
        let mc ← mc.store32 K.pPmmFreeListHead f.edi
        return (mc, f)
      else
        let mc ← pmmUnmapTempPage mc
        let f := f.leaf (A (.pmmAlloc 3))
        let mc ← pmmMapTempPage mc f.ebx
        let f := f.leaf (A (.pmmAlloc 4))
        let mc ← mc.store32 (pmmVirtTemp + rangeNext) f.edi
        return (mc, f))
  let mc ← pmmUnmapTempPage mc
  return (mc, f.leaf (A (.pmmAlloc 5)))

/-- What follows the loop of `pmm_alloc`, with EAX and EDX at `.end` -/
def pmmAllocExit (mc : Machine) (f : Frame) :
    Option Word → Option (Machine × Word × Word × Frame)
  | none => some (mc, 0, enomem, f)
  | some eax => do
    let (mc, f) ← pmmAllocFound A K mc eax f
    return (mc, f.esi, 0, f)

/-- `pmm_alloc`, with EAX and EDX on return -/
def pmmAlloc (fuel : Nat) (eax ecx : Word) (mc : Machine) (s : Cga) (f : Frame) :
    Option ((Machine × Cga × Word × Word) × Word × Frame) := do
  let f := f.enter
  let f := f.push f.esi
  let f := f.push f.edi
  let f := f.push f.ebx
  let f := f.setEdi eax
  let f := f.setEdi (f.edi <<< 12)
  let (s, f) ← trace A E T (.pmmAlloc 0) .szTracePmmAlloc [f.edi] ecx s f
  let f := f.setEbx 0
  let eax ← mc.load32 K.pPmmFreeListHead
  let f := f.setEsi eax
  let (mc, f, found) ← iterate (pmmAllocBody A) fuel (mc, eax, f)
  let (mc, eax, edx, f) ← pmmAllocExit A K mc f found
  let f := f.popEbx
  let f := f.popEdi
  let f := f.popEsi
  return ((mc, s, eax, edx), f.leave.ret)

/-- `pmm_free` -/
def pmmFree (eax ecx edx : Word) (mc : Machine) (s : Cga) (f : Frame) :
    Option ((Machine × Cga) × Word × Frame) := do
  let f := f.enter
  let f := f.push f.esi
  let f := f.push f.edi
  let edx := edx <<< 12
  let f := f.setEdi edx
  let f := f.setEsi eax
  let (s, f) ← trace A E T (.pmmFree 0) .szTracePmmFree [f.esi, f.edi] ecx s f
  let eax := f.esi
  let mc ← pmmMapTempPage mc eax
  let f := f.leaf (A (.pmmFree 1))
  let eax ← mc.load32 K.pPmmFreeListHead
  let mc ← mc.store32 (pmmVirtTemp + rangeNext) eax
  let mc ← mc.store32 (pmmVirtTemp + rangeSize) f.edi
  let mc ← mc.store32 K.pPmmFreeListHead f.esi
  let mc ← pmmUnmapTempPage mc
  let f := f.leaf (A (.pmmFree 2))
  let f := f.popEsi
  let f := f.popEdi
  return ((mc, s), f.leave.ret)

/-! ## The stack is balanced -/

/-- `g` is `f` after a routine that returns with the registers `regs`. -/
structure Agrees (d : Nat) (f : Frame) (regs : SavedRegs) (g : Frame) : Prop
    extends Frame.Balanced d f g where
  ebx : g.ebx = regs.ebx
  esi : g.esi = regs.esi
  edi : g.edi = regs.edi

/-- The registers of a frame. -/
def saved (f : Frame) : SavedRegs := ⟨f.ebx, f.esi, f.edi⟩

variable {A E K T}
variable {mc mc' : Machine} {s : Cga}

theorem text_ok (msg : PmmMessage) : FormatOk msg.text = true := by
  cases msg with
  | szMsgPmmFreeRange => simp [PmmMessage.text, ascii, FormatOk]
  | szTracePmmAlloc => simp [PmmMessage.text, ascii, FormatOk]
  | szTracePmmFree => simp [PmmMessage.text, ascii, FormatOk]

theorem trace_spec (site : CallSite) (msg : PmmMessage) (args : List Word)
    (hargs : args.length ≤ 2) (ecx : Word) (hs : OnScreen s) (f : Frame) :
    ∃ s' g, trace A E T site msg args ecx s f = some (s', g) ∧ OnScreen s' ∧
      Frame.Kept 134 f g := by
  have hnil : Frame.Pushed 134 f [] f := Frame.Pushed.nil (by omega)
  have hpushed := hnil.pushAll args (by rw [List.length_nil]; omega)
  have hcolor : OnScreen { s with color := cgaColorFgCyan } := hs
  rcases (klog_kept (A := A) (E := E) (text_ok msg) (T msg) ecx).call hcolor (f.pushAll args)
    (A site) with ⟨s', h, hcall, hs', hkept⟩
  have hdropped := Frame.Pushed.drop args (hpushed.call hkept.toBalanced
    (by rw [List.length_append, List.length_nil]; omega))
  refine ⟨{ s' with color := cgaColorFgLightGray }, _, ?_, hs', hdropped.balanced, ?_, ?_, ?_⟩
  · rw [trace]
    dsimp only
    rw [hcall]
    rfl
  · rw [Frame.drop_ebx, hkept.ebx, Frame.pushAll_ebx]
  · rw [Frame.drop_esi, hkept.esi, Frame.pushAll_esi]
  · rw [Frame.drop_edi, hkept.edi, Frame.pushAll_edi]

theorem pmmFree_returns {eax edx : Word} {f : Frame} {regs : SavedRegs}
    (hrun : Kernel.pmmFree K mc eax edx (saved f) = some (mc', regs)) (hs : OnScreen s)
    (ecx r : Word) :
    ∃ s' g, pmmFree A E K T eax ecx edx mc s (f.push r) = some ((mc', s'), r, g) ∧
      OnScreen s' ∧ Agrees 154 f regs g := by
  have hnil : Frame.Pushed 146 (f.push r).enter [] (f.push r).enter := Frame.Pushed.nil (by omega)
  have hesi := hnil.push (by simp) f.esi
  have hedi := hesi.push (by simp) f.edi
  have hsaved := (hedi.setEdi (edx <<< 12)).setEsi eax
  rcases trace_spec (A := A) (E := E) (T := T) (.pmmFree 0) .szTracePmmFree
    [eax, edx <<< 12] (Nat.le_refl 2) ecx hs
    (((((f.push r).enter.push f.esi).push f.edi).setEdi (edx <<< 12)).setEsi eax) with
    ⟨s', g₁, htrace, hs', hkept⟩
  have hbody := (hkept.toBalanced.leaf (by omega) (A (.pmmFree 1))).leaf (by omega)
    (A (.pmmFree 2))
  have hback := hsaved.call hbody (by simp)
  -- ESI is popped first, and gets what was in EDI
  rcases hback.popEsi with ⟨hpopped, hnew⟩
  rcases hpopped.popEdi with ⟨hempty, hnew'⟩
  rcases hempty.leave.ret (by omega) with ⟨hret, hbalanced⟩
  simp only [Kernel.pmmFree, Option.bind_eq_bind, Option.bind_eq_some_iff] at hrun
  rcases hrun with ⟨mc₁, hmap, head, hload, mc₂, hnext, mc₃, hsize, mc₄, hhead, mc₅, hunmap, hdone⟩
  rcases Prod.mk.inj (Option.some.inj hdone) with ⟨rfl, rfl⟩
  refine ⟨s', _, ?_, hs', hbalanced, ?_, ?_, ?_⟩
  · rw [pmmFree]
    dsimp only
    simp only [Frame.enter_esi, Frame.push_esi, Frame.enter_edi, Frame.push_edi, Frame.setEdi_edi,
      Frame.setEsi_esi, Frame.setEsi_edi, htrace, Option.bind_eq_bind, Option.bind_some, hkept.esi,
      hkept.edi, Frame.leaf_esi, Frame.leaf_edi, hmap, hload, hnext, hsize, hhead, hunmap, hret]
    rfl
  · simp only [Frame.drop_ebx, Frame.leave_ebx, Frame.popEdi_ebx, Frame.popEsi_ebx, Frame.leaf_ebx,
      hkept.ebx, Frame.setEsi_ebx, Frame.setEdi_ebx, Frame.push_ebx, Frame.enter_ebx, saved]
  · rw [Frame.drop_esi, Frame.leave_esi, Frame.popEdi_esi, hnew, saved]
  · rw [Frame.drop_edi, Frame.leave_edi, hnew', saved]

theorem pmmInitRegion_returns {eax edx : Word} {f : Frame} {regs : SavedRegs}
    (hrun : Kernel.pmmInitRegion K mc eax edx (saved f) = some (mc', regs)) (hs : OnScreen s)
    (ecx r : Word) :
    ∃ s' g, pmmInitRegion A E K T eax ecx edx mc s (f.push r) = some ((mc', s'), r, g) ∧
      OnScreen s' ∧ Agrees 154 f regs g := by
  have hnil : Frame.Pushed 146 (f.push r).enter [] (f.push r).enter := Frame.Pushed.nil (by omega)
  have hedi := hnil.push (by simp) f.edi
  have hesi := hedi.push (by simp) f.esi
  have hedx := ((hesi.setEdi eax).setEsi edx).push (by simp) edx
  have heax := hedx.push (by simp) eax
  rcases (klog_kept (A := A) (E := E) (text_ok .szMsgPmmFreeRange) (T .szMsgPmmFreeRange)
    ecx).call hs (((((((f.push r).enter.push f.edi).push f.esi).setEdi eax).setEsi edx).push
    edx).push eax) (A (.pmmInitRegion 0)) with ⟨s', g₁, hklog, hs', hkept⟩
  have hcalled := heax.call hkept.toBalanced
    (by simp)
  have hargs := hcalled.pop.pop
  have hmapped := hargs.call (Frame.leaf_kept (A (.pmmInitRegion 1))).toBalanced
    (by simp)
  have hback := (hmapped.setEsi (edx - eax)).call
    (Frame.leaf_kept (A (.pmmInitRegion 2))).toBalanced
    (by simp)
  -- EDI is popped first, and gets what was in ESI
  rcases hback.popEdi with ⟨hpopped, hnew⟩
  rcases hpopped.popEsi with ⟨hempty, hnew'⟩
  rcases hempty.leave.ret (by omega) with ⟨hret, hbalanced⟩
  simp only [Kernel.pmmInitRegion, Option.bind_eq_bind, Option.bind_eq_some_iff] at hrun
  rcases hrun with ⟨mc₁, hmap, mc₂, hsize, mc₃, hnext, head, hload, hrest⟩
  have hbind : (if head = 0 then some mc₃
      else mc₃.store32 (pmmVirtTemp + rangeNext) head).bind (fun mc₄ =>
        (mc₄.store32 K.pPmmFreeListHead eax).bind fun mc₅ => (pmmUnmapTempPage mc₅).bind fun mc₆ =>
          some (mc₆, { saved f with esi := f.edi, edi := f.esi })) = some (mc', regs) := by
    by_cases hzero : head = 0
    · rw [if_pos hzero] at hrest ⊢
      exact hrest
    · rw [if_neg hzero] at hrest ⊢
      exact hrest
  simp only [Option.bind_eq_some_iff] at hbind
  rcases hbind with ⟨mc₄, hlink, mc₅, hhead, mc₆, hunmap, hdone⟩
  rcases Prod.mk.inj (Option.some.inj hdone) with ⟨rfl, rfl⟩
  refine ⟨s', _, ?_, hs', hbalanced, ?_, ?_, ?_⟩
  · rw [pmmInitRegion]
    dsimp only
    simp only [Frame.enter_esi, Frame.push_esi, Frame.enter_edi, Frame.push_edi, hklog,
      Option.bind_eq_bind, Option.bind_some, hcalled.top, hmap, Frame.leaf_esi, Frame.leaf_edi,
      Frame.drop_esi, Frame.drop_edi, hkept.esi, hkept.edi, Frame.setEsi_esi, Frame.setEsi_edi,
      Frame.setEdi_edi, hsize, hnext, hload, hlink, hhead, hunmap, hret]
    rfl
  · simp only [Frame.drop_ebx, Frame.leave_ebx, Frame.popEdi_ebx, Frame.popEsi_ebx, Frame.leaf_ebx,
      hkept.ebx, Frame.setEsi_ebx, Frame.setEdi_ebx, Frame.push_ebx, Frame.enter_ebx, saved]
  · rw [Frame.drop_esi, Frame.leave_esi, hnew', saved]
  · rw [Frame.drop_edi, Frame.leave_edi, Frame.popEsi_edi, hnew, saved]

theorem pmmInitLowMemory_returns {low : Word} {f : Frame} {regs : SavedRegs} {fuel : Nat}
    (hlow : mc.load32 K.lowMem = some low)
    (hrun : Kernel.pmmInitLowMemory K fuel mc (saved f) = some (mc', regs)) (hs : OnScreen s)
    (ecx r : Word) :
    ∃ s' g, pmmInitLowMemory A E K T fuel ecx mc s (f.push r) = some ((mc', s'), r, g) ∧
      OnScreen s' ∧ Agrees 154 f regs g := by
  have hnil : Frame.Pushed 146 (f.push r).enter [] (f.push r).enter := Frame.Pushed.nil (by omega)
  have heax := hnil.push (by simp) low
  have hzero := heax.push (by simp) 0
  rcases (klog_kept (A := A) (E := E) (text_ok .szMsgPmmFreeRange) (T .szMsgPmmFreeRange)
    ecx).call hs (((f.push r).enter.push low).push 0) (A .pmmInitLowMemory) with
    ⟨s', g₁, hklog, hs', hkept⟩
  have hcalled := hzero.call hkept.toBalanced
    (by simp)
  have hargs : Frame.Pushed 146 (f.push r).enter [] (g₁.drop 2) :=
    Frame.Pushed.drop [0, low] hcalled
  have hedi := hargs.push (by simp) f.edi
  simp only [Kernel.pmmInitLowMemory, Option.bind_eq_bind, Option.bind_eq_some_iff] at hrun
  rcases hrun with ⟨mc₁, hclear, ⟨mc₂, ebx⟩, hloop, hdone⟩
  rcases Prod.mk.inj (Option.some.inj hdone) with ⟨rfl, rfl⟩
  simp only [saved] at hloop
  rcases ((hedi.setEdi K.au32PmmLowMemBitmap).setEbx ebx).popEdi with ⟨hempty, hnew⟩
  rcases hempty.leave.ret (by omega) with ⟨hret, hbalanced⟩
  refine ⟨s', _, ?_, hs', hbalanced, ?_, ?_, ?_⟩
  · rw [pmmInitLowMemory]
    dsimp only
    simp only [hlow, Option.bind_eq_bind, Option.bind_some, hklog, Frame.drop_edi, hkept.edi,
      Frame.push_edi, Frame.enter_edi, hclear, Frame.setEdi_edi, Frame.setEdi_ebx, Frame.push_ebx,
      Frame.drop_ebx, hkept.ebx, Frame.enter_ebx, hloop, hret]
    rfl
  · rw [Frame.drop_ebx, Frame.leave_ebx, Frame.popEdi_ebx, Frame.setEbx_ebx]
  · simp only [Frame.drop_esi, Frame.leave_esi, Frame.popEdi_esi, Frame.setEbx_esi,
      Frame.setEdi_esi, Frame.push_esi, hkept.esi, Frame.enter_esi, saved]
  · rw [Frame.drop_edi, Frame.leave_edi, hnew, saved]

/-! ### `pmm_alloc` -/

/-- The loop of `pmm_alloc` on the stack, between passes: `f` is the frame it started in. -/
structure Follows (f : Frame) (edi : Word) (t : Machine × Word × Word × Word)
    (u : Machine × Word × Frame) : Prop where
  mc : u.1 = t.1
  eax : u.2.1 = t.2.1
  ebx : u.2.2.ebx = t.2.2.1
  esi : u.2.2.esi = t.2.2.2
  edi : u.2.2.edi = edi
  balanced : Frame.Balanced 4 f u.2.2

/-- The results of the two loops. -/
structure Leaves (f : Frame) (t : Machine × Option (Word × Word × Word))
    (u : Machine × Frame × Option Word) : Prop where
  mc : u.1 = t.1
  found : u.2.2 = t.2.map Prod.fst
  regs : ∀ eax ebx esi, t.2 = some (eax, ebx, esi) → u.2.1.ebx = ebx ∧ u.2.1.esi = esi
  balanced : Frame.Balanced 4 f u.2.1

/-- What a pass of the loop that has a block does. -/
theorem pmmAllocBody_cases {edi eax ebx esi : Word} {mc : Machine} (hne : eax ≠ 0)
    {pass : Pass (Machine × Word × Word × Word) (Machine × Option (Word × Word × Word))}
    (hpass : Kernel.pmmAllocBody edi (mc, eax, ebx, esi) = some pass) :
    ∃ mc₁ size, pmmMapTempPage mc eax = some mc₁ ∧
      mc₁.load32 (pmmVirtTemp + rangeSize) = some size ∧
      (¬ size.slt edi = true ∧ pass = .done (mc₁, some (size - edi, ebx, esi)) ∨
        size.slt edi = true ∧ ∃ next mc₂, mc₁.load32 (pmmVirtTemp + rangeNext) = some next ∧
          pmmUnmapTempPage mc₁ = some mc₂ ∧ pass = .again (mc₂, next, esi, next)) := by
  rw [Kernel.pmmAllocBody, if_neg hne] at hpass
  rcases Option.bind_eq_some_iff.mp hpass with ⟨mc₁, hmap, hpass⟩
  rcases Option.bind_eq_some_iff.mp hpass with ⟨size, hsize, hpass⟩
  refine ⟨mc₁, size, hmap, hsize, ?_⟩
  by_cases hless : size.slt edi = true
  · rw [if_neg (not_not.mpr hless)] at hpass
    rcases Option.bind_eq_some_iff.mp hpass with ⟨next, hnext, hpass⟩
    rcases Option.bind_eq_some_iff.mp hpass with ⟨mc₂, hunmap, hpass⟩
    exact Or.inr ⟨hless, next, mc₂, hnext, hunmap, (Option.some.inj hpass).symm⟩
  · rw [if_pos hless] at hpass
    exact Or.inl ⟨hless, (Option.some.inj hpass).symm⟩

/-- The loop follows the one of `Kernel.pmmAlloc`. -/
theorem pmmAllocLoop_follows {f : Frame} {edi : Word} {fuel : Nat}
    {t : Machine × Word × Word × Word} {u : Machine × Word × Frame}
    {t' : Machine × Option (Word × Word × Word)} (hfollows : Follows f edi t u)
    (hloop : iterate (Kernel.pmmAllocBody edi) fuel t = some t') :
    ∃ u', iterate (pmmAllocBody A) fuel u = some u' ∧ Leaves f t' u' := by
  refine iterate_sim (Follows f edi) (Leaves f) ?_ ?_ hfollows hloop
  · rintro ⟨mc, eax, ebx, esi⟩ ⟨mc', eax', g⟩ t' ⟨hmc, heax, hebx, hesi, hedi, hbalanced⟩ hpass
    dsimp only at hmc heax hebx hesi hedi hbalanced
    subst hmc heax hebx hesi
    have hne : eax' ≠ 0 := by
      intro hzero
      rw [Kernel.pmmAllocBody, if_pos hzero] at hpass
      cases hpass
    rcases pmmAllocBody_cases hne hpass with ⟨mc₁, size, hmap, hsize, hdone | hagain⟩
    · cases hdone.2
    · rcases hagain with ⟨hless, next, mc₂, hnext, hunmap, hpass⟩
      rw [Pass.again.inj hpass]
      refine ⟨(mc₂, next, (((g.leaf (A (.pmmAlloc 1))).setEbx g.esi).setEsi next).leaf
        (A (.pmmAlloc 2))), ?_, rfl, rfl, rfl, rfl, hedi, ?_⟩
      · rw [pmmAllocBody, if_neg hne]
        dsimp only
        rw [Frame.leaf_edi, hedi]
        simp only [hmap, hsize, Option.bind_eq_bind, Option.bind_some, hless, not_true_eq_false,
          if_false, hnext, hunmap]
        rfl
      · exact (((hbalanced.leaf (Nat.le_refl 4) _).setEbx _).setEsi next).leaf (Nat.le_refl 4) _
  · rintro ⟨mc, eax, ebx, esi⟩ ⟨mc', eax', g⟩ t' ⟨hmc, heax, hebx, hesi, hedi, hbalanced⟩ hpass
    dsimp only at hmc heax hebx hesi hedi hbalanced
    subst hmc heax hebx hesi
    by_cases hzero : eax' = 0
    · rw [Kernel.pmmAllocBody, if_pos hzero] at hpass
      rw [← Pass.done.inj (Option.some.inj hpass)]
      refine ⟨(mc', g, none), ?_, rfl, rfl, ?_, hbalanced⟩
      · rw [pmmAllocBody, if_pos hzero]
      · intro eax ebx esi hfound
        cases hfound
    · rcases pmmAllocBody_cases hzero hpass with ⟨mc₁, size, hmap, hsize, hdone | hagain⟩
      · rw [Pass.done.inj hdone.2]
        refine ⟨(mc₁, g.leaf (A (.pmmAlloc 1)), some (size - edi)), ?_, rfl, rfl, ?_,
          hbalanced.leaf (Nat.le_refl 4) _⟩
        · rw [pmmAllocBody, if_neg hzero]
          dsimp only
          rw [Frame.leaf_edi, hedi]
          simp only [hmap, hsize, Option.bind_eq_bind, Option.bind_some, hdone.1]
          rfl
        · intro eax ebx esi hfound
          rcases Prod.mk.inj (Option.some.inj hfound) with ⟨-, hregs⟩
          rcases Prod.mk.inj hregs with ⟨rfl, rfl⟩
          exact ⟨rfl, rfl⟩
      · rcases hagain with ⟨-, next, mc₂, -, -, hpass⟩
        cases hpass

theorem pmmAllocFound_follows {eax w : Word} {f g : Frame}
    (hfound : Kernel.pmmAllocFound K mc eax g.ebx g.esi = some (mc', w))
    (hbalanced : Frame.Balanced 4 f g) :
    ∃ h, pmmAllocFound A K mc eax g = some (mc', h) ∧ h.esi = w ∧ Frame.Balanced 4 f h := by
  rw [Kernel.pmmAllocFound] at hfound
  rcases Option.bind_eq_some_iff.mp hfound with ⟨mc₁, hsize, hrest⟩
  rw [pmmAllocFound, Option.bind_eq_bind, hsize, Option.bind_some]
  dsimp only at hrest ⊢
  -- room to spare, an exact fit of the first block, or one of a later block
  by_cases hroom : eax ≠ 0
  · rw [if_pos hroom] at hrest ⊢
    simp only [Option.bind_eq_bind, Option.bind_some, Option.bind_eq_some_iff] at hrest ⊢
    rcases hrest with ⟨mc₂, hunmap, hdone⟩
    rcases Prod.mk.inj (Option.some.inj hdone) with ⟨rfl, rfl⟩
    exact ⟨_, ⟨mc₂, hunmap, rfl⟩, rfl, (hbalanced.setEsi _).leaf (Nat.le_refl 4) _⟩
  rw [if_neg hroom] at hrest ⊢
  rcases Option.bind_eq_some_iff.mp hrest with ⟨edi, hnext, hrest⟩
  rw [Option.bind_eq_bind, Option.bind_eq_bind, hnext, Option.bind_some]
  by_cases hfirst : g.ebx = 0
  · have hfirst' : ((g.setEsi (g.esi + eax)).setEdi edi).ebx = 0 := hfirst
    rw [if_pos hfirst] at hrest
    rw [if_pos hfirst']
    simp only [Option.bind_eq_bind, Option.bind_eq_some_iff] at hrest
    rcases hrest with ⟨mc₂, hhead, mc₃, hunmap, hdone⟩
    rcases Prod.mk.inj (Option.some.inj hdone) with ⟨rfl, rfl⟩
    refine ⟨_, ?_, rfl, ((hbalanced.setEsi (g.esi + eax)).setEdi edi).leaf (Nat.le_refl 4)
      (A (.pmmAlloc 5))⟩
    simp only [Frame.setEdi_edi, hhead, Option.pure_def, Option.bind_some, hunmap]
  · have hfirst' : ¬ ((g.setEsi (g.esi + eax)).setEdi edi).ebx = 0 := hfirst
    rw [if_neg hfirst] at hrest
    rw [if_neg hfirst']
    simp only [Option.bind_eq_bind, Option.bind_eq_some_iff] at hrest
    rcases hrest with ⟨mc₂, hunmap, mc₃, hmap, mc₄, hlink, mc₅, hunmap', hdone⟩
    rcases Prod.mk.inj (Option.some.inj hdone) with ⟨rfl, rfl⟩
    refine ⟨_, ?_, rfl, ((((hbalanced.setEsi (g.esi + eax)).setEdi edi).leaf (Nat.le_refl 4)
      (A (.pmmAlloc 3))).leaf (Nat.le_refl 4) (A (.pmmAlloc 4))).leaf (Nat.le_refl 4)
      (A (.pmmAlloc 5))⟩
    simp only [hunmap, hmap, Frame.leaf_edi, Frame.leaf_ebx, Frame.setEdi_edi, Frame.setEdi_ebx,
      Frame.setEsi_ebx, hlink, Option.pure_def, Option.bind_some, hunmap']

theorem pmmAlloc_returns {eax : Word} {f : Frame} {fuel : Nat} {res : PmmResult}
    (hrun : Kernel.pmmAlloc K fuel mc eax (saved f) = some res) (hs : OnScreen s) (ecx r : Word) :
    ∃ s' g, pmmAlloc A E K T fuel eax ecx mc s (f.push r)
        = some ((res.mc, s', res.eax, res.edx), r, g) ∧
      OnScreen s' ∧ Agrees 158 f (saved f) g := by
  have hnil : Frame.Pushed 150 (f.push r).enter [] (f.push r).enter := Frame.Pushed.nil (by omega)
  have hesi := hnil.push (by simp) f.esi
  have hedi := hesi.push (by simp) f.edi
  have hebx := hedi.push (by simp) f.ebx
  have hsaved := (hebx.setEdi eax).setEdi (eax <<< 12)
  rcases trace_spec (A := A) (E := E) (T := T) (.pmmAlloc 0) .szTracePmmAlloc [eax <<< 12]
    (by simp) ecx hs ((((((f.push r).enter.push f.esi).push f.edi).push f.ebx).setEdi eax).setEdi
    (eax <<< 12)) with ⟨s', g₁, htrace, hs', hkept⟩
  have htraced := hsaved.call hkept.toBalanced (by simp)
  rw [Kernel.pmmAlloc] at hrun
  rcases Option.bind_eq_some_iff.mp hrun with ⟨head, hload, hrest⟩
  rcases Option.bind_eq_some_iff.mp hrest with ⟨⟨mc₁, found⟩, hloop, hfound⟩
  have hstart : Follows ((g₁.setEbx 0).setEsi head) (eax <<< 12) (mc, head, 0, head)
      (mc, head, (g₁.setEbx 0).setEsi head) :=
    ⟨rfl, rfl, rfl, rfl, hkept.edi, Frame.Balanced.refl⟩
  rcases pmmAllocLoop_follows (A := A) hstart hloop with ⟨⟨mc₂, g₂, eax₂⟩, hloop', hleaves⟩
  -- the end of the loop, on both exits
  have hend : ∃ g₃, pmmAllocExit A K mc₂ g₂ eax₂ = some (res.mc, res.eax, res.edx, g₃) ∧
      Frame.Balanced 4 ((g₁.setEbx 0).setEsi head) g₃ := by
    rcases hleaves with ⟨hmc, hout, hregs, hbalanced⟩
    dsimp only at hmc hout hregs hbalanced
    subst hmc hout
    cases found with
    | none =>
        rw [← Option.some.inj hfound]
        exact ⟨g₂, rfl, hbalanced⟩
    | some found =>
        rcases found with ⟨eax₂, ebx, esi⟩
        rcases hregs _ _ _ rfl with ⟨rfl, rfl⟩
        rcases Option.bind_eq_some_iff.mp hfound with ⟨⟨mc₃, w⟩, hfound', hdone⟩
        rcases pmmAllocFound_follows (A := A) hfound' hbalanced with ⟨g₃, hrun₃, hw, hbalanced₃⟩
        rw [← Option.some.inj hdone, ← hw]
        refine ⟨g₃, ?_, hbalanced₃⟩
        rw [Option.map_some, pmmAllocExit, hrun₃]
        rfl
  rcases hend with ⟨g₃, hlast, hbalanced₃⟩
  have hback := ((htraced.setEbx 0).setEsi head).call hbalanced₃ (by simp)
  rcases hback.popEbx with ⟨hp₁, hnew⟩
  rcases hp₁.popEdi with ⟨hp₂, hnew'⟩
  rcases hp₂.popEsi with ⟨hp₃, hnew''⟩
  rcases hp₃.leave.ret (by omega) with ⟨hret, hbalanced⟩
  refine ⟨s', _, ?_, hs', hbalanced, ?_, ?_, ?_⟩
  · rw [pmmAlloc]
    dsimp only
    simp only [Frame.enter_esi, Frame.push_esi, Frame.enter_edi, Frame.push_edi, Frame.enter_ebx,
      Frame.push_ebx, Frame.setEdi_edi, htrace, hload, Option.bind_eq_bind, Option.bind_some, hloop']
    rw [hlast]
    simp only [Option.bind_some, hret]
    rfl
  · rw [Frame.drop_ebx, Frame.leave_ebx, Frame.popEsi_ebx, Frame.popEdi_ebx, hnew, saved]
  · rw [Frame.drop_esi, Frame.leave_esi, hnew'', saved]
  · rw [Frame.drop_edi, Frame.leave_edi, Frame.popEsi_edi, hnew', saved]

end StupidOS.Kernel.OnStack
