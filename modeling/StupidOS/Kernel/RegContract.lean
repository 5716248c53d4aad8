import StupidOS.Kernel.PmmStack

/-!
# The registers that callers rely on

`pmm_alloc`, `pmm_free`, `_pmm_init_region`, `_pmm_init_low_memory` and `cga_putc` return
to their callers with EBP and ESP as they were. EBX, ESI and EDI come back as well from
`pmm_alloc` only; for the others `registerContract_iff` says when they do.
-/

namespace StupidOS.Kernel.OnStack

/-! ## The contract -/

/-- The registers that a caller relies on are those of `f`. -/
structure SameRegs (f g : Frame) : Prop where
  ebx : g.ebx = f.ebx
  esi : g.esi = f.esi
  edi : g.edi = f.edi
  ebp : g.ebp = f.ebp
  esp : g.esp = f.esp

/-- Called in `f`, `routine` returns to its caller with the registers of `f`. -/
def Honours {α : Type} (routine : Frame → Option (α × Word × Frame)) (f : Frame) : Prop :=
  ∀ r, ∃ a g, routine (f.push r) = some (a, r, g) ∧ SameRegs f g

/-- A call of one of the routines, with the registers and the memory it works on. -/
inductive RoutineCall where
  | pmmAlloc (eax ecx : Word) (mc : Machine)
  | pmmFree (eax ecx edx : Word) (mc : Machine)
  | pmmInitRegion (eax ecx edx : Word) (mc : Machine)
  | pmmInitLowMemory (ecx : Word) (mc : Machine)
  | cgaPutc (eax : Word)

namespace RoutineCall

/-- `stBootInfo.low_mem` -/
def lowMem (K : KernelImage) (mc : Machine) : Word := mc.mem.read32 (K.lowMem - kernelVirtBase)

/-- What the routine needs. The bitmap holds the pages below 1 MiB. -/
def Pre (K : KernelImage) : RoutineCall → Prop
  | pmmAlloc _ _ mc => ∃ l, FreeList K mc l
  | pmmFree eax _ _ mc => KernelPaging K.kend mc ∧ Header K eax
  | pmmInitRegion eax _ _ mc => KernelPaging K.kend mc ∧ Header K eax
  | pmmInitLowMemory _ mc => KernelPaging K.kend mc ∧
      ((lowMem K mc).toNat < 0x101000 ∨ 2 ^ 31 ≤ (lowMem K mc).toNat)
  | cgaPutc _ => True

/-- With enough passes of its loop the call honours the contract. -/
def Honours (A : CallSite → Word) (E : KlogData) (K : KernelImage) (T : PmmMessage → Word)
    (s : Cga) (f : Frame) : RoutineCall → Prop
  | pmmAlloc eax ecx mc =>
      ∃ n, ∀ fuel, n < fuel → OnStack.Honours (OnStack.pmmAlloc A E K T fuel eax ecx mc s) f
  | pmmFree eax ecx edx mc => OnStack.Honours (OnStack.pmmFree A E K T eax ecx edx mc s) f
  | pmmInitRegion eax ecx edx mc =>
      OnStack.Honours (OnStack.pmmInitRegion A E K T eax ecx edx mc s) f
  | pmmInitLowMemory ecx mc =>
      ∃ n, ∀ fuel, n < fuel → OnStack.Honours (OnStack.pmmInitLowMemory A E K T fuel ecx mc s) f
  | cgaPutc eax => OnStack.Honours (OnStack.cgaPutc A eax s) f

/-- What the registers have to be for the routine to leave them alone: ESI and EDI equal
where they come back exchanged, and EBX the last bit that the bitmap gets. -/
def Restores (K : KernelImage) (s : Cga) (f : Frame) : RoutineCall → Prop
  | pmmAlloc _ _ _ => True
  | pmmFree _ _ _ _ => f.esi = f.edi
  | pmmInitRegion _ _ _ _ => f.esi = f.edi
  | pmmInitLowMemory _ mc => lastBit f.ebx (lowPages (lowMem K mc)) = f.ebx
  | cgaPutc eax => scrolls (eax.setWidth 8) s.pos.toNat = true → f.esi = f.edi

end RoutineCall

/-- Every call with its precondition honours the contract. -/
def RegisterContract (A : CallSite → Word) (E : KlogData) (K : KernelImage)
    (T : PmmMessage → Word) : Prop :=
  ∀ (c : RoutineCall) (s : Cga) (f : Frame), OnScreen s → c.Pre K → c.Honours A E K T s f

/-! ## What the routines hand back -/

variable {A : CallSite → Word} {E : KlogData} {K : KernelImage} {T : PmmMessage → Word}

/-- A routine that hands back the registers `regs`. -/
theorem honours_iff {α : Type} {routine : Frame → Option (α × Word × Frame)} {f : Frame} {d : Nat}
    (regs : SavedRegs)
    (hrun : ∀ r, ∃ a g, routine (f.push r) = some (a, r, g) ∧ Agrees d f regs g) :
    Honours routine f ↔ regs = saved f := by
  constructor
  · intro hhonours
    rcases hrun 0 with ⟨a, g, hres, hagrees⟩
    rcases hhonours 0 with ⟨a', g', hres', hsame⟩
    rw [hres, Option.some.injEq, Prod.mk.injEq, Prod.mk.injEq] at hres'
    rcases hres' with ⟨-, -, rfl⟩
    have hebx := hagrees.ebx.symm.trans hsame.ebx
    have hesi := hagrees.esi.symm.trans hsame.esi
    have hedi := hagrees.edi.symm.trans hsame.edi
    cases regs
    rw [saved, ← hebx, ← hesi, ← hedi]
  · rintro rfl r
    rcases hrun r with ⟨a, g, hres, hagrees⟩
    exact ⟨a, g, hres, hagrees.ebx, hagrees.esi, hagrees.edi, hagrees.ebp, hagrees.esp⟩

/-- ESI and EDI exchanged. -/
theorem exchanged_iff {f : Frame} :
    ({ saved f with esi := f.edi, edi := f.esi } : SavedRegs) = saved f ↔ f.esi = f.edi := by
  rw [saved, SavedRegs.mk.injEq]
  constructor
  · rintro ⟨-, hesi, -⟩
    exact hesi.symm
  · intro heq
    exact ⟨rfl, heq.symm, heq⟩

/-- What `cga_putc` hands back. -/
def putcRegs (eax : Word) (s : Cga) (f : Frame) : SavedRegs where
  ebx := f.ebx
  esi := if scrolls (eax.setWidth 8) s.pos.toNat then f.edi else f.esi
  edi := if scrolls (eax.setWidth 8) s.pos.toNat then f.esi else f.edi

/-- **The register contract.** A call honours it exactly when the registers it comes with
are such that the exchange of ESI and EDI, or the new EBX, does not show. -/
theorem registerContract_iff (c : RoutineCall) {s : Cga} (hs : OnScreen s) (f : Frame)
    (hpre : c.Pre K) : c.Honours A E K T s f ↔ c.Restores K s f := by
  cases c with
  | pmmAlloc eax ecx mc =>
      rcases hpre with ⟨l, hl⟩
      refine iff_of_true ⟨l.length, ?_⟩ trivial
      intro fuel hfuel
      rcases pmmAlloc_spec hl eax (saved f) hfuel with ⟨res, hres, -⟩
      refine (honours_iff (d := 158) (saved f) ?_).mpr rfl
      intro r
      rcases pmmAlloc_returns (A := A) (E := E) (T := T) hres hs ecx r with
        ⟨s', g, hrun, -, hagrees⟩
      exact ⟨_, g, hrun, hagrees⟩
  | pmmFree eax ecx edx mc =>
      refine (honours_iff (d := 154) _ ?_).trans exchanged_iff
      intro r
      rcases pmmFree_returns (A := A) (E := E) (T := T)
        (pmmFree_eq hpre.1 hpre.2 edx (saved f)) hs ecx r with ⟨s', g, hrun, -, hagrees⟩
      exact ⟨_, g, hrun, hagrees⟩
  | pmmInitRegion eax ecx edx mc =>
      refine (honours_iff (d := 154) _ ?_).trans exchanged_iff
      intro r
      rcases pmmInitRegion_returns (A := A) (E := E) (T := T)
        (pmmInitRegion_eq hpre.1 hpre.2 edx (saved f)) hs ecx r with ⟨s', g, hrun, -, hagrees⟩
      exact ⟨_, g, hrun, hagrees⟩
  | pmmInitLowMemory ecx mc =>
      rcases hpre with ⟨hpaging, hrange⟩
      have heach : ∀ fuel, 256 < fuel →
          (Honours (pmmInitLowMemory A E K T fuel ecx mc s) f
            ↔ lastBit f.ebx (lowPages (RoutineCall.lowMem K mc)) = f.ebx) := by
        intro fuel hfuel
        rcases Kernel.pmmInitLowMemory_returns hpaging rfl hrange (saved f) hfuel with
          ⟨mc', regs, hres, hregs, -⟩
        have hload := hpaging.load_image K.kend_high (lowMem_word (K := K)).1
        refine (honours_iff (d := 154) regs ?_).trans ?_
        · intro r
          rcases pmmInitLowMemory_returns (A := A) (E := E) (T := T) hload hres hs ecx r with
            ⟨s', g, hrun, -, hagrees⟩
          exact ⟨_, g, hrun, hagrees⟩
        · rw [hregs, saved, SavedRegs.mk.injEq]
          exact ⟨fun hall => hall.1, fun hebx => ⟨hebx, rfl, rfl⟩⟩
      constructor
      · intro hhonours
        rcases hhonours with ⟨n, hall⟩
        exact (heach (n + 257) (by omega)).mp (hall (n + 257) (by omega))
      · intro hebx
        exact ⟨256, fun fuel hfuel => (heach fuel hfuel).mpr hebx⟩
  | cgaPutc eax =>
      refine (honours_iff (d := 26) (putcRegs eax s f) ?_).trans ?_
      · intro r
        rcases cgaPutc_spec (A := A) hs eax f r with ⟨s', g, hrun, hret⟩
        exact ⟨s', g, hrun, hret.balanced, hret.ebx, hret.esi, hret.edi⟩
      · rw [putcRegs, saved, SavedRegs.mk.injEq]
        constructor
        · rintro ⟨-, hesi, -⟩ hscroll
          rw [if_pos hscroll] at hesi
          exact hesi.symm
        · intro heq
          refine ⟨rfl, ?_, ?_⟩
          · exact ite_eq_right_iff.mpr fun hscroll => (heq hscroll).symm
          · exact ite_eq_right_iff.mpr heq

/-- Any addresses for the calls, the messages and the buffers of `klog`. -/
def demoData : KlogData := ⟨[], fun _ => [], 0xC0101000, 0xC0101010, 0xC0101020, 0xC0101030⟩

/-- A frame with different values in the registers. -/
def demoFrame : Frame := ⟨1, 2, 3, 0xC03FF020, 0xC03FF000, fun _ => 0⟩

/-- A screen with the cursor in its last cell. -/
def fullScreen : Cga :=
  { blankScreen with crtc := ⟨0, fun i => if i = cgaCursorHigh then 0x07 else 0xCF⟩ }

/-- A line feed that does not scroll. -/
theorem registerContract_iff_blank :
    (RoutineCall.cgaPutc 0x0A).Honours (fun _ => 0xC0100000) demoData demoImage
      (fun _ => 0xC0102000) blankScreen demoFrame := by
  refine (registerContract_iff (.cgaPutc 0x0A) (by decide) demoFrame trivial).mpr ?_
  intro hscroll
  exact absurd hscroll (by decide)

/-- The same on the last line: ESI and EDI are exchanged. -/
theorem registerContract_counterexample :
    ¬ RegisterContract (fun _ => 0xC0100000) demoData demoImage (fun _ => 0xC0102000) := by
  intro hcontract
  have hhonours : Honours (cgaPutc (fun _ => 0xC0100000) 0x0A fullScreen) demoFrame :=
    hcontract (.cgaPutc 0x0A) fullScreen demoFrame (by decide) trivial
  -- the call returns with the registers exchanged
  rcases cgaPutc_spec (s := fullScreen) (by decide) 0x0A demoFrame 0 with ⟨s', g, hrun, hret⟩
  rcases hhonours 0 with ⟨s₁, g₁, hrun₁, hsame⟩
  rw [hrun, Option.some.injEq, Prod.mk.injEq, Prod.mk.injEq] at hrun₁
  rcases hrun₁ with ⟨-, -, rfl⟩
  have hesi := hret.esi.symm.trans hsame.esi
  rw [if_pos (by decide)] at hesi
  exact absurd hesi (by decide)

end StupidOS.Kernel.OnStack
