import StupidOS.Lib.Word

/-!
# The exception entries (`isr.inc`)

An exception runs the stub that `ISR` generates for its vector and then `isr_common`.
The stack is the list of the words from ESP up, so that a push and a pop out of step
show as a shifted register. `klog` is a parameter that keeps to its calling convention
(`KlogRespects`).
-/

namespace StupidOS.Kernel

/-! ## The processor -/

structure IntCpu where
  eax : Word
  ecx : Word
  edx : Word
  ebx : Word
  esp : Word
  ebp : Word
  esi : Word
  edi : Word
  eip : Word
  eflags : Word
  cs : Half
  ds : Half
  es : Half
  fs : Half
  gs : Half
  ss : Half
  /-- The words at ESP, ESP + 4 and so on. -/
  stack : List Word
deriving DecidableEq, Repr

namespace IntCpu

def push (w : Word) (s : IntCpu) : IntCpu :=
  { s with esp := s.esp - 4, stack := w :: s.stack }

def pop (s : IntCpu) : Option (Word × IntCpu) :=
  match s.stack with
  | [] => none
  | w :: ws => some (w, { s with esp := s.esp + 4, stack := ws })

/-- `pusha`; the ESP pushed is that before the instruction. -/
def pusha (s : IntCpu) : IntCpu :=
  { s with
    esp := s.esp - 32
    stack := s.edi :: s.esi :: s.ebp :: s.esp :: s.ebx :: s.edx :: s.ecx :: s.eax :: s.stack }

/-- `popa`; the word in the place of ESP is skipped. -/
def popa (s : IntCpu) : Option IntCpu :=
  match s.stack with
  | edi :: esi :: ebp :: _ :: ebx :: edx :: ecx :: eax :: ws =>
    some { s with
      edi, esi, ebp, ebx, edx, ecx, eax
      esp := s.esp + 32
      stack := ws }
  | _ => none

/-- `add esp, 8` -/
def drop2 (s : IntCpu) : Option IntCpu :=
  match s.stack with
  | _ :: _ :: ws => some { s with esp := s.esp + 8, stack := ws }
  | _ => none

def cli (s : IntCpu) : IntCpu := { s with eflags := s.eflags &&& 0xFFFFFDFF }

def sti (s : IntCpu) : IntCpu := { s with eflags := s.eflags ||| 0x200 }

/-- `mov ax, h` -/
def setAx (h : Half) (s : IntCpu) : IntCpu :=
  { s with eax := s.eax.extractLsb' 16 16 ++ h }

end IntCpu

/-- The privilege level of a selector. -/
def rpl (sel : Half) : Nat := sel.toNat % 4

/-- What the exception entries depend on: the logger, the addresses of the texts, and the
selectors that the descriptor tables accept in a data segment register and in CS. -/
structure IsrEnv where
  klog : IntCpu → IntCpu
  szIntName : String → Word
  szMsgInterrupt : Word
  loadable : Half → Bool
  executable : Half → Bool

/-- One entry of the `ISR` table. -/
structure IsrEntry where
  name : String
  error : Bool

/-- `aISRTable` -/
def aISRTable : Vector IsrEntry 32 := #v[
  ⟨"division_by_zero", false⟩,
  ⟨"debug", false⟩,
  ⟨"nmi", false⟩,
  ⟨"breakpoint", false⟩,
  ⟨"overflow", false⟩,
  ⟨"bound_range_exceeded", false⟩,
  ⟨"invalid_opcode", false⟩,
  ⟨"device_not_available", false⟩,
  ⟨"double_fault", true⟩,
  ⟨"coproc_seg_overrun", false⟩,
  ⟨"invalid_tss", true⟩,
  ⟨"seg_not_present", true⟩,
  ⟨"stack_seg_fault", true⟩,
  ⟨"general_protection_fault", true⟩,
  ⟨"page_fault", true⟩,
  ⟨"reserved15", false⟩,
  ⟨"x87_exception", false⟩,
  ⟨"alignment_check", false⟩,
  ⟨"machine_check", false⟩,
  ⟨"simd_exception", false⟩,
  ⟨"virt_exception", false⟩,
  ⟨"reserved21", false⟩,
  ⟨"reserved22", false⟩,
  ⟨"reserved23", false⟩,
  ⟨"reserved24", false⟩,
  ⟨"reserved25", false⟩,
  ⟨"reserved26", false⟩,
  ⟨"reserved27", false⟩,
  ⟨"reserved28", false⟩,
  ⟨"reserved29", false⟩,
  ⟨"security_exception", false⟩,
  ⟨"reserved31", false⟩]

/-- The value of `error` in the table, as `push error` takes it. -/
def IsrEntry.errorWord (e : IsrEntry) : Word := if e.error then 1 else 0

/-! ## Entry and return -/

/-- What the processor does for an exception, without a change of privilege: EFLAGS, CS
and EIP are pushed, then the error code where the vector has one. CS is loaded from the
gate, with the current privilege level. -/
def interrupt (e : IsrEntry) (code : Word) (s : IntCpu) : IntCpu :=
  let frame := ((s.push s.eflags).push (s.cs.setWidth 32)).push s.eip
  let frame := if e.error then frame.push code else frame
  { frame.cli with cs := 0x08 ||| (s.cs &&& 3) }

/-- The offset of `intno` in `IntFrame`, in words: the eight general registers and four
segment registers come before it. -/
def intFrameIntno : Nat := 12

variable (env : IsrEnv)

/-- `mov ds, ax` and so on for ES, FS and GS. -/
def loadSegments (sel : Half) (s : IntCpu) : Option IntCpu :=
  if env.loadable sel then some { s with ds := sel, es := sel, fs := sel, gs := sel } else none

/-- `iret` in protected mode. A return to an outer level pops ESP and SS as well; one to an
inner level faults. -/
def iret (s : IntCpu) : Option IntCpu :=
  match s.stack with
  | eip :: cs :: eflags :: ws =>
    let sel : Half := cs.setWidth 16
    if ¬ env.executable sel then none
    else if rpl sel < rpl s.cs then none
    else if rpl sel = rpl s.cs then
      some { s with eip, cs := sel, eflags, esp := s.esp + 12, stack := ws }
    else
      match ws with
      | esp :: ss :: _ =>
        -- another stack: its contents are not those pushed here
        some { s with eip, cs := sel, eflags, esp, ss := ss.setWidth 16, stack := [] }
      | _ => none
  | _ => none

/-- `isr_<name>` -/
def isrStub (e : IsrEntry) (s : IntCpu) : IntCpu :=
  let s := s.cli
  let s := env.klog { s with eax := env.szIntName e.name }
  let s := if e.error then s else s.push 0
  s.push e.errorWord

/-- `isr_common` -/
def isrCommon (s : IntCpu) : Option IntCpu := do
  let s := s.pusha
  let s := s.setAx s.ds
  let s := s.push s.eax
  let s := s.setAx 0x10
  let s ← loadSegments env 0x10 s
  let intno ← s.stack[intFrameIntno]?
  let s := { s with eax := intno }
  let s := s.push s.eax
  let s := { s with eax := env.szMsgInterrupt }
  let s := env.klog s
  let (eax, s) ← s.pop
  let s := { s with eax }
  let s ← loadSegments env (eax.setWidth 16) s
  let s ← s.popa
  let s ← s.drop2
  iret env s.sti

/-- An exception, from the interrupted instruction to the end of `iret`. -/
def exception (e : IsrEntry) (code : Word) (s : IntCpu) : Option IntCpu :=
  isrCommon env (isrStub env e (interrupt e code s))

/-! ## Transparency -/

/-- `klog` respects the stack, and clobbers EAX, ECX and EDX (and the flags) only. -/
structure KlogRespects (klog : IntCpu → IntCpu) : Prop where
  ebx : ∀ s, (klog s).ebx = s.ebx
  esp : ∀ s, (klog s).esp = s.esp
  ebp : ∀ s, (klog s).ebp = s.ebp
  esi : ∀ s, (klog s).esi = s.esi
  edi : ∀ s, (klog s).edi = s.edi
  cs : ∀ s, (klog s).cs = s.cs
  ds : ∀ s, (klog s).ds = s.ds
  es : ∀ s, (klog s).es = s.es
  fs : ∀ s, (klog s).fs = s.fs
  gs : ∀ s, (klog s).gs = s.gs
  ss : ∀ s, (klog s).ss = s.ss
  stack : ∀ s, (klog s).stack = s.stack

/-- The interrupted state is back in the registers. -/
structure Restored (s s' : IntCpu) : Prop where
  eax : s'.eax = s.eax
  ecx : s'.ecx = s.ecx
  edx : s'.edx = s.edx
  ebx : s'.ebx = s.ebx
  esp : s'.esp = s.esp
  ebp : s'.ebp = s.ebp
  esi : s'.esi = s.esi
  edi : s'.edi = s.edi
  eip : s'.eip = s.eip
  eflags : s'.eflags = s.eflags
  cs : s'.cs = s.cs
  ds : s'.ds = s.ds
  es : s'.es = s.es
  fs : s'.fs = s.fs
  gs : s'.gs = s.gs

variable {env}

/-- The word that ends up below EIP: the error code, or the 0 in its place. -/
def IsrEntry.codeWord (e : IsrEntry) (code : Word) : Word := if e.error then code else 0

/-- What the stub leaves for `isr_common`: the registers but EAX, ECX and EDX, and five words
on the stack. -/
structure StubFrame (e : IsrEntry) (code : Word) (s t : IntCpu) : Prop where
  ebx : t.ebx = s.ebx
  ebp : t.ebp = s.ebp
  esi : t.esi = s.esi
  edi : t.edi = s.edi
  cs : rpl t.cs = rpl s.cs
  ds : t.ds = s.ds
  esp : t.esp = s.esp - 20
  stack : t.stack = e.errorWord :: e.codeWord code :: s.eip :: s.cs.setWidth 32 :: s.eflags
    :: s.stack

theorem rpl_gate (cs : Half) : rpl (0x08 ||| (cs &&& 3)) = rpl cs := by
  have hor : ∀ x : Half, x.toNat < 4 → (0x08 ||| x).toNat = 8 + x.toNat := by
    intro x hx
    have hcases : x = 0 ∨ x = 1 ∨ x = 2 ∨ x = 3 := by
      have hval : x.toNat = 0 ∨ x.toNat = 1 ∨ x.toNat = 2 ∨ x.toNat = 3 := by omega
      rcases hval with h | h | h | h
      · exact Or.inl (BitVec.eq_of_toNat_eq h)
      · exact Or.inr (Or.inl (BitVec.eq_of_toNat_eq h))
      · exact Or.inr (Or.inr (Or.inl (BitVec.eq_of_toNat_eq h)))
      · exact Or.inr (Or.inr (Or.inr (BitVec.eq_of_toNat_eq h)))
    rcases hcases with rfl | rfl | rfl | rfl <;> decide
  have hand : (cs &&& 3).toNat = cs.toNat % 4 := by
    rw [BitVec.toNat_and]
    exact Nat.and_two_pow_sub_one_eq_mod cs.toNat 2
  rw [rpl, hor _ (by omega), hand, rpl]
  omega

theorem isrStub_frame (hklog : KlogRespects env.klog) (e : IsrEntry) (code : Word) (s : IntCpu) :
    StubFrame e code s (isrStub env e (interrupt e code s)) := by
  cases herr : e.error with
  | false =>
      refine ⟨?_, ?_, ?_, ?_, ?_, ?_, ?_, ?_⟩
      all_goals
        simp only [isrStub, interrupt, herr, IntCpu.push, IntCpu.cli, IsrEntry.codeWord, hklog.ebx,
          hklog.ebp, hklog.esi, hklog.edi, hklog.cs, hklog.ds, hklog.esp, hklog.stack,
          Bool.false_eq_true, if_false]
      · exact rpl_gate s.cs
      · bv_omega
  | true =>
      refine ⟨?_, ?_, ?_, ?_, ?_, ?_, ?_, ?_⟩
      all_goals
        simp only [isrStub, interrupt, herr, IntCpu.push, IntCpu.cli, IsrEntry.codeWord, hklog.ebx,
          hklog.ebp, hklog.esi, hklog.edi, hklog.cs, hklog.ds, hklog.esp, hklog.stack, if_true]
      · exact rpl_gate s.cs
      · bv_omega

/-- The state in which `isr_common` executes `iret`. `popa` begins at the saved DS, one word
below the registers, so each register gets the value of its neighbour, and the return
frame begins at the error code. -/
structure Shifted (s t : IntCpu) (code ip sel flags : Word) (ws : List Word) : Prop where
  edi : t.edi.setWidth 16 = s.ds
  esi : t.esi = s.edi
  ebp : t.ebp = s.esi
  ebx : t.ebx = s.esp
  edx : t.edx = s.ebx
  ecx : t.ecx = s.edx
  eax : t.eax = s.ecx
  ds : t.ds = sel.setWidth 16
  cs : t.cs = s.cs
  esp : t.esp = s.esp + 4
  stack : t.stack = code :: ip :: sel :: flags :: ws

theorem setWidth_append (a b : Half) : (a ++ b : Word).setWidth 16 = b := by
  ext i hi
  rw [BitVec.getElem_setWidth, BitVec.getLsbD_append]
  simp [hi]

theorem loadSegments_none {sel : Half} (h : env.loadable sel = false) (s : IntCpu) :
    loadSegments env sel s = none := by
  rw [loadSegments, h, if_neg Bool.false_ne_true]

theorem loadSegments_some {sel : Half} (h : env.loadable sel = true) (s : IntCpu) :
    loadSegments env sel s = some { s with ds := sel, es := sel, fs := sel, gs := sel } := by
  rw [loadSegments, if_pos h]

/-- `isr_common` loads the segment registers twice, the second time with the interrupted CS,
and comes to `iret` with the registers shifted. -/
theorem isrCommon_eq (hklog : KlogRespects env.klog) {s : IntCpu}
    {error code ip sel flags : Word} {ws : List Word}
    (hstack : s.stack = error :: code :: ip :: sel :: flags :: ws) :
    isrCommon env s = none ∨
      ∃ t, isrCommon env s = iret env t ∧ Shifted s t code ip sel flags ws := by
  cases hkernel : env.loadable 0x10 with
  | false =>
      left
      simp only [isrCommon, loadSegments_none hkernel, Option.bind_eq_bind, Option.bind_none]
  | true =>
      -- up to the load of the popped selector, which is the interrupted CS
      simp only [isrCommon, loadSegments_some hkernel, IntCpu.push, IntCpu.pop, IntCpu.pusha,
        IntCpu.setAx, intFrameIntno, hklog.stack, hklog.esp, hstack, Option.bind_eq_bind,
        Option.bind_some, List.getElem?_cons_succ, List.getElem?_cons_zero]
      cases hsel : env.loadable (sel.setWidth 16) with
      | false =>
          left
          simp only [loadSegments_none hsel, Option.bind_none]
      | true =>
          right
          simp only [loadSegments_some hsel, IntCpu.popa, IntCpu.drop2, Option.bind_some]
          refine ⟨_, rfl, ?_, rfl, rfl, rfl, rfl, rfl, rfl, rfl, ?_, ?_, rfl⟩
          · exact setWidth_append _ _
          · exact hklog.cs _
          · simp only [IntCpu.sti]
            bv_omega

/-- A return to the same level keeps the level; one to an outer level changes it. -/
theorem iret_cases {s s' : IntCpu} {eip cs eflags : Word} {ws : List Word}
    (hstack : s.stack = eip :: cs :: eflags :: ws) (h : iret env s = some s') :
    s'.esp = s.esp + 12 ∨ rpl s'.cs ≠ rpl s.cs := by
  simp only [iret, hstack] at h
  by_cases hexec : env.executable (cs.setWidth 16) = true
  · rw [if_neg (not_not_intro hexec)] at h
    by_cases hinner : rpl (cs.setWidth 16) < rpl s.cs
    · rw [if_pos hinner] at h
      exact absurd h (Option.some_ne_none s').symm
    · rw [if_neg hinner] at h
      by_cases hsame : rpl (cs.setWidth 16) = rpl s.cs
      · rw [if_pos hsame] at h
        left
        rw [← Option.some.inj h]
      · rw [if_neg hsame] at h
        right
        rcases ws with - | ⟨esp, - | ⟨ss, ws⟩⟩
        · exact absurd h (Option.some_ne_none s').symm
        · exact absurd h (Option.some_ne_none s').symm
        · rw [← Option.some.inj h]
          exact hsame
  · rw [if_pos hexec] at h
    exact absurd h (Option.some_ne_none s').symm

/-- **No exception is transparent.** Whatever the vector and the interrupted state, the
interrupted registers do not come back: if `iret` is reached and stays at its level, ESP
ends up one word below its old value. -/
theorem exception_not_restored (hklog : KlogRespects env.klog) (n : Fin 32) (code : Word)
    (s : IntCpu) : ¬ ∃ s', exception env aISRTable[n] code s = some s' ∧ Restored s s' := by
  intro h
  rcases h with ⟨s', hrun, hrestored⟩
  have hframe := isrStub_frame hklog aISRTable[n] code s
  rcases isrCommon_eq hklog hframe.stack with hnone | ⟨t, hiret, hshift⟩
  · rw [exception, hnone] at hrun
    exact absurd hrun (Option.some_ne_none s').symm
  · rw [exception, hiret] at hrun
    rcases iret_cases hshift.stack hrun with hesp | hlevel
    · rw [hshift.esp, hframe.esp, hrestored.esp] at hesp
      bv_omega
    · rw [hshift.cs, hframe.cs, hrestored.cs] at hlevel
      exact hlevel rfl

/-! ## One run -/

/-- A logger that changes EAX, ECX and EDX, and tables that accept every selector. -/
def plainEnv : IsrEnv where
  klog := fun s => { s with eax := 0, ecx := 0, edx := 0 }
  szIntName := fun _ => 0xC0101000
  szMsgInterrupt := 0xC0102000
  loadable := fun _ => true
  executable := fun _ => true

theorem klogRespects_plain : KlogRespects plainEnv.klog := by
  constructor <;> intro s <;> rfl

/-- The kernel at 0xC0100008. -/
def kernelState : IntCpu where
  eax := 1
  ecx := 2
  edx := 3
  ebx := 4
  esp := 0xC0200000
  ebp := 5
  esi := 6
  edi := 7
  eip := 0xC0100008
  eflags := 0x202
  cs := 0x08
  ds := 0x10
  es := 0x10
  fs := 0x10
  gs := 0x10
  ss := 0x10
  stack := []

/-- A breakpoint in the kernel returns to address 0. -/
theorem exception_counterexample :
    (∃ s', exception plainEnv aISRTable[3] 0 kernelState = some s' ∧ s'.eip = 0 ∧
      s'.esi = 7 ∧ s'.ds = 0x08 ∧ s'.eflags = 0x08 ∧ s'.esp = 0xC01FFFFC) ∧
    ¬ ∃ s', exception plainEnv aISRTable[3] 0 kernelState = some s' ∧ Restored kernelState s' := by
  have hrun : ∃ s', exception plainEnv aISRTable[3] 0 kernelState = some s' ∧ s'.eip = 0 ∧
      s'.esi = 7 ∧ s'.ds = 0x08 ∧ s'.eflags = 0x08 ∧ s'.esp = 0xC01FFFFC :=
    ⟨_, rfl, rfl, rfl, rfl, rfl, rfl⟩
  refine ⟨hrun, ?_⟩
  intro h
  rcases hrun with ⟨s', hs', heip, -⟩
  rcases h with ⟨s'', hs'', hrestored⟩
  have heq : s' = s'' := Option.some.inj (hs'.symm.trans hs'')
  have hback := hrestored.eip
  rw [← heq, heip] at hback
  exact absurd hback (by decide)

theorem exception_not_restored_breakpoint :
    ¬ ∃ s', exception plainEnv aISRTable[(3 : Fin 32)] 0 kernelState = some s' ∧
      Restored kernelState s' :=
  exception_not_restored klogRespects_plain 3 0 kernelState

end StupidOS.Kernel
