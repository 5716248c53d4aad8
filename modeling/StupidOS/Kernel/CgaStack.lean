import StupidOS.Lib.Frame
import StupidOS.Kernel.Cga

/-!
# The console on the stack (`dev/at/cga.inc`)

`cga_putc` with the pushes, pops and calls it makes. It is the one of `Kernel.cgaPutc`, but
for the stack, and hands back ESI and EDI exchanged when the screen scrolls
(`OnStack.cgaPutc_spec`).
-/

namespace StupidOS.Kernel.OnStack

/-- The `call` instructions of a routine, numbered as they stand there. -/
inductive CallSite where
  | cgaPutc (n : Nat)
  | klogPrintStr
  | klogPrintInt (n : Nat)
  | klogPrintUnsigned
  | klogPrintHex (n : Nat)
  | klogPrintTime
  | klog (n : Nat)
  | pmmInitRegion (n : Nat)
  | pmmInitLowMemory
  | pmmAlloc (n : Nat)
  | pmmFree (n : Nat)
deriving DecidableEq, Repr

-- the return addresses that the assembler gave the calls
variable (A : CallSite → Word)

/-! ## The routines -/

/-- `cga_getpos`, with AX -/
def cgaGetpos (s : Cga) (f : Frame) : Option ((Half × Cga) × Word × Frame) :=
  some (Kernel.cgaGetpos s, f.ret)

/-- `cga_setpos`. AX is on the stack while AL selects the register. -/
def cgaSetpos (ax : Half) (s : Cga) (f : Frame) : Option (Cga × Word × Frame) :=
  let f := f.push16 ax
  let (ax, f) := f.pop16
  some (Kernel.cgaSetpos ax s, f.ret)

/-- `scroll up` of `cga_putc` -/
def cgaScroll (cx : Half) (s : Cga) (f : Frame) : Cga × Frame :=
  let f := f.setLocal16 2 cx
  let f := f.push f.esi
  let f := f.push f.edi
  let s := { s with mem := scrollUp s.mem }
  let f := f.setEsi (cgaMemory + 80 * 2 + 80 * 24 * 2)
  let f := f.setEdi (cgaMemory + 80 * 24 * 2 + 80 * 2)
  let f := f.popEsi
  let f := f.popEdi
  (s, f)

/-- `.next` of `cga_putc` -/
def cgaNext (cx : Half) (s : Cga) (f : Frame) : Option (Cga × Word × Frame) := do
  let (_, al) ← div8 cx cgaColumns
  let (cx, s, f) := if al.ule cgaLines then (cx, s, f) else (80 * 24, cgaScroll cx s f)
  let (s, f) ← f.call (A (.cgaPutc 1)) (cgaSetpos cx s)
  return (s, f.leave.ret)

/-- `cga_putc` -/
def cgaPutc (eax : Word) (s : Cga) (f : Frame) : Option (Cga × Word × Frame) := do
  let f := f.enter
  let f := f.reserve 2
  let f := f.push eax
  let ((ax, s), f) ← f.call (A (.cgaPutc 0)) (cgaGetpos s)
  let f := f.setLocal16 2 ax
  let al : Byte := (f.word 0).setWidth 8
  let f := f.drop 1
  if al = cr then return (s, f.leave.ret)
  else if al = lf then
    let (ah, _) ← div8 (f.local16 2) cgaColumns
    cgaNext A (f.local16 2 + (cgaColumns - ah).setWidth 16) s f
  else
    let edx := cgaMemory + (f.local16 2 <<< 1).setWidth 32
    let s := { s with mem := s.mem.write16 edx (s.color ++ al) }
    cgaNext A (f.local16 2 + 1) s f

/-- The cursor is on the screen. -/
def OnScreen (s : Cga) : Prop := s.pos.toNat < 2000

instance (s : Cga) : Decidable (OnScreen s) := inferInstanceAs (Decidable (_ < _))

/-- `cga_putc` of `al` with the cursor at `pos` goes past the last line. -/
def scrolls (al : Byte) (pos : Nat) : Bool :=
  al != cr && if al = lf then decide (1920 ≤ pos) else decide (pos = 1999)

/-! ## What `cga_putc` does with its stack

`R` is the frame with the local variable on top, `g` what the routine has made of it. -/

/-- `g` is a frame of `cga_putc`, called in `f`, with nothing on the stack but its local
variable. -/
structure InPutc (f R g : Frame) : Prop where
  ebp : R.ebp = f.esp - 4
  esp : R.esp = f.esp - 4 - BitVec.ofNat 32 2
  below : OnlyBelow (f.esp - 4) 2 f.enter.stack R.stack
  pushed : Frame.Pushed 16 R [] g

section Putc

variable {A : CallSite → Word} {f R g h : Frame} {s : Cga}

namespace InPutc

/-- The local variable is the last thing reserved. -/
theorem local_on (hin : InPutc f R g) :
    (R.ebp - BitVec.ofNat 32 2 - R.esp).toNat + 16 + 1 < 2 ^ 32 := by
  rw [hin.ebp, hin.esp, BitVec.sub_self]
  decide

theorem setLocal16 (hin : InPutc f R g) (v : Half) :
    InPutc f (R.setLocal16 2 v) (g.setLocal16 2 v) := by
  refine ⟨hin.ebp, hin.esp, hin.below.trans ?_, hin.pushed.setLocal16 hin.local_on v⟩
  rw [Frame.setLocal16]
  dsimp only
  rw [hin.ebp]
  exact OnlyBelow.write16 _ _ (Nat.le_refl 2) (Nat.le_refl 2)

theorem call (hin : InPutc f R g) {e : Nat} (hb : Frame.Balanced e g h) (he : e ≤ 16) :
    InPutc f R h :=
  ⟨hin.ebp, hin.esp, hin.below, hin.pushed.call hb (by rw [List.length_nil]; omega)⟩

theorem leave (hin : InPutc f R g) : Frame.Balanced 22 f g.leave := by
  have hstack := hin.pushed.stack
  rw [hin.esp] at hstack
  have hall : OnlyBelow (f.esp - 4) 18 f.enter.stack g.stack :=
    (hin.below.mono (by omega)).trans (hstack.shift (by omega))
  exact Frame.leave_balanced (hin.pushed.ebp.trans hin.ebp) hall (by omega)

end InPutc

theorem cgaSetpos_call (ax : Half) (s : Cga) (g : Frame) (r : Word) :
    ∃ h, g.call r (cgaSetpos ax s) = some (Kernel.cgaSetpos ax s, h) ∧ Frame.Kept 6 g h := by
  rcases Frame.push16_pop16 (f := g.push r) ax with ⟨hax, hkept⟩
  rcases hkept.toBalanced.ret (by omega) with ⟨hret, hbalanced⟩
  refine ⟨_, Frame.call_eq ?_, hbalanced, hkept.ebx, hkept.esi, hkept.edi⟩
  rw [cgaSetpos]
  dsimp only
  rw [hax, hret]

theorem cgaGetpos_call (s : Cga) (g : Frame) (r : Word) :
    ∃ h, g.call r (cgaGetpos s) = some (Kernel.cgaGetpos s, h) ∧ Frame.Kept 4 g h := by
  rcases (Frame.Balanced.refl (d := 0) (f := g.push r)).ret (by omega) with ⟨hret, hbalanced⟩
  refine ⟨_, Frame.call_eq ?_, hbalanced, rfl, rfl, rfl⟩
  rw [cgaGetpos, hret]

/-- ESI and EDI are popped in the order they were pushed. -/
theorem cgaScroll_spec (hin : InPutc f R g) (cx : Half) (s : Cga) :
    ∃ h, cgaScroll cx s g = ({ s with mem := scrollUp s.mem }, h) ∧
      InPutc f (R.setLocal16 2 cx) h ∧ h.ebx = g.ebx ∧ h.esi = g.edi ∧ h.edi = g.esi := by
  have hlocal := hin.setLocal16 cx
  have hesi := hlocal.pushed.push (by rw [List.length_nil]; omega) g.esi
  have hedi := hesi.push (by rw [List.length_singleton]; omega) g.edi
  rw [cgaScroll]
  generalize cgaMemory + 80 * 2 + 80 * 24 * 2 = esi
  generalize cgaMemory + 80 * 24 * 2 + 80 * 2 = edi
  rcases ((hedi.setEsi esi).setEdi edi).popEsi with ⟨hpop, hnew⟩
  rcases hpop.popEdi with ⟨hempty, hnew'⟩
  have hebx : ((((((g.setLocal16 2 cx).push g.esi).push g.edi).setEsi esi).setEdi
      edi).popEsi.popEdi).ebx = g.ebx := by simp
  exact ⟨_, rfl, ⟨hlocal.ebp, hlocal.esp, hlocal.below, hempty⟩, hebx,
    Frame.popEdi_esi.trans hnew, hnew'⟩

/-- `.next`, from which `cga_putc` returns to `r`. -/
theorem cgaNext_spec {r : Word} (hin : InPutc (f.push r) R g) {cx : Half} (hcx : cx.toNat ≤ 2000)
    (s : Cga) :
    ∃ s' h, cgaNext A cx s g = some (s', r, h) ∧ Frame.Balanced 26 f h ∧ h.ebx = g.ebx ∧
      h.esi = (if cx.toNat < 2000 then g.esi else g.edi) ∧
      h.edi = (if cx.toNat < 2000 then g.edi else g.esi) ∧
      Kernel.cgaNext cx { s with esi := g.esi, edi := g.edi }
        = some { s' with esi := h.esi, edi := h.edi } := by
  have hlines : cgaLines.toNat = 24 := rfl
  have hquot : (BitVec.ofNat 8 (cx.toNat / 80)).toNat = cx.toNat / 80 := by
    rw [BitVec.toNat_ofNat]
    omega
  rw [cgaNext_eq hcx]
  rw [cgaNext, div8_columns hcx]
  dsimp only [Option.bind_eq_bind, Option.bind_some]
  rw [BitVec.ule, hquot, hlines]
  by_cases hon : cx.toNat < 2000
  · rw [if_pos (decide_eq_true (by omega)), if_pos hon, if_pos hon, if_pos hon]
    rcases cgaSetpos_call cx s g (A (.cgaPutc 1)) with ⟨h, hcall, hkept⟩
    rcases (hin.call hkept.toBalanced (by omega)).leave.ret (by omega) with ⟨hret, hbalanced⟩
    refine ⟨Kernel.cgaSetpos cx s, _, ?_, hbalanced, hkept.ebx, hkept.esi, hkept.edi, ?_⟩
    · rw [hcall, Option.bind_some, hret]
      rfl
    · rw [Frame.drop_esi, Frame.leave_esi, hkept.esi, Frame.drop_edi, Frame.leave_edi, hkept.edi]
      rfl
  · have hnot : ¬ decide (cx.toNat / 80 ≤ 24) = true := by
      rw [decide_eq_true_iff]
      omega
    rw [if_neg hnot, if_neg hon, if_neg hon, if_neg hon]
    rcases cgaScroll_spec hin cx s with ⟨g', hscroll, hin', hebx, hesi, hedi⟩
    rw [hscroll]
    dsimp only
    rcases cgaSetpos_call (80 * 24) { s with mem := scrollUp s.mem } g' (A (.cgaPutc 1)) with
      ⟨h, hcall, hkept⟩
    rcases (hin'.call hkept.toBalanced (by omega)).leave.ret (by omega) with ⟨hret, hbalanced⟩
    refine ⟨Kernel.cgaSetpos (80 * 24) { s with mem := scrollUp s.mem }, _, ?_, hbalanced,
      hkept.ebx.trans hebx, hkept.esi.trans hesi, hkept.edi.trans hedi, ?_⟩
    · rw [hcall, Option.bind_some, hret]
      rfl
    · rw [Frame.drop_esi, Frame.leave_esi, hkept.esi, hesi, Frame.drop_edi, Frame.leave_edi,
        hkept.edi, hedi]
      rfl

/-- What a call of `cga_putc` in `f` comes to: the one of `Kernel.cgaPutc`, with ESI and EDI
exchanged when the screen scrolls. -/
structure PutcReturns (al : Byte) (s : Cga) (f : Frame) (s' : Cga) (h : Frame) : Prop where
  model : Kernel.cgaPutc al { s with esi := f.esi, edi := f.edi }
    = some { s' with esi := h.esi, edi := h.edi }
  balanced : Frame.Balanced 26 f h
  ebx : h.ebx = f.ebx
  esi : h.esi = if scrolls al s.pos.toNat then f.edi else f.esi
  edi : h.edi = if scrolls al s.pos.toNat then f.esi else f.edi

/-- The cursor stays on the screen. -/
theorem PutcReturns.onScreen {al : Byte} {s' : Cga} (hret : PutcReturns al s f s' h)
    (hs : OnScreen s) : OnScreen s' := by
  rcases putc_shows (terminalOf_shows { s with esi := f.esi, edi := f.edi } hs) al with
    ⟨s₁, hrun, hmoved⟩
  rw [hret.model, Option.some.injEq] at hrun
  have hcursor := hmoved.shows.cursor
  rw [← hrun] at hcursor
  have hpos : s'.pos.toNat = _ := hcursor
  rw [OnScreen, hpos]
  exact Terminal.cursor_lt _

/-- Nothing is written but the text memory. -/
theorem PutcReturns.onlyText {al : Byte} {s' : Cga} (hret : PutcReturns al s f s' h)
    (hs : OnScreen s) : OnlyText s.mem s'.mem := by
  rcases putc_shows (terminalOf_shows { s with esi := f.esi, edi := f.edi } hs) al with
    ⟨s₁, hrun, hmoved⟩
  have htext := hmoved.onlyText
  rw [hret.model, Option.some.injEq] at hrun
  rw [← hrun] at htext
  exact htext

/-- The prologue: the cursor position is in the local variable, and EAX is back. -/
theorem cgaPutc_enter (s : Cga) (f : Frame) (r : Word) (eax : Word) :
    ∃ R g, ((f.enter.reserve 2).push eax).call r (cgaGetpos s) = some (Kernel.cgaGetpos s, g) ∧
      (g.setLocal16 2 s.pos).word 0 = eax ∧ InPutc f R ((g.setLocal16 2 s.pos).drop 1) ∧
      ((g.setLocal16 2 s.pos).drop 1).local16 2 = s.pos ∧ g.ebx = f.ebx ∧ g.esi = f.esi ∧
      g.edi = f.edi := by
  have hon : ((f.enter.reserve 2).ebp - BitVec.ofNat 32 2 - (f.enter.reserve 2).esp).toNat + 16 + 1
      < 2 ^ 32 := by
    have hzero : (f.enter.reserve 2).ebp - BitVec.ofNat 32 2 - (f.enter.reserve 2).esp = 0 :=
      BitVec.sub_self _
    rw [hzero]
    decide
  have hnil : Frame.Pushed 16 (f.enter.reserve 2) [] (f.enter.reserve 2) :=
    Frame.Pushed.nil (by omega)
  rcases cgaGetpos_call s ((f.enter.reserve 2).push eax) r with ⟨g, hcall, hkept⟩
  have heax := (hnil.push (by rw [List.length_nil]; omega) eax).call hkept.toBalanced
    (by rw [List.length_singleton]; omega)
  have hset := heax.setLocal16 hon s.pos
  refine ⟨_, g, hcall, hset.top, ⟨rfl, rfl, ?_, hset.pop⟩, ?_, hkept.ebx, hkept.esi, hkept.edi⟩
  · exact OnlyBelow.write16 _ _ (Nat.le_refl 2) (Nat.le_refl 2)
  · rw [hset.pop.local16 hon]
    exact Mem.read16_write16 _ _ _

/-- `cga_putc` once it has come to `.next`. -/
theorem cgaNext_returns {al : Byte} {r : Word} {s₁ : Cga} {cx : Half} (hin : InPutc (f.push r) R g)
    (hebx : g.ebx = f.ebx) (hesi : g.esi = f.esi) (hedi : g.edi = f.edi) (hcx : cx.toNat ≤ 2000)
    (hscroll : scrolls al s.pos.toNat = decide (¬ cx.toNat < 2000))
    (hmodel : Kernel.cgaPutc al { s with esi := f.esi, edi := f.edi }
      = Kernel.cgaNext cx { s₁ with esi := f.esi, edi := f.edi }) :
    ∃ s' h, cgaNext A cx s₁ g = some (s', r, h) ∧ PutcReturns al s f s' h := by
  rcases cgaNext_spec (A := A) hin hcx s₁ with
    ⟨s', h, hrun, hbalanced, hebx₁, hesi₁, hedi₁, hnext⟩
  rw [hesi, hedi] at hesi₁ hedi₁ hnext
  refine ⟨s', h, hrun, hmodel.trans hnext, hbalanced, hebx₁.trans hebx, ?_, ?_⟩
  · rw [hesi₁, hscroll]
    by_cases hon : cx.toNat < 2000
    · rw [if_pos hon, if_neg (by simp [hon])]
    · rw [if_neg hon, if_pos (by simp [hon])]
  · rw [hedi₁, hscroll]
    by_cases hon : cx.toNat < 2000
    · rw [if_pos hon, if_neg (by simp [hon])]
    · rw [if_neg hon, if_pos (by simp [hon])]

theorem cgaPutc_spec (hs : OnScreen s) (eax : Word) (f : Frame) (r : Word) :
    ∃ s' h, cgaPutc A eax s (f.push r) = some (s', r, h) ∧
      PutcReturns (eax.setWidth 8) s f s' h := by
  have hlt : s.pos.toNat < 2000 := hs
  have hget : Kernel.cgaGetpos s = (s.pos, (Kernel.cgaGetpos s).2) := rfl
  rcases cgaPutc_enter s (f.push r) (A (.cgaPutc 0)) eax with
    ⟨R, g, hcall, heax, hin, hlocal, hebx, hesi, hedi⟩
  rw [cgaPutc, Option.bind_eq_bind, hcall, hget, Option.bind_some]
  dsimp only
  rw [heax, hlocal]
  generalize (eax.setWidth 8 : Byte) = al
  -- the three branches: a carriage return, a line feed, a character
  by_cases hcr : al = cr
  · rcases hin.leave.ret (by omega) with ⟨hret, hbalanced⟩
    have hno : scrolls al s.pos.toNat = false := by
      rw [scrolls, hcr]
      rfl
    rw [if_pos hcr, hret]
    refine ⟨_, _, rfl, ?_, hbalanced, hebx, ?_, ?_⟩
    · rw [Kernel.cgaPutc]
      dsimp only
      rw [if_pos hcr, Frame.drop_esi, Frame.leave_esi, Frame.drop_esi, Frame.drop_edi,
        Frame.leave_edi, Frame.drop_edi]
      change _ = some { (Kernel.cgaGetpos s).2 with esi := g.esi, edi := g.edi }
      rw [hesi, hedi]
      rfl
    · rw [hno]
      exact hesi
    · rw [hno]
      exact hedi
  rw [if_neg hcr]
  have hne : (al != cr) = true := bne_iff_ne.mpr hcr
  by_cases hlf : al = lf
  · have hcols : cgaColumns.toNat = 80 := rfl
    have hcx : (s.pos + (cgaColumns - BitVec.ofNat 8 (s.pos.toNat % 80)).setWidth 16).toNat
        = 80 * (s.pos.toNat / 80 + 1) := by
      rw [BitVec.toNat_add, BitVec.toNat_setWidth_of_le (by omega), BitVec.toNat_sub, hcols,
        BitVec.toNat_ofNat]
      omega
    have hdiv : div8 s.pos cgaColumns = some (BitVec.ofNat 8 (s.pos.toNat % 80), _) :=
      div8_columns (by omega)
    rw [if_pos hlf, hdiv, Option.bind_eq_bind, Option.bind_some]
    dsimp only
    refine cgaNext_returns hin hebx hesi hedi (by omega) ?_ ?_
    · rw [scrolls, hne, Bool.true_and, if_pos hlf, hcx]
      exact decide_eq_decide.mpr (by omega)
    · rw [Kernel.cgaPutc]
      dsimp only
      have hpos : ({ s with esi := f.esi, edi := f.edi } : Cga).pos = s.pos := rfl
      rw [if_neg hcr, if_pos hlf, cgaGetpos_fst, hpos, hdiv]
      rfl
  · have hcx : (s.pos + 1).toNat = s.pos.toNat + 1 := by bv_omega
    rw [if_neg hlf]
    refine cgaNext_returns hin hebx hesi hedi (by omega) ?_ ?_
    · rw [scrolls, hne, Bool.true_and, if_neg hlf, hcx]
      exact decide_eq_decide.mpr (by omega)
    · rw [Kernel.cgaPutc]
      dsimp only
      rw [if_neg hcr, if_neg hlf]
      rfl

end Putc

end StupidOS.Kernel.OnStack
