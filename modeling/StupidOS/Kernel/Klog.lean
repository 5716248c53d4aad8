import StupidOS.Kernel.CgaStack
import StupidOS.Lib.Numeral

/-!
# The kernel log (`klog.inc`)

`klog` with the pushes, pops and calls it makes. It calls `cga_putc` between `pusha` and
`popa`, so it keeps all registers (`klog_kept`) although `cga_putc` does not. The output to
the serial port is left out.
-/

namespace StupidOS.Kernel.OnStack

-- the return addresses that the assembler gave the calls
variable (A : CallSite → Word)

/-! ## The routines -/

/-- What `klog` prints besides its format: the time that it has read from the CMOS clock,
and the string at an address. The buffers are given by their addresses. -/
structure KlogData where
  time : List Byte
  str : Word → List Byte
  szTime : Word
  szCRLF : Word
  szHexPrefix : Word
  szKlogBuffer : Word

/-- `pusha`, `call cga_putc`, `popa`. Of EAX only AL matters, and DX is the serial port. -/
def putchar (site : CallSite) (al : Byte) (ecx : Word) (s : Cga) (f : Frame) :
    Option (Cga × Frame) := do
  let eax : Word := al.setWidth 32
  let f := f.pusha eax ecx 0x3F8
  let (s, f) ← f.call (A site) (cgaPutc A eax s)
  return (s, f.popa)

/-- The loop of `_klog_print_str`; ESI runs along the string. -/
def printChars (ecx : Word) : List Byte → Cga → Frame → Option (Cga × Frame)
  | [], s, f => some (s, f)
  | al :: str, s, f => do
    let f := f.setEsi (f.esi + 1)
    let (s, f) ← putchar A .klogPrintStr al ecx s f
    printChars ecx str s f

/-- `_klog_print_str` of the string `str` at EAX -/
def klogPrintStr (eax ecx : Word) (str : List Byte) (s : Cga) (f : Frame) :
    Option (Cga × Word × Frame) := do
  let f := f.enter
  let f := f.push f.esi
  let f := f.setEsi eax
  let (s, f) ← printChars A ecx str s f
  let f := f.setEsi (f.esi + 1)
  let f := f.popEsi
  return (s, f.leave.ret)

/-- The first loop of `_klog_print_unsigned`: the digits are pushed, and counted in ECX. -/
def pushDigits (eax : Word) (ecx : Nat) (f : Frame) : Nat × Frame :=
  let f := f.push (eax % 10)
  let ecx := ecx + 1
  if eax / 10 = 0 then (ecx, f) else pushDigits (eax / 10) ecx f
termination_by eax.toNat
decreasing_by
  rename_i hne
  have hpos : eax ≠ 0 := fun h0 => hne (by rw [h0]; rfl)
  rw [BitVec.toNat_udiv]
  exact Nat.div_lt_self (by bv_omega) (by decide)

/-- The second loop: they are popped and printed. -/
def popDigits : Nat → Cga → Frame → Option (Cga × Frame)
  | 0, s, f => some (s, f)
  | ecx + 1, s, f => do
    let al : Byte := (f.word 0).setWidth 8 + 0x30
    let f := f.drop 1
    let (s, f) ← putchar A .klogPrintUnsigned al (BitVec.ofNat 32 (ecx + 1)) s f
    popDigits ecx s f

/-- `_klog_print_unsigned` -/
def klogPrintUnsigned (eax : Word) (s : Cga) (f : Frame) : Option (Cga × Word × Frame) := do
  let f := f.push f.ebx
  let f := f.setEbx 10
  let (ecx, f) := pushDigits eax 0 f
  let (s, f) ← popDigits A ecx s f
  let f := f.popEbx
  return (s, f.ret)

/-- `_klog_print_int`. The number is printed as it is, behind its sign. -/
def klogPrintInt (eax : Word) (s : Cga) (f : Frame) : Option (Cga × Word × Frame) := do
  let (s, f) ← (if eax.msb then putchar A (.klogPrintInt 0) 0x2D eax s f else some (s, f))
  let (s, f) ← f.call (A (.klogPrintInt 1)) (klogPrintUnsigned A eax s)
  return (s, f.ret)

/-- The characters that `_klog_print_hex` leaves in `szKlogBuffer`. -/
def hexDigits (edi : Word) : List Byte :=
  (List.range 8).map fun i =>
    let d : Byte := ((edi.rotateLeft (4 * (i + 1))) &&& 0xF).setWidth 8
    if d.ult 10 then 0x30 + d else 0x37 + d

/-- `_klog_print_hex` -/
def klogPrintHex (E : KlogData) (eax ecx : Word) (s : Cga) (f : Frame) :
    Option (Cga × Word × Frame) := do
  let f := f.enter
  let f := f.push f.edi
  let f := f.setEdi eax
  let (s, f) ← f.call (A (.klogPrintHex 0)) (klogPrintStr A E.szHexPrefix ecx [0x30, 0x78] s)
  let (s, f) ←
    (if f.edi = 0 then putchar A (.klogPrintHex 1) 0x30 ecx s f
    else f.call (A (.klogPrintHex 2)) (klogPrintStr A E.szKlogBuffer 8 (hexDigits f.edi) s))
  let f := f.popEdi
  return (s, f.leave.ret)

/-- `_klog_print_time`, once the clock is ready -/
def klogPrintTime (E : KlogData) (ecx : Word) (s : Cga) (f : Frame) :
    Option (Cga × Word × Frame) := do
  let (s, f) ← f.call (A .klogPrintTime) (klogPrintStr A E.szTime ecx E.time s)
  return (s, f.ret)

/-- An argument, `[ebp + ecx]`: ECX is on the stack while it is printed. -/
def printArg (n : Nat) (print : Word → Cga → Frame → Option (Cga × Word × Frame)) (ecx : Word)
    (s : Cga) (f : Frame) : Option (Word × Cga × Frame) := do
  let eax := f.stack.read32 (f.ebp + ecx)
  let f := f.push ecx
  let (s, f) ← f.call (A (.klog n)) (print eax s)
  let ecx := f.word 0
  let f := f.drop 1
  return (ecx + 4, s, f)

/-- What stands behind a `%`; ECX is the place of the next argument. -/
def klogFormat (E : KlogData) (al : Byte) (ecx : Word) (s : Cga) (f : Frame) :
    Option (Word × Cga × Frame) :=
  let putc (al : Byte) := do
    let (s, f) ← putchar A (.klog 5) al ecx s f
    return (ecx, s, f)
  if al = 0x25 then putc al
  else if al = 0x73 then printArg A 1 (fun eax => klogPrintStr A eax ecx (E.str eax)) ecx s f
  else if al = 0x78 then printArg A 2 (fun eax => klogPrintHex A E eax ecx) ecx s f
  else if al = 0x64 then printArg A 3 (klogPrintInt A) ecx s f
  else if al = 0x75 then printArg A 4 (klogPrintUnsigned A) ecx s f
  else putc 0x3F

/-- The loop of `klog` along its format. A `%` at the end takes it past the end. -/
def klogLoop (E : KlogData) : List Byte → Word → Cga → Frame → Option (Word × Cga × Frame)
  | [], ecx, s, f => some (ecx, s, f)
  | al :: fmt, ecx, s, f =>
    if al = 0x25 then
      match fmt with
      | [] => none
      | al :: fmt => do
        let f := f.setEsi (f.esi + 1)
        let (ecx, s, f) ← klogFormat A E al ecx s f
        let f := f.setEsi (f.esi + 1)
        klogLoop E fmt ecx s f
    else do
      let (s, f) ← putchar A (.klog 5) al ecx s f
      let f := f.setEsi (f.esi + 1)
      klogLoop E fmt ecx s f

/-- `klog` of the format `fmt` at EAX -/
def klog (E : KlogData) (eax ecx : Word) (fmt : List Byte) (s : Cga) (f : Frame) :
    Option (Cga × Word × Frame) := do
  let f := f.enter
  let f := f.push f.esi
  let f := f.setEsi eax
  let (s, f) ← f.call (A (.klog 0)) (klogPrintTime A E ecx s)
  let (ecx, s, f) ← klogLoop A E fmt 8 s f
  let (s, f) ← f.call (A (.klog 6)) (klogPrintStr A E.szCRLF ecx [cr, lf] s)
  let f := f.popEsi
  return (s, f.leave.ret)

/-! ## `klog` keeps the registers -/

/-- Wherever it is called, with the cursor on the screen, `print` returns with all registers
kept and the cursor on the screen. It takes `d` bytes of stack. -/
def Prints (d : Nat) (print : Cga → Frame → Option (Cga × Word × Frame)) : Prop :=
  ∀ s f r, OnScreen s → ∃ s' h, print s (f.push r) = some (s', r, h) ∧ OnScreen s' ∧
    Frame.Kept d f h

section Klog

variable {A : CallSite → Word} {E : KlogData} {s : Cga}

theorem Prints.call {d : Nat} {print : Cga → Frame → Option (Cga × Word × Frame)}
    (hprint : Prints d print) (hs : OnScreen s) (f : Frame) (r : Word) :
    ∃ s' h, f.call r (print s) = some (s', h) ∧ OnScreen s' ∧ Frame.Kept d f h := by
  rcases hprint s f r hs with ⟨s', h, hrun, hs', hkept⟩
  exact ⟨s', h, Frame.call_eq hrun, hs', hkept⟩

theorem putchar_text (hs : OnScreen s) (site : CallSite) (al : Byte) (ecx : Word) (f : Frame) :
    ∃ s' h, putchar A site al ecx s f = some (s', h) ∧ OnScreen s' ∧ OnlyText s.mem s'.mem ∧
      Frame.Kept 58 f h := by
  rcases cgaPutc_spec (A := A) hs (al.setWidth 32) (f.pusha (al.setWidth 32) ecx 0x3F8)
    (A site) with ⟨s', h, hrun, hret⟩
  refine ⟨s', h.popa, ?_, hret.onScreen hs, hret.onlyText hs,
    Frame.pusha_popa hret.balanced (by omega)⟩
  rw [putchar]
  dsimp only
  rw [Frame.call_eq hrun]
  rfl

theorem putchar_spec (hs : OnScreen s) (site : CallSite) (al : Byte) (ecx : Word) (f : Frame) :
    ∃ s' h, putchar A site al ecx s f = some (s', h) ∧ OnScreen s' ∧ Frame.Kept 58 f h := by
  rcases putchar_text hs site al ecx f with ⟨s', h, hrun, hs', -, hkept⟩
  exact ⟨s', h, hrun, hs', hkept⟩

theorem printChars_spec (ecx : Word) (str : List Byte) (hs : OnScreen s) (f : Frame) :
    ∃ s' h, printChars A ecx str s f = some (s', h) ∧ OnScreen s' ∧ Frame.ButEsi 58 f h := by
  induction str generalizing s f with
  | nil => exact ⟨s, f, rfl, hs, Frame.ButEsi.refl⟩
  | cons al str ih =>
      rcases putchar_spec (A := A) hs .klogPrintStr al ecx (f.setEsi (f.esi + 1)) with
        ⟨s₁, f₁, hput, hs₁, hkept⟩
      rcases ih hs₁ f₁ with ⟨s', h, hrun, hs', hrest⟩
      refine ⟨s', h, ?_, hs', ((Frame.ButEsi.setEsi f _).trans hkept.butEsi).trans hrest⟩
      rw [printChars]
      dsimp only
      rw [hput]
      exact hrun

/-- A routine that saves ESI and lets its body use it. -/
theorem savedEsi {d : Nat} {f g : Frame} {r w : Word} (hd : d < 2 ^ 15)
    (hbody : Frame.ButEsi d (((f.push r).enter.push f.esi).setEsi w) g) :
    g.popEsi.leave.ret = (r, g.popEsi.leave.drop 1) ∧
      Frame.Kept (d + 12) f (g.popEsi.leave.drop 1) := by
  have hnil : Frame.Pushed (d + 4) (f.push r).enter [] (f.push r).enter :=
    Frame.Pushed.nil (by omega)
  have hbalanced : Frame.Balanced d ((f.push r).enter.push f.esi) g :=
    ⟨hbody.ebp, hbody.esp, hbody.stack⟩
  have hesi := (hnil.push (by rw [List.length_nil]; omega) f.esi).call hbalanced
    (by rw [List.length_singleton]; omega)
  rcases hesi.popEsi with ⟨hpopped, hsame⟩
  have hkept : Frame.Kept (d + 4 + 4) (f.push r) g.popEsi.leave :=
    ⟨hpopped.leave, hbody.ebx, hsame, hbody.edi⟩
  exact hkept.ret (by omega)

theorem klogPrintStr_prints (eax ecx : Word) (str : List Byte) :
    Prints 70 (klogPrintStr A eax ecx str) := by
  intro s f r hs
  rcases printChars_spec (A := A) ecx str hs (((f.push r).enter.push f.esi).setEsi eax) with
    ⟨s', g, hrun, hs', hbut⟩
  rcases savedEsi (d := 58) (by omega) (hbut.trans (Frame.ButEsi.setEsi g (g.esi + 1))) with ⟨hret, hkept⟩
  refine ⟨s', _, ?_, hs', hkept⟩
  rw [klogPrintStr]
  dsimp only
  rw [Frame.enter_esi, Frame.push_esi, hrun]
  dsimp only [Option.bind_eq_bind, Option.bind_some]
  rw [hret]
  rfl

/-- What is popped is printed as a digit. -/
theorem digit_rem (eax : Word) : ((eax % 10).setWidth 8 + 0x30 : Byte) = digit (eax.toNat % 10) := by
  have hrem : (eax % 10).toNat = eax.toNat % 10 := BitVec.toNat_umod
  apply BitVec.eq_of_toNat_eq
  rw [BitVec.toNat_add, BitVec.toNat_setWidth, hrem, digit, BitVec.toNat_ofNat]
  change (eax.toNat % 10 % 2 ^ 8 + 48) % 2 ^ 8 = _
  omega

/-- A number below `10 ^ (k + 1)` has at most `k + 1` digits. -/
theorem pushDigits_spec {d k n : Nat} {eax : Word} {F f : Frame} {ws : List Word}
    (hlt : eax.toNat < 10 ^ (k + 1)) (hp : Frame.Pushed d F ws f)
    (hroom : 4 * ws.length + 4 * (k + 1) ≤ d) :
    ∃ ds g, pushDigits eax n f = (n + ds.length, g) ∧ ds.length ≤ k + 1 ∧
      ds.map (fun w => w.setWidth 8 + 0x30) = decimal eax.toNat ∧
      Frame.Pushed d F (ds ++ ws) g ∧ g.ebx = f.ebx ∧ g.esi = f.esi ∧ g.edi = f.edi := by
  have hten : (eax / 10).toNat = eax.toNat / 10 := BitVec.toNat_udiv
  have hpush := hp.push (by omega) (eax % 10)
  have hdigit := digit_rem eax
  induction k generalizing eax n f ws with
  | zero =>
      have hsmall : eax.toNat < 10 := hlt
      have hlast : eax / 10 = 0 := by
        apply BitVec.eq_of_toNat_eq
        rw [hten]
        exact Nat.div_eq_of_lt hlt
      refine ⟨[eax % 10], f.push (eax % 10), ?_, Nat.le_refl 1, ?_, hpush, rfl, rfl, rfl⟩
      · rw [pushDigits]
        exact if_pos hlast
      · rw [List.map_singleton, hdigit, decimal_of_lt hsmall, Nat.mod_eq_of_lt hsmall]
  | succ k ih =>
      by_cases hlast : eax / 10 = 0
      · have hsmall : eax.toNat < 10 := by
          rw [hlast] at hten
          change 0 = _ at hten
          omega
        refine ⟨[eax % 10], f.push (eax % 10), ?_, ?_, ?_, hpush, rfl, rfl, rfl⟩
        · rw [pushDigits]
          exact if_pos hlast
        · rw [List.length_singleton]
          omega
        · rw [List.map_singleton, hdigit, decimal_of_lt hsmall, Nat.mod_eq_of_lt hsmall]
      · have hmore : 10 ≤ eax.toNat := by
          refine Nat.le_of_not_lt fun hsmall => hlast (BitVec.eq_of_toNat_eq ?_)
          rw [hten]
          exact Nat.div_eq_of_lt hsmall
        have hless : (eax / 10).toNat < 10 ^ (k + 1) := by
          rw [Nat.pow_succ] at hlt
          omega
        have hroom' : 4 * (eax % 10 :: ws).length + 4 * (k + 1) ≤ d := by
          rw [List.length_cons]
          omega
        rcases ih (n := n + 1) hless hpush hroom' BitVec.toNat_udiv
          (hpush.push (by omega) (eax / 10 % 10)) (digit_rem _) with
          ⟨ds, g, hrun, hle, hdigits, hds, hebx, hesi, hedi⟩
        refine ⟨ds ++ [eax % 10], g, ?_, ?_, ?_, ?_, hebx, hesi, hedi⟩
        · rw [pushDigits, if_neg hlast, hrun, List.length_append, List.length_singleton]
          congr 1
          omega
        · rw [List.length_append, List.length_singleton]
          omega
        · rw [List.map_append, List.map_singleton, hdigits, hten, hdigit, ← decimal_step hmore]
        · rw [List.append_assoc]
          exact hds

theorem popDigits_spec {d : Nat} {F f : Frame} {ds ws : List Word} (hs : OnScreen s)
    (hp : Frame.Pushed d F (ds ++ ws) f) (hroom : 4 * (ds.length + ws.length) + 58 ≤ d) :
    ∃ s' g, popDigits A ds.length s f = some (s', g) ∧ OnScreen s' ∧ Frame.Pushed d F ws g ∧
      g.ebx = f.ebx ∧ g.esi = f.esi ∧ g.edi = f.edi := by
  induction ds generalizing s f with
  | nil => exact ⟨s, f, rfl, hs, hp, rfl, rfl, rfl⟩
  | cons w ds ih =>
      rw [List.length_cons] at hroom
      rcases putchar_spec (A := A) hs .klogPrintUnsigned ((f.word 0).setWidth 8 + 0x30)
        (BitVec.ofNat 32 (ds.length + 1)) (f.drop 1) with ⟨s₁, g₁, hput, hs₁, hkept⟩
      have hpop : Frame.Pushed d F (ds ++ ws) (f.drop 1) := hp.pop
      have hpopped := hpop.call hkept.toBalanced (by rw [List.length_append]; omega)
      rcases ih hs₁ hpopped (by omega) with ⟨s', g, hrun, hs', hws, hebx, hesi, hedi⟩
      refine ⟨s', g, ?_, hs', hws, hebx.trans hkept.ebx, hesi.trans hkept.esi,
        hedi.trans hkept.edi⟩
      rw [List.length_cons, popDigits]
      dsimp only
      rw [hput]
      exact hrun

theorem klogPrintUnsigned_prints (eax : Word) : Prints 106 (klogPrintUnsigned A eax) := by
  intro s f r hs
  have hnil : Frame.Pushed 102 (f.push r) [] (f.push r) := Frame.Pushed.nil (by omega)
  have hebx := hnil.push (by rw [List.length_nil]; omega) f.ebx
  have hlt : eax.toNat < 10 ^ (9 + 1) := by omega
  rcases pushDigits_spec (n := 0) hlt (hebx.setEbx 10) (by rw [List.length_singleton]; omega) with
    ⟨ds, g₁, hpush, hle, -, hds, -, hesi₁, hedi₁⟩
  rcases popDigits_spec (A := A) hs hds (by rw [List.length_singleton]; omega) with
    ⟨s', g, hpop, hs', hws, -, hesi, hedi⟩
  rcases hws.popEbx with ⟨hempty, hsame⟩
  have hkept : Frame.Kept 102 (f.push r) g.popEbx :=
    ⟨hempty.balanced, hsame, hesi.trans hesi₁, hedi.trans hedi₁⟩
  rcases hkept.ret (by omega) with ⟨hret, hkept'⟩
  refine ⟨s', _, ?_, hs', hkept'⟩
  rw [klogPrintUnsigned]
  dsimp only
  rw [Frame.push_ebx, hpush]
  dsimp only
  rw [Nat.zero_add, hpop]
  dsimp only [Option.bind_eq_bind, Option.bind_some]
  rw [hret]
  rfl

theorem klogPrintInt_prints (eax : Word) : Prints 110 (klogPrintInt A eax) := by
  intro s f r hs
  have hsign : ∃ s₁ g₁, (if eax.msb then putchar A (.klogPrintInt 0) 0x2D eax s (f.push r)
      else some (s, f.push r)) = some (s₁, g₁) ∧ OnScreen s₁ ∧ Frame.Kept 106 (f.push r) g₁ := by
    by_cases hneg : eax.msb = true
    · rcases putchar_spec (A := A) hs (.klogPrintInt 0) 0x2D eax (f.push r) with
        ⟨s₁, g₁, hput, hs₁, hkept⟩
      refine ⟨s₁, g₁, ?_, hs₁, hkept.mono (by omega)⟩
      rw [if_pos hneg, hput]
    · refine ⟨s, f.push r, ?_, hs, Frame.Kept.refl⟩
      rw [if_neg hneg]
  rcases hsign with ⟨s₁, g₁, hput, hs₁, hkept₁⟩
  rcases (klogPrintUnsigned_prints (A := A) eax).call hs₁ g₁ (A (.klogPrintInt 1)) with
    ⟨s', g, hcall, hs', hkept⟩
  rcases (hkept₁.trans hkept).ret (by omega) with ⟨hret, hkept'⟩
  refine ⟨s', _, ?_, hs', hkept'⟩
  rw [klogPrintInt, hput]
  dsimp only [Option.bind_eq_bind, Option.bind_some]
  rw [hcall]
  dsimp only [Option.bind_some]
  rw [hret]
  rfl

theorem klogPrintHex_prints (eax ecx : Word) : Prints 82 (klogPrintHex A E eax ecx) := by
  intro s f r hs
  have hnil : Frame.Pushed 74 (f.push r).enter [] (f.push r).enter := Frame.Pushed.nil (by omega)
  have hedi := hnil.push (by rw [List.length_nil]; omega) f.edi
  rcases (klogPrintStr_prints (A := A) E.szHexPrefix ecx [0x30, 0x78]).call hs
    (((f.push r).enter.push f.edi).setEdi eax) (A (.klogPrintHex 0)) with
    ⟨s₁, g₁, hprefix, hs₁, hkept₁⟩
  -- a zero, or the digits
  have hnumber : ∃ s' g, (if g₁.edi = 0 then putchar A (.klogPrintHex 1) 0x30 ecx s₁ g₁
      else g₁.call (A (.klogPrintHex 2))
        (klogPrintStr A E.szKlogBuffer 8 (hexDigits g₁.edi) s₁)) = some (s', g) ∧
      OnScreen s' ∧ Frame.Kept 70 g₁ g := by
    by_cases hzero : g₁.edi = 0
    · rcases putchar_spec (A := A) hs₁ (.klogPrintHex 1) 0x30 ecx g₁ with
        ⟨s', g, hput, hs', hkept⟩
      refine ⟨s', g, ?_, hs', hkept.mono (by omega)⟩
      rw [if_pos hzero, hput]
    · rw [if_neg hzero]
      exact (klogPrintStr_prints _ 8 _).call hs₁ g₁ _
  rcases hnumber with ⟨s', g, hrun, hs', hkept⟩
  have hcalled := (hedi.setEdi eax).call (hkept₁.trans hkept).toBalanced
    (by rw [List.length_singleton])
  rcases hcalled.popEdi with ⟨hempty, hsame⟩
  have hall : Frame.Kept 78 (f.push r) g.popEdi.leave :=
    ⟨hempty.leave, hkept.ebx.trans hkept₁.ebx, hkept.esi.trans hkept₁.esi, hsame⟩
  rcases hall.ret (by omega) with ⟨hret, hkept'⟩
  refine ⟨s', _, ?_, hs', hkept'⟩
  rw [klogPrintHex]
  dsimp only
  rw [Frame.enter_edi, Frame.push_edi, hprefix]
  dsimp only [Option.bind_eq_bind, Option.bind_some]
  rw [hrun]
  dsimp only [Option.bind_some]
  rw [hret]
  rfl

theorem klogPrintTime_prints (ecx : Word) : Prints 74 (klogPrintTime A E ecx) := by
  intro s f r hs
  rcases (klogPrintStr_prints (A := A) E.szTime ecx E.time).call hs (f.push r)
    (A .klogPrintTime) with ⟨s', g, hcall, hs', hkept⟩
  rcases hkept.ret (by omega) with ⟨hret, hkept'⟩
  refine ⟨s', _, ?_, hs', hkept'⟩
  rw [klogPrintTime, hcall]
  dsimp only [Option.bind_eq_bind, Option.bind_some]
  rw [hret]
  rfl

theorem printArg_spec {d n : Nat} {print : Word → Cga → Frame → Option (Cga × Word × Frame)}
    (hprint : ∀ eax, Prints d (print eax)) (hd : d < 2 ^ 15) (hs : OnScreen s) (ecx : Word)
    (f : Frame) :
    ∃ ecx' s' g, printArg A n print ecx s f = some (ecx', s', g) ∧ OnScreen s' ∧
      Frame.Kept (d + 4) f g := by
  have hnil : Frame.Pushed (d + 4) f [] f := Frame.Pushed.nil (by omega)
  have hecx := hnil.push (by rw [List.length_nil]; omega) ecx
  rcases (hprint (f.stack.read32 (f.ebp + ecx))).call hs (f.push ecx) (A (.klog n)) with
    ⟨s', h, hcall, hs', hkept⟩
  have hpopped := (hecx.call hkept.toBalanced (by rw [List.length_singleton]; omega)).pop
  refine ⟨h.word 0 + 4, s', h.drop 1, ?_, hs', hpopped.balanced, hkept.ebx, hkept.esi, hkept.edi⟩
  rw [printArg]
  dsimp only
  rw [hcall]
  rfl

theorem klogFormat_spec (al : Byte) (ecx : Word) (hs : OnScreen s) (f : Frame) :
    ∃ ecx' s' g, klogFormat A E al ecx s f = some (ecx', s', g) ∧ OnScreen s' ∧
      Frame.Kept 114 f g := by
  have hputc : ∀ al : Byte, ∃ ecx' s' g, (do
      let (s, f) ← putchar A (.klog 5) al ecx s f
      return (ecx, s, f)) = some (ecx', s', g) ∧ OnScreen s' ∧ Frame.Kept 114 f g := by
    intro al
    rcases putchar_spec (A := A) hs (.klog 5) al ecx f with ⟨s', g, hput, hs', hkept⟩
    refine ⟨ecx, s', g, ?_, hs', hkept.mono (by omega)⟩
    rw [hput]
    rfl
  have harg : ∀ {d n : Nat} {print : Word → Cga → Frame → Option (Cga × Word × Frame)},
      (∀ eax, Prints d (print eax)) → d ≤ 110 → ∃ ecx' s' g,
        printArg A n print ecx s f = some (ecx', s', g) ∧ OnScreen s' ∧
          Frame.Kept 114 f g := by
    intro d n print hprint hd
    rcases printArg_spec (A := A) (n := n) hprint (by omega) hs ecx f with
      ⟨ecx', s', g, hrun, hs', hkept⟩
    exact ⟨ecx', s', g, hrun, hs', hkept.mono (by omega)⟩
  unfold klogFormat
  dsimp only
  split
  · exact hputc al
  · split
    · exact harg (fun eax => klogPrintStr_prints eax ecx (E.str eax)) (by omega)
    · split
      · exact harg (fun eax => klogPrintHex_prints eax ecx) (by omega)
      · split
        · exact harg klogPrintInt_prints (by omega)
        · split
          · exact harg klogPrintUnsigned_prints (by omega)
          · exact hputc 0x3F

/-- No `%` stands at the end. -/
def FormatOk : List Byte → Bool
  | [] => true
  | al :: fmt =>
    if al = 0x25 then
      match fmt with
      | [] => false
      | _ :: fmt => FormatOk fmt
    else FormatOk fmt

/-- ESI runs along the format; everything else is kept. -/
theorem klogLoop_spec {fmt : List Byte} (hfmt : FormatOk fmt = true) (ecx : Word) (hs : OnScreen s)
    (f : Frame) :
    ∃ ecx' s' g, klogLoop A E fmt ecx s f = some (ecx', s', g) ∧ OnScreen s' ∧
      Frame.ButEsi 114 f g := by
  induction fmt using FormatOk.induct generalizing ecx s f with
  | case1 => exact ⟨ecx, s, f, rfl, hs, Frame.ButEsi.refl⟩
  | case2 => simp [FormatOk] at hfmt
  | case3 al fmt ih =>
      have hrest : FormatOk fmt = true := by
        rw [FormatOk, if_pos rfl] at hfmt
        exact hfmt
      rcases klogFormat_spec (A := A) (E := E) al ecx hs (f.setEsi (f.esi + 1)) with
        ⟨ecx₁, s₁, g₁, hformat, hs₁, hkept⟩
      rcases ih hrest ecx₁ hs₁ (g₁.setEsi (g₁.esi + 1)) with
        ⟨ecx', s', g, hrun, hs', hbut⟩
      refine ⟨ecx', s', g, ?_, hs',
        (((Frame.ButEsi.setEsi f _).trans hkept.butEsi).trans (Frame.ButEsi.setEsi g₁ _)).trans hbut⟩
      rw [klogLoop, if_pos rfl]
      dsimp only
      rw [hformat]
      exact hrun
  | case4 al fmt hne ih =>
      have hrest : FormatOk fmt = true := by
        rw [FormatOk.eq_def] at hfmt
        dsimp only at hfmt
        rw [if_neg hne] at hfmt
        exact hfmt
      rcases putchar_spec (A := A) hs (.klog 5) al ecx f with ⟨s₁, g₁, hput, hs₁, hkept⟩
      rcases ih hrest ecx hs₁ (g₁.setEsi (g₁.esi + 1)) with
        ⟨ecx', s', g, hrun, hs', hbut⟩
      refine ⟨ecx', s', g, ?_, hs',
        ((hkept.mono (by omega)).butEsi.trans (Frame.ButEsi.setEsi g₁ _)).trans hbut⟩
      rw [klogLoop.eq_def]
      dsimp only
      rw [if_neg hne, hput]
      exact hrun

/-- **`klog` keeps all registers**, whatever it prints. -/
theorem klog_kept {fmt : List Byte} (hfmt : FormatOk fmt = true) (eax ecx : Word) :
    Prints 126 (klog A E eax ecx fmt) := by
  intro s f r hs
  rcases (klogPrintTime_prints (A := A) (E := E) ecx).call hs
    (((f.push r).enter.push f.esi).setEsi eax) (A (.klog 0)) with
    ⟨s₁, g₁, htime, hs₁, hkept₁⟩
  rcases klogLoop_spec (A := A) (E := E) hfmt 8 hs₁ g₁ with ⟨ecx₂, s₂, g₂, hloop, hs₂, hbut⟩
  rcases (klogPrintStr_prints (A := A) E.szCRLF ecx₂ [cr, lf]).call hs₂ g₂ (A (.klog 6)) with
    ⟨s', g, hcrlf, hs', hkept₃⟩
  have hbody := ((hkept₁.mono (by omega)).butEsi.trans hbut).trans (hkept₃.mono (by omega)).butEsi
  rcases savedEsi (d := 114) (by omega) hbody with ⟨hret, hkept⟩
  refine ⟨s', _, ?_, hs', hkept⟩
  rw [klog]
  dsimp only
  rw [Frame.enter_esi, Frame.push_esi, htime]
  dsimp only [Option.bind_eq_bind, Option.bind_some]
  rw [hloop]
  dsimp only [Option.bind_some]
  rw [hcrlf]
  dsimp only [Option.bind_some]
  rw [hret]
  rfl

end Klog

end StupidOS.Kernel.OnStack
