import StupidOS.Kernel.Klog
import StupidOS.Lib.Loop

/-!
# What `klog` sends (`klog.inc`)

`klog` once more, with its strings in memory, its place in the arguments in ECX, and the bytes
that go to COM1 and to `cga_putc`. `Prints` says what a routine sends; it is proved here for
strings, for numbers and for the time.
-/

namespace StupidOS.Kernel.Logged

open OnStack (CallSite OnScreen)

/-! ## The strings of `klog` -/

/-- The bytes from `szTime` on: the time, CR LF, the digits, `0x`, and the buffer. -/
def image : List Byte :=
  [0x5B, 0x30, 0x30, 0x3A, 0x30, 0x30, 0x3A, 0x30, 0x30, 0x5D, 0x20, 0] ++ [cr, lf, 0] ++
    (List.range 16).map hexDigit ++ [0x30, 0x78, 0] ++ List.replicate 8 0x30 ++ [0]

section Labels

variable (szTime : Word)

def szCRLF : Word := szTime + 12
def sDigit : Word := szTime + 15
def szHexPrefix : Word := szTime + 31
def szKlogBuffer : Word := szTime + 34

end Labels

/-! ## The routines -/

/-- The console and the memory, and what went to COM1 and to `cga_putc`. -/
structure Out where
  cga : Cga
  com1 : List Byte
  putcs : List Byte

def Out.mem (s : Out) : Mem := s.cga.mem

/-- `mov [a], al` -/
def Out.store (s : Out) (a : Word) (al : Byte) : Out :=
  { s with cga := { s.cga with mem := s.cga.mem.write8 a al } }

variable (A : CallSite → Word)

/-- `out dx, al`, with COM1 in DX, `pusha`, `call cga_putc`, `popa` -/
def putchar (site : CallSite) (al : Byte) (ecx : Word) (s : Out) (f : Frame) :
    Option (Out × Frame) := do
  let (cga, f) ← OnStack.putchar A site al ecx s.cga f
  return (⟨cga, s.com1 ++ [al], s.putcs ++ [al]⟩, f)

/-- One pass of the loop of `_klog_print_str`. -/
def strPass (ecx : Word) (t : Out × Frame) : Option (Pass (Out × Frame) (Out × Frame)) :=
  let (s, f) := t
  -- lodsb
  let al := s.mem f.esi
  let f := f.setEsi (f.esi + 1)
  if al = 0 then some (.done (s, f))
  else do
    let (s, f) ← putchar A .klogPrintStr al ecx s f
    return .again (s, f)

/-- `_klog_print_str` -/
def klogPrintStr (fuel : Nat) (eax ecx : Word) (s : Out) (f : Frame) :
    Option (Out × Word × Frame) := do
  let f := f.enter
  let f := f.push f.esi
  let f := f.setEsi eax
  let (s, f) ← iterate (strPass A ecx) fuel (s, f)
  let f := f.popEsi
  return (s, f.leave.ret)

/-- The second loop of `_klog_print_unsigned`. -/
def popDigits : Nat → Out → Frame → Option (Out × Frame)
  | 0, s, f => some (s, f)
  | ecx + 1, s, f => do
    let al : Byte := (f.word 0).setWidth 8 + 0x30
    let f := f.drop 1
    let (s, f) ← putchar A .klogPrintUnsigned al (BitVec.ofNat 32 (ecx + 1)) s f
    popDigits ecx s f

/-- `_klog_print_unsigned` -/
def klogPrintUnsigned (eax : Word) (s : Out) (f : Frame) : Option (Out × Word × Frame) := do
  let f := f.push f.ebx
  let f := f.setEbx 10
  let (ecx, f) := OnStack.pushDigits eax 0 f
  let (s, f) ← popDigits A ecx s f
  let f := f.popEbx
  return (s, f.ret)

/-- `_klog_print_int`. What `sar`, `xor` and `sub` leave in ECX is overwritten, and EAX is printed
as it is. -/
def klogPrintInt (eax : Word) (s : Out) (f : Frame) : Option (Out × Word × Frame) := do
  let (s, f) ← (if eax.msb then putchar A (.klogPrintInt 0) 0x2D eax s f else some (s, f))
  let (s, f) ← f.call (A (.klogPrintInt 1)) (klogPrintUnsigned A eax s)
  return (s, f.ret)

/-- ECX with a new CL -/
def setCl (ecx : Word) (cl : Byte) : Word := ecx.extractLsb' 8 24 ++ cl

variable (szTime : Word)

/-- One pass of the loop of `_klog_print_hex`, with ECX and EDI. -/
def hexPass (t : Word × Word × Out) : Option (Pass (Word × Word × Out) (Word × Word × Out)) :=
  let (ecx, edi, s) := t
  let cl : Byte := ecx.setWidth 8
  if cl = 8 then some (.done t)
  else
    let edi := edi.rotateLeft 4
    let al := s.mem (sDigit szTime + (edi &&& 0xF))
    some (.again (setCl ecx (cl + 1), edi, s.store (szKlogBuffer szTime + ecx) al))

/-- The part of `_klog_print_hex` for a number that is not 0, from `.begin` on. -/
def printDigits (fuel : Nat) (ecx : Word) (s : Out) (f : Frame) : Option (Out × Frame) := do
  let (ecx, edi, s) ← iterate (hexPass szTime) fuel (setCl ecx 0, f.edi, s)
  let f := f.setEdi edi
  let s := s.store (szKlogBuffer szTime + ecx) 0
  f.call (A (.klogPrintHex 2)) (klogPrintStr A fuel (szKlogBuffer szTime) ecx s)

/-- `_klog_print_hex` -/
def klogPrintHex (fuel : Nat) (eax ecx : Word) (s : Out) (f : Frame) :
    Option (Out × Word × Frame) := do
  let f := f.enter
  let f := f.push f.edi
  let f := f.setEdi eax
  let (s, f) ← f.call (A (.klogPrintHex 0)) (klogPrintStr A fuel (szHexPrefix szTime) ecx s)
  let (s, f) ← (if f.edi = 0 then putchar A (.klogPrintHex 1) 0x30 ecx s f
    else printDigits A szTime fuel ecx s f)
  let f := f.popEdi
  return (s, f.leave.ret)

/-- What the CMOS clock gives, in binary-coded decimal. -/
structure Clock where
  hour : Byte
  minute : Byte
  second : Byte

/-- The two digits of `al` are stored at `a`. -/
def storeBcd (a : Word) (al : Byte) (s : Out) : Out :=
  (s.store a (((al >>> 4) &&& 0xF) + 0x30)).store (a + 1) ((al &&& 0xF) + 0x30)

/-- `_klog_print_time`, once the clock is ready -/
def klogPrintTime (fuel : Nat) (c : Clock) (ecx : Word) (s : Out) (f : Frame) :
    Option (Out × Word × Frame) := do
  let s := storeBcd (szTime + 1) c.hour s
  let s := storeBcd (szTime + 4) c.minute s
  let s := storeBcd (szTime + 7) c.second s
  let (s, f) ← f.call (A .klogPrintTime) (klogPrintStr A fuel szTime ecx s)
  return (s, f.ret)

/-- An argument, `[ebp + ecx]`: ECX is on the stack while it is printed. -/
def printArg (n : Nat) (print : Word → Out → Frame → Option (Out × Word × Frame)) (ecx : Word)
    (s : Out) (f : Frame) : Option (Word × Out × Frame) := do
  let eax := f.stack.read32 (f.ebp + ecx)
  let f := f.push ecx
  let (s, f) ← f.call (A (.klog n)) (print eax s)
  let ecx := f.word 0
  let f := f.drop 1
  return (ecx + 4, s, f)

/-- What stands behind a `%`. -/
def klogFormat (fuel : Nat) (al : Byte) (ecx : Word) (s : Out) (f : Frame) :
    Option (Word × Out × Frame) :=
  let putc (al : Byte) := do
    let (s, f) ← putchar A (.klog 5) al ecx s f
    return (ecx, s, f)
  if al = 0x25 then putc al
  else if al = 0x73 then printArg A 1 (fun eax => klogPrintStr A fuel eax ecx) ecx s f
  else if al = 0x78 then printArg A 2 (fun eax => klogPrintHex A szTime fuel eax ecx) ecx s f
  else if al = 0x64 then printArg A 3 (klogPrintInt A) ecx s f
  else if al = 0x75 then printArg A 4 (klogPrintUnsigned A) ecx s f
  else putc 0x3F

/-- One pass of the loop of `klog`. -/
def klogPass (fuel : Nat) (t : Word × Out × Frame) :
    Option (Pass (Word × Out × Frame) (Word × Out × Frame)) :=
  let (ecx, s, f) := t
  let al := s.mem f.esi
  if al = 0 then some (.done t)
  else if al = 0x25 then do
    let f := f.setEsi (f.esi + 1)
    let (ecx, s, f) ← klogFormat A szTime fuel (s.mem f.esi) ecx s f
    return .again (ecx, s, f.setEsi (f.esi + 1))
  else do
    let (s, f) ← putchar A (.klog 5) al ecx s f
    return .again (ecx, s, f.setEsi (f.esi + 1))

/-- `klog` -/
def klog (fuel : Nat) (c : Clock) (eax ecx : Word) (s : Out) (f : Frame) :
    Option (Out × Word × Frame) := do
  let f := f.enter
  let f := f.push f.esi
  let f := f.setEsi eax
  let (s, f) ← f.call (A (.klog 0)) (klogPrintTime A szTime fuel c ecx s)
  let (ecx, s, f) ← iterate (klogPass A szTime fuel) fuel (8, s, f)
  let (s, f) ← f.call (A (.klog 6)) (klogPrintStr A fuel (szCRLF szTime) ecx s)
  let f := f.popEsi
  return (s, f.leave.ret)

/-! ## What is in memory -/

/-- Not in the text memory. -/
def NotText (x : Word) : Prop := 4000 ≤ (x - cgaMemory).toNat

instance (x : Word) : Decidable (NotText x) := inferInstanceAs (Decidable (_ ≤ _))

/-- The string `str` is at `p`, with its NUL, and all of it where `Ok` holds. -/
def StrAt (Ok : Word → Prop) (m : Mem) : Word → List Byte → Prop
  | p, [] => Ok p ∧ m p = 0
  | p, b :: str => Ok p ∧ m p = b ∧ b ≠ 0 ∧ StrAt Ok m (p + 1) str

instance StrAt.decidable {Ok : Word → Prop} [DecidablePred Ok] {m : Mem} :
    (p : Word) → (str : List Byte) → Decidable (StrAt Ok m p str)
  | _, [] => inferInstanceAs (Decidable (_ ∧ _))
  | p, _ :: str =>
    have : Decidable (StrAt Ok m (p + 1) str) := StrAt.decidable (p + 1) str
    inferInstanceAs (Decidable (_ ∧ _ ∧ _ ∧ _))

theorem StrAt.congr {Ok : Word → Prop} {m m' : Mem} (hm : ∀ x, Ok x → m' x = m x) {p : Word}
    {str : List Byte} (h : StrAt Ok m p str) : StrAt Ok m' p str := by
  induction str generalizing p with
  | nil => exact ⟨h.1, (hm p h.1).trans h.2⟩
  | cons b str ih => exact ⟨h.1, (hm p h.1).trans h.2.1, h.2.2.1, ih h.2.2.2⟩

theorem StrAt.mono {Ok Ok' : Word → Prop} (hok : ∀ x, Ok x → Ok' x) {m : Mem} {p : Word}
    {str : List Byte} (h : StrAt Ok m p str) : StrAt Ok' m p str := by
  induction str generalizing p with
  | nil => exact ⟨hok p h.1, h.2⟩
  | cons b str ih => exact ⟨hok p h.1, h.2.1, h.2.2.1, ih h.2.2.2⟩

/-- A string from its bytes one by one. -/
theorem strAt_of_bytes {Ok : Word → Prop} {m : Mem} {p : Word} {str : List Byte} (hne : 0 ∉ str)
    (h : ∀ i b, (str ++ [0])[i]? = some b →
      Ok (p + BitVec.ofNat 32 i) ∧ m (p + BitVec.ofNat 32 i) = b) : StrAt Ok m p str := by
  have hfirst := h 0
  rw [BitVec.add_zero] at hfirst
  induction str generalizing p with
  | nil => exact hfirst 0 rfl
  | cons b str ih =>
      rcases hfirst b rfl with ⟨hok, hb⟩
      refine ⟨hok, hb, fun h0 => hne (h0 ▸ List.mem_cons_self), ?_⟩
      have hnext : ∀ i b', (str ++ [0])[i]? = some b' →
          Ok (p + 1 + BitVec.ofNat 32 i) ∧ m (p + 1 + BitVec.ofNat 32 i) = b' := by
        intro i b' hb'
        have haddr : p + 1 + BitVec.ofNat 32 i = p + BitVec.ofNat 32 (i + 1) := by
          rw [BitVec.add_assoc, BitVec.ofNat_add, BitVec.add_comm (1 : Word)]
          rfl
        rw [haddr]
        exact h (i + 1) b' hb'
      have hzero := hnext 0
      rw [BitVec.add_zero] at hzero
      exact ih (fun hmem => hne (List.mem_cons_of_mem b hmem)) hnext hzero

/-! ### The bytes of `klog` -/

section Image

variable (szTime : Word)

/-- Neither in the text memory nor in a buffer of `klog`. -/
def Aside (x : Word) : Prop :=
  NotText x ∧ 12 ≤ (x - szTime).toNat ∧ 9 ≤ (x - szKlogBuffer szTime).toNat

instance (x : Word) : Decidable (Aside szTime x) := inferInstanceAs (Decidable (_ ∧ _))

/-- The bytes of `image` that are never stored to. -/
def Fixed (i : Nat) : Prop := i < 34 ∧ i ∉ [1, 2, 4, 5, 7, 8]

instance (i : Nat) : Decidable (Fixed i) := inferInstanceAs (Decidable (_ ∧ _))

/-- The bytes from `szTime` on are there, away from the text memory. -/
structure InImage (m : Mem) : Prop where
  notText : ∀ i, i < 43 → NotText (szTime + BitVec.ofNat 32 i)
  byte : ∀ i b, image[i]? = some b → Fixed i → m (szTime + BitVec.ofNat 32 i) = b

/-- Of the memory aside nothing differs, nor of the bytes that stay. -/
structure OnlyLog (m m' : Mem) : Prop where
  aside : ∀ x, Aside szTime x → m' x = m x
  image : InImage szTime m → InImage szTime m'

end Image

section Memory

variable {szTime : Word} {m m' m'' : Mem}

theorem fixed_of_le {i : Nat} (hle : 12 ≤ i) (hlt : i < 34) : Fixed i := by
  refine ⟨hlt, ?_⟩
  simp only [List.mem_cons, List.not_mem_nil, or_false]
  omega

theorem OnlyLog.refl : OnlyLog szTime m m := ⟨fun _ _ => rfl, fun h => h⟩

theorem OnlyLog.trans (h : OnlyLog szTime m m') (h' : OnlyLog szTime m' m'') :
    OnlyLog szTime m m'' :=
  ⟨fun x hx => (h'.aside x hx).trans (h.aside x hx), fun hm => h'.image (h.image hm)⟩

theorem OnlyLog.of_onlyText (h : OnlyText m m') : OnlyLog szTime m m' := by
  refine ⟨fun x hx => h x hx.1, fun hm => ⟨hm.notText, ?_⟩⟩
  intro i b hb hfix
  rw [h _ (hm.notText i (Nat.lt_trans hfix.1 (by decide)))]
  exact hm.byte i b hb hfix

theorem label_ne {i k : Nat} (hi : i < 43) (hk : k < 43) (hne : i ≠ k) :
    szTime + BitVec.ofNat 32 i ≠ szTime + BitVec.ofNat 32 k := by
  intro heq
  have hoff := offset_toNat szTime (show i < 2 ^ 32 by omega)
  rw [heq, offset_toNat szTime (by omega)] at hoff
  exact hne hoff.symm

/-- A store to a byte that is not fixed. -/
theorem OnlyLog.write8 {k : Nat} (hk : k < 43) (hfree : ¬ Fixed k) (al : Byte) :
    OnlyLog szTime m (m.write8 (szTime + BitVec.ofNat 32 k) al) := by
  have hplace : k < 12 ∨ 34 ≤ k := by
    by_contra hmiddle
    exact hfree (fixed_of_le (by omega) (by omega))
  refine ⟨?_, fun hm => ⟨hm.notText, ?_⟩⟩
  · intro x hx
    apply Mem.write8_frame
    rintro rfl
    have htime := hx.2.1
    have hbuffer := hx.2.2
    rw [offset_toNat szTime (by omega)] at htime
    rw [szKlogBuffer] at hbuffer
    have hword : (BitVec.ofNat 32 k).toNat = k := toNat_ofNat_of_lt (by omega)
    generalize BitVec.ofNat 32 k = w at hword hbuffer
    bv_omega
  · intro i b hb hfix
    have hi : i < 43 := Nat.lt_trans hfix.1 (by decide)
    rw [Mem.write8_frame _ _ (label_ne hi hk fun heq => hfree (heq ▸ hfix))]
    exact hm.byte i b hb hfix

/-- A string among the bytes that stay. -/
theorem InImage.str (h : InImage szTime m) {k : Nat} {str : List Byte} (hne : 0 ∉ str)
    (hk : 12 ≤ k) (hend : k + str.length < 34)
    (heq : (image.drop k).take (str.length + 1) = str ++ [0]) :
    StrAt NotText m (szTime + BitVec.ofNat 32 k) str := by
  refine strAt_of_bytes hne ?_
  intro i b hb
  have hlen := (List.getElem?_eq_some_iff.mp hb).1
  rw [List.length_append, List.length_singleton] at hlen
  rw [← heq, List.getElem?_take_of_lt hlen, List.getElem?_drop] at hb
  rw [BitVec.add_assoc, ← BitVec.ofNat_add]
  exact ⟨h.notText _ (by omega), h.byte _ b hb (fixed_of_le (by omega) (by omega))⟩

theorem InImage.crlf (h : InImage szTime m) : StrAt NotText m (szCRLF szTime) [cr, lf] :=
  h.str (by decide) (Nat.le_refl 12) (by decide) (by decide)

theorem InImage.hexPrefix (h : InImage szTime m) :
    StrAt NotText m (szHexPrefix szTime) [0x30, 0x78] :=
  h.str (by decide) (by decide) (by decide) (by decide)

theorem InImage.digit (h : InImage szTime m) {d : Nat} (hd : d < 16) :
    m (sDigit szTime + BitVec.ofNat 32 d) = hexDigit d := by
  have himage : image[15 + d]? = some (hexDigit d) := by
    interval_cases d <;> rfl
  have haddr : sDigit szTime + BitVec.ofNat 32 d = szTime + BitVec.ofNat 32 (15 + d) := by
    rw [BitVec.ofNat_add, ← BitVec.add_assoc]
    rfl
  rw [haddr]
  exact h.byte _ _ himage (fixed_of_le (by omega) (by omega))

end Memory

/-! ## What is sent -/

/-- The bytes were sent, to COM1 and to `cga_putc`. -/
structure Sent (bytes : List Byte) (s s' : Out) : Prop where
  com1 : s'.com1 = s.com1 ++ bytes
  putcs : s'.putcs = s.putcs ++ bytes
  screen : OnScreen s'.cga

namespace Sent

variable {bytes bytes' : List Byte} {s s' s'' : Out}

theorem refl (hs : OnScreen s.cga) : Sent [] s s :=
  ⟨(List.append_nil _).symm, (List.append_nil _).symm, hs⟩

theorem trans (h : Sent bytes s s') (h' : Sent bytes' s' s'') : Sent (bytes ++ bytes') s s'' := by
  refine ⟨?_, ?_, h'.screen⟩
  · rw [h'.com1, h.com1, List.append_assoc]
  · rw [h'.putcs, h.putcs, List.append_assoc]

end Sent

/-- `print`, called in `f`, sends the bytes and keeps all registers; it takes `d` bytes of stack,
and of the memory it writes what `Only` says. -/
def Prints (Only : Mem → Mem → Prop) (d : Nat) (bytes : List Byte) (s : Out)
    (print : Frame → Option (Out × Word × Frame)) : Prop :=
  ∀ f r, ∃ s' h, print (f.push r) = some (s', r, h) ∧ Sent bytes s s' ∧ Only s.mem s'.mem ∧
    Frame.Kept d f h

/-- `print`, called in `f`, returns with `Q` and keeps all registers; it takes `d` bytes of the
stack. -/
def Calls (d : Nat) (Q : Out → Prop) (print : Frame → Option (Out × Word × Frame)) : Prop :=
  ∀ f r, ∃ s' h, print (f.push r) = some (s', r, h) ∧ Q s' ∧ Frame.Kept d f h

section Printing

variable {A : CallSite → Word} {s : Out}

theorem prints_iff_calls {Only : Mem → Mem → Prop} {d : Nat} {bytes : List Byte}
    {print : Frame → Option (Out × Word × Frame)} : Prints Only d bytes s print ↔
      Calls d (fun s' => Sent bytes s s' ∧ Only s.mem s'.mem) print := by
  constructor
  · intro hprint f r
    rcases hprint f r with ⟨s', h, hrun, hsent, honly, hkept⟩
    exact ⟨s', h, hrun, ⟨hsent, honly⟩, hkept⟩
  · intro hcalls f r
    rcases hcalls f r with ⟨s', h, hrun, ⟨hsent, honly⟩, hkept⟩
    exact ⟨s', h, hrun, hsent, honly, hkept⟩

theorem Calls.imp {d e : Nat} {P Q : Out → Prop} {print : Frame → Option (Out × Word × Frame)}
    (h : Calls d P print) (hle : d ≤ e) (hpq : ∀ s', P s' → Q s') : Calls e Q print := by
  intro f r
  rcases h f r with ⟨s', g, hrun, hp, hkept⟩
  exact ⟨s', g, hrun, hpq s' hp, hkept.mono hle⟩

theorem Prints.call {Only : Mem → Mem → Prop} {d : Nat} {bytes : List Byte}
    {print : Frame → Option (Out × Word × Frame)} (hprint : Prints Only d bytes s print)
    (f : Frame) (r : Word) : ∃ s' h, f.call r print = some (s', h) ∧ Sent bytes s s' ∧
      Only s.mem s'.mem ∧ Frame.Kept d f h := by
  rcases hprint f r with ⟨s', h, hrun, hrest⟩
  exact ⟨s', h, Frame.call_eq hrun, hrest⟩

theorem Prints.mono {Only Only' : Mem → Mem → Prop} (honly : ∀ m', Only s.mem m' → Only' s.mem m')
    {d e : Nat} (hle : d ≤ e) {bytes : List Byte} {print : Frame → Option (Out × Word × Frame)}
    (hprint : Prints Only d bytes s print) : Prints Only' e bytes s print := by
  intro f r
  rcases hprint f r with ⟨s', h, hrun, hsent, hmem, hkept⟩
  exact ⟨s', h, hrun, hsent, honly _ hmem, hkept.mono hle⟩

theorem putchar_sent (hs : OnScreen s.cga) (site : CallSite) (al : Byte) (ecx : Word) (f : Frame) :
    ∃ s' h, putchar A site al ecx s f = some (s', h) ∧ Sent [al] s s' ∧ OnlyText s.mem s'.mem ∧
      Frame.Kept 58 f h := by
  rcases OnStack.putchar_text (A := A) hs site al ecx f with ⟨cga, h, hrun, hscreen, htext, hkept⟩
  refine ⟨⟨cga, s.com1 ++ [al], s.putcs ++ [al]⟩, h, ?_, ⟨rfl, rfl, hscreen⟩, htext, hkept⟩
  rw [putchar, hrun]
  rfl

/-- ESI runs along the string. -/
theorem strPass_sent (ecx : Word) {str : List Byte} (hs : OnScreen s.cga) {f : Frame}
    (hstr : StrAt NotText s.mem f.esi str) {fuel : Nat} (hfuel : str.length < fuel) :
    ∃ s' h, iterate (strPass A ecx) fuel (s, f) = some (s', h) ∧ Sent str s s' ∧
      OnlyText s.mem s'.mem ∧ Frame.ButEsi 58 f h := by
  induction str generalizing s f fuel with
  | nil =>
      obtain ⟨fuel, rfl⟩ : ∃ n, fuel = n + 1 := ⟨fuel - 1, by omega⟩
      have hpass : strPass A ecx (s, f) = some (.done (s, f.setEsi (f.esi + 1))) :=
        if_pos hstr.2
      exact ⟨s, _, iterate_done hpass fuel, Sent.refl hs, fun _ _ => rfl,
        Frame.ButEsi.setEsi f _⟩
  | cons al str ih =>
      obtain ⟨fuel, rfl⟩ : ∃ n, fuel = n + 1 := ⟨fuel - 1, by omega⟩
      rcases hstr with ⟨-, hal, hne, hrest⟩
      rcases putchar_sent (A := A) hs .klogPrintStr al ecx (f.setEsi (f.esi + 1)) with
        ⟨s₁, f₁, hput, hsent, htext, hkept⟩
      have hpass : strPass A ecx (s, f) = some (.again (s₁, f₁)) := by
        rw [strPass]
        dsimp only
        rw [hal, if_neg hne, hput]
        rfl
      have hstr₁ : StrAt NotText s₁.mem f₁.esi str := by
        rw [hkept.esi]
        exact hrest.congr htext
      rw [List.length_cons] at hfuel
      rcases ih hsent.screen hstr₁ (show str.length < fuel by omega) with
        ⟨s', h, hrun, hsent', htext', hbut⟩
      refine ⟨s', h, ?_, hsent.trans hsent', htext.trans htext',
        ((Frame.ButEsi.setEsi f _).trans hkept.butEsi).trans hbut⟩
      rw [iterate_again hpass]
      exact hrun

theorem klogPrintStr_prints (eax ecx : Word) {str : List Byte} (hs : OnScreen s.cga)
    (hstr : StrAt NotText s.mem eax str) {fuel : Nat} (hfuel : str.length < fuel) :
    Prints OnlyText 70 str s (klogPrintStr A fuel eax ecx s) := by
  intro f r
  rcases strPass_sent (A := A) ecx (f := ((f.push r).enter.push f.esi).setEsi eax) hs hstr hfuel
    with ⟨s', g, hrun, hsent, htext, hbut⟩
  rcases OnStack.savedEsi (d := 58) (by omega) hbut with ⟨hret, hkept⟩
  refine ⟨s', _, ?_, hsent, htext, hkept⟩
  rw [klogPrintStr]
  dsimp only
  rw [Frame.enter_esi, Frame.push_esi, hrun]
  dsimp only [Option.bind_eq_bind, Option.bind_some]
  rw [hret]
  rfl

/-! ## Numbers -/

theorem popDigits_sent {d : Nat} {F f : Frame} {ds ws : List Word} (hs : OnScreen s.cga)
    (hp : Frame.Pushed d F (ds ++ ws) f) (hroom : 4 * (ds.length + ws.length) + 58 ≤ d) :
    ∃ s' g, popDigits A ds.length s f = some (s', g) ∧
      Sent (ds.map fun w => w.setWidth 8 + 0x30) s s' ∧ OnlyText s.mem s'.mem ∧
      Frame.Pushed d F ws g ∧ g.ebx = f.ebx ∧ g.esi = f.esi ∧ g.edi = f.edi := by
  induction ds generalizing s f with
  | nil => exact ⟨s, f, rfl, Sent.refl hs, fun _ _ => rfl, hp, rfl, rfl, rfl⟩
  | cons w ds ih =>
      rw [List.length_cons] at hroom
      have htop : f.word 0 = w := hp.top
      rcases putchar_sent (A := A) hs .klogPrintUnsigned (w.setWidth 8 + 0x30)
        (BitVec.ofNat 32 (ds.length + 1)) (f.drop 1) with ⟨s₁, g₁, hput, hsent, htext, hkept⟩
      have hpop : Frame.Pushed d F (ds ++ ws) (f.drop 1) := hp.pop
      have hpopped := hpop.call hkept.toBalanced (by rw [List.length_append]; omega)
      rcases ih hsent.screen hpopped (by omega) with
        ⟨s', g, hrun, hsent', htext', hws, hebx, hesi, hedi⟩
      refine ⟨s', g, ?_, hsent.trans hsent', htext.trans htext', hws, hebx.trans hkept.ebx,
        hesi.trans hkept.esi, hedi.trans hkept.edi⟩
      rw [List.length_cons, popDigits]
      dsimp only
      rw [htop, hput]
      exact hrun

theorem klogPrintUnsigned_prints (eax : Word) (hs : OnScreen s.cga) :
    Prints OnlyText 106 (decimal eax.toNat) s (klogPrintUnsigned A eax s) := by
  intro f r
  have hnil : Frame.Pushed 102 (f.push r) [] (f.push r) := Frame.Pushed.nil (by omega)
  have hebx := hnil.push (by rw [List.length_nil]; omega) f.ebx
  have hlt : eax.toNat < 10 ^ (9 + 1) := by omega
  rcases OnStack.pushDigits_spec (n := 0) hlt (hebx.setEbx 10)
    (by rw [List.length_singleton]; omega) with
    ⟨ds, g₁, hpush, hle, hdigits, hds, -, hesi₁, hedi₁⟩
  rcases popDigits_sent (A := A) hs hds (by rw [List.length_singleton]; omega) with
    ⟨s', g, hpop, hsent, htext, hws, -, hesi, hedi⟩
  rcases hws.popEbx with ⟨hempty, hsame⟩
  have hkept : Frame.Kept 102 (f.push r) g.popEbx :=
    ⟨hempty.balanced, hsame, hesi.trans hesi₁, hedi.trans hedi₁⟩
  rcases hkept.ret (by omega) with ⟨hret, hkept'⟩
  rw [hdigits] at hsent
  refine ⟨s', _, ?_, hsent, htext, hkept'⟩
  rw [klogPrintUnsigned]
  dsimp only
  rw [Frame.push_ebx, hpush]
  dsimp only
  rw [Nat.zero_add, hpop]
  dsimp only [Option.bind_eq_bind, Option.bind_some]
  rw [hret]
  rfl

/-- What `%d` comes to: the sign, and the number as an unsigned one. -/
def intText (v : Word) : List Byte := (if v.msb then [0x2D] else []) ++ decimal v.toNat

theorem klogPrintInt_prints (eax : Word) (hs : OnScreen s.cga) :
    Prints OnlyText 110 (intText eax) s (klogPrintInt A eax s) := by
  intro f r
  have hsign : ∃ s₁ g₁, (if eax.msb then putchar A (.klogPrintInt 0) 0x2D eax s (f.push r)
      else some (s, f.push r)) = some (s₁, g₁) ∧ Sent (if eax.msb then [0x2D] else []) s s₁ ∧
        OnlyText s.mem s₁.mem ∧ Frame.Kept 106 (f.push r) g₁ := by
    by_cases hneg : eax.msb = true
    · rcases putchar_sent (A := A) hs (.klogPrintInt 0) 0x2D eax (f.push r) with
        ⟨s₁, g₁, hput, hsent, htext, hkept⟩
      rw [if_pos hneg, if_pos hneg]
      exact ⟨s₁, g₁, hput, hsent, htext, hkept.mono (by omega)⟩
    · rw [if_neg hneg, if_neg hneg]
      exact ⟨s, f.push r, rfl, Sent.refl hs, fun _ _ => rfl, Frame.Kept.refl⟩
  rcases hsign with ⟨s₁, g₁, hput, hsent₁, htext₁, hkept₁⟩
  rcases (klogPrintUnsigned_prints (A := A) eax hsent₁.screen).call g₁ (A (.klogPrintInt 1)) with
    ⟨s', g, hcall, hsent, htext, hkept⟩
  rcases (hkept₁.trans hkept).ret (by omega) with ⟨hret, hkept'⟩
  refine ⟨s', _, ?_, hsent₁.trans hsent, htext₁.trans htext, hkept'⟩
  rw [klogPrintInt, hput]
  dsimp only [Option.bind_eq_bind, Option.bind_some]
  rw [hcall]
  dsimp only [Option.bind_some]
  rw [hret]
  rfl

end Printing

/-! ### Hexadecimal -/

/-- `0`, or 8 digits, behind `0x`. -/
def hexNumeral (v : Word) : List Byte :=
  [0x30, 0x78] ++ if v = 0 then [0x30] else hexFixed 8 v.toNat

theorem setCl_small {ecx : Word} (h : ecx.toNat < 256) (cl : Byte) :
    setCl ecx cl = cl.setWidth 32 := by
  have hhigh : (ecx.extractLsb' 8 24).toNat = 0 := by
    rw [BitVec.extractLsb'_toNat, Nat.shiftRight_eq_div_pow]
    omega
  apply BitVec.eq_of_toNat_eq
  rw [setCl, BitVec.toNat_append, hhigh, BitVec.toNat_setWidth]
  have hlt := cl.isLt
  rw [Nat.zero_shiftLeft, Nat.zero_or]
  omega

/-- `v` turned left by `i` digits. -/
def turned (v i : Nat) : Nat := v % 16 ^ (8 - i) * 16 ^ i + v / 16 ^ (8 - i)

/-- One digit more, which comes last. -/
theorem turned_step {v i : Nat} (hv : v < 2 ^ 32) (hi : i < 8) :
    turned v i * 16 % 2 ^ 32 + turned v i / 2 ^ 28 = turned v (i + 1) ∧
      turned v (i + 1) % 16 = v / 16 ^ (7 - i) % 16 := by
  have hpow : 16 ^ (7 - i) * 16 ^ i = 2 ^ 28 := by
    rw [← Nat.pow_add, Nat.sub_add_cancel (by omega)]
    rfl
  have hdigits : 16 ^ (8 - i) = 16 ^ (7 - i) * 16 := by
    rw [← Nat.pow_succ]
    congr 1
    omega
  have hnext : 8 - (i + 1) = 7 - i := by omega
  have hmore : 16 ^ (i + 1) = 16 ^ i * 16 := pow_succ 16 i
  rw [turned, turned, hnext, hdigits, hmore]
  have hpos : 0 < 16 ^ (7 - i) := Nat.pow_pos (by decide)
  generalize 16 ^ (7 - i) = P at *
  generalize 16 ^ i = Q at *
  -- the digits still to come, and those turned already
  have hrest : v % P < P := Nat.mod_lt v hpos
  have hdone : v / (P * 16) < Q := by
    rw [Nat.div_lt_iff_lt_mul (by omega)]
    calc v < 2 ^ 28 * 16 := hv
      _ = P * Q * 16 := by rw [hpow]
      _ = Q * (P * 16) := by ring
  have hlow : v % P * Q + v / (P * 16) < 2 ^ 28 := by
    calc v % P * Q + v / (P * 16) < v % P * Q + Q := by omega
      _ = (v % P + 1) * Q := by rw [Nat.succ_mul]
      _ ≤ P * Q := Nat.mul_le_mul_right Q hrest
      _ = 2 ^ 28 := hpow
  have hmod : v % (P * 16) = v % P + P * (v / P % 16) := Nat.mod_mul
  have hdiv : v / (P * 16) = v / P / 16 := (Nat.div_div_eq_div_mul v P 16).symm
  have hturned : (v % P + P * (v / P % 16)) * Q = v % P * Q + 2 ^ 28 * (v / P % 16) := by
    rw [← hpow]
    ring
  rw [hmod, hturned, ← Nat.mul_assoc, hdiv]
  rw [hdiv] at hlow
  generalize v % P * Q = low at *
  generalize v / P = high at *
  have hquot : (low + 2 ^ 28 * (high % 16) + high / 16) / 2 ^ 28 = high % 16 := by omega
  rw [hquot]
  omega

section Hexadecimal

variable {A : CallSite → Word} {szTime : Word} {s : Out}

theorem Sent.store {bytes : List Byte} {s t : Out} (h : Sent bytes s t) (a : Word) (al : Byte) :
    Sent bytes s (t.store a al) := ⟨h.com1, h.putcs, h.screen⟩

/-- After `i` passes there are `i` digits in the buffer. -/
structure HexLeft (szTime : Word) (v i : Nat) (s : Out) (t : Word × Word × Out) : Prop where
  ecx : t.1 = BitVec.ofNat 32 i
  edi : t.2.1.toNat = turned v i
  sent : Sent [] s t.2.2
  only : OnlyLog szTime s.mem t.2.2.mem
  image : InImage szTime t.2.2.mem
  digits : ∀ j, j < i → t.2.2.mem (szKlogBuffer szTime + BitVec.ofNat 32 j)
    = hexDigit (v / 16 ^ (7 - j) % 16)

theorem buffer_label (i : Nat) :
    szKlogBuffer szTime + BitVec.ofNat 32 i = szTime + BitVec.ofNat 32 (34 + i) := by
  rw [BitVec.ofNat_add, ← BitVec.add_assoc]
  rfl

theorem buffer_ne {i j : Nat} (hi : i < 9) (hj : j < 9) (hne : i ≠ j) :
    szKlogBuffer szTime + BitVec.ofNat 32 i ≠ szKlogBuffer szTime + BitVec.ofNat 32 j := by
  rw [buffer_label, buffer_label]
  exact label_ne (by omega) (by omega) fun heq => hne (Nat.add_left_cancel heq)

theorem not_fixed_buffer (i : Nat) : ¬ Fixed (34 + i) := fun hfix => by
  have hlt := hfix.1
  omega

/-- One digit goes to the buffer. -/
theorem hexPass_step {v i : Nat} (hv : v < 2 ^ 32) (hi : i < 8) {t : Word × Word × Out}
    (h : HexLeft szTime v i s t) :
    ∃ t', hexPass szTime t = some (.again t') ∧ HexLeft szTime v (i + 1) s t' := by
  rcases t with ⟨ecx, edi, t⟩
  rcases h with ⟨hecx, hedi, hsent, honly, himage, hdigits⟩
  dsimp only at hecx hedi hsent honly himage hdigits
  rcases turned_step hv hi with ⟨hturn, hlast⟩
  have hrol : (edi.rotateLeft 4).toNat = turned v (i + 1) := by
    rw [rotateLeft_four, hedi]
    exact hturn
  -- the digit is looked up
  have hindex : edi.rotateLeft 4 &&& 0xF = BitVec.ofNat 32 (v / 16 ^ (7 - i) % 16) := by
    apply BitVec.eq_of_toNat_eq
    have hmask : (edi.rotateLeft 4 &&& 0xF).toNat = (edi.rotateLeft 4).toNat % 16 := by
      rw [BitVec.toNat_and]
      exact Nat.and_two_pow_sub_one_eq_mod _ 4
    rw [hmask, hrol, hlast, toNat_ofNat_of_lt (by omega)]
  have hal : t.mem (sDigit szTime + (edi.rotateLeft 4 &&& 0xF))
      = hexDigit (v / 16 ^ (7 - i) % 16) := by
    rw [hindex]
    exact himage.digit (Nat.mod_lt _ (by decide))
  have hsmall : ecx.toNat = i := by rw [hecx, toNat_ofNat_of_lt (by omega)]
  have hcl : (ecx.setWidth 8 : Byte) ≠ 8 := by
    intro heq
    have hnat := congrArg BitVec.toNat heq
    rw [BitVec.toNat_setWidth, hsmall] at hnat
    change i % 2 ^ 8 = 8 at hnat
    omega
  have hwrite : OnlyLog szTime t.mem (t.store (szKlogBuffer szTime + ecx)
      (hexDigit (v / 16 ^ (7 - i) % 16))).mem := by
    rw [hecx, buffer_label]
    exact OnlyLog.write8 (by omega) (not_fixed_buffer i) _
  refine ⟨(setCl ecx (ecx.setWidth 8 + 1), edi.rotateLeft 4, t.store (szKlogBuffer szTime + ecx)
    (hexDigit (v / 16 ^ (7 - i) % 16))), ?_, ?_, hrol, hsent.store _ _, honly.trans hwrite,
    hwrite.image himage, ?_⟩
  · rw [hexPass]
    dsimp only
    rw [if_neg hcl, hal]
  · dsimp only
    rw [setCl_small (by omega)]
    apply BitVec.eq_of_toNat_eq
    rw [BitVec.toNat_setWidth, BitVec.toNat_add, BitVec.toNat_setWidth, hsmall,
      toNat_ofNat_of_lt (by omega)]
    change (i % 2 ^ 8 + 1) % 2 ^ 8 % 2 ^ 32 = i + 1
    omega
  · intro j hj
    change Mem.write8 _ _ _ _ = _
    rw [hecx]
    rcases Nat.lt_or_eq_of_le (Nat.le_of_lt_succ hj) with hlt | rfl
    · rw [Mem.write8_frame _ _ (buffer_ne (by omega) (by omega) (Nat.ne_of_lt hlt))]
      exact hdigits j hlt
    · exact if_pos rfl

/-- The loop leaves all 8 digits. -/
theorem hexPass_digits {v : Nat} (hv : v < 2 ^ 32) {t : Word × Word × Out}
    (h : HexLeft szTime v 0 s t) {fuel : Nat} (hfuel : 8 < fuel) :
    ∃ t', iterate (hexPass szTime) fuel t = some t' ∧ HexLeft szTime v 8 s t' := by
  refine iterate_total (fun k t => ∃ i, i + k = 8 ∧ HexLeft szTime v i s t)
    (HexLeft szTime v 8 s) ?_ ⟨0, rfl, h⟩ hfuel
  rintro k t ⟨i, hik, hleft⟩
  by_cases hi : i = 8
  · refine .inl ⟨t, ?_, hi ▸ hleft⟩
    rw [hexPass]
    refine if_pos ?_
    rw [hleft.ecx, hi]
    rfl
  · rcases hexPass_step hv (by omega) hleft with ⟨t', hpass, hleft'⟩
    exact .inr ⟨t', k - 1, hpass, by omega, i + 1, by omega, hleft'⟩

/-- With a NUL behind them they are a string. -/
theorem HexLeft.str {v : Nat} {t : Word × Word × Out} (h : HexLeft szTime v 8 s t) :
    StrAt NotText (t.2.2.store (szKlogBuffer szTime + t.1) 0).mem (szKlogBuffer szTime)
      (hexFixed 8 v) := by
  have hlen : (hexFixed 8 v).length = 8 := length_hexFixed 8 v
  refine strAt_of_bytes ?_ ?_
  · intro hmem
    rcases List.mem_map.mp hmem with ⟨i, -, hzero⟩
    exact hexDigit_ne_zero (Nat.mod_lt _ (by decide)) hzero
  · intro i b hb
    have hi := (List.getElem?_eq_some_iff.mp hb).1
    rw [List.length_append, List.length_singleton, hlen] at hi
    change NotText _ ∧ Mem.write8 _ _ _ _ = b
    rw [h.ecx]
    refine ⟨?_, ?_⟩
    · rw [buffer_label]
      exact h.image.notText _ (by omega)
    · rcases Nat.lt_or_eq_of_le (Nat.le_of_lt_succ hi) with hlt | rfl
      · rw [Mem.write8_frame _ _ (buffer_ne (by omega) (by omega) (Nat.ne_of_lt hlt))]
        rw [List.getElem?_append_left (by omega), hexFixed, List.getElem?_map,
          List.getElem?_range hlt] at hb
        exact (h.digits i hlt).trans (Option.some.inj hb)
      · rw [List.getElem?_append_right (by omega), hlen] at hb
        exact (if_pos rfl).trans (Option.some.inj hb)

theorem turned_zero {v : Nat} (hv : v < 2 ^ 32) : turned v 0 = v := by
  rw [turned]
  omega

/-- The digits are made in the buffer, and printed from there. -/
theorem printDigits_sent {ecx : Word} (hs : OnScreen s.cga) (himage : InImage szTime s.mem)
    (hecx : ecx.toNat < 256) {fuel : Nat} (hfuel : 8 < fuel) (f : Frame) :
    ∃ s' g, printDigits A szTime fuel ecx s f = some (s', g) ∧
      Sent (hexFixed 8 f.edi.toNat) s s' ∧ OnlyLog szTime s.mem s'.mem ∧
      Frame.Balanced 70 f g ∧ g.ebx = f.ebx ∧ g.esi = f.esi := by
  have hzero : setCl ecx 0 = BitVec.ofNat 32 0 := setCl_small hecx 0
  have hleft : HexLeft szTime f.edi.toNat 0 s (setCl ecx 0, f.edi, s) :=
    ⟨hzero, (turned_zero f.edi.isLt).symm, Sent.refl hs, OnlyLog.refl, himage, by omega⟩
  rcases hexPass_digits f.edi.isLt hleft hfuel with ⟨⟨ecx', edi, t⟩, hloop, hdone⟩
  have hnul : OnlyLog szTime t.mem (t.store (szKlogBuffer szTime + ecx') 0).mem := by
    rw [show ecx' = BitVec.ofNat 32 8 from hdone.ecx, buffer_label]
    exact OnlyLog.write8 (by decide) (not_fixed_buffer 8) 0
  have hsent := hdone.sent.store (szKlogBuffer szTime + ecx') 0
  have hlen : (hexFixed 8 f.edi.toNat).length = 8 := length_hexFixed 8 _
  rcases (klogPrintStr_prints (A := A) (szKlogBuffer szTime) ecx' hsent.screen hdone.str
    (show _ < fuel by omega)).call (f.setEdi edi) (A (.klogPrintHex 2)) with
    ⟨s', g, hcall, hsent', htext, hkept⟩
  refine ⟨s', g, ?_, hsent.trans hsent', ?_, ⟨hkept.ebp, hkept.esp, hkept.stack⟩, hkept.ebx,
    hkept.esi⟩
  · rw [printDigits, hloop]
    exact hcall
  · exact (hdone.only.trans hnul).trans (OnlyLog.of_onlyText htext)

/-- `_klog_print_hex`, for what is proved of the number behind `0x`. -/
theorem klogPrintHex_run (eax ecx : Word) (Q : Out → Prop) (hs : OnScreen s.cga)
    (himage : InImage szTime s.mem) {fuel : Nat} (hfuel : 2 < fuel)
    (hnumber : ∀ s₁ g₁, Sent [0x30, 0x78] s s₁ → OnlyText s.mem s₁.mem → g₁.edi = eax →
      ∃ s' g, (if g₁.edi = 0 then putchar A (.klogPrintHex 1) 0x30 ecx s₁ g₁
        else printDigits A szTime fuel ecx s₁ g₁) = some (s', g) ∧ Q s' ∧
        Frame.Balanced 70 g₁ g ∧ g.ebx = g₁.ebx ∧ g.esi = g₁.esi) :
    Calls 82 Q (klogPrintHex A szTime fuel eax ecx s) := by
  intro f r
  have hnil : Frame.Pushed 74 (f.push r).enter [] (f.push r).enter := Frame.Pushed.nil (by omega)
  have hedi := hnil.push (by rw [List.length_nil]; omega) f.edi
  rcases (klogPrintStr_prints (A := A) (szHexPrefix szTime) ecx hs himage.hexPrefix
    (show 2 < fuel from hfuel)).call
    (((f.push r).enter.push f.edi).setEdi eax) (A (.klogPrintHex 0)) with
    ⟨s₁, g₁, hfirst, hsent₁, htext₁, hkept₁⟩
  rcases hnumber s₁ g₁ hsent₁ htext₁ hkept₁.edi with ⟨s', g, hrun, hq, hbalanced, hebx, hesi⟩
  have hcalled := (hedi.setEdi eax).call (hkept₁.toBalanced.trans hbalanced)
    (by rw [List.length_singleton])
  rcases hcalled.popEdi with ⟨hempty, hsame⟩
  have hall : Frame.Kept 78 (f.push r) g.popEdi.leave :=
    ⟨hempty.leave, hebx.trans hkept₁.ebx, hesi.trans hkept₁.esi, hsame⟩
  rcases hall.ret (by omega) with ⟨hret, hkept'⟩
  refine ⟨s', _, ?_, hq, hkept'⟩
  rw [klogPrintHex]
  dsimp only
  rw [Frame.enter_edi, Frame.push_edi, hfirst]
  dsimp only [Option.bind_eq_bind, Option.bind_some]
  rw [hrun]
  dsimp only [Option.bind_some]
  rw [hret]
  rfl

theorem klogPrintHex_prints {eax ecx : Word} (hs : OnScreen s.cga)
    (himage : InImage szTime s.mem) (hecx : ecx.toNat < 256) {fuel : Nat} (hfuel : 8 < fuel) :
    Prints (OnlyLog szTime) 82 (hexNumeral eax) s (klogPrintHex A szTime fuel eax ecx s) := by
  refine prints_iff_calls.mpr (klogPrintHex_run eax ecx _ hs himage (by omega) ?_)
  rintro s₁ g₁ hsent₁ htext₁ rfl
  have honly₁ : OnlyLog szTime s.mem s₁.mem := OnlyLog.of_onlyText htext₁
  rw [hexNumeral]
  -- a zero, or the digits
  by_cases hzero : g₁.edi = 0
  · rcases putchar_sent (A := A) hsent₁.screen (.klogPrintHex 1) 0x30 ecx g₁ with
      ⟨s', g, hput, hsent, htext, hkept⟩
    rw [if_pos hzero, if_pos hzero]
    exact ⟨s', g, hput, ⟨hsent₁.trans hsent, honly₁.trans (OnlyLog.of_onlyText htext)⟩,
      hkept.toBalanced.mono (by omega), hkept.ebx, hkept.esi⟩
  · rcases printDigits_sent (A := A) hsent₁.screen (honly₁.image himage) hecx hfuel g₁ with
      ⟨s', g, hrun, hsent, honly, hrest⟩
    rw [if_neg hzero, if_neg hzero]
    exact ⟨s', g, hrun, ⟨hsent₁.trans hsent, honly₁.trans honly⟩, hrest⟩

end Hexadecimal

/-! ### The time -/

/-- Two digits of binary-coded decimal -/
def bcdText (al : Byte) : List Byte := [((al >>> 4) &&& 0xF) + 0x30, (al &&& 0xF) + 0x30]

/-- `[hh:mm:ss] ` -/
def timeText (c : Clock) : List Byte :=
  [0x5B] ++ bcdText c.hour ++ [0x3A] ++ bcdText c.minute ++ [0x3A] ++ bcdText c.second ++
    [0x5D, 0x20]

section Time

variable {A : CallSite → Word} {szTime : Word} {s : Out}

theorem bcdText_ne_zero (al : Byte) : 0 ∉ bcdText al := by
  have hdigit : ∀ d : Byte, (d &&& 0xF) + 0x30 ≠ 0 := by decide
  intro hmem
  rcases List.mem_cons.mp hmem with hzero | hmem
  · exact hdigit _ hzero.symm
  · exact hdigit _ (List.mem_singleton.mp hmem).symm

theorem timeText_ne_zero (c : Clock) : 0 ∉ timeText c := by
  simp only [timeText, List.mem_append, bcdText_ne_zero, or_false]
  decide

theorem Sent.storeBcd {bytes : List Byte} {t : Out} (h : Sent bytes s t) (a : Word) (al : Byte) :
    Sent bytes s (storeBcd a al t) := (h.store a _).store (a + 1) _

theorem next_label (k : Nat) :
    szTime + BitVec.ofNat 32 k + 1 = szTime + BitVec.ofNat 32 (k + 1) := by
  rw [BitVec.ofNat_add, ← BitVec.add_assoc]
  rfl

theorem OnlyLog.storeBcd {k : Nat} (hk : k + 1 < 43) (hfree : ¬ Fixed k) (hfree' : ¬ Fixed (k + 1))
    (al : Byte) :
    OnlyLog szTime s.mem (storeBcd (szTime + BitVec.ofNat 32 k) al s).mem := by
  have hfirst : OnlyLog szTime s.mem (s.mem.write8 (szTime + BitVec.ofNat 32 k)
      (((al >>> 4) &&& 0xF) + 0x30)) := OnlyLog.write8 (by omega) hfree _
  refine hfirst.trans ?_
  change OnlyLog szTime _ (Mem.write8 _ (szTime + BitVec.ofNat 32 k + 1) _)
  rw [next_label]
  exact OnlyLog.write8 hk hfree' _

theorem storeBcd_mem {i k : Nat} (hi : i < 43) (hk : k + 1 < 43) (al : Byte) :
    (storeBcd (szTime + BitVec.ofNat 32 k) al s).mem (szTime + BitVec.ofNat 32 i) =
      if i = k + 1 then (al &&& 0xF) + 0x30 else if i = k then ((al >>> 4) &&& 0xF) + 0x30
      else s.mem (szTime + BitVec.ofNat 32 i) := by
  change Mem.write8 (Mem.write8 s.mem _ _) _ _ _ = _
  rw [next_label]
  split
  next h => rw [h]; exact if_pos rfl
  next h =>
    rw [Mem.write8_frame _ _ (label_ne hi hk h)]
    split
    next h => rw [h]; exact if_pos rfl
    next h => exact Mem.write8_frame _ _ (label_ne hi (by omega) h)

variable (szTime) in
/-- The memory with the digits of the time -/
def storeTime (c : Clock) (s : Out) : Out :=
  storeBcd (szTime + 7) c.second (storeBcd (szTime + 4) c.minute (storeBcd (szTime + 1) c.hour s))

theorem storeTime_mem {i : Nat} (hi : i < 43) (c : Clock) :
    (storeTime szTime c s).mem (szTime + BitVec.ofNat 32 i) =
      if i = 8 then (c.second &&& 0xF) + 0x30 else if i = 7 then ((c.second >>> 4) &&& 0xF) + 0x30
      else if i = 5 then (c.minute &&& 0xF) + 0x30
      else if i = 4 then ((c.minute >>> 4) &&& 0xF) + 0x30
      else if i = 2 then (c.hour &&& 0xF) + 0x30 else if i = 1 then ((c.hour >>> 4) &&& 0xF) + 0x30
      else s.mem (szTime + BitVec.ofNat 32 i) := by
  change (storeBcd (szTime + BitVec.ofNat 32 7) _ (storeBcd (szTime + BitVec.ofNat 32 4) _
    (storeBcd (szTime + BitVec.ofNat 32 1) _ s))).mem _ = _
  rw [storeBcd_mem hi (by decide), storeBcd_mem hi (by decide), storeBcd_mem hi (by decide)]

/-- The time, once its digits are stored. -/
theorem storeTime_str (himage : InImage szTime s.mem) (c : Clock) :
    StrAt NotText (storeTime szTime c s).mem szTime (timeText c) := by
  refine strAt_of_bytes (timeText_ne_zero c) ?_
  intro i b hb
  have hi : i < 12 := (List.getElem?_eq_some_iff.mp hb).1
  refine ⟨himage.notText i (by omega), ?_⟩
  rw [storeTime_mem (by omega)]
  by_cases hfix : Fixed i
  · have himg : image[i]? = some b := by
      rw [← hb]
      interval_cases i <;> first | rfl | exact absurd hfix (by decide)
    rw [himage.byte i b himg hfix]
    rcases hfix with ⟨-, hnot⟩
    simp only [List.mem_cons, List.not_mem_nil, or_false] at hnot
    repeat rw [if_neg (by omega)]
  · rw [← Option.some_inj, ← hb]
    interval_cases i <;> first | rfl | exact absurd (by decide) hfix

/-- Only the time is stored. -/
theorem onlyLog_storeTime (c : Clock) : OnlyLog szTime s.mem (storeTime szTime c s).mem := by
  have hhour : OnlyLog szTime s.mem (storeBcd (szTime + BitVec.ofNat 32 1) c.hour s).mem :=
    OnlyLog.storeBcd (by decide) (by decide) (by decide) c.hour
  have hminute := hhour.trans (OnlyLog.storeBcd (k := 4) (by decide) (by decide) (by decide)
    c.minute)
  exact hminute.trans (OnlyLog.storeBcd (k := 7) (by decide) (by decide) (by decide) c.second)

/-- The time is stored, and printed from there. -/
theorem klogPrintTime_stores (c : Clock) (ecx : Word) (hs : OnScreen s.cga)
    (himage : InImage szTime s.mem) {fuel : Nat} (hfuel : 11 < fuel) :
    Prints (fun _ => OnlyText (storeTime szTime c s).mem) 74 (timeText c) s
      (klogPrintTime A szTime fuel c ecx s) := by
  intro f r
  have hsent := ((Sent.refl hs).storeBcd (szTime + 1) c.hour).storeBcd (szTime + 4) c.minute
    |>.storeBcd (szTime + 7) c.second
  rcases (klogPrintStr_prints (A := A) szTime ecx hsent.screen (storeTime_str himage c)
    (show 11 < fuel from hfuel)).call (f.push r) (A .klogPrintTime) with
    ⟨s', g, hcall, hsent', htext, hkept⟩
  rcases hkept.ret (by omega) with ⟨hret, hkept'⟩
  refine ⟨s', _, ?_, hsent.trans hsent', htext, hkept'⟩
  rw [klogPrintTime]
  dsimp only
  rw [hcall]
  dsimp only [Option.bind_eq_bind, Option.bind_some]
  rw [hret]
  rfl

theorem klogPrintTime_prints (c : Clock) (ecx : Word) (hs : OnScreen s.cga)
    (himage : InImage szTime s.mem) {fuel : Nat} (hfuel : 11 < fuel) :
    Prints (OnlyLog szTime) 74 (timeText c) s (klogPrintTime A szTime fuel c ecx s) :=
  (klogPrintTime_stores c ecx hs himage hfuel).mono
    (fun _ htext => (onlyLog_storeTime c).trans (OnlyLog.of_onlyText htext)) (Nat.le_refl 74)

end Time

end StupidOS.Kernel.Logged
