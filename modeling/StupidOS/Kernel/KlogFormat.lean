import Mathlib.Algebra.Order.BigOperators.Group.List
import StupidOS.Kernel.KlogOutput

/-!
# Formats (`klog.inc`)

`render` is what a format and its arguments come to. `klog` sends that (`klog_renders`), except
for `%d` of a negative number (`klogFormat_int_iff`).
-/

namespace StupidOS.Kernel.Logged

open OnStack (CallSite OnScreen)

/-! ## What a format comes to -/

/-- An argument, and the string at it when it is the address of one. -/
structure Arg where
  word : Word
  str : List Byte

/-- `s`, `x`, `d` and `u` -/
def takesArg (al : Byte) : Bool := al = 0x73 || al = 0x78 || al = 0x64 || al = 0x75

/-- The directives of a format that take an argument. -/
def argDirectives : List Byte → List Byte
  | [] => []
  | al :: fmt =>
    if al = 0x25 then
      match fmt with
      | [] => []
      | al :: fmt => if takesArg al then al :: argDirectives fmt else argDirectives fmt
    else argDirectives fmt

/-- An argument as its directive wants it. -/
def argText (al : Byte) (a : Arg) : List Byte :=
  if al = 0x73 then a.str
  else if al = 0x78 then hexNumeral a.word
  else if al = 0x64 then signedDecimal a.word.toInt
  else decimal a.word.toNat

/-- What a format and its arguments come to. Nothing, when a `%` stands at the end or there are
too few arguments. -/
def render : List Byte → List Arg → Option (List Byte)
  | [], _ => some []
  | al :: fmt, args =>
    if al = 0x25 then
      match fmt with
      | [] => none
      | al :: fmt =>
        if takesArg al then
          match args with
          | [] => none
          | a :: args => (render fmt args).map (argText al a ++ ·)
        else (render fmt args).map ((if al = 0x25 then 0x25 else 0x3F) :: ·)
    else (render fmt args).map (al :: ·)

/-- The strings that the `%s` of a format are to print. -/
def StrArgs (Ok : Word → Prop) (m : Mem) (fmt : List Byte) (args : List Arg) : Prop :=
  ∀ p ∈ (argDirectives fmt).zip args, p.1 = 0x73 → StrAt Ok m p.2.word p.2.str

instance {Ok : Word → Prop} [DecidablePred Ok] (m : Mem) (fmt : List Byte) (args : List Arg) :
    Decidable (StrArgs Ok m fmt args) := inferInstanceAs (Decidable (∀ p ∈ _, _))

example : render [0x61, 0x25, 0x75, 0x25, 0x25, 0x25, 0x71] [⟨7, []⟩]
    = some [0x61, 0x37, 0x25, 0x3F] := by
  decide +kernel

section Directives

variable {A : CallSite → Word} {szTime : Word} {s : Out}

theorem printArg_calls {Q : Out → Prop} {d n : Nat}
    {print : Word → Out → Frame → Option (Out × Word × Frame)} {ecx : Word} {f : Frame}
    (hprint : Calls d Q (print (f.stack.read32 (f.ebp + ecx)) s)) (hd : d < 2 ^ 15) :
    ∃ s' g, printArg A n print ecx s f = some (ecx + 4, s', g) ∧ Q s' ∧
      Frame.Kept (d + 4) f g := by
  have hnil : Frame.Pushed (d + 4) f [] f := Frame.Pushed.nil (by omega)
  have hecx := hnil.push (by rw [List.length_nil]; omega) ecx
  rcases hprint (f.push ecx) (A (.klog n)) with ⟨s', h, hrun, hq, hkept⟩
  have hcalled := hecx.call hkept.toBalanced (by rw [List.length_singleton]; omega)
  have htop : h.word 0 = ecx := hcalled.top
  refine ⟨s', h.drop 1, ?_, hq, hcalled.pop.balanced, hkept.ebx, hkept.esi, hkept.edi⟩
  rw [printArg]
  dsimp only
  rw [Frame.call_eq hrun]
  dsimp only [Option.bind_eq_bind, Option.bind_some]
  rw [htop]
  rfl

theorem printArg_sent {Only : Mem → Mem → Prop} {d n : Nat} {bytes : List Byte}
    {print : Word → Out → Frame → Option (Out × Word × Frame)} {ecx : Word} {f : Frame}
    (hprint : Prints Only d bytes s (print (f.stack.read32 (f.ebp + ecx)) s)) (hd : d < 2 ^ 15) :
    ∃ s' g, printArg A n print ecx s f = some (ecx + 4, s', g) ∧ Sent bytes s s' ∧
      Only s.mem s'.mem ∧ Frame.Kept (d + 4) f g := by
  rcases printArg_calls (A := A) (n := n) (prints_iff_calls.mp hprint) hd with
    ⟨s', g, hrun, ⟨hsent, honly⟩, hkept⟩
  exact ⟨s', g, hrun, hsent, honly, hkept⟩

variable (szTime) in
/-- `%d` -/
theorem klogFormat_int (hs : OnScreen s.cga) (fuel : Nat) (ecx : Word) (f : Frame) :
    ∃ s' g, klogFormat A szTime fuel 0x64 ecx s f = some (ecx + 4, s', g) ∧
      Sent (intText (f.stack.read32 (f.ebp + ecx))) s s' ∧ OnlyText s.mem s'.mem ∧
      Frame.Kept 114 f g :=
  printArg_sent (klogPrintInt_prints _ hs) (by omega)

/-- The other directives with an argument. -/
theorem klogFormat_arg {al : Byte} (htakes : takesArg al = true) (hint : al ≠ 0x64) {ecx : Word}
    {a : Arg} {f : Frame} (hword : f.stack.read32 (f.ebp + ecx) = a.word)
    (hstr : al = 0x73 → StrAt (Aside szTime) s.mem a.word a.str) (hs : OnScreen s.cga)
    (himage : InImage szTime s.mem) (hecx : ecx.toNat < 256) {fuel : Nat} (hfuel : 8 < fuel)
    (hlen : a.str.length < fuel) :
    ∃ s' g, klogFormat A szTime fuel al ecx s f = some (ecx + 4, s', g) ∧
      Sent (argText al a) s s' ∧ OnlyLog szTime s.mem s'.mem ∧ Frame.Kept 114 f g := by
  have hprint : ∀ (print : Word → Out → Frame → Option (Out × Word × Frame)) {n d : Nat}
      {bytes : List Byte} {Only : Mem → Mem → Prop},
      (∀ m', Only s.mem m' → OnlyLog szTime s.mem m') → d ≤ 110 →
      Prints Only d bytes s (print a.word s) →
      ∃ s' g, printArg A n print ecx s f = some (ecx + 4, s', g) ∧ Sent bytes s s' ∧
        OnlyLog szTime s.mem s'.mem ∧ Frame.Kept 114 f g := by
    intro print n d bytes Only honly hd hprint
    rw [← hword] at hprint
    exact printArg_sent (hprint.mono honly hd) (by omega)
  have htext : ∀ m', OnlyText s.mem m' → OnlyLog szTime s.mem m' := fun _ => OnlyLog.of_onlyText
  simp only [takesArg, Bool.or_eq_true, decide_eq_true_eq] at htakes
  rcases htakes with ((rfl | rfl) | rfl) | rfl
  · exact hprint (fun eax => klogPrintStr A fuel eax ecx) htext (by omega)
      (klogPrintStr_prints a.word ecx hs ((hstr rfl).mono fun x hx => hx.1) hlen)
  · exact hprint (fun eax => klogPrintHex A szTime fuel eax ecx) (fun _ h => h) (by omega)
      (klogPrintHex_prints hs himage hecx hfuel)
  · exact absurd rfl hint
  · exact hprint (klogPrintUnsigned A) htext (by omega) (klogPrintUnsigned_prints a.word hs)

variable (szTime) in
/-- And those without one. -/
theorem klogFormat_plain {al : Byte} (htakes : takesArg al = false) (hs : OnScreen s.cga)
    (fuel : Nat) (ecx : Word) (f : Frame) :
    ∃ s' g, klogFormat A szTime fuel al ecx s f = some (ecx, s', g) ∧
      Sent [if al = 0x25 then 0x25 else 0x3F] s s' ∧ OnlyText s.mem s'.mem ∧
      Frame.Kept 114 f g := by
  simp only [takesArg, Bool.or_eq_false_iff, decide_eq_false_iff_not] at htakes
  rcases htakes with ⟨⟨⟨hs', hx⟩, hd⟩, hu⟩
  rcases putchar_sent (A := A) hs (.klog 5) (if al = 0x25 then 0x25 else 0x3F) ecx f with
    ⟨s', g, hput, hsent, htext, hkept⟩
  refine ⟨s', g, ?_, hsent, htext, hkept.mono (by omega)⟩
  rw [klogFormat]
  dsimp only
  by_cases hpercent : al = 0x25
  · rw [if_pos hpercent] at hput ⊢
    rw [hpercent, hput]
    rfl
  · rw [if_neg hpercent] at hput ⊢
    rw [if_neg hs', if_neg hx, if_neg hd, if_neg hu, hput]
    rfl

end Directives

/-! ## `klog` renders its format -/

section Render

variable {A : CallSite → Word} {szTime : Word} {s : Out}

/-- The arguments from the `k`-th on, seen from the frame of `klog`. -/
structure ArgsAt (k : Nat) (args : List Arg) (f : Frame) : Prop where
  ebp : f.ebp = f.esp + 4
  word : ∀ i a, args[i]? = some a → k + i < 61 →
    f.stack.read32 (f.ebp + BitVec.ofNat 32 (8 + 4 * (k + i))) = a.word

namespace ArgsAt

variable {k : Nat} {a : Arg} {args : List Arg} {f g : Frame}

theorem balanced (h : ArgsAt k args f) (hb : Frame.Balanced 114 f g) : ArgsAt k args g := by
  refine ⟨?_, ?_⟩
  · rw [hb.ebp, hb.esp]
    exact h.ebp
  · intro i a ha hi
    have haddr : f.ebp + BitVec.ofNat 32 (8 + 4 * (k + i))
        = f.esp + BitVec.ofNat 32 (12 + 4 * (k + i)) := by
      rw [h.ebp, BitVec.add_assoc, show 12 + 4 * (k + i) = 4 + (8 + 4 * (k + i)) by omega,
        BitVec.ofNat_add 4]
      rfl
    rw [← h.word i a ha hi, hb.ebp, haddr]
    exact hb.stack.read32 (by omega)

theorem head (h : ArgsAt k (a :: args) f) (hk : k < 61) :
    f.stack.read32 (f.ebp + BitVec.ofNat 32 (8 + 4 * k)) = a.word := h.word 0 a rfl hk

theorem tail (h : ArgsAt k (a :: args) f) : ArgsAt (k + 1) args f := by
  refine ⟨h.ebp, fun i a' ha hi => ?_⟩
  rw [show k + 1 + i = k + (i + 1) by omega]
  exact h.word (i + 1) a' ha (by omega)

theorem setEsi (h : ArgsAt k args f) (w : Word) : ArgsAt k args (f.setEsi w) := ⟨h.ebp, h.word⟩

end ArgsAt

theorem klogPass_directive {al : Byte} {ecx ecx' : Word} {f g : Frame} {s' : Out} {fuel : Nat}
    (hpercent : s.mem f.esi = 0x25) (hal : s.mem (f.esi + 1) = al)
    (hformat : klogFormat A szTime fuel al ecx s (f.setEsi (f.esi + 1)) = some (ecx', s', g)) :
    klogPass A szTime fuel (ecx, s, f) = some (.again (ecx', s', g.setEsi (g.esi + 1))) := by
  rw [klogPass]
  dsimp only
  rw [hpercent, if_neg (by decide), if_pos rfl, Frame.setEsi_esi, hal, hformat]
  rfl

theorem klogPass_char {al : Byte} {ecx : Word} {f g : Frame} {s' : Out} {fuel : Nat}
    (hal : s.mem f.esi = al) (hne : al ≠ 0) (hpercent : al ≠ 0x25)
    (hput : putchar A (.klog 5) al ecx s f = some (s', g)) :
    klogPass A szTime fuel (ecx, s, f) = some (.again (ecx, s', g.setEsi (g.esi + 1))) := by
  rw [klogPass]
  dsimp only
  rw [hal, if_neg hne, if_neg hpercent, hput]
  rfl

theorem StrArgs.congr {m m' : Mem} (h : OnlyLog szTime m m') {fmt : List Byte} {args : List Arg}
    (hstrs : StrArgs (Aside szTime) m fmt args) : StrArgs (Aside szTime) m' fmt args :=
  fun p hp hs => (hstrs p hp hs).congr h.aside

theorem argDirectives_arg {al : Byte} (htakes : takesArg al = true) (fmt : List Byte) :
    argDirectives (0x25 :: al :: fmt) = al :: argDirectives fmt := by
  rw [argDirectives, if_pos rfl]
  exact if_pos htakes

theorem argDirectives_plain {al : Byte} (htakes : takesArg al = false) (fmt : List Byte) :
    argDirectives (0x25 :: al :: fmt) = argDirectives fmt := by
  rw [argDirectives, if_pos rfl]
  exact if_neg (Bool.eq_false_iff.mp htakes)

theorem argDirectives_char {al : Byte} (hne : al ≠ 0x25) (fmt : List Byte) :
    argDirectives (al :: fmt) = argDirectives fmt := by
  rw [argDirectives.eq_def]
  exact if_neg hne

theorem render_arg {al : Byte} (htakes : takesArg al = true) (fmt : List Byte) (a : Arg)
    (args : List Arg) :
    render (0x25 :: al :: fmt) (a :: args) = (render fmt args).map (argText al a ++ ·) := by
  rw [render.eq_def]
  dsimp only
  rw [if_pos rfl, if_pos htakes]

theorem render_plain {al : Byte} (htakes : takesArg al = false) (fmt : List Byte)
    (args : List Arg) : render (0x25 :: al :: fmt) args
      = (render fmt args).map ((if al = 0x25 then 0x25 else 0x3F) :: ·) := by
  rw [render.eq_def]
  dsimp only
  rw [if_pos rfl, if_neg (Bool.eq_false_iff.mp htakes)]

theorem render_char {al : Byte} (hne : al ≠ 0x25) (fmt : List Byte) (args : List Arg) :
    render (al :: fmt) args = (render fmt args).map (al :: ·) := by
  rw [render.eq_def]
  dsimp only
  rw [if_neg hne]

/-- What is there before a pass: ESI at the rest of the format, ECX at its arguments, and `text`
still to be printed. -/
structure Reads (szTime : Word) (fuel k : Nat) (fmt : List Byte) (args : List Arg)
    (text : List Byte) (s : Out) (f : Frame) : Prop where
  rendered : render fmt args = some text
  noInt : 0x64 ∉ argDirectives fmt
  few : k + (argDirectives fmt).length ≤ 61
  short : ∀ a ∈ args, a.str.length < fuel
  screen : OnScreen s.cga
  image : InImage szTime s.mem
  format : StrAt (Aside szTime) s.mem f.esi fmt
  onStack : ArgsAt k args f
  strs : StrArgs (Aside szTime) s.mem fmt args

namespace Reads

variable {fuel k : Nat} {al : Byte} {fmt : List Byte} {args : List Arg} {text : List Byte}
  {f g : Frame}

theorem takeArg (h : Reads szTime fuel k (0x25 :: al :: fmt) args text s f)
    (htakes : takesArg al = true) : ∃ a args' text', args = a :: args' ∧
      text = argText al a ++ text' ∧
      Reads szTime fuel (k + 1) fmt args' text' s (f.setEsi (f.esi + 1 + 1)) := by
  rcases h with ⟨hrender, hint, hfew, hshort, hscreen, himage, hformat, hargs, hstrs⟩
  rw [argDirectives_arg htakes] at hint hfew
  rw [List.length_cons] at hfew
  rw [StrArgs, argDirectives_arg htakes] at hstrs
  cases args with
  | nil => simp [render, htakes] at hrender
  | cons a args =>
      rw [render_arg htakes] at hrender
      rcases Option.map_eq_some_iff.mp hrender with ⟨text', hrest, htext⟩
      refine ⟨a, args, text', rfl, htext.symm, hrest,
        fun hmem => hint (List.mem_cons_of_mem _ hmem), by omega,
        fun a' ha => hshort a' (List.mem_cons_of_mem _ ha), hscreen, himage,
        hformat.2.2.2.2.2.2, hargs.tail.setEsi _, ?_⟩
      intro p hp
      exact hstrs p (List.mem_cons_of_mem _ hp)

theorem plain (h : Reads szTime fuel k (0x25 :: al :: fmt) args text s f)
    (htakes : takesArg al = false) : ∃ text',
      text = (if al = 0x25 then 0x25 else 0x3F) :: text' ∧
      Reads szTime fuel k fmt args text' s (f.setEsi (f.esi + 1 + 1)) := by
  rcases h with ⟨hrender, hint, hfew, hshort, hscreen, himage, hformat, hargs, hstrs⟩
  rw [argDirectives_plain htakes] at hint hfew
  rw [StrArgs, argDirectives_plain htakes] at hstrs
  rw [render_plain htakes] at hrender
  rcases Option.map_eq_some_iff.mp hrender with ⟨text', hrest, htext⟩
  exact ⟨text', htext.symm, hrest, hint, hfew, hshort, hscreen, himage, hformat.2.2.2.2.2.2,
    hargs.setEsi _, hstrs⟩

theorem char (h : Reads szTime fuel k (al :: fmt) args text s f) (hne : al ≠ 0x25) :
    ∃ text', text = al :: text' ∧
      Reads szTime fuel k fmt args text' s (f.setEsi (f.esi + 1)) := by
  rcases h with ⟨hrender, hint, hfew, hshort, hscreen, himage, hformat, hargs, hstrs⟩
  rw [argDirectives_char hne] at hint hfew
  rw [StrArgs, argDirectives_char hne] at hstrs
  rw [render_char hne] at hrender
  rcases Option.map_eq_some_iff.mp hrender with ⟨text', hrest, htext⟩
  exact ⟨text', htext.symm, hrest, hint, hfew, hshort, hscreen, himage, hformat.2.2.2,
    hargs.setEsi _, hstrs⟩

/-- Something is printed. -/
theorem kept {s' : Out} {bytes : List Byte} (h : Reads szTime fuel k fmt args text s f)
    (hsent : Sent bytes s s') (honly : OnlyLog szTime s.mem s'.mem)
    (hkept : Frame.Kept 114 f g) : Reads szTime fuel k fmt args text s' g := by
  refine ⟨h.rendered, h.noInt, h.few, h.short, hsent.screen, honly.image h.image, ?_,
    h.onStack.balanced hkept.toBalanced, h.strs.congr honly⟩
  rw [hkept.esi]
  exact h.format.congr honly.aside

/-- And ESI goes one byte further. -/
theorem printed {s' : Out} {bytes : List Byte}
    (h : Reads szTime fuel k fmt args text s (f.setEsi (f.esi + 1))) (hsent : Sent bytes s s')
    (honly : OnlyLog szTime s.mem s'.mem) (hkept : Frame.Kept 114 f g) :
    Reads szTime fuel k fmt args text s' (g.setEsi (g.esi + 1)) := by
  refine h.kept hsent honly ⟨⟨hkept.ebp, hkept.esp, hkept.stack⟩, hkept.ebx, ?_, hkept.edi⟩
  rw [Frame.setEsi_esi, Frame.setEsi_esi, hkept.esi]

end Reads

/-- From here on the loop prints `text`. -/
def Renders (A : CallSite → Word) (szTime : Word) (fuel n : Nat) (text : List Byte) (ecx : Word)
    (s : Out) (f : Frame) : Prop :=
  ∃ ecx' s' g, iterate (klogPass A szTime fuel) n (ecx, s, f) = some (ecx', s', g) ∧
    Sent text s s' ∧ OnlyLog szTime s.mem s'.mem ∧ Frame.ButEsi 114 f g

theorem Renders.again {fuel n : Nat} {bytes text : List Byte} {ecx ecx' : Word} {s' : Out}
    {f g : Frame} (hpass : klogPass A szTime fuel (ecx, s, f) = some (.again (ecx', s', g)))
    (hsent : Sent bytes s s') (honly : OnlyLog szTime s.mem s'.mem) (hbut : Frame.ButEsi 114 f g)
    (hrest : Renders A szTime fuel n text ecx' s' g) :
    Renders A szTime fuel (n + 1) (bytes ++ text) ecx s f := by
  rcases hrest with ⟨ecx'', s'', h, hrun, hsent', honly', hbut'⟩
  refine ⟨ecx'', s'', h, ?_, hsent.trans hsent', honly.trans honly', hbut.trans hbut'⟩
  rw [iterate_again hpass]
  exact hrun

theorem argPlace_succ (k : Nat) :
    BitVec.ofNat 32 (8 + 4 * k) + 4 = BitVec.ofNat 32 (8 + 4 * (k + 1)) := by
  rw [Nat.mul_succ, ← Nat.add_assoc, BitVec.ofNat_add (8 + 4 * k)]
  rfl

/-- A directive prints its part of `text`. -/
theorem klogFormat_reads {al : Byte} {fmt : List Byte} {args : List Arg} {text : List Byte}
    {k fuel : Nat} {f : Frame} (hin : Reads szTime fuel k (0x25 :: al :: fmt) args text s f)
    (hfuel : 8 < fuel) : ∃ k' args' text₁ text₂ s' g,
      klogFormat A szTime fuel al (BitVec.ofNat 32 (8 + 4 * k)) s (f.setEsi (f.esi + 1))
        = some (BitVec.ofNat 32 (8 + 4 * k'), s', g) ∧ text = text₁ ++ text₂ ∧
      Sent text₁ s s' ∧ OnlyLog szTime s.mem s'.mem ∧
      Frame.Kept 114 (f.setEsi (f.esi + 1)) g ∧
      Reads szTime fuel k' fmt args' text₂ s (f.setEsi (f.esi + 1 + 1)) := by
  cases htakes : takesArg al with
  | true =>
      have hint := hin.noInt
      have hfew := hin.few
      rw [argDirectives_arg htakes] at hint hfew
      rw [List.length_cons] at hfew
      rcases hin.takeArg htakes with ⟨a, args', text', rfl, rfl, hnext⟩
      have hecx : (BitVec.ofNat 32 (8 + 4 * k)).toNat < 256 := by
        rw [toNat_ofNat_of_lt (by omega)]
        omega
      have hstr : al = 0x73 → StrAt (Aside szTime) s.mem a.word a.str := by
        refine hin.strs (al, a) ?_
        rw [argDirectives_arg htakes]
        exact List.mem_cons_self
      rcases klogFormat_arg (A := A) (f := f.setEsi (f.esi + 1)) htakes
        (fun heq => hint (heq ▸ List.mem_cons_self)) (hin.onStack.head (by omega)) hstr
        hin.screen hin.image hecx hfuel (hin.short a List.mem_cons_self) with
        ⟨s', g, hformat, hsent, honly, hkept⟩
      rw [argPlace_succ] at hformat
      exact ⟨k + 1, args', argText al a, text', s', g, hformat, rfl, hsent, honly, hkept, hnext⟩
  | false =>
      rcases hin.plain htakes with ⟨text', rfl, hnext⟩
      rcases klogFormat_plain (A := A) szTime htakes hin.screen fuel
        (BitVec.ofNat 32 (8 + 4 * k)) (f.setEsi (f.esi + 1)) with
        ⟨s', g, hformat, hsent, htext, hkept⟩
      exact ⟨k, args, _, text', s', g, hformat, rfl, hsent, OnlyLog.of_onlyText htext, hkept,
        hnext⟩

/-- One pass for each character or directive. -/
theorem klogPass_renders {fmt : List Byte} {args : List Arg} {text : List Byte} {k fuel : Nat}
    {f : Frame} (hin : Reads szTime fuel k fmt args text s f) (hfuel : 8 < fuel) {n : Nat}
    (hn : fmt.length < n) : Renders A szTime fuel n text (BitVec.ofNat 32 (8 + 4 * k)) s f := by
  obtain ⟨n, rfl⟩ : ∃ m, n = m + 1 := ⟨n - 1, by omega⟩
  induction fmt using OnStack.FormatOk.induct generalizing args text k s f n with
  | case1 =>
      have hdone : klogPass A szTime fuel (BitVec.ofNat 32 (8 + 4 * k), s, f)
          = some (.done (BitVec.ofNat 32 (8 + 4 * k), s, f)) := if_pos hin.format.2
      rw [← Option.some.inj hin.rendered]
      exact ⟨_, s, f, iterate_done hdone n, Sent.refl hin.screen, OnlyLog.refl,
        Frame.ButEsi.refl⟩
  | case2 =>
      have hrender := hin.rendered
      simp [render] at hrender
  | case3 al fmt ih =>
      simp only [List.length_cons] at hn
      obtain ⟨n, rfl⟩ : ∃ m, n = m + 1 := ⟨n - 1, by omega⟩
      rcases hin.format with ⟨-, hpercent, -, -, hal, -, -⟩
      rcases klogFormat_reads (A := A) hin hfuel with
        ⟨k', args', text₁, text₂, s₁, g, hformat, rfl, hsent, honly, hkept, hnext⟩
      have hrest := ih (hnext.printed hsent honly hkept) n (by omega)
      exact Renders.again (klogPass_directive hpercent hal hformat) hsent honly
        (((Frame.ButEsi.setEsi f _).trans hkept.butEsi).trans (Frame.ButEsi.setEsi g _)) hrest
  | case4 al fmt hne ih =>
      rw [List.length_cons] at hn
      obtain ⟨n, rfl⟩ : ∃ m, n = m + 1 := ⟨n - 1, by omega⟩
      rcases hin.format with ⟨-, hal, hnonzero, -⟩
      rcases hin.char hne with ⟨text', rfl, hnext⟩
      rcases putchar_sent (A := A) hin.screen (.klog 5) al (BitVec.ofNat 32 (8 + 4 * k)) f with
        ⟨s₁, g, hput, hsent, htext, hkept⟩
      have hkept' : Frame.Kept 114 f g := hkept.mono (by omega)
      have honly : OnlyLog szTime s.mem s₁.mem := OnlyLog.of_onlyText htext
      have hrest := ih (hnext.printed hsent honly hkept') n (by omega)
      exact Renders.again (klogPass_char hal hnonzero hne hput) hsent honly
        (hkept'.butEsi.trans (Frame.ButEsi.setEsi g _)) hrest

theorem render_isSome {fmt : List Byte} (hok : OnStack.FormatOk fmt = true) {args : List Arg}
    (henough : (argDirectives fmt).length ≤ args.length) : ∃ text, render fmt args = some text := by
  induction fmt using OnStack.FormatOk.induct generalizing args with
  | case1 => exact ⟨[], rfl⟩
  | case2 => simp [OnStack.FormatOk] at hok
  | case3 al fmt ih =>
      rw [OnStack.FormatOk, if_pos rfl] at hok
      cases htakes : takesArg al with
      | true =>
          rw [argDirectives_arg htakes, List.length_cons] at henough
          cases args with
          | nil => simp at henough
          | cons a args =>
              rw [List.length_cons] at henough
              rcases ih hok (Nat.le_of_succ_le_succ henough) with ⟨text, htext⟩
              rw [render_arg htakes, htext]
              exact ⟨_, rfl⟩
      | false =>
          rw [argDirectives_plain htakes] at henough
          rcases ih hok henough with ⟨text, htext⟩
          rw [render_plain htakes, htext]
          exact ⟨_, rfl⟩
  | case4 al fmt hne ih =>
      rw [OnStack.FormatOk.eq_def] at hok
      dsimp only at hok
      rw [if_neg hne] at hok
      rw [argDirectives_char hne] at henough
      rcases ih hok henough with ⟨text, htext⟩
      rw [render_char hne, htext]
      exact ⟨_, rfl⟩

/-- The frame in which the loop of `klog` begins. -/
def entered (f : Frame) (r eax : Word) : Frame := ((f.push r).enter.push f.esi).setEsi eax

theorem entered_ebp (f : Frame) (r eax : Word) :
    (entered f r eax).ebp = (entered f r eax).esp + 4 := by
  change f.esp - 4 - 4 = f.esp - 4 - 4 - 4 + 4
  bv_omega

/-- The words that were pushed before `klog` was called. -/
theorem entered_word (f : Frame) (r eax : Word) {i : Nat} (hi : i < 2 ^ 30 - 2 ^ 6) :
    (entered f r eax).stack.read32 ((entered f r eax).ebp + BitVec.ofNat 32 (8 + 4 * i))
      = f.word i := by
  have hnil : Frame.Pushed 12 f [] f := Frame.Pushed.nil (by omega)
  have hr := hnil.push (by rw [List.length_nil]; omega) r
  have hebp := hr.push (by rw [List.length_singleton]; omega) f.ebp
  have hesi := hebp.push (by simp only [List.length_cons, List.length_nil]; omega) f.esi
  have haddr : f.esp - 4 - 4 + BitVec.ofNat 32 (8 + 4 * i)
      = f.esp + BitVec.ofNat 32 (4 * i) := by
    rw [BitVec.ofNat_add]
    generalize BitVec.ofNat 32 (4 * i) = w
    bv_omega
  change Mem.read32 _ (f.esp - 4 - 4 + BitVec.ofNat 32 (8 + 4 * i)) = f.word i
  rw [haddr]
  exact hesi.stack.read32 (k := 4 * i) (by omega)

/-- The arguments that were pushed before `klog` was called. -/
theorem argsAt_enter {f : Frame} {args : List Arg}
    (hargs : ∀ i a, args[i]? = some a → f.word i = a.word) (r eax : Word) :
    ArgsAt 0 args (entered f r eax) := by
  refine ⟨entered_ebp f r eax, fun i a ha hi => ?_⟩
  rw [Nat.zero_add, entered_word f r eax (by omega)]
  exact hargs i a ha

/-- `klog` up to its loop -/
def klogStart (A : CallSite → Word) (szTime : Word) (fuel : Nat) (c : Clock) (eax ecx : Word)
    (s : Out) (f : Frame) : Option (Word × Out × Frame) := do
  let f := f.enter
  let f := f.push f.esi
  let f := f.setEsi eax
  let (s, f) ← f.call (A (.klog 0)) (klogPrintTime A szTime fuel c ecx s)
  return (8, s, f)

/-- Behind the loop `klog` prints CR LF and returns. -/
theorem klog_ends {fuel : Nat} {c : Clock} {eax ecx ecx₂ r : Word} {start : Word × Out × Frame}
    {s₂ : Out} {f g₂ : Frame} (hfuel : 2 < fuel)
    (hstart : klogStart A szTime fuel c eax ecx s (f.push r) = some start)
    (hloop : iterate (klogPass A szTime fuel) fuel start = some (ecx₂, s₂, g₂))
    (hs : OnScreen s₂.cga) (himage : InImage szTime s₂.mem)
    (hbut : Frame.ButEsi 114 (entered f r eax) g₂) :
    ∃ s' h, klog A szTime fuel c eax ecx s (f.push r) = some (s', r, h) ∧ Sent [cr, lf] s₂ s' ∧
      OnlyText s₂.mem s'.mem ∧ Frame.Kept 126 f h := by
  rcases (klogPrintStr_prints (A := A) (szCRLF szTime) ecx₂ hs himage.crlf hfuel).call g₂
    (A (.klog 6)) with ⟨s', g, hcrlf, hsent, htext, hkept⟩
  rcases OnStack.savedEsi (d := 114) (by omega) (hbut.trans (hkept.mono (by omega)).butEsi) with
    ⟨hret, hkept'⟩
  refine ⟨s', _, ?_, hsent, htext, hkept'⟩
  rw [klogStart] at hstart
  dsimp only at hstart
  rcases Option.bind_eq_some_iff.mp hstart with ⟨⟨s₁, g₁⟩, htime, hfirst⟩
  rw [← Option.some.inj hfirst] at hloop
  rw [klog]
  dsimp only
  rw [htime]
  dsimp only [Option.bind_eq_bind, Option.bind_some]
  rw [hloop]
  dsimp only [Option.bind_some]
  rw [hcrlf]
  dsimp only [Option.bind_some]
  rw [hret]
  rfl

theorem klogStart_eq {fuel : Nat} {c : Clock} {eax ecx r : Word} {f g : Frame} {s' : Out}
    (htime : (entered f r eax).call (A (.klog 0)) (klogPrintTime A szTime fuel c ecx s)
      = some (s', g)) :
    klogStart A szTime fuel c eax ecx s (f.push r) = some (8, s', g) := by
  rw [klogStart]
  dsimp only
  rw [Frame.enter_esi, Frame.push_esi, ← entered, htime]
  rfl

theorem klog_sent {fmt : List Byte} {args : List Arg} {text : List Byte} {fuel : Nat}
    {eax r : Word} {f : Frame} (c : Clock) (ecx : Word) (hfuel : 11 < fuel)
    (hlen : fmt.length < fuel)
    (hin : Reads szTime fuel 0 fmt args text s (entered f r eax)) :
    ∃ s' h, klog A szTime fuel c eax ecx s (f.push r) = some (s', r, h) ∧
      Sent (timeText c ++ text ++ [cr, lf]) s s' ∧ OnlyLog szTime s.mem s'.mem ∧
      Frame.Kept 126 f h := by
  rcases (klogPrintTime_prints (A := A) c ecx hin.screen hin.image hfuel).call
    (entered f r eax) (A (.klog 0)) with ⟨s₁, g₁, htime, hsent₁, honly₁, hkept₁⟩
  have hread := hin.kept hsent₁ honly₁ (hkept₁.mono (by omega))
  rcases klogPass_renders (A := A) hread (by omega) hlen with
    ⟨ecx₂, s₂, g₂, hloop, hsent₂, honly₂, hbut⟩
  rcases klog_ends (by omega) (klogStart_eq htime) hloop hsent₂.screen
    (honly₂.image (honly₁.image hin.image)) ((hkept₁.mono (by omega)).butEsi.trans hbut) with
    ⟨s', h, hrun, hsent₃, htext, hkept⟩
  exact ⟨s', h, hrun, (hsent₁.trans hsent₂).trans hsent₃,
    (honly₁.trans honly₂).trans (OnlyLog.of_onlyText htext), hkept⟩

/-- **`klog` renders its format.** To COM1 and to `cga_putc` go the time, the format with its
arguments, and CR LF. -/
theorem klog_renders (A : CallSite → Word) (szTime : Word) (c : Clock) {s : Out} {f : Frame}
    {fmt : List Byte} {args : List Arg} {eax : Word} (ecx r : Word)
    (hs : OnScreen s.cga) (himage : InImage szTime s.mem)
    (hfmt : StrAt (Aside szTime) s.mem eax fmt) (hok : OnStack.FormatOk fmt = true)
    (hint : 0x64 ∉ argDirectives fmt) (hfew : (argDirectives fmt).length ≤ 61)
    (henough : (argDirectives fmt).length ≤ args.length)
    (hargs : ∀ i a, args[i]? = some a → f.word i = a.word)
    (hstrs : StrArgs (Aside szTime) s.mem fmt args) :
    ∃ text n, render fmt args = some text ∧ ∀ fuel, n ≤ fuel →
      ∃ s' h, klog A szTime fuel c eax ecx s (f.push r) = some (s', r, h) ∧
        s'.com1 = s.com1 ++ (timeText c ++ text ++ [cr, lf]) ∧
        s'.putcs = s.putcs ++ (timeText c ++ text ++ [cr, lf]) := by
  rcases render_isSome hok henough with ⟨text, hrender⟩
  refine ⟨text, fmt.length + (args.map fun a => a.str.length).sum + 12, hrender, ?_⟩
  intro fuel hfuel
  have hshort : ∀ a ∈ args, a.str.length < fuel := by
    intro a ha
    have hle := List.single_le_sum (fun _ _ => Nat.zero_le _) _
      (List.mem_map_of_mem (f := fun a : Arg => a.str.length) ha)
    omega
  have hin : Reads szTime fuel 0 fmt args text s (entered f r eax) :=
    ⟨hrender, hint, by omega, hshort, hs, himage, hfmt, argsAt_enter hargs r eax, hstrs⟩
  rcases klog_sent (A := A) c ecx (by omega) (by omega) hin with ⟨s', h, hrun, hsent, -, -⟩
  exact ⟨s', h, hrun, hsent.com1, hsent.putcs⟩

end Render

/-- A memory with the bytes at `a` -/
def place (a : Word) (bytes : List Byte) (m : Mem) : Mem :=
  fun x => (bytes[(x - a).toNat]?).getD (m x)

theorem place_self {a : Word} {bytes : List Byte} {m : Mem} {i : Nat} {b : Byte}
    (hb : bytes[i]? = some b) (hi : i < 2 ^ 32) : place a bytes m (a + BitVec.ofNat 32 i) = b := by
  rw [place, offset_toNat a hi, hb]
  rfl

/-- The strings of `klog` at `0x1000`, the format `%s %u` at `0x2000`, and `ok` at `0x3000`. -/
def demoLog : Out where
  cga := { blankScreen with
    mem := place 0x1000 image <| place 0x2000 [0x25, 0x73, 0x20, 0x25, 0x75, 0] <|
      place 0x3000 [0x6F, 0x6B, 0] fun _ => 0 }
  com1 := []
  putcs := []

/-- The address of `ok` and 42 have been pushed. -/
def demoCall : Frame :=
  { ebx := 0, esi := 0, edi := 0, ebp := 0x9000, esp := 0x8000,
    stack := place 0x8000 [0x00, 0x30, 0, 0, 0x2A, 0, 0, 0] fun _ => 0 }

theorem demoLog_inImage : InImage 0x1000 demoLog.mem :=
  ⟨by decide +kernel, fun i b hb hfix => place_self hb (Nat.lt_trans hfix.1 (by decide))⟩

theorem klog_renders_demo : ∃ text n,
    render [0x25, 0x73, 0x20, 0x25, 0x75] [⟨0x3000, [0x6F, 0x6B]⟩, ⟨42, []⟩] = some text ∧
    ∀ fuel, n ≤ fuel → ∃ s' h, klog (fun _ => 0x4000) 0x1000 fuel ⟨0x23, 0x59, 0x07⟩ 0x2000 0
        demoLog (demoCall.push 0x5000) = some (s', 0x5000, h) ∧
      s'.com1 = timeText ⟨0x23, 0x59, 0x07⟩ ++ text ++ [cr, lf] ∧
      s'.putcs = timeText ⟨0x23, 0x59, 0x07⟩ ++ text ++ [cr, lf] := by
  refine klog_renders (fun _ => 0x4000) 0x1000 ⟨0x23, 0x59, 0x07⟩ (s := demoLog) (f := demoCall)
    0 0x5000 (by decide) demoLog_inImage (by decide +kernel) (by decide) (by decide) (by decide)
    (by decide) ?_ (by decide +kernel)
  intro i a ha
  have hi : i < 2 := (List.getElem?_eq_some_iff.mp ha).1
  interval_cases i
  · rw [← Option.some.inj ha]
    decide
  · rw [← Option.some.inj ha]
    decide

/-! ## `%d` -/

/-- The digits of a negative number are not those of its absolute value. -/
theorem intText_eq_iff (v : Word) :
    intText v = signedDecimal v.toInt ↔ 0 ≤ v.toInt ∨ v.toInt = -2 ^ 31 := by
  have hv := toInt_eq_ite v
  have hlt := v.isLt
  have hmsb : v.msb = decide (2 ^ 31 ≤ v.toNat) := BitVec.msb_eq_decide v
  rcases Nat.lt_or_ge v.toNat (2 ^ 31) with hpos | hneg
  · rw [if_pos hpos] at hv
    rw [intText, signedDecimal, hmsb, decide_eq_false (by omega), hv, if_neg Bool.false_ne_true,
      if_neg (by omega), Int.natAbs_natCast]
    refine iff_of_true rfl (.inl ?_)
    omega
  · rw [if_neg (by omega)] at hv
    have habs : v.toInt.natAbs = 2 ^ 32 - v.toNat := by omega
    rw [intText, signedDecimal, hmsb, decide_eq_true hneg, if_pos rfl, if_pos (by omega), habs]
    constructor
    · intro heq
      have hsame := decimal_inj (List.cons.inj heq).2
      right
      omega
    · intro hmin
      have hsame : v.toNat = 2 ^ 32 - v.toNat := by omega
      rw [← hsame]
      rfl

/-- **`%d` prints the number that it should** only if that is not negative, or the least one:
`_klog_print_int` loses the absolute value. -/
theorem klogFormat_int_iff (A : CallSite → Word) (szTime : Word) (fuel : Nat) (ecx : Word)
    (f : Frame) {s : Out} (hs : OnScreen s.cga) {v : Word}
    (hv : f.stack.read32 (f.ebp + ecx) = v) :
    (∃ ecx' s' g, klogFormat A szTime fuel 0x64 ecx s f = some (ecx', s', g) ∧
      s'.com1 = s.com1 ++ signedDecimal v.toInt ∧ s'.putcs = s.putcs ++ signedDecimal v.toInt) ↔
    0 ≤ v.toInt ∨ v.toInt = -2 ^ 31 := by
  rcases klogFormat_int (A := A) szTime hs fuel ecx f with ⟨s', g, hrun, hsent, -, -⟩
  rw [hv] at hsent
  rw [← intText_eq_iff]
  constructor
  · rintro ⟨ecx', s'', g', hrun', hcom, -⟩
    have hsame := Option.some.inj (hrun.symm.trans hrun')
    have hout : s' = s'' := congrArg (fun t => t.2.1) hsame
    rw [← hout, hsent.com1] at hcom
    exact List.append_cancel_left hcom
  · intro htext
    rw [← htext]
    exact ⟨ecx + 4, s', g, hrun, hsent.com1, hsent.putcs⟩

theorem klogFormat_int_iff_demo :
    ∃ ecx' s' g, klogFormat (fun _ => 0x4000) 0x1000 0 0x64 8 demoLog
        { demoCall with ebp := 0x7FFC } = some (ecx', s', g) ∧
      s'.com1 = signedDecimal 42 ∧ s'.putcs = signedDecimal 42 :=
  (klogFormat_int_iff (fun _ => 0x4000) 0x1000 0 8 { demoCall with ebp := 0x7FFC } (s := demoLog)
    (by decide) (v := 42) (by decide)).mpr (.inl (by decide))

/-- -1 comes out as -4294967295. -/
theorem klogFormat_int_counterexample :
    (0xFFFFFFFF : Word).toInt = -1 ∧
    ∃ s' g, klogFormat (fun _ => 0x4000) 0x1000 0 0x64 8 demoLog
        { demoCall with stack := fun _ => 0xFF } = some (12, s', g) ∧
      s'.com1 = 0x2D :: decimal 4294967295 ∧ s'.com1 ≠ signedDecimal (-1) := by
  rcases klogFormat_int (A := fun _ => 0x4000) 0x1000 (s := demoLog) (by decide) 0 8
    { demoCall with stack := fun _ => 0xFF } with ⟨s', g, hrun, hsent, -, -⟩
  have hcom : s'.com1 = intText 0xFFFFFFFF := hsent.com1
  refine ⟨by decide, s', g, hrun, hcom, ?_⟩
  rw [hcom]
  intro heq
  have hfalse := (intText_eq_iff 0xFFFFFFFF).mp heq
  exact absurd hfalse (by decide)

end StupidOS.Kernel.Logged
