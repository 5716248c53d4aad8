import StupidOS.Kernel.KlogFormat
import StupidOS.Lib.Scan

/-!
# Where `klog` stops reading (`klog.inc`)

Any format and any number of arguments. `_klog_print_hex` clears only CL, so from the 63rd argument
on it stores 256 bytes and more behind `szKlogBuffer`; `Apart` is what none of its stores gets to.
`klog` reads up to the NUL of its format and no further exactly if no directive is open there
(`klog_stops_iff`).
-/

namespace StupidOS.Kernel.Logged

open OnStack (CallSite OnScreen)

/-! ## What is stored -/

section Stores

variable (szTime : Word) (pages : Nat)

/-- Neither in the text memory, nor in the time, nor in the buffer or at one of the places behind
it, 256 bytes apart. -/
def Apart (x : Word) : Prop :=
  NotText x ∧ 12 ≤ (x - szTime).toNat ∧
    (9 ≤ (x - szKlogBuffer szTime).toNat % 256 ∨ pages ≤ (x - szKlogBuffer szTime).toNat / 256)

instance (x : Word) : Decidable (Apart szTime pages x) := inferInstanceAs (Decidable (_ ∧ _ ∧ _))

/-- The bytes from `szTime` on, with the NUL of the buffer. -/
structure Labels (m : Mem) : Prop where
  image : InImage szTime m
  nul : m (szKlogBuffer szTime + 8) = 0

/-- Of the memory apart nothing differs, nor of the bytes that stay. -/
structure OnlyLogs (m m' : Mem) : Prop where
  apart : ∀ x, Apart szTime pages x → m' x = m x
  labels : Labels szTime m → Labels szTime m'

end Stores

section Memory

variable {szTime : Word} {pages : Nat} {m m' m'' : Mem}

theorem nul_label : szKlogBuffer szTime + 8 = szTime + BitVec.ofNat 32 42 := buffer_label 8

theorem OnlyLogs.refl : OnlyLogs szTime pages m m := ⟨fun _ _ => rfl, fun h => h⟩

theorem OnlyLogs.trans (h : OnlyLogs szTime pages m m') (h' : OnlyLogs szTime pages m' m'') :
    OnlyLogs szTime pages m m'' :=
  ⟨fun x hx => (h'.apart x hx).trans (h.apart x hx), fun hm => h'.labels (h.labels hm)⟩

theorem OnlyLogs.of_onlyText (h : OnlyText m m') : OnlyLogs szTime pages m m' := by
  refine ⟨fun x hx => h x hx.1, fun hm => ⟨(OnlyLog.of_onlyText h).image hm.image, ?_⟩⟩
  rw [h _ (by rw [nul_label]; exact hm.image.notText 42 (by decide))]
  exact hm.nul

theorem Apart.aside (hpages : 0 < pages) {x : Word} (h : Apart szTime pages x) :
    Aside szTime x := by
  refine ⟨h.1, h.2.1, ?_⟩
  have hplace := h.2.2
  omega

theorem setCl_toNat (ecx : Word) (cl : Byte) :
    (setCl ecx cl).toNat = ecx.toNat / 256 * 256 + cl.toNat := by
  have hlt := cl.isLt
  have hhigh : (ecx.extractLsb' 8 24).toNat = ecx.toNat / 256 := by
    have hecx := ecx.isLt
    rw [BitVec.extractLsb'_toNat, Nat.shiftRight_eq_div_pow]
    omega
  rw [setCl, BitVec.toNat_append, hhigh, ← Nat.shiftLeft_add_eq_or_of_lt hlt, Nat.shiftLeft_eq]

theorem setCl_setCl (ecx : Word) (cl cl' : Byte) : setCl (setCl ecx cl) cl' = setCl ecx cl' := by
  have hlt := cl.isLt
  apply BitVec.eq_of_toNat_eq
  rw [setCl_toNat, setCl_toNat, setCl_toNat]
  omega

theorem setWidth_setCl (ecx : Word) (cl : Byte) : (setCl ecx cl).setWidth 8 = cl := by
  have hlt := cl.isLt
  apply BitVec.eq_of_toNat_eq
  rw [BitVec.toNat_setWidth, setCl_toNat]
  omega

/-- A store of `_klog_print_hex`. The last one is the NUL. -/
theorem OnlyLogs.write8 {ecx : Word} (hpage : ecx.toNat / 256 < pages) {cl al : Byte}
    (hcl : cl.toNat ≤ 8) (hlast : cl = 8 → al = 0) :
    OnlyLogs szTime pages m (m.write8 (szKlogBuffer szTime + setCl ecx cl) al) := by
  have hecx := setCl_toNat ecx cl
  generalize hplace : setCl ecx cl = place at hecx
  refine ⟨fun x hx => ?_, fun hm => ⟨⟨hm.image.notText, fun i b hb hfix => ?_⟩, ?_⟩⟩
  · refine Mem.write8_frame _ _ ?_
    rintro rfl
    have hoff := hx.2.2
    rw [show szKlogBuffer szTime + place - szKlogBuffer szTime = place by bv_omega] at hoff
    omega
  · have hi := hfix.1
    have hne : szTime + BitVec.ofNat 32 i ≠ szKlogBuffer szTime + place := by
      have hword : (BitVec.ofNat 32 i).toNat = i := toNat_ofNat_of_lt (by omega)
      rw [szKlogBuffer]
      generalize BitVec.ofNat 32 i = w at hword
      bv_omega
    rw [Mem.write8_frame _ _ hne]
    exact hm.image.byte i b hb hfix
  · by_cases hnul : place = 8
    · have hcl8 : cl = 8 := by
        have hnat : cl.toNat % 256 = 8 := by
          have h8 : place.toNat = 8 := by rw [hnul]; rfl
          omega
        exact BitVec.eq_of_toNat_eq (by rw [← Nat.mod_eq_of_lt cl.isLt]; exact hnat)
      rw [hlast hcl8, hnul]
      exact if_pos rfl
    · rw [Mem.write8_frame _ _ (by bv_omega)]
      exact hm.nul

theorem onlyLogs_storeTime (hpages : 0 < pages) {s : Out} (c : Clock) :
    OnlyLogs szTime pages s.mem (storeTime szTime c s).mem := by
  have honly : OnlyLog szTime s.mem (storeTime szTime c s).mem := onlyLog_storeTime c
  refine ⟨fun x hx => honly.aside x (hx.aside hpages), fun hm => ⟨honly.image hm.image, ?_⟩⟩
  have hnul := hm.nul
  rw [nul_label] at hnul ⊢
  rw [storeTime_mem (by decide)]
  exact hnul

/-- A string of `klog` is a string in memory like any other. -/
theorem strAt_iff {Ok : Word → Prop} {p : Word} {str : List Byte} :
    StrAt Ok m p str ↔ ZStr (· + 1) Ok m p str := by
  induction str generalizing p with
  | nil => exact Iff.rfl
  | cons b str ih => exact and_congr_right' (and_congr_right' (and_congr_right' ih))

end Memory

/-! ## The routines -/

/-- A state that a routine may leave. -/
def Left (szTime : Word) (pages : Nat) (s s' : Out) : Prop :=
  OnScreen s'.cga ∧ OnlyLogs szTime pages s.mem s'.mem

section Routines

variable {A : CallSite → Word} {szTime : Word} {pages : Nat} {s : Out}

theorem Prints.left {Only : Mem → Mem → Prop} {d e : Nat} {bytes : List Byte}
    {print : Frame → Option (Out × Word × Frame)} (h : Prints Only d bytes s print) (hle : d ≤ e)
    (honly : ∀ m', Only s.mem m' → OnlyLogs szTime pages s.mem m') :
    Calls e (Left szTime pages s) print :=
  (prints_iff_calls.mp h).imp hle fun _ hs => ⟨hs.1.screen, honly _ hs.2⟩

/-- After `i` passes CL is `i`, and only the buffer, or a place behind it, was stored to. -/
structure HexStored (szTime : Word) (pages : Nat) (ecx : Word) (i : Nat) (s : Out)
    (t : Word × Word × Out) : Prop where
  ecx : t.1 = setCl ecx (BitVec.ofNat 8 i)
  screen : OnScreen t.2.2.cga
  only : OnlyLogs szTime pages s.mem t.2.2.mem

theorem hexPass_stores {ecx : Word} (hpage : ecx.toNat / 256 < pages) {i : Nat} (hi : i < 8)
    {t : Word × Word × Out} (h : HexStored szTime pages ecx i s t) :
    ∃ t', hexPass szTime t = some (.again t') ∧ HexStored szTime pages ecx (i + 1) s t' := by
  rcases t with ⟨ecx', edi, t⟩
  rcases h with ⟨hecx, hscreen, honly⟩
  dsimp only at hecx hscreen honly
  have hbyte : (BitVec.ofNat 8 i : Byte).toNat = i := by
    rw [BitVec.toNat_ofNat]
    omega
  have hne : (BitVec.ofNat 8 i : Byte) ≠ 8 := fun heq => by
    have hnat := congrArg BitVec.toNat heq
    rw [hbyte] at hnat
    change i = 8 at hnat
    omega
  have hnext : (BitVec.ofNat 8 i + 1 : Byte) = BitVec.ofNat 8 (i + 1) := (BitVec.ofNat_add i 1).symm
  refine ⟨(setCl ecx (BitVec.ofNat 8 (i + 1)), edi.rotateLeft 4, t.store
    (szKlogBuffer szTime + ecx') (t.mem (sDigit szTime + (edi.rotateLeft 4 &&& 0xF)))), ?_, rfl,
    hscreen, honly.trans ?_⟩
  · rw [hexPass]
    dsimp only
    rw [hecx, setWidth_setCl, if_neg hne, setCl_setCl, hnext]
  · rw [hecx]
    exact OnlyLogs.write8 hpage (by omega) fun heq => absurd heq hne

theorem hexPass_returns {ecx : Word} (hpage : ecx.toNat / 256 < pages) {t : Word × Word × Out}
    (h : HexStored szTime pages ecx 0 s t) {fuel : Nat} (hfuel : 8 < fuel) :
    ∃ t', iterate (hexPass szTime) fuel t = some t' ∧ HexStored szTime pages ecx 8 s t' := by
  refine iterate_total (fun k t => ∃ i, i + k = 8 ∧ HexStored szTime pages ecx i s t)
    (HexStored szTime pages ecx 8 s) ?_ ⟨0, rfl, h⟩ hfuel
  rintro k t ⟨i, hik, hstored⟩
  by_cases hi : i = 8
  · refine .inl ⟨t, ?_, hi ▸ hstored⟩
    rw [hexPass]
    refine if_pos ?_
    rw [hstored.ecx, hi, setWidth_setCl]
    rfl
  · rcases hexPass_stores hpage (by omega) hstored with ⟨t', hpass, hstored'⟩
    exact .inr ⟨t', k - 1, hpass, by omega, i + 1, by omega, hstored'⟩

/-- The buffer is a string, whatever is in it. -/
theorem Labels.buffer {m : Mem} (h : Labels szTime m) :
    ∃ str, str.length ≤ 8 ∧ StrAt NotText m (szKlogBuffer szTime) str := by
  have hend : m ((· + 1)^[8] (szKlogBuffer szTime)) = 0 := by
    rw [iterate_add_one]
    exact h.nul
  have hok : ∀ i, i ≤ 8 → NotText ((· + 1)^[i] (szKlogBuffer szTime)) := by
    intro i hi
    rw [iterate_add_one, buffer_label]
    exact h.image.notText _ (by omega)
  rcases ZStr.exists_of_terminator NotText hend hok with ⟨str, hlen, hstr⟩
  exact ⟨str, hlen, strAt_iff.mpr hstr⟩

theorem printDigits_left {ecx : Word} (hs : OnScreen s.cga) (hlabels : Labels szTime s.mem)
    (hpage : ecx.toNat / 256 < pages) {fuel : Nat} (hfuel : 8 < fuel) (f : Frame) :
    ∃ s' g, printDigits A szTime fuel ecx s f = some (s', g) ∧ Left szTime pages s s' ∧
      Frame.Balanced 70 f g ∧ g.ebx = f.ebx ∧ g.esi = f.esi := by
  rcases hexPass_returns hpage (t := (setCl ecx 0, f.edi, s)) ⟨rfl, hs, OnlyLogs.refl⟩ hfuel with
    ⟨⟨ecx', edi, t⟩, hloop, hecx, hscreen, honly⟩
  dsimp only at hecx hscreen honly
  have hnul : OnlyLogs szTime pages s.mem (t.store (szKlogBuffer szTime + ecx') 0).mem := by
    rw [hecx]
    exact honly.trans (OnlyLogs.write8 hpage (Nat.le_refl 8) fun _ => rfl)
  rcases (hnul.labels hlabels).buffer with ⟨str, hlen, hstr⟩
  have hscreen' : OnScreen (t.store (szKlogBuffer szTime + ecx') 0).cga := hscreen
  rcases (klogPrintStr_prints (A := A) (szKlogBuffer szTime) ecx' hscreen' hstr
    (show str.length < fuel by omega)).call (f.setEdi edi) (A (.klogPrintHex 2)) with
    ⟨s', g, hcall, hsent, htext, hkept⟩
  refine ⟨s', g, ?_, ⟨hsent.screen, hnul.trans (OnlyLogs.of_onlyText htext)⟩,
    ⟨hkept.ebp, hkept.esp, hkept.stack⟩, hkept.ebx, hkept.esi⟩
  rw [printDigits, hloop]
  exact hcall

theorem klogPrintHex_left {eax ecx : Word} (hs : OnScreen s.cga)
    (hlabels : Labels szTime s.mem) (hpage : ecx.toNat / 256 < pages) {fuel : Nat}
    (hfuel : 8 < fuel) :
    Calls 82 (Left szTime pages s) (klogPrintHex A szTime fuel eax ecx s) := by
  refine klogPrintHex_run eax ecx _ hs hlabels.image (by omega) ?_
  rintro s₁ g₁ hsent₁ htext₁ -
  have honly₁ : OnlyLogs szTime pages s.mem s₁.mem := OnlyLogs.of_onlyText htext₁
  by_cases hzero : g₁.edi = 0
  · rcases putchar_sent (A := A) hsent₁.screen (.klogPrintHex 1) 0x30 ecx g₁ with
      ⟨s', g, hput, hsent, htext, hkept⟩
    rw [if_pos hzero]
    exact ⟨s', g, hput, ⟨hsent.screen, honly₁.trans (OnlyLogs.of_onlyText htext)⟩,
      hkept.toBalanced.mono (by omega), hkept.ebx, hkept.esi⟩
  · rcases printDigits_left (A := A) hsent₁.screen (honly₁.labels hlabels) hpage hfuel g₁ with
      ⟨s', g, hrun, hleft, hrest⟩
    rw [if_neg hzero]
    exact ⟨s', g, hrun, ⟨hleft.1, honly₁.trans hleft.2⟩, hrest⟩

end Routines

/-! ## The loop -/

section Format

variable {A : CallSite → Word} {szTime : Word} {pages : Nat} {s : Out}

/-- What stands behind a `%` returns, whatever it is. -/
theorem klogFormat_left (al : Byte) {ecx : Word} {f : Frame} (hs : OnScreen s.cga)
    (hlabels : Labels szTime s.mem) (hpage : takesArg al = true → ecx.toNat / 256 < pages)
    {fuel : Nat} (hfuel : 8 < fuel) (hstr : al = 0x73 →
      ∃ str, str.length < fuel ∧ StrAt NotText s.mem (f.stack.read32 (f.ebp + ecx)) str) :
    ∃ s' g, klogFormat A szTime fuel al ecx s f
        = some (if takesArg al then ecx + 4 else ecx, s', g) ∧
      Left szTime pages s s' ∧ Frame.Kept 114 f g := by
  have htext : ∀ m', OnlyText s.mem m' → OnlyLogs szTime pages s.mem m' :=
    fun _ => OnlyLogs.of_onlyText
  have harg : ∀ (print : Word → Out → Frame → Option (Out × Word × Frame)) {n : Nat},
      Calls 110 (Left szTime pages s) (print (f.stack.read32 (f.ebp + ecx)) s) →
      ∃ s' g, printArg A n print ecx s f = some (ecx + 4, s', g) ∧ Left szTime pages s s' ∧
        Frame.Kept 114 f g := fun _ _ hprint => printArg_calls hprint (by omega)
  cases htakes : takesArg al with
  | true =>
      have hex := hpage htakes
      simp only [takesArg, Bool.or_eq_true, decide_eq_true_eq] at htakes
      rcases htakes with ((rfl | rfl) | rfl) | rfl
      · rcases hstr rfl with ⟨str, hlen, hstr⟩
        exact harg (fun eax => klogPrintStr A fuel eax ecx)
          ((klogPrintStr_prints _ ecx hs hstr hlen).left (by omega) htext)
      · exact harg (fun eax => klogPrintHex A szTime fuel eax ecx)
          ((klogPrintHex_left hs hlabels hex hfuel).imp (by omega) fun _ h => h)
      · exact harg (klogPrintInt A) ((klogPrintInt_prints _ hs).left (by omega) htext)
      · exact harg (klogPrintUnsigned A) ((klogPrintUnsigned_prints _ hs).left (by omega) htext)
  | false =>
      rcases klogFormat_plain (A := A) szTime htakes hs fuel ecx f with
        ⟨s', g, hformat, hsent, honly, hkept⟩
      exact ⟨s', g, hformat, ⟨hsent.screen, OnlyLogs.of_onlyText honly⟩, hkept⟩

end Format

/-- How many places there are for the digits of `%x`, when there are `n` arguments. -/
def placesFor (n : Nat) : Nat := (4 + 4 * n) / 256 + 1

/-- `klog` has come to its loop, with the memory and the frame given. The format is `full`, at
`start`. -/
structure AtLoop (szTime : Word) (fuel : Nat) (start : Word) (full : List Byte) (args : List Arg)
    (m : Mem) (f : Frame) : Prop where
  labels : Labels szTime m
  format : StrAt (Apart szTime (placesFor (argDirectives full).length)) m start full
  strs : StrArgs (Apart szTime (placesFor (argDirectives full).length)) m full args
  short : ∀ a ∈ args, a.str.length < fuel
  enough : (argDirectives full).length ≤ args.length
  room : (argDirectives full).length < 2 ^ 30 - 2 ^ 6
  ebp : f.ebp = f.esp + 4
  words : ∀ i a, args[i]? = some a → i < (argDirectives full).length →
    f.stack.read32 (f.ebp + BitVec.ofNat 32 (8 + 4 * i)) = a.word

/-- A state of the loop with `fmt` still ahead. -/
structure KlogAt (szTime : Word) (start : Word) (full : List Byte) (m : Mem) (f : Frame)
    (fmt : List Byte) (t : Word × Out × Frame) : Prop where
  place : ∃ before, full = before ++ fmt ∧ t.2.2.esi = start + BitVec.ofNat 32 before.length
  args : ∃ done, argDirectives full = done ++ argDirectives fmt ∧
    t.1 = BitVec.ofNat 32 (8 + 4 * done.length)
  screen : OnScreen t.2.1.cga
  only : OnlyLogs szTime (placesFor (argDirectives full).length) m t.2.1.mem
  frame : Frame.ButEsi 114 f t.2.2

section Loop

variable {A : CallSite → Word} {szTime start : Word} {fuel : Nat} {full fmt : List Byte}
  {args : List Arg} {m : Mem} {f₀ : Frame} {ecx : Word} {s : Out} {f : Frame}

theorem KlogAt.format (hcall : AtLoop szTime fuel start full args m f₀)
    (h : KlogAt szTime start full m f₀ fmt (ecx, s, f)) :
    StrAt (Apart szTime (placesFor (argDirectives full).length)) s.mem f.esi fmt := by
  rcases h.place with ⟨before, hfull, hesi⟩
  have hformat := hcall.format.congr h.only.apart
  rw [hfull] at hformat ⊢
  have hahead := (strAt_iff.mp hformat).right
  rw [iterate_add_one, ← show f.esi = _ from hesi] at hahead
  exact strAt_iff.mpr hahead

/-- A pass that prints and goes on behind `moved`. -/
theorem KlogAt.moved (moved dirs : List Byte) {s' : Out} {g : Frame}
    (h : KlogAt szTime start full m f₀ (moved ++ fmt) (ecx, s, f))
    (hdirs : argDirectives (moved ++ fmt) = dirs ++ argDirectives fmt)
    (hleft : Left szTime (placesFor (argDirectives full).length) s s')
    (hframe : Frame.ButEsi 114 f g) (hesi : g.esi = f.esi + BitVec.ofNat 32 moved.length) :
    KlogAt szTime start full m f₀ fmt (ecx + BitVec.ofNat 32 (4 * dirs.length), s', g) := by
  rcases h.place with ⟨before, hfull, hplace⟩
  rcases h.args with ⟨done, hall, hecx⟩
  refine ⟨⟨before ++ moved, by rw [hfull, List.append_assoc], ?_⟩, ⟨done ++ dirs, ?_, ?_⟩,
    hleft.1, h.only.trans hleft.2, h.frame.trans hframe⟩
  · rw [List.length_append, BitVec.ofNat_add, ← BitVec.add_assoc, ← hplace]
    exact hesi
  · rw [hall, hdirs, List.append_assoc]
  · rw [List.length_append, Nat.mul_add, ← Nat.add_assoc, BitVec.ofNat_add, ← hecx]

/-- The next argument of the list is the one that ECX points at. -/
theorem KlogAt.arg (hcall : AtLoop szTime fuel start full args m f₀) {al : Byte}
    (htakes : takesArg al = true)
    (h : KlogAt szTime start full m f₀ (0x25 :: al :: fmt) (ecx, s, f)) :
    ecx.toNat / 256 < placesFor (argDirectives full).length ∧
      ∃ a, (al, a) ∈ (argDirectives full).zip args ∧ f.stack.read32 (f.ebp + ecx) = a.word := by
  rcases h.args with ⟨done, hall, hecx⟩
  rw [argDirectives_arg htakes] at hall
  have hlen := congrArg List.length hall
  rw [List.length_append, List.length_cons] at hlen
  have hroom := hcall.room
  have henough := hcall.enough
  have hnth : (argDirectives full)[done.length]? = some al := by
    rw [hall, List.getElem?_append_right (Nat.le_refl _), Nat.sub_self]
    rfl
  have hlt : done.length < args.length := by omega
  have hget : args[done.length]? = some args[done.length] := List.getElem?_eq_getElem hlt
  have hplace : ecx = BitVec.ofNat 32 (8 + 4 * done.length) := hecx
  refine ⟨?_, args[done.length], ?_, ?_⟩
  · rw [hplace, toNat_ofNat_of_lt (by omega), placesFor]
    omega
  · exact List.mem_of_getElem? (List.getElem?_zip_eq_some.mpr ⟨hnth, hget⟩)
  · have hword := hcall.words done.length _ hget (by omega)
    have haddr : f₀.ebp + BitVec.ofNat 32 (8 + 4 * done.length)
        = f₀.esp + BitVec.ofNat 32 (12 + 4 * done.length) := by
      rw [hcall.ebp, BitVec.add_assoc,
        show 12 + 4 * done.length = 4 + (8 + 4 * done.length) by omega, BitVec.ofNat_add 4]
      rfl
    have hebp : f.ebp = f₀.ebp := h.frame.ebp
    rw [hplace, hebp, haddr, h.frame.stack.read32 (by omega), ← haddr]
    exact hword

/-- What the format directive `al` prints, if it is `%s`. -/
theorem KlogAt.argStr (hcall : AtLoop szTime fuel start full args m f₀) {al : Byte}
    (h : KlogAt szTime start full m f₀ (0x25 :: al :: fmt) (ecx, s, f)) (hal : al = 0x73) :
    ∃ str, str.length < fuel ∧ StrAt NotText s.mem (f.stack.read32 (f.ebp + ecx)) str := by
  rcases h.arg hcall (by rw [hal]; rfl) with ⟨-, a, hmem, hword⟩
  refine ⟨a.str, hcall.short a (List.of_mem_zip hmem).2, ?_⟩
  rw [hword]
  exact ((hcall.strs _ hmem hal).congr h.only.apart).mono fun x hx => hx.1

theorem argDirectives_directive (al : Byte) (fmt : List Byte) :
    argDirectives (0x25 :: al :: fmt) =
      (if takesArg al then [al] else []) ++ argDirectives fmt := by
  cases htakes : takesArg al with
  | true => exact argDirectives_arg htakes fmt
  | false => exact argDirectives_plain htakes fmt

/-- One pass over a directive. -/
theorem klogPass_goesDirective (hcall : AtLoop szTime fuel start full args m f₀) (hfuel : 8 < fuel)
    {al : Byte} (h : KlogAt szTime start full m f₀ (0x25 :: al :: fmt) (ecx, s, f)) :
    ∃ t, klogPass A szTime fuel (ecx, s, f) = some (.again t) ∧
      KlogAt szTime start full m f₀ fmt t := by
  rcases h.format hcall with ⟨-, hpercent, -, -, hal, -, -⟩
  rcases klogFormat_left (A := A) al (f := f.setEsi (f.esi + 1)) h.screen
    (h.only.labels hcall.labels) (fun htakes => (h.arg hcall htakes).1) hfuel (h.argStr hcall) with
    ⟨s', g, hformat, hleft, hkept⟩
  have hframe : Frame.ButEsi 114 f (g.setEsi (g.esi + 1)) :=
    ((Frame.ButEsi.setEsi f _).trans hkept.butEsi).trans (Frame.ButEsi.setEsi g _)
  have hesi : g.esi + 1 = f.esi + BitVec.ofNat 32 [0x25, al].length := by
    rw [hkept.esi, Frame.setEsi_esi, BitVec.add_assoc]
    rfl
  have hnext := h.moved [0x25, al] _ (argDirectives_directive al fmt) hleft hframe hesi
  refine ⟨_, klogPass_directive hpercent hal hformat, ?_⟩
  cases htakes : takesArg al with
  | true =>
      rw [htakes] at hnext
      exact hnext
  | false =>
      rw [htakes] at hnext
      rw [if_neg Bool.false_ne_true]
      have hsame : ecx + BitVec.ofNat 32 (4 * ([] : List Byte).length) = ecx := BitVec.add_zero ecx
      rw [← hsame]
      exact hnext

/-- One pass over any other character. -/
theorem klogPass_goesChar (hcall : AtLoop szTime fuel start full args m f₀) {al : Byte}
    (hne : al ≠ 0x25) (h : KlogAt szTime start full m f₀ (al :: fmt) (ecx, s, f)) :
    ∃ t, klogPass A szTime fuel (ecx, s, f) = some (.again t) ∧
      KlogAt szTime start full m f₀ fmt t := by
  rcases h.format hcall with ⟨-, hal, hnonzero, -⟩
  rcases putchar_sent (A := A) h.screen (.klog 5) al ecx f with ⟨s', g, hput, hsent, htext, hkept⟩
  have hframe : Frame.ButEsi 114 f (g.setEsi (g.esi + 1)) :=
    (hkept.mono (by omega)).butEsi.trans (Frame.ButEsi.setEsi g _)
  have hesi : g.esi + 1 = f.esi + BitVec.ofNat 32 [al].length := by
    rw [hkept.esi]
    rfl
  have hnext := h.moved [al] [] (argDirectives_char hne fmt)
    ⟨hsent.screen, OnlyLogs.of_onlyText htext⟩ hframe hesi
  rw [List.length_nil, BitVec.add_zero] at hnext
  exact ⟨_, klogPass_char hal hnonzero hne hput, hnext⟩

/-- A `%` at the end: ESI goes past the NUL. -/
theorem klogPass_goesPast (hcall : AtLoop szTime fuel start full args m f₀)
    (h : KlogAt szTime start full m f₀ [0x25] (ecx, s, f)) :
    ∃ t, klogPass A szTime fuel (ecx, s, f) = some (.again t) ∧
      t.2.2.esi = start + BitVec.ofNat 32 (full.length + 1) := by
  rcases h.format hcall with ⟨-, hpercent, -, -, hal⟩
  rcases h.place with ⟨before, hfull, hesi⟩
  have hplain : takesArg 0 = false := rfl
  rcases klogFormat_plain (A := A) szTime hplain h.screen fuel ecx (f.setEsi (f.esi + 1)) with
    ⟨s', g, hformat, -, -, hkept⟩
  refine ⟨_, klogPass_directive hpercent hal hformat, ?_⟩
  have hf : f.esi = start + BitVec.ofNat 32 before.length := hesi
  rw [Frame.setEsi_esi, hkept.esi, Frame.setEsi_esi, hf, hfull, List.length_append,
    BitVec.add_assoc, BitVec.add_assoc, Nat.add_assoc, BitVec.ofNat_add before.length]
  rfl

theorem klog_scans (hcall : AtLoop szTime fuel start full args m f₀) (hfuel : 8 < fuel) :
    Scans 0x25 (klogPass A szTime fuel) (KlogAt szTime start full m f₀)
      (fun t => t.2.2.esi = start + BitVec.ofNat 32 (full.length + 1))
      (KlogAt szTime start full m f₀ []) where
  stop := by
    rintro ⟨ecx, s, f⟩ h
    exact ⟨_, if_pos (h.format hcall).2, h⟩
  char := by
    rintro ⟨ecx, s, f⟩ al fmt h hne
    exact klogPass_goesChar hcall hne h
  directive := by
    rintro ⟨ecx, s, f⟩ al fmt h
    exact klogPass_goesDirective hcall hfuel h
  lone := by
    rintro ⟨ecx, s, f⟩ h
    exact klogPass_goesPast hcall h

end Loop

/-! ## `klog` -/

/-- Where a pass of the loop reads the format. -/
def klogReads (t : Word × Out × Frame) : List Word :=
  t.2.2.esi :: if t.2.1.mem t.2.2.esi = 0x25 then [t.2.2.esi + 1] else []

/-- `klog` returns, on a format of `n` characters: it reads no character behind the NUL, and the
NUL is there all the time. -/
def KlogStops (A : CallSite → Word) (szTime : Word) (c : Clock) (eax ecx : Word) (s : Out)
    (f : Frame) (n : Nat) : Prop :=
  ∃ k, ∀ fuel ≥ k, ∃ start s' r, klogStart A szTime fuel c eax ecx s f = some start ∧
    klog A szTime fuel c eax ecx s f = some (s', r) ∧ s'.mem (eax + BitVec.ofNat 32 n) = 0 ∧
    ∀ t, Visits (klogPass A szTime fuel) start t →
      (∀ a ∈ klogReads t, (a - eax).toNat ≤ n) ∧ t.2.1.mem (eax + BitVec.ofNat 32 n) = 0

/-- The format of a call and its arguments are in memory, apart from what `klog` stores to. -/
structure KlogCall (szTime eax : Word) (fmt : List Byte) (args : List Arg) (s : Out)
    (f : Frame) : Prop where
  screen : OnScreen s.cga
  labels : Labels szTime s.mem
  format : StrAt (Apart szTime (placesFor (argDirectives fmt).length)) s.mem eax fmt
  strs : StrArgs (Apart szTime (placesFor (argDirectives fmt).length)) s.mem fmt args
  enough : (argDirectives fmt).length ≤ args.length
  room : (argDirectives fmt).length < 2 ^ 30 - 2 ^ 6
  words : ∀ i a, args[i]? = some a → f.word i = a.word

section Klog

variable {A : CallSite → Word} {szTime eax r : Word} {c : Clock} {ecx : Word} {s : Out} {f : Frame}
  {fmt : List Byte} {args : List Arg}

theorem StrAt.nul {Ok : Word → Prop} {m : Mem} {p : Word} {str : List Byte} (h : StrAt Ok m p str) :
    m (p + BitVec.ofNat 32 str.length) = 0 := by
  rw [← iterate_add_one]
  exact (strAt_iff.mp h).terminator

/-- Only in part of the memory is there room for a format. -/
theorem KlogCall.short (h : KlogCall szTime eax fmt args s f) : fmt.length + 1 < 2 ^ 32 := by
  by_contra hlong
  have hi : (cgaMemory - eax).toNat ≤ fmt.length := by
    have hlt := (cgaMemory - eax).isLt
    omega
  have hok := ((strAt_iff.mp h.format).ok hi).1
  rw [iterate_add_one, BitVec.ofNat_toNat, BitVec.setWidth_eq, BitVec.add_comm,
    BitVec.sub_add_cancel] at hok
  rw [NotText, BitVec.sub_self] at hok
  exact absurd hok (by decide)

variable (A r c ecx) in
theorem klog_reachesLoop (h : KlogCall szTime eax fmt args s f) {fuel : Nat} (hfuel : 11 < fuel)
    (hshort : ∀ a ∈ args, a.str.length < fuel) :
    AtLoop szTime fuel eax fmt args s.mem (entered f r eax) ∧
      ∃ start, klogStart A szTime fuel c eax ecx s (f.push r) = some start ∧
        KlogAt szTime eax fmt s.mem (entered f r eax) fmt start := by
  have hwords : ∀ i a, args[i]? = some a → i < (argDirectives fmt).length →
      (entered f r eax).stack.read32 ((entered f r eax).ebp + BitVec.ofNat 32 (8 + 4 * i))
        = a.word := by
    intro i a ha hi
    rw [entered_word f r eax (Nat.lt_trans hi h.room)]
    exact h.words i a ha
  refine ⟨⟨h.labels, h.format, h.strs, hshort, h.enough, h.room, entered_ebp f r eax, hwords⟩, ?_⟩
  rcases (klogPrintTime_stores (A := A) c ecx h.screen h.labels.image hfuel).call
    (entered f r eax) (A (.klog 0)) with ⟨s₁, g₁, htime, hsent, htext, hkept⟩
  refine ⟨_, klogStart_eq htime, ⟨[], rfl, ?_⟩, ⟨[], rfl, rfl⟩, hsent.screen,
    (onlyLogs_storeTime (Nat.succ_pos _) c).trans (OnlyLogs.of_onlyText htext),
    (hkept.mono (by omega)).butEsi⟩
  rw [List.length_nil, BitVec.add_zero]
  exact hkept.esi

/-- A state of the loop reads within the format, as long as no directive is open. -/
theorem KlogAt.reads {fuel : Nat} {full : List Byte} {f₀ : Frame} {m : Mem} {start : Word}
    (hcall : AtLoop szTime fuel start full args m f₀) (hshort : full.length < 2 ^ 32)
    (hclosed : Closed 0x25 fmt = true) {t : Word × Out × Frame}
    (h : KlogAt szTime start full m f₀ fmt t) : ∀ a ∈ klogReads t,
      (a - start).toNat ≤ full.length := by
  rcases t with ⟨ecx, s, f⟩
  rcases h.place with ⟨before, hfull, hesi⟩
  rw [← iterate_add_one] at hesi
  have hlen := congrArg List.length hfull
  rw [List.length_append] at hlen
  intro a ha
  rcases (strAt_iff.mp (h.format hcall)).reads (by decide) hclosed hesi hlen.symm a ha with
    ⟨i, hi, rfl⟩
  rw [iterate_add_one, offset_toNat start (by omega)]
  exact hi

theorem KlogAt.nul {fuel : Nat} {full : List Byte} {f₀ : Frame} {m : Mem} {start : Word}
    (hcall : AtLoop szTime fuel start full args m f₀) {t : Word × Out × Frame}
    (h : KlogAt szTime start full m f₀ fmt t) :
    t.2.1.mem (start + BitVec.ofNat 32 full.length) = 0 :=
  (hcall.format.congr h.only.apart).nul

/-- **`klog` reads up to the NUL of its format** and no further exactly if no `%` is open there. -/
theorem klog_stops_iff (h : KlogCall szTime eax fmt args s f) :
    KlogStops A szTime c eax ecx s (f.push r) fmt.length ↔ Closed 0x25 fmt = true := by
  have hfmt := h.short
  have hargs : ∃ k, ∀ a ∈ args, a.str.length < k := by
    refine ⟨(args.map fun a => a.str.length).sum + 1, fun a ha => ?_⟩
    have hle := List.single_le_sum (fun _ _ => Nat.zero_le _) _
      (List.mem_map_of_mem (f := fun a : Arg => a.str.length) ha)
    omega
  rcases hargs with ⟨k, hk⟩
  constructor
  · rintro ⟨n, hstops⟩
    by_contra hopen
    have hfuel : n ≤ n + k + 12 := by omega
    rcases hstops _ hfuel with ⟨start, s', r', hstart, -, -, hvisited⟩
    rcases klog_reachesLoop A r c ecx h (show 11 < n + k + 12 by omega)
      (fun a ha => Nat.lt_of_lt_of_le (hk a ha) (by omega)) with ⟨hcall, start', hstart', hat⟩
    have hsame : start' = start := Option.some.inj (hstart'.symm.trans hstart)
    rw [hsame] at hat
    rcases (klog_scans (A := A) hcall (by omega)).past (Bool.eq_false_iff.mpr hopen) hat with
      ⟨t, hv, hpast⟩
    have hread := (hvisited t hv).1 t.2.2.esi List.mem_cons_self
    rw [hpast, offset_toNat eax hfmt] at hread
    omega
  · intro hclosed
    refine ⟨k + fmt.length + 12, fun fuel hfuel => ?_⟩
    rcases klog_reachesLoop A r c ecx h (show 11 < fuel by omega)
      (fun a ha => Nat.lt_of_lt_of_le (hk a ha) (by omega)) with ⟨hcall, start, hstart, hat⟩
    have hscans := klog_scans (A := A) hcall (by omega)
    rcases hscans.returns hclosed hat (show fmt.length < fuel by omega) with
      ⟨⟨ecx₂, s₂, g₂⟩, hloop, hend⟩
    have hlabels := hend.only.labels h.labels
    rcases klog_ends (by omega) hstart hloop hend.screen hlabels.image hend.frame with
      ⟨s', g, hrun, -, htext, -⟩
    refine ⟨start, s', (r, g), hstart, hrun, ?_, fun t hv => ?_⟩
    · have honly := hend.only.trans (OnlyLogs.of_onlyText htext)
      exact (h.format.congr honly.apart).nul
    · rcases hscans.visits hclosed hat hv with ⟨fmt', hclosed', hat'⟩
      exact ⟨hat'.reads hcall (by omega) hclosed', hat'.nul hcall⟩

end Klog

end StupidOS.Kernel.Logged
