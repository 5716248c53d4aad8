import StupidOS.Kernel.Cga
import StupidOS.Kernel.Pic

/-!
# The keyboard (`dev/at/kbd.inc`)

`kbd_irq` ends the interrupt and calls `kbd_getc`, which takes the scan code from the keyboard
controller and shows the character for it. Over any run of scan codes and interrupts the codes
that arrive are handled once each and in order, and what is on the screen is what a terminal
makes of their characters (`kbdRun_types`). The map has 92 entries, but codes up to 127 are
looked up in it.
-/

namespace StupidOS.Kernel

/-! ## The device -/

/-- `KBS_DIB` -/
def kbsDib : Byte := 0x01

/-- The keyboard controller: the rest of the status register, and the output buffer. -/
structure KbdPort where
  status : Byte
  buffer : Option Byte
  last : Byte

/-- `in al, KBD_STATP` -/
def KbdPort.readStatus (p : KbdPort) : Byte :=
  p.status &&& 0xFE ||| if p.buffer.isSome then kbsDib else 0

/-- `in al, KBD_ATAP`: the scan code, or the one before if there is none. -/
def KbdPort.readData (p : KbdPort) : Byte × KbdPort :=
  let al := p.buffer.getD p.last
  (al, { p with buffer := none, last := al })

/-- The keyboard, the console, and what has been written to `PIC1_COMMAND`. -/
structure KbdState where
  port : KbdPort
  cga : Cga
  pic1 : List Byte

/-! ## The routines -/

/-- `aKbdNormalMap` -/
def kbdNormalMap : List Byte := [
  0x00, 0x1B, 0x31, 0x32, 0x33, 0x34, 0x35, 0x36, 0x37, 0x38, 0x39, 0x30,
  0x2D, 0x3D, 0x08, 0x09, 0x71, 0x77, 0x65, 0x72, 0x74, 0x79, 0x75, 0x69,
  0x6F, 0x70, 0x5B, 0x5D, 0x0A, 0x00, 0x61, 0x73, 0x64, 0x66, 0x67, 0x68,
  0x6A, 0x6B, 0x6C, 0x3B, 0x27, 0x60, 0x00, 0x5C, 0x7A, 0x78, 0x63, 0x76,
  0x62, 0x6E, 0x6D, 0x2C, 0x2E, 0x2F, 0x00, 0x2A, 0x00, 0x20, 0x00, 0x00,
  0x00, 0x00, 0x00, 0x00, 0x00, 0x00, 0x00, 0x00, 0x00, 0x00, 0x00, 0x37,
  0x38, 0x39, 0x2D, 0x34, 0x35, 0x36, 0x2B, 0x31, 0x32, 0x33, 0x30, 0x2E,
  0x00, 0x00, 0x00, 0x00, 0x00, 0x00, 0x00, 0x00]

/-- Where fasm put the map, the address of `kbd_init`, and the 12 bytes behind `kbd_cdevws`. -/
structure KbdImage where
  aKbdNormalMap : Word
  kbdInit : Word
  rest : Fin 12 → Byte
  low : 0xC0100000 ≤ aKbdNormalMap.toNat
  high : aKbdNormalMap.toNat + 128 ≤ 0xC0400000

/-- What a code below 128 is looked up in: the map, `kbd_device` with its name, and
`kbd_cdevws`. -/
def KbdImage.table (K : KbdImage) : List Byte :=
  kbdNormalMap ++ [0x6B, 0x62, 0x64, 0, 0, 0, 0, 0] ++ (List.range 4).map (byteOf K.kbdInit) ++
    List.replicate 12 0 ++ List.ofFn K.rest

def KbdImage.Loaded (K : KbdImage) (m : Mem) : Prop :=
  ∀ i, i < 128 → m (K.aKbdNormalMap + BitVec.ofNat 32 i) = K.table.getD i 0

variable (K : KbdImage)

/-- `kbd_getc` -/
def kbdGetc (s : KbdState) : Option KbdState :=
  let al := s.port.readStatus
  let al := al &&& kbsDib
  if al = 0 then some s
  else
    let (al, port) := s.port.readData
    let s := { s with port }
    let ah := al &&& 0x80
    if ah ≠ 0 then some s
    else
      let eax : Word := al.setWidth 32
      let edx := K.aKbdNormalMap + eax
      let al := s.cga.mem edx
      (cgaPutc al s.cga).map fun cga => { s with cga }

/-- `kbd_irq`. The registers are saved and restored. -/
def kbdIrq (s : KbdState) : Option KbdState :=
  let s := { s with pic1 := s.pic1 ++ [picEOI] }
  (kbdGetc K s).map fun s' =>
    { s' with cga := { s'.cga with esi := s.cga.esi, edi := s.cga.edi } }

/-! ## Runs -/

/-- A scan code comes in, or an interrupt. -/
inductive KbdEvent where
  | code (c : Byte)
  | irq
deriving DecidableEq, Repr

/-- The controller takes the next code when the one before has been read. -/
def kbdStep (s : KbdState) : KbdEvent → KbdState → Prop
  | .code c, s' => s.port.buffer = none ∧ s' = { s with port := { s.port with buffer := some c } }
  | .irq, s' => kbdIrq K s = some s'

/-- The codes that came in. -/
def codes (es : List KbdEvent) : List Byte :=
  es.filterMap fun
    | .code c => some c
    | .irq => none

/-- What a code shows: nothing if the key has been released. -/
def KbdImage.typed (c : Byte) : List ConsoleOp :=
  if c.getLsbD 7 then [] else [.putc (K.table.getD c.toNat 0)]

/-! ## One interrupt -/

variable {K} {s : KbdState} {t : Terminal}

theorem status_empty : ∀ b : Byte, (b &&& 0xFE ||| 0) &&& kbsDib = 0 := by decide

theorem status_full : ∀ b : Byte, (b &&& 0xFE ||| kbsDib) &&& kbsDib ≠ 0 := by decide

theorem released_iff : ∀ c : Byte, c &&& 0x80 ≠ 0 ↔ c.getLsbD 7 = true := by decide

theorem kbdGetc_empty (h : s.port.buffer = none) : kbdGetc K s = some s := by
  have hstatus : s.port.readStatus &&& kbsDib = 0 := by
    rw [KbdPort.readStatus, h]
    exact status_empty s.port.status
  simp only [kbdGetc, hstatus, if_true]

/-- The code of a key that is pressed is looked up in memory. -/
theorem kbdGetc_code {c : Byte} (h : s.port.buffer = some c) :
    kbdGetc K s =
      if c.getLsbD 7 then some { s with port := ⟨s.port.status, none, c⟩ }
      else (cgaPutc (s.cga.mem (K.aKbdNormalMap + c.setWidth 32)) s.cga).map fun cga =>
        ⟨⟨s.port.status, none, c⟩, cga, s.pic1⟩ := by
  have hstatus : ¬ s.port.readStatus &&& kbsDib = 0 := by
    rw [KbdPort.readStatus, h]
    exact status_full s.port.status
  simp only [kbdGetc, hstatus, if_false, KbdPort.readData, h, Option.getD_some, released_iff]

theorem KbdImage.Loaded.lookup {m : Mem} (h : K.Loaded m) {c : Byte} (hc : c.getLsbD 7 = false) :
    m (K.aKbdNormalMap + c.setWidth 32) = K.table.getD c.toNat 0 := by
  have hlt : c.toNat < 128 := by
    have hall : ∀ c : Byte, c.getLsbD 7 = false → c.toNat < 128 := by decide
    exact hall c hc
  rw [← h c.toNat hlt]
  congr 2
  apply BitVec.eq_of_toNat_eq
  rw [BitVec.toNat_setWidth, BitVec.toNat_ofNat]

/-- The map does not lie in the text memory. -/
theorem KbdImage.Loaded.only {m m' : Mem} (h : K.Loaded m) (honly : OnlyText m m') :
    K.Loaded m' := by
  have hlow := K.low
  have hhigh := K.high
  intro i hi
  rw [honly _ (by unfold cgaMemory; bv_omega), h i hi]

/-- What a run up to now has left. -/
structure KbdShows (K : KbdImage) (s : KbdState) (t : Terminal) (s' : KbdState) : Prop where
  shows : Shows s'.cga t
  onlyText : OnlyText s.cga.mem s'.cga.mem
  esi : s'.cga.esi = s.cga.esi
  edi : s'.cga.edi = s.cga.edi

/-- An interrupt handles the code in the buffer, if there is one. -/
theorem kbdIrq_shows (hload : K.Loaded s.cga.mem) (hs : Shows s.cga t) :
    ∃ s', kbdIrq K s = some s' ∧ s'.port.buffer = none ∧ s'.pic1 = s.pic1 ++ [picEOI] ∧
      KbdShows K s (t.run (s.port.buffer.toList.flatMap K.typed)) s' := by
  cases hbuffer : s.port.buffer with
  | none =>
      refine ⟨{ s with pic1 := s.pic1 ++ [picEOI] }, ?_, hbuffer, rfl, hs, fun x _ => rfl, rfl, rfl⟩
      rw [kbdIrq, kbdGetc_empty (s := { s with pic1 := s.pic1 ++ [picEOI] }) hbuffer]
      rfl
  | some c =>
      have hgetc := kbdGetc_code (K := K) (s := { s with pic1 := s.pic1 ++ [picEOI] }) hbuffer
      rw [Option.toList_some, List.flatMap_singleton, KbdImage.typed]
      cases hbit : c.getLsbD 7 with
      | true =>
          rw [if_pos hbit] at hgetc
          refine ⟨⟨⟨s.port.status, none, c⟩, s.cga, s.pic1 ++ [picEOI]⟩, ?_, rfl, rfl, ?_⟩
          · rw [kbdIrq, hgetc]
            rfl
          · exact ⟨hs, fun x _ => rfl, rfl, rfl⟩
      | false =>
          rw [hbit, if_neg Bool.false_ne_true, hload.lookup hbit] at hgetc
          rcases putc_shows hs (K.table.getD c.toNat 0) with ⟨cga, hputc, hmoved⟩
          dsimp only at hgetc
          rw [hputc, Option.map_some] at hgetc
          refine ⟨⟨⟨s.port.status, none, c⟩, { cga with esi := s.cga.esi, edi := s.cga.edi },
            s.pic1 ++ [picEOI]⟩, ?_, rfl, rfl, ?_⟩
          · rw [kbdIrq, hgetc]
            rfl
          · exact ⟨⟨⟨hmoved.shows.cell, hmoved.shows.attr⟩, hmoved.shows.cursor⟩,
              hmoved.onlyText, rfl, rfl⟩

/-! ## Every run -/

theorem KbdShows.trans {s' s'' : KbdState} {t' : Terminal} (h : KbdShows K s t s')
    (h' : KbdShows K s' t' s'') : KbdShows K s t' s'' :=
  ⟨h'.shows, h.onlyText.trans h'.onlyText, h'.esi.trans h.esi, h'.edi.trans h.edi⟩

theorem Terminal.run_append (t : Terminal) (ops ops' : List ConsoleOp) :
    t.run (ops ++ ops') = (t.run ops).run ops' := List.foldl_append

/-- The codes handled are those of the buffer and those that come in, without what is in the
buffer then. -/
theorem kbdRun_handled {r : List (KbdEvent × KbdState)} (hload : K.Loaded s.cga.mem)
    (hs : Shows s.cga t) (hrun : Run (kbdStep K) s r) :
    ∃ handled, s.port.buffer.toList ++ codes (r.map Prod.fst)
        = handled ++ (runEnd s r).port.buffer.toList ∧
      KbdShows K s (t.run (handled.flatMap K.typed)) (runEnd s r) ∧
      (runEnd s r).pic1
        = s.pic1 ++ List.replicate ((r.map Prod.fst).count .irq) picEOI := by
  induction r generalizing s t with
  | nil =>
      refine ⟨[], List.append_nil _, ⟨hs, fun x _ => rfl, rfl, rfl⟩, ?_⟩
      exact (List.append_nil _).symm
  | cons x r ih =>
      obtain ⟨e, s₁⟩ := x
      rcases hrun with ⟨hstep, hrest⟩
      cases e with
      | code c =>
          rcases hstep with ⟨hempty, rfl⟩
          rcases ih (s := { s with port := { s.port with buffer := some c } }) hload hs hrest with
            ⟨handled, hcodes, hshows, hpic⟩
          refine ⟨handled, ?_, ⟨hshows.shows, hshows.onlyText, hshows.esi, hshows.edi⟩, ?_⟩
          · rw [hempty]
            exact hcodes
          · rw [List.map_cons, List.count_cons_of_ne (show KbdEvent.code c ≠ .irq from nofun)]
            exact hpic
      | irq =>
          rcases kbdIrq_shows hload hs with ⟨s₂, hirq, hempty, heoi, hfirst⟩
          obtain rfl : s₁ = s₂ := Option.some.inj (hstep.symm.trans hirq)
          rcases ih (hload.only hfirst.onlyText) hfirst.shows hrest with
            ⟨handled, hcodes, hshows, hpic⟩
          refine ⟨s.port.buffer.toList ++ handled, ?_, ?_, ?_⟩
          · rw [hempty] at hcodes
            rw [List.append_assoc]
            exact congrArg _ hcodes
          · rw [List.flatMap_append, Terminal.run_append]
            exact hfirst.trans hshows
          · rw [List.map_cons, List.count_cons_self, List.replicate_succ, runEnd, hpic, heoi,
              List.append_assoc, List.singleton_append]

/-- **Typing.** Over every run of scan codes and interrupts: each code that comes in is handled
once, in order, but for one that may still be in the controller; the screen shows what a
terminal makes of the characters of those handled; each interrupt is ended once; and nothing
else has changed. -/
theorem kbdRun_types (K : KbdImage) {s : KbdState} {t : Terminal} (hload : K.Loaded s.cga.mem)
    (hs : Shows s.cga t) (hempty : s.port.buffer = none) (r : List (KbdEvent × KbdState))
    (hrun : Run (kbdStep K) s r) :
    ∃ handled, codes (r.map Prod.fst) = handled ++ (runEnd s r).port.buffer.toList ∧
      KbdShows K s (t.run (handled.flatMap K.typed)) (runEnd s r) ∧
      (runEnd s r).pic1
        = s.pic1 ++ List.replicate ((r.map Prod.fst).count .irq) picEOI := by
  have hall := kbdRun_handled hload hs hrun
  rwa [hempty] at hall

def demoKbdImage : KbdImage := ⟨0xC0102400, 0xC0102500, fun _ => 0x90, by decide, by decide⟩

/-- The keyboard and an empty screen. -/
def demoKbd : KbdState where
  port := ⟨0x1C, none, 0⟩
  cga := { blankScreen with mem := fun x => demoKbdImage.table.getD (x - 0xC0102400).toNat 0 }
  pic1 := []

theorem demoKbd_loaded : demoKbdImage.Loaded demoKbd.cga.mem := by
  intro i hi
  change demoKbdImage.table.getD (0xC0102400 + BitVec.ofNat 32 i - 0xC0102400).toNat 0 = _
  congr 1
  bv_omega

theorem demoKbd_shows : Shows demoKbd.cga (terminalOf demoKbd.cga (by decide)) :=
  terminalOf_shows demoKbd.cga (by decide)

/-- `A` is pressed and released, then the key with code 0x5C, and `B`. -/
def demoKeys : List KbdEvent :=
  [.code 0x1E, .irq, .code 0x9E, .irq, .irq, .code 0x5C, .irq, .code 0x30]

theorem demoKeys_run :
    ∃ r, Run (kbdStep demoKbdImage) demoKbd r ∧ r.map Prod.fst = demoKeys := by
  rcases kbdIrq_shows (s := { demoKbd with port := ⟨0x1C, some 0x1E, 0⟩ }) demoKbd_loaded
    demoKbd_shows with ⟨s₁, hirq₁, hempty₁, -, h₁⟩
  have hload₁ := demoKbd_loaded.only h₁.onlyText
  rcases kbdIrq_shows (s := { s₁ with port := { s₁.port with buffer := some 0x9E } }) hload₁
    h₁.shows with ⟨s₂, hirq₂, hempty₂, -, h₂⟩
  have hload₂ := hload₁.only h₂.onlyText
  rcases kbdIrq_shows hload₂ h₂.shows with ⟨s₃, hirq₃, hempty₃, -, h₃⟩
  have hload₃ := hload₂.only h₃.onlyText
  rcases kbdIrq_shows (s := { s₃ with port := { s₃.port with buffer := some 0x5C } }) hload₃
    h₃.shows with ⟨s₄, hirq₄, hempty₄, -, -⟩
  exact Run.exists_cons ⟨rfl, rfl⟩ (Run.exists_cons hirq₁ (Run.exists_cons ⟨hempty₁, rfl⟩
    (Run.exists_cons hirq₂ (Run.exists_cons hirq₃ (Run.exists_cons ⟨hempty₃, rfl⟩
      (Run.exists_cons hirq₄ (Run.exists_cons ⟨hempty₄, rfl⟩ ⟨[], trivial, rfl⟩)))))))

theorem kbdRun_types_demo : ∃ r : List (KbdEvent × KbdState), r.map Prod.fst = demoKeys ∧
    ∃ handled, codes (r.map Prod.fst) = handled ++ (runEnd demoKbd r).port.buffer.toList ∧
      KbdShows demoKbdImage demoKbd ((terminalOf demoKbd.cga (by decide)).run
        (handled.flatMap demoKbdImage.typed)) (runEnd demoKbd r) ∧
      (runEnd demoKbd r).pic1
        = [] ++ List.replicate ((r.map Prod.fst).count .irq) picEOI := by
  rcases demoKeys_run with ⟨r, hrun, hfst⟩
  exact ⟨r, hfst, kbdRun_types demoKbdImage demoKbd_loaded demoKbd_shows rfl r hrun⟩

/-- Behind the map is the name of the device. -/
example : [0x1E, 0x9E, 0x5C].flatMap demoKbdImage.typed = [.putc 0x61, .putc 0x6B] := by decide

end StupidOS.Kernel
