import Mathlib.Order.Interval.Finset.Fin
import StupidOS.Lib.Run
import StupidOS.Kernel.Idt

/-!
# The interrupt controllers and the lines behind them (`kernel/pic.inc`)

Two 8259A in cascade, as `pic_init` programs them, together with the descriptor table of
`idt_setup` and the handlers that its gates lead to. The devices raise their lines in any
order, the processor takes an interrupt when none is being handled (an interrupt gate keeps
others off until `iret`), and a handler does the port writes that the source gives it.

* `irqRun_handlers`: a line always gets the handler that is meant for it;
* `irqRun_levels`: only `pit_irq` and `kbd_irq` send an end of interrupt. So apart from
  these two, each interrupt that is taken shuts out its own line and all behind it for good;
* `irqRun_served`: the timer and the keyboard are taken again and again all the same;
* `picEoi_acknowledge`: `pic_eoi`, which no handler calls, is what would undo it.
-/

namespace StupidOS.Kernel

/-! ## One controller -/

/-- What the data port expects. -/
inductive PicMode
  | icw2
  | icw3
  | icw4
  | ready
  deriving DecidableEq

/-- A controller: requests, what is in service, and the mask, by line. -/
structure Pic where
  irr : Fin 8 → Bool
  isr : Fin 8 → Bool
  imr : Byte
  base : Byte
  cascade : Byte
  single : Bool
  ic4 : Bool
  icw4 : Byte
  mode : PicMode

namespace Pic

/-- The first line of some. The lower its number, the higher its priority. -/
def firstLine (f : Fin 8 → Bool) : Option (Fin 8) := (List.finRange 8).find? f

def clearIsr (p : Pic) (n : Fin 8) : Pic := { p with isr := Function.update p.isr n false }

/-- A write to the command port: ICW1, OCW3, or OCW2 with its end of interrupt. -/
def command (p : Pic) (al : Byte) : Pic :=
  if al.getLsbD 4 then
    { p with
      irr := fun _ => false
      imr := 0
      single := al.getLsbD 1
      ic4 := al.getLsbD 0
      icw4 := 0
      mode := .icw2 }
  else if al.getLsbD 3 then p
  else if al.getLsbD 5 then
    if al.getLsbD 6 then p.clearIsr ⟨al.toNat % 8, Nat.mod_lt _ (by decide)⟩
    else (firstLine p.isr).elim p p.clearIsr
  else p

/-- A write to the data port. -/
def data (p : Pic) (al : Byte) : Pic :=
  let last : PicMode := if p.ic4 then .icw4 else .ready
  match p.mode with
  | .icw2 => { p with base := al &&& 0xF8, mode := if p.single then last else .icw3 }
  | .icw3 => { p with cascade := al, mode := last }
  | .icw4 => { p with icw4 := al, mode := .ready }
  | .ready => { p with imr := al }

/-- The line the controller interrupts for: the first one that is requested and not masked,
where neither it nor one before it is in service. -/
def pending (p : Pic) : Option (Fin 8) :=
  (firstLine fun n => p.irr n && !p.imr.getLsbD n).filter fun n =>
    decide (∀ m ≤ n, p.isr m = false)

/-- The interrupt for a line is taken. With automatic end of interrupt nothing stays in
service. -/
def taken (p : Pic) (n : Fin 8) : Pic :=
  { p with
    irr := Function.update p.irr n false
    isr := if p.icw4.getLsbD 1 then p.isr else Function.update p.isr n true }

end Pic

/-! ## Two in cascade -/

def pic1Command : Half := 0x20
def pic1Data : Half := 0x21
def pic2Command : Half := 0xA0
def pic2Data : Half := 0xA1

structure Pics where
  master : Pic
  slave : Pic

namespace Pics

/-- `out` to a port of the controllers. -/
def out (p : Pics) (port : Half) (al : Byte) : Pics :=
  if port = pic1Command then { p with master := p.master.command al }
  else if port = pic1Data then { p with master := p.master.data al }
  else if port = pic2Command then { p with slave := p.slave.command al }
  else if port = pic2Data then { p with slave := p.slave.data al }
  else p

def outs (p : Pics) (ws : List (Half × Byte)) : Pics :=
  ws.foldl (fun p w => p.out w.1 w.2) p

/-- The master with the output of the slave at the line that ICW3 gives it. -/
def front (p : Pics) : Pic :=
  { p.master with
    irr := fun n => p.master.irr n || (p.master.cascade.getLsbD n && p.slave.pending.isSome) }

/-- A line from 0 to 15 gets a request. -/
def request (p : Pics) (line : Fin 16) : Pics :=
  if h : line.val < 8 then
    { p with master := { p.master with irr := Function.update p.master.irr ⟨line, h⟩ true } }
  else
    { p with slave := { p.slave with
      irr := Function.update p.slave.irr ⟨line - 8, by omega⟩ true } }

/-- The processor takes an interrupt: its vector, its line, and the controllers after it. The
slave answers when the master calls it by its number. -/
def acknowledge (p : Pics) : Option (Byte × Fin 16 × Pics) := do
  let n ← p.front.pending
  if p.master.cascade.getLsbD n then
    let k ← p.slave.pending
    if p.slave.cascade.toNat = n then
      return (p.slave.base + BitVec.ofNat 8 k, ⟨8 + k, by omega⟩,
        ⟨p.master.taken n, p.slave.taken k⟩)
    else none
  else
    return (p.master.base + BitVec.ofNat 8 n, ⟨n, by omega⟩, { p with master := p.master.taken n })

end Pics

/-! ## `pic.inc` -/

def picEOI : Byte := 0x20

def picInit (p : Pics) : Pics :=
  p.outs [(pic1Command, 0x11), (pic2Command, 0x11),
    (pic1Data, 0x20), (pic2Data, 0x28),
    (pic1Data, 0x4), (pic2Data, 0x2),
    (pic1Data, 0x1), (pic2Data, 0x1),
    (pic1Data, 0), (pic2Data, 0)]

/-- `pic_eoi`, with the line in EAX -/
def picEoi (eax : Word) (p : Pics) : Pics :=
  let p := if eax.ult 8 then p else p.out pic2Command picEOI
  p.out pic1Command picEOI

def picDisable (p : Pics) : Pics := p.outs [(pic1Data, 0xFF), (pic2Data, 0xFF)]

/-! ## Handlers -/

/-- The writes of a handler to the ports of the controllers. -/
def Handler.outs : Handler → List (Half × Byte)
  | .pitIrq | .kbdIrq => [(pic1Command, picEOI)]
  | .isr _ | .irqDummy | .comIrq2 | .comIrq1 | .floppyIrq | .ne2kIrq | .ataPrimaryIrq
  | .ataSecondaryIrq | .isrSyscall => []

/-- The handler that is meant for a line. -/
def irqHandler (line : Fin 16) : Handler :=
  match line.val with
  | 0 => .pitIrq
  | 1 => .kbdIrq
  | 3 => .comIrq2
  | 4 => .comIrq1
  | 6 => .floppyIrq
  | 9 => .ne2kIrq
  | 14 => .ataPrimaryIrq
  | 15 => .ataSecondaryIrq
  | _ => .irqDummy

/-! ## The system -/

/-- An interrupt that is being handled: its line, its handler, and the writes to come. -/
structure Running where
  line : Fin 16
  handler : Handler
  outs : List (Half × Byte)

structure IrqState where
  mem : Mem
  pics : Pics
  running : Option Running

inductive IrqEvent
  | request (line : Fin 16)
  | take (line : Fin 16) (handler : Handler)
  | out
  | iret

/-- A step. A line is taken when nothing is being handled; its handler is the one whose code
the gate of its vector leads to. The line of the cascade has no device. -/
def irqStep (I : IdtImage) (s : IrqState) (e : IrqEvent) (s' : IrqState) : Prop :=
  match e with
  | .request line => line ≠ 2 ∧ s' = { s with pics := s.pics.request line }
  | .take line h => s.running = none ∧ ∃ v pics, s.pics.acknowledge = some (v, line, pics) ∧
      gateAt I s.mem v.toNat = (gateAt I s.mem v.toNat).to (I.entry h) ∧
      s' = { s with pics, running := some ⟨line, h, h.outs⟩ }
  | .out => ∃ line h w ws, s.running = some ⟨line, h, w :: ws⟩ ∧
      s' = { s with pics := s.pics.out w.1 w.2, running := some ⟨line, h, ws⟩ }
  | .iret => ∃ line h, s.running = some ⟨line, h, []⟩ ∧ s' = { s with running := none }

/-! ## One controller -/

namespace Pic

variable {p : Pic} {n : Fin 8}

theorem firstLine_iff {f : Fin 8 → Bool} :
    firstLine f = some n ↔ f n = true ∧ ∀ m < n, f m = false := by
  rw [firstLine, ← Fin.find?_eq_find?_finRange]
  exact Fin.find?_eq_some_iff

/-- What a controller interrupts for. -/
theorem pending_iff : p.pending = some n ↔ p.irr n = true ∧ p.imr.getLsbD n = false ∧
    (∀ m < n, p.irr m = true → p.imr.getLsbD m = true) ∧ ∀ m ≤ n, p.isr m = false := by
  rw [pending, Option.filter_eq_some_iff, firstLine_iff, decide_eq_true_iff,
    Bool.and_eq_true, Bool.not_eq_true']
  constructor
  · rintro ⟨⟨⟨hirr, himr⟩, hbefore⟩, hisr⟩
    refine ⟨hirr, himr, ?_, hisr⟩
    intro m hm hreq
    have hmask := hbefore m hm
    rwa [hreq, Bool.true_and, Bool.not_eq_false'] at hmask
  · rintro ⟨hirr, himr, hbefore, hisr⟩
    refine ⟨⟨⟨hirr, himr⟩, ?_⟩, hisr⟩
    intro m hm
    cases hreq : p.irr m with
    | false => rfl
    | true => rw [hbefore m hm hreq]; rfl

/-- The end of interrupt clears the first line in service. -/
theorem command_eoi (hn : p.isr n = true) (hbefore : ∀ m < n, p.isr m = false) :
    p.command picEOI = p.clearIsr n := by
  have hfirst := firstLine_iff.mpr ⟨hn, hbefore⟩
  have hcommand : p.command picEOI = (firstLine p.isr).elim p p.clearIsr := rfl
  rw [hcommand, hfirst]
  rfl

/-- Without automatic end of interrupt, what is taken is in service until it is ended. -/
theorem command_eoi_taken (hauto : p.icw4.getLsbD 1 = false) (hisr : ∀ m ≤ n, p.isr m = false) :
    ((p.taken n).command picEOI).isr = p.isr := by
  have htaken : (p.taken n).isr = Function.update p.isr n true := by
    rw [taken]
    dsimp only
    rw [hauto, if_neg Bool.false_ne_true]
  have hn : (p.taken n).isr n = true := by rw [htaken, Function.update_self]
  have hbefore : ∀ m < n, (p.taken n).isr m = false := by
    intro m hm
    rw [htaken, Function.update_of_ne (ne_of_lt hm), hisr m (le_of_lt hm)]
  rw [command_eoi hn hbefore, clearIsr, htaken]
  funext m
  dsimp only
  rw [Function.update_idem, Function.update_apply]
  split
  · next hm => rw [hm, hisr n le_rfl]
  · rfl

end Pic

/-! ## Two in cascade -/

/-- The line of the master that a line comes in by. -/
def level (line : Fin 16) : Fin 8 := if h : line.val < 8 then ⟨line, h⟩ else 2

/-- Controllers as `pic_init` leaves them. -/
structure Programmed (p : Pics) : Prop where
  master_base : p.master.base = 0x20
  slave_base : p.slave.base = 0x28
  master_cascade : p.master.cascade = 4
  slave_cascade : p.slave.cascade = 2
  master_auto : p.master.icw4.getLsbD 1 = false
  slave_auto : p.slave.icw4.getLsbD 1 = false
  unmasked : p.master.imr = 0

theorem picInit_programmed (p : Pics) : Programmed (picInit p) := by
  have hmaster : (picInit p).master.icw4 = 1 := rfl
  have hslave : (picInit p).slave.icw4 = 1 := rfl
  refine ⟨rfl, rfl, rfl, rfl, ?_, ?_, rfl⟩
  · rw [hmaster]
    decide
  · rw [hslave]
    decide

/-- `pic_init` does not end what is in service. -/
theorem picInit_isr (p : Pics) : (picInit p).master.isr = p.master.isr := rfl

variable {p p' : Pics} {v : Byte} {line : Fin 16}

theorem Programmed.cascaded (h : Programmed p) (n : Fin 8) :
    p.master.cascade.getLsbD n = decide (n = 2) := by
  rw [h.master_cascade]
  revert n
  decide

/-- What is taken, by the line of the master it comes in by. -/
structure Taken (p : Pics) (v : Byte) (line : Fin 16) (p' : Pics) : Prop where
  vector : v.toNat = 32 + line
  pending : p.front.pending = some (level line)
  master : p'.master = p.master.taken (level line)
  slave : line.val < 8 ∧ p'.slave = p.slave ∨
    ∃ k, line.val = 8 + k.val ∧ p.slave.pending = some k ∧ p'.slave = p.slave.taken k

theorem Programmed.acknowledge (h : Programmed p) (hack : p.acknowledge = some (v, line, p')) :
    Taken p v line p' := by
  rcases Option.bind_eq_some_iff.mp hack with ⟨n, hpending, hrest⟩
  have hn := n.isLt
  rw [h.cascaded n] at hrest
  by_cases hcascade : n = 2
  · rw [if_pos (decide_eq_true hcascade)] at hrest
    rcases Option.bind_eq_some_iff.mp hrest with ⟨k, hslave, hrest⟩
    have hk := k.isLt
    have hid : p.slave.cascade.toNat = n.val := by
      rw [h.slave_cascade, hcascade]
      rfl
    rw [if_pos hid] at hrest
    have hout := Option.some.inj hrest
    rw [Prod.mk.injEq, Prod.mk.injEq] at hout
    rcases hout with ⟨rfl, rfl, rfl⟩
    have hlevel : level ⟨8 + k, by omega⟩ = 2 := dif_neg (by dsimp only; omega)
    refine ⟨?_, ?_, ?_, Or.inr ⟨k, rfl, hslave, rfl⟩⟩
    · rw [h.slave_base]
      bv_omega
    · rw [hlevel, hpending, hcascade]
    · rw [hlevel, hcascade]
  · rw [if_neg (by rw [decide_eq_true_iff]; exact hcascade)] at hrest
    have hout := Option.some.inj hrest
    rw [Prod.mk.injEq, Prod.mk.injEq] at hout
    rcases hout with ⟨rfl, rfl, rfl⟩
    have hlevel : level ⟨n, by omega⟩ = n := dif_pos n.isLt
    refine ⟨?_, ?_, ?_, Or.inl ⟨n.isLt, rfl⟩⟩
    · rw [h.master_base]
      bv_omega
    · rw [hlevel, hpending]
    · rw [hlevel]

/-- Nothing at the line of what is taken or before it is in service. -/
theorem Taken.free (h : Taken p v line p') : ∀ m ≤ level line, p.master.isr m = false :=
  (Pic.pending_iff.mp h.pending).2.2.2

/-- Controllers as the firmware leaves them: nothing in service, everything masked. -/
def demoFirmware : Pics :=
  let p : Pic := ⟨fun _ => false, fun _ => false, 0xFF, 8, 0, false, true, 1, .ready⟩
  ⟨p, p⟩

/-- The requests of a disk and of the timer, then the timer taken and ended, then the disk. -/
def demoRequested : Pics := ((picInit demoFirmware).request 14).request 0

def demoTimer : Pics := { demoRequested with master := demoRequested.master.taken 0 }

def demoEnded : Pics := demoTimer.out pic1Command picEOI

def demoDisk : Pics := ⟨demoEnded.master.taken 2, demoEnded.slave.taken 6⟩

theorem demoEnded_programmed : Programmed demoEnded :=
  ⟨rfl, rfl, rfl, rfl, by decide, by decide, rfl⟩

/-- **`pic_eoi`.** With the line in EAX it ends just what was taken: what is in service is as
it was before. -/
theorem picEoi_acknowledge (p : Pics) (hprog : Programmed p)
    (hack : p.acknowledge = some (v, line, p')) :
    (picEoi (BitVec.ofNat 32 line) p').master.isr = p.master.isr ∧
      (picEoi (BitVec.ofNat 32 line) p').slave.isr = p.slave.isr := by
  have htaken := hprog.acknowledge hack
  have hmaster : (p'.master.command picEOI).isr = p.master.isr := by
    rw [htaken.master]
    exact Pic.command_eoi_taken hprog.master_auto htaken.free
  have hline := line.isLt
  rcases htaken.slave with ⟨hlow, hslave⟩ | ⟨k, hk, hpending, hslave⟩
  · have htest : (BitVec.ofNat 32 line.val).ult 8 = true := by
      rw [BitVec.ult, decide_eq_true_iff, toNat_ofNat_of_lt (by omega)]
      exact hlow
    rw [picEoi, if_pos htest]
    exact ⟨hmaster, congrArg Pic.isr hslave⟩
  · have htest : ¬ (BitVec.ofNat 32 line.val).ult 8 = true := by
      rw [BitVec.ult, decide_eq_true_iff, toNat_ofNat_of_lt (by omega)]
      exact fun h => by
        have hlt : line.val < 8 := h
        omega
    rw [picEoi, if_neg htest]
    refine ⟨hmaster, ?_⟩
    change (p'.slave.command picEOI).isr = p.slave.isr
    rw [hslave]
    exact Pic.command_eoi_taken hprog.slave_auto (Pic.pending_iff.mp hpending).2.2.2

theorem picEoi_acknowledge_demo :
    (picEoi (BitVec.ofNat 32 14) demoDisk).master.isr = demoEnded.master.isr ∧
      (picEoi (BitVec.ofNat 32 14) demoDisk).slave.isr = demoEnded.slave.isr :=
  picEoi_acknowledge demoEnded demoEnded_programmed
    (rfl : demoEnded.acknowledge = some (46, 14, demoDisk))

/-! ## Every step -/

variable {I : IdtImage} {s s' : IrqState} {e : IrqEvent}

/-- What is in service on the first two lines, by what the running handler has still to do. -/
def Handling (isr : Fin 8 → Bool) : Option Running → Prop
  | none => ∀ m < 2, isr m = false
  | some r => r.handler = irqHandler r.line ∧
      (r.outs = [] ∧ (∀ m < 2, isr m = false) ∨
        r.outs = [(pic1Command, picEOI)] ∧ level r.line < 2 ∧ isr (level r.line) = true ∧
          ∀ m < 2, m ≠ level r.line → isr m = false)

structure IrqInv (I : IdtImage) (s : IrqState) : Prop where
  programmed : Programmed s.pics
  gates : ∀ line : Fin 16, gateAt I s.mem (32 + line) =
    (gateAt I s.mem (32 + line)).to (I.entry (irqHandler line))
  handling : Handling s.pics.master.isr s.running

/-- What a step does to the lines in service. -/
structure IrqMoves (s : IrqState) (e : IrqEvent) (s' : IrqState) : Prop where
  kept : ∀ m, 2 ≤ m → s.pics.master.isr m = true → s'.pics.master.isr m = true
  taken : ∀ line h, e = .take line h → h = irqHandler line ∧
    (∀ m ≤ level line, s.pics.master.isr m = false) ∧ s'.pics.master.isr (level line) = true

theorem Programmed.request (h : Programmed p) (line : Fin 16) : Programmed (p.request line) := by
  rw [Pics.request]
  split
  · exact ⟨h.1, h.2, h.3, h.4, h.5, h.6, h.7⟩
  · exact ⟨h.1, h.2, h.3, h.4, h.5, h.6, h.7⟩

theorem request_isr (p : Pics) (line : Fin 16) :
    (p.request line).master.isr = p.master.isr := by
  rw [Pics.request]
  split <;> rfl

theorem Taken.programmed (h : Programmed p) (ht : Taken p v line p') : Programmed p' := by
  have hmaster := ht.master
  refine ⟨?_, ?_, ?_, ?_, ?_, ?_, ?_⟩
  · rw [hmaster]
    exact h.master_base
  · rcases ht.slave with ⟨-, hslave⟩ | ⟨k, -, -, hslave⟩
    · rw [hslave, h.slave_base]
    · rw [hslave]
      exact h.slave_base
  · rw [hmaster]
    exact h.master_cascade
  · rcases ht.slave with ⟨-, hslave⟩ | ⟨k, -, -, hslave⟩
    · rw [hslave, h.slave_cascade]
    · rw [hslave]
      exact h.slave_cascade
  · rw [hmaster]
    exact h.master_auto
  · rcases ht.slave with ⟨-, hslave⟩ | ⟨k, -, -, hslave⟩
    · rw [hslave, h.slave_auto]
    · rw [hslave]
      exact h.slave_auto
  · rw [hmaster]
    exact h.unmasked

theorem Taken.isr (h : Programmed p) (ht : Taken p v line p') :
    p'.master.isr = Function.update p.master.isr (level line) true := by
  rw [ht.master, Pic.taken]
  dsimp only
  rw [h.master_auto, if_neg Bool.false_ne_true]

/-- The writes of the handler that is meant for a line. -/
theorem irqHandler_outs (line : Fin 16) :
    (irqHandler line).outs = if level line < 2 then [(pic1Command, picEOI)] else [] := by
  revert line
  decide

/-- The write that a handler may have to do. -/
theorem eoi_programmed (h : Programmed p) {n : Fin 8} (hn : p.master.isr n = true)
    (hbefore : ∀ m < n, p.master.isr m = false) :
    Programmed (p.out pic1Command picEOI) ∧
      (p.out pic1Command picEOI).master.isr = Function.update p.master.isr n false := by
  have hout : p.out pic1Command picEOI = { p with master := p.master.clearIsr n } := by
    rw [← Pic.command_eoi hn hbefore]
    rfl
  rw [hout]
  exact ⟨⟨h.1, h.2, h.3, h.4, h.5, h.6, h.7⟩, rfl⟩

theorem IrqInv.take (h : IrqInv I s) {hd : Handler} (hstep : irqStep I s (.take line hd) s') :
    IrqInv I s' ∧ IrqMoves s (.take line hd) s' := by
  rcases hstep with ⟨hidle, v, pics, hack, hgate, rfl⟩
  have ht := h.programmed.acknowledge hack
  have hisr := ht.isr h.programmed
  have hhandler : hd = irqHandler line := by
    have hmeant := h.gates line
    rw [← ht.vector, hgate] at hmeant
    exact I.entry_inj (congrArg Gate.offset hmeant)
  have hquiet := h.handling
  rw [hidle] at hquiet
  refine ⟨⟨ht.programmed h.programmed, h.gates, hhandler, ?_⟩, ?_, ?_⟩
  · rw [hhandler, irqHandler_outs]
    dsimp only
    rw [hisr]
    by_cases hlow : level line < 2
    · rw [if_pos hlow]
      refine Or.inr ⟨rfl, hlow, Function.update_self .., ?_⟩
      intro m hm hne
      rw [Function.update_of_ne hne]
      exact hquiet m hm
    · rw [if_neg hlow]
      refine Or.inl ⟨rfl, ?_⟩
      intro m hm
      rw [Function.update_of_ne]
      · exact hquiet m hm
      · rintro rfl
        exact hlow hm
  · intro m _ hm
    dsimp only
    rw [hisr, Function.update_apply, hm, ite_self]
  · rintro line' h' heq
    cases heq
    dsimp only
    rw [hisr, Function.update_self]
    exact ⟨hhandler, ht.free, rfl⟩

theorem IrqInv.step (h : IrqInv I s) (hstep : irqStep I s e s') :
    IrqInv I s' ∧ IrqMoves s e s' := by
  cases e with
  | request line =>
      rcases hstep with ⟨-, rfl⟩
      refine ⟨⟨h.programmed.request line, h.gates, ?_⟩, ?_, nofun⟩
      · dsimp only
        rw [request_isr]
        exact h.handling
      · intro m _ hm
        dsimp only
        rw [request_isr, hm]
  | take line hd => exact h.take hstep
  | out =>
      rcases hstep with ⟨line, hd, w, ws, hrun, rfl⟩
      have hhandling := h.handling
      rw [hrun] at hhandling
      rcases hhandling with ⟨hhandler, ⟨hnil, -⟩ | ⟨houts, hlow, hin, hother⟩⟩
      · cases hnil
      · rcases List.cons_eq_cons.mp houts with ⟨rfl, rfl⟩
        have hbefore : ∀ m < level line, s.pics.master.isr m = false :=
          fun m hm => hother m (lt_trans hm hlow) (ne_of_lt hm)
        rcases eoi_programmed h.programmed hin hbefore with ⟨hprog, hisr⟩
        refine ⟨⟨hprog, h.gates, hhandler, Or.inl ⟨rfl, ?_⟩⟩, ?_, nofun⟩
        · intro m hm
          dsimp only
          rw [hisr, Function.update_apply]
          split
          · rfl
          · next hne => exact hother m hm hne
        · intro m hm2 hm
          have hne : m ≠ level line := by
            rintro rfl
            exact absurd hlow (not_lt.mpr hm2)
          dsimp only
          rw [hisr, Function.update_of_ne hne, hm]
  | iret =>
      rcases hstep with ⟨line, hd, hrun, rfl⟩
      have hhandling := h.handling
      rw [hrun] at hhandling
      rcases hhandling with ⟨-, ⟨-, hquiet⟩ | ⟨houts, -⟩⟩
      · exact ⟨⟨h.programmed, h.gates, hquiet⟩, fun _ _ hm => hm, nofun⟩
      · cases houts

/-! ## Runs -/

/-- After `pic_init` and `idt_setup`, with nothing in service before. -/
structure IrqStarted (I : IdtImage) (s : IrqState) : Prop where
  table : ∃ fuel m, I.Loaded m ∧ idtSetup I fuel m = some s.mem
  pics : ∃ p : Pics, (∀ n, p.master.isr n = false) ∧ s.pics = picInit p
  idle : s.running = none

theorem handlerAt_line (line : Fin 16) : handlerAt (32 + line) = some (irqHandler line) := by
  revert line
  decide

theorem IrqStarted.inv (h : IrqStarted I s) : IrqInv I s := by
  rcases h.table with ⟨fuel, m, hload, hsetup⟩
  rcases h.pics with ⟨p, hservice, hpics⟩
  have hset := idtSetup_set hload hsetup
  refine ⟨?_, ?_, ?_⟩
  · rw [hpics]
    exact picInit_programmed p
  · intro line
    have hline := line.isLt
    have hgate := hset.gate (32 + line) (by omega)
    rw [handlerAt_line] at hgate
    change gateAt I s.mem (32 + line) = (gateAt I m (32 + line)).to _ at hgate
    rw [hgate]
    rfl
  · rw [h.idle, hpics, picInit_isr]
    exact fun m _ => hservice m

def demoIrqEvents : List IrqEvent :=
  [.request 14, .request 0, .take 0 .pitIrq, .out, .iret, .take 14 .ataPrimaryIrq, .iret]

theorem demoIrq_run : ∃ s, IrqStarted demoIdt s ∧ ∃ r, Run (irqStep demoIdt) s r ∧
    r.map Prod.fst = demoIrqEvents := by
  rcases idtSetup_total demoIdtMem_loaded with ⟨m, -, htotal⟩
  have hstart : IrqStarted demoIdt ⟨m, picInit demoFirmware, none⟩ :=
    ⟨⟨32, demoIdtMem, demoIdtMem_loaded, htotal 32 le_rfl⟩, ⟨demoFirmware, fun _ => rfl, rfl⟩, rfl⟩
  have hgate := hstart.inv.gates
  have hrequest : irqStep demoIdt ⟨m, (picInit demoFirmware).request 14, none⟩ (.request 0)
      ⟨m, demoRequested, none⟩ := ⟨by decide, rfl⟩
  have hack : demoRequested.acknowledge = some (32, 0, demoTimer) := rfl
  have hack' : demoEnded.acknowledge = some (46, 14, demoDisk) := rfl
  have htimer : irqStep demoIdt ⟨m, demoRequested, none⟩ (.take 0 .pitIrq)
      ⟨m, demoTimer, some ⟨0, .pitIrq, [(pic1Command, picEOI)]⟩⟩ :=
    ⟨rfl, 32, demoTimer, hack, hgate 0, rfl⟩
  have hended : irqStep demoIdt ⟨m, demoTimer, some ⟨0, .pitIrq, [(pic1Command, picEOI)]⟩⟩ .out
      ⟨m, demoEnded, some ⟨0, .pitIrq, []⟩⟩ := ⟨0, .pitIrq, (pic1Command, picEOI), [], rfl, rfl⟩
  have hdisk : irqStep demoIdt ⟨m, demoEnded, none⟩ (.take 14 .ataPrimaryIrq)
      ⟨m, demoDisk, some ⟨14, .ataPrimaryIrq, []⟩⟩ :=
    ⟨rfl, 46, demoDisk, hack', hgate 14, rfl⟩
  exact ⟨⟨m, picInit demoFirmware, none⟩, hstart, Run.exists_cons ⟨by decide, rfl⟩
    (Run.exists_cons hrequest (Run.exists_cons htimer (Run.exists_cons hended
      (Run.exists_cons ⟨0, .pitIrq, rfl, rfl⟩ (Run.exists_cons hdisk
        (Run.exists_cons ⟨14, .ataPrimaryIrq, rfl, rfl⟩ ⟨[], trivial, rfl⟩))))))⟩

/-- **Handlers.** In every run each interrupt that is taken gets the handler of its line. -/
theorem irqRun_handlers (I : IdtImage) (s : IrqState) (r : List (IrqEvent × IrqState))
    (hstart : IrqStarted I s) (hrun : Run (irqStep I) s r) :
    ∀ line h s', (.take line h, s') ∈ r → h = irqHandler line := by
  have hall : ∀ (r : List (IrqEvent × IrqState)) s, IrqInv I s → Run (irqStep I) s r →
      ∀ line h s', (.take line h, s') ∈ r → h = irqHandler line := by
    intro r
    induction r with
    | nil =>
        intro s _ _ line h s' hmem
        cases hmem
    | cons x r ih =>
        obtain ⟨e, s₁⟩ := x
        intro s hinv hrun line h s' hmem
        rcases hinv.step hrun.1 with ⟨hinv₁, hmoves⟩
        rcases List.mem_cons.mp hmem with heq | hmem
        · exact (hmoves.taken line h (Prod.mk.inj heq).1.symm).1
        · exact ih s₁ hinv₁ hrun.2 line h s' hmem
  exact hall r s hstart.inv hrun

theorem irqRun_handlers_demo : ∃ r : List (IrqEvent × IrqState),
    r.map Prod.fst = demoIrqEvents ∧
      ∀ line h s', (.take line h, s') ∈ r → h = irqHandler line := by
  rcases demoIrq_run with ⟨s, hstart, r, hrun, hfst⟩
  exact ⟨r, hfst, irqRun_handlers demoIdt s r hstart hrun⟩

/-- The lines of the master by which interrupts came in that are not the timer's or the
keyboard's. -/
def irqLevels (r : List (IrqEvent × IrqState)) : List (Fin 8) :=
  r.filterMap fun x =>
    match x.1 with
    | .take line _ => if 2 ≤ level line then some (level line) else none
    | _ => none

/-- **Lines that go dead.** In every run the interrupts other than the timer's and the
keyboard's come in by ever earlier lines: whichever is taken, it and all behind it are not
taken again. So there are at most six of them. -/
theorem irqRun_levels (I : IdtImage) (s : IrqState) (r : List (IrqEvent × IrqState))
    (hstart : IrqStarted I s) (hrun : Run (irqStep I) s r) :
    (irqLevels r).Pairwise (· > ·) ∧ (irqLevels r).length ≤ 6 := by
  have hall : ∀ (r : List (IrqEvent × IrqState)) s, IrqInv I s → Run (irqStep I) s r →
      (irqLevels r).Pairwise (· > ·) ∧
        ∀ l ∈ irqLevels r, 2 ≤ l ∧ ∀ m, 2 ≤ m → s.pics.master.isr m = true → l < m := by
    intro r
    induction r with
    | nil => exact fun _ _ _ => ⟨.nil, nofun⟩
    | cons x r ih =>
        obtain ⟨e, s₁⟩ := x
        intro s hinv hrun
        rcases hinv.step hrun.1 with ⟨hinv₁, hmoves⟩
        rcases ih s₁ hinv₁ hrun.2 with ⟨hpair, hbelow⟩
        have hrest : ∀ l ∈ irqLevels r, 2 ≤ l ∧
            ∀ m, 2 ≤ m → s.pics.master.isr m = true → l < m := fun l hl =>
          ⟨(hbelow l hl).1, fun m hm2 hm => (hbelow l hl).2 m hm2 (hmoves.kept m hm2 hm)⟩
        cases e with
        | request line => exact ⟨hpair, hrest⟩
        | out => exact ⟨hpair, hrest⟩
        | iret => exact ⟨hpair, hrest⟩
        | take line h =>
            rcases hmoves.taken line h rfl with ⟨-, hfree, hin⟩
            rw [irqLevels, List.filterMap_cons]
            dsimp only
            by_cases hlevel : 2 ≤ level line
            · rw [if_pos hlevel]
              refine ⟨List.pairwise_cons.mpr ⟨?_, hpair⟩, ?_⟩
              · exact fun l hl => (hbelow l hl).2 _ hlevel hin
              · intro l hl
                rcases List.mem_cons.mp hl with rfl | hl
                · refine ⟨hlevel, ?_⟩
                  intro m _ hm
                  by_contra hle
                  rw [hfree m (not_lt.mp hle)] at hm
                  cases hm
                · exact hrest l hl
            · rw [if_neg hlevel]
              exact ⟨hpair, hrest⟩
  rcases hall r s hstart.inv hrun with ⟨hpair, hbelow⟩
  refine ⟨hpair, ?_⟩
  have hnodup : (irqLevels r).Nodup := hpair.imp ne_of_gt
  have hsub : (irqLevels r).toFinset ⊆ Finset.Icc 2 7 := by
    intro l hl
    exact Finset.mem_Icc.mpr ⟨(hbelow l (List.mem_toFinset.mp hl)).1, Fin.le_last l⟩
  rw [← List.toFinset_card_of_nodup hnodup]
  exact Finset.card_le_card hsub

theorem irqRun_levels_demo : ∃ r : List (IrqEvent × IrqState),
    r.map Prod.fst = demoIrqEvents ∧
      (irqLevels r).Pairwise (· > ·) ∧ (irqLevels r).length ≤ 6 := by
  rcases demoIrq_run with ⟨s, hstart, r, hrun, hfst⟩
  exact ⟨r, hfst, irqRun_levels demoIdt s r hstart hrun⟩

/-- **Served lines.** In every state of a run in which nothing is being handled, a request of
the timer, or of the keyboard when the timer has none, can be taken. -/
theorem irqRun_served (I : IdtImage) (s : IrqState) (r : List (IrqEvent × IrqState))
    (hstart : IrqStarted I s) (hrun : Run (irqStep I) s r) :
    ∀ x ∈ r, x.2.running = none → ∀ line : Fin 16, (hline : line.val < 2) →
      x.2.pics.master.irr ⟨line, by omega⟩ = true →
      (∀ m : Fin 8, m.val < line → x.2.pics.master.irr m = false) →
      ∃ s', irqStep I x.2 (.take line (irqHandler line)) s' := by
  intro x hx hidle line hline hreq hbefore
  have hinv : IrqInv I x.2 := Run.invariant (IrqInv I) (fun _ _ _ hs hst => (hs.step hst).1)
    hstart.inv hrun x hx
  have hquiet := hinv.handling
  rw [hidle] at hquiet
  have hcascade : ∀ m : Fin 8, m.val < 2 → x.2.pics.master.cascade.getLsbD m = false := by
    intro m hm
    rw [hinv.programmed.cascaded m, decide_eq_false_iff_not]
    rintro rfl
    exact absurd hm (by decide)
  have hpending : x.2.pics.front.pending = some ⟨line, by omega⟩ := by
    refine Pic.pending_iff.mpr ⟨?_, ?_, ?_, ?_⟩
    · change (x.2.pics.master.irr _ || _) = true
      rw [hreq, Bool.true_or]
    · change x.2.pics.master.imr.getLsbD line = false
      rw [hinv.programmed.unmasked]
      exact BitVec.getLsbD_zero
    · intro m hm hreqm
      change (x.2.pics.master.irr m || _ && _) = true at hreqm
      have hlt : m.val < line := hm
      rw [hbefore m hlt, hcascade m (by omega)] at hreqm
      cases hreqm
    · intro m hm
      have hle : m.val ≤ line := hm
      exact hquiet m (Fin.lt_def.mpr (lt_of_le_of_lt hle hline))
  have hack : ∃ v pics, x.2.pics.acknowledge = some (v, line, pics) := by
    rw [Pics.acknowledge, hpending]
    dsimp only [Option.bind_eq_bind, Option.bind_some]
    rw [hcascade ⟨line, by omega⟩ hline, if_neg Bool.false_ne_true]
    exact ⟨_, _, rfl⟩
  rcases hack with ⟨v, pics, hack⟩
  refine ⟨_, hidle, v, pics, hack, ?_, rfl⟩
  rw [(hinv.programmed.acknowledge hack).vector]
  exact hinv.gates line

theorem irqRun_served_demo : ∃ r : List (IrqEvent × IrqState),
    r.map Prod.fst = demoIrqEvents ∧
      ∀ x ∈ r, x.2.running = none → ∀ line : Fin 16, (hline : line.val < 2) →
        x.2.pics.master.irr ⟨line, by omega⟩ = true →
        (∀ m : Fin 8, m.val < line → x.2.pics.master.irr m = false) →
        ∃ s', irqStep demoIdt x.2 (.take line (irqHandler line)) s' := by
  rcases demoIrq_run with ⟨s, hstart, r, hrun, hfst⟩
  exact ⟨r, hfst, irqRun_served demoIdt s r hstart hrun⟩

end StupidOS.Kernel
