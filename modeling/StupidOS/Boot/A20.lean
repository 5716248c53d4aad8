import StupidOS.Boot.Bios

/-!
# The A20 line (`boot/loader/a20.inc`)

`a20_enable` tries the keyboard controller, the BIOS and port 0x92, and looks at the line after
each of them. The machine is a keyboard controller that takes its time over each byte, port 0x92,
and a memory in which bit 20 of an address counts when the line is open; `wire` is what the two
ports make of the line.

* `a20EnableKeyboardController_returns`: what the keyboard controller is left with;
* `a20Enable_reports`: when the processor is reset, and else what the carry flag says of the line;
* `a20Enable_opens_iff`: when the line is opened.
-/

namespace StupidOS.Boot.A20

/-! ## The keyboard controller -/

structure Kbc where
  outputPort : Byte
  disabled : Bool
  /-- What is to be read at port 0x60. -/
  output : Option Byte
  /-- What will be next. -/
  answer : Option Byte
  /-- The next byte is for the output port. -/
  expects : Bool
  /-- How often the status is read until the last byte is taken. -/
  busy : Nat
  /-- The same for the bytes to come. -/
  delays : Nat → Nat
  given : Nat
  /-- Bit 0 of the output port was cleared: the processor is reset. -/
  reset : Bool

namespace Kbc

/-- Between two reads of the status. -/
def tick (k : Kbc) : Kbc :=
  let k := { k with busy := k.busy - 1 }
  if k.busy = 0 ∧ k.output = none then { k with output := k.answer, answer := none } else k

/-- Port 0x64 -/
def status (k : Kbc) : Byte :=
  (if k.output.isSome then 1 else 0) ||| (if k.busy = 0 then 0 else 2)

/-- A byte is given to the controller. -/
def give (k : Kbc) : Kbc := { k with busy := k.delays k.given, given := k.given + 1 }

/-- `out 0x64, al`. A byte that is given too early is lost. -/
def command (al : Byte) (k : Kbc) : Option Kbc :=
  if k.busy ≠ 0 then none
  else if al = 0xAD then some { k.give with disabled := true }
  else if al = 0xAE then some { k.give with disabled := false }
  else if al = 0xD0 then some { k.give with answer := some k.outputPort }
  else if al = 0xD1 then some { k.give with expects := true }
  else some k.give

/-- `out 0x60, al` -/
def data (al : Byte) (k : Kbc) : Option Kbc :=
  if k.busy ≠ 0 then none
  else if k.expects then
    some { k.give with
      outputPort := al
      expects := false
      reset := k.reset || !al.getLsbD 0 }
  else some k.give

/-- `in al, 0x60` -/
def read (k : Kbc) : Option (Byte × Kbc) := k.output.map (·, { k with output := none })

end Kbc

/-! ## The routines -/

section Routines

def io1Pass (k : Kbc) : Option (Pass Kbc Kbc) :=
  let k := k.tick
  some (if k.status &&& 2 = 0 then .done k else .again k)

/-- `.wait_io1` -/
def waitIo1 (fuel : Nat) (k : Kbc) : Option Kbc := iterate io1Pass fuel k

def io2Pass (k : Kbc) : Option (Pass Kbc Kbc) :=
  let k := k.tick
  some (if k.status &&& 1 = 0 then .again k else .done k)

/-- `.wait_io2` -/
def waitIo2 (fuel : Nat) (k : Kbc) : Option Kbc := iterate io2Pass fuel k

/-- `a20_enable_keyboard_controller` -/
def a20EnableKeyboardController (fuel : Nat) (k : Kbc) : Option Kbc := do
  let k ← waitIo1 fuel k
  let k ← k.command 0xAD
  let k ← waitIo1 fuel k
  let k ← k.command 0xD0
  let k ← waitIo2 fuel k
  let (al, k) ← k.read
  let k ← waitIo1 fuel k
  let k ← k.command 0xD1
  let k ← waitIo1 fuel k
  let k ← k.data (al ||| 2)
  let k ← waitIo1 fuel k
  let k ← k.command 0xAE
  waitIo1 fuel k

/-- The keyboard controller, port 0x92, and the memory by physical address. -/
structure Pc where
  kbc : Kbc
  port92 : Byte
  mem : Bytes

/-- What `int 0x15` does. -/
structure Firmware where
  /-- CF, AX and BX after 0x2403 in AX -/
  query : Bool × Half × Half
  /-- CF and AX after 0x2401, and what becomes of the output port and of port 0x92 -/
  enable : Byte → Byte → (Bool × Half) × (Byte × Byte)

/-- `int 0x15` with 0x2401 in AX -/
def Pc.asked (fw : Firmware) (pc : Pc) : Pc :=
  { pc with
    kbc := { pc.kbc with outputPort := (fw.enable pc.kbc.outputPort pc.port92).2.1 }
    port92 := (fw.enable pc.kbc.outputPort pc.port92).2.2 }

variable (wire : Byte → Byte → Bool)

namespace Pc

/-- The line is open. -/
def opened (pc : Pc) : Bool := wire pc.kbc.outputPort pc.port92

/-- Where an address goes. -/
def place (pc : Pc) (x : Nat) : Nat := if pc.opened wire then x else x - x / 2 ^ 20 % 2 * 2 ^ 20

def load (pc : Pc) (x : Nat) : Byte := pc.mem (pc.place wire x)

def store (pc : Pc) (x : Nat) (al : Byte) : Pc :=
  { pc with mem := Function.update pc.mem (pc.place wire x) al }

end Pc

variable (bufferBelowMB : Half)

/-- `a20_get_state`: AX. The flags are popped as they were. -/
def a20GetState (pc : Pc) : Half × Pc :=
  let dssi := linear 0 0x500
  let esdi := linear 0xFFFF 0x510
  let below := linear 0 bufferBelowMB
  let above := linear 0 (bufferBelowMB + 1)
  let pc := pc.store wire below (pc.load wire dssi)
  let pc := pc.store wire above (pc.load wire esdi)
  let pc := pc.store wire dssi 0
  let pc := pc.store wire esdi 1
  let ah : Byte := if pc.load wire dssi ≠ pc.load wire esdi then 1 else 0
  let pc := pc.store wire dssi (pc.load wire below)
  let pc := pc.store wire esdi (pc.load wire above)
  (ah.setWidth 16, pc)

variable (fw : Firmware)

/-- `a20_query_support`: AX. What the carry flag is then is not looked at. -/
def a20QuerySupport : Half :=
  let (carry, ax, bx) := fw.query
  if carry then ax
  else
    let ah : Byte := ax.extractLsb' 8 8
    if ah ≠ 0 then ax else bx

/-- BL of `a20_enable`: the gates that the BIOS knows of. -/
def Firmware.gates (fw : Firmware) : Byte := (a20QuerySupport fw).setWidth 8

/-- Where `a20_enable` goes on. -/
inductive Gate
  | fastGate
  | keyboardController

/-- `.fast_gate` and `.keybord_controller`, with BH. -/
def gatePass (fuel : Nat) (bl : Byte) (t : Gate × Byte × Pc) :
    Option (Pass (Gate × Byte × Pc) (Bool × Pc)) := do
  let (gate, bh, pc) := t
  match gate with
  | .fastGate =>
    let al := pc.port92
    if al &&& 2 ≠ 0 then return .done (false, pc)
    let pc := { pc with port92 := (al ||| 2) &&& 0xFE }
    let (ax, pc) := a20GetState wire bufferBelowMB pc
    if ax ≠ 0 then return .done (false, pc)
    if bh ≠ 0 then return .done (true, pc)
    return .again (.keyboardController, bh, pc)
  | .keyboardController =>
    let kbc ← a20EnableKeyboardController fuel pc.kbc
    let (ax, pc) := a20GetState wire bufferBelowMB { pc with kbc := kbc }
    if ax ≠ 0 then return .done (false, pc)
    if bl &&& 2 ≠ 0 then return .again (.fastGate, 1, pc)
    return .done (true, pc)

/-- The gates, from one of them on. -/
def tryGates (fuel : Nat) (bl : Byte) (gate : Gate) (pc : Pc) : Option (Bool × Pc) :=
  iterate (gatePass wire bufferBelowMB fuel bl) fuel (gate, 0, pc)

/-- `.bios_int` -/
def biosInt (fuel : Nat) (bl : Byte) (pc : Pc) : Option (Bool × Pc) :=
  let (carry, ax) := (fw.enable pc.kbc.outputPort pc.port92).1
  let pc := pc.asked fw
  let ah : Byte := ax.extractLsb' 8 8
  if carry then tryGates wire bufferBelowMB fuel bl .fastGate pc
  else if ah ≠ 0 then some (true, pc)
  else
    let (ax, pc) := a20GetState wire bufferBelowMB pc
    if ax ≠ 0 then some (false, pc) else tryGates wire bufferBelowMB fuel bl .fastGate pc

/-- `a20_enable`: the carry flag. -/
def a20Enable (fuel : Nat) (pc : Pc) : Option (Bool × Pc) :=
  -- `jc .fast_gate` is not taken: the carry flag was cleared
  let (ax, pc) := a20GetState wire bufferBelowMB pc
  if ax ≠ 0 then some (false, pc)
  else
    let bl := fw.gates
    if bl &&& 1 ≠ 0 then tryGates wire bufferBelowMB fuel bl .keyboardController pc
    else if bl &&& 2 ≠ 0 then tryGates wire bufferBelowMB fuel bl .fastGate pc
    else biosInt wire bufferBelowMB fw fuel bl pc

end Routines

/-! ## Waiting for the controller -/

section Waiting

variable {k : Kbc}

namespace Kbc

/-- When the last byte is taken. -/
def settled (k : Kbc) : Kbc :=
  if k.output = none then { k with busy := 0, output := k.answer, answer := none }
  else { k with busy := 0 }

theorem tick_settles (h : k.busy ≤ 1) : k.tick = k.settled := by
  have hzero : k.busy - 1 = 0 := by omega
  rw [tick, settled, hzero]
  dsimp only
  by_cases hnone : k.output = none
  · rw [if_pos ⟨rfl, hnone⟩, if_pos hnone]
  · rw [if_neg fun h => hnone h.2, if_neg hnone]

theorem tick_busy (h : 1 < k.busy) : k.tick = { k with busy := k.busy - 1 } :=
  if_neg fun hnow => absurd hnow.1 (show k.busy - 1 ≠ 0 by omega)

theorem settled_busy (k : Kbc) : k.settled.busy = 0 := by
  rw [settled]
  split <;> rfl

theorem settled_eq (hanswer : k.answer = none) : k.settled = { k with busy := 0 } := by
  rw [settled]
  split
  next hnone =>
    cases k
    dsimp only at hanswer hnone
    rw [hanswer, hnone]
  next => rfl

theorem status_input (k : Kbc) : k.status &&& 2 = 0 ↔ k.busy = 0 := by
  rw [status]
  by_cases hbusy : k.busy = 0 <;> cases k.output <;> simp [hbusy]

theorem status_output (k : Kbc) : k.status &&& 1 = 0 ↔ k.output = none := by
  rw [status]
  by_cases hbusy : k.busy = 0 <;> cases k.output <;> simp [hbusy]

end Kbc

theorem io1Pass_done (h : k.busy ≤ 1) : io1Pass k = some (.done k.settled) := by
  rw [io1Pass, Kbc.tick_settles h, if_pos ((Kbc.status_input _).mpr k.settled_busy)]

theorem io1Pass_again (h : 1 < k.busy) :
    io1Pass k = some (.again { k with busy := k.busy - 1 }) := by
  have hmore : ({ k with busy := k.busy - 1 } : Kbc).status &&& 2 ≠ 0 := by
    rw [Ne, Kbc.status_input]
    dsimp only
    omega
  rw [io1Pass, Kbc.tick_busy h, if_neg hmore]

theorem waitIo1_returns (k : Kbc) : Returns (waitIo1 · k) k.settled := by
  refine returns_iterate (n := k.busy + 1) ?_
  generalize hb : k.busy = b
  induction b generalizing k with
  | zero => exact iterate_done (io1Pass_done (by omega)) 0
  | succ b ih =>
      by_cases hlast : k.busy ≤ 1
      · exact iterate_done (io1Pass_done hlast) _
      · refine (iterate_again (io1Pass_again (by omega)) _).trans
          (ih { k with busy := k.busy - 1 } ?_)
        dsimp only
        omega

/-- What is waiting at port 0x60 is read at once. -/
theorem waitIo2_waiting {al : Byte} (h : k.output = some al) :
    Returns (waitIo2 · k) { k with busy := k.busy - 1 } := by
  refine returns_iterate (n := 1) (iterate_done ?_ 0)
  have htick : k.tick = { k with busy := k.busy - 1 } := by
    refine if_neg fun hnow => ?_
    rw [show k.output = none from hnow.2] at h
    cases h
  have hready : ({ k with busy := k.busy - 1 } : Kbc).status &&& 1 ≠ 0 := by
    rw [Ne, Kbc.status_output]
    dsimp only
    rw [h]
    exact Option.some_ne_none al
  rw [io2Pass, htick, if_neg hready]

/-- Else the answer, once it is there. -/
theorem waitIo2_answer {al : Byte} (h : k.output = none) (hanswer : k.answer = some al) :
    Returns (waitIo2 · k) { k with busy := 0, output := some al, answer := none } := by
  have hsettled : ∀ k : Kbc, k.output = none → k.answer = some al →
      k.settled = { k with busy := 0, output := some al, answer := none } := by
    intro k h hanswer
    rw [Kbc.settled, if_pos h, hanswer]
  refine returns_iterate (n := k.busy + 1) ?_
  generalize hb : k.busy = b
  have hdone : ∀ k : Kbc, k.output = none → k.answer = some al → k.busy ≤ 1 → io2Pass k
      = some (.done { k with busy := 0, output := some al, answer := none }) := by
    intro k h hanswer hbusy
    have hready : ({ k with busy := 0, output := some al, answer := none } : Kbc).status &&& 1
        ≠ 0 := by
      rw [Ne, Kbc.status_output]
      exact Option.some_ne_none al
    rw [io2Pass, Kbc.tick_settles hbusy, hsettled k h hanswer, if_neg hready]
  induction b generalizing k with
  | zero => exact iterate_done (hdone k h hanswer (by omega)) 0
  | succ b ih =>
      by_cases hlast : k.busy ≤ 1
      · exact iterate_done (hdone k h hanswer hlast) _
      · have hempty : ({ k with busy := k.busy - 1 } : Kbc).status &&& 1 = 0 :=
          (Kbc.status_output _).mpr h
        have hwait : io2Pass k = some (.again { k with busy := k.busy - 1 }) := by
          rw [io2Pass, Kbc.tick_busy (by omega), if_pos hempty]
        refine (iterate_again hwait _).trans (ih (k := { k with busy := k.busy - 1 }) h hanswer ?_)
        dsimp only
        omega

end Waiting

/-! ## The keyboard controller is asked for the line -/

section Gated

variable {k : Kbc}

namespace Kbc

/-- The controller is neither about to answer nor waiting for a byte. -/
structure Idle (k : Kbc) : Prop where
  answer : k.answer = none
  expects : k.expects = false

/-- What is read for the output port: a scan code, if one is waiting. -/
def readPort (k : Kbc) : Byte := k.output.getD k.outputPort

/-- Afterwards. If a scan code was read for it, the output port is still to be read. -/
def gated (k : Kbc) : Kbc :=
  { k with
    outputPort := k.readPort ||| 2
    disabled := false
    output := k.output.map fun _ => k.outputPort
    busy := 0
    given := k.given + 5
    reset := k.reset || !k.readPort.getLsbD 0 }

end Kbc

/-- Once the last byte is taken and nothing is to be answered. -/
theorem waitIo1_idle (h : k.answer = none) : Returns (waitIo1 · k) { k with busy := 0 } := by
  have hreturns := waitIo1_returns k
  rw [Kbc.settled_eq h] at hreturns
  exact hreturns

/-- What is read for the output port once it was asked for. -/
theorem waitIo2_port (h : k.answer = some k.outputPort) : ∃ k₁ k₂, Returns (waitIo2 · k) k₁ ∧
    k₁.read = some (k.readPort, k₂) ∧ k₂.settled = { k with
      busy := 0
      output := k.output.map fun _ => k.outputPort
      answer := none } := by
  cases hout : k.output with
  | none =>
      refine ⟨_, { k with busy := 0, output := none, answer := none }, waitIo2_answer hout h,
        ?_, ?_⟩
      · rw [Kbc.readPort, hout]
        rfl
      · rw [Kbc.settled_eq rfl]
        rfl
  | some al =>
      refine ⟨_, { k with busy := k.busy - 1, output := none }, waitIo2_waiting hout, ?_, ?_⟩
      · rw [Kbc.readPort, Kbc.read, hout]
        rfl
      · rw [Kbc.settled, if_pos rfl, h]
        rfl

theorem a20EnableKeyboardController_returns (h : k.Idle) :
    Returns (a20EnableKeyboardController · k) k.gated := by
  simp only [a20EnableKeyboardController, Option.bind_eq_bind]
  refine (waitIo1_idle h.answer).bind ?_
  refine Returns.some_bind (s := { k with
    busy := k.delays k.given, given := k.given + 1, disabled := true }) rfl ?_
  refine Returns.bind (waitIo1_idle ?_) ?_
  · exact h.answer
  refine Returns.some_bind (s := { k with
    busy := k.delays (k.given + 1), given := k.given + 2, disabled := true
    answer := some k.outputPort }) rfl ?_
  rcases waitIo2_port (k := { k with
    busy := k.delays (k.given + 1), given := k.given + 2, disabled := true
    answer := some k.outputPort }) rfl with ⟨k₁, k₂, hwait, hread, hsettled⟩
  refine hwait.bind (Returns.some_bind hread ?_)
  have hport := waitIo1_returns k₂
  rw [hsettled] at hport
  refine hport.bind ?_
  refine Returns.some_bind (s := { k with
    busy := k.delays (k.given + 2), given := k.given + 3, disabled := true
    output := k.output.map fun _ => k.outputPort, answer := none, expects := true }) rfl ?_
  refine Returns.bind (waitIo1_idle ?_) ?_
  · rfl
  refine Returns.some_bind (s := { k with
    busy := k.delays (k.given + 3), given := k.given + 4, disabled := true
    output := k.output.map fun _ => k.outputPort, answer := none, expects := false
    outputPort := k.readPort ||| 2
    reset := k.reset || !(k.readPort ||| 2).getLsbD 0 }) rfl ?_
  refine Returns.bind (waitIo1_idle ?_) ?_
  · rfl
  refine Returns.some_bind (s := { k with
    busy := k.delays (k.given + 4), given := k.given + 5, disabled := false
    output := k.output.map fun _ => k.outputPort, answer := none, expects := false
    outputPort := k.readPort ||| 2
    reset := k.reset || !(k.readPort ||| 2).getLsbD 0 }) rfl ?_
  have hgated : k.gated = { k with
    busy := 0, given := k.given + 5, disabled := false
    output := k.output.map fun _ => k.outputPort, answer := none, expects := false
    outputPort := k.readPort ||| 2
    reset := k.reset || !(k.readPort ||| 2).getLsbD 0 } := by
    rw [Kbc.gated, h.answer, h.expects]
    congr 2
    simp
  rw [hgated]
  exact waitIo1_idle rfl

end Gated

/-! ## The state of the line -/

section State

variable {wire : Byte → Byte → Bool} {bufferBelowMB : Half} {pc : Pc}

/-- The two buffers are in the loader. -/
def InLoader (bufferBelowMB : Half) : Prop :=
  0x1000 ≤ bufferBelowMB.toNat ∧ bufferBelowMB.toNat < 0xFFFF

namespace Pc

/-- Where the byte at 1 MiB + 0x500 is. -/
theorem place_over (wire : Byte → Byte → Bool) (pc : Pc) :
    pc.place wire 0x100500 = if pc.opened wire then 0x100500 else 0x500 := rfl

theorem place_low {x : Nat} (hx : x < 2 ^ 20) : pc.place wire x = x := by
  rw [place]
  split
  next => rfl
  next => omega

/-- The two bytes are in the buffers. -/
def looked (wire : Byte → Byte → Bool) (bufferBelowMB : Half) (pc : Pc) : Pc :=
  { pc with
    mem := Function.update (Function.update pc.mem bufferBelowMB.toNat (pc.mem 0x500))
      (bufferBelowMB.toNat + 1) (pc.mem (pc.place wire 0x100500)) }

end Pc

theorem a20GetState_eq (hbuffer : InLoader bufferBelowMB) :
    a20GetState wire bufferBelowMB pc
      = (if pc.opened wire then 1 else 0, pc.looked wire bufferBelowMB) := by
  have hbelow : linear 0 bufferBelowMB = bufferBelowMB.toNat := Nat.zero_add _
  have hover : linear 0 (bufferBelowMB + 1) = bufferBelowMB.toNat + 1 := by
    have hlt := hbuffer.2
    rw [linear]
    bv_omega
  have hlow : linear 0 0x500 = 0x500 := rfl
  have hhigh : linear 0xFFFF 0x510 = 0x100500 := rfl
  rcases hbuffer with ⟨hge, hlt⟩
  rw [Pc.looked]
  generalize bufferBelowMB.toNat = b at *
  have hplace : ∀ m x, Pc.place wire ⟨pc.kbc, pc.port92, m⟩ x = pc.place wire x := fun _ _ => rfl
  have hb : pc.place wire b = b := Pc.place_low (by omega)
  have hb1 : pc.place wire (b + 1) = b + 1 := Pc.place_low (by omega)
  have h500 : pc.place wire 0x500 = 0x500 := Pc.place_low (by decide)
  simp only [a20GetState, hbelow, hover, hlow, hhigh, Pc.store, Pc.load, hplace, hb, hb1, h500,
    Pc.place_over]
  cases hopen : pc.opened wire with
  | true =>
      refine Prod.ext ?_ (congrArg (Pc.mk pc.kbc pc.port92) (funext fun x => ?_))
      · simp [Function.update_apply]
      · simp only [Function.update_apply]
        grind
  | false =>
      refine Prod.ext ?_ (congrArg (Pc.mk pc.kbc pc.port92) (funext fun x => ?_))
      · simp [Function.update_apply]
      · simp only [Function.update_apply]
        grind

/-! ## The gates one after the other -/

namespace Pc

/-- After port 0x92 was tried. -/
def fastTried (wire : Byte → Byte → Bool) (bufferBelowMB : Half) (pc : Pc) : Pc :=
  ({ pc with port92 := (pc.port92 ||| 2) &&& 0xFE } : Pc).looked wire bufferBelowMB

/-- After the keyboard controller was. -/
def kbcTried (wire : Byte → Byte → Bool) (bufferBelowMB : Half) (pc : Pc) : Pc :=
  ({ pc with kbc := pc.kbc.gated } : Pc).looked wire bufferBelowMB

end Pc

/-- `.fast_gate` when the keyboard controller was tried. -/
def fastLast (wire : Byte → Byte → Bool) (bufferBelowMB : Half) (pc : Pc) : Bool × Pc :=
  if pc.port92 &&& 2 ≠ 0 then (false, pc)
  else if (pc.fastTried wire bufferBelowMB).opened wire then
    (false, pc.fastTried wire bufferBelowMB)
  else (true, pc.fastTried wire bufferBelowMB)

/-- `.keybord_controller` -/
def keyboardFrom (wire : Byte → Byte → Bool) (bufferBelowMB : Half) (bl : Byte) (pc : Pc) :
    Bool × Pc :=
  if (pc.kbcTried wire bufferBelowMB).opened wire then (false, pc.kbcTried wire bufferBelowMB)
  else if bl &&& 2 ≠ 0 then fastLast wire bufferBelowMB (pc.kbcTried wire bufferBelowMB)
  else (true, pc.kbcTried wire bufferBelowMB)

/-- `.fast_gate` when it was not. -/
def fastFrom (wire : Byte → Byte → Bool) (bufferBelowMB : Half) (bl : Byte) (pc : Pc) :
    Bool × Pc :=
  if pc.port92 &&& 2 ≠ 0 then (false, pc)
  else if (pc.fastTried wire bufferBelowMB).opened wire then
    (false, pc.fastTried wire bufferBelowMB)
  else keyboardFrom wire bufferBelowMB bl (pc.fastTried wire bufferBelowMB)

/-- With enough fuel for the waiting the gates come to `r`, in at most `c` passes. -/
def GateRuns (wire : Byte → Byte → Bool) (bufferBelowMB : Half) (bl : Byte) (c : Nat)
    (t : Gate × Byte × Pc) (r : Bool × Pc) : Prop :=
  ∃ n, ∀ fuel, n ≤ fuel → ∀ m, c ≤ m →
    iterate (gatePass wire bufferBelowMB fuel bl) m t = some r

theorem GateRuns.done {bl : Byte} {t : Gate × Byte × Pc} {r : Bool × Pc}
    (h : Returns (gatePass wire bufferBelowMB · bl t) (.done r)) :
    GateRuns wire bufferBelowMB bl 1 t r := by
  rcases h with ⟨n, hn⟩
  refine ⟨n, fun fuel hfuel m hm => ?_⟩
  obtain ⟨m, rfl⟩ : ∃ k, m = k + 1 := ⟨m - 1, by omega⟩
  exact iterate_done (hn fuel hfuel) m

theorem GateRuns.again {bl : Byte} {c : Nat} {t t' : Gate × Byte × Pc} {r : Bool × Pc}
    (h : Returns (gatePass wire bufferBelowMB · bl t) (.again t'))
    (hrest : GateRuns wire bufferBelowMB bl c t' r) :
    GateRuns wire bufferBelowMB bl (c + 1) t r := by
  rcases h with ⟨n, hn⟩
  rcases hrest with ⟨n', hn'⟩
  refine ⟨max n n', fun fuel hfuel m hm => ?_⟩
  obtain ⟨m, rfl⟩ : ∃ k, m = k + 1 := ⟨m - 1, by omega⟩
  rw [iterate_again (hn fuel (by omega))]
  exact hn' fuel (by omega) m (by omega)

theorem GateRuns.mono {bl : Byte} {c d : Nat} (hcd : c ≤ d) {t : Gate × Byte × Pc}
    {r : Bool × Pc} (h : GateRuns wire bufferBelowMB bl c t r) :
    GateRuns wire bufferBelowMB bl d t r := by
  rcases h with ⟨n, hn⟩
  exact ⟨n, fun fuel hfuel m hm => hn fuel hfuel m (Nat.le_trans hcd hm)⟩

theorem gatePass_fast (hbuffer : InLoader bufferBelowMB) (fuel : Nat) (bl bh : Byte) :
    gatePass wire bufferBelowMB fuel bl (.fastGate, bh, pc) = some (
      if pc.port92 &&& 2 ≠ 0 then .done (false, pc)
      else if (pc.fastTried wire bufferBelowMB).opened wire then
        .done (false, pc.fastTried wire bufferBelowMB)
      else if bh ≠ 0 then .done (true, pc.fastTried wire bufferBelowMB)
      else .again (.keyboardController, bh, pc.fastTried wire bufferBelowMB)) := by
  have hstate : a20GetState wire bufferBelowMB
      { pc with port92 := (pc.port92 ||| 2) &&& 0xFE }
      = (if (pc.fastTried wire bufferBelowMB).opened wire then 1 else 0,
        pc.fastTried wire bufferBelowMB) := a20GetState_eq hbuffer
  simp only [gatePass, hstate]
  by_cases hset : pc.port92 &&& 2 ≠ 0
  · rw [if_pos hset, if_pos hset]
    rfl
  · rw [if_neg hset, if_neg hset]
    cases (pc.fastTried wire bufferBelowMB).opened wire with
    | true => rfl
    | false =>
        by_cases hbh : bh ≠ 0
        · rw [if_pos hbh, if_pos hbh]
          rfl
        · rw [if_neg hbh, if_neg hbh]
          rfl

theorem gatePass_keyboard (hbuffer : InLoader bufferBelowMB) (hidle : pc.kbc.Idle)
    (bl bh : Byte) : Returns (gatePass wire bufferBelowMB · bl (.keyboardController, bh, pc)) (
      if (pc.kbcTried wire bufferBelowMB).opened wire then
        .done (false, pc.kbcTried wire bufferBelowMB)
      else if bl &&& 2 ≠ 0 then .again (.fastGate, 1, pc.kbcTried wire bufferBelowMB)
      else .done (true, pc.kbcTried wire bufferBelowMB)) := by
  have hstate : a20GetState wire bufferBelowMB { pc with kbc := pc.kbc.gated }
      = (if (pc.kbcTried wire bufferBelowMB).opened wire then 1 else 0,
        pc.kbcTried wire bufferBelowMB) := a20GetState_eq hbuffer
  simp only [gatePass, Option.bind_eq_bind]
  refine (a20EnableKeyboardController_returns hidle).bind (Returns.of_eq fun _ => ?_)
  rw [hstate]
  cases (pc.kbcTried wire bufferBelowMB).opened wire with
  | true => rfl
  | false =>
      by_cases hbl : bl &&& 2 ≠ 0
      · rw [if_pos hbl, if_pos hbl]
        rfl
      · rw [if_neg hbl, if_neg hbl]
        rfl

theorem fastLast_runs (hbuffer : InLoader bufferBelowMB) (bl : Byte) (pc : Pc) :
    GateRuns wire bufferBelowMB bl 1 (.fastGate, 1, pc) (fastLast wire bufferBelowMB pc) := by
  refine GateRuns.done (Returns.of_eq fun fuel => ?_)
  rw [gatePass_fast hbuffer, fastLast]
  by_cases hset : pc.port92 &&& 2 ≠ 0
  · rw [if_pos hset, if_pos hset]
  · rw [if_neg hset, if_neg hset]
    cases (pc.fastTried wire bufferBelowMB).opened wire with
    | true => rfl
    | false => rfl

theorem keyboardFrom_runs (hbuffer : InLoader bufferBelowMB) {pc : Pc} (hidle : pc.kbc.Idle)
    (bl bh : Byte) : GateRuns wire bufferBelowMB bl 2 (.keyboardController, bh, pc)
      (keyboardFrom wire bufferBelowMB bl pc) := by
  have hpass : Returns (gatePass wire bufferBelowMB · bl (.keyboardController, bh, pc)) _ :=
    gatePass_keyboard hbuffer hidle bl bh
  rw [keyboardFrom]
  by_cases hopen : (pc.kbcTried wire bufferBelowMB).opened wire = true
  · rw [if_pos hopen] at hpass ⊢
    exact (GateRuns.done hpass).mono (by omega)
  · rw [if_neg hopen] at hpass ⊢
    by_cases hbl : bl &&& 2 ≠ 0
    · rw [if_pos hbl] at hpass ⊢
      exact GateRuns.again hpass (fastLast_runs hbuffer bl _)
    · rw [if_neg hbl] at hpass ⊢
      exact (GateRuns.done hpass).mono (by omega)

theorem fastFrom_runs (hbuffer : InLoader bufferBelowMB) (hidle : pc.kbc.Idle) (bl : Byte) :
    GateRuns wire bufferBelowMB bl 3 (.fastGate, 0, pc) (fastFrom wire bufferBelowMB bl pc) := by
  have hpass : Returns (gatePass wire bufferBelowMB · bl (.fastGate, 0, pc)) _ :=
    Returns.of_eq fun fuel => gatePass_fast hbuffer fuel bl 0
  rw [fastFrom]
  by_cases hset : pc.port92 &&& 2 ≠ 0
  · rw [if_pos hset] at hpass ⊢
    exact (GateRuns.done hpass).mono (by omega)
  · rw [if_neg hset] at hpass ⊢
    by_cases hopen : (pc.fastTried wire bufferBelowMB).opened wire = true
    · rw [if_pos hopen] at hpass ⊢
      exact (GateRuns.done hpass).mono (by omega)
    · rw [if_neg hopen, if_neg (not_not.mpr rfl)] at hpass
      rw [if_neg hopen]
      have htried : (pc.fastTried wire bufferBelowMB).kbc.Idle := hidle
      exact GateRuns.again hpass (keyboardFrom_runs hbuffer htried bl 0)

end State

/-! ## What the carry flag says -/

section Enable

variable {wire : Byte → Byte → Bool} {bufferBelowMB : Half} {fw : Firmware} {pc : Pc}

/-- The BIOS is asked to open the line, and returns an error code. -/
structure Firmware.Declines (fw : Firmware) (wire : Byte → Byte → Bool) (pc : Pc) : Prop where
  closed : pc.opened wire = false
  noKeyboard : fw.gates &&& 1 = 0
  noFast : fw.gates &&& 2 = 0
  carry : (fw.enable pc.kbc.outputPort pc.port92).1.1 = false
  error : ((fw.enable pc.kbc.outputPort pc.port92).1.2.extractLsb' 8 8 : Byte) ≠ 0

/-- `.bios_int` -/
def biosFrom (wire : Byte → Byte → Bool) (bufferBelowMB : Half) (fw : Firmware) (pc : Pc) :
    Bool × Pc :=
  let reply := (fw.enable pc.kbc.outputPort pc.port92).1
  if reply.1 then fastFrom wire bufferBelowMB fw.gates (pc.asked fw)
  else if (reply.2.extractLsb' 8 8 : Byte) ≠ 0 then (true, pc.asked fw)
  else if (pc.asked fw).opened wire then (false, (pc.asked fw).looked wire bufferBelowMB)
  else fastFrom wire bufferBelowMB fw.gates ((pc.asked fw).looked wire bufferBelowMB)

/-- What `a20_enable` comes to. -/
def outcome (wire : Byte → Byte → Bool) (bufferBelowMB : Half) (fw : Firmware) (pc : Pc) :
    Bool × Pc :=
  if pc.opened wire then (false, pc.looked wire bufferBelowMB)
  else if fw.gates &&& 1 ≠ 0 then
    keyboardFrom wire bufferBelowMB fw.gates (pc.looked wire bufferBelowMB)
  else if fw.gates &&& 2 ≠ 0 then
    fastFrom wire bufferBelowMB fw.gates (pc.looked wire bufferBelowMB)
  else biosFrom wire bufferBelowMB fw (pc.looked wire bufferBelowMB)

theorem GateRuns.returns {bl : Byte} {c : Nat} {gate : Gate} {r : Bool × Pc}
    (h : GateRuns wire bufferBelowMB bl c (gate, 0, pc) r) :
    Returns (tryGates wire bufferBelowMB · bl gate pc) r := by
  rcases h with ⟨n, hn⟩
  exact ⟨max n c, fun fuel hfuel => hn fuel (by omega) fuel (by omega)⟩

theorem biosInt_returns (hbuffer : InLoader bufferBelowMB) (hidle : pc.kbc.Idle) :
    Returns (biosInt wire bufferBelowMB fw · fw.gates pc)
      (biosFrom wire bufferBelowMB fw pc) := by
  have hfast : ∀ pc : Pc, pc.kbc.Idle →
      Returns (tryGates wire bufferBelowMB · fw.gates .fastGate pc)
        (fastFrom wire bufferBelowMB fw.gates pc) :=
    fun pc hidle => (fastFrom_runs hbuffer hidle fw.gates).returns
  have hasked : (pc.asked fw).kbc.Idle := ⟨hidle.answer, hidle.expects⟩
  unfold biosInt
  rw [biosFrom]
  by_cases hcarry : (fw.enable pc.kbc.outputPort pc.port92).1.1 = true
  · simp only [if_pos hcarry]
    exact hfast _ hasked
  · simp only [if_neg hcarry]
    by_cases herror : ((fw.enable pc.kbc.outputPort pc.port92).1.2.extractLsb' 8 8 : Byte) ≠ 0
    · simp only [if_pos herror]
      exact Returns.of_eq fun _ => rfl
    · simp only [if_neg herror, a20GetState_eq hbuffer]
      by_cases hopen : (pc.asked fw).opened wire = true
      · simp only [if_pos hopen]
        exact Returns.of_eq fun _ => rfl
      · simp only [if_neg hopen]
        exact hfast _ hasked

theorem a20Enable_returns (hbuffer : InLoader bufferBelowMB) (hidle : pc.kbc.Idle) :
    Returns (a20Enable wire bufferBelowMB fw · pc) (outcome wire bufferBelowMB fw pc) := by
  have hlooked : (pc.looked wire bufferBelowMB).kbc.Idle := hidle
  unfold a20Enable
  rw [outcome]
  simp only [a20GetState_eq hbuffer]
  by_cases hopen : pc.opened wire = true
  · simp only [if_pos hopen]
    exact Returns.of_eq fun _ => rfl
  · simp only [if_neg hopen]
    by_cases hkeyboard : fw.gates &&& 1 ≠ 0
    · simp only [if_pos hkeyboard]
      exact (keyboardFrom_runs hbuffer hlooked fw.gates 0).returns
    · simp only [if_neg hkeyboard]
      by_cases hfast : fw.gates &&& 2 ≠ 0
      · simp only [if_pos hfast]
        exact (fastFrom_runs hbuffer hlooked fw.gates).returns
      · simp only [if_neg hfast]
        exact biosInt_returns hbuffer hlooked

theorem bit_one (al : Byte) : al &&& 2 ≠ 0 ↔ al.getLsbD 1 = true := by
  revert al
  decide

theorem tried_bit (al : Byte) : ((al ||| 2) &&& 0xFE).getLsbD 1 = true := by
  revert al
  decide

/-- Of the memory only the two buffers are written. -/
def Keeps (bufferBelowMB : Half) (pc pc' : Pc) : Prop :=
  ∀ x, x ≠ bufferBelowMB.toNat → x ≠ bufferBelowMB.toNat + 1 → pc'.mem x = pc.mem x

theorem Keeps.looked (pc : Pc) : Keeps bufferBelowMB pc (pc.looked wire bufferBelowMB) := by
  intro x hbelow hover
  exact (Function.update_of_ne hover ..).trans (Function.update_of_ne hbelow ..)

/-- What the carry flag says: clear, the line is open or port 0x92 is set to open it; set, the line
is closed. -/
structure Says (wire : Byte → Byte → Bool) (bufferBelowMB : Half) (pc : Pc) (r : Bool × Pc) :
    Prop where
  keeps : Keeps bufferBelowMB pc r.2
  clear : r.1 = false → r.2.opened wire = true ∨ r.2.port92.getLsbD 1 = true
  set : r.1 = true → r.2.opened wire = false

theorem Says.of_keeps {pc' : Pc} {r : Bool × Pc} (hkeeps : Keeps bufferBelowMB pc pc')
    (h : Says wire bufferBelowMB pc' r) : Says wire bufferBelowMB pc r :=
  ⟨fun x hb hb' => (h.keeps x hb hb').trans (hkeeps x hb hb'), h.clear, h.set⟩

theorem Says.open {pc' : Pc} (hkeeps : Keeps bufferBelowMB pc pc')
    (hopen : pc'.opened wire = true) : Says wire bufferBelowMB pc (false, pc') :=
  ⟨hkeeps, fun _ => .inl hopen, nofun⟩

theorem Says.latched (hset : pc.port92 &&& 2 ≠ 0) : Says wire bufferBelowMB pc (false, pc) :=
  ⟨fun _ _ _ => rfl, fun _ => .inr ((bit_one _).mp hset), nofun⟩

theorem Says.closed {pc' : Pc} (hkeeps : Keeps bufferBelowMB pc pc')
    (hopen : ¬ pc'.opened wire = true) : Says wire bufferBelowMB pc (true, pc') :=
  ⟨hkeeps, nofun, fun _ => Bool.eq_false_iff.mpr hopen⟩

theorem fastLast_tells (pc : Pc) :
    Says wire bufferBelowMB pc (fastLast wire bufferBelowMB pc) := by
  have hkeeps : Keeps bufferBelowMB pc (pc.fastTried wire bufferBelowMB) := Keeps.looked _
  rw [fastLast]
  split
  next hset => exact Says.latched hset
  next =>
    split
    next hopen => exact Says.open hkeeps hopen
    next hclosed => exact Says.closed hkeeps hclosed

theorem keyboardFrom_tells (bl : Byte) (pc : Pc) :
    Says wire bufferBelowMB pc (keyboardFrom wire bufferBelowMB bl pc) := by
  have hkeeps : Keeps bufferBelowMB pc (pc.kbcTried wire bufferBelowMB) := Keeps.looked _
  rw [keyboardFrom]
  split
  next hopen => exact Says.open hkeeps hopen
  next hclosed =>
    split
    next => exact Says.of_keeps hkeeps (fastLast_tells _)
    next => exact Says.closed hkeeps hclosed

theorem fastFrom_tells (bl : Byte) (pc : Pc) :
    Says wire bufferBelowMB pc (fastFrom wire bufferBelowMB bl pc) := by
  have hkeeps : Keeps bufferBelowMB pc (pc.fastTried wire bufferBelowMB) := Keeps.looked _
  rw [fastFrom]
  split
  next hset => exact Says.latched hset
  next =>
    split
    next hopen => exact Says.open hkeeps hopen
    next => exact Says.of_keeps hkeeps (keyboardFrom_tells bl _)

/-! ### When the keyboard controller is tried -/

/-- Port 0x92 does not say that the line is open, and does not open it. -/
def FastFails (wire : Byte → Byte → Bool) (pc : Pc) : Prop :=
  pc.port92 &&& 2 = 0 ∧ wire pc.kbc.outputPort ((pc.port92 ||| 2) &&& 0xFE) = false

instance (wire : Byte → Byte → Bool) (pc : Pc) : Decidable (FastFails wire pc) :=
  inferInstanceAs (Decidable (_ ∧ _))

/-- The keyboard controller as it is when its gate is tried. -/
def keyboardTried (wire : Byte → Byte → Bool) (fw : Firmware) (pc : Pc) : Option Kbc :=
  let afterFast (pc : Pc) : Option Kbc := if FastFails wire pc then some pc.kbc else none
  if pc.opened wire then none
  else if fw.gates &&& 1 ≠ 0 then some pc.kbc
  else if fw.gates &&& 2 ≠ 0 then afterFast pc
  else
    let reply := (fw.enable pc.kbc.outputPort pc.port92).1
    if reply.1 then afterFast (pc.asked fw)
    else if (reply.2.extractLsb' 8 8 : Byte) ≠ 0 ∨ (pc.asked fw).opened wire then none
    else afterFast (pc.asked fw)

theorem fastLast_kbc (pc : Pc) : (fastLast wire bufferBelowMB pc).2.kbc = pc.kbc := by
  rw [fastLast]
  split
  next => rfl
  next =>
    split
    next => rfl
    next => rfl

theorem keyboardFrom_kbc (bl : Byte) (pc : Pc) :
    (keyboardFrom wire bufferBelowMB bl pc).2.kbc = pc.kbc.gated := by
  rw [keyboardFrom]
  split
  next => rfl
  next =>
    split
    next => exact fastLast_kbc _
    next => rfl

theorem fastFrom_kbc (bl : Byte) (pc : Pc) : (fastFrom wire bufferBelowMB bl pc).2.kbc
    = if FastFails wire pc then pc.kbc.gated else pc.kbc := by
  have hopened : (pc.fastTried wire bufferBelowMB).opened wire
      = wire pc.kbc.outputPort ((pc.port92 ||| 2) &&& 0xFE) := rfl
  rw [fastFrom, hopened]
  split
  next hset =>
    rw [if_neg fun h => hset h.1]
  next hclear =>
    split
    next hopen =>
      rw [if_neg fun h => Bool.eq_false_iff.mp h.2 hopen]
      rfl
    next hclosed =>
      rw [if_pos ⟨not_not.mp hclear, Bool.eq_false_iff.mpr hclosed⟩]
      exact keyboardFrom_kbc bl _

/-- The processor is reset by nothing but the byte written back to the output port. -/
theorem outcome_reset (pc : Pc) : (outcome wire bufferBelowMB fw pc).2.kbc.reset = true ↔
    pc.kbc.reset = true ∨
      ∃ k, keyboardTried wire fw pc = some k ∧ k.readPort.getLsbD 0 = false := by
  have hgated : ∀ k : Kbc, k.reset = pc.kbc.reset → (k.gated.reset = true ↔
      pc.kbc.reset = true ∨ ∃ k', some k = some k' ∧ k'.readPort.getLsbD 0 = false) := by
    intro k hk
    rw [← hk]
    change (k.reset || !k.readPort.getLsbD 0) = true ↔ _
    simp
  have hkept : ∀ b : Bool, b = pc.kbc.reset → (b = true ↔ pc.kbc.reset = true ∨
      ∃ k, (none : Option Kbc) = some k ∧ k.readPort.getLsbD 0 = false) := by
    rintro b rfl
    simp
  have hfast : ∀ pc' : Pc, pc'.kbc.reset = pc.kbc.reset →
      ((fastFrom wire bufferBelowMB fw.gates pc').2.kbc.reset = true ↔ pc.kbc.reset = true ∨
        ∃ k, (if FastFails wire pc' then some pc'.kbc else none) = some k ∧
          k.readPort.getLsbD 0 = false) := by
    intro pc' hreset
    rw [fastFrom_kbc]
    split
    next => exact hgated _ hreset
    next => exact hkept _ hreset
  rw [outcome, keyboardTried]
  split
  next => exact hkept _ rfl
  next =>
    split
    next =>
      rw [keyboardFrom_kbc]
      exact hgated _ rfl
    next =>
      split
      next => exact hfast (pc.looked wire bufferBelowMB) rfl
      next =>
        -- what the BIOS sees and does depends on the ports alone
        have hopened : ((pc.looked wire bufferBelowMB).asked fw).opened wire
            = (pc.asked fw).opened wire := rfl
        have hreply : fw.enable (pc.looked wire bufferBelowMB).kbc.outputPort
            (pc.looked wire bufferBelowMB).port92 = fw.enable pc.kbc.outputPort pc.port92 := rfl
        simp only [biosFrom, hopened, hreply]
        split
        next => exact hfast ((pc.looked wire bufferBelowMB).asked fw) rfl
        next =>
          by_cases herror :
              ((fw.enable pc.kbc.outputPort pc.port92).1.2.extractLsb' 8 8 : Byte) ≠ 0
          · rw [if_pos herror, if_pos (Or.inl herror)]
            exact hkept _ rfl
          · rw [if_neg herror]
            by_cases hopen : (pc.asked fw).opened wire = true
            · rw [if_pos hopen, if_pos (Or.inr hopen)]
              exact hkept _ rfl
            · rw [if_neg hopen, if_neg (not_or.mpr ⟨herror, hopen⟩)]
              exact hfast (((pc.looked wire bufferBelowMB).asked fw).looked wire bufferBelowMB) rfl

/-- A machine on which either port opens the line. -/
def eitherPort (outputPort port92 : Byte) : Bool := outputPort.getLsbD 1 || port92.getLsbD 1

/-- Its line is closed, and a key was pressed. -/
def demoPc : Pc where
  kbc := ⟨0xDD, false, some 0x1F, none, false, 2, fun i => i, 0, false⟩
  port92 := 0
  mem := fun _ => 0

/-- A BIOS that knows of both gates. -/
def demoFirmware : Firmware := ⟨(false, 0, 3), fun a b => ((true, 0x8600), (a, b))⟩

variable (wire fw) in
/-- **The carry flag of `a20_enable`.** It resets the processor exactly if bit 0 is clear in what it
reads for the output port when it tries the keyboard controller. In a run that does not, it returns
with the memory as it was but for two bytes of the loader. Clear, the line is open or port 0x92
says so; set, the line is closed or the BIOS has refused. -/
theorem a20Enable_reports (hbuffer : InLoader bufferBelowMB) (hidle : pc.kbc.Idle) :
    ∃ r, Returns (a20Enable wire bufferBelowMB fw · pc) r ∧
      (r.2.kbc.reset = true ↔ pc.kbc.reset = true ∨
        ∃ k, keyboardTried wire fw pc = some k ∧ k.readPort.getLsbD 0 = false) ∧
      (r.2.kbc.reset = false → Keeps bufferBelowMB pc r.2 ∧
        (r.1 = false → r.2.opened wire = true ∨ r.2.port92.getLsbD 1 = true) ∧
        (r.1 = true → r.2.opened wire = false ∨ fw.Declines wire pc)) := by
  have hlooked : Keeps bufferBelowMB pc (pc.looked wire bufferBelowMB) := Keeps.looked pc
  have hasked : Keeps bufferBelowMB pc ((pc.looked wire bufferBelowMB).asked fw) := hlooked
  have htells : Says wire bufferBelowMB pc (outcome wire bufferBelowMB fw pc) ∨
      outcome wire bufferBelowMB fw pc = (true, (pc.looked wire bufferBelowMB).asked fw) ∧
        fw.Declines wire pc := by
    rw [outcome]
    split
    next hopen => exact .inl (Says.open hlooked hopen)
    next hclosed =>
      split
      next => exact .inl (Says.of_keeps hlooked (keyboardFrom_tells _ _))
      next hkeyboard =>
        split
        next => exact .inl (Says.of_keeps hlooked (fastFrom_tells _ _))
        next hfast =>
          -- the BIOS is asked
          rw [biosFrom]
          split
          next => exact .inl (Says.of_keeps hasked (fastFrom_tells _ _))
          next hcarry =>
            split
            next herror =>
              exact .inr ⟨rfl, Bool.eq_false_iff.mpr hclosed, not_not.mp hkeyboard,
                not_not.mp hfast, Bool.eq_false_iff.mpr hcarry, herror⟩
            next =>
              have hagain : Keeps bufferBelowMB pc
                  (((pc.looked wire bufferBelowMB).asked fw).looked wire bufferBelowMB) :=
                fun x hb hb' => (Keeps.looked _ x hb hb').trans (hlooked x hb hb')
              split
              next hopen => exact .inl (Says.open hagain hopen)
              next => exact .inl (Says.of_keeps hagain (fastFrom_tells _ _))
  refine ⟨_, a20Enable_returns hbuffer hidle, outcome_reset pc, fun _ => ?_⟩
  rcases htells with htells | ⟨heq, hdeclines⟩
  · exact ⟨htells.keeps, htells.clear, fun h => .inl (htells.set h)⟩
  · rw [heq]
    exact ⟨hlooked, nofun, fun _ => .inr hdeclines⟩

/-- The scan code 0x1F does not reset the processor. -/
theorem a20Enable_reports_demo : ∃ r,
    Returns (a20Enable (fun outputPort _ => outputPort.getLsbD 1) 0x1800 demoFirmware · demoPc) r ∧
    r.2.kbc.reset = false ∧ Keeps 0x1800 demoPc r.2 ∧
    (r.1 = true → r.2.opened (fun outputPort _ => outputPort.getLsbD 1) = false) := by
  have hgate : ¬ demoFirmware.gates &&& 1 = 0 := by decide
  have hloader : InLoader 0x1800 := ⟨by decide, by decide⟩
  have hidle : demoPc.kbc.Idle := ⟨rfl, rfl⟩
  have htried : keyboardTried (fun outputPort _ => outputPort.getLsbD 1) demoFirmware demoPc
      = some demoPc.kbc := by
    rw [keyboardTried, if_neg (by decide), if_pos hgate]
  rcases a20Enable_reports (fun outputPort _ => outputPort.getLsbD 1) demoFirmware hloader hidle
    with ⟨r, hreturns, hreset, hreports⟩
  have hruns : r.2.kbc.reset = false := by
    rw [← Bool.not_eq_true, hreset, htried]
    rintro (hearlier | ⟨k, hk, hbit⟩)
    · cases hearlier
    · rw [← Option.some.inj hk] at hbit
      exact absurd hbit (by decide)
  rcases hreports hruns with ⟨hkeeps, -, hset⟩
  exact ⟨r, hreturns, hruns, hkeeps, fun h => (hset h).resolve_right fun h => hgate h.noKeyboard⟩

/-! ## Opening the line -/

/-- Either port opens the line. -/
structure Wired (wire : Byte → Byte → Bool) : Prop where
  keyboard : ∀ outputPort port92, outputPort.getLsbD 1 = true → wire outputPort port92 = true
  fast : ∀ outputPort port92, port92.getLsbD 1 = true → wire outputPort port92 = true

theorem fastFrom_opens (hwired : Wired wire) (bufferBelowMB : Half) (bl : Byte) (pc : Pc) :
    (fastFrom wire bufferBelowMB bl pc).1 = false ∧
      (fastFrom wire bufferBelowMB bl pc).2.opened wire = true ∧
      (fastFrom wire bufferBelowMB bl pc).2.kbc = pc.kbc := by
  have hopen : (pc.fastTried wire bufferBelowMB).opened wire = true :=
    hwired.fast _ _ (tried_bit pc.port92)
  rw [fastFrom]
  split
  next hset => exact ⟨rfl, hwired.fast _ _ ((bit_one _).mp hset), rfl⟩
  next => exact ⟨rfl, hopen, rfl⟩

theorem keyboardFrom_opens (hwired : Wired wire) (bufferBelowMB : Half) (bl : Byte) (pc : Pc) :
    keyboardFrom wire bufferBelowMB bl pc = (false, pc.kbcTried wire bufferBelowMB) ∧
      (pc.kbcTried wire bufferBelowMB).opened wire = true := by
  have hopen : (pc.kbcTried wire bufferBelowMB).opened wire = true := by
    apply hwired.keyboard
    change (pc.kbc.readPort ||| 2).getLsbD 1 = true
    simp
  rw [keyboardFrom, if_pos hopen]
  exact ⟨rfl, hopen⟩

theorem biosFrom_opens (hwired : Wired wire) (bufferBelowMB : Half)
    (hdeclines : ¬ fw.Declines wire pc) (hclosed : pc.opened wire = false)
    (hkeyboard : fw.gates &&& 1 = 0) (hfast : fw.gates &&& 2 = 0) :
    (biosFrom wire bufferBelowMB fw pc).1 = false ∧
      (biosFrom wire bufferBelowMB fw pc).2.opened wire = true ∧
      (biosFrom wire bufferBelowMB fw pc).2.kbc.reset = pc.kbc.reset := by
  rw [biosFrom]
  split
  next =>
    rcases fastFrom_opens hwired bufferBelowMB fw.gates (pc.asked fw) with
      ⟨hcarry, hopen, hkbc⟩
    exact ⟨hcarry, hopen, (congrArg Kbc.reset hkbc).trans rfl⟩
  next hcarry =>
    split
    next herror =>
      exact absurd ⟨hclosed, hkeyboard, hfast, Bool.eq_false_iff.mpr hcarry, herror⟩ hdeclines
    next =>
      split
      next hopen => exact ⟨rfl, hopen, rfl⟩
      next =>
        rcases fastFrom_opens hwired bufferBelowMB fw.gates
          ((pc.asked fw).looked wire bufferBelowMB) with ⟨hcarry, hopen, hkbc⟩
        exact ⟨hcarry, hopen, (congrArg Kbc.reset hkbc).trans rfl⟩

variable (fw) in
/-- **The line is opened**, if either port opens it, unless the BIOS refuses. The processor is reset
when a scan code with bit 0 clear is read for the output port; the report is of other runs. -/
theorem a20Enable_opens_iff (hwired : Wired wire) (hbuffer : InLoader bufferBelowMB)
    (hidle : pc.kbc.Idle) : ∃ r, Returns (a20Enable wire bufferBelowMB fw · pc) r ∧
      (r.1 = false ↔ ¬ fw.Declines wire pc) ∧ (r.1 = false → r.2.opened wire = true) ∧
      (r.2.kbc.reset = true ↔ pc.kbc.reset = true ∨ pc.opened wire = false ∧
        fw.gates &&& 1 ≠ 0 ∧ pc.kbc.readPort.getLsbD 0 = false) := by
  refine ⟨_, a20Enable_returns hbuffer hidle, ?_⟩
  -- without the keyboard controller the processor is not reset
  have hsame : ∀ {r : Bool × Pc}, r.2.kbc.reset = pc.kbc.reset →
      ¬ (pc.opened wire = false ∧ fw.gates &&& 1 ≠ 0) → (r.2.kbc.reset = true ↔
        pc.kbc.reset = true ∨ pc.opened wire = false ∧ fw.gates &&& 1 ≠ 0 ∧
          pc.kbc.readPort.getLsbD 0 = false) := by
    intro r hreset hpath
    rw [hreset]
    exact ⟨.inl, fun h => h.resolve_right fun h => hpath ⟨h.1, h.2.1⟩⟩
  rw [outcome]
  split
  next hopen =>
    have hline : ¬ pc.opened wire = false := by
      rw [hopen]
      decide
    exact ⟨iff_of_true rfl fun h => hline h.closed, fun _ => hopen, hsame rfl fun h => hline h.1⟩
  next hclosed =>
    split
    next hkeyboard =>
      rcases keyboardFrom_opens hwired bufferBelowMB fw.gates
        (pc.looked wire bufferBelowMB) with ⟨heq, hopen⟩
      rw [heq]
      refine ⟨iff_of_true rfl fun h => hkeyboard h.noKeyboard, fun _ => hopen, ?_⟩
      change (pc.kbc.reset || !pc.kbc.readPort.getLsbD 0) = true ↔ _
      rw [Bool.or_eq_true, Bool.not_eq_true']
      exact or_congr_right ⟨fun h => ⟨Bool.eq_false_iff.mpr hclosed, hkeyboard, h⟩, fun h => h.2.2⟩
    next hkeyboard =>
      split
      next hfast =>
        rcases fastFrom_opens hwired bufferBelowMB fw.gates (pc.looked wire bufferBelowMB) with
          ⟨hcarry, hopen, hkbc⟩
        exact ⟨iff_of_true hcarry fun h => hfast h.noFast, fun _ => hopen,
          hsame ((congrArg Kbc.reset hkbc).trans rfl) fun h => hkeyboard h.2⟩
      next hfast =>
        by_cases hdeclines : fw.Declines wire pc
        · have heq : biosFrom wire bufferBelowMB fw (pc.looked wire bufferBelowMB)
              = (true, (pc.looked wire bufferBelowMB).asked fw) := by
            refine (if_neg ?_).trans (if_pos hdeclines.error)
            exact Bool.eq_false_iff.mp hdeclines.carry
          rw [heq]
          exact ⟨iff_of_false nofun (not_not.mpr hdeclines), nofun,
            hsame rfl fun h => hkeyboard h.2⟩
        · have hlooked : ¬ fw.Declines wire (pc.looked wire bufferBelowMB) := fun h =>
            hdeclines ⟨h.closed, h.noKeyboard, h.noFast, h.carry, h.error⟩
          rcases biosFrom_opens hwired bufferBelowMB hlooked (Bool.eq_false_iff.mpr hclosed)
            (not_not.mp hkeyboard) (not_not.mp hfast) with ⟨hcarry, hopen, hreset⟩
          exact ⟨iff_of_true hcarry hdeclines, fun _ => hopen, hsame hreset fun h => hkeyboard h.2⟩

/-- The scan code 0x1F opens the line and leaves the processor running. -/
theorem a20Enable_opens_iff_demo : ∃ r,
    Returns (a20Enable eitherPort 0x1800 demoFirmware · demoPc) r ∧ r.1 = false ∧
      r.2.opened eitherPort = true ∧ r.2.kbc.reset = false := by
  have hwired : Wired eitherPort := by
    refine ⟨fun a b h => ?_, fun a b h => ?_⟩
    · rw [eitherPort, h, Bool.true_or]
    · rw [eitherPort, h, Bool.or_true]
  have hgate : ¬ demoFirmware.gates &&& 1 = 0 := by decide
  have hloader : InLoader 0x1800 := ⟨by decide, by decide⟩
  have hidle : demoPc.kbc.Idle := ⟨rfl, rfl⟩
  rcases a20Enable_opens_iff demoFirmware hwired hloader hidle with
    ⟨r, hreturns, hcarry, hopen, hreset⟩
  have hclear : r.1 = false := hcarry.mpr fun h => hgate h.noKeyboard
  refine ⟨r, hreturns, hclear, hopen hclear, ?_⟩
  rw [← Bool.not_eq_true, hreset]
  decide

end Enable

end StupidOS.Boot.A20
