import StupidOS.Lib.Blocks
import StupidOS.Lib.Loop

/-!
# Real mode and the BIOS disk services

The processor state that the 16-bit part of the loader works on, and `int 0x13`
functions 02h and 42h. The sectors that the BIOS moves are recorded in the state.
A call pushes `Slot.ret`; a `ret` that finds anything else on top of the stack
jumps to it.
-/

namespace StupidOS.Boot

/-! ## Registers -/

/-- The low half of a register: AX of EAX. -/
def lo (r : Word) : Half := r.setWidth 16

/-- A register after a write to its low half. -/
def setLo (r : Word) (h : Half) : Word := r.extractLsb' 16 16 ++ h

/-- AL and AH of EAX. -/
def lowByte (r : Word) : Byte := r.setWidth 8

def highByte (r : Word) : Byte := r.extractLsb' 8 8

theorem toNat_lo (r : Word) : (lo r).toNat = r.toNat % 65536 := by
  simp [lo, BitVec.toNat_setWidth]

theorem toNat_setLo (r : Word) (h : Half) :
    (setLo r h).toNat = r.toNat / 65536 * 65536 + h.toNat := by
  have hlt := r.isLt
  have hh := h.isLt
  rw [setLo, BitVec.toNat_append, BitVec.extractLsb'_toNat, Nat.shiftRight_eq_div_pow,
    ← Nat.shiftLeft_add_eq_or_of_lt hh, Nat.shiftLeft_eq]
  omega

theorem toNat_byteAppend (a b : Byte) : (a ++ b : Half).toNat = a.toNat * 256 + b.toNat := by
  have hb := b.isLt
  rw [BitVec.toNat_append, ← Nat.shiftLeft_add_eq_or_of_lt hb, Nat.shiftLeft_eq]

@[simp] theorem lo_setLo (r : Word) (h : Half) : lo (setLo r h) = h := by
  apply BitVec.eq_of_toNat_eq
  have hh := h.isLt
  rw [toNat_lo, toNat_setLo]
  omega

@[simp] theorem setLo_setLo (r : Word) (h h' : Half) : setLo (setLo r h) h' = setLo r h' := by
  apply BitVec.eq_of_toNat_eq
  have hh := h.isLt
  rw [toNat_setLo, toNat_setLo, toNat_setLo]
  omega

@[simp] theorem setLo_lo (r : Word) : setLo r (lo r) = r := by
  apply BitVec.eq_of_toNat_eq
  rw [toNat_setLo, toNat_lo]
  omega

@[simp] theorem lowByte_setLo (r : Word) (a b : Byte) : lowByte (setLo r (a ++ b)) = b := by
  apply BitVec.eq_of_toNat_eq
  have hb := b.isLt
  rw [lowByte, BitVec.toNat_setWidth, toNat_setLo, toNat_byteAppend]
  omega

@[simp] theorem highByte_setLo (r : Word) (a b : Byte) : highByte (setLo r (a ++ b)) = a := by
  apply BitVec.eq_of_toNat_eq
  have ha := a.isLt
  have hb := b.isLt
  rw [highByte, BitVec.extractLsb'_toNat, toNat_setLo, toNat_byteAppend,
    Nat.shiftRight_eq_div_pow]
  omega

/-! ## Processor state -/

/-- An entry of the stack: a return address or a pushed register. -/
inductive Slot where
  | ret
  | half (w : Half)
deriving DecidableEq, Repr

structure Cpu where
  eax : Word
  ebx : Word
  ecx : Word
  edx : Word
  esi : Word
  es : Half
  stack : List Slot
  mem : Bytes
  /-- Disk reads asked of the BIOS so far. -/
  calls : Nat
  /-- Sectors that the BIOS has moved, and where to. -/
  transfers : List Transfer
  /-- AX and CX of each call of `disk_read_sectors`. -/
  requests : List (Half × Half)

/-- The linear address of `seg:off`. -/
def linear (seg off : Half) : Nat := 16 * seg.toNat + off.toNat

/-- Where a routine leaves to. -/
inductive Exit where
  | returned (s : Cpu)
  | jumped (target : Half) (s : Cpu)

namespace Cpu

def push (s : Cpu) (w : Half) : Cpu := { s with stack := .half w :: s.stack }

def pop (s : Cpu) : Option (Half × Cpu) :=
  match s.stack with
  | .half w :: rest => some (w, { s with stack := rest })
  | _ => none

def ret (s : Cpu) : Option Exit :=
  match s.stack with
  | .ret :: rest => some (.returned { s with stack := rest })
  | .half w :: rest => some (.jumped w { s with stack := rest })
  | [] => none

end Cpu

/-! ## int 0x13 -/

/-- The boot drive as the BIOS sees it: its geometry, its sectors, and which of the
reads asked for report an error (carry set). `logError` is what `bios_log_error`
does to the registers; it leaves the stack alone. -/
structure Bios where
  sectorsPerTrack : Nat
  heads : Nat
  sectorSize : Nat
  sectors : Nat → Bytes
  carry : Nat → Bool
  logError : Cpu → Cpu
  logError_stack : ∀ s, (logError s).stack = s.stack

/-- The disk address packet of function 42h. -/
structure DiskPacket where
  sectors : Half
  offset : Half
  segment : Half
  lba : Word
deriving DecidableEq, Repr

namespace Bios

variable (B : Bios)

/-- `n` sectors from `lba` on, stored one after the other from `addr` on. -/
def sectorRun (lba addr n : Nat) : List Transfer :=
  (List.range n).map (fun i => ⟨lba + i, addr + B.sectorSize * i⟩)

/-- The BIOS moves the sectors of `ts`, or reports an error. -/
def read (s : Cpu) (ts : List Transfer) : Bool × Cpu :=
  if B.carry s.calls then
    (true, { s with calls := s.calls + 1 })
  else
    (false, { s with
      calls := s.calls + 1
      mem := loads B.sectors B.sectorSize ts s.mem
      transfers := s.transfers ++ ts })

/-- The sector at a cylinder, head and sector number. -/
def sectorAt (cylinder head sector : Nat) : Nat :=
  (cylinder * B.heads + head) * B.sectorsPerTrack + (sector - 1)

/-- The sector that CH, CL and DH stand for. -/
def chsAddress (ch cl dh : Byte) : Nat :=
  B.sectorAt (ch.toNat + 256 * (cl.toNat / 64)) dh.toNat (cl.toNat % 64)

/-- Function 02h: AL sectors from CH, CL, DH on to ES:BX. -/
def int13Read (s : Cpu) : Bool × Cpu :=
  B.read s (B.sectorRun (B.chsAddress (highByte s.ecx) (lowByte s.ecx) (highByte s.edx))
    (linear s.es (lo s.ebx)) (lowByte s.eax).toNat)

/-- Function 42h: the transfer that the packet describes. -/
def int13ExtRead (s : Cpu) (packet : DiskPacket) : Bool × Cpu :=
  B.read s (B.sectorRun packet.lba.toNat (linear packet.segment packet.offset)
    packet.sectors.toNat)

end Bios

end StupidOS.Boot
