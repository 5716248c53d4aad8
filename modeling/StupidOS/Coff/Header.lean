import StupidOS.Lib.Records

/-!
# `coff.h`

The structures of a COFF object, by their bytes. The sizes and offsets are those of the
structures as the compiler lays them out.
-/

namespace StupidOS.Coff

/-! ## `FILHDR` -/

/-- `FILHSZ` -/
def filhsz : Nat := 20

def fMagic (h : Obj) : Nat := h.field 0 2
def fNscns (h : Obj) : Nat := h.field 2 2
def fSymptr (h : Obj) : Int := (BitVec.ofNat 32 (h.field 8 4)).toInt
def fNsyms (h : Obj) : Int := (BitVec.ofNat 32 (h.field 12 4)).toInt
def fOpthdr (h : Obj) : Nat := h.field 16 2
def fFlags (h : Obj) : Nat := h.field 18 2

def fMachUnknown : Nat := 0x0
def fMachAm33 : Nat := 0x1D3
def fMachAmd64 : Nat := 0x8664
def fMachArm : Nat := 0x1C0
def fMachArmnt : Nat := 0x1C4
def fMachEbc : Nat := 0xEBC
def fMachI386 : Nat := 0x14C
def fMachIa64 : Nat := 0x200
def fMachM32r : Nat := 0x9041

/-- `F_EXEC` -/
def fExec : Nat := 0x0002

/-- `F_LSYMS` -/
def fLsyms : Nat := 0x0008

/-! ## `AOUTHDR` -/

/-- `AOUTHSZ` -/
def aouthsz : Nat := 28

/-- `magic` -/
def aoutMagic (h : Obj) : Int := (BitVec.ofNat 16 (h.field 0 2)).toInt

def omagic : Int := 0o404
def nmagic : Int := 0o410
def zmagic : Int := 0o413
def stmagic : Int := 0o401
def shmagic : Int := 0o443

/-! ## `SCNHDR` -/

/-- `SCNHSZ` -/
def scnhsz : Nat := 40

/-! ## `SYMENT`, by its bytes -/

/-- `SYMESZ` -/
def symesz : Nat := 18

/-- `AUXESZ` -/
def auxesz : Nat := 18

/-- `C_EXT` -/
def cExt : Int := 2

def nName (s : List Byte) : List Byte := s.take 8
def nZeroes (s : List Byte) : Int := (BitVec.ofNat 32 (leAt s 0 4)).toInt
def nOffset (s : List Byte) : Int := (BitVec.ofNat 32 (leAt s 4 4)).toInt
def nScnum (s : List Byte) : Int := (BitVec.ofNat 16 (leAt s 12 2)).toInt
def nSclass (s : List Byte) : Int := (BitVec.ofNat 8 (leAt s 16 1)).toInt
def nNumaux (s : List Byte) : Int := (BitVec.ofNat 8 (leAt s 17 1)).toInt

/-! ## The bytes of a file -/

/-- A field of a structure with these bytes. -/
theorem field_store (o : Obj) {bs : List Byte} {k n : Nat} (hkn : k + n ≤ bs.length) :
    (o.store 0 bs).field k n = leAt bs k n := by
  have hload := Obj.load_store_part o 0 hkn
  rw [Int.zero_add] at hload
  rw [Obj.field, hload, leAt]

/-- A field of a structure that was read from `bs`. -/
theorem field_store_take (o : Obj) (bs : List Byte) {k n size : Nat} (hkn : k + n ≤ size)
    (hlen : size ≤ bs.length) : (o.store 0 (bs.take size)).field k n = leAt bs k n := by
  have htake : (bs.take size).length = size := List.length_take_of_le hlen
  rw [field_store o (by omega), leAt_take bs hkn]

end StupidOS.Coff
