import StupidOS.Boot.Bios

/-!
# Floppy addresses (`dev/at/floppy.inc`)

`floppy_lba_to_chs` divides twice, by the sectors of a cylinder and the remainder by the
sectors of a track, with 16-bit and 8-bit divisions.
-/

namespace StupidOS.Kernel

open StupidOS.Boot (lo setLo lowByte highByte toNat_lo toNat_setLo lo_setLo lowByte_setLo
  highByte_setLo setLo_setLo)

/-- `HEADS_PER_CYLINDER` -/
def floppyHeadsPerCylinder : Nat := 2

/-- `SECTORS_PER_TRACK` -/
def floppySectorsPerTrack : Nat := 18

/-- `TOTAL_SECTORS` -/
def floppyTotalSectors : Nat := 2880

/-- The registers that `floppy_lba_to_chs` uses. -/
structure FloppyRegs where
  eax : Word
  ecx : Word
  edx : Word
deriving DecidableEq, Repr

/-- `div cx`: the quotient goes to AX and the remainder to DX; a quotient of more than 16
bits is a fault. -/
def divCx (r : FloppyRegs) : Option FloppyRegs := do
  let dividend : Word := lo r.edx ++ lo r.eax
  let divisor : Word := (lo r.ecx).setWidth 32
  guard (divisor ≠ 0 ∧ (dividend / divisor).toNat < 65536)
  some { r with
    eax := setLo r.eax (lo (dividend / divisor))
    edx := setLo r.edx (lo (dividend % divisor)) }

/-- `div cl`: the quotient goes to AL and the remainder to AH. -/
def divCl (r : FloppyRegs) : Option FloppyRegs := do
  let divisor : Half := (lowByte r.ecx).setWidth 16
  guard (divisor ≠ 0 ∧ (lo r.eax / divisor).toNat < 256)
  some { r with
    eax := setLo r.eax ((lo r.eax % divisor).setWidth 8 ++ (lo r.eax / divisor).setWidth 8) }

/-- `floppy_lba_to_chs` -/
def floppyLbaToChs (r : FloppyRegs) : Option FloppyRegs := do
  let r := { r with edx := r.eax >>> 16 }
  let r := { r with
    ecx := setLo r.ecx (BitVec.ofNat 16 (floppyHeadsPerCylinder * floppySectorsPerTrack)) }
  let r ← divCx r
  -- the byte at `[ebp-1]`
  let cyl := lowByte r.eax
  let r := { r with eax := setLo r.eax (lo r.edx) }
  let r := { r with ecx := setLo r.ecx (highByte r.ecx ++ BitVec.ofNat 8 floppySectorsPerTrack) }
  let r ← divCl r
  let r := { r with ecx := setLo r.ecx (highByte r.ecx ++ highByte r.eax) }
  let r := { r with ecx := setLo r.ecx (highByte r.ecx ++ (lowByte r.ecx + 1)) }
  -- `xchg al, ah`
  let r := { r with eax := setLo r.eax (lowByte r.eax ++ highByte r.eax) }
  some { r with eax := setLo r.eax (highByte r.eax ++ cyl) }

/-- AL, AH and CL on return. -/
structure FloppyAddress (lba : Nat) (r : FloppyRegs) : Prop where
  cylinder : (lowByte r.eax).toNat = lba / 36 % 256
  head : (highByte r.eax).toNat = lba % 36 / 18
  sector : (lowByte r.ecx).toNat = lba % 36 % 18 + 1

theorem toNat_shiftAppend (x : Word) : (lo (x >>> 16) ++ lo x : Word).toNat = x.toNat := by
  have hx := x.isLt
  have hlow := (lo x).isLt
  rw [BitVec.toNat_append, ← Nat.shiftLeft_add_eq_or_of_lt hlow, Nat.shiftLeft_eq, toNat_lo,
    toNat_lo, BitVec.toNat_ushiftRight, Nat.shiftRight_eq_div_pow]
  omega

theorem lo_eq_ofNat (x : Word) : lo x = BitVec.ofNat 16 x.toNat := by
  apply BitVec.eq_of_toNat_eq
  rw [toNat_lo, BitVec.toNat_ofNat]

theorem setWidth_eq_ofNat (x : Half) : x.setWidth 8 = BitVec.ofNat 8 x.toNat := by
  apply BitVec.eq_of_toNat_eq
  rw [BitVec.toNat_setWidth, BitVec.toNat_ofNat]

theorem divCx_eq {r : FloppyRegs} {dividend divisor : Nat}
    (hdividend : (lo r.edx ++ lo r.eax : Word).toNat = dividend)
    (hdivisor : (lo r.ecx).toNat = divisor) (hpos : 0 < divisor)
    (hfits : dividend / divisor < 65536) :
    divCx r = some { r with
      eax := setLo r.eax (BitVec.ofNat 16 (dividend / divisor))
      edx := setLo r.edx (BitVec.ofNat 16 (dividend % divisor)) } := by
  have hwide : ((lo r.ecx).setWidth 32 : Word).toNat = divisor := by
    rw [BitVec.toNat_setWidth, hdivisor]
    have hlt := (lo r.ecx).isLt
    omega
  have hquot : ((lo r.edx ++ lo r.eax : Word) / (lo r.ecx).setWidth 32).toNat
      = dividend / divisor := by
    rw [BitVec.toNat_udiv, hdividend, hwide]
  have hrem : ((lo r.edx ++ lo r.eax : Word) % (lo r.ecx).setWidth 32).toNat
      = dividend % divisor := by
    rw [BitVec.toNat_umod, hdividend, hwide]
  have hguard : (lo r.ecx).setWidth 32 ≠ (0 : Word) ∧
      ((lo r.edx ++ lo r.eax : Word) / (lo r.ecx).setWidth 32).toNat < 65536 := by
    refine ⟨?_, by omega⟩
    intro hzero
    rw [hzero] at hwide
    exact absurd hwide (Nat.ne_of_lt hpos)
  simp only [divCx, guard, if_pos hguard, Option.bind_eq_bind, Option.bind_some,
    Option.pure_def]
  rw [lo_eq_ofNat (_ / _), lo_eq_ofNat (_ % _), hquot, hrem]

theorem divCl_eq {r : FloppyRegs} {dividend divisor : Nat}
    (hdividend : (lo r.eax).toNat = dividend) (hdivisor : (lowByte r.ecx).toNat = divisor)
    (hpos : 0 < divisor) (hfits : dividend / divisor < 256) :
    divCl r = some { r with
      eax := setLo r.eax
        (BitVec.ofNat 8 (dividend % divisor) ++ BitVec.ofNat 8 (dividend / divisor)) } := by
  have hwide : ((lowByte r.ecx).setWidth 16 : Half).toNat = divisor := by
    rw [BitVec.toNat_setWidth, hdivisor]
    have hlt := (lowByte r.ecx).isLt
    omega
  have hquot : (lo r.eax / (lowByte r.ecx).setWidth 16).toNat = dividend / divisor := by
    rw [BitVec.toNat_udiv, hdividend, hwide]
  have hrem : (lo r.eax % (lowByte r.ecx).setWidth 16).toNat = dividend % divisor := by
    rw [BitVec.toNat_umod, hdividend, hwide]
  have hguard : (lowByte r.ecx).setWidth 16 ≠ (0 : Half) ∧
      (lo r.eax / (lowByte r.ecx).setWidth 16).toNat < 256 := by
    refine ⟨?_, by omega⟩
    intro hzero
    rw [hzero] at hwide
    exact absurd hwide (Nat.ne_of_lt hpos)
  simp only [divCl, guard, if_pos hguard, Option.bind_eq_bind, Option.bind_some,
    Option.pure_def]
  rw [setWidth_eq_ofNat, setWidth_eq_ofNat, hquot, hrem]

theorem lowByte_toNat (x : Word) : (lowByte x).toNat = x.toNat % 256 := BitVec.toNat_setWidth 8 x

/-- The conversion does not fault where the cylinder has at most 16 bits, and returns its
low byte. -/
theorem floppyLbaToChs_spec (r : FloppyRegs) (hlba : r.eax.toNat < 36 * 65536) :
    ∃ r', floppyLbaToChs r = some r' ∧ FloppyAddress r.eax.toNat r' := by
  let x := r.eax.toNat % 36
  have hx : x < 36 := Nat.mod_lt _ (by omega)
  let r₁ : FloppyRegs := { r with edx := r.eax >>> 16, ecx := setLo r.ecx (BitVec.ofNat 16 36) }
  have hfirst := divCx_eq (r := r₁) (toNat_shiftAppend r.eax) (by simp [r₁]) (by decide : 0 < 36)
    (by omega)
  let r₂ : FloppyRegs := { r₁ with
    eax := setLo (setLo r.eax (BitVec.ofNat 16 (r.eax.toNat / 36))) (BitVec.ofNat 16 x)
    ecx := setLo r₁.ecx (highByte r₁.ecx ++ BitVec.ofNat 8 18)
    edx := setLo r₁.edx (BitVec.ofNat 16 x) }
  have hax : (lo r₂.eax).toNat = x := by
    rw [lo_setLo, BitVec.toNat_ofNat]
    exact Nat.mod_eq_of_lt (by omega)
  have hcl : (lowByte r₂.ecx).toNat = 18 := by
    rw [lowByte_setLo]
    rfl
  have hsecond := divCl_eq hax hcl (by decide : 0 < 18) (by omega)
  have hcyl : (lowByte (setLo r.eax (BitVec.ofNat 16 (r.eax.toNat / 36)))).toNat
      = r.eax.toNat / 36 % 256 := by
    rw [lowByte_toNat, toNat_setLo, BitVec.toNat_ofNat]
    omega
  let eax := setLo r₂.eax (BitVec.ofNat 8 (x % 18) ++ BitVec.ofNat 8 (x / 18))
  let cyl := lowByte (setLo r.eax (BitVec.ofNat 16 (r.eax.toNat / 36)))
  let r₃ : FloppyRegs := { r₂ with
    eax := setLo eax (BitVec.ofNat 8 (x / 18) ++ cyl)
    ecx := setLo r₂.ecx (highByte r₂.ecx ++ (BitVec.ofNat 8 (x % 18) + 1)) }
  refine ⟨r₃, ?_, ?_, ?_, ?_⟩
  · simp only [floppyLbaToChs, floppyHeadsPerCylinder, floppySectorsPerTrack]
    rw [show divCx { r with edx := r.eax >>> 16, ecx := setLo r.ecx (BitVec.ofNat 16 (2 * 18)) }
      = _ from hfirst]
    simp only [Option.bind_eq_bind, Option.bind_some, lo_setLo]
    rw [show divCl _ = _ from hsecond]
    simp only [Option.bind_some, setLo_setLo, lowByte_setLo, highByte_setLo, r₃, eax, cyl, r₂]
    rfl
  · rw [lowByte_setLo]
    exact hcyl
  · rw [highByte_setLo, BitVec.toNat_ofNat]
    exact Nat.mod_eq_of_lt (by omega)
  · rw [lowByte_setLo, BitVec.toNat_add, BitVec.toNat_ofNat]
    simp only [BitVec.ofNat_eq_ofNat, BitVec.toNat_ofNat]
    omega

end StupidOS.Kernel
