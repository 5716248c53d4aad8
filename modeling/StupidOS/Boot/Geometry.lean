import StupidOS.Boot.Disk
import StupidOS.Kernel.Floppy

/-!
# Sector numbers as cylinder, head and sector

A disk of given heads and sectors per track has one address for each sector number. Two
routines compute it: `disk_read_sectors` of the loader, which hands it to `int 0x13` in CH,
CL and DH, and `floppy_lba_to_chs` of the kernel.
-/

namespace StupidOS.Boot

/-! ## Addresses -/

/-- Cylinder, head and sector number. -/
structure SectorAddress where
  cylinder : Nat
  head : Nat
  sector : Nat
deriving DecidableEq, Repr

/-- `a` is an address of `lba` on a disk with `sectors` per track and `heads`. -/
structure Addresses (sectors heads lba : Nat) (a : SectorAddress) : Prop where
  head_lt : a.head < heads
  sector_pos : 1 ≤ a.sector
  sector_le : a.sector ≤ sectors
  lba_eq : (a.cylinder * heads + a.head) * sectors + (a.sector - 1) = lba

def sectorAddress (sectors heads lba : Nat) : SectorAddress :=
  ⟨lba / sectors / heads, lba / sectors % heads, lba % sectors + 1⟩

/-- Every sector number has one address. -/
theorem addresses_iff {sectors heads lba : Nat} (hsectors : 0 < sectors) (hheads : 0 < heads)
    (a : SectorAddress) : Addresses sectors heads lba a ↔ a = sectorAddress sectors heads lba := by
  constructor
  · intro h
    have hsector : a.sector - 1 < sectors := by
      have hpos := h.sector_pos
      have hle := h.sector_le
      omega
    have hlba : lba = sectors * (a.cylinder * heads + a.head) + (a.sector - 1) := by
      rw [← h.lba_eq, Nat.mul_comm]
    have htrack : lba / sectors = heads * a.cylinder + a.head := by
      rw [hlba, Nat.mul_add_div hsectors, Nat.div_eq_of_lt hsector, Nat.add_zero, Nat.mul_comm]
    have hrem : lba % sectors = a.sector - 1 := by
      rw [hlba, Nat.mul_add_mod, Nat.mod_eq_of_lt hsector]
    have hcylinder : lba / sectors / heads = a.cylinder := by
      rw [htrack, Nat.mul_add_div hheads, Nat.div_eq_of_lt h.head_lt, Nat.add_zero]
    have hhead : lba / sectors % heads = a.head := by
      rw [htrack, Nat.mul_add_mod, Nat.mod_eq_of_lt h.head_lt]
    have hpos := h.sector_pos
    rw [sectorAddress, hcylinder, hhead, hrem, Nat.sub_add_cancel hpos]
  · intro h
    subst h
    refine ⟨Nat.mod_lt _ hheads, Nat.le_add_left 1 _, Nat.mod_lt _ hsectors, ?_⟩
    change (lba / sectors / heads * heads + lba / sectors % heads) * sectors
      + (lba % sectors + 1 - 1) = lba
    rw [Nat.mul_comm _ heads, Nat.div_add_mod, Nat.add_sub_cancel, Nat.mul_comm, Nat.div_add_mod]

/-! ## The loader -/

/-- What function 02h makes of CH, CL and DH: CL holds the upper bits of the cylinder. -/
def decodeChs (ch cl dh : Byte) : SectorAddress :=
  ⟨ch.toNat + 256 * (cl.toNat / 64), dh.toNat, cl.toNat % 64⟩

variable (B : Bios) (v : LoaderData)

/-- The registers at the `int 0x13` of `disk_read_sectors`. -/
def int13State (s : Cpu) : Cpu :=
  let s := ((s.push (lo s.eax)).push (lo s.ebx)).push (lo s.ecx)
  let chs := lbaToChs v (lo s.eax)
  { s with
    eax := setLo s.eax ((0x02 : Byte) ++ (0x01 : Byte))
    ecx := setLo s.ecx (chs.c.setWidth 8 ++ chs.s.setWidth 8)
    edx := setLo s.edx (chs.h.setWidth 8 ++ v.uDrive) }

/-- `int13State` is what the loop over the sectors hands to the BIOS. -/
theorem chsRead_int13 (s : Cpu) : chsRead B v s = (do
    guard (v.sectorsPerTrack ≠ 0)
    guard (v.headsPerCylinder ≠ 0)
    match B.int13Read (int13State v s) with
    | (true, s) => (B.logError s).ret.map .done
    | (false, s) => do
      let (cx, s) ← s.pop
      let (bx, s) ← s.pop
      let (ax, s) ← s.pop
      let s := { s with
        ebx := setLo s.ebx (bx + v.bytesPerSector)
        eax := setLo s.eax (ax + 1)
        ecx := setLo s.ecx (cx - 1) }
      if lo s.ecx ≠ 0 then some (.again s) else s.ret.map .done) :=
  rfl

/-- The address that the BIOS gets. -/
def handedAddress (s : Cpu) : SectorAddress :=
  let s := int13State v s
  decodeChs (highByte s.ecx) (lowByte s.ecx) (highByte s.edx)

variable {v}

/-- A geometry that the registers of function 02h can hold. -/
structure BiosGeometry (v : LoaderData) : Prop where
  sectors_pos : 1 ≤ v.sectorsPerTrack.toNat
  sectors_le : v.sectorsPerTrack.toNat ≤ 63
  heads_pos : 1 ≤ v.headsPerCylinder.toNat
  heads_le : v.headsPerCylinder.toNat ≤ 255

/-- The address is right up to the upper bits of the cylinder, which are lost. -/
theorem handedAddress_eq (hg : BiosGeometry v) (s : Cpu) :
    handedAddress v s =
      { sectorAddress v.sectorsPerTrack.toNat v.headsPerCylinder.toNat (lo s.eax).toNat with
        cylinder :=
          (lo s.eax).toNat / v.sectorsPerTrack.toNat / v.headsPerCylinder.toNat % 256 } := by
  have hsector := Nat.mod_lt (lo s.eax).toNat hg.sectors_pos
  have hsectors := hg.sectors_le
  have hhead := Nat.mod_lt ((lo s.eax).toNat / v.sectorsPerTrack.toNat) hg.heads_pos
  have hheads := hg.heads_le
  have hs : (lo s.eax % v.sectorsPerTrack + 1).toNat
      = (lo s.eax).toNat % v.sectorsPerTrack.toNat + 1 := by
    have hone : (1 : Half).toNat = 1 := rfl
    rw [BitVec.toNat_add, BitVec.toNat_umod, hone]
    exact Nat.mod_eq_of_lt (by omega)
  simp only [handedAddress, int13State, Cpu.push, decodeChs, lbaToChs, highByte_setLo,
    lowByte_setLo, BitVec.toNat_setWidth, BitVec.toNat_udiv, BitVec.toNat_umod, hs, sectorAddress,
    SectorAddress.mk.injEq]
  refine ⟨?_, ?_, ?_⟩
  -- CL holds a sector number below 64, so nothing but CH adds to the cylinder
  · have hzero : ((lo s.eax).toNat % v.sectorsPerTrack.toNat + 1) % 2 ^ 8 / 64 = 0 := by omega
    rw [hzero, Nat.mul_zero, Nat.add_zero]
  · exact Nat.mod_eq_of_lt (by omega)
  · omega

theorem handedAddress_iff (hg : BiosGeometry v) (s : Cpu) :
    Addresses v.sectorsPerTrack.toNat v.headsPerCylinder.toNat (lo s.eax).toNat (handedAddress v s)
      ↔ (lo s.eax).toNat / v.sectorsPerTrack.toNat / v.headsPerCylinder.toNat < 256 := by
  rw [addresses_iff hg.sectors_pos hg.heads_pos, handedAddress_eq hg, sectorAddress,
    SectorAddress.mk.injEq]
  constructor
  · intro h
    rw [← h.1]
    exact Nat.mod_lt _ (by omega)
  · intro h
    exact ⟨Nat.mod_eq_of_lt h, rfl, rfl⟩

/-! ## The kernel -/

/-- What `floppy_lba_to_chs` returns in AL, AH and CL. -/
def returnedAddress (r : Kernel.FloppyRegs) : SectorAddress :=
  ⟨(lowByte r.eax).toNat, (highByte r.eax).toNat, (lowByte r.ecx).toNat⟩

/-- On the floppy both conversions give the address of the sector. -/
structure FloppyAgrees (s : Cpu) (r : Kernel.FloppyRegs) : Prop where
  addresses : Addresses Kernel.floppySectorsPerTrack Kernel.floppyHeadsPerCylinder
    (lo s.eax).toNat (returnedAddress r)
  same : returnedAddress r = handedAddress floppyData s

theorem floppy_biosGeometry : BiosGeometry floppyData := by
  refine ⟨?_, ?_, ?_, ?_⟩ <;> decide

theorem returnedAddress_eq {lba : Nat} {r : Kernel.FloppyRegs}
    (hlba : lba < Kernel.floppyTotalSectors) (h : Kernel.FloppyAddress lba r) :
    returnedAddress r = sectorAddress 18 2 lba := by
  rw [Kernel.floppyTotalSectors] at hlba
  rw [returnedAddress, h.cylinder, h.head, h.sector, sectorAddress, SectorAddress.mk.injEq]
  refine ⟨?_, ?_, ?_⟩ <;> omega

theorem floppy_agrees {s : Cpu} {r : Kernel.FloppyRegs} (hax : (lo s.eax).toNat = r.eax.toNat)
    (hlba : r.eax.toNat < Kernel.floppyTotalSectors) :
    ∃ r', Kernel.floppyLbaToChs r = some r' ∧ FloppyAgrees s r' := by
  have hsmall : r.eax.toNat < 2880 := hlba
  rcases Kernel.floppyLbaToChs_spec r (by omega) with ⟨r', hrun, haddress⟩
  have hreturned := returnedAddress_eq hlba haddress
  refine ⟨r', hrun, ?_, ?_⟩
  · rw [hax, hreturned]
    exact (addresses_iff (by decide) (by decide) _).2 rfl
  · have hhanded : handedAddress floppyData s = sectorAddress 18 2 (lo s.eax).toNat :=
      (addresses_iff (by decide) (by decide) _).1
        ((handedAddress_iff floppy_biosGeometry s).2 (by
          change (lo s.eax).toNat / 18 / 2 < 256
          omega))
    rw [hreturned, hhanded, hax]

/-- **Sector numbers to cylinder, head and sector.** The loader hands the address of the
sector to the BIOS exactly when the cylinder fits a byte; on the floppy it always does, and
the kernel computes the same address. -/
theorem chsConversion_iff (hg : BiosGeometry v) (s : Cpu) :
    (Addresses v.sectorsPerTrack.toNat v.headsPerCylinder.toNat (lo s.eax).toNat (handedAddress v s)
      ↔ (lo s.eax).toNat / v.sectorsPerTrack.toNat / v.headsPerCylinder.toNat < 256) ∧
      ∀ s (r : Kernel.FloppyRegs), (lo s.eax).toNat = r.eax.toNat →
        r.eax.toNat < Kernel.floppyTotalSectors →
        ∃ r', Kernel.floppyLbaToChs r = some r' ∧ FloppyAgrees s r' := by
  constructor
  · exact handedAddress_iff hg s
  · intro s r hax hlba
    exact floppy_agrees hax hlba

/-- Cylinder 256 of a disk with the floppy's geometry is taken for cylinder 0. -/
theorem chsConversion_counterexample :
    ¬ Addresses 18 2 9216 (handedAddress floppyData { floppyRequest 1 with eax := 9216 }) := by
  rw [addresses_iff (by decide) (by decide)]
  decide

theorem chsConversion_iff_floppy :
    Addresses 18 2 2879 (handedAddress floppyData { floppyRequest 1 with eax := 2879 }) ∧
      ∃ r', Kernel.floppyLbaToChs ⟨2879, 0, 0⟩ = some r' ∧
        FloppyAgrees { floppyRequest 1 with eax := 2879 } r' := by
  rcases chsConversion_iff floppy_biosGeometry { floppyRequest 1 with eax := 2879 } with
    ⟨hhanded, hkernel⟩
  exact ⟨hhanded.mpr (by decide), hkernel _ ⟨2879, 0, 0⟩ (by decide) (by decide)⟩

end StupidOS.Boot
