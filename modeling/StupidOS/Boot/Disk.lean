import Mathlib.Tactic.Ring
import StupidOS.Boot.Bios

/-!
# Reading sectors (`loader/disk.inc`)

`disk_read_sectors` reads with one function 42h packet when the BIOS has the disk
extensions, and else sector by sector with function 02h, after converting the
sector number to cylinder, head and sector. What either path moves is a list of
transfers (`diskTransfers`), and `callDiskReadSectors_spec` says what a call
leaves behind. The last section compares the two paths.
-/

namespace StupidOS.Boot

/-- The variables of the loader that the disk and file system code uses. They lie
outside the memory that files are read into. -/
structure LoaderData where
  uDrive : Byte
  bDriveLBA : Byte := 0
  sectorsPerTrack : Half := 18
  headsPerCylinder : Half := 2
  bytesPerSector : Half := 512
  sectorsPerFAT : Half := 9
  FATCount : Byte := 2
  reservedSectors : Half := 1
  rootDirEntries : Half := 224
  sectorsPerCluster : Byte := 1
  dataStart : Half := 0
  inodeCache : Bytes

/-- `TRUE` -/
def true8 : Byte := 1

/-- `FALSE` -/
def false8 : Byte := 0

/-! ## The routine -/

/-- The variables `C`, `H` and `S`. -/
structure Chs where
  c : Half
  h : Half
  s : Half
deriving DecidableEq, Repr

/-- The two divisions of `disk_read_sectors`. -/
def lbaToChs (v : LoaderData) (ax : Half) : Chs where
  c := ax / v.sectorsPerTrack / v.headsPerCylinder
  h := ax / v.sectorsPerTrack % v.headsPerCylinder
  s := ax % v.sectorsPerTrack + 1

variable (B : Bios) (v : LoaderData)

/-- `.lba_read` -/
def lbaRead (s : Cpu) : Option Exit := do
  let s := s.push (lo s.esi)
  let packet : DiskPacket := ⟨lo s.ecx, lo s.ebx, s.es, s.eax⟩
  -- SI points at the packet from here to the pop
  let s := { s with edx := setLo s.edx (highByte s.edx ++ v.uDrive) }
  let s := { s with eax := setLo s.eax ((0x42 : Byte) ++ lowByte s.eax) }
  match B.int13ExtRead s packet with
  | (true, s) => (B.logError s).ret
  | (false, s) => do
    let (si, s) ← s.pop
    { s with esi := setLo s.esi si }.ret

/-- One pass of the loop over the sectors. -/
def chsRead (s : Cpu) : Option (Pass Cpu Exit) := do
  let s := ((s.push (lo s.eax)).push (lo s.ebx)).push (lo s.ecx)
  -- divide error
  guard (v.sectorsPerTrack ≠ 0)
  guard (v.headsPerCylinder ≠ 0)
  let chs := lbaToChs v (lo s.eax)
  let s := { s with
    eax := setLo s.eax ((0x02 : Byte) ++ (0x01 : Byte))
    ecx := setLo s.ecx (chs.c.setWidth 8 ++ chs.s.setWidth 8)
    edx := setLo s.edx (chs.h.setWidth 8 ++ v.uDrive) }
  match B.int13Read s with
  | (true, s) => (B.logError s).ret.map .done
  | (false, s) => do
    let (cx, s) ← s.pop
    let (bx, s) ← s.pop
    let (ax, s) ← s.pop
    let s := { s with
      ebx := setLo s.ebx (bx + v.bytesPerSector)
      eax := setLo s.eax (ax + 1)
      ecx := setLo s.ecx (cx - 1) }
    if lo s.ecx ≠ 0 then some (.again s) else s.ret.map .done

def diskReadSectorsBody (s : Cpu) : Option (Pass Cpu Exit) :=
  if v.bDriveLBA = true8 then (lbaRead B v s).map .done else chsRead B v s

/-- `disk_read_sectors`. CX has 16 bits, so there are at most 65536 passes. -/
def diskReadSectors (s : Cpu) : Option Exit :=
  iterate (diskReadSectorsBody B v) 65536 s

/-- `call disk_read_sectors`, when the routine comes back to the instruction after
the call. -/
def callDiskReadSectors (s : Cpu) : Option Cpu :=
  match diskReadSectors B v { s with
      stack := .ret :: s.stack
      requests := s.requests ++ [(lo s.eax, lo s.ecx)] } with
  | some (.returned s') => some s'
  | _ => none

/-! ## What a call moves -/

/-- The sector that the BIOS reads for AX on the CHS path. -/
def chsSector (ax : Half) : Nat :=
  let chs := lbaToChs v ax
  B.chsAddress (chs.c.setWidth 8) (chs.s.setWidth 8) (chs.h.setWidth 8)

/-- Passes of `loop` for CX: 65536 when CX is 0. -/
def loopCount (cx : Half) : Nat := (cx - 1).toNat + 1

/-- Sector `i` of the CHS path. -/
def chsTransfer (es ax bx : Half) (i : Nat) : Transfer :=
  ⟨chsSector B v (ax + BitVec.ofNat 16 i), linear es (bx + BitVec.ofNat 16 i * v.bytesPerSector)⟩

/-- The sectors that a call moves. -/
def diskTransfers (s : Cpu) : List Transfer :=
  if v.bDriveLBA = true8 then
    B.sectorRun s.eax.toNat (linear s.es (lo s.ebx)) (lo s.ecx).toNat
  else
    (List.range (loopCount (lo s.ecx))).map (chsTransfer B v s.es (lo s.eax) (lo s.ebx))

/-- BX after a call. -/
def exitBX (s : Cpu) : Half :=
  if v.bDriveLBA = true8 then lo s.ebx
  else lo s.ebx + BitVec.ofNat 16 (loopCount (lo s.ecx)) * v.bytesPerSector

/-- `s'` is `s` after the transfers `ts`; the registers that the routine uses are
left open. -/
structure Moved (ts : List Transfer) (s s' : Cpu) : Prop where
  mem : s'.mem = loads B.sectors B.sectorSize ts s.mem
  transfers : s'.transfers = s.transfers ++ ts
  es : s'.es = s.es
  esi : s'.esi = s.esi
  stack : s'.stack = s.stack

variable {B v}

theorem Moved.trans {ts us : List Transfer} {s s' s'' : Cpu} (h : Moved B ts s s')
    (h' : Moved B us s' s'') : Moved B (ts ++ us) s s'' := by
  refine ⟨?_, ?_, ?_, ?_, ?_⟩
  · rw [h'.mem, h.mem, loads_append]
  · rw [h'.transfers, h.transfers, List.append_assoc]
  · rw [h'.es, h.es]
  · rw [h'.esi, h.esi]
  · rw [h'.stack, h.stack]

/-! ## A call without disk errors -/

/-- No read asked of the BIOS fails. -/
def Bios.NoError (B : Bios) : Prop := ∀ k, B.carry k = false

theorem lbaRead_ok {s : Cpu} (hok : B.carry s.calls = false) :
    ∃ s', Moved B (B.sectorRun s.eax.toNat (linear s.es (lo s.ebx)) (lo s.ecx).toNat) s s' ∧
      s'.ebx = s.ebx ∧ s'.requests = s.requests ∧ lbaRead B v s = s'.ret := by
  refine ⟨{ s with
    eax := setLo s.eax ((0x42 : Byte) ++ lowByte s.eax)
    edx := setLo s.edx (highByte s.edx ++ v.uDrive)
    calls := s.calls + 1
    mem := loads B.sectors B.sectorSize
      (B.sectorRun s.eax.toNat (linear s.es (lo s.ebx)) (lo s.ecx).toNat) s.mem
    transfers := s.transfers ++
      B.sectorRun s.eax.toNat (linear s.es (lo s.ebx)) (lo s.ecx).toNat },
    ⟨rfl, rfl, rfl, rfl, rfl⟩, rfl, rfl, ?_⟩
  simp only [lbaRead, Bios.int13ExtRead, Bios.read, hok, Bool.false_eq_true, if_false, Cpu.push,
    Cpu.pop, Option.bind_eq_bind, Option.bind_some, setLo_lo]

/-- The state after one sector of the CHS path. -/
structure ChsPassed (B : Bios) (v : LoaderData) (s s' : Cpu) : Prop where
  moved : Moved B [chsTransfer B v s.es (lo s.eax) (lo s.ebx) 0] s s'
  eax : s'.eax = setLo s.eax (lo s.eax + 1)
  ebx : s'.ebx = setLo s.ebx (lo s.ebx + v.bytesPerSector)
  ecx : lo s'.ecx = lo s.ecx - 1
  requests : s'.requests = s.requests

theorem chsRead_ok {s : Cpu} (hok : B.carry s.calls = false) (hspt : v.sectorsPerTrack ≠ 0)
    (hheads : v.headsPerCylinder ≠ 0) :
    ∃ s', ChsPassed B v s s' ∧ s'.calls = s.calls + 1 ∧ chsRead B v s =
      if lo s'.ecx ≠ 0 then some (.again s') else s'.ret.map .done := by
  have hts : B.sectorRun (chsSector B v (lo s.eax)) (linear s.es (lo s.ebx)) 1
      = [chsTransfer B v s.es (lo s.eax) (lo s.ebx) 0] := by
    simp [Bios.sectorRun, chsTransfer]
  refine ⟨{ s with
    eax := setLo s.eax (lo s.eax + 1)
    ebx := setLo s.ebx (lo s.ebx + v.bytesPerSector)
    ecx := setLo s.ecx (lo s.ecx - 1)
    edx := setLo s.edx ((lbaToChs v (lo s.eax)).h.setWidth 8 ++ v.uDrive)
    calls := s.calls + 1
    mem := loads B.sectors B.sectorSize
      [chsTransfer B v s.es (lo s.eax) (lo s.ebx) 0] s.mem
    transfers := s.transfers ++ [chsTransfer B v s.es (lo s.eax) (lo s.ebx) 0] },
    ⟨⟨rfl, rfl, rfl, rfl, rfl⟩, rfl, rfl, ?_, rfl⟩, rfl, ?_⟩
  · exact lo_setLo _ _
  · rw [← hts]
    simp only [chsRead, guard, if_pos hspt, if_pos hheads, Bios.int13Read, Bios.read, hok,
      Bool.false_eq_true, if_false, Cpu.push, Cpu.pop, Option.bind_eq_bind, Option.bind_some,
      Option.pure_def, highByte_setLo, lowByte_setLo, setLo_setLo, lo_setLo, chsSector]
    split
    · rfl
    · rfl

theorem diskReadSectorsBody_chs (hv : v.bDriveLBA ≠ true8) {s : Cpu} :
    diskReadSectorsBody B v s = chsRead B v s := by
  rw [diskReadSectorsBody, if_neg hv]

theorem ofNat_succ (i : Nat) : BitVec.ofNat 16 (i + 1) = BitVec.ofNat 16 i + 1 :=
  BitVec.ofNat_add i 1

theorem chsTransfer_succ (es ax bx : Half) (i : Nat) :
    chsTransfer B v es (ax + 1) (bx + v.bytesPerSector) i = chsTransfer B v es ax bx (i + 1) := by
  have hax : ax + 1 + BitVec.ofNat 16 i = ax + BitVec.ofNat 16 (i + 1) := by
    rw [ofNat_succ]
    ring
  have hbx : bx + v.bytesPerSector + BitVec.ofNat 16 i * v.bytesPerSector
      = bx + BitVec.ofNat 16 (i + 1) * v.bytesPerSector := by
    rw [ofNat_succ]
    ring
  rw [chsTransfer, chsTransfer, hax, hbx]

/-- What the loop over the sectors leaves, with `n + 1` sectors to go. -/
theorem chs_run (hv : v.bDriveLBA ≠ true8) (hspt : v.sectorsPerTrack ≠ 0)
    (hheads : v.headsPerCylinder ≠ 0) {n fuel : Nat} (hfuel : n < fuel) (s : Cpu)
    (hok : ∀ i, i ≤ n → B.carry (s.calls + i) = false) (hcx : (lo s.ecx - 1).toNat = n) :
    ∃ s', Moved B ((List.range (n + 1)).map (chsTransfer B v s.es (lo s.eax) (lo s.ebx))) s s' ∧
      s'.ebx = setLo s.ebx (lo s.ebx + BitVec.ofNat 16 (n + 1) * v.bytesPerSector) ∧
      s'.requests = s.requests ∧ iterate (diskReadSectorsBody B v) fuel s = s'.ret := by
  -- on the number of sectors after the first one
  rcases Nat.exists_eq_add_of_lt hfuel with ⟨k, rfl⟩
  induction n generalizing s k with
  | zero =>
      rcases chsRead_ok (hok 0 (by omega)) hspt hheads with ⟨s', hs', _, hrun⟩
      have hzero : ¬ lo s'.ecx ≠ 0 := by
        rw [hs'.ecx]
        bv_omega
      rw [if_neg hzero, ← diskReadSectorsBody_chs hv] at hrun
      refine ⟨s', hs'.moved, ?_, hs'.requests, iterate_map_done hrun (0 + k)⟩
      rw [hs'.ebx]
      simp
  | succ n ih =>
      rcases chsRead_ok (hok 0 (by omega)) hspt hheads with ⟨s₁, hs₁, hcalls, hrun⟩
      have hmore : lo s₁.ecx ≠ 0 := by
        rw [hs₁.ecx]
        bv_omega
      have hok₁ : ∀ i, i ≤ n → B.carry (s₁.calls + i) = false := by
        intro i hi
        rw [hcalls, Nat.add_right_comm]
        exact hok (i + 1) (by omega)
      have hcx₁ : (lo s₁.ecx - 1).toNat = n := by
        rw [hs₁.ecx]
        bv_omega
      rw [if_pos hmore, ← diskReadSectorsBody_chs hv] at hrun
      rcases ih s₁ hok₁ hcx₁ k (by omega) with ⟨s', hmoved, hebx, hreq, hiter⟩
      refine ⟨s', ?_, ?_, ?_, ?_⟩
      -- the sectors of the rest are those from the second on
      · have htail : (List.range (n + 1)).map (chsTransfer B v s₁.es (lo s₁.eax) (lo s₁.ebx))
            = (List.range (n + 1)).map
              (chsTransfer B v s.es (lo s.eax) (lo s.ebx) ∘ Nat.succ) := by
          apply List.map_congr_left
          intro i _
          rw [hs₁.moved.es, hs₁.eax, hs₁.ebx, lo_setLo, lo_setLo]
          exact chsTransfer_succ s.es (lo s.eax) (lo s.ebx) i
        rw [htail] at hmoved
        rw [List.range_succ_eq_map, List.map_cons, List.map_map]
        exact hs₁.moved.trans hmoved
      · rw [hebx, hs₁.ebx, lo_setLo, setLo_setLo]
        congr 1
        rw [ofNat_succ (n + 1)]
        ring
      · rw [hreq, hs₁.requests]
      · have hfuel' : n + 1 + k + 1 = n + k + 1 + 1 := by omega
        rw [hfuel', iterate_again hrun]
        exact hiter

theorem loopCount_eq {cx : Half} (h : cx ≠ 0) : loopCount cx = cx.toNat := by
  rw [loopCount]
  bv_omega

/-- What a call of `disk_read_sectors` leaves. -/
structure DiskDone (B : Bios) (v : LoaderData) (s s' : Cpu) : Prop where
  moved : Moved B (diskTransfers B v s) s s'
  ebx : s'.ebx = setLo s.ebx (exitBX v s)
  requests : s'.requests = s.requests ++ [(lo s.eax, lo s.ecx)]

/-- A call returns when no read fails and the geometry is not zero. -/
theorem callDiskReadSectors_spec (hok : B.NoError) (hspt : v.sectorsPerTrack ≠ 0)
    (hheads : v.headsPerCylinder ≠ 0) (s : Cpu) :
    ∃ s', callDiskReadSectors B v s = some s' ∧ DiskDone B v s s' := by
  let s₀ : Cpu := { s with
    stack := .ret :: s.stack
    requests := s.requests ++ [(lo s.eax, lo s.ecx)] }
  have hrun : ∃ s₁, Moved B (diskTransfers B v s) s₀ s₁ ∧ s₁.ebx = setLo s.ebx (exitBX v s) ∧
      s₁.requests = s₀.requests ∧ diskReadSectors B v s₀ = s₁.ret := by
    by_cases hv : v.bDriveLBA = true8
    · rcases lbaRead_ok (v := v) (hok s₀.calls) with ⟨s₁, hmoved, hebx, hreq, hlba⟩
      rw [diskTransfers, exitBX, if_pos hv, if_pos hv, setLo_lo]
      refine ⟨s₁, hmoved, hebx, hreq, ?_⟩
      apply iterate_map_done
      rw [diskReadSectorsBody, if_pos hv, hlba]
    · rw [diskTransfers, exitBX, if_neg hv, if_neg hv]
      exact chs_run hv hspt hheads (lo s.ecx - 1).isLt s₀ (fun i _ => hok (s₀.calls + i)) rfl
  rcases hrun with ⟨s₁, hmoved, hebx, hreq, hret⟩
  have hstack : s₁.stack = .ret :: s.stack := hmoved.stack
  refine ⟨{ s₁ with stack := s.stack }, ?_,
    ⟨⟨hmoved.mem, hmoved.transfers, hmoved.es, hmoved.esi, rfl⟩, hebx, hreq⟩⟩
  simp only [callDiskReadSectors]
  rw [show diskReadSectors B v { s with
    stack := .ret :: s.stack
    requests := s.requests ++ [(lo s.eax, lo s.ecx)] } = s₁.ret from hret, Cpu.ret, hstack]

/-! ## Sector numbers on the CHS path -/

/-- Cylinder, head and sector number of `lba` fit the byte each of them is stored as:
the upper two bits of the cylinder, which belong into CL, are not set there. -/
def ChsFits (v : LoaderData) (lba : Nat) : Prop :=
  lba / v.sectorsPerTrack.toNat / v.headsPerCylinder.toNat < 256 ∧
    lba / v.sectorsPerTrack.toNat % v.headsPerCylinder.toNat < 256 ∧
    lba % v.sectorsPerTrack.toNat < 63

instance (v : LoaderData) (lba : Nat) : Decidable (ChsFits v lba) :=
  inferInstanceAs (Decidable (_ ∧ _ ∧ _))

/-- The BIOS knows the geometry that the loader divides by. -/
structure SameGeometry (B : Bios) (v : LoaderData) : Prop where
  sectorsPerTrack : B.sectorsPerTrack = v.sectorsPerTrack.toNat
  heads : B.heads = v.headsPerCylinder.toNat
  sectorsPerTrack_pos : v.sectorsPerTrack ≠ 0
  heads_pos : v.headsPerCylinder ≠ 0

/-- A geometry that the divisions do not fault on. -/
structure HasGeometry (v : LoaderData) : Prop where
  sectorsPerTrack : v.sectorsPerTrack ≠ 0
  heads : v.headsPerCylinder ≠ 0

theorem SameGeometry.hasGeometry {B : Bios} {v : LoaderData} (h : SameGeometry B v) :
    HasGeometry v :=
  ⟨h.sectorsPerTrack_pos, h.heads_pos⟩

theorem toNat_pos {x : Half} (h : x ≠ 0) : 0 < x.toNat := by
  bv_omega

/-- The sector that is read, in numbers. -/
theorem chsSector_eq (hg : SameGeometry B v) (ax : Half) :
    chsSector B v ax =
      ((ax.toNat / v.sectorsPerTrack.toNat / v.headsPerCylinder.toNat % 256
            + 256 * ((ax.toNat % v.sectorsPerTrack.toNat + 1) % 256 / 64))
          * v.headsPerCylinder.toNat
        + ax.toNat / v.sectorsPerTrack.toNat % v.headsPerCylinder.toNat % 256)
        * v.sectorsPerTrack.toNat
      + ((ax.toNat % v.sectorsPerTrack.toNat + 1) % 256 % 64 - 1) := by
  have hpos := toNat_pos hg.sectorsPerTrack_pos
  have hmod := Nat.mod_lt ax.toNat hpos
  have hlt := v.sectorsPerTrack.isLt
  have hs : (ax % v.sectorsPerTrack + 1).toNat = ax.toNat % v.sectorsPerTrack.toNat + 1 := by
    have hone : (1 : Half).toNat = 1 := rfl
    rw [BitVec.toNat_add, BitVec.toNat_umod, hone]
    exact Nat.mod_eq_of_lt (by omega)
  simp only [chsSector, Bios.chsAddress, Bios.sectorAt, lbaToChs, BitVec.toNat_setWidth,
    BitVec.toNat_udiv, BitVec.toNat_umod, hs, hg.sectorsPerTrack, hg.heads]

/-- The conversion is exact just when all three numbers fit. -/
theorem chsSector_eq_iff (hg : SameGeometry B v) (ax : Half) :
    chsSector B v ax = ax.toNat ↔ ChsFits v ax.toNat := by
  have hp := toNat_pos hg.sectorsPerTrack_pos
  have hq := toNat_pos hg.heads_pos
  rw [chsSector_eq hg, ChsFits]
  generalize v.sectorsPerTrack.toNat = p at hp ⊢
  generalize v.headsPerCylinder.toNat = q at hq ⊢
  generalize ax.toNat = x
  have hmod := Nat.mod_lt x hp
  have hhead := Nat.mod_lt (x / p) hq
  constructor
  · intro h
    -- the remainder and the quotient by the sectors of a track determine S, then H and C
    have hb : (x % p + 1) % 256 % 64 - 1 < p := by omega
    have hrem : x % p = (x % p + 1) % 256 % 64 - 1 := by
      conv_lhs => rw [← h]
      rw [Nat.mul_comm, Nat.mul_add_mod, Nat.mod_eq_of_lt hb]
    have hs : x % p < 63 := by omega
    have hzero : (x % p + 1) % 256 / 64 = 0 := by omega
    have hdiv : x / p = x / p / q % 256 * q + x / p % q % 256 := by
      conv_lhs => rw [← h, hzero]
      rw [Nat.mul_comm _ p, Nat.mul_add_div hp, Nat.div_eq_of_lt hb]
      simp
    have hlow : x / p % q % 256 < q := Nat.lt_of_le_of_lt (Nat.mod_le _ _) hhead
    have hh : x / p % q = x / p % q % 256 := by
      conv_lhs => rw [hdiv]
      rw [Nat.mul_comm, Nat.mul_add_mod, Nat.mod_eq_of_lt hlow]
    have hc : x / p / q = x / p / q % 256 := by
      conv_lhs => rw [hdiv]
      rw [Nat.mul_comm _ q, Nat.mul_add_div hq, Nat.div_eq_of_lt hlow]
      simp
    have h256 : 0 < 256 := by omega
    refine ⟨?_, ?_, hs⟩
    · rw [hc]
      exact Nat.mod_lt _ h256
    · rw [hh]
      exact Nat.mod_lt _ h256
  · intro h
    rcases h with ⟨hc, hh, hs⟩
    have hzero : (x % p + 1) % 256 / 64 = 0 := by omega
    have hsec : (x % p + 1) % 256 % 64 - 1 = x % p := by omega
    rw [hzero, hsec, Nat.mod_eq_of_lt hc, Nat.mod_eq_of_lt hh, Nat.mul_zero, Nat.add_zero,
      Nat.mul_comm _ q, Nat.div_add_mod, Nat.mul_comm, Nat.div_add_mod]

/-! ## The two paths -/

/-- Both paths return, having moved the sectors AX .. AX+CX-1 to the same addresses,
with BX advanced by CX sectors. -/
structure PathsAgree (B : Bios) (v : LoaderData) (s s₁ s₂ : Cpu) (ts : List Transfer) :
    Prop where
  lba : callDiskReadSectors B { v with bDriveLBA := true8 } s = some s₁
  chs : callDiskReadSectors B { v with bDriveLBA := false8 } s = some s₂
  sectors : ts.map Transfer.block
    = (List.range (lo s.ecx).toNat).map (fun i => (lo s.eax).toNat + i)
  lba_transfers : s₁.transfers = s.transfers ++ ts
  chs_transfers : s₂.transfers = s.transfers ++ ts
  mem : s₁.mem = s₂.mem
  lba_bx : lo s₁.ebx = lo s.ebx + lo s.ecx * 512
  chs_bx : lo s₂.ebx = lo s.ebx + lo s.ecx * 512

/-- 128 sectors, that is 64 KiB, into the first 512 bytes of a segment or what follows
them; a sector number without upper half; and no sector on which AX or one of the CHS
bytes overflows. -/
structure PathsMeet (v : LoaderData) (s : Cpu) : Prop where
  count : lo s.ecx = 128
  buffer : (lo s.ebx).toNat < 512
  upper : s.eax.toNat < 65536
  last : s.eax.toNat + 128 ≤ 65536
  fits : ∀ i, i < 128 → ChsFits v (s.eax.toNat + i)

theorem toNat_add_ofNat {x : Half} {i : Nat} (h : x.toNat + i < 65536) :
    (x + BitVec.ofNat 16 i).toNat = x.toNat + i := by
  have hi : (BitVec.ofNat 16 i).toNat = i := by
    rw [BitVec.toNat_ofNat]
    exact Nat.mod_eq_of_lt (by omega)
  rw [BitVec.toNat_add, hi]
  exact Nat.mod_eq_of_lt h

/-- Offset of sector `i` of a buffer, with 16-bit wrap. -/
theorem toNat_offset (bx : Half) (i : Nat) :
    (bx + BitVec.ofNat 16 i * 512).toNat = (bx.toNat + 512 * i) % 65536 := by
  have h512 : (512 : Half).toNat = 512 := rfl
  rw [BitVec.toNat_add, BitVec.toNat_mul, BitVec.toNat_ofNat, h512]
  omega

/-- The transfers of the two paths, entry by entry. -/
theorem transfers_eq_iff (hsize : B.sectorSize = 512) (hbps : v.bytesPerSector = 512)
    (lba : Nat) (es ax bx : Half) {n : Nat} :
    B.sectorRun lba (linear es bx) n = (List.range n).map (chsTransfer B v es ax bx) ↔
      ∀ i, i < n → lba + i = chsSector B v (ax + BitVec.ofNat 16 i) ∧
        bx.toNat + 512 * i < 65536 := by
  have hentry : ∀ i, (⟨lba + i, linear es bx + B.sectorSize * i⟩ : Transfer)
      = chsTransfer B v es ax bx i ↔
      lba + i = chsSector B v (ax + BitVec.ofNat 16 i) ∧ bx.toNat + 512 * i < 65536 := by
    intro i
    rw [chsTransfer, Transfer.mk.injEq, hsize, hbps, linear, linear, toNat_offset]
    constructor
    · intro h
      exact ⟨h.1, by omega⟩
    · intro h
      exact ⟨h.1, by omega⟩
  rw [Bios.sectorRun, List.map_inj_left]
  constructor
  · intro h i hi
    exact (hentry i).mp (h i (List.mem_range.mpr hi))
  · intro h i hi
    exact (hentry i).mpr (h i (List.mem_range.mp hi))

/-- What the two paths leave. -/
structure PathResults (B : Bios) (v : LoaderData) (s s₁ s₂ : Cpu) : Prop where
  lba : callDiskReadSectors B { v with bDriveLBA := true8 } s = some s₁
  chs : callDiskReadSectors B { v with bDriveLBA := false8 } s = some s₂
  lba_moved : Moved B (B.sectorRun s.eax.toNat (linear s.es (lo s.ebx)) (lo s.ecx).toNat) s s₁
  chs_moved : Moved B ((List.range (lo s.ecx).toNat).map
    (chsTransfer B v s.es (lo s.eax) (lo s.ebx))) s s₂
  lba_bx : lo s₁.ebx = lo s.ebx
  chs_bx : lo s₂.ebx = lo s.ebx + lo s.ecx * 512

theorem pathResults (hok : B.NoError) (hg : SameGeometry B v) (hbps : v.bytesPerSector = 512)
    (s : Cpu) (hcx : lo s.ecx ≠ 0) : ∃ s₁ s₂, PathResults B v s s₁ s₂ := by
  have hfalse : false8 ≠ true8 := by decide
  rcases callDiskReadSectors_spec (v := { v with bDriveLBA := true8 }) hok
    hg.sectorsPerTrack_pos hg.heads_pos s with ⟨s₁, hlba, h₁⟩
  rcases callDiskReadSectors_spec (v := { v with bDriveLBA := false8 }) hok
    hg.sectorsPerTrack_pos hg.heads_pos s with ⟨s₂, hchs, h₂⟩
  refine ⟨s₁, s₂, hlba, hchs, ?_, ?_, ?_, ?_⟩
  · have hmoved := h₁.moved
    rw [diskTransfers, if_pos rfl] at hmoved
    exact hmoved
  · have hmoved := h₂.moved
    rw [diskTransfers, if_neg hfalse, loopCount_eq hcx] at hmoved
    exact hmoved
  · rw [h₁.ebx, lo_setLo, exitBX, if_pos rfl]
  · rw [h₂.ebx, lo_setLo, exitBX, if_neg hfalse, loopCount_eq hcx, hbps, BitVec.ofNat_toNat,
      BitVec.setWidth_eq]

theorem PathsMeet.of_agree {s s₁ s₂ : Cpu} {ts : List Transfer} (hok : B.NoError)
    (hg : SameGeometry B v) (hsize : B.sectorSize = 512) (hbps : v.bytesPerSector = 512)
    (hcx : lo s.ecx ≠ 0) (h : PathsAgree B v s s₁ s₂ ts) : PathsMeet v s := by
  rcases pathResults hok hg hbps s hcx with ⟨t₁, t₂, ht⟩
  have h₁ : t₁ = s₁ := Option.some.inj (ht.lba.symm.trans h.lba)
  have h₂ : t₂ = s₂ := Option.some.inj (ht.chs.symm.trans h.chs)
  subst h₁ h₂
  have hlba := List.append_cancel_left (ht.lba_moved.transfers.symm.trans h.lba_transfers)
  have hchs := List.append_cancel_left (ht.chs_moved.transfers.symm.trans h.chs_transfers)
  have hall := (transfers_eq_iff hsize hbps _ _ _ _).mp (hlba.trans hchs.symm)
  have hpos := toNat_pos hcx
  have heax := toNat_lo s.eax
  -- the LBA path leaves BX alone
  have hwrap : (lo s.ebx + lo s.ecx * 512).toNat = (lo s.ebx).toNat := by
    rw [← h.lba_bx, ht.lba_bx]
  have hround : (lo s.ecx).toNat % 128 = 0 := by
    have hoff := toNat_offset (lo s.ebx) (lo s.ecx).toNat
    have hbx := (lo s.ebx).isLt
    rw [BitVec.ofNat_toNat, BitVec.setWidth_eq, hwrap] at hoff
    omega
  have hend := (hall ((lo s.ecx).toNat - 1) (by omega)).2
  have hcount : (lo s.ecx).toNat = 128 := by omega
  -- the LBA path uses all of EAX
  have hupper : s.eax.toNat < 65536 := by
    have hsec := h.sectors
    rw [← hlba, Bios.sectorRun, List.map_map, List.map_inj_left] at hsec
    have hfirst : s.eax.toNat + 0 = (lo s.eax).toNat + 0 := hsec 0 (List.mem_range.mpr hpos)
    have hlt := (lo s.eax).isLt
    omega
  have hlow : (lo s.eax).toNat = s.eax.toNat := by omega
  -- sector 0 stands for itself, so AX does not wrap
  have hlast : s.eax.toNat + 128 ≤ 65536 := by
    by_contra hover
    have hsec := (hall (65536 - s.eax.toNat) (by omega)).1
    have hzero : lo s.eax + BitVec.ofNat 16 (65536 - s.eax.toNat) = 0 := by
      apply BitVec.eq_of_toNat_eq
      rw [BitVec.toNat_add, BitVec.toNat_ofNat, hlow]
      simp only [BitVec.ofNat_eq_ofNat, BitVec.toNat_ofNat]
      omega
    have hself : chsSector B v 0 = (0 : Half).toNat := by
      rw [chsSector_eq_iff hg]
      simp [ChsFits]
    rw [hzero, hself] at hsec
    simp only [BitVec.ofNat_eq_ofNat, BitVec.toNat_ofNat] at hsec
    omega
  refine ⟨BitVec.eq_of_toNat_eq hcount, by omega, hupper, hlast, ?_⟩
  intro i hi
  have hsec := (hall i (by omega)).1
  have hsum : (lo s.eax + BitVec.ofNat 16 i).toNat = s.eax.toNat + i := by
    rw [toNat_add_ofNat (by omega), hlow]
  rw [← hsum] at hsec ⊢
  exact (chsSector_eq_iff hg _).mp hsec.symm

/-- **The two disk paths.** They agree on 64 KiB requests whose sectors fit the CHS
registers, and on no other: the LBA path leaves BX where it was, and the CHS path
drops the upper bits of the sector number and of the cylinder. -/
theorem diskPaths_iff (hok : B.NoError) (hg : SameGeometry B v) (hsize : B.sectorSize = 512)
    (hbps : v.bytesPerSector = 512) (s : Cpu) (hcx : lo s.ecx ≠ 0) :
    (∃ s₁ s₂ ts, PathsAgree B v s s₁ s₂ ts) ↔ PathsMeet v s := by
  constructor
  · intro h
    rcases h with ⟨s₁, s₂, ts, h⟩
    exact PathsMeet.of_agree hok hg hsize hbps hcx h
  · intro h
    rcases pathResults hok hg hbps s hcx with ⟨s₁, s₂, ht⟩
    have heax := toNat_lo s.eax
    have hupper := h.upper
    have hlow : (lo s.eax).toNat = s.eax.toNat := by omega
    have hcount : (lo s.ecx).toNat = 128 := by rw [h.count]; rfl
    have hlast := h.last
    have hbuffer := h.buffer
    -- sector by sector, both paths read the same block to the same address
    have hlists : B.sectorRun s.eax.toNat (linear s.es (lo s.ebx)) (lo s.ecx).toNat
        = (List.range (lo s.ecx).toNat).map (chsTransfer B v s.es (lo s.eax) (lo s.ebx)) := by
      rw [transfers_eq_iff hsize hbps]
      intro i hi
      have hsum : (lo s.eax + BitVec.ofNat 16 i).toNat = s.eax.toNat + i := by
        rw [toNat_add_ofNat (by omega), hlow]
      have hfits := h.fits i (by omega)
      rw [← hsum] at hfits
      refine ⟨?_, by omega⟩
      rw [(chsSector_eq_iff hg _).mpr hfits, hsum]
    -- 128 sectors are 64 KiB, so BX comes round to where it was
    have hwrap : lo s.ebx + lo s.ecx * 512 = lo s.ebx := by
      rw [h.count]
      exact BitVec.add_zero _
    refine ⟨s₁, s₂, _, ht.lba, ht.chs, ?_, ht.lba_moved.transfers, ?_, ?_, ?_, ht.chs_bx⟩
    · rw [Bios.sectorRun, List.map_map, hlow]
      rfl
    · rw [ht.chs_moved.transfers, hlists]
    · rw [ht.lba_moved.mem, ht.chs_moved.mem, hlists]
    · rw [ht.lba_bx, hwrap]

/-! ### On a 1.44 MB floppy -/

/-- A drive with 18 sectors a track and 2 heads that reads without errors. -/
def floppyBios : Bios where
  sectorsPerTrack := 18
  heads := 2
  sectorSize := 512
  sectors := fun _ _ => 0
  carry := fun _ => false
  logError := id
  logError_stack := fun _ => rfl

/-- The loader's variables as the image has them. -/
def floppyData : LoaderData where
  uDrive := 0
  inodeCache := fun _ => 0

/-- A request for `cx` sectors from sector 0 on, into 1000:0000. -/
def floppyRequest (cx : Word) : Cpu where
  eax := 0
  ebx := 0
  ecx := cx
  edx := 0
  esi := 0
  es := 0x1000
  stack := []
  mem := fun _ => 0
  calls := 0
  transfers := []
  requests := []

theorem floppy_noError : floppyBios.NoError := fun _ => rfl

theorem floppy_geometry : SameGeometry floppyBios floppyData := by
  refine ⟨rfl, rfl, ?_, ?_⟩
  · decide
  · decide

/-- One sector is enough to tell the paths apart: the LBA path does not advance BX. -/
theorem diskPaths_counterexample :
    ¬ ∃ s₁ s₂ ts, PathsAgree floppyBios floppyData (floppyRequest 1) s₁ s₂ ts := by
  intro h
  rcases h with ⟨s₁, s₂, ts, h⟩
  have hmeet := PathsMeet.of_agree floppy_noError floppy_geometry rfl rfl (by decide) h
  exact absurd hmeet.count (by decide)

theorem diskPaths_iff_floppy :
    (∃ s₁ s₂ ts, PathsAgree floppyBios floppyData (floppyRequest 128) s₁ s₂ ts) ∧
      ¬ ∃ s₁ s₂ ts, PathsAgree floppyBios floppyData (floppyRequest 127) s₁ s₂ ts := by
  constructor
  · rw [diskPaths_iff floppy_noError floppy_geometry rfl rfl _ (by decide)]
    refine ⟨by decide, by decide, by decide, by decide, ?_⟩
    decide
  · rw [diskPaths_iff floppy_noError floppy_geometry rfl rfl _ (by decide)]
    intro h
    exact absurd h.count (by decide)

end StupidOS.Boot
