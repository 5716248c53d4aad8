import StupidOS.Boot.StpdFs

/-!
# FAT12 (`common/fat12.inc`)

`fat_load_root` computes where the data area starts; `fat_load_binary` follows a
chain of clusters through the FAT at `DISK_BUFFER`, reading each cluster to ES:BX.
BX is what `disk_read_sectors` leaves there. `chain_run` says which sectors are asked
for and what is moved, for chains of any length.
-/

namespace StupidOS.Boot

/-! ## The routines -/

variable (B : Bios) (v : LoaderData)

/-- `mul`: DX:AX. -/
def mul16 (ax cx : Half) : Word := ax.setWidth 32 * cx.setWidth 32

/-- `fat_load_root`. It stores `data_start`. -/
def fatLoadRoot (s : Cpu) : Option (LoaderData × Cpu) := do
  let s := { s with eax := setLo s.eax diskBufferSegment, es := diskBufferSegment }
  let ax := lo (mul16 v.sectorsPerFAT (v.FATCount.setWidth 16)) + v.reservedSectors
  let bx := v.bytesPerSector >>> 5
  -- divide error
  guard (bx ≠ 0)
  let cx := v.rootDirEntries / bx
  let dx := v.rootDirEntries % bx
  let v := { v with dataStart := ax + cx }
  let s ← callDiskReadSectors B v { s with
    eax := setLo s.eax ax
    ebx := setLo s.ebx 0
    ecx := setLo s.ecx cx
    edx := setLo s.edx dx }
  return (v, s)

/-- The word of the FAT that `fat_load_binary` takes the entry of a cluster from, and
the 12 bits of it. -/
def nextCluster (mem : Bytes) (ax : Half) : Half :=
  let dx := mem.half ((0x8000 : Half) + (ax + ax >>> 1)).toNat
  if ax &&& 1 ≠ 0 then dx >>> 4 else dx &&& 0xFFF

/-- AX of the request for a cluster. -/
def clusterSector (ax : Half) : Half :=
  lo (mul16 (ax - 2) (v.sectorsPerCluster.setWidth 16)) + v.dataStart

/-- One pass of `fat_load_binary`. -/
def fatLoadBinaryPass (s : Cpu) : Option (Pass Cpu Cpu) := do
  let cluster := lo s.eax
  let cx : Half := v.sectorsPerCluster.setWidth 16
  let dx : Half := (mul16 (cluster - 2) cx).extractLsb' 16 16
  let s ← callDiskReadSectors B v { s with
    eax := setLo s.eax (clusterSector v cluster)
    ecx := setLo s.ecx cx
    edx := setLo s.edx dx }
  let cx := cluster + cluster >>> 1
  let dx := nextCluster s.mem cluster
  let s := { s with eax := setLo s.eax dx, ecx := setLo s.ecx cx, edx := setLo s.edx dx }
  if dx.ult 0xFF0 then some (.again s) else some (.done s)

/-- `fat_load_binary` -/
def fatLoadBinary (fuel : Nat) (s : Cpu) : Option Cpu :=
  iterate (fatLoadBinaryPass B v) fuel s

/-! ## Volumes -/

/-- Bytes of one FAT. -/
def fatBytes : Nat := v.sectorsPerFAT.toNat * v.bytesPerSector.toNat

/-- Sectors of the root directory. -/
def rootDirSectors : Nat := v.rootDirEntries.toNat * 32 / v.bytesPerSector.toNat

/-- The first sector behind the root directory. -/
def firstDataSector : Nat :=
  v.reservedSectors.toNat + v.FATCount.toNat * v.sectorsPerFAT.toNat + rootDirSectors v

/-- The parameters describe a FAT12 volume of `total` sectors. -/
structure Volume (total : Nat) : Prop where
  total_fits : total < 65536
  data_fits : firstDataSector v ≤ total
  sectorsPerCluster : v.sectorsPerCluster ≠ 0
  bytesPerSector : v.bytesPerSector ≠ 0
  bytesPerSector_mod : v.bytesPerSector.toNat % 32 = 0
  rootDirEntries_mod : v.rootDirEntries.toNat % (v.bytesPerSector.toNat / 32) = 0
  sectorsPerTrack : v.sectorsPerTrack ≠ 0
  headsPerCylinder : v.headsPerCylinder ≠ 0

/-- The first sector of a cluster. -/
def clusterLba (c : Nat) : Nat := firstDataSector v + (c - 2) * v.sectorsPerCluster.toNat

/-- A cluster of the data area, with its entry in the FAT. -/
structure DataCluster (total c : Nat) : Prop where
  low : 2 ≤ c
  high : c ≤ 0xFEF
  inside : clusterLba v c + v.sectorsPerCluster.toNat ≤ total
  entry : c + c / 2 + 2 ≤ fatBytes v

/-- Entry `c` of the FAT at `DISK_BUFFER`: 12 bits, little endian, two entries in three
bytes. -/
def fatEntry (mem : Bytes) (c : Nat) : Nat :=
  let byte := fun i => (mem (diskBuffer + (c + c / 2) + i)).toNat
  if c % 2 = 0 then byte 0 + 256 * (byte 1 % 16) else byte 0 / 16 + 16 * byte 1

/-- `cs` is the chain that starts at cluster `c`. -/
inductive FatChain (v : LoaderData) (total : Nat) (mem : Bytes) : Nat → List Nat → Prop where
  | last {c : Nat} (hc : DataCluster v total c) (hend : 0xFF0 ≤ fatEntry mem c) :
      FatChain v total mem c [c]
  | next {c : Nat} {cs : List Nat} (hc : DataCluster v total c)
      (hrest : FatChain v total mem (fatEntry mem c) cs) : FatChain v total mem c (c :: cs)

/-! ## The arithmetic does not wrap -/

variable {B v}

theorem toNat_mul16 (ax cx : Half) : (mul16 ax cx).toNat = ax.toNat * cx.toNat := by
  have hax : (ax.setWidth 32).toNat = ax.toNat := BitVec.toNat_setWidth_of_le (by omega)
  have hcx : (cx.setWidth 32).toNat = cx.toNat := BitVec.toNat_setWidth_of_le (by omega)
  have hprod : ax.toNat * cx.toNat < 65536 * 65536 := Nat.mul_lt_mul'' ax.isLt cx.isLt
  rw [mul16, BitVec.toNat_mul, hax, hcx, Nat.mod_eq_of_lt hprod]

/-- A product that fits AX. -/
theorem toNat_lo_mul16 {ax cx : Half} (h : ax.toNat * cx.toNat < 65536) :
    (lo (mul16 ax cx)).toNat = ax.toNat * cx.toNat := by
  rw [toNat_lo, toNat_mul16, Nat.mod_eq_of_lt h]

theorem toNat_byte16 (b : Byte) : (b.setWidth 16).toNat = b.toNat :=
  BitVec.toNat_setWidth_of_le (by omega)

theorem half_toNat (m : Bytes) (a : Nat) :
    (m.half a).toNat = (m a).toNat + 256 * (m (a + 1)).toNat := by
  rw [Bytes.half, toNat_byteAppend]
  omega

theorem toNat_entryIndex {c : Half} (hc : c.toNat ≤ 0xFEF) :
    ((0x8000 : Half) + (c + c >>> 1)).toNat = diskBuffer + (c.toNat + c.toNat / 2) := by
  have h8000 : (0x8000 : Half).toNat = 32768 := rfl
  rw [BitVec.toNat_add, BitVec.toNat_add, BitVec.toNat_ushiftRight, Nat.shiftRight_eq_div_pow,
    h8000, diskBuffer]
  omega

/-- The entry that is taken out of the FAT, even and odd clusters alike. -/
theorem nextCluster_eq (mem : Bytes) {c : Half} (hc : c.toNat ≤ 0xFEF) :
    (nextCluster mem c).toNat = fatEntry mem c.toNat := by
  have hodd : (c &&& 1).toNat = c.toNat % 2 := by
    rw [BitVec.toNat_and]
    exact Nat.and_two_pow_sub_one_eq_mod c.toNat 1
  rw [nextCluster, toNat_entryIndex hc]
  generalize hdx : mem.half (diskBuffer + (c.toNat + c.toNat / 2)) = dx
  have hval := half_toNat mem (diskBuffer + (c.toNat + c.toNat / 2))
  rw [hdx] at hval
  have hlow := (mem (diskBuffer + (c.toNat + c.toNat / 2))).isLt
  simp only [fatEntry, Nat.add_zero]
  by_cases hc2 : c.toNat % 2 = 0
  · have hzero : ¬ c &&& 1 ≠ 0 := by
      rw [not_not]
      exact BitVec.eq_of_toNat_eq (hodd.trans hc2)
    have hmask : (dx &&& 0xFFF).toNat = dx.toNat % 4096 := by
      rw [BitVec.toNat_and]
      exact Nat.and_two_pow_sub_one_eq_mod dx.toNat 12
    rw [if_neg hzero, if_pos hc2, hmask]
    omega
  · have hone : c &&& 1 ≠ 0 := by
      intro h
      rw [h] at hodd
      exact hc2 hodd.symm
    rw [if_pos hone, if_neg hc2, BitVec.toNat_ushiftRight, Nat.shiftRight_eq_div_pow]
    omega

/-- The request for a data cluster starts at its first sector. -/
theorem clusterSector_eq {total : Nat} (hv : Volume v total)
    (hstart : v.dataStart.toNat = firstDataSector v) {c : Half}
    (hc : DataCluster v total c.toNat) :
    (clusterSector v c).toNat = clusterLba v c.toNat := by
  have hlow := hc.low
  have hinside := hc.inside
  have htotal := hv.total_fits
  unfold clusterLba at hinside ⊢
  have htwo : (c - 2).toNat = c.toNat - 2 := by
    have h2 : (2 : Half).toNat = 2 := rfl
    have hlt := c.isLt
    rw [BitVec.toNat_sub, h2]
    omega
  have hmul : (lo (mul16 (c - 2) (v.sectorsPerCluster.setWidth 16))).toNat
      = (c.toNat - 2) * v.sectorsPerCluster.toNat := by
    rw [toNat_lo_mul16, htwo, toNat_byte16]
    rw [htwo, toNat_byte16]
    omega
  rw [clusterSector, BitVec.toNat_add, hmul, hstart]
  omega

/-- Sectors of the root directory, as the code divides. -/
theorem rootDirSectors_eq {total : Nat} (hv : Volume v total) :
    (v.rootDirEntries / v.bytesPerSector >>> 5).toNat = rootDirSectors v := by
  have hmod := hv.bytesPerSector_mod
  have hroot := hv.rootDirEntries_mod
  rw [BitVec.toNat_udiv, BitVec.toNat_ushiftRight, Nat.shiftRight_eq_div_pow, rootDirSectors]
  have hbps : v.bytesPerSector.toNat = v.bytesPerSector.toNat / 32 * 32 := by omega
  conv_rhs => rw [hbps]
  rw [Nat.mul_div_mul_right _ _ (by omega)]

/-- `fat_load_root` finds the start of the data area. -/
theorem fatLoadRoot_spec {total : Nat} (hv : Volume v total) (hok : B.NoError) (s : Cpu) :
    ∃ v' s', fatLoadRoot B v s = some (v', s') ∧
      v'.dataStart.toNat = firstDataSector v ∧ v' = { v with dataStart := v'.dataStart } := by
  have hdata := hv.data_fits
  have htotal := hv.total_fits
  unfold firstDataSector at hdata
  have hbx : v.bytesPerSector >>> 5 ≠ 0 := by
    intro h
    have hzero := congrArg BitVec.toNat h
    have hpos := toNat_pos hv.bytesPerSector
    have hmod := hv.bytesPerSector_mod
    rw [BitVec.toNat_ushiftRight, Nat.shiftRight_eq_div_pow] at hzero
    simp only [BitVec.ofNat_eq_ofNat, BitVec.toNat_ofNat] at hzero
    omega
  let start : Half := lo (mul16 v.sectorsPerFAT (v.FATCount.setWidth 16)) + v.reservedSectors
    + v.rootDirEntries / (v.bytesPerSector >>> 5)
  have hstart : start.toNat = firstDataSector v := by
    have hcomm := Nat.mul_comm v.FATCount.toNat v.sectorsPerFAT.toNat
    have hmul := @toNat_lo_mul16 v.sectorsPerFAT (v.FATCount.setWidth 16)
    rw [toNat_byte16] at hmul
    have hmul' := hmul (by omega)
    have hroot := rootDirSectors_eq hv
    simp only [start]
    rw [BitVec.toNat_add, BitVec.toNat_add, hmul', hroot, firstDataSector]
    omega
  rcases callDiskReadSectors_spec (v := { v with dataStart := start }) hok hv.sectorsPerTrack
    hv.headsPerCylinder { s with
      es := diskBufferSegment
      eax := setLo s.eax (lo (mul16 v.sectorsPerFAT (v.FATCount.setWidth 16))
        + v.reservedSectors)
      ebx := setLo s.ebx 0
      ecx := setLo s.ecx (v.rootDirEntries / (v.bytesPerSector >>> 5))
      edx := setLo s.edx (v.rootDirEntries % (v.bytesPerSector >>> 5)) } with ⟨s', hcall, _⟩
  refine ⟨{ v with dataStart := start }, s', ?_, hstart, rfl⟩
  simp only [fatLoadRoot, guard, if_pos hbx, setLo_setLo, Option.pure_def, Option.bind_eq_bind,
    Option.bind_some]
  rw [hcall]
  rfl

/-! ## The destination -/

/-- CX of the request for a cluster. -/
def clusterCX (v : LoaderData) : Half := v.sectorsPerCluster.setWidth 16

/-- What BX advances by for a cluster. -/
def clusterStride (v : LoaderData) : Half :=
  if v.bDriveLBA = true8 then 0 else clusterCX v * v.bytesPerSector

/-- The FAT at `DISK_BUFFER`: of a FAT12 at most 4096 entries, in 6 KiB. -/
def fatExtent (v : LoaderData) : Extent := ⟨diskBuffer, min (fatBytes v) 0x1800⟩

/-- The first `n` sectors of the buffer at ES:BX lie apart from the FAT, both as linear
addresses and with offsets that wrap at 64 KiB. -/
def DestClear (v : LoaderData) (es bx : Half) (n : Nat) : Prop :=
  ∀ k, k < n →
    Extent.Apart ⟨linear es bx + v.bytesPerSector.toNat * k, v.bytesPerSector.toNat⟩
      (fatExtent v) ∧
    Extent.Apart ⟨linear es (bx + BitVec.ofNat 16 k * v.bytesPerSector), v.bytesPerSector.toNat⟩
      (fatExtent v)

/-- What is needed of it for `n` clusters on the path taken. -/
def PathClear (v : LoaderData) (es bx : Half) (n : Nat) : Prop :=
  if v.bDriveLBA = true8 then
    ∀ k, k < v.sectorsPerCluster.toNat →
      Extent.Apart ⟨linear es bx + v.bytesPerSector.toNat * k, v.bytesPerSector.toNat⟩
        (fatExtent v)
  else
    ∀ k, k < n * v.sectorsPerCluster.toNat →
      Extent.Apart
        ⟨linear es (bx + BitVec.ofNat 16 k * v.bytesPerSector), v.bytesPerSector.toNat⟩
        (fatExtent v)

theorem DestClear.path {es bx : Half} {n : Nat} (hn : 0 < n)
    (h : DestClear v es bx (n * v.sectorsPerCluster.toNat)) : PathClear v es bx n := by
  unfold PathClear
  split
  · intro k hk
    exact (h k (Nat.lt_of_lt_of_le hk (Nat.le_mul_of_pos_left _ hn))).1
  · intro k hk
    exact (h k hk).2

theorem ofNat_clusterCX (v : LoaderData) :
    BitVec.ofNat 16 v.sectorsPerCluster.toNat = clusterCX v := by
  apply BitVec.eq_of_toNat_eq
  have hlt := v.sectorsPerCluster.isLt
  rw [clusterCX, toNat_byte16, BitVec.toNat_ofNat, Nat.mod_eq_of_lt (by omega)]

theorem PathClear.tail {es bx : Half} {n : Nat} (h : PathClear v es bx (n + 1)) :
    PathClear v es (bx + clusterStride v) n := by
  unfold PathClear clusterStride at *
  by_cases hv : v.bDriveLBA = true8
  · rw [if_pos hv] at h ⊢
    have hsame : bx + (0 : Half) = bx := BitVec.add_zero _
    rw [if_pos hv, hsame]
    exact h
  · rw [if_neg hv] at h ⊢
    intro k hk
    have hnext := h (v.sectorsPerCluster.toNat + k) (by rw [Nat.succ_mul]; omega)
    have hoff : bx + BitVec.ofNat 16 (v.sectorsPerCluster.toNat + k) * v.bytesPerSector
        = bx + clusterCX v * v.bytesPerSector + BitVec.ofNat 16 k * v.bytesPerSector := by
      rw [BitVec.ofNat_add, ofNat_clusterCX]
      ring
    rw [hoff] at hnext
    rw [if_neg hv]
    exact hnext

/-- The sectors that a request moves. -/
def requestTransfers (B : Bios) (v : LoaderData) (eax : Word) (es bx cx : Half) :
    List Transfer :=
  if v.bDriveLBA = true8 then B.sectorRun eax.toNat (linear es bx) cx.toNat
  else (List.range (loopCount cx)).map (chsTransfer B v es (lo eax) bx)

theorem toNat_clusterCX (v : LoaderData) : (clusterCX v).toNat = v.sectorsPerCluster.toNat :=
  toNat_byte16 _

theorem clusterCX_ne_zero (h : v.sectorsPerCluster ≠ 0) : clusterCX v ≠ 0 := by
  intro hzero
  apply h
  apply BitVec.eq_of_toNat_eq
  rw [← toNat_clusterCX, hzero]
  rfl

/-- The FAT lies apart from what a request moves. -/
theorem PathClear.head (hspc : v.sectorsPerCluster ≠ 0)
    (hsize : B.sectorSize = v.bytesPerSector.toNat) {es bx : Half} {n : Nat}
    (h : PathClear v es bx (n + 1)) (eax : Word) :
    ∀ t ∈ requestTransfers B v eax es bx (clusterCX v),
      (t.extent B.sectorSize).Apart (fatExtent v) := by
  intro t ht
  unfold PathClear at h
  rw [requestTransfers] at ht
  rw [Transfer.extent, hsize]
  by_cases hv : v.bDriveLBA = true8
  · rw [if_pos hv] at h ht
    rcases List.mem_map.mp ht with ⟨k, hk, rfl⟩
    rw [List.mem_range, toNat_clusterCX] at hk
    have hclear := h k hk
    rw [← hsize] at hclear ⊢
    exact hclear
  · rw [if_neg hv] at h ht
    rcases List.mem_map.mp ht with ⟨k, hk, rfl⟩
    rw [List.mem_range, loopCount_eq (clusterCX_ne_zero hspc), toNat_clusterCX] at hk
    exact h k (Nat.lt_of_lt_of_le hk (Nat.le_mul_of_pos_left _ (Nat.succ_pos n)))

/-! ## Walking the chain -/

/-- Two memories hold the same FAT. -/
def SameFat (v : LoaderData) (mem mem' : Bytes) : Prop :=
  ∀ x, diskBuffer ≤ x → x < diskBuffer + min (fatBytes v) 0x1800 → mem' x = mem x

theorem SameFat.of_moved {ts : List Transfer} {s s' : Cpu} (h : Moved B ts s s')
    (hclear : ∀ t ∈ ts, (t.extent B.sectorSize).Apart (fatExtent v)) :
    SameFat v s.mem s'.mem := by
  intro x hlow hhigh
  rw [h.mem]
  apply loads_frame
  intro t ht
  have hap := hclear t ht
  simp only [Extent.Apart, Transfer.extent, fatExtent] at hap
  omega

theorem fatEntry_congr {total c : Nat} {mem mem' : Bytes} (h : SameFat v mem mem')
    (hc : DataCluster v total c) : fatEntry mem' c = fatEntry mem c := by
  have hentry := hc.entry
  have hhigh := hc.high
  have h0 := h (diskBuffer + (c + c / 2) + 0) (by omega) (by omega)
  have h1 := h (diskBuffer + (c + c / 2) + 1) (by omega) (by omega)
  simp only [fatEntry, h0, h1]

theorem FatChain.congr {total c : Nat} {cs : List Nat} {mem mem' : Bytes}
    (hsame : SameFat v mem mem') (h : FatChain v total mem c cs) :
    FatChain v total mem' c cs := by
  induction h with
  | last hc hend =>
      apply FatChain.last hc
      rw [fatEntry_congr hsame hc]
      exact hend
  | next hc _ ih =>
      apply FatChain.next hc
      rw [fatEntry_congr hsame hc]
      exact ih

theorem FatChain.head {total c : Nat} {cs : List Nat} {mem : Bytes}
    (h : FatChain v total mem c cs) : DataCluster v total c := by
  cases h with
  | last hc _ => exact hc
  | next hc _ => exact hc

theorem FatChain.length_pos {total c : Nat} {cs : List Nat} {mem : Bytes}
    (h : FatChain v total mem c cs) : 0 < cs.length := by
  cases h with
  | last _ _ => exact Nat.one_pos
  | next _ _ => exact Nat.succ_pos _

/-- The state after the pass for the cluster in AX. -/
structure ClusterRead (B : Bios) (v : LoaderData) (s s' : Cpu) : Prop where
  moved : Moved B (requestTransfers B v (setLo s.eax (clusterSector v (lo s.eax))) s.es
    (lo s.ebx) (clusterCX v)) s s'
  ebx : lo s'.ebx = lo s.ebx + clusterStride v
  requests : s'.requests = s.requests ++ [(clusterSector v (lo s.eax), clusterCX v)]
  eax : lo s'.eax = nextCluster s'.mem (lo s.eax)

theorem fatLoadBinaryPass_spec {total : Nat} (hv : Volume v total) (hok : B.NoError)
    (s : Cpu) : ∃ s', ClusterRead B v s s' ∧ fatLoadBinaryPass B v s =
      if (lo s'.eax).ult 0xFF0 then some (.again s') else some (.done s') := by
  rcases callDiskReadSectors_spec hok hv.sectorsPerTrack hv.headsPerCylinder { s with
    eax := setLo s.eax (clusterSector v (lo s.eax))
    ecx := setLo s.ecx (v.sectorsPerCluster.setWidth 16)
    edx := setLo s.edx ((mul16 (lo s.eax - 2)
      (v.sectorsPerCluster.setWidth 16)).extractLsb' 16 16) } with ⟨s₁, hcall, h₁⟩
  have hebx := h₁.ebx
  have hrequests := h₁.requests
  have hmoved := h₁.moved
  simp only [diskTransfers, exitBX, lo_setLo] at hebx hrequests hmoved
  refine ⟨{ s₁ with
    eax := setLo s₁.eax (nextCluster s₁.mem (lo s.eax))
    ecx := setLo s₁.ecx (lo s.eax + lo s.eax >>> 1)
    edx := setLo s₁.edx (nextCluster s₁.mem (lo s.eax)) }, ⟨?_, ?_, ?_, ?_⟩, ?_⟩
  · rw [requestTransfers, lo_setLo]
    exact ⟨hmoved.mem, hmoved.transfers, hmoved.es, hmoved.esi, hmoved.stack⟩
  · simp only [hebx, lo_setLo, clusterStride]
    have hcount := loopCount_eq (clusterCX_ne_zero hv.sectorsPerCluster)
    split
    · exact (BitVec.add_zero _).symm
    · rw [clusterCX] at hcount ⊢
      rw [hcount, BitVec.ofNat_toNat, BitVec.setWidth_eq]
  · exact hrequests
  · exact lo_setLo _ _
  · simp only [fatLoadBinaryPass, hcall, Option.bind_eq_bind, Option.bind_some, lo_setLo]

/-- The sectors that the requests for a chain move, given EAX of each request. -/
def chainTransfers (B : Bios) (v : LoaderData) (es : Half) : Half → List Word → List Transfer
  | _, [] => []
  | bx, eax :: eaxs =>
    requestTransfers B v eax es bx (clusterCX v)
      ++ chainTransfers B v es (bx + clusterStride v) eaxs

/-- A chain read from state `s` to state `s'`, with the values that EAX has at the
requests. -/
structure ChainRead (B : Bios) (v : LoaderData) (cs : List Nat) (eaxs : List Word)
    (s s' : Cpu) : Prop where
  moved : Moved B (chainTransfers B v s.es (lo s.ebx) eaxs) s s'
  requests : s'.requests = s.requests ++ eaxs.map (fun eax => (lo eax, clusterCX v))
  clusters : eaxs.map (fun eax => (lo eax).toNat) = cs.map (clusterLba v)
  first : eaxs.head? = some (setLo s.eax (clusterSector v (lo s.eax)))

theorem chain_run {total : Nat} (hv : Volume v total) (hok : B.NoError)
    (hsize : B.sectorSize = v.bytesPerSector.toNat)
    (hstart : v.dataStart.toNat = firstDataSector v) {c : Nat} {cs : List Nat} {s : Cpu}
    (hax : (lo s.eax).toNat = c) (hchain : FatChain v total s.mem c cs)
    (hclear : PathClear v s.es (lo s.ebx) cs.length) :
    ∃ s' eaxs, fatLoadBinary B v cs.length s = some s' ∧ ChainRead B v cs eaxs s s' := by
  -- on the chain; a pass reads one cluster and leaves the next one in AX
  induction cs generalizing c s with
  | nil => exact absurd hchain.length_pos (Nat.lt_irrefl 0)
  | cons d ds ih =>
      rcases fatLoadBinaryPass_spec hv hok s with ⟨s₁, h₁, hpass⟩
      have hcluster := hchain.head
      -- the FAT is not where the cluster is read to, so the next entry is still there
      have hsame := SameFat.of_moved h₁.moved
        (hclear.head hv.sectorsPerCluster hsize (setLo s.eax (clusterSector v (lo s.eax))))
      have hnext : (lo s₁.eax).toNat = fatEntry s.mem c := by
        subst hax
        rw [h₁.eax, nextCluster_eq _ hcluster.high, fatEntry_congr hsame hcluster]
      have hlba : (clusterSector v (lo s.eax)).toNat = clusterLba v c := by
        subst hax
        exact clusterSector_eq hv hstart hcluster
      have hend : (lo s₁.eax).ult 0xFF0 = decide (fatEntry s.mem c < 0xFF0) := by
        rw [BitVec.ult, hnext]
        rfl
      cases hchain with
      | last _ hlast =>
          have hdone : fatLoadBinaryPass B v s = some (.done s₁) := by
            rw [hpass, hend, if_neg (by simpa using hlast)]
          refine ⟨s₁, [setLo s.eax (clusterSector v (lo s.eax))], iterate_done hdone _, ?_, ?_,
            ?_, rfl⟩
          · simp only [chainTransfers, List.append_nil]
            exact h₁.moved
          · rw [h₁.requests, List.map_singleton, lo_setLo]
          · rw [List.map_singleton, List.map_singleton, lo_setLo, hlba]
      | next _ hrest =>
          have hlow : fatEntry s.mem d < 0xFF0 := by
            have hhigh := hrest.head.high
            omega
          have hagain : fatLoadBinaryPass B v s = some (.again s₁) := by
            rw [hpass, hend, if_pos (decide_eq_true hlow)]
          have hclear₁ : PathClear v s₁.es (lo s₁.ebx) ds.length := by
            rw [h₁.moved.es, h₁.ebx]
            exact hclear.tail
          rcases ih hnext (hrest.congr hsame) hclear₁ with ⟨s', eaxs, hrun, h'⟩
          refine ⟨s', setLo s.eax (clusterSector v (lo s.eax)) :: eaxs, ?_, ?_, ?_, ?_, rfl⟩
          · rw [fatLoadBinary, List.length_cons, iterate_again hagain]
            exact hrun
          · rw [chainTransfers, ← h₁.ebx, ← h₁.moved.es]
            have hall := h₁.moved.trans h'.moved
            rw [h₁.moved.es] at hall ⊢
            exact hall
          · rw [h'.requests, h₁.requests, List.append_assoc, List.map_cons, lo_setLo]
            rfl
          · rw [List.map_cons, List.map_cons, h'.clusters, lo_setLo, hlba]

/-! ## Requests -/

/-- `data_start` is no parameter of the volume. -/
theorem Volume.withStart {total : Nat} (h : Volume v total) (start : Half) :
    Volume { v with dataStart := start } total :=
  ⟨h.total_fits, h.data_fits, h.sectorsPerCluster, h.bytesPerSector, h.bytesPerSector_mod,
    h.rootDirEntries_mod, h.sectorsPerTrack, h.headsPerCylinder⟩

theorem FatChain.withStart {total c : Nat} {cs : List Nat} {mem : Bytes}
    (h : FatChain v total mem c cs) (start : Half) :
    FatChain { v with dataStart := start } total mem c cs := by
  induction h with
  | last hc hend => exact FatChain.last ⟨hc.low, hc.high, hc.inside, hc.entry⟩ hend
  | next hc _ ih => exact FatChain.next ⟨hc.low, hc.high, hc.inside, hc.entry⟩ ih

/-- **The chain walk.** After `fat_load_root` a chain of any length is read cluster by
cluster, in order, and nothing else is asked for. -/
theorem fatLoadBinary_requests {total : Nat} (hv : Volume v total) (hok : B.NoError)
    (hsize : B.sectorSize = v.bytesPerSector.toNat) (s₀ : Cpu) :
    ∃ v' s₁, fatLoadRoot B v s₀ = some (v', s₁) ∧ v'.dataStart.toNat = firstDataSector v ∧
      ∀ (s : Cpu) (cs : List Nat), FatChain v total s.mem (lo s.eax).toNat cs →
        DestClear v s.es (lo s.ebx) (cs.length * v.sectorsPerCluster.toNat) →
        ∃ s' requests, fatLoadBinary B v' cs.length s = some s' ∧
          s'.requests = s.requests ++ requests ∧
          requests.map (fun r => (r.1.toNat, r.2.toNat))
            = cs.map (fun c => (clusterLba v c, v.sectorsPerCluster.toNat)) := by
  rcases fatLoadRoot_spec hv hok s₀ with ⟨v', s₁, hroot, hstart, hv'⟩
  refine ⟨v', s₁, hroot, hstart, ?_⟩
  intro s cs hchain hdest
  rw [hv']
  have hpath : PathClear { v with dataStart := v'.dataStart } s.es (lo s.ebx) cs.length :=
    DestClear.path hchain.length_pos hdest
  rcases chain_run (hv.withStart v'.dataStart) hok hsize hstart rfl
    (hchain.withStart v'.dataStart) hpath with ⟨s', eaxs, hrun, h'⟩
  refine ⟨s', _, hrun, h'.requests, ?_⟩
  have hsplit : ∀ eax : Word, ((lo eax).toNat, (clusterCX v).toNat)
      = ((lo eax).toNat, v.sectorsPerCluster.toNat) := by
    intro eax
    rw [toNat_clusterCX]
  calc (eaxs.map (fun eax => (lo eax, clusterCX v))).map (fun r => (r.1.toNat, r.2.toNat))
      = (eaxs.map (fun eax => (lo eax).toNat)).map
          (fun lba => (lba, v.sectorsPerCluster.toNat)) := by
        rw [List.map_map, List.map_map]
        exact List.map_congr_left (fun eax _ => hsplit eax)
    _ = (cs.map (clusterLba v)).map (fun lba => (lba, v.sectorsPerCluster.toNat)) :=
        congrArg _ h'.clusters
    _ = cs.map (fun c => (clusterLba v c, v.sectorsPerCluster.toNat)) := List.map_map

/-- A machine that is to load the chain at cluster 2: its FAT says 2, 3, end. -/
def chainRequest : Cpu :=
  { floppyRequest 1 with
    eax := 2
    mem := fun a => if a = 0x8003 then 0x03 else if a = 0x8004 then 0xF0
      else if a = 0x8005 then 0xFF else 0 }

theorem floppy_volume : Volume floppyData 2880 := by
  refine ⟨?_, ?_, ?_, ?_, ?_, ?_, ?_, ?_⟩ <;> decide

theorem chainRequest_chain :
    FatChain floppyData 2880 chainRequest.mem (lo chainRequest.eax).toNat [2, 3] := by
  have h2 : DataCluster floppyData 2880 2 := by
    refine ⟨?_, ?_, ?_, ?_⟩ <;> decide
  have h3 : DataCluster floppyData 2880 3 := by
    refine ⟨?_, ?_, ?_, ?_⟩ <;> decide
  exact FatChain.next h2 (FatChain.last h3 (by decide))

theorem chainRequest_clear :
    DestClear floppyData chainRequest.es (lo chainRequest.ebx) 2 := by
  intro k hk
  unfold Extent.Apart
  have hcases : k = 0 ∨ k = 1 := by omega
  rcases hcases with rfl | rfl
  · decide
  · decide

theorem fatLoadBinary_requests_floppy :
    ∃ v' s₁ s' requests, fatLoadRoot floppyBios floppyData (floppyRequest 1) = some (v', s₁) ∧
      fatLoadBinary floppyBios v' 2 chainRequest = some s' ∧
      s'.requests = chainRequest.requests ++ requests ∧
      requests.map (fun r => (r.1.toNat, r.2.toNat)) = [(33, 1), (34, 1)] := by
  rcases fatLoadBinary_requests floppy_volume floppy_noError rfl (floppyRequest 1) with
    ⟨v', s₁, hroot, _, h⟩
  rcases h chainRequest [2, 3] chainRequest_chain chainRequest_clear with
    ⟨s', requests, hrun, hrequests, hnumbers⟩
  exact ⟨v', s₁, s', requests, hroot, hrun, hrequests, hnumbers⟩

/-! ## Where the clusters end up -/

/-- `KERNEL_PRELOAD` -/
def kernelPreload : Nat := 0xF000

/-- `KERNEL_PRELOAD/0x10` -/
def kernelPreloadSegment : Half := 0xF00

/-- The clusters one behind the other from `base` on. -/
def placedTransfers (B : Bios) (v : LoaderData) : Nat → List Nat → List Transfer
  | _, [] => []
  | base, c :: cs =>
    B.sectorRun (clusterLba v c) base v.sectorsPerCluster.toNat
      ++ placedTransfers B v (base + v.sectorsPerCluster.toNat * 512) cs

/-- The load that the kernel needs: the clusters of the chain are read in order, each to
its place behind the one before, and stand there at the end. -/
structure Placed (B : Bios) (v : LoaderData) (cs : List Nat) (s s' : Cpu) : Prop where
  returns : fatLoadBinary B v cs.length s = some s'
  transfers : s'.transfers = s.transfers ++ placedTransfers B v kernelPreload cs
  stored : ∀ i c, cs[i]? = some c → ∀ j, j < v.sectorsPerCluster.toNat → ∀ k, k < 512 →
    s'.mem (kernelPreload + i * v.sectorsPerCluster.toNat * 512 + j * 512 + k)
      = B.sectors (clusterLba v c + j) k

/-- When they do: a single cluster on the LBA path, with nothing in the upper half of
EAX; up to 64 KiB on the CHS path, with sector numbers that fit. -/
def PlacementMeets (v : LoaderData) (s : Cpu) (cs : List Nat) : Prop :=
  if v.bDriveLBA = true8 then cs.length = 1 ∧ s.eax.toNat < 65536
  else cs.length * v.sectorsPerCluster.toNat * 512 ≤ 65536 ∧
    ∀ c ∈ cs, ∀ j, j < v.sectorsPerCluster.toNat → ChsFits v (clusterLba v c + j)

theorem FatChain.all {total c : Nat} {cs : List Nat} {mem : Bytes}
    (h : FatChain v total mem c cs) : ∀ d ∈ cs, DataCluster v total d := by
  induction h with
  | last hc _ =>
      intro d hd
      rw [List.mem_singleton.mp hd]
      exact hc
  | next hc _ ih =>
      intro d hd
      cases hd with
      | head => exact hc
      | tail _ hd => exact ih d hd

/-- The preload area is apart from the FAT, whatever BX is. -/
theorem pathClear_preload {n : Nat} (bx : Half) :
    PathClear v kernelPreloadSegment bx n := by
  have hseg : kernelPreloadSegment.toNat = 0xF00 := rfl
  unfold PathClear Extent.Apart fatExtent linear diskBuffer
  rw [hseg]
  split
  · intro k _
    right
    dsimp only
    omega
  · intro k _
    right
    dsimp only
    omega

theorem length_sectorRun (lba addr n : Nat) : (B.sectorRun lba addr n).length = n := by
  simp [Bios.sectorRun]

/-- Runs of sectors are told apart by their first sector. -/
theorem sectorRun_inj {lba lba' addr addr' n : Nat} (hn : 0 < n)
    (h : B.sectorRun lba addr n = B.sectorRun lba' addr' n) : lba = lba' ∧ addr = addr' := by
  rw [Bios.sectorRun, Bios.sectorRun, List.map_inj_left] at h
  have hfirst := h 0 (List.mem_range.mpr hn)
  simp only [Nat.add_zero, Nat.mul_zero, Transfer.mk.injEq] at hfirst
  exact hfirst

theorem spc_pos {total : Nat} (hv : Volume v total) : 0 < v.sectorsPerCluster.toNat := by
  have hspc := hv.sectorsPerCluster
  bv_omega

/-- On the LBA path a second cluster goes where the first one is. -/
theorem lba_placed_iff {total : Nat} (hv : Volume v total) (hlba : v.bDriveLBA = true8)
    {es : Half} {bx : Half} {eaxs : List Word} {cs : List Nat} {eax : Word}
    (hlen : eaxs.map (fun eax => (lo eax).toNat) = cs.map (clusterLba v))
    (hfirst : eaxs.head? = some eax) :
    chainTransfers B v es bx eaxs = placedTransfers B v (linear es bx) cs ↔
      cs.length = 1 ∧ eax.toNat < 65536 := by
  have hspc := spc_pos hv
  have hsame : bx + (0 : Half) = bx := BitVec.add_zero _
  cases eaxs with
  | nil => cases hfirst
  | cons e es' =>
      cases cs with
      | nil => cases hlen
      | cons c cs' =>
          have he : e = eax := Option.some.inj hfirst
          subst he
          rw [List.map_cons, List.map_cons, List.cons.injEq] at hlen
          rcases hlen with ⟨hlow, hlen⟩
          have hnum := toNat_lo e
          simp only [chainTransfers, placedTransfers, requestTransfers, if_pos hlba,
            toNat_clusterCX, clusterStride, hsame]
          constructor
          · intro h
            have hparts := List.append_inj h (by rw [length_sectorRun, length_sectorRun])
            have hhead := (sectorRun_inj hspc hparts.1).1
            refine ⟨?_, ?_⟩
            · cases cs' with
              | nil => rfl
              | cons c₂ cs₂ =>
                  cases es' with
                  | nil => cases hlen
                  | cons e₂ es₂ =>
                      -- the second cluster goes where the first one went, since BX stays
                      exfalso
                      have htail := hparts.2
                      simp only [chainTransfers, placedTransfers, requestTransfers, if_pos hlba,
                        toNat_clusterCX] at htail
                      have hsecond := List.append_inj htail
                        (by rw [length_sectorRun, length_sectorRun])
                      have haddr := (sectorRun_inj hspc hsecond.1).2
                      omega
            · have hlt := (lo e).isLt
              omega
          · intro h
            have hnil : cs' = [] := List.length_eq_zero_iff.mp (Nat.succ.inj h.1)
            subst hnil
            have hnil' : es' = [] := List.map_eq_nil_iff.mp hlen
            subst hnil'
            have hval : e.toNat = clusterLba v c := by omega
            rw [hval]
            rfl

/-- One cluster on the CHS path. -/
theorem chs_cluster_iff {total : Nat} (hv : Volume v total) (hg : SameGeometry B v)
    (hsize : B.sectorSize = 512) (hbps : v.bytesPerSector = 512) {es bx ax : Half} {c : Nat}
    (hc : DataCluster v total c) (hbx : bx.toNat % 512 = 0) (hax : ax.toNat = clusterLba v c) :
    (List.range (loopCount (clusterCX v))).map (chsTransfer B v es ax bx)
        = B.sectorRun (clusterLba v c) (linear es bx) v.sectorsPerCluster.toNat ↔
      bx.toNat + v.sectorsPerCluster.toNat * 512 ≤ 65536 ∧
        ∀ j, j < v.sectorsPerCluster.toNat → ChsFits v (clusterLba v c + j) := by
  have hspc := spc_pos hv
  have hinside := hc.inside
  have htotal := hv.total_fits
  have hsum : ∀ j, j < v.sectorsPerCluster.toNat →
      (ax + BitVec.ofNat 16 j).toNat = clusterLba v c + j := by
    intro j hj
    rw [toNat_add_ofNat (by omega), hax]
  rw [loopCount_eq (clusterCX_ne_zero hv.sectorsPerCluster), toNat_clusterCX, eq_comm,
    transfers_eq_iff hsize hbps]
  constructor
  · intro h
    have hlast := (h (v.sectorsPerCluster.toNat - 1) (by omega)).2
    refine ⟨by omega, ?_⟩
    intro j hj
    have hsector := (h j hj).1
    rw [← hsum j hj] at hsector ⊢
    exact (chsSector_eq_iff hg _).mp hsector.symm
  · intro h
    rcases h with ⟨hroom, hfits⟩
    intro j hj
    have hfit := hfits j hj
    rw [← hsum j hj] at hfit ⊢
    exact ⟨((chsSector_eq_iff hg _).mpr hfit).symm, by omega⟩

/-- Past 64 KiB the next cluster goes to the start of the segment. -/
theorem chs_wrapped {total : Nat} (hv : Volume v total) (hchs : v.bDriveLBA ≠ true8)
    (hbps : v.bytesPerSector = 512) {es bx bx' : Half} {eaxs : List Word} {cs : List Nat}
    (hnext : bx'.toNat = (bx.toNat + v.sectorsPerCluster.toNat * 512) % 65536)
    (hwrap : bx.toNat + v.sectorsPerCluster.toNat * 512 = 65536) (hne : cs ≠ [])
    (hlen : eaxs.map (fun eax => (lo eax).toNat) = cs.map (clusterLba v))
    (h : chainTransfers B v es bx' eaxs
      = placedTransfers B v (linear es bx + v.sectorsPerCluster.toNat * 512) cs) : False := by
  have hcount := loopCount_eq (clusterCX_ne_zero hv.sectorsPerCluster)
  rw [toNat_clusterCX] at hcount
  cases cs with
  | nil => exact hne rfl
  | cons c cs =>
      cases eaxs with
      | nil => cases hlen
      | cons e es' =>
          simp only [chainTransfers, placedTransfers, requestTransfers, if_neg hchs, hcount] at h
          have hhead := (List.append_inj h (by
            rw [List.length_map, List.length_range, length_sectorRun])).1
          rw [Bios.sectorRun, List.map_inj_left] at hhead
          have hfirst := congrArg Transfer.addr (hhead 0 (List.mem_range.mpr (spc_pos hv)))
          simp only [chsTransfer, hbps, linear, toNat_offset, hnext, hwrap, Nat.mul_zero,
            Nat.add_zero] at hfirst
          omega

/-- BX after a cluster on the CHS path. -/
theorem toNat_chs_next (hchs : v.bDriveLBA ≠ true8) (hbps : v.bytesPerSector = 512) (bx : Half) :
    (bx + clusterStride v).toNat
      = (bx.toNat + v.sectorsPerCluster.toNat * 512) % 65536 := by
  have hoff := toNat_offset bx v.sectorsPerCluster.toNat
  rw [ofNat_clusterCX] at hoff
  rw [clusterStride, if_neg hchs, hbps, hoff, Nat.mul_comm 512]

/-- Behind a cluster that fits, the others are in place as long as BX does not wrap. -/
theorem chs_rest_iff {total : Nat} (hv : Volume v total) (hchs : v.bDriveLBA ≠ true8)
    (hbps : v.bytesPerSector = 512) {es bx : Half} {eaxs : List Word} {cs : List Nat}
    (hlen : eaxs.map (fun eax => (lo eax).toNat) = cs.map (clusterLba v))
    (hroom : bx.toNat + v.sectorsPerCluster.toNat * 512 ≤ 65536) {P : Nat → Prop}
    (hrest : chainTransfers B v es (bx + clusterStride v) eaxs
        = placedTransfers B v (linear es (bx + clusterStride v)) cs ↔
      (cs = [] ∨ (bx + clusterStride v).toNat
        + cs.length * v.sectorsPerCluster.toNat * 512 ≤ 65536) ∧ ∀ c ∈ cs, P c) :
    chainTransfers B v es (bx + clusterStride v) eaxs
        = placedTransfers B v (linear es bx + v.sectorsPerCluster.toNat * 512) cs ↔
      bx.toNat + (cs.length * v.sectorsPerCluster.toNat + v.sectorsPerCluster.toNat) * 512
        ≤ 65536 ∧ ∀ c ∈ cs, P c := by
  have hspc := spc_pos hv
  have hnext := toNat_chs_next hchs hbps bx
  rw [Nat.add_mul, Nat.add_comm (_ * 512), ← Nat.add_assoc]
  by_cases hnil : cs = []
  · subst hnil
    have hnil' : eaxs = [] := List.map_eq_nil_iff.mp hlen
    subst hnil'
    simpa [chainTransfers, placedTransfers] using hroom
  · have hpos : 0 < cs.length := List.length_pos_iff.mpr hnil
    have hmul : v.sectorsPerCluster.toNat
        ≤ cs.length * v.sectorsPerCluster.toNat := Nat.le_mul_of_pos_left _ hpos
    by_cases hroom' : bx.toNat + v.sectorsPerCluster.toNat * 512 < 65536
    · have hlinear : linear es (bx + clusterStride v)
          = linear es bx + v.sectorsPerCluster.toNat * 512 := by
        rw [linear, linear, hnext, Nat.mod_eq_of_lt hroom']
        omega
      rw [hlinear, hnext, Nat.mod_eq_of_lt hroom', or_iff_right hnil] at hrest
      exact hrest
    · -- the next cluster would start at the start of the segment
      constructor
      · intro h
        exact (chs_wrapped hv hchs hbps hnext (by omega) hnil hlen h).elim
      · intro h
        omega

/-- On the CHS path the clusters are in place as long as BX does not wrap. -/
theorem chs_placed_iff {total : Nat} (hv : Volume v total) (hchs : v.bDriveLBA ≠ true8)
    (hg : SameGeometry B v) (hsize : B.sectorSize = 512) (hbps : v.bytesPerSector = 512)
    {es bx : Half} {eaxs : List Word} {cs : List Nat} (hbx : bx.toNat % 512 = 0)
    (hcs : ∀ c ∈ cs, DataCluster v total c)
    (hlen : eaxs.map (fun eax => (lo eax).toNat) = cs.map (clusterLba v)) :
    chainTransfers B v es bx eaxs = placedTransfers B v (linear es bx) cs ↔
      (cs = [] ∨ bx.toNat + cs.length * v.sectorsPerCluster.toNat * 512 ≤ 65536) ∧
        ∀ c ∈ cs, ∀ j, j < v.sectorsPerCluster.toNat → ChsFits v (clusterLba v c + j) := by
  induction cs generalizing bx eaxs with
  | nil =>
      have hnil : eaxs = [] := List.map_eq_nil_iff.mp hlen
      subst hnil
      simp [chainTransfers, placedTransfers]
  | cons c cs ih =>
      cases eaxs with
      | nil => cases hlen
      | cons e es' =>
          rw [List.map_cons, List.map_cons, List.cons.injEq] at hlen
          rcases hlen with ⟨hlow, hlen⟩
          have hhead := @chs_cluster_iff B v total hv hg hsize hbps es bx _ c
            (hcs c List.mem_cons_self) hbx hlow
          have hnext := toNat_chs_next hchs hbps bx
          have ih' := @ih (bx + clusterStride v) es' (by omega)
            (fun d hd => hcs d (List.mem_cons_of_mem c hd)) hlen
          rw [List.length_cons, Nat.succ_mul, or_iff_right (List.cons_ne_nil c cs),
            List.forall_mem_cons]
          simp only [chainTransfers, placedTransfers, requestTransfers, if_neg hchs]
          constructor
          · intro h
            have hparts := List.append_inj h (by
              rw [List.length_map, List.length_range, length_sectorRun,
                loopCount_eq (clusterCX_ne_zero hv.sectorsPerCluster), toNat_clusterCX])
            rcases hhead.mp hparts.1 with ⟨hroom, hfits⟩
            rcases (chs_rest_iff hv hchs hbps hlen hroom ih').mp hparts.2 with ⟨hlast, hfits'⟩
            exact ⟨hlast, hfits, hfits'⟩
          · intro h
            rcases h with ⟨hlast, hfits, hfits'⟩
            have hroom : bx.toNat + v.sectorsPerCluster.toNat * 512 ≤ 65536 := by
              rw [Nat.add_mul, Nat.add_comm (_ * 512), ← Nat.add_assoc] at hlast
              exact Nat.le_trans (Nat.le_add_right _ _) hlast
            have hplaced := hhead.mpr ⟨hroom, hfits⟩
            have hplaced' := (chs_rest_iff hv hchs hbps hlen hroom ih').mpr ⟨hlast, hfits'⟩
            rw [hplaced, hplaced']

/-- The transfers of the placed clusters run upwards from `base`. -/
theorem placedTransfers_base_le {base : Nat} {cs : List Nat} :
    ∀ t ∈ placedTransfers B v base cs, base ≤ t.addr := by
  induction cs generalizing base with
  | nil =>
      intro t ht
      cases ht
  | cons c cs ih =>
      intro t ht
      rcases List.mem_append.mp ht with ht | ht
      · rcases List.mem_map.mp ht with ⟨i, _, rfl⟩
        exact Nat.le_add_right _ _
      · have hle := ih t ht
        omega

theorem placedTransfers_pairwise (hsize : B.sectorSize = 512) (base : Nat) (cs : List Nat) :
    (placedTransfers B v base cs).Pairwise
      (fun t u => (t.extent 512).Apart (u.extent 512)) := by
  induction cs generalizing base with
  | nil => exact List.Pairwise.nil
  | cons c cs ih =>
      rw [placedTransfers, List.pairwise_append]
      refine ⟨?_, ih _, ?_⟩
      · rw [Bios.sectorRun, List.pairwise_map]
        apply List.Pairwise.imp _ List.pairwise_lt_range
        intro i j hij
        simp only [Extent.Apart, Transfer.extent, hsize]
        omega
      · intro t ht u hu
        rcases List.mem_map.mp ht with ⟨i, hi, rfl⟩
        rw [List.mem_range] at hi
        have hle := placedTransfers_base_le u hu
        simp only [Extent.Apart, Transfer.extent, hsize]
        omega

theorem mem_placedTransfers (hsize : B.sectorSize = 512) {base i c j : Nat} {cs : List Nat}
    (hc : cs[i]? = some c) (hj : j < v.sectorsPerCluster.toNat) :
    (⟨clusterLba v c + j, base + i * v.sectorsPerCluster.toNat * 512 + j * 512⟩ : Transfer)
      ∈ placedTransfers B v base cs := by
  induction cs generalizing base i with
  | nil => cases hc
  | cons d ds ih =>
      rw [placedTransfers, List.mem_append]
      cases i with
      | zero =>
          left
          have hd : d = c := Option.some.inj hc
          subst hd
          apply List.mem_map.mpr
          refine ⟨j, List.mem_range.mpr hj, ?_⟩
          rw [hsize, Nat.zero_mul, Nat.zero_mul, Nat.add_zero, Nat.mul_comm]
      | succ i =>
          right
          have hmem := @ih (base + v.sectorsPerCluster.toNat * 512) i hc
          have haddr : base + v.sectorsPerCluster.toNat * 512
              + i * v.sectorsPerCluster.toNat * 512 + j * 512
              = base + (i + 1) * v.sectorsPerCluster.toNat * 512 + j * 512 := by
            rw [Nat.succ_mul, Nat.add_mul]
            omega
          rw [← haddr]
          exact hmem

/-- The load is right when the transfers are. -/
theorem placed_iff_transfers {total : Nat} (hv : Volume v total) (hok : B.NoError)
    (hsize : B.sectorSize = 512) (hbps : v.bytesPerSector = 512)
    (hstart : v.dataStart.toNat = firstDataSector v) {s : Cpu} {cs : List Nat}
    (hchain : FatChain v total s.mem (lo s.eax).toNat cs)
    (hes : s.es = kernelPreloadSegment) :
    ∃ eaxs, eaxs.map (fun eax => (lo eax).toNat) = cs.map (clusterLba v) ∧
      eaxs.head? = some (setLo s.eax (clusterSector v (lo s.eax))) ∧
      ((∃ s', Placed B v cs s s') ↔
        chainTransfers B v s.es (lo s.ebx) eaxs = placedTransfers B v kernelPreload cs) := by
  have hsize' : B.sectorSize = v.bytesPerSector.toNat := by
    rw [hsize, hbps]
    rfl
  have hclear : PathClear v s.es (lo s.ebx) cs.length := by
    rw [hes]
    exact pathClear_preload _
  -- whatever is placed was placed by the one run there is
  rcases chain_run hv hok hsize' hstart rfl hchain hclear with ⟨s', eaxs, hrun, h'⟩
  refine ⟨eaxs, h'.clusters, h'.first, ?_⟩
  constructor
  · intro h
    rcases h with ⟨t, ht⟩
    have hts : t = s' := Option.some.inj (ht.returns.symm.trans hrun)
    rw [hts] at ht
    exact List.append_cancel_left (h'.moved.transfers.symm.trans ht.transfers)
  · intro h
    have hmoved := h'.moved
    rw [h] at hmoved
    refine ⟨s', hrun, hmoved.transfers, ?_⟩
    intro i c hc j hj k hk
    have hload := loads_of_pairwise B.sectors s.mem
      (placedTransfers_pairwise (B := B) (v := v) hsize kernelPreload cs)
      (mem_placedTransfers hsize hc hj) hk
    rw [hmoved.mem, hsize]
    exact hload

/-- **Where a file ends up.** The clusters stand one behind the other exactly when the
chain fits what the path taken can place. -/
theorem fatPlacement_iff {total : Nat} (hv : Volume v total) (hok : B.NoError)
    (hg : SameGeometry B v) (hsize : B.sectorSize = 512) (hbps : v.bytesPerSector = 512)
    (hstart : v.dataStart.toNat = firstDataSector v) {s : Cpu} {cs : List Nat}
    (hchain : FatChain v total s.mem (lo s.eax).toNat cs)
    (hes : s.es = kernelPreloadSegment) (hbx : lo s.ebx = 0) :
    (∃ s', Placed B v cs s s') ↔ PlacementMeets v s cs := by
  have hbase : linear s.es (lo s.ebx) = kernelPreload := by
    rw [hes, hbx]
    rfl
  rcases placed_iff_transfers hv hok hsize hbps hstart hchain hes with
    ⟨eaxs, hclusters, hfirst, hplaced⟩
  rw [hplaced, PlacementMeets, ← hbase]
  -- the two paths of `disk_read_sectors` fail for different reasons
  by_cases hlba : v.bDriveLBA = true8
  · have hlt := (clusterSector v (lo s.eax)).isLt
    rw [if_pos hlba, lba_placed_iff hv hlba hclusters hfirst, toNat_setLo]
    constructor
    · intro h
      exact ⟨h.1, by omega⟩
    · intro h
      exact ⟨h.1, by omega⟩
  · have hzero : (lo s.ebx).toNat = 0 := by
      rw [hbx]
      rfl
    have hne : cs ≠ [] := List.ne_nil_of_length_pos hchain.length_pos
    rw [if_neg hlba, chs_placed_iff hv hlba hg hsize hbps (by omega) hchain.all hclusters, hzero,
      Nat.zero_add]
    simp only [hne, false_or]

/-- The loader behind `fat_load_root`, on either path. -/
def preloadData (lba : Byte) : LoaderData :=
  { floppyData with bDriveLBA := lba, dataStart := 33 }

/-- The request of `_start` for the chain 2, 3. -/
def preloadRequest : Cpu := { chainRequest with es := kernelPreloadSegment }

theorem preloadData_volume (lba : Byte) : Volume (preloadData lba) 2880 :=
  ⟨floppy_volume.total_fits, floppy_volume.data_fits, floppy_volume.sectorsPerCluster,
    floppy_volume.bytesPerSector, floppy_volume.bytesPerSector_mod,
    floppy_volume.rootDirEntries_mod, floppy_volume.sectorsPerTrack,
    floppy_volume.headsPerCylinder⟩

theorem preloadRequest_chain (lba : Byte) :
    FatChain (preloadData lba) 2880 preloadRequest.mem (lo preloadRequest.eax).toNat [2, 3] := by
  have hcluster : ∀ c, c = 2 ∨ c = 3 → DataCluster (preloadData lba) 2880 c := by
    intro c hc
    have hfloppy := chainRequest_chain.all c (by simpa using hc)
    exact ⟨hfloppy.low, hfloppy.high, hfloppy.inside, hfloppy.entry⟩
  exact FatChain.next (hcluster 2 (Or.inl rfl))
    (FatChain.last (hcluster 3 (Or.inr rfl)) (by decide))

/-- With the disk extensions the second cluster overwrites the first. -/
theorem fatPlacement_counterexample :
    ¬ ∃ s', Placed floppyBios (preloadData true8) [2, 3] preloadRequest s' := by
  rcases placed_iff_transfers (preloadData_volume true8) floppy_noError rfl rfl rfl
    (preloadRequest_chain true8) rfl with ⟨eaxs, hclusters, hfirst, hplaced⟩
  intro h
  have htransfers := hplaced.mp h
  exact absurd ((lba_placed_iff (preloadData_volume true8) rfl hclusters hfirst).mp
    htransfers).1 (by decide)

theorem fatPlacement_iff_floppy :
    ∃ s', Placed floppyBios (preloadData false8) [2, 3] preloadRequest s' := by
  rw [fatPlacement_iff (preloadData_volume false8) floppy_noError
    ⟨rfl, rfl, floppy_geometry.sectorsPerTrack_pos, floppy_geometry.heads_pos⟩ rfl rfl rfl
    (preloadRequest_chain false8) rfl (by decide)]
  have hchs : ¬ (preloadData false8).bDriveLBA = true8 := by decide
  rw [PlacementMeets, if_neg hchs]
  decide

end StupidOS.Boot
