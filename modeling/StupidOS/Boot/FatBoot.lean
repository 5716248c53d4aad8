import StupidOS.Boot.FatRoot

/-!
# Booting from FAT12 (`bootsect/floppy.asm`, `loader/fat.inc`, `loader/loader.asm`)

The boot sector of a floppy looks up the loader in the root directory and reads it to
`LOADER_BASE`. The loader does the same with the kernel and `KERNEL_PRELOAD`, after it has
taken the parameters of the volume from its first sector (`fat_read_bpb`). What they find and
read is said in terms of the disk alone: `floppyStart_loads` and `fatFallback_loads` go from
the directory and the FAT on the disk to the file in memory.

The boot sector has its own `disk_read_sectors`, instruction by instruction the CHS path of the
loader's; its `sectors_per_track` and so on are the parameters of the volume, and `drive_number`
is `uDrive`. Messages are left out.
-/

namespace StupidOS.Boot

/-! ## The boot sector -/

/-- `LOADER_BASE` -/
def loaderBase : Nat := 0x1000

/-- `LOADER_BASE/0x10` -/
def loaderBaseSegment : Half := 0x100

/-- `szLoaderFile` -/
def szLoaderFile : List Char := "STPDLDR SYS".toList

/-- `szKernelFile` -/
def szKernelFile : List Char := "VMSTUPIDSYS".toList

/-- The characters of a name as bytes. -/
def nameBytes (name : List Char) (k : Nat) : Byte :=
  BitVec.ofNat 8 ((name.getD k (Char.ofNat 0)).toNat)

/-- How the boot sector ends: it jumps to the loader, or has not found it. -/
inductive StartEnd
  | jumped (s : Cpu)
  | notFound (s : Cpu)

variable (B : Bios) (v : LoaderData)

/-- From `xor ax, ax` to the call of `disk_read_sectors` that loads the FAT. -/
def loadFat (s : Cpu) : Option Cpu :=
  let fat := mul16 (v.FATCount.setWidth 16) v.sectorsPerFAT
  callDiskReadSectors B v { s with
    eax := setLo s.eax v.reservedSectors
    ebx := setLo s.ebx 0
    ecx := setLo s.ecx (lo fat)
    edx := setLo s.edx (fat.extractLsb' 16 16) }

/-- One pass of the loop that resets the drive, with the number of resets before. -/
def resetPass (carry : Nat → Bool) (k : Nat) : Option (Pass Nat Unit) :=
  if carry k then some (.again (k + 1)) else some (.done ())

/-- `_start` of the boot sector from `.canonicalize_cs` on. `carry` says which resets report
an error. -/
def floppyStart (carry : Nat → Bool) (fuel : Nat) (s : Cpu) : Option StartEnd := do
  let s := { s with es := 0 }
  iterate (resetPass carry) fuel 0
  let (v, s) ← fatLoadRoot B v s
  let (cf, s) ← fatSearchRoot v (nameBytes szLoaderFile) s
  if cf then return .notFound s
  else
    let stage1Start := lo s.eax
    let s ← loadFat B v s
    let s ← fatLoadBinary B v fuel { s with
      es := loaderBaseSegment
      eax := setLo s.eax stage1Start
      ebx := setLo s.ebx 0 }
    return .jumped s

/-! ## The loader -/

/-- The variables with the parameters of the `fat_bpb` at `bpb`. -/
def bpbData (m : Bytes) (bpb : Nat) : LoaderData :=
  { v with
    sectorsPerTrack := m.half (bpb + 24)
    headsPerCylinder := m.half (bpb + 26)
    bytesPerSector := m.half (bpb + 11)
    sectorsPerFAT := m.half (bpb + 22)
    FATCount := m (bpb + 16)
    reservedSectors := m.half (bpb + 14)
    rootDirEntries := m.half (bpb + 17)
    sectorsPerCluster := m (bpb + 13) }

/-- `fat_read_bpb` -/
def fatReadBpb (s : Cpu) : Option (LoaderData × Cpu) := do
  let s ← callDiskReadSectors B v { s with
    eax := setLo (setLo s.eax diskBufferSegment) 0
    es := diskBufferSegment
    ebx := setLo s.ebx 0
    ecx := setLo s.ecx 1 }
  return (bpbData v s.mem diskBuffer, s)

/-- What `.fat_fallback` leaves: the registers and `uKernelSize`, or that there is no kernel. -/
inductive FallbackEnd
  | loaded (uKernelSize : Word) (s : Cpu)
  | notFound (s : Cpu)

/-- `.fat_fallback` of the loader, up to `.skip_fat`. -/
def fatFallback (fuel : Nat) (s : Cpu) : Option FallbackEnd := do
  let (v, s) ← fatReadBpb B v s
  let (v, s) ← fatLoadRoot B v s
  let (cf, s) ← fatSearchRoot v (nameBytes szKernelFile) s
  if cf then return .notFound s
  else
    let pKernelStartFat := lo s.eax
    let uKernelSize := s.ebx
    let s ← loadFat B v s
    let s ← fatLoadBinary B v fuel { s with
      es := kernelPreloadSegment
      eax := setLo s.eax pKernelStartFat
      ebx := setLo s.ebx 0 }
    return .loaded uKernelSize s

/-! ## The disk -/

/-- The sectors from `lba` on as they are once they have been read to `DISK_BUFFER`. -/
def bufferImage (lba : Nat) : Bytes := fun x =>
  B.sectors (lba + (x - diskBuffer) / 512) ((x - diskBuffer) % 512)

/-- The first sector of the root directory. -/
def rootLba : Nat := v.reservedSectors.toNat + v.FATCount.toNat * v.sectorsPerFAT.toNat

/-- A FAT12 volume of `total` sectors whose sectors the CHS path can address, and whose
directory and tables fit a segment. -/
structure BootVolume (total : Nat) : Prop extends Volume v total where
  chs : v.bDriveLBA ≠ true8
  geometry : SameGeometry B v
  sectorSize : B.sectorSize = 512
  bytes : v.bytesPerSector = 512
  fits : ∀ lba, lba < total → ChsFits v lba
  root_pos : v.rootDirEntries ≠ 0
  root_buffer : 32 * v.rootDirEntries.toNat ≤ 65536
  fat_pos : v.FATCount ≠ 0 ∧ v.sectorsPerFAT ≠ 0
  fat_buffer : v.FATCount.toNat * v.sectorsPerFAT.toNat * 512 ≤ 65536

/-- A file of the root directory: entry `i` is the first with its name, and its clusters are
`cs`. -/
structure FileOnDisk (total : Nat) (name : Nat → Byte) (i : Nat) (cs : List Nat) : Prop where
  entry : FirstNamed (bufferImage B (rootLba v)) name v.rootDirEntries.toNat i
  chain : FatChain v total (bufferImage B v.reservedSectors.toNat)
    (entryStart (bufferImage B (rootLba v)) i).toNat cs

/-- The clusters of the file stand one behind the other from `base` on. -/
def FileAt (cs : List Nat) (base : Nat) (mem : Bytes) : Prop :=
  ∀ i c, cs[i]? = some c → ∀ j, j < v.sectorsPerCluster.toNat → ∀ k, k < 512 →
    mem (base + i * v.sectorsPerCluster.toNat * 512 + j * 512 + k)
      = B.sectors (clusterLba v c + j) k

/-! ## Reading to the buffer -/

variable {B v}

theorem loads_sectorRun (hsize : B.sectorSize = 512) (lba base n : Nat) (m : Bytes) (x : Nat) :
    loads B.sectors 512 (B.sectorRun lba base n) m x =
      if base ≤ x ∧ x < base + 512 * n then
        B.sectors (lba + (x - base) / 512) ((x - base) % 512)
      else m x := by
  have hpair : (B.sectorRun lba base n).Pairwise
      (fun t u => (t.extent 512).Apart (u.extent 512)) := by
    rw [Bios.sectorRun, List.pairwise_map]
    apply List.Pairwise.imp _ List.pairwise_lt_range
    intro i j hij
    simp only [Extent.Apart, Transfer.extent, hsize]
    omega
  split
  · next hin =>
    have hmem : (⟨lba + (x - base) / 512, base + 512 * ((x - base) / 512)⟩ : Transfer)
        ∈ B.sectorRun lba base n := by
      refine List.mem_map.mpr ⟨(x - base) / 512, List.mem_range.mpr (by omega), ?_⟩
      rw [hsize]
    have hbyte := loads_of_pairwise B.sectors m hpair hmem
      (Nat.mod_lt (x - base) (by decide : 0 < 512))
    dsimp only at hbyte
    have hx : base + 512 * ((x - base) / 512) + (x - base) % 512 = x := by omega
    rw [hx] at hbyte
    exact hbyte
  · next hout =>
    apply loads_frame
    intro t ht
    rcases List.mem_map.mp ht with ⟨i, hi, rfl⟩
    rw [List.mem_range] at hi
    dsimp only
    rw [hsize]
    omega

/-- On the CHS path, sectors whose numbers fit are read one behind the other. -/
theorem chsTransfers_eq (hg : SameGeometry B v) (hsize : B.sectorSize = 512)
    (hbps : v.bytesPerSector = 512) {es ax bx : Half} {n : Nat} (hlast : ax.toNat + n ≤ 65536)
    (hroom : bx.toNat + 512 * n ≤ 65536) (hfits : ∀ i, i < n → ChsFits v (ax.toNat + i)) :
    (List.range n).map (chsTransfer B v es ax bx)
      = B.sectorRun ax.toNat (linear es bx) n := by
  refine ((transfers_eq_iff hsize hbps ax.toNat es ax bx).mpr ?_).symm
  intro i hi
  have hsum : (ax + BitVec.ofNat 16 i).toNat = ax.toNat + i := toNat_add_ofNat (by omega)
  have hfit := hfits i hi
  rw [← hsum] at hfit ⊢
  exact ⟨((chsSector_eq_iff hg _).mpr hfit).symm, by omega⟩

/-- What a call has left that read `n` sectors from `lba` on to `DISK_BUFFER`. -/
structure Buffered (B : Bios) (lba n : Nat) (s s' : Cpu) : Prop where
  image : ∀ x, diskBuffer ≤ x → x < diskBuffer + 512 * n → s'.mem x = bufferImage B lba x
  frame : ∀ x, x < diskBuffer ∨ diskBuffer + 512 * n ≤ x → s'.mem x = s.mem x
  es : s'.es = s.es
  stack : s'.stack = s.stack

theorem callDiskReadSectors_buffered (hok : B.NoError) (hchs : v.bDriveLBA ≠ true8)
    (hg : HasGeometry v) (hsize : B.sectorSize = 512) {s : Cpu} {lba n : Nat}
    (hes : s.es = diskBufferSegment) (hbx : lo s.ebx = 0) (hcx : (lo s.ecx).toNat = n)
    (hpos : 0 < n) (hts : (List.range n).map (chsTransfer B v s.es (lo s.eax) (lo s.ebx))
      = B.sectorRun lba (linear s.es (lo s.ebx)) n) :
    ∃ s', callDiskReadSectors B v s = some s' ∧ Buffered B lba n s s' := by
  rcases callDiskReadSectors_spec hok hg.sectorsPerTrack hg.heads s with ⟨s', hcall, h⟩
  have hne : lo s.ecx ≠ 0 := by
    intro hzero
    rw [hzero] at hcx
    exact absurd hcx (Nat.ne_of_lt hpos)
  have hbase : linear s.es (lo s.ebx) = diskBuffer := by
    rw [hes, hbx]
    rfl
  have hmem := h.moved.mem
  rw [diskTransfers, if_neg hchs, loopCount_eq hne, hcx, hts, hbase, hsize] at hmem
  refine ⟨s', hcall, ?_, ?_, h.moved.es, h.moved.stack⟩
  · intro x hlow hhigh
    rw [hmem, loads_sectorRun hsize, if_pos ⟨hlow, hhigh⟩]
    rfl
  · intro x hout
    rw [hmem, loads_sectorRun hsize, if_neg (by omega)]

theorem BootVolume.hasGeometry {total : Nat} (hB : BootVolume B v total) : HasGeometry v :=
  hB.geometry.hasGeometry

/-- Reading sectors of the volume. -/
theorem BootVolume.buffered {total : Nat} (hB : BootVolume B v total) (hok : B.NoError) {s : Cpu}
    {n : Nat} (hes : s.es = diskBufferSegment) (hbx : lo s.ebx = 0)
    (hcx : (lo s.ecx).toNat = n) (hpos : 0 < n) (hbuffer : n * 512 ≤ 65536)
    (hinside : (lo s.eax).toNat + n ≤ total) :
    ∃ s', callDiskReadSectors B v s = some s' ∧ Buffered B (lo s.eax).toNat n s s' := by
  have htotal := hB.total_fits
  have hzero : (lo s.ebx).toNat = 0 := by
    rw [hbx]
    rfl
  apply callDiskReadSectors_buffered hok hB.chs hB.hasGeometry hB.sectorSize hes hbx hcx hpos
  apply chsTransfers_eq hB.geometry hB.sectorSize hB.bytes (by omega) (by omega)
  intro i hi
  exact hB.fits _ (by omega)

/-- `data_start` is no parameter of the volume. -/
theorem BootVolume.withStart {total : Nat} (hB : BootVolume B v total) (start : Half) :
    BootVolume B { v with dataStart := start } total :=
  ⟨hB.toVolume.withStart start, hB.chs, ⟨hB.geometry.sectorsPerTrack, hB.geometry.heads,
    hB.geometry.sectorsPerTrack_pos, hB.geometry.heads_pos⟩, hB.sectorSize, hB.bytes, hB.fits,
    hB.root_pos, hB.root_buffer, hB.fat_pos, hB.fat_buffer⟩

/-! ## The steps -/

/-- Sectors of all FATs, as the code multiplies. -/
theorem toNat_fatSectors {total : Nat} (hB : BootVolume B v total) :
    (lo (mul16 (v.FATCount.setWidth 16) v.sectorsPerFAT)).toNat
      = v.FATCount.toNat * v.sectorsPerFAT.toNat := by
  have hbuffer := hB.fat_buffer
  rw [toNat_lo_mul16, toNat_byte16]
  rw [toNat_byte16]
  omega

theorem fatSectors_pos {total : Nat} (hB : BootVolume B v total) :
    0 < v.FATCount.toNat * v.sectorsPerFAT.toNat := by
  rcases hB.fat_pos with ⟨hcount, hsectors⟩
  have hcount' : 0 < v.FATCount.toNat := by bv_omega
  exact Nat.mul_pos hcount' (toNat_pos hsectors)

/-- A whole number of sectors holds the root directory. -/
theorem rootDirSectors_mul {total : Nat} (hB : BootVolume B v total) :
    rootDirSectors v * 512 = 32 * v.rootDirEntries.toNat := by
  have hmod := hB.rootDirEntries_mod
  rw [hB.bytes] at hmod
  rw [rootDirSectors, hB.bytes]
  have h512 : (512 : Half).toNat = 512 := rfl
  rw [h512] at hmod ⊢
  omega

/-- `fat_load_root` leaves the root directory at `DISK_BUFFER`. -/
theorem fatLoadRoot_buffered {total : Nat} (hB : BootVolume B v total) (hok : B.NoError)
    (s : Cpu) : ∃ v' s', fatLoadRoot B v s = some (v', s') ∧
      v' = { v with dataStart := v'.dataStart } ∧ v'.dataStart.toNat = firstDataSector v ∧
      s'.es = diskBufferSegment ∧ s'.stack = s.stack ∧
      ∀ x, diskBuffer ≤ x → x < diskBuffer + 32 * v.rootDirEntries.toNat →
        s'.mem x = bufferImage B (rootLba v) x := by
  have hdata := hB.data_fits
  have htotal := hB.total_fits
  have hroot := rootDirSectors_eq hB.toVolume
  have hroot512 := rootDirSectors_mul hB
  have hpos := toNat_pos hB.root_pos
  have hbuffer := hB.root_buffer
  unfold firstDataSector at hdata
  have hbx : v.bytesPerSector >>> 5 ≠ 0 := by
    rw [hB.bytes]
    decide
  have hlba : (lo (mul16 v.sectorsPerFAT (v.FATCount.setWidth 16)) + v.reservedSectors).toNat
      = rootLba v := by
    have hcomm := Nat.mul_comm v.FATCount.toNat v.sectorsPerFAT.toNat
    have hmul := @toNat_lo_mul16 v.sectorsPerFAT (v.FATCount.setWidth 16)
    rw [toNat_byte16] at hmul
    have hmul' := hmul (by omega)
    rw [BitVec.toNat_add, hmul', rootLba]
    omega
  let start : Half := lo (mul16 v.sectorsPerFAT (v.FATCount.setWidth 16)) + v.reservedSectors
    + v.rootDirEntries / (v.bytesPerSector >>> 5)
  have hstart : start.toNat = firstDataSector v := by
    simp only [start]
    rw [BitVec.toNat_add, hlba, hroot, firstDataSector, rootLba]
    omega
  rcases (hB.withStart start).buffered hok (s := { s with
      es := diskBufferSegment
      eax := setLo s.eax (lo (mul16 v.sectorsPerFAT (v.FATCount.setWidth 16))
        + v.reservedSectors)
      ebx := setLo s.ebx 0
      ecx := setLo s.ecx (v.rootDirEntries / (v.bytesPerSector >>> 5))
      edx := setLo s.edx (v.rootDirEntries % (v.bytesPerSector >>> 5)) })
    rfl (lo_setLo _ _) (n := rootDirSectors v) (by rw [lo_setLo, hroot]) (by omega) (by omega)
    (by rw [lo_setLo, hlba, rootLba]; omega) with ⟨s', hcall, h⟩
  rw [lo_setLo, hlba] at h
  refine ⟨{ v with dataStart := start }, s', ?_, rfl, hstart, h.es, h.stack, ?_⟩
  · simp only [fatLoadRoot, guard, if_pos hbx, setLo_setLo, Option.pure_def, Option.bind_eq_bind,
      Option.bind_some]
    rw [hcall]
    rfl
  · intro x hlow hhigh
    exact h.image x hlow (by omega)

/-- The FATs at `DISK_BUFFER`. -/
theorem loadFat_buffered {total : Nat} (hB : BootVolume B v total) (hok : B.NoError) {s : Cpu}
    (hes : s.es = diskBufferSegment) : ∃ s', loadFat B v s = some s' ∧
      Buffered B v.reservedSectors.toNat (v.FATCount.toNat * v.sectorsPerFAT.toNat) s s' := by
  have hdata := hB.data_fits
  unfold firstDataSector at hdata
  have hcount := toNat_fatSectors hB
  have hax := lo_setLo s.eax v.reservedSectors
  rcases hB.buffered hok (s := { s with
      eax := setLo s.eax v.reservedSectors
      ebx := setLo s.ebx 0
      ecx := setLo s.ecx (lo (mul16 (v.FATCount.setWidth 16) v.sectorsPerFAT))
      edx := setLo s.edx ((mul16 (v.FATCount.setWidth 16) v.sectorsPerFAT).extractLsb' 16 16) })
    hes (lo_setLo _ _) (n := v.FATCount.toNat * v.sectorsPerFAT.toNat)
    (by rw [lo_setLo, hcount]) (fatSectors_pos hB) hB.fat_buffer (by rw [hax]; omega) with
    ⟨s', hcall, h⟩
  rw [hax] at h
  exact ⟨s', hcall, h.image, h.frame, h.es, h.stack⟩

/-- A chain on the disk is the chain in the buffer. -/
theorem FatChain.buffered {total lba c : Nat} {cs : List Nat} {s s' : Cpu}
    (hB : BootVolume B v total)
    (h : Buffered B lba (v.FATCount.toNat * v.sectorsPerFAT.toNat) s s')
    (hchain : FatChain v total (bufferImage B lba) c cs) : FatChain v total s'.mem c cs := by
  apply hchain.congr
  intro x hlow hhigh
  apply h.image x hlow
  have hcount : 0 < v.FATCount.toNat := by
    have hne := hB.fat_pos.1
    bv_omega
  have hone := Nat.le_mul_of_pos_left v.sectorsPerFAT.toNat hcount
  have h512 : (512 : Half).toNat = 512 := rfl
  rw [fatBytes, hB.bytes, h512] at hhigh
  omega

/-- `fat_load_binary` puts the clusters one behind the other at the start of a segment. -/
theorem fatLoadBinary_file {total : Nat} (hB : BootVolume B v total) (hok : B.NoError)
    (hstart : v.dataStart.toNat = firstDataSector v) {s : Cpu} {cs : List Nat}
    (hbx : lo s.ebx = 0) (hchain : FatChain v total s.mem (lo s.eax).toNat cs)
    (hclear : PathClear v s.es 0 cs.length)
    (hroom : cs.length * v.sectorsPerCluster.toNat * 512 ≤ 65536) :
    ∃ s', (∀ fuel, cs.length ≤ fuel → fatLoadBinary B v fuel s = some s') ∧
      s'.stack = s.stack ∧ FileAt B v cs (16 * s.es.toNat) s'.mem := by
  have hsize : B.sectorSize = v.bytesPerSector.toNat := by
    rw [hB.sectorSize, hB.bytes]
    rfl
  have hzero : (lo s.ebx).toNat = 0 := by
    rw [hbx]
    rfl
  rw [← hbx] at hclear
  rcases chain_run hB.toVolume hok hsize hstart rfl hchain hclear with ⟨s', eaxs, hrun, h'⟩
  have hplaced : chainTransfers B v s.es (lo s.ebx) eaxs
      = placedTransfers B v (linear s.es (lo s.ebx)) cs := by
    refine (chs_placed_iff hB.toVolume hB.chs hB.geometry hB.sectorSize hB.bytes (by omega)
      hchain.all h'.clusters).mpr ⟨Or.inr (by omega), ?_⟩
    intro c hc j hj
    have hcluster := (hchain.all c hc).inside
    exact hB.fits _ (by omega)
  have hbase : linear s.es (lo s.ebx) = 16 * s.es.toNat := by
    rw [linear, hzero, Nat.add_zero]
  have hmem := h'.moved.mem
  rw [hplaced, hbase, hB.sectorSize] at hmem
  refine ⟨s', fun fuel hfuel => iterate_mono hfuel hrun, h'.moved.stack, ?_⟩
  intro i c hc j hj k hk
  rw [hmem]
  exact loads_of_pairwise B.sectors s.mem
    (placedTransfers_pairwise hB.sectorSize (16 * s.es.toNat) cs)
    (mem_placedTransfers hB.sectorSize hc hj) hk

/-- The loop that resets the drive ends with the first reset that reports no error. -/
theorem reset_done {carry : Nat → Bool} {n k fuel : Nat} (hk : carry (k + n) = false)
    (hfuel : n < fuel) : iterate (resetPass carry) fuel k = some () := by
  induction n generalizing k fuel with
  | zero =>
      obtain ⟨fuel, rfl⟩ : ∃ m, fuel = m + 1 := ⟨fuel - 1, by omega⟩
      apply iterate_done
      rw [Nat.add_zero] at hk
      rw [resetPass, hk]
      rfl
  | succ n ih =>
      obtain ⟨fuel, rfl⟩ : ∃ m, fuel = m + 1 := ⟨fuel - 1, by omega⟩
      by_cases hnow : carry k = true
      · have hagain : resetPass carry k = some (.again (k + 1)) := by
          rw [resetPass, if_pos hnow]
        rw [iterate_again hagain]
        exact ih (by rw [Nat.add_assoc, Nat.add_comm 1]; exact hk) (by omega)
      · apply iterate_done
        rw [resetPass, if_neg hnow]

/-! ## Finding a file and loading it -/

/-- The file is found and its clusters are read to a segment: the states after
`fat_load_root`, the search, the reading of the FAT and `fat_load_binary`. -/
structure FileLoaded (B : Bios) (v : LoaderData) (name : Nat → Byte) (i : Nat) (cs : List Nat)
    (seg : Half) (s : Cpu) (v' : LoaderData) (s₁ s₂ s₃ s₄ : Cpu) : Prop where
  root : fatLoadRoot B v s = some (v', s₁)
  found : fatSearchRoot v' name s₁ = some (false, s₂)
  size : s₂.ebx = entrySize (bufferImage B (rootLba v)) i
  fat : loadFat B v' s₂ = some s₃
  load : ∀ fuel, cs.length ≤ fuel → fatLoadBinary B v' fuel { s₃ with
    es := seg, eax := setLo s₃.eax (lo s₂.eax), ebx := setLo s₃.ebx 0 } = some s₄
  file : FileAt B v cs (16 * seg.toNat) s₄.mem
  stack : s₄.stack = s.stack

theorem fileLoaded {total i : Nat} {name : Nat → Byte} {cs : List Nat} {seg : Half}
    (hB : BootVolume B v total) (hok : B.NoError) (hfile : FileOnDisk B v total name i cs)
    (hclear : PathClear v seg 0 cs.length)
    (hroom : cs.length * v.sectorsPerCluster.toNat * 512 ≤ 65536) (s : Cpu) :
    ∃ v' s₁ s₂ s₃ s₄, FileLoaded B v name i cs seg s v' s₁ s₂ s₃ s₄ := by
  rcases fatLoadRoot_buffered hB hok s with
    ⟨v', s₁, hroot, hv', hstart, hes₁, hstack₁, himage⟩
  have hB' : BootVolume B v' total := by
    rw [hv']
    exact hB.withStart v'.dataStart
  have hentries : v'.rootDirEntries = v.rootDirEntries := by
    rw [hv']
  have hinside := hfile.entry.inside
  have hfirst : FirstNamed s₁.mem name v'.rootDirEntries.toNat i := by
    rw [hentries]
    exact hfile.entry.congr himage
  rcases (fatSearchRoot_spec hes₁ hB'.root_pos hB'.root_buffer).1 i hfirst with ⟨cx, hsearch⟩
  rw [entryStart_congr himage hinside, entrySize_congr himage hinside] at hsearch
  let s₂ : Cpu := { s₁ with
    eax := setLo s₁.eax (entryStart (bufferImage B (rootLba v)) i)
    ebx := entrySize (bufferImage B (rootLba v)) i
    ecx := cx }
  rcases loadFat_buffered hB' hok (s := s₂) hes₁ with ⟨s₃, hfat, h₃⟩
  have hchain' : FatChain v' total (bufferImage B v.reservedSectors.toNat)
      (entryStart (bufferImage B (rootLba v)) i).toNat cs := by
    rw [hv']
    exact hfile.chain.withStart v'.dataStart
  have hreserved : v'.reservedSectors = v.reservedSectors := by
    rw [hv']
  rw [hreserved] at h₃
  have hbuffered := hchain'.buffered hB' h₃
  have hclear' : PathClear v' seg 0 cs.length := by
    rw [hv']
    exact hclear
  have hstart' : v'.dataStart.toNat = firstDataSector v' := by
    rw [hstart, hv']
    rfl
  rcases fatLoadBinary_file hB' hok hstart' (s := { s₃ with
      es := seg, eax := setLo s₃.eax (lo s₂.eax), ebx := setLo s₃.ebx 0 })
    (lo_setLo _ _) (by rw [lo_setLo, lo_setLo]; exact hbuffered) hclear'
    (by rw [hv']; exact hroom) with ⟨s₄, hload, hstack₄, hat⟩
  refine ⟨v', s₁, s₂, s₃, s₄, hroot, hsearch, rfl, hfat, hload, ?_, ?_⟩
  · rw [hv'] at hat
    exact hat
  · rw [hstack₄, h₃.stack, ← hstack₁]

/-- A file that is not there is not found. -/
theorem file_missing {total : Nat} {name : Nat → Byte} (hB : BootVolume B v total)
    (hok : B.NoError) (hnone : ∀ j, j < v.rootDirEntries.toNat →
      ¬ EntryNamed (bufferImage B (rootLba v)) name j) (s : Cpu) :
    ∃ v' s₁ s₂, fatLoadRoot B v s = some (v', s₁) ∧
      fatSearchRoot v' name s₁ = some (true, s₂) := by
  rcases fatLoadRoot_buffered hB hok s with
    ⟨v', s₁, hroot, hv', _, hes₁, _, himage⟩
  have hB' : BootVolume B v' total := by
    rw [hv']
    exact hB.withStart v'.dataStart
  have hentries : v'.rootDirEntries = v.rootDirEntries := by
    rw [hv']
  have hnone' : ∀ j, j < v'.rootDirEntries.toNat → ¬ EntryNamed s₁.mem name j := by
    rw [hentries]
    intro j hj hnamed
    exact hnone j hj ((entryNamed_congr himage hj).mp hnamed)
  rcases (fatSearchRoot_spec hes₁ hB'.root_pos hB'.root_buffer).2 hnone' with ⟨cx, hsearch⟩
  exact ⟨v', s₁, _, hroot, hsearch⟩

/-! ## A floppy -/

/-- A sector of a 1.44 MB floppy that holds the loader in clusters 2 and 3 and the kernel in
cluster 4. -/
def bootSectors (lba k : Nat) : Byte :=
  if lba = 0 then
    -- the `fat_bpb`
    ([0xEB, 0, 0x90, 83, 84, 85, 80, 73, 68, 32, 32, 0, 2, 1, 1, 0, 2, 224, 0, 64, 11, 0xF0, 9, 0,
      18, 0, 2, 0] : List Byte).getD k 0
  else if lba = 1 then
    -- the entries 2, 3 and 4 of the FAT
    ([0xF0, 0xFF, 0xFF, 3, 0xF0, 0xFF, 0xFF, 0x0F] : List Byte).getD k 0
  else if lba = 19 then
    -- the root directory
    if k < 11 then nameBytes szKernelFile k
    else if k = 26 then 4
    else if k = 29 then 1
    else if 32 ≤ k ∧ k < 43 then nameBytes szLoaderFile (k - 32)
    else if k = 58 then 2
    else 0
  else 0x90

/-- The drive with it, and one with an empty file system. -/
def bootFloppy : Bios := { floppyBios with sectors := bootSectors }

def emptyFloppy : Bios :=
  { floppyBios with sectors := fun lba => if lba = 0 then bootSectors 0 else fun _ => 0 }

theorem bootSectors_bpb : bpbData floppyData (bootSectors 0) 0 = floppyData := by
  have h24 : Bytes.half (bootSectors 0) 24 = 18 := by decide
  have h26 : Bytes.half (bootSectors 0) 26 = 2 := by decide
  have h11 : Bytes.half (bootSectors 0) 11 = 512 := by decide
  have h22 : Bytes.half (bootSectors 0) 22 = 9 := by decide
  have h14 : Bytes.half (bootSectors 0) 14 = 1 := by decide
  have h17 : Bytes.half (bootSectors 0) 17 = 224 := by decide
  rw [bpbData, h24, h26, h11, h22, h14, h17]
  rfl

/-- Whatever the sectors hold. -/
theorem floppy_bootVolume (sectors : Nat → Bytes) :
    BootVolume { floppyBios with sectors := sectors } floppyData 2880 := by
  refine ⟨floppy_volume, by decide, ⟨rfl, rfl, by decide, by decide⟩, rfl, rfl, ?_, by decide,
    by decide, ⟨by decide, by decide⟩, by decide⟩
  intro lba hlba
  have h18 : floppyData.sectorsPerTrack.toNat = 18 := rfl
  have h2 : floppyData.headsPerCylinder.toNat = 2 := rfl
  rw [ChsFits, h18, h2]
  omega

theorem bootFloppy_loader :
    FileOnDisk bootFloppy floppyData 2880 (nameBytes szLoaderFile) 1 [2, 3] := by
  have hcluster : ∀ c, c = 2 ∨ c = 3 → DataCluster floppyData 2880 c := by
    intro c hc
    exact chainRequest_chain.all c (by simpa using hc)
  refine ⟨⟨by decide, by decide, by decide⟩, ?_⟩
  exact FatChain.next (hcluster 2 (Or.inl rfl))
    (FatChain.last (hcluster 3 (Or.inr rfl)) (by decide))

theorem bootFloppy_kernel :
    FileOnDisk bootFloppy floppyData 2880 (nameBytes szKernelFile) 0 [4] := by
  refine ⟨⟨by decide, by decide, by decide⟩, ?_⟩
  exact FatChain.last ⟨by decide, by decide, by decide, by decide⟩ (by decide)

/-- A drive that has to be reset four times. -/
def slowReset (k : Nat) : Bool := decide (k < 3)

theorem emptyFloppy_missing {name : Nat → Byte} (hname : name 0 ≠ 0) (j : Nat) :
    ¬ EntryNamed (bufferImage emptyFloppy (rootLba floppyData)) name j := by
  intro h
  have hroot : rootLba floppyData = 19 := rfl
  have hzero : bufferImage emptyFloppy 19 (rootEntry j + 0) = 0 := by
    rw [bufferImage, emptyFloppy]
    dsimp only
    rw [if_neg (by omega)]
  have hchar := h 0 (by decide)
  rw [hroot, hzero] at hchar
  exact hname hchar.symm

/-! ## The boot sector and the loader -/

/-- The loader ends up below the boot sector and the first 512 bytes of its stack. -/
def LoaderFits (v : LoaderData) (cs : List Nat) : Prop :=
  loaderBase + cs.length * v.sectorsPerCluster.toNat * 512 ≤ 0x7A00

instance (v : LoaderData) (cs : List Nat) : Decidable (LoaderFits v cs) :=
  inferInstanceAs (Decidable (_ ≤ _))

theorem LoaderFits.clear {cs : List Nat} (hbps : v.bytesPerSector = 512)
    (hchs : v.bDriveLBA ≠ true8) (h : LoaderFits v cs) :
    PathClear v loaderBaseSegment 0 cs.length := by
  unfold LoaderFits loaderBase at h
  rw [PathClear, if_neg hchs]
  intro k hk
  have hseg : loaderBaseSegment.toNat = 0x100 := rfl
  have h512 : (512 : Half).toNat = 512 := rfl
  have hoff := toNat_offset 0 k
  have hzero : (0 : Half).toNat = 0 := rfl
  rw [hzero, Nat.zero_add] at hoff
  left
  simp only [linear, fatExtent, diskBuffer, hbps, hseg, h512, hoff]
  omega

/-- **The boot sector.** From whatever state the BIOS starts it in, it jumps to the loader that
the root directory names, with all its clusters at `LOADER_BASE` in the order of the chain, or
stops when there is none. -/
theorem floppyStart_loads {total n : Nat} {carry : Nat → Bool} (hB : BootVolume B v total)
    (hok : B.NoError) (hreset : carry n = false) (s : Cpu) :
    (∀ i cs, FileOnDisk B v total (nameBytes szLoaderFile) i cs → LoaderFits v cs →
      ∃ s', (∀ fuel, n < fuel → cs.length ≤ fuel →
          floppyStart B v carry fuel s = some (.jumped s')) ∧
        FileAt B v cs loaderBase s'.mem ∧ s'.stack = s.stack) ∧
    ((∀ j, j < v.rootDirEntries.toNat →
        ¬ EntryNamed (bufferImage B (rootLba v)) (nameBytes szLoaderFile) j) →
      ∃ s', ∀ fuel, n < fuel → floppyStart B v carry fuel s = some (.notFound s')) := by
  have hdone : ∀ fuel, n < fuel → iterate (resetPass carry) fuel 0 = some () := by
    intro fuel hfuel
    apply reset_done _ hfuel
    rw [Nat.zero_add]
    exact hreset
  constructor
  · intro i cs hfile hfits
    have hclear := hfits.clear hB.bytes hB.chs
    have hroom : cs.length * v.sectorsPerCluster.toNat * 512 ≤ 65536 := by
      unfold LoaderFits at hfits
      omega
    rcases fileLoaded hB hok hfile hclear hroom { s with es := 0 } with
      ⟨v', s₁, s₂, s₃, s₄, h⟩
    refine ⟨s₄, ?_, h.file, h.stack⟩
    intro fuel hresets hclusters
    simp only [floppyStart, hdone fuel hresets, h.root, h.found, h.fat, h.load fuel hclusters,
      Option.bind_eq_bind, Option.bind_some, Bool.false_eq_true, if_false, Option.pure_def]
  · intro hnone
    rcases file_missing hB hok hnone { s with es := 0 } with ⟨v', s₁, s₂, hroot, hsearch⟩
    refine ⟨s₂, ?_⟩
    intro fuel hresets
    simp only [floppyStart, hdone fuel hresets, hroot, hsearch, Option.bind_eq_bind,
      Option.bind_some, if_true, Option.pure_def]

theorem floppyStart_loads_demo :
    (∃ s', floppyStart bootFloppy floppyData slowReset 5 (floppyRequest 1)
        = some (.jumped s') ∧ FileAt bootFloppy floppyData [2, 3] loaderBase s'.mem) ∧
      ∃ s', floppyStart emptyFloppy floppyData slowReset 5 (floppyRequest 1)
        = some (.notFound s') := by
  have hreset : slowReset 3 = false := rfl
  constructor
  · rcases (floppyStart_loads (floppy_bootVolume bootSectors) floppy_noError hreset
      (floppyRequest 1)).1 1 [2, 3] bootFloppy_loader (by decide) with ⟨s', hrun, hfile, _⟩
    exact ⟨s', hrun 5 (by decide) (by decide), hfile⟩
  · rcases (floppyStart_loads (floppy_bootVolume emptyFloppy.sectors) floppy_noError hreset
      (floppyRequest 1)).2 (fun j _ => emptyFloppy_missing (by decide) j) with
      ⟨s', hrun⟩
    exact ⟨s', hrun 5 (by decide)⟩

/-- The sectors of the first track are told without the geometry of the drive. -/
theorem chsSector_firstTrack {ax : Half} (hax : ax.toNat < v.sectorsPerTrack.toNat)
    (hlow : ax.toNat < 63) : chsSector B v ax = ax.toNat := by
  have hs : (ax % v.sectorsPerTrack + 1).toNat = ax.toNat + 1 := by
    have hone : (1 : Half).toNat = 1 := rfl
    rw [BitVec.toNat_add, BitVec.toNat_umod, Nat.mod_eq_of_lt hax, hone]
    omega
  simp only [chsSector, Bios.chsAddress, Bios.sectorAt, lbaToChs, BitVec.toNat_setWidth,
    BitVec.toNat_udiv, BitVec.toNat_umod, hs, Nat.div_eq_of_lt hax, Nat.zero_div, Nat.zero_mod,
    Nat.zero_add]
  rw [Nat.mod_eq_of_lt (by omega : ax.toNat + 1 < 2 ^ 8),
    Nat.div_eq_of_lt (by omega : ax.toNat + 1 < 64),
    Nat.mod_eq_of_lt (by omega : ax.toNat + 1 < 64)]
  omega

/-- One of them, read to `DISK_BUFFER`. -/
theorem firstTrack_buffered (hok : B.NoError) (hchs : v.bDriveLBA ≠ true8) (hg : HasGeometry v)
    (hsize : B.sectorSize = 512) (ax : Half) (hax : ax.toNat < v.sectorsPerTrack.toNat)
    (hlow : ax.toNat < 63) (s : Cpu) :
    ∃ s', callDiskReadSectors B v { s with
        eax := setLo s.eax ax
        es := diskBufferSegment
        ebx := setLo s.ebx 0
        ecx := setLo s.ecx 1 } = some s' ∧
      (∀ k, k < 512 → s'.mem (diskBuffer + k) = B.sectors ax.toNat k) ∧ s'.stack = s.stack := by
  have hts : (List.range 1).map (chsTransfer B v diskBufferSegment ax 0)
      = B.sectorRun ax.toNat (linear diskBufferSegment 0) 1 := by
    have hsector : chsSector B v (ax + BitVec.ofNat 16 0) = ax.toNat := by
      have hzero : ax + BitVec.ofNat 16 0 = ax := BitVec.add_zero ax
      rw [hzero]
      exact chsSector_firstTrack hax hlow
    simp only [Bios.sectorRun, List.range_one, List.map_singleton, chsTransfer, hsector]
    simp
  rcases callDiskReadSectors_buffered hok hchs hg hsize (s := { s with
      eax := setLo s.eax ax
      es := diskBufferSegment
      ebx := setLo s.ebx 0
      ecx := setLo s.ecx 1 })
    rfl (lo_setLo _ _) (n := 1) (by rw [lo_setLo]; rfl) Nat.one_pos
    (by rw [lo_setLo, lo_setLo]; exact hts) with ⟨s', hcall, h⟩
  refine ⟨s', hcall, ?_, h.stack⟩
  intro k hk
  rw [h.image _ (by omega) (by omega), bufferImage, Nat.add_sub_cancel_left,
    Nat.div_eq_of_lt hk, Nat.mod_eq_of_lt hk, Nat.add_zero]

/-- The parameters are those of the first sector. -/
theorem fatReadBpb_eq (hok : B.NoError) (hchs : v.bDriveLBA ≠ true8) (hg : HasGeometry v)
    (hsize : B.sectorSize = 512) (s : Cpu) :
    ∃ s', fatReadBpb B v s = some (bpbData v (B.sectors 0) 0, s') ∧ s'.stack = s.stack := by
  have hfirst : (0 : Half).toNat < v.sectorsPerTrack.toNat := toNat_pos hg.sectorsPerTrack
  rcases firstTrack_buffered hok hchs hg hsize 0 hfirst (by decide) { s with
      eax := setLo s.eax diskBufferSegment } with ⟨s', hcall, hbyte, hstack⟩
  have hzero : (0 : Half).toNat = 0 := rfl
  rw [hzero] at hbyte
  have hhalf : ∀ k, k < 511 → s'.mem.half (diskBuffer + k) = (B.sectors 0).half (0 + k) := by
    intro k hk
    rw [Bytes.half, Bytes.half, Nat.zero_add, hbyte k (by omega), Nat.add_assoc,
      hbyte (k + 1) (by omega)]
  have hbpb : bpbData v s'.mem diskBuffer = bpbData v (B.sectors 0) 0 := by
    rw [bpbData, bpbData, hhalf 24 (by decide), hhalf 26 (by decide), hhalf 11 (by decide),
      hhalf 22 (by decide), hbyte 16 (by decide), hhalf 14 (by decide), hhalf 17 (by decide),
      hbyte 13 (by decide)]
  refine ⟨s', ?_, hstack⟩
  simp only [fatReadBpb, hcall, Option.bind_eq_bind, Option.bind_some, hbpb, Option.pure_def]

/-- The FAT fallback of the loader. Whatever geometry it started with, it loads the kernel
that the root directory of the volume names to `KERNEL_PRELOAD`, up to 64 KiB, and keeps the
size that the directory gives; without one it reports that. -/
theorem fatFallback_loads {total : Nat} (hg : HasGeometry v)
    (hB : BootVolume B (bpbData v (B.sectors 0) 0) total) (hok : B.NoError) (s : Cpu) :
    (∀ i cs, FileOnDisk B (bpbData v (B.sectors 0) 0) total (nameBytes szKernelFile) i cs →
      cs.length * ((B.sectors 0) 13).toNat * 512 ≤ 65536 →
      ∃ s', (∀ fuel, cs.length ≤ fuel → fatFallback B v fuel s = some (.loaded
          (entrySize (bufferImage B (rootLba (bpbData v (B.sectors 0) 0))) i) s')) ∧
        FileAt B (bpbData v (B.sectors 0) 0) cs kernelPreload s'.mem ∧ s'.stack = s.stack) ∧
    ((∀ j, j < ((B.sectors 0).half 17).toNat →
        ¬ EntryNamed (bufferImage B (rootLba (bpbData v (B.sectors 0) 0)))
          (nameBytes szKernelFile) j) →
      ∃ s', ∀ fuel, fatFallback B v fuel s = some (.notFound s')) := by
  have hchs : v.bDriveLBA ≠ true8 := hB.chs
  rcases fatReadBpb_eq hok hchs hg hB.sectorSize s with ⟨s₀, hbpb, hstack₀⟩
  constructor
  · intro i cs hfile hroom
    rcases fileLoaded hB hok hfile (pathClear_preload 0) hroom s₀ with ⟨v', s₁, s₂, s₃, s₄, h⟩
    refine ⟨s₄, ?_, h.file, h.stack.trans hstack₀⟩
    intro fuel hclusters
    simp only [fatFallback, hbpb, h.root, h.found, h.fat, h.size, h.load fuel hclusters,
      Option.bind_eq_bind, Option.bind_some, Bool.false_eq_true, if_false, Option.pure_def]
  · intro hnone
    rcases file_missing hB hok hnone s₀ with ⟨v', s₁, s₂, hroot, hsearch⟩
    refine ⟨s₂, ?_⟩
    intro fuel
    simp only [fatFallback, hbpb, hroot, hsearch, Option.bind_eq_bind, Option.bind_some, if_true,
      Option.pure_def]

end StupidOS.Boot
