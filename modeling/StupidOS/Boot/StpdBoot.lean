import StupidOS.Boot.FatBoot
import StupidOS.Boot.StpdRoot
import StupidOS.Boot.StpdSearch

/-!
# Loading the kernel (`loader/loader.asm`)

The loader looks at the super block. With the magic number of StupidFS there, it loads the
root directory, looks the kernel up, reads its inode (`stpdfs_read_inode`) and copies its data
to `KERNEL_PRELOAD`; otherwise it takes the disk for a FAT one. What it comes to is said in
terms of the blocks on the disk alone: `loadKernel_stpdfs` for a drive with the disk
extensions, `loadKernel_fat` for one without. In the other two combinations only files of one
cluster, or of at most 4096 bytes, end up in place.
-/

namespace StupidOS.Boot

/-! ## The routines -/

/-- `STPDFS_MAGIC` -/
def stpdfsMagic : Word := 0x44505453

/-- `STPDFS_INODE_PER_BLOCK` -/
def stpdfsInodePerBlock : Word := 7

/-- `szKernelStpdfsFile` -/
def szKernelStpdfsName : List Char := "vmstupid.sys".toList

variable (B : Bios) (v : LoaderData)

/-- ESI after `mul cl` and `movzx`: where inode `edx` of the block is. -/
def inodeAddr (edx : Word) : Word :=
  let ax : Half := (lowByte edx).setWidth 16 * BitVec.ofNat 16 sizeofInode
  ax.setWidth 32 + BitVec.ofNat 32 diskBuffer

/-- `stpdfs_read_inode` -/
def stpdfsReadInode (s : Cpu) : Option (LoaderData × Cpu) := do
  let edx := s.eax % stpdfsInodePerBlock
  let s ← callDiskReadSectors B v { s with
    eax := s.eax / stpdfsInodePerBlock + 2
    edx := edx
    ecx := setLo stpdfsInodePerBlock 1
    es := diskBufferSegment
    ebx := setLo s.ebx 0 }
  let esi := inodeAddr edx
  let v := v.loadInode (fun a => s.mem (lo esi + BitVec.ofNat 16 a).toNat)
  return (v, { s with
    eax := setLo edx 0
    edx := edx
    ecx := 0
    esi := setLo esi (lo esi + BitVec.ofNat 16 sizeofInode)
    es := 0 })

/-- `call stpdfs_search`, with the carry flag. EDI is only used behind a write to it. -/
def callStpdfsSearch (chars entries : Nat) (s : Cpu) : Option (Bool × Cpu) :=
  match stpdfsSearch v chars entries { s with stack := .ret :: s.stack, edi := 0 } with
  | some (cf, some (.returned s')) => some (cf, s')
  | _ => none

/-- From the read of the super block to `.skip_fat`. The bounds are those of the loops, and
`szKernelStpdfsFile` is the address of the name. -/
def loadKernel (chars entries fuel : Nat) (szKernelStpdfsFile : Half) (s : Cpu) :
    Option FallbackEnd := do
  let s ← callDiskReadSectors B v { s with
    es := diskBufferSegment
    eax := setLo s.eax 1
    ecx := setLo s.ecx 1
    ebx := setLo s.ebx 0 }
  if s.mem.word diskBuffer ≠ stpdfsMagic then fatFallback B v fuel s
  else
    let (v, s) ← stpdfsLoadRootdir B v s
    let s := { s with esi := setLo s.esi szKernelStpdfsFile }
    let (cf, s) ← callStpdfsSearch v chars entries s
    if cf then return .notFound s
    else
      let (v, s) ← stpdfsReadInode B v s
      let uKernelSize := v.inodeCache.word inodeSize
      let s ← stpdfsCopyData B v { s with
        es := kernelPreloadSegment
        eax := setLo s.eax kernelPreloadSegment
        ebx := setLo uKernelSize 0 }
      return .loaded uKernelSize s

/-! ## The disk -/

/-- Inode `inum` of the volume. -/
def diskInode (inum : Nat) : Bytes := fun a => B.sectors (2 + inum / 7) (70 * (inum % 7) + a)

/-- The loader's data with it. -/
def inodeData (inum : Nat) : LoaderData := v.loadInode (diskInode B inum)

/-- Byte `x` of the data of an inode. -/
def fileByte (inum x : Nat) : Byte :=
  B.sectors (dataBlock B (inodeData B v inum) (x / 512)) (x % 512)

/-- The root directory as it is at `DISK_BUFFER`. -/
def rootImage : Bytes := fun x => rootByte B v (x - diskBuffer)

/-- Entry `i` of the root directory is live and has the name of the kernel. -/
structure KernelEntry (i : Nat) : Prop where
  live : entryInum (rootImage B v) i ≠ 0
  name : ∀ k, k ≤ 12 → entryName (rootImage B v) i k = nameBytes szKernelStpdfsName k

/-- A StupidFS volume on a drive with the disk extensions, with a root directory of whole
entries that ends before its table of blocks is needed. -/
structure StpdVolume : Prop where
  extensions : v.bDriveLBA = true8
  geometry : HasGeometry v
  sectorSize : B.sectorSize = 512
  bytes : v.bytesPerSector = 512
  magic : (B.sectors 1).word 0 = stpdfsMagic
  entries : rootSize B v % 32 = 0
  size : rootSize B v < 3072

/-- The name of the kernel is at `si`, below `DISK_BUFFER`. -/
structure NameAt (m : Bytes) (si : Half) : Prop where
  below : si.toNat + 12 < diskBuffer
  name : ∀ k, k ≤ 12 → m (si.toNat + k) = nameBytes szKernelStpdfsName k

/-! ## Reads on the LBA path -/

variable {B v}

/-- One block, with the disk extensions. AH and AL are written, but not the upper half of
EAX. -/
theorem callDiskReadSectors_lba (hok : B.NoError) (hv : v.bDriveLBA = true8) (s : Cpu)
    (hcx : lo s.ecx = 1) : ∃ s', callDiskReadSectors B v s = some s' ∧
      Moved B [⟨s.eax.toNat, linear s.es (lo s.ebx)⟩] s s' ∧
      s'.eax.toNat / 65536 = s.eax.toNat / 65536 := by
  have hts : B.sectorRun s.eax.toNat (linear s.es (lo s.ebx)) (lo s.ecx).toNat
      = [⟨s.eax.toNat, linear s.es (lo s.ebx)⟩] := by
    rw [hcx]
    simp [Bios.sectorRun]
  let t : Cpu := { s with
    eax := setLo s.eax ((0x42 : Byte) ++ lowByte s.eax)
    edx := setLo s.edx (highByte s.edx ++ v.uDrive)
    calls := s.calls + 1
    mem := loads B.sectors B.sectorSize [⟨s.eax.toNat, linear s.es (lo s.ebx)⟩] s.mem
    transfers := s.transfers ++ [⟨s.eax.toNat, linear s.es (lo s.ebx)⟩]
    requests := s.requests ++ [(lo s.eax, lo s.ecx)] }
  have hlba : lbaRead B v { s with
      stack := .ret :: s.stack
      requests := s.requests ++ [(lo s.eax, lo s.ecx)] } = some (.returned t) := by
    simp only [lbaRead, Bios.int13ExtRead, Bios.read, hok _, Bool.false_eq_true, if_false,
      Cpu.push, Cpu.pop, Cpu.ret, Option.bind_eq_bind, Option.bind_some, setLo_lo, hts, t]
  have hbody : diskReadSectorsBody B v { s with
      stack := .ret :: s.stack
      requests := s.requests ++ [(lo s.eax, lo s.ecx)] } = some (.done (.returned t)) := by
    rw [diskReadSectorsBody, if_pos hv, hlba]
    rfl
  refine ⟨t, ?_, ⟨rfl, rfl, rfl, rfl, rfl⟩, ?_⟩
  · rw [callDiskReadSectors, diskReadSectors, iterate_done hbody]
  · have hlt := ((0x42 : Byte) ++ lowByte s.eax : Half).isLt
    change (setLo s.eax _).toNat / 65536 = _
    rw [toNat_setLo]
    omega

/-- What a read of block `block` to `DISK_BUFFER` has left. -/
structure BlockBuffered (B : Bios) (block : Nat) (s s' : Cpu) : Prop where
  image : ∀ a, a < 512 → s'.mem (diskBuffer + a) = B.sectors block a
  below : ∀ x, x < diskBuffer → s'.mem x = s.mem x
  stack : s'.stack = s.stack
  upper : s'.eax.toNat / 65536 = s.eax.toNat / 65536

theorem callDiskReadSectors_block (hok : B.NoError) (hv : v.bDriveLBA = true8)
    (hsize : B.sectorSize = 512) {s : Cpu} (hes : s.es = diskBufferSegment)
    (hbx : lo s.ebx = 0) (hcx : lo s.ecx = 1) :
    ∃ s', callDiskReadSectors B v s = some s' ∧ BlockBuffered B s.eax.toNat s s' := by
  rcases callDiskReadSectors_lba hok hv s hcx with ⟨s', hcall, hmoved, hupper⟩
  have haddr : linear s.es (lo s.ebx) = diskBuffer := by
    rw [hes, hbx]
    rfl
  have hmem : s'.mem = s.mem.blit diskBuffer 512 (B.sectors s.eax.toNat) := by
    rw [hmoved.mem, hsize, haddr]
    rfl
  refine ⟨s', hcall, ?_, ?_, hmoved.stack, hupper⟩
  · intro a ha
    rw [hmem]
    exact Bytes.blit_apply _ _ _ ha
  · intro x hx
    rw [hmem]
    exact Bytes.blit_frame _ _ (Or.inl hx)

/-- The sectors read are those that the numbers say. -/
theorem blockSector_lba (hv : v.bDriveLBA = true8) (i : Nat) :
    blockSector B v i = dataBlock B v i := by
  have hread : ∀ eax, readSector B v eax = eax.toNat := fun _ => if_pos hv
  rw [blockSector, dataBlock, hread, hread, hread]

/-- A copy puts byte `x` of the file at its place, for sizes that fit a segment. -/
theorem stpdfsCopyData_lba (hok : B.NoError) (hv : v.bDriveLBA = true8) (hg : HasGeometry v)
    (hblock : B.sectorSize = 512) (hbps : v.bytesPerSector = 512) {s : Cpu}
    (hsize : fileSize v < 65536) (hbx : lo s.ebx = 0)
    (hdest : fileSize v < 3072 ∧ TableApart s.es (blockCount v) ∨ DestApart s.es (readCount v)) :
    ∃ s', stpdfsCopyData B v s = some s' ∧ s'.stack = s.stack ∧
      (∀ x, x < fileSize v →
        s'.mem (16 * s.es.toNat + x) = B.sectors (dataBlock B v (x / 512)) (x % 512)) ∧
      ∀ x, x < diskBuffer → x < 16 * s.es.toNat → s'.mem x = s.mem x := by
  have hcount : readCount v = fileSize v / 512 + 1 := if_pos hv
  have htable : TableApart s.es (blockCount v) := by
    rcases hdest with ⟨_, htable⟩ | hdest
    · exact htable
    · apply hdest.table.mono
      rw [hcount, blockCount]
      omega
  rcases stpdfsCopyData_run hok hg hblock hbps (Nat.le_of_lt hsize) (Or.inl hv) hbx htable with
    ⟨s', hrun, hmoved⟩
  have hpair : (fileTransfers B v s.es (readCount v)).Pairwise
      (fun t u => (t.extent 512).Apart (u.extent 512)) := by
    rcases hdest with ⟨hsmall, _⟩ | hdest
    · rw [fileTransfers_of_le (by omega)]
      exact blockTransfers_pairwise (by omega)
    · exact fileTransfers_pairwise (by omega) hdest
  have hmem := hmoved.mem
  rw [hblock] at hmem
  refine ⟨s', hrun, hmoved.stack, ?_, ?_⟩
  · intro x hx
    have hin : blockTransfer B v s.es (x / 512) ∈ fileTransfers B v s.es (readCount v) := by
      rw [fileTransfers, (withTable_perm _ _).mem_iff]
      apply List.mem_append_right
      exact List.mem_map.mpr ⟨x / 512, List.mem_range.mpr (by omega), rfl⟩
    have hbyte := loads_of_pairwise B.sectors s.mem hpair hin
      (Nat.mod_lt x (by decide : 0 < 512))
    have haddr : (blockTransfer B v s.es (x / 512)).addr + x % 512 = 16 * s.es.toNat + x := by
      rw [blockTransfer_addr (by omega)]
      omega
    rw [haddr, ← hmem] at hbyte
    rw [hbyte, ← blockSector_lba hv]
    rfl
  · intro x hbuffer hbase
    rw [hmem]
    apply loads_frame
    intro t ht
    rw [fileTransfers, (withTable_perm _ _).mem_iff] at ht
    rcases List.mem_append.mp ht with ht | ht
    · split at ht
      · rw [List.mem_singleton.mp ht]
        exact Or.inl hbuffer
      · cases ht
    · rcases mem_blockTransfers ht with ⟨i, hi, rfl⟩
      rw [blockTransfer_addr (by omega)]
      omega

/-! ## The steps -/

theorem StpdVolume.withInode (hB : StpdVolume B v) (src : Bytes) :
    HasGeometry (v.loadInode src) :=
  ⟨hB.geometry.sectorsPerTrack, hB.geometry.heads⟩

/-- The root directory is loaded. -/
theorem stpdfsLoadRootdir_lba (hB : StpdVolume B v) (hok : B.NoError) {s : Cpu}
    (heax : s.eax.toNat < 65536) :
    ∃ s', stpdfsLoadRootdir B v s = some (rootData B v, s') ∧ s'.stack = s.stack ∧
      (∀ x, x < rootSize B v → s'.mem (diskBuffer + x) = rootByte B v x) ∧
      ∀ x, x < diskBuffer → s'.mem x = s.mem x := by
  have hsize := hB.size
  have htable : TableApart diskBufferSegment (blockCount (rootData B v)) := Or.inr (by decide)
  have htwo : (setLo s.eax 2).toNat = 2 := by
    have hlow : (2 : Half).toNat = 2 := rfl
    rw [toNat_setLo, Nat.div_eq_of_lt heax, hlow]
  rcases callDiskReadSectors_block hok hB.extensions hB.sectorSize (s := { s with
      es := diskBufferSegment
      eax := setLo s.eax 2
      ecx := setLo s.ecx 1
      ebx := setLo s.ebx 0 }) rfl (lo_setLo _ _) (lo_setLo _ _) with ⟨t, hcall, ht⟩
  have hinode : v.loadInode (fun a => t.mem (diskBuffer + (sizeofInode + a))) = rootData B v := by
    apply loadInode_congr
    intro a ha
    rw [ht.image _ (by unfold sizeofInode at ha ⊢; omega), htwo, rootInode]
  rcases stpdfsCopyData_lba (v := rootData B v) hok hB.extensions (hB.withInode _) hB.sectorSize
    hB.bytes (s := { t with
      ecx := 0
      esi := BitVec.ofNat 32 (diskBuffer + 2 * sizeofInode)
      eax := setLo t.eax diskBufferSegment
      es := diskBufferSegment
      ebx := setLo t.ebx 0 }) (by rw [rootSize] at hsize; omega) (lo_setLo _ _)
    (Or.inl ⟨hsize, htable⟩) with ⟨s', hcopy, hstack, hdata, hframe⟩
  refine ⟨s', ?_, hstack.trans ht.stack, hdata, ?_⟩
  · simp only [stpdfsLoadRootdir, hcall, hinode, hcopy, Option.bind_eq_bind, Option.bind_some,
      Option.pure_def]
  · intro x hx
    exact (hframe x hx hx).trans (ht.below x hx)

/-- The product fits, and so does the address. -/
theorem toNat_inodeAddr {r : Word} (hr : r.toNat < 7) {a : Nat} (ha : a < sizeofInode) :
    (lo (inodeAddr r) + BitVec.ofNat 16 a).toNat = diskBuffer + (70 * r.toNat + a) := by
  unfold sizeofInode at ha
  have hlow : (lowByte r).toNat = r.toNat := by
    rw [lowByte, BitVec.toNat_setWidth]
    exact Nat.mod_eq_of_lt (by omega)
  have hmul : ((lowByte r).setWidth 16 * BitVec.ofNat 16 sizeofInode : Half).toNat
      = 70 * r.toNat := by
    rw [BitVec.toNat_mul, toNat_byte16, hlow, BitVec.toNat_ofNat, sizeofInode]
    omega
  have haddr : (inodeAddr r).toNat = diskBuffer + 70 * r.toNat := by
    simp only [inodeAddr, BitVec.toNat_add, BitVec.toNat_setWidth, hmul, BitVec.toNat_ofNat,
      diskBuffer]
    omega
  rw [BitVec.toNat_add, toNat_lo, haddr, BitVec.toNat_ofNat, diskBuffer]
  omega

/-- An inode is read, wherever it lies in its block. -/
theorem stpdfsReadInode_lba (hok : B.NoError) (hv : v.bDriveLBA = true8)
    (hsize : B.sectorSize = 512) (s : Cpu) :
    ∃ s', stpdfsReadInode B v s = some (inodeData B v s.eax.toNat, s') ∧ s'.stack = s.stack := by
  have hseven : stpdfsInodePerBlock.toNat = 7 := rfl
  have hlt := s.eax.isLt
  have hblock : (s.eax / stpdfsInodePerBlock + 2).toNat = 2 + s.eax.toNat / 7 := by
    have htwo : (2 : Word).toNat = 2 := rfl
    rw [BitVec.toNat_add, BitVec.toNat_udiv, hseven, htwo]
    omega
  have hrem : (s.eax % stpdfsInodePerBlock).toNat = s.eax.toNat % 7 := by
    rw [BitVec.toNat_umod, hseven]
  rcases callDiskReadSectors_block hok hv hsize (s := { s with
      eax := s.eax / stpdfsInodePerBlock + 2
      edx := s.eax % stpdfsInodePerBlock
      ecx := setLo stpdfsInodePerBlock 1
      es := diskBufferSegment
      ebx := setLo s.ebx 0 }) rfl (lo_setLo _ _) (lo_setLo _ _) with ⟨t, hcall, ht⟩
  have hinode : v.loadInode (fun a => t.mem (lo (inodeAddr (s.eax % stpdfsInodePerBlock))
      + BitVec.ofNat 16 a).toNat) = inodeData B v s.eax.toNat := by
    apply loadInode_congr
    intro a ha
    have hmod := Nat.mod_lt s.eax.toNat (by decide : 0 < 7)
    rw [toNat_inodeAddr (by omega) ha, hrem, ht.image _ (by unfold sizeofInode at ha; omega),
      hblock]
    rfl
  refine ⟨{ t with
    eax := setLo (s.eax % stpdfsInodePerBlock) 0
    edx := s.eax % stpdfsInodePerBlock
    ecx := 0
    esi := setLo (inodeAddr (s.eax % stpdfsInodePerBlock))
      (lo (inodeAddr (s.eax % stpdfsInodePerBlock)) + BitVec.ofNat 16 sizeofInode)
    es := 0 }, ?_, ht.stack⟩
  simp only [stpdfsReadInode, hcall, hinode, Option.bind_eq_bind, Option.bind_some,
    Option.pure_def]

/-- `call stpdfs_search` comes back with the first entry that matches, or with carry set. -/
theorem callStpdfsSearch_spec {s : Cpu} {chars entries : Nat} {n : Nat} (hn : n ≤ 27)
    (hwhole : fileSize v % 32 = 0) (hsize : fileSize v ≤ 0x7000)
    (htarget : targetName s.mem (lo s.esi) n = 0) (hchars : 28 ≤ chars)
    (hentries : fileSize v / 32 < entries) :
    ∃ cf s', callStpdfsSearch v chars entries s = some (cf, s') ∧ s'.stack = s.stack ∧
      (cf = true ∧ (∀ i, i < fileSize v / 32 → ¬ EntryMatches s.mem (lo s.esi) i) ∨
        cf = false ∧ ∃ i, i < fileSize v / 32 ∧ EntryMatches s.mem (lo s.esi) i ∧
          (∀ j, j < i → ¬ EntryMatches s.mem (lo s.esi) j) ∧ s'.eax = entryInum s.mem i) := by
  let s₀ : SearchCpu := { s with stack := .ret :: s.stack, edi := 0 }
  have hstart : SearchAt v s₀ 0 { s₀ with eax := setLo s.eax 0, es := 0, ecx := 0 } := by
    refine ⟨rfl, rfl, rfl, rfl, rfl, ?_⟩
    intro j hj
    exact absurd hj (Nat.not_lt_zero j)
  rcases search_run (s := s₀) ⟨hwhole, hsize, n, hn, htarget⟩ hchars hentries hstart with
    ⟨⟨cf, e⟩, hrun, t, he, hstack, _, _, hcases⟩
  dsimp only at he hcases
  have hret : t.ret = some (.returned { t.toCpu with stack := s.stack }) := by
    rw [Cpu.ret, hstack]
  rw [he, hret] at hrun
  have hsearch : stpdfsSearch v chars entries { s with stack := .ret :: s.stack, edi := 0 }
      = some (cf, some (.returned { t.toCpu with stack := s.stack })) := hrun
  exact ⟨cf, { t.toCpu with stack := s.stack }, by rw [callStpdfsSearch, hsearch], rfl, hcases⟩

/-- Strings are compared up to the end of the first. -/
theorem cstrEq_iff {a b : Nat → Byte} {n : Nat} (hend : a n = 0) (hne : ∀ k, k < n → a k ≠ 0) :
    CStrEq a b ↔ ∀ k, k ≤ n → a k = b k := by
  constructor
  · intro h k hk
    rcases h with ⟨m, hm, hsame⟩
    have hnm : n ≤ m := by
      by_contra hlt
      exact hne m (by omega) hm
    exact hsame k (by omega)
  · intro h
    exact ⟨n, hend, h⟩

/-- An entry in memory is that on the disk. -/
theorem entry_image {m : Bytes} {i : Nat} (hi : 32 * (i + 1) ≤ rootSize B v)
    (himage : ∀ x, x < rootSize B v → m (diskBuffer + x) = rootByte B v x) {x : Nat}
    (hx : x < 32) : m (entryAddr i + x) = rootImage B v (entryAddr i + x) := by
  have hsplit : diskBuffer + 32 * i + x = diskBuffer + (32 * i + x) := by omega
  rw [entryAddr, hsplit, himage _ (by omega), rootImage, Nat.add_sub_cancel_left]

theorem entryInum_image {m : Bytes} {i : Nat} (hi : 32 * (i + 1) ≤ rootSize B v)
    (himage : ∀ x, x < rootSize B v → m (diskBuffer + x) = rootByte B v x) :
    entryInum m i = entryInum (rootImage B v) i := by
  have hbyte : ∀ x, x < 32 → m (entryAddr i + x) = rootImage B v (entryAddr i + x) :=
    fun x hx => entry_image hi himage hx
  have h0 := hbyte 0 (by decide)
  rw [Nat.add_zero] at h0
  rw [entryInum, entryInum, Bytes.word, Bytes.word, h0, hbyte 1 (by decide),
    hbyte 2 (by decide), hbyte 3 (by decide)]

/-- An entry in memory matches when it does on the disk. -/
theorem entryMatches_iff {m : Bytes} {si : Half} (hname : NameAt m si) {i : Nat}
    (hi : 32 * (i + 1) ≤ rootSize B v)
    (himage : ∀ x, x < rootSize B v → m (diskBuffer + x) = rootByte B v x) :
    EntryMatches m si i ↔ KernelEntry B v i := by
  have hinum := entryInum_image hi himage
  have hbelow := hname.below
  unfold diskBuffer at hbelow
  have htarget : ∀ k, k ≤ 12 → targetName m si k = nameBytes szKernelStpdfsName k := by
    intro k hk
    rw [targetName, toNat_add_ofNat (by omega), hname.name k hk]
  have hnonzero : ∀ k, k < 12 → nameBytes szKernelStpdfsName k ≠ 0 := by decide
  have hstring : CStrEq (targetName m si) (entryName m i) ↔
      ∀ k, k ≤ 12 → entryName (rootImage B v) i k = nameBytes szKernelStpdfsName k := by
    rw [cstrEq_iff (n := 12) (by rw [htarget 12 (by decide)]; decide)
      (fun k hk => by rw [htarget k (by omega)]; exact hnonzero k hk)]
    have hentry : ∀ k, k ≤ 12 → entryName m i k = entryName (rootImage B v) i k := by
      intro k hk
      rw [entryName, entryName, Nat.add_assoc]
      exact entry_image hi himage (by unfold dirEntryName; omega)
    constructor
    · intro h k hk
      rw [← hentry k hk, ← h k hk, htarget k hk]
    · intro h k hk
      rw [hentry k hk, h k hk, htarget k hk]
  constructor
  · intro h
    exact ⟨hinum ▸ h.live, hstring.mp h.name⟩
  · intro h
    exact ⟨hinum.symm ▸ h.live, hstring.mpr h.name⟩

/-! ## The kernel -/

/-- Of two inodes the second one stays. -/
theorem loadInode_loadInode (src src' : Bytes) :
    (v.loadInode src).loadInode src' = v.loadInode src' := by
  have hcache : (fun a => if a < sizeofInode then src' a
      else if a < sizeofInode then src a else v.inodeCache a)
      = fun a => if a < sizeofInode then src' a else v.inodeCache a := by
    funext a
    split
    · rfl
    · rfl
  simp only [LoaderData.loadInode, hcache]

/-- The first sector that is read is the super block. -/
theorem superBlock_read (hB : StpdVolume B v) (hok : B.NoError) {s : Cpu}
    (heax : s.eax.toNat < 65536) :
    ∃ s₀, callDiskReadSectors B v { s with
        es := diskBufferSegment
        eax := setLo s.eax 1
        ecx := setLo s.ecx 1
        ebx := setLo s.ebx 0 } = some s₀ ∧ s₀.mem.word diskBuffer = (B.sectors 1).word 0 ∧
      (∀ x, x < diskBuffer → s₀.mem x = s.mem x) ∧ s₀.stack = s.stack ∧
      s₀.eax.toNat < 65536 := by
  have hlow : (1 : Half).toNat = 1 := rfl
  have hone : (setLo s.eax 1).toNat = 1 := by
    rw [toNat_setLo, Nat.div_eq_of_lt heax, hlow]
  rcases callDiskReadSectors_block hok hB.extensions hB.sectorSize (s := { s with
      es := diskBufferSegment
      eax := setLo s.eax 1
      ecx := setLo s.ecx 1
      ebx := setLo s.ebx 0 }) rfl (lo_setLo _ _) (lo_setLo _ _) with ⟨s₀, hcall, h⟩
  rw [hone] at h
  have hupper := h.upper
  rw [hone] at hupper
  refine ⟨s₀, hcall, ?_, h.below, h.stack, by omega⟩
  have h0 := h.image 0 (by decide)
  rw [Nat.add_zero] at h0
  rw [Bytes.word, Bytes.word, h0, h.image 1 (by decide), h.image 2 (by decide),
    h.image 3 (by decide)]

/-- The loader up to the result of the search. -/
theorem loadKernel_searched (hB : StpdVolume B v) (hok : B.NoError) {s : Cpu} {si : Half}
    (heax : s.eax.toNat < 65536) (hname : NameAt s.mem si) {chars entries : Nat}
    (hchars : 28 ≤ chars) (hentries : 96 ≤ entries) :
    ∃ s₀ s₁ cf s₂, callDiskReadSectors B v { s with
        es := diskBufferSegment
        eax := setLo s.eax 1
        ecx := setLo s.ecx 1
        ebx := setLo s.ebx 0 } = some s₀ ∧ s₀.mem.word diskBuffer = stpdfsMagic ∧
      stpdfsLoadRootdir B v s₀ = some (rootData B v, s₁) ∧
      callStpdfsSearch (rootData B v) chars entries { s₁ with esi := setLo s₁.esi si }
        = some (cf, s₂) ∧ s₂.stack = s.stack ∧
      (cf = true ∧ (∀ i, 32 * (i + 1) ≤ rootSize B v → ¬ KernelEntry B v i) ∨
        cf = false ∧ ∃ i, 32 * (i + 1) ≤ rootSize B v ∧ KernelEntry B v i ∧
          (∀ j, j < i → ¬ KernelEntry B v j) ∧ s₂.eax = entryInum (rootImage B v) i) := by
  have hsize := hB.size
  have hwhole := hB.entries
  rcases superBlock_read hB hok heax with ⟨s₀, hsuper, hmagic, hbelow₀, hstack₀, heax₀⟩
  rcases stpdfsLoadRootdir_lba hB hok heax₀ with ⟨s₁, hroot, hstack₁, himage, hbelow₁⟩
  have hat : NameAt s₁.mem si := by
    refine ⟨hname.below, ?_⟩
    intro k hk
    have hlow := hname.below
    rw [hbelow₁ _ (by omega), hbelow₀ _ (by omega), hname.name k hk]
  have hsi : lo (setLo s₁.esi si) = si := lo_setLo _ _
  have hbelow := hname.below
  unfold diskBuffer at hbelow
  have hend : targetName s₁.mem (lo (setLo s₁.esi si)) 12 = 0 := by
    rw [hsi, targetName, toNat_add_ofNat (by omega), hat.name 12 (by decide)]
    decide
  have hsmall : fileSize (rootData B v) < 3072 := hsize
  have hfew : fileSize (rootData B v) / 32 < entries := by omega
  rcases callStpdfsSearch_spec (v := rootData B v) (s := { s₁ with esi := setLo s₁.esi si })
    (by decide : 12 ≤ 27) hwhole (by omega) hend hchars hfew with
    ⟨cf, s₂, hsearch, hstack₂, hcases⟩
  have hcount : ∀ i, i < fileSize (rootData B v) / 32 ↔ 32 * (i + 1) ≤ rootSize B v := by
    intro i
    rw [rootSize] at hwhole ⊢
    omega
  have hentry : ∀ i, 32 * (i + 1) ≤ rootSize B v →
      (EntryMatches s₁.mem (lo (setLo s₁.esi si)) i ↔ KernelEntry B v i) := by
    intro i hi
    rw [hsi]
    exact entryMatches_iff hat hi himage
  refine ⟨s₀, s₁, cf, s₂, hsuper, hmagic.trans hB.magic, hroot, hsearch,
    hstack₂.trans (hstack₁.trans hstack₀), ?_⟩
  rcases hcases with ⟨hset, hnone⟩ | ⟨hclear, i, hi, hmatches, hfirst, heax₂⟩
  · refine Or.inl ⟨hset, ?_⟩
    intro i hi hkernel
    exact hnone i ((hcount i).mpr hi) ((hentry i hi).mpr hkernel)
  · have hi' := (hcount i).mp hi
    refine Or.inr ⟨hclear, i, hi', (hentry i hi').mp hmatches, ?_, ?_⟩
    · intro j hj hkernel
      exact hfirst j hj ((hentry j (by omega)).mpr hkernel)
    · rw [heax₂]
      exact entryInum_image hi' himage

/-- The first entry with the name of the kernel decides. -/
theorem loadKernel_first (hB : StpdVolume B v) (hok : B.NoError) {s : Cpu} {si : Half}
    (heax : s.eax.toNat < 65536) (hname : NameAt s.mem si) {chars entries : Nat} (fuel : Nat)
    (hchars : 28 ≤ chars) (hentries : 96 ≤ entries) {i : Nat}
    (hi : 32 * (i + 1) ≤ rootSize B v) (hkernel : KernelEntry B v i)
    (hfirst : ∀ j, j < i → ¬ KernelEntry B v j)
    (hsmall : fileSize (inodeData B v (entryInum (rootImage B v) i).toNat) < 65536) :
    ∃ s', loadKernel B v chars entries fuel si s = some (.loaded
        ((diskInode B (entryInum (rootImage B v) i).toNat).word inodeSize) s') ∧
      (∀ x, x < fileSize (inodeData B v (entryInum (rootImage B v) i).toNat) →
        s'.mem (kernelPreload + x) = fileByte B v (entryInum (rootImage B v) i).toNat x) ∧
      s'.stack = s.stack := by
  have hpreload : diskBuffer + 512 ≤ 16 * kernelPreloadSegment.toNat := by decide
  rcases loadKernel_searched hB hok heax hname hchars hentries with
    ⟨s₀, s₁, cf, s₂, hsuper, hmagic, hroot, hsearch, hstack, hcases⟩
  have hfront : ¬ s₀.mem.word diskBuffer ≠ stpdfsMagic := not_not.mpr hmagic
  rcases hcases with ⟨_, hnone⟩ | ⟨hclear, j, hj, hkernel', hfirst', heax'⟩
  · exact absurd hkernel (hnone i hi)
  · -- both are the first
    have hij : j = i := by
      rcases Nat.lt_trichotomy j i with hlt | heq | hgt
      · exact absurd hkernel' (hfirst j hlt)
      · exact heq
      · exact absurd hkernel (hfirst' i hgt)
    subst hij
    subst hclear
    rcases stpdfsReadInode_lba hok hB.extensions hB.sectorSize (v := rootData B v) s₂ with
      ⟨s₃, hinode, hstack₃⟩
    have hdata : inodeData B (rootData B v) s₂.eax.toNat
        = inodeData B v (entryInum (rootImage B v) j).toNat := by
      rw [heax']
      exact loadInode_loadInode _ _
    rw [hdata] at hinode
    rcases stpdfsCopyData_lba (v := inodeData B v (entryInum (rootImage B v) j).toNat) hok
      hB.extensions (hB.withInode _) hB.sectorSize hB.bytes (s := { s₃ with
        es := kernelPreloadSegment
        eax := setLo s₃.eax kernelPreloadSegment
        ebx := setLo ((inodeData B v (entryInum (rootImage B v) j).toNat).inodeCache.word
          inodeSize) 0 }) hsmall (lo_setLo _ _) (Or.inr (Or.inr hpreload)) with
      ⟨s₄, hcopy, hstack₄, hbytes, _⟩
    refine ⟨s₄, ?_, hbytes, hstack₄.trans (hstack₃.trans hstack)⟩
    simp only [loadKernel, hsuper, hfront, hroot, hsearch, hinode, hcopy, Option.bind_eq_bind,
      Option.bind_some, if_false, Bool.false_eq_true, Option.pure_def]
    rfl

/-- **Loading the kernel from StupidFS.** The first live entry of the root directory that has
the name of the kernel decides: `uKernelSize` is the size in its inode, and its data is at
`KERNEL_PRELOAD`, byte for byte. Without such an entry the loader reports that. -/
theorem loadKernel_stpdfs (hB : StpdVolume B v) (hok : B.NoError) {s : Cpu} {si : Half}
    (heax : s.eax.toNat < 65536) (hname : NameAt s.mem si) {chars entries fuel : Nat}
    (hchars : 28 ≤ chars) (hentries : 96 ≤ entries) :
    (∀ i, 32 * (i + 1) ≤ rootSize B v → KernelEntry B v i →
      (∀ j, j < i → ¬ KernelEntry B v j) →
      fileSize (inodeData B v (entryInum (rootImage B v) i).toNat) < 65536 →
      ∃ s', loadKernel B v chars entries fuel si s = some (.loaded
          ((diskInode B (entryInum (rootImage B v) i).toNat).word inodeSize) s') ∧
        (∀ x, x < fileSize (inodeData B v (entryInum (rootImage B v) i).toNat) →
          s'.mem (kernelPreload + x)
            = fileByte B v (entryInum (rootImage B v) i).toNat x) ∧
        s'.stack = s.stack) ∧
    ((∀ i, 32 * (i + 1) ≤ rootSize B v → ¬ KernelEntry B v i) →
      ∃ s', loadKernel B v chars entries fuel si s = some (.notFound s') ∧
        s'.stack = s.stack) := by
  constructor
  · intro i hi hkernel hfirst hsmall
    exact loadKernel_first hB hok heax hname fuel hchars hentries hi hkernel hfirst hsmall
  · intro hnone
    rcases loadKernel_searched hB hok heax hname hchars hentries with
      ⟨s₀, s₁, cf, s₂, hsuper, hmagic, hroot, hsearch, hstack, hcases⟩
    have hfront : ¬ s₀.mem.word diskBuffer ≠ stpdfsMagic := not_not.mpr hmagic
    rcases hcases with ⟨hset, _⟩ | ⟨_, j, hj, hkernel, _⟩
    · subst hset
      refine ⟨s₂, ?_, hstack⟩
      simp only [loadKernel, hsuper, hfront, hroot, hsearch, Option.bind_eq_bind,
        Option.bind_some, if_false, if_true, Option.pure_def]
    · exact absurd hkernel (hnone j hj)

/-- With another super block the loader goes on with the FAT. -/
theorem loadKernel_fallback (hok : B.NoError) (hchs : v.bDriveLBA ≠ true8) (hg : HasGeometry v)
    (htrack : 1 < v.sectorsPerTrack.toNat) (hsize : B.sectorSize = 512)
    (hother : (B.sectors 1).word 0 ≠ stpdfsMagic) (s : Cpu) :
    ∃ s₀, s₀.stack = s.stack ∧ ∀ chars entries fuel si,
      loadKernel B v chars entries fuel si s = fatFallback B v fuel s₀ := by
  have hone : (1 : Half).toNat = 1 := rfl
  have hfirst : (1 : Half).toNat < v.sectorsPerTrack.toNat := htrack
  rcases firstTrack_buffered hok hchs hg hsize 1 hfirst (by decide) s with
    ⟨s₀, hcall, hbyte, hstack⟩
  rw [hone] at hbyte
  have hmagic : s₀.mem.word diskBuffer ≠ stpdfsMagic := by
    have h0 := hbyte 0 (by decide)
    rw [Nat.add_zero] at h0
    rw [Bytes.word, h0, hbyte 1 (by decide), hbyte 2 (by decide), hbyte 3 (by decide)]
    exact hother
  refine ⟨s₀, hstack, ?_⟩
  intro chars entries fuel si
  simp only [loadKernel, hcall, if_pos hmagic, Option.bind_eq_bind, Option.bind_some]

/-- **Loading the kernel from FAT12.** On a drive without the disk extensions, whatever
geometry the loader started with, the kernel that the root directory of the volume names is
loaded to `KERNEL_PRELOAD`, up to 64 KiB, its clusters in the order of the chain, and
`uKernelSize` is the size that the directory gives. Without one the loader reports that. -/
theorem loadKernel_fat {total : Nat} (hg : HasGeometry v) (htrack : 1 < v.sectorsPerTrack.toNat)
    (hB : BootVolume B (bpbData v (B.sectors 0) 0) total) (hok : B.NoError)
    (hother : (B.sectors 1).word 0 ≠ stpdfsMagic) (s : Cpu) :
    (∀ i cs, FileOnDisk B (bpbData v (B.sectors 0) 0) total (nameBytes szKernelFile) i cs →
      cs.length * ((B.sectors 0) 13).toNat * 512 ≤ 65536 →
      ∃ s', (∀ chars entries fuel si, cs.length ≤ fuel →
          loadKernel B v chars entries fuel si s = some (.loaded
            (entrySize (bufferImage B (rootLba (bpbData v (B.sectors 0) 0))) i) s')) ∧
        FileAt B (bpbData v (B.sectors 0) 0) cs kernelPreload s'.mem ∧ s'.stack = s.stack) ∧
    ((∀ j, j < ((B.sectors 0).half 17).toNat →
        ¬ EntryNamed (bufferImage B (rootLba (bpbData v (B.sectors 0) 0)))
          (nameBytes szKernelFile) j) →
      ∃ s', ∀ chars entries fuel si,
        loadKernel B v chars entries fuel si s = some (.notFound s')) := by
  have hchs : v.bDriveLBA ≠ true8 := hB.chs
  rcases loadKernel_fallback hok hchs hg htrack hB.sectorSize hother s with
    ⟨s₀, hstack₀, hfat⟩
  rcases fatFallback_loads hg hB hok s₀ with ⟨hfound, hmissing⟩
  constructor
  · intro i cs hfile hroom
    rcases hfound i cs hfile hroom with ⟨s', hrun, hat, hstack⟩
    refine ⟨s', ?_, hat, hstack.trans hstack₀⟩
    intro chars entries fuel si hfuel
    rw [hfat]
    exact hrun fuel hfuel
  · intro hnone
    rcases hmissing hnone with ⟨s', hrun⟩
    refine ⟨s', ?_⟩
    intro chars entries fuel si
    rw [hfat]
    exact hrun fuel

theorem loadKernel_fat_demo :
    (∃ s', loadKernel bootFloppy floppyData 28 96 1 0 (floppyRequest 1)
        = some (.loaded 0x100 s') ∧
        FileAt bootFloppy floppyData [4] kernelPreload s'.mem) ∧
      ∃ s', loadKernel emptyFloppy floppyData 28 96 1 0 (floppyRequest 1)
        = some (.notFound s') := by
  have hvolume : ∀ sectors : Nat → Bytes, sectors 0 = bootSectors 0 →
      BootVolume { floppyBios with sectors := sectors } (bpbData floppyData (sectors 0) 0)
        2880 := by
    intro sectors hfirst
    rw [hfirst, bootSectors_bpb]
    exact floppy_bootVolume sectors
  have hboot := loadKernel_fat floppy_geometry.hasGeometry (by decide)
    (hvolume bootSectors rfl) floppy_noError (by decide) (floppyRequest 1)
  have hempty := loadKernel_fat floppy_geometry.hasGeometry (by decide)
    (hvolume emptyFloppy.sectors rfl) floppy_noError (by decide) (floppyRequest 1)
  constructor
  · dsimp only at hboot
    rw [bootSectors_bpb] at hboot
    rcases hboot.1 0 [4] bootFloppy_kernel (by decide) with ⟨s', hrun, hfile, _⟩
    exact ⟨s', hrun 28 96 1 0 (by decide), hfile⟩
  · have hfirst : emptyFloppy.sectors 0 = bootSectors 0 := rfl
    dsimp only at hempty
    rw [hfirst, bootSectors_bpb] at hempty
    rcases hempty.2 (fun j _ => emptyFloppy_missing (by decide) j) with ⟨s', hrun⟩
    exact ⟨s', hrun 28 96 1 0⟩

/-! ### A hard disk -/

/-- A block of a disk that has the kernel as inode 9: block 2 begins with the inodes 0 and 1,
and the root directory is block 5. -/
def stpdSectors (block a : Nat) : Byte :=
  if block = 1 then ([0x53, 0x54, 0x50, 0x44] : List Byte).getD a 0
  else if block = 2 then
    if a = 80 then 64 else if a = 84 then 5 else 0
  else if block = 3 then
    if a = 150 then 3 else if a = 154 then 6 else 0
  else if block = 5 then
    if a = 0 then 1 else if a = 32 then 9
    else if 36 ≤ a then nameBytes szKernelStpdfsName (a - 36) else 0
  else 0x90

/-- The drive with it. -/
def stpdDrive : Bios := { floppyBios with sectors := stpdSectors }

/-- The same disk without its root directory. -/
def lostDrive : Bios :=
  { floppyBios with sectors := fun block => if block = 5 then fun _ => 0 else stpdSectors block }

/-- A loader that has the name of the kernel at 0x1100. -/
def loaderStart : Cpu :=
  { floppyRequest 1 with mem := fun x => nameBytes szKernelStpdfsName (x - 0x1100) }

theorem stpdDrive_volume : StpdVolume stpdDrive extensionData :=
  ⟨rfl, extensionData_geometry, rfl, rfl, by decide, by decide, by decide⟩

theorem lostDrive_volume : StpdVolume lostDrive extensionData :=
  ⟨rfl, extensionData_geometry, rfl, rfl, by decide, by decide, by decide⟩

theorem stpdDrive_kernel : KernelEntry stpdDrive extensionData 1 ∧
    ∀ j, j < 1 → ¬ KernelEntry stpdDrive extensionData j := by
  refine ⟨⟨by decide, by decide⟩, ?_⟩
  intro j hj h
  have hzero : j = 0 := by omega
  subst hzero
  exact absurd (h.name 0 (by decide)) (by decide)

theorem lostDrive_kernel (i : Nat) (hi : 32 * (i + 1) ≤ rootSize lostDrive extensionData) :
    ¬ KernelEntry lostDrive extensionData i := by
  have hsize : rootSize lostDrive extensionData = 64 := by decide
  have hlt : i < 2 := by omega
  have hall : ∀ i, i < 2 → entryInum (rootImage lostDrive extensionData) i = 0 := by decide
  intro h
  exact h.live (hall i hlt)

theorem loaderStart_name : NameAt loaderStart.mem 0x1100 :=
  ⟨by decide, by decide⟩

theorem loadKernel_stpdfs_demo :
    (∃ s', loadKernel stpdDrive extensionData 28 96 0 0x1100 loaderStart = some (.loaded 3 s') ∧
        ∀ x, x < 3 → s'.mem (kernelPreload + x) = 0x90) ∧
      ∃ s', loadKernel lostDrive extensionData 28 96 0 0x1100 loaderStart
        = some (.notFound s') := by
  constructor
  · rcases (@loadKernel_stpdfs _ _ stpdDrive_volume floppy_noError loaderStart _ (by decide)
      loaderStart_name 28 96 0 (Nat.le_refl 28) (Nat.le_refl 96)).1 1 (by decide)
      stpdDrive_kernel.1 stpdDrive_kernel.2 (by decide) with ⟨s', hrun, hbytes, _⟩
    refine ⟨s', hrun, ?_⟩
    intro x hx
    have hcases : x = 0 ∨ x = 1 ∨ x = 2 := by omega
    rw [hbytes x hx]
    rcases hcases with rfl | rfl | rfl
    · decide
    · decide
    · decide
  · rcases (@loadKernel_stpdfs _ _ lostDrive_volume floppy_noError loaderStart _ (by decide)
      loaderStart_name 28 96 0 (Nat.le_refl 28) (Nat.le_refl 96)).2 lostDrive_kernel with
      ⟨s', hrun, _⟩
    exact ⟨s', hrun⟩

end StupidOS.Boot
