import StupidOS.Boot.StpdFs

/-!
# Loading the root directory of StupidFS (`loader/stpdfs.inc`)

`stpdfs_load_rootdir` reads the block of the first inodes to `DISK_BUFFER`, copies inode 1
from there to `inode_cache`, and then reads the data of that inode to `DISK_BUFFER` as
well: the buffer that `stpdfs_copy_data` reads its table of blocks to.
-/

namespace StupidOS.Boot

/-! ## The routine -/

/-- `sizeof.Inode` -/
def sizeofInode : Nat := 70

/-- `rep movsb` of an inode to `inode_cache`. -/
def LoaderData.loadInode (v : LoaderData) (src : Bytes) : LoaderData :=
  { v with inodeCache := fun a => if a < sizeofInode then src a else v.inodeCache a }

variable (B : Bios) (v : LoaderData)

/-- `stpdfs_load_rootdir` -/
def stpdfsLoadRootdir (s : Cpu) : Option (LoaderData × Cpu) := do
  let s := { s with es := diskBufferSegment }
  let s ← callDiskReadSectors B v { s with
    eax := setLo s.eax 2
    ecx := setLo s.ecx 1
    ebx := setLo s.ebx 0 }
  -- inode 1 is the second record of the block
  let v := v.loadInode (fun a => s.mem (diskBuffer + (sizeofInode + a)))
  let s := { s with
    ecx := 0
    esi := BitVec.ofNat 32 (diskBuffer + 2 * sizeofInode)
    eax := setLo s.eax diskBufferSegment
    es := diskBufferSegment
    ebx := setLo s.ebx 0 }
  let s ← stpdfsCopyData B v s
  return (v, s)

/-! ## The root directory -/

/-- Inode 1 of the volume. -/
def rootInode : Bytes := fun a => B.sectors 2 (sizeofInode + a)

/-- The loader's data with the inode of the root directory. -/
def rootData : LoaderData := v.loadInode (rootInode B)

/-- The size of the root directory. -/
def rootSize : Nat := fileSize (rootData B v)

/-- Byte `x` of the root directory. -/
def rootByte (x : Nat) : Byte := B.sectors (dataBlock B (rootData B v) (x / 512)) (x % 512)

/-- The routine returns with inode 1 in `inode_cache` and the root directory at
`DISK_BUFFER`. -/
def RootLoaded (s : Cpu) : Prop :=
  ∃ v' s', stpdfsLoadRootdir B v s = some (v', s') ∧
    (∀ a, a < sizeofInode → v'.inodeCache a = rootInode B a) ∧
    ∀ x, x < rootSize B v → s'.mem (diskBuffer + x) = rootByte B v x

/-- When the root directory is loaded whatever memory held. Each block that is read must
have the bytes of the block it stands for; from 3072 bytes on the table of blocks is read
over the first block, and on the CHS path nothing is read to offset 4096. -/
structure RootMeets (s : Cpu) : Prop where
  inode : ∀ a, a < sizeofInode →
    B.sectors (readSector B v (setLo s.eax 2)) (sizeofInode + a) = rootInode B a
  offsets : v.bDriveLBA = true8 ∨ rootSize B v ≤ 4096
  table : 3072 ≤ rootSize B v → ∀ x, x < 512 →
    B.sectors (readSector B v (zone (rootData B v) 7)) x = rootByte B v x
  blocks : ∀ x, x < rootSize B v → rootSize B v < 3072 ∨ 512 ≤ x →
    B.sectors (blockSector B (rootData B v) (x / 512)) (x % 512) = rootByte B v x

variable {B v}

/-! ## Up to the copy -/

/-- The state that the copy starts from, and the inode it works on. -/
structure InodeRead (B : Bios) (v : LoaderData) (s s₁ : Cpu) : Prop where
  es : s₁.es = diskBufferSegment
  bx : lo s₁.ebx = 0
  frame : ∀ x, diskBuffer + 512 ≤ x → s₁.mem x = s.mem x
  run : stpdfsLoadRootdir B v s = (stpdfsCopyData B (v.loadInode (fun a =>
    B.sectors (readSector B v (setLo s.eax 2)) (sizeofInode + a))) s₁).map (fun s' =>
      (v.loadInode (fun a => B.sectors (readSector B v (setLo s.eax 2)) (sizeofInode + a)), s'))

theorem loadInode_congr {src src' : Bytes} (h : ∀ a, a < sizeofInode → src a = src' a) :
    v.loadInode src = v.loadInode src' := by
  have hcache : (fun a => if a < sizeofInode then src a else v.inodeCache a)
      = fun a => if a < sizeofInode then src' a else v.inodeCache a := by
    funext a
    split
    · exact h a ‹_›
    · rfl
  rw [LoaderData.loadInode, LoaderData.loadInode, hcache]

theorem stpdfsLoadRootdir_inode (hok : B.NoError) (hg : HasGeometry v)
    (hblock : B.sectorSize = 512) (s : Cpu) : ∃ s₁, InodeRead B v s s₁ := by
  rcases callDiskReadSectors_one hok hg { s with
    es := diskBufferSegment
    eax := setLo s.eax 2
    ecx := setLo s.ecx 1
    ebx := setLo s.ebx 0 } (lo_setLo _ _) with ⟨t, hcall, hmoved, _⟩
  have haddr : linear diskBufferSegment (lo (setLo s.ebx 0)) = diskBuffer := by
    rw [lo_setLo]
    rfl
  have hmem : t.mem = s.mem.blit diskBuffer 512 (B.sectors (readSector B v (setLo s.eax 2))) := by
    rw [hmoved.mem, hblock, haddr]
    rfl
  have hinode : v.loadInode (fun a => t.mem (diskBuffer + (sizeofInode + a)))
      = v.loadInode (fun a =>
          B.sectors (readSector B v (setLo s.eax 2)) (sizeofInode + a)) := by
    apply loadInode_congr
    intro a ha
    rw [hmem]
    exact Bytes.blit_apply _ _ _ (by unfold sizeofInode at ha ⊢; omega)
  refine ⟨{ t with
    ecx := 0
    esi := BitVec.ofNat 32 (diskBuffer + 2 * sizeofInode)
    eax := setLo t.eax diskBufferSegment
    es := diskBufferSegment
    ebx := setLo t.ebx 0 }, rfl, lo_setLo _ _, ?_, ?_⟩
  · intro x hx
    change t.mem x = s.mem x
    rw [hmem]
    exact Bytes.blit_frame _ _ (Or.inr hx)
  · rw [← hinode]
    simp only [stpdfsLoadRootdir, hcall, Option.bind_eq_bind, Option.bind_some]
    cases stpdfsCopyData B (v.loadInode (fun a => t.mem (diskBuffer + (sizeofInode + a)))) _ with
    | none => rfl
    | some s' => rfl

/-! ## What the copy leaves in the buffer -/

/-- The read that ends up at block `i` of the buffer: the table is read over block 0. -/
def rootTransfer (B : Bios) (v : LoaderData) (i : Nat) : Transfer :=
  if i = 0 ∧ 3072 ≤ fileSize v then tableTransfer B v
  else blockTransfer B v diskBufferSegment i

theorem rootTransfer_addr {i : Nat} (hi : i < 128) :
    (rootTransfer B v i).addr = diskBuffer + 512 * i := by
  rw [rootTransfer]
  split
  · rename_i hzero
    rw [hzero.1]
    rfl
  · rw [blockTransfer_addr hi]
    rfl

theorem rootTransfers_pairwise {n : Nat} (hn : n ≤ 128) :
    ((List.range n).map (rootTransfer B v)).Pairwise
      (fun t u => (t.extent 512).Apart (u.extent 512)) := by
  rw [List.pairwise_map]
  apply List.Pairwise.imp_of_mem _ List.pairwise_lt_range
  intro i j hi hj hij
  have hi' := List.mem_range.mp hi
  have hj' := List.mem_range.mp hj
  have hai : (rootTransfer B v i).addr = _ := rootTransfer_addr (by omega)
  have haj : (rootTransfer B v j).addr = _ := rootTransfer_addr (by omega)
  simp only [Extent.Apart, Transfer.extent, hai, haj]
  omega

/-- The transfers of the file are those of the buffer in another order, behind the first
block if that is overwritten. -/
theorem fileTransfers_root {n : Nat} (hlarge : 3072 ≤ fileSize v) (hn : 7 ≤ n) :
    ∃ us, fileTransfers B v diskBufferSegment n = blockTransfer B v diskBufferSegment 0 :: us ∧
      us.Perm ((List.range n).map (rootTransfer B v)) := by
  rcases Nat.exists_eq_add_of_le hn with ⟨m, rfl⟩
  have hrange : List.range (7 + m) = 0 :: (List.range (6 + m)).map Nat.succ := by
    rw [show 7 + m = 6 + m + 1 by omega, List.range_succ_eq_map]
  have hsucc : ∀ i, rootTransfer B v (Nat.succ i)
      = blockTransfer B v diskBufferSegment (Nat.succ i) := by
    intro i
    exact if_neg (fun h => Nat.succ_ne_zero i h.1)
  have hzero : rootTransfer B v 0 = tableTransfer B v := if_pos ⟨rfl, hlarge⟩
  let rest := (List.range (6 + m)).map
    (fun i => blockTransfer B v diskBufferSegment (Nat.succ i))
  have hblocks : blockTransfers B v diskBufferSegment (7 + m)
      = blockTransfer B v diskBufferSegment 0 :: rest := by
    rw [blockTransfers, hrange, List.map_cons, List.map_map]
    rfl
  have hroots : (List.range (7 + m)).map (rootTransfer B v) = tableTransfer B v :: rest := by
    rw [hrange, List.map_cons, List.map_map, hzero]
    exact congrArg _ (List.map_congr_left (fun i _ => hsucc i))
  refine ⟨rest.take 6 ++ [tableTransfer B v] ++ rest.drop 6, ?_, ?_⟩
  · rw [fileTransfers, if_pos hn, withTable, hblocks, List.take_succ_cons, List.drop_succ_cons,
      List.cons_append, List.cons_append]
  · rw [hroots]
    have hperm : (rest.take 6 ++ [tableTransfer B v] ++ rest.drop 6).Perm
        ([tableTransfer B v] ++ rest.take 6 ++ rest.drop 6) :=
      List.perm_append_comm.append_right _
    rw [List.append_assoc [_] _ _, List.take_append_drop] at hperm
    exact hperm

/-- Behind the copy, each block of the buffer holds the read that was last put there. -/
theorem rootCopy_stored (hok : B.NoError) (hg : HasGeometry v) (hblock : B.sectorSize = 512)
    (hbps : v.bytesPerSector = 512) {s : Cpu} (hsize : fileSize v ≤ 0x7000)
    (hstep : v.bDriveLBA = true8 ∨ fileSize v ≤ 4096) (hes : s.es = diskBufferSegment)
    (hbx : lo s.ebx = 0) :
    ∃ s', stpdfsCopyData B v s = some s' ∧ ∀ x, x < fileSize v →
      s'.mem (diskBuffer + x) = B.sectors (rootTransfer B v (x / 512)).block (x % 512) := by
  have hdest : TableApart s.es (blockCount v) := by
    rw [hes]
    exact Or.inr (by decide)
  rcases stpdfsCopyData_run hok hg hblock hbps (by omega)
    (hstep.imp_right (fun h => by omega)) hbx hdest with ⟨s', hrun, hmoved⟩
  refine ⟨s', hrun, ?_⟩
  intro x hx
  have hcount : x / 512 < readCount v ∧ readCount v ≤ 128 := by
    rw [readCount]
    split
    · omega
    · have hsmall := hstep.resolve_left ‹_›
      omega
  rcases hcount with ⟨hx', h128⟩
  have hmem : rootTransfer B v (x / 512) ∈ (List.range (readCount v)).map (rootTransfer B v) :=
    List.mem_map.mpr ⟨x / 512, List.mem_range.mpr hx', rfl⟩
  have haddr : diskBuffer + x = (rootTransfer B v (x / 512)).addr + x % 512 := by
    rw [rootTransfer_addr (by omega)]
    omega
  rw [haddr, hmoved.mem, hblock, hes]
  by_cases hlarge : 3072 ≤ fileSize v
  · have hseven : 7 ≤ readCount v := by
      rw [readCount]
      split
      · omega
      · omega
    rcases fileTransfers_root (B := B) hlarge hseven with ⟨us, hus, hperm⟩
    have hsymm : ∀ {t u : Transfer}, (t.extent 512).Apart (u.extent 512) →
        (u.extent 512).Apart (t.extent 512) := fun h => h.symm
    rw [hus, loads_cons]
    exact loads_of_pairwise B.sectors _ ((hperm.pairwise_iff hsymm).mpr
      (rootTransfers_pairwise h128)) (hperm.mem_iff.mpr hmem) (by omega)
  · have hsix : readCount v ≤ 6 := by
      rw [readCount]
      split
      · omega
      · omega
    have hroots : blockTransfers B v diskBufferSegment (readCount v)
        = (List.range (readCount v)).map (rootTransfer B v) := by
      rw [blockTransfers]
      refine List.map_congr_left ?_
      intro i _
      exact (if_neg (fun h => hlarge h.2)).symm
    rw [fileTransfers_of_le hsix, hroots]
    exact loads_of_pairwise B.sectors _ (rootTransfers_pairwise h128) hmem (by omega)

/-! ## The CHS path from 4096 bytes on -/

/-- The second loop leaves `x` alone, if no offset 3584 + 1024 * k falls on it. -/
theorem indirect_skips (hok : B.NoError) (hg : HasGeometry v) (hblock : B.sectorSize = 512)
    (hbps : v.bytesPerSector = 512) (hv : v.bDriveLBA ≠ true8) (hsize : fileSize v ≤ 0x7000)
    {fuel : Nat} {s s' : Cpu} (hes : s.es = diskBufferSegment) (hebx : s.ebx.toNat = 3584)
    (hrun : iterate (indirectPass B v) fuel s = some s') :
    s'.mem (diskBuffer + 4096) = s.mem (diskBuffer + 4096) := by
  have hstride : stride v = 512 := by
    rw [stride, if_neg hv, hbps]
  let Inv := fun t : Cpu => t.es = diskBufferSegment ∧
    (∃ k, t.ebx.toNat = 3584 + 1024 * k ∧ 1024 * k ≤ 0x7000) ∧
    t.mem (diskBuffer + 4096) = s.mem (diskBuffer + 4096)
  have hpass : ∀ t t', Inv t → (indirectPass B v t = some (.again t') ∨
      indirectPass B v t = some (.done t')) → Inv t' := by
    intro t t' hinv ht
    rcases hinv with ⟨htes, ⟨k, hk, hkle⟩, htmem⟩
    by_cases hend : fileSize v < 3584 + 1024 * k
    · rw [indirectPass_stop (by omega) hk (by omega) hend] at ht
      rcases ht with ht | ht
      · cases ht
      · cases ht
        exact ⟨htes, ⟨k, hk, hkle⟩, htmem⟩
    · have hgo : ¬ (v.inodeCache.word inodeSize).slt t.ebx = true := by
        rw [size_slt hk (by omega) (by omega)]
        simpa using hend
      rcases indirectPass_read hok hg hgo with ⟨u, hmoved, hebxu, _, hpassu⟩
      have hu : t' = u := by
        rw [hpassu] at ht
        split at ht
        · rcases ht with ht | ht <;> cases ht
          rfl
        · rcases ht with ht | ht <;> cases ht
          rfl
      have hlo : (lo t.ebx).toNat = 3584 + 1024 * k := by
        rw [toNat_lo, hk]
        omega
      rw [hu]
      refine ⟨?_, ⟨k + 1, ?_, by omega⟩, ?_⟩
      · rw [hmoved.es, htes]
      · rw [hebxu, hstride]
        have hblock' : stpdfsBlockSize.toNat = 512 := rfl
        have h512 : (512 : Half).toNat = 512 := rfl
        rw [BitVec.toNat_add, toNat_setLo, BitVec.toNat_add, hblock', h512, hlo, hk]
        omega
      · have haddr : linear t.es (lo t.ebx) = diskBuffer + (3584 + 1024 * k) := by
          rw [htes, linear, hlo]
          rfl
        rw [hmoved.mem, hblock, haddr, loads_cons, loads_nil, Bytes.blit_frame, htmem]
        dsimp only
        omega
  have hinv : Inv s := ⟨hes, ⟨0, hebx, by omega⟩, rfl⟩
  have hend := iterate_sound Inv Inv (fun t t' ht h => hpass t t' ht (Or.inl h))
    (fun t t' ht h => hpass t t' ht (Or.inr h)) hinv hrun
  exact hend.2.2

/-- Offset 4096 of the buffer is not written. -/
theorem rootCopy_skips (hok : B.NoError) (hg : HasGeometry v) (hblock : B.sectorSize = 512)
    (hbps : v.bytesPerSector = 512) (hv : v.bDriveLBA ≠ true8) {s s' : Cpu}
    (hsize : fileSize v ≤ 0x7000) (hlarge : 4096 < fileSize v) (hes : s.es = diskBufferSegment)
    (hbx : lo s.ebx = 0) (hrun : stpdfsCopyData B v s = some s') :
    s'.mem (diskBuffer + 4096) = s.mem (diskBuffer + 4096) := by
  rcases direct_run hok hg (by omega) (directAt_zero hbx) with ⟨⟨allRead, s₁⟩, hiter, hr⟩
  rcases hr with ⟨_, hsmall, _⟩ | ⟨hall, _, h₁⟩
  · omega
  dsimp only at hall h₁
  subst hall
  rcases readTable_spec hok hg h₁ with ⟨s₂, htable, h₂, hebx₂⟩
  have hloop : iterate (indirectPass B v) 129 s₂ = some s' := by
    simp only [stpdfsCopyData, hiter, htable, Option.bind_eq_bind, Option.bind_some,
      Bool.false_eq_true, if_false] at hrun
    exact hrun
  rw [indirect_skips hok hg hblock hbps hv hsize (h₂.moved.es.trans hes) hebx₂ hloop,
    h₂.moved.mem, hblock, hes]
  apply loads_frame
  intro t ht
  rw [fileTransfers, (withTable_perm _ _).mem_iff, if_pos (Nat.le_refl 7)] at ht
  rcases List.mem_append.mp ht with ht | ht
  · rw [List.mem_singleton.mp ht]
    exact Or.inr (by decide : diskBuffer + 512 ≤ diskBuffer + 4096)
  · rcases mem_blockTransfers ht with ⟨i, hi, rfl⟩
    have hbase : 16 * diskBufferSegment.toNat = diskBuffer := rfl
    rw [blockTransfer_addr (by omega)]
    omega

/-! ## The whole routine -/

theorem rootTransfer_table (hlarge : 3072 ≤ rootSize B v) :
    (rootTransfer B (rootData B v) 0).block = readSector B v (zone (rootData B v) 7) := by
  rw [rootTransfer, if_pos ⟨rfl, hlarge⟩]
  rfl

theorem rootTransfer_block {i : Nat} (h : rootSize B v < 3072 ∨ i ≠ 0) :
    (rootTransfer B (rootData B v) i).block = blockSector B (rootData B v) i := by
  have hnot : ¬ (i = 0 ∧ 3072 ≤ fileSize (rootData B v)) := by
    intro hboth
    rcases h with hsmall | hne
    · exact absurd hboth.2 (Nat.not_le.mpr hsmall)
    · exact hne hboth.1
  rw [rootTransfer, if_neg hnot]
  rfl

/-- The bytes at `DISK_BUFFER` are right just where the reads that end up there are. -/
theorem rootTransfers_iff : (∀ x, x < rootSize B v →
      B.sectors (rootTransfer B (rootData B v) (x / 512)).block (x % 512) = rootByte B v x) ↔
    (3072 ≤ rootSize B v → ∀ x, x < 512 →
      B.sectors (readSector B v (zone (rootData B v) 7)) x = rootByte B v x) ∧
    ∀ x, x < rootSize B v → rootSize B v < 3072 ∨ 512 ≤ x →
      B.sectors (blockSector B (rootData B v) (x / 512)) (x % 512) = rootByte B v x := by
  constructor
  · intro h
    constructor
    · intro hlarge x hx
      have hbyte := h x (by omega)
      rw [Nat.div_eq_of_lt hx, Nat.mod_eq_of_lt hx, rootTransfer_table hlarge] at hbyte
      exact hbyte
    · intro x hx hblock
      have hbyte := h x hx
      rw [rootTransfer_block (hblock.imp_right (fun h512 => by omega))] at hbyte
      exact hbyte
  · intro h x hx
    by_cases hzero : 3072 ≤ rootSize B v ∧ x < 512
    · rw [Nat.div_eq_of_lt hzero.2, Nat.mod_eq_of_lt hzero.2, rootTransfer_table hzero.1]
      exact h.1 hzero.1 x hzero.2
    · rw [rootTransfer_block (by omega)]
      exact h.2 x hx (by omega)

theorem RootMeets.loaded (hok : B.NoError) (hg : HasGeometry v) (hblock : B.sectorSize = 512)
    (hbps : v.bytesPerSector = 512) {s : Cpu} (hsize : rootSize B v ≤ 0x7000)
    (h : RootMeets B v s) : RootLoaded B v s := by
  rcases stpdfsLoadRootdir_inode hok hg hblock s with ⟨s₁, h₁⟩
  have hdata : v.loadInode (fun a =>
      B.sectors (readSector B v (setLo s.eax 2)) (sizeofInode + a)) = rootData B v :=
    loadInode_congr h.inode
  have hrun := h₁.run
  rw [hdata] at hrun
  rcases rootCopy_stored hok (v := rootData B v) ⟨hg.sectorsPerTrack, hg.heads⟩ hblock hbps hsize
    h.offsets h₁.es h₁.bx with ⟨s', hcopy, hstored⟩
  rw [hcopy] at hrun
  refine ⟨rootData B v, s', hrun, ?_, ?_⟩
  · intro a ha
    exact if_pos ha
  · intro x hx
    rw [hstored x hx]
    exact rootTransfers_iff.mpr ⟨h.table, h.blocks⟩ x hx

/-- What is loaded shows what has been read. -/
theorem RootLoaded.inode_eq (hok : B.NoError) (hg : HasGeometry v) (hblock : B.sectorSize = 512)
    {s : Cpu} (h : RootLoaded B v s) {a : Nat} (ha : a < sizeofInode) :
    B.sectors (readSector B v (setLo s.eax 2)) (sizeofInode + a) = rootInode B a := by
  rcases h with ⟨v', s', hrun, hinode, _⟩
  rcases stpdfsLoadRootdir_inode hok hg hblock s with ⟨s₁, h₁⟩
  rw [h₁.run, Option.map_eq_some_iff] at hrun
  rcases hrun with ⟨t, _, hpair⟩
  have hv' := (Prod.mk.inj hpair).1
  rw [← hinode a ha, ← hv']
  exact (if_pos ha).symm

/-- The copy of a loaded directory, on the right inode. -/
theorem RootLoaded.copy (hok : B.NoError) (hg : HasGeometry v) (hblock : B.sectorSize = 512)
    {s : Cpu} (h : RootLoaded B v s) :
    ∃ s₁ s', s₁.es = diskBufferSegment ∧ lo s₁.ebx = 0 ∧
      (∀ x, diskBuffer + 512 ≤ x → s₁.mem x = s.mem x) ∧
      stpdfsCopyData B (rootData B v) s₁ = some s' ∧
      ∀ x, x < rootSize B v → s'.mem (diskBuffer + x) = rootByte B v x := by
  have hinode := fun a ha => h.inode_eq hok hg hblock (a := a) ha
  rcases h with ⟨v', s', hrun, _, hbytes⟩
  rcases stpdfsLoadRootdir_inode hok hg hblock s with ⟨s₁, h₁⟩
  have hdata : v.loadInode (fun a =>
      B.sectors (readSector B v (setLo s.eax 2)) (sizeofInode + a)) = rootData B v :=
    loadInode_congr hinode
  rw [h₁.run, hdata, Option.map_eq_some_iff] at hrun
  rcases hrun with ⟨t, hcopy, hpair⟩
  have hs' := (Prod.mk.inj hpair).2
  subst hs'
  exact ⟨s₁, t, h₁.es, h₁.bx, h₁.frame, hcopy, hbytes⟩

theorem RootMeets.of_loaded (hok : B.NoError) (hg : HasGeometry v) (hblock : B.sectorSize = 512)
    (hbps : v.bytesPerSector = 512) {s : Cpu} (hsize : rootSize B v ≤ 0x7000)
    (h : ∀ m, RootLoaded B v { s with mem := m }) : RootMeets B v s := by
  have hgeometry : HasGeometry (rootData B v) := ⟨hg.sectorsPerTrack, hg.heads⟩
  have hoffsets : v.bDriveLBA = true8 ∨ rootSize B v ≤ 4096 := by
    by_contra hnot
    push Not at hnot
    -- memory that does not happen to hold the byte of the directory at offset 4096
    rcases (h (fun _ => rootByte B v 4096 + 1)).copy hok hg hblock with
      ⟨s₁, s', hes, hbx, hframe, hcopy, hbytes⟩
    have hskip := rootCopy_skips hok hgeometry hblock hbps hnot.1 hsize hnot.2 hes hbx hcopy
    rw [hbytes 4096 hnot.2, hframe (diskBuffer + 4096) (by omega)] at hskip
    have hne : ∀ b : Byte, b ≠ b + 1 := by
      intro b
      bv_omega
    exact hne _ hskip
  rcases (h s.mem).copy hok hg hblock with ⟨s₁, s', hes, hbx, _, hcopy, hbytes⟩
  rcases rootCopy_stored hok hgeometry hblock hbps hsize hoffsets hes hbx with
    ⟨t, hrun, hstored⟩
  have ht : t = s' := Option.some.inj (hrun.symm.trans hcopy)
  subst ht
  have hreads := rootTransfers_iff.mp (fun x hx => (hstored x hx).symm.trans (hbytes x hx))
  refine ⟨?_, hoffsets, hreads.1, hreads.2⟩
  intro a ha
  exact (h s.mem).inode_eq hok hg hblock ha

/-- **Loading the root directory.** It is loaded, whatever memory held before, exactly when
each block read is the one it stands for and the directory ends before the table of blocks
is needed, or the table has the bytes that it overwrites. -/
theorem stpdfsLoadRootdir_iff (hok : B.NoError) (hg : HasGeometry v) (hblock : B.sectorSize = 512)
    (hbps : v.bytesPerSector = 512) (s : Cpu) (hsize : rootSize B v ≤ 0x7000) :
    (∀ m, RootLoaded B v { s with mem := m }) ↔ RootMeets B v s := by
  constructor
  · exact RootMeets.of_loaded hok hg hblock hbps hsize
  · intro h m
    exact RootMeets.loaded hok hg hblock hbps hsize ⟨h.inode, h.offsets, h.table, h.blocks⟩

/-- On the LBA path nothing can go wrong below 3072 bytes, if the upper half of EAX is
clear. -/
theorem RootMeets.of_lba (hv : v.bDriveLBA = true8) {s : Cpu} (heax : s.eax.toNat < 65536)
    (hsmall : rootSize B v < 3072) : RootMeets B v s := by
  have htwo : (setLo s.eax 2).toNat = 2 := by
    have hlow : (2 : Half).toNat = 2 := rfl
    rw [toNat_setLo, Nat.div_eq_of_lt heax, hlow]
  have hread : ∀ eax, readSector B v eax = eax.toNat := fun _ => if_pos hv
  refine ⟨?_, Or.inl hv, ?_, ?_⟩
  · intro a _
    rw [hread, htwo, rootInode]
  · intro hlarge
    omega
  · intro x hx _
    have hseven : x / 512 < 7 := by omega
    rw [rootByte, blockSector, dataBlock, if_pos hseven, if_pos hseven]
    exact congrArg (fun n => B.sectors n (x % 512)) (if_pos hv)

/-! ### A volume with one block -/

/-- A volume whose root directory has `size` bytes: zone 0 is block 5, which is full of
ones, and all other zones are block 0, which is empty. -/
def rootBios (size : Word) : Bios :=
  { floppyBios with
    sectors := fun n a =>
      if n = 2 then
        if 80 ≤ a ∧ a < 84 then size.extractLsb' (8 * (a - 80)) 8
        else if a = 84 then 5
        else 0
      else if n = 5 then 1
      else 0 }

/-- The loader on a drive with the disk extensions. -/
def extensionData : LoaderData := { floppyData with bDriveLBA := true8 }

theorem extensionData_geometry : HasGeometry extensionData := by
  constructor
  · decide
  · decide

/-- A directory of six blocks: the last test of the first loop is for 3072 bytes, so the
table is read, over the first block. -/
theorem stpdfsLoadRootdir_counterexample :
    ¬ RootLoaded (rootBios 3072) extensionData (floppyRequest 1) := by
  intro h
  rcases h.copy (fun _ => rfl) extensionData_geometry rfl with
    ⟨s₁, s', hes, hbx, _, hcopy, hbytes⟩
  rcases rootCopy_stored (B := rootBios 3072) (v := rootData (rootBios 3072) extensionData)
    (fun _ => rfl) ⟨extensionData_geometry.sectorsPerTrack, extensionData_geometry.heads⟩ rfl rfl
    (by decide) (Or.inl rfl) hes hbx with ⟨t, hrun, hstored⟩
  have ht : t = s' := Option.some.inj (hrun.symm.trans hcopy)
  subst ht
  have hbyte := (hstored 0 (by decide)).symm.trans (hbytes 0 (by decide))
  exact absurd hbyte (by decide)

/-- A volume whose root directory is in the blocks 5 to 8, each of them full of its number. -/
def blocksBios : Bios :=
  { floppyBios with
    sectors := fun n a =>
      if n = 2 then
        if 80 ≤ a ∧ a < 84 then (2048 : Word).extractLsb' (8 * (a - 80)) 8
        else if a % 4 = 0 then BitVec.ofNat 8 (5 + (a - 84) / 4)
        else 0
      else BitVec.ofNat 8 n }

theorem stpdfsLoadRootdir_iff_blocks :
    RootLoaded blocksBios extensionData { floppyRequest 1 with mem := fun _ => 0 } := by
  have hmeets : RootMeets blocksBios extensionData (floppyRequest 1) :=
    RootMeets.of_lba rfl (by decide) (by decide)
  exact (stpdfsLoadRootdir_iff (fun _ => rfl) extensionData_geometry rfl rfl _ (by decide)).mpr
    hmeets (fun _ => 0)

end StupidOS.Boot
