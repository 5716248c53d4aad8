import StupidOS.Boot.Disk

/-!
# Reading a file of StupidFS (`loader/stpdfs.inc`)

`stpdfs_copy_data` reads the data blocks of the inode in `inode_cache` to ES:BX:
seven blocks from the zones of the inode, then those of the table in the block of
zone 7, which it first reads to `DISK_BUFFER`. Either loop goes on while the offset
is not greater than the size (`jg`), so a size that is a multiple of the block size
costs one block more than the file has; and on the CHS path `disk_read_sectors`
advances BX itself, which the first loop undoes and the second does not.
-/

namespace StupidOS.Boot

/-! ## Constants -/

def stpdfsBlockSize : Word := 512

def diskBuffer : Nat := 0x8000

/-- `DISK_BUFFER/0x10` -/
def diskBufferSegment : Half := 0x800

/-- Field offsets of `Inode`. -/
def inodeSize : Nat := 10
def inodeZones : Nat := 14

/-! ## The routine -/

variable (B : Bios) (v : LoaderData)

/-- One pass over a direct zone. It leaves with `true` at `.all_read` and with
`false` after the last zone. -/
def directPass (s : Cpu) : Option (Pass Cpu (Bool × Cpu)) :=
  if (v.inodeCache.word inodeSize).slt s.ebx then
    some (.done (true, s))
  else do
    let edx := s.edx
    let ebx := s.ebx
    let s ← callDiskReadSectors B v { s with
      eax := v.inodeCache.word (inodeZones + (edx <<< 2).toNat)
      ecx := setLo s.ecx 1 }
    let s := { s with ebx := ebx + stpdfsBlockSize, edx := edx + 1 }
    if s.edx.ult 7 then some (.again s) else some (.done (false, s))

/-- One pass over an entry of the table. EBX is not saved around the call. -/
def indirectPass (s : Cpu) : Option (Pass Cpu Cpu) :=
  if (v.inodeCache.word inodeSize).slt s.ebx then
    some (.done s)
  else do
    let edx := s.edx
    let s ← callDiskReadSectors B v { s with
      eax := s.mem.word (diskBuffer + (edx <<< 2).toNat)
      ecx := setLo s.ecx 1 }
    let s := { s with ebx := s.ebx + stpdfsBlockSize, edx := edx + 1 }
    if s.edx.ule 128 then some (.again s) else some (.done s)

/-- `.indirect_read` up to the loop. -/
def readTable (s : Cpu) : Option Cpu := do
  let ebx := s.ebx
  let es := s.es
  let s ← callDiskReadSectors B v { s with
    es := diskBufferSegment
    eax := v.inodeCache.word (inodeZones + 28)
    ecx := setLo s.ecx 1
    ebx := setLo s.ebx 0 }
  return { s with eax := setLo s.eax es, es := es, ebx := ebx, edx := 0 }

/-- `stpdfs_copy_data`. The loops end by their counters, after 7 and 129 passes. -/
def stpdfsCopyData (s : Cpu) : Option Cpu := do
  let s := { s with edx := 0, ebx := (lo s.ebx).setWidth 32 }
  let (allRead, s) ← iterate (directPass B v) 7 s
  if allRead then
    return s
  else
    let s ← readTable B v s
    iterate (indirectPass B v) 129 s

/-! ## Blocks of a file -/

/-- Zone `i` of the inode. -/
def zone (i : Nat) : Word := v.inodeCache.word (inodeZones + 4 * i)

def fileSize : Nat := (v.inodeCache.word inodeSize).toNat

/-- Blocks of the file. -/
def blockCount : Nat := (fileSize v + 511) / 512

/-- The number of data block `i`: the first seven are in the inode, the others in the
block of zone 7. -/
def dataBlock (i : Nat) : Nat :=
  if i < 7 then (zone v i).toNat
  else ((B.sectors (zone v 7).toNat).word (4 * (i - 7))).toNat

/-- The sector that `disk_read_sectors` reads for EAX. -/
def readSector (eax : Word) : Nat :=
  if v.bDriveLBA = true8 then eax.toNat else chsSector B v (lo eax)

/-- The sector that is read for data block `i`. -/
def blockSector (i : Nat) : Nat :=
  if i < 7 then readSector B v (zone v i)
  else readSector B v ((B.sectors (readSector B v (zone v 7))).word (4 * (i - 7)))

/-- The table is read after the first seven blocks. -/
def withTable (data table : List Transfer) : List Transfer :=
  data.take 7 ++ table ++ data.drop 7

/-- The copy that the file asks for: data block `i` is put at offset `512 * i`, no
other data block is read, and nothing else changes but `DISK_BUFFER`. The table may
be read once, behind the seven blocks of the inode. -/
structure CopyExact (s s' : Cpu) (table : List Transfer) : Prop where
  returns : stpdfsCopyData B v s = some s'
  table_once : table = [] ∨ 7 ≤ blockCount v ∧ ∃ b, table = [⟨b, diskBuffer⟩]
  transfers : s'.transfers = s.transfers ++ withTable
    ((List.range (blockCount v)).map (fun i => ⟨dataBlock B v i, 16 * s.es.toNat + 512 * i⟩)) table
  stored : ∀ i, i < blockCount v → ∀ j, j < 512 →
    s'.mem (16 * s.es.toNat + 512 * i + j) = B.sectors (dataBlock B v i) j
  frame : ∀ x, x < 16 * s.es.toNat ∨ 16 * s.es.toNat + 512 * blockCount v ≤ x →
    x < diskBuffer ∨ diskBuffer + 512 ≤ x → s'.mem x = s.mem x

/-- The sizes that come out right: no multiples of the block size on the LBA path; on
the CHS path only up to eight blocks, where 4096 is right because the second loop
has skipped the offset at which it would read once more. -/
def SizeOk : Prop :=
  if v.bDriveLBA = true8 then fileSize v % 512 ≠ 0
  else fileSize v % 512 ≠ 0 ∧ fileSize v < 4096 ∨ fileSize v = 4096

/-- When a copy is exact: the size comes out right, and each block is the sector that
its number says. -/
structure CopyMeets : Prop where
  size : SizeOk v
  blocks : ∀ i, i < blockCount v → blockSector B v i = dataBlock B v i

/-! ## Reading one block -/

/-- What `disk_read_sectors` adds to BX for one sector. -/
def stride : Half := if v.bDriveLBA = true8 then 0 else v.bytesPerSector

variable {B v}

theorem callDiskReadSectors_one (hok : B.NoError) (hg : HasGeometry v) (s : Cpu)
    (hcx : lo s.ecx = 1) : ∃ s', callDiskReadSectors B v s = some s' ∧
      Moved B [⟨readSector B v s.eax, linear s.es (lo s.ebx)⟩] s s' ∧
      s'.ebx = setLo s.ebx (lo s.ebx + stride v) := by
  rcases callDiskReadSectors_spec hok hg.sectorsPerTrack hg.heads s with ⟨s', hcall, h⟩
  have hone : loopCount 1 = 1 := rfl
  have hmoved := h.moved
  have hebx := h.ebx
  rw [diskTransfers, hcx, hone] at hmoved
  rw [exitBX, hcx, hone] at hebx
  rw [readSector, stride]
  refine ⟨s', hcall, ?_⟩
  by_cases hv : v.bDriveLBA = true8
  · rw [if_pos hv] at hmoved hebx ⊢
    rw [if_pos hv]
    refine ⟨?_, ?_⟩
    · simpa [Bios.sectorRun] using hmoved
    · simpa using hebx
  · rw [if_neg hv] at hmoved hebx ⊢
    rw [if_neg hv]
    refine ⟨?_, ?_⟩
    · simpa [chsTransfer] using hmoved
    · simpa using hebx

/-! ## The blocks of the inode -/

/-- The read of data block `i`, at the offset that BX has room for. -/
def blockTransfer (B : Bios) (v : LoaderData) (es : Half) (i : Nat) : Transfer :=
  ⟨blockSector B v i, linear es (BitVec.ofNat 16 (512 * i))⟩

def blockTransfers (B : Bios) (v : LoaderData) (es : Half) (n : Nat) : List Transfer :=
  (List.range n).map (blockTransfer B v es)

theorem blockTransfers_succ (es : Half) (n : Nat) :
    blockTransfers B v es (n + 1) = blockTransfers B v es n ++ [blockTransfer B v es n] := by
  rw [blockTransfers, List.range_succ, List.map_append]
  rfl

theorem toNat_index {edx : Word} {n : Nat} (hedx : edx.toNat = n) (hn : n < 2 ^ 29) :
    (edx <<< 2).toNat = 4 * n := by
  rw [BitVec.toNat_shiftLeft, Nat.shiftLeft_eq, hedx]
  omega

theorem lo_of_toNat {r : Word} {n : Nat} (h : r.toNat = n) : lo r = BitVec.ofNat 16 n := by
  apply BitVec.eq_of_toNat_eq
  rw [toNat_lo, h, BitVec.toNat_ofNat]

/-- The test of either loop, for offsets and sizes that are not negative. -/
theorem size_slt {ebx : Word} {n : Nat} (hebx : ebx.toNat = n) (hn : n < 2 ^ 31)
    (hsize : fileSize v ≤ 65536) :
    (v.inodeCache.word inodeSize).slt ebx = decide (fileSize v < n) := by
  rw [fileSize] at hsize
  rw [slt_of_lt (by omega) (by omega), hebx, fileSize]

theorem toNat_nextBlock {ebx : Word} {n : Nat} (hebx : ebx.toNat = 512 * n) (hn : n < 2 ^ 20) :
    (ebx + stpdfsBlockSize).toNat = 512 * (n + 1) := by
  have hblock : stpdfsBlockSize.toNat = 512 := rfl
  rw [BitVec.toNat_add, hebx, hblock]
  omega

/-- `n` blocks of the inode have been read since `s₀`. -/
structure DirectAt (B : Bios) (v : LoaderData) (s₀ : Cpu) (n : Nat) (s : Cpu) : Prop where
  moved : Moved B (blockTransfers B v s₀.es n) s₀ s
  ebx : s.ebx.toNat = 512 * n
  edx : s.edx.toNat = n

theorem directPass_stop {s₀ s : Cpu} {n : Nat} (hsize : fileSize v ≤ 65536) (hn : n ≤ 7)
    (h : DirectAt B v s₀ n s) (hend : fileSize v < 512 * n) :
    directPass B v s = some (.done (true, s)) := by
  rw [directPass, size_slt h.ebx (by omega) hsize, if_pos (decide_eq_true hend)]

theorem directPass_step (hok : B.NoError) (hg : HasGeometry v) {s₀ s : Cpu} {n : Nat}
    (hsize : fileSize v ≤ 65536) (hn : n < 7) (h : DirectAt B v s₀ n s)
    (hmore : 512 * n ≤ fileSize v) :
    ∃ s', DirectAt B v s₀ (n + 1) s' ∧ directPass B v s =
      if n + 1 < 7 then some (.again s') else some (.done (false, s')) := by
  have hgo : ¬ (v.inodeCache.word inodeSize).slt s.ebx = true := by
    rw [size_slt h.ebx (by omega) hsize]
    simpa using hmore
  rcases callDiskReadSectors_one hok hg { s with
    eax := v.inodeCache.word (inodeZones + (s.edx <<< 2).toNat)
    ecx := setLo s.ecx 1 } (lo_setLo _ _) with ⟨s₁, hcall, hmoved, _⟩
  have hsector : (⟨readSector B v (v.inodeCache.word (inodeZones + (s.edx <<< 2).toNat)),
      linear s.es (lo s.ebx)⟩ : Transfer) = blockTransfer B v s₀.es n := by
    rw [toNat_index h.edx (by omega), h.moved.es, lo_of_toNat h.ebx, blockTransfer, blockSector,
      if_pos hn, zone]
  have hmoved' := h.moved.trans ⟨hmoved.mem, hmoved.transfers, hmoved.es, hmoved.esi,
    hmoved.stack⟩
  have hnext : (s.edx + 1).toNat = n + 1 := by
    have hedx := h.edx
    bv_omega
  refine ⟨{ s₁ with ebx := s.ebx + stpdfsBlockSize, edx := s.edx + 1 }, ⟨?_, ?_, ?_⟩, ?_⟩
  · rw [blockTransfers_succ, ← hsector]
    exact ⟨hmoved'.mem, hmoved'.transfers, hmoved'.es, hmoved'.esi, hmoved'.stack⟩
  · exact toNat_nextBlock h.ebx (by omega)
  · exact hnext
  · have hedx' : (s.edx + 1).ult 7 = decide (n + 1 < 7) := by
      rw [BitVec.ult, hnext]
      rfl
    rw [directPass, if_neg hgo]
    simp only [hcall, Option.bind_eq_bind, Option.bind_some, hedx', decide_eq_true_eq]

/-- The first loop ends at `.all_read`, after the block that holds the offset `size`,
or with all seven blocks read. -/
theorem direct_run (hok : B.NoError) (hg : HasGeometry v) {s₀ s : Cpu}
    (hsize : fileSize v ≤ 65536) (h : DirectAt B v s₀ 0 s) :
    ∃ r, iterate (directPass B v) 7 s = some r ∧
      (r.1 = true ∧ fileSize v < 3072 ∧ DirectAt B v s₀ (fileSize v / 512 + 1) r.2 ∨
        r.1 = false ∧ 3072 ≤ fileSize v ∧ DirectAt B v s₀ 7 r.2) := by
  apply iterate_total (k := 6)
    (fun m s => ∃ n, n + m = 6 ∧ 512 * n ≤ fileSize v + 512 ∧ DirectAt B v s₀ n s) _ ?_
    ⟨0, rfl, by omega, h⟩ (by omega)
  -- the measure is the number of direct blocks still to come
  intro m s hinv
  rcases hinv with ⟨n, hnm, hle, hs⟩
  by_cases hend : fileSize v < 512 * n
  · left
    refine ⟨(true, s), directPass_stop hsize (by omega) hs hend, Or.inl ⟨rfl, by omega, ?_⟩⟩
    have hn : fileSize v / 512 + 1 = n := by omega
    rw [hn]
    exact hs
  · rcases directPass_step hok hg hsize (by omega) hs (by omega) with ⟨s', hs', hpass⟩
    by_cases hlast : n + 1 < 7
    · right
      rw [if_pos hlast] at hpass
      exact ⟨s', m - 1, hpass, by omega, n + 1, by omega, by omega, hs'⟩
    · left
      have hn : n + 1 = 7 := by omega
      rw [if_neg hlast] at hpass
      rw [hn] at hs'
      exact ⟨(false, s'), hpass, Or.inr ⟨rfl, by omega, hs'⟩⟩

/-! ## The table -/

/-- The read of the table. -/
def tableTransfer (B : Bios) (v : LoaderData) : Transfer :=
  ⟨readSector B v (zone v 7), diskBuffer⟩

/-- The transfers of the file up to block `n`, which is behind the table. -/
def fileTransfers (B : Bios) (v : LoaderData) (es : Half) (n : Nat) : List Transfer :=
  withTable (blockTransfers B v es n) (if 7 ≤ n then [tableTransfer B v] else [])

theorem length_blockTransfers (es : Half) (n : Nat) :
    (blockTransfers B v es n).length = n := by
  simp [blockTransfers]

theorem withTable_nil (data : List Transfer) : withTable data [] = data := by
  rw [withTable, List.append_nil, List.take_append_drop]

theorem withTable_concat {data : List Transfer} (table : List Transfer) (t : Transfer)
    (h : 7 ≤ data.length) : withTable (data ++ [t]) table = withTable data table ++ [t] := by
  rw [withTable, withTable, List.take_append_of_le_length h, List.drop_append_of_le_length h]
  simp only [List.append_assoc]

theorem length_withTable (data table : List Transfer) :
    (withTable data table).length = data.length + table.length := by
  simp only [withTable, List.length_append, List.length_take, List.length_drop]
  omega

/-- Blocks and table can be told apart again. -/
theorem withTable_inj {data data' table table' : List Transfer}
    (hlen : data.length = data'.length) (h : withTable data table = withTable data' table') :
    data = data' ∧ table = table' := by
  have htable : table.length = table'.length := by
    have hall := congrArg List.length h
    rw [length_withTable, length_withTable] at hall
    omega
  rw [withTable, withTable] at h
  have hsplit := List.append_inj h (by simp [hlen, htable])
  have hfront := List.append_inj hsplit.1 (by simp [hlen])
  refine ⟨?_, hfront.2⟩
  rw [← List.take_append_drop 7 data, hfront.1, hsplit.2, List.take_append_drop]

theorem fileTransfers_of_le {es : Half} {n : Nat} (hn : n ≤ 6) :
    fileTransfers B v es n = blockTransfers B v es n := by
  rw [fileTransfers, if_neg (by omega), withTable_nil]

theorem fileTransfers_seven (es : Half) :
    fileTransfers B v es 7 = blockTransfers B v es 7 ++ [tableTransfer B v] := by
  have hdrop : (blockTransfers B v es 7).drop 7 = [] := by
    rw [List.drop_eq_nil_iff, length_blockTransfers]
  have htake : (blockTransfers B v es 7).take 7 = blockTransfers B v es 7 := by
    rw [List.take_of_length_le]
    rw [length_blockTransfers]
  rw [fileTransfers, if_pos (Nat.le_refl 7), withTable, hdrop, htake, List.append_nil]

theorem fileTransfers_succ (es : Half) {n : Nat} (hn : 7 ≤ n) :
    fileTransfers B v es (n + 1) = fileTransfers B v es n ++ [blockTransfer B v es n] := by
  rw [fileTransfers, fileTransfers, if_pos hn, if_pos (by omega), blockTransfers_succ,
    withTable_concat]
  rw [length_blockTransfers]
  exact hn

/-- The table has been read, and so have `n` blocks. -/
structure IndirectAt (B : Bios) (v : LoaderData) (s₀ : Cpu) (n : Nat) (s : Cpu) : Prop where
  moved : Moved B (fileTransfers B v s₀.es n) s₀ s
  edx : s.edx.toNat = n - 7

theorem readTable_spec (hok : B.NoError) (hg : HasGeometry v) {s₀ s : Cpu}
    (h : DirectAt B v s₀ 7 s) :
    ∃ s', readTable B v s = some s' ∧ IndirectAt B v s₀ 7 s' ∧ s'.ebx.toNat = 3584 := by
  rcases callDiskReadSectors_one hok hg { s with
    es := diskBufferSegment
    eax := v.inodeCache.word (inodeZones + 28)
    ecx := setLo s.ecx 1
    ebx := setLo s.ebx 0 } (lo_setLo _ _) with ⟨s₁, hcall, hmoved, _⟩
  have htable : (⟨readSector B v (v.inodeCache.word (inodeZones + 28)),
      linear diskBufferSegment (lo (setLo s.ebx 0))⟩ : Transfer) = tableTransfer B v := by
    rw [lo_setLo]
    rfl
  have hmoved' : Moved B [tableTransfer B v] s { s₁ with es := s.es } := by
    rw [← htable]
    exact ⟨hmoved.mem, hmoved.transfers, rfl, hmoved.esi, hmoved.stack⟩
  have hall := h.moved.trans hmoved'
  rw [← fileTransfers_seven] at hall
  refine ⟨{ s₁ with eax := setLo s₁.eax s.es, es := s.es, ebx := s.ebx, edx := 0 }, ?_,
    ⟨⟨hall.mem, hall.transfers, hall.es, hall.esi, hall.stack⟩, rfl⟩, h.ebx⟩
  simp only [readTable, hcall, Option.bind_eq_bind, Option.bind_some, Option.pure_def]

/-! ## Where the transfers go -/

theorem withTable_perm (data table : List Transfer) :
    (withTable data table).Perm (table ++ data) := by
  rw [withTable]
  refine ((List.perm_append_comm).append_right (data.drop 7)).trans ?_
  rw [List.append_assoc, List.take_append_drop]

/-- Below 128 blocks the offset fits BX. -/
theorem blockTransfer_addr {es : Half} {i : Nat} (hi : i < 128) :
    (blockTransfer B v es i).addr = 16 * es.toNat + 512 * i := by
  simp only [blockTransfer, linear, BitVec.toNat_ofNat]
  omega

/-- The destination and `DISK_BUFFER` share no byte. -/
def DestApart (es : Half) (n : Nat) : Prop :=
  16 * es.toNat + 512 * n ≤ diskBuffer ∨ diskBuffer + 512 ≤ 16 * es.toNat

/-- The blocks behind the seventh and `DISK_BUFFER` share no byte. -/
def TableApart (es : Half) (n : Nat) : Prop :=
  16 * es.toNat + 512 * n ≤ diskBuffer ∨ diskBuffer + 512 ≤ 16 * es.toNat + 3584

theorem DestApart.table {es : Half} {n : Nat} (h : DestApart es n) : TableApart es n := by
  unfold DestApart at h
  unfold TableApart
  omega

theorem TableApart.mono {es : Half} {n k : Nat} (h : TableApart es n) (hk : k ≤ n) :
    TableApart es k := by
  unfold TableApart at h ⊢
  omega

theorem mem_blockTransfers {es : Half} {n : Nat} {t : Transfer}
    (h : t ∈ blockTransfers B v es n) : ∃ i, i < n ∧ t = blockTransfer B v es i := by
  rcases List.mem_map.mp h with ⟨i, hi, ht⟩
  exact ⟨i, List.mem_range.mp hi, ht.symm⟩

theorem blockTransfers_pairwise {es : Half} {n : Nat} (hn : n ≤ 128) :
    (blockTransfers B v es n).Pairwise (fun t u => (t.extent 512).Apart (u.extent 512)) := by
  rw [blockTransfers, List.pairwise_map]
  apply List.Pairwise.imp_of_mem _ List.pairwise_lt_range
  intro i j hi hj hij
  have hi' := List.mem_range.mp hi
  have hj' := List.mem_range.mp hj
  have hai : (blockTransfer B v es i).addr = _ := blockTransfer_addr (by omega)
  have haj : (blockTransfer B v es j).addr = _ := blockTransfer_addr (by omega)
  simp only [Extent.Apart, Transfer.extent, hai, haj]
  omega

theorem fileTransfers_pairwise {es : Half} {n : Nat} (hn : n ≤ 128) (hdest : DestApart es n) :
    (fileTransfers B v es n).Pairwise (fun t u => (t.extent 512).Apart (u.extent 512)) := by
  have hsymm : ∀ {t u : Transfer}, (t.extent 512).Apart (u.extent 512) →
      (u.extent 512).Apart (t.extent 512) := fun h => h.symm
  rw [fileTransfers, (withTable_perm _ _).pairwise_iff hsymm]
  rw [List.pairwise_append]
  refine ⟨?_, blockTransfers_pairwise hn, ?_⟩
  · split
    · exact List.pairwise_singleton _ _
    · exact List.Pairwise.nil
  · intro t ht u hu
    rcases mem_blockTransfers hu with ⟨i, hi, rfl⟩
    have htable : t = tableTransfer B v := by
      split at ht
      · exact List.mem_singleton.mp ht
      · cases ht
    have hai : (blockTransfer B v es i).addr = _ := blockTransfer_addr (by omega)
    unfold DestApart at hdest
    simp only [htable, Extent.Apart, Transfer.extent, tableTransfer, hai]
    omega

theorem mem_drop_blockTransfers {es : Half} {n : Nat} {t : Transfer}
    (h : t ∈ (blockTransfers B v es n).drop 7) :
    ∃ i, 7 ≤ i ∧ i < n ∧ t = blockTransfer B v es i := by
  rcases List.mem_iff_getElem.mp h with ⟨i, hi, ht⟩
  rw [List.length_drop, length_blockTransfers] at hi
  refine ⟨7 + i, by omega, by omega, ?_⟩
  rw [← ht, List.getElem_drop]
  simp only [blockTransfers, List.getElem_map, List.getElem_range]

/-- The table stays readable behind the blocks read so far. -/
theorem IndirectAt.table {s₀ s : Cpu} {n : Nat} (hblock : B.sectorSize = 512)
    (h : IndirectAt B v s₀ n s) (hn7 : 7 ≤ n) (hn : n ≤ 128) (hdest : TableApart s₀.es n)
    {k : Nat} (hk : k < 128) :
    s.mem.word (diskBuffer + 4 * k) = (B.sectors (readSector B v (zone v 7))).word (4 * k) := by
  apply Bytes.word_congr
  intro i hi
  rw [h.moved.mem, hblock, fileTransfers, if_pos hn7, withTable, loads_append, loads_append,
    loads_frame, Nat.add_assoc]
  · exact Bytes.blit_apply _ _ _ (by omega)
  · intro t ht
    rcases mem_drop_blockTransfers ht with ⟨j, hj7, hj, rfl⟩
    unfold TableApart at hdest
    rw [blockTransfer_addr (by omega)]
    omega

/-! ## The blocks of the table -/

theorem indirectPass_stop {s : Cpu} {n : Nat} (hsize : fileSize v ≤ 65536)
    (hebx : s.ebx.toNat = n) (hn : n < 2 ^ 31) (hend : fileSize v < n) :
    indirectPass B v s = some (.done s) := by
  rw [indirectPass, size_slt hebx hn hsize, if_pos (decide_eq_true hend)]

/-- A pass that reads, whatever the table holds. -/
theorem indirectPass_read (hok : B.NoError) (hg : HasGeometry v) {s : Cpu}
    (hgo : ¬ (v.inodeCache.word inodeSize).slt s.ebx = true) :
    ∃ s', Moved B [⟨readSector B v (s.mem.word (diskBuffer + (s.edx <<< 2).toNat)),
        linear s.es (lo s.ebx)⟩] s s' ∧
      s'.ebx = setLo s.ebx (lo s.ebx + stride v) + stpdfsBlockSize ∧ s'.edx = s.edx + 1 ∧
      indirectPass B v s = if s'.edx.ule 128 then some (.again s') else some (.done s') := by
  rcases callDiskReadSectors_one hok hg { s with
    eax := s.mem.word (diskBuffer + (s.edx <<< 2).toNat)
    ecx := setLo s.ecx 1 } (lo_setLo _ _) with ⟨s₁, hcall, hmoved, hebx₁⟩
  refine ⟨{ s₁ with ebx := s₁.ebx + stpdfsBlockSize, edx := s.edx + 1 },
    ⟨hmoved.mem, hmoved.transfers, hmoved.es, hmoved.esi, hmoved.stack⟩, ?_, rfl, ?_⟩
  · simp only [hebx₁]
  · rw [indirectPass, if_neg hgo]
    simp only [hcall, Option.bind_eq_bind, Option.bind_some]

theorem indirectPass_step (hok : B.NoError) (hg : HasGeometry v)
    (hblock : B.sectorSize = 512) {s₀ s : Cpu} {n : Nat} (hsize : fileSize v ≤ 65536)
    (h : IndirectAt B v s₀ n s) (hebx : s.ebx.toNat = 512 * n) (hn : 7 ≤ n)
    (hmore : 512 * n ≤ fileSize v) (hdest : TableApart s₀.es (blockCount v)) :
    ∃ s', IndirectAt B v s₀ (n + 1) s' ∧
      s'.ebx = setLo s.ebx (lo s.ebx + stride v) + stpdfsBlockSize ∧
      indirectPass B v s = some (.again s') := by
  have hcount : n ≤ blockCount v := by
    unfold blockCount
    omega
  have hgo : ¬ (v.inodeCache.word inodeSize).slt s.ebx = true := by
    rw [size_slt hebx (by omega) hsize]
    simpa using hmore
  rcases indirectPass_read hok hg hgo with ⟨s', hmoved, hebx', hedx', hpass⟩
  have hentry := h.table hblock hn (by omega) (hdest.mono hcount) (show n - 7 < 128 by omega)
  have hsector : (⟨readSector B v (s.mem.word (diskBuffer + (s.edx <<< 2).toNat)),
      linear s.es (lo s.ebx)⟩ : Transfer) = blockTransfer B v s₀.es n := by
    rw [toNat_index h.edx (by omega), hentry, h.moved.es, lo_of_toNat hebx, blockTransfer,
      blockSector, if_neg (by omega)]
  have hall := h.moved.trans hmoved
  rw [hsector, ← fileTransfers_succ s₀.es hn] at hall
  have hnext : s'.edx.toNat = n + 1 - 7 := by
    have hedx := h.edx
    rw [hedx']
    bv_omega
  have hmore' : s'.edx.ule 128 = true := by
    have h128 : (128 : Word).toNat = 128 := rfl
    rw [BitVec.ule, hnext, h128]
    exact decide_eq_true (by omega)
  rw [if_pos hmore'] at hpass
  exact ⟨s', ⟨hall, hnext⟩, hebx', hpass⟩

/-- On the LBA path the second loop goes on to the block that holds the offset
`size`. -/
theorem indirect_run_lba (hok : B.NoError) (hg : HasGeometry v)
    (hblock : B.sectorSize = 512) (hv : v.bDriveLBA = true8) {s₀ s : Cpu}
    (hsize : fileSize v ≤ 65536) (hlarge : 3072 ≤ fileSize v) (h : IndirectAt B v s₀ 7 s)
    (hebx : s.ebx.toNat = 3584) (hdest : TableApart s₀.es (blockCount v)) :
    ∃ s', iterate (indirectPass B v) 129 s = some s' ∧
      IndirectAt B v s₀ (fileSize v / 512 + 1) s' := by
  have hstride : stride v = 0 := if_pos hv
  apply iterate_total (k := 128) (fun m s => ∃ n, n + m = 135 ∧ 7 ≤ n ∧
    512 * n ≤ fileSize v + 512 ∧ s.ebx.toNat = 512 * n ∧ IndirectAt B v s₀ n s) _ ?_
    ⟨7, rfl, by omega, by omega, hebx, h⟩ (by omega)
  intro m s hinv
  rcases hinv with ⟨n, hnm, hn, hle, hebx, hs⟩
  by_cases hend : fileSize v < 512 * n
  · left
    have hlast : fileSize v / 512 + 1 = n := by omega
    rw [hlast]
    exact ⟨s, indirectPass_stop hsize hebx (by omega) hend, hs⟩
  · right
    rcases indirectPass_step hok hg hblock hsize hs hebx hn (by omega) hdest with
      ⟨s', hs', hebx', hpass⟩
    have hsame : lo s.ebx + (0 : Half) = lo s.ebx := BitVec.add_zero _
    rw [hstride, hsame, setLo_lo] at hebx'
    refine ⟨s', m - 1, hpass, by omega, n + 1, by omega, by omega, by omega, ?_, hs'⟩
    rw [hebx']
    exact toNat_nextBlock hebx (by omega)

theorem chs_skip (hbps : v.bytesPerSector = 512) (hv : v.bDriveLBA ≠ true8) {ebx : Word}
    (hebx : ebx.toNat = 3584) :
    (setLo ebx (lo ebx + stride v) + stpdfsBlockSize).toNat = 4608 := by
  have hebx' : ebx = 3584 := BitVec.eq_of_toNat_eq hebx
  rw [hebx', stride, if_neg hv, hbps]
  decide

/-- On the CHS path the offset behind the first block of the table is 4608, so a file
of at most eight blocks ends there. -/
theorem indirect_run_chs (hok : B.NoError) (hg : HasGeometry v)
    (hblock : B.sectorSize = 512) (hbps : v.bytesPerSector = 512)
    (hv : v.bDriveLBA ≠ true8) {s₀ s : Cpu} (hsmall : fileSize v < 4608)
    (hlarge : 3072 ≤ fileSize v) (h : IndirectAt B v s₀ 7 s) (hebx : s.ebx.toNat = 3584)
    (hdest : TableApart s₀.es (blockCount v)) :
    ∃ s', iterate (indirectPass B v) 129 s = some s' ∧
      IndirectAt B v s₀ (min (fileSize v / 512 + 1) 8) s' := by
  by_cases hend : fileSize v < 3584
  · have hcount : min (fileSize v / 512 + 1) 8 = 7 := by omega
    rw [hcount]
    exact ⟨s, iterate_done (indirectPass_stop (by omega) hebx (by omega) hend) 128, h⟩
  · rcases indirectPass_step hok hg hblock (by omega) h hebx (Nat.le_refl 7) (by omega) hdest
      with ⟨s', hs', hebx', hpass⟩
    have hcount : min (fileSize v / 512 + 1) 8 = 8 := by omega
    rw [hcount]
    refine ⟨s', ?_, hs'⟩
    have hskip : s'.ebx.toNat = 4608 := by
      rw [hebx', chs_skip hbps hv hebx]
    rw [iterate_again hpass]
    exact iterate_done (indirectPass_stop (by omega) hskip (by omega) hsmall) 127

/-- Transfers are only added. -/
theorem indirectPass_grows (hok : B.NoError) (hg : HasGeometry v) {s s' : Cpu}
    (h : indirectPass B v s = some (.again s') ∨ indirectPass B v s = some (.done s')) :
    ∃ us, s'.transfers = s.transfers ++ us := by
  by_cases hgo : (v.inodeCache.word inodeSize).slt s.ebx = true
  · have hpass : indirectPass B v s = some (.done s) := by
      rw [indirectPass, if_pos hgo]
    rw [hpass] at h
    rcases h with h | h
    · cases h
    · cases h
      exact ⟨[], (List.append_nil _).symm⟩
  · rcases indirectPass_read hok hg hgo with ⟨t, hmoved, _, _, hpass⟩
    have ht : s' = t := by
      rw [hpass] at h
      rcases h with h | h
      · split at h
        · cases h
          rfl
        · cases h
      · split at h
        · cases h
        · cases h
          rfl
    exact ⟨_, ht ▸ hmoved.transfers⟩

/-- On the CHS path a file of more than eight blocks finds its ninth one at the wrong
offset. -/
theorem indirect_run_skipped (hok : B.NoError) (hg : HasGeometry v)
    (hblock : B.sectorSize = 512) (hbps : v.bytesPerSector = 512)
    (hv : v.bDriveLBA ≠ true8) {s₀ s s' : Cpu} (hsize : fileSize v ≤ 65536)
    (hlarge : 4608 ≤ fileSize v) (h : IndirectAt B v s₀ 7 s) (hebx : s.ebx.toNat = 3584)
    (hdest : TableApart s₀.es (blockCount v))
    (hrun : iterate (indirectPass B v) 129 s = some s') :
    ∃ b us, s'.transfers = s₀.transfers ++
      (fileTransfers B v s₀.es 8 ++ ⟨b, 16 * s₀.es.toNat + 4608⟩ :: us) := by
  rcases indirectPass_step hok hg hblock hsize h hebx (Nat.le_refl 7) (by omega) hdest
    with ⟨s₁, h₁, hebx₁, hpass₁⟩
  -- on the CHS path BX has moved by two sectors
  have hskip : s₁.ebx.toNat = 4608 := by
    rw [hebx₁, chs_skip hbps hv hebx]
  have hgo : ¬ (v.inodeCache.word inodeSize).slt s₁.ebx = true := by
    rw [size_slt hskip (by omega) hsize]
    simpa using hlarge
  rcases indirectPass_read hok hg hgo with ⟨s₂, hmoved, _, hedx₂, hpass₂⟩
  have hmore : s₂.edx.ule 128 = true := by
    have hedx₁ : s₁.edx = 1 := BitVec.eq_of_toNat_eq h₁.edx
    rw [hedx₂, hedx₁]
    decide
  have haddr : linear s₁.es (lo s₁.ebx) = 16 * s₀.es.toNat + 4608 := by
    rw [lo_of_toNat hskip, h₁.moved.es]
    rfl
  rw [if_pos hmore] at hpass₂
  rw [iterate_again hpass₁, iterate_again hpass₂] at hrun
  -- whatever the rest of the loop does, it only appends transfers
  have hgrow : ∃ us, s'.transfers = s₂.transfers ++ us := by
    apply iterate_sound
      (fun s => ∃ us, s.transfers = s₂.transfers ++ us)
      (fun s => ∃ us, s.transfers = s₂.transfers ++ us) ?_ ?_
      ⟨[], (List.append_nil _).symm⟩ hrun
    · intro t t' ht hpass
      rcases ht with ⟨us, hus⟩
      rcases indirectPass_grows hok hg (Or.inl hpass) with ⟨ws, hws⟩
      exact ⟨us ++ ws, by rw [hws, hus, List.append_assoc]⟩
    · intro t t' ht hpass
      rcases ht with ⟨us, hus⟩
      rcases indirectPass_grows hok hg (Or.inr hpass) with ⟨ws, hws⟩
      exact ⟨us ++ ws, by rw [hws, hus, List.append_assoc]⟩
  rcases hgrow with ⟨us, hus⟩
  rw [haddr] at hmoved
  generalize readSector B v (s₁.mem.word (diskBuffer + (s₁.edx <<< 2).toNat)) = b at hmoved
  refine ⟨b, us, ?_⟩
  rw [hus, hmoved.transfers, h₁.moved.transfers]
  simp only [List.append_assoc, List.singleton_append]

/-! ## The whole copy -/

/-- The blocks that are read: up to the one that holds the offset `size`, and eight at
most on the CHS path. -/
def readCount (v : LoaderData) : Nat :=
  if v.bDriveLBA = true8 then fileSize v / 512 + 1 else min (fileSize v / 512 + 1) 8

/-- The state when the first loop starts. -/
theorem directAt_zero {s : Cpu} (hbx : lo s.ebx = 0) :
    DirectAt B v s 0 { s with edx := 0, ebx := (lo s.ebx).setWidth 32 } := by
  refine ⟨⟨rfl, (List.append_nil _).symm, rfl, rfl, rfl⟩, ?_, rfl⟩
  rw [hbx]
  rfl

/-- A copy whose second loop, if it comes to that, stays in step. -/
theorem stpdfsCopyData_run (hok : B.NoError) (hg : HasGeometry v)
    (hblock : B.sectorSize = 512) (hbps : v.bytesPerSector = 512) {s : Cpu}
    (hsize : fileSize v ≤ 65536) (hstep : v.bDriveLBA = true8 ∨ fileSize v < 4608)
    (hbx : lo s.ebx = 0) (hdest : TableApart s.es (blockCount v)) :
    ∃ s', stpdfsCopyData B v s = some s' ∧
      Moved B (fileTransfers B v s.es (readCount v)) s s' := by
  -- the file ends in the direct blocks, or the table of the indirect ones is read
  rcases direct_run hok hg hsize (directAt_zero hbx) with ⟨r, hiter, hr⟩
  rcases r with ⟨allRead, s₁⟩
  rcases hr with ⟨hall, hsmall, h⟩ | ⟨hall, hlarge, h⟩
  · have hcount : readCount v = fileSize v / 512 + 1 := by
      rw [readCount]
      split
      · rfl
      · omega
    dsimp only at hall h
    subst hall
    refine ⟨s₁, ?_, ?_⟩
    · simp only [stpdfsCopyData, hiter, Option.bind_eq_bind, Option.bind_some, if_true,
        Option.pure_def]
    · rw [hcount, fileTransfers_of_le (by omega)]
      exact h.moved
  · dsimp only at hall h
    subst hall
    rcases readTable_spec hok hg h with ⟨s₂, htable, h₂, hebx₂⟩
    have hrest : ∃ s', iterate (indirectPass B v) 129 s₂ = some s' ∧
        IndirectAt B v s (readCount v) s' := by
      rw [readCount]
      by_cases hv : v.bDriveLBA = true8
      · rw [if_pos hv]
        exact indirect_run_lba hok hg hblock hv hsize hlarge h₂ hebx₂ hdest
      · rw [if_neg hv]
        exact indirect_run_chs hok hg hblock hbps hv (hstep.resolve_left hv) hlarge h₂ hebx₂
          hdest
    rcases hrest with ⟨s', hrun, h'⟩
    refine ⟨s', ?_, h'.moved⟩
    simp only [stpdfsCopyData, hiter, htable, hrun, Option.bind_eq_bind, Option.bind_some,
      Bool.false_eq_true, if_false]

/-- The reads that the file asks for. -/
def dataTransfers (B : Bios) (v : LoaderData) (es : Half) (n : Nat) : List Transfer :=
  (List.range n).map (fun i => ⟨dataBlock B v i, 16 * es.toNat + 512 * i⟩)

theorem length_dataTransfers (es : Half) (n : Nat) : (dataTransfers B v es n).length = n := by
  simp [dataTransfers]

theorem dataTransfers_getElem? {es : Half} {n i : Nat} (h : i < n) :
    (dataTransfers B v es n)[i]? = some ⟨dataBlock B v i, 16 * es.toNat + 512 * i⟩ := by
  rw [dataTransfers, List.getElem?_map, List.getElem?_range h]
  rfl

/-- Block by block, the reads are those the file asks for. -/
theorem blockTransfers_eq_iff {es : Half} {n : Nat} (hn : n ≤ 128) :
    blockTransfers B v es n = dataTransfers B v es n ↔
      ∀ i, i < n → blockSector B v i = dataBlock B v i := by
  rw [blockTransfers, dataTransfers, List.map_inj_left]
  constructor
  · intro h i hi
    exact congrArg Transfer.block (h i (List.mem_range.mpr hi))
  · intro h i hi
    have hi' := List.mem_range.mp hi
    have haddr : (blockTransfer B v es i).addr = _ := blockTransfer_addr (by omega)
    have hblock : (blockTransfer B v es i).block = dataBlock B v i := h i hi'
    rw [← haddr, ← hblock]

/-- The eighth read is that of the table, and not of a block. -/
theorem fileTransfers_getElem?_seven (es : Half) {n : Nat} (hn : 7 ≤ n) (us : List Transfer) :
    (fileTransfers B v es n ++ us)[7]? = some (tableTransfer B v) := by
  have htake : ((blockTransfers B v es n).take 7).length = 7 := by
    rw [List.length_take, length_blockTransfers]
    omega
  rw [fileTransfers, if_pos hn, withTable, List.append_assoc, List.append_assoc,
    List.getElem?_append_right (by omega), htake]
  rfl

theorem table_not_skipped {es : Half} {n k : Nat} {us : List Transfer} (hn : 7 ≤ n) (hk : 8 ≤ k)
    (hdest : DestApart es k) :
    fileTransfers B v es n ++ us ≠ withTable (dataTransfers B v es k) [] := by
  intro h
  have hseven := congrArg (fun l => l[7]?) h
  simp only [fileTransfers_getElem?_seven es hn, withTable_nil] at hseven
  rw [dataTransfers_getElem? (by omega)] at hseven
  have haddr := congrArg Transfer.addr (Option.some.inj hseven)
  simp only [tableTransfer] at haddr
  unfold DestApart at hdest
  omega

/-- As many blocks are read as the file has. -/
theorem readCount_of_layout {es : Half} {table : List Transfer} (hsize : fileSize v ≤ 65536)
    (hstep : v.bDriveLBA = true8 ∨ fileSize v < 4608) (hdest : DestApart es (blockCount v))
    (htable : table = [] ∨ 7 ≤ blockCount v ∧ ∃ b, table = [⟨b, diskBuffer⟩])
    (h : fileTransfers B v es (readCount v)
      = withTable (dataTransfers B v es (blockCount v)) table) :
    readCount v = blockCount v := by
  have hlen := congrArg List.length h
  rw [fileTransfers, length_withTable, length_withTable, length_blockTransfers,
    length_dataTransfers] at hlen
  -- the code reads as many blocks as there are, or one more, or skips one
  have hcases : readCount v = blockCount v ∨ readCount v = blockCount v + 1 ∨
      readCount v = 8 ∧ blockCount v = 9 := by
    unfold readCount blockCount
    split
    · omega
    · have hsmall := hstep.resolve_left ‹_›
      omega
  rcases hcases with heq | hmore | ⟨h8, h9⟩
  · exact heq
  · exfalso
    rcases htable with rfl | ⟨hseven, b, rfl⟩
    · simp only [List.length_nil] at hlen
      omega
    · rw [if_pos (by omega)] at hlen
      simp only [List.length_cons, List.length_nil] at hlen
      omega
  · exfalso
    rw [h8, if_pos (by omega)] at hlen
    rcases htable with rfl | ⟨_, b, rfl⟩
    · rw [h8, h9] at h
      rw [h9] at hdest
      have hlayout : fileTransfers B v es 8 ++ [] = _ := (List.append_nil _).trans h
      exact table_not_skipped (by omega) (by omega) hdest hlayout
    · simp only [List.length_cons, List.length_nil] at hlen
      omega

/-- Which sizes come out right. -/
theorem sizeOk_iff (hstep : v.bDriveLBA = true8 ∨ fileSize v < 4608) :
    SizeOk v ↔ readCount v = blockCount v := by
  unfold SizeOk readCount blockCount
  by_cases hv : v.bDriveLBA = true8
  · rw [if_pos hv, if_pos hv]
    omega
  · have hsmall := hstep.resolve_left hv
    rw [if_neg hv, if_neg hv]
    omega

/-- From 4608 bytes on the CHS path puts the ninth block at the offset of the tenth. -/
theorem copyExact_chs_lt (hok : B.NoError) (hg : HasGeometry v)
    (hblock : B.sectorSize = 512) (hbps : v.bytesPerSector = 512)
    (hv : v.bDriveLBA ≠ true8) {s s' : Cpu} {table : List Transfer}
    (hsize : fileSize v ≤ 65536) (hbx : lo s.ebx = 0) (hdest : DestApart s.es (blockCount v))
    (h : CopyExact B v s s' table) : fileSize v < 4608 := by
  by_contra hlarge
  have hcount : 9 ≤ blockCount v := by
    unfold blockCount
    omega
  rcases direct_run hok hg hsize (directAt_zero hbx) with ⟨⟨allRead, s₁⟩, hiter, hr⟩
  rcases hr with ⟨_, hsmall, _⟩ | ⟨hall, _, h₁⟩
  · omega
  dsimp only at hall h₁
  subst hall
  rcases readTable_spec hok hg h₁ with ⟨s₂, htable, h₂, hebx₂⟩
  have hrun : iterate (indirectPass B v) 129 s₂ = some s' := by
    have hreturns := h.returns
    simp only [stpdfsCopyData, hiter, htable, Option.bind_eq_bind, Option.bind_some,
      Bool.false_eq_true, if_false] at hreturns
    exact hreturns
  rcases indirect_run_skipped hok hg hblock hbps hv hsize (by omega) h₂ hebx₂ hdest.table hrun with
    ⟨b, us, hus⟩
  have hlayout := List.append_cancel_left (hus.symm.trans h.transfers)
  change _ = withTable (dataTransfers B v s.es (blockCount v)) table at hlayout
  rcases h.table_once with rfl | ⟨_, b', rfl⟩
  · exact table_not_skipped (by omega) (by omega) hdest hlayout
  · -- the tenth read is the ninth block
    have hten := congrArg (fun l => l[9]?) hlayout
    have hleft : (fileTransfers B v s.es 8).length = 9 := by
      rw [fileTransfers, length_withTable, length_blockTransfers]
      rfl
    have htake : ((dataTransfers B v s.es (blockCount v)).take 7).length = 7 := by
      rw [List.length_take, length_dataTransfers]
      omega
    have hright : ((dataTransfers B v s.es (blockCount v)).take 7
        ++ [(⟨b', diskBuffer⟩ : Transfer)]).length = 8 := by
      rw [List.length_append, htake]
      rfl
    simp only [withTable] at hten
    rw [List.getElem?_append_right (by omega), List.getElem?_append_right (by omega), hleft,
      hright, List.getElem?_drop, dataTransfers_getElem? (by omega)] at hten
    have haddr := congrArg Transfer.addr (Option.some.inj hten)
    dsimp only at haddr
    omega

theorem CopyMeets.of_exact (hok : B.NoError) (hg : HasGeometry v)
    (hblock : B.sectorSize = 512) (hbps : v.bytesPerSector = 512) {s s' : Cpu}
    {table : List Transfer} (hsize : fileSize v ≤ 65536) (hbx : lo s.ebx = 0)
    (hdest : DestApart s.es (blockCount v)) (h : CopyExact B v s s' table) :
    CopyMeets B v := by
  have hstep : v.bDriveLBA = true8 ∨ fileSize v < 4608 := by
    by_cases hv : v.bDriveLBA = true8
    · exact Or.inl hv
    · exact Or.inr (copyExact_chs_lt hok hg hblock hbps hv hsize hbx hdest h)
  rcases stpdfsCopyData_run hok hg hblock hbps hsize hstep hbx hdest.table with
    ⟨t, hreturns, hmoved⟩
  have ht : t = s' := Option.some.inj (hreturns.symm.trans h.returns)
  subst ht
  have hlayout : fileTransfers B v s.es (readCount v)
      = withTable (dataTransfers B v s.es (blockCount v)) table :=
    List.append_cancel_left (hmoved.transfers.symm.trans h.transfers)
  have hcount := readCount_of_layout hsize hstep hdest h.table_once hlayout
  rw [hcount, fileTransfers] at hlayout
  have hsame := (withTable_inj (by rw [length_blockTransfers, length_dataTransfers]) hlayout).1
  have h128 : blockCount v ≤ 128 := by
    unfold blockCount
    omega
  exact ⟨(sizeOk_iff hstep).mpr hcount, (blockTransfers_eq_iff h128).mp hsame⟩

/-- **Reading a file.** The copy is exact when the size is right for the path and the
block numbers are in its reach, and in no other case. -/
theorem stpdfsCopyData_iff (hok : B.NoError) (hg : SameGeometry B v)
    (hblock : B.sectorSize = 512) (hbps : v.bytesPerSector = 512) (s : Cpu)
    (hsize : fileSize v ≤ 65536) (hbx : lo s.ebx = 0)
    (hdest : DestApart s.es (blockCount v)) :
    (∃ s' table, CopyExact B v s s' table) ↔ CopyMeets B v := by
  constructor
  · intro h
    rcases h with ⟨s', table, h⟩
    exact CopyMeets.of_exact hok hg.hasGeometry hblock hbps hsize hbx hdest h
  · intro h
    have hstep : v.bDriveLBA = true8 ∨ fileSize v < 4608 := by
      by_cases hv : v.bDriveLBA = true8
      · exact Or.inl hv
      · have hsz := h.size
        rw [SizeOk, if_neg hv] at hsz
        omega
    have hcount := (sizeOk_iff hstep).mp h.size
    have h128 : blockCount v ≤ 128 := by
      unfold blockCount
      omega
    rcases stpdfsCopyData_run hok hg.hasGeometry hblock hbps hsize hstep hbx
      hdest.table with
      ⟨s', hreturns, hmoved⟩
    rw [hcount] at hmoved
    have hdata : blockTransfers B v s.es _ = dataTransfers B v s.es _ :=
      (blockTransfers_eq_iff h128).mpr h.blocks
    -- no transfer overwrites another
    have hpairs := fileTransfers_pairwise (B := B) (v := v) h128 hdest
    refine ⟨s', if 7 ≤ blockCount v then [tableTransfer B v] else [], hreturns, ?_, ?_, ?_, ?_⟩
    · by_cases h7 : 7 ≤ blockCount v
      · rw [if_pos h7]
        exact Or.inr ⟨h7, _, rfl⟩
      · rw [if_neg h7]
        exact Or.inl rfl
    · rw [hmoved.transfers, fileTransfers, hdata]
      rfl
    · intro i hi j hj
      have haddr : (blockTransfer B v s.es i).addr = _ := blockTransfer_addr (by omega)
      have hmem : blockTransfer B v s.es i ∈ fileTransfers B v s.es (blockCount v) := by
        rw [fileTransfers, (withTable_perm _ _).mem_iff]
        exact List.mem_append_right _ (List.mem_map.mpr ⟨i, List.mem_range.mpr hi, rfl⟩)
      have hload := loads_of_pairwise B.sectors s.mem hpairs hmem hj
      rw [haddr, show (blockTransfer B v s.es i).block = dataBlock B v i from h.blocks i hi]
        at hload
      rw [hmoved.mem, hblock]
      exact hload
    · intro x hx hbuf
      rw [hmoved.mem, hblock]
      apply loads_frame
      intro t ht
      rw [fileTransfers, (withTable_perm _ _).mem_iff] at ht
      rcases List.mem_append.mp ht with ht | ht
      · split at ht
        · rw [List.mem_singleton.mp ht]
          exact hbuf
        · cases ht
      · rcases mem_blockTransfers ht with ⟨i, hi, rfl⟩
        rw [blockTransfer_addr (by omega)]
        omega

/-! ### On a 1.44 MB floppy -/

/-- The loader with a file of `size` bytes whose zones are all 0. -/
def fileData (lba : Byte) (size : Word) : LoaderData :=
  { floppyData with
    bDriveLBA := lba
    inodeCache := fun a =>
      if 10 ≤ a ∧ a < 14 then size.extractLsb' (8 * (a - 10)) 8 else 0 }

theorem fileData_geometry (lba : Byte) (size : Word) :
    SameGeometry floppyBios (fileData lba size) :=
  ⟨floppy_geometry.sectorsPerTrack, floppy_geometry.heads,
    floppy_geometry.sectorsPerTrack_pos, floppy_geometry.heads_pos⟩

/-- A file of 512 bytes costs two blocks. -/
theorem stpdfsCopyData_counterexample :
    ¬ ∃ s' table, CopyExact floppyBios (fileData true8 512) (floppyRequest 1) s' table := by
  intro h
  rcases h with ⟨s', table, h⟩
  have hmeets := CopyMeets.of_exact floppy_noError (fileData_geometry _ _).hasGeometry rfl rfl
    (by decide) (by decide) (by unfold DestApart; decide) h
  have hsize := hmeets.size
  have hlba : (fileData true8 512).bDriveLBA = true8 := rfl
  rw [SizeOk, if_pos hlba] at hsize
  exact hsize (by decide)

theorem stpdfsCopyData_iff_floppy :
    (∃ s' table, CopyExact floppyBios (fileData true8 100) (floppyRequest 1) s' table) ∧
      ∃ s' table, CopyExact floppyBios (fileData false8 4096) (floppyRequest 1) s' table := by
  constructor
  · rw [stpdfsCopyData_iff floppy_noError (fileData_geometry _ _) rfl rfl _ (by decide)
      (by decide) (by unfold DestApart; decide)]
    have hlba : (fileData true8 100).bDriveLBA = true8 := rfl
    refine ⟨?_, ?_⟩
    · rw [SizeOk, if_pos hlba]
      decide
    · decide
  · rw [stpdfsCopyData_iff floppy_noError (fileData_geometry _ _) rfl rfl _ (by decide)
      (by decide) (by unfold DestApart; decide)]
    refine ⟨?_, ?_⟩
    · rw [SizeOk, if_neg (by decide)]
      decide
    · decide

end StupidOS.Boot
