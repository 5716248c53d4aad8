import StupidOS.Kernel.Queue

/-!
# The segment descriptor pool of vmem (`kernel/mm/vmem.inc`)

The 64 static `VmemSegment` descriptors are kept on a list through their
`.seglist` field, with a separate counter. `_vmem_segalloc` takes the first entry
with `list_remove` and `_vmem_segfree` puts one back with `list_insert_head`.

Since `list_remove` does not detach a first entry (see `Kernel.Queue`), the pool
only works until its first use: `_vmem_segalloc` hands out the last descriptor
that `vmem_bootstrap` freed, forever (`PoolStuck`, `vmemPool_iff`).
-/

namespace StupidOS.Kernel

/-! ## Layout -/

/-- `VMEM_STATIC_SEG_COUNT` -/
def vmemStaticSegCount : Nat := 64

/-- `sizeof.VmemSegment`: three words, a `TailQEntry` and a `ListEntry`. -/
def vmemSegmentSize : Nat := 28

/-- Field offsets of `VmemSegment`. -/
def segType : Word := 0
def segBase : Word := 4
def segSize : Word := 8
def segSegqueue : Word := 12
def segSeglist : Word := 20

/-- Where the linker put the static descriptors; `pVmemFreeSegHead` and
`iVmemFreeSegCount` follow them. -/
structure VmemStatics where
  aVmemStaticSegs : Word
  fits : aVmemStaticSegs.toNat + 64 * 28 + 8 ≤ 2 ^ 32

namespace VmemStatics

variable (S : VmemStatics)

/-- Static descriptor `k`. -/
def seg (k : Nat) : Word := S.aVmemStaticSegs + BitVec.ofNat 32 (28 * k)

def pVmemFreeSegHead : Word := S.aVmemStaticSegs + 1792

def iVmemFreeSegCount : Word := S.aVmemStaticSegs + 1796

end VmemStatics

/-! ## The routines -/

variable (S : VmemStatics)

/-- `_vmem_segfree`. `eax` is the descriptor. -/
def vmemSegfree (m : Mem) (eax : Word) : Mem :=
  let m := listInsertHead m S.pVmemFreeSegHead (eax + segSeglist)
  m.write32 S.iVmemFreeSegCount (m.read32 S.iVmemFreeSegCount + 1)

/-- `_vmem_segalloc`: EAX on return, and memory. -/
def vmemSegalloc (m : Mem) : Word × Mem :=
  let eax := m.read32 S.pVmemFreeSegHead
  if eax = 0 then
    (eax, m)
  else
    let ebx := eax
    let m := listRemove m eax
    let ebx := ebx - segSeglist
    let m := m.write32 S.iVmemFreeSegCount (m.read32 S.iVmemFreeSegCount - 1)
    (ebx, m)

/-- One pass of the loop of `vmem_bootstrap`: memory and `ebx`. -/
def vmemBootstrapBody : Mem × Word → Option (Pass (Mem × Word) Mem)
  | (m, ebx) =>
    let m := vmemSegfree S m (S.aVmemStaticSegs + ebx)
    let ebx := ebx + BitVec.ofNat 32 vmemSegmentSize
    if ebx.slt (BitVec.ofNat 32 (vmemStaticSegCount * vmemSegmentSize)) then
      some (.again (m, ebx))
    else
      some (.done m)

/-- `vmem_bootstrap` -/
def vmemBootstrap (fuel : Nat) (m : Mem) : Option Mem :=
  iterate (vmemBootstrapBody S) fuel (m, 0)

/-! ## The pool list -/

theorem VmemStatics.seg_seglist_toNat {k : Nat} (hk : k < 64) :
    (S.seg k + segSeglist).toNat = S.aVmemStaticSegs.toNat + 28 * k + 20 := by
  have hfits := S.fits
  unfold seg segSeglist
  bv_omega

theorem VmemStatics.head_toNat :
    S.pVmemFreeSegHead.toNat = S.aVmemStaticSegs.toNat + 1792 := by
  have hfits := S.fits
  unfold pVmemFreeSegHead
  bv_omega

theorem VmemStatics.count_toNat :
    S.iVmemFreeSegCount.toNat = S.aVmemStaticSegs.toNat + 1796 := by
  have hfits := S.fits
  unfold iVmemFreeSegCount
  bv_omega

/-- The entries of the pool list are the `.seglist` fields of the descriptors. -/
def poolHeap : ListHeap where
  head := S.pVmemFreeSegHead
  isEntry e := ∃ k, k < 64 ∧ e = S.seg k + segSeglist
  ne_zero := by
    rintro e ⟨k, hk, rfl⟩ h0
    have h := S.seg_seglist_toNat hk
    rw [h0] at h
    simp at h
  sep_head := by
    rintro e ⟨k, hk, rfl⟩
    have h := S.seg_seglist_toNat hk
    have hh := S.head_toNat
    have hfits := S.fits
    exact Sep.of_le (by omega) (by omega) (by omega) (by omega) (by omega)
  sep_entry := by
    rintro e e' ⟨k, hk, rfl⟩ ⟨k', hk', rfl⟩ hne
    have h := S.seg_seglist_toNat hk
    have h' := S.seg_seglist_toNat hk'
    have hfits := S.fits
    have hkk : k ≠ k' := fun heq => hne (by rw [heq])
    exact Sep.of_le (by omega) (by omega) (by omega) (by omega) (by omega)

theorem poolHeap_entry {k : Nat} (hk : k < 64) : (poolHeap S).isEntry (S.seg k + segSeglist) :=
  ⟨k, hk, rfl⟩

theorem sep_entry_count {e : Word} (he : (poolHeap S).isEntry e) :
    Sep e 8 S.iVmemFreeSegCount 4 := by
  obtain ⟨k, hk, rfl⟩ := he
  have h := S.seg_seglist_toNat hk
  have hc := S.count_toNat
  have hfits := S.fits
  exact Sep.of_le (by omega) (by omega) (by omega) (by omega) (by omega)

theorem sep_head_count : Sep S.pVmemFreeSegHead 4 S.iVmemFreeSegCount 4 := by
  have hh := S.head_toNat
  have hc := S.count_toNat
  have hfits := S.fits
  exact Sep.of_le (by omega) (by omega) (by omega) (by omega) (by omega)

/-- The counter is not part of the list. -/
theorem listInv_write_count {m : Mem} {l : List Word} (hinv : ListInv (poolHeap S) ⟨m, l⟩)
    (w : Word) : ListInv (poolHeap S) ⟨m.write32 S.iVmemFreeSegCount w, l⟩ := by
  refine hinv.congr_mem ?_ (fun e he => ?_) (fun e he => ?_)
  · exact Mem.read32_write32_of_sep _ _ (sep_head_count S)
  · have hsep := sep_entry_count S (hinv.entries e he)
    exact Mem.read32_write32_of_sep _ _ (by unfold Sep at *; constructor <;> bv_omega)
  · have hsep := sep_entry_count S (hinv.entries e he)
    exact Mem.read32_write32_of_sep _ _ (by unfold Sep at *; constructor <;> bv_omega)

/-- Descriptors `k - 1, ..., 0` in the order in which `vmem_bootstrap` leaves them. -/
def pooled (k : Nat) : List Word := (List.range k).reverse.map (fun i => S.seg i + segSeglist)

theorem pooled_succ (k : Nat) : pooled S (k + 1) = (S.seg k + segSeglist) :: pooled S k := by
  simp [pooled, List.range_succ]

@[simp] theorem pooled_length (k : Nat) : (pooled S k).length = k := by
  simp [pooled]

theorem not_mem_pooled {k : Nat} (hk : k < 64) : S.seg k + segSeglist ∉ pooled S k := by
  intro hmem
  obtain ⟨i, hi, heq⟩ := List.mem_map.mp hmem
  have hik : i < k := by simpa using hi
  have h := S.seg_seglist_toNat hk
  have h' := S.seg_seglist_toNat (k := i) (by omega)
  rw [heq] at h'
  omega

/-- Putting descriptor `k` back on a pool that holds the ones below it. -/
theorem vmemSegfree_pooled {m : Mem} {k : Nat} (hk : k < 64)
    (hinv : ListInv (poolHeap S) ⟨m, pooled S k⟩)
    (hcount : m.read32 S.iVmemFreeSegCount = BitVec.ofNat 32 k) :
    ListInv (poolHeap S) ⟨vmemSegfree S m (S.seg k), pooled S (k + 1)⟩ ∧
    (vmemSegfree S m (S.seg k)).read32 S.iVmemFreeSegCount = BitVec.ofNat 32 (k + 1) := by
  have hentry := poolHeap_entry S hk
  have hins := listInv_insert hinv hentry (not_mem_pooled S hk)
  rw [← pooled_succ] at hins
  have hcount' : (listInsertHead m S.pVmemFreeSegHead (S.seg k + segSeglist)).read32
      S.iVmemFreeSegCount = BitVec.ofNat 32 k := by
    have hsep := sep_entry_count S hentry
    rw [listInsertHead_frame m (sep_head_count S).symm
      (by unfold Sep at *; constructor <;> bv_omega)
      (by unfold Sep at *; constructor <;> bv_omega) (fun hne => ?_), hcount]
    obtain ⟨l, -, he⟩ := hinv.first_entry hne
    have hsep' := sep_entry_count S he
    change Sep _ 4 (m.read32 S.pVmemFreeSegHead + 4) 4
    change Sep (m.read32 S.pVmemFreeSegHead) 8 _ 4 at hsep'
    unfold Sep at *
    constructor <;> bv_omega
  refine ⟨listInv_write_count S hins _, ?_⟩
  unfold vmemSegfree
  dsimp only
  rw [Mem.read32_write32, hcount']
  bv_omega

/-- Pass `k` of the loop puts descriptor `k` back. -/
theorem vmemBootstrapBody_pass (m : Mem) {k : Nat} (hk : k < 64) :
    vmemBootstrapBody S (m, BitVec.ofNat 32 (28 * k)) =
      if k + 1 < 64 then
        some (.again (vmemSegfree S m (S.seg k), BitVec.ofNat 32 (28 * (k + 1))))
      else
        some (.done (vmemSegfree S m (S.seg k))) := by
  have hebx : BitVec.ofNat 32 (28 * k) + BitVec.ofNat 32 vmemSegmentSize =
      BitVec.ofNat 32 (28 * (k + 1)) := by
    rw [← BitVec.ofNat_add]
    rfl
  have hslt : (BitVec.ofNat 32 (28 * (k + 1))).slt
      (BitVec.ofNat 32 (vmemStaticSegCount * vmemSegmentSize)) = decide (k + 1 < 64) := by
    have h1 : (BitVec.ofNat 32 (28 * (k + 1))).toNat = 28 * (k + 1) := by
      rw [BitVec.toNat_ofNat]
      omega
    have h2 : (BitVec.ofNat 32 (vmemStaticSegCount * vmemSegmentSize)).toNat = 28 * 64 := rfl
    rw [slt_of_lt (by omega) (by omega), h1, h2]
    simp only [decide_eq_decide]
    omega
  unfold vmemBootstrapBody
  dsimp only
  rw [hebx, hslt]
  simp only [decide_eq_true_eq]
  rfl

/-- After `vmem_bootstrap` the pool holds the 64 descriptors, the last one first. -/
theorem vmemBootstrap_spec {m : Mem} (hhead : m.read32 S.pVmemFreeSegHead = 0)
    (hcount : m.read32 S.iVmemFreeSegCount = 0) :
    ∃ m', vmemBootstrap S 64 m = some m' ∧ ListInv (poolHeap S) ⟨m', pooled S 64⟩ ∧
      m'.read32 S.iVmemFreeSegCount = 64 := by
  have hinit : ∃ k, k + 63 = 63 ∧ (0 : Word) = BitVec.ofNat 32 (28 * k) ∧
      ListInv (poolHeap S) ⟨m, pooled S k⟩ ∧
      m.read32 S.iVmemFreeSegCount = BitVec.ofNat 32 k :=
    ⟨0, rfl, rfl, listInv_empty (h := poolHeap S) hhead, by rw [hcount]; rfl⟩
  refine iterate_total
    (fun n (p : Mem × Word) => ∃ k, k + n = 63 ∧ p.2 = BitVec.ofNat 32 (28 * k) ∧
      ListInv (poolHeap S) ⟨p.1, pooled S k⟩ ∧
      p.1.read32 S.iVmemFreeSegCount = BitVec.ofNat 32 k)
    (fun m' => ListInv (poolHeap S) ⟨m', pooled S 64⟩ ∧ m'.read32 S.iVmemFreeSegCount = 64)
    ?_ hinit (by omega)
  rintro n ⟨m, _⟩ ⟨k, hk, rfl, hinv, hc⟩
  obtain ⟨hinv', hc'⟩ := vmemSegfree_pooled S (show k < 64 by omega) hinv hc
  rw [vmemBootstrapBody_pass S m (show k < 64 by omega)]
  by_cases hlast : k + 1 < 64
  · right
    exact ⟨_, n - 1, if_pos hlast, by omega, k + 1, by omega, rfl, hinv', hc'⟩
  · left
    have hk63 : k + 1 = 64 := by omega
    rw [hk63] at hinv' hc'
    exact ⟨_, if_neg hlast, hinv', hc'⟩

/-! ## The pool in use -/

/-- The first entry of the pool after `vmem_bootstrap`. -/
def VmemStatics.top : Word := S.seg 63 + segSeglist

/-- What `vmem_bootstrap` establishes and nothing undoes: the pool starts with
the entry of descriptor 63, and that entry is its own `.prev`. -/
structure PoolStuck (m : Mem) : Prop where
  head : m.read32 S.pVmemFreeSegHead = S.top
  prev : listPrev m S.top = S.top
  next : m.read32 S.top = 0 ∨ (poolHeap S).isEntry (m.read32 S.top)

theorem top_entry : (poolHeap S).isEntry S.top := poolHeap_entry S (by omega)

theorem top_sub : S.top - segSeglist = S.seg 63 := by
  unfold VmemStatics.top
  bv_omega

theorem poolStuck_of_listInv {m : Mem} (hinv : ListInv (poolHeap S) ⟨m, pooled S 64⟩) :
    PoolStuck S m := by
  have hel : pooled S 64 = S.top :: pooled S 63 := pooled_succ S 63
  have hback := hinv.back _ _ hel
  have hv := hinv.visits
  unfold ListVisits at hv
  change Chain m.read32 0 (m.read32 S.pVmemFreeSegHead) (pooled S 64) at hv
  rw [hel] at hv
  refine ⟨hv.1, hback.1, Or.inr ?_⟩
  have hel' : pooled S 63 = (S.seg 62 + segSeglist) :: pooled S 62 := pooled_succ S 62
  have hnext := hv.2.2
  rw [hel'] at hnext
  rw [hnext.1]
  exact poolHeap_entry S (by omega)

/-- A word that shares no byte with an entry of the pool, its head or its counter. -/
def OffPool (a : Word) : Prop :=
  (∀ e, (poolHeap S).isEntry e → Sep a 4 e 8) ∧ Sep a 4 S.pVmemFreeSegHead 4 ∧
    Sep a 4 S.iVmemFreeSegCount 4

/-- Before the descriptors, behind the counter, or in the fields of the last descriptor. -/
theorem offPool_of_place {a : Word} (hfit : a.toNat + 4 ≤ 2 ^ 32)
    (h : a.toNat + 4 ≤ S.aVmemStaticSegs.toNat ∨ S.aVmemStaticSegs.toNat + 1800 ≤ a.toNat ∨
      S.aVmemStaticSegs.toNat + 1764 ≤ a.toNat ∧ a.toNat + 4 ≤ S.aVmemStaticSegs.toNat + 1784) :
    OffPool S a := by
  have hS := S.fits
  have hhead := S.head_toNat
  have hcount := S.count_toNat
  refine ⟨?_, ?_, ?_⟩
  · rintro e ⟨j, hj, rfl⟩
    have he := S.seg_seglist_toNat hj
    exact Sep.of_le (by omega) (by omega) (by omega) (by omega) (by omega)
  · exact Sep.of_le (by omega) (by omega) (by omega) (by omega) (by omega)
  · exact Sep.of_le (by omega) (by omega) (by omega) (by omega) (by omega)

theorem sep_entry_prev {a e : Word} (h : Sep a 4 e 8) : Sep a 4 (e + 4) 4 := by
  unfold Sep at *
  constructor <;> bv_omega

theorem sep_entry_next {a e : Word} (h : Sep a 4 e 8) : Sep a 4 e 4 := by
  unfold Sep at *
  constructor <;> bv_omega

/-- Putting a descriptor back stores nothing elsewhere. -/
theorem vmemSegfree_frame {m : Mem} {k : Nat} (hk : k < 64)
    (hinv : ListInv (poolHeap S) ⟨m, pooled S k⟩) {a : Word} (ha : OffPool S a) :
    (vmemSegfree S m (S.seg k)).read32 a = m.read32 a := by
  have hentry := ha.1 _ (poolHeap_entry S hk)
  unfold vmemSegfree
  dsimp only
  rw [Mem.read32_write32_of_sep _ _ ha.2.2]
  refine listInsertHead_frame m ha.2.1 (sep_entry_next hentry) (sep_entry_prev hentry) ?_
  intro hne
  obtain ⟨l, -, he⟩ := hinv.first_entry hne
  exact sep_entry_prev (ha.1 _ he)

/-- Nor does `vmem_bootstrap`. -/
theorem vmemBootstrap_frame {m m' : Mem} {fuel : Nat} (hhead : m.read32 S.pVmemFreeSegHead = 0)
    (hcount : m.read32 S.iVmemFreeSegCount = 0) (hrun : vmemBootstrap S fuel m = some m')
    {a : Word} (ha : OffPool S a) : m'.read32 a = m.read32 a := by
  have hinit : ∃ k, k < 64 ∧ (0 : Word) = BitVec.ofNat 32 (28 * k) ∧
      ListInv (poolHeap S) ⟨m, pooled S k⟩ ∧ m.read32 S.iVmemFreeSegCount = BitVec.ofNat 32 k ∧
      m.read32 a = m.read32 a :=
    ⟨0, by decide, rfl, listInv_empty (h := poolHeap S) hhead, hcount, rfl⟩
  refine iterate_sound
    (fun p : Mem × Word => ∃ k, k < 64 ∧ p.2 = BitVec.ofNat 32 (28 * k) ∧
      ListInv (poolHeap S) ⟨p.1, pooled S k⟩ ∧ p.1.read32 S.iVmemFreeSegCount = BitVec.ofNat 32 k ∧
      p.1.read32 a = m.read32 a)
    (fun m' => m'.read32 a = m.read32 a) ?_ ?_ hinit hrun
  · rintro ⟨m₁, _⟩ s' ⟨k, hk, rfl, hinv, hc, hsame⟩ hbody
    rw [vmemBootstrapBody_pass S m₁ hk] at hbody
    obtain ⟨hinv', hc'⟩ := vmemSegfree_pooled S hk hinv hc
    split at hbody
    · rename_i hlast
      cases hbody
      exact ⟨k + 1, hlast, rfl, hinv', hc', (vmemSegfree_frame S hk hinv ha).trans hsame⟩
    · cases hbody
  · rintro ⟨m₁, _⟩ r ⟨k, hk, rfl, hinv, hc, hsame⟩ hbody
    rw [vmemBootstrapBody_pass S m₁ hk] at hbody
    split at hbody
    · cases hbody
    · cases hbody
      exact (vmemSegfree_frame S hk hinv ha).trans hsame

/-- A store off the pool does not disturb it. -/
theorem PoolStuck.write {m : Mem} (hm : PoolStuck S m) {a : Word} (ha : OffPool S a) (w : Word) :
    PoolStuck S (m.write32 a w) ∧ (m.write32 a w).read32 S.top = m.read32 S.top := by
  have htop := top_entry S
  have hnext : (m.write32 a w).read32 S.top = m.read32 S.top :=
    Mem.read32_write32_of_sep _ _ (sep_entry_next (ha.1 _ htop)).symm
  refine ⟨⟨?_, ?_, by rw [hnext]; exact hm.next⟩, hnext⟩
  · exact (Mem.read32_write32_of_sep _ _ ha.2.1.symm).trans hm.head
  · exact (Mem.read32_write32_of_sep _ _ (sep_entry_prev (ha.1 _ htop)).symm).trans hm.prev

/-- `list_remove` of the first entry of a stuck pool leaves it there. -/
theorem PoolStuck.remove {m : Mem} (hm : PoolStuck S m) :
    PoolStuck S (listRemove m S.top) ∧
    (listRemove m S.top).read32 S.top = m.read32 S.top ∧
    ∀ a, (∀ e, (poolHeap S).isEntry e → Sep a 4 e 8) →
      (listRemove m S.top).read32 a = m.read32 a := by
  have htop := top_entry S
  have hnext' : (listRemove m S.top).read32 S.top = m.read32 S.top := by
    have := listRemove_link m S.top
    rwa [hm.prev] at this
  refine ⟨⟨?_, ?_, by rw [hnext']; exact hm.next⟩, hnext', ?_⟩
  · refine (listRemove_frame m ?_ (fun hnext => ?_)).trans hm.head
    · rw [hm.prev]
      exact ((poolHeap S).sep_next_head htop).symm
    · exact ((poolHeap S).sep_prev_head (hm.next.resolve_left hnext)).symm
  -- linked to itself, the entry is also the one behind it
  · by_cases hself : m.read32 S.top = S.top
    · have hprev := listRemove_next m S.top
        (by rw [hself]; exact (poolHeap S).ne_zero _ htop)
        (by rw [hself, hm.prev]; exact (ListHeap.sep_next_own S.top).symm)
      rwa [hself, hm.prev] at hprev
    · refine Eq.trans (listRemove_frame m ?_ (fun hnext => ?_)) hm.prev
      · rw [hm.prev]
        exact (ListHeap.sep_next_own S.top).symm
      · exact (poolHeap S).sep_prev htop (hm.next.resolve_left hnext) (Ne.symm hself)
  · intro a ha
    refine listRemove_frame m ?_ (fun hnext => ?_)
    · rw [hm.prev]
      exact sep_entry_next (ha _ htop)
    · exact sep_entry_prev (ha _ (hm.next.resolve_left hnext))

/-- `_vmem_segalloc` on a stuck pool: descriptor 63 is returned and stays first. -/
theorem PoolStuck.segalloc {m : Mem} (hm : PoolStuck S m) :
    (vmemSegalloc S m).1 = S.seg 63 ∧ PoolStuck S (vmemSegalloc S m).2 ∧
    (vmemSegalloc S m).2.read32 S.top = m.read32 S.top ∧
    ∀ a, OffPool S a → (vmemSegalloc S m).2.read32 a = m.read32 a := by
  have htop := top_entry S
  have hcount := sep_entry_count S htop
  obtain ⟨hstuck, hnext, hoff⟩ := hm.remove
  -- the removal does not touch the counter
  have hc : (listRemove m S.top).read32 S.iVmemFreeSegCount =
      m.read32 S.iVmemFreeSegCount := hoff _ (fun e he => by
    have hsep := sep_entry_count S he
    unfold Sep at *
    exact ⟨by bv_omega, by bv_omega⟩)
  have hres : vmemSegalloc S m = (S.seg 63, (listRemove m S.top).write32 S.iVmemFreeSegCount
      (m.read32 S.iVmemFreeSegCount - 1)) := by
    unfold vmemSegalloc
    dsimp only
    rw [hm.head, if_neg ((poolHeap S).ne_zero _ htop), top_sub, hc]
  have hkeep : ∀ a, Sep a 4 S.iVmemFreeSegCount 4 →
      (vmemSegalloc S m).2.read32 a = (listRemove m S.top).read32 a := by
    intro a ha
    rw [hres]
    exact Mem.read32_write32_of_sep _ _ ha
  have hnextR : (vmemSegalloc S m).2.read32 S.top = m.read32 S.top :=
    (hkeep _ (sep_entry_next hcount.symm).symm).trans hnext
  refine ⟨by rw [hres], ⟨?_, ?_, by rw [hnextR]; exact hm.next⟩, hnextR, ?_⟩
  · exact (hkeep _ (sep_head_count S)).trans hstuck.head
  · exact (hkeep _ (sep_entry_prev hcount.symm).symm).trans hstuck.prev
  · rintro a ⟨ha, -, hac⟩
    exact (hkeep a hac).trans (hoff a ha)

/-- `_vmem_segfree` of descriptor 63 on a stuck pool links its entry to itself. -/
theorem PoolStuck.segfree {m : Mem} (hm : PoolStuck S m) :
    PoolStuck S (vmemSegfree S m (S.seg 63)) ∧
    (vmemSegfree S m (S.seg 63)).read32 S.top = S.top ∧
    ∀ a, OffPool S a → (vmemSegfree S m (S.seg 63)).read32 a = m.read32 a := by
  have htop := top_entry S
  have hcount := sep_entry_count S htop
  have hsep : Sep S.top 8 S.pVmemFreeSegHead 4 := (poolHeap S).sep_head _ htop
  obtain ⟨hhead', hnext', hprev'⟩ := listInsertHead_sets m hsep
    (fun _ => by rw [hm.head]; exact ListHeap.sep_next_own S.top)
  rw [hm.head] at hnext'
  have hkeep : ∀ a, Sep a 4 S.iVmemFreeSegCount 4 →
      (vmemSegfree S m (S.seg 63)).read32 a =
        (listInsertHead m S.pVmemFreeSegHead S.top).read32 a :=
    fun a ha => Mem.read32_write32_of_sep _ _ ha
  have hnextR := (hkeep _ (sep_entry_next hcount.symm).symm).trans hnext'
  refine ⟨⟨?_, ?_, Or.inr ?_⟩, hnextR, ?_⟩
  · exact (hkeep _ (sep_head_count S)).trans hhead'
  · exact (hkeep _ (sep_entry_prev hcount.symm).symm).trans hprev'
  · rw [hnextR]
    exact htop
  · rintro a ⟨ha, hah, hac⟩
    refine (hkeep a hac).trans (listInsertHead_frame m hah (sep_entry_next (ha _ htop))
      (sep_entry_prev (ha _ htop)) (fun _ => ?_))
    rw [hm.head]
    exact sep_entry_prev (ha _ htop)

/-! ## Whole runs -/

/-- Memory, and the descriptors handed out and not yet given back. -/
structure PoolState where
  mem : Mem
  held : List Word

inductive PoolOp where
  | alloc
  | free (d : Word)
deriving DecidableEq, Repr

/-- `_vmem_segalloc`, or `_vmem_segfree` of a descriptor currently held. -/
def poolStep (s : PoolState) (op : PoolOp) (s' : PoolState) : Prop :=
  match op with
  | .alloc =>
      s' = ⟨(vmemSegalloc S s.mem).2,
        if (vmemSegalloc S s.mem).1 = 0 then s.held else (vmemSegalloc S s.mem).1 :: s.held⟩
  | .free d => d ∈ s.held ∧ s' = ⟨vmemSegfree S s.mem d, s.held.erase d⟩

/-- The pool does its job: the next descriptor is not one already held, it is 0
exactly when all of them are held, the list ends, and the counter is its length,
the number of descriptors not held. -/
structure PoolOk (s : PoolState) : Prop where
  fresh : (vmemSegalloc S s.mem).1 ∉ s.held
  full : (vmemSegalloc S s.mem).1 = 0 ↔ s.held.length = vmemStaticSegCount
  count : ∃ l, Chain s.mem.read32 0 (s.mem.read32 S.pVmemFreeSegHead) l ∧
    (s.mem.read32 S.iVmemFreeSegCount).toNat = l.length ∧
    l.length + s.held.length = vmemStaticSegCount

/-- Once the pool is in use it stays stuck, and every descriptor held is 63. -/
structure PoolStateStuck (s : PoolState) : Prop where
  stuck : PoolStuck S s.mem
  held : ∀ d ∈ s.held, d = S.seg 63

theorem seg_ne_zero : S.seg 63 ≠ 0 := by
  have hfits := S.fits
  unfold VmemStatics.seg
  intro h0
  bv_omega

theorem poolStateStuck_step (s : PoolState) (op : PoolOp) (s' : PoolState)
    (hs : PoolStateStuck S s) (hstep : poolStep S s op s') : PoolStateStuck S s' := by
  cases op with
  | alloc =>
      obtain ⟨hres, hstuck, -⟩ := hs.stuck.segalloc
      refine hstep ▸ ⟨hstuck, ?_⟩
      intro d hd
      simp only [hres, if_neg (seg_ne_zero S)] at hd
      rcases List.mem_cons.mp hd with rfl | hd
      · rfl
      · exact hs.held d hd
  | free d =>
      obtain ⟨hd, rfl⟩ := hstep
      obtain rfl := hs.held d hd
      exact ⟨hs.stuck.segfree.1, fun d' hd' => hs.held d' (List.mem_of_mem_erase hd')⟩

/-- Right after `vmem_bootstrap` the pool is as it should be. -/
theorem poolOk_bootstrap {m : Mem} (hinv : ListInv (poolHeap S) ⟨m, pooled S 64⟩)
    (hcount : m.read32 S.iVmemFreeSegCount = 64) : PoolOk S ⟨m, []⟩ := by
  obtain ⟨hres, -⟩ := (poolStuck_of_listInv S hinv).segalloc
  refine ⟨by simp, ?_, pooled S 64, hinv.visits, ?_, ?_⟩
  · rw [hres]
    exact ⟨fun h0 => absurd h0 (seg_ne_zero S), fun h0 => by cases h0⟩
  · rw [hcount, pooled_length]
    rfl
  · rw [pooled_length]
    rfl

/-- After the first `_vmem_segalloc` the list still has 64 entries, one of which
is held. -/
theorem not_poolOk_alloc {m : Mem} (hinv : ListInv (poolHeap S) ⟨m, pooled S 64⟩) :
    ¬ PoolOk S ⟨(vmemSegalloc S m).2, [S.seg 63]⟩ := by
  obtain ⟨-, hstuck, -⟩ := (poolStuck_of_listInv S hinv).segalloc
  intro hok
  have hfresh := hok.fresh
  rw [hstuck.segalloc.1] at hfresh
  exact hfresh (List.mem_singleton.mpr rfl)

/-- From `vmem_bootstrap` on, the pool does its job after every call of a run
only if the run makes no call at all; and whatever the run, `_vmem_segalloc`
returns descriptor 63 every time, never 0. -/
theorem vmemPool_iff (m₀ : Mem) (hhead : m₀.read32 S.pVmemFreeSegHead = 0)
    (hcount : m₀.read32 S.iVmemFreeSegCount = 0) :
    ∃ m, vmemBootstrap S 64 m₀ = some m ∧ PoolOk S ⟨m, []⟩ ∧
      ∀ r, Run (poolStep S) ⟨m, []⟩ r →
        ((∀ p ∈ r, PoolOk S p.2) ↔ r = []) ∧
        ∀ p ∈ r, (vmemSegalloc S p.2.mem).1 = S.seg 63 ∧ ∀ d ∈ p.2.held, d = S.seg 63 := by
  obtain ⟨m, hm, hinv, hc⟩ := vmemBootstrap_spec S hhead hcount
  have hstuck := poolStuck_of_listInv S hinv
  refine ⟨m, hm, poolOk_bootstrap S hinv hc, fun r hr => ⟨⟨?_, by rintro rfl; simp⟩, ?_⟩⟩
  · intro hall
    cases r with
    | nil => rfl
    | cons p r =>
        obtain ⟨op, s'⟩ := p
        have hok := hall (op, s') (List.mem_cons_self ..)
        cases op with
        | alloc =>
            have hs' := hr.1
            simp only [poolStep, hstuck.segalloc.1, if_neg (seg_ne_zero S)] at hs'
            rw [hs'] at hok
            exact absurd hok (not_poolOk_alloc S hinv)
        | free d => exact absurd hr.1.1 (by simp)
  · intro p hp
    have hs := Run.invariant (PoolStateStuck S) (poolStateStuck_step S) ⟨hstuck, by simp⟩ hr p hp
    exact ⟨hs.stuck.segalloc.1, hs.held⟩

/-- Descriptors at 0xC0200000. -/
def demoStatics : VmemStatics := ⟨0xC0200000, by decide⟩

theorem vmemPool_iff_demo :
    ∃ m, vmemBootstrap demoStatics 64 (fun _ => 0) = some m ∧ PoolOk demoStatics ⟨m, []⟩ ∧
      ∀ r, Run (poolStep demoStatics) ⟨m, []⟩ r →
        ((∀ p ∈ r, PoolOk demoStatics p.2) ↔ r = []) ∧
        ∀ p ∈ r, (vmemSegalloc demoStatics p.2.mem).1 = demoStatics.seg 63 ∧
          ∀ d ∈ p.2.held, d = demoStatics.seg 63 :=
  vmemPool_iff demoStatics (fun _ => 0) (by decide) (by decide)

/-- Two calls of `_vmem_segalloc` right after `vmem_bootstrap` return the same
descriptor. -/
theorem vmemPool_counterexample :
    ∃ m, vmemBootstrap demoStatics 64 (fun _ => 0) = some m ∧
      (vmemSegalloc demoStatics m).1 = 0xC02006E4 ∧
      (vmemSegalloc demoStatics (vmemSegalloc demoStatics m).2).1 = 0xC02006E4 ∧
      ¬ PoolOk demoStatics ⟨(vmemSegalloc demoStatics m).2, [(vmemSegalloc demoStatics m).1]⟩ := by
  obtain ⟨m, hm, hinv, -⟩ :=
    vmemBootstrap_spec demoStatics (m := fun _ => 0) (by decide) (by decide)
  obtain ⟨hfirst, hstuck, -⟩ := (poolStuck_of_listInv demoStatics hinv).segalloc
  refine ⟨m, hm, hfirst, hstuck.segalloc.1, ?_⟩
  rw [hfirst]
  exact not_poolOk_alloc demoStatics hinv

end StupidOS.Kernel
