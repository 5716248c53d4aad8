import StupidOS.Lib.Chain
import StupidOS.Lib.Extents
import StupidOS.Kernel.PmmSteps

/-!
# The free list of the page allocator

The list is a `Chain` through the headers of the free blocks, each in the first words
of a page of its own (`FreeList`). The search takes the first block that passes its
comparison (`taken`), whatever the sizes stand for, and what `pmm_alloc` leaves is a
list again (`FreeList.alloc`).
-/

namespace StupidOS.Kernel

/-! ## Blocks and lists -/

/-- `PMMFreeRange.next` of the block at `p`. -/
def nextOf (m : Mem) (p : Word) : Word := m.read32 (p + rangeNext)

/-- The block whose header is at `p`. -/
def blockAt (m : Mem) (p : Word) : Extent := ⟨p.toNat, (m.read32 p).toNat⟩

variable (K : KernelImage)

/-- The list that starts at `pPmmFreeListHead` visits `l` and ends at 0. -/
def PmmList (m : Mem) (l : List Word) : Prop := Chain (nextOf m) 0 (m.read32 K.headPhys) l

/-- The physical end of the kernel image. -/
def KernelImage.imageEnd : Nat := K.kend.toNat - 0xC0000000

theorem KernelImage.imageEnd_bounds :
    K.headPhys.toNat + 36 ≤ K.imageEnd ∧ 0x100000 ≤ K.headPhys.toNat ∧ K.imageEnd ≤ 0x400000 := by
  have hhead := K.headPhys_toNat
  have hlow := K.head_low
  have hhigh := K.head_high
  have hend := K.kend_high
  unfold imageEnd
  omega

variable {K}

/-- The list only depends on its head and on the links of its blocks. -/
theorem PmmList.congr {m m' : Mem} {l : List Word} (h : PmmList K m l)
    (hhead : m'.read32 K.headPhys = m.read32 K.headPhys)
    (hnext : ∀ p ∈ l, m'.read32 (p + rangeNext) = m.read32 (p + rangeNext)) : PmmList K m' l := by
  unfold PmmList at *
  rw [hhead]
  exact Chain.congr h hnext

theorem map_blockAt_congr {m m' : Mem} {l : List Word}
    (h : ∀ p ∈ l, m'.read32 p = m.read32 p) : l.map (blockAt m') = l.map (blockAt m) := by
  refine List.map_congr_left (fun p hp => ?_)
  unfold blockAt
  rw [h p hp]

/-- Headers in different pages. -/
theorem sep_headers {p q : Word} (hp : Header K p) (hq : Header K q) (hne : p ≠ q) :
    Sep p 4 q 4 ∧ Sep p 4 (q + rangeNext) 4 ∧ Sep (p + rangeNext) 4 q 4 ∧
      Sep (p + rangeNext) 4 (q + rangeNext) 4 := by
  have hp' := hp.aligned
  have hq' := hq.aligned
  have hnat : p.toNat ≠ q.toNat := fun heq => hne (BitVec.eq_of_toNat_eq heq)
  have hpn : (p + rangeNext).toNat = p.toNat + 4 := by
    unfold rangeNext
    bv_omega
  have hqn : (q + rangeNext).toNat = q.toNat + 4 := by
    unfold rangeNext
    bv_omega
  have hplt := p.isLt
  have hqlt := q.isLt
  refine ⟨?_, ?_, ?_, ?_⟩
  · exact Sep.of_le (by omega) (by omega) (by omega) (by omega) (by omega)
  · exact Sep.of_le (by omega) (by omega) (by omega) (by omega) (by omega)
  · exact Sep.of_le (by omega) (by omega) (by omega) (by omega) (by omega)
  · exact Sep.of_le (by omega) (by omega) (by omega) (by omega) (by omega)

/-- The two stores that take the block `p` off the list leave other words alone. -/
theorem Machine.read_unlinked (mc : Machine) {p a b : Word} (w : Word) (hb : OffPaging b)
    (hbp : Sep b 4 p 4) (hba : Sep b 4 a 4) :
    (((mc.put p 0).put a w).temp 0).mem.read32 b = mc.mem.read32 b := by
  rw [Machine.temp_read _ hb, Machine.put_mem, Mem.read32_write32_of_sep _ _ hba,
    Machine.put_mem, Mem.read32_write32_of_sep _ _ hbp]

/-- The kernel's page tables, and a list of block headers. -/
structure FreeList (K : KernelImage) (mc : Machine) (l : List Word) : Prop where
  paging : KernelPaging K.kend mc
  list : PmmList K mc.mem l
  header : ∀ p ∈ l, Header K p

namespace FreeList

variable {mc : Machine} {l : List Word}

theorem nodup (h : FreeList K mc l) : l.Nodup := Chain.nodup h.list

/-- The blocks before and after a block of the list are other blocks. -/
theorem others {l₁ l₂ : List Word} {p : Word} (h : FreeList K mc (l₁ ++ p :: l₂)) {q : Word}
    (hq : q ∈ l₁ ++ l₂) : q ∈ l₁ ++ p :: l₂ ∧ q ≠ p := by
  have hnodup := h.nodup
  rw [List.nodup_append] at hnodup
  rcases List.mem_append.mp hq with hq | hq
  · exact ⟨by simp [hq], hnodup.2.2 q hq p (List.mem_cons_self ..)⟩
  · refine ⟨by simp [hq], ?_⟩
    rintro rfl
    exact (List.nodup_cons.mp hnodup.2.1).1 hq

/-- The temporary entry is no part of the list. -/
theorem temp (h : FreeList K mc l) (w : Word) : FreeList K (mc.temp w) l ∧
    ∀ q ∈ l, (mc.temp w).mem.read32 q = mc.mem.read32 q := by
  refine ⟨⟨h.paging.temp K.kend_high w, ?_, h.header⟩, ?_⟩
  · exact h.list.congr (mc.temp_read K.headPhys_off w)
      (fun q hq => mc.temp_read (h.header q hq).off_next w)
  · intro q hq
    exact mc.temp_read (h.header q hq).off_size w

/-- Setting the size of a block. -/
theorem shrink (h : FreeList K mc l) {p : Word} (hpl : p ∈ l) (w : Word) :
    FreeList K ((mc.put p w).temp 0) l ∧ ((mc.put p w).temp 0).mem.read32 p = w ∧
      ∀ q ∈ l, q ≠ p → ((mc.put p w).temp 0).mem.read32 q = mc.mem.read32 q := by
  have hhi := K.kend_high
  have hp := h.header p hpl
  have hread : ∀ a, OffPaging a → Sep a 4 p 4 →
      ((mc.put p w).temp 0).mem.read32 a = mc.mem.read32 a := by
    intro a ha hsep
    rw [Machine.temp_read _ ha, Machine.put_mem, Mem.read32_write32_of_sep _ _ hsep]
  refine ⟨⟨(h.paging.put hhi hp.off_size w).temp hhi 0, ?_, h.header⟩, ?_, ?_⟩
  · refine h.list.congr (hread _ K.headPhys_off hp.head_size) (fun q hq => ?_)
    refine hread _ (h.header q hq).off_next ?_
    by_cases hqp : q = p
    · rw [hqp]
      exact (sep_size_next p).symm
    · exact (sep_headers (h.header q hq) hp hqp).2.2.1
  · rw [Machine.temp_read _ hp.off_size, Machine.put_mem, Mem.read32_write32]
  · intro q hq hqp
    exact hread q (h.header q hq).off_size (sep_headers (h.header q hq) hp hqp).1

/-- Moving the head of the list past the first block. -/
theorem unlink_first {p : Word} (h : FreeList K mc (p :: l)) :
    FreeList K (((mc.put p 0).put K.headPhys (nextOf mc.mem p)).temp 0) l ∧
      ∀ q ∈ l, (((mc.put p 0).put K.headPhys (nextOf mc.mem p)).temp 0).mem.read32 q =
        mc.mem.read32 q := by
  have hhi := K.kend_high
  have hpl : p ∈ p :: l := List.mem_cons_self ..
  have hp := h.header p hpl
  have hhead : (((mc.put p 0).put K.headPhys (nextOf mc.mem p)).temp 0).mem.read32
      K.headPhys = nextOf mc.mem p := by
    rw [Machine.temp_read _ K.headPhys_off, Machine.put_mem, Mem.read32_write32]
  have h' : FreeList K mc ([] ++ p :: l) := h
  refine ⟨⟨((h.paging.put hhi hp.off_size 0).put hhi K.headPhys_off _).temp hhi 0, ?_,
    fun q hq => h.header q (List.mem_cons_of_mem _ hq)⟩, ?_⟩
  · have hchain : Chain (nextOf mc.mem) 0 (nextOf mc.mem p) l := h.list.2.2
    unfold PmmList
    rw [hhead]
    refine hchain.congr (fun q hq => ?_)
    rcases h'.others hq with ⟨hql, hqp⟩
    exact mc.read_unlinked _ (h.header q hql).off_next (sep_headers (h.header q hql) hp hqp).2.2.1
      (h.header q hql).head_next.symm
  · intro q hq
    rcases h'.others hq with ⟨hql, hqp⟩
    exact mc.read_unlinked _ (h.header q hql).off_size (sep_headers (h.header q hql) hp hqp).1
      (h.header q hql).head_size.symm

/-- Linking the block before a block past it. -/
theorem unlink_inner {l₀ l₂ : List Word} {q p : Word}
    (h : FreeList K mc ((l₀ ++ [q]) ++ p :: l₂)) :
    FreeList K (((mc.put p 0).put (q + rangeNext) (nextOf mc.mem p)).temp 0)
        ((l₀ ++ [q]) ++ l₂) ∧
      ∀ r ∈ (l₀ ++ [q]) ++ l₂,
        (((mc.put p 0).put (q + rangeNext) (nextOf mc.mem p)).temp 0).mem.read32 r =
          mc.mem.read32 r := by
  have hhi := K.kend_high
  have hpl : p ∈ (l₀ ++ [q]) ++ p :: l₂ := by simp
  have hql : q ∈ (l₀ ++ [q]) ++ p :: l₂ := by simp
  have hp := h.header p hpl
  have hq := h.header q hql
  -- the link of the block before `p` now goes past it
  have hnext : (((mc.put p 0).put (q + rangeNext) (nextOf mc.mem p)).temp 0).mem.read32
      (q + rangeNext) = nextOf mc.mem p := by
    rw [Machine.temp_read _ hq.off_next, Machine.put_mem, Mem.read32_write32]
  refine ⟨⟨((h.paging.put hhi hp.off_size 0).put hhi hq.off_next _).temp hhi 0, ?_,
    fun r hr => h.header r (h.others hr).1⟩, ?_⟩
  · have hchain : Chain (nextOf mc.mem) 0 (mc.mem.read32 K.headPhys) (l₀ ++ q :: p :: l₂) := by
      have hlist := h.list
      unfold PmmList at hlist
      rwa [List.append_assoc] at hlist
    unfold PmmList
    rw [mc.read_unlinked _ K.headPhys_off hp.head_size hq.head_next, List.append_assoc]
    refine hchain.bypass hnext (fun r hr => ?_)
    have hr' : r ∈ (l₀ ++ [q]) ++ l₂ := by
      rcases List.mem_append.mp hr with hr | hr
      · simp [hr]
      · simp [hr]
    rcases h.others hr' with ⟨hrl, hrp⟩
    have hrq : r ≠ q := by
      have hnodup := hchain.nodup
      rw [List.nodup_append] at hnodup
      rcases List.mem_append.mp hr with hr | hr
      · exact hnodup.2.2 r hr q (List.mem_cons_self ..)
      · rintro rfl
        exact (List.nodup_cons.mp hnodup.2.1).1 (List.mem_cons_of_mem _ hr)
    exact mc.read_unlinked _ (h.header r hrl).off_next
      (sep_headers (h.header r hrl) hp hrp).2.2.1 (sep_headers (h.header r hrl) hq hrq).2.2.2
  · intro r hr
    rcases h.others hr with ⟨hrl, hrp⟩
    refine mc.read_unlinked _ (h.header r hrl).off_size (sep_headers (h.header r hrl) hp hrp).1 ?_
    by_cases hrq : r = q
    · rw [hrq]
      exact sep_size_next q
    · exact (sep_headers (h.header r hrl) hq hrq).2.1

/-- Putting another block of `size` bytes in front. -/
theorem push (h : FreeList K mc l) {p : Word} (hp : Header K p) (hne : p ≠ 0) (hnew : p ∉ l)
    (size : Word) :
    let mc' := (((mc.put (p + rangeNext) (mc.mem.read32 K.headPhys)).put p size).put
      K.headPhys p).temp 0
    FreeList K mc' (p :: l) ∧ mc'.mem.read32 p = size ∧
      ∀ q ∈ l, mc'.mem.read32 q = mc.mem.read32 q := by
  intro mc'
  have hhi := K.kend_high
  have hqp : ∀ q ∈ l, q ≠ p := fun q hq heq => hnew (heq ▸ hq)
  -- the three stores are the link and the size of `p` and the head
  have hread : ∀ a, OffPaging a → Sep a 4 (p + rangeNext) 4 → Sep a 4 p 4 →
      Sep a 4 K.headPhys 4 → mc'.mem.read32 a = mc.mem.read32 a := by
    intro a ha h₁ h₂ h₃
    rw [Machine.temp_read _ ha, Machine.put_mem, Mem.read32_write32_of_sep _ _ h₃,
      Machine.put_mem, Mem.read32_write32_of_sep _ _ h₂, Machine.put_mem,
      Mem.read32_write32_of_sep _ _ h₁]
  have hsize : mc'.mem.read32 p = size := by
    rw [Machine.temp_read _ hp.off_size, Machine.put_mem,
      Mem.read32_write32_of_sep _ _ hp.head_size.symm, Machine.put_mem, Mem.read32_write32]
  have hnext : mc'.mem.read32 (p + rangeNext) = mc.mem.read32 K.headPhys := by
    rw [Machine.temp_read _ hp.off_next, Machine.put_mem,
      Mem.read32_write32_of_sep _ _ hp.head_next.symm, Machine.put_mem,
      Mem.read32_write32_of_sep _ _ (sep_size_next p).symm, Machine.put_mem, Mem.read32_write32]
  have hhead : mc'.mem.read32 K.headPhys = p := by
    rw [Machine.temp_read _ K.headPhys_off, Machine.put_mem, Mem.read32_write32]
  refine ⟨⟨(((h.paging.put hhi hp.off_next _).put hhi hp.off_size _).put hhi
    K.headPhys_off p).temp hhi 0, ?_, ?_⟩, hsize, ?_⟩
  · unfold PmmList
    rw [hhead]
    refine ⟨rfl, hne, ?_⟩
    unfold nextOf
    rw [hnext]
    refine Chain.congr h.list (fun q hq => ?_)
    have hsep := sep_headers (h.header q hq) hp (hqp q hq)
    exact hread _ (h.header q hq).off_next hsep.2.2.2 hsep.2.2.1 (h.header q hq).head_next.symm
  · intro q hq
    rcases List.mem_cons.mp hq with rfl | hq
    · exact hp
    · exact h.header q hq
  · intro q hq
    have hsep := sep_headers (h.header q hq) hp (hqp q hq)
    exact hread q (h.header q hq).off_size hsep.2.1 hsep.1 (h.header q hq).head_size.symm

/-- Stores outside the kernel image, the page tables and the headers of the list. -/
theorem congr_mem (h : FreeList K mc l) {m : Mem}
    (hfixed : ∀ x : Word, x.toNat < K.imageEnd ∨ 0x400000 ≤ x.toNat ∧ x.toNat < 0x800000 →
      m x = mc.mem x)
    (hheader : ∀ q ∈ l, ∀ x : Word, q.toNat ≤ x.toNat → x.toNat < q.toNat + 8 →
      m x = mc.mem x) :
    FreeList K { mc with mem := m } l ∧ ∀ q ∈ l, m.read32 q = mc.mem.read32 q := by
  rcases K.imageEnd_bounds with ⟨hhead, hlow, hend⟩
  have hword : ∀ a : Word, (∀ x : Word, a.toNat ≤ x.toNat → x.toNat < a.toNat + 4 →
      m x = mc.mem x) → a.toNat + 4 ≤ 2 ^ 32 → m.read32 a = mc.mem.read32 a := by
    intro a ha hfits
    exact Mem.read32_congr (ha _ (by bv_omega) (by bv_omega)) (ha _ (by bv_omega) (by bv_omega))
      (ha _ (by bv_omega) (by bv_omega)) (ha _ (by bv_omega) (by bv_omega))
  have hnat : ∀ q ∈ l, q.toNat + 8 ≤ 2 ^ 32 ∧ (q + rangeNext).toNat = q.toNat + 4 := by
    intro q hq
    have halign := (h.header q hq).aligned
    have hlt := q.isLt
    unfold rangeNext
    constructor
    · omega
    · bv_omega
  refine ⟨⟨⟨h.paging.cr3, ?_, ?_⟩, ?_, h.header⟩, ?_⟩
  · refine TableMaps.congr (Nat.le_refl 1024) h.paging.dir (fun x hx => hfixed x ?_)
    unfold kernelDirectory at hx
    bv_omega
  · have hpages := kernelPages_le K.kend_high
    refine TableMaps.congr hpages h.paging.table (fun x hx => hfixed x ?_)
    unfold kernelTable at hx
    bv_omega
  · refine h.list.congr (hword _ (fun x hlo hhi => hfixed x (by omega)) (by omega))
      (fun q hq => ?_)
    have hq' := hnat q hq
    exact hword _ (fun x hlo hhi => hheader q hq x (by omega) (by omega)) (by omega)
  · intro q hq
    have hq' := hnat q hq
    exact hword _ (fun x hlo hhi => hheader q hq x (by omega) (by omega)) (by omega)

end FreeList

/-! ## The search -/

/-- The comparison of the search: `jge` after the size has been subtracted. -/
def taken (m : Mem) (n p : Word) : Bool := !(m.read32 p).slt (n <<< 12)

/-- Block `p` has the size `w` now; the list is the same. -/
structure Shortened (K : KernelImage) (mc : Machine) (l : List Word) (p w : Word)
    (mc' : Machine) : Prop where
  free : FreeList K mc' l
  size : mc'.mem.read32 p = w
  others : ∀ q ∈ l, q ≠ p → mc'.mem.read32 q = mc.mem.read32 q

/-- Block `p` is off the list. -/
structure Unlinked (K : KernelImage) (mc : Machine) (l : List Word) (p : Word)
    (mc' : Machine) : Prop where
  free : FreeList K mc' (l.erase p)
  others : ∀ q ∈ l, q ≠ p → mc'.mem.read32 q = mc.mem.read32 q

/-- What `pmm_alloc` returns and leaves when it comes to the end of the list, or takes
the end of block `p`. -/
def AllocLeaves (K : KernelImage) (mc : Machine) (l : List Word) (n : Word) (r : PmmResult) :
    Option Word → Prop
  | none => r.eax = 0 ∧ r.edx = enomem ∧ ∃ w, r.mc = mc.temp w
  | some p =>
      r.eax = p + (mc.mem.read32 p - n <<< 12) ∧ r.edx = 0 ∧
        (mc.mem.read32 p ≠ n <<< 12 ∧ Shortened K mc l p (mc.mem.read32 p - n <<< 12) r.mc ∨
          mc.mem.read32 p = n <<< 12 ∧ Unlinked K mc l p r.mc)

section Search

variable {mc : Machine} (h : KernelPaging K.kend mc)

include h

/-- One pass of the search at a block. -/
theorem pmmAllocBody_block {p : Word} (hp : Header K p) (hne : p ≠ 0) (edi ebx w : Word) :
    pmmAllocBody edi (mc.temp w, p, ebx, p) =
      if (mc.mem.read32 p).slt edi then
        some (.again (mc.temp 0, nextOf mc.mem p, p, nextOf mc.mem p))
      else
        some (.done (mc.temp (p ||| 3), some (mc.mem.read32 p - edi, ebx, p))) := by
  have hhi := K.kend_high
  rw [pmmAllocBody, if_neg hne]
  unfold nextOf
  simp only [h.map hhi, Option.bind_eq_bind, Option.bind_some, h.load_size hp]
  by_cases hlt : (mc.mem.read32 p).slt edi = true
  · simp only [hlt, not_true_eq_false, if_false, if_true, h.load_next hp, Option.bind_some,
      h.unmap hhi]
    rfl
  · rw [if_pos hlt, if_neg hlt]
    rfl

/-- The search ends, either behind the last block, all blocks being too small, or at
the first block that is large enough. -/
theorem pmmAlloc_search {l : List Word} (hl : PmmList K mc.mem l) (hhdr : ∀ p ∈ l, Header K p)
    (edi w : Word) {fuel : Nat} (hf : l.length < fuel) :
    ∃ r, iterate (pmmAllocBody edi) fuel
        (mc.temp w, mc.mem.read32 K.headPhys, 0, mc.mem.read32 K.headPhys) = some r ∧
      ((∃ w', r = (mc.temp w', none)) ∧ (∀ p ∈ l, (mc.mem.read32 p).slt edi) ∨
        ∃ l₁ p l₂, l = l₁ ++ p :: l₂ ∧ (∀ q ∈ l₁, (mc.mem.read32 q).slt edi) ∧
          (mc.mem.read32 p).slt edi = false ∧
          r = (mc.temp (p ||| 3), some (mc.mem.read32 p - edi, l₁.getLast?.getD 0, p))) := by
  have hstart : ∃ w' l₁ l₂ a, (mc.temp w, mc.mem.read32 K.headPhys, (0 : Word),
        mc.mem.read32 K.headPhys) = (mc.temp w', a, l₁.getLast?.getD 0, a) ∧
      l = l₁ ++ l₂ ∧ l.length = l₂.length ∧ Chain (nextOf mc.mem) 0 a l₂ ∧
      ∀ q ∈ l₁, (mc.mem.read32 q).slt edi :=
    ⟨w, [], l, _, rfl, rfl, rfl, hl, by simp⟩
  -- the blocks passed so far are too small; the measure is the number of those to come
  refine iterate_total
    (fun k s => ∃ w' l₁ l₂ a, s = (mc.temp w', a, l₁.getLast?.getD 0, a) ∧
      l = l₁ ++ l₂ ∧ k = l₂.length ∧ Chain (nextOf mc.mem) 0 a l₂ ∧
      ∀ q ∈ l₁, (mc.mem.read32 q).slt edi) _ ?_ hstart hf
  rintro k s ⟨w', l₁, l₂, a, rfl, rfl, rfl, hchain, hsmall⟩
  cases l₂ with
  | nil =>
      left
      have ha : a = 0 := hchain
      refine ⟨(mc.temp w', none), ?_, Or.inl ⟨⟨w', rfl⟩, by simpa using hsmall⟩⟩
      rw [pmmAllocBody, if_pos ha]
  | cons p l₂ =>
      rcases hchain with ⟨rfl, hne, hnext⟩
      rw [pmmAllocBody_block h (hhdr a (by simp)) hne]
      by_cases hlt : (mc.mem.read32 a).slt edi = true
      · right
        refine ⟨_, l₂.length, if_pos hlt, by simp, 0, l₁ ++ [a], l₂, _, ?_, by simp, rfl, hnext,
          ?_⟩
        · simp
        · intro q hq
          rcases List.mem_append.mp hq with hq | hq
          · exact hsmall q hq
          · rw [List.mem_singleton.mp hq]
            exact hlt
      · left
        exact ⟨_, if_neg hlt, Or.inr ⟨l₁, a, l₂, rfl, hsmall, by simpa using hlt, rfl⟩⟩

end Search

/-- What `pmm_alloc` does with the first block that its comparison takes. -/
theorem pmmAlloc_spec {mc : Machine} {l : List Word} (hl : FreeList K mc l) (n : Word) (regs : SavedRegs)
    {fuel : Nat} (hf : l.length < fuel) :
    ∃ r, pmmAlloc K fuel mc n regs = some r ∧ AllocLeaves K mc l n r (l.find? (taken mc.mem n)) := by
  have hload := hl.paging.load_head (mc.mem.read32 tempEntry)
  rw [mc.temp_self] at hload
  rcases pmmAlloc_search hl.paging hl.list hl.header (n <<< 12) (mc.mem.read32 tempEntry) hf with
    ⟨s, hs, hcases⟩
  rw [mc.temp_self] at hs
  unfold pmmAlloc
  simp only [hload, Option.bind_eq_bind, Option.bind_some, hs]
  rcases hcases with ⟨⟨w, rfl⟩, hsmall⟩ | ⟨l₁, p, l₂, rfl, hbefore, hfit, rfl⟩
  · have hnone : l.find? (taken mc.mem n) = none := by
      rw [List.find?_eq_none]
      intro q hq
      simp [taken, hsmall q hq]
    rw [hnone]
    exact ⟨_, rfl, rfl, rfl, w, rfl⟩
  · have hp := hl.header p (by simp)
    have hpl : p ∈ l₁ ++ p :: l₂ := by simp
    have hsome : (l₁ ++ p :: l₂).find? (taken mc.mem n) = some p := by
      rw [List.find?_eq_some_iff_append]
      refine ⟨by simp [taken, hfit], l₁, l₂, rfl, ?_⟩
      intro q hq
      simp [taken, hbefore q hq]
    -- `p` is on the list once
    have hnot : p ∉ l₁ := by
      intro hmem
      exact (hl.others (List.mem_append_left _ hmem)).2 rfl
    have herase : (l₁ ++ p :: l₂).erase p = l₁ ++ l₂ := by
      rw [List.erase_append_right _ hnot, List.erase_cons_head]
    have hmem : ∀ q ∈ l₁ ++ p :: l₂, q ≠ p → q ∈ l₁ ++ l₂ := by
      intro q hq hqp
      rw [← herase]
      exact (List.mem_erase_of_ne hqp).mpr hq
    rw [hsome]
    dsimp only
    -- a block of just the size leaves the list, a longer one is cut
    by_cases heq : mc.mem.read32 p = n <<< 12
    · have hzero : mc.mem.read32 p - n <<< 12 = 0 := by
        rw [heq]
        bv_omega
      rw [hzero]
      rcases List.eq_nil_or_concat' l₁ with rfl | ⟨l₀, q, rfl⟩
      · have hfound := pmmAllocFound_first hl.paging hp
        rcases FreeList.unlink_first hl with ⟨hfree, hsame⟩
        simp only [List.getLast?_nil, Option.getD_none, hfound, Option.bind_some]
        refine ⟨_, rfl, by rw [hzero], rfl, Or.inr ⟨heq, ?_, ?_⟩⟩
        · rw [herase]
          exact hfree
        · intro r hr hrp
          exact hsame r (hmem r hr hrp)
      · have hne : q ≠ 0 := Chain.ne_nil hl.list q (by simp)
        have hfound := pmmAllocFound_inner hl.paging hp (hl.header q (by simp)) hne
        have hlast : (l₀ ++ [q]).getLast?.getD 0 = q := by simp
        rcases hl.unlink_inner with ⟨hfree, hsame⟩
        simp only [hlast, hfound, Option.bind_some]
        refine ⟨_, rfl, by rw [hzero], rfl, Or.inr ⟨heq, ?_, ?_⟩⟩
        · rw [herase]
          exact hfree
        · intro r hr hrp
          exact hsame r (hmem r hr hrp)
    · have hne : mc.mem.read32 p - n <<< 12 ≠ 0 := by
        intro h0
        exact heq (by bv_omega)
      rcases hl.shrink hpl (mc.mem.read32 p - n <<< 12) with ⟨hfree, hsize, hsame⟩
      simp only [pmmAllocFound_tail hl.paging hp hne, Option.bind_some]
      exact ⟨_, rfl, rfl, rfl, Or.inl ⟨heq, hfree, hsize, hsame⟩⟩

/-- More fuel does not change what `pmm_alloc` returns. -/
theorem pmmAlloc_mono {n m : Nat} (hnm : n ≤ m) {mc : Machine} {eax : Word} {regs : SavedRegs}
    {r : PmmResult} (hr : pmmAlloc K n mc eax regs = some r) : pmmAlloc K m mc eax regs = some r := by
  unfold pmmAlloc at *
  cases hload : mc.load32 K.pPmmFreeListHead with
  | none =>
      rw [hload] at hr
      cases hr
  | some head =>
      rw [hload] at hr
      simp only [Option.bind_eq_bind, Option.bind_some] at hr ⊢
      cases hs : iterate (pmmAllocBody (eax <<< 12)) n (mc, head, 0, head) with
      | none =>
          rw [hs] at hr
          cases hr
      | some s =>
          rw [iterate_mono hnm hs]
          rw [hs] at hr
          exact hr

end StupidOS.Kernel
