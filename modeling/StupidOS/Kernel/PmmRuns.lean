import StupidOS.Lib.Run
import StupidOS.Kernel.PmmList
import Mathlib.Data.List.Pairwise

/-!
# Runs of the page allocator

The blocks on the free list and the blocks handed out together parcel out the
memory that `pmm_init` found (`PmmInv`): they are pairwise apart, lie outside the
kernel image and the page tables, and their lengths add up to a constant. The steps
keep this for any kind of block that a header fits in and that can be cut (`Divisible`).
-/

namespace StupidOS.Kernel

/-- A block handed out: its address and its number of pages. -/
def heldBlock (b : Word × Word) : Extent := ⟨b.1.toNat, 4096 * b.2.toNat⟩

variable (K : KernelImage)

/-- Whole pages outside the kernel image and the window of the page tables. -/
structure Allocatable (e : Extent) : Prop where
  base : e.base % 4096 = 0
  len : e.len % 4096 = 0
  pos : 0 < e.len
  small : e.len < 2 ^ 31
  place : K.imageEnd ≤ e.base ∧ e.base + e.len ≤ 0x400000 ∨
    0x800000 ≤ e.base ∧ e.base + e.len ≤ 2 ^ 32

theorem Allocatable.of_place {K : KernelImage} {b n : Nat} (hb : b % 4096 = 0) (hn : n % 4096 = 0)
    (hpos : 0 < n) (hsmall : n < 2 ^ 31)
    (hplace : K.imageEnd ≤ b ∧ b + n ≤ 0x400000 ∨ 0x800000 ≤ b ∧ b + n ≤ 2 ^ 32) :
    Allocatable K ⟨b, n⟩ :=
  ⟨hb, hn, hpos, hsmall, hplace⟩

variable {K}

theorem Allocatable.header {p : Word} {len : Nat} (h : Allocatable K ⟨p.toNat, len⟩) :
    Header K p := by
  have hplace := h.place
  have hbase := h.base
  have hlen := h.len
  have hpos := h.pos
  rcases K.imageEnd_bounds with ⟨hhead, hlow, hend⟩
  have hnext : (p + rangeNext).toNat = p.toNat + 4 := by
    unfold rangeNext
    dsimp only at hplace hlen hpos
    bv_omega
  dsimp only at hplace hbase hlen hpos
  refine ⟨hbase, ?_, ?_, ?_, ?_⟩
  · unfold OffPaging
    omega
  · unfold OffPaging
    omega
  · exact Sep.of_le (by omega) (by omega) (by omega) (by omega) (by omega)
  · exact Sep.of_le (by omega) (by omega) (by omega) (by omega) (by omega)

/-! ## The invariant -/

/-- The machine, and the blocks handed out and not yet given back: address and
number of pages. -/
structure PmmState where
  mc : Machine
  out : List (Word × Word)

/-- The blocks `l` are on the free list, and with the blocks handed out they parcel
out `total` bytes. -/
structure PmmInv (K : KernelImage) (total : Nat) (s : PmmState) (l : List Word) : Prop where
  paging : KernelPaging K.kend s.mc
  list : PmmList K s.mc.mem l
  parcels : Parcels (Allocatable K) total (l.map (blockAt s.mc.mem) ++ s.out.map heldBlock)

/-- What the steps of the allocator need of the blocks: a header fits in, the signed
comparison is right about the size, and an end that is cut off is a block again. -/
structure Divisible (K : KernelImage) (good : Extent → Prop) : Prop where
  header : ∀ {p : Word} {n : Nat}, good ⟨p.toNat, n⟩ → Header K p
  small : ∀ {e : Extent}, good e → e.len < 2 ^ 31
  place : ∀ {e : Extent}, good e → K.imageEnd ≤ e.base ∧ e.base + e.len ≤ 0x400000 ∨
    0x800000 ≤ e.base ∧ e.base + e.len ≤ 2 ^ 32
  cut : ∀ {b k n : Nat}, good ⟨b, k + 4096 * n⟩ → 0 < k → 0 < n →
    good ⟨b, k⟩ ∧ good ⟨b + k, 4096 * n⟩
  /-- The header of a block lies outside the others, even if the block is empty. -/
  room : ∀ {e f : Extent}, good e → good f → 0 < f.len → e.Apart f →
    e.base + 8 ≤ f.base ∨ f.base + f.len ≤ e.base

theorem Allocatable.divisible (K : KernelImage) : Divisible K (Allocatable K) := by
  refine ⟨Allocatable.header, Allocatable.small, Allocatable.place, ?_, ?_⟩
  · intro b k n h hk hn
    rcases h with ⟨hbase, hlen, hpos, hsmall, hplace⟩
    dsimp only at hbase hlen hpos hsmall hplace
    exact ⟨Allocatable.of_place hbase (by omega) hk (by omega) (by omega),
      Allocatable.of_place (by omega) (by omega) (by omega) (by omega) (by omega)⟩
  · intro e f he _ _ hapart
    have hlen := he.len
    have hpos := he.pos
    unfold Extent.Apart at hapart
    omega

/-- The free blocks `l` and the blocks handed out parcel out `total` bytes. -/
structure Tiled (K : KernelImage) (good : Extent → Prop) (total : Nat) (s : PmmState)
    (l : List Word) : Prop where
  free : FreeList K s.mc l
  parcels : Parcels good total (l.map (blockAt s.mc.mem) ++ s.out.map heldBlock)

theorem PmmInv.tiled {total : Nat} {s : PmmState} {l : List Word} (h : PmmInv K total s l) :
    Tiled K (Allocatable K) total s l := by
  refine ⟨⟨h.paging, h.list, ?_⟩, h.parcels⟩
  intro p hp
  exact (h.parcels.good _ (List.mem_append_left _ (List.mem_map_of_mem hp))).header

theorem Tiled.pmmInv {total : Nat} {s : PmmState} {l : List Word}
    (h : Tiled K (Allocatable K) total s l) : PmmInv K total s l :=
  ⟨h.free.paging, h.free.list, h.parcels⟩

namespace Tiled

variable {good : Extent → Prop} {total : Nat} {s : PmmState} {l : List Word}

theorem good_free (h : Tiled K good total s l) {p : Word} (hp : p ∈ l) :
    good (blockAt s.mc.mem p) :=
  h.parcels.good _ (List.mem_append_left _ (List.mem_map_of_mem hp))

theorem good_out (h : Tiled K good total s l) {b : Word × Word} (hb : b ∈ s.out) :
    good (heldBlock b) :=
  h.parcels.good _ (List.mem_append_right _ (List.mem_map_of_mem hb))

/-- The temporary entry is no part of the allocator's state. -/
theorem temp (h : Tiled K good total s l) (w : Word) :
    Tiled K good total ⟨s.mc.temp w, s.out⟩ l := by
  rcases h.free.temp w with ⟨hfree, hsame⟩
  refine ⟨hfree, ?_⟩
  rw [map_blockAt_congr hsame]
  exact h.parcels

/-- Cutting the end off a free block. -/
theorem shorten (hgood : Divisible K good) (h : Tiled K good total s l) {p w n : Word}
    {mc : Machine} (hpl : p ∈ l) (hw : 0 < w.toNat) (hn : 0 < n.toNat)
    (hsize : (s.mc.mem.read32 p).toNat = w.toNat + 4096 * n.toNat)
    (hmc : Shortened K s.mc l p w mc) : Tiled K good total ⟨mc, (p + w, n) :: s.out⟩ l := by
  refine ⟨hmc.free, ?_⟩
  have hblock : blockAt s.mc.mem p = ⟨p.toNat, w.toNat + 4096 * n.toNat⟩ := by
    unfold blockAt
    rw [hsize]
  have hpgood := h.good_free hpl
  rw [hblock] at hpgood
  have hplace := hgood.place hpgood
  dsimp only at hplace
  rcases K.imageEnd_bounds with ⟨hhead, hlow, hend⟩
  have hlast : heldBlock (p + w, n) = ⟨p.toNat + w.toNat, 4096 * n.toNat⟩ := by
    unfold heldBlock
    congr 1
    bv_omega
  have hfirst : blockAt mc.mem p = ⟨p.toNat, w.toNat⟩ := by
    unfold blockAt
    rw [hmc.size]
  rcases List.append_of_mem hpl with ⟨l₁, l₂, rfl⟩
  have hsame : ∀ q ∈ l₁ ++ l₂, mc.mem.read32 q = s.mc.mem.read32 q := by
    intro q hq
    rcases h.free.others hq with ⟨hql, hqp⟩
    exact hmc.others q hql hqp
  -- the end of the block goes out, the rest stays
  rcases hgood.cut hpgood hw hn with ⟨hk, hcut⟩
  have hpar := h.parcels
  rw [List.map_append, List.map_cons, hblock] at hpar
  have hsplit := hpar.split_at hk hcut
  rw [List.map_append, List.map_cons, List.map_cons, hlast, hfirst,
    map_blockAt_congr (fun q hq => hsame q (List.mem_append_left _ hq)),
    map_blockAt_congr (fun q hq => hsame q (List.mem_append_right _ hq))]
  exact hsplit

/-- Handing out a whole block. -/
theorem unlink (h : Tiled K good total s l) {p n : Word} {mc : Machine} (hpl : p ∈ l)
    (hsize : (s.mc.mem.read32 p).toNat = 4096 * n.toNat) (hmc : Unlinked K s.mc l p mc) :
    Tiled K good total ⟨mc, (p, n) :: s.out⟩ (l.erase p) := by
  refine ⟨hmc.free, ?_⟩
  have hblock : heldBlock (p, n) = blockAt s.mc.mem p := by
    unfold heldBlock blockAt
    rw [hsize]
  have hsame : ∀ q ∈ l.erase p, mc.mem.read32 q = s.mc.mem.read32 q := by
    intro q hq
    have hqp : q ≠ p := by
      rintro rfl
      exact h.free.nodup.not_mem_erase hq
    exact hmc.others q (List.mem_of_mem_erase hq) hqp
  rcases List.append_of_mem hpl with ⟨l₁, l₂, rfl⟩
  have hnot : p ∉ l₁ := by
    intro hmem
    exact (h.free.others (List.mem_append_left _ hmem)).2 rfl
  rw [List.erase_append_right _ hnot, List.erase_cons_head] at hsame ⊢
  have hpar := h.parcels
  rw [List.map_append, List.map_cons] at hpar
  rw [map_blockAt_congr hsame, List.map_append, List.map_cons, hblock]
  exact hpar.move

theorem eq_add_of_not_slt {x y : Word} (hx : x.toNat < 2 ^ 31) (hy : y.toNat < 2 ^ 31)
    (h : x.slt y = false) : x.toNat = (x - y).toNat + y.toNat := by
  rw [slt_of_lt hx hy, decide_eq_false_iff_not] at h
  bv_omega

/-- `pmm_alloc`: it returns, and either fails and changes nothing, or hands out pages. No
count of 2^19 pages or more is to be taken for a small one. -/
theorem alloc (hgood : Divisible K good) (h : Tiled K good total s l) {n : Word}
    (hn : 1 ≤ n.toNat) (hcount : ∀ p, l.find? (taken s.mc.mem n) = some p → n.toNat < 2 ^ 19)
    (regs : SavedRegs) {fuel : Nat} (hf : l.length < fuel) :
    ∃ r, pmmAlloc K fuel s.mc n regs = some r ∧
      ((r.eax = 0 ∧ r.edx = enomem ∧ ∃ w, r.mc = s.mc.temp w) ∨
        (r.eax ≠ 0 ∧ n.toNat < 2 ^ 19 ∧
          ∃ l', Tiled K good total ⟨r.mc, (r.eax, n) :: s.out⟩ l')) := by
  rcases pmmAlloc_spec h.free n regs hf with ⟨r, hr, hleaves⟩
  refine ⟨r, hr, ?_⟩
  cases hfind : l.find? (taken s.mc.mem n) with
  | none =>
      rw [hfind] at hleaves
      exact Or.inl hleaves
  | some p =>
      right
      rw [hfind] at hleaves
      rcases hleaves with ⟨heax, -, hcases⟩
      have hlt := hcount p hfind
      have hpl := List.mem_of_find?_eq_some hfind
      have htaken : taken s.mc.mem n p = true := List.find?_some hfind
      have hshift : (n <<< 12).toNat = 4096 * n.toNat := by
        rw [BitVec.toNat_shiftLeft, Nat.shiftLeft_eq]
        omega
      have hsmall : (s.mc.mem.read32 p).toNat < 2 ^ 31 := hgood.small (h.good_free hpl)
      have hfit : (s.mc.mem.read32 p).slt (n <<< 12) = false := by simpa [taken] using htaken
      have hsize := eq_add_of_not_slt hsmall (by omega) hfit
      rw [hshift] at hsize
      have hplace : K.imageEnd ≤ p.toNat ∧ p.toNat + (s.mc.mem.read32 p).toNat ≤ 0x400000 ∨
        0x800000 ≤ p.toNat ∧ p.toNat + (s.mc.mem.read32 p).toNat ≤ 2 ^ 32 :=
        hgood.place (h.good_free hpl)
      rcases K.imageEnd_bounds with ⟨hhead, hlow, hend⟩
      refine ⟨?_, hlt, ?_⟩
      · -- the block does not lie at 0, nor does its end
        rw [heax]
        intro h0
        bv_omega
      · rw [heax]
        rcases hcases with ⟨hne, hmc⟩ | ⟨heq, hmc⟩
        · have hw : 0 < (s.mc.mem.read32 p - n <<< 12).toNat := by
            rw [Nat.pos_iff_ne_zero]
            intro h0
            exact hne (BitVec.eq_of_toNat_eq (by omega))
          exact ⟨_, h.shorten hgood hpl hw (by omega) hsize hmc⟩
        · have hzero : p + (s.mc.mem.read32 p - n <<< 12) = p := by
            rw [heq]
            bv_omega
          rw [hzero]
          exact ⟨_, h.unlink hpl (by rw [heq, hshift]) hmc⟩

/-- Putting a block of `size` bytes, apart from those on the list, in front of it. -/
theorem push (hgood : Divisible K good) (h : Tiled K good total s l) {p size : Word}
    (hp : good ⟨p.toNat, size.toNat⟩) (hnew : p ∉ l) :
    let mc := (((s.mc.put (p + rangeNext) (s.mc.mem.read32 K.headPhys)).put p size).put
      K.headPhys p).temp 0
    FreeList K mc (p :: l) ∧
      (p :: l).map (blockAt mc.mem) = ⟨p.toNat, size.toNat⟩ :: l.map (blockAt s.mc.mem) := by
  intro mc
  have hne : p ≠ 0 := by
    have hplace := hgood.place hp
    rcases K.imageEnd_bounds with ⟨hheadb, hlow, -⟩
    rintro rfl
    change K.imageEnd ≤ 0 ∧ _ ∨ 0x800000 ≤ 0 ∧ _ at hplace
    omega
  rcases h.free.push (hgood.header hp) hne hnew size with ⟨hfree, hsize, hsame⟩
  refine ⟨hfree, ?_⟩
  rw [List.map_cons, map_blockAt_congr hsame]
  congr 1
  unfold blockAt
  rw [hsize]

/-- `pmm_free` of a block handed out puts it back in front. -/
theorem giveBack (hgood : Divisible K good) (h : Tiled K good total s l) {p n : Word}
    (hb : (p, n) ∈ s.out) (hn : 0 < n.toNat) (hn' : n.toNat < 2 ^ 19) (regs : SavedRegs) :
    ∃ mc regs', pmmFree K s.mc p n regs = some (mc, regs') ∧
      Tiled K good total ⟨mc, s.out.erase (p, n)⟩ (p :: l) := by
  have hshift : (n <<< 12).toNat = 4096 * n.toNat := by
    rw [BitVec.toNat_shiftLeft, Nat.shiftLeft_eq]
    omega
  have hheld := h.good_out hb
  have hal : good ⟨p.toNat, (n <<< 12).toNat⟩ := by
    rw [hshift]
    exact hheld
  -- a block that is out is not on the list
  have hnew : p ∉ l := by
    intro hpl
    have hapart := h.parcels.apart_of_append (List.mem_map_of_mem hpl)
      (List.mem_map_of_mem (f := heldBlock) hb)
    have hpos : 0 < (heldBlock (p, n)).len := by
      unfold heldBlock
      dsimp only
      omega
    have hroom := hgood.room (h.good_free hpl) hheld hpos hapart
    unfold blockAt heldBlock at hroom
    dsimp only at hroom
    omega
  rcases h.push hgood hal hnew with ⟨hfree, hblocks⟩
  refine ⟨_, _, pmmFree_eq h.free.paging (hgood.header hal) n regs, hfree, ?_⟩
  rw [hblocks, hshift]
  have hperm := (List.perm_cons_erase hb).map heldBlock
  refine h.parcels.perm ((List.Perm.append_left _ hperm).trans ?_)
  exact List.perm_middle

/-- Stores into blocks that have been handed out. -/
theorem write (hgood : Divisible K good) (h : Tiled K good total s l) {m : Mem}
    (hm : ∀ x : Word, (∀ b ∈ s.out, ¬ (b.1.toNat ≤ x.toNat ∧
      x.toNat < b.1.toNat + 4096 * b.2.toNat)) → m x = s.mc.mem x) :
    Tiled K good total ⟨{ s.mc with mem := m }, s.out⟩ l := by
  -- no block handed out covers a byte of the kernel, the tables or a header
  have hplace : ∀ b ∈ s.out, K.imageEnd ≤ b.1.toNat ∧
      b.1.toNat + 4096 * b.2.toNat ≤ 0x400000 ∨ 0x800000 ≤ b.1.toNat :=
    fun b hb => (hgood.place (h.good_out hb)).imp id And.left
  rcases K.imageEnd_bounds with ⟨-, -, hend⟩
  have hfixed : ∀ x : Word, x.toNat < K.imageEnd ∨ 0x400000 ≤ x.toNat ∧ x.toNat < 0x800000 →
      m x = s.mc.mem x := by
    intro x hx
    refine hm x (fun b hb hin => ?_)
    have hb' := hplace b hb
    omega
  have hheader : ∀ q ∈ l, ∀ x : Word, q.toNat ≤ x.toNat → x.toNat < q.toNat + 8 →
      m x = s.mc.mem x := by
    intro q hq x hlo hhi
    refine hm x (fun b hb hin => ?_)
    have hapart := h.parcels.apart_of_append (List.mem_map_of_mem hq)
      (List.mem_map_of_mem (f := heldBlock) hb)
    have hpos : 0 < (heldBlock b).len := by
      unfold heldBlock
      dsimp only
      omega
    have hroom := hgood.room (h.good_free hq) (h.good_out hb) hpos hapart
    unfold blockAt heldBlock at hroom
    dsimp only at hroom
    omega
  rcases h.free.congr_mem hfixed hheader with ⟨hfree, hsame⟩
  refine ⟨hfree, ?_⟩
  dsimp only
  rw [map_blockAt_congr hsame]
  exact h.parcels

end Tiled

namespace PmmInv

variable {total : Nat} {s : PmmState} {l : List Word}

theorem allocatable (h : PmmInv K total s l) {p : Word} (hp : p ∈ l) :
    Allocatable K (blockAt s.mc.mem p) :=
  h.tiled.good_free hp

theorem allocatable_out (h : PmmInv K total s l) {b : Word × Word} (hb : b ∈ s.out) :
    Allocatable K (heldBlock b) :=
  h.tiled.good_out hb

/-- The temporary entry is no part of the allocator's state. -/
theorem temp (h : PmmInv K total s l) (w : Word) : PmmInv K total ⟨s.mc.temp w, s.out⟩ l :=
  (h.tiled.temp w).pmmInv

/-- `pmm_alloc`: it returns, and either fails and changes nothing, or hands out pages. -/
theorem alloc (h : PmmInv K total s l) {n : Word} (hn : 1 ≤ n.toNat) (hn' : n.toNat < 2 ^ 19)
    (regs : SavedRegs) {fuel : Nat} (hf : l.length < fuel) :
    ∃ r, pmmAlloc K fuel s.mc n regs = some r ∧
      ((r.eax = 0 ∧ r.edx = enomem ∧ ∃ w, r.mc = s.mc.temp w) ∨
        (r.eax ≠ 0 ∧ ∃ l', PmmInv K total ⟨r.mc, (r.eax, n) :: s.out⟩ l')) := by
  rcases h.tiled.alloc (Allocatable.divisible K) hn (fun _ _ => hn') regs hf with ⟨r, hr, hcases⟩
  refine ⟨r, hr, ?_⟩
  rcases hcases with hfail | ⟨heax, -, l', hl'⟩
  · exact Or.inl hfail
  · exact Or.inr ⟨heax, l', hl'.pmmInv⟩

/-- `pmm_free` of a block handed out puts it back in front. -/
theorem free (h : PmmInv K total s l) {p n : Word} (hb : (p, n) ∈ s.out) (hn : n.toNat < 2 ^ 19)
    (regs : SavedRegs) :
    ∃ mc regs', pmmFree K s.mc p n regs = some (mc, regs') ∧
      PmmInv K total ⟨mc, s.out.erase (p, n)⟩ (p :: l) := by
  have hpos : 0 < 4096 * n.toNat := (h.allocatable_out hb).pos
  rcases h.tiled.giveBack (Allocatable.divisible K) hb (by omega) hn regs with
    ⟨mc, regs', hres, htiled⟩
  exact ⟨mc, regs', hres, htiled.pmmInv⟩

/-- Stores into blocks that have been handed out. -/
theorem write (h : PmmInv K total s l) {m : Mem}
    (hm : ∀ x : Word, (∀ b ∈ s.out, ¬ (b.1.toNat ≤ x.toNat ∧
      x.toNat < b.1.toNat + 4096 * b.2.toNat)) → m x = s.mc.mem x) :
    PmmInv K total ⟨{ s.mc with mem := m }, s.out⟩ l :=
  (h.tiled.write (Allocatable.divisible K) hm).pmmInv

end PmmInv

/-! ## Runs -/

/-- What callers may do: allocate and give back blocks, and store into the pages of
the blocks they hold. -/
inductive PmmOp where
  | alloc (n : Word)
  | free (p n : Word)
  | write (m : Mem)

variable (K)

/-- One operation. A call uses some fuel and starts with some saved registers. -/
def pmmStep (s : PmmState) (op : PmmOp) (s' : PmmState) : Prop :=
  match op with
  | .alloc n =>
      1 ≤ n.toNat ∧ n.toNat < 2 ^ 19 ∧ ∃ fuel regs r, pmmAlloc K fuel s.mc n regs = some r ∧
        s' = ⟨r.mc, if r.eax = 0 then s.out else (r.eax, n) :: s.out⟩
  | .free p n =>
      (p, n) ∈ s.out ∧ ∃ regs mc regs', pmmFree K s.mc p n regs = some (mc, regs') ∧
        s' = ⟨mc, s.out.erase (p, n)⟩
  | .write m =>
      (∀ x : Word, (∀ b ∈ s.out, ¬ (b.1.toNat ≤ x.toNat ∧
        x.toNat < b.1.toNat + 4096 * b.2.toNat)) → m x = s.mc.mem x) ∧
      s' = ⟨{ s.mc with mem := m }, s.out⟩

/-- The invariant, with the page counts of the blocks handed out. -/
def PmmReach (total : Nat) (s : PmmState) : Prop :=
  (∃ l, PmmInv K total s l) ∧ ∀ b ∈ s.out, b.2.toNat < 2 ^ 19

variable {K}

theorem pmmStep_reach {total : Nat} (s : PmmState) (op : PmmOp) (s' : PmmState)
    (h : PmmReach K total s) (hstep : pmmStep K s op s') : PmmReach K total s' := by
  rcases h with ⟨⟨l, hinv⟩, hcount⟩
  cases op with
  | alloc n =>
      rcases hstep with ⟨hn, hn', fuel, regs, r, hr, rfl⟩
      -- the same call with fuel for the whole list
      have hbig := pmmAlloc_mono (Nat.le_max_left fuel (l.length + 1)) hr
      rcases hinv.alloc hn hn' regs (show l.length < max fuel (l.length + 1) by omega) with
        ⟨r', hr', hcases⟩
      obtain rfl : r = r' := Option.some.inj (hbig.symm.trans hr')
      rcases hcases with ⟨heax, -, w, hmc⟩ | ⟨heax, l', hinv'⟩
      · rw [if_pos heax, hmc]
        exact ⟨⟨l, hinv.temp w⟩, hcount⟩
      · rw [if_neg heax]
        refine ⟨⟨l', hinv'⟩, ?_⟩
        intro b hb
        rcases List.mem_cons.mp hb with rfl | hb
        · exact hn'
        · exact hcount b hb
  | free p n =>
      rcases hstep with ⟨hb, regs, mc, regs', hr, rfl⟩
      rcases hinv.free hb (hcount _ hb) regs with ⟨mc', regs'', hr', hinv'⟩
      obtain ⟨rfl, rfl⟩ := Prod.mk.inj (Option.some.inj (hr.symm.trans hr'))
      exact ⟨⟨_, hinv'⟩, fun b hb' => hcount b (List.mem_of_mem_erase hb')⟩
  | write m =>
      rcases hstep with ⟨hm, rfl⟩
      exact ⟨⟨l, hinv.write hm⟩, hcount⟩

end StupidOS.Kernel
