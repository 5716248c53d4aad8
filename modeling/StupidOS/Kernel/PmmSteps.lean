import StupidOS.Kernel.Pmm

/-!
# What the routines of the page allocator do to memory

Running on the kernel's page tables, every access of `pmm.inc` is one to a known
physical word: the temporary page-table entry, a variable of the kernel, or the
header of the block mapped at `PMM_VIRT_TEMP`. So each routine is a short sequence
of stores to physical words (`pmmInitRegion_eq`, `pmmAllocFound_eq`, `pmmFree_eq`).
-/

namespace StupidOS.Kernel

/-! ## Physical stores -/

/-- Store a word at a physical address. -/
def Machine.put (mc : Machine) (a w : Word) : Machine := { mc with mem := mc.mem.write32 a w }

/-- Set the temporary page-table entry. -/
def Machine.temp (mc : Machine) (w : Word) : Machine := mc.put tempEntry w

/-- An address at which a word is neither the temporary entry nor in the page
table or the page directory of the kernel. -/
def OffPaging (a : Word) : Prop := a.toNat + 4 ≤ 0x400000 ∨ 0x800000 ≤ a.toNat ∧ a.toNat + 4 ≤ 2 ^ 32

namespace Machine

variable (mc : Machine)

@[simp] theorem put_cr3 (a w : Word) : (mc.put a w).cr3 = mc.cr3 := rfl

@[simp] theorem put_mem (a w : Word) : (mc.put a w).mem = mc.mem.write32 a w := rfl

@[simp] theorem temp_cr3 (w : Word) : (mc.temp w).cr3 = mc.cr3 := rfl

theorem temp_temp (w w' : Word) : (mc.temp w).temp w' = mc.temp w' := by
  unfold temp put
  dsimp only
  rw [Mem.write32_write32]

end Machine

theorem OffPaging.sep_temp {a : Word} (ha : OffPaging a) : Sep a 4 tempEntry 4 := by
  have htemp : tempEntry.toNat = 0x740000 := rfl
  unfold OffPaging at ha
  exact Sep.of_le (by omega) (by omega) (by omega) (by omega) (by omega)

theorem Machine.temp_put (mc : Machine) {a : Word} (ha : OffPaging a) (w v : Word) :
    (mc.temp w).put a v = (mc.put a v).temp w := by
  unfold temp put
  dsimp only
  rw [Mem.write32_comm _ _ _ ha.sep_temp.symm]

theorem Machine.temp_read (mc : Machine) {a : Word} (ha : OffPaging a) (w : Word) :
    (mc.temp w).mem.read32 a = mc.mem.read32 a :=
  Mem.read32_write32_of_sep _ _ ha.sep_temp

/-- Every machine has some temporary entry. -/
theorem Machine.temp_self (mc : Machine) : mc.temp (mc.mem.read32 tempEntry) = mc := by
  unfold temp put
  rw [Mem.write32_read32_self]

/-! ## Accesses through the kernel's page tables -/

variable {kend : Word} {mc : Machine}

theorem kernelPages_le (hhi : kend.toNat ≤ 0xC0400000) : kernelPages kend ≤ 1024 := by
  unfold kernelPages
  omega

/-- Stores outside the kernel's page table and page directory. -/
theorem KernelPaging.put (h : KernelPaging kend mc) (hhi : kend.toNat ≤ 0xC0400000) {a : Word}
    (ha : OffPaging a) (w : Word) : KernelPaging kend (mc.put a w) := by
  have hpages := kernelPages_le hhi
  unfold OffPaging at ha
  refine ⟨h.cr3, ?_, ?_⟩
  · refine TableMaps.congr (Nat.le_refl 1024) h.dir (fun x hx => Mem.write32_frame _ _ ?_)
    unfold kernelDirectory at hx
    bv_omega
  · refine TableMaps.congr hpages h.table (fun x hx => Mem.write32_frame _ _ ?_)
    unfold kernelTable at hx
    bv_omega

theorem KernelPaging.temp (h : KernelPaging kend mc) (hhi : kend.toNat ≤ 0xC0400000) (w : Word) :
    KernelPaging kend (mc.temp w) := by
  have hpages := kernelPages_le hhi
  refine ⟨h.cr3, h.dir.write_temp w, ?_⟩
  refine TableMaps.congr hpages h.table (fun x hx => Mem.write32_frame _ _ ?_)
  unfold kernelTable at hx
  unfold tempEntry
  bv_omega

theorem KernelPaging.map (h : KernelPaging kend mc) (hhi : kend.toNat ≤ 0xC0400000)
    (w p : Word) : pmmMapTempPage (mc.temp w) p = some (mc.temp (p ||| 3)) := by
  have ht := h.temp hhi w
  rw [← mc.temp_temp w (p ||| 3)]
  exact tempEntry_walk ht.cr3 ht.dir _

theorem KernelPaging.unmap (h : KernelPaging kend mc) (hhi : kend.toNat ≤ 0xC0400000) (w : Word) :
    pmmUnmapTempPage (mc.temp w) = some (mc.temp 0) := by
  have ht := h.temp hhi w
  rw [← mc.temp_temp w 0]
  exact tempEntry_walk ht.cr3 ht.dir _

/-- The translation of the temporary page once block `p` is mapped. -/
theorem KernelPaging.walk_temp (h : KernelPaging kend mc) {p : Word} (hp : p.toNat % 4096 = 0)
    (store : Bool) {k : Word} (hk : k.toNat < 4096) :
    walk store (mc.temp (p ||| 3)).mem (mc.temp (p ||| 3)).cr3 (pmmVirtTemp + k) =
      some (p + k) := by
  rw [Machine.temp_cr3, h.cr3]
  exact (pmmMapTempPage_spec h.cr3 h.dir hp).2 store k hk

theorem KernelPaging.load_temp (h : KernelPaging kend mc) {p : Word} (hp : p.toNat % 4096 = 0)
    {k : Word} (hk : k.toNat < 4096) (hoff : OffPaging (p + k)) :
    (mc.temp (p ||| 3)).load32 (pmmVirtTemp + k) = some (mc.mem.read32 (p + k)) := by
  rw [Machine.load32, h.walk_temp hp false hk, Option.map_some, mc.temp_read hoff]

theorem KernelPaging.store_temp (h : KernelPaging kend mc) {p : Word} (hp : p.toNat % 4096 = 0)
    {k : Word} (hk : k.toNat < 4096) (hoff : OffPaging (p + k)) (w : Word) :
    (mc.temp (p ||| 3)).store32 (pmmVirtTemp + k) w = some ((mc.put (p + k) w).temp (p ||| 3)) := by
  rw [Machine.store32, h.walk_temp hp true hk, Option.map_some, ← mc.temp_put hoff]
  rfl

/-- A variable of the kernel: its four bytes lie in the image. -/
def InKernel (kend v : Word) : Prop := 0xC0100000 ≤ v.toNat ∧ v.toNat + 4 ≤ kend.toNat

theorem InKernel.offPaging {v : Word} (hv : InKernel kend v) (hhi : kend.toNat ≤ 0xC0400000) :
    OffPaging (v - kernelVirtBase) := by
  rcases hv with ⟨hlo, hend⟩
  left
  unfold kernelVirtBase
  bv_omega

theorem KernelPaging.load_kernel (h : KernelPaging kend mc) (hhi : kend.toNat ≤ 0xC0400000)
    {v : Word} (hv : InKernel kend v) (w : Word) :
    (mc.temp w).load32 v = some (mc.mem.read32 (v - kernelVirtBase)) := by
  have ht := h.temp hhi w
  rw [Machine.load32, ht.walk_kernel hhi false (by have := hv.1; omega) (by have := hv.2; omega),
    Option.map_some, mc.temp_read (hv.offPaging hhi)]

theorem KernelPaging.store_kernel (h : KernelPaging kend mc) (hhi : kend.toNat ≤ 0xC0400000)
    {v : Word} (hv : InKernel kend v) (w x : Word) :
    (mc.temp w).store32 v x = some ((mc.put (v - kernelVirtBase) x).temp w) := by
  have ht := h.temp hhi w
  rw [Machine.store32, ht.walk_kernel hhi true (by have := hv.1; omega) (by have := hv.2; omega),
    Option.map_some, ← mc.temp_put (hv.offPaging hhi)]
  rfl

/-- The same accesses, whatever the temporary entry is. -/
theorem KernelPaging.load_image (h : KernelPaging kend mc) (hhi : kend.toNat ≤ 0xC0400000)
    {v : Word} (hv : InKernel kend v) :
    mc.load32 v = some (mc.mem.read32 (v - kernelVirtBase)) := by
  have hload := h.load_kernel hhi hv (mc.mem.read32 tempEntry)
  rwa [mc.temp_self] at hload

theorem KernelPaging.store_image (h : KernelPaging kend mc) (hhi : kend.toNat ≤ 0xC0400000)
    {v : Word} (hv : InKernel kend v) (x : Word) :
    mc.store32 v x = some (mc.put (v - kernelVirtBase) x) := by
  have hoff := hv.offPaging hhi
  have hstore := h.store_kernel hhi hv (mc.mem.read32 tempEntry) x
  rwa [mc.temp_self, ← mc.temp_put hoff, mc.temp_self] at hstore

theorem KernelPaging.map_self (h : KernelPaging kend mc) (p : Word) :
    pmmMapTempPage mc p = some (mc.temp (p ||| 3)) :=
  tempEntry_walk h.cr3 h.dir _

/-! ## The routines as stores -/

variable (K : KernelImage)

/-- The physical address of `pPmmFreeListHead`. -/
def KernelImage.headPhys : Word := K.pPmmFreeListHead - kernelVirtBase

theorem KernelImage.head_in : InKernel K.kend K.pPmmFreeListHead := by
  have hlow := K.head_low
  have hhigh := K.head_high
  exact ⟨hlow, by omega⟩

theorem KernelImage.headPhys_toNat :
    K.headPhys.toNat = K.pPmmFreeListHead.toNat - 0xC0000000 := by
  have hlow := K.head_low
  unfold headPhys kernelVirtBase
  bv_omega

theorem KernelImage.headPhys_off : OffPaging K.headPhys := K.head_in.offPaging K.kend_high

/-- A block header that the allocator may write: the page `p` lies off the page
tables and does not hold the head of the list. -/
structure Header (p : Word) : Prop where
  aligned : p.toNat % 4096 = 0
  off_size : OffPaging p
  off_next : OffPaging (p + rangeNext)
  head_size : Sep K.headPhys 4 p 4
  head_next : Sep K.headPhys 4 (p + rangeNext) 4

theorem add_rangeSize (p : Word) : p + rangeSize = p := by
  unfold rangeSize
  bv_omega

theorem sep_size_next (p : Word) : Sep p 4 (p + rangeNext) 4 := by
  unfold Sep rangeNext
  constructor <;> bv_omega

section Routines

variable {K} (h : KernelPaging K.kend mc)

include h

/-- Reading the size of a mapped block. -/
theorem KernelPaging.load_size {p : Word} (hp : Header K p) :
    (mc.temp (p ||| 3)).load32 (pmmVirtTemp + rangeSize) = some (mc.mem.read32 p) := by
  have hoff := hp.off_size
  rw [← add_rangeSize p] at hoff
  rw [h.load_temp hp.aligned (by decide) hoff, add_rangeSize]

theorem KernelPaging.load_next {p : Word} (hp : Header K p) :
    (mc.temp (p ||| 3)).load32 (pmmVirtTemp + rangeNext) = some (mc.mem.read32 (p + rangeNext)) :=
  h.load_temp hp.aligned (by decide) hp.off_next

theorem KernelPaging.store_size {p : Word} (hp : Header K p) (w : Word) :
    (mc.temp (p ||| 3)).store32 (pmmVirtTemp + rangeSize) w =
      some ((mc.put p w).temp (p ||| 3)) := by
  have hoff := hp.off_size
  rw [← add_rangeSize p] at hoff
  rw [h.store_temp hp.aligned (by decide) hoff, add_rangeSize]

theorem KernelPaging.store_next {p : Word} (hp : Header K p) (w : Word) :
    (mc.temp (p ||| 3)).store32 (pmmVirtTemp + rangeNext) w =
      some ((mc.put (p + rangeNext) w).temp (p ||| 3)) :=
  h.store_temp hp.aligned (by decide) hp.off_next w

theorem KernelPaging.load_head (w : Word) :
    (mc.temp w).load32 K.pPmmFreeListHead = some (mc.mem.read32 K.headPhys) :=
  h.load_kernel K.kend_high K.head_in w

theorem KernelPaging.store_head (w x : Word) :
    (mc.temp w).store32 K.pPmmFreeListHead x = some ((mc.put K.headPhys x).temp w) :=
  h.store_kernel K.kend_high K.head_in w x

/-- `_pmm_init_region` puts the region in front of the list. -/
theorem pmmInitRegion_eq {p : Word} (hp : Header K p) (edx : Word) (regs : SavedRegs) :
    pmmInitRegion K mc p edx regs =
      some ((((mc.put p (edx - p)).put (p + rangeNext) (mc.mem.read32 K.headPhys)).put
        K.headPhys p).temp 0, { regs with esi := regs.edi, edi := regs.esi }) := by
  have hhi := K.kend_high
  have h₁ := h.put hhi hp.off_size (edx - p)
  have h₂ := h₁.put hhi hp.off_next 0
  have hread : ((mc.put p (edx - p)).put (p + rangeNext) 0).mem.read32 K.headPhys =
      mc.mem.read32 K.headPhys := by
    rw [Machine.put_mem, Mem.read32_write32_of_sep _ _ hp.head_next, Machine.put_mem,
      Mem.read32_write32_of_sep _ _ hp.head_size]
  have hstore := h.store_size hp (edx - p)
  rw [add_rangeSize] at hstore
  unfold pmmInitRegion
  simp only [h.map_self, Option.bind_eq_bind, Option.bind_some, hstore, h₁.store_next hp,
    h₂.load_head, hread]
  split
  · rename_i h0
    simp only [Option.bind_some, h₂.store_head, h0,
      (h₂.put hhi K.headPhys_off p).unmap hhi]
    rfl
  · have h₃ := h₁.put hhi hp.off_next (mc.mem.read32 K.headPhys)
    have hagain : ((mc.put p (edx - p)).put (p + rangeNext) 0).put (p + rangeNext)
        (mc.mem.read32 K.headPhys) =
        (mc.put p (edx - p)).put (p + rangeNext) (mc.mem.read32 K.headPhys) := by
      unfold Machine.put
      dsimp only
      rw [Mem.write32_write32]
    simp only [h₂.store_next hp, hagain, Option.bind_some, h₃.store_head,
      (h₃.put hhi K.headPhys_off p).unmap hhi]
    rfl

/-- `pmm_free` puts the block in front of the list. -/
theorem pmmFree_eq {p : Word} (hp : Header K p) (n : Word) (regs : SavedRegs) :
    pmmFree K mc p n regs =
      some ((((mc.put (p + rangeNext) (mc.mem.read32 K.headPhys)).put p (n <<< 12)).put
        K.headPhys p).temp 0, { regs with esi := regs.edi, edi := regs.esi }) := by
  have hhi := K.kend_high
  have h₁ := h.put hhi hp.off_next (mc.mem.read32 K.headPhys)
  have h₂ := h₁.put hhi hp.off_size (n <<< 12)
  have h₃ := h₂.put hhi K.headPhys_off p
  unfold pmmFree
  simp only [h.map_self, Option.bind_eq_bind, Option.bind_some, h.load_head, h.store_next hp,
    h₁.store_size hp, h₂.store_head, h₃.unmap hhi]
  rfl

/-- "Memory found" with room to spare: the block keeps its head end. -/
theorem pmmAllocFound_tail {p : Word} (hp : Header K p) {eax : Word} (hne : eax ≠ 0)
    (ebx : Word) :
    pmmAllocFound K (mc.temp (p ||| 3)) eax ebx p = some ((mc.put p eax).temp 0, p + eax) := by
  have hhi := K.kend_high
  have h₁ := h.put hhi hp.off_size eax
  unfold pmmAllocFound
  simp only [Option.bind_eq_bind, h.store_size hp, Option.bind_some, if_pos hne, h₁.unmap hhi]
  rfl

/-- An exact fit of the first block moves the head of the list. -/
theorem pmmAllocFound_first {p : Word} (hp : Header K p) :
    pmmAllocFound K (mc.temp (p ||| 3)) 0 0 p =
      some (((mc.put p 0).put K.headPhys (mc.mem.read32 (p + rangeNext))).temp 0, p + 0) := by
  have hhi := K.kend_high
  have h₁ := h.put hhi hp.off_size 0
  have hread : (mc.put p 0).mem.read32 (p + rangeNext) = mc.mem.read32 (p + rangeNext) :=
    Mem.read32_write32_of_sep _ _ (sep_size_next p).symm
  have h₂ := h₁.put hhi K.headPhys_off (mc.mem.read32 (p + rangeNext))
  unfold pmmAllocFound
  simp only [Option.bind_eq_bind, h.store_size hp, Option.bind_some, ne_eq, not_true_eq_false,
    if_false, h₁.load_next hp, hread, if_true, h₁.store_head, h₂.unmap hhi]
  rfl

/-- An exact fit of a later block maps the one before it and links past it. -/
theorem pmmAllocFound_inner {p ebx : Word} (hp : Header K p) (hb : Header K ebx) (hne : ebx ≠ 0) :
    pmmAllocFound K (mc.temp (p ||| 3)) 0 ebx p =
      some (((mc.put p 0).put (ebx + rangeNext) (mc.mem.read32 (p + rangeNext))).temp 0, p + 0) := by
  have hhi := K.kend_high
  have h₁ := h.put hhi hp.off_size 0
  have hread : (mc.put p 0).mem.read32 (p + rangeNext) = mc.mem.read32 (p + rangeNext) :=
    Mem.read32_write32_of_sep _ _ (sep_size_next p).symm
  have h₂ := h₁.put hhi hb.off_next (mc.mem.read32 (p + rangeNext))
  unfold pmmAllocFound
  simp only [Option.bind_eq_bind, h.store_size hp, Option.bind_some, ne_eq, not_true_eq_false,
    if_false, h₁.load_next hp, hread, if_neg hne, h₁.unmap hhi, h₁.map hhi, h₁.store_next hb,
    h₂.unmap hhi]
  rfl

end Routines

end StupidOS.Kernel
