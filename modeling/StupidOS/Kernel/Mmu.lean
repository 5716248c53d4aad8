import StupidOS.Lib.Loop
import StupidOS.Lib.Memory
import StupidOS.Kernel.Const

/-!
# Two-level paging

The page walk of the processor (4 KiB pages) over physical memory, and loads and
stores through it. The bits looked at are the present and the writable one; all
code modelled runs in supervisor mode with write protection on.

The loops of the boot code that fill a page table store an ascending sequence of
entries, either at physical addresses or through an address space
(`fillPass`, `fill_spec`).
-/

namespace StupidOS.Kernel

/-! ## Constants -/

/-- `PTE_P`, `PDE_P` -/
def pteP : Word := 0x001

/-- `PTE_W`, `PDE_W` -/
def pteW : Word := 0x002

/-! ## The walk -/

/-- The page that an entry, CR3 or an address belongs to. -/
def pageFrame (w : Word) : Word := w &&& 0xFFFFF000

def pdeIndex (v : Word) : Word := v >>> 22

def pteIndex (v : Word) : Word := (v >>> 12) &&& (0x3FF : Word)

def pageOffset (v : Word) : Word := v &&& 0xFFF

/-- An entry lets an access through: it is present, and writable for a store. -/
def entryAllows (store : Bool) (entry : Word) : Bool :=
  entry &&& pteP != 0 && (!store || entry &&& pteW != 0)

/-- The physical address of the directory entry used for `v`. -/
def pdeAddr (cr3 v : Word) : Word := pageFrame cr3 + 4 * pdeIndex v

/-- The physical address of the page-table entry used for `v`. -/
def pteAddr (m : Mem) (cr3 v : Word) : Word :=
  pageFrame (m.read32 (pdeAddr cr3 v)) + 4 * pteIndex v

/-- The physical address that `v` translates to, if the access is allowed. -/
def walk (store : Bool) (m : Mem) (cr3 v : Word) : Option Word :=
  if entryAllows store (m.read32 (pdeAddr cr3 v)) then
    if entryAllows store (m.read32 (pteAddr m cr3 v)) then
      some (pageFrame (m.read32 (pteAddr m cr3 v)) + pageOffset v)
    else none
  else none

/-- Physical memory and the page directory in use. -/
structure Machine where
  mem : Mem
  cr3 : Word

/-- `mov r, [v]` for an aligned `v`; `none` is a page fault. -/
def Machine.load32 (mc : Machine) (v : Word) : Option Word :=
  (walk false mc.mem mc.cr3 v).map mc.mem.read32

/-- `mov [v], w` for an aligned `v`; `none` is a page fault. -/
def Machine.store32 (mc : Machine) (v w : Word) : Option Machine :=
  (walk true mc.mem mc.cr3 v).map fun p => { mc with mem := mc.mem.write32 p w }

/-! ## The fields of an address -/

theorem pageFrame_toNat (w : Word) : (pageFrame w).toNat = w.toNat / 4096 * 4096 :=
  and_fffff000_toNat w

theorem pageFrame_of_aligned {w : Word} (h : w.toNat % 4096 = 0) : pageFrame w = w := by
  apply BitVec.eq_of_toNat_eq
  rw [pageFrame_toNat]
  omega

theorem pageFrame_or_three {w : Word} (h : w.toNat % 4096 = 0) : pageFrame (w ||| 3) = w := by
  apply BitVec.eq_of_toNat_eq
  rw [pageFrame_toNat, or_three_toNat (by omega)]
  omega

theorem pdeIndex_toNat (v : Word) : (pdeIndex v).toNat = v.toNat / 2 ^ 22 := by
  unfold pdeIndex
  rw [BitVec.toNat_ushiftRight, Nat.shiftRight_eq_div_pow]

theorem pteIndex_toNat (v : Word) : (pteIndex v).toNat = v.toNat / 4096 % 1024 := by
  unfold pteIndex
  rw [and_3ff_toNat, BitVec.toNat_ushiftRight, Nat.shiftRight_eq_div_pow]

theorem pageOffset_toNat (v : Word) : (pageOffset v).toNat = v.toNat % 4096 :=
  and_fff_toNat v

/-- Entries made with `or entry, PTE_P or PTE_W` let every access through. -/
theorem entryAllows_or_three (store : Bool) (w : Word) : entryAllows store (w ||| 3) = true := by
  have hp : ((w ||| 3) &&& pteP != 0) = true := by
    refine bne_iff_ne.mpr ?_
    intro h0
    have hbit := congrArg (fun x : Word => x.getLsbD 0) h0
    simp [pteP] at hbit
  have hw : ((w ||| 3) &&& pteW != 0) = true := by
    refine bne_iff_ne.mpr ?_
    intro h0
    have hbit := congrArg (fun x : Word => x.getLsbD 1) h0
    simp [pteW] at hbit
  rw [entryAllows, hp, hw, Bool.or_true, Bool.and_true]

/-- The walk through a directory entry for `table` and a table entry for `page`. -/
theorem walk_eq (store : Bool) {m : Mem} {cr3 v table page : Word}
    (hcr3 : cr3.toNat % 4096 = 0) (htable : table.toNat % 4096 = 0)
    (hpage : page.toNat % 4096 = 0)
    (hpde : m.read32 (cr3 + 4 * pdeIndex v) = table ||| 3)
    (hpte : m.read32 (table + 4 * pteIndex v) = page ||| 3) :
    pteAddr m cr3 v = table + 4 * pteIndex v ∧
      walk store m cr3 v = some (page + pageOffset v) := by
  have hpde' : m.read32 (pdeAddr cr3 v) = table ||| 3 := by
    rw [pdeAddr, pageFrame_of_aligned hcr3, hpde]
  have haddr : pteAddr m cr3 v = table + 4 * pteIndex v := by
    rw [pteAddr, hpde', pageFrame_or_three htable]
  refine ⟨haddr, ?_⟩
  rw [walk, haddr, hpde', hpte, if_pos (entryAllows_or_three _ _),
    if_pos (entryAllows_or_three _ _), pageFrame_or_three hpage]

/-! ## Filling a table -/

/-- `n` entries from `table` on map the pages from `first` on. -/
def TableMaps (m : Mem) (table first : Word) (n : Nat) : Prop :=
  ∀ i, i < n → m.read32 (table + BitVec.ofNat 32 (4 * i)) =
    (first + BitVec.ofNat 32 (4096 * i)) ||| 3

theorem four_mul_eq (w : Word) : 4 * w = BitVec.ofNat 32 (4 * w.toNat) := by
  apply BitVec.eq_of_toNat_eq
  rw [BitVec.toNat_mul, BitVec.toNat_ofNat]
  rfl

/-- The walk through a table filled in this way. -/
theorem TableMaps.walk {m : Mem} {table first : Word} {n : Nat} (h : TableMaps m table first n)
    (hfirst : first.toNat % 4096 = 0) (htable : table.toNat % 4096 = 0)
    {cr3 v : Word} (hcr3 : cr3.toNat % 4096 = 0)
    (hpde : m.read32 (cr3 + 4 * pdeIndex v) = table ||| 3)
    (hv : v.toNat / 4096 % 1024 < n) (store : Bool) :
    pteAddr m cr3 v = table + BitVec.ofNat 32 (4 * (v.toNat / 4096 % 1024)) ∧
      Kernel.walk store m cr3 v = some (first + BitVec.ofNat 32 (v.toNat % 2 ^ 22)) := by
  have hidx := pteIndex_toNat v
  have hread := h _ hv
  rw [← hidx, ← four_mul_eq, hidx] at hread
  have hpage : (first + BitVec.ofNat 32 (4096 * (v.toNat / 4096 % 1024))).toNat % 4096 = 0 := by
    bv_omega
  rcases walk_eq store hcr3 htable hpage hpde hread with ⟨haddr, hwalk⟩
  rw [four_mul_eq, hidx] at haddr
  refine ⟨haddr, ?_⟩
  have hoff := pageOffset_toNat v
  have hlt := v.isLt
  rw [hwalk, Option.some.injEq, BitVec.add_assoc]
  congr 1
  apply BitVec.eq_of_toNat_eq
  rw [BitVec.toNat_add, hoff, BitVec.toNat_ofNat, BitVec.toNat_ofNat]
  omega

/-- One pass of a filling loop: the entry for the page `esi` is stored at `edi`.
`store` is a store at a physical or at a virtual address, and `more` the loop
condition on ESI and on the number of passes in ECX. -/
def fillPass {μ : Type} (store : μ → Word → Word → Option μ) (more : Word → Word → Bool) :
    μ × Word × Word × Word → Option (Pass (μ × Word × Word × Word) (μ × Word))
  | (m, esi, edi, ecx) =>
    match store m edi (esi ||| (pteP ||| pteW)) with
    | none => none
    | some m =>
      let edi := edi + 4
      let esi := esi + pageSize
      let ecx := ecx + 1
      if more esi ecx then
        some (.again (m, esi, edi, ecx))
      else
        some (.done (m, esi))

section Fill

variable {μ : Type} (store : μ → Word → Word → Option μ) (more : Word → Word → Bool)
  (view : μ → Mem) (P : μ → Prop)

/-- The loop after `i` passes: `i` entries are in the table, and nothing else has changed. -/
structure Filling (base table first : Word) (m₀ : Mem) (i : Nat)
    (s : μ × Word × Word × Word) : Prop where
  esi : s.2.1 = first + BitVec.ofNat 32 (4096 * i)
  edi : s.2.2.1 = base + BitVec.ofNat 32 (4 * i)
  ecx : s.2.2.2 = BitVec.ofNat 32 i
  keeps : P s.1
  maps : TableMaps (view s.1) table first i
  frame : ∀ x, 4 * i ≤ (x - table).toNat → view s.1 x = m₀ x

variable {view P} {base table first : Word} {n : Nat}

/-- One more entry behind `i` of them. -/
theorem TableMaps.snoc {m : Mem} {i : Nat} (h : TableMaps m table first i) (hi : i < 1024) :
    TableMaps (m.write32 (table + BitVec.ofNat 32 (4 * i))
      ((first + BitVec.ofNat 32 (4096 * i)) ||| 3)) table first (i + 1) := by
  intro j hj
  rcases Nat.lt_succ_iff_lt_or_eq.mp hj with hlt | rfl
  · have hsep : Sep (table + BitVec.ofNat 32 (4 * j)) 4 (table + BitVec.ofNat 32 (4 * i)) 4 := by
      unfold Sep
      constructor <;> bv_omega
    rw [Mem.read32_write32_of_sep _ _ hsep]
    exact h j hlt
  · exact Mem.read32_write32 _ _ _

variable {store more}

/-- A pass over entry `i`. -/
theorem fillPass_step (hn : n ≤ 1024)
    (hstore : ∀ m w i, i < n → P m →
      ∃ m', store m (base + BitVec.ofNat 32 (4 * i)) w = some m' ∧
        view m' = (view m).write32 (table + BitVec.ofNat 32 (4 * i)) w ∧ P m')
    (hmore : ∀ i, 0 < i → i ≤ n →
      more (first + BitVec.ofNat 32 (4096 * i)) (BitVec.ofNat 32 i) = decide (i < n))
    {m₀ : Mem} {i : Nat} (hi : i < n) {s : μ × Word × Word × Word}
    (hs : Filling view P base table first m₀ i s) :
    ∃ s', Filling view P base table first m₀ (i + 1) s' ∧
      fillPass store more s =
        if i + 1 < n then some (.again s') else some (.done (s'.1, s'.2.1)) := by
  rcases s with ⟨m₁, esi, edi, ecx⟩
  rcases hs with ⟨hesi, hedi, hecx, hkeeps, hmaps, hframe⟩
  dsimp only at hesi hedi hecx hkeeps hmaps hframe
  rcases hstore m₁ ((first + BitVec.ofNat 32 (4096 * i)) ||| 3) i hi hkeeps with
    ⟨m₂, hst, hview, hkeeps'⟩
  have hesi' : esi + pageSize = first + BitVec.ofNat 32 (4096 * (i + 1)) := by
    unfold pageSize
    bv_omega
  have hedi' : edi + 4 = base + BitVec.ofNat 32 (4 * (i + 1)) := by
    bv_omega
  have hecx' : ecx + 1 = BitVec.ofNat 32 (i + 1) := by
    bv_omega
  have hmaps' : TableMaps (view m₂) table first (i + 1) := by
    rw [hview]
    exact hmaps.snoc (by omega)
  have hframe' : ∀ x, 4 * (i + 1) ≤ (x - table).toNat → view m₂ x = m₀ x := by
    intro x hx
    rw [hview, Mem.write32_frame _ _ (by bv_omega)]
    exact hframe x (by omega)
  refine ⟨(m₂, esi + pageSize, edi + 4, ecx + 1),
    ⟨hesi', hedi', hecx', hkeeps', hmaps', hframe'⟩, ?_⟩
  have hpw : pteP ||| pteW = 3 := by decide
  have hmore' : more (esi + pageSize) (ecx + 1) = decide (i + 1 < n) := by
    rw [hesi', hecx']
    exact hmore (i + 1) (by omega) (by omega)
  rw [fillPass, hpw, hesi, hedi, hst]
  dsimp only
  rw [← hesi, ← hedi, hmore']
  simp only [decide_eq_true_eq]

variable (store more view P base table first) in
/-- A filling loop of `n` passes from `base` on, through a store that puts the word
for `base + 4 * i` at `table + 4 * i`: the table is filled, and only the table is
written. -/
theorem fill_spec (hpos : 0 < n) (hn : n ≤ 1024) {fuel : Nat} (hfuel : n ≤ fuel)
    (hstore : ∀ m w i, i < n → P m →
      ∃ m', store m (base + BitVec.ofNat 32 (4 * i)) w = some m' ∧
        view m' = (view m).write32 (table + BitVec.ofNat 32 (4 * i)) w ∧ P m')
    (hmore : ∀ i, 0 < i → i ≤ n →
      more (first + BitVec.ofNat 32 (4096 * i)) (BitVec.ofNat 32 i) = decide (i < n))
    {m : μ} (hm : P m) :
    ∃ m', iterate (fillPass store more) fuel (m, first, base, 0) =
        some (m', first + BitVec.ofNat 32 (4096 * n)) ∧
      P m' ∧ TableMaps (view m') table first n ∧
      ∀ x, 4 * n ≤ (x - table).toNat → view m' x = view m x := by
  -- the passes still to come, besides the one that starts
  have hpass : ∀ k s,
      (∃ i, i + k + 1 = n ∧ Filling view P base table first (view m) i s) →
      (∃ r, fillPass store more s = some (.done r) ∧
        ∃ s, Filling view P base table first (view m) n s ∧ r = (s.1, s.2.1)) ∨
      (∃ s' k', fillPass store more s = some (.again s') ∧ k' < k ∧
        ∃ i, i + k' + 1 = n ∧ Filling view P base table first (view m) i s') := by
    intro k s hs
    rcases hs with ⟨i, hk, hfilling⟩
    rcases fillPass_step hn hstore hmore (by omega) hfilling with ⟨s', hs', hbody⟩
    by_cases hlast : i + 1 < n
    · right
      rw [if_pos hlast] at hbody
      exact ⟨s', k - 1, hbody, by omega, i + 1, by omega, hs'⟩
    · left
      rw [if_neg hlast] at hbody
      have hi : i + 1 = n := by omega
      rw [hi] at hs'
      exact ⟨_, hbody, s', hs', rfl⟩
  have hempty : Filling view P base table first (view m) 0 (m, first, base, 0) := by
    constructor
    · simp
    · simp
    · rfl
    · exact hm
    · intro j hj
      omega
    · intro x _
      rfl
  have hstart : ∃ i, i + (n - 1) + 1 = n ∧
      Filling view P base table first (view m) i (m, first, base, 0) :=
    ⟨0, by omega, hempty⟩
  rcases iterate_total _ _ hpass hstart (show n - 1 < fuel by omega) with ⟨r, hres, s, hs, rfl⟩
  rw [hs.esi] at hres
  exact ⟨s.1, hres, hs.keeps, hs.maps, hs.frame⟩

end Fill

end StupidOS.Kernel
