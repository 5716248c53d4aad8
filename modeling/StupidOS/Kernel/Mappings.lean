import StupidOS.Kernel.Bootstrap

/-!
# What the kernel's page tables map

`mm_bootstrap` makes all 1024 entries of the page directory present, and so all 1024
pages from 0x400000 on page tables. It fills the first entries of one of them and the
directory itself; every other entry is what physical memory held there.
-/

namespace StupidOS.Kernel

/-! ## Entries of the tables -/

/-- The page-table entry for virtual page `i`, of the 2^20 there are. -/
def tableEntry (m : Mem) (i : Nat) : Word := m.read32 (0x400000 + BitVec.ofNat 32 (4 * i))

/-- Virtual page `i` holds a byte of the kernel image. -/
def KernelPage (kend : Word) (i : Nat) : Prop :=
  ∃ x : Word, x.toNat / 4096 = i ∧ 0xC0000000 ≤ x.toNat ∧ x.toNat < kend.toNat

/-- The walk finds a present page for the kernel image and the recursive window only. -/
def MapsNothingElse (kend : Word) (mc : Machine) : Prop :=
  ∀ v : Word, (walk false mc.mem mc.cr3 v).isSome →
    KernelPage kend (v.toNat / 4096) ∨ 0xFFC00000 ≤ v.toNat

/-- No entry that `mm_bootstrap` leaves alone has the present bit set. -/
def RestNotPresent (kend : Word) (m : Mem) : Prop :=
  ∀ i, i < 1023 * 1024 → ¬ KernelPage kend i → tableEntry m i &&& pteP = 0

theorem kernelPage_iff {kend : Word} (hhi : kend.toNat ≤ 0xC0400000) {i : Nat} :
    KernelPage kend i ↔ 0xC0000 ≤ i ∧ i < 0xC0000 + kernelPages kend := by
  unfold kernelPages
  constructor
  · intro h
    rcases h with ⟨x, rfl, hlo, hlt⟩
    omega
  · intro h
    have hnat : (BitVec.ofNat 32 (4096 * i)).toNat = 4096 * i := toNat_ofNat_of_lt (by omega)
    refine ⟨BitVec.ofNat 32 (4096 * i), ?_, ?_, ?_⟩
    · omega
    · omega
    · omega

/-- Through the recursive directory the walk looks at one word. -/
theorem RecursiveDir.walk_isSome {m : Mem} (h : RecursiveDir m) (v : Word) :
    (walk false m kernelDirectory v).isSome = (tableEntry m (v.toNat / 4096) &&& pteP != 0) := by
  have hdir : kernelDirectory.toNat % 4096 = 0 := by decide
  have hpde : entryAllows false (m.read32 (pdeAddr kernelDirectory v)) = true := by
    rw [pdeAddr, pageFrame_of_aligned hdir, h.pde]
    exact entryAllows_or_three _ _
  have hpte : m.read32 (Kernel.pteAddr m kernelDirectory v) = tableEntry m (v.toNat / 4096) := by
    have hshift : (v >>> 12).toNat = v.toNat / 4096 := by
      rw [BitVec.toNat_ushiftRight, Nat.shiftRight_eq_div_pow]
    have hlt := v.isLt
    rw [h.pteAddr, tableEntry]
    congr 1
    bv_omega
  rw [walk, if_pos hpde, hpte]
  by_cases hp : entryAllows false (tableEntry m (v.toNat / 4096)) = true
  · have hbit : (tableEntry m (v.toNat / 4096) &&& pteP != 0) = true := by
      simpa [entryAllows] using hp
    rw [if_pos hp, hbit]
    rfl
  · have hbit : ¬ (tableEntry m (v.toNat / 4096) &&& pteP != 0) = true := by
      simpa [entryAllows] using hp
    rw [Bool.not_eq_true] at hbit
    rw [if_neg hp, hbit]
    rfl

/-- Page `i` is the page of an address. -/
theorem exists_address {i : Nat} (hi : i < 2 ^ 20) : ∃ v : Word, v.toNat = 4096 * i :=
  ⟨BitVec.ofNat 32 (4096 * i), toNat_ofNat_of_lt (by omega)⟩

/-- The entries that the loops of `mm_bootstrap` do not write. -/
theorem tableEntry_kept {kend : Word} (hhi : kend.toNat ≤ 0xC0400000) {m m' : Mem}
    (hframe : ∀ x : Word, 4 * kernelPages kend ≤ (x - kernelTable).toNat →
      4096 ≤ (x - kernelDirectory).toNat → m' x = m x)
    {i : Nat} (hi : i < 1023 * 1024) (hout : ¬ KernelPage kend i) :
    tableEntry m' i = tableEntry m i := by
  rw [kernelPage_iff hhi] at hout
  have hpages : kernelPages kend ≤ 1024 := by
    unfold kernelPages
    omega
  have htable : kernelTable.toNat = 0x700000 := rfl
  have hdir : kernelDirectory.toNat = 0x7FF000 := rfl
  have hbyte : ∀ k : Nat, k < 4 → ∀ x : Word, x.toNat = 0x400000 + 4 * i + k → m' x = m x := by
    intro k hk x hx
    exact hframe x (by bv_omega) (by bv_omega)
  rw [tableEntry, tableEntry]
  exact Mem.read32_congr (hbyte 0 (by omega) _ (by bv_omega)) (hbyte 1 (by omega) _ (by bv_omega))
    (hbyte 2 (by omega) _ (by bv_omega)) (hbyte 3 (by omega) _ (by bv_omega))

/-- What is mapped can be read off the tables. -/
theorem KernelPaging.maps_iff {kend : Word} {mc : Machine} (h : KernelPaging kend mc) :
    MapsNothingElse kend mc ↔ RestNotPresent kend mc.mem := by
  unfold MapsNothingElse
  rw [h.cr3]
  constructor
  · intro hmaps i hi hout
    rcases exists_address (i := i) (by omega) with ⟨v, hv⟩
    have hpage : v.toNat / 4096 = i := by omega
    by_contra hne
    have hwalk := h.dir.walk_isSome v
    rw [hpage, bne_iff_ne.mpr hne] at hwalk
    rcases hmaps v hwalk with hin | hwindow
    · rw [hpage] at hin
      exact hout hin
    · omega
  · intro hrest v hv
    by_cases hin : KernelPage kend (v.toNat / 4096)
    · exact Or.inl hin
    · right
      by_contra hlow
      have hi : v.toNat / 4096 < 1023 * 1024 := by omega
      rw [h.dir.walk_isSome v, hrest _ hi hin] at hv
      exact absurd hv (by decide)

theorem RestNotPresent.congr {kend : Word} {m m' : Mem}
    (heq : ∀ i, i < 1023 * 1024 → ¬ KernelPage kend i → tableEntry m' i = tableEntry m i)
    (h : RestNotPresent kend m) : RestNotPresent kend m' := by
  intro i hi hout
  rw [heq i hi hout]
  exact h i hi hout

/-- **What is mapped.** After `mm_bootstrap` nothing but the kernel image and the
recursive window is mapped exactly if memory happened to hold no present entry in the
rest of the 4 MiB that became page tables. -/
theorem mmBootstrap_maps_iff (L : LoaderLayout) {kend : Word} (hlo : 0xC0000000 < kend.toNat)
    (hhi : kend.toNat ≤ 0xC0400000) {mc : Machine} (h : LoaderPaging L mc) :
    ∃ mc', mmBootstrap kend 1024 mc = some mc' ∧
      (MapsNothingElse kend mc' ↔ RestNotPresent kend mc.mem) := by
  rcases mmBootstrap_writes L h hlo hhi (Nat.le_refl 1024) with ⟨mc', hres, hpaging, hframe⟩
  have hkept := fun i hi hout => tableEntry_kept hhi hframe (i := i) hi hout
  refine ⟨mc', hres, hpaging.maps_iff.trans ?_⟩
  constructor
  · intro hrest
    exact hrest.congr (fun i hi hout => (hkept i hi hout).symm)
  · intro hrest
    exact hrest.congr hkept

/-- From memory full of zeros on, a kernel of 64 KiB. -/
theorem mmBootstrap_maps_iff_zero :
    ∃ mc mc', common32 demoLayout 1024 (fun _ => 0) 0x10000 = some mc ∧
      mmBootstrap 0xC0110000 1024 mc = some mc' ∧ MapsNothingElse 0xC0110000 mc' := by
  rcases common32_paging demoLayout (fun _ => 0) 0x10000 (Nat.le_refl 1024) with
    ⟨mc, hmc, hpaging, hframe⟩
  have hlow : 0xC0000000 < (0xC0110000 : Word).toNat := by decide
  rcases mmBootstrap_maps_iff demoLayout hlow (by decide) hpaging with
    ⟨mc', hres, hiff⟩
  refine ⟨mc, mc', hmc, hres, hiff.mpr ?_⟩
  intro i hi _
  have hsize : (0x10000 : Word).toNat = 0x10000 := rfl
  have hzero : tableEntry mc.mem i = 0 := by
    rw [tableEntry, Mem.read32, hframe _ (by bv_omega), hframe _ (by bv_omega),
      hframe _ (by bv_omega), hframe _ (by bv_omega)]
    rfl
  rw [hzero]
  rfl

/-- The first 4 MiB of the address space are mapped if memory is full of ones. -/
theorem mmBootstrap_maps_counterexample :
    ∃ mc mc', common32 demoLayout 1024 (fun _ => 0xFF) 0x10000 = some mc ∧
      mmBootstrap 0xC0110000 1024 mc = some mc' ∧ ¬ MapsNothingElse 0xC0110000 mc' := by
  rcases common32_paging demoLayout (fun _ => 0xFF) 0x10000 (Nat.le_refl 1024) with
    ⟨mc, hmc, hpaging, hframe⟩
  have hlow : 0xC0000000 < (0xC0110000 : Word).toNat := by decide
  rcases mmBootstrap_writes demoLayout hpaging hlow (by decide) (Nat.le_refl 1024) with
    ⟨mc', hres, hkernel, hkept⟩
  have hout : ¬ KernelPage 0xC0110000 0 := by
    rw [kernelPage_iff (by decide)]
    omega
  have hsize : (0x10000 : Word).toNat = 0x10000 := rfl
  have hones : tableEntry mc'.mem 0 = 0xFFFFFFFF := by
    rw [tableEntry_kept (by decide) hkept (by omega) hout, tableEntry, Mem.read32,
      hframe _ (by bv_omega), hframe _ (by bv_omega), hframe _ (by bv_omega),
      hframe _ (by bv_omega)]
    rfl
  refine ⟨mc, mc', hmc, hres, ?_⟩
  intro hmaps
  have hzero : (0 : Word).toNat / 4096 = 0 := rfl
  have hwalk := hkernel.dir.walk_isSome 0
  rw [hzero, hones] at hwalk
  rw [MapsNothingElse, hkernel.cr3] at hmaps
  rcases hmaps 0 hwalk with hin | hwindow
  · exact hout hin
  · exact absurd hwindow (by decide)

end StupidOS.Kernel
