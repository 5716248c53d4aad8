import StupidOS.Kernel.PmmInit

/-!
# First fit (`pmm_alloc`)

`pmm_alloc` is to hand out the last `n` pages of the first block that holds as many
(`FirstFit`). It shifts the count, which loses bits from 2^20 pages on, and compares
signed, which turns blocks and requests from 2^31 bytes on negative. It is right as long
as the comparison is, up to the first block that is large enough (`SearchMeets`).
-/

namespace StupidOS.Kernel

variable {K : KernelImage}

/-! ## What is asked for -/

/-- Block `p` holds `n` pages. -/
def holdsPages (m : Mem) (n p : Word) : Bool := decide (4096 * n.toNat ≤ (m.read32 p).toNat)

/-- The free list of a machine: blocks of whole pages that share nothing. -/
structure WellFormed (K : KernelImage) (mc : Machine) (l : List Word) : Prop where
  free : FreeList K mc l
  size : ∀ p ∈ l, (mc.mem.read32 p).toNat % 4096 = 0 ∧ 0 < (mc.mem.read32 p).toNat
  top : ∀ p ∈ l, p.toNat + (mc.mem.read32 p).toNat ≤ 2 ^ 32
  disjoint : (l.map (blockAt mc.mem)).Pairwise Extent.Apart

/-- The last `n` pages of the first block that holds them, or ENOMEM. -/
def FirstFit (K : KernelImage) (mc : Machine) (l : List Word) (n : Word) (r : PmmResult) : Prop :=
  match l.find? (holdsPages mc.mem n) with
  | none => r.eax = 0 ∧ r.edx = enomem ∧ FreeList K r.mc l ∧
      ∀ q ∈ l, r.mc.mem.read32 q = mc.mem.read32 q
  | some p =>
      r.eax.toNat = p.toNat + ((mc.mem.read32 p).toNat - 4096 * n.toNat) ∧ r.edx = 0 ∧
        ((∃ w : Word, w ≠ 0 ∧ w.toNat = (mc.mem.read32 p).toNat - 4096 * n.toNat ∧
            Shortened K mc l p w r.mc) ∨
          (mc.mem.read32 p).toNat = 4096 * n.toNat ∧ Unlinked K mc l p r.mc)

/-! ## Where the comparison is right -/

/-- The sizes at which the comparison for `n` pages is right. -/
def ComparesRight (n size : Word) : Prop :=
  if n.toNat < 2 ^ 19 then size.toNat < 2 ^ 31
  else if n.toNat < 2 ^ 20 then 2 ^ 31 ≤ size.toNat
  else if n.toNat % 2 ^ 20 < 2 ^ 19 then
    size.toNat < 4096 * (n.toNat % 2 ^ 20) ∨ 2 ^ 31 ≤ size.toNat
  else 2 ^ 31 ≤ size.toNat ∧ size.toNat < 4096 * (n.toNat % 2 ^ 20)

/-- It is right up to the first block that is large enough. -/
def SearchMeets (n : Word) : List Word → Prop
  | [] => True
  | size :: sizes => ComparesRight n size ∧
      (size.toNat < 4096 * n.toNat → SearchMeets n sizes)

instance (n size : Word) : Decidable (ComparesRight n size) :=
  inferInstanceAs (Decidable (ite _ _ _))

instance decidableSearchMeets (n : Word) : (sizes : List Word) → Decidable (SearchMeets n sizes)
  | [] => isTrue trivial
  | size :: sizes =>
    have : Decidable (SearchMeets n sizes) := decidableSearchMeets n sizes
    inferInstanceAs (Decidable (ComparesRight n size ∧
      (size.toNat < 4096 * n.toNat → SearchMeets n sizes)))

theorem toNat_shl12 (n : Word) : (n <<< 12).toNat = 4096 * (n.toNat % 2 ^ 20) := by
  rw [BitVec.toNat_shiftLeft, Nat.shiftLeft_eq]
  omega

/-- The comparison in unsigned terms. -/
theorem slt_shl12 (n size : Word) : size.slt (n <<< 12) = true ↔
    if n.toNat % 2 ^ 20 < 2 ^ 19 then
      size.toNat < 4096 * (n.toNat % 2 ^ 20) ∨ 2 ^ 31 ≤ size.toNat
    else 2 ^ 31 ≤ size.toNat ∧ size.toNat < 4096 * (n.toNat % 2 ^ 20) := by
  have hlt := size.isLt
  rw [BitVec.slt_eq_decide, toInt_eq_ite, toInt_eq_ite, toNat_shl12, decide_eq_true_eq]
  by_cases hm : n.toNat % 2 ^ 20 < 2 ^ 19
  · rw [if_pos hm, if_pos (show 4096 * (n.toNat % 2 ^ 20) < 2 ^ 31 by omega)]
    split
    · omega
    · omega
  · rw [if_neg hm, if_neg (show ¬ 4096 * (n.toNat % 2 ^ 20) < 2 ^ 31 by omega)]
    split
    · omega
    · omega

/-- `ComparesRight` says where the search and the first fit agree on a block. -/
theorem comparesRight_iff (m : Mem) (n p : Word) :
    ComparesRight n (m.read32 p) ↔ taken m n p = holdsPages m n p := by
  have hlt := (m.read32 p).isLt
  have hslt := slt_shl12 n (m.read32 p)
  unfold ComparesRight taken holdsPages
  generalize m.read32 p = size at hlt hslt ⊢
  rw [Bool.eq_iff_iff, Bool.not_eq_true', ← Bool.not_eq_true, hslt, decide_eq_true_eq]
  by_cases h19 : n.toNat < 2 ^ 19
  · have hmod : n.toNat % 2 ^ 20 = n.toNat := Nat.mod_eq_of_lt (by omega)
    rw [if_pos h19, hmod, if_pos h19]
    omega
  · rw [if_neg h19]
    by_cases h20 : n.toNat < 2 ^ 20
    · have hmod : n.toNat % 2 ^ 20 = n.toNat := Nat.mod_eq_of_lt h20
      rw [if_pos h20, hmod, if_neg h19]
      omega
    · rw [if_neg h20]
      by_cases hm : n.toNat % 2 ^ 20 < 2 ^ 19
      · rw [if_pos hm]
        omega
      · rw [if_neg hm]
        omega

/-- The search comes to the first fit if and only if the comparison is right up to it. -/
theorem searchMeets_iff (m : Mem) (n : Word) (l : List Word) :
    SearchMeets n (l.map m.read32) ↔ l.find? (taken m n) = l.find? (holdsPages m n) := by
  induction l with
  | nil => exact iff_of_true trivial rfl
  | cons p l ih =>
      rw [List.map_cons, SearchMeets, comparesRight_iff, ih, List.find?_cons, List.find?_cons]
      have hsmall : (m.read32 p).toNat < 4096 * n.toNat ↔ holdsPages m n p = false := by
        rw [holdsPages, decide_eq_false_iff_not]
        omega
      rw [hsmall]
      cases hfit : holdsPages m n p with
      | true =>
          cases htaken : taken m n p with
          | true => simp
          | false =>
              -- the search goes on, past the first fit
              refine iff_of_false (by simp) ?_
              intro hfind
              rw [List.find?_some hfind] at htaken
              exact absurd htaken (by decide)
      | false =>
          cases htaken : taken m n p with
          | true =>
              refine iff_of_false (by simp) ?_
              intro hfind
              rw [List.find?_some hfind.symm] at hfit
              exact absurd hfit (by decide)
          | false => simp

/-! ## The result -/

/-- Where the search comes to the first fit, `pmm_alloc` does what is asked for. -/
theorem AllocLeaves.firstFit {mc : Machine} {l : List Word} (h : WellFormed K mc l) {n : Word}
    (hn : 1 ≤ n.toNat) {r : PmmResult}
    (hleaves : AllocLeaves K mc l n r (l.find? (holdsPages mc.mem n))) : FirstFit K mc l n r := by
  unfold FirstFit
  cases hfind : l.find? (holdsPages mc.mem n) with
  | none =>
      rw [hfind] at hleaves
      rcases hleaves with ⟨heax, hedx, w, hmc⟩
      rcases h.free.temp w with ⟨hfree, hsame⟩
      rw [hmc]
      exact ⟨heax, hedx, hfree, hsame⟩
  | some p =>
      rw [hfind] at hleaves
      rcases hleaves with ⟨heax, hedx, hcases⟩
      have hpl := List.mem_of_find?_eq_some hfind
      have hfit : 4096 * n.toNat ≤ (mc.mem.read32 p).toNat := by
        simpa [holdsPages] using List.find?_some hfind
      -- the block ends below 2^32, so nothing wraps around
      have htop := h.top p hpl
      have hlt := (mc.mem.read32 p).isLt
      have hshift : (n <<< 12).toNat = 4096 * n.toNat := by
        rw [toNat_shl12, Nat.mod_eq_of_lt (by omega)]
      have hsub : (mc.mem.read32 p - n <<< 12).toNat =
          (mc.mem.read32 p).toNat - 4096 * n.toNat := by
        rw [BitVec.toNat_sub_of_le (by rw [BitVec.le_def]; omega), hshift]
      refine ⟨?_, hedx, ?_⟩
      · rw [heax, BitVec.toNat_add, hsub, Nat.mod_eq_of_lt (by omega)]
      · rcases hcases with ⟨hne, hmc⟩ | ⟨heq, hmc⟩
        · left
          refine ⟨_, ?_, hsub, hmc⟩
          intro h0
          exact hne (by bv_omega)
        · right
          exact ⟨by rw [heq, hshift], hmc⟩

/-- Two results are about the same block. -/
theorem FirstFit.found {mc : Machine} {l : List Word} (h : FreeList K mc l) {n : Word}
    (hn : 1 ≤ n.toNat) {r : PmmResult} {found : Option Word}
    (hmem : ∀ q, found = some q → q ∈ l) (hleaves : AllocLeaves K mc l n r found)
    (hfit : FirstFit K mc l n r) : found = l.find? (holdsPages mc.mem n) := by
  unfold FirstFit at hfit
  cases hfind : l.find? (holdsPages mc.mem n) with
  | none =>
      rw [hfind] at hfit
      cases found with
      | none => rfl
      | some q =>
          -- success is reported by EDX
          have hedx := hfit.2.1
          rw [hleaves.2.1] at hedx
          exact absurd hedx (by decide)
  | some p =>
      rw [hfind] at hfit
      rcases hfit with ⟨heax, -, hcases⟩
      have hpl := List.mem_of_find?_eq_some hfind
      have hholds : 4096 * n.toNat ≤ (mc.mem.read32 p).toNat := by
        simpa [holdsPages] using List.find?_some hfind
      cases found with
      | none =>
          have hne : p.toNat ≠ 0 := by
            intro h0
            exact Chain.ne_nil h.list p hpl (BitVec.eq_of_toNat_eq h0)
          rw [hleaves.1] at heax
          change 0 = _ at heax
          omega
      | some q =>
          by_contra hqp
          have hne : p ≠ q := fun heq => hqp (by rw [heq])
          have hql := hmem q rfl
          have hlists : PmmList K r.mc.mem l ∧ r.mc.mem.read32 p = mc.mem.read32 p ∨
              PmmList K r.mc.mem (l.erase q) ∧ r.mc.mem.read32 p = mc.mem.read32 p := by
            rcases hleaves.2.2 with ⟨-, hmc⟩ | ⟨-, hmc⟩
            · exact Or.inl ⟨hmc.free.list, hmc.others p hpl hne⟩
            · exact Or.inr ⟨hmc.free.list, hmc.others p hpl hne⟩
          rcases hcases with ⟨w, -, hw, hmc⟩ | ⟨-, hmc⟩
          · -- the first fit is shorter than before
            have hsize := hmc.size
            have hpos := hholds
            rcases hlists with ⟨-, hsame⟩ | ⟨-, hsame⟩
            · rw [hsame] at hsize
              rw [hsize] at hw hpos
              omega
            · rw [hsame] at hsize
              rw [hsize] at hw hpos
              omega
          · -- the first fit is off the list
            have hnot : p ∉ l.erase p := h.nodup.not_mem_erase
            rcases hlists with ⟨hlist, -⟩ | ⟨hlist, -⟩
            · have heq := Chain.unique hmc.free.list hlist
              rw [heq] at hnot
              exact hnot hpl
            · have heq := Chain.unique hmc.free.list hlist
              rw [heq] at hnot
              exact hnot ((List.mem_erase_of_ne hne).mpr hpl)

/-- **Exact first fit.** `pmm_alloc` returns, and hands out the last pages of the first
block that is large enough exactly when the comparison is right up to that block. -/
theorem pmmAlloc_firstFit_iff {mc : Machine} {l : List Word} (h : WellFormed K mc l) {n : Word}
    (hn : 1 ≤ n.toNat) (regs : SavedRegs) :
    ∃ fuel r, pmmAlloc K fuel mc n regs = some r ∧
      (FirstFit K mc l n r ↔ SearchMeets n (l.map mc.mem.read32)) := by
  rcases pmmAlloc_spec h.free n regs (Nat.lt_succ_self l.length) with ⟨r, hr, hleaves⟩
  refine ⟨_, r, hr, ?_⟩
  rw [searchMeets_iff]
  constructor
  · intro hfit
    exact FirstFit.found h.free hn (fun q hq => List.mem_of_find?_eq_some hq) hleaves hfit
  · intro hfind
    rw [hfind] at hleaves
    exact AllocLeaves.firstFit h hn hleaves

/-- A machine with given sizes of memory, before `pmm_init`. -/
theorem exists_machine (K : KernelImage) (low high : Word) : ∃ mc, KernelPaging K.kend mc ∧
    mc.mem.read32 K.headPhys = 0 ∧ mc.mem.read32 (K.lowMem - kernelVirtBase) = low ∧
    mc.mem.read32 (K.highMem - kernelVirtBase) = high := by
  rcases exists_emptyMachine K low with ⟨mc, hpaging, -, hlow, hempty⟩
  rcases lowMem_word (K := K) with ⟨-, hlnat⟩
  rcases highMem_word (K := K) with ⟨hin, hhnat⟩
  rcases K.imageEnd_bounds with ⟨hend, hheadlow, himage⟩
  have hhi := K.kend_high
  have hapart := K.apart
  have hphys := K.headPhys_toNat
  have hhlow := K.head_low
  have hbhigh := K.boot_high
  have hblow := K.boot_low
  refine ⟨mc.put (K.highMem - kernelVirtBase) high, hpaging.put hhi (hin.offPaging hhi) high, ?_, ?_,
    Mem.read32_write32 _ _ _⟩
  · have hzero : ∀ x : Word, K.headPhys.toNat ≤ x.toNat → x.toNat < K.headPhys.toNat + 4 →
        mc.mem x = 0 := fun x hx hx' => hempty x (by omega) (by omega) (by bv_omega)
    rw [Machine.put_mem, Mem.read32_write32_of_sep _ _
      (Sep.of_le (by omega) (by omega) (by omega) (by omega) (by omega)), Mem.read32,
      hzero _ (by bv_omega) (by bv_omega), hzero _ (by bv_omega) (by bv_omega),
      hzero _ (by bv_omega) (by bv_omega), hzero _ (by bv_omega) (by bv_omega)]
    rfl
  · rw [Machine.put_mem, Mem.read32_write32_of_sep _ _
      (Sep.of_le (by omega) (by omega) (by omega) (by omega) (by omega)), hlow]

/-- What `pmm_init` leaves on a machine with 16 MiB is a list of two blocks. -/
theorem exists_demoList : ∃ mc, WellFormed demoImage mc [0x800000, 0x110000] ∧
    mc.mem.read32 0x800000 = 0x800000 ∧ mc.mem.read32 0x110000 = 0x2F0000 := by
  rcases exists_machine demoImage 0 0x1000000 with ⟨mc₀, hpaging, hhead, hlow, hhigh⟩
  rcases pmmInit_list hpaging hhead hlow (Or.inl (by decide)) hhigh ⟨0, 0, 0⟩
    (Nat.lt_succ_self 256) with ⟨mc, regs, -, hfree, hsize, hsizes, -⟩
  have hbelow : belowBlocks demoImage = [0x110000] := by decide
  have hfirst : demoImage.firstPage = 0x110000 := by decide
  rw [hbelow] at hfree hsizes
  have hsize' : mc.mem.read32 0x800000 = 0x800000 := by
    rw [hsize]
    decide
  have hsize₂ : mc.mem.read32 0x110000 = 0x2F0000 := by
    apply BitVec.eq_of_toNat_eq
    rw [hsizes _ (by simp), hfirst]
    decide
  refine ⟨mc, ⟨hfree, ?_, ?_, ?_⟩, hsize', hsize₂⟩
  · intro p hp
    rcases List.mem_cons.mp hp with rfl | hp
    · rw [hsize']
      decide
    · rw [List.mem_singleton.mp hp, hsize₂]
      decide
  · intro p hp
    rcases List.mem_cons.mp hp with rfl | hp
    · rw [hsize']
      decide
    · rw [List.mem_singleton.mp hp, hsize₂]
      decide
  · simp only [List.map_cons, List.map_nil, blockAt, hsize', hsize₂]
    refine List.pairwise_cons.mpr ⟨?_, List.pairwise_singleton _ _⟩
    intro e he
    rw [List.mem_singleton.mp he]
    right
    decide

/-- One page of 16 MiB. -/
theorem pmmAlloc_firstFit_iff_demo : ∃ mc, WellFormed demoImage mc [0x800000, 0x110000] ∧
    ∃ fuel r, pmmAlloc demoImage fuel mc 1 ⟨0, 0, 0⟩ = some r ∧
      FirstFit demoImage mc [0x800000, 0x110000] 1 r := by
  rcases exists_demoList with ⟨mc, h, hsize, hsize₂⟩
  rcases pmmAlloc_firstFit_iff h (n := 1) (by decide) ⟨0, 0, 0⟩ with ⟨fuel, r, hr, hiff⟩
  refine ⟨mc, h, fuel, r, hr, hiff.mpr ?_⟩
  simp only [List.map_cons, List.map_nil, hsize, hsize₂]
  decide

/-- A request for 2 GiB from a list of 11 MiB does not fail. -/
theorem pmmAlloc_firstFit_counterexample :
    ∃ mc, WellFormed demoImage mc [0x800000, 0x110000] ∧
      ∃ r, pmmAlloc demoImage 3 mc 0x80000 ⟨0, 0, 0⟩ = some r ∧ r.edx = 0 ∧
        ¬ FirstFit demoImage mc [0x800000, 0x110000] 0x80000 r := by
  rcases exists_demoList with ⟨mc, h, hsize, hsize₂⟩
  rcases pmmAlloc_spec h.free 0x80000 ⟨0, 0, 0⟩ (Nat.lt_succ_self 2) with ⟨r, hr, hleaves⟩
  have htaken : [0x800000, 0x110000].find? (taken mc.mem 0x80000) = some 0x800000 := by
    rw [List.find?_cons, taken, hsize]
    rfl
  have hnone : [0x800000, 0x110000].find? (holdsPages mc.mem 0x80000) = none := by
    simp only [List.find?_cons, holdsPages, hsize, hsize₂]
    rfl
  rw [htaken] at hleaves
  refine ⟨mc, h, r, hr, hleaves.2.1, ?_⟩
  intro hfit
  unfold FirstFit at hfit
  rw [hnone] at hfit
  have hedx := hfit.2.1
  rw [hleaves.2.1] at hedx
  exact absurd hedx (by decide)

end StupidOS.Kernel
