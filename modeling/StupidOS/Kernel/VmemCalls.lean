import StupidOS.Kernel.VmemRuns

/-!
# When `vmem_alloc` returns, and what

A call returns exactly if its search ends (`Kernel.VmemSearch`): with the base in
descriptor 63 if the search hit a list, and with nothing otherwise.
-/

namespace StupidOS.Kernel

section Search

variable {S : VmemStatics} {A : VmemArena S}

/-! ## What a call stores to -/

variable (A) in
/-- A word apart from all that a call on the arena stores to. -/
structure Aside (a : Word) : Prop where
  pool : OffPool S a
  lists : ∀ i, i < 32 → Sep a 4 (A.freelist i) 4
  fields : ∀ k : Word, k.toNat ≤ 16 → Sep a 4 (S.field k) 4

theorem addToFreelist_frame {m : Mem} (h : ArenaLists A m) {a : Word} (ha : Aside A a) :
    (vmemAddToFreelist m A.addr (S.seg 63)).read32 a = m.read32 a := by
  have hlog := @log2_lt (m.read32 (S.field segSize))
  rw [vmemAddToFreelist_eq]
  rcases h.stuck.insert S (offPool_freelist A hlog) (h.lists _ hlog) with ⟨-, -, -, hoff⟩
  exact hoff a ha.pool (ha.lists _ hlog)

theorem foundMem_frame {m : Mem} (h : ArenaLists A m) (base edi : Word) {a : Word}
    (ha : Aside A a) : (foundMem S m A.addr base edi).read32 a = m.read32 a := by
  have hb : segBase.toNat ≤ 16 := by decide
  have hs : segSize.toNat ≤ 16 := by decide
  have ht : segType.toNat ≤ 16 := by decide
  rw [foundMem, Mem.read32_write32_of_sep _ _ (ha.fields _ ht)]
  split
  · rfl
  · rcases splitFields_lists A h base edi with ⟨h', -, -⟩
    rw [addToFreelist_frame h' ha, splitFields, Mem.read32_write32_of_sep _ _ (ha.fields _ hs),
      Mem.read32_write32_of_sep _ _ (ha.fields _ hb), Mem.read32_write32_of_sep _ _ (ha.fields _ hb),
      Mem.read32_write32_of_sep _ _ (ha.fields _ hs)]

variable (A) in
/-- Memory after a call on the arena that returned. -/
structure Called (m m' : Mem) : Prop where
  linked : ArenaLinked A m'
  self : m'.read32 S.top = S.top
  frame : ∀ a, Aside A a → m'.read32 a = m.read32 a

/-! ## The outcome of a call -/

/-- A call whose search hits a list hands out the base in descriptor 63. -/
theorem xallocHit_called {m : Mem} (h : ArenaLinked A m) {i : Nat} (hi : i < 32)
    (hne : m.read32 (A.freelist i) ≠ 0) (size : Word) :
    ∃ m', (let (m, local8, local4, edi) :=
        xallocFound m A.addr size (S.seg 63) (S.seg 63) (S.seg 63) A.base
      some (xallocEnd S m edi 0 local4 local8)) = some (A.base, 0, m') ∧ Called A m m' := by
  rcases h.segs i hi hne with ⟨hlists, hbase⟩
  rcases foundMem_lists A hlists size with ⟨hlists₁, -⟩
  have hbase₁ := foundMem_base A hlists hbase size
  have h4 : (if TakenWhole S m A.addr size then S.seg 63 else 0) = 0 ∨
      (if TakenWhole S m A.addr size then S.seg 63 else 0) = S.seg 63 := by
    split
    · exact Or.inr rfl
    · exact Or.inl rfl
  rcases xallocEnd_spec A (m := foundMem S m A.addr A.base size)
    ⟨hlists₁.stuck, fun _ _ _ => ⟨hlists₁, hbase₁⟩⟩ A.base 0 h4 with ⟨m', heq, h', hnext, hoff⟩
  rw [xallocFound_eq A hlists hbase size]
  dsimp only
  rw [heq]
  refine ⟨m', rfl, h', hnext, ?_⟩
  intro a ha
  rw [hoff a ha.pool, foundMem_frame hlists A.base size ha]

/-- A call that comes to `.fail` with both descriptors. -/
theorem xallocFail_called {m : Mem} (h : ArenaLinked A m) :
    ∃ m', xallocEnd S m 0 enomem (S.seg 63) (S.seg 63) = (0, enomem, m') ∧ Called A m m' := by
  rcases xallocEnd_spec A h 0 enomem (Or.inr rfl) with ⟨m', heq, h', hnext, hoff⟩
  exact ⟨m', heq, h', hnext, fun a ha => hoff a ha.pool⟩

/-- Memory before the call may differ in the pool. -/
theorem Called.of_offPool {m m₂ m' : Mem} (h : Called A m₂ m')
    (hoff : ∀ a, OffPool S a → m₂.read32 a = m.read32 a) : Called A m m' :=
  ⟨h.linked, h.self, fun a ha => (h.frame a ha).trans (hoff a ha.pool)⟩

section Congr

variable {m m₂ : Mem} (hoff : ∀ a, OffPool S a → m₂.read32 a = m.read32 a)
include hoff

theorem hit_congr {size flags : Word} {i : Nat} (hi : i < 32) :
    Hit A m₂ size flags i ↔ Hit A m size flags i := by
  rw [Hit, Hit, hoff _ (offPool_freelist A hi), hoff _ (offPool_field S (by decide))]

theorem found_congr (size flags : Word) : Found A m₂ size flags ↔ Found A m size flags := by
  constructor
  · intro h
    rcases h with ⟨i, hlo, hhi, hhit⟩
    exact ⟨i, hlo, hhi, (hit_congr hoff hhi).mp hhit⟩
  · intro h
    rcases h with ⟨i, hlo, hhi, hhit⟩
    exact ⟨i, hlo, hhi, (hit_congr hoff hhi).mpr hhit⟩

theorem searchFinds_congr (size flags : Word) :
    SearchFinds A m₂ size flags ↔ SearchFinds A m size flags := by
  constructor
  · intro h
    rcases h with ⟨i, hlo, hhi, hne⟩
    rw [hoff _ (offPool_freelist A hhi)] at hne
    exact ⟨i, hlo, hhi, hne⟩
  · intro h
    rcases h with ⟨i, hlo, hhi, hne⟩
    rw [← hoff _ (offPool_freelist A hhi)] at hne
    exact ⟨i, hlo, hhi, hne⟩

theorem searchEnds_congr (htop : m₂.read32 S.top = m.read32 S.top) (size flags : Word) :
    SearchEnds A m₂ size flags ↔ SearchEnds A m size flags := by
  rw [SearchEnds, SearchEnds, found_congr hoff, searchFinds_congr hoff, htop]

end Congr

/-- What a call does whose search ends: it hands out the base in descriptor 63 if the search
hit a list, and fails otherwise. -/
theorem vmemAlloc_ends {m : Mem} (h : ArenaLinked A m) {size flags : Word}
    (hflags : flags &&& vmemVmFitMask ≠ 0) (hends : SearchEnds A m size flags)
    (junk : Word × Word × Word) :
    ∃ eax edx m', vmemAlloc S 201 m A.addr size flags junk = some (eax, edx, m') ∧
      Called A m m' ∧
      (Found A m size flags ∧ eax = A.base ∧ edx = 0 ∨
        ¬ Found A m size flags ∧ eax = 0 ∧ edx = enomem) := by
  rcases vmemAlloc_eq A h size hflags with ⟨m₂, quantum, h₂, hnext₂, hoff₂, heq⟩
  have hends₂ := (searchEnds_congr hoff₂ hnext₂ size flags).mpr hends
  rcases search_outcome (a := ⟨A.addr, size, quantum, 0, 0, 0, -1, flags⟩) h₂ rfl hends₂ junk.1
    junk.2.1 junk.2.2 with ⟨r, hrun, houtcome⟩
  have heq := heq 201 junk
  rw [hrun] at heq
  rcases houtcome with ⟨hfound, rfl⟩ | ⟨hmiss, rfl⟩
  · rcases hfound with ⟨i, hlo, hhi, hhit⟩
    rcases xallocHit_called h₂ hhi hhit.1 size with ⟨m', hr, hcalled⟩
    refine ⟨A.base, 0, m', heq.trans hr, hcalled.of_offPool hoff₂, Or.inl ⟨?_, rfl, rfl⟩⟩
    exact (found_congr hoff₂ size flags).mp ⟨i, hlo, hhi, hhit⟩
  · rcases xallocFail_called h₂ with ⟨m', hr, hcalled⟩
    dsimp only at heq
    rw [hr] at heq
    refine ⟨0, enomem, m', heq, hcalled.of_offPool hoff₂, Or.inr ⟨?_, rfl, rfl⟩⟩
    exact fun hfound => hmiss ((found_congr hoff₂ size flags).mpr hfound)

/-- A call whose search does not end does not return. -/
theorem vmemAlloc_circles {m : Mem} (h : ArenaLinked A m) {size flags : Word}
    (hflags : flags &&& vmemVmFitMask ≠ 0) (hends : ¬ SearchEnds A m size flags) (fuel : Nat)
    (junk : Word × Word × Word) : vmemAlloc S fuel m A.addr size flags junk = none := by
  rcases vmemAlloc_eq A h size hflags with ⟨m₂, quantum, h₂, hnext₂, hoff₂, heq⟩
  have hends₂ : ¬ SearchEnds A m₂ size flags :=
    fun h' => hends ((searchEnds_congr hoff₂ hnext₂ size flags).mp h')
  have hrun := search_circles (a := ⟨A.addr, size, quantum, 0, 0, 0, -1, flags⟩) h₂ rfl hends₂
    junk.1 junk.2.1 junk.2.2 fuel
  rw [heq fuel junk, hrun]

/-- All fuels that suffice give one result. -/
theorem vmemAlloc_unique {m : Mem} (h : ArenaLinked A m) {size flags : Word}
    (hflags : flags &&& vmemVmFitMask ≠ 0) {fuel fuel' : Nat} {junk : Word × Word × Word}
    {r r' : Word × Word × Mem} (hr : vmemAlloc S fuel m A.addr size flags junk = some r)
    (hr' : vmemAlloc S fuel' m A.addr size flags junk = some r') : r = r' := by
  rcases vmemAlloc_eq A h size hflags with ⟨m₂, quantum, -, -, -, heq⟩
  rw [heq fuel junk] at hr
  rw [heq fuel' junk] at hr'
  cases hrun : iterate (xallocBody m₂ ⟨A.addr, size, quantum, 0, 0, 0, -1, flags⟩) fuel
      ⟨.retryStrat, junk.1, junk.2.1, junk.2.2⟩ with
  | none =>
      rw [hrun] at hr
      cases hr
  | some found =>
      cases hrun' : iterate (xallocBody m₂ ⟨A.addr, size, quantum, 0, 0, 0, -1, flags⟩) fuel'
          ⟨.retryStrat, junk.1, junk.2.1, junk.2.2⟩ with
      | none =>
          rw [hrun'] at hr'
          cases hr'
      | some found' =>
          have hsame := iterate_unique hrun hrun'
          rw [hrun] at hr
          rw [hrun', ← hsame] at hr'
          exact Option.some.inj (hr.symm.trans hr')

/-- More fuel does not change a result. -/
theorem vmemAlloc_mono {m : Mem} (h : ArenaLinked A m) {size flags : Word}
    (hflags : flags &&& vmemVmFitMask ≠ 0) {fuel fuel' : Nat} (hle : fuel ≤ fuel')
    {junk : Word × Word × Word} {r : Word × Word × Mem}
    (hr : vmemAlloc S fuel m A.addr size flags junk = some r) :
    vmemAlloc S fuel' m A.addr size flags junk = some r := by
  rcases vmemAlloc_eq A h size hflags with ⟨m₂, quantum, -, -, -, heq⟩
  rw [heq fuel junk] at hr
  rw [heq fuel' junk]
  cases hrun : iterate (xallocBody m₂ ⟨A.addr, size, quantum, 0, 0, 0, -1, flags⟩) fuel
      ⟨.retryStrat, junk.1, junk.2.1, junk.2.2⟩ with
  | none =>
      rw [hrun] at hr
      cases hr
  | some found =>
      rw [hrun] at hr
      rw [iterate_mono hle hrun]
      exact hr

/-- What a call that returned has done. -/
theorem vmemAlloc_result {m m' : Mem} (h : ArenaLinked A m) {size flags eax edx : Word}
    (hflags : flags &&& vmemVmFitMask ≠ 0) {fuel : Nat} {junk : Word × Word × Word}
    (hr : vmemAlloc S fuel m A.addr size flags junk = some (eax, edx, m')) :
    SearchEnds A m size flags ∧ Called A m m' ∧
      (Found A m size flags ∧ eax = A.base ∧ edx = 0 ∨
        ¬ Found A m size flags ∧ eax = 0 ∧ edx = enomem) := by
  by_cases hends : SearchEnds A m size flags
  · rcases vmemAlloc_ends h hflags hends junk with ⟨eax', edx', m'', hr', hcalled, hcases⟩
    have hsame := vmemAlloc_unique h hflags hr hr'
    rw [Prod.mk.injEq, Prod.mk.injEq] at hsame
    rcases hsame with ⟨rfl, rfl, rfl⟩
    exact ⟨hends, hcalled, hcases⟩
  · rw [vmemAlloc_circles h hflags hends] at hr
    cases hr

end Search

end StupidOS.Kernel
