import StupidOS.Kernel.VmemArena

/-!
# The search of `vmem_xalloc`

The search has three ways to go. It hits a list that it can take a segment from
(`Found`); with a best fit it can run out of lists, and fail; or it goes round for ever:
an instant fit that hits nothing starts again with the flags it had, and a best fit that
passes over descriptor 63, once that is linked to itself, never leaves its list.
-/

namespace StupidOS.Kernel

section Search

variable {S : VmemStatics} (A : VmemArena S)

/-! ## Where it starts, and what it reads -/

/-- The first free list that a search reads. -/
def startClass (size flags : Word) : Nat :=
  if flags &&& vmemVmInstantfit = 0 ∨ size &&& (size - 1) = 0 then
    Nat.log2 size.toNat
  else
    Nat.log2 size.toNat + 1

/-- The comparison that ends the scan of the lists. -/
theorem freelist_slt {j : Nat} (hj : j ≤ 32) :
    (A.freelist j).slt (A.addr + vmHashtable) = decide (j < 32) := by
  have hw : (A.freelist j).toNat = A.addr.toNat + (56 + 4 * j) := A.word_toNat (by omega)
  have hend : (A.addr + vmHashtable).toNat = A.addr.toNat + 184 :=
    A.word_toNat (k := 184) (by omega)
  rcases A.half with hlow | hhigh
  · rw [slt_of_lt (by omega) (by omega), hw, hend, decide_eq_decide]
    omega
  · rw [slt_of_ge (by omega) (by omega), hw, hend, decide_eq_decide]
    omega

theorem freelist_succ (j : Nat) : A.freelist j + 4 = A.freelist (j + 1) := by
  unfold VmemArena.freelist VmemArena.word
  bv_omega

/-- A list that holds a segment: what the search reads there. -/
theorem ArenaLinked.read {m : Mem} (h : ArenaLinked A m) {j : Nat} (hj : j < 32)
    (hne : m.read32 (A.freelist j) ≠ 0) :
    m.read32 (A.freelist j) - segSeglist = S.seg 63 ∧ m.read32 (S.seg 63 + segBase) = A.base ∧
      m.read32 (A.freelist j) = S.top ∧ (m.read32 S.top = 0 ∨ m.read32 S.top = S.top) := by
  obtain ⟨hlists, hbase⟩ := h.segs j hj hne
  have htop := (hlists.lists j hj).resolve_left hne
  exact ⟨by rw [htop, top_sub], hbase, htop, hlists.next⟩

/-- The state before a call: some list that the search reads holds a segment. -/
def SearchFinds (m : Mem) (size flags : Word) : Prop :=
  ∃ i, startClass size flags ≤ i ∧ i < 32 ∧ m.read32 (A.freelist i) ≠ 0

/-! ## The outcome of a search -/

/-- The search takes a segment from list `i`. A best fit wants one that is longer than the
request, as signed numbers. -/
def Hit (m : Mem) (size flags : Word) (i : Nat) : Prop :=
  m.read32 (A.freelist i) ≠ 0 ∧
    (flags &&& vmemVmInstantfit = 0 → size.slt (m.read32 (S.field segSize)))

/-- Some list from the first class on is a hit. -/
def Found (m : Mem) (size flags : Word) : Prop :=
  ∃ i, startClass size flags ≤ i ∧ i < 32 ∧ Hit A m size flags i

/-- The search ends: with a hit, or with a best fit that has no segment to pass over, or
passes over it into the end of the list. -/
def SearchEnds (m : Mem) (size flags : Word) : Prop :=
  Found A m size flags ∨
    flags &&& vmemVmInstantfit = 0 ∧ (¬ SearchFinds A m size flags ∨ m.read32 S.top = 0)

/-- No list before list `j` is a hit. -/
def PassedTo (m : Mem) (size flags : Word) (j : Nat) : Prop :=
  ∀ i, startClass size flags ≤ i → i < j → ¬ Hit A m size flags i

/-! ### Single steps -/

section Steps

variable {A} {m : Mem} {a : XallocArgs} (ha : a.esi = A.addr)
include ha

theorem xallocBody_retryStrat (local12 local16 local20 : Word) :
    xallocBody m a ⟨.retryStrat, local12, local16, local20⟩
      = some (.again ⟨.retry, A.freelist (Nat.log2 a.edi.toNat), local16, local20⟩) := by
  rw [xallocBody, ha]
  dsimp only
  rw [A.slot_eq]

omit ha in
/-- `.retry` goes to the first list that the strategy reads, wherever the lists are. -/
theorem xallocBody_retry {list : Nat → Word} (hnext : ∀ i, list i + 4 = list (i + 1))
    (local16 local20 : Word) :
    xallocBody m a ⟨.retry, list (Nat.log2 a.edi.toNat), local16, local20⟩
      = some (.again ⟨if a.flags &&& vmemVmInstantfit = 0 then .bestFit else .instantFit,
          list (startClass a.edi a.flags), local16, local20⟩) := by
  rw [xallocBody]
  dsimp only
  by_cases hbest : a.flags &&& vmemVmInstantfit = 0
  · rw [if_pos hbest, if_pos hbest, startClass, if_pos (Or.inl hbest)]
  · rw [if_neg hbest, if_neg hbest]
    by_cases hpow : a.edi &&& (a.edi - 1) = 0
    · rw [if_pos hpow, startClass, if_pos (Or.inr hpow)]
    · rw [if_neg hpow, startClass, if_neg (not_or.mpr ⟨hbest, hpow⟩), hnext]

theorem xallocBody_instant_end (local16 local20 : Word) :
    xallocBody m a ⟨.instantFit, A.freelist 32, local16, local20⟩
      = some (.again ⟨.next, A.freelist 32, local16, local20⟩) := by
  rw [xallocBody, ha]
  dsimp only
  rw [freelist_slt A (Nat.le_refl 32), if_pos (by decide)]

theorem xallocBody_instant_empty {j : Nat} (hj : j < 32) (h0 : m.read32 (A.freelist j) = 0)
    (local16 local20 : Word) :
    xallocBody m a ⟨.instantFit, A.freelist j, local16, local20⟩
      = some (.again ⟨.instantFit, A.freelist (j + 1), local16, local20⟩) := by
  rw [xallocBody, ha]
  dsimp only
  rw [freelist_slt A (Nat.le_of_lt hj), if_neg (not_not_intro (decide_eq_true hj)), if_pos h0,
    freelist_succ A]

theorem xallocBody_instant_hit (h : ArenaLinked A m) {j : Nat} (hj : j < 32)
    (hne : m.read32 (A.freelist j) ≠ 0) (local16 local20 : Word) :
    xallocBody m a ⟨.instantFit, A.freelist j, local16, local20⟩
      = some (.done (some (S.seg 63, A.base))) := by
  rcases h.read A hj hne with ⟨hseg, hbase, -, -⟩
  rw [xallocBody, ha]
  dsimp only
  rw [freelist_slt A (Nat.le_of_lt hj), if_neg (not_not_intro (decide_eq_true hj)), if_neg hne]
  simp only [vmemSegfit, hseg, hbase, if_true]

/-- At the end of list `j` the best fit goes on to the next list, or to `.next`. -/
theorem xallocBody_best_end {eax : Word} (h0 : m.read32 eax = 0) {j : Nat} (hj : j < 32)
    (local16 local20 : Word) :
    xallocBody m a ⟨.bestFitLoop eax, A.freelist j, local16, local20⟩
      = some (.again ⟨if j + 1 < 32 then .bestFit else .next, A.freelist (j + 1), local16,
          local20⟩) := by
  rw [xallocBody, ha]
  dsimp only
  rw [if_pos h0, freelist_succ A, freelist_slt A (show j + 1 ≤ 32 by omega)]
  by_cases hlast : j + 1 < 32
  · rw [if_pos (decide_eq_true hlast), if_pos hlast]
  · rw [if_neg (by rw [decide_eq_true_iff]; exact hlast), if_neg hlast]

omit ha in
/-- At descriptor 63 the best fit takes it, or passes over it. -/
theorem xallocBody_best_seg {base : Word} (hbase : m.read32 (S.seg 63 + segBase) = base)
    {eax : Word} (htop : m.read32 eax = S.top) (local12 local16 local20 : Word) :
    xallocBody m a ⟨.bestFitLoop eax, local12, local16, local20⟩
      = if a.edi.slt (m.read32 (S.field segSize)) then some (.done (some (S.seg 63, base)))
        else some (.again ⟨.bestFitLoop S.top, local12, S.seg 63, local20⟩) := by
  have hzero : ¬ S.top = 0 := (poolHeap S).ne_zero _ (top_entry S)
  rw [xallocBody]
  dsimp only
  rw [htop, if_neg hzero, top_sub]
  change (if ¬ a.edi.slt (m.read32 (S.field segSize)) = true then _ else _) = _
  by_cases hlt : a.edi.slt (m.read32 (S.field segSize)) = true
  · rw [if_pos hlt, if_neg (not_not_intro hlt)]
    simp only [vmemSegfit, hbase, if_true]
  · rw [if_neg hlt, if_pos hlt]
    rfl

end Steps

/-! ### Searches that end -/

/-- Where a search that ends can be, `k` steps at most before its end. -/
def EndsIn (m : Mem) (a : XallocArgs) (k : Nat) (s : XallocSearch) : Prop :=
  match s.pos with
  | .retryStrat => k = 200
  | .retry => k = 199 ∧ s.local12 = A.freelist (Nat.log2 a.edi.toNat)
  | .instantFit => ¬ a.flags &&& vmemVmInstantfit = 0 ∧
      ∃ j, startClass a.edi a.flags ≤ j ∧ j ≤ 32 ∧ s.local12 = A.freelist j ∧
        PassedTo A m a.edi a.flags j ∧ k = 33 - j
  | .bestFit => a.flags &&& vmemVmInstantfit = 0 ∧
      ∃ j, startClass a.edi a.flags ≤ j ∧ j < 32 ∧ s.local12 = A.freelist j ∧
        PassedTo A m a.edi a.flags j ∧ k = 3 * (32 - j) + 2
  | .bestFitLoop eax => a.flags &&& vmemVmInstantfit = 0 ∧
      ∃ j, startClass a.edi a.flags ≤ j ∧ j < 32 ∧ s.local12 = A.freelist j ∧
        PassedTo A m a.edi a.flags j ∧
        (eax = A.freelist j ∧ k = 3 * (32 - j) + 1 ∨
          eax = S.top ∧ m.read32 S.top = 0 ∧ ¬ Hit A m a.edi a.flags j ∧ k = 3 * (32 - j))
  | .next => a.flags &&& vmemVmInstantfit = 0 ∧ PassedTo A m a.edi a.flags 32 ∧ k = 0

/-- What a search that ends leaves with. -/
def Outcome (m : Mem) (a : XallocArgs) (r : Option (Word × Word)) : Prop :=
  Found A m a.edi a.flags ∧ r = some (S.seg 63, A.base) ∨
    ¬ Found A m a.edi a.flags ∧ r = none

variable {A}

theorem PassedTo.start (m : Mem) (size flags : Word) :
    PassedTo A m size flags (startClass size flags) := by
  intro i hlo hhi
  omega

theorem PassedTo.succ {m : Mem} {size flags : Word} {j : Nat} (h : PassedTo A m size flags j)
    (hj : ¬ Hit A m size flags j) : PassedTo A m size flags (j + 1) := by
  intro i hlo hhi
  rcases Nat.lt_succ_iff_lt_or_eq.mp hhi with hlt | rfl
  · exact h i hlo hlt
  · exact hj

theorem PassedTo.not_found {m : Mem} {size flags : Word} (h : PassedTo A m size flags 32) :
    ¬ Found A m size flags := by
  intro hfound
  rcases hfound with ⟨i, hlo, hhi, hhit⟩
  exact h i hlo hhi hhit

theorem startClass_best {size flags : Word} (h : flags &&& vmemVmInstantfit = 0) :
    startClass size flags = Nat.log2 size.toNat := if_pos (Or.inl h)

theorem startClass_le (size flags : Word) : startClass size flags ≤ 32 := by
  have hlog := @log2_lt size
  rw [startClass]
  split <;> omega

/-- At the end of a list without a hit, a best fit that ends goes on behind it. -/
theorem xallocBody_best_miss {m : Mem} {a : XallocArgs} (ha : a.esi = A.addr)
    (hbest : a.flags &&& vmemVmInstantfit = 0) {j k : Nat}
    (hlo : startClass a.edi a.flags ≤ j) (hhi : j < 32) (hpassed : PassedTo A m a.edi a.flags j)
    (hmiss : ¬ Hit A m a.edi a.flags j) (hk : 3 * (32 - j) ≤ k) {eax : Word}
    (h0 : m.read32 eax = 0) (local16 local20 : Word) :
    ∃ s' k', xallocBody m a ⟨.bestFitLoop eax, A.freelist j, local16, local20⟩
      = some (.again s') ∧ k' < k ∧ EndsIn A m a k' s' := by
  by_cases hlast : j + 1 < 32
  · refine ⟨_, 3 * (32 - (j + 1)) + 2, xallocBody_best_end ha h0 hhi _ _, by omega, ?_⟩
    rw [if_pos hlast]
    exact ⟨hbest, j + 1, by omega, hlast, rfl, hpassed.succ hmiss, rfl⟩
  · have hj : j + 1 = 32 := by omega
    refine ⟨_, 0, xallocBody_best_end ha h0 hhi _ _, by omega, ?_⟩
    rw [if_neg hlast]
    refine ⟨hbest, ?_, rfl⟩
    rw [← hj]
    exact hpassed.succ hmiss

/-- The step lemma for searches that end. -/
theorem xallocBody_ends {m : Mem} (h : ArenaLinked A m) {a : XallocArgs} (ha : a.esi = A.addr)
    (hends : SearchEnds A m a.edi a.flags) (k : Nat) (s : XallocSearch)
    (hs : EndsIn A m a k s) :
    (∃ r, xallocBody m a s = some (.done r) ∧ Outcome A m a r) ∨
      ∃ s' k', xallocBody m a s = some (.again s') ∧ k' < k ∧ EndsIn A m a k' s' := by
  rcases s with ⟨pos, local12, local16, local20⟩
  cases pos with
  | retryStrat =>
      have hk : k = 200 := hs
      exact Or.inr ⟨_, 199, xallocBody_retryStrat ha _ _ _, by omega, rfl, rfl⟩
  | retry =>
      rcases hs with ⟨hk, hl⟩
      dsimp only at hl
      subst hl
      have hstart := PassedTo.start (A := A) m a.edi a.flags
      by_cases hbest : a.flags &&& vmemVmInstantfit = 0
      · have hlt : startClass a.edi a.flags < 32 := by
          rw [startClass_best hbest]
          exact log2_lt
        refine Or.inr ⟨_, 3 * (32 - startClass a.edi a.flags) + 2,
          xallocBody_retry (freelist_succ A) _ _, by omega, ?_⟩
        rw [if_pos hbest]
        exact ⟨hbest, _, Nat.le_refl _, hlt, rfl, hstart, rfl⟩
      · refine Or.inr ⟨_, 33 - startClass a.edi a.flags,
          xallocBody_retry (freelist_succ A) _ _, by omega, ?_⟩
        rw [if_neg hbest]
        exact ⟨hbest, _, Nat.le_refl _, startClass_le _ _, rfl, hstart, rfl⟩
  | instantFit =>
      rcases hs with ⟨hinst, j, hlo, hhi, hl, hpassed, hk⟩
      dsimp only at hl
      subst hl
      by_cases hj : j < 32
      · by_cases hempty : m.read32 (A.freelist j) = 0
        · refine Or.inr ⟨_, 33 - (j + 1), xallocBody_instant_empty ha hj hempty _ _, by omega,
            hinst, j + 1, by omega, hj, rfl, hpassed.succ ?_, rfl⟩
          exact fun hhit => hhit.1 hempty
        · refine Or.inl ⟨_, xallocBody_instant_hit ha h hj hempty _ _, Or.inl ⟨?_, rfl⟩⟩
          exact ⟨j, hlo, hj, hempty, fun hbest => absurd hbest hinst⟩
      · -- no list is left, so there was no hit
        have hlast : j = 32 := by omega
        subst hlast
        rcases hends with hfound | hbest
        · exact absurd hfound hpassed.not_found
        · exact absurd hbest.1 hinst
  | bestFit =>
      rcases hs with ⟨hbest, j, hlo, hhi, hl, hpassed, hk⟩
      refine Or.inr ⟨_, 3 * (32 - j) + 1, rfl, by omega, hbest, j, hlo, hhi, hl, hpassed, ?_⟩
      exact Or.inl ⟨hl, rfl⟩
  | bestFitLoop eax =>
      rcases hs with ⟨hbest, j, hlo, hhi, hl, hpassed, hat⟩
      dsimp only at hl
      subst hl
      rcases hat with ⟨rfl, hk⟩ | ⟨rfl, h0, hmiss, hk⟩
      · by_cases hempty : m.read32 (A.freelist j) = 0
        · have hnohit : ¬ Hit A m a.edi a.flags j := fun hhit => hhit.1 hempty
          exact Or.inr (xallocBody_best_miss ha hbest hlo hhi hpassed hnohit (by omega) hempty _ _)
        · rcases h.read A hhi hempty with ⟨-, hbase, htop, -⟩
          have hbody := xallocBody_best_seg (a := a) hbase htop (A.freelist j) local16 local20
          by_cases hlt : a.edi.slt (m.read32 (S.field segSize)) = true
          · rw [if_pos hlt] at hbody
            exact Or.inl ⟨_, hbody, Or.inl ⟨⟨j, hlo, hhi, hempty, fun _ => hlt⟩, rfl⟩⟩
          · -- passed over: the search only ends if that leads to the end of the list
            rw [if_neg hlt] at hbody
            have hzero : m.read32 S.top = 0 := by
              rcases hends with ⟨i, -, -, hhit⟩ | ⟨-, hnone | hzero⟩
              · exact absurd (hhit.2 hbest) hlt
              · exact absurd ⟨j, hlo, hhi, hempty⟩ hnone
              · exact hzero
            refine Or.inr ⟨_, 3 * (32 - j), hbody, by omega, hbest, j, hlo, hhi, rfl, hpassed, ?_⟩
            exact Or.inr ⟨rfl, hzero, fun hhit => hlt (hhit.2 hbest), rfl⟩
      · exact Or.inr (xallocBody_best_miss ha hbest hlo hhi hpassed hmiss (by omega) h0 _ _)
  | next =>
      rcases hs with ⟨hbest, hpassed, -⟩
      refine Or.inl ⟨none, ?_, Or.inr ⟨hpassed.not_found, rfl⟩⟩
      rw [xallocBody]
      dsimp only
      rw [if_pos hbest]

/-- A search that ends has its outcome. -/
theorem search_outcome {m : Mem} (h : ArenaLinked A m) {a : XallocArgs} (ha : a.esi = A.addr)
    (hends : SearchEnds A m a.edi a.flags) (local12 local16 local20 : Word) :
    ∃ r, iterate (xallocBody m a) 201 ⟨.retryStrat, local12, local16, local20⟩ = some r ∧
      Outcome A m a r := by
  have hstart : EndsIn A m a 200 ⟨.retryStrat, local12, local16, local20⟩ := rfl
  exact iterate_total (EndsIn A m a) (Outcome A m a) (xallocBody_ends h ha hends) hstart (by omega)

/-! ### Searches that do not end -/

/-- Where a search that does not end can be. An instant fit goes through the lists again and
again; a best fit comes to a list with descriptor 63 and stays there. -/
def Circles (m : Mem) (a : XallocArgs) (s : XallocSearch) : Prop :=
  let instant := ¬ a.flags &&& vmemVmInstantfit = 0
  match s.pos with
  | .retryStrat => True
  | .retry => s.local12 = A.freelist (Nat.log2 a.edi.toNat)
  | .instantFit => instant ∧
      ∃ j, startClass a.edi a.flags ≤ j ∧ j ≤ 32 ∧ s.local12 = A.freelist j
  | .bestFit => ¬ instant ∧
      ∃ j i, startClass a.edi a.flags ≤ j ∧ j ≤ i ∧ i < 32 ∧ s.local12 = A.freelist j ∧
        m.read32 (A.freelist i) ≠ 0
  | .bestFitLoop eax => ¬ instant ∧
      (eax = S.top ∨ ∃ j i, startClass a.edi a.flags ≤ j ∧ j ≤ i ∧ i < 32 ∧
        s.local12 = A.freelist j ∧ eax = A.freelist j ∧ m.read32 (A.freelist i) ≠ 0)
  | .next => instant

/-- The step lemma for searches that do not end. -/
theorem xallocBody_circles {m : Mem} (h : ArenaLinked A m) {a : XallocArgs} (ha : a.esi = A.addr)
    (hends : ¬ SearchEnds A m a.edi a.flags) (s : XallocSearch) (hs : Circles (A := A) m a s) :
    ∃ s', xallocBody m a s = some (.again s') ∧ Circles (A := A) m a s' := by
  rcases not_or.mp hends with ⟨hmiss, hbad⟩
  rcases s with ⟨pos, local12, local16, local20⟩
  cases pos with
  | retryStrat => exact ⟨_, xallocBody_retryStrat ha _ _ _, rfl⟩
  | retry =>
      have hl : local12 = A.freelist (Nat.log2 a.edi.toNat) := hs
      subst hl
      refine ⟨_, xallocBody_retry (freelist_succ A) _ _, ?_⟩
      by_cases hbest : a.flags &&& vmemVmInstantfit = 0
      · rw [if_pos hbest]
        rcases not_or.mp (not_and.mp hbad hbest) with ⟨hfinds, -⟩
        rcases not_not.mp hfinds with ⟨i, hlo, hhi, hne⟩
        exact ⟨not_not_intro hbest, _, i, Nat.le_refl _, hlo, hhi, rfl, hne⟩
      · rw [if_neg hbest]
        exact ⟨hbest, _, Nat.le_refl _, startClass_le _ _, rfl⟩
  | instantFit =>
      rcases hs with ⟨hinst, j, hlo, hhi, hl⟩
      dsimp only at hl
      subst hl
      by_cases hj : j < 32
      · have hempty : m.read32 (A.freelist j) = 0 := by
          by_contra hne
          exact hmiss ⟨j, hlo, hj, hne, fun hbest => absurd hbest hinst⟩
        exact ⟨_, xallocBody_instant_empty ha hj hempty _ _, hinst, j + 1, by omega, hj, rfl⟩
      · have hlast : j = 32 := by omega
        subst hlast
        exact ⟨_, xallocBody_instant_end ha _ _, hinst⟩
  | bestFit =>
      rcases hs with ⟨hbest, j, i, hlo, hji, hi, hl, hne⟩
      exact ⟨_, rfl, hbest, Or.inr ⟨j, i, hlo, hji, hi, hl, hl, hne⟩⟩
  | bestFitLoop eax =>
      rcases hs with ⟨hbest, hat⟩
      rcases not_or.mp (not_and.mp hbad (not_not.mp hbest)) with ⟨hfinds, hself⟩
      rcases not_not.mp hfinds with ⟨i₀, hlo₀, hhi₀, hne₀⟩
      rcases h.read A hhi₀ hne₀ with ⟨-, hbase, -, hlink⟩
      have hnot : ¬ a.edi.slt (m.read32 (S.field segSize)) = true :=
        fun hlt => hmiss ⟨i₀, hlo₀, hhi₀, hne₀, fun _ => hlt⟩
      -- at descriptor 63 the search passes over it
      have hpass : m.read32 eax = S.top → ∃ s', xallocBody m a
          ⟨.bestFitLoop eax, local12, local16, local20⟩ = some (.again s') ∧
            Circles (A := A) m a s' := by
        intro htop
        have hbody := xallocBody_best_seg (a := a) hbase htop local12 local16 local20
        rw [if_neg hnot] at hbody
        exact ⟨_, hbody, hbest, Or.inl rfl⟩
      rcases hat with rfl | ⟨j, i, hlo, hji, hi, hl, rfl, hne⟩
      · exact hpass (hlink.resolve_left hself)
      · by_cases hempty : m.read32 (A.freelist j) = 0
        · have hlt : j < i := by
            rcases Nat.lt_or_eq_of_le hji with hlt | heq
            · exact hlt
            · rw [← heq] at hne
              exact absurd hempty hne
          have hl' : local12 = A.freelist j := hl
          subst hl'
          refine ⟨_, xallocBody_best_end ha hempty (by omega) _ _, ?_⟩
          rw [if_pos (by omega)]
          exact ⟨hbest, j + 1, i, by omega, hlt, hi, rfl, hne⟩
        · exact hpass (h.read A (by omega) hempty).2.2.1
  | next =>
      refine ⟨⟨.retryStrat, local12, local16, local20⟩, ?_, trivial⟩
      rw [xallocBody]
      dsimp only
      rw [if_neg hs]

/-- A search that does not end runs out of any fuel. -/
theorem search_circles {m : Mem} (h : ArenaLinked A m) {a : XallocArgs} (ha : a.esi = A.addr)
    (hends : ¬ SearchEnds A m a.edi a.flags) (local12 local16 local20 : Word) (fuel : Nat) :
    iterate (xallocBody m a) fuel ⟨.retryStrat, local12, local16, local20⟩ = none := by
  have hstart : Circles (A := A) m a ⟨.retryStrat, local12, local16, local20⟩ := trivial
  exact iterate_diverges (Circles (A := A) m a) (xallocBody_circles h ha hends) hstart fuel

/-- A search with a result is one that ends. -/
theorem search_result {m : Mem} (h : ArenaLinked A m) {a : XallocArgs} (ha : a.esi = A.addr)
    {local12 local16 local20 : Word} {fuel : Nat} {r : Option (Word × Word)}
    (hr : iterate (xallocBody m a) fuel ⟨.retryStrat, local12, local16, local20⟩ = some r) :
    SearchEnds A m a.edi a.flags ∧ Outcome A m a r := by
  by_cases hends : SearchEnds A m a.edi a.flags
  · rcases search_outcome h ha hends local12 local16 local20 with ⟨r', hr', houtcome⟩
    rw [iterate_unique hr hr']
    exact ⟨hends, houtcome⟩
  · rw [search_circles h ha hends] at hr
    cases hr

end Search

end StupidOS.Kernel
