import StupidOS.Kernel.VmemSystem

/-!
# `vmem_xalloc` with all its arguments

`vmem_alloc` is `vmem_xalloc` without an alignment and without constraints. With an alignment
the code jumps over the choice of a list and into the loop of the instant fit, where
`[ebp - 12]` still holds what the stack held; the constraints are handed to `_vmem_segfit`,
which looks at none of them. So a call hands out the base in descriptor 63 or fails
(`VmemObject.xalloc_result`), unless that stale word leads it outside the lists of the arena.
-/

namespace StupidOS.Kernel

variable {S : VmemStatics}

/-! ## Requests -/

/-- The arguments of `vmem_xalloc` besides the arena. -/
structure XallocRequest where
  size : Word
  align : Word
  phase : Word
  nocross : Word
  minaddr : Word
  maxaddr : Word
  flags : Word

/-- `vmem_xalloc` on an object. -/
def VmemObject.xalloc (o : VmemObject S) (fuel : Nat) (m : Mem) (q : XallocRequest)
    (junk : Word × Word × Word) : Option (Word × Word × Mem) :=
  vmemXalloc S fuel m o.addr q.size q.align q.phase q.nocross q.minaddr q.maxaddr q.flags junk

/-- The request that `vmem_alloc` makes. -/
def allocRequest (size flags : Word) : XallocRequest := ⟨size, 0, 0, 0, 0, -1, flags⟩

theorem vmemAlloc_xalloc (o : VmemObject S) (fuel : Nat) (m : Mem) (size flags : Word)
    (junk : Word × Word × Word) :
    vmemAlloc S fuel m o.addr size flags junk = o.xalloc fuel m (allocRequest size flags) junk :=
  rfl

/-- Where a request starts its search; a request without an alignment and without a strategy
has no search. -/
def XallocRequest.start (q : XallocRequest) (junk : Word × Word × Word) : Option XallocSearch :=
  if q.align ≠ 0 then some ⟨.instantFit, junk.1, junk.2.1, junk.2.2⟩
  else if q.flags &&& vmemVmFitMask = 0 then none
  else some ⟨.retryStrat, junk.1, junk.2.1, junk.2.2⟩

/-- Memory after both descriptors are taken. -/
def takenTwo (S : VmemStatics) (m : Mem) : Mem := (vmemSegalloc S (vmemSegalloc S m).2).2

/-- What the search reads. -/
def XallocRequest.args (q : XallocRequest) (addr ebx : Word) : XallocArgs :=
  ⟨addr, q.size, ebx, q.phase, q.nocross, q.minaddr, q.maxaddr, q.flags⟩

/-- A call of `vmem_xalloc` on a pool in use: a search with both descriptors taken, then its
exit. -/
theorem xalloc_eq {m : Mem} (hm : PoolStuck S m) (o : VmemObject S) (q : XallocRequest) :
    ∃ ebx, ∀ fuel junk, o.xalloc fuel m q junk =
      match q.start junk with
      | none => some (xallocEnd S (takenTwo S m) 0 enomem (S.seg 63) (S.seg 63))
      | some s =>
        match iterate (xallocBody (takenTwo S m) (q.args o.addr ebx)) fuel s with
        | none => none
        | some none => some (xallocEnd S (takenTwo S m) 0 enomem (S.seg 63) (S.seg 63))
        | some (some (local16, local20)) =>
          let (m, local8, local4, edi) :=
            xallocFound (takenTwo S m) o.addr q.size (S.seg 63) (S.seg 63) local16 local20
          some (xallocEnd S m edi 0 local4 local8) := by
  have h₁ : vmemSegalloc S m = (S.seg 63, (vmemSegalloc S m).2) := Prod.ext hm.segalloc.1 rfl
  have h₂ : vmemSegalloc S (vmemSegalloc S m).2 = (S.seg 63, takenTwo S m) :=
    Prod.ext hm.segalloc.2.1.segalloc.1 rfl
  refine ⟨if q.align ≠ 0 then q.align else (takenTwo S m).read32 (o.addr + vmQuantum), ?_⟩
  intro fuel junk
  unfold VmemObject.xalloc vmemXalloc
  simp only [vmemRefill, ite_self]
  rw [h₁]
  simp only [if_neg (seg_ne_zero S)]
  rw [h₂]
  simp only [if_neg (seg_ne_zero S)]
  -- an alignment jumps over the choice of a list
  by_cases halign : q.align ≠ 0
  · rw [XallocRequest.start, if_pos halign, if_pos halign, if_pos halign]
    rfl
  · rw [XallocRequest.start, if_neg halign, if_neg halign, if_neg halign]
    by_cases hflags : q.flags &&& vmemVmFitMask = 0
    · rw [if_pos hflags, if_pos hflags]
    · rw [if_neg hflags, if_neg hflags]
      rfl

theorem takenTwo_linked {A : VmemArena S} {m : Mem} (h : ArenaLinked A m) :
    ArenaLinked A (takenTwo S m) ∧ (takenTwo S m).read32 S.top = m.read32 S.top ∧
      ∀ a, OffPool S a → (takenTwo S m).read32 a = m.read32 a := by
  rcases h.segalloc A with ⟨-, h₁, hnext₁, hoff₁⟩
  rcases h₁.segalloc A with ⟨-, h₂, hnext₂, hoff₂⟩
  exact ⟨h₂, hnext₂.trans hnext₁, fun a ha => (hoff₂ a ha).trans (hoff₁ a ha)⟩

/-! ## The search of an aligned request -/

section Scan

variable {A : VmemArena S} {m : Mem} {a : XallocArgs}

variable (A m) in
/-- Some list from list `j` on is not empty. -/
def ListFrom (j : Nat) : Prop := ∃ i, j ≤ i ∧ i < 32 ∧ m.read32 (A.freelist i) ≠ 0

/-- The scan from list `j` takes descriptor 63 from the first list that is not empty. -/
theorem scan_hit (h : ArenaLinked A m) (ha : a.esi = A.addr) {j : Nat} (hj : ListFrom A m j)
    (local16 local20 : Word) :
    ∃ fuel, iterate (xallocBody m a) fuel ⟨.instantFit, A.freelist j, local16, local20⟩
      = some (some (S.seg 63, A.base)) := by
  rcases hj with ⟨i, hji, hi, hne⟩
  obtain ⟨n, rfl⟩ : ∃ n, i = j + n := ⟨i - j, by omega⟩
  -- on the number of lists before the one known not to be empty
  induction n generalizing j with
  | zero => exact ⟨1, iterate_done (xallocBody_instant_hit ha h hi hne _ _) 0⟩
  | succ n ih =>
      have hlt : j < 32 := by omega
      by_cases hempty : m.read32 (A.freelist j) = 0
      · rw [show j + (n + 1) = j + 1 + n by omega] at hi hne
        rcases ih (by omega) hi hne with ⟨fuel, hr⟩
        refine ⟨fuel + 1, ?_⟩
        rw [iterate_again (xallocBody_instant_empty ha hlt hempty _ _)]
        exact hr
      · exact ⟨1, iterate_done (xallocBody_instant_hit ha h hlt hempty _ _) 0⟩

/-- A scan that finds the lists from `j` on empty comes to `.next`. -/
theorem scan_miss (ha : a.esi = A.addr) {j : Nat} (hj : j ≤ 32) (hempty : ¬ ListFrom A m j)
    (local16 local20 : Word) (fuel : Nat) :
    iterate (xallocBody m a) (fuel + (33 - j)) ⟨.instantFit, A.freelist j, local16, local20⟩
      = iterate (xallocBody m a) fuel ⟨.next, A.freelist 32, local16, local20⟩ := by
  obtain ⟨n, hn⟩ : ∃ n, 32 = j + n := ⟨32 - j, by omega⟩
  induction n generalizing j with
  | zero =>
      have hlast : j = 32 := by omega
      subst hlast
      exact iterate_again (xallocBody_instant_end ha _ _) fuel
  | succ n ih =>
      have hlist : m.read32 (A.freelist j) = 0 := by
        by_contra hne
        exact hempty ⟨j, Nat.le_refl _, by omega, hne⟩
      have hrest : ¬ ListFrom A m (j + 1) := by
        intro hfrom
        rcases hfrom with ⟨i, hji, hi, hne⟩
        exact hempty ⟨i, by omega, hi, hne⟩
      rw [show fuel + (33 - j) = fuel + (33 - (j + 1)) + 1 by omega,
        iterate_again (xallocBody_instant_empty ha (by omega) hlist _ _)]
      exact ih (by omega) hrest (by omega)

/-- `.next` fails a request without an instant fit, and sends one with it back to its strategy. -/
theorem xallocBody_next (local12 local16 local20 : Word) :
    xallocBody m a ⟨.next, local12, local16, local20⟩
      = some (if a.flags &&& vmemVmInstantfit = 0 then .done none
          else .again ⟨.retryStrat, local12, local16, local20⟩) := by
  rw [xallocBody]
  dsimp only
  split
  · rfl
  · rfl

end Scan

/-! ## Requests that keep to the lists -/

namespace VmemObject

variable (o : VmemObject S)

/-- The word `w` in `[ebp - 12]` is list `j`, or past the lists (`j` is 32 then). -/
def StartsAt (w : Word) (j : Nat) : Prop :=
  j < 32 ∧ w = o.freelist j ∨ j = 32 ∧ ¬ w.slt (o.addr + vmHashtable)

/-- The search of the request reads no list but those of the arena. -/
def KeepsToLists (q : XallocRequest) (w : Word) : Prop := q.align = 0 ∨ ∃ j, o.StartsAt w j

/-- The search of the request takes a segment. -/
def Hits (m : Mem) (q : XallocRequest) (w : Word) : Prop :=
  q.align = 0 ∧ q.flags &&& vmemVmFitMask ≠ 0 ∧ Found (o.view 0) m q.size q.flags ∨
  q.align ≠ 0 ∧ ∃ j, o.StartsAt w j ∧
    (ListFrom (o.view 0) m j ∨
      ¬ q.flags &&& vmemVmInstantfit = 0 ∧ Found (o.view 0) m q.size q.flags)

variable {o} {m : Mem} {q : XallocRequest} {base ebx : Word}

variable (ebx) in
/-- From a start with nothing on the lists the search comes to `.next`. -/
theorem StartsAt.miss {w : Word} {j : Nat} (hw : o.StartsAt w j)
    (hempty : ¬ ListFrom (o.view base) m j) (local16 local20 : Word) :
    ∃ k w', ∀ fuel, iterate (xallocBody m (q.args o.addr ebx)) (fuel + k)
        ⟨.instantFit, w, local16, local20⟩
      = iterate (xallocBody m (q.args o.addr ebx)) fuel ⟨.next, w', local16, local20⟩ := by
  rcases hw with ⟨hj, rfl⟩ | ⟨-, hpast⟩
  · have ha : (q.args o.addr ebx).esi = (o.view base).addr := rfl
    exact ⟨33 - j, _, scan_miss ha (Nat.le_of_lt hj) hempty local16 local20⟩
  · refine ⟨1, w, ?_⟩
    intro fuel
    apply iterate_again
    rw [xallocBody]
    exact if_pos hpast

variable (ebx) in
/-- A request that hits gets descriptor 63 and the base in it. -/
theorem Hits.search (h : ArenaLinked (o.view base) m) {junk : Word × Word × Word}
    (hhits : o.Hits m q junk.1) :
    ∃ s, q.start junk = some s ∧ ∃ fuel, iterate (xallocBody m (q.args o.addr ebx)) fuel s
      = some (some (S.seg 63, base)) := by
  have ha : (q.args o.addr ebx).esi = (o.view base).addr := rfl
  -- from `.retryStrat` on
  have hstrat : Found (o.view 0) m q.size q.flags → ∀ local12 local16 local20,
      iterate (xallocBody m (q.args o.addr ebx)) 201 ⟨.retryStrat, local12, local16, local20⟩
        = some (some (S.seg 63, base)) := by
    intro hfound local12 local16 local20
    have hends : SearchEnds (o.view base) m q.size q.flags := Or.inl hfound
    rcases search_outcome h ha hends local12 local16 local20 with ⟨r, hr, houtcome⟩
    rcases houtcome with ⟨-, rfl⟩ | ⟨hmiss, -⟩
    · exact hr
    · exact absurd hfound hmiss
  rcases hhits with ⟨halign, hflags, hfound⟩ | ⟨halign, j, hw, hat⟩
  · refine ⟨⟨.retryStrat, junk.1, junk.2.1, junk.2.2⟩, ?_, 201, hstrat hfound _ _ _⟩
    rw [XallocRequest.start, if_neg (not_not_intro halign), if_neg hflags]
  · refine ⟨⟨.instantFit, junk.1, junk.2.1, junk.2.2⟩, ?_, ?_⟩
    · rw [XallocRequest.start, if_pos halign]
    · by_cases hfrom : ListFrom (o.view base) m j
      · have hj : j < 32 := by
          rcases hfrom with ⟨i, hji, hi, -⟩
          omega
        rcases hw with ⟨-, hw⟩ | ⟨hpast, -⟩
        · rw [hw]
          exact scan_hit h ha hfrom _ _
        · omega
      · rcases hat with hlist | ⟨hinst, hfound⟩
        · exact absurd hlist hfrom
        · rcases StartsAt.miss ebx hw hfrom junk.2.1 junk.2.2 with ⟨k, w', hk⟩
          refine ⟨201 + 1 + k, ?_⟩
          rw [hk, iterate_again ((xallocBody_next _ _ _).trans (congrArg some (if_neg hinst)))]
          exact hstrat hfound _ _ _

/-- A request that keeps to the lists and does not hit ends without a segment, if it ends. -/
theorem search_of_not_hits (h : ArenaLinked (o.view base) m) {junk : Word × Word × Word}
    (hkeeps : o.KeepsToLists q junk.1) (hmiss : ¬ o.Hits m q junk.1) {s : XallocSearch}
    (hs : q.start junk = some s) {fuel : Nat} {r : Option (Word × Word)}
    (hr : iterate (xallocBody m (q.args o.addr ebx)) fuel s = some r) : r = none := by
  have ha : (q.args o.addr ebx).esi = (o.view base).addr := rfl
  -- a search that starts with its strategy
  have hstrat : ¬ Found (o.view base) m q.size q.flags → ∀ fuel local12 local16 local20,
      iterate (xallocBody m (q.args o.addr ebx)) fuel ⟨.retryStrat, local12, local16, local20⟩
        = some r → r = none := by
    intro hfound fuel local12 local16 local20 hr
    rcases (search_result h ha hr).2 with ⟨hyes, -⟩ | ⟨-, hnone⟩
    · exact absurd hyes hfound
    · exact hnone
  by_cases halign : q.align = 0
  · rw [XallocRequest.start, if_neg (not_not_intro halign)] at hs
    by_cases hflags : q.flags &&& vmemVmFitMask = 0
    · rw [if_pos hflags] at hs
      cases hs
    · rw [if_neg hflags] at hs
      rw [← Option.some.inj hs] at hr
      exact hstrat (fun hfound => hmiss (Or.inl ⟨halign, hflags, hfound⟩)) _ _ _ _ hr
  · rw [XallocRequest.start, if_pos halign] at hs
    rw [← Option.some.inj hs] at hr
    rcases hkeeps with hzero | ⟨j, hw⟩
    · exact absurd hzero halign
    -- the scan that the stale word starts finds nothing either
    · have hfrom : ¬ ListFrom (o.view base) m j :=
        fun hlist => hmiss (Or.inr ⟨halign, j, hw, Or.inl hlist⟩)
      rcases StartsAt.miss ebx hw hfrom junk.2.1 junk.2.2 with ⟨k, w', hk⟩
      have hnext := hk fuel
      rw [iterate_mono (Nat.le_add_right fuel k) hr] at hnext
      cases fuel with
      | zero => cases hnext
      | succ fuel =>
          by_cases hbest : q.flags &&& vmemVmInstantfit = 0
          · rw [iterate_done ((xallocBody_next _ _ _).trans (congrArg some (if_pos hbest)))] at hnext
            exact Option.some.inj hnext
          · rw [iterate_again ((xallocBody_next _ _ _).trans (congrArg some (if_neg hbest)))]
              at hnext
            exact hstrat (fun hfound => hmiss (Or.inr ⟨halign, j, hw, Or.inr ⟨hbest, hfound⟩⟩))
              _ _ _ _ hnext.symm

/-- Stores to the pool decide no search. -/
theorem hits_congr {m₂ : Mem} (hoff : ∀ a, OffPool S a → m₂.read32 a = m.read32 a) (w : Word) :
    o.Hits m₂ q w ↔ o.Hits m q w := by
  have hfound := found_congr (A := o.view 0) hoff q.size q.flags
  have hfrom : ∀ j, ListFrom (o.view 0) m₂ j ↔ ListFrom (o.view 0) m j := by
    intro j
    constructor
    · intro h
      rcases h with ⟨i, hji, hi, hne⟩
      rw [hoff _ (offPool_freelist (o.view 0) hi)] at hne
      exact ⟨i, hji, hi, hne⟩
    · intro h
      rcases h with ⟨i, hji, hi, hne⟩
      rw [← hoff _ (offPool_freelist (o.view 0) hi)] at hne
      exact ⟨i, hji, hi, hne⟩
  rw [Hits, Hits, hfound]
  simp only [hfrom]

/-! ## The outcome of a request -/

/-- A request that hits returns the base. -/
theorem xalloc_hits (h : ArenaLinked (o.view base) m) {junk : Word × Word × Word}
    (hhits : o.Hits m q junk.1) :
    ∃ fuel m', o.xalloc fuel m q junk = some (base, 0, m') ∧ Called (o.view base) m m' := by
  rcases takenTwo_linked h with ⟨h₂, -, hoff⟩
  rcases xalloc_eq h.stuck o q with ⟨ebx, heq⟩
  have hhits₂ := (hits_congr hoff junk.1).mpr hhits
  rcases Hits.search ebx h₂ hhits₂ with ⟨s, hs, fuel, hr⟩
  have hlist : ∃ i, i < 32 ∧ (takenTwo S m).read32 ((o.view base).freelist i) ≠ 0 := by
    rcases hhits₂ with ⟨-, -, i, -, hi, hhit⟩ | ⟨-, j, -, ⟨i, -, hi, hne⟩ | ⟨-, i, -, hi, hhit⟩⟩
    · exact ⟨i, hi, hhit.1⟩
    · exact ⟨i, hi, hne⟩
    · exact ⟨i, hi, hhit.1⟩
  rcases hlist with ⟨i, hi, hne⟩
  rcases xallocHit_called h₂ hi hne q.size with ⟨m', hexit, hcalled⟩
  refine ⟨fuel, m', ?_, hcalled.of_offPool hoff⟩
  rw [heq, hs]
  dsimp only
  rw [hr]
  exact hexit

/-- All fuels that suffice give one result. -/
theorem xalloc_unique (hm : PoolStuck S m) {junk : Word × Word × Word} {fuel fuel' : Nat}
    {r r' : Word × Word × Mem} (hr : o.xalloc fuel m q junk = some r)
    (hr' : o.xalloc fuel' m q junk = some r') : r = r' := by
  rcases xalloc_eq hm o q with ⟨ebx, heq⟩
  rw [heq] at hr hr'
  cases hs : q.start junk with
  | none =>
      rw [hs] at hr hr'
      exact Option.some.inj (hr.symm.trans hr')
  | some s =>
      rw [hs] at hr hr'
      dsimp only at hr hr'
      cases hfound : iterate (xallocBody (takenTwo S m) (q.args o.addr ebx)) fuel s with
      | none =>
          rw [hfound] at hr
          cases hr
      | some found =>
          cases hfound' : iterate (xallocBody (takenTwo S m) (q.args o.addr ebx)) fuel' s with
          | none =>
              rw [hfound'] at hr'
              cases hr'
          | some found' =>
              have hone := iterate_unique hfound hfound'
              rw [hfound] at hr
              rw [hfound', ← hone] at hr'
              exact Option.some.inj (hr.symm.trans hr')

/-- What a request that keeps to the lists and returns has done. -/
theorem xalloc_result (h : ArenaLinked (o.view base) m) {junk : Word × Word × Word}
    (hkeeps : o.KeepsToLists q junk.1) {fuel : Nat} {eax edx : Word} {m' : Mem}
    (hr : o.xalloc fuel m q junk = some (eax, edx, m')) :
    Called (o.view base) m m' ∧ (o.Hits m q junk.1 ∧ eax = base ∧ edx = 0 ∨
      ¬ o.Hits m q junk.1 ∧ eax = 0 ∧ edx = enomem) := by
  rcases takenTwo_linked h with ⟨h₂, -, hoff⟩
  rcases xalloc_eq h.stuck o q with ⟨ebx, heq⟩
  by_cases hhits : o.Hits m q junk.1
  · rcases xalloc_hits h hhits with ⟨fuel', m'', hr', hcalled⟩
    have hsame := xalloc_unique h.stuck hr hr'
    rw [Prod.mk.injEq, Prod.mk.injEq] at hsame
    rcases hsame with ⟨rfl, rfl, rfl⟩
    exact ⟨hcalled, Or.inl ⟨hhits, rfl, rfl⟩⟩
  · have hmiss : ¬ o.Hits (takenTwo S m) q junk.1 :=
      fun hhits₂ => hhits ((hits_congr hoff junk.1).mp hhits₂)
    rcases xallocFail_called h₂ with ⟨m'', hexit, hcalled⟩
    -- without a hit the call takes its failure exit, if it returns
    have hsame : (eax, edx, m') = (0, enomem, m'') := by
      rw [heq, hexit] at hr
      cases hs : q.start junk with
      | none =>
          rw [hs] at hr
          exact Option.some.inj hr.symm
      | some s =>
          rw [hs] at hr
          dsimp only at hr
          cases hfound : iterate (xallocBody (takenTwo S m) (q.args o.addr ebx)) fuel s with
          | none =>
              rw [hfound] at hr
              cases hr
          | some found =>
              have hnone := search_of_not_hits h₂ hkeeps hmiss hs hfound
              rw [hfound, hnone] at hr
              exact Option.some.inj hr.symm
    rw [Prod.mk.injEq, Prod.mk.injEq] at hsame
    rcases hsame with ⟨rfl, rfl, rfl⟩
    exact ⟨hcalled.of_offPool hoff, Or.inr ⟨hhits, rfl, rfl⟩⟩

/-- What a request that came to `.fail` has done, wherever it looked. -/
theorem xalloc_failed (h : ArenaLinked (o.view base) m) {junk : Word × Word × Word} {fuel : Nat}
    {m' : Mem} (hr : o.xalloc fuel m q junk = some (0, enomem, m')) :
    Called (o.view base) m m' := by
  have henomem : (0 : Word) ≠ enomem := by decide
  rcases takenTwo_linked h with ⟨h₂, -, hoff⟩
  rcases xalloc_eq h.stuck o q with ⟨ebx, heq⟩
  rcases xallocFail_called h₂ with ⟨m'', hexit, hcalled⟩
  have hsame : m' = m'' := by
    rw [heq, hexit] at hr
    cases hs : q.start junk with
    | none =>
        rw [hs] at hr
        exact congrArg (fun r => r.2.2) (Option.some.inj hr.symm)
    | some s =>
        rw [hs] at hr
        dsimp only at hr
        cases hfound : iterate (xallocBody (takenTwo S m) (q.args o.addr ebx)) fuel s with
        | none =>
            rw [hfound] at hr
            cases hr
        | some found =>
            rw [hfound] at hr
            cases found with
            | none => exact congrArg (fun r => r.2.2) (Option.some.inj hr.symm)
            | some p =>
                -- a search with a result leaves 0 in EDX
                exact absurd (congrArg (fun r => r.2.1) (Option.some.inj hr)) henomem
  rw [hsame]
  exact hcalled.of_offPool hoff

end VmemObject

end StupidOS.Kernel
