import StupidOS.Kernel.VmemSearch

/-!
# Runs of `vmem_alloc` on one arena

Every block handed out starts at the base of the arena (`ArenaInv`). The first block
is a good one; from then on a call can only fail, run forever, or hand out the same
address again.
-/

namespace StupidOS.Kernel

variable (S : VmemStatics)

section Arena

variable {S} (A : VmemArena S)

/-! ## One call -/

theorem ArenaLinked.segalloc {m : Mem} (h : ArenaLinked A m) :
    vmemSegalloc S m = (S.seg 63, (vmemSegalloc S m).2) ∧ ArenaLinked A (vmemSegalloc S m).2 ∧
    (vmemSegalloc S m).2.read32 S.top = m.read32 S.top ∧
    ∀ a, OffPool S a → (vmemSegalloc S m).2.read32 a = m.read32 a := by
  obtain ⟨hres, hstuck, hnext, hoff⟩ := h.stuck.segalloc
  refine ⟨Prod.ext hres rfl, ⟨hstuck, fun i hi hne => ?_⟩, hnext, hoff⟩
  rw [hoff _ (offPool_freelist A hi)] at hne
  obtain ⟨hlists, hbase⟩ := h.segs i hi hne
  refine ⟨⟨hstuck, by rw [hnext]; exact hlists.next, fun j hj => ?_⟩, ?_⟩
  · rw [hoff _ (offPool_freelist A hj)]
    exact hlists.lists j hj
  · rw [hoff _ (offPool_field S (by decide)), hbase]

/-- Both descriptors that `vmem_xalloc` takes up front are 63. -/
theorem vmemAlloc_eq {m : Mem} (h : ArenaLinked A m) (size : Word) {flags : Word}
    (hflags : flags &&& vmemVmFitMask ≠ 0) :
    ∃ m₂ quantum, ArenaLinked A m₂ ∧ m₂.read32 S.top = m.read32 S.top ∧
      (∀ a, OffPool S a → m₂.read32 a = m.read32 a) ∧
      ∀ fuel junk, vmemAlloc S fuel m A.addr size flags junk =
        match iterate (xallocBody m₂ ⟨A.addr, size, quantum, 0, 0, 0, -1, flags⟩) fuel
          ⟨.retryStrat, junk.1, junk.2.1, junk.2.2⟩ with
        | none => none
        | some none => some (xallocEnd S m₂ 0 enomem (S.seg 63) (S.seg 63))
        | some (some (local16, local20)) =>
          let (m, local8, local4, edi) :=
            xallocFound m₂ A.addr size (S.seg 63) (S.seg 63) local16 local20
          some (xallocEnd S m edi 0 local4 local8) := by
  obtain ⟨hres₁, h₁, hnext₁, hoff₁⟩ := h.segalloc A
  obtain ⟨hres₂, h₂, hnext₂, hoff₂⟩ := h₁.segalloc A
  refine ⟨_, (vmemSegalloc S (vmemSegalloc S m).2).2.read32 (A.addr + vmQuantum), h₂,
    hnext₂.trans hnext₁, fun a ha => (hoff₂ a ha).trans (hoff₁ a ha), ?_⟩
  intro fuel junk
  unfold vmemAlloc vmemXalloc
  simp only [vmemRefill, ite_self]
  rw [hres₁]
  simp only [if_neg (seg_ne_zero S)]
  rw [hres₂]
  simp only [if_neg (seg_ne_zero S), if_neg hflags]
  rfl

/-- What a call of `vmem_alloc` that returns has done: it failed, or handed out
the base of the arena. -/
theorem vmemAlloc_spec {m m' : Mem} (h : ArenaLinked A m) {size flags eax edx : Word}
    (hflags : flags &&& vmemVmFitMask ≠ 0) {fuel : Nat} {junk : Word × Word × Word}
    (hr : vmemAlloc S fuel m A.addr size flags junk = some (eax, edx, m')) :
    ArenaLinked A m' ∧ m'.read32 S.top = S.top ∧
    (∀ i, i < 32 → m.read32 (A.freelist i) ≠ 0 → m'.read32 (A.freelist i) ≠ 0) ∧
    ((eax = 0 ∧ (m.read32 S.top = S.top → ¬ SearchFinds A m size flags) ∧
        (∀ i, i < 32 → m'.read32 (A.freelist i) = m.read32 (A.freelist i)) ∧
        m'.read32 (S.field segSize) = m.read32 (S.field segSize)) ∨
      (eax = A.base ∧ ∃ i, startClass size flags ≤ i ∧ i < 32 ∧ m.read32 (A.freelist i) ≠ 0 ∧
        (flags &&& vmemVmInstantfit = 0 → size.slt (m.read32 (S.field segSize))))) := by
  obtain ⟨m₂, quantum, h₂, hnext₂, hoff₂, heq⟩ := vmemAlloc_eq A h size hflags
  have hlist : ∀ i, i < 32 → m₂.read32 (A.freelist i) = m.read32 (A.freelist i) :=
    fun i hi => hoff₂ _ (offPool_freelist A hi)
  have hsize : m₂.read32 (S.field segSize) = m.read32 (S.field segSize) :=
    hoff₂ _ (offPool_field S (by decide))
  rw [heq fuel junk] at hr
  cases hs : iterate (xallocBody m₂ ⟨A.addr, size, quantum, 0, 0, 0, -1, flags⟩) fuel
      ⟨.retryStrat, junk.1, junk.2.1, junk.2.2⟩ with
  | none =>
      rw [hs] at hr
      cases hr
  | some found =>
      rcases search_result h₂ rfl hs with ⟨hends, houtcome⟩
      rw [hs] at hr
      cases found with
      | none =>
          obtain ⟨m₃, heq₃, h₃, hnext₃, hoff₃⟩ := xallocEnd_spec A h₂ 0 enomem (Or.inr rfl)
          have hlist₃ : ∀ i, i < 32 → m₃.read32 (A.freelist i) = m₂.read32 (A.freelist i) :=
            fun i hi => hoff₃ _ (offPool_freelist A hi)
          have hsize₃ : m₃.read32 (S.field segSize) = m₂.read32 (S.field segSize) :=
            hoff₃ _ (offPool_field S (by decide))
          simp only [heq₃, Option.some.injEq, Prod.mk.injEq] at hr
          obtain ⟨rfl, rfl, rfl⟩ := hr
          refine ⟨h₃, hnext₃, fun i hi hne => by rwa [hlist₃ i hi, hlist i hi],
            Or.inl ⟨rfl, ?_, fun i hi => (hlist₃ i hi).trans (hlist i hi), hsize₃.trans hsize⟩⟩
          -- with descriptor 63 linked to itself, it ended for want of a segment
          have hmiss : ¬ Found A m₂ size flags := by
            rcases houtcome with ⟨-, hsome⟩ | ⟨hmiss, -⟩
            · cases hsome
            · exact hmiss
          intro hself hfinds
          rcases hends.resolve_left hmiss with ⟨-, hnone | hzero⟩
          · rcases hfinds with ⟨i, hlo, hhi, hne⟩
            rw [← hlist i hhi] at hne
            exact hnone ⟨i, hlo, hhi, hne⟩
          · rw [hnext₂, hself] at hzero
            exact (poolHeap S).ne_zero _ (top_entry S) hzero
      | some p =>
          obtain ⟨⟨i, hlo, hhi, hne, hfits⟩, hp⟩ : Found A m₂ size flags ∧
              some p = some (S.seg 63, A.base) := by
            rcases houtcome with hfound | ⟨-, hnone⟩
            · exact hfound
            · cases hnone
          obtain rfl := Option.some.inj hp
          obtain ⟨hlists, hbase⟩ := h₂.segs i hhi hne
          obtain ⟨m₃, local4, heq₃, hlists₃, hbase₃, h4, hkept₃⟩ :=
            xallocFound_spec A hlists hbase size
          obtain ⟨m₄, heq₄, h₄, hnext₄, hoff₄⟩ := xallocEnd_spec A (m := m₃)
            ⟨hlists₃.stuck, fun _ _ _ => ⟨hlists₃, hbase₃⟩⟩ A.base 0 h4
          simp only [heq₃, heq₄, Option.some.injEq, Prod.mk.injEq] at hr
          obtain ⟨rfl, rfl, rfl⟩ := hr
          rw [hlist i hhi] at hne
          rw [hsize] at hfits
          refine ⟨h₄, hnext₄, fun j hj hne => ?_, Or.inr ⟨rfl, i, hlo, hhi, hne, hfits⟩⟩
          rw [hoff₄ _ (offPool_freelist A hj)]
          rw [← hlist j hj] at hne
          exact hkept₃ j hj hne

/-! ## Whole runs -/

/-- Memory, and the ranges handed out so far, newest first. -/
structure ArenaState where
  mem : Mem
  given : List (Word × Word)

structure AllocOp where
  size : Word
  flags : Word
deriving DecidableEq, Repr

/-- A call of `vmem_alloc` with a positive size and a fit strategy that returns. -/
def arenaStep (s : ArenaState) (op : AllocOp) (s' : ArenaState) : Prop :=
  1 ≤ op.size.toNat ∧ op.flags &&& vmemVmFitMask ≠ 0 ∧
  ∃ fuel junk eax edx m', vmemAlloc S fuel s.mem A.addr op.size op.flags junk =
      some (eax, edx, m') ∧
    s' = ⟨m', if eax = 0 then s.given else (eax, op.size) :: s.given⟩

/-- Two ranges share no address. -/
def RangeApart (p q : Word × Word) : Prop :=
  p.1.toNat + p.2.toNat ≤ q.1.toNat ∨ q.1.toNat + q.2.toNat ≤ p.1.toNat

/-- The ranges handed out lie in the span and are pairwise disjoint. -/
def RangesOk (given : List (Word × Word)) : Prop :=
  (∀ p ∈ given, A.base.toNat ≤ p.1.toNat ∧
    p.1.toNat + p.2.toNat ≤ A.base.toNat + A.args.size.toNat) ∧
  given.Pairwise RangeApart

/-- The condition on the state before a call: nothing has been handed out yet, or
no list that the search reads holds a segment. -/
def FirstOrEmpty (s : ArenaState) (op : AllocOp) : Prop :=
  s.given = [] ∨ ¬ SearchFinds A s.mem op.size op.flags

/-- Every range handed out starts at the base; until then the arena is fresh. -/
structure ArenaInv (s : ArenaState) : Prop where
  linked : ArenaLinked A s.mem
  addrs : ∀ p ∈ s.given, p.1 = A.base ∧ A.base ≠ 0 ∧ 0 < p.2.toNat
  self : s.given ≠ [] → s.mem.read32 S.top = S.top
  fresh : s.given = [] → A.base ≠ 0 → ArenaFresh A s.mem

/-- In a fresh arena the search only takes the span for a request that fits. -/
theorem ArenaFresh.fits {m : Mem} (h : ArenaFresh A m) {size flags : Word}
    (hpos : 1 ≤ size.toNat) {i : Nat} (hlo : startClass size flags ≤ i) (hhi : i < 32)
    (hne : m.read32 (A.freelist i) ≠ 0)
    (hbest : flags &&& vmemVmInstantfit = 0 → size.slt (m.read32 (S.field segSize))) :
    size.toNat ≤ A.args.size.toNat := by
  obtain ⟨rfl, hsize, hspan⟩ := h.size i hhi hne
  have hself : 2 ^ Nat.log2 A.args.size.toNat ≤ A.args.size.toNat := Nat.log2_self_le (by omega)
  have hlt : size.toNat < 2 ^ (Nat.log2 size.toNat + 1) := Nat.lt_log2_self
  by_cases hflags : flags &&& vmemVmInstantfit = 0
  · have hslt := hbest hflags
    rw [hsize] at hslt
    have hstart : startClass size flags = Nat.log2 size.toNat := if_pos (Or.inl hflags)
    rw [hstart] at hlo
    -- a size in the upper half starts the search at the last list
    by_cases hsz : size.toNat < 2 ^ 31
    · by_cases hsp : A.args.size.toNat < 2 ^ 31
      · rw [slt_of_lt hsz hsp, decide_eq_true_eq] at hslt
        omega
      · omega
    · have hlog : 31 ≤ Nat.log2 size.toNat := (Nat.le_log2 (by omega)).mpr (by omega)
      have hsp : 2 ^ 31 ≤ A.args.size.toNat :=
        le_trans (Nat.pow_le_pow_right (by omega) (hlog.trans hlo)) hself
      rw [slt_of_ge (by omega) hsp, decide_eq_true_eq] at hslt
      omega
  · by_cases hpow : size &&& (size - 1) = 0
    · have hstart : startClass size flags = Nat.log2 size.toNat := if_pos (Or.inr hpow)
      have heq : size.toNat = 2 ^ Nat.log2 size.toNat := by
        have hand := congrArg BitVec.toNat hpow
        rw [BitVec.toNat_and, show (size - 1).toNat = size.toNat - 1 by bv_omega] at hand
        obtain ⟨k, hk⟩ := (Nat.and_sub_one_eq_zero_iff_isPowerOfTwo (by omega)).mp hand
        rw [hk, Nat.log2_two_pow]
      rw [heq]
      exact le_trans (Nat.pow_le_pow_right (by omega) (hstart ▸ hlo)) hself
    · have hstart : startClass size flags = Nat.log2 size.toNat + 1 :=
        if_neg (fun hor => hor.elim hflags hpow)
      have hle : 2 ^ (Nat.log2 size.toNat + 1) ≤ 2 ^ Nat.log2 A.args.size.toNat :=
        Nat.pow_le_pow_right (by omega) (hstart ▸ hlo)
      omega

/-- A call that meets the condition keeps the ranges apart. -/
theorem arenaStep_ok {s s' : ArenaState} {op : AllocOp} (h : ArenaInv A s)
    (hok : RangesOk A s.given) (hcond : FirstOrEmpty A s op) (hstep : arenaStep A s op s') :
    ArenaInv A s' ∧ RangesOk A s'.given := by
  obtain ⟨hpos, hflags, fuel, junk, eax, edx, m', hr, rfl⟩ := hstep
  obtain ⟨hlinked, hself, hkept, hcases⟩ := vmemAlloc_spec A h.linked hflags hr
  rcases hcases with ⟨rfl, -, hlists, hsize⟩ | ⟨rfl, i, hlo, hhi, hne, hbest⟩
  · simp only [if_pos]
    refine ⟨⟨hlinked, h.addrs, fun _ => hself, fun hnil hb => ⟨hlinked, fun hpos' => ?_,
      fun i hi hne => ?_⟩⟩, hok⟩
    · exact hkept _ log2_lt ((h.fresh hnil hb).listed hpos')
    rw [hlists i hi] at hne
    rw [hsize]
    exact (h.fresh hnil hb).size i hi hne
  · by_cases hb : A.base = 0
    · rw [if_pos hb]
      exact ⟨⟨hlinked, h.addrs, fun _ => hself, fun _ hb' => absurd hb hb'⟩, hok⟩
    -- the first block there is
    · have hnil : s.given = [] :=
        hcond.resolve_right (fun hno => hno ⟨i, hlo, hhi, hne⟩)
      have hfits := (h.fresh hnil hb).fits A hpos hlo hhi hne hbest
      rw [if_neg hb, hnil]
      refine ⟨⟨hlinked, ?_, fun _ => hself, fun hnil' => absurd hnil' (by simp)⟩, ?_, by simp⟩
      · intro p hp
        obtain rfl := List.mem_singleton.mp hp
        exact ⟨rfl, hb, hpos⟩
      · intro p hp
        obtain rfl := List.mem_singleton.mp hp
        exact ⟨le_refl _, by simpa using hfits⟩

/-- A call that does not meet it hands out the base once more. -/
theorem arenaStep_bad {s s' : ArenaState} {op : AllocOp} (h : ArenaInv A s)
    (hcond : ¬ FirstOrEmpty A s op) (hstep : arenaStep A s op s') : ¬ RangesOk A s'.given := by
  obtain ⟨hpos, hflags, fuel, junk, eax, edx, m', hr, rfl⟩ := hstep
  obtain ⟨hne, hfinds⟩ := not_or.mp hcond
  obtain ⟨-, -, -, hcases⟩ := vmemAlloc_spec A h.linked hflags hr
  rcases hcases with ⟨-, hempty, -⟩ | ⟨rfl, -⟩
  · exact absurd (hempty (h.self hne)) hfinds
  · obtain ⟨p, given, hgiven⟩ := List.exists_cons_of_ne_nil hne
    obtain ⟨haddr, hb, hp⟩ := h.addrs p (by rw [hgiven]; exact List.mem_cons_self ..)
    rw [if_neg hb, hgiven]
    rintro ⟨-, hpair⟩
    have hapart := (List.pairwise_cons.mp hpair).1 p (List.mem_cons_self ..)
    unfold RangeApart at hapart
    rw [haddr] at hapart
    dsimp only at hapart
    omega

/-- An instant fit for a power of two returns when the list of its class holds a
segment. -/
theorem vmemAlloc_instant {m : Mem} (h : ArenaLinked A m) {size flags : Word}
    (hflags : flags &&& vmemVmInstantfit ≠ 0) (hpow : size &&& (size - 1) = 0)
    (hne : m.read32 (A.freelist (Nat.log2 size.toNat)) ≠ 0) (junk : Word × Word × Word) :
    ∃ edx m', vmemAlloc S 3 m A.addr size flags junk = some (A.base, edx, m') := by
  have hmask : flags &&& vmemVmFitMask ≠ 0 := by
    intro h0
    refine hflags ?_
    have hsub : vmemVmInstantfit = vmemVmFitMask &&& vmemVmInstantfit := by decide
    rw [hsub, ← BitVec.and_assoc, h0]
    decide
  obtain ⟨m₂, quantum, h₂, -, hoff₂, heq⟩ := vmemAlloc_eq A h size hmask
  have heq := heq 3 junk
  have hlog := @log2_lt size
  rw [← hoff₂ _ (offPool_freelist A hlog)] at hne
  obtain ⟨hlists, hbase⟩ := h₂.segs _ hlog hne
  have hsearch : iterate (xallocBody m₂ ⟨A.addr, size, quantum, 0, 0, 0, -1, flags⟩) 3
      ⟨.retryStrat, junk.1, junk.2.1, junk.2.2⟩ = some (some (S.seg 63, A.base)) := by
    have hfirst : startClass size flags = Nat.log2 size.toNat := if_pos (Or.inr hpow)
    rw [iterate_again (xallocBody_retryStrat rfl _ _ _),
      iterate_again (xallocBody_retry (freelist_succ A) _ _), if_neg hflags, hfirst]
    exact iterate_done (xallocBody_instant_hit rfl h₂ hlog hne _ _) 0
  obtain ⟨m₃, local4, heq₃, -⟩ := xallocFound_spec A hlists hbase size
  rw [hsearch] at heq
  simp only [heq₃] at heq
  exact ⟨_, _, heq⟩

end Arena

/-- From `vmem_bootstrap` and `vmem_create` on, the ranges that a run of
`vmem_alloc` hands out stay inside the span and disjoint exactly when every call
of the run is made before anything has been handed out or with only empty lists
to search. -/
theorem vmemRanges_iff (A : VmemArena S) (m₀ : Mem) (hhead : m₀.read32 S.pVmemFreeSegHead = 0)
    (hcount : m₀.read32 S.iVmemFreeSegCount = 0) :
    ∃ m, vmemBootstrap S 64 m₀ = some m ∧
      ∀ r, Run (arenaStep A) ⟨vmemCreate S m A.addr A.name A.base A.args, []⟩ r →
        ((∀ p ∈ r, RangesOk A p.2.given) ↔
          RunMeets (FirstOrEmpty A) ⟨vmemCreate S m A.addr A.name A.base A.args, []⟩ r) := by
  obtain ⟨m, hm, hinv, -⟩ := vmemBootstrap_spec S hhead hcount
  have hfresh := vmemCreate_fresh A (poolStuck_of_listInv S hinv)
  have hstart : ArenaInv A ⟨vmemCreate S m A.addr A.name A.base A.args, []⟩ ∧ RangesOk A [] :=
    ⟨⟨hfresh.linked, by simp, fun hne => absurd rfl hne, fun _ _ => hfresh⟩, by simp [RangesOk]⟩
  refine ⟨m, hm, fun r hr => ⟨fun hall => ?_, fun hmeets p hp => ?_⟩⟩
  · exact Run.meets_of_all
      (fun s => ArenaInv A s ∧ RangesOk A s.given) (fun s => RangesOk A s.given)
      (fun s op s' hs hc hstep => arenaStep_ok A hs.1 hs.2 hc hstep)
      (fun s op s' hs hc hstep => arenaStep_bad A hs.1 hc hstep) hstart hr hall
  · exact (Run.invariant_of_meets (fun s => ArenaInv A s ∧ RangesOk A s.given)
      (fun s op s' hs hc hstep => arenaStep_ok A hs.1 hs.2 hc hstep) hstart hr hmeets p hp).2

/-- A span of one page at 0x40000000, described by an object at 0xC0300000. -/
def demoArena : VmemArena demoStatics where
  addr := 0xC0300000
  name := 0xC0310000
  base := 0x40000000
  args := ⟨4096, 4096, 0, 0, 0, 0, 0⟩
  source := rfl
  fits := by decide
  half := by decide
  apart := by decide
  span := by decide

theorem vmemRanges_iff_demo :
    ∃ m, vmemBootstrap demoStatics 64 (fun _ => 0) = some m ∧
      ∀ r, Run (arenaStep demoArena) ⟨vmemCreate demoStatics m demoArena.addr demoArena.name
          demoArena.base demoArena.args, []⟩ r →
        ((∀ p ∈ r, RangesOk demoArena p.2.given) ↔
          RunMeets (FirstOrEmpty demoArena) ⟨vmemCreate demoStatics m demoArena.addr
            demoArena.name demoArena.base demoArena.args, []⟩ r) :=
  vmemRanges_iff demoStatics demoArena (fun _ => 0) (by decide) (by decide)

/-- Two instant fits for the whole page both return its address. -/
theorem vmemRanges_counterexample :
    ∃ m m' m'', vmemBootstrap demoStatics 64 (fun _ => 0) = some m ∧
      Run (arenaStep demoArena)
        ⟨vmemCreate demoStatics m demoArena.addr demoArena.name demoArena.base demoArena.args, []⟩
        [(⟨4096, vmemVmInstantfit⟩, ⟨m', [(0x40000000, 4096)]⟩),
          (⟨4096, vmemVmInstantfit⟩, ⟨m'', [(0x40000000, 4096), (0x40000000, 4096)]⟩)] ∧
      ¬ RangesOk demoArena [(0x40000000, 4096), (0x40000000, 4096)] := by
  obtain ⟨m, hm, hinv, -⟩ :=
    vmemBootstrap_spec demoStatics (m := fun _ => 0) (by decide) (by decide)
  have hfresh := vmemCreate_fresh demoArena (poolStuck_of_listInv demoStatics hinv)
  have hlisted := hfresh.listed (by decide)
  have hinst : vmemVmInstantfit &&& vmemVmInstantfit ≠ 0 := by decide
  have hpow : (4096 : Word) &&& (4096 - 1) = 0 := by decide
  obtain ⟨edx, m', hr⟩ :=
    vmemAlloc_instant demoArena hfresh.linked hinst hpow hlisted (0, 0, 0)
  obtain ⟨hlinked, -, hkept, -⟩ := vmemAlloc_spec demoArena hfresh.linked (by decide) hr
  obtain ⟨edx', m'', hr'⟩ := vmemAlloc_instant demoArena hlinked hinst hpow
    (hkept _ (by decide) hlisted) (0, 0, 0)
  refine ⟨m, m', m'', hm, ⟨⟨by decide, by decide, 3, (0, 0, 0), _, edx, m', hr, rfl⟩,
    ⟨by decide, by decide, 3, (0, 0, 0), _, edx', m'', hr', rfl⟩, trivial⟩, ?_⟩
  rintro ⟨-, hpair⟩
  have hapart := (List.pairwise_cons.mp hpair).1 _ (List.mem_cons_self ..)
  rcases hapart with h | h
  · exact absurd h (by decide)
  · exact absurd h (by decide)

end StupidOS.Kernel
