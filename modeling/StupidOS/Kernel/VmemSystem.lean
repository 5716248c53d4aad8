import StupidOS.Kernel.VmemCalls

/-!
# Any number of arenas

After `vmem_bootstrap` arenas are created and allocated from in any order. They share the
descriptors, which all come out as descriptor 63, so a list of any arena is empty or starts
with that one (`SystemInv`). What a call of `vmem_alloc` does next is decided by the lists of
its arena and the three words base, size and next of descriptor 63.
-/

namespace StupidOS.Kernel

variable (S : VmemStatics)

/-! ## Objects -/

/-- Where a `Vmem` object lies. -/
structure VmemObject where
  addr : Word
  fits : addr.toNat + 248 ≤ 2 ^ 32
  half : addr.toNat + 248 ≤ 2 ^ 31 ∨ 2 ^ 31 ≤ addr.toNat
  apart : addr.toNat + 248 ≤ S.aVmemStaticSegs.toNat ∨
    S.aVmemStaticSegs.toNat + 1800 ≤ addr.toNat

variable {S}

namespace VmemObject

/-- The object as an arena with the base that descriptor 63 holds. -/
def view (o : VmemObject S) (base : Word) : VmemArena S where
  addr := o.addr
  name := 0
  base := base
  args := ⟨0, 0, 0, 0, 0, 0, 0⟩
  source := rfl
  fits := o.fits
  half := o.half
  apart := o.apart
  span := Nat.le_of_lt base.isLt

@[simp] theorem view_addr (o : VmemObject S) (base : Word) : (o.view base).addr = o.addr := rfl

/-- Free list `i`. -/
def freelist (o : VmemObject S) (i : Nat) : Word := (o.view 0).freelist i

/-- Two objects are the same, or share no byte. -/
def Apart (o o' : VmemObject S) : Prop :=
  o.addr = o'.addr ∨ o.addr.toNat + 248 ≤ o'.addr.toNat ∨ o'.addr.toNat + 248 ≤ o.addr.toNat

theorem Apart.symm {o o' : VmemObject S} (h : o.Apart o') : o'.Apart o := by
  rcases h with heq | hlow | hhigh
  · exact Or.inl heq.symm
  · exact Or.inr (Or.inr hlow)
  · exact Or.inr (Or.inl hhigh)

theorem freelist_toNat (o : VmemObject S) {i : Nat} (hi : i < 32) :
    (o.freelist i).toNat = o.addr.toNat + (56 + 4 * i) := (o.view 0).word_toNat (by omega)

/-- A call on one arena leaves the lists of another alone. -/
theorem aside {o o' : VmemObject S} (happ : o.addr.toNat + 248 ≤ o'.addr.toNat ∨
    o'.addr.toNat + 248 ≤ o.addr.toNat) {j : Nat} (hj : j < 32) :
    Aside (o.view 0) (o'.freelist j) := by
  have hfits := o.fits
  have hfits' := o'.fits
  have hj' := o'.freelist_toNat hj
  refine ⟨(o'.view 0).offPool (by omega), ?_, fun k hk => sep_word_field S (by omega) hk⟩
  intro i hi
  have hi' : ((o.view 0).freelist i).toNat = _ := o.freelist_toNat hi
  exact Sep.of_le (by omega) (by omega) (by omega) (by omega) (by omega)

end VmemObject

/-! ## Calls -/

/-- Memory, and the arenas created so far. -/
structure VmemSystem (S : VmemStatics) where
  mem : Mem
  arenas : List (VmemObject S)

inductive VmemCall (S : VmemStatics) where
  | create (o : VmemObject S) (name base : Word) (args : VmemCreateArgs)
  | alloc (o : VmemObject S) (size flags : Word)

/-- `vmem_create` of an object that does not overlap another one, or `vmem_alloc` of a
positive size with a fit strategy, which returns. -/
def vmemStep (s : VmemSystem S) (c : VmemCall S) (s' : VmemSystem S) : Prop :=
  match c with
  | .create o name base args =>
      (∀ o' ∈ s.arenas, o.Apart o') ∧
        s' = ⟨vmemCreate S s.mem o.addr name base args, o :: s.arenas⟩
  | .alloc o size flags =>
      o ∈ s.arenas ∧ 1 ≤ size.toNat ∧ flags &&& vmemVmFitMask ≠ 0 ∧
        ∃ fuel junk eax edx m', vmemAlloc S fuel s.mem o.addr size flags junk
          = some (eax, edx, m') ∧ s' = ⟨m', s.arenas⟩

/-- Every list of every arena is empty or starts with descriptor 63; if there is one that does,
descriptor 63 is the last of its list or linked to itself. -/
structure SystemInv (s : VmemSystem S) : Prop where
  stuck : PoolStuck S s.mem
  apart : ∀ o ∈ s.arenas, ∀ o' ∈ s.arenas, o.Apart o'
  lists : ∀ o ∈ s.arenas, ∀ i, i < 32 →
    s.mem.read32 (o.freelist i) = 0 ∨ s.mem.read32 (o.freelist i) = S.top
  next : ∀ o ∈ s.arenas, ∀ i, i < 32 → s.mem.read32 (o.freelist i) ≠ 0 →
    s.mem.read32 S.top = 0 ∨ s.mem.read32 S.top = S.top

/-- The base that descriptor 63 holds. -/
def segBaseOf (S : VmemStatics) (m : Mem) : Word := m.read32 (S.field segBase)

theorem SystemInv.linked {s : VmemSystem S} (h : SystemInv s) {o : VmemObject S}
    (ho : o ∈ s.arenas) : ArenaLinked (o.view (segBaseOf S s.mem)) s.mem :=
  ⟨h.stuck, fun i hi hne => ⟨⟨h.stuck, h.next o ho i hi hne, h.lists o ho⟩, rfl⟩⟩

/-! ### `vmem_create` -/

theorem segFilled_frame (A : VmemArena S) {m : Mem} (hm : PoolStuck S m)
    (base size type : Word) {a : Word} (ha : Aside A a) :
    (segFilled S m base size type).read32 a = m.read32 a := by
  rcases hm.segalloc with ⟨-, -, -, hoff⟩
  rw [segFilled, Mem.read32_write32_of_sep _ _ (ha.fields segType (by decide)),
    Mem.read32_write32_of_sep _ _ (ha.fields segSize (by decide)),
    Mem.read32_write32_of_sep _ _ (ha.fields segBase (by decide)), hoff a ha.pool]

/-- `_vmem_add`: descriptor 63 takes the span and becomes the first of the list of its size
class, in front of what that list held. -/
theorem vmemAddSpan_lists (A : VmemArena S) {m : Mem} (hm : PoolStuck S m)
    (hlists : ∀ i, i < 32 → m.read32 (A.freelist i) = 0 ∨ m.read32 (A.freelist i) = S.top)
    (base size flags type : Word) :
    ∃ m', (vmemAddSpan S m A.addr base size flags type).2 = m' ∧ PoolStuck S m' ∧
      m'.read32 S.top = m.read32 (A.freelist (Nat.log2 size.toNat)) ∧
      m'.read32 (A.freelist (Nat.log2 size.toNat)) = S.top ∧
      (∀ i, i < 32 → i ≠ Nat.log2 size.toNat →
        m'.read32 (A.freelist i) = m.read32 (A.freelist i)) ∧
      m'.read32 (S.field segBase) = base ∧ m'.read32 (S.field segSize) = size ∧
      ∀ a, Aside A a → m'.read32 a = m.read32 a := by
  rcases segFilled_spec A hm base size type with ⟨hstuck₁, -, -, hfree₁⟩
  rcases segFilled_spec A hstuck₁ base size vmemSegmentFree with ⟨hstuck₂, hbase₂, hsize₂, hfree₂⟩
  have hlog := @log2_lt size
  have hread := hfree₂ _ hlog
  rw [hfree₁ _ hlog] at hread
  have hslot := hlists _ hlog
  rw [← hread] at hslot
  rcases hstuck₂.insert S (offPool_freelist A hlog) hslot with ⟨hstuck, hnext, hhead, hoff⟩
  refine ⟨_, vmemAddSpan_eq A _ _ _ _ hm hstuck₁, hstuck, hnext.trans hread, hhead, ?_, ?_, ?_, ?_⟩
  · intro i hi hclass
    rw [hoff _ (offPool_freelist A hi) (A.freelist_ne hi hlog hclass), hfree₂ i hi, hfree₁ i hi]
  · rw [hoff _ (offPool_field S (by decide)) (sep_freelist_field A hlog (by decide)).symm, hbase₂]
  · rw [hoff _ (offPool_field S (by decide)) (sep_freelist_field A hlog (by decide)).symm, hsize₂]
  · intro a ha
    rw [hoff a ha.pool (ha.lists _ hlog), segFilled_frame A hstuck₁ _ _ _ ha,
      segFilled_frame A hm _ _ _ ha]

/-- `_vmem_add` on an arena with empty lists. -/
theorem vmemAddSpan_spec (A : VmemArena S) {m : Mem} (hm : PoolStuck S m)
    (hempty : ∀ i, i < 32 → m.read32 (A.freelist i) = 0) (base size flags type : Word) :
    PoolStuck S (vmemAddSpan S m A.addr base size flags type).2 ∧
    (vmemAddSpan S m A.addr base size flags type).2.read32 S.top = 0 ∧
    (∀ i, i < 32 → (vmemAddSpan S m A.addr base size flags type).2.read32 (A.freelist i) = 0 ∨
      (vmemAddSpan S m A.addr base size flags type).2.read32 (A.freelist i) = S.top) ∧
    ∀ a, Aside A a → (vmemAddSpan S m A.addr base size flags type).2.read32 a = m.read32 a := by
  rcases vmemAddSpan_lists A hm (fun i hi => Or.inl (hempty i hi)) base size flags type with
    ⟨m', rfl, hstuck, hnext, hhead, hothers, -, -, hframe⟩
  refine ⟨hstuck, hnext.trans (hempty _ log2_lt), ?_, hframe⟩
  intro i hi
  by_cases hclass : i = Nat.log2 size.toNat
  · rw [hclass]
    exact Or.inr hhead
  · rw [hothers i hi hclass]
    exact Or.inl (hempty i hi)

/-- `vmem_create`: the lists of the object are new, and with a span on one of them descriptor 63
is the last of its list; without one they are empty. -/
theorem vmemCreate_spec (A : VmemArena S) {m : Mem} (hm : PoolStuck S m) (name base : Word)
    (args : VmemCreateArgs) :
    PoolStuck S (vmemCreate S m A.addr name base args) ∧
    (∀ i, i < 32 → (vmemCreate S m A.addr name base args).read32 (A.freelist i) = 0 ∨
      (vmemCreate S m A.addr name base args).read32 (A.freelist i) = S.top) ∧
    ((vmemCreate S m A.addr name base args).read32 S.top = 0 ∨
      (vmemCreate S m A.addr name base args).read32 S.top = m.read32 S.top ∧
        ∀ i, i < 32 → (vmemCreate S m A.addr name base args).read32 (A.freelist i) = 0) ∧
    ∀ a, Aside A a → (vmemCreate S m A.addr name base args).read32 a
      = (vmemCreateObject m A.addr name base args).read32 a := by
  have hempty := fun i (hi : i < 32) => vmemCreateObject_freelist A m name base args hi
  rcases vmemCreateObject_stuck A hm name base args with ⟨hstuck, htop⟩
  unfold vmemCreate vmemAdd
  dsimp only
  split
  · exact ⟨hstuck, fun i hi => Or.inl (hempty i hi), Or.inr ⟨htop, hempty⟩, fun _ _ => rfl⟩
  · split
    · exact ⟨hstuck, fun i hi => Or.inl (hempty i hi), Or.inr ⟨htop, hempty⟩, fun _ _ => rfl⟩
    · rcases vmemAddSpan_spec A hstuck hempty base
        ((vmemCreateObject m A.addr name base args).read32 (A.addr + vmSize))
        ((vmemCreateObject m A.addr name base args).read32 (A.addr + vmFlags))
        vmemSegmentStaticSpan with ⟨hstuck', hnext, hlists, hframe⟩
      exact ⟨hstuck', hlists, Or.inl hnext, hframe⟩

/-! ### Runs -/

theorem systemInv_create {s : VmemSystem S} (h : SystemInv s) (o : VmemObject S)
    (name base : Word) (args : VmemCreateArgs) (happ : ∀ o' ∈ s.arenas, o.Apart o') :
    SystemInv ⟨vmemCreate S s.mem o.addr name base args, o :: s.arenas⟩ := by
  rcases vmemCreate_spec (o.view 0) h.stuck name base args with ⟨hstuck, hlists, hnext, hframe⟩
  have hobject := fun a => @vmemCreateObject_frame S (o.view 0) s.mem name base args a
  simp only [VmemObject.view_addr] at hstuck hlists hnext hframe hobject
  -- an arena is the one created, or keeps its lists
  have hcases : ∀ o' ∈ o :: s.arenas, (∀ i, o'.freelist i = o.freelist i) ∨
      o' ∈ s.arenas ∧ ∀ i, i < 32 → (vmemCreate S s.mem o.addr name base args).read32
        (o'.freelist i) = s.mem.read32 (o'.freelist i) := by
    intro o' ho'
    rcases List.mem_cons.mp ho' with rfl | ho'
    · exact Or.inl (fun _ => rfl)
    · rcases happ o' ho' with heq | hapart
      · left
        intro i
        change o'.addr + _ = o.addr + _
        rw [heq]
      · refine Or.inr ⟨ho', fun i hi => ?_⟩
        have hlist := o'.freelist_toNat hi
        have hfits' := o'.fits
        rw [hframe _ (VmemObject.aside hapart hi), hobject _ (by omega) (by omega)]
  refine ⟨hstuck, ?_, ?_, ?_⟩
  · intro o₁ hmem₁ o₂ hmem₂
    rcases List.mem_cons.mp hmem₁ with rfl | hold₁
    · rcases List.mem_cons.mp hmem₂ with rfl | hold₂
      · exact Or.inl rfl
      · exact happ o₂ hold₂
    · rcases List.mem_cons.mp hmem₂ with rfl | hold₂
      · exact (happ o₁ hold₁).symm
      · exact h.apart o₁ hold₁ o₂ hold₂
  · intro o' ho' i hi
    rcases hcases o' ho' with hsame | ⟨hold, hkept⟩
    · rw [hsame i]
      exact hlists i hi
    · dsimp only
      rw [hkept i hi]
      exact h.lists o' hold i hi
  · intro o' ho' i hi hne
    rcases hnext with hzero | ⟨htop, hempty⟩
    · exact Or.inl hzero
    · rcases hcases o' ho' with hsame | ⟨hold, hkept⟩
      · rw [hsame i] at hne
        exact absurd (hempty i hi) hne
      · dsimp only at hne
        rw [hkept i hi] at hne
        have hnext' := h.next o' hold i hi hne
        rw [← htop] at hnext'
        exact hnext'

theorem systemInv_alloc {s : VmemSystem S} (h : SystemInv s) {o : VmemObject S}
    (ho : o ∈ s.arenas) {m' : Mem} (hcalled : Called (o.view (segBaseOf S s.mem)) s.mem m') :
    SystemInv ⟨m', s.arenas⟩ := by
  refine ⟨hcalled.linked.stuck, h.apart, ?_, fun _ _ _ _ _ => Or.inr hcalled.self⟩
  have hown : ∀ i, i < 32 → m'.read32 (o.freelist i) = 0 ∨ m'.read32 (o.freelist i) = S.top := by
    intro i hi
    by_cases hempty : m'.read32 (o.freelist i) = 0
    · exact Or.inl hempty
    · exact Or.inr (hcalled.linked.read _ hi hempty).2.2.1
  intro o' ho' i hi
  rcases h.apart o ho o' ho' with heq | hapart
  · have hsame : o'.freelist i = o.freelist i := by
      change o'.addr + _ = o.addr + _
      rw [heq]
    rw [hsame]
    exact hown i hi
  · have haside := VmemObject.aside hapart hi
    dsimp only
    rw [hcalled.frame _ ⟨haside.pool, haside.lists, haside.fields⟩]
    exact h.lists o' ho' i hi

theorem systemInv_step (s : VmemSystem S) (c : VmemCall S) (s' : VmemSystem S)
    (h : SystemInv s) (hstep : vmemStep s c s') : SystemInv s' := by
  cases c with
  | create o name base args =>
      rcases hstep with ⟨happ, rfl⟩
      exact systemInv_create h o name base args happ
  | alloc o size flags =>
      rcases hstep with ⟨ho, -, hflags, fuel, junk, eax, edx, m', hr, rfl⟩
      exact systemInv_alloc h ho (vmemAlloc_result (h.linked ho) hflags hr).2.1

/-- Every state of a run from `vmem_bootstrap` on keeps the invariant. -/
theorem systemInv_run {m : Mem} (hm : PoolStuck S m) {r : List (VmemCall S × VmemSystem S)}
    (hr : Run vmemStep ⟨m, []⟩ r) : ∀ p ∈ r, SystemInv p.2 := by
  have hstart : SystemInv (⟨m, []⟩ : VmemSystem S) :=
    ⟨hm, fun _ ho => absurd ho List.not_mem_nil, fun _ ho => absurd ho List.not_mem_nil,
      fun _ ho => absurd ho List.not_mem_nil⟩
  exact Run.invariant SystemInv systemInv_step hstart hr

/-! ## Termination -/

/-- When a call of `vmem_alloc` returns: its search hits a list; or it is a best fit that finds
all its lists empty, or descriptor 63 at the end of its list. -/
def VmemObject.Returns (o : VmemObject S) (m : Mem) (size flags : Word) : Prop :=
  SearchEnds (o.view 0) m size flags

/-- **Termination of `vmem_alloc`.** In every state reached from `vmem_bootstrap` by creating
arenas and allocating from them, a call returns exactly when its search ends. -/
theorem vmemAlloc_returns_iff (m₀ : Mem) (hhead : m₀.read32 S.pVmemFreeSegHead = 0)
    (hcount : m₀.read32 S.iVmemFreeSegCount = 0) :
    ∃ m, vmemBootstrap S 64 m₀ = some m ∧
      ∀ r, Run vmemStep (⟨m, []⟩ : VmemSystem S) r → ∀ p ∈ r, ∀ o ∈ p.2.arenas,
        ∀ size flags : Word, 1 ≤ size.toNat → flags &&& vmemVmFitMask ≠ 0 → ∀ junk,
          ((∃ fuel x, vmemAlloc S fuel p.2.mem o.addr size flags junk = some x) ↔
            o.Returns p.2.mem size flags) := by
  rcases vmemBootstrap_spec S hhead hcount with ⟨m, hm, hinv, -⟩
  refine ⟨m, hm, ?_⟩
  intro r hr p hp o ho size flags _ hflags junk
  have hlinked := (systemInv_run (poolStuck_of_listInv S hinv) hr p hp).linked ho
  constructor
  · intro h
    rcases h with ⟨fuel, ⟨eax, edx, m'⟩, hrun⟩
    exact (vmemAlloc_result hlinked hflags hrun).1
  · intro h
    rcases vmemAlloc_ends hlinked hflags h junk with ⟨eax, edx, m', hrun, -⟩
    exact ⟨201, _, hrun⟩

/-- The object of the demonstration arena. -/
def demoObject : VmemObject demoStatics where
  addr := 0xC0300000
  fits := demoArena.fits
  half := demoArena.half
  apart := demoArena.apart

theorem vmemAlloc_returns_iff_demo :
    ∃ m, vmemBootstrap demoStatics 64 (fun _ => 0) = some m ∧
      ∀ r, Run vmemStep (⟨m, []⟩ : VmemSystem demoStatics) r → ∀ p ∈ r, ∀ o ∈ p.2.arenas,
        ∀ size flags : Word, 1 ≤ size.toNat → flags &&& vmemVmFitMask ≠ 0 → ∀ junk,
          ((∃ fuel x, vmemAlloc demoStatics fuel p.2.mem o.addr size flags junk = some x) ↔
            o.Returns p.2.mem size flags) :=
  vmemAlloc_returns_iff (fun _ => 0) (by decide) (by decide)

/-- The state after `vmem_create` of the demonstration arena. -/
def demoCreated (m : Mem) : VmemSystem demoStatics :=
  ⟨vmemCreate demoStatics m demoObject.addr demoArena.name demoArena.base demoArena.args,
    [demoObject]⟩

theorem demoCreated_run (m : Mem) : Run vmemStep (⟨m, []⟩ : VmemSystem demoStatics)
    [(.create demoObject demoArena.name demoArena.base demoArena.args, demoCreated m)] :=
  ⟨⟨fun _ ho => absurd ho List.not_mem_nil, rfl⟩, trivial⟩

theorem demoCreated_fresh {m : Mem} (hm : PoolStuck demoStatics m) :
    ArenaFresh demoArena (demoCreated m).mem := vmemCreate_fresh demoArena hm

/-- An instant fit for two pages from an arena of one page does not return. -/
theorem vmemAlloc_returns_counterexample :
    ∃ m s, vmemBootstrap demoStatics 64 (fun _ => 0) = some m ∧
      Run vmemStep (⟨m, []⟩ : VmemSystem demoStatics)
        [(.create demoObject demoArena.name demoArena.base demoArena.args, s)] ∧
      ∀ fuel junk, vmemAlloc demoStatics fuel s.mem demoObject.addr 8192 vmemVmInstantfit junk
        = none := by
  rcases vmemBootstrap_spec demoStatics (m := fun _ => 0) (by decide) (by decide) with
    ⟨m, hm, hinv, -⟩
  have hfresh := demoCreated_fresh (poolStuck_of_listInv demoStatics hinv)
  refine ⟨m, demoCreated m, hm, demoCreated_run m, ?_⟩
  intro fuel junk
  apply vmemAlloc_circles (A := demoArena) hfresh.linked (by decide)
  intro hends
  rcases hends with ⟨i, hlo, hhi, hne, -⟩ | ⟨hbest, -⟩
  · -- the only list with a segment is that of the page
    have hclass := (hfresh.size i hhi hne).1
    have hstart : startClass 8192 vmemVmInstantfit = 13 := by decide
    have hpage : Nat.log2 demoArena.args.size.toNat = 12 := by decide
    omega
  · exact absurd hbest (by decide)

/-! ## Completeness -/

/-- The entries of the list whose head is at `p`. -/
inductive OnList (m : Mem) (p : Word) : Word → Prop where
  | first (h : m.read32 p ≠ 0) : OnList m p (m.read32 p)
  | next {e : Word} (he : OnList m p e) (h : m.read32 e ≠ 0) : OnList m p (m.read32 e)

/-- A free segment of the arena is one on a free list of it. -/
def VmemObject.FreeSegment (o : VmemObject S) (m : Mem) (seg : Word) : Prop :=
  ∃ i, i < 32 ∧ OnList m (o.freelist i) (seg + segSeglist)

/-- There is a free segment of size `size` or more. -/
def VmemObject.FreeFits (o : VmemObject S) (m : Mem) (size : Word) : Prop :=
  ∃ seg, o.FreeSegment m seg ∧ size.toNat ≤ (m.read32 (seg + segSize)).toNat

/-- A call of `vmem_alloc` that returns, with an address if there is a free segment that is
long enough, and with `ENOMEM` if there is none. -/
def VmemObject.Complete (o : VmemObject S) (m : Mem) (size flags : Word)
    (junk : Word × Word × Word) : Prop :=
  ∃ fuel eax edx m', vmemAlloc S fuel m o.addr size flags junk = some (eax, edx, m') ∧
    (o.FreeFits m size → eax ≠ 0) ∧ (¬ o.FreeFits m size → eax = 0 ∧ edx = enomem)

/-- The condition for that: the search hits a list, and descriptor 63 is long enough and has
a base that is not 0; or it ends without a hit, and no free segment is long enough. -/
def VmemObject.CompleteWhen (o : VmemObject S) (m : Mem) (size flags : Word) : Prop :=
  Found (o.view 0) m size flags ∧ size.toNat ≤ (m.read32 (S.field segSize)).toNat ∧
      segBaseOf S m ≠ 0 ∨
    ¬ Found (o.view 0) m size flags ∧ o.Returns m size flags ∧ ¬ o.FreeFits m size

/-- On the lists of an arena there is descriptor 63 only. -/
theorem SystemInv.onList {s : VmemSystem S} (h : SystemInv s) {o : VmemObject S}
    (ho : o ∈ s.arenas) {i : Nat} (hi : i < 32) {e : Word}
    (he : OnList s.mem (o.freelist i) e) : e = S.top ∧ s.mem.read32 (o.freelist i) ≠ 0 := by
  induction he with
  | first hne => exact ⟨(h.lists o ho i hi).resolve_left hne, hne⟩
  | next _ hne ih =>
      rcases ih with ⟨rfl, hlist⟩
      exact ⟨(h.next o ho i hi hlist).resolve_left hne, hlist⟩

theorem SystemInv.freeFits_of_hit {s : VmemSystem S} (h : SystemInv s) {o : VmemObject S}
    (ho : o ∈ s.arenas) {size flags : Word} (hfound : Found (o.view 0) s.mem size flags) :
    o.FreeFits s.mem size ↔ size.toNat ≤ (s.mem.read32 (S.field segSize)).toNat := by
  constructor
  · intro hfits
    rcases hfits with ⟨seg, ⟨i, hi, hseg⟩, hsize⟩
    have htop := (h.onList ho hi hseg).1
    have hsame : seg = S.seg 63 := by
      rw [← top_sub, ← htop]
      bv_omega
    rw [hsame] at hsize
    exact hsize
  · intro hsize
    rcases hfound with ⟨i, -, hi, hne, -⟩
    have hfirst : OnList s.mem (o.freelist i) S.top := by
      rw [← (h.lists o ho i hi).resolve_left hne]
      exact OnList.first hne
    exact ⟨S.seg 63, ⟨i, hi, hfirst⟩, hsize⟩

/-- **Completeness of `vmem_alloc`.** In every state reached from `vmem_bootstrap` by creating
arenas and allocating from them, the condition is exact. -/
theorem vmemAlloc_complete_iff (m₀ : Mem) (hhead : m₀.read32 S.pVmemFreeSegHead = 0)
    (hcount : m₀.read32 S.iVmemFreeSegCount = 0) :
    ∃ m, vmemBootstrap S 64 m₀ = some m ∧
      ∀ r, Run vmemStep (⟨m, []⟩ : VmemSystem S) r → ∀ p ∈ r, ∀ o ∈ p.2.arenas,
        ∀ size flags : Word, 1 ≤ size.toNat → flags &&& vmemVmFitMask ≠ 0 → ∀ junk,
          (o.Complete p.2.mem size flags junk ↔ o.CompleteWhen p.2.mem size flags) := by
  rcases vmemBootstrap_spec S hhead hcount with ⟨m, hm, hinv, -⟩
  refine ⟨m, hm, ?_⟩
  intro r hr p hp o ho size flags _ hflags junk
  -- in every state reached the lists hold descriptor 63 or nothing
  have hsys := systemInv_run (poolStuck_of_listInv S hinv) hr p hp
  have hlinked := hsys.linked ho
  have henomem : (0 : Word) ≠ enomem := by decide
  constructor
  · intro h
    rcases h with ⟨fuel, eax, edx, m', hrun, hyes, hno⟩
    rcases vmemAlloc_result hlinked hflags hrun with ⟨hends, -, hcases⟩
    rcases hcases with ⟨hfound, rfl, rfl⟩ | ⟨hmiss, rfl, -⟩
    · have hfits : o.FreeFits p.2.mem size := by
        by_contra hnot
        exact henomem (hno hnot).2
      exact Or.inl ⟨hfound, (hsys.freeFits_of_hit ho hfound).mp hfits, hyes hfits⟩
    · exact Or.inr ⟨hmiss, hends, fun hfits => hyes hfits rfl⟩
  · intro h
    rcases h with ⟨hfound, hsize, hbase⟩ | ⟨hmiss, hends, hnot⟩
    · have hends : SearchEnds (o.view (segBaseOf S p.2.mem)) p.2.mem size flags := Or.inl hfound
      rcases vmemAlloc_ends hlinked hflags hends junk with ⟨eax, edx, m', hrun, -, hcases⟩
      have hfits := (hsys.freeFits_of_hit ho hfound).mpr hsize
      rcases hcases with ⟨-, rfl, -⟩ | ⟨hmiss, -⟩
      · exact ⟨201, _, edx, m', hrun, fun _ => hbase, fun hnot => absurd hfits hnot⟩
      · exact absurd hfound hmiss
    · rcases vmemAlloc_ends hlinked hflags hends junk with ⟨eax, edx, m', hrun, -, hcases⟩
      rcases hcases with ⟨hfound, -⟩ | ⟨-, heax, hedx⟩
      · exact absurd hfound hmiss
      · exact ⟨201, eax, edx, m', hrun, fun hfits => absurd hfits hnot, fun _ => ⟨heax, hedx⟩⟩

theorem vmemAlloc_complete_iff_demo :
    ∃ m, vmemBootstrap demoStatics 64 (fun _ => 0) = some m ∧
      ∀ r, Run vmemStep (⟨m, []⟩ : VmemSystem demoStatics) r → ∀ p ∈ r, ∀ o ∈ p.2.arenas,
        ∀ size flags : Word, 1 ≤ size.toNat → flags &&& vmemVmFitMask ≠ 0 → ∀ junk,
          (o.Complete p.2.mem size flags junk ↔ o.CompleteWhen p.2.mem size flags) :=
  vmemAlloc_complete_iff (fun _ => 0) (by decide) (by decide)

/-! ### An exact fit -/

section Count

variable {m : Mem} (hm : PoolStuck S m)
include hm

theorem vmemSegalloc_count :
    (vmemSegalloc S m).2.read32 S.iVmemFreeSegCount = m.read32 S.iVmemFreeSegCount - 1 := by
  rcases hm.remove with ⟨-, -, hoff⟩
  have hcount : (listRemove m S.top).read32 S.iVmemFreeSegCount
      = m.read32 S.iVmemFreeSegCount := by
    apply hoff
    intro e he
    have hsep := sep_entry_count S he
    unfold Sep at *
    constructor <;> bv_omega
  unfold vmemSegalloc
  dsimp only
  rw [hm.head, if_neg ((poolHeap S).ne_zero _ (top_entry S))]
  dsimp only
  rw [Mem.read32_write32, hcount]

theorem segFilled_count (base size type : Word) :
    (segFilled S m base size type).read32 S.iVmemFreeSegCount
      = m.read32 S.iVmemFreeSegCount - 1 := by
  rw [segFilled, Mem.read32_write32_of_sep _ _ (offPool_field S (by decide)).2.2.symm,
    Mem.read32_write32_of_sep _ _ (offPool_field S (by decide)).2.2.symm,
    Mem.read32_write32_of_sep _ _ (offPool_field S (by decide)).2.2.symm, vmemSegalloc_count hm]

/-- A span takes two descriptors. -/
theorem vmemAddSpan_count (A : VmemArena S)
    (hempty : ∀ i, i < 32 → m.read32 (A.freelist i) = 0) (base size flags type : Word) :
    (vmemAddSpan S m A.addr base size flags type).2.read32 S.iVmemFreeSegCount
      = m.read32 S.iVmemFreeSegCount - 1 - 1 := by
  rcases segFilled_spec A hm base size type with ⟨hstuck₁, -, -, hfree₁⟩
  rcases segFilled_spec A hstuck₁ base size vmemSegmentFree with ⟨-, -, -, hfree₂⟩
  have hlog := @log2_lt size
  have hread := hfree₂ _ hlog
  rw [hfree₁ _ hlog, hempty _ hlog] at hread
  have hentry := sep_entry_count S (top_entry S)
  rw [vmemAddSpan_eq A _ _ _ _ hm hstuck₁,
    listInsertHead_frame _ (offPool_freelist A hlog).2.2.symm
      (by unfold Sep at *; constructor <;> bv_omega)
      (by unfold Sep at *; constructor <;> bv_omega) (fun hne => absurd hread hne),
    segFilled_count hstuck₁, segFilled_count hm]

end Count

theorem demoCreated_count {m : Mem} (hm : PoolStuck demoStatics m)
    (hcount : m.read32 demoStatics.iVmemFreeSegCount = 64) :
    (demoCreated m).mem.read32 demoStatics.iVmemFreeSegCount = 62 := by
  have hframe := vmemCreateObject_frame demoArena m demoArena.name demoArena.base demoArena.args
    (a := demoStatics.iVmemFreeSegCount) (by decide) (by decide)
  rcases vmemCreateObject_stuck demoArena hm demoArena.name demoArena.base demoArena.args with
    ⟨hstuck, -⟩
  have hsize := vmemCreateObject_size demoArena m demoArena.name demoArena.base demoArena.args
  have hsource : ¬ demoArena.args.source ≠ 0 := not_not_intro rfl
  have hspan : ¬ (vmemCreateObject m demoArena.addr demoArena.name demoArena.base
      demoArena.args).read32 (demoArena.addr + vmSize) = 0 := by
    rw [hsize]
    decide
  change (vmemCreate demoStatics m demoArena.addr demoArena.name demoArena.base
    demoArena.args).read32 demoStatics.iVmemFreeSegCount = 62
  unfold vmemCreate vmemAdd
  dsimp only
  rw [if_neg hsource, if_neg hspan, vmemAddSpan_count hstuck demoArena
    (fun i hi => vmemCreateObject_freelist demoArena m _ _ _ hi), hframe, hcount]
  decide

/-- A best fit for the whole of the only free segment fails, with 62 descriptors left. -/
theorem vmemAlloc_complete_counterexample :
    ∃ m s, vmemBootstrap demoStatics 64 (fun _ => 0) = some m ∧
      Run vmemStep (⟨m, []⟩ : VmemSystem demoStatics)
        [(.create demoObject demoArena.name demoArena.base demoArena.args, s)] ∧
      s.mem.read32 demoStatics.iVmemFreeSegCount = 62 ∧
      demoObject.FreeFits s.mem 4096 ∧
      (∃ m', vmemAlloc demoStatics 201 s.mem demoObject.addr 4096 vmemVmBestfit (0, 0, 0)
        = some (0, enomem, m')) ∧
      ¬ demoObject.Complete s.mem 4096 vmemVmBestfit (0, 0, 0) := by
  rcases vmemBootstrap_spec demoStatics (m := fun _ => 0) (by decide) (by decide) with
    ⟨m, hm, hinv, hcount⟩
  have hstuck := poolStuck_of_listInv demoStatics hinv
  have hfresh := demoCreated_fresh hstuck
  have hlisted := hfresh.listed (by decide)
  have hlog := @log2_lt demoArena.args.size
  rcases hfresh.size _ hlog hlisted with ⟨-, hsize, -⟩
  rcases hfresh.linked.read demoArena hlog hlisted with ⟨-, -, htop, -⟩
  have hbest : vmemVmBestfit &&& vmemVmInstantfit = 0 := by decide
  -- a best fit wants more than the 4096 bytes that are free
  have hmiss : ¬ Found demoArena (demoCreated m).mem 4096 vmemVmBestfit := by
    intro hfound
    rcases hfound with ⟨i, -, -, -, hlt⟩
    have hslt := hlt hbest
    rw [hsize] at hslt
    exact absurd hslt (by decide)
  have hfits : demoObject.FreeFits (demoCreated m).mem 4096 := by
    refine ⟨demoStatics.seg 63, ⟨_, hlog, ?_⟩, ?_⟩
    · have hfirst := OnList.first hlisted
      rw [htop] at hfirst
      exact hfirst
    · change _ ≤ ((demoCreated m).mem.read32 (demoStatics.field segSize)).toNat
      rw [hsize]
      decide
  refine ⟨m, demoCreated m, hm, demoCreated_run m, demoCreated_count hstuck hcount, hfits, ?_, ?_⟩
  · have hnext : (demoCreated m).mem.read32 demoStatics.top = 0 := by
      rcases vmemCreate_spec demoArena hstuck demoArena.name demoArena.base demoArena.args with
        ⟨-, -, hnext, -⟩
      rcases hnext with hzero | ⟨-, hempty⟩
      · exact hzero
      · exact absurd (hempty _ hlog) hlisted
    -- descriptor 63 is not linked to itself yet, so the search ends
    have hends : SearchEnds demoArena (demoCreated m).mem 4096 vmemVmBestfit :=
      Or.inr ⟨hbest, Or.inr hnext⟩
    rcases vmemAlloc_ends hfresh.linked (by decide) hends (0, 0, 0) with
      ⟨eax, edx, m', hrun, -, hcases⟩
    rcases hcases with ⟨hfound, -⟩ | ⟨-, rfl, rfl⟩
    · exact absurd hfound hmiss
    · exact ⟨m', hrun⟩
  · intro hcomplete
    rcases hcomplete with ⟨fuel, eax, edx, m', hrun, hyes, -⟩
    rcases vmemAlloc_result (A := demoArena) hfresh.linked (by decide) hrun with ⟨-, -, hcases⟩
    rcases hcases with ⟨hfound, -⟩ | ⟨-, heax, -⟩
    · exact hmiss hfound
    · exact hyes hfits heax

end StupidOS.Kernel
