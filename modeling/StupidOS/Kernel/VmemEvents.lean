import StupidOS.Kernel.VmemXalloc

/-!
# Runs of all vmem calls

Arenas are created, get further spans with `vmem_add` and are allocated from with any request
that keeps to their lists. The invariant is that of `VmemSystem`. On it rest the failures of
`vmem_xalloc`, which are never without a trace once the pool is in use, the constraints that
it never looks at, and what `vmem_add` returns.
-/

namespace StupidOS.Kernel

variable {S : VmemStatics}

/-! ## Calls -/

inductive VmemEvent (S : VmemStatics) where
  | create (o : VmemObject S) (name base : Word) (args : VmemCreateArgs)
  | add (o : VmemObject S) (addr size flags : Word)
  | xalloc (o : VmemObject S) (q : XallocRequest) (junk : Word × Word × Word)

/-- `vmem_create` of an object that does not overlap another one, `vmem_add` of a span, or
`vmem_xalloc` of a positive size, which returns. -/
def vmemEvent (s : VmemSystem S) (e : VmemEvent S) (s' : VmemSystem S) : Prop :=
  match e with
  | .create o name base args =>
      (∀ o' ∈ s.arenas, o.Apart o') ∧
        s' = ⟨vmemCreate S s.mem o.addr name base args, o :: s.arenas⟩
  | .add o addr size flags =>
      o ∈ s.arenas ∧ addr ≠ 0 ∧ size ≠ 0 ∧
        s' = ⟨vmemAdd S s.mem o.addr addr size flags, s.arenas⟩
  | .xalloc o q junk =>
      o ∈ s.arenas ∧ 1 ≤ q.size.toNat ∧
        ∃ fuel eax edx m', o.xalloc fuel s.mem q junk = some (eax, edx, m') ∧
          s' = ⟨m', s.arenas⟩

/-- The call does not take a word outside the lists of its arena for a segment. -/
def StaysOnLists (s : VmemSystem S) : VmemEvent S → Prop
  | .create _ _ _ _ => True
  | .add _ _ _ _ => True
  | .xalloc o q junk => o.KeepsToLists q junk.1 ∨
      ∃ fuel m', o.xalloc fuel s.mem q junk = some (0, enomem, m')

/-- The states after `vmem_bootstrap`, reached by calls that stay on the lists. -/
def VmemReached (m₀ : Mem) (s : VmemSystem S) : Prop :=
  ∃ m r e, vmemBootstrap S 64 m₀ = some m ∧ Run vmemEvent ⟨m, []⟩ r ∧
    RunMeets StaysOnLists ⟨m, []⟩ r ∧ (e, s) ∈ r

/-! ### The invariant -/

/-- The lists of other arenas after a call on one of them. -/
theorem SystemInv.other_list {s : VmemSystem S} (h : SystemInv s) {o o' : VmemObject S}
    (ho : o ∈ s.arenas) (ho' : o' ∈ s.arenas) {m' : Mem}
    (hframe : ∀ a, Aside (o.view 0) a → m'.read32 a = s.mem.read32 a) {i : Nat} (hi : i < 32) :
    o'.freelist i = o.freelist i ∨
      m'.read32 (o'.freelist i) = s.mem.read32 (o'.freelist i) := by
  rcases h.apart o ho o' ho' with heq | hapart
  · left
    change o'.addr + _ = o.addr + _
    rw [heq]
  · exact Or.inr (hframe _ (VmemObject.aside hapart hi))

theorem systemInv_add {s : VmemSystem S} (h : SystemInv s) {o : VmemObject S}
    (ho : o ∈ s.arenas) (addr size flags : Word) :
    SystemInv ⟨vmemAdd S s.mem o.addr addr size flags, s.arenas⟩ := by
  rcases vmemAddSpan_lists (o.view 0) h.stuck (h.lists o ho) addr size flags
    vmemSegmentStaticSpan with ⟨m', hm', hstuck, hnext, hhead, hothers, -, -, hframe⟩
  have hadd : vmemAdd S s.mem o.addr addr size flags = m' := hm'
  rw [hadd]
  -- of the lists of this arena, one gets an entry
  have hown : ∀ i, i < 32 → m'.read32 (o.freelist i) = 0 ∨ m'.read32 (o.freelist i) = S.top := by
    intro i hi
    by_cases hclass : i = Nat.log2 size.toNat
    · rw [hclass]
      exact Or.inr hhead
    · have hkept : m'.read32 (o.freelist i) = s.mem.read32 (o.freelist i) := hothers i hi hclass
      rw [hkept]
      exact h.lists o ho i hi
  refine ⟨hstuck, h.apart, ?_, ?_⟩
  · intro o' ho' i hi
    dsimp only
    rcases h.other_list ho ho' hframe hi with hsame | hkept
    · rw [hsame]
      exact hown i hi
    · rw [hkept]
      exact h.lists o' ho' i hi
  · intro o' ho' i hi _
    dsimp only
    rw [hnext]
    exact h.lists o ho _ log2_lt

theorem systemInv_event (s : VmemSystem S) (e : VmemEvent S) (s' : VmemSystem S)
    (h : SystemInv s) (hstays : StaysOnLists s e) (hstep : vmemEvent s e s') : SystemInv s' := by
  cases e with
  | create o name base args =>
      rcases hstep with ⟨happ, rfl⟩
      exact systemInv_create h o name base args happ
  | add o addr size flags =>
      rcases hstep with ⟨ho, -, -, rfl⟩
      exact systemInv_add h ho addr size flags
  | xalloc o q junk =>
      rcases hstep with ⟨ho, -, fuel, eax, edx, m', hr, rfl⟩
      rcases hstays with hkeeps | ⟨fuel', m'', hr'⟩
      · exact systemInv_alloc h ho (VmemObject.xalloc_result (h.linked ho) hkeeps hr).1
      · have hsame := VmemObject.xalloc_unique h.stuck hr hr'
        rw [Prod.mk.injEq, Prod.mk.injEq] at hsame
        rcases hsame with ⟨-, -, rfl⟩
        exact systemInv_alloc h ho (VmemObject.xalloc_failed (h.linked ho) hr')

/-- Every state reached keeps the invariant. -/
theorem VmemReached.inv {m₀ : Mem} {s : VmemSystem S} (h : VmemReached m₀ s)
    (hhead : m₀.read32 S.pVmemFreeSegHead = 0) (hcount : m₀.read32 S.iVmemFreeSegCount = 0) :
    SystemInv s := by
  rcases h with ⟨m, r, e, hboot, hr, hstays, hmem⟩
  rcases vmemBootstrap_spec S hhead hcount with ⟨m', hboot', hinv, -⟩
  have hsame : m' = m := Option.some.inj (hboot'.symm.trans hboot)
  rw [hsame] at hinv
  have hstart : SystemInv (⟨m, []⟩ : VmemSystem S) :=
    ⟨poolStuck_of_listInv S hinv, fun _ ho => absurd ho List.not_mem_nil,
      fun _ ho => absurd ho List.not_mem_nil, fun _ ho => absurd ho List.not_mem_nil⟩
  exact Run.invariant_of_meets SystemInv systemInv_event hstart hr hstays (e, s) hmem

/-! ## Failed requests -/

/-- `m'` has the free segments of the arena and the free descriptors that `m` has: the lists hold
the same segments, with their bases and sizes, and the pool is a list of the same descriptors
that ends, with its length in the counter. -/
structure VmemObject.Unchanged (o : VmemObject S) (m m' : Mem) : Prop where
  lists : ∀ i, i < 32 → ∀ e, OnList m' (o.freelist i) e ↔ OnList m (o.freelist i) e
  segments : ∀ seg, o.FreeSegment m seg → m'.read32 (seg + segBase) = m.read32 (seg + segBase) ∧
    m'.read32 (seg + segSize) = m.read32 (seg + segSize)
  pool : ∃ l, Chain m'.read32 0 (m'.read32 S.pVmemFreeSegHead) l ∧
    (m'.read32 S.iVmemFreeSegCount).toNat = l.length ∧
    ∀ e, e ∈ l ↔ OnList m S.pVmemFreeSegHead e

theorem OnList.head_ne {m : Mem} {p e : Word} (h : OnList m p e) : m.read32 p ≠ 0 := by
  induction h with
  | first hne => exact hne
  | next _ _ ih => exact ih

/-- With no descriptor free, a memory is unchanged from itself. -/
theorem VmemObject.unchanged_empty (o : VmemObject S) {m : Mem}
    (hhead : m.read32 S.pVmemFreeSegHead = 0) (hcount : m.read32 S.iVmemFreeSegCount = 0) :
    o.Unchanged m m := by
  refine ⟨fun _ _ _ => Iff.rfl, fun _ _ => ⟨rfl, rfl⟩, [], hhead, ?_, ?_⟩
  · rw [hcount]
    rfl
  · intro e
    constructor
    · intro he
      exact absurd he List.not_mem_nil
    · intro he
      exact absurd hhead he.head_ne

/-- A pool whose first descriptor is linked to itself does not end. -/
theorem VmemObject.not_unchanged (o : VmemObject S) {m m' : Mem} (hm : PoolStuck S m')
    (hself : m'.read32 S.top = S.top) : ¬ o.Unchanged m m' := by
  intro h
  rcases h.pool with ⟨l, hl, -⟩
  rw [hm.head] at hl
  cases l with
  | nil => exact (poolHeap S).ne_zero _ (top_entry S) hl
  | cons x l =>
      rcases hl with ⟨rfl, hne, hrest⟩
      have hall : Chain m'.read32 0 S.top (S.top :: l) := ⟨rfl, hne, hrest⟩
      rw [hself] at hrest
      have hsame := hrest.unique hall
      exact List.ne_cons_self hsame

/-- With no descriptor free a request fails at once. -/
theorem VmemObject.xalloc_empty (o : VmemObject S) {m : Mem}
    (hhead : m.read32 S.pVmemFreeSegHead = 0) (fuel : Nat) (q : XallocRequest)
    (junk : Word × Word × Word) : o.xalloc fuel m q junk = some (0, enomem, m) := by
  have hnone : vmemSegalloc S m = (0, m) := by
    unfold vmemSegalloc
    dsimp only
    rw [hhead, if_pos rfl]
  unfold VmemObject.xalloc vmemXalloc
  simp only [vmemRefill, ite_self]
  rw [hnone]
  simp only [if_true]
  unfold xallocEnd
  simp only [if_true]

/-- **Failed requests.** Before `vmem_bootstrap` and in every state after it, a request that
returns 0 leaves everything unchanged exactly if no descriptor is free. -/
theorem vmemXalloc_unchanged_iff (m₀ : Mem) (hhead : m₀.read32 S.pVmemFreeSegHead = 0)
    (hcount : m₀.read32 S.iVmemFreeSegCount = 0) :
    ∀ s : VmemSystem S, s.mem = m₀ ∨ VmemReached m₀ s → ∀ o ∈ s.arenas, ∀ q junk fuel edx m',
      o.xalloc fuel s.mem q junk = some (0, edx, m') →
      edx = enomem ∨ o.KeepsToLists q junk.1 →
        (o.Unchanged s.mem m' ↔ s.mem.read32 S.pVmemFreeSegHead = 0) := by
  intro s hs o ho q junk fuel edx m' hr hfail
  rcases hs with heq | hs
  · rw [heq] at hr ⊢
    rw [o.xalloc_empty hhead] at hr
    have hm' : m' = m₀ := congrArg (fun r => r.2.2) (Option.some.inj hr.symm)
    rw [hm']
    exact ⟨fun _ => hhead, fun _ => o.unchanged_empty hhead hcount⟩
  · have hinv := hs.inv hhead hcount
    have hcalled : Called (o.view (segBaseOf S s.mem)) s.mem m' := by
      rcases hfail with rfl | hkeeps
      · exact VmemObject.xalloc_failed (hinv.linked ho) hr
      · exact (VmemObject.xalloc_result (hinv.linked ho) hkeeps hr).1
    constructor
    · intro h
      exact absurd h (o.not_unchanged hcalled.linked.stuck hcalled.self)
    · intro hzero
      rw [hinv.stuck.head] at hzero
      exact absurd hzero ((poolHeap S).ne_zero _ (top_entry S))

/-- The demonstration arena as one that imports its spans. -/
def demoImport : VmemCreateArgs := ⟨4096, 4096, 0, 0, 1, 0, 0⟩

/-- The state after its `vmem_create`, which takes no descriptor. -/
def demoImported (m : Mem) : VmemSystem demoStatics :=
  ⟨vmemCreate demoStatics m demoObject.addr demoArena.name demoArena.base demoImport, [demoObject]⟩

theorem demoImported_reached {m : Mem} (hm : vmemBootstrap demoStatics 64 (fun _ => 0) = some m) :
    VmemReached (fun _ => 0) (demoImported m) :=
  ⟨m, [(.create demoObject demoArena.name demoArena.base demoImport, demoImported m)], _, hm,
    ⟨⟨fun _ ho => absurd ho List.not_mem_nil, rfl⟩, trivial⟩, ⟨trivial, trivial⟩,
    List.mem_singleton.mpr rfl⟩

/-- A request without a strategy fails there, with 64 descriptors free. -/
theorem demoImported_fails {m : Mem} (hm : vmemBootstrap demoStatics 64 (fun _ => 0) = some m) :
    ∃ m', demoObject.xalloc 0 (demoImported m).mem (allocRequest 4096 0) (0, 0, 0)
        = some (0, enomem, m') ∧
      PoolStuck demoStatics m' ∧ m'.read32 demoStatics.top = demoStatics.top := by
  have hinv := (demoImported_reached hm).inv (by decide) (by decide)
  rcases xalloc_eq hinv.stuck demoObject (allocRequest 4096 0) with ⟨ebx, heq⟩
  have hlinked := hinv.linked (List.mem_singleton.mpr rfl : demoObject ∈ (demoImported m).arenas)
  rcases xallocFail_called (takenTwo_linked hlinked).1 with ⟨m', hexit, hcalled⟩
  refine ⟨m', ?_, hcalled.linked.stuck, hcalled.self⟩
  have hstart : (allocRequest 4096 0).start (0, 0, 0) = none := by decide
  rw [heq, hstart, ← hexit]

theorem vmemXalloc_unchanged_iff_demo :
    ∃ m m', vmemBootstrap demoStatics 64 (fun _ => 0) = some m ∧
      demoObject.xalloc 0 (demoImported m).mem (allocRequest 4096 0) (0, 0, 0)
        = some (0, enomem, m') ∧
      (demoObject.Unchanged (demoImported m).mem m' ↔
        (demoImported m).mem.read32 demoStatics.pVmemFreeSegHead = 0) := by
  rcases vmemBootstrap_spec demoStatics (m := fun _ => 0) (by decide) (by decide) with ⟨m, hm, -⟩
  rcases demoImported_fails hm with ⟨m', hr, -⟩
  refine ⟨m, m', hm, hr, ?_⟩
  exact vmemXalloc_unchanged_iff (fun _ => 0) (by decide) (by decide) (demoImported m)
    (Or.inr (demoImported_reached hm)) demoObject (List.mem_singleton.mpr rfl) _ _ _ _ _ hr
    (Or.inl rfl)

/-- The failed request leaves a pool that does not end. -/
theorem vmemXalloc_unchanged_counterexample :
    ∃ m m', vmemBootstrap demoStatics 64 (fun _ => 0) = some m ∧
      VmemReached (fun _ => 0) (demoImported m) ∧
      demoObject.xalloc 0 (demoImported m).mem (allocRequest 4096 0) (0, 0, 0)
        = some (0, enomem, m') ∧
      ¬ demoObject.Unchanged (demoImported m).mem m' := by
  rcases vmemBootstrap_spec demoStatics (m := fun _ => 0) (by decide) (by decide) with ⟨m, hm, -⟩
  rcases demoImported_fails hm with ⟨m', hr, hstuck, hself⟩
  exact ⟨m, m', hm, demoImported_reached hm, hr, demoObject.not_unchanged hstuck hself⟩

/-! ## Constraints -/

/-- The address meets the constraints of the request; an alignment of 0 stands for the quantum. -/
structure XallocRequest.Honours (q : XallocRequest) (quantum a : Word) : Prop where
  align : a.toNat % (if q.align = 0 then quantum else q.align).toNat = q.phase.toNat
  min : q.minaddr.toNat ≤ a.toNat
  max : a.toNat + q.size.toNat - 1 ≤ q.maxaddr.toNat
  nocross : q.nocross ≠ 0 → ∀ k : Nat,
    ¬ (a.toNat < k * q.nocross.toNat ∧ k * q.nocross.toNat < a.toNat + q.size.toNat)

/-- The quantum of an arena. -/
def VmemObject.quantum (o : VmemObject S) (m : Mem) : Word := m.read32 (o.addr + vmQuantum)

/-- What every address of a request that keeps to the lists is: the base in descriptor 63. -/
theorem SystemInv.address_iff {s : VmemSystem S} (h : SystemInv s) {o : VmemObject S}
    (ho : o ∈ s.arenas) {q : XallocRequest} {junk : Word × Word × Word}
    (hkeeps : o.KeepsToLists q junk.1) (P : Word → Prop) :
    (∀ fuel eax edx m', o.xalloc fuel s.mem q junk = some (eax, edx, m') → eax ≠ 0 → P eax) ↔
      (o.Hits s.mem q junk.1 → segBaseOf S s.mem ≠ 0 → P (segBaseOf S s.mem)) := by
  constructor
  · intro hall hhits hbase
    rcases VmemObject.xalloc_hits (h.linked ho) hhits with ⟨fuel, m', hr, -⟩
    exact hall fuel _ _ _ hr hbase
  · intro hbase fuel eax edx m' hr hne
    rcases (VmemObject.xalloc_result (h.linked ho) hkeeps hr).2 with ⟨hhits, rfl, -⟩ | ⟨-, rfl, -⟩
    · exact hbase hhits hne
    · exact absurd rfl hne

/-- **Constraints.** In every state reached, the addresses that a request returns meet its
constraints exactly if it takes no segment or the base in descriptor 63 meets them; and those of
`vmem_alloc` are multiples of the quantum exactly if that base is one. -/
theorem vmemXalloc_honours_iff (m₀ : Mem) (hhead : m₀.read32 S.pVmemFreeSegHead = 0)
    (hcount : m₀.read32 S.iVmemFreeSegCount = 0) :
    ∀ s : VmemSystem S, VmemReached m₀ s → ∀ o ∈ s.arenas,
      (∀ q junk, o.KeepsToLists q junk.1 →
        ((∀ fuel eax edx m', o.xalloc fuel s.mem q junk = some (eax, edx, m') → eax ≠ 0 →
            q.Honours (o.quantum s.mem) eax) ↔
          (o.Hits s.mem q junk.1 → segBaseOf S s.mem ≠ 0 →
            q.Honours (o.quantum s.mem) (segBaseOf S s.mem)))) ∧
      ∀ size flags junk,
        ((∀ fuel eax edx m', vmemAlloc S fuel s.mem o.addr size flags junk = some (eax, edx, m') →
            eax ≠ 0 → eax.toNat % (o.quantum s.mem).toNat = 0) ↔
          (o.Hits s.mem (allocRequest size flags) junk.1 → segBaseOf S s.mem ≠ 0 →
            (segBaseOf S s.mem).toNat % (o.quantum s.mem).toNat = 0)) := by
  intro s hs o ho
  have hinv := hs.inv hhead hcount
  constructor
  · intro q junk hkeeps
    exact hinv.address_iff ho hkeeps (fun a => q.Honours (o.quantum s.mem) a)
  · intro size flags junk
    -- `vmem_alloc` makes a request without an alignment, which keeps to the lists
    have hkeeps : o.KeepsToLists (allocRequest size flags) junk.1 := Or.inl rfl
    simp only [vmemAlloc_xalloc]
    exact hinv.address_iff ho hkeeps (fun a => a.toNat % (o.quantum s.mem).toNat = 0)

theorem demoCreated_reached {m : Mem} (hm : vmemBootstrap demoStatics 64 (fun _ => 0) = some m) :
    VmemReached (fun _ => 0) (demoCreated m) :=
  ⟨m, [(.create demoObject demoArena.name demoArena.base demoArena.args, demoCreated m)], _, hm,
    ⟨⟨fun _ ho => absurd ho List.not_mem_nil, rfl⟩, trivial⟩, ⟨trivial, trivial⟩,
    List.mem_singleton.mpr rfl⟩

/-- A page from 0x50000000 on, as the request puts it. -/
def demoRequest : XallocRequest := ⟨4096, 0, 0, 0, 0x50000000, -1, vmemVmInstantfit⟩

theorem vmemXalloc_honours_iff_demo :
    ∃ m, vmemBootstrap demoStatics 64 (fun _ => 0) = some m ∧
      ((∀ fuel eax edx m', demoObject.xalloc fuel (demoCreated m).mem demoRequest (0, 0, 0)
          = some (eax, edx, m') → eax ≠ 0 →
            demoRequest.Honours (demoObject.quantum (demoCreated m).mem) eax) ↔
        (demoObject.Hits (demoCreated m).mem demoRequest 0 →
          segBaseOf demoStatics (demoCreated m).mem ≠ 0 →
            demoRequest.Honours (demoObject.quantum (demoCreated m).mem)
              (segBaseOf demoStatics (demoCreated m).mem))) := by
  rcases vmemBootstrap_spec demoStatics (m := fun _ => 0) (by decide) (by decide) with ⟨m, hm, -⟩
  have hboth := vmemXalloc_honours_iff (fun _ => 0) (by decide) (by decide) (demoCreated m)
    (demoCreated_reached hm) demoObject (List.mem_singleton.mpr rfl)
  exact ⟨m, hm, hboth.1 demoRequest (0, 0, 0) (Or.inl rfl)⟩

/-- It gets the page at 0x40000000. -/
theorem vmemXalloc_honours_counterexample :
    ∃ m fuel m', vmemBootstrap demoStatics 64 (fun _ => 0) = some m ∧
      VmemReached (fun _ => 0) (demoCreated m) ∧
      demoObject.xalloc fuel (demoCreated m).mem demoRequest (0, 0, 0)
        = some (0x40000000, 0, m') ∧
      ¬ demoRequest.Honours (demoObject.quantum (demoCreated m).mem) 0x40000000 := by
  rcases vmemBootstrap_spec demoStatics (m := fun _ => 0) (by decide) (by decide) with
    ⟨m, hm, hpool, -⟩
  have hreached := demoCreated_reached hm
  have hinv := hreached.inv (by decide) (by decide)
  have hfresh := demoCreated_fresh (poolStuck_of_listInv demoStatics hpool)
  have hlisted := hfresh.listed (by decide)
  have hbase : segBaseOf demoStatics (demoCreated m).mem = 0x40000000 :=
    (hfresh.linked.read demoArena log2_lt hlisted).2.1
  have hhits : demoObject.Hits (demoCreated m).mem demoRequest
      ((0, 0, 0) : Word × Word × Word).1 := by
    have hinst : ¬ vmemVmInstantfit &&& vmemVmInstantfit = 0 := by decide
    exact Or.inl ⟨rfl, by decide, 12, by decide, by decide, hlisted,
      fun hbest => absurd hbest hinst⟩
  have hlinked := hinv.linked (List.mem_singleton.mpr rfl : demoObject ∈ (demoCreated m).arenas)
  rw [hbase] at hlinked
  rcases VmemObject.xalloc_hits hlinked hhits with ⟨fuel, m', hr, -⟩
  refine ⟨m, fuel, m', hm, hreached, hr, ?_⟩
  intro hhonours
  exact absurd hhonours.min (by decide)

/-! ## `vmem_add` -/

/-- Where the linker put the line break of `klog`: in the image of the kernel. -/
structure KlogStrings where
  szCRLF : Word
  inKernel : kernelVirtBase.toNat ≤ szCRLF.toNat

/-- At least two descriptors are in the pool. -/
def TwoFree (S : VmemStatics) (m : Mem) : Prop :=
  ∃ e e', e ≠ e' ∧ OnList m S.pVmemFreeSegHead e ∧ OnList m S.pVmemFreeSegHead e'

/-- `m'` has one free segment more than `m`, with the span, and the others as they were. -/
def VmemObject.OneMore (o : VmemObject S) (m m' : Mem) (addr size : Word) : Prop :=
  ∃ seg, ¬ o.FreeSegment m seg ∧ (∀ x, o.FreeSegment m' x ↔ x = seg ∨ o.FreeSegment m x) ∧
    m'.read32 (seg + segBase) = addr ∧ m'.read32 (seg + segSize) = size ∧
    ∀ x, o.FreeSegment m x → m'.read32 (x + segBase) = m.read32 (x + segBase) ∧
      m'.read32 (x + segSize) = m.read32 (x + segSize)

/-- What `vmem_add` should do: with two descriptors free it returns the address and adds the
span, otherwise it returns 0 and changes nothing. -/
structure VmemObject.AddMeets (o : VmemObject S) (K : KlogStrings) (m : Mem)
    (addr size flags : Word) : Prop where
  enough : TwoFree S m → vmemAddEax S K.szCRLF m o.addr addr size flags = addr ∧
    o.OneMore m (vmemAdd S m o.addr addr size flags) addr size
  short : ¬ TwoFree S m → vmemAddEax S K.szCRLF m o.addr addr size flags = 0 ∧
    o.Unchanged m (vmemAdd S m o.addr addr size flags)

/-- The next `lodsb` overwrites AL. -/
theorem lodsb_lodsb (eax : Word) {al : Byte} (al' : Byte)
    (hal : (al.setWidth 32 : Word) &&& 0xFFFFFF00 = 0) :
    lodsb (lodsb eax al) al' = lodsb eax al' := by
  unfold lodsb
  have hzero : eax &&& 0xFFFFFF00 &&& 0xFFFFFF00 ||| 0 = eax &&& 0xFFFFFF00 := by
    rw [BitVec.and_assoc, BitVec.and_self]
    exact BitVec.or_zero
  rw [BitVec.and_or_distrib_right, hal, hzero]

/-- `klog` returns the address of its line break, with the NUL in the low byte. -/
theorem klog_eq (szCRLF : Word) : klog szCRLF = szCRLF &&& 0xFFFFFF00 := by
  have hcr : cr ≠ 0 := by decide
  have hlf : lf ≠ 0 := by decide
  unfold klog
  simp only [klogPrintStr, if_neg hcr, if_neg hlf, if_true]
  rw [lodsb_lodsb _ lf (by decide), lodsb_lodsb _ 0 (by decide), lodsb]
  exact BitVec.or_zero

theorem KlogStrings.klog_ne (K : KlogStrings) : klog K.szCRLF ≠ 0 := by
  have hK := K.inKernel
  have hbase : kernelVirtBase.toNat = 0xC0000000 := rfl
  have hhigh : K.szCRLF.msb = true := by
    rw [BitVec.msb_eq_decide, decide_eq_true_eq]
    omega
  have hmask : (0xFFFFFF00 : Word).msb = true := by decide
  intro hzero
  rw [klog_eq] at hzero
  have hmsb := congrArg BitVec.msb hzero
  rw [BitVec.msb_and, hhigh, hmask] at hmsb
  exact absurd hmsb (by decide)

/-! ### Two free descriptors -/

/-- In a pool in use a second descriptor is free if the first is neither the last nor linked to
itself. -/
theorem PoolStuck.twoFree_iff {m : Mem} (hm : PoolStuck S m) :
    TwoFree S m ↔ m.read32 S.top ≠ 0 ∧ m.read32 S.top ≠ S.top := by
  have hne : m.read32 S.pVmemFreeSegHead ≠ 0 := by
    rw [hm.head]
    exact (poolHeap S).ne_zero _ (top_entry S)
  have hfirst := OnList.first hne
  rw [hm.head] at hfirst
  constructor
  · intro h
    rcases h with ⟨e, e', hdiff, he, he'⟩
    by_contra hnot
    -- otherwise the first descriptor is the only one
    have hone : ∀ x, OnList m S.pVmemFreeSegHead x → x = S.top := by
      intro x hx
      induction hx with
      | first _ => exact hm.head
      | next _ hnext ih =>
          rw [ih] at hnext ⊢
          by_contra hother
          exact hnot ⟨hnext, hother⟩
    exact hdiff ((hone e he).trans (hone e' he').symm)
  · intro h
    exact ⟨S.top, _, Ne.symm h.2, hfirst, OnList.next hfirst h.1⟩

/-- While two descriptors are free no arena has a segment. -/
theorem SystemInv.lists_empty {s : VmemSystem S} (h : SystemInv s) (htwo : TwoFree S s.mem)
    {o : VmemObject S} (ho : o ∈ s.arenas) {i : Nat} (hi : i < 32) :
    s.mem.read32 (o.freelist i) = 0 := by
  rcases h.stuck.twoFree_iff.mp htwo with ⟨hzero, hself⟩
  by_contra hne
  rcases h.next o ho i hi hne with h0 | h1
  · exact hzero h0
  · exact hself h1

/-- Then `vmem_add` does add the span. -/
theorem SystemInv.oneMore {s : VmemSystem S} (h : SystemInv s) (htwo : TwoFree S s.mem)
    {o : VmemObject S} (ho : o ∈ s.arenas) (addr size flags : Word) :
    o.OneMore s.mem (vmemAdd S s.mem o.addr addr size flags) addr size := by
  rcases vmemAddSpan_lists (o.view 0) h.stuck (h.lists o ho) addr size flags
    vmemSegmentStaticSpan with ⟨m', hm', -, hnext, hhead, hothers, hbase, hsize, -⟩
  have hadd : vmemAdd S s.mem o.addr addr size flags = m' := hm'
  rw [hadd]
  have hempty : ∀ i, i < 32 → s.mem.read32 (o.freelist i) = 0 := fun i hi => h.lists_empty htwo ho hi
  have hnone : ∀ x, ¬ o.FreeSegment s.mem x := by
    intro x hx
    rcases hx with ⟨i, hi, hx⟩
    exact hx.head_ne (hempty i hi)
  have htop : S.seg 63 + segSeglist = S.top := rfl
  -- descriptor 63 is now alone on the list of its size class
  have honly : ∀ i e, i < 32 → OnList m' (o.freelist i) e → e = S.top := by
    intro i e hi he
    have hclass : i = Nat.log2 size.toNat := by
      by_contra hclass
      exact he.head_ne ((hothers i hi hclass).trans (hempty i hi))
    rw [hclass] at he
    induction he with
    | first _ => exact hhead
    | next _ hne ih =>
        rw [ih] at hne
        exact absurd (hnext.trans (hempty _ log2_lt)) hne
  refine ⟨S.seg 63, hnone _, ?_, hbase, hsize, fun x hx => absurd hx (hnone x)⟩
  intro x
  constructor
  · intro hx
    rcases hx with ⟨i, hi, hx⟩
    left
    have hsame := honly i _ hi hx
    rw [← top_sub, ← hsame]
    bv_omega
  · intro hx
    rcases hx with rfl | hx
    · have hne : m'.read32 (o.freelist (Nat.log2 size.toNat)) ≠ 0 := by
        have hread : m'.read32 (o.freelist (Nat.log2 size.toNat)) = S.top := hhead
        rw [hread]
        exact (poolHeap S).ne_zero _ (top_entry S)
      have hfirst := OnList.first hne
      have hread : m'.read32 (o.freelist (Nat.log2 size.toNat)) = S.top := hhead
      rw [hread] at hfirst
      exact ⟨_, log2_lt, hfirst⟩
    · exact absurd hx (hnone x)

/-- **`vmem_add`.** Before `vmem_bootstrap` and in every state after it, the call does what it
should exactly if two descriptors are free and the address is the one that `klog` happens to
return. -/
theorem vmemAdd_meets_iff (K : KlogStrings) (m₀ : Mem) (hhead : m₀.read32 S.pVmemFreeSegHead = 0)
    (hcount : m₀.read32 S.iVmemFreeSegCount = 0) :
    ∀ s : VmemSystem S, s.mem = m₀ ∨ VmemReached m₀ s → ∀ o ∈ s.arenas,
      ∀ addr size flags : Word, addr ≠ 0 → size ≠ 0 →
        (o.AddMeets K s.mem addr size flags ↔
          TwoFree S s.mem ∧ addr = K.szCRLF &&& 0xFFFFFF00) := by
  intro s hs o ho addr size flags _ _
  have heax : vmemAddEax S K.szCRLF s.mem o.addr addr size flags = klog K.szCRLF := rfl
  constructor
  · intro h
    -- EAX is what `klog` left, which is not 0
    have htwo : TwoFree S s.mem := by
      by_contra hnot
      exact K.klog_ne (heax.symm.trans (h.short hnot).1)
    refine ⟨htwo, ?_⟩
    rw [← klog_eq, ← heax]
    exact (h.enough htwo).1.symm
  · intro h
    rcases h with ⟨htwo, haddr⟩
    refine ⟨?_, fun hnot => absurd htwo hnot⟩
    intro _
    refine ⟨?_, ?_⟩
    · rw [heax, klog_eq, haddr]
    -- before `vmem_bootstrap` there are no descriptors
    · rcases hs with heq | hs
      · rcases htwo with ⟨e, e', -, he, -⟩
        rw [heq] at he
        exact absurd hhead he.head_ne
      · exact (hs.inv hhead hcount).oneMore htwo ho addr size flags

/-- The line break of `klog` at 0xC0101234. -/
def demoKlog : KlogStrings := ⟨0xC0101234, by decide⟩

theorem vmemAdd_meets_iff_demo :
    ∃ m, vmemBootstrap demoStatics 64 (fun _ => 0) = some m ∧
      (demoObject.AddMeets demoKlog (demoImported m).mem 0xC0101200 4096 0 ↔
        TwoFree demoStatics (demoImported m).mem ∧
          (0xC0101200 : Word) = demoKlog.szCRLF &&& 0xFFFFFF00) := by
  rcases vmemBootstrap_spec demoStatics (m := fun _ => 0) (by decide) (by decide) with ⟨m, hm, -⟩
  refine ⟨m, hm, ?_⟩
  exact vmemAdd_meets_iff demoKlog (fun _ => 0) (by decide) (by decide) (demoImported m)
    (Or.inr (demoImported_reached hm)) demoObject (List.mem_singleton.mpr rfl) _ _ _ (by decide)
    (by decide)

/-- Right after `vmem_bootstrap` two descriptors are free. -/
theorem twoFree_pooled {m : Mem} (hpool : ListInv (poolHeap S) ⟨m, pooled S 64⟩) :
    TwoFree S m := by
  have hvisits := hpool.visits
  unfold ListVisits at hvisits
  have hlist : pooled S 64 = S.top :: (S.seg 62 + segSeglist) :: pooled S 62 := by
    rw [pooled_succ, pooled_succ]
    rfl
  dsimp only at hvisits
  rw [hlist] at hvisits
  have hnext : m.read32 S.top = S.seg 62 + segSeglist := hvisits.2.2.1
  have hsecond := S.seg_seglist_toNat (show 62 < 64 by omega)
  have htop : S.top.toNat = _ := S.seg_seglist_toNat (show 63 < 64 by omega)
  rw [(poolStuck_of_listInv S hpool).twoFree_iff, hnext]
  refine ⟨hvisits.2.2.2.1, ?_⟩
  intro hsame
  rw [hsame] at hsecond
  omega

/-- An arena that imports its spans takes no descriptor. -/
theorem demoImported_twoFree {m : Mem}
    (hpool : ListInv (poolHeap demoStatics) ⟨m, pooled demoStatics 64⟩) :
    TwoFree demoStatics (demoImported m).mem := by
  have hstuck := poolStuck_of_listInv demoStatics hpool
  rcases vmemCreateObject_stuck demoArena hstuck demoArena.name demoArena.base demoImport with
    ⟨hstuck', hnext⟩
  have hmem : (demoImported m).mem = vmemCreateObject m demoArena.addr demoArena.name
      demoArena.base demoImport := by
    have hsource : demoImport.source ≠ 0 := by decide
    change vmemCreate demoStatics m demoArena.addr demoArena.name demoArena.base demoImport = _
    unfold vmemCreate
    dsimp only
    rw [if_pos hsource]
  have htwo := twoFree_pooled hpool
  rw [hstuck.twoFree_iff] at htwo
  rw [hmem, hstuck'.twoFree_iff, hnext]
  exact htwo

/-- With two descriptors free, a page at 0x40000000 is added and 0xC0101200 returned. -/
theorem vmemAdd_meets_counterexample :
    ∃ m, vmemBootstrap demoStatics 64 (fun _ => 0) = some m ∧
      VmemReached (fun _ => 0) (demoImported m) ∧ TwoFree demoStatics (demoImported m).mem ∧
      (∀ flags, vmemAddEax demoStatics demoKlog.szCRLF (demoImported m).mem demoObject.addr
        0x40000000 4096 flags = 0xC0101200) ∧
      ∀ flags, ¬ demoObject.AddMeets demoKlog (demoImported m).mem 0x40000000 4096 flags := by
  rcases vmemBootstrap_spec demoStatics (m := fun _ => 0) (by decide) (by decide) with
    ⟨m, hm, hpool, -⟩
  have hklog : klog demoKlog.szCRLF = 0xC0101200 := by decide
  have htwo := demoImported_twoFree hpool
  refine ⟨m, hm, demoImported_reached hm, htwo, fun _ => hklog, ?_⟩
  intro flags h
  exact absurd (hklog.symm.trans (h.enough htwo).1) (by decide)

end StupidOS.Kernel
