import StupidOS.Kernel.VmemSystem

/-!
# The accounts of an arena

`vmem_size` reports what is allocated from `Vmem.in_use`. `vmem_create` fills that field with
the word above its stack arguments, since it copies seven words where six are passed, and no
other routine stores to it. So it is right as long as that word is 0 and no call takes a segment
of positive length (`vmemAccounts_iff`). How long the segment is that a call takes is not always
what was asked for: one that is not split is taken whole (`lengthTaken`).
-/

namespace StupidOS.Kernel

variable {S : VmemStatics} (A : VmemArena S)

/-! ## The fields of the object -/

/-- Word `i` of what `rep movsd` stores. -/
theorem repMovsd_read (m : Mem) (edi : Word) {ws : List Word} (hlen : ws.length < 2 ^ 29)
    {i : Nat} {w : Word} (hw : ws[i]? = some w) :
    (repMovsd m edi ws).read32 (edi + BitVec.ofNat 32 (4 * i)) = w := by
  induction ws generalizing m edi i with
  | nil => exact absurd hw (by simp)
  | cons v ws ih =>
      rw [List.length_cons] at hlen
      cases i with
      | zero =>
          rw [← Option.some.inj hw, Nat.mul_zero, BitVec.add_zero]
          exact repMovsd_head m edi v ws (by omega)
      | succ i =>
          have hnext : edi + BitVec.ofNat 32 (4 * (i + 1)) = edi + 4 + BitVec.ofNat 32 (4 * i) := by
            bv_omega
          rw [hnext, repMovsd]
          exact ih (m.write32 edi v) (edi + 4) (by omega) hw

/-- The seventh word copied is the one above the arguments. -/
theorem vmemCreateObject_inUse (m : Mem) (name base : Word) (args : VmemCreateArgs) :
    (vmemCreateObject m A.addr name base args).read32 (A.addr + vmInUse) = args.above := by
  have hfits := A.fits
  have haddr : A.addr + vmInUse = A.addr + vmSize + BitVec.ofNat 32 (4 * 6) := by
    unfold vmInUse vmSize
    bv_omega
  unfold vmemCreateObject
  dsimp only
  rw [Mem.read32_write32_of_sep _ _ (by unfold vmInUse vmSegqueue Sep; constructor <;> bv_omega),
    haddr]
  exact repMovsd_read _ _ (by simp) rfl

/-- The words in front of the lists are not stored to by a call. -/
theorem aside_word {k : Nat} (hk : k ≤ 52) : Aside A (A.word k) :=
  ⟨A.offPool (by omega), fun _ _ => A.sep_words (by omega) (by omega) (by omega),
    fun _ hj => sep_word_field S (by omega) hj⟩

theorem vmemCreate_word {m : Mem} (hm : PoolStuck S m) (name base : Word)
    (args : VmemCreateArgs) {k : Nat} (hk : k ≤ 52) :
    (vmemCreate S m A.addr name base args).read32 (A.word k)
      = (vmemCreateObject m A.addr name base args).read32 (A.word k) := by
  rcases vmemCreate_spec A hm name base args with ⟨-, -, -, hframe⟩
  exact hframe _ (aside_word A hk)

/-! ## The segment that a call takes -/

/-- `[ebp - 16]` where `vmem_xalloc.found` marks the segment as allocated: the segment found, or
the half of it that `split right` hands out. -/
def xallocSegment (m : Mem) (esi edi local4 local8 local16 local20 : Word) : Word :=
  -- remove seg from freelist
  let m := listRemove m (local16 + segSeglist)
  -- split left
  let eax := m.read32 (local16 + segBase)
  let m :=
    if eax = local20 then m else
    let m := m.write32 (local8 + segType) vmemSegmentFree
    let m := m.write32 (local8 + segBase) eax
    let ecx := local20 - eax
    let m := m.write32 (local8 + segSize) ecx
    let m := m.write32 (local16 + segBase) local20
    let edx := m.read32 (local16 + segSize) - ecx
    let m := m.write32 (local16 + segSize) edx
    let m := vmemAddToFreelist m esi local8
    vmemInsertSegment m esi local8 (m.read32 (local16 + segSegqueue + 4))
  -- split right
  let ecx := m.read32 (local16 + segSize)
  if edi = ecx then local16 else
  let eax := m.read32 (esi + vmQuantum) - 1
  if ¬ eax.slt (ecx - edi) then local16 else local4

/-- The segment that a call of `vmem_alloc` comes out of `.found` with. -/
def vmemAllocSegment (S : VmemStatics) (fuel : Nat) (m : Mem) (eax edx ecx : Word)
    (junk : Word × Word × Word) : Option Word :=
  let esi := eax
  let edi := edx
  let flags := ecx
  -- refill segment if needed
  let m :=
    if flags &&& vmemVmPopulating = 0 then m
    else if vmemMinReserve.slt (m.read32 S.iVmemFreeSegCount) then m
    else vmemRefill m
  let (eax, m) := vmemSegalloc S m
  if eax = 0 then none else
  let local8 := eax
  let (eax, m) := vmemSegalloc S m
  if eax = 0 then none else
  let local4 := eax
  if flags &&& vmemVmFitMask = 0 then none else
  let args : XallocArgs := ⟨esi, edi, m.read32 (esi + vmQuantum), 0, 0, 0, -1, flags⟩
  match iterate (xallocBody m args) fuel ⟨.retryStrat, junk.1, junk.2.1, junk.2.2⟩ with
  | none => none
  | some none => none
  | some (some (local16, local20)) => some (xallocSegment m esi edi local4 local8 local16 local20)

/-- The length of the segment that a call takes: what was asked for if the segment found is
split, else all of that segment. -/
def lengthTaken (m : Mem) (size : Word) : Word :=
  if TakenWhole S m A.addr size then m.read32 (S.field segSize) else size

/-- Some strategy is asked for, and its search hits a list. -/
def Takes (m : Mem) (size flags : Word) : Prop :=
  flags &&& vmemVmFitMask ≠ 0 ∧ Found A m size flags

variable {A}

/-- Both halves of a split are descriptor 63. -/
theorem xallocSegment_eq {m : Mem} (h : ArenaLists A m)
    (hbase : m.read32 (S.field segBase) = A.base) (edi : Word) :
    xallocSegment m A.addr edi (S.seg 63) (S.seg 63) (S.seg 63) A.base = S.seg 63 := by
  have hrem : listRemove m (S.seg 63 + segSeglist) = m := h.stuck.remove_self S h.next
  change m.read32 (S.seg 63 + segBase) = A.base at hbase
  unfold xallocSegment
  simp only [hrem, hbase, if_pos, ite_self]

/-- What is left in descriptor 63 is the length of what was taken. -/
theorem foundMem_size {m : Mem} (h : ArenaLists A m) (edi : Word) :
    (foundMem S m A.addr A.base edi).read32 (S.field segSize) = lengthTaken A m edi := by
  have hs : segSize.toNat ≤ 16 := by decide
  have ht : segType.toNat ≤ 16 := by decide
  rw [foundMem, lengthTaken, Mem.read32_write32_of_sep _ _ (sep_fields S hs ht (by decide))]
  split
  · rfl
  · rcases splitFields_lists A h A.base edi with ⟨h', -, hsize⟩
    rcases h'.addToFreelist A with ⟨-, hfield, -⟩
    rw [hfield segSize hs, hsize]

/-- The call and its segment come from one search. -/
theorem vmemAllocSegment_eq {m : Mem} (h : ArenaLinked A m) (size : Word) {flags : Word}
    (hflags : flags &&& vmemVmFitMask ≠ 0) :
    ∃ m₂ quantum, ArenaLinked A m₂ ∧ m₂.read32 S.top = m.read32 S.top ∧
      (∀ a, OffPool S a → m₂.read32 a = m.read32 a) ∧
      ∀ fuel junk, vmemAlloc S fuel m A.addr size flags junk =
          (match iterate (xallocBody m₂ ⟨A.addr, size, quantum, 0, 0, 0, -1, flags⟩) fuel
            ⟨.retryStrat, junk.1, junk.2.1, junk.2.2⟩ with
          | none => none
          | some none => some (xallocEnd S m₂ 0 enomem (S.seg 63) (S.seg 63))
          | some (some (local16, local20)) =>
            let (m, local8, local4, edi) :=
              xallocFound m₂ A.addr size (S.seg 63) (S.seg 63) local16 local20
            some (xallocEnd S m edi 0 local4 local8)) ∧
        vmemAllocSegment S fuel m A.addr size flags junk =
          match iterate (xallocBody m₂ ⟨A.addr, size, quantum, 0, 0, 0, -1, flags⟩) fuel
            ⟨.retryStrat, junk.1, junk.2.1, junk.2.2⟩ with
          | none => none
          | some none => none
          | some (some (local16, local20)) =>
            some (xallocSegment m₂ A.addr size (S.seg 63) (S.seg 63) local16 local20) := by
  rcases h.segalloc A with ⟨hres₁, h₁, hnext₁, hoff₁⟩
  rcases h₁.segalloc A with ⟨hres₂, h₂, hnext₂, hoff₂⟩
  refine ⟨_, (vmemSegalloc S (vmemSegalloc S m).2).2.read32 (A.addr + vmQuantum), h₂,
    hnext₂.trans hnext₁, fun a ha => (hoff₂ a ha).trans (hoff₁ a ha), ?_⟩
  intro fuel junk
  constructor
  · unfold vmemAlloc vmemXalloc
    simp only [vmemRefill, ite_self]
    rw [hres₁]
    simp only [if_neg (seg_ne_zero S)]
    rw [hres₂]
    simp only [if_neg (seg_ne_zero S), if_neg hflags]
    rfl
  · unfold vmemAllocSegment
    simp only [vmemRefill, ite_self]
    rw [hres₁]
    simp only [if_neg (seg_ne_zero S)]
    rw [hres₂]
    simp only [if_neg (seg_ne_zero S), if_neg hflags]

theorem lengthTaken_congr {m m₂ : Mem} (hoff : ∀ a, OffPool S a → m₂.read32 a = m.read32 a)
    (size : Word) : lengthTaken A m₂ size = lengthTaken A m size := by
  have hsize := hoff (S.field segSize) (offPool_field S (by decide))
  have hquantum : m₂.read32 (A.addr + vmQuantum) = m.read32 (A.addr + vmQuantum) :=
    hoff (A.word 24) (A.offPool (by decide))
  have hwhole : TakenWhole S m₂ A.addr size ↔ TakenWhole S m A.addr size := by
    rw [TakenWhole, TakenWhole, hsize, hquantum]
  rw [lengthTaken, lengthTaken, hsize]
  exact if_congr hwhole rfl rfl

/-- A call that returned took descriptor 63, with the length said beforehand, if its search hit
a list, and no segment otherwise. -/
theorem vmemAlloc_segment {m m' : Mem} (h : ArenaLinked A m) {size flags eax edx : Word}
    (hflags : flags &&& vmemVmFitMask ≠ 0) {fuel : Nat} {junk : Word × Word × Word}
    (hr : vmemAlloc S fuel m A.addr size flags junk = some (eax, edx, m')) :
    (Found A m size flags ∧ vmemAllocSegment S fuel m A.addr size flags junk = some (S.seg 63) ∧
      m'.read32 (S.field segSize) = lengthTaken A m size) ∨
    (¬ Found A m size flags ∧ vmemAllocSegment S fuel m A.addr size flags junk = none) := by
  rcases vmemAlloc_result h hflags hr with ⟨hends, -, -⟩
  rcases vmemAllocSegment_eq h size hflags with ⟨m₂, quantum, h₂, hnext, hoff, heq⟩
  rcases heq fuel junk with ⟨halloc, hsegment⟩
  have hends₂ := (searchEnds_congr hoff hnext size flags).mpr hends
  rcases search_outcome (a := ⟨A.addr, size, quantum, 0, 0, 0, -1, flags⟩) h₂ rfl hends₂ junk.1
    junk.2.1 junk.2.2 with ⟨r, hrun, houtcome⟩
  rw [hr] at halloc
  cases hloop : iterate (xallocBody m₂ ⟨A.addr, size, quantum, 0, 0, 0, -1, flags⟩) fuel
      ⟨.retryStrat, junk.1, junk.2.1, junk.2.2⟩ with
  | none =>
      rw [hloop] at halloc
      cases halloc
  | some found =>
      rw [hloop] at halloc hsegment
      have hsame := iterate_unique hrun hloop
      rcases houtcome with ⟨hfound, rfl⟩ | ⟨hmiss, rfl⟩
      · left
        rcases hfound with ⟨i, hlo, hhi, hhit⟩
        rcases h₂.segs i hhi hhit.1 with ⟨hlists, hbase⟩
        rcases foundMem_lists A hlists size with ⟨hlists₁, -⟩
        have hlinked : ArenaLinked A (foundMem S m₂ A.addr A.base size) :=
          ⟨hlists₁.stuck, fun _ _ _ => ⟨hlists₁, foundMem_base A hlists hbase size⟩⟩
        have h4 : (if TakenWhole S m₂ A.addr size then S.seg 63 else 0) = 0 ∨
            (if TakenWhole S m₂ A.addr size then S.seg 63 else 0) = S.seg 63 := by
          split
          · exact Or.inr rfl
          · exact Or.inl rfl
        rcases xallocEnd_spec A hlinked A.base 0 h4 with ⟨m'', hend, -, -, hoff'⟩
        subst hsame
        dsimp only at halloc hsegment
        rw [xallocFound_eq A hlists hbase size] at halloc
        dsimp only at halloc
        rw [hend, Option.some.injEq, Prod.mk.injEq, Prod.mk.injEq] at halloc
        rw [xallocSegment_eq hlists hbase] at hsegment
        refine ⟨(found_congr hoff size flags).mp ⟨i, hlo, hhi, hhit⟩, hsegment, ?_⟩
        rw [halloc.2.2, hoff' _ (offPool_field S (by decide)), foundMem_size hlists,
          lengthTaken_congr hoff]
      · right
        subst hsame
        exact ⟨fun hfound => hmiss ((found_congr hoff size flags).mpr hfound), hsegment⟩

theorem vmemAllocSegment_noFit {m : Mem} (h : ArenaLinked A m) (size : Word) {flags : Word}
    (hflags : flags &&& vmemVmFitMask = 0) (fuel : Nat) (junk : Word × Word × Word) :
    vmemAllocSegment S fuel m A.addr size flags junk = none := by
  rcases h.segalloc A with ⟨hres₁, h₁, -⟩
  rcases h₁.segalloc A with ⟨hres₂, -⟩
  unfold vmemAllocSegment
  simp only [vmemRefill, ite_self]
  rw [hres₁]
  simp only [if_neg (seg_ne_zero S)]
  rw [hres₂]
  simp only [if_neg (seg_ne_zero S), hflags, if_true]

/-! ## Calls with any flags -/

/-- Without a strategy the descriptors go straight back. -/
theorem vmemAlloc_noFit {m : Mem} (h : ArenaLinked A m) (size : Word) {flags : Word}
    (hflags : flags &&& vmemVmFitMask = 0) (fuel : Nat) (junk : Word × Word × Word) :
    ∃ m', vmemAlloc S fuel m A.addr size flags junk = some (0, enomem, m') ∧ Called A m m' := by
  rcases h.segalloc A with ⟨hres₁, h₁, hnext₁, hoff₁⟩
  rcases h₁.segalloc A with ⟨hres₂, h₂, hnext₂, hoff₂⟩
  rcases xallocEnd_spec A h₂ 0 enomem (Or.inr rfl) with ⟨m', hend, h', hnext, hoff⟩
  refine ⟨m', ?_, h', hnext, ?_⟩
  · unfold vmemAlloc vmemXalloc
    simp only [vmemRefill, ite_self]
    rw [hres₁]
    simp only [if_neg (seg_ne_zero S)]
    rw [hres₂]
    simp only [if_neg (seg_ne_zero S), hflags, ne_eq, not_true, if_false, if_true, hend]
  · intro a ha
    rw [hoff a ha.pool, hoff₂ a ha.pool, hoff₁ a ha.pool]

/-- What a call that returned has done, whatever its flags. -/
theorem vmemAlloc_takes {m m' : Mem} (h : ArenaLinked A m) {size flags eax edx : Word}
    {fuel : Nat} {junk : Word × Word × Word}
    (hr : vmemAlloc S fuel m A.addr size flags junk = some (eax, edx, m')) :
    Called A m m' ∧
      (Takes A m size flags ∧
          vmemAllocSegment S fuel m A.addr size flags junk = some (S.seg 63) ∧
          m'.read32 (S.field segSize) = lengthTaken A m size ∨
        ¬ Takes A m size flags ∧ vmemAllocSegment S fuel m A.addr size flags junk = none) := by
  by_cases hflags : flags &&& vmemVmFitMask = 0
  · rcases vmemAlloc_noFit h size hflags fuel junk with ⟨m'', hr', hcalled⟩
    rw [hr', Option.some.injEq, Prod.mk.injEq, Prod.mk.injEq] at hr
    rcases hr with ⟨rfl, rfl, rfl⟩
    exact ⟨hcalled, Or.inr ⟨fun htakes => htakes.1 hflags,
      vmemAllocSegment_noFit h size hflags fuel junk⟩⟩
  · rcases vmemAlloc_result h hflags hr with ⟨-, hcalled, -⟩
    refine ⟨hcalled, ?_⟩
    rcases vmemAlloc_segment h hflags hr with ⟨hfound, htaken⟩ | ⟨hmiss, hnone⟩
    · exact Or.inl ⟨⟨hflags, hfound⟩, htaken⟩
    · exact Or.inr ⟨fun htakes => hmiss htakes.2, hnone⟩

/-! ## Runs -/

/-- Memory, and the total length of the segments allocated so far. -/
structure AccountState where
  mem : Mem
  total : Nat

variable (A)

/-- Right after `vmem_create`. -/
def accountStart (m : Mem) : AccountState :=
  ⟨vmemCreate S m A.addr A.name A.base A.args, 0⟩

/-- A call of `vmem_alloc` that returns; the total grows by the length of the segment taken. -/
def accountStep (s : AccountState) (op : AllocOp) (s' : AccountState) : Prop :=
  ∃ fuel junk eax edx m', vmemAlloc S fuel s.mem A.addr op.size op.flags junk
      = some (eax, edx, m') ∧
    s' = ⟨m', match vmemAllocSegment S fuel s.mem A.addr op.size op.flags junk with
      | some seg => s.total + (m'.read32 (seg + segSize)).toNat
      | none => s.total⟩

/-- `vmem_size` reports the total as allocated, and allocated and free are the span. -/
structure AccountsOk (s : AccountState) : Prop where
  allocated : (vmemSize s.mem A.addr vmemMaskAlloc).toNat = s.total
  sum : vmemSize s.mem A.addr vmemMaskAlloc + vmemSize s.mem A.addr vmemMaskFree = A.args.size

/-- The calls that leave the account as it is: none that takes a segment, unless of length 0. -/
def TakesNothing (s : AccountState) (op : AllocOp) : Prop :=
  Takes A s.mem op.size op.flags → lengthTaken A s.mem op.size = 0

/-- The two fields stay as `vmem_create` set them. -/
structure AccountInv (s : AccountState) : Prop where
  linked : ArenaLinked A s.mem
  size : s.mem.read32 (A.word 20) = A.args.size
  inUse : s.mem.read32 (A.word 44) = A.args.above

variable {A}

theorem vmemSize_alloc {s : AccountState} (h : AccountInv A s) :
    vmemSize s.mem A.addr vmemMaskAlloc = A.args.above := by
  have hmask : vmemMaskAlloc &&& (vmemMaskAlloc ||| vmemMaskFree) = vmemMaskAlloc := by decide
  rw [vmemSize, hmask, if_pos rfl]
  exact h.inUse

theorem vmemSize_free {s : AccountState} (h : AccountInv A s) :
    vmemSize s.mem A.addr vmemMaskFree = A.args.size - A.args.above := by
  have hmask : vmemMaskFree &&& (vmemMaskAlloc ||| vmemMaskFree) = vmemMaskFree := by decide
  have hne : ¬ vmemMaskFree = vmemMaskAlloc := by decide
  have hsize : s.mem.read32 (A.addr + vmSize) = A.args.size := h.size
  have hinUse : s.mem.read32 (A.addr + vmInUse) = A.args.above := h.inUse
  rw [vmemSize, hmask, if_neg hne, if_pos rfl, hsize, hinUse]

/-- The sum is always right, and the rest depends on the total. -/
theorem accountsOk_iff {s : AccountState} (h : AccountInv A s) :
    AccountsOk A s ↔ s.total = A.args.above.toNat := by
  constructor
  · intro hok
    rw [← hok.allocated, vmemSize_alloc h]
  · intro htotal
    refine ⟨?_, ?_⟩
    · rw [vmemSize_alloc h, htotal]
    · rw [vmemSize_alloc h, vmemSize_free h, BitVec.add_comm, BitVec.sub_add_cancel]

/-- One call: the fields stay, and the total grows by what is taken. -/
theorem accountInv_step {s s' : AccountState} {op : AllocOp} (h : AccountInv A s)
    (hstep : accountStep A s op s') :
    AccountInv A s' ∧ (Takes A s.mem op.size op.flags ∧
        s'.total = s.total + (lengthTaken A s.mem op.size).toNat ∨
      ¬ Takes A s.mem op.size op.flags ∧ s'.total = s.total) := by
  rcases hstep with ⟨fuel, junk, eax, edx, m', hr, rfl⟩
  rcases vmemAlloc_takes h.linked hr with ⟨hcalled, hcases⟩
  refine ⟨⟨hcalled.linked, ?_, ?_⟩, ?_⟩
  · exact (hcalled.frame _ (aside_word A (by decide))).trans h.size
  · exact (hcalled.frame _ (aside_word A (by decide))).trans h.inUse
  · rcases hcases with ⟨htakes, hsegment, hlength⟩ | ⟨hmiss, hsegment⟩
    · left
      rw [hsegment, ← hlength]
      exact ⟨htakes, rfl⟩
    · right
      rw [hsegment]
      exact ⟨hmiss, rfl⟩

/-- Which calls keep the account right. -/
theorem accountsOk_step {s s' : AccountState} {op : AllocOp} (h : AccountInv A s)
    (hok : AccountsOk A s) (hstep : accountStep A s op s') :
    AccountsOk A s' ↔ TakesNothing A s op := by
  rcases accountInv_step h hstep with ⟨h', hcases⟩
  rw [accountsOk_iff h] at hok
  rw [accountsOk_iff h']
  rcases hcases with ⟨htakes, htotal⟩ | ⟨hmiss, htotal⟩
  · constructor
    · intro hok' _
      refine BitVec.eq_of_toNat_eq ?_
      change (lengthTaken A s.mem op.size).toNat = 0
      omega
    · intro hnothing
      rw [htotal, hnothing htakes, hok]
      rfl
  · constructor
    · intro _ htakes
      exact absurd htakes hmiss
    · intro _
      omega

theorem accountInv_create {m : Mem} (hm : PoolStuck S m) :
    AccountInv A (accountStart A m) := by
  refine ⟨(vmemCreate_fresh A hm).linked, ?_, ?_⟩
  · exact (vmemCreate_word A hm A.name A.base A.args (by decide)).trans
      (vmemCreateObject_size A m _ _ _)
  · exact (vmemCreate_word A hm A.name A.base A.args (by decide)).trans
      (vmemCreateObject_inUse A m _ _ _)

variable (A)

/-- **The accounts of an arena.** They are right in every state of a run of `vmem_alloc` calls
exactly when the word above the arguments of `vmem_create` is 0 and no call takes a segment of
positive length. -/
theorem vmemAccounts_iff (m₀ : Mem) (hhead : m₀.read32 S.pVmemFreeSegHead = 0)
    (hcount : m₀.read32 S.iVmemFreeSegCount = 0) :
    ∃ m, vmemBootstrap S 64 m₀ = some m ∧
      ∀ r, Run (accountStep A) (accountStart A m) r →
        ((AccountsOk A (accountStart A m) ∧ ∀ p ∈ r, AccountsOk A p.2) ↔
          A.args.above = 0 ∧ RunMeets (TakesNothing A) (accountStart A m) r) := by
  rcases vmemBootstrap_spec S hhead hcount with ⟨m, hm, hinv, -⟩
  have hcreated := accountInv_create (A := A) (poolStuck_of_listInv S hinv)
  have hstart := accountsOk_iff hcreated
  -- what one call keeps, if it takes nothing
  have hkeep : ∀ s op s', AccountInv A s ∧ AccountsOk A s → TakesNothing A s op →
      accountStep A s op s' → AccountInv A s' ∧ AccountsOk A s' := by
    intro s op s' hs hnothing hstep
    exact ⟨(accountInv_step hs.1 hstep).1, (accountsOk_step hs.1 hs.2 hstep).mpr hnothing⟩
  refine ⟨m, hm, ?_⟩
  intro r hr
  constructor
  · intro h
    rcases h with ⟨hok, hall⟩
    refine ⟨BitVec.eq_of_toNat_eq (hstart.mp hok).symm, ?_⟩
    exact Run.meets_of_all (fun s => AccountInv A s ∧ AccountsOk A s) (AccountsOk A) hkeep
      (fun s op s' hs hc hstep hok' => hc ((accountsOk_step hs.1 hs.2 hstep).mp hok'))
      ⟨hcreated, hok⟩ hr hall
  · intro h
    rcases h with ⟨habove, hmeets⟩
    have hzero : (accountStart A m).total = A.args.above.toNat := by
      rw [habove]
      exact BitVec.toNat_zero.symm
    have hok := hstart.mpr hzero
    refine ⟨hok, ?_⟩
    intro p hp
    exact (Run.invariant_of_meets _ hkeep ⟨hcreated, hok⟩ hr hmeets p hp).2

theorem vmemAccounts_iff_demo :
    ∃ m, vmemBootstrap demoStatics 64 (fun _ => 0) = some m ∧
      ∀ r, Run (accountStep demoArena) (accountStart demoArena m) r →
        ((AccountsOk demoArena (accountStart demoArena m) ∧
            ∀ p ∈ r, AccountsOk demoArena p.2) ↔
          demoArena.args.above = 0 ∧
            RunMeets (TakesNothing demoArena) (accountStart demoArena m) r) :=
  vmemAccounts_iff demoArena (fun _ => 0) (by decide) (by decide)

/-- One page, allocated from a fresh arena of one page, is not accounted for. -/
theorem vmemAccounts_counterexample :
    ∃ m s, vmemBootstrap demoStatics 64 (fun _ => 0) = some m ∧
      Run (accountStep demoArena) (accountStart demoArena m) [(⟨4096, vmemVmInstantfit⟩, s)] ∧
      s.total = 4096 ∧ vmemSize s.mem demoArena.addr vmemMaskAlloc = 0 := by
  rcases vmemBootstrap_spec demoStatics (m := fun _ => 0) (by decide) (by decide) with
    ⟨m, hm, hinv, -⟩
  have hstuck := poolStuck_of_listInv demoStatics hinv
  have hcreated := accountInv_create (A := demoArena) hstuck
  have hlisted := (vmemCreate_fresh demoArena hstuck).listed (by decide)
  have hinstant : vmemVmInstantfit &&& vmemVmInstantfit ≠ 0 := by decide
  rcases vmemAlloc_instant demoArena hcreated.linked hinstant (by decide) hlisted (0, 0, 0) with
    ⟨edx, m', hr⟩
  change vmemAlloc demoStatics 3 _ _ 4096 _ _ = _ at hr
  rcases vmemAlloc_takes hcreated.linked hr with
    ⟨-, ⟨-, hsegment, hlength⟩ | ⟨hmiss, -⟩⟩
  · -- the segment of the fresh arena is as long as the request
    have hsize := ((vmemCreate_fresh demoArena hstuck).size 12 (by decide) hlisted).2.1
    have htaken : lengthTaken demoArena (accountStart demoArena m).mem 4096 = 4096 :=
      (if_pos (Or.inl hsize.symm)).trans hsize
    have hstep : accountStep demoArena (accountStart demoArena m) ⟨4096, vmemVmInstantfit⟩
        ⟨m', 4096⟩ := by
      refine ⟨3, (0, 0, 0), _, edx, m', hr, ?_⟩
      have hgrown : m'.read32 (demoStatics.seg 63 + segSize) = 4096 := hlength.trans htaken
      dsimp only
      rw [hsegment]
      dsimp only
      rw [hgrown]
      rfl
    have hinv' := (accountInv_step hcreated hstep).1
    exact ⟨m, ⟨m', 4096⟩, hm, ⟨hstep, trivial⟩, rfl, vmemSize_alloc hinv'⟩
  · refine absurd ⟨by decide, ?_⟩ hmiss
    exact ⟨12, by decide, by decide, hlisted, fun h => absurd h (by decide)⟩

end StupidOS.Kernel
