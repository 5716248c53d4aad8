import StupidOS.Kernel.PmmLowMem

/-!
# The process table (`kernel/proc.inc`, `kernel/lock.inc`)

`proc_alloc` is there to hand out the first idle entry of `aProcs`. Its loop reads the
states at ECX, without the base of the table, and at its end EAX is the state that was
read and not an address. So no call does what it is for (`procAlloc_never`). With nothing
but the kernel mapped the first read faults (`procAlloc_faults`); with memory mapped at
address 0 a call that succeeds gives 0, and so does every call after it
(`procAllocs_repeat`).
-/

namespace StupidOS.Kernel

/-! ## Layout -/

def sizeofProcess : Word := 24

/-- Offset of `Process.state` -/
def processState : Word := 0

def processStateIdl : Word := 0

/-- Where the linker put the process table and its lock. -/
structure ProcImage (K : KernelImage) where
  aProcs : Word
  uProcLock : Word
  procs_low : 0xC0100000 ≤ aProcs.toNat
  procs_high : aProcs.toNat + 24 * 64 ≤ K.kend.toNat
  lock_low : 0xC0100000 ≤ uProcLock.toNat
  lock_high : uProcLock.toNat + 4 ≤ K.kend.toNat
  apart : uProcLock.toNat + 4 ≤ aProcs.toNat ∨ aProcs.toNat + 24 * 64 ≤ uProcLock.toNat

variable {K : KernelImage} (P : ProcImage K)

namespace ProcImage

/-- The address of entry `i`. -/
def slot (i : Nat) : Word := P.aProcs + BitVec.ofNat 32 (24 * i)

/-- The physical address of the lock. -/
def lockPhys : Word := P.uProcLock - kernelVirtBase

theorem lock_in : InKernel K.kend P.uProcLock := ⟨P.lock_low, P.lock_high⟩

theorem lockPhys_off : OffPaging P.lockPhys := P.lock_in.offPaging K.kend_high

end ProcImage

/-! ## Locks -/

/-- One pass of `lock_acquire` -/
def lockAcquireBody (eax : Word) (mc : Machine) : Option (Pass Machine Machine) := do
  -- xchg edx, [eax]
  let edx ← mc.load32 eax
  let mc ← mc.store32 eax 1
  if edx = 0 then return .done mc else return .again mc

/-- `lock_acquire` -/
def lockAcquire (fuel : Nat) (mc : Machine) (eax : Word) : Option Machine :=
  iterate (lockAcquireBody eax) fuel mc

/-- `lock_release` -/
def lockRelease (mc : Machine) (eax : Word) : Option Machine := mc.store32 eax 0

/-! ## `proc_alloc` -/

/-- One pass of the loop: ECX, and the addresses read so far. It leaves with EAX, at the
jump (`true`) or behind the last entry. -/
def procAllocBody (mc : Machine) :
    Word × List Word → Option (Pass (Word × List Word) (Bool × Word × List Word))
  | (ecx, reads) => do
    let eax ← mc.load32 (ecx + processState)
    let reads := reads ++ [ecx + processState]
    if eax = 0 then return .done (true, eax, reads)
    else
      let ecx := ecx + sizeofProcess
      if ecx.ult (sizeofProcess * 64) then return .again (ecx, reads)
      else return .done (false, eax, reads)

/-- What `proc_alloc` leaves: the machine, EAX, and the addresses of the states it read. -/
structure ProcResult where
  mc : Machine
  eax : Word
  reads : List Word

-- `klog` with EAX, in which it takes its format
variable (klog : Word → Machine → Option Machine)

/-- `proc_alloc`. The message is put into ESI, and EAX still holds the last state when
`klog` is called. -/
def procAlloc (fuel : Nat) (mc : Machine) : Option ProcResult := do
  let mc ← lockAcquire fuel mc P.uProcLock
  let (found, eax, reads) ← iterate (procAllocBody mc) fuel (0, [])
  let (mc, eax) ← (if found then some (mc, eax) else (klog eax mc).map fun mc => (mc, (-1 : Word)))
  let mc ← lockRelease mc P.uProcLock
  return ⟨mc, eax, reads⟩

/-- `n` calls after each other, with what they return. -/
def procAllocs (fuel : Nat) : Nat → Machine → Option (List Word × Machine)
  | 0, mc => some ([], mc)
  | n + 1, mc => do
    let r ← procAlloc P klog fuel mc
    let (eaxs, mc) ← procAllocs fuel n r.mc
    return (r.eax :: eaxs, mc)

/-! ## What it is for -/

/-- The first idle entry. -/
def firstIdle (mc : Machine) : Option Nat :=
  (List.range 64).find? fun i => mc.load32 (P.slot i + processState) == some processStateIdl

/-- The call hands out the first idle entry, and `-1` where there is none. -/
structure CallMeets (mc : Machine) (r : ProcResult) : Prop where
  eax : r.eax = match firstIdle P mc with
    | some i => P.slot i
    | none => -1
  inside : ∀ a ∈ r.reads, P.aProcs.toNat ≤ a.toNat ∧ a.toNat + 4 ≤ P.aProcs.toNat + 24 * 64
  released : r.mc.load32 P.uProcLock = some 0
  taken : ∀ i, firstIdle P mc = some i →
    r.mc.load32 (P.slot i + processState) ≠ some processStateIdl

/-- The call returns and does so, and no run of calls gets an entry twice. -/
structure ProcAllocMeets (mc : Machine) : Prop where
  call : ∃ fuel r, procAlloc P klog fuel mc = some r ∧ CallMeets P mc r
  runs : ∀ fuel n eaxs mc', procAllocs P klog fuel n mc = some (eaxs, mc') →
    (eaxs.filter (· != -1)).Nodup

variable {P klog} {mc : Machine}

/-! ## The loop -/

/-- What a pass does, and where it reads. -/
theorem procAllocBody_cases {ecx : Word} {reads : List Word}
    {pass : Pass (Word × List Word) (Bool × Word × List Word)}
    (h : procAllocBody mc (ecx, reads) = some pass) :
    ∃ eax, mc.load32 (ecx + processState) = some eax ∧
      (eax = 0 ∧ pass = .done (true, eax, reads ++ [ecx + processState]) ∨
        eax ≠ 0 ∧ (pass = .again (ecx + sizeofProcess, reads ++ [ecx + processState]) ∨
          pass = .done (false, eax, reads ++ [ecx + processState]))) := by
  rcases Option.bind_eq_some_iff.mp h with ⟨eax, hload, hrest⟩
  refine ⟨eax, hload, ?_⟩
  by_cases hzero : eax = 0
  · rw [if_pos hzero] at hrest
    exact Or.inl ⟨hzero, (Option.some.inj hrest).symm⟩
  · rw [if_neg hzero] at hrest
    refine Or.inr ⟨hzero, ?_⟩
    by_cases hmore : (ecx + sizeofProcess).ult (sizeofProcess * 64) = true
    · rw [if_pos hmore] at hrest
      exact Or.inl (Option.some.inj hrest).symm
    · rw [if_neg hmore] at hrest
      exact Or.inr (Option.some.inj hrest).symm

/-- The first state is read at address 0, and EAX is the last state read. -/
theorem procAllocLoop_result {fuel : Nat} {found : Bool} {eax : Word} {reads : List Word}
    (h : iterate (procAllocBody mc) fuel (0, []) = some (found, eax, reads)) :
    0 ∈ reads ∧ (found = true → eax = 0) := by
  have hread : ∀ s : Word × List Word, s = (0, []) ∨ 0 ∈ s.2 → 0 ∈ s.2 ++ [s.1 + processState] := by
    intro s hinv
    rcases hinv with rfl | hinv
    · exact List.mem_append_right _ (List.mem_singleton.mpr rfl)
    · exact List.mem_append_left _ hinv
  refine iterate_sound (fun s => s = (0, []) ∨ 0 ∈ s.2)
    (fun r => 0 ∈ r.2.2 ∧ (r.1 = true → r.2.1 = 0)) ?_ ?_ (Or.inl rfl) h
  · rintro ⟨ecx, reads⟩ s' hinv hpass
    rcases procAllocBody_cases hpass with ⟨eax, -, ⟨-, hdone⟩ | ⟨-, hagain | hdone⟩⟩
    · cases hdone
    · rw [Pass.again.inj hagain]
      exact Or.inr (hread _ hinv)
    · cases hdone
  · rintro ⟨ecx, reads⟩ r hinv hpass
    rcases procAllocBody_cases hpass with ⟨eax, -, ⟨hzero, hdone⟩ | ⟨-, hagain | hdone⟩⟩
    · rw [Pass.done.inj hdone]
      exact ⟨hread _ hinv, fun _ => hzero⟩
    · cases hagain
    · rw [Pass.done.inj hdone]
      exact ⟨hread _ hinv, fun hfound => absurd hfound Bool.false_ne_true⟩

/-- A call that returns has read at address 0, gives 0 or `-1`, and has released the lock
last. -/
theorem procAlloc_result {fuel : Nat} {r : ProcResult} (h : procAlloc P klog fuel mc = some r) :
    0 ∈ r.reads ∧ (r.eax = 0 ∨ r.eax = -1) ∧ ∃ mc', lockRelease mc' P.uProcLock = some r.mc := by
  rcases Option.bind_eq_some_iff.mp h with ⟨mc₁, hacquire, h⟩
  rcases Option.bind_eq_some_iff.mp h with ⟨⟨found, eax, reads⟩, hloop, h⟩
  rcases Option.bind_eq_some_iff.mp h with ⟨⟨mc₂, eax'⟩, hexit, h⟩
  rcases Option.bind_eq_some_iff.mp h with ⟨mc₃, hrelease, hr⟩
  rcases procAllocLoop_result hloop with ⟨hread, hzero⟩
  rw [← Option.some.inj hr]
  refine ⟨hread, ?_, mc₂, hrelease⟩
  cases found with
  | true =>
      rw [if_pos rfl, Option.some.injEq, Prod.mk.injEq] at hexit
      exact Or.inl (hexit.2.symm.trans (hzero rfl))
  | false =>
      rw [if_neg Bool.false_ne_true] at hexit
      rcases Option.map_eq_some_iff.mp hexit with ⟨mc', -, hpair⟩
      exact Or.inr (Prod.mk.inj hpair).2.symm

/-- **Process slots.** Whatever memory holds, `proc_alloc` does not hand out the first idle
entry: it reads outside the table before anything else. -/
theorem procAlloc_never (P : ProcImage K) (klog : Word → Machine → Option Machine) (mc : Machine) :
    ¬ ProcAllocMeets P klog mc := by
  intro hmeets
  rcases hmeets.call with ⟨fuel, r, hrun, hcall⟩
  rcases procAlloc_result hrun with ⟨hread, -⟩
  have hlow := P.procs_low
  have hinside := (hcall.inside 0 hread).1
  have hzero : (0 : Word).toNat = 0 := rfl
  omega

/-! ## On the page tables of the kernel -/

/-- The lock is a word of the kernel image. -/
theorem KernelPaging.lock (h : KernelPaging K.kend mc) (w : Word) :
    mc.store32 P.uProcLock w = some (mc.put P.lockPhys w) ∧
      KernelPaging K.kend (mc.put P.lockPhys w) :=
  ⟨h.store_image K.kend_high P.lock_in w, h.put K.kend_high P.lockPhys_off w⟩

theorem RestNotPresent.lock (h : RestNotPresent K.kend mc.mem) (w : Word) :
    RestNotPresent K.kend (mc.put P.lockPhys w).mem := by
  refine h.congr ?_
  intro i hi _
  have hlow := P.lock_low
  have hhigh := P.lock_high
  have hend := K.kend_high
  have hphys : P.lockPhys.toNat = P.uProcLock.toNat - 0xC0000000 := by
    unfold ProcImage.lockPhys kernelVirtBase
    bv_omega
  rw [tableEntry, tableEntry, Machine.put_mem]
  apply Mem.read32_write32_of_sep
  generalize P.lockPhys = a at hphys
  exact Sep.of_le (by omega) (by omega) (by bv_omega) (by omega) (by bv_omega)

/-- Taking the lock leaves the page tables alone. -/
theorem lockAcquire_paging {fuel : Nat} {mc' : Machine} (hpaging : KernelPaging K.kend mc)
    (hrest : RestNotPresent K.kend mc.mem) (h : lockAcquire fuel mc P.uProcLock = some mc') :
    KernelPaging K.kend mc' ∧ RestNotPresent K.kend mc'.mem := by
  have hpass : ∀ mc pass, KernelPaging K.kend mc ∧ RestNotPresent K.kend mc.mem →
      lockAcquireBody P.uProcLock mc = some pass → ∃ mc', (pass = .done mc' ∨ pass = .again mc') ∧
        KernelPaging K.kend mc' ∧ RestNotPresent K.kend mc'.mem := by
    intro mc pass hinv hbody
    rcases hinv with ⟨hpaging, hrest⟩
    rcases Option.bind_eq_some_iff.mp hbody with ⟨edx, -, hbody⟩
    rcases Option.bind_eq_some_iff.mp hbody with ⟨mc', hstore, hbody⟩
    rw [(hpaging.lock 1).1, Option.some.injEq] at hstore
    rw [← hstore] at hbody
    refine ⟨mc.put P.lockPhys 1, ?_, (hpaging.lock 1).2, hrest.lock 1⟩
    by_cases hfree : edx = 0
    · rw [if_pos hfree] at hbody
      exact Or.inl (Option.some.inj hbody).symm
    · rw [if_neg hfree] at hbody
      exact Or.inr (Option.some.inj hbody).symm
  refine iterate_sound (fun mc => KernelPaging K.kend mc ∧ RestNotPresent K.kend mc.mem)
    (fun mc => KernelPaging K.kend mc ∧ RestNotPresent K.kend mc.mem) ?_ ?_ ⟨hpaging, hrest⟩ h
  · intro mc mc₁ hinv hbody
    rcases hpass mc _ hinv hbody with ⟨mc₂, hdone | hagain, hkept⟩
    · cases hdone
    · rw [Pass.again.inj hagain]
      exact hkept
  · intro mc mc₁ hinv hbody
    rcases hpass mc _ hinv hbody with ⟨mc₂, hdone | hagain, hkept⟩
    · rw [Pass.done.inj hdone]
      exact hkept
    · cases hagain

/-- With nothing but the kernel mapped, the first read faults. -/
theorem procAlloc_faults (hpaging : KernelPaging K.kend mc) (hrest : RestNotPresent K.kend mc.mem)
    (fuel : Nat) : procAlloc P klog fuel mc = none := by
  rw [Option.eq_none_iff_forall_not_mem]
  intro r hr
  rcases Option.bind_eq_some_iff.mp hr with ⟨mc₁, hacquire, h⟩
  rcases Option.bind_eq_some_iff.mp h with ⟨out, hloop, -⟩
  rcases lockAcquire_paging hpaging hrest hacquire with ⟨hpaging₁, hrest₁⟩
  have hzero : walk false mc₁.mem mc₁.cr3 (0 + processState) = none := by
    by_contra hsome
    rcases hpaging₁.maps_iff.mpr hrest₁ (0 + processState) (Option.ne_none_iff_isSome.mp hsome) with
      hpage | hwindow
    · rw [kernelPage_iff K.kend_high] at hpage
      exact absurd hpage.1 (by decide)
    · exact absurd hwindow (by decide)
  have hfault : procAllocBody mc₁ (0, []) = none := by
    rw [procAllocBody, Machine.load32, hzero]
    rfl
  cases fuel with
  | zero => cases hloop
  | succ fuel =>
      rw [iterate, hfault] at hloop
      cases hloop

/-! ## Runs -/

theorem Machine.put_put (mc : Machine) (a w w' : Word) : (mc.put a w).put a w' = mc.put a w' := by
  unfold Machine.put
  dsimp only
  rw [Mem.write32_write32]

/-- Taking a free lock. -/
theorem lockAcquire_free (hpaging : KernelPaging K.kend mc)
    (hfree : mc.mem.read32 P.lockPhys = 0) (fuel : Nat) :
    lockAcquire (fuel + 1) mc P.uProcLock = some (mc.put P.lockPhys 1) := by
  have hload : mc.load32 P.uProcLock = some 0 := by
    rw [hpaging.load_image K.kend_high P.lock_in, ← hfree]
    rfl
  refine iterate_done ?_ fuel
  rw [lockAcquireBody, hload, Option.bind_eq_bind, Option.bind_some, (hpaging.lock 1).1]
  rfl

/-- A call that succeeds, on the page tables of the kernel with the lock free. -/
theorem procAlloc_zero {fuel : Nat} {r : ProcResult} (hpaging : KernelPaging K.kend mc)
    (hfree : mc.mem.read32 P.lockPhys = 0) (h : procAlloc P klog fuel mc = some r)
    (hzero : r.eax = 0) :
    ∃ n reads, fuel = n + 1 ∧ r.mc = mc.put P.lockPhys 0 ∧
      iterate (procAllocBody (mc.put P.lockPhys 1)) (n + 1) (0, []) = some (true, 0, reads) := by
  rcases Option.bind_eq_some_iff.mp h with ⟨mc₁, hacquire, h⟩
  rcases Option.bind_eq_some_iff.mp h with ⟨⟨found, eax, reads⟩, hloop, h⟩
  rcases Option.bind_eq_some_iff.mp h with ⟨⟨mc₂, eax'⟩, hexit, h⟩
  rcases Option.bind_eq_some_iff.mp h with ⟨mc₃, hrelease, hr⟩
  rw [← Option.some.inj hr] at hzero ⊢
  cases fuel with
  | zero => cases hacquire
  | succ n =>
      rw [lockAcquire_free hpaging hfree, Option.some.injEq] at hacquire
      cases found with
      | true =>
          rw [if_pos rfl, Option.some.injEq, Prod.mk.injEq] at hexit
          rcases hexit with ⟨rfl, rfl⟩
          have heax : eax = 0 := hzero
          rw [← hacquire] at hloop hrelease
          rw [lockRelease, ((hpaging.lock 1).2.lock 0).1, Machine.put_put,
            Option.some.injEq] at hrelease
          rw [heax] at hloop
          exact ⟨n, reads, rfl, hrelease.symm, hloop⟩
      | false =>
          rw [if_neg Bool.false_ne_true] at hexit
          rcases Option.map_eq_some_iff.mp hexit with ⟨mc', -, hpair⟩
          have heax : eax' = 0 := hzero
          rw [← (Prod.mk.inj hpair).2] at heax
          exact absurd heax (by decide)

/-- Once a call has succeeded, every later call returns the same. -/
theorem procAllocs_repeat {fuel : Nat} {r : ProcResult} (hpaging : KernelPaging K.kend mc)
    (hfree : mc.mem.read32 P.lockPhys = 0) (h : procAlloc P klog fuel mc = some r)
    (hzero : r.eax = 0) (n : Nat) :
    procAllocs P klog fuel n r.mc = some (List.replicate n 0, r.mc) := by
  rcases procAlloc_zero hpaging hfree h hzero with ⟨k, reads, rfl, hmc, hloop⟩
  rw [hmc]
  induction n with
  | zero => rfl
  | succ n ih =>
      have hfree' : (mc.put P.lockPhys 0).mem.read32 P.lockPhys = 0 := Mem.read32_write32 _ _ _
      have hstep : procAlloc P klog (k + 1) (mc.put P.lockPhys 0)
          = some ⟨mc.put P.lockPhys 0, 0, reads⟩ := by
        rw [procAlloc, lockAcquire_free (hpaging.lock 0).2 hfree', Machine.put_put]
        dsimp only [Option.bind_eq_bind, Option.bind_some]
        rw [hloop, Option.bind_some]
        dsimp only
        rw [if_pos rfl, Option.bind_some]
        dsimp only
        rw [lockRelease, ((hpaging.lock 1).2.lock 0).1, Machine.put_put]
        rfl
      rw [procAllocs, hstep]
      dsimp only [Option.bind_eq_bind, Option.bind_some]
      rw [ih]
      rfl

/-! ## An empty table -/

/-- The table and its lock in the image of the other examples. -/
def demoProcs : ProcImage demoImage where
  aProcs := 0xC010A000
  uProcLock := 0xC0107000
  procs_low := by decide
  procs_high := by decide
  lock_low := by decide
  lock_high := by decide
  apart := by decide

/-- On the page tables of the kernel, with the lock free and all entries idle, the call
does not return. -/
theorem procAlloc_counterexample : ∃ mc, KernelPaging demoImage.kend mc ∧
    mc.load32 demoProcs.uProcLock = some 0 ∧
    (∀ i, i < 64 → mc.load32 (demoProcs.slot i + processState) = some processStateIdl) ∧
    ¬ ProcAllocMeets demoProcs (fun _ mc => some mc) mc := by
  rcases exists_emptyMachine demoImage 0 with ⟨mc, hpaging, hrest, -, hempty⟩
  have hlow : (demoImage.lowMem - kernelVirtBase).toNat = 0x10928C := by decide
  have hend : demoImage.kend.toNat = 0xC0110000 := by decide
  generalize demoImage.lowMem - kernelVirtBase = a at hlow hempty
  have hzero : ∀ v : Word, InKernel demoImage.kend v → v.toNat + 4 ≤ 0xC0109000 ∨
      0xC010A000 ≤ v.toNat → mc.load32 v = some 0 := by
    intro v hin hapart
    have hphys : (v - kernelVirtBase).toNat = v.toNat - 0xC0000000 := by
      have hlo := hin.1
      unfold kernelVirtBase
      bv_omega
    rw [hpaging.load_image demoImage.kend_high hin, Option.some.injEq, Mem.read32]
    rcases hin with ⟨hlo, hhi⟩
    generalize v - kernelVirtBase = p at hphys
    have hbyte : ∀ x : Word, p.toNat ≤ x.toNat → x.toNat < p.toNat + 4 → mc.mem x = 0 := by
      intro x hle hlt
      exact hempty x (by omega) (by omega) (by bv_omega)
    rw [hbyte p (by omega) (by omega), hbyte (p + 1) (by bv_omega) (by bv_omega),
      hbyte (p + 2) (by bv_omega) (by bv_omega), hbyte (p + 3) (by bv_omega) (by bv_omega)]
    rfl
  refine ⟨mc, hpaging, hzero _ demoProcs.lock_in (by decide), ?_, ?_⟩
  · intro i hi
    have hslot : (demoProcs.slot i + processState).toNat = 0xC010A000 + 24 * i := by
      unfold ProcImage.slot demoProcs processState
      bv_omega
    exact hzero _ ⟨by omega, by omega⟩ (by omega)
  · intro hmeets
    rcases hmeets.call with ⟨fuel, r, hrun, -⟩
    rw [procAlloc_faults hpaging hrest] at hrun
    cases hrun

end StupidOS.Kernel
