import StupidOS.Boot.Disk

/-!
# Disk errors (`loader/disk.inc`)

The error exit of `disk_read_sectors` is one `ret` for both paths. The registers that a
path has pushed by then are still on the stack, so the `ret` takes one of them for the
return address.
-/

namespace StupidOS.Boot

variable (B : Bios) (v : LoaderData)

/-- At the first instruction of a routine that is called from `s`. -/
def Cpu.called (s : Cpu) : Cpu := { s with stack := .ret :: s.stack }

/-- Reads that `disk_read_sectors` asks of the BIOS when none of them fails. -/
def askedReads (s : Cpu) : Nat :=
  if v.bDriveLBA = true8 then 1 else loopCount (lo s.ecx)

/-- Of the reads asked for from `s` on, read `k` is the first that reports an error. -/
structure FirstError (s : Cpu) (k : Nat) : Prop where
  error : B.carry (s.calls + k) = true
  before : ∀ i, i < k → B.carry (s.calls + i) = false

/-- The routine comes back to its caller with the stack of before the call, and with SI
as it was if it took the LBA path. -/
def ReturnsBalanced (s : Cpu) (e : Option Exit) : Prop :=
  ∃ s', e = some (.returned s') ∧ s'.stack = s.stack ∧
    (v.bDriveLBA = true8 → lo s'.esi = lo s.esi)

/-- What `ret` finds on the stack when read `k` has failed. -/
def errorTarget (s : Cpu) (k : Nat) : Half :=
  if v.bDriveLBA = true8 then lo s.esi else lo s.ecx - BitVec.ofNat 16 k

/-- The pushed registers that the error exit leaves above the return address. -/
def errorLeftover (s : Cpu) (k : Nat) : List Slot :=
  if v.bDriveLBA = true8 then []
  else [.half (lo s.ebx + BitVec.ofNat 16 k * v.bytesPerSector),
    .half (lo s.eax + BitVec.ofNat 16 k)]

variable {B v}

/-! ## The failing read -/

theorem lbaRead_error {s : Cpu} (herror : B.carry s.calls = true) :
    ∃ s' : Cpu, s'.stack = .half (lo s.esi) :: s.stack ∧ lbaRead B v s = s'.ret := by
  refine ⟨B.logError { s with
    stack := .half (lo s.esi) :: s.stack
    eax := setLo s.eax ((0x42 : Byte) ++ lowByte s.eax)
    edx := setLo s.edx (highByte s.edx ++ v.uDrive)
    calls := s.calls + 1 }, ?_, ?_⟩
  · rw [B.logError_stack]
  · simp only [lbaRead, Bios.int13ExtRead, Bios.read, herror, if_true, Cpu.push]

theorem chsRead_error {s : Cpu} (herror : B.carry s.calls = true)
    (hspt : v.sectorsPerTrack ≠ 0) (hheads : v.headsPerCylinder ≠ 0) :
    ∃ s' : Cpu, s'.stack = .half (lo s.ecx) :: .half (lo s.ebx) :: .half (lo s.eax) :: s.stack ∧
      chsRead B v s = s'.ret.map .done := by
  let chs := lbaToChs v (lo s.eax)
  refine ⟨B.logError { s with
    stack := .half (lo s.ecx) :: .half (lo s.ebx) :: .half (lo s.eax) :: s.stack
    eax := setLo s.eax ((0x02 : Byte) ++ (0x01 : Byte))
    ecx := setLo s.ecx (chs.c.setWidth 8 ++ chs.s.setWidth 8)
    edx := setLo s.edx (chs.h.setWidth 8 ++ v.uDrive)
    calls := s.calls + 1 }, ?_, ?_⟩
  · rw [B.logError_stack]
  · simp only [chsRead, guard, if_pos hspt, if_pos hheads, Bios.int13Read, Bios.read, herror,
      if_true, Cpu.push, Option.bind_eq_bind, Option.bind_some, Option.pure_def, chs]

/-- The loop up to the failing read. On the number of sectors read before it; each of them
leaves the stack as it was and advances AX, BX and CX. -/
theorem chs_error_run (hv : v.bDriveLBA ≠ true8) (hspt : v.sectorsPerTrack ≠ 0)
    (hheads : v.headsPerCylinder ≠ 0) {k fuel : Nat} (hfuel : k < fuel) (s : Cpu)
    (hcount : k < loopCount (lo s.ecx)) (herror : FirstError B s k) :
    ∃ s' : Cpu, s'.stack = .half (lo s.ecx - BitVec.ofNat 16 k)
        :: .half (lo s.ebx + BitVec.ofNat 16 k * v.bytesPerSector)
        :: .half (lo s.eax + BitVec.ofNat 16 k) :: s.stack ∧
      iterate (diskReadSectorsBody B v) fuel s = s'.ret := by
  rcases Nat.exists_eq_add_of_lt hfuel with ⟨extra, rfl⟩
  induction k generalizing s extra with
  | zero =>
      rcases chsRead_error herror.error hspt hheads with ⟨s', hstack, hrun⟩
      rw [← diskReadSectorsBody_chs hv] at hrun
      refine ⟨s', ?_, iterate_map_done hrun (0 + extra)⟩
      rw [hstack]
      simp
  | succ k ih =>
      rcases chsRead_ok (herror.before 0 (by omega)) hspt hheads with ⟨s₁, hs₁, hcalls, hrun⟩
      have hmore : lo s₁.ecx ≠ 0 := by
        rw [hs₁.ecx]
        rw [loopCount] at hcount
        bv_omega
      rw [if_pos hmore, ← diskReadSectorsBody_chs hv] at hrun
      have hcount₁ : k < loopCount (lo s₁.ecx) := by
        rw [hs₁.ecx] at hmore ⊢
        rw [loopCount] at hcount ⊢
        bv_omega
      have herror₁ : FirstError B s₁ k := by
        refine ⟨?_, ?_⟩
        · rw [hcalls, Nat.add_right_comm]
          exact herror.error
        · intro i hi
          rw [hcalls, Nat.add_right_comm]
          exact herror.before (i + 1) (by omega)
      rcases ih s₁ hcount₁ herror₁ extra (by omega) with ⟨s', hstack, hiter⟩
      refine ⟨s', ?_, ?_⟩
      · have hcx : lo s.ecx - 1 - BitVec.ofNat 16 k = lo s.ecx - (BitVec.ofNat 16 k + 1) := by
          ring
        have hbx : lo s.ebx + v.bytesPerSector + BitVec.ofNat 16 k * v.bytesPerSector
            = lo s.ebx + (BitVec.ofNat 16 k + 1) * v.bytesPerSector := by ring
        have hax : lo s.eax + 1 + BitVec.ofNat 16 k = lo s.eax + (BitVec.ofNat 16 k + 1) := by
          ring
        rw [hstack, hs₁.ecx, hs₁.ebx, hs₁.eax, hs₁.moved.stack, lo_setLo, lo_setLo, hcx, hbx,
          hax, ofNat_succ]
      · have hfuel' : k + 1 + extra + 1 = k + extra + 1 + 1 := by omega
        rw [hfuel', iterate_again hrun]
        exact hiter

/-! ## The exits of a call -/

theorem loopCount_le (cx : Half) : loopCount cx ≤ 65536 := (cx - 1).isLt

/-- The geometry that the CHS path divides by is not zero. -/
def Divides (v : LoaderData) : Prop :=
  v.bDriveLBA ≠ true8 → v.sectorsPerTrack ≠ 0 ∧ v.headsPerCylinder ≠ 0

/-- An error at any of the reads: the routine jumps to a register it has pushed. -/
theorem diskError_exit (hdivides : Divides v) {s : Cpu} {k : Nat} (hk : k < askedReads v s)
    (herror : FirstError B s k) :
    ∃ s', diskReadSectors B v s.called = some (.jumped (errorTarget v s k) s') ∧
      s'.stack = errorLeftover v s k ++ .ret :: s.stack := by
  have herror₀ : FirstError B s.called k := ⟨herror.error, herror.before⟩
  by_cases hv : v.bDriveLBA = true8
  · rw [askedReads, if_pos hv] at hk
    have hzero : k = 0 := by omega
    subst hzero
    rcases lbaRead_error (v := v) herror₀.error with ⟨s', hstack, hrun⟩
    have hexit : diskReadSectors B v s.called = s'.ret := by
      apply iterate_map_done
      rw [diskReadSectorsBody, if_pos hv, hrun]
    rw [Cpu.ret, hstack] at hexit
    rw [errorTarget, errorLeftover, if_pos hv, if_pos hv]
    exact ⟨_, hexit, rfl⟩
  · rw [askedReads, if_neg hv] at hk
    have hfuel : k < 65536 := Nat.lt_of_lt_of_le hk (loopCount_le _)
    rcases chs_error_run hv (hdivides hv).1 (hdivides hv).2 hfuel s.called hk herror₀ with
      ⟨s', hstack, hexit⟩
    have hjump : diskReadSectors B v s.called = s'.ret := hexit
    rw [Cpu.ret, hstack] at hjump
    rw [errorTarget, errorLeftover, if_neg hv, if_neg hv]
    exact ⟨_, hjump, rfl⟩

/-- Without a geometry the division faults before anything is read. -/
theorem diskReadSectors_fault (hdivides : ¬ Divides v) (s : Cpu) :
    diskReadSectors B v s = none := by
  rw [Divides] at hdivides
  push Not at hdivides
  rcases hdivides with ⟨hv, hgeometry⟩
  have hbody : diskReadSectorsBody B v s = none := by
    rw [diskReadSectorsBody_chs hv]
    by_cases hspt : v.sectorsPerTrack = 0
    · simp [chsRead, guard, hspt]
    · simp [chsRead, guard, hgeometry hspt]
  rw [diskReadSectors, iterate, hbody]

/-- **The disk error path.** Whichever read is the first to fail, the routine does not come
back to its caller: the error exit jumps to the pushed SI or CX, and on the CHS path BX and
AX stay on the stack above the return address. -/
theorem diskError_unbalanced (s : Cpu) {k : Nat} (hk : k < askedReads v s)
    (herror : FirstError B s k) :
    ¬ ReturnsBalanced v s (diskReadSectors B v s.called) ∧
      (Divides v → ∃ s', diskReadSectors B v s.called = some (.jumped (errorTarget v s k) s') ∧
        s'.stack = errorLeftover v s k ++ .ret :: s.stack) := by
  refine ⟨?_, fun hdivides => diskError_exit hdivides hk herror⟩
  intro h
  rcases h with ⟨s', hreturned, _, _⟩
  by_cases hdivides : Divides v
  · rcases diskError_exit hdivides hk herror with ⟨s'', hjumped, _⟩
    rw [hjumped] at hreturned
    cases hreturned
  · rw [diskReadSectors_fault hdivides] at hreturned
    cases hreturned

/-- A floppy drive whose read `k` fails. -/
def failingBios (k : Nat) : Bios := { floppyBios with carry := fun i => decide (i = k) }

theorem failingBios_first (k : Nat) (cx : Word) :
    FirstError (failingBios k) (floppyRequest cx) k := by
  refine ⟨?_, ?_⟩
  · simp [failingBios, floppyRequest]
  · intro i hi
    simp only [failingBios, floppyRequest, Nat.zero_add, decide_eq_false_iff_not]
    omega

theorem floppy_divides : Divides floppyData := by
  intro _
  constructor
  · decide
  · decide

/-- One sector that cannot be read: `ret` takes CX for the return address. -/
theorem diskError_counterexample :
    ¬ ReturnsBalanced floppyData (floppyRequest 1)
      (diskReadSectors (failingBios 0) floppyData (floppyRequest 1).called) := by
  intro h
  rcases h with ⟨s', hreturned, _, _⟩
  rcases diskError_exit floppy_divides (by decide) (failingBios_first 0 1) with ⟨s, hjumped, _⟩
  rw [hjumped] at hreturned
  cases hreturned

theorem diskError_unbalanced_floppy :
    ∃ s', diskReadSectors (failingBios 2) floppyData (floppyRequest 5).called
        = some (.jumped 3 s') ∧
      s'.stack = [.half 1024, .half 2, .ret] := by
  have hk : 2 < askedReads floppyData (floppyRequest 5) := by decide
  exact (diskError_unbalanced _ hk (failingBios_first 2 5)).2 floppy_divides

/-- Without an error the call is balanced. -/
theorem diskReadSectors_balanced (hdivides : Divides v) (s : Cpu)
    (hok : ∀ k, k < askedReads v s → B.carry (s.calls + k) = false) :
    ReturnsBalanced v s (diskReadSectors B v s.called) := by
  by_cases hv : v.bDriveLBA = true8
  · rw [askedReads, if_pos hv] at hok
    have hok₀ : B.carry s.called.calls = false := hok 0 (by omega)
    rcases lbaRead_ok (v := v) hok₀ with ⟨s', hmoved, _, _, hrun⟩
    have hexit : diskReadSectors B v s.called = s'.ret := by
      apply iterate_map_done
      rw [diskReadSectorsBody, if_pos hv, hrun]
    have hstack : s'.stack = .ret :: s.stack := hmoved.stack
    rw [Cpu.ret, hstack] at hexit
    refine ⟨_, hexit, rfl, fun _ => ?_⟩
    exact congrArg lo hmoved.esi
  · rw [askedReads, if_neg hv] at hok
    have hok₀ : ∀ i, i ≤ (lo s.ecx - 1).toNat → B.carry (s.called.calls + i) = false := by
      intro i hi
      exact hok i (Nat.lt_succ_of_le hi)
    rcases chs_run hv (hdivides hv).1 (hdivides hv).2 (lo s.ecx - 1).isLt s.called hok₀ rfl with
      ⟨s', hmoved, _, _, hexit⟩
    have hreturn : diskReadSectors B v s.called = s'.ret := hexit
    have hstack : s'.stack = .ret :: s.stack := hmoved.stack
    rw [Cpu.ret, hstack] at hreturn
    exact ⟨_, hreturn, rfl, fun h => absurd h hv⟩

theorem exists_firstError {s : Cpu} {n : Nat}
    (h : ¬ ∀ k, k < n → B.carry (s.calls + k) = false) : ∃ k, k < n ∧ FirstError B s k := by
  push Not at h
  have hfirst := Nat.find_spec h
  refine ⟨Nat.find h, hfirst.1, ?_, ?_⟩
  · exact Bool.eq_true_of_not_eq_false hfirst.2
  · intro i hi
    have hnot := Nat.find_min h hi
    by_contra herror
    exact hnot ⟨Nat.lt_trans hi hfirst.1, herror⟩

/-- The call is balanced just when none of its reads reports an error. -/
theorem diskReadSectors_balanced_iff (hdivides : Divides v) (s : Cpu) :
    ReturnsBalanced v s (diskReadSectors B v s.called) ↔
      ∀ k, k < askedReads v s → B.carry (s.calls + k) = false := by
  constructor
  · intro hbalanced
    by_contra herrors
    rcases exists_firstError herrors with ⟨k, hk, herror⟩
    exact (diskError_unbalanced s hk herror).1 hbalanced
  · exact diskReadSectors_balanced hdivides s

end StupidOS.Boot
