import StupidOS.Lib.Memory
import StupidOS.Lib.Run
import StupidOS.Lib.Tso
import StupidOS.Lib.Sections

/-!
# Spin locks between processors (`kernel/lock.inc`)

`lock_acquire` and `lock_release` an instruction at a time, for any number of processors
that share a memory behind store buffers. `bio_bread`, `bio_brelse`, `proc_alloc`,
`console_write` and `console_read` are what stands between the two calls: each puts the
address of its lock into EAX, and so do all others that use that lock.

* `lock_exclusive`: in every state of every run at most one processor has the lock, and the
  word of the lock is 0 exactly when nobody has it;
* `lock_sections`: what the processors read and write of the data between the two calls is
  what they would have read and written in one section after the other.

The stores of a section may still be queued when `lock_release` is called. They have
reached memory when another processor can take the lock, since its `xchg` waits for them.
-/

namespace StupidOS.Kernel

/-- A lock, and the data that is only written between `lock_acquire` and `lock_release`. -/
structure Lock where
  word : Word
  guards : Word → Prop
  decidable : DecidablePred guards
  apart : ∀ a, guards a → 4 ≤ (a - word).toNat

instance (L : Lock) : DecidablePred L.guards := L.decidable

/-- The next instruction of a processor. -/
inductive LockPc
  | outside
  | acquireMov    -- mov edx, 1
  | acquireXchg   -- xchg edx, [eax]
  | acquireOr     -- or edx, edx
  | acquireJnz    -- jnz lock_acquire
  | acquireRet
  | inside
  | releaseXor    -- xor edx, edx
  | releaseXchg   -- xchg [eax], edx
  | releaseRet
  deriving DecidableEq

structure Processor where
  pc : LockPc
  edx : Word
  zf : Bool

/-- The instructions that do not go to memory. -/
def Processor.next (c : Processor) : Option Processor :=
  match c.pc with
  | .acquireMov => some { c with pc := .acquireXchg, edx := 1 }
  | .acquireOr => some { c with pc := .acquireJnz, zf := c.edx == 0 }
  | .acquireJnz => some { c with pc := if c.zf then .acquireRet else .acquireMov }
  | .acquireRet => some { c with pc := .inside }
  | .releaseXor => some { c with pc := .releaseXchg, edx := 0, zf := true }
  | .releaseRet => some { c with pc := .outside }
  | .outside | .inside | .acquireXchg | .releaseXchg => none

/-- The processors and their memory. -/
structure LockState (ι : Type) where
  cpu : ι → Processor
  mem : Tso ι Word Byte

inductive LockEvent (ι : Type)
  | acquire (i : ι)
  | release (i : ι)
  | instr (i : ι)
  | load (i : ι) (a : Word) (b : Byte)
  | store (i : ι) (a : Word) (b : Byte)
  | flush (i : ι)

section

variable {ι : Type} [DecidableEq ι] (L : Lock)

namespace LockState

def setCpu (s : LockState ι) (i : ι) (c : Processor) : LockState ι :=
  { s with cpu := Function.update s.cpu i c }

/-- The word of the lock in memory. -/
def word (s : LockState ι) : Word := Mem.read32 s.mem.mem L.word

/-- `xchg` of EDX with the word of the lock. -/
def xchg (s : LockState ι) (i : ι) (pc : LockPc) : Option (LockState ι) :=
  let c := s.cpu i
  (s.mem.locked i (Mem.write32 · L.word c.edx)).map fun mem =>
    { s with mem }.setCpu i { c with pc, edx := s.word L }

/-- The next instruction of `lock_acquire` or `lock_release`. -/
def instr (s : LockState ι) (i : ι) : Option (LockState ι) :=
  match (s.cpu i).pc with
  | .acquireXchg => s.xchg L i .acquireOr
  | .releaseXchg => s.xchg L i .releaseRet
  | _ => (s.cpu i).next.map (s.setCpu i)

/-- What can happen. A processor calls `lock_acquire` when it is outside and `lock_release`
when it is inside. It may write anything but the word of the lock, the data of the lock only
inside. -/
def step (s : LockState ι) : LockEvent ι → Option (LockState ι)
  | .acquire i =>
    if (s.cpu i).pc = .outside then
      some (s.setCpu i { s.cpu i with pc := .acquireMov })
    else none
  | .release i =>
    if (s.cpu i).pc = .inside then
      some (s.setCpu i { s.cpu i with pc := .releaseXor })
    else none
  | .instr i => s.instr L i
  | .load i a b => if s.mem.view i a = b then some s else none
  | .store i a b =>
    if 4 ≤ (a - L.word).toNat ∧ (L.guards a → (s.cpu i).pc = .inside) then
      some { s with mem := s.mem.store i a b }
    else none
  | .flush i => (s.mem.flush i).map ({ s with mem := · })

end LockState

/-- From the `xchg` that found the lock free to the one that frees it. -/
def Processor.holds (c : Processor) : Bool :=
  match c.pc with
  | .acquireOr => c.edx == 0
  | .acquireJnz => c.zf
  | .acquireRet | .inside | .releaseXor | .releaseXchg => true
  | .outside | .acquireMov | .acquireXchg | .releaseRet => false

/-- What an event does to the data of the lock. -/
def LockState.access (s : LockState ι) : LockEvent ι → Option (Access ι Word Byte)
  | .instr i =>
    match (s.cpu i).pc with
    | .acquireXchg => if s.word L = 0 then some (.enter i) else none
    | .releaseXchg => some (.leave i)
    | _ => none
  | .load i a b =>
    if L.guards a ∧ (s.cpu i).pc = .inside then some (.op i (.load a b)) else none
  | .store i a b => if L.guards a then some (.op i (.store a b)) else none
  | .acquire _ | .release _ | .flush _ => none

/-- The accesses of a run. -/
def LockState.accesses (s : LockState ι) :
    List (LockEvent ι × LockState ι) → List (Access ι Word Byte)
  | [] => []
  | (e, s') :: r => (s.access L e).toList ++ s'.accesses r

/-- A step as a relation. -/
def LockStep (s : LockState ι) (e : LockEvent ι) (s' : LockState ι) : Prop :=
  s.step L e = some s'

/-- The lock is free, everybody is outside, and no store to it or its data is queued. -/
structure LockState.Initial (s : LockState ι) : Prop where
  outside : ∀ i, (s.cpu i).pc = .outside
  free : s.word L = 0
  queues : ∀ i, ∀ st ∈ s.mem.buf i, 4 ≤ (st.1 - L.word).toNat ∧ ¬ L.guards st.1

/-! ## The invariant -/

/-- The state beside the data and its owner. -/
structure LockInv (s : LockState ι) (g : Guarded ι Word Byte) : Prop where
  owner : ∀ i, (s.cpu i).holds = true ↔ g.owner = some i
  word : s.word L = 0 ↔ g.owner = none
  taking : ∀ i, (s.cpu i).pc = .acquireXchg → (s.cpu i).edx = 1
  freeing : ∀ i, (s.cpu i).pc = .releaseXchg → (s.cpu i).edx = 0
  off : ∀ i, ∀ st ∈ s.mem.buf i, 4 ≤ (st.1 - L.word).toNat
  guarded : s.mem.Guards g.owner L.guards
  data : ∀ a, L.guards a → g.data a = s.mem.seen g.owner a

variable {L} {s s' : LockState ι} {g : Guarded ι Word Byte} {i : ι}

omit [DecidableEq ι] in
theorem LockState.Initial.inv (h : s.Initial L) : LockInv L s ⟨none, s.mem.mem⟩ := by
  have hpc := h.outside
  refine ⟨?_, ?_, ?_, ?_, fun i st hst => (h.queues i st hst).1, ?_, fun _ _ => rfl⟩
  · intro i
    rw [Processor.holds, hpc i]
    exact ⟨nofun, nofun⟩
  · exact ⟨fun _ => rfl, fun _ => h.free⟩
  · intro i hi
    rw [hpc i] at hi
    cases hi
  · intro i hi
    rw [hpc i] at hi
    cases hi
  · intro i st hst hguards
    exact absurd hguards (h.queues i st hst).2

theorem LockState.cpu_setCpu (s : LockState ι) (i j : ι) (c : Processor) :
    (s.setCpu i c).cpu j = if j = i then c else s.cpu j := Function.update_apply ..

/-- A step of one processor that leaves memory alone and does not change who holds the lock. -/
theorem LockInv.setCpu (h : LockInv L s g) {c : Processor} (hholds : c.holds = (s.cpu i).holds)
    (htaking : c.pc = .acquireXchg → c.edx = 1) (hfreeing : c.pc = .releaseXchg → c.edx = 0) :
    LockInv L (s.setCpu i c) g := by
  refine ⟨?_, h.word, ?_, ?_, h.off, h.guarded, h.data⟩
  · intro j
    rw [LockState.cpu_setCpu]
    split
    · next hj => rw [hholds, ← hj, h.owner j]
    · exact h.owner j
  · intro j
    rw [LockState.cpu_setCpu]
    split
    · exact htaking
    · exact h.taking j
  · intro j
    rw [LockState.cpu_setCpu]
    split
    · exact hfreeing
    · exact h.freeing j

theorem LockState.xchg_cases {pc : LockPc} (h : s.xchg L i pc = some s') :
    ∃ mem, s.mem.locked i (Mem.write32 · L.word (s.cpu i).edx) = some mem ∧
      s' = { s with mem }.setCpu i { s.cpu i with pc, edx := s.word L } := by
  rcases Option.map_eq_some_iff.mp h with ⟨mem, hlocked, rfl⟩
  exact ⟨mem, hlocked, rfl⟩

/-- An exchange with the word of the lock, after which its holder is `own`. -/
theorem LockInv.xchg (h : LockInv L s g) {pc : LockPc} {own : Option ι}
    (hxchg : s.xchg L i pc = some s')
    (hown : own = g.owner ∨ g.owner = some i ∧ own = none ∨ g.owner = none ∧ own = some i)
    (hword : (s.cpu i).edx = 0 ↔ own = none)
    (hholds : Processor.holds { s.cpu i with pc, edx := s.word L } = true ↔ own = some i)
    (hpc : pc ≠ .acquireXchg ∧ pc ≠ .releaseXchg) : LockInv L s' { g with owner := own } := by
  rcases LockState.xchg_cases hxchg with ⟨mem, hlocked, rfl⟩
  have hoff : ∀ m a, L.guards a → Mem.write32 m L.word (s.cpu i).edx a = m a :=
    fun m a ha => Mem.write32_frame m _ (L.apart a ha)
  have hlock := h.guarded.locked hlocked hoff hown
  have hmem : mem = { s.mem with mem := Mem.write32 s.mem.mem L.word (s.cpu i).edx } :=
    (Tso.locked_cases hlocked).2
  refine ⟨?_, ?_, ?_, ?_, ?_, hlock.1, fun a ha => (h.data a ha).trans (hlock.2 a ha).symm⟩
  · intro j
    rw [LockState.cpu_setCpu]
    split
    · next hj => rw [hholds, hj]
    · next hj =>
      have hne : i ≠ j := Ne.symm hj
      rw [show (LockState.cpu _ j).holds = (s.cpu j).holds from rfl, h.owner j]
      rcases hown with hown | ⟨hown, hown'⟩ | ⟨hown, hown'⟩
      · rw [hown]
      · simp [hown, hown', hne]
      · simp [hown, hown', hne]
  · rw [← hword, LockState.word, LockState.setCpu, hmem]
    exact iff_of_eq (congrArg (· = (0 : Word)) (Mem.read32_write32 ..))
  · intro j
    rw [LockState.cpu_setCpu]
    split
    · exact fun heq => absurd heq hpc.1
    · exact h.taking j
  · intro j
    rw [LockState.cpu_setCpu]
    split
    · exact fun heq => absurd heq hpc.2
    · exact h.freeing j
  · rw [LockState.setCpu, hmem]
    exact h.off

/-- The data and its owner after an access, or after none. -/
def follow (g : Guarded ι Word Byte) : Option (Access ι Word Byte) → Option (Guarded ι Word Byte)
  | none => some g
  | some x => g.step x

/-- Who holds the lock does not change where memory does not. -/
theorem Processor.next_holds {c c' : Processor} (h : c.next = some c') :
    c'.holds = c.holds ∧ (c'.pc = .acquireXchg → c'.edx = 1) ∧
      (c'.pc = .releaseXchg → c'.edx = 0) := by
  obtain ⟨pc, edx, zf⟩ := c
  cases pc with
  | outside | inside | acquireXchg | releaseXchg => cases h
  | acquireJnz =>
      rw [← Option.some.inj h]
      cases zf with
      | false => exact ⟨rfl, nofun, nofun⟩
      | true => exact ⟨rfl, nofun, nofun⟩
  | acquireMov =>
      rw [← Option.some.inj h]
      exact ⟨rfl, fun _ => rfl, nofun⟩
  | releaseXor =>
      rw [← Option.some.inj h]
      exact ⟨rfl, nofun, fun _ => rfl⟩
  | acquireOr | acquireRet | releaseRet =>
      rw [← Option.some.inj h]
      exact ⟨rfl, nofun, nofun⟩

/-- An instruction that does not go to memory. -/
theorem LockState.instr_next {c : Processor} (h : (s.cpu i).next = some c) :
    s.step L (.instr i) = some (s.setCpu i c) ∧ s.access L (.instr i) = none := by
  rw [LockState.step, LockState.instr, LockState.access]
  rw [Processor.next] at h
  cases hpc : (s.cpu i).pc with
  | outside | inside | acquireXchg | releaseXchg =>
      rw [hpc] at h
      cases h
  | _ =>
      rw [hpc] at h
      dsimp only at h ⊢
      rw [Processor.next, hpc]
      dsimp only
      exact ⟨congrArg (Option.map (s.setCpu i)) h, rfl⟩

/-- The next instruction of `lock_acquire` or `lock_release`. -/
theorem LockInv.instr (h : LockInv L s g) (hinstr : s.step L (.instr i) = some s') :
    ∃ g', follow g (s.access L (.instr i)) = some g' ∧ LockInv L s' g' := by
  have hholds := h.owner i
  by_cases htake : (s.cpu i).pc = .acquireXchg
  · rw [LockState.step, LockState.instr, htake] at hinstr
    simp only [Processor.holds, htake] at hholds
    simp only [LockState.access, htake]
    have hedx := h.taking i htake
    by_cases hfree : s.word L = 0
    · rw [if_pos hfree]
      have hnone : g.owner = none := h.word.mp hfree
      refine ⟨{ g with owner := some i }, if_pos hnone,
        h.xchg hinstr (Or.inr (Or.inr ⟨hnone, rfl⟩)) ?_ ?_ ⟨nofun, nofun⟩⟩
      · rw [hedx]
        exact ⟨nofun, nofun⟩
      · simp [Processor.holds, hfree]
    · rw [if_neg hfree]
      refine ⟨g, rfl, h.xchg hinstr (Or.inl rfl) ?_ ?_ ⟨nofun, nofun⟩⟩
      · rw [hedx, ← h.word]
        exact ⟨nofun, fun hzero => absurd hzero hfree⟩
      · rw [← hholds]
        simpa [Processor.holds] using hfree
  by_cases hfree : (s.cpu i).pc = .releaseXchg
  · rw [LockState.step, LockState.instr, hfree] at hinstr
    have hown : g.owner = some i := hholds.mp (by rw [Processor.holds, hfree])
    simp only [LockState.access, hfree]
    refine ⟨{ g with owner := none }, if_pos hown,
      h.xchg hinstr (Or.inr (Or.inl ⟨hown, rfl⟩)) ?_ ?_ ⟨nofun, nofun⟩⟩
    · exact ⟨fun _ => rfl, fun _ => h.freeing i hfree⟩
    · exact ⟨nofun, nofun⟩
  · have hnext : ∃ c, (s.cpu i).next = some c := by
      rw [LockState.step, LockState.instr] at hinstr
      split at hinstr
      · next hpc => exact absurd hpc htake
      · next hpc => exact absurd hpc hfree
      · rcases Option.map_eq_some_iff.mp hinstr with ⟨c, hc, -⟩
        exact ⟨c, hc⟩
    rcases hnext with ⟨c, hc⟩
    rcases LockState.instr_next (L := L) hc with ⟨hstep, hacc⟩
    rcases Processor.next_holds hc with ⟨hkept, htaking, hfreeing⟩
    rw [hstep] at hinstr
    rw [hacc, ← Option.some.inj hinstr]
    exact ⟨g, rfl, h.setCpu hkept htaking hfreeing⟩

/-- Every step keeps the invariant, and does to the data what its access says. -/
theorem LockInv.step (h : LockInv L s g) {e : LockEvent ι} (hstep : s.step L e = some s') :
    ∃ g', follow g (s.access L e) = some g' ∧ LockInv L s' g' := by
  have hinside : ∀ i, (s.cpu i).pc = .inside → g.owner = some i := by
    intro i hi
    rw [← h.owner i, Processor.holds, hi]
  cases e with
  | acquire i =>
      rw [LockState.step] at hstep
      split at hstep
      · next hpc =>
        rw [← Option.some.inj hstep]
        refine ⟨g, rfl, h.setCpu ?_ nofun nofun⟩
        simp only [Processor.holds, hpc]
      · cases hstep
  | release i =>
      rw [LockState.step] at hstep
      split at hstep
      · next hpc =>
        rw [← Option.some.inj hstep]
        refine ⟨g, rfl, h.setCpu ?_ nofun nofun⟩
        simp only [Processor.holds, hpc]
      · cases hstep
  | instr i => exact h.instr hstep
  | load i a b =>
      rw [LockState.step] at hstep
      split at hstep
      · next hread =>
        rw [← Option.some.inj hstep, LockState.access]
        split
        · next hin =>
          have hown := hinside i hin.2
          have hdata : g.data a = b := by
            rw [h.data a hin.1, hown]
            exact hread
          refine ⟨g, ?_, h⟩
          rw [follow, Guarded.step, if_pos hown, Op.apply, if_pos hdata]
          rfl
        · exact ⟨g, rfl, h⟩
      · cases hstep
  | store i a b =>
      rw [LockState.step] at hstep
      split at hstep
      · next hin =>
        rcases hin with ⟨haway, hin⟩
        rw [← Option.some.inj hstep, LockState.access]
        have hoff : ∀ j, ∀ st ∈ (s.mem.store i a b).buf j, 4 ≤ (st.1 - L.word).toNat := by
          intro j st hst
          by_cases hj : j = i
          · rw [hj, Tso.buf_store] at hst
            rcases List.mem_append.mp hst with hst | hst
            · exact h.off i st hst
            · rw [List.mem_singleton.mp hst]
              exact haway
          · rw [Tso.buf_store_of_ne hj] at hst
            exact h.off j st hst
        by_cases hguards : L.guards a
        · rw [if_pos hguards]
          have hown := hinside i (hin hguards)
          have hstore := (hown ▸ h.guarded : s.mem.Guards (some i) L.guards).store_own a b
          refine ⟨{ g with data := Function.update g.data a b }, ?_, h.owner, h.word, h.taking,
            h.freeing, hoff, ?_, ?_⟩
          · simp [follow, Guarded.step, Op.apply, hown]
          · rw [hown]
            exact hstore.1
          · intro a' ha'
            have hdata := h.data a' ha'
            rw [hown] at hdata ⊢
            dsimp only
            rw [hstore.2, Function.update_apply, Function.update_apply, hdata]
        · rw [if_neg hguards]
          have hstore := h.guarded.store_off (i := i) hguards b
          exact ⟨g, rfl, h.owner, h.word, h.taking, h.freeing, hoff, hstore.1,
            fun a' ha' => (h.data a' ha').trans (hstore.2 a' ha').symm⟩
      · cases hstep
  | flush i =>
      rcases Option.map_eq_some_iff.mp hstep with ⟨mem, hflush, rfl⟩
      have hkept := h.guarded.flush hflush
      refine ⟨g, rfl, h.owner, ?_, h.taking, h.freeing,
        fun j st hst => h.off j st (Tso.buf_flush hflush st hst), hkept.1,
        fun a' ha' => (h.data a' ha').trans (hkept.2 a' ha').symm⟩
      have hword : ∀ k : Word, k.toNat < 4 → mem.mem (L.word + k) = s.mem.mem (L.word + k) := by
        intro k hk
        refine Tso.mem_flush hflush ?_
        intro st hst heq
        have hoff := h.off i st hst
        rw [heq] at hoff
        bv_omega
      rw [← h.word]
      have hzero : mem.mem L.word = s.mem.mem L.word := by
        simpa using hword 0 (by decide)
      exact iff_of_eq (congrArg (· = (0 : Word)) (Mem.read32_congr hzero (hword 1 (by decide))
        (hword 2 (by decide)) (hword 3 (by decide))))

/-! ## Runs -/

/-- Along a run the accesses are accepted, and the invariant holds with what they leave. -/
theorem LockInv.run (h : LockInv L s g) {r : List (LockEvent ι × LockState ι)}
    (hrun : Run (LockStep L) s r) :
    ∃ g', g.exec (s.accesses L r) = some g' ∧ LockInv L (runEnd s r) g' := by
  induction r generalizing s g with
  | nil => exact ⟨g, rfl, h⟩
  | cons p r ih =>
      obtain ⟨e, s'⟩ := p
      rcases h.step hrun.1 with ⟨g', hfollow, hinv⟩
      rcases ih hinv hrun.2 with ⟨g'', hexec, hend⟩
      refine ⟨g'', ?_, hend⟩
      rw [LockState.accesses]
      cases hacc : s.access L e with
      | none =>
          rw [hacc] at hfollow
          rw [Option.some.inj hfollow]
          exact hexec
      | some x =>
          rw [hacc] at hfollow
          exact Option.bind_eq_some_iff.mpr ⟨g', hfollow, hexec⟩

/-- Events that can happen one after the other are those of a run. -/
theorem exists_run {es : List (LockEvent ι)} (h : (es.foldlM (LockState.step L) s).isSome) :
    ∃ r, Run (LockStep L) s r ∧ r.map Prod.fst = es := by
  induction es generalizing s with
  | nil => exact ⟨[], trivial, rfl⟩
  | cons e es ih =>
      rcases Option.isSome_iff_exists.mp h with ⟨s', hs'⟩
      rcases Option.bind_eq_some_iff.mp hs' with ⟨s₁, hstep, hrest⟩
      exact Run.exists_cons hstep (ih (Option.isSome_iff_exists.mpr ⟨s', hrest⟩))

/-- A lock for one byte, with two processors. -/
def demoLock : Lock where
  word := 0x1000
  guards a := a = 0x2000
  decidable a := inferInstanceAs (Decidable (a = _))
  apart := by
    rintro a rfl
    decide

def demoStart : LockState Bool := ⟨fun _ => ⟨.outside, 0, false⟩, ⟨fun _ => 0, fun _ => []⟩⟩

theorem demoStart_initial : demoStart.Initial demoLock :=
  ⟨fun _ => rfl, by decide, nofun⟩

/-- One processor takes the lock and writes, the other waits, then has it. -/
def demoEvents : List (LockEvent Bool) :=
  [.acquire true, .instr true, .instr true, .acquire false, .instr false, .instr false,
    .instr true, .instr true, .instr true, .store true 0x2000 7, .instr false, .release true,
    .instr true, .flush true, .instr true, .instr false, .instr false, .instr false,
    .instr false, .instr false, .instr false, .load false 0x2000 7]

theorem demoEvents_run : ∃ r, Run (LockStep demoLock) demoStart r ∧ r.map Prod.fst = demoEvents :=
  exists_run (by decide)

/-- **Mutual exclusion.** Whatever the processors do and in which order their stores reach
memory, at most one of them has the lock, and its word is 0 when and only when none has. -/
theorem lock_exclusive (L : Lock) (s : LockState ι) (r : List (LockEvent ι × LockState ι))
    (hinit : s.Initial L) (hrun : Run (LockStep L) s r) :
    ∀ p ∈ r, (∀ i j, (p.2.cpu i).holds = true → (p.2.cpu j).holds = true → i = j) ∧
      (p.2.word L = 0 ↔ ∀ i, (p.2.cpu i).holds = false) := by
  have hstep : ∀ (s : LockState ι) e s', (∃ g, LockInv L s g) → LockStep L s e s' →
      ∃ g, LockInv L s' g := by
    rintro s e s' ⟨g, hinv⟩ hstep
    rcases hinv.step hstep with ⟨g', -, hinv'⟩
    exact ⟨g', hinv'⟩
  intro p hp
  rcases Run.invariant _ hstep ⟨_, hinit.inv⟩ hrun p hp with ⟨g, hinv⟩
  constructor
  · intro i j hi hj
    rw [hinv.owner] at hi hj
    exact Option.some.inj (hi.symm.trans hj)
  · rw [hinv.word]
    constructor
    · intro hnone i
      rw [Bool.eq_false_iff, Ne, hinv.owner, hnone]
      exact nofun
    · intro hfree
      cases hown : g.owner with
      | none => rfl
      | some i =>
          have hheld := (hinv.owner i).mpr hown
          rw [hfree i] at hheld
          cases hheld

theorem lock_exclusive_demo :
    ∃ r : List (LockEvent Bool × LockState Bool), r.map Prod.fst = demoEvents ∧
    ∀ p ∈ r, (∀ i j, (p.2.cpu i).holds = true → (p.2.cpu j).holds = true → i = j) ∧
      (p.2.word demoLock = 0 ↔ ∀ i, (p.2.cpu i).holds = false) := by
  rcases demoEvents_run with ⟨r, hrun, hfst⟩
  exact ⟨r, hfst, lock_exclusive demoLock demoStart r demoStart_initial hrun⟩

/-- **Sections.** What a run reads and writes of the data of the lock is one section after
the other, each of one processor and each from what the one before left; at the end the
data is what those sections make of it, as the holder of the lock reads it, or as it is in
memory when the lock is free. -/
theorem lock_sections (L : Lock) (s : LockState ι) (r : List (LockEvent ι × LockState ι))
    (hinit : s.Initial L) (hrun : Run (LockStep L) s r) :
    ∃ ss last d, s.accesses L r = sectionTrace ss last ∧
      applyOps s.mem.mem (sectionOps ss last) = some d ∧
      (∀ i, ((runEnd s r).cpu i).holds = true ↔ last.map Section.who = some i) ∧
      ∀ a, L.guards a → (runEnd s r).mem.seen (last.map Section.who) a = d a := by
  rcases hinit.inv.run hrun with ⟨g, hexec, hinv⟩
  rcases (Guarded.exec_serial hexec).sections with ⟨ss, last, htrace, hown, hops⟩
  refine ⟨ss, last, g.data, htrace, hops, ?_, ?_⟩
  · rw [← hown]
    exact hinv.owner
  · rw [← hown]
    exact fun a ha => (hinv.data a ha).symm

theorem lock_sections_demo :
    ∃ r : List (LockEvent Bool × LockState Bool), r.map Prod.fst = demoEvents ∧
    ∃ ss last d, demoStart.accesses demoLock r = sectionTrace ss last ∧
      applyOps demoStart.mem.mem (sectionOps ss last) = some d ∧
      (∀ i, ((runEnd demoStart r).cpu i).holds = true ↔ last.map Section.who = some i) ∧
      ∀ a, demoLock.guards a → (runEnd demoStart r).mem.seen (last.map Section.who) a = d a := by
  rcases demoEvents_run with ⟨r, hrun, hfst⟩
  exact ⟨r, hfst, lock_sections demoLock demoStart r demoStart_initial hrun⟩

/-! ## The lock can be had -/

/-- Some steps lead from one state to the other. -/
def Reaches (L : Lock) (s s' : LockState ι) : Prop :=
  ∃ r, Run (LockStep L) s r ∧ runEnd s r = s'

theorem Reaches.refl (s : LockState ι) : Reaches L s s := ⟨[], trivial, rfl⟩

theorem Reaches.trans {s'' : LockState ι} (h : Reaches L s s') (h' : Reaches L s' s'') :
    Reaches L s s'' := by
  rcases h with ⟨r, hrun, rfl⟩
  rcases h' with ⟨r', hrun', rfl⟩
  exact ⟨r ++ r', hrun.append hrun', runEnd_append ..⟩

theorem Reaches.step {e : LockEvent ι} (h : s.step L e = some s') : Reaches L s s' :=
  ⟨[(e, s')], ⟨h, trivial⟩, rfl⟩

/-- The stores of a processor can all reach memory, and nothing else happens. -/
theorem LockInv.drained (h : LockInv L s g) (i : ι) :
    ∃ s', Reaches L s s' ∧ LockInv L s' g ∧ s'.mem.buf i = [] ∧ s'.cpu = s.cpu := by
  induction hbuf : s.mem.buf i generalizing s with
  | nil => exact ⟨s, .refl s, h, hbuf, rfl⟩
  | cons st b ih =>
      let t : Tso ι Word Byte :=
        ⟨Function.update s.mem.mem st.1 st.2, Function.update s.mem.buf i b⟩
      have hstep : s.step L (.flush i) = some { s with mem := t } := by
        rw [LockState.step, Tso.flush, hbuf]
        rfl
      rcases h.step hstep with ⟨g', hfollow, hinv⟩
      rcases Option.some.inj hfollow with rfl
      rcases ih hinv (Function.update_self ..) with ⟨s', hreach, hinv', hempty, hcpu⟩
      exact ⟨s', (Reaches.step hstep).trans hreach, hinv', hempty, hcpu⟩

/-- An instruction that only changes registers. -/
theorem LockInv.local_step (h : LockInv L s g) {e : LockEvent ι} {c : Processor}
    (hstep : s.step L e = some (s.setCpu i c)) (hacc : s.access L e = none) :
    ∃ s', Reaches L s s' ∧ LockInv L s' g ∧ s'.cpu i = c := by
  rcases h.step hstep with ⟨g', hfollow, hinv⟩
  rw [hacc] at hfollow
  rcases Option.some.inj hfollow with rfl
  exact ⟨_, .step hstep, hinv, (LockState.cpu_setCpu ..).trans (if_pos rfl)⟩

/-- With nothing queued the exchange can be made. -/
theorem LockState.xchg_of_nil (hbuf : s.mem.buf i = []) (pc : LockPc) :
    ∃ s', s.xchg L i pc = some s' ∧ s'.cpu i = { s.cpu i with pc, edx := s.word L } := by
  rw [LockState.xchg, Tso.locked, hbuf]
  exact ⟨_, rfl, (LockState.cpu_setCpu ..).trans (if_pos rfl)⟩

/-! ### Freeing it -/

/-- Some steps lead to where the lock is free. -/
def Freeable (L : Lock) (s : LockState ι) : Prop :=
  ∃ s' g', Reaches L s s' ∧ LockInv L s' g' ∧ g'.owner = none

theorem Freeable.releaseXchg (h : LockInv L s g) (hpc : (s.cpu i).pc = .releaseXchg) :
    Freeable L s := by
  rcases h.drained i with ⟨s₁, hreach, hinv, hbuf, hcpu⟩
  rw [← hcpu] at hpc
  rcases LockState.xchg_of_nil (L := L) hbuf .releaseRet with ⟨s₂, hxchg, -⟩
  have hstep : s₁.step L (.instr i) = some s₂ := by
    rw [LockState.step, LockState.instr, hpc]
    exact hxchg
  have hacc : s₁.access L (.instr i) = some (.leave i) := by
    simp only [LockState.access, hpc]
  rcases hinv.step hstep with ⟨g', hfollow, hinv'⟩
  rw [hacc, follow, Guarded.step] at hfollow
  split at hfollow
  · rw [← Option.some.inj hfollow] at hinv'
    exact ⟨s₂, _, hreach.trans (.step hstep), hinv', rfl⟩
  · cases hfollow

/-- The lock can get free where it can after an instruction that does not go to memory. -/
theorem Freeable.next {c : Processor} (h : LockInv L s g) (hnext : (s.cpu i).next = some c)
    (hthen : ∀ s', LockInv L s' g → s'.cpu i = c → Freeable L s') : Freeable L s := by
  rcases LockState.instr_next (L := L) hnext with ⟨hstep, hacc⟩
  rcases h.local_step hstep hacc with ⟨s₁, hreach, hinv, hcpu⟩
  rcases hthen s₁ hinv hcpu with ⟨s₂, g₂, hreach₂, hinv₂, hnone⟩
  exact ⟨s₂, g₂, hreach.trans hreach₂, hinv₂, hnone⟩

theorem Freeable.releaseXor (h : LockInv L s g) (hpc : (s.cpu i).pc = .releaseXor) :
    Freeable L s := by
  refine .next h (i := i) (by rw [Processor.next, hpc]) ?_
  intro s' hinv hcpu
  exact .releaseXchg hinv (congrArg Processor.pc hcpu)

theorem Freeable.inside (h : LockInv L s g) (hpc : (s.cpu i).pc = .inside) : Freeable L s := by
  rcases h.local_step (e := .release i) (if_pos hpc) rfl with ⟨s₁, hreach, hinv, hcpu⟩
  rcases Freeable.releaseXor hinv (congrArg Processor.pc hcpu) with ⟨s₂, g₂, hreach₂, hinv₂, hnone⟩
  exact ⟨s₂, g₂, hreach.trans hreach₂, hinv₂, hnone⟩

theorem Freeable.acquireRet (h : LockInv L s g) (hpc : (s.cpu i).pc = .acquireRet) :
    Freeable L s := by
  refine .next h (i := i) (by rw [Processor.next, hpc]) ?_
  intro s' hinv hcpu
  exact .inside hinv (congrArg Processor.pc hcpu)

theorem Freeable.acquireJnz (h : LockInv L s g) (hpc : (s.cpu i).pc = .acquireJnz)
    (hzf : (s.cpu i).zf = true) : Freeable L s := by
  refine .next h (i := i) (by rw [Processor.next, hpc, hzf]) ?_
  intro s' hinv hcpu
  exact .acquireRet hinv (congrArg Processor.pc hcpu)

theorem Freeable.acquireOr (h : LockInv L s g) (hpc : (s.cpu i).pc = .acquireOr)
    (hedx : (s.cpu i).edx = 0) : Freeable L s := by
  refine .next h (i := i) (by rw [Processor.next, hpc, hedx]) ?_
  intro s' hinv hcpu
  exact .acquireJnz hinv (congrArg Processor.pc hcpu) (congrArg Processor.zf hcpu)

/-- In every state the lock can get free: its holder runs on to its `xchg`. -/
theorem LockInv.freeable (h : LockInv L s g) : Freeable L s := by
  cases hown : g.owner with
  | none => exact ⟨s, g, .refl s, h, hown⟩
  | some i =>
      have hholds := (h.owner i).mpr hown
      unfold Processor.holds at hholds
      cases hpc : (s.cpu i).pc with
      | outside | acquireMov | acquireXchg | releaseRet =>
          rw [hpc] at hholds
          cases hholds
      | acquireOr =>
          rw [hpc] at hholds
          exact .acquireOr h hpc (beq_iff_eq.mp hholds)
      | acquireJnz =>
          rw [hpc] at hholds
          exact .acquireJnz h hpc hholds
      | acquireRet => exact .acquireRet h hpc
      | inside => exact .inside h hpc
      | releaseXor => exact .releaseXor h hpc
      | releaseXchg => exact .releaseXchg h hpc

/-! ### Taking it -/

/-- Some steps lead to where processor `i` is inside. -/
def Enters (L : Lock) (s : LockState ι) (i : ι) : Prop :=
  ∃ s', Reaches L s s' ∧ (s'.cpu i).pc = .inside

theorem Enters.next {c : Processor} (h : LockInv L s g) (hnext : (s.cpu i).next = some c)
    (hthen : ∀ s', LockInv L s' g → s'.cpu i = c → Enters L s' i) : Enters L s i := by
  rcases LockState.instr_next (L := L) hnext with ⟨hstep, hacc⟩
  rcases h.local_step hstep hacc with ⟨s₁, hreach, hinv, hcpu⟩
  rcases hthen s₁ hinv hcpu with ⟨s₂, hreach₂, hin⟩
  exact ⟨s₂, hreach.trans hreach₂, hin⟩

/-- A processor that has just taken the lock gets inside. -/
theorem Enters.taken (h : LockInv L s g) (hpc : (s.cpu i).pc = .acquireOr)
    (hedx : (s.cpu i).edx = 0) : Enters L s i := by
  refine .next h (by rw [Processor.next, hpc, hedx]) ?_
  intro s₁ hinv₁ hcpu₁
  refine .next hinv₁ (by rw [hcpu₁]; rfl) ?_
  intro s₂ hinv₂ hcpu₂
  refine .next hinv₂ (by rw [hcpu₂]; rfl) ?_
  intro s₃ hinv₃ hcpu₃
  exact ⟨s₃, .refl s₃, congrArg Processor.pc hcpu₃⟩

/-- The exchange of a processor takes a free lock. -/
theorem Enters.acquireXchg (h : LockInv L s g) (hfree : g.owner = none)
    (hpc : (s.cpu i).pc = .acquireXchg) : Enters L s i := by
  rcases h.drained i with ⟨s₁, hreach, hinv, hbuf, hcpu⟩
  rw [← hcpu] at hpc
  rcases LockState.xchg_of_nil (L := L) hbuf .acquireOr with ⟨s₂, hxchg, hcpu₂⟩
  have hstep : s₁.step L (.instr i) = some s₂ := by
    rw [LockState.step, LockState.instr, hpc]
    exact hxchg
  rcases hinv.step hstep with ⟨g', -, hinv'⟩
  have hedx : (s₂.cpu i).edx = 0 := (congrArg Processor.edx hcpu₂).trans (hinv.word.mpr hfree)
  rcases Enters.taken hinv' (congrArg Processor.pc hcpu₂) hedx with ⟨s₃, hreach₃, hin⟩
  exact ⟨s₃, hreach.trans ((Reaches.step hstep).trans hreach₃), hin⟩

theorem Enters.acquireMov (h : LockInv L s g) (hfree : g.owner = none)
    (hpc : (s.cpu i).pc = .acquireMov) : Enters L s i := by
  refine .next h (by rw [Processor.next, hpc]) ?_
  intro s' hinv hcpu
  exact .acquireXchg hinv hfree (congrArg Processor.pc hcpu)

theorem Enters.outside (h : LockInv L s g) (hfree : g.owner = none)
    (hpc : (s.cpu i).pc = .outside) : Enters L s i := by
  rcases h.local_step (e := .acquire i) (if_pos hpc) rfl with ⟨s₁, hreach, hinv, hcpu⟩
  rcases Enters.acquireMov hinv hfree (congrArg Processor.pc hcpu) with ⟨s₂, hreach₂, hin⟩
  exact ⟨s₂, hreach.trans hreach₂, hin⟩

theorem Enters.acquireJnz (h : LockInv L s g) (hfree : g.owner = none)
    (hpc : (s.cpu i).pc = .acquireJnz) (hzf : (s.cpu i).zf = false) : Enters L s i := by
  refine .next h (by rw [Processor.next, hpc, hzf]) ?_
  intro s' hinv hcpu
  exact .acquireMov hinv hfree (congrArg Processor.pc hcpu)

/-- Where the lock is free, every processor can go on to be inside. -/
theorem LockInv.enters (h : LockInv L s g) (hfree : g.owner = none) (i : ι) : Enters L s i := by
  have hholds : (s.cpu i).holds = false := by
    rw [Bool.eq_false_iff, Ne, h.owner, hfree]
    exact nofun
  unfold Processor.holds at hholds
  cases hpc : (s.cpu i).pc with
  | acquireRet | inside | releaseXor | releaseXchg =>
      rw [hpc] at hholds
      cases hholds
  | outside => exact .outside h hfree hpc
  | acquireMov => exact .acquireMov h hfree hpc
  | acquireXchg => exact .acquireXchg h hfree hpc
  | acquireOr =>
      rw [hpc] at hholds
      refine .next h (by rw [Processor.next, hpc]) ?_
      intro s' hinv hcpu
      exact .acquireJnz hinv hfree (congrArg Processor.pc hcpu)
        ((congrArg Processor.zf hcpu).trans hholds)
  | acquireJnz =>
      rw [hpc] at hholds
      exact .acquireJnz h hfree hpc hholds
  | releaseRet =>
      refine .next h (by rw [Processor.next, hpc]) ?_
      intro s' hinv hcpu
      exact .outside hinv hfree (congrArg Processor.pc hcpu)

/-- **No deadlock.** After every run, every processor can still come to be inside. -/
theorem lock_obtainable (L : Lock) (s : LockState ι) (r : List (LockEvent ι × LockState ι))
    (hinit : s.Initial L) (hrun : Run (LockStep L) s r) (i : ι) :
    ∃ s', Reaches L (runEnd s r) s' ∧ (s'.cpu i).pc = .inside := by
  rcases hinit.inv.run hrun with ⟨g, -, hinv⟩
  rcases hinv.freeable with ⟨s₁, g₁, hreach, hinv₁, hfree⟩
  rcases hinv₁.enters hfree i with ⟨s₂, hreach₂, hin⟩
  exact ⟨s₂, hreach.trans hreach₂, hin⟩

theorem lock_obtainable_demo :
    ∃ r : List (LockEvent Bool × LockState Bool), r.map Prod.fst = demoEvents ∧
    ∃ s', Reaches demoLock (runEnd demoStart r) s' ∧ (s'.cpu true).pc = .inside := by
  rcases demoEvents_run with ⟨r, hrun, hfst⟩
  exact ⟨r, hfst, lock_obtainable demoLock demoStart r demoStart_initial hrun true⟩

end

end StupidOS.Kernel
