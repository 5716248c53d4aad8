import Mathlib.Logic.Function.Basic
import Mathlib.Tactic.Common

/-!
# Memory behind store buffers

Every processor has a queue of stores that have not reached memory. It reads its own
stores at once (`view`), another processor reads them when they have left the queue
(`flush`). A locked instruction waits until the queue is empty and changes memory itself
(`locked`).

`Guards` says that of the stores to some data all that are still queued are the owner's.
Then there is one value of that data at any time, `seen`, and flushing keeps it.
-/

namespace StupidOS

/-- Memory, and for every processor the stores that have not reached it, oldest first. -/
structure Tso (ι A V : Type) where
  mem : A → V
  buf : ι → List (A × V)

namespace Tso

variable {ι A V : Type} [DecidableEq ι] [DecidableEq A]

/-- Memory after the stores of a queue. -/
def drain (m : A → V) (b : List (A × V)) : A → V :=
  b.foldl (fun m s => Function.update m s.1 s.2) m

/-- What processor `i` reads. -/
def view (t : Tso ι A V) (i : ι) : A → V := drain t.mem (t.buf i)

def store (t : Tso ι A V) (i : ι) (a : A) (v : V) : Tso ι A V :=
  { t with buf := Function.update t.buf i (t.buf i ++ [(a, v)]) }

/-- The oldest store of `i` reaches memory. -/
def flush (t : Tso ι A V) (i : ι) : Option (Tso ι A V) :=
  match t.buf i with
  | [] => none
  | s :: b => some ⟨Function.update t.mem s.1 s.2, Function.update t.buf i b⟩

/-- A locked instruction of `i`. -/
def locked (t : Tso ι A V) (i : ι) (f : (A → V) → A → V) : Option (Tso ι A V) :=
  if (t.buf i).isEmpty then some { t with mem := f t.mem } else none

/-! ## Queues -/

theorem drain_append (m : A → V) (b b' : List (A × V)) :
    drain m (b ++ b') = drain (drain m b) b' := List.foldl_append ..

/-- Where memory agrees, it agrees after the queue. -/
theorem drain_congr {m n : A → V} {b : List (A × V)} {a : A} (h : m a = n a) :
    drain m b a = drain n b a := by
  induction b generalizing m n with
  | nil => exact h
  | cons s b ih =>
      refine ih (m := Function.update m s.1 s.2) (n := Function.update n s.1 s.2) ?_
      by_cases hs : a = s.1
      · rw [hs, Function.update_self, Function.update_self]
      · rw [Function.update_of_ne hs, Function.update_of_ne hs, h]

/-! ## The operations -/

variable {t t' : Tso ι A V} {i : ι}

omit [DecidableEq ι] in
theorem view_of_nil (h : t.buf i = []) : t.view i = t.mem := by
  rw [view, h]
  rfl

theorem flush_cases (h : t.flush i = some t') : ∃ s b, t.buf i = s :: b ∧
    t' = ⟨Function.update t.mem s.1 s.2, Function.update t.buf i b⟩ := by
  unfold flush at h
  split at h
  · cases h
  · next s b hbuf => exact ⟨s, b, hbuf, (Option.some.inj h).symm⟩

omit [DecidableEq ι] [DecidableEq A] in
theorem locked_cases {f : (A → V) → A → V} (h : t.locked i f = some t') :
    t.buf i = [] ∧ t' = { t with mem := f t.mem } := by
  unfold locked at h
  split at h
  · next hempty => exact ⟨List.isEmpty_iff.mp hempty, (Option.some.inj h).symm⟩
  · cases h

omit [DecidableEq A] in
theorem buf_store (t : Tso ι A V) (i : ι) (a : A) (v : V) :
    (t.store i a v).buf i = t.buf i ++ [(a, v)] := Function.update_self ..

omit [DecidableEq A] in
theorem buf_store_of_ne {j : ι} (hj : j ≠ i) (a : A) (v : V) :
    (t.store i a v).buf j = t.buf j := Function.update_of_ne hj ..

/-- A processor reads its own store. -/
theorem view_store (t : Tso ι A V) (i : ι) (a : A) (v : V) :
    (t.store i a v).view i = Function.update (t.view i) a v := by
  rw [view, buf_store, drain_append]
  rfl

theorem view_store_of_ne {j : ι} (hj : j ≠ i) (a : A) (v : V) :
    (t.store i a v).view j = t.view j := by
  rw [view, buf_store_of_ne hj]
  rfl

/-- A flush does not change what its own processor reads. -/
theorem view_flush (h : t.flush i = some t') : t'.view i = t.view i := by
  rcases flush_cases h with ⟨s, b, hbuf, rfl⟩
  rw [view, view, hbuf]
  dsimp only
  rw [Function.update_self]
  rfl

/-- A flush brings no store into a queue. -/
theorem buf_flush {j : ι} (h : t.flush i = some t') : ∀ s ∈ t'.buf j, s ∈ t.buf j := by
  rcases flush_cases h with ⟨s, b, hbuf, rfl⟩
  intro s' hs'
  by_cases hj : j = i
  · subst hj
    dsimp only at hs'
    rw [Function.update_self] at hs'
    rw [hbuf]
    exact List.mem_cons_of_mem _ hs'
  · dsimp only at hs'
    rwa [Function.update_of_ne hj] at hs'

/-- A flush changes memory only where its processor had a store. -/
theorem mem_flush {a : A} (h : t.flush i = some t') (ha : ∀ s ∈ t.buf i, s.1 ≠ a) :
    t'.mem a = t.mem a := by
  rcases flush_cases h with ⟨s, b, hbuf, rfl⟩
  have hs : s.1 ≠ a := ha s (by rw [hbuf]; exact List.mem_cons_self ..)
  exact Function.update_of_ne (Ne.symm hs) ..

theorem view_flush_frame {j : ι} {a : A} (hj : j ≠ i) (h : t.flush i = some t')
    (ha : ∀ s ∈ t.buf i, s.1 ≠ a) : t'.view j a = t.view j a := by
  have hmem := mem_flush h ha
  rcases flush_cases h with ⟨s, b, -, rfl⟩
  rw [view, view]
  dsimp only at hmem ⊢
  rw [Function.update_of_ne hj]
  exact drain_congr hmem

/-! ## Data with an owner -/

/-- What the owner reads, and memory where there is none. -/
def seen (t : Tso ι A V) : Option ι → A → V
  | none => t.mem
  | some i => t.view i

/-- Only the owner has stores to `D` in its queue. -/
def Guards (t : Tso ι A V) (own : Option ι) (D : A → Prop) : Prop :=
  ∀ j, ∀ s ∈ t.buf j, D s.1 → own = some j

variable {own : Option ι} {D : A → Prop}

omit [DecidableEq ι] [DecidableEq A] in
theorem Guards.away (h : t.Guards own D) (hi : own ≠ some i) {a : A} (ha : D a) :
    ∀ s ∈ t.buf i, s.1 ≠ a := by
  intro s hs heq
  exact hi (h i s hs (heq ▸ ha))

/-- Flushing keeps the data and who may have stores to it. -/
theorem Guards.flush (h : t.Guards own D) (hflush : t.flush i = some t') :
    t'.Guards own D ∧ ∀ a, D a → t'.seen own a = t.seen own a := by
  refine ⟨fun j s hs hD => h j s (buf_flush hflush s hs) hD, ?_⟩
  intro a ha
  cases own with
  | none => exact mem_flush hflush (h.away nofun ha)
  | some k =>
      by_cases hk : k = i
      · subst hk
        exact congrFun (view_flush hflush) a
      · refine view_flush_frame hk hflush (h.away ?_ ha)
        intro heq
        exact hk (Option.some.inj heq)

/-- A store outside of the data, by whoever. -/
theorem Guards.store_off (h : t.Guards own D) {a : A} (ha : ¬ D a) (v : V) :
    (t.store i a v).Guards own D ∧ ∀ b, D b → (t.store i a v).seen own b = t.seen own b := by
  constructor
  · intro j s hs hD
    by_cases hj : j = i
    · subst hj
      rw [buf_store] at hs
      rcases List.mem_append.mp hs with hs | hs
      · exact h j s hs hD
      · rw [List.mem_singleton.mp hs] at hD
        exact absurd hD ha
    · rw [buf_store_of_ne hj] at hs
      exact h j s hs hD
  · intro b hb
    cases own with
    | none => rfl
    | some k =>
        by_cases hk : k = i
        · subst hk
          have hne : b ≠ a := by
            rintro rfl
            exact ha hb
          change (t.store k a v).view k b = t.view k b
          rw [view_store, Function.update_of_ne hne]
        · exact congrFun (view_store_of_ne hk a v) b

/-- A store of the owner. -/
theorem Guards.store_own (h : t.Guards (some i) D) (a : A) (v : V) :
    (t.store i a v).Guards (some i) D ∧
      (t.store i a v).seen (some i) = Function.update (t.seen (some i)) a v := by
  refine ⟨?_, view_store t i a v⟩
  intro j s hs hD
  by_cases hj : j = i
  · rw [hj]
  · rw [buf_store_of_ne hj] at hs
    exact h j s hs hD

omit [DecidableEq ι] in
/-- A locked instruction that leaves the data alone. Its processor may become the owner, or
cease to be it. -/
theorem Guards.locked (h : t.Guards own D) {f : (A → V) → A → V} {own' : Option ι}
    (hlock : t.locked i f = some t') (hf : ∀ m a, D a → f m a = m a)
    (hown : own' = own ∨ own = some i ∧ own' = none ∨ own = none ∧ own' = some i) :
    t'.Guards own' D ∧ ∀ a, D a → t'.seen own' a = t.seen own a := by
  rcases locked_cases hlock with ⟨hbuf, rfl⟩
  have hview : view ⟨f t.mem, t.buf⟩ i = f t.mem := view_of_nil hbuf
  rcases hown with rfl | ⟨rfl, rfl⟩ | ⟨rfl, rfl⟩
  · refine ⟨h, ?_⟩
    intro a ha
    cases own' with
    | none => exact hf t.mem a ha
    | some k => exact drain_congr (hf t.mem a ha)
  · constructor
    · intro j s hs hD
      have hj := Option.some.inj (h j s hs hD)
      rw [← hj, hbuf] at hs
      cases hs
    · intro a ha
      change f t.mem a = t.view i a
      rw [view_of_nil hbuf, hf t.mem a ha]
  · refine ⟨fun j s hs hD => absurd (h j s hs hD) nofun, ?_⟩
    intro a ha
    change view _ i a = t.mem a
    rw [hview, hf t.mem a ha]

end Tso

end StupidOS
