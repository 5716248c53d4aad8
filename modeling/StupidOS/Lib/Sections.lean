import Mathlib.Logic.Function.Basic
import Mathlib.Tactic.Common

/-!
# Data behind a lock

What a lock is for: a processor enters a section when nobody is in one, reads and writes
the data while it is inside, and leaves. `Guarded.exec` runs a list of such accesses.
A list it accepts is one section after the other, each of a single processor and each
started from what the one before left (`Guarded.exec_serial`).
-/

namespace StupidOS

/-- What a processor does to the data in a section. A load says what was read. -/
inductive Op (A V : Type)
  | load (a : A) (v : V)
  | store (a : A) (v : V)

inductive Access (ι A V : Type)
  | enter (i : ι)
  | op (i : ι) (o : Op A V)
  | leave (i : ι)

/-- The data, and who is in a section. -/
structure Guarded (ι A V : Type) where
  owner : Option ι
  data : A → V

variable {ι A V : Type} [DecidableEq ι] [DecidableEq A] [DecidableEq V]

def Op.apply (d : A → V) : Op A V → Option (A → V)
  | .load a v => if d a = v then some d else none
  | .store a v => some (Function.update d a v)

namespace Guarded

def step (g : Guarded ι A V) : Access ι A V → Option (Guarded ι A V)
  | .enter i => if g.owner = none then some { g with owner := some i } else none
  | .op i o => if g.owner = some i then (o.apply g.data).map ({ g with data := · }) else none
  | .leave i => if g.owner = some i then some { g with owner := none } else none

def exec (g : Guarded ι A V) (xs : List (Access ι A V)) : Option (Guarded ι A V) :=
  xs.foldlM step g

end Guarded

/-! ## One section after the other -/

/-- A section: whose it is, and what it does. -/
structure Section (ι A V : Type) where
  who : ι
  ops : List (Op A V)

namespace Section

variable (s : Section ι A V)

/-- The accesses of a section that has not been left. -/
def opened : List (Access ι A V) := .enter s.who :: s.ops.map (.op s.who)

def closed : List (Access ι A V) := s.opened ++ [.leave s.who]

end Section

/-- Data after operations one after the other; each load read what was there. -/
def applyOps (d : A → V) (ops : List (Op A V)) : Option (A → V) := ops.foldlM Op.apply d

/-- Some sections, and the one that has not been left. -/
def sectionTrace (ss : List (Section ι A V)) (last : Option (Section ι A V)) :
    List (Access ι A V) :=
  ss.flatMap Section.closed ++ last.elim [] Section.opened

def sectionOps (ss : List (Section ι A V)) (last : Option (Section ι A V)) : List (Op A V) :=
  ss.flatMap Section.ops ++ last.elim [] Section.ops

namespace Guarded

/-- A list that `exec` accepts so far is one section after the other. -/
structure Serial (d : A → V) (xs : List (Access ι A V)) (g : Guarded ι A V) : Prop where
  sections : ∃ ss last, xs = sectionTrace ss last ∧ g.owner = last.map Section.who ∧
    applyOps d (sectionOps ss last) = some g.data

theorem step_serial {d : A → V} {xs : List (Access ι A V)} {g g' : Guarded ι A V}
    {x : Access ι A V} (h : Serial d xs g) (hstep : g.step x = some g') :
    Serial d (xs ++ [x]) g' := by
  rcases h.sections with ⟨ss, last, rfl, hown, hops⟩
  refine ⟨?_⟩
  cases x with
  | enter i =>
      rw [step] at hstep
      split at hstep
      · next hnone =>
        rw [hnone] at hown
        rw [← Option.some.inj hstep]
        cases last with
        | some s => cases hown
        | none =>
            refine ⟨ss, some ⟨i, []⟩, ?_, rfl, ?_⟩
            · simp [sectionTrace, Section.opened]
            · exact hops
      · cases hstep
  | op i o =>
      rw [step] at hstep
      split at hstep
      · next hsome =>
        rw [hsome] at hown
        rcases Option.map_eq_some_iff.mp hstep with ⟨d', happly, rfl⟩
        cases last with
        | none => cases hown
        | some s =>
            rcases Option.some.inj hown with rfl
            refine ⟨ss, some ⟨s.who, s.ops ++ [o]⟩, ?_, hsome, ?_⟩
            · simp [sectionTrace, Section.opened]
            · have hall : sectionOps ss (some ⟨s.who, s.ops ++ [o]⟩)
                  = sectionOps ss (some s) ++ [o] := by simp [sectionOps]
              rw [applyOps] at hops
              rw [hall, applyOps, List.foldlM_append, hops]
              simpa using happly
      · cases hstep
  | leave i =>
      rw [step] at hstep
      split at hstep
      · next hsome =>
        rw [hsome] at hown
        rw [← Option.some.inj hstep]
        cases last with
        | none => cases hown
        | some s =>
            rcases Option.some.inj hown with rfl
            refine ⟨ss ++ [s], none, ?_, rfl, ?_⟩
            · simp [sectionTrace, Section.closed]
            · rw [← hops]
              simp [sectionOps]
      · cases hstep

/-- What `exec` accepts from where nobody is in a section. -/
theorem exec_serial {d : A → V} {xs : List (Access ι A V)} {g : Guarded ι A V}
    (h : exec ⟨none, d⟩ xs = some g) : Serial d xs g := by
  have hall : ∀ (ys zs : List (Access ι A V)) (g' : Guarded ι A V), Serial d zs g' →
      exec g' ys = some g → Serial d (zs ++ ys) g := by
    intro ys
    induction ys with
    | nil =>
        intro zs g' hser hexec
        rcases Option.some.inj hexec with rfl
        rwa [List.append_nil]
    | cons y ys ih =>
        intro zs g' hser hexec
        rcases Option.bind_eq_some_iff.mp hexec with ⟨g'', hstep, hrest⟩
        have hnext := ih (zs ++ [y]) g'' (step_serial hser hstep) hrest
        rwa [List.append_assoc] at hnext
  exact hall xs [] ⟨none, d⟩ ⟨[], none, rfl, rfl, rfl⟩ h

end Guarded

end StupidOS
