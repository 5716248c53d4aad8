import Mathlib.Tactic.Common

/-!
# Runs of a labelled transition relation

A run from a state is the list of the operations taken, each with the state it
led to. `Run` says that the list is a run, `RunMeets` that each step starts from
a state in which a condition on the state and the operation holds.

* `Run.invariant`: an inductive invariant holds in every state of a run;
* `Run.invariant_of_meets`: the same, when only the steps that meet a condition
  preserve the invariant;
* `Run.meets_of_all`: if a state after a step that breaks the condition is
  always bad, a run with no bad state meets the condition throughout.
-/

namespace StupidOS

/-- `r` is a run of `step` from `s`. -/
def Run {σ α : Type} (step : σ → α → σ → Prop) : σ → List (α × σ) → Prop
  | _, [] => True
  | s, (a, s') :: r => step s a s' ∧ Run step s' r

/-- Every step of the run starts from a state that meets `cond` for its operation. -/
def RunMeets {σ α : Type} (cond : σ → α → Prop) : σ → List (α × σ) → Prop
  | _, [] => True
  | s, (a, s') :: r => cond s a ∧ RunMeets cond s' r

/-- The state a run ends in. -/
def runEnd {σ α : Type} : σ → List (α × σ) → σ
  | s, [] => s
  | _, (_, s') :: r => runEnd s' r

theorem runEnd_append {σ α : Type} (s : σ) (r r' : List (α × σ)) :
    runEnd s (r ++ r') = runEnd (runEnd s r) r' := by
  induction r generalizing s with
  | nil => rfl
  | cons p r ih => exact ih p.2

namespace Run

variable {σ α : Type} {step : σ → α → σ → Prop}

/-- A run with given operations, a step at a time. -/
theorem exists_cons {s s' : σ} {a : α} {as : List α} (h : step s a s')
    (hrest : ∃ r, Run step s' r ∧ r.map Prod.fst = as) :
    ∃ r, Run step s r ∧ r.map Prod.fst = a :: as := by
  rcases hrest with ⟨r, hrun, hfst⟩
  exact ⟨(a, s') :: r, ⟨h, hrun⟩, by rw [List.map_cons, hfst]⟩

/-- A run, and one from where it ends. -/
theorem append {s : σ} {r r' : List (α × σ)} (h : Run step s r)
    (h' : Run step (runEnd s r) r') : Run step s (r ++ r') := by
  induction r generalizing s with
  | nil => exact h'
  | cons p r ih => exact ⟨h.1, ih h.2 h'⟩

/-- Invariant induction over a run. -/
theorem invariant (Inv : σ → Prop) (hstep : ∀ s a s', Inv s → step s a s' → Inv s')
    {s : σ} {r : List (α × σ)} (hs : Inv s) (hr : Run step s r) : ∀ p ∈ r, Inv p.2 := by
  induction r generalizing s with
  | nil => simp
  | cons p r ih =>
      obtain ⟨a, s'⟩ := p
      have hs' : Inv s' := hstep s a s' hs hr.1
      intro q hq
      rcases List.mem_cons.mp hq with rfl | hq
      · exact hs'
      · exact ih hs' hr.2 q hq

/-- Invariant induction over a run whose steps all meet a condition. -/
theorem invariant_of_meets (Inv : σ → Prop) {cond : σ → α → Prop}
    (hstep : ∀ s a s', Inv s → cond s a → step s a s' → Inv s')
    {s : σ} {r : List (α × σ)} (hs : Inv s) (hr : Run step s r) (hc : RunMeets cond s r) :
    ∀ p ∈ r, Inv p.2 := by
  induction r generalizing s with
  | nil => simp
  | cons p r ih =>
      obtain ⟨a, s'⟩ := p
      have hs' : Inv s' := hstep s a s' hs hc.1 hr.1
      intro q hq
      rcases List.mem_cons.mp hq with rfl | hq
      · exact hs'
      · exact ih hs' hr.2 hc.2 q hq

/-- A run none of whose states is bad meets `cond` at every step, provided a
step that breaks `cond` always leads to a bad state. -/
theorem meets_of_all (Inv Good : σ → Prop) {cond : σ → α → Prop}
    (hstep : ∀ s a s', Inv s → cond s a → step s a s' → Inv s')
    (hbad : ∀ s a s', Inv s → ¬ cond s a → step s a s' → ¬ Good s')
    {s : σ} {r : List (α × σ)} (hs : Inv s) (hr : Run step s r) (hg : ∀ p ∈ r, Good p.2) :
    RunMeets cond s r := by
  induction r generalizing s with
  | nil => trivial
  | cons p r ih =>
      obtain ⟨a, s'⟩ := p
      have hgood : Good s' := hg (a, s') (List.mem_cons_self ..)
      have hc : cond s a := by
        by_contra hne
        exact hbad s a s' hs hne hr.1 hgood
      exact ⟨hc, ih (hstep s a s' hs hc hr.1) hr.2
        (fun q hq => hg q (List.mem_cons_of_mem _ hq))⟩

end Run

end StupidOS
