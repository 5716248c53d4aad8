import Mathlib.Tactic.Common

/-!
# Loops with an explicit bound on the number of passes

A loop body maps the loop state to the next one (`Pass.again`), leaves the loop
with a result (`Pass.done`), or faults (`none`). `iterate` runs a body for at
most `fuel` passes; running out of fuel gives `none` as well, so a loop returns
when *some* fuel gives a result.

* `iterate_mono`: more fuel does not change a result;
* `iterate_total`: the total-correctness rule, with a measure; `iterate_count` for a loop that
  counts up;
* `iterate_sound`: the partial-correctness rule, with an invariant;
* `iterate_sim`: a loop that follows another one pass by pass returns when that does;
* `iterate_diverges`: a set of states that the body never leaves has no result;
* `Returns`: what a computation with loops in it comes to, given enough fuel.
-/

namespace StupidOS

/-- What one pass of a loop body does: go round again, or leave with a result. -/
inductive Pass (σ ρ : Type) where
  | again (s : σ)
  | done (r : ρ)
deriving DecidableEq, Repr

/-- Run `body` from `s` for at most `fuel` passes. -/
def iterate {σ ρ : Type} (body : σ → Option (Pass σ ρ)) : Nat → σ → Option ρ
  | 0, _ => none
  | fuel + 1, s =>
    match body s with
    | none => none
    | some (.done r) => some r
    | some (.again s') => iterate body fuel s'

section Rules

variable {σ ρ : Type} {body : σ → Option (Pass σ ρ)}

theorem iterate_done {s : σ} {r : ρ} (h : body s = some (.done r)) (fuel : Nat) :
    iterate body (fuel + 1) s = some r := by
  simp [iterate, h]

theorem iterate_map_done {s : σ} {r : Option ρ} (h : body s = r.map .done) (fuel : Nat) :
    iterate body (fuel + 1) s = r := by
  cases r with
  | none => simp [iterate, h]
  | some r => exact iterate_done h fuel

theorem iterate_again {s s' : σ} (h : body s = some (.again s')) (fuel : Nat) :
    iterate body (fuel + 1) s = iterate body fuel s' := by
  simp [iterate, h]

/-- A result does not depend on how much fuel was left over. -/
theorem iterate_mono {n m : Nat} {s : σ} {r : ρ} (hnm : n ≤ m)
    (h : iterate body n s = some r) : iterate body m s = some r := by
  induction n generalizing m s with
  | zero => simp [iterate] at h
  | succ n ih =>
      obtain ⟨m, rfl⟩ : ∃ k, m = k + 1 := ⟨m - 1, by omega⟩
      cases hb : body s with
      | none => simp [iterate, hb] at h
      | some p =>
          cases p with
          | done r' => simpa [iterate, hb] using h
          | again s' =>
              rw [iterate_again hb] at h ⊢
              exact ih (by omega) h

/-- Two runs of one loop that both return agree. -/
theorem iterate_unique {n m : Nat} {s : σ} {r r' : ρ}
    (h : iterate body n s = some r) (h' : iterate body m s = some r') : r = r' := by
  have h₁ := iterate_mono (Nat.le_max_left n m) h
  have h₂ := iterate_mono (Nat.le_max_right n m) h'
  exact Option.some.inj (h₁.symm.trans h₂)

/-- Total correctness: if every pass from an `Inv k` state either leaves with a
result in `Post` or goes round again with a smaller measure, the loop returns. -/
theorem iterate_total (Inv : Nat → σ → Prop) (Post : ρ → Prop)
    (hstep : ∀ k s, Inv k s →
      (∃ r, body s = some (.done r) ∧ Post r) ∨
      (∃ s' k', body s = some (.again s') ∧ k' < k ∧ Inv k' s'))
    {k : Nat} {s : σ} (hs : Inv k s) {fuel : Nat} (hf : k < fuel) :
    ∃ r, iterate body fuel s = some r ∧ Post r := by
  induction fuel generalizing k s with
  | zero => omega
  | succ fuel ih =>
      rcases hstep k s hs with ⟨r, hb, hr⟩ | ⟨s', k', hb, hk, hs'⟩
      · exact ⟨r, iterate_done hb fuel, hr⟩
      · rw [iterate_again hb]
        exact ih hs' (by omega)

/-- Partial correctness: an invariant of the body holds when the loop returns. -/
theorem iterate_sound (Inv : σ → Prop) (Post : ρ → Prop)
    (hagain : ∀ s s', Inv s → body s = some (.again s') → Inv s')
    (hdone : ∀ s r, Inv s → body s = some (.done r) → Post r)
    {fuel : Nat} {s : σ} {r : ρ} (hs : Inv s) (h : iterate body fuel s = some r) :
    Post r := by
  induction fuel generalizing s with
  | zero => simp [iterate] at h
  | succ fuel ih =>
      cases hb : body s with
      | none => simp [iterate, hb] at h
      | some p =>
          cases p with
          | done r' =>
              have hr : r' = r := by simpa [iterate, hb] using h
              exact hr ▸ hdone s r' hs hb
          | again s' =>
              rw [iterate_again hb] at h
              exact ih (hagain s s' hs hb) h

/-- A loop that counts from `a` up to `b`, its test behind the body: each pass takes the rest
of the state from `P k` to `P (k + 1)`. -/
theorem iterate_count {κ : Type} {body : κ × σ → Option (Pass (κ × σ) (κ × σ))} (c : Nat → κ)
    (P : Nat → σ → Prop) {a b : Nat} (hab : a < b)
    (hpass : ∀ k s, a ≤ k → k < b → P k s → ∃ s', P (k + 1) s' ∧ body (c k, s) =
      some (if k + 1 < b then .again (c (k + 1), s') else .done (c (k + 1), s')))
    {s : σ} (hs : P a s) :
    ∃ s', P b s' ∧ ∀ fuel, b - a ≤ fuel → iterate body fuel (c a, s) = some (c b, s') := by
  obtain ⟨n, rfl⟩ : ∃ n, b = a + n + 1 := ⟨b - a - 1, by omega⟩
  have hrun : ∃ s', P (a + n + 1) s' ∧ iterate body (n + 1) (c a, s) = some (c (a + n + 1), s') := by
    clear hab
    induction n generalizing a s with
    | zero =>
        rcases hpass a s (Nat.le_refl a) (by omega) hs with ⟨s', hs', hbody⟩
        rw [if_neg (by omega)] at hbody
        exact ⟨s', hs', iterate_done hbody 0⟩
    | succ n ih =>
        rcases hpass a s (Nat.le_refl a) (by omega) hs with ⟨s', hs', hbody⟩
        rw [if_pos (by omega)] at hbody
        have heq : a + (n + 1) + 1 = a + 1 + n + 1 := by omega
        rw [heq] at hpass ⊢
        rcases ih hs' (fun k t hk hlt => hpass k t (by omega) hlt) with ⟨s'', hs'', hiter⟩
        exact ⟨s'', hs'', by rw [iterate_again hbody, hiter]⟩
  rcases hrun with ⟨s', hs', hiter⟩
  exact ⟨s', hs', fun fuel hfuel => iterate_mono (by omega) hiter⟩

/-- Divergence: from a set of states that every pass stays in, no fuel suffices. -/
theorem iterate_diverges (Stuck : σ → Prop)
    (hstep : ∀ s, Stuck s → ∃ s', body s = some (.again s') ∧ Stuck s')
    {s : σ} (hs : Stuck s) (fuel : Nat) : iterate body fuel s = none := by
  induction fuel generalizing s with
  | zero => rfl
  | succ fuel ih =>
      obtain ⟨s', hb, hs'⟩ := hstep s hs
      rw [iterate_again hb]
      exact ih hs'

/-- Simulation: a body that follows another one pass by pass returns when that does. -/
theorem iterate_sim {τ υ : Type} {body' : τ → Option (Pass τ υ)} (R : σ → τ → Prop)
    (Q : ρ → υ → Prop)
    (hagain : ∀ s t s', R s t → body s = some (.again s') →
      ∃ t', body' t = some (.again t') ∧ R s' t')
    (hdone : ∀ s t r, R s t → body s = some (.done r) →
      ∃ u, body' t = some (.done u) ∧ Q r u)
    {fuel : Nat} {s : σ} {t : τ} {r : ρ} (hst : R s t) (h : iterate body fuel s = some r) :
    ∃ u, iterate body' fuel t = some u ∧ Q r u := by
  induction fuel generalizing s t with
  | zero => simp [iterate] at h
  | succ fuel ih =>
      cases hb : body s with
      | none => simp [iterate, hb] at h
      | some p =>
          cases p with
          | done r' =>
              have hr : r' = r := by simpa [iterate, hb] using h
              rcases hdone s t r' hst hb with ⟨u, hu, hq⟩
              exact ⟨u, iterate_done hu fuel, hr ▸ hq⟩
          | again s' =>
              rcases hagain s t s' hst hb with ⟨t', ht, hst'⟩
              rw [iterate_again hb] at h
              rw [iterate_again ht]
              exact ih hst' h

end Rules

/-! ## Enough fuel -/

section Returns

variable {σ ρ : Type} {f : Nat → Option σ} {g : σ → Nat → Option ρ} {s : σ} {r : ρ}

/-- With enough fuel the result is `s`. -/
def Returns (f : Nat → Option σ) (s : σ) : Prop := ∃ n, ∀ fuel, n ≤ fuel → f fuel = some s

theorem Returns.of_eq (h : ∀ fuel, f fuel = some s) : Returns f s := ⟨0, fun fuel _ => h fuel⟩

theorem Returns.bind (hf : Returns f s) (hg : Returns (g s) r) :
    Returns (fun fuel => (f fuel).bind fun s => g s fuel) r := by
  rcases hf with ⟨n, hn⟩
  rcases hg with ⟨m, hm⟩
  refine ⟨max n m, fun fuel hfuel => ?_⟩
  dsimp only
  rw [hn fuel (by omega)]
  exact hm fuel (by omega)

/-- A step without a loop. -/
theorem Returns.some_bind {o : Option σ} (ho : o = some s) (hg : Returns (g s) r) :
    Returns (fun fuel => o.bind fun s => g s fuel) r := (Returns.of_eq fun _ => ho).bind hg

theorem returns_iterate {body : σ → Option (Pass σ ρ)} {n : Nat}
    (h : iterate body n s = some r) : Returns (fun fuel => iterate body fuel s) r :=
  ⟨n, fun _ hfuel => iterate_mono hfuel h⟩

end Returns

end StupidOS
