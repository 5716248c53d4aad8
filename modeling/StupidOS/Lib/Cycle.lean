import Mathlib.Data.Finset.Card
import Mathlib.Logic.Relation
import StupidOS.Lib.Loop

/-!
# Loops that go from place to place

A loop whose state is at a place, of which there are finitely many, and goes to a next one along
a relation. It returns if no place that it can get to leads back to itself (`iterate_acyclic`); if
one does, there is a way to go on for ever (`exists_path`). What happens on such a way, a few
things at each place, is one sequence (`exists_blocks`).
-/

namespace StupidOS

open Relation

section Places

variable {α : Type} {R : α → α → Prop}

/-- There is a way from here to a place that leads back to itself. -/
def LeadsBack (R : α → α → Prop) (a : α) : Prop := ∃ b, ReflTransGen R a b ∧ TransGen R b b

theorem LeadsBack.step {a : α} (h : LeadsBack R a) : ∃ a', R a a' ∧ LeadsBack R a' := by
  rcases h with ⟨b, hab, hbb⟩
  rcases ReflTransGen.cases_head hab with rfl | ⟨a', hstep, hrest⟩
  · rcases TransGen.head'_iff.mp hbb with ⟨a', hstep, hrest⟩
    exact ⟨a', hstep, a, hrest, hbb⟩
  · exact ⟨a', hstep, b, hrest, hbb⟩

/-- A way that does not end. -/
theorem exists_path {a : α} (h : LeadsBack R a) :
    ∃ p : Nat → α, p 0 = a ∧ ∀ i, R (p i) (p (i + 1)) := by
  choose next hstep hback using fun x : { x : α // LeadsBack R x } => x.2.step
  let walk : Nat → { x : α // LeadsBack R x } :=
    fun i => Nat.rec ⟨a, h⟩ (fun _ x => ⟨next x, hback x⟩) i
  exact ⟨fun i => (walk i).1, rfl, fun i => hstep (walk i)⟩

/-- Nothing leads back where each step goes up. -/
theorem not_leadsBack_of_lt {β : Type} [Preorder β] (P : α → Prop) (rank : α → β)
    (hstep : ∀ a b, P a → R a b → P b ∧ rank a < rank b) {a : α} (ha : P a) :
    ¬ LeadsBack R a := by
  rintro ⟨b, hab, hbb⟩
  have hreach : ∀ c, ReflTransGen R a c → P c := by
    intro c hac
    induction hac with
    | refl => exact ha
    | tail _ hnext ih => exact (hstep _ _ ih hnext).1
  have hup : ∀ c, TransGen R b c → P c ∧ rank b < rank c := by
    intro c hbc
    induction hbc with
    | single hnext => exact hstep _ _ (hreach b hab) hnext
    | tail _ hnext ih =>
        rcases hstep _ _ ih.1 hnext with ⟨hc, hlt⟩
        exact ⟨hc, lt_trans ih.2 hlt⟩
  exact lt_irrefl _ (hup b hbb).2

variable {σ ρ : Type} {body : σ → Option (Pass σ ρ)}

/-- Total correctness: every pass leaves, or goes to the next place from one of finitely many. -/
theorem iterate_acyclic [DecidableEq α] (Inv : σ → Prop) (place : σ → α) (places : Finset α)
    (hstep : ∀ s, Inv s → (∃ r, body s = some (.done r)) ∨
      place s ∈ places ∧ ∃ s', body s = some (.again s') ∧ Inv s' ∧ R (place s) (place s'))
    {s : σ} (hs : Inv s) (hback : ¬ LeadsBack R (place s)) {fuel : Nat}
    (hfuel : places.card < fuel) : ∃ r, iterate body fuel s = some r := by
  -- the places that were left behind all lead here, so this one is not among them
  obtain ⟨r, hr, -⟩ : ∃ r, iterate body fuel s = some r ∧ True := by
    refine iterate_total (fun k t => Inv t ∧ ReflTransGen R (place s) (place t) ∧
      ∃ left : Finset α, left ⊆ places ∧ k + left.card = places.card ∧
        ∀ a ∈ left, TransGen R a (place t)) (fun _ => True) ?_ ?_ hfuel
    · rintro k t ⟨ht, hreach, left, hsub, hcard, hleads⟩
      rcases hstep t ht with ⟨r, hr⟩ | ⟨hplace, t', hpass, ht', hnext⟩
      · exact Or.inl ⟨r, hr, trivial⟩
      · right
        have hnew : place t ∉ left := fun hmem => hback ⟨place t, hreach, hleads _ hmem⟩
        have hsub' : insert (place t) left ⊆ places :=
          Finset.insert_subset_iff.mpr ⟨hplace, hsub⟩
        have hcard' := Finset.card_insert_of_notMem hnew
        have hle := Finset.card_le_card hsub'
        refine ⟨t', k - 1, hpass, by omega, ht', hreach.tail hnext, insert (place t) left, hsub',
          by omega, ?_⟩
        intro a ha
        rcases Finset.mem_insert.mp ha with rfl | ha
        · exact TransGen.single hnext
        · exact (hleads a ha).tail hnext
    · refine ⟨hs, ReflTransGen.refl, ∅, Finset.empty_subset _, by simp, ?_⟩
      intro a ha
      exact absurd ha (Finset.notMem_empty a)
  exact ⟨r, hr⟩

end Places

section Blocks

variable (len : Nat → Nat)

/-- The next place in the blocks. -/
def blockNext (x : Nat × Nat) : Nat × Nat :=
  if x.2 + 1 < len x.1 then (x.1, x.2 + 1) else (x.1 + 1, 0)

theorem blockNext_iterate {i j : Nat} (hj : j < len i) :
    (blockNext len)^[j] (i, 0) = (i, j) := by
  induction j with
  | zero => rfl
  | succ j ih =>
      rw [Function.iterate_succ_apply', ih (Nat.lt_of_succ_lt hj), blockNext, if_pos hj]

theorem blockNext_iterate_len {i : Nat} (hlen : 0 < len i) :
    (blockNext len)^[len i] (i, 0) = (i + 1, 0) := by
  have hlast : ¬ len i - 1 + 1 < len i := by omega
  have hsucc : len i = len i - 1 + 1 := by omega
  have hwalk := blockNext_iterate len (show len i - 1 < len i by omega)
  rw [hsucc, Function.iterate_succ_apply', hwalk, blockNext, if_neg hlast]

/-- Blocks one behind the other; block `i` starts at `c i`. -/
theorem exists_blocks {β : Type} (hlen : ∀ i, 0 < len i) (b : Nat → Nat → β) :
    ∃ (f : Nat → β) (c : Nat → Nat), c 0 = 0 ∧ (∀ i, c (i + 1) = c i + len i) ∧
      (∀ i j, j < len i → f (c i + j) = b i j) ∧ ∀ n, ∃ i j, f n = b i j := by
  let c : Nat → Nat := fun i => Nat.rec 0 (fun i n => n + len i) i
  have hstart : ∀ i, (blockNext len)^[c i] (0, 0) = (i, 0) := by
    intro i
    induction i with
    | zero => rfl
    | succ i ih =>
        have hsucc : c (i + 1) = len i + c i := Nat.add_comm _ _
        rw [hsucc, Function.iterate_add_apply, ih, blockNext_iterate_len len (hlen i)]
  refine ⟨fun n => b ((blockNext len)^[n] (0, 0)).1 ((blockNext len)^[n] (0, 0)).2, c, rfl,
    fun _ => rfl, ?_, fun n => ⟨_, _, rfl⟩⟩
  intro i j hj
  have hwalk : (blockNext len)^[c i + j] (0, 0) = (i, j) := by
    rw [Nat.add_comm, Function.iterate_add_apply, hstart, blockNext_iterate len hj]
  dsimp only
  rw [hwalk]

end Blocks

end StupidOS
