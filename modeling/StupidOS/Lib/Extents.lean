import Mathlib.Tactic.Common
import Mathlib.Algebra.BigOperators.Group.List.Basic
import Mathlib.Algebra.GroupWithZero.Nat

/-!
# Parcelling out a stretch of addresses

An extent is a base and a length. `Parcels good total l` says that the extents of
`l` are good, pairwise apart, and add up to `total`: the state of anything that
hands out pieces of memory. The order of the list does not matter
(`Parcels.perm`), and a piece may be cut in two (`Parcels.split`).
-/

namespace StupidOS

/-- The `len` addresses from `base` on. -/
structure Extent where
  base : Nat
  len : Nat
deriving DecidableEq, Repr

/-- Two extents share no address. -/
def Extent.Apart (r s : Extent) : Prop :=
  r.base + r.len ≤ s.base ∨ s.base + s.len ≤ r.base

theorem Extent.Apart.symm {r s : Extent} (h : r.Apart s) : s.Apart r := Or.symm h

/-- Good extents, pairwise apart, of the given total length. -/
structure Parcels (good : Extent → Prop) (total : Nat) (l : List Extent) : Prop where
  good : ∀ r ∈ l, good r
  apart : l.Pairwise Extent.Apart
  total : (l.map Extent.len).sum = total

namespace Parcels

variable {good : Extent → Prop} {total : Nat} {l l' : List Extent}

theorem perm (h : Parcels good total l) (hp : l.Perm l') : Parcels good total l' := by
  refine ⟨?_, ?_, ?_⟩
  · intro r hr
    exact h.good r (hp.mem_iff.mpr hr)
  · exact (hp.pairwise_iff Extent.Apart.symm).mp h.apart
  · rw [← (hp.map Extent.len).sum_eq, h.total]

/-- Cutting the first extent in two. -/
theorem split {b k n : Nat} (h : Parcels good total (⟨b, k + n⟩ :: l))
    (hk : good ⟨b, k⟩) (hn : good ⟨b + k, n⟩) :
    Parcels good total (⟨b, k⟩ :: ⟨b + k, n⟩ :: l) := by
  rcases List.pairwise_cons.mp h.apart with ⟨hfirst, hrest⟩
  refine ⟨?_, ?_, ?_⟩
  · intro r hr
    rcases List.mem_cons.mp hr with rfl | hr
    · exact hk
    · rcases List.mem_cons.mp hr with rfl | hr
      · exact hn
      · exact h.good r (List.mem_cons_of_mem _ hr)
  -- what is apart from the whole is apart from both parts
  · have hboth : ∀ r ∈ l, Extent.Apart ⟨b, k⟩ r ∧ Extent.Apart ⟨b + k, n⟩ r := by
      intro r hr
      have hapart := hfirst r hr
      unfold Extent.Apart at *
      dsimp only at *
      omega
    refine List.pairwise_cons.mpr ⟨?_, List.pairwise_cons.mpr ⟨?_, hrest⟩⟩
    · intro r hr
      rcases List.mem_cons.mp hr with rfl | hr
      · exact Or.inl (Nat.le_refl (b + k))
      · exact (hboth r hr).1
    · intro r hr
      exact (hboth r hr).2
  · have htotal := h.total
    simp only [List.map_cons, List.sum_cons] at htotal ⊢
    omega

theorem perm_middle_append {α : Type} (a c d : List α) (x : α) :
    (a ++ x :: c ++ d).Perm (x :: (a ++ c ++ d)) := by
  rw [List.append_assoc, List.cons_append, List.append_assoc]
  exact List.perm_middle

/-- Cutting an extent of the first list in two; the second half goes to the other list. -/
theorem split_at {a c d : List Extent} {b k n : Nat}
    (h : Parcels good total (a ++ ⟨b, k + n⟩ :: c ++ d)) (hk : good ⟨b, k⟩)
    (hn : good ⟨b + k, n⟩) : Parcels good total (a ++ ⟨b, k⟩ :: c ++ ⟨b + k, n⟩ :: d) := by
  have hcut := (h.perm (perm_middle_append a c d _)).split hk hn
  refine hcut.perm ?_
  refine List.Perm.symm ((perm_middle_append a c _ _).trans ?_)
  exact List.Perm.cons _ List.perm_middle

/-- Moving an extent of the first list over to the other list. -/
theorem move {a c d : List Extent} {x : Extent} (h : Parcels good total (a ++ x :: c ++ d)) :
    Parcels good total (a ++ c ++ x :: d) :=
  h.perm ((perm_middle_append a c d x).trans List.perm_middle.symm)

/-- One extent more, apart from all the others. -/
theorem cons {r : Extent} (h : Parcels good total l) (hr : good r)
    (hapart : ∀ s ∈ l, r.Apart s) : Parcels good (r.len + total) (r :: l) := by
  refine ⟨?_, List.pairwise_cons.mpr ⟨hapart, h.apart⟩, ?_⟩
  · intro s hs
    rcases List.mem_cons.mp hs with rfl | hs
    · exact hr
    · exact h.good s hs
  · rw [List.map_cons, List.sum_cons, h.total]

/-- Two different places of the list hold extents that are apart. -/
theorem apart_of_append {l₁ l₂ : List Extent} (h : Parcels good total (l₁ ++ l₂)) {r s : Extent}
    (hr : r ∈ l₁) (hs : s ∈ l₂) : r.Apart s :=
  (List.pairwise_append.mp h.apart).2.2 r hr s hs

end Parcels

end StupidOS
