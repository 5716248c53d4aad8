import Mathlib.Tactic.Common
import Mathlib.Data.List.Basic

/-!
# Linked chains

`Chain next nil a l`: following `next` from `a` visits exactly the elements of
`l`, in order, and then arrives at `nil`. A chain is determined by where it
starts (`Chain.unique`), hence it never visits an element twice
(`Chain.nodup`): a chain is acyclic.

`BackLinked prev p l` is the matching fact for back pointers: the first element
of `l` points back at `p`, every other element at the one before it.
-/

namespace StupidOS

variable {α : Type}

/-- Following `next` from `a` visits `l` and then arrives at `nil`. -/
def Chain (next : α → α) (nil : α) : α → List α → Prop
  | a, [] => a = nil
  | a, x :: l => a = x ∧ x ≠ nil ∧ Chain next nil (next x) l

/-- The back pointers of `l`, the first of them pointing at `p`. -/
def BackLinked (prev : α → α) : α → List α → Prop
  | _, [] => True
  | p, x :: l => prev x = p ∧ BackLinked prev x l

namespace Chain

variable {next next' : α → α} {nil : α}

@[simp] theorem nil_iff {a : α} : Chain next nil a [] ↔ a = nil := Iff.rfl

@[simp] theorem cons_iff {a x : α} {l : List α} :
    Chain next nil a (x :: l) ↔ a = x ∧ x ≠ nil ∧ Chain next nil (next x) l := Iff.rfl

theorem ne_nil {a : α} {l : List α} (h : Chain next nil a l) : ∀ x ∈ l, x ≠ nil := by
  induction l generalizing a with
  | nil => simp
  | cons y l ih =>
      intro x hx
      rcases List.mem_cons.mp hx with rfl | hx
      · exact h.2.1
      · exact ih h.2.2 x hx

/-- A chain is determined by its start. -/
theorem unique {a : α} {l l' : List α} (h : Chain next nil a l) (h' : Chain next nil a l') :
    l = l' := by
  induction l generalizing a l' with
  | nil =>
      cases l' with
      | nil => rfl
      | cons y l' => exact absurd (h'.1.symm.trans h) h'.2.1
  | cons x l ih =>
      cases l' with
      | nil => exact absurd (h.1.symm.trans h') h.2.1
      | cons y l' =>
          have hxy : x = y := h.1.symm.trans h'.1
          subst hxy
          rw [ih h.2.2 h'.2.2]

/-- The rest of a chain is the chain that starts where it starts. -/
theorem suffix {a x : α} {l₁ l₂ : List α} (h : Chain next nil a (l₁ ++ x :: l₂)) :
    Chain next nil x (x :: l₂) := by
  induction l₁ generalizing a with
  | nil => exact ⟨rfl, h.2.1, h.2.2⟩
  | cons y l₁ ih => exact ih h.2.2

/-- A chain visits no element twice. -/
theorem nodup {a : α} {l : List α} (h : Chain next nil a l) : l.Nodup := by
  induction l generalizing a with
  | nil => exact List.nodup_nil
  | cons x l ih =>
      refine List.nodup_cons.mpr ⟨?_, ih h.2.2⟩
      intro hx
      -- a second visit to `x` would start the same chain with fewer elements left
      obtain ⟨l₁, l₂, rfl⟩ := List.append_of_mem hx
      have h₁ : Chain next nil x (x :: (l₁ ++ x :: l₂)) := ⟨rfl, h.2.1, h.2.2⟩
      have hlen := congrArg List.length (h₁.unique h.2.2.suffix)
      simp at hlen
      omega

/-- A chain only depends on the links of the elements it visits. -/
theorem congr {a : α} {l : List α} (h : Chain next nil a l) (heq : ∀ x ∈ l, next' x = next x) :
    Chain next' nil a l := by
  induction l generalizing a with
  | nil => exact h
  | cons x l ih =>
      refine ⟨h.1, h.2.1, ?_⟩
      rw [heq x (List.mem_cons_self ..)]
      exact ih h.2.2 (fun y hy => heq y (List.mem_cons_of_mem _ hy))

/-- Redirecting one element past its successor takes the successor out. -/
theorem bypass {a p x : α} {l₁ l₂ : List α} (h : Chain next nil a (l₁ ++ p :: x :: l₂))
    (hp : next' p = next x) (heq : ∀ y ∈ l₁ ++ l₂, next' y = next y) :
    Chain next' nil a (l₁ ++ p :: l₂) := by
  induction l₁ generalizing a with
  | nil =>
      refine ⟨h.1, h.2.1, ?_⟩
      rw [hp]
      exact h.2.2.2.2.congr (fun y hy => heq y (by simpa using hy))
  | cons y l₁ ih =>
      refine ⟨h.1, h.2.1, ?_⟩
      rw [heq y (by simp)]
      exact ih h.2.2 (fun z hz => heq z (by
        rw [List.cons_append]
        exact List.mem_cons_of_mem _ hz))

/-- Inside a chain, an element links to the one after it. -/
theorem next_eq {a p x : α} (l₁ : List α) {l₂ : List α} (h : Chain next nil a (l₁ ++ p :: x :: l₂)) :
    next p = x := h.suffix.2.2.1

end Chain

namespace BackLinked

variable {prev prev' : α → α}

@[simp] theorem nil_iff {p : α} : BackLinked prev p [] ↔ True := Iff.rfl

@[simp] theorem cons_iff {p x : α} {l : List α} :
    BackLinked prev p (x :: l) ↔ prev x = p ∧ BackLinked prev x l := Iff.rfl

/-- Back pointers only depend on the elements of the list. -/
theorem congr {p : α} {l : List α} (h : BackLinked prev p l) (heq : ∀ x ∈ l, prev' x = prev x) :
    BackLinked prev' p l := by
  induction l generalizing p with
  | nil => trivial
  | cons x l ih =>
      refine ⟨(heq x (List.mem_cons_self ..)).trans h.1, ?_⟩
      exact ih h.2 (fun y hy => heq y (List.mem_cons_of_mem _ hy))

theorem append_iff {p x : α} {l₁ l₂ : List α} :
    BackLinked prev p (l₁ ++ x :: l₂) ↔
      BackLinked prev p l₁ ∧ prev x = (l₁.getLast?).getD p ∧ BackLinked prev x l₂ := by
  induction l₁ generalizing p with
  | nil => simp
  | cons y l₁ ih =>
      rw [List.cons_append, cons_iff, cons_iff, ih, List.getLast?_cons]
      simp [and_assoc]

/-- Pointing the element behind `x` back past it takes `x` out. -/
theorem bypass {a p x : α} {l₁ l₂ : List α} (h : BackLinked prev a (l₁ ++ p :: x :: l₂))
    (hfront : ∀ y ∈ l₁ ++ [p], prev' y = prev y)
    (hnext : ∀ z l₃, l₂ = z :: l₃ → prev' z = p ∧ ∀ y ∈ l₃, prev' y = prev y) :
    BackLinked prev' a (l₁ ++ p :: l₂) := by
  rw [append_iff] at h ⊢
  rcases h with ⟨h₁, hp, -, h₂⟩
  refine ⟨h₁.congr (fun y hy => hfront y (List.mem_append_left _ hy)), ?_, ?_⟩
  · rw [hfront p (List.mem_append_right _ (List.mem_singleton.mpr rfl))]
    exact hp
  · cases l₂ with
    | nil => trivial
    | cons z l₃ =>
        rcases hnext z l₃ rfl with ⟨hz, hrest⟩
        exact ⟨hz, h₂.2.congr hrest⟩

end BackLinked

end StupidOS
