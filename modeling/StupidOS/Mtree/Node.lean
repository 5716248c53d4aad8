import Mathlib.Data.List.Induction
import Mathlib.Data.List.Nodup
import Mathlib.Logic.Function.Basic
import StupidOS.Lib.Chain

/-!
# The nodes of `mtree` (`sbin/mtree/mtree.h`)

`NODE_CHILD_ADD` puts a node in front of the children of another. `list.prev` is to hold the
address of the pointer that points at the node. The macro gets that right for the node that was
first before, and stores a wrong one in the node that it adds: the node itself. What lies there is
`tree.parent`, the first field.
-/

namespace StupidOS.Mtree

variable {N : Type}

/-! ## Nodes -/

/-- Where a `struct node *` is stored: a field of a node. -/
inductive Place (N : Type) where
  | parent (n : N)
  | child (n : N)
  | next (n : N)
deriving DecidableEq, Repr

/-- The fields of all nodes. A node pointer is a value of `N`. -/
structure Nodes (N : Type) where
  parent : N → N
  child : N → N
  next : N → N
  prev : N → Place N

/-- What is stored there. -/
def Nodes.deref (m : Nodes N) : Place N → N
  | .parent n => m.parent n
  | .child n => m.child n
  | .next n => m.next n

/-- A `struct node *` where a `struct node **` is wanted: it points at the first field. -/
def asPlace (n : N) : Place N := .parent n

variable [DecidableEq N] (null : N)

/-- `NODE_CHILD_ADD` -/
def nodeChildAdd (p c : N) (m : Nodes N) : Nodes N :=
  let m := { m with parent := Function.update m.parent c p }
  let m := { m with next := Function.update m.next c (m.child p) }
  let m := if m.next c = null then m else
    { m with prev := Function.update m.prev (m.child p) (.next c) }
  let m := { m with child := Function.update m.child p c }
  { m with prev := Function.update m.prev c (asPlace (m.child p)) }

/-- One `NODE_CHILD_ADD` after the other. -/
def addAll (m : Nodes N) (adds : List (N × N)) : Nodes N :=
  adds.foldl (fun m a => nodeChildAdd null a.1 a.2 m) m

/-- The nodes added to `p`, most recent first. -/
def children (adds : List (N × N)) (p : N) : List N :=
  ((adds.filter fun a => a.1 = p).map Prod.snd).reverse

/-- Each node added is not NULL, not its own parent, and not added before. It may have children. -/
structure Fresh (adds : List (N × N)) : Prop where
  nonnull : ∀ a ∈ adds, a.2 ≠ null
  own : ∀ a ∈ adds, a.2 ≠ a.1
  before : adds.Pairwise fun a b => b.2 ≠ a.2

/-- `*(c->list.prev) = c` -/
def PointsBack (m : Nodes N) (c : N) : Prop := m.deref (m.prev c) = c

instance (m : Nodes N) (c : N) : Decidable (PointsBack m c) := inferInstanceAs (Decidable (_ = _))

/-! ## One addition -/

section Add

variable {null} {m : Nodes N} {p c : N}

theorem nodeChildAdd_parent : (nodeChildAdd null p c m).parent = Function.update m.parent c p := by
  unfold nodeChildAdd
  dsimp only
  split <;> rfl

theorem nodeChildAdd_next :
    (nodeChildAdd null p c m).next = Function.update m.next c (m.child p) := by
  unfold nodeChildAdd
  dsimp only
  split <;> rfl

theorem nodeChildAdd_child : (nodeChildAdd null p c m).child = Function.update m.child p c := by
  unfold nodeChildAdd
  dsimp only
  split <;> rfl

/-- The new node points at itself. -/
theorem nodeChildAdd_prev_self : (nodeChildAdd null p c m).prev c = .parent c := by
  unfold nodeChildAdd
  dsimp only
  rw [Function.update_self, Function.update_self]
  rfl

/-- The one that was first points at the new one. -/
theorem nodeChildAdd_prev_first (hfirst : m.child p ≠ null) (hne : m.child p ≠ c) :
    (nodeChildAdd null p c m).prev (m.child p) = .next c := by
  unfold nodeChildAdd
  dsimp only
  rw [Function.update_of_ne hne]
  split
  next h => exact absurd ((Function.update_self ..).symm.trans h) hfirst
  next => exact Function.update_self ..

theorem nodeChildAdd_prev_other {x : N} (hc : x ≠ c) (hfirst : x ≠ m.child p) :
    (nodeChildAdd null p c m).prev x = m.prev x := by
  unfold nodeChildAdd
  dsimp only
  rw [Function.update_of_ne hc]
  split
  · rfl
  · exact Function.update_of_ne hfirst ..

end Add

/-! ## Any number of additions -/

/-- Each node but the first is pointed back to the `list.next` of the one before it. -/
def NextLinked (prev : N → Place N) : N → List N → Prop
  | _, [] => True
  | a, b :: l => prev b = .next a ∧ NextLinked prev b l

omit [DecidableEq N] in
theorem NextLinked.congr {prev prev' : N → Place N} {a : N} {l : List N}
    (h : NextLinked prev a l) (heq : ∀ x ∈ l, prev' x = prev x) : NextLinked prev' a l := by
  induction l generalizing a with
  | nil => trivial
  | cons b l ih =>
      refine ⟨(heq b List.mem_cons_self).trans h.1, ih h.2 fun x hx => ?_⟩
      exact heq x (List.mem_cons_of_mem b hx)

/-- The children `l` of `p`. The first points at itself. -/
structure Family (m : Nodes N) (p : N) (l : List N) : Prop where
  chain : Chain m.next null (m.child p) l
  parent : ∀ c ∈ l, m.parent c = p
  first : ∀ c l', l = c :: l' → m.prev c = .parent c ∧ NextLinked m.prev c l'

section Families

variable {null} {m : Nodes N} {p c : N}

/-- A new first child. -/
theorem Family.add {l : List N} (h : Family null m p l) (hc : c ≠ null) (hnew : c ∉ l) :
    Family null (nodeChildAdd null p c m) p (c :: l) := by
  refine ⟨?_, ?_, ?_⟩
  · refine ⟨?_, hc, ?_⟩
    · rw [nodeChildAdd_child]
      exact Function.update_self ..
    · rw [nodeChildAdd_next, Function.update_self]
      refine h.chain.congr fun x hx => Function.update_of_ne ?_ ..
      rintro rfl
      exact hnew hx
  · intro x hx
    rw [nodeChildAdd_parent]
    rcases List.mem_cons.mp hx with rfl | hold
    · exact Function.update_self ..
    · have hne : x ≠ c := by
        rintro rfl
        exact hnew hold
      rw [Function.update_of_ne hne]
      exact h.parent x hold
  · intro c' l' heq
    rcases List.cons_eq_cons.mp heq with ⟨rfl, rfl⟩
    refine ⟨nodeChildAdd_prev_self, ?_⟩
    cases l with
    | nil => trivial
    | cons b l =>
        rcases h.chain with ⟨hb, hnull, hrest⟩
        have hne : m.child p ≠ c := by
          rw [hb]
          rintro rfl
          exact hnew List.mem_cons_self
        have hfirst := nodeChildAdd_prev_first (hb.trans_ne hnull) hne
        rw [hb] at hfirst
        refine ⟨hfirst, (h.first b l rfl).2.congr fun x hx => ?_⟩
        refine nodeChildAdd_prev_other ?_ ?_
        · rintro rfl
          exact hnew (List.mem_cons_of_mem b hx)
        · rw [hb]
          rintro rfl
          exact (List.nodup_cons.mp h.chain.nodup).1 hx

/-- The other families stay as they are. -/
theorem Family.other {q : N} {l l' : List N} (h : Family null m q l) (hp : Family null m p l')
    (hne : q ≠ p) (hnew : c ∉ l) (hdisjoint : ∀ x ∈ l', x ∉ l) :
    Family null (nodeChildAdd null p c m) q l := by
  have hchild : (nodeChildAdd null p c m).child q = m.child q := by
    rw [nodeChildAdd_child]
    exact Function.update_of_ne hne ..
  have hnode : ∀ x ∈ l, x ≠ c := by
    rintro x hx rfl
    exact hnew hx
  have hprev : ∀ x ∈ l, (nodeChildAdd null p c m).prev x = m.prev x := by
    intro x hx
    refine nodeChildAdd_prev_other (hnode x hx) ?_
    intro hfirst
    cases l' with
    | nil => exact h.chain.ne_nil x hx (hfirst.trans hp.chain)
    | cons b l' =>
        refine hdisjoint b List.mem_cons_self ?_
        rw [← hp.chain.1, ← hfirst]
        exact hx
  refine ⟨?_, ?_, ?_⟩
  · rw [hchild, nodeChildAdd_next]
    exact h.chain.congr fun x hx => Function.update_of_ne (hnode x hx) ..
  · intro x hx
    rw [nodeChildAdd_parent, Function.update_of_ne (hnode x hx)]
    exact h.parent x hx
  · rintro c' l'' rfl
    rcases h.first c' l'' rfl with ⟨hfirst, hlinked⟩
    refine ⟨(hprev c' List.mem_cons_self).trans hfirst, hlinked.congr fun x hx => ?_⟩
    exact hprev x (List.mem_cons_of_mem c' hx)

omit [DecidableEq N] in
/-- Every node behind the first one is pointed back to what points at it. -/
theorem pointsBack_rest {a : N} {l : List N} (hchain : Chain m.next null a (a :: l))
    (hlinked : NextLinked m.prev a l) : ∀ x ∈ l, PointsBack m x := by
  induction l generalizing a with
  | nil => simp
  | cons b l ih =>
      rcases hchain with ⟨-, -, hb, hrest⟩
      intro x hx
      rcases List.mem_cons.mp hx with rfl | hx
      · rw [PointsBack, hlinked.1]
        exact hb
      · exact ih ⟨rfl, hrest⟩ hlinked.2 x hx

omit [DecidableEq N] in
/-- The first one is pointed at its own `tree.parent`. -/
theorem Family.pointsBack_iff {l : List N} (h : Family null m p l) (hp : p ∉ l) {x : N}
    (hx : x ∈ l) : PointsBack m x ↔ l.head? ≠ some x := by
  cases l with
  | nil => cases hx
  | cons a l =>
      rcases h.first a l rfl with ⟨hfirst, hlinked⟩
      have hchain := h.chain
      rw [hchain.1] at hchain
      rw [List.head?_cons, Ne, Option.some_inj]
      constructor
      · rintro hback rfl
        rw [PointsBack, hfirst] at hback
        have hown : m.parent a = a := hback
        rw [h.parent a List.mem_cons_self] at hown
        rw [hown] at hp
        exact hp List.mem_cons_self
      · intro hne
        rcases List.mem_cons.mp hx with rfl | hx
        · exact absurd rfl hne
        · exact pointsBack_rest hchain hlinked x hx

end Families

section Additions

variable {null} {adds : List (N × N)} {a : N × N} {p x : N}

theorem mem_children : x ∈ children adds p ↔ (p, x) ∈ adds := by
  rw [children, List.mem_reverse, List.mem_map]
  constructor
  · rintro ⟨b, hb, rfl⟩
    rcases List.mem_filter.mp hb with ⟨hmem, heq⟩
    rw [← of_decide_eq_true heq]
    exact hmem
  · intro hmem
    exact ⟨(p, x), List.mem_filter.mpr ⟨hmem, decide_eq_true rfl⟩, rfl⟩

theorem children_concat_self : children (adds ++ [a]) a.1 = a.2 :: children adds a.1 := by
  simp [children, List.filter_append]

theorem children_concat_of_ne (h : a.1 ≠ p) : children (adds ++ [a]) p = children adds p := by
  simp [children, List.filter_append, h]

theorem addAll_concat (m : Nodes N) :
    addAll null m (adds ++ [a]) = nodeChildAdd null a.1 a.2 (addAll null m adds) :=
  List.foldl_concat ..

omit [DecidableEq N] in
theorem Fresh.init (h : Fresh null (adds ++ [a])) : Fresh null adds :=
  ⟨fun b hb => h.nonnull b (List.mem_append_left _ hb),
    fun b hb => h.own b (List.mem_append_left _ hb), (List.pairwise_append.mp h.before).1⟩

omit [DecidableEq N] in
theorem Fresh.last (h : Fresh null (adds ++ [a])) {b : N × N} (hb : b ∈ adds) :
    a.2 ≠ b.2 :=
  (List.pairwise_append.mp h.before).2.2 b hb a (List.mem_singleton_self a)

/-- A node is added once. -/
theorem Fresh.disjoint (h : Fresh null adds) {q : N} (hp : x ∈ children adds p)
    (hq : x ∈ children adds q) : p = q := by
  have hnodup : (adds.map Prod.snd).Nodup :=
    List.pairwise_map.mpr (h.before.imp Ne.symm)
  have heq := List.inj_on_of_nodup_map hnodup (mem_children.mp hp) (mem_children.mp hq) rfl
  exact congrArg Prod.fst heq

/-- The families after any additions, by induction on them. -/
theorem addAll_family {m : Nodes N} (hfresh : Fresh null adds) {P : N → Prop}
    (hempty : ∀ p, P p → m.child p = null) (hadds : ∀ a ∈ adds, P a.1) :
    ∀ p, P p → Family null (addAll null m adds) p (children adds p) := by
  induction adds using List.reverseRecOn with
  | nil =>
      intro p hp
      exact ⟨hempty p hp, by simp [children], by simp [children]⟩
  | append_singleton adds a ih =>
      intro p hp
      have hinit := ih hfresh.init fun b hb => hadds b (List.mem_append_left _ hb)
      have hlast : a ∈ adds ++ [a] := List.mem_append_right _ (List.mem_singleton_self a)
      have hnew : ∀ q, a.2 ∉ children adds q := by
        intro q hmem
        exact hfresh.last (mem_children.mp hmem) rfl
      have hparent := hinit a.1 (hadds a hlast)
      rw [addAll_concat]
      by_cases heq : a.1 = p
      · subst heq
        rw [children_concat_self]
        exact hparent.add (hfresh.nonnull a hlast) (hnew a.1)
      · rw [children_concat_of_ne heq]
        refine (hinit p hp).other hparent (Ne.symm heq) (hnew p) ?_
        intro x hx hx'
        exact heq (hfresh.init.disjoint hx hx')

end Additions

/-- What the list of the children of `p` is to be: these, each with its parent and pointed back. -/
def ListsChildren (m : Nodes N) (adds : List (N × N)) (p : N) : Prop :=
  Chain m.next null (m.child p) (children adds p) ∧
    ∀ c ∈ children adds p, m.parent c = p ∧ PointsBack m c

/-- **The children of a node are listed, most recent first, each with its parent.** Of them the
first one is not pointed back, so that all is well only before the first addition. -/
theorem nodeChildAdd_iff {P : N → Prop} {m : Nodes N} (hempty : ∀ p, P p → m.child p = null)
    {adds : List (N × N)} (hadds : ∀ a ∈ adds, P a.1) (hfresh : Fresh null adds) :
    (∀ p, P p →
      Chain (addAll null m adds).next null ((addAll null m adds).child p) (children adds p) ∧
      ∀ c ∈ children adds p, (addAll null m adds).parent c = p ∧
        (PointsBack (addAll null m adds) c ↔ (children adds p).head? ≠ some c)) ∧
    ((∀ p, P p → ListsChildren null (addAll null m adds) adds p) ↔ adds = []) := by
  have hfamily := addAll_family hfresh hempty hadds
  have hback : ∀ p, P p → ∀ c ∈ children adds p,
      (PointsBack (addAll null m adds) c ↔ (children adds p).head? ≠ some c) := by
    intro p hp c hc
    refine (hfamily p hp).pointsBack_iff ?_ hc
    intro hmem
    exact hfresh.own _ (mem_children.mp hmem) rfl
  refine ⟨?_, ?_, ?_⟩
  · intro p hp
    exact ⟨(hfamily p hp).chain, fun c hc => ⟨(hfamily p hp).parent c hc, hback p hp c hc⟩⟩
  · intro h
    rcases List.eq_nil_or_concat adds with hnil | ⟨init, a, hconcat⟩
    · exact hnil
    · -- the node added last is the first of its list
      have hlast : a ∈ adds := by simp [hconcat]
      have hlist : children adds a.1 = a.2 :: children init a.1 := by
        rw [hconcat, List.concat_eq_append, children_concat_self]
      have hmem : a.2 ∈ children adds a.1 := by
        rw [hlist]
        exact List.mem_cons_self
      have hpoints := ((h a.1 (hadds a hlast)).2 a.2 hmem).2
      rw [hback a.1 (hadds a hlast) a.2 hmem, hlist] at hpoints
      exact absurd rfl hpoints
  · rintro rfl
    intro p hp
    exact ⟨(hfamily p hp).chain, by simp [children]⟩

/-- Nodes with no children. -/
def lonely : Nodes Nat := ⟨fun _ => 0, fun _ => 0, fun _ => 0, fun _ => .parent 0⟩

/-- Node 2 has its children before it is a child of node 1. -/
def demoAdds : List (Nat × Nat) := [(2, 3), (2, 4), (1, 2), (1, 5)]

/-- Both have their children in order, but not all are pointed back. -/
theorem nodeChildAdd_iff_demo :
    (∀ p, p = 1 ∨ p = 2 →
      Chain (addAll 0 lonely demoAdds).next 0 ((addAll 0 lonely demoAdds).child p)
        (children demoAdds p) ∧
      ∀ c ∈ children demoAdds p, (addAll 0 lonely demoAdds).parent c = p ∧
        (PointsBack (addAll 0 lonely demoAdds) c ↔ (children demoAdds p).head? ≠ some c)) ∧
    ¬ ∀ p, p = 1 ∨ p = 2 → ListsChildren 0 (addAll 0 lonely demoAdds) demoAdds p := by
  rcases nodeChildAdd_iff 0 (P := fun p => p = 1 ∨ p = 2) (m := lonely) (fun _ _ => rfl)
    (show ∀ a ∈ demoAdds, a.1 = 1 ∨ a.1 = 2 by decide)
    ⟨by decide, by decide, by decide⟩ with ⟨hlists, hall⟩
  refine ⟨hlists, ?_⟩
  intro h
  exact absurd (hall.mp h) (List.cons_ne_nil _ _)

/-- Node 2 is added to node 1, and points back to the field in which 1 is stored. -/
theorem nodeChildAdd_counterexample :
    (addAll 0 lonely [(1, 2)]).child 1 = 2 ∧
      (addAll 0 lonely [(1, 2)]).deref ((addAll 0 lonely [(1, 2)]).prev 2) = 1 ∧
      ¬ ListsChildren 0 (addAll 0 lonely [(1, 2)]) [(1, 2)] 1 := by
  refine ⟨by decide, by decide, ?_⟩
  rintro ⟨-, h⟩
  exact absurd (h 2 (by decide)).2 (by decide)

end StupidOS.Mtree
