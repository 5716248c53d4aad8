import StupidOS.Lib.Cells

/-!
# The dynamic array of `stupidc.h`

`ARR` keeps a capacity, a count and a block from `realloc`. It is meant to be a list:
`Refines` relates the two. `ARR_GROW` never grows past its base capacity of 8 cells, and
`ARR_LAST` looks one cell behind the last element.
-/

namespace StupidOS.Stupidc

variable {α : Type}

/-! ## The macros -/

/-- `ARR_BASE_CAP` -/
def arrBaseCap : Nat := 8

/-- `ARR(type)` -/
structure Arr (α : Type) where
  cap : Nat
  cnt : Nat
  elems : Cells α

/-- `ARR_INIT` -/
def arrInit : Arr α := ⟨0, 0, []⟩

/-- `ARR_GROW`, where `realloc` does not fail. -/
def arrGrow (arr : Arr α) : Arr α :=
  if arr.cap < arr.cnt + 1 then
    let cap := if arr.cap > arrBaseCap then arr.cap * 2 else arrBaseCap
    { arr with cap, elems := arr.elems.realloc cap }
  else arr

/-- `ARR_APPEND`; a store outside the block has no result. -/
def arrAppend (arr : Arr α) (elem : α) : Option (Arr α) :=
  let arr := arrGrow arr
  (arr.elems.store arr.cnt elem).map (fun elems => { arr with cnt := arr.cnt + 1, elems })

/-- `ARR_RESET` -/
def arrReset (arr : Arr α) : Arr α := { arr with cnt := 0 }

/-- `ARR_FREE` -/
def arrFree (_ : Arr α) : Arr α := ⟨0, 0, []⟩

/-- `ARR_LAST`, the cell that it reads. -/
def arrLast (arr : Arr α) : Option α := arr.elems.read arr.cnt

/-- `ARR_FOREACH` from index `i` on, with `n` cells to go. -/
def arrForeachFrom (arr : Arr α) : Nat → Nat → List (Option α)
  | 0, _ => []
  | n + 1, i => arr.elems.read i :: arrForeachFrom arr n (i + 1)

/-- `ARR_FOREACH`, the cells visited. -/
def arrForeach (arr : Arr α) : List (Option α) := arrForeachFrom arr arr.cnt 0

/-! ## Sequences of operations -/

inductive ArrOp (α : Type) where
  | append (elem : α)
  | reset
  | free
deriving DecidableEq, Repr

def ArrOp.exec (arr : Arr α) : ArrOp α → Option (Arr α)
  | .append elem => arrAppend arr elem
  | .reset => some (arrReset arr)
  | .free => some (arrFree arr)

/-- What the operation does to the list that the array stands for. -/
def ArrOp.apply (l : List α) : ArrOp α → List α
  | .append elem => l ++ [elem]
  | .reset => []
  | .free => []

/-- The elements appended since the last reset or free. -/
def contents (l : List α) (ops : List (ArrOp α)) : List α := ops.foldl ArrOp.apply l

/-- Every operation stores inside the block, and `P` holds of the array and its list at the
start and after every operation. -/
def Throughout (P : Arr α → List α → Prop) : Arr α → List α → List (ArrOp α) → Prop
  | arr, l, [] => P arr l
  | arr, l, op :: ops =>
    P arr l ∧ ∃ arr', op.exec arr = some arr' ∧ Throughout P arr' (op.apply l) ops

/-- The count is within the capacity, and `ARR_FOREACH` visits the list. -/
structure Visits (arr : Arr α) (l : List α) : Prop where
  bound : arr.cnt ≤ arr.cap
  foreach : arrForeach arr = l.map some

/-- `ARR_LAST` reads the last element of the list as well. -/
structure IsList (arr : Arr α) (l : List α) : Prop extends Visits arr l where
  last : ∀ x, l.getLast? = some x → arrLast arr = some x

/-! ## The refinement -/

/-- The array holds the list `l`, in a block of the size that `cap` says. -/
structure Refines (arr : Arr α) (l : List α) : Prop where
  cnt : arr.cnt = l.length
  bound : arr.cnt ≤ arr.cap
  base : arr.cap ≤ arrBaseCap
  length : arr.elems.length = arr.cap
  holds : arr.elems.Holds l

theorem refines_init : Refines (arrInit : Arr α) [] :=
  ⟨rfl, Nat.le_refl _, Nat.zero_le _, rfl, Cells.holds_nil _⟩

theorem arrForeachFrom_eq {arr : Arr α} {l : List α} (h : arr.elems.Holds l) (n i : Nat)
    (hn : i + n = l.length) : arrForeachFrom arr n i = (l.drop i).map some := by
  induction n generalizing i with
  | zero =>
      rw [arrForeachFrom, List.drop_eq_nil_of_le (by omega)]
      rfl
  | succ n ih =>
      have hi : i < l.length := by omega
      rw [arrForeachFrom, ih (i + 1) (by omega), List.drop_eq_getElem_cons hi, List.map_cons,
        h i l[i] (List.getElem?_eq_getElem hi)]

theorem Refines.visits {arr : Arr α} {l : List α} (h : Refines arr l) : Visits arr l := by
  refine ⟨h.bound, ?_⟩
  rw [arrForeach, arrForeachFrom_eq h.holds arr.cnt 0 (by rw [h.cnt, Nat.zero_add]),
    List.drop_zero]

/-- The growth makes room for one element, as long as the base capacity has any. -/
theorem Refines.grow {arr : Arr α} {l : List α} (h : Refines arr l)
    (hlen : l.length < arrBaseCap) :
    Refines (arrGrow arr) l ∧ (arrGrow arr).cnt < (arrGrow arr).cap := by
  have hcnt := h.cnt
  have hbase := h.base
  have hnot : ¬ arr.cap > arrBaseCap := by omega
  by_cases hfull : arr.cap < arr.cnt + 1
  · have hgrow : arrGrow arr
        = { arr with cap := arrBaseCap, elems := arr.elems.realloc arrBaseCap } := by
      rw [arrGrow, if_pos hfull, if_neg hnot]
    rw [hgrow]
    dsimp only
    refine ⟨⟨hcnt, ?_, Nat.le_refl _, ?_, ?_⟩, ?_⟩
    · dsimp only
      omega
    · exact Cells.length_realloc _ _
    · exact h.holds.realloc (by omega)
    · omega
  · have hgrow : arrGrow arr = arr := by rw [arrGrow, if_neg hfull]
    rw [hgrow]
    exact ⟨h, by omega⟩

theorem Refines.append {arr : Arr α} {l : List α} (h : Refines arr l) (elem : α)
    (hlen : l.length < arrBaseCap) :
    ∃ arr', arrAppend arr elem = some arr' ∧ Refines arr' (l ++ [elem]) := by
  rcases h.grow hlen with ⟨hgrow, hroom⟩
  have hcnt := hgrow.cnt
  have hfit : l.length < (arrGrow arr).elems.length := by
    rw [hgrow.length, ← hcnt]
    exact hroom
  refine ⟨{ arrGrow arr with
    cnt := (arrGrow arr).cnt + 1
    elems := (arrGrow arr).elems.set l.length (some elem) }, ?_, ?_⟩
  · rw [arrAppend, hcnt]
    dsimp only
    rw [Cells.store, if_pos hfit]
    rfl
  · refine ⟨?_, hroom, hgrow.base, ?_, hgrow.holds.set elem hfit⟩
    · rw [List.length_append, List.length_singleton, ← hcnt]
    · rw [List.length_set]
      exact hgrow.length

/-- With 8 elements `ARR_GROW` reallocates the 8 cells that are there, and the store goes to
the cell behind them. -/
theorem Refines.append_full {arr : Arr α} {l : List α} (h : Refines arr l) (elem : α)
    (hlen : l.length = arrBaseCap) : arrAppend arr elem = none := by
  have hcnt := h.cnt
  have hbound := h.bound
  have hbase := h.base
  have hgrow : arrGrow arr
      = { arr with cap := arrBaseCap, elems := arr.elems.realloc arrBaseCap } := by
    rw [arrGrow, if_pos (by omega), if_neg (by omega)]
  rw [arrAppend, hgrow]
  dsimp only
  rw [Cells.store, if_neg]
  · rfl
  · rw [Cells.length_realloc]
    omega

theorem Refines.reset {arr : Arr α} {l : List α} (h : Refines arr l) :
    Refines (arrReset arr) [] :=
  ⟨rfl, Nat.zero_le _, h.base, h.length, Cells.holds_nil _⟩

/-! ## The bounds and `ARR_FOREACH` -/

/-- At no point have more than 8 elements been appended since the last reset or free. -/
def WithinBase (l : List α) (ops : List (ArrOp α)) : Prop :=
  ∀ pre, pre <+: ops → (contents l pre).length ≤ arrBaseCap

theorem withinBase_cons (l : List α) (op : ArrOp α) (ops : List (ArrOp α)) :
    WithinBase l (op :: ops) ↔ l.length ≤ arrBaseCap ∧ WithinBase (op.apply l) ops := by
  constructor
  · intro h
    refine ⟨h [] (List.nil_prefix), ?_⟩
    intro pre hpre
    exact h (op :: pre) (List.cons_prefix_cons.mpr ⟨rfl, hpre⟩)
  · intro h pre hpre
    cases pre with
    | nil => exact h.1
    | cons op' pre =>
        rcases List.cons_prefix_cons.mp hpre with ⟨rfl, hrest⟩
        exact h.2 pre hrest

/-- One operation, by the number of elements that there are after it. -/
theorem Refines.exec {arr : Arr α} {l : List α} (h : Refines arr l) (op : ArrOp α) :
    ((op.apply l).length ≤ arrBaseCap →
      ∃ arr', op.exec arr = some arr' ∧ Refines arr' (op.apply l)) ∧
    (arrBaseCap < (op.apply l).length → op.exec arr = none) := by
  have hcnt := h.cnt
  have hbound := h.bound
  have hbase := h.base
  cases op with
  | append elem =>
      rw [ArrOp.apply, List.length_append, List.length_singleton]
      exact ⟨fun hlen => h.append elem (by omega), fun hlen => h.append_full elem (by omega)⟩
  | reset => exact ⟨fun _ => ⟨_, rfl, h.reset⟩, fun hlen => absurd hlen (Nat.not_lt_zero _)⟩
  | free => exact ⟨fun _ => ⟨_, rfl, refines_init⟩, fun hlen => absurd hlen (Nat.not_lt_zero _)⟩

theorem throughout_visits_iff {arr : Arr α} {l : List α} (h : Refines arr l)
    (ops : List (ArrOp α)) : Throughout Visits arr l ops ↔ WithinBase l ops := by
  have hlen : l.length ≤ arrBaseCap := by
    rw [← h.cnt]
    exact Nat.le_trans h.bound h.base
  -- on the operations, each a step of the list as long as there is room
  induction ops generalizing arr l with
  | nil =>
      constructor
      · intro _ pre hpre
        rw [List.prefix_nil.mp hpre]
        exact hlen
      · intro _
        exact h.visits
  | cons op ops ih =>
      rw [withinBase_cons, Throughout]
      rcases h.exec op with ⟨hok, hfull⟩
      constructor
      · intro hrun
        rcases hrun with ⟨-, arr', hstep, hrest⟩
        by_cases hroom : (op.apply l).length ≤ arrBaseCap
        · rcases hok hroom with ⟨arr'', hstep', href⟩
          rw [hstep] at hstep'
          rw [← Option.some.inj hstep'] at href
          exact ⟨hlen, (ih href hroom).mp hrest⟩
        · rw [hfull (by omega)] at hstep
          exact absurd hstep (Option.some_ne_none arr').symm
      · intro hcond
        have hroom : (op.apply l).length ≤ arrBaseCap := hcond.2 [] List.nil_prefix
        rcases hok hroom with ⟨arr', hstep, href⟩
        exact ⟨h.visits, arr', hstep, (ih href hroom).mpr hcond.2⟩

/-! ## `ARR_LAST` -/

/-- An element appended to an array without a block leaves the cell behind it unwritten. -/
theorem arrLast_first (elem : α) :
    ∃ arr', arrAppend (arrInit : Arr α) elem = some arr' ∧ arrLast arr' = none :=
  ⟨_, rfl, rfl⟩

/-- No operation appends. -/
def NoAppend (ops : List (ArrOp α)) : Prop := ∀ elem, ArrOp.append elem ∉ ops

theorem throughout_isList_iff (ops : List (ArrOp α)) :
    Throughout IsList (arrInit : Arr α) [] ops ↔ NoAppend ops := by
  have hinit : IsList (arrInit : Arr α) [] :=
    ⟨refines_init.visits, fun x hx => absurd hx (by simp)⟩
  induction ops with
  | nil => exact ⟨fun _ _ => List.not_mem_nil, fun _ => hinit⟩
  | cons op ops ih =>
      have hcons : (∀ elem, op ≠ .append elem) → (NoAppend (op :: ops) ↔ NoAppend ops) := by
        intro hop
        constructor
        · intro h elem hmem
          exact h elem (List.mem_cons_of_mem op hmem)
        · intro h elem hmem
          rcases List.mem_cons.mp hmem with heq | hmem
          · exact hop elem heq.symm
          · exact h elem hmem
      cases op with
      | append elem =>
          -- the first element appended is not the one that `arr_last` gives
          rcases arrLast_first elem with ⟨arr', hstep, hlast⟩
          constructor
          · intro h
            rcases h with ⟨-, arr'', hstep', hrest⟩
            have heq : arr' = arr'' := Option.some.inj (hstep.symm.trans hstep')
            have hnow : IsList arr'' [elem] := by
              cases ops with
              | nil => exact hrest
              | cons op ops => exact hrest.1
            have hread := hnow.last elem rfl
            rw [← heq, hlast] at hread
            exact absurd hread (Option.some_ne_none elem).symm
          · intro h
            exact absurd List.mem_cons_self (h elem)
      | reset =>
          refine Iff.trans ?_ (ih.trans (hcons (fun elem h => nomatch h)).symm)
          constructor
          · intro h
            rcases h with ⟨-, arr', hstep, hrest⟩
            rw [← Option.some.inj hstep] at hrest
            exact hrest
          · intro h
            exact ⟨hinit, _, rfl, h⟩
      | free =>
          refine Iff.trans ?_ (ih.trans (hcons (fun elem h => nomatch h)).symm)
          constructor
          · intro h
            rcases h with ⟨-, arr', hstep, hrest⟩
            rw [← Option.some.inj hstep] at hrest
            exact hrest
          · intro h
            exact ⟨hinit, _, rfl, h⟩

/-- **Where the array is a list.** With `ARR_LAST`, only as long as nothing is appended; without
it, exactly as long as there are never more than 8 elements. -/
theorem arr_isList_iff (ops : List (ArrOp α)) :
    (Throughout IsList (arrInit : Arr α) [] ops ↔ NoAppend ops) ∧
    (Throughout Visits (arrInit : Arr α) [] ops ↔ WithinBase [] ops) :=
  ⟨throughout_isList_iff ops, throughout_visits_iff refines_init ops⟩

/-- One element, which `ARR_LAST` does not read, and nine, the last of which is stored
outside the block. -/
theorem arr_counterexample :
    ¬ Throughout IsList (arrInit : Arr Nat) [] [.append 7] ∧
    ¬ Throughout Visits (arrInit : Arr Nat) [] (List.replicate 9 (.append 7)) := by
  constructor
  · intro h
    exact (throughout_isList_iff _).mp h 7 List.mem_cons_self
  · intro h
    have hlen := (throughout_visits_iff refines_init _).mp h _ (List.prefix_refl _)
    exact absurd hlen (by decide)

end StupidOS.Stupidc
