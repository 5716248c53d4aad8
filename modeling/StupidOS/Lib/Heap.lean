import Mathlib.Logic.Function.Basic
import StupidOS.Lib.Bytes

/-!
# The heap of a C program

Blocks by address, with `malloc` and `free`. Address 0 is `NULL`. An access outside a live block
is a fault (`none`), and so is a `free` of what is not live.
-/

namespace StupidOS

/-- A block of memory. -/
structure Block where
  size : Nat
  mem : Obj

/-- The live blocks. `malloc` takes addresses from `next` on. -/
structure Heap where
  block : Nat → Option Block
  next : Nat
  next_pos : 0 < next
  null : block 0 = none
  fresh : ∀ p, next ≤ p → block p = none

namespace Heap

/-- No blocks. -/
def empty : Heap := ⟨fun _ => none, 1, by decide, rfl, fun _ _ => rfl⟩

/-- A pointer to what is no longer there. -/
def Dangling (h : Heap) (p : Nat) : Prop := p ≠ 0 ∧ h.block p = none

/-- A change of one block below `next`. -/
def update (h : Heap) (p : Nat) (b : Option Block) (hpos : 0 < p) (hlt : p < h.next) : Heap where
  block := Function.update h.block p b
  next := h.next
  next_pos := h.next_pos
  null := by rw [Function.update_of_ne (by omega), h.null]
  fresh := fun q hq => by rw [Function.update_of_ne (by omega), h.fresh q hq]

theorem block_range (h : Heap) {p : Nat} {b : Block} (hb : h.block p = some b) :
    0 < p ∧ p < h.next := by
  constructor
  · refine Nat.pos_of_ne_zero ?_
    rintro rfl
    rw [h.null] at hb
    cases hb
  · refine Nat.lt_of_not_le fun hle => ?_
    rw [h.fresh p hle] at hb
    cases hb

/-- A block more. -/
def add (h : Heap) (b : Block) : Heap where
  block := Function.update h.block h.next (some b)
  next := h.next + 1
  next_pos := Nat.succ_pos _
  null := by rw [Function.update_of_ne (Nat.ne_of_lt h.next_pos), h.null]
  fresh := fun q hq => by rw [Function.update_of_ne (by omega), h.fresh q (by omega)]

variable (alloc : Nat → Nat → Option Obj)

/-- `malloc`: nothing, or a block with the contents that `alloc` gives for the address. -/
def malloc (h : Heap) (size : Nat) : Option (Nat × Heap) :=
  (alloc h.next size).map fun junk => (h.next, h.add ⟨size, junk⟩)

def free (h : Heap) (p : Nat) : Option Heap :=
  if p = 0 then some h
  else
    match hb : h.block p with
    | none => none
    | some _ => some (h.update p none (h.block_range hb).1 (h.block_range hb).2)

/-- Store bytes at an offset in a block. -/
def store (h : Heap) (p off : Nat) (bs : List Byte) : Option Heap :=
  match hb : h.block p with
  | none => none
  | some b =>
    if off + bs.length ≤ b.size then
      some (h.update p (some ⟨b.size, b.mem.store off bs⟩) (h.block_range hb).1
        (h.block_range hb).2)
    else none

/-- The `n` bytes at an offset in a block. -/
def load (h : Heap) (p off n : Nat) : Option (List Byte) :=
  (h.block p).bind fun b => if off + n ≤ b.size then some (b.mem.load off n) else none

/-! ## What the operations do -/

variable {alloc}

theorem malloc_spec (h : Heap) {size : Nat} (halloc : alloc h.next size ≠ none) :
    ∃ p junk h', h.malloc alloc size = some (p, h') ∧ 0 < p ∧ h.block p = none ∧
      h'.block = Function.update h.block p (some ⟨size, junk⟩) := by
  rcases Option.ne_none_iff_exists'.mp halloc with ⟨junk, hjunk⟩
  refine ⟨h.next, junk, h.add ⟨size, junk⟩, ?_, h.next_pos, h.fresh _ (Nat.le_refl _), rfl⟩
  rw [malloc, hjunk]
  rfl

theorem free_null (h : Heap) : h.free 0 = some h := if_pos rfl

theorem free_spec (h : Heap) {p : Nat} {b : Block} (hb : h.block p = some b) :
    ∃ h', h.free p = some h' ∧ h'.block = Function.update h.block p none := by
  have hne := Nat.ne_of_gt (h.block_range hb).1
  rw [free, if_neg hne]
  split
  next hnone =>
    rw [hb] at hnone
    cases hnone
  next => exact ⟨_, rfl, rfl⟩

theorem store_spec (h : Heap) {p : Nat} {b : Block} (hb : h.block p = some b) {off : Nat}
    {bs : List Byte} (hfits : off + bs.length ≤ b.size) :
    ∃ h', h.store p off bs = some h' ∧
      h'.block = Function.update h.block p (some ⟨b.size, b.mem.store off bs⟩) := by
  rw [store]
  split
  next hnone =>
    rw [hb] at hnone
    cases hnone
  next b' hb' =>
    rw [hb, Option.some.injEq] at hb'
    subst hb'
    rw [if_pos hfits]
    exact ⟨_, rfl, rfl⟩

theorem load_spec (h : Heap) {p : Nat} {b : Block} (hb : h.block p = some b) {off n : Nat}
    (hfits : off + n ≤ b.size) : h.load p off n = some (b.mem.load off n) := by
  rw [load, hb, Option.bind_some, if_pos hfits]

end Heap

end StupidOS
