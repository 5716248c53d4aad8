import StupidOS.Lib.Word
import StupidOS.Lib.Extents

/-!
# Blocks copied into memory

Bytes are addressed by natural numbers here. A transfer names a block of some
store and the address at which its bytes are put; `loads` is what a list of
transfers leaves in memory. Nothing outside the addresses of the transfers changes
(`loads_frame`), and transfers that are apart all stay readable
(`loads_of_pairwise`).
-/

namespace StupidOS

/-- The bytes at all addresses. -/
abbrev Bytes := Nat → Byte

namespace Bytes

/-- The little-endian 16-bit word at `a`. -/
def half (m : Bytes) (a : Nat) : Half := m (a + 1) ++ m a

/-- The little-endian 32-bit word at `a`. -/
def word (m : Bytes) (a : Nat) : Word := m (a + 3) ++ m (a + 2) ++ m (a + 1) ++ m a

/-- The first `n` bytes of `src` stored at `a`. -/
def blit (m : Bytes) (a n : Nat) (src : Bytes) : Bytes :=
  fun x => if a ≤ x ∧ x < a + n then src (x - a) else m x

theorem blit_apply (m src : Bytes) (a : Nat) {n i : Nat} (h : i < n) :
    m.blit a n src (a + i) = src i := by
  rw [blit, if_pos (by omega), Nat.add_sub_cancel_left]

theorem blit_frame (m src : Bytes) {a n x : Nat} (h : x < a ∨ a + n ≤ x) :
    m.blit a n src x = m x := by
  rw [blit, if_neg (by omega)]

theorem word_congr {m m' : Bytes} {a b : Nat} (h : ∀ i, i < 4 → m (a + i) = m' (b + i)) :
    m.word a = m'.word b := by
  have h0 := h 0 (by omega)
  have h1 := h 1 (by omega)
  have h2 := h 2 (by omega)
  have h3 := h 3 (by omega)
  simp only [Nat.add_zero] at h0
  rw [word, word, h0, h1, h2, h3]

end Bytes

/-- Block `block` of a store goes to the addresses from `addr` on. -/
structure Transfer where
  block : Nat
  addr : Nat
deriving DecidableEq, Repr

/-- The addresses that a transfer of a block of `size` bytes writes. -/
def Transfer.extent (t : Transfer) (size : Nat) : Extent := ⟨t.addr, size⟩

/-- The memory after the transfers `ts` from a store with blocks of `size` bytes. -/
def loads (store : Nat → Bytes) (size : Nat) (ts : List Transfer) (m : Bytes) : Bytes :=
  ts.foldl (fun m t => m.blit t.addr size (store t.block)) m

section Loads

variable (store : Nat → Bytes) (size : Nat)

@[simp] theorem loads_nil (m : Bytes) : loads store size [] m = m := rfl

@[simp] theorem loads_cons (t : Transfer) (ts : List Transfer) (m : Bytes) :
    loads store size (t :: ts) m
      = loads store size ts (m.blit t.addr size (store t.block)) := rfl

theorem loads_append (ts us : List Transfer) (m : Bytes) :
    loads store size (ts ++ us) m = loads store size us (loads store size ts m) := by
  rw [loads, List.foldl_append]
  rfl

variable {store size}

/-- Bytes outside all transfers keep their value. -/
theorem loads_frame {ts : List Transfer} {x : Nat} (m : Bytes)
    (h : ∀ t ∈ ts, x < t.addr ∨ t.addr + size ≤ x) : loads store size ts m x = m x := by
  induction ts generalizing m with
  | nil => rfl
  | cons t ts ih =>
      rw [loads_cons, ih _ (fun u hu => h u (List.mem_cons_of_mem t hu))]
      exact Bytes.blit_frame m _ (h t List.mem_cons_self)

/-- Transfers that are apart leave each block where it was put. -/
theorem loads_of_pairwise (store : Nat → Bytes) {ts : List Transfer} (m : Bytes)
    (hp : ts.Pairwise (fun t u => (t.extent size).Apart (u.extent size)))
    {t : Transfer} (ht : t ∈ ts) {i : Nat} (hi : i < size) :
    loads store size ts m (t.addr + i) = store t.block i := by
  induction ts generalizing m with
  | nil => cases ht
  | cons u us ih =>
      rcases List.pairwise_cons.mp hp with ⟨hu, hus⟩
      rw [loads_cons]
      cases ht with
      | head =>
          rw [loads_frame _ ?_, Bytes.blit_apply _ _ _ hi]
          intro w hw
          have hap := hu w hw
          simp only [Extent.Apart, Transfer.extent] at hap
          omega
      | tail _ ht => exact ih _ hus ht

end Loads

end StupidOS
