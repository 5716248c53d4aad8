import Mathlib.Data.Nat.Log
import StupidOS.Lib.Bytes
import StupidOS.Lib.Loop

/-!
# The growing buffer of `fas2sym`

`struct buffer` with a 64-bit `size_t`. It is meant to be a byte string to which
`buffer_put` appends: `Holds` relates the two, and is kept by a call as long as `realloc`
gives memory (`bufferPut_spec`). A string of `n` bytes takes `growths n` calls of `realloc`,
however it was put together; one that fails loses the string (`bufferPut_cases`).
-/

namespace StupidOS.Fas2sym

/-! ## The heap -/

/-- An allocated block; outside its bounds lies something else. -/
structure Block where
  size : Nat
  bytes : Obj

/-- What `realloc` finds, call by call: nothing, or a block with these contents. -/
abbrev Heap := Nat → Option Obj

/-- No allocation fails. -/
def Heap.Gives (heap : Heap) : Prop := ∀ k, ∃ junk, heap k = some junk

/-- `realloc`, call number `calls`: the old contents are kept as far as they fit. -/
def realloc (heap : Heap) (calls : Nat) (data : Option Block) (size : Nat) : Option Block :=
  (heap calls).map fun junk =>
    match data with
    | none => ⟨size, junk⟩
    | some block => ⟨size, junk.store 0 (block.bytes.load 0 (min block.size size))⟩

/-! ## `buffer.c` -/

/-- `struct buffer` -/
structure Buffer where
  cap : Nat
  cnt : Nat
  data : Option Block

/-- `{ 0, 0, NULL }` -/
def Buffer.empty : Buffer := ⟨0, 0, none⟩

/-- The buffer, the number of calls of `realloc`, and whether the last one gave memory. -/
structure Grown where
  buff : Buffer
  calls : Nat
  ok : Bool

variable (heap : Heap)

/-- One pass of the growth loop, up to `need` bytes. -/
def growPass (need : Nat) (s : Buffer × Nat) : Option (Pass (Buffer × Nat) Grown) :=
  let (buff, calls) := s
  if buff.cap < need then
    let cap := if buff.cap = 0 then 32 else buff.cap * 2 % 2 ^ 64
    match realloc heap calls buff.data cap with
    | none => some (.done ⟨⟨cap, buff.cnt, none⟩, calls + 1, false⟩)
    | some block => some (.again (⟨cap, buff.cnt, some block⟩, calls + 1))
  else some (.done ⟨buff, calls, true⟩)

/-- `memcpy` of `data` to `buff.data + buff.cnt`; outside the block it has no result. -/
def bufferCopy (buff : Buffer) (data : List Byte) : Option Buffer :=
  match buff.data with
  | none => if data = [] then some buff else none
  | some block =>
    if buff.cnt + data.length ≤ block.size then
      some ⟨buff.cap, buff.cnt + data.length,
        some { block with bytes := block.bytes.store buff.cnt data }⟩
    else none

/-- What `buffer_put` returns, the index it gives, and what it leaves. -/
structure Put where
  ret : Int
  index : Nat
  buff : Buffer
  calls : Nat

/-- `buffer_put` -/
def bufferPut (fuel calls : Nat) (buff : Buffer) (data : List Byte) : Option Put :=
  match iterate (growPass heap ((buff.cnt + data.length) % 2 ^ 64)) fuel (buff, calls) with
  | none => none
  | some g =>
    if g.ok then (bufferCopy g.buff data).map fun b => ⟨0, buff.cnt, b, g.calls⟩
    else some ⟨-1, buff.cnt, g.buff, g.calls⟩

/-- `buffer_cleanup` -/
def bufferCleanup (_ : Buffer) : Buffer := ⟨0, 0, none⟩

/-! ## Capacities -/

/-- The capacity after `g` calls of `realloc`. -/
def capAt : Nat → Nat
  | 0 => 0
  | g + 1 => 32 * 2 ^ g

/-- The calls of `realloc` that it takes to make room for `n` bytes. -/
def growths (n : Nat) : Nat := if n = 0 then 0 else Nat.clog 2 ((n + 31) / 32) + 1

theorem le_capAt_iff {n g : Nat} : n ≤ capAt g ↔ growths n ≤ g := by
  rw [growths]
  split
  next hzero => simp [hzero]
  next hpos =>
    cases g with
    | zero =>
        rw [capAt]
        omega
    | succ g =>
        rw [capAt, Nat.add_le_add_iff_right, Nat.clog_le_iff_le_pow (by decide)]
        generalize 2 ^ g = c
        omega

theorem growths_mono {n k : Nat} (h : n ≤ k) : growths n ≤ growths k :=
  le_capAt_iff.mp (Nat.le_trans h (le_capAt_iff.mpr (Nat.le_refl _)))

/-- Below 2^62 bytes the capacity does not overflow. -/
theorem growths_le {n : Nat} (h : n ≤ 2 ^ 62) : growths n ≤ 58 :=
  le_capAt_iff.mp (Nat.le_trans h (by decide))

/-- A capacity that is too small is doubled. -/
theorem capAt_succ {need g : Nat} (hneed : need ≤ 2 ^ 62) (hlt : capAt g < need) :
    (if capAt g = 0 then 32 else capAt g * 2 % 2 ^ 64) = capAt (g + 1) := by
  cases g with
  | zero => rfl
  | succ g =>
      have hpos : 0 < 2 ^ g := Nat.pow_pos (by decide)
      rw [capAt] at hlt
      rw [capAt, capAt, if_neg (by omega), Nat.pow_succ]
      omega

/-! ## A buffer as a byte string -/

/-- The contents of the buffer are `l`, after `g` calls of `realloc`. -/
structure Room (b : Buffer) (l : List Byte) (g : Nat) : Prop where
  cnt : b.cnt = l.length
  cap : b.cap = capAt g
  le : growths l.length ≤ g
  data : g = 0 ∧ b.data = none ∨
    ∃ block, b.data = some block ∧ block.size = b.cap ∧ block.bytes.load 0 l.length = l

/-- The contents of the buffer are `l`, after as many calls as that takes. -/
def Holds (b : Buffer) (l : List Byte) : Prop := Room b l (growths l.length)

theorem holds_empty : Holds .empty [] := ⟨rfl, rfl, Nat.le_refl 0, Or.inl ⟨rfl, rfl⟩⟩

variable {heap}

theorem Room.fits {b : Buffer} {l : List Byte} {g : Nat} (h : Room b l g) :
    l.length ≤ b.cap := by
  rw [h.cap]
  exact le_capAt_iff.mpr h.le

/-- `realloc` to more keeps the contents, if it finds memory. -/
theorem Room.realloc {b : Buffer} {l : List Byte} {g calls : Nat} {junk : Obj} (h : Room b l g)
    (hcap : b.cap ≤ capAt (g + 1)) (hjunk : heap calls = some junk) :
    ∃ block, realloc heap calls b.data (capAt (g + 1)) = some block ∧
      Room ⟨capAt (g + 1), b.cnt, some block⟩ l (g + 1) := by
  have hfits := h.fits
  have hle := Nat.le_succ_of_le h.le
  unfold Fas2sym.realloc
  rw [hjunk, Option.map_some]
  rcases h.data with ⟨hzero, hnone⟩ | ⟨block, hsome, hsize, hload⟩
  · have hcap0 : b.cap = 0 := by rw [h.cap, hzero, capAt]
    have hnil : l = [] := List.eq_nil_of_length_eq_zero (by omega)
    rw [hnone]
    exact ⟨_, rfl, h.cnt, rfl, hle, Or.inr ⟨_, rfl, rfl, by rw [hnil]; rfl⟩⟩
  · rw [hsome]
    refine ⟨_, rfl, h.cnt, rfl, hle, Or.inr ⟨_, rfl, rfl, ?_⟩⟩
    have hmin : min block.size (capAt (g + 1)) = block.size := Nat.min_eq_left (by omega)
    have hlen : 0 + l.length ≤ (block.bytes.load 0 block.size).length := by
      rw [Obj.length_load]
      omega
    have hkept := Obj.load_store_part junk 0 hlen
    rw [List.drop_zero, Obj.take_load _ _ (by omega), hload] at hkept
    dsimp only
    rw [hmin]
    exact hkept

/-- Between the first call and call `calls`, none fails. -/
def Served (heap : Heap) (first calls : Nat) : Prop :=
  ∀ i, first ≤ i → i < calls → (heap i).isSome

/-- The growth loop after some calls that found memory, `k` calls before its end. -/
def Growing (heap : Heap) (l : List Byte) (first g₀ last k : Nat) (s : Buffer × Nat) : Prop :=
  ∃ g, g₀ ≤ g ∧ Room s.1 l g ∧ g + k = last ∧ s.2 + g₀ = first + g ∧ Served heap first s.2

/-- What the growth loop leaves: room, or no memory after a call that failed. -/
def Outgrown (heap : Heap) (l : List Byte) (first g₀ last : Nat) (r : Grown) : Prop :=
  r.ok = true ∧ Room r.buff l last ∧ r.calls + g₀ = first + last ∧ Served heap first r.calls ∨
  r.ok = false ∧ r.buff.data = none ∧ r.buff.cnt = l.length ∧
    ∃ i, first ≤ i ∧ i + g₀ < first + last ∧ heap i = none

/-- A pass that goes round again has found memory for the next capacity. -/
theorem growPass_again_inv {need : Nat} {s s' : Buffer × Nat}
    (h : growPass heap need s = some (.again s')) :
    s.1.cap < need ∧ ∃ cap block, cap = (if s.1.cap = 0 then 32 else s.1.cap * 2 % 2 ^ 64) ∧
      realloc heap s.2 s.1.data cap = some block ∧
      s' = (⟨cap, s.1.cnt, some block⟩, s.2 + 1) := by
  unfold growPass at h
  dsimp only at h
  split at h
  next hlt =>
    split at h
    · cases h
    next block hblock =>
      exact ⟨hlt, _, block, rfl, hblock, (Pass.again.inj (Option.some.inj h)).symm⟩
  · cases h

/-- A pass that ends the loop has enough capacity, or found no memory. -/
theorem growPass_done_inv {need : Nat} {s : Buffer × Nat} {r : Grown}
    (h : growPass heap need s = some (.done r)) :
    need ≤ s.1.cap ∧ r = ⟨s.1, s.2, true⟩ ∨
      ∃ cap, r = ⟨⟨cap, s.1.cnt, none⟩, s.2 + 1, false⟩ := by
  unfold growPass at h
  dsimp only at h
  split at h
  · split at h
    · exact Or.inr ⟨_, (Pass.done.inj (Option.some.inj h)).symm⟩
    · cases h
  next hge => exact Or.inl ⟨by omega, (Pass.done.inj (Option.some.inj h)).symm⟩

theorem growPass_step {l : List Byte} {need first g₀ last : Nat} (hneed : need ≤ 2 ^ 62)
    (hlast : growths need = last) (k : Nat) (s : Buffer × Nat)
    (hs : Growing heap l first g₀ last k s) :
    (∃ r, growPass heap need s = some (.done r) ∧ Outgrown heap l first g₀ last r) ∨
    (∃ s' k', growPass heap need s = some (.again s') ∧ k' < k ∧
      Growing heap l first g₀ last k' s') := by
  rcases s with ⟨buff, calls⟩
  rcases hs with ⟨g, hg, hroom, hk, hcalls, hserved⟩
  dsimp only at hroom hcalls hserved
  unfold growPass
  dsimp only
  -- the loop doubles the capacity while it is too small
  by_cases hlt : buff.cap < need
  · have hmore : g < last := by
      by_contra hge
      have hle : need ≤ capAt g := le_capAt_iff.mpr (by omega)
      rw [← hroom.cap] at hle
      omega
    have hcap : (if buff.cap = 0 then 32 else buff.cap * 2 % 2 ^ 64) = capAt (g + 1) := by
      rw [hroom.cap] at hlt ⊢
      exact capAt_succ hneed hlt
    have hgrows : buff.cap ≤ capAt (g + 1) := by
      rw [hroom.cap, le_capAt_iff]
      exact Nat.le_succ_of_le (le_capAt_iff.mp (Nat.le_refl _))
    rw [if_pos hlt, hcap]
    cases hheap : heap calls with
    | none =>
        left
        have hfail : realloc heap calls buff.data (capAt (g + 1)) = none := by
          rw [Fas2sym.realloc, hheap]
          rfl
        rw [hfail]
        exact ⟨_, rfl, Or.inr ⟨rfl, rfl, hroom.cnt, calls, by omega, by omega, hheap⟩⟩
    | some junk =>
        right
        rcases hroom.realloc hgrows hheap with ⟨block, hblock, hroom'⟩
        rw [hblock]
        refine ⟨_, k - 1, rfl, by omega, g + 1, by omega, hroom', by omega, ?_, ?_⟩
        · dsimp only
          omega
        · intro i hlo hhi
          dsimp only at hhi
          by_cases hi : i = calls
          · rw [hi, hheap]
            rfl
          · exact hserved i hlo (by omega)
  · left
    rw [if_neg hlt]
    have hend : g = last := by
      have hle : growths need ≤ g := by
        rw [← le_capAt_iff, ← hroom.cap]
        omega
      omega
    refine ⟨_, rfl, Or.inl ⟨rfl, ?_, ?_, hserved⟩⟩
    · rw [← hend]
      exact hroom
    · rw [← hend]
      exact hcalls

/-- The copy appends. -/
theorem Room.copy {b : Buffer} {l data : List Byte}
    (h : Room b l (growths (l ++ data).length)) :
    ∃ b', bufferCopy b data = some b' ∧ Holds b' (l ++ data) := by
  have hroom : l.length + data.length ≤ b.cap := by
    rw [h.cap, le_capAt_iff, ← List.length_append]
  unfold bufferCopy
  rcases h.data with ⟨hzero, hnone⟩ | ⟨block, hsome, hsize, hload⟩
  · have hcap0 : b.cap = 0 := by rw [h.cap, hzero, capAt]
    have hnil : data = [] := List.eq_nil_of_length_eq_zero (by omega)
    subst hnil
    rw [hnone]
    dsimp only
    rw [List.append_nil] at h ⊢
    rw [if_pos rfl]
    exact ⟨b, rfl, h⟩
  · rw [hsome]
    dsimp only
    rw [h.cnt, if_pos (by omega)]
    refine ⟨_, rfl, ?_, h.cap, Nat.le_refl _, Or.inr ⟨_, rfl, hsize, ?_⟩⟩
    · rw [List.length_append]
    · have hbehind := Obj.load_store block.bytes l.length data
      rw [List.length_append, Obj.load_append,
        Obj.load_store_apart block.bytes (Or.inl (by omega)), hload, Int.zero_add, hbehind]

variable (heap) in
/-- **`buffer_put`.** It appends, at the index that it gives, unless one of the calls of `realloc`
fails that the additional bytes take; then the data are lost. -/
theorem bufferPut_cases {b : Buffer} {l : List Byte} (h : Holds b l) (data : List Byte)
    (hlen : l.length + data.length ≤ 2 ^ 62) {fuel : Nat} (hfuel : 58 < fuel) (calls : Nat) :
    ∃ p, bufferPut heap fuel calls b data = some p ∧ p.index = l.length ∧
      (p.ret = 0 ∧ Holds p.buff (l ++ data) ∧
          p.calls + growths l.length = calls + growths (l ++ data).length ∧
          Served heap calls p.calls ∨
        p.ret = -1 ∧ p.buff.data = none ∧ p.buff.cnt = l.length ∧
          ∃ i, calls ≤ i ∧ i + growths l.length < calls + growths (l ++ data).length ∧
            heap i = none) := by
  have hneed : (b.cnt + data.length) % 2 ^ 64 = l.length + data.length := by
    rw [h.cnt]
    omega
  have hlast : growths (l.length + data.length) = growths (l ++ data).length := by
    rw [List.length_append]
  have hmono : growths l.length ≤ growths (l ++ data).length :=
    growths_mono (by rw [List.length_append]; omega)
  have hbound := growths_le hlen
  rw [hlast] at hbound
  -- before the first pass the capacity is the one after the calls so far
  have hstart : Growing heap l calls (growths l.length) (growths (l ++ data).length)
      (growths (l ++ data).length - growths l.length) (b, calls) := by
    refine ⟨growths l.length, Nat.le_refl _, h, by omega, rfl, ?_⟩
    intro i hlo hhi
    dsimp only at hhi
    omega
  rcases iterate_total _ _ (growPass_step hlen hlast) hstart (show _ < fuel by omega) with
    ⟨r, hgrow, hout⟩
  unfold bufferPut
  rw [hneed, hgrow]
  dsimp only
  rcases hout with ⟨hok, hroom, hcalls, hserved⟩ | ⟨hok, hnone, hcnt, hfail⟩
  · rcases hroom.copy with ⟨b', hcopy, hholds⟩
    rw [if_pos hok, hcopy]
    exact ⟨_, rfl, h.cnt, Or.inl ⟨rfl, hholds, hcalls, hserved⟩⟩
  · rw [if_neg (by rw [hok]; decide)]
    exact ⟨_, rfl, h.cnt, Or.inr ⟨rfl, hnone, hcnt, hfail⟩⟩

/-- While `realloc` gives memory, `buffer_put` appends. -/
theorem bufferPut_spec (hheap : heap.Gives) {b : Buffer} {l : List Byte} (h : Holds b l)
    (data : List Byte) (hlen : l.length + data.length ≤ 2 ^ 62) {fuel : Nat} (hfuel : 58 < fuel)
    (calls : Nat) :
    ∃ b' calls', bufferPut heap fuel calls b data = some ⟨0, l.length, b', calls'⟩ ∧
      Holds b' (l ++ data) := by
  rcases bufferPut_cases heap h data hlen hfuel calls with
    ⟨⟨ret, index, b', calls'⟩, hput, hindex, hcases⟩
  dsimp only at hindex hcases
  rcases hcases with ⟨rfl, hholds, -⟩ | ⟨-, -, -, i, -, -, hnone⟩
  · rw [hindex] at hput
    exact ⟨b', calls', hput, hholds⟩
  · rcases hheap i with ⟨junk, hjunk⟩
    rw [hnone] at hjunk
    cases hjunk

/-! ## Calls that return 0 -/

/-- The contents of the buffer are `l`, in a capacity that has not overflowed. -/
def Filled (b : Buffer) (l : List Byte) : Prop := ∃ g, g ≤ 59 ∧ Room b l g

theorem filled_empty : Filled .empty [] :=
  ⟨0, Nat.zero_le _, rfl, rfl, Nat.le_refl 0, Or.inl ⟨rfl, rfl⟩⟩

/-- In the growth loop the capacity is one of those below 2^64, and unless more is needed than
there can be the contents are kept. -/
def Grows (need : Nat) (l : List Byte) (b : Buffer) : Prop :=
  ∃ g, g ≤ 59 ∧ b.cap = capAt g ∧ (Room b l g ∨ 2 ^ 63 < need)

/-- Up to 2^63 bytes the capacity is doubled. -/
theorem capAt_double {g : Nat} (hg : g ≤ 58) :
    (if capAt g = 0 then 32 else capAt g * 2 % 2 ^ 64) = capAt (g + 1) := by
  cases g with
  | zero => rfl
  | succ g =>
      have hpos : 0 < 2 ^ g := Nat.pow_pos (by decide)
      have hpow : 2 ^ g ≤ 2 ^ 57 := Nat.pow_le_pow_right (by decide) (by omega)
      rw [capAt, capAt, if_neg (by omega), Nat.pow_succ]
      omega

theorem growPass_again {need : Nat} {l : List Byte} {s s' : Buffer × Nat}
    (h : Grows need l s.1) (hpass : growPass heap need s = some (.again s')) :
    Grows need l s'.1 := by
  rcases h with ⟨g, hg, hcap, hroom⟩
  rcases growPass_again_inv hpass with ⟨hlt, cap, block, hnext, hblock, rfl⟩
  by_cases hlast : g = 59
  · -- the capacity overflows to 0
    rw [hcap, hlast] at hlt hnext
    exact ⟨0, Nat.zero_le _, hnext.trans (by decide), Or.inr hlt⟩
  · rw [hcap, capAt_double (by omega)] at hnext
    refine ⟨g + 1, by omega, hnext, ?_⟩
    rcases hroom with hroom | hneed
    · left
      cases hjunk : heap s.2 with
      | none =>
          rw [realloc, hjunk] at hblock
          cases hblock
      | some junk =>
          have hgrows : s.1.cap ≤ capAt (g + 1) := by
            rw [hcap, le_capAt_iff]
            exact Nat.le_succ_of_le (le_capAt_iff.mp (Nat.le_refl _))
          rcases hroom.realloc hgrows hjunk with ⟨block', hblock', hroom'⟩
          rw [hnext, hblock', Option.some.injEq] at hblock
          rw [hnext, ← hblock]
          exact hroom'
    · exact Or.inr hneed

theorem growPass_done {need : Nat} {l : List Byte} {s : Buffer × Nat} {r : Grown}
    (h : Grows need l s.1) (hpass : growPass heap need s = some (.done r))
    (hok : r.ok = true) : Filled r.buff l := by
  rcases h with ⟨g, hg, hcap, hroom⟩
  rcases growPass_done_inv hpass with ⟨hge, rfl⟩ | ⟨cap, rfl⟩
  · have hmax : capAt g ≤ 2 ^ 63 := by
      rw [show 2 ^ 63 = capAt 59 by decide, le_capAt_iff]
      exact Nat.le_trans (le_capAt_iff.mp (Nat.le_refl _)) hg
    rcases hroom with hroom | hneed
    · exact ⟨g, hg, hroom⟩
    · omega
  · cases hok

/-- A `buffer_put` that returns 0 has appended, whatever the sizes. -/
theorem bufferPut_filled {b : Buffer} {l data : List Byte} {fuel calls : Nat} {p : Put}
    (h : Filled b l) (hput : bufferPut heap fuel calls b data = some p) (hret : p.ret = 0) :
    Filled p.buff (l ++ data) := by
  rcases h with ⟨g, hg, hroom⟩
  unfold bufferPut at hput
  split at hput
  · cases hput
  next r hgrow =>
    split at hput
    next hok =>
      have hgrown := iterate_sound (fun s => Grows ((b.cnt + data.length) % 2 ^ 64) l s.1)
        (fun r => r.ok = true → Filled r.buff l)
        (fun s s' hs hpass => growPass_again hs hpass)
        (fun s r hs hpass => growPass_done hs hpass) ⟨g, hg, hroom.cap, Or.inl hroom⟩ hgrow hok
      rcases hgrown with ⟨g', hg', hroom'⟩
      rcases Option.map_eq_some_iff.mp hput with ⟨b', hcopy, hp⟩
      rw [← hp]
      unfold bufferCopy at hcopy
      rcases hroom'.data with ⟨-, hnone⟩ | ⟨block, hsome, hsize, hload⟩
      · rw [hnone] at hcopy
        dsimp only at hcopy
        split at hcopy
        next hnil =>
          rw [hnil, List.append_nil, ← Option.some.inj hcopy]
          exact ⟨g', hg', hroom'⟩
        · cases hcopy
      · rw [hsome] at hcopy
        dsimp only at hcopy
        split at hcopy
        next hfits =>
          rw [← Option.some.inj hcopy]
          rw [hroom'.cnt, hsize, hroom'.cap, ← List.length_append, le_capAt_iff] at hfits
          refine ⟨g', hg', ?_, hroom'.cap, hfits, Or.inr ⟨_, rfl, hsize, ?_⟩⟩
          · dsimp only
            rw [hroom'.cnt, List.length_append]
          · have hbehind := Obj.load_store block.bytes l.length data
            rw [List.length_append, Obj.load_append]
            dsimp only
            rw [hroom'.cnt, Obj.load_store_apart block.bytes (Or.inl (by omega)), hload,
              Int.zero_add, hbehind]
        · cases hcopy
    · injection hput with hput
      rw [← hput] at hret
      cases hret

end StupidOS.Fas2sym
