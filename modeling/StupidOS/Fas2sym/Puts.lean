import StupidOS.Fas2sym.Elf

/-!
# Sequences of `buffer_put` (`buffer.c`)

The growing buffer is used by its indexes: `elf_add_str` keeps the index of a string, and expects
the string there when all of them have been put. `bufferPuts_spec` says so for every sequence of
calls on a buffer that was empty.
-/

namespace StupidOS.Fas2sym

/-- A sequence of calls of `buffer_put`, and what each of them leaves. -/
def bufferPuts (heap : Heap) (fuel : Nat) : Nat → Buffer → List (List Byte) → Option (List Put)
  | _, _, [] => some []
  | calls, buff, data :: datas => do
    let p ← bufferPut heap fuel calls buff data
    let ps ← bufferPuts heap fuel p.calls p.buff datas
    some (p :: ps)

/-- The buffer is the byte string `l`, inside what is allocated. -/
structure Stored (b : Buffer) (l : List Byte) : Prop where
  cnt : b.cnt = l.length
  cap : b.cnt ≤ b.cap
  null : b.data = none → l = []
  inside : ∀ block, b.data = some block → b.cnt ≤ block.size
  bytes : tabBytes b = l

variable {heap : Heap}

theorem Holds.stored {b : Buffer} {l : List Byte} (h : Holds b l) : Stored b l where
  cnt := h.cnt
  cap := by
    rw [h.cnt]
    exact h.fits
  null := by
    intro hnull
    rcases h.data with ⟨hzero, -⟩ | ⟨block, hsome, -⟩
    · have hcap : b.cap = 0 := by rw [h.cap, hzero, capAt]
      exact List.eq_nil_of_length_eq_zero (by have := h.fits; omega)
    · rw [hnull] at hsome
      cases hsome
  inside := by
    intro block hblock
    rcases h.data with ⟨-, hnone⟩ | ⟨block', hsome, hsize, -⟩
    · rw [hnone] at hblock
      cases hblock
    · rw [hblock, Option.some.injEq] at hsome
      rw [hsome, hsize, h.cnt]
      exact h.fits
  bytes := h.tabBytes

/-- While `realloc` gives memory, every call of a sequence appends. -/
theorem bufferPuts_holds (hheap : heap.Gives) {fuel : Nat} (hfuel : 58 < fuel)
    (datas : List (List Byte)) {b : Buffer} {l : List Byte} (h : Holds b l)
    (hsize : l.length + datas.flatten.length ≤ 2 ^ 62) (calls : Nat) :
    ∃ ps, bufferPuts heap fuel calls b datas = some ps ∧ ps.length = datas.length ∧
      ∀ k p, ps[k]? = some p → p.ret = 0 ∧ p.index = (l ++ (datas.take k).flatten).length ∧
        Holds p.buff (l ++ (datas.take (k + 1)).flatten) := by
  induction datas generalizing b l calls with
  | nil => exact ⟨[], rfl, rfl, fun k p hp => by cases hp⟩
  | cons data datas ih =>
      rw [List.flatten_cons, List.length_append] at hsize
      rcases bufferPut_spec hheap h data (by omega) hfuel calls with ⟨b', calls', hput, hholds⟩
      have hrest := ih hholds (by rw [List.length_append]; omega) calls'
      rcases hrest with ⟨ps, hputs, hlen, hspec⟩
      refine ⟨⟨0, l.length, b', calls'⟩ :: ps, ?_, by rw [List.length_cons, hlen]; rfl, ?_⟩
      · rw [bufferPuts, hput]
        change (bufferPuts heap fuel calls' b' datas).bind _ = _
        rw [hputs]
        rfl
      · intro k p hp
        cases k with
        | zero =>
            rw [List.getElem?_cons_zero, Option.some.injEq] at hp
            rw [← hp, List.take_zero, List.flatten_nil, List.append_nil, List.take_succ_cons,
              List.take_zero, List.flatten_singleton]
            exact ⟨rfl, rfl, hholds⟩
        | succ k =>
            rw [List.getElem?_cons_succ] at hp
            rw [List.take_succ_cons, List.take_succ_cons, List.flatten_cons, List.flatten_cons,
              ← List.append_assoc, ← List.append_assoc]
            exact hspec k p hp

/-- What was put is found at its index in everything that is put later. -/
theorem prefix_drop_flatten {datas : List (List Byte)} {data : List Byte} {i k : Nat} (hik : i ≤ k)
    (hdata : datas[i]? = some data) :
    data <+: ((datas.take (k + 1)).flatten).drop (datas.take i).flatten.length := by
  induction datas generalizing i k with
  | nil => cases hdata
  | cons first datas ih =>
      rw [List.take_succ_cons, List.flatten_cons]
      cases i with
      | zero =>
          rw [List.getElem?_cons_zero, Option.some.injEq] at hdata
          rw [List.take_zero, List.flatten_nil, List.length_nil, List.drop_zero, hdata]
          exact List.prefix_append _ _
      | succ i =>
          obtain ⟨k, rfl⟩ : ∃ j, k = j + 1 := ⟨k - 1, by omega⟩
          rw [List.getElem?_cons_succ] at hdata
          rw [List.take_succ_cons, List.flatten_cons, List.length_append, ← List.drop_drop,
            List.drop_left]
          exact ih (by omega) hdata

/-- **The growing buffer.** Every sequence of calls of up to 2^62 bytes ends, if `realloc` does
not fail. After each of them the buffer is all that was put so far, inside what is allocated, and
the index of each call so far, which is the size of what was put before, leads to its data. -/
theorem bufferPuts_spec (heap : Heap) (hheap : heap.Gives) (fuel : Nat) (hfuel : 58 < fuel)
    (datas : List (List Byte)) (hsize : datas.flatten.length ≤ 2 ^ 62) :
    ∃ ps, bufferPuts heap fuel 0 .empty datas = some ps ∧ ps.length = datas.length ∧
      ∀ k p, ps[k]? = some p →
        p.ret = 0 ∧ p.index = (datas.take k).flatten.length ∧
        Stored p.buff (datas.take (k + 1)).flatten ∧
        ∀ i q data, i ≤ k → ps[i]? = some q → datas[i]? = some data →
          data <+: (tabBytes p.buff).drop q.index := by
  rcases bufferPuts_holds hheap hfuel datas holds_empty (by rw [List.length_nil]; omega) 0 with
    ⟨ps, hputs, hlen, hspec⟩
  refine ⟨ps, hputs, hlen, ?_⟩
  intro k p hp
  rcases hspec k p hp with ⟨hret, hindex, hholds⟩
  rw [List.nil_append] at hindex hholds
  refine ⟨hret, hindex, hholds.stored, ?_⟩
  intro i q data hik hq hdata
  rcases hspec i q hq with ⟨-, hindex', -⟩
  rw [List.nil_append] at hindex'
  rw [hindex', hholds.stored.bytes]
  exact prefix_drop_flatten hik hdata

theorem bufferPuts_spec_demo :
    ∃ ps, bufferPuts demoEnv.heap 59 0 .empty [[1, 2], [], List.replicate 40 7] = some ps ∧
      (ps[2]?).map Put.index = some 2 := by
  rcases bufferPuts_spec demoEnv.heap (fun _ => ⟨_, rfl⟩) 59 (by decide)
    [[1, 2], [], List.replicate 40 7] (by decide) with ⟨ps, hputs, hlen, hspec⟩
  have hlast : ps[2]? = some (ps.get ⟨2, by rw [hlen]; decide⟩) :=
    List.getElem?_eq_getElem (by rw [hlen]; decide)
  refine ⟨ps, hputs, ?_⟩
  rw [hlast, Option.map_some, (hspec 2 _ hlast).2.1]
  rfl

end StupidOS.Fas2sym
