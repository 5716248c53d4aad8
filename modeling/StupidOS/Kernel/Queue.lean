import StupidOS.Lib.Loop
import StupidOS.Lib.Memory
import StupidOS.Lib.Run
import StupidOS.Lib.Chain

/-!
# Doubly linked lists (`kernel/queue.inc`)

A `ListHead` is one word, the address of the first entry. A `ListEntry` is two
words: `.next`, the address of the next entry (0 at the end), and `.prev`, meant
to be the address of the word that points at this entry.

`list_insert_head` stores the entry's own address in `.prev` of the entry it
inserts. For every entry but the first that is repaired by the next insertion;
for the first one it makes `list_remove` write into the entry it removes and
leave the head alone. The sections below say exactly what survives:

* the walk from the head is the abstract list after every step iff no step
  removes the entry that is first at that time (`listVisits_iff`);
* the back-pointer law holds for every entry but the first (`ListInv.back`), and
  fails for the first (`listRefines_iff`).
-/

namespace StupidOS.Kernel

/-! ## The routines -/

/-- `list_insert_head`. `eax` is the head, `edx` the entry. -/
def listInsertHead (m : Mem) (eax edx : Word) : Mem :=
  let ecx := m.read32 eax
  let m := m.write32 edx ecx
  let m := if ecx = 0 then m else m.write32 (ecx + 4) edx
  let m := m.write32 eax edx
  m.write32 (edx + 4) edx

/-- `list_remove`. `eax` is the entry. -/
def listRemove (m : Mem) (eax : Word) : Mem :=
  let ecx := m.read32 (eax + 4)
  let edx := m.read32 eax
  let m := if edx = 0 then m else m.write32 (edx + 4) ecx
  m.write32 ecx edx

/-- One pass of `list_map`: memory, `edi`, and the entries called so far. -/
def listMapBody (call : Mem → Word → Mem) :
    Mem × Word × List Word → Option (Pass (Mem × Word × List Word) (Mem × List Word))
  | (m, edi, calls) =>
    if edi = 0 then
      some (.done (m, calls))
    else
      let m := call m edi
      some (.again (m, m.read32 edi, calls ++ [edi]))

/-- `list_map`. `eax` is the head, `call` the function whose address is in EDX;
the result carries the arguments it was called with. -/
def listMap (call : Mem → Word → Mem) (fuel : Nat) (m : Mem) (eax : Word) :
    Option (Mem × List Word) :=
  iterate (listMapBody call) fuel (m, m.read32 eax, [])

/-- `ListEntry.prev` of the entry at `e`. -/
def listPrev (m : Mem) (e : Word) : Word := m.read32 (e + 4)

/-! ## Frames -/

/-- A word apart from the head, the new entry and the back pointer of the old
first entry is not touched by an insertion. -/
theorem listInsertHead_frame (m : Mem) {eax edx a : Word} (hhead : Sep a 4 eax 4)
    (hnext : Sep a 4 edx 4) (hprev : Sep a 4 (edx + 4) 4)
    (hfirst : m.read32 eax ≠ 0 → Sep a 4 (m.read32 eax + 4) 4) :
    (listInsertHead m eax edx).read32 a = m.read32 a := by
  unfold listInsertHead
  dsimp only
  rw [Mem.read32_write32_of_sep _ _ hprev, Mem.read32_write32_of_sep _ _ hhead]
  split
  · exact Mem.read32_write32_of_sep _ _ hnext
  · rename_i hne
    rw [Mem.read32_write32_of_sep _ _ (hfirst hne), Mem.read32_write32_of_sep _ _ hnext]

/-- The three words an insertion sets for good. -/
theorem listInsertHead_sets (m : Mem) {eax edx : Word} (hsep : Sep edx 8 eax 4)
    (hfirst : m.read32 eax ≠ 0 → Sep edx 4 (m.read32 eax + 4) 4) :
    (listInsertHead m eax edx).read32 eax = edx ∧
    (listInsertHead m eax edx).read32 edx = m.read32 eax ∧
    listPrev (listInsertHead m eax edx) edx = edx := by
  have hself : Sep edx 4 (edx + 4) 4 := by unfold Sep at *; constructor <;> bv_omega
  have hhead : Sep edx 4 eax 4 := by unfold Sep at *; constructor <;> bv_omega
  have hhead' : Sep eax 4 (edx + 4) 4 := by unfold Sep at *; constructor <;> bv_omega
  unfold listPrev listInsertHead
  dsimp only
  refine ⟨?_, ?_, ?_⟩
  · rw [Mem.read32_write32_of_sep _ _ hhead', Mem.read32_write32]
  · rw [Mem.read32_write32_of_sep _ _ hself, Mem.read32_write32_of_sep _ _ hhead]
    split
    · rw [Mem.read32_write32]
    · rename_i hne
      rw [Mem.read32_write32_of_sep _ _ (hfirst hne), Mem.read32_write32]
  · rw [Mem.read32_write32]

/-- An insertion makes the old first entry point back at the new one. -/
theorem listInsertHead_first (m : Mem) {eax : Word} (edx : Word) (hne : m.read32 eax ≠ 0)
    (hhead : Sep (m.read32 eax + 4) 4 eax 4) (hprev : Sep (m.read32 eax + 4) 4 (edx + 4) 4) :
    listPrev (listInsertHead m eax edx) (m.read32 eax) = edx := by
  unfold listPrev listInsertHead
  dsimp only
  rw [if_neg hne, Mem.read32_write32_of_sep _ _ hprev, Mem.read32_write32_of_sep _ _ hhead,
    Mem.read32_write32]

/-- A word apart from the two that a removal writes is not touched. -/
theorem listRemove_frame (m : Mem) {eax a : Word} (hlink : Sep a 4 (listPrev m eax) 4)
    (hnext : m.read32 eax ≠ 0 → Sep a 4 (m.read32 eax + 4) 4) :
    (listRemove m eax).read32 a = m.read32 a := by
  unfold listPrev at hlink
  unfold listRemove
  dsimp only
  rw [Mem.read32_write32_of_sep _ _ hlink]
  split
  · rfl
  · rename_i hne
    exact Mem.read32_write32_of_sep _ _ (hnext hne)

/-- The word that `.prev` designates ends up pointing past the entry. -/
theorem listRemove_link (m : Mem) (eax : Word) :
    (listRemove m eax).read32 (listPrev m eax) = m.read32 eax := by
  unfold listPrev listRemove
  dsimp only
  rw [Mem.read32_write32]

/-- A removal moves the back pointer over to the next entry. -/
theorem listRemove_next (m : Mem) (eax : Word) (hne : m.read32 eax ≠ 0)
    (hlink : Sep (m.read32 eax + 4) 4 (listPrev m eax) 4) :
    listPrev (listRemove m eax) (m.read32 eax) = listPrev m eax := by
  unfold listPrev at *
  unfold listRemove
  dsimp only
  rw [if_neg hne, Mem.read32_write32_of_sep _ _ hlink, Mem.read32_write32]

/-- An entry whose `.prev` is the entry itself cannot be removed: if the next
entry already points back at it, `list_remove` rewrites what is there. -/
theorem listRemove_self (m : Mem) {eax : Word} (hself : listPrev m eax = eax)
    (hnext : m.read32 eax ≠ 0 → listPrev m (m.read32 eax) = eax) : listRemove m eax = m := by
  unfold listPrev at *
  unfold listRemove
  dsimp only
  rw [hself]
  split
  · rw [Mem.write32_read32_self]
  · rename_i hne
    have hw := Mem.write32_read32_self m (m.read32 eax + 4)
    rw [hnext hne] at hw
    rw [hw, Mem.write32_read32_self]

/-! ## One list in a heap -/

/-- A head and the addresses that may be linked in as entries: no entry is at
address 0, and no two of these objects share a byte. -/
structure ListHeap where
  head : Word
  isEntry : Word → Prop
  ne_zero : ∀ e, isEntry e → e ≠ 0
  sep_head : ∀ e, isEntry e → Sep e 8 head 4
  sep_entry : ∀ e e', isEntry e → isEntry e' → e ≠ e' → Sep e 8 e' 8

/-- Memory, and the entries inserted and not yet removed, newest first. -/
structure ListState where
  mem : Mem
  elems : List Word

inductive ListOp where
  | insert (e : Word)
  | remove (e : Word)
deriving DecidableEq, Repr

/-- The operations a caller may perform, with what the routines do to memory. -/
def listStep (h : ListHeap) (s : ListState) (op : ListOp) (s' : ListState) : Prop :=
  match op with
  | .insert e =>
      h.isEntry e ∧ e ∉ s.elems ∧ s' = ⟨listInsertHead s.mem h.head e, e :: s.elems⟩
  | .remove e =>
      e ∈ s.elems ∧ s' = ⟨listRemove s.mem e, s.elems.erase e⟩

/-- The walk from the head visits exactly the abstract list and ends at 0. -/
def ListVisits (h : ListHeap) (s : ListState) : Prop :=
  Chain s.mem.read32 0 (s.mem.read32 h.head) s.elems

/-- `.prev` of an entry holds the address of a word that points at the entry. -/
def ListBack (s : ListState) : Prop :=
  ∀ e ∈ s.elems, s.mem.read32 (listPrev s.mem e) = e

/-- `list_map` calls a function that leaves the links alone once per entry, in
list order, and returns. -/
def ListMaps (h : ListHeap) (s : ListState) : Prop :=
  ∀ call : Mem → Word → Mem,
    (∀ m e x, x ∈ s.elems → (call m e).read32 x = m.read32 x) →
    ∃ fuel m', listMap call fuel s.mem h.head = some (m', s.elems)

/-- The list refines the abstract list. -/
def ListRefines (h : ListHeap) (s : ListState) : Prop :=
  ListVisits h s ∧ ListBack s ∧ ListMaps h s

/-- The step does not remove the entry that is first at that time. -/
def KeepsFirst (s : ListState) (op : ListOp) : Prop :=
  ∀ e, op = .remove e → s.elems.head? ≠ some e

/-- What holds as long as no first entry is removed: the walk is right, and every
entry but the first points back at the entry before it. The first one points at
itself. -/
structure ListInv (h : ListHeap) (s : ListState) : Prop where
  entries : ∀ e ∈ s.elems, h.isEntry e
  visits : ListVisits h s
  back : ∀ x l, s.elems = x :: l → BackLinked (listPrev s.mem) x (x :: l)

/-- The invariant only depends on the head and on the entries of the list. -/
theorem ListInv.congr_mem {h : ListHeap} {m m' : Mem} {l : List Word}
    (hinv : ListInv h ⟨m, l⟩) (hhead : m'.read32 h.head = m.read32 h.head)
    (hnext : ∀ e ∈ l, m'.read32 e = m.read32 e)
    (hprev : ∀ e ∈ l, listPrev m' e = listPrev m e) : ListInv h ⟨m', l⟩ := by
  refine ⟨hinv.entries, ?_, ?_⟩
  · change Chain m'.read32 0 (m'.read32 h.head) l
    rw [hhead]
    exact Chain.congr hinv.visits hnext
  · intro x l' hl
    exact (hinv.back x l' hl).congr (fun e he => hprev e (by
      have hl' : l = x :: l' := hl
      rw [hl']
      exact he))

namespace ListHeap

variable (h : ListHeap)

theorem sep_next {e e' : Word} (he : h.isEntry e) (he' : h.isEntry e') (hne : e ≠ e') :
    Sep e 4 e' 4 := by
  have hsep := h.sep_entry e e' he he' hne
  unfold Sep at *
  constructor <;> bv_omega

theorem sep_next_prev {e e' : Word} (he : h.isEntry e) (he' : h.isEntry e') (hne : e ≠ e') :
    Sep e 4 (e' + 4) 4 := by
  have hsep := h.sep_entry e e' he he' hne
  unfold Sep at *
  constructor <;> bv_omega

theorem sep_prev {e e' : Word} (he : h.isEntry e) (he' : h.isEntry e') (hne : e ≠ e') :
    Sep (e + 4) 4 (e' + 4) 4 := by
  have hsep := h.sep_entry e e' he he' hne
  unfold Sep at *
  constructor <;> bv_omega

theorem sep_next_own (e : Word) : Sep e 4 (e + 4) 4 := by
  unfold Sep
  constructor <;> bv_omega

theorem sep_next_head {e : Word} (he : h.isEntry e) : Sep e 4 h.head 4 := by
  have hsep := h.sep_head e he
  unfold Sep at *
  constructor <;> bv_omega

theorem sep_prev_head {e : Word} (he : h.isEntry e) : Sep (e + 4) 4 h.head 4 := by
  have hsep := h.sep_head e he
  unfold Sep at *
  constructor <;> bv_omega

end ListHeap

/-! ## What one step preserves -/

/-- The first entry of the walk, when there is one. -/
theorem ListInv.first_entry {h : ListHeap} {s : ListState} (hinv : ListInv h s)
    (hne : s.mem.read32 h.head ≠ 0) :
    ∃ l, s.elems = s.mem.read32 h.head :: l ∧ h.isEntry (s.mem.read32 h.head) := by
  have hv := hinv.visits
  unfold ListVisits at hv
  cases hel : s.elems with
  | nil =>
      rw [hel] at hv
      exact absurd hv hne
  | cons x l =>
      rw [hel] at hv
      refine ⟨l, by rw [hv.1], ?_⟩
      rw [hv.1]
      exact hinv.entries x (by rw [hel]; exact List.mem_cons_self ..)

theorem listInv_insert {h : ListHeap} {s : ListState} {e : Word} (hinv : ListInv h s)
    (he : h.isEntry e) (hnew : e ∉ s.elems) :
    ListInv h ⟨listInsertHead s.mem h.head e, e :: s.elems⟩ := by
  have hne_e : ∀ x ∈ s.elems, x ≠ e := fun x hx heq => hnew (heq ▸ hx)
  have hfirst : s.mem.read32 h.head ≠ 0 → h.isEntry (s.mem.read32 h.head) ∧
      s.mem.read32 h.head ≠ e := by
    intro hne
    obtain ⟨l, hel, hf⟩ := hinv.first_entry hne
    exact ⟨hf, hne_e _ (by rw [hel]; exact List.mem_cons_self ..)⟩
  obtain ⟨hhead, hnext, hprev⟩ := listInsertHead_sets s.mem (h.sep_head e he)
    (fun hne => h.sep_next_prev he (hfirst hne).1 (hfirst hne).2.symm)
  -- links of the entries already on the list are left alone
  have hlinks : ∀ x ∈ s.elems,
      (listInsertHead s.mem h.head e).read32 x = s.mem.read32 x := by
    intro x hx
    have hx' := hinv.entries x hx
    refine listInsertHead_frame s.mem (h.sep_next_head hx') (h.sep_next hx' he (hne_e x hx))
      (h.sep_next_prev hx' he (hne_e x hx)) (fun hne => ?_)
    by_cases hxf : x = s.mem.read32 h.head
    · rw [← hxf]
      exact ListHeap.sep_next_own x
    · exact h.sep_next_prev hx' (hfirst hne).1 hxf
  refine ⟨?_, ?_, ?_⟩
  · intro x hx
    rcases List.mem_cons.mp hx with rfl | hx
    · exact he
    · exact hinv.entries x hx
  · change Chain _ 0 (Mem.read32 _ h.head) (e :: s.elems)
    rw [hhead]
    refine ⟨rfl, h.ne_zero e he, ?_⟩
    rw [hnext]
    exact hinv.visits.congr hlinks
  · intro x l hel
    obtain ⟨rfl, rfl⟩ := List.cons.inj hel
    refine ⟨hprev, ?_⟩
    cases hold : s.elems with
    | nil => trivial
    | cons y l =>
        have hv := hinv.visits
        unfold ListVisits at hv
        rw [hold] at hv
        have hmem : ∀ z ∈ y :: l, z ∈ s.elems := fun z hz => hold ▸ hz
        have hy : h.isEntry y := hinv.entries y (hmem y (List.mem_cons_self ..))
        have hye : y ≠ e := hne_e y (hmem y (List.mem_cons_self ..))
        have hyne : s.mem.read32 h.head ≠ 0 := by rw [hv.1]; exact hv.2.1
        refine ⟨?_, ?_⟩
        · have := listInsertHead_first s.mem e hyne
            (by rw [hv.1]; exact h.sep_prev_head hy) (by rw [hv.1]; exact h.sep_prev hy he hye)
          rwa [hv.1] at this
        · -- behind the old first entry no back pointer changes
          refine (hinv.back y l hold).2.congr (fun z hz => ?_)
          have hz' := hinv.entries z (hmem z (List.mem_cons_of_mem _ hz))
          have hze := hne_e z (hmem z (List.mem_cons_of_mem _ hz))
          have hzy : z ≠ y := by
            intro heq
            exact (List.nodup_cons.mp hv.nodup).1 (heq ▸ hz)
          refine listInsertHead_frame s.mem (h.sep_prev_head hz')
            (h.sep_next_prev he hz' (Ne.symm hze)).symm (h.sep_prev hz' he hze) (fun _ => ?_)
          rw [hv.1]
          exact h.sep_prev hz' hy hzy

/-- An entry that is not first has an entry before it. -/
theorem ListState.split_inner {s : ListState} {e : Word} (hmem : e ∈ s.elems)
    (hfirst : s.elems.head? ≠ some e) : ∃ l₁ p l₂, s.elems = l₁ ++ p :: e :: l₂ := by
  obtain ⟨l, l₂, hl⟩ := List.append_of_mem hmem
  rcases List.eq_nil_or_concat' l with rfl | ⟨l₁, p, rfl⟩
  · rw [hl] at hfirst
    exact absurd rfl hfirst
  · exact ⟨l₁, p, l₂, by rw [hl, List.append_assoc]; rfl⟩

section Inner

variable {h : ListHeap} {s : ListState} {l₁ l₂ : List Word} {p e : Word}

/-- The walk, split at the entry `e` and the entry `p` before it. -/
theorem ListInv.inner_visits (hinv : ListInv h s) (hsplit : s.elems = l₁ ++ p :: e :: l₂) :
    Chain s.mem.read32 0 (s.mem.read32 h.head) (l₁ ++ p :: e :: l₂) := by
  rw [← hsplit]
  exact hinv.visits

theorem ListInv.inner_nodup (hinv : ListInv h s) (hsplit : s.elems = l₁ ++ p :: e :: l₂) :
    (l₁ ++ p :: l₂).Nodup := by
  have hnodup := (hinv.inner_visits hsplit).nodup
  rw [List.append_cons] at hnodup ⊢
  exact hnodup.sublist ((List.sublist_cons_self e l₂).append_left _)

theorem ListInv.inner_erase (hinv : ListInv h s) (hsplit : s.elems = l₁ ++ p :: e :: l₂) :
    s.elems.erase e = l₁ ++ p :: l₂ := by
  have hnodup := (hinv.inner_visits hsplit).nodup
  rw [List.append_cons] at hnodup
  have hnot : e ∉ l₁ ++ [p] := by
    intro hin
    exact List.disjoint_of_nodup_append hnodup hin (List.mem_cons_self ..)
  rw [hsplit, List.append_cons, List.erase_append_right _ hnot, List.erase_cons_head,
    ← List.append_cons]

/-- The entries but for `e` are entries of the list still. -/
theorem ListInv.inner_entry (hinv : ListInv h s) (hsplit : s.elems = l₁ ++ p :: e :: l₂) :
    ∀ y ∈ l₁ ++ p :: l₂, h.isEntry y := by
  intro y hy
  refine hinv.entries y ?_
  rw [hsplit, List.append_cons]
  rw [List.append_cons] at hy
  exact ((List.sublist_cons_self e l₂).append_left _).subset hy

theorem ListInv.inner_back (hinv : ListInv h s) (hsplit : s.elems = l₁ ++ p :: e :: l₂) :
    listPrev s.mem e = p ∧
      BackLinked (listPrev s.mem) (s.mem.read32 h.head) (l₁ ++ p :: e :: l₂) := by
  have hback : BackLinked (listPrev s.mem) (s.mem.read32 h.head) s.elems := by
    cases hel : s.elems with
    | nil => trivial
    | cons x l =>
        have hvisits := hinv.visits
        unfold ListVisits at hvisits
        rw [hel] at hvisits
        rw [hvisits.1]
        exact hinv.back x l hel
  rw [hsplit] at hback
  refine ⟨?_, hback⟩
  rw [List.append_cons, BackLinked.append_iff] at hback
  simpa using hback.2.1

/-- Behind `e` the walk goes on, unless `e` is last. -/
theorem ListInv.inner_next (hinv : ListInv h s) (hsplit : s.elems = l₁ ++ p :: e :: l₂)
    (hne : s.mem.read32 e ≠ 0) :
    ∃ l₃, l₂ = s.mem.read32 e :: l₃ ∧ h.isEntry (s.mem.read32 e) := by
  have hnext := (hinv.inner_visits hsplit).suffix.2.2.2.2
  have hent := hinv.inner_entry hsplit
  cases l₂ with
  | nil => exact absurd hnext hne
  | cons y l₃ =>
      rw [hnext.1]
      exact ⟨l₃, rfl, hent y (by simp)⟩

/-- The entry behind `e` is none of those before. -/
theorem ListInv.ne_inner_next (hinv : ListInv h s) (hsplit : s.elems = l₁ ++ p :: e :: l₂) :
    ∀ y ∈ l₁ ++ [p], y ≠ s.mem.read32 e := by
  intro y hy heq
  have hnodup := hinv.inner_nodup hsplit
  rw [List.append_cons] at hnodup
  by_cases hne : s.mem.read32 e = 0
  · have hent := hinv.inner_entry hsplit y (by
      rw [List.append_cons]
      exact List.mem_append_left _ hy)
    exact h.ne_zero y hent (heq.trans hne)
  · obtain ⟨l₃, rfl, -⟩ := hinv.inner_next hsplit hne
    refine List.disjoint_of_nodup_append hnodup hy ?_
    rw [heq]
    exact List.mem_cons_self ..

/-- Of the links, a removal changes that of the entry before only. -/
theorem ListInv.remove_links (hinv : ListInv h s) (hsplit : s.elems = l₁ ++ p :: e :: l₂) :
    ∀ y ∈ l₁ ++ l₂, (listRemove s.mem e).read32 y = s.mem.read32 y := by
  intro y hy
  have hent := hinv.inner_entry hsplit
  have hy' : y ∈ l₁ ++ p :: l₂ := ((List.sublist_cons_self p l₂).append_left l₁).subset hy
  have hyp : y ≠ p := by
    intro heq
    have hnodup := hinv.inner_nodup hsplit
    rw [List.nodup_middle] at hnodup
    exact (List.nodup_cons.mp hnodup).1 (heq ▸ hy)
  refine listRemove_frame s.mem ?_ (fun hne => ?_)
  · rw [(hinv.inner_back hsplit).1]
    exact h.sep_next (hent y hy') (hent p (by simp)) hyp
  · obtain ⟨l₃, -, hnext⟩ := hinv.inner_next hsplit hne
    by_cases hyn : y = s.mem.read32 e
    · rw [← hyn]
      exact ListHeap.sep_next_own y
    · exact h.sep_next_prev (hent y hy') hnext hyn

theorem ListInv.remove_head (hinv : ListInv h s) (hsplit : s.elems = l₁ ++ p :: e :: l₂) :
    (listRemove s.mem e).read32 h.head = s.mem.read32 h.head := by
  refine listRemove_frame s.mem ?_ (fun hne => ?_)
  · rw [(hinv.inner_back hsplit).1]
    exact (h.sep_next_head (hinv.inner_entry hsplit p (by simp))).symm
  · obtain ⟨l₃, -, hnext⟩ := hinv.inner_next hsplit hne
    exact (h.sep_prev_head hnext).symm

/-- Of the back pointers, a removal changes that of the entry behind only. -/
theorem ListInv.remove_prevs (hinv : ListInv h s) (hsplit : s.elems = l₁ ++ p :: e :: l₂) :
    ∀ y ∈ l₁ ++ p :: l₂, y ≠ s.mem.read32 e →
      listPrev (listRemove s.mem e) y = listPrev s.mem y := by
  intro y hy hyn
  have hent := hinv.inner_entry hsplit
  refine listRemove_frame s.mem ?_ (fun hne => ?_)
  · rw [(hinv.inner_back hsplit).1]
    by_cases hyp : y = p
    · rw [hyp]
      exact (ListHeap.sep_next_own p).symm
    · exact (h.sep_next_prev (hent p (by simp)) (hent y hy) (Ne.symm hyp)).symm
  · obtain ⟨l₃, -, hnext⟩ := hinv.inner_next hsplit hne
    exact h.sep_prev (hent y hy) hnext hyn

/-- The entry behind `e` gets the back pointer of `e`. -/
theorem ListInv.remove_next (hinv : ListInv h s) (hsplit : s.elems = l₁ ++ p :: e :: l₂)
    (hne : s.mem.read32 e ≠ 0) : listPrev (listRemove s.mem e) (s.mem.read32 e) = p := by
  obtain ⟨l₃, -, hnext⟩ := hinv.inner_next hsplit hne
  have hpn := hinv.ne_inner_next hsplit p (by simp)
  have hsep := (h.sep_next_prev (hinv.inner_entry hsplit p (by simp)) hnext hpn).symm
  rw [← (hinv.inner_back hsplit).1] at hsep
  rw [listRemove_next s.mem e hne hsep, (hinv.inner_back hsplit).1]

end Inner

/-- Removing an entry that is not first takes it out of the walk. -/
theorem listInv_remove {h : ListHeap} {s : ListState} {e : Word} (hinv : ListInv h s)
    (hmem : e ∈ s.elems) (hfirst : s.elems.head? ≠ some e) :
    ListInv h ⟨listRemove s.mem e, s.elems.erase e⟩ := by
  obtain ⟨l₁, p, l₂, hsplit⟩ := s.split_inner hmem hfirst
  have hvisits := hinv.inner_visits hsplit
  have hnodup := hinv.inner_nodup hsplit
  have hlink : (listRemove s.mem e).read32 p = s.mem.read32 e := by
    have hset := listRemove_link s.mem e
    rwa [(hinv.inner_back hsplit).1] at hset
  have hwalk : ListVisits h ⟨listRemove s.mem e, s.elems.erase e⟩ := by
    unfold ListVisits
    dsimp only
    rw [hinv.inner_erase hsplit, hinv.remove_head hsplit]
    exact hvisits.bypass hlink (hinv.remove_links hsplit)
  refine ⟨?_, hwalk, ?_⟩
  · intro y hy
    exact hinv.entries y (List.mem_of_mem_erase hy)
  · intro y l' hl'
    unfold ListVisits at hwalk
    dsimp only at hwalk hl' ⊢
    rw [hl', hinv.remove_head hsplit] at hwalk
    rw [← hl', hinv.inner_erase hsplit, ← hwalk.1]
    refine (hinv.inner_back hsplit).2.bypass ?_ ?_
    · intro z hz
      refine hinv.remove_prevs hsplit z ?_ (hinv.ne_inner_next hsplit z hz)
      rw [List.append_cons]
      exact List.mem_append_left _ hz
    · rintro z l₃ rfl
      have hnext : s.mem.read32 e = z := hvisits.suffix.2.2.2.2.1
      have hne : s.mem.read32 e ≠ 0 := by
        rw [hnext]
        exact hvisits.suffix.2.2.2.2.2.1
      have hz := hinv.remove_next hsplit hne
      rw [hnext] at hz
      refine ⟨hz, ?_⟩
      -- the entries further on are others than the one behind `e`
      intro w hw
      have hwz : w ≠ z := by
        intro heq
        have hrest := (List.nodup_cons.mp (List.nodup_append.mp hnodup).2.1).2
        exact (List.nodup_cons.mp hrest).1 (heq ▸ hw)
      refine hinv.remove_prevs hsplit w (by simp [hw]) ?_
      rw [hnext]
      exact hwz

/-- Behind the first entry, `.prev` designates the link that points at the entry. -/
theorem ListInv.back_tail {h : ListHeap} {s : ListState} (hinv : ListInv h s) :
    ∀ e ∈ s.elems.tail, s.mem.read32 (listPrev s.mem e) = e := by
  intro e he
  have hv := hinv.visits
  unfold ListVisits at hv
  cases hel : s.elems with
  | nil => rw [hel] at he; cases he
  | cons x l =>
      rw [hel] at he hv
      have hb := hinv.back x l hel
      obtain ⟨l₁, l₂, hl⟩ := List.append_of_mem (show e ∈ l from he)
      rw [hl] at hb hv
      rcases List.eq_nil_or_concat' l₁ with rfl | ⟨l₁', p, rfl⟩
      · rw [hb.2.1]
        exact hv.2.2.1
      · have hb' := (BackLinked.append_iff.mp hb.2).2.1
        rw [List.getLast?_concat, Option.getD_some] at hb'
        rw [hb']
        exact Chain.next_eq (x :: l₁') (by simpa using hv)

/-- Removing the first entry changes nothing: the walk still starts with it. -/
theorem listRemove_first {h : ListHeap} {s : ListState} {e : Word} (hinv : ListInv h s)
    (hfirst : s.elems.head? = some e) : listRemove s.mem e = s.mem := by
  obtain ⟨l, hel⟩ : ∃ l, s.elems = e :: l := by
    cases hel : s.elems with
    | nil => rw [hel] at hfirst; cases hfirst
    | cons y l =>
        rw [hel] at hfirst
        exact ⟨l, by rw [Option.some.inj hfirst]⟩
  have hb := hinv.back e l hel
  have hv := hinv.visits
  unfold ListVisits at hv
  rw [hel] at hv
  refine listRemove_self s.mem hb.1 (fun hne => ?_)
  cases l with
  | nil => exact absurd hv.2.2 hne
  | cons y l =>
      rw [hv.2.2.1]
      exact hb.2.1

/-- The loop of `list_map` from an entry, for a function that leaves links alone. -/
theorem iterate_listMapBody {call : Mem → Word → Mem} {m : Mem} {a : Word} {l : List Word}
    (done : List Word) (hcall : ∀ m e x, x ∈ l → (call m e).read32 x = m.read32 x)
    (hv : Chain m.read32 0 a l) :
    ∃ m', iterate (listMapBody call) (l.length + 1) (m, a, done) = some (m', done ++ l) := by
  induction l generalizing m a done with
  | nil =>
      refine ⟨m, ?_⟩
      rw [iterate_done (r := (m, done)) (by simp [listMapBody, Chain.nil_iff.mp hv]), List.append_nil]
  | cons x l ih =>
      have hx : a ≠ 0 := hv.1 ▸ hv.2.1
      have hnext : (call m x).read32 x = m.read32 x := hcall m x x (List.mem_cons_self ..)
      have hv' : Chain (call m x).read32 0 ((call m x).read32 x) l := by
        rw [hnext]
        exact hv.2.2.congr (fun y hy => hcall m x y (List.mem_cons_of_mem _ hy))
      obtain ⟨m', hm'⟩ := ih (done ++ [x])
        (fun m e y hy => hcall m e y (List.mem_cons_of_mem _ hy)) hv'
      have hpass : listMapBody call (m, a, done) =
          some (.again (call m x, (call m x).read32 x, done ++ [x])) := by
        rw [hv.1] at hx ⊢
        rw [listMapBody, if_neg hx]
      refine ⟨m', ?_⟩
      rw [List.length_cons, iterate_again hpass, hm']
      simp

/-- `list_map` follows the walk. -/
theorem listMaps_of_visits {h : ListHeap} {s : ListState} (hv : ListVisits h s) :
    ListMaps h s := by
  intro call hcall
  obtain ⟨m', hm'⟩ := iterate_listMapBody [] hcall hv
  exact ⟨s.elems.length + 1, m', hm'⟩

theorem listInv_empty {h : ListHeap} {m : Mem} (hempty : m.read32 h.head = 0) :
    ListInv h ⟨m, []⟩ :=
  ⟨by simp, hempty, by simp⟩

theorem listInv_step {h : ListHeap} (s : ListState) (op : ListOp) (s' : ListState)
    (hinv : ListInv h s) (hkeep : KeepsFirst s op) (hstep : listStep h s op s') :
    ListInv h s' := by
  cases op with
  | insert e =>
      obtain ⟨he, hnew, rfl⟩ := hstep
      exact listInv_insert hinv he hnew
  | remove e =>
      obtain ⟨hmem, rfl⟩ := hstep
      exact listInv_remove hinv hmem (hkeep e rfl)

/-- A step that removes the first entry leaves a walk that is not the abstract list. -/
theorem not_listVisits_of_removes_first {h : ListHeap} (s : ListState) (op : ListOp)
    (s' : ListState) (hinv : ListInv h s) (hkeep : ¬ KeepsFirst s op)
    (hstep : listStep h s op s') : ¬ ListVisits h s' := by
  cases op with
  | insert e => exact absurd (fun e' he' => by cases he') hkeep
  | remove e =>
      obtain ⟨hmem, rfl⟩ := hstep
      have hfirst : s.elems.head? = some e := by
        by_contra hne
        exact hkeep (fun e' he' => by cases he'; exact hne)
      intro hv
      unfold ListVisits at hv
      rw [listRemove_first hinv hfirst] at hv
      have hlen := congrArg List.length (hinv.visits.unique hv)
      rw [List.length_erase_of_mem hmem] at hlen
      have hpos := List.length_pos_of_mem hmem
      omega

/-! ## Whole runs -/

/-- The walk (and with it `list_map`) is the abstract list after every step of a
run iff no step removes the entry that is first at that time. -/
theorem listVisits_iff (h : ListHeap) (m : Mem) (hempty : m.read32 h.head = 0)
    (r : List (ListOp × ListState)) (hr : Run (listStep h) ⟨m, []⟩ r) :
    (∀ p ∈ r, ListVisits h p.2) ↔ RunMeets KeepsFirst ⟨m, []⟩ r := by
  constructor
  · intro hall
    exact Run.meets_of_all (ListInv h) (ListVisits h) listInv_step not_listVisits_of_removes_first
      (listInv_empty hempty) hr hall
  · intro hmeets p hp
    exact (Run.invariant_of_meets (ListInv h) listInv_step (listInv_empty hempty) hr hmeets p hp).visits

/-- After an insertion into an empty list the entry's `.prev` designates the
entry's own link, which holds 0. -/
theorem not_listBack_insert {h : ListHeap} {m : Mem} {e : Word} (hempty : m.read32 h.head = 0)
    (he : h.isEntry e) : ¬ ListBack ⟨listInsertHead m h.head e, [e]⟩ := by
  intro hback
  obtain ⟨-, hnext, hprev⟩ := listInsertHead_sets m (h.sep_head e he)
    (fun hne => absurd hempty hne)
  have h1 := hback e (List.mem_cons_self ..)
  change (listInsertHead m h.head e).read32 (listPrev (listInsertHead m h.head e) e) = e at h1
  rw [hprev, hnext, hempty] at h1
  exact h.ne_zero e he h1.symm

/-- The list refines the abstract list after every step of a run only if the run
has no step at all: the first insertion already breaks the back-pointer law. What
does hold throughout a run that never removes the first entry is the walk, the
behaviour of `list_map`, and the back-pointer law behind the first entry. -/
theorem listRefines_iff (h : ListHeap) (m : Mem) (hempty : m.read32 h.head = 0)
    (r : List (ListOp × ListState)) (hr : Run (listStep h) ⟨m, []⟩ r) :
    ((∀ p ∈ r, ListRefines h p.2) ↔ r = []) ∧
    ((∀ p ∈ r, ListVisits h p.2 ∧ ListMaps h p.2) ↔ RunMeets KeepsFirst ⟨m, []⟩ r) ∧
    (RunMeets KeepsFirst ⟨m, []⟩ r →
      ∀ p ∈ r, ∀ e ∈ p.2.elems.tail, p.2.mem.read32 (listPrev p.2.mem e) = e) := by
  refine ⟨⟨?_, by rintro rfl; simp⟩, ?_, ?_⟩
  · intro hall
    cases r with
    | nil => rfl
    | cons p r =>
        obtain ⟨op, s'⟩ := p
        have hback := (hall (op, s') (List.mem_cons_self ..)).2.1
        -- the list is empty, so the first step inserts
        cases op with
        | insert e =>
            obtain ⟨he, -, rfl⟩ := hr.1
            exact absurd hback (not_listBack_insert hempty he)
        | remove e =>
            obtain ⟨hmem, -⟩ := hr.1
            simp at hmem
  · rw [← listVisits_iff h m hempty r hr]
    constructor
    · intro hall p hp
      exact (hall p hp).1
    · intro hall p hp
      exact ⟨hall p hp, listMaps_of_visits (hall p hp)⟩
  · intro hmeets p hp e he
    have hinv := Run.invariant_of_meets (ListInv h) listInv_step (listInv_empty hempty) hr hmeets p hp
    exact hinv.back_tail e he

/-! ### A head at 0x1000 and two entries -/

/-- A heap with a head and two entries. -/
def twoEntryHeap : ListHeap where
  head := 0x1000
  isEntry e := e = 0x2000 ∨ e = 0x3000
  ne_zero := by rintro e (rfl | rfl) <;> decide
  sep_head := by rintro e (rfl | rfl) <;> decide
  sep_entry := by rintro e e' (rfl | rfl) (rfl | rfl) hne <;> first | exact absurd rfl hne | decide

/-- Memory after inserting 0x2000, after inserting 0x3000, after removing 0x3000. -/
def twoEntryMem₁ : Mem := listInsertHead (fun _ => 0) 0x1000 0x2000
def twoEntryMem₂ : Mem := listInsertHead twoEntryMem₁ 0x1000 0x3000
def twoEntryMem₃ : Mem := listRemove twoEntryMem₂ 0x3000

def twoEntryRun : List (ListOp × ListState) :=
  [(.insert 0x2000, ⟨twoEntryMem₁, [0x2000]⟩),
   (.insert 0x3000, ⟨twoEntryMem₂, [0x3000, 0x2000]⟩),
   (.remove 0x3000, ⟨twoEntryMem₃, [0x2000]⟩)]

theorem twoEntryRun_run : Run (listStep twoEntryHeap) ⟨fun _ => 0, []⟩ twoEntryRun :=
  ⟨⟨Or.inl rfl, by simp, rfl⟩, ⟨Or.inr rfl, by simp, rfl⟩, ⟨by simp, rfl⟩, trivial⟩

/-- The law of the back pointers fails after the first insertion, and after the
removal of the first entry the walk still starts with the removed entry. -/
theorem listRefines_counterexample :
    Run (listStep twoEntryHeap) ⟨fun _ => 0, []⟩ twoEntryRun ∧
    twoEntryMem₁.read32 (listPrev twoEntryMem₁ 0x2000) ≠ 0x2000 ∧
    ¬ ListRefines twoEntryHeap ⟨twoEntryMem₁, [0x2000]⟩ ∧
    twoEntryMem₃.read32 0x1000 = 0x3000 ∧
    ¬ ListVisits twoEntryHeap ⟨twoEntryMem₃, [0x2000]⟩ := by
  have hback : twoEntryMem₁.read32 (listPrev twoEntryMem₁ 0x2000) ≠ 0x2000 := by decide
  have hhead : twoEntryMem₃.read32 0x1000 = 0x3000 := by decide
  refine ⟨twoEntryRun_run, hback, fun h => hback (h.2.1 _ (List.mem_cons_self ..)), hhead, ?_⟩
  intro hv
  have hstart : twoEntryMem₃.read32 0x1000 = 0x2000 := hv.1
  rw [hhead] at hstart
  exact absurd hstart (by decide)

theorem listRefines_iff_twoEntry :
    ((∀ p ∈ twoEntryRun, ListRefines twoEntryHeap p.2) ↔ twoEntryRun = []) ∧
    ((∀ p ∈ twoEntryRun, ListVisits twoEntryHeap p.2 ∧ ListMaps twoEntryHeap p.2) ↔
      RunMeets KeepsFirst ⟨fun _ => 0, []⟩ twoEntryRun) ∧
    (RunMeets KeepsFirst ⟨fun _ => 0, []⟩ twoEntryRun →
      ∀ p ∈ twoEntryRun, ∀ e ∈ p.2.elems.tail, p.2.mem.read32 (listPrev p.2.mem e) = e) :=
  listRefines_iff twoEntryHeap (fun _ => 0) (by decide) twoEntryRun twoEntryRun_run

end StupidOS.Kernel
