import StupidOS.Boot.MemoryMap

/-!
# The boot structure after any calls (`common/bootinfo.inc`)

What `boot_info_add_memmap` leaves in the boot structure, for any ranges in any order:
the map of the accepted ranges, and `high_mem` and `low_mem` beside it; and which ranges
its check of the memory limit is right about.
-/

namespace StupidOS.Boot

/-- The two limit checks of `boot_info_add_memmap`. -/
def accepted (e : BootInfoRange) : Bool :=
  e.base.ule bootInfoMemoryLimit && e.base.ule (bootInfoMemoryLimit - e.length)

/-- The ranges of `es` that belong in the map. -/
def storedRanges (es : List BootInfoRange) : List BootInfoRange :=
  nonemptyEntries (es.filter accepted)

/-- The last accepted range of `es` at `base`. -/
def lastAccepted (base : Word) (es : List BootInfoRange) : Option BootInfoRange :=
  (es.filter (fun e => accepted e && decide (e.base = base))).getLast?

/-- The boot structure of the loader's image; the last two fields are not initialised. -/
def bootStructure (highMem lowMem : Word) : BootInfo := ⟨fun _ => ⟨0, 0⟩, highMem, lowMem⟩

/-- What the calls for `es` have recorded. -/
structure Recorded (high low : Word) (es : List BootInfoRange) (info : BootInfo) : Prop where
  /-- The slots in use are a prefix of the first 40. -/
  used : ∀ i, (info.mmap i).length ≠ 0 ↔ i < 40 ∧ i < (storedRanges es).length
  entry : ∀ i e, i < 40 → (storedRanges es)[i]? = some e → info.mmap i = e
  untouched : ∀ i, 40 ≤ i → info.mmap i = ⟨0, 0⟩
  highMem : info.highMem = ((lastAccepted 0x100000 es).map (fun e => e.base + e.length)).getD high
  lowMem : info.lowMem = ((lastAccepted 0 es).map BootInfoRange.length).getD low

/-! ## One call -/

theorem bootInfoAddMemmap_rejected (info : BootInfo) {e : BootInfoRange}
    (h : accepted e = false) : (bootInfoAddMemmap info e.base e.length).1 = info := by
  rw [accepted, Bool.and_eq_false_iff] at h
  unfold bootInfoAddMemmap
  by_cases hlimit : e.base.ule bootInfoMemoryLimit = true
  · have hroom := h.resolve_left (by rw [hlimit]; decide)
    simp [hlimit, hroom]
  · simp [hlimit]

theorem bootInfoAddMemmap_accepted (info : BootInfo) {e : BootInfoRange}
    (h : accepted e = true) : (bootInfoAddMemmap info e.base e.length).1 =
      { addMemmapHack info e.base e.length with
        mmap := addMemmapLoop info.mmap e 40 0 } := by
  rw [accepted, Bool.and_eq_true] at h
  simp only [bootInfoAddMemmap, h.1, h.2, not_true, if_false, addMemmapHack_mmap]

theorem addMemmapHack_lowMem (info : BootInfo) (eax edx : Word) :
    (addMemmapHack info eax edx).lowMem = if eax = 0 then edx else info.lowMem := by
  unfold addMemmapHack
  split <;> split <;> rfl

/-- The search writes one of the entries it looks at, or none. -/
theorem addMemmapLoop_apart (mmap : Nat → BootInfoRange) (entry : BootInfoRange)
    (n ecx : Nat) {i : Nat} (hi : ecx + n ≤ i) : addMemmapLoop mmap entry n ecx i = mmap i := by
  induction n generalizing ecx with
  | zero => rfl
  | succ n ih =>
      rw [addMemmapLoop]
      split
      · have hne : i ≠ ecx := by omega
        exact if_neg hne
      · exact ih (ecx + 1) (by omega)

/-- An entry in use is passed over. -/
theorem addMemmapLoop_used (mmap : Nat → BootInfoRange) (entry : BootInfoRange)
    (n ecx : Nat) {i : Nat} (hi : (mmap i).length ≠ 0) :
    addMemmapLoop mmap entry n ecx i = mmap i := by
  induction n generalizing ecx with
  | zero => rfl
  | succ n ih =>
      rw [addMemmapLoop]
      split
      · rename_i hfree
        have hne : i ≠ ecx := by
          intro heq
          rw [heq] at hi
          exact hi hfree
        exact if_neg hne
      · exact ih (ecx + 1)

/-! ## Lists of calls -/

theorem addAll_append (info : BootInfo) (es es' : List BootInfoRange) :
    addAll info (es ++ es') = addAll (addAll info es) es' := by
  rw [addAll, addAll, addAll, List.foldl_append]

theorem addAll_concat (info : BootInfo) (es : List BootInfoRange) (e : BootInfoRange) :
    addAll info (es ++ [e]) = (bootInfoAddMemmap (addAll info es) e.base e.length).1 :=
  addAll_append info es [e]

/-- What holds before any call and is kept by a call that stores its range holds afterwards; a
call that rejects its range stores nothing. -/
theorem addAll_induction {info : BootInfo} {P : List BootInfoRange → BootInfo → Prop}
    (hnil : P [] info)
    (haccepted : ∀ es info' e, P es info' → accepted e = true → P (es ++ [e])
      { addMemmapHack info' e.base e.length with
        mmap := addMemmapLoop info'.mmap e 40 0 })
    (hrejected : ∀ es info' e, P es info' → ¬ accepted e = true → P (es ++ [e]) info')
    (es : List BootInfoRange) : P es (addAll info es) := by
  induction es using List.reverseRecOn with
  | nil => exact hnil
  | append_singleton es e ih =>
      rw [addAll_concat]
      by_cases he : accepted e = true
      · rw [bootInfoAddMemmap_accepted _ he]
        exact haccepted es _ e ih he
      · have hfalse : accepted e = false := by
          rw [Bool.not_eq_true] at he
          exact he
        rw [bootInfoAddMemmap_rejected _ hfalse]
        exact hrejected es _ e ih he

theorem storedRanges_concat (es : List BootInfoRange) (e : BootInfoRange) :
    storedRanges (es ++ [e]) =
      storedRanges es ++ (if accepted e = true then nonemptyEntries [e] else []) := by
  rw [storedRanges, List.filter_append, nonemptyEntries_append, List.filter_singleton]
  by_cases he : accepted e = true
  · rw [if_pos he, cond_eq_ite, if_pos he, storedRanges]
  · rw [if_neg he, cond_eq_ite, if_neg he, storedRanges]
    rfl

theorem lastAccepted_concat (base : Word) (es : List BootInfoRange) (e : BootInfoRange) :
    lastAccepted base (es ++ [e]) =
      if accepted e = true ∧ e.base = base then some e else lastAccepted base es := by
  rw [lastAccepted, List.filter_append, List.filter_singleton, cond_eq_ite]
  by_cases he : accepted e = true ∧ e.base = base
  · have htest : (accepted e && decide (e.base = base)) = true := by simpa using he
    rw [if_pos he, if_pos htest, List.getLast?_concat]
  · have htest : ¬ (accepted e && decide (e.base = base)) = true := by simpa using he
    rw [if_neg he, if_neg htest, List.append_nil, lastAccepted]

/-- The map after the calls for `es`. -/
theorem addAll_filled (high low : Word) (es : List BootInfoRange) :
    Filled (addAll (bootStructure high low) es).mmap (storedRanges es) := by
  refine addAll_induction (P := fun es info => Filled info.mmap (storedRanges es)) ?_ ?_ ?_ es
  · refine ⟨?_, ?_, ?_⟩
    · intro e he
      exact absurd he List.not_mem_nil
    · intro i e _ hget
      exact absurd hget (by simp [storedRanges, nonemptyEntries])
    · intro i _ _
      rfl
  · intro es info e ih he
    rw [storedRanges_concat, if_pos he]
    exact ih.add e
  · intro es info e ih he
    rw [storedRanges_concat, if_neg he, List.append_nil]
    exact ih

theorem addAll_untouched (high low : Word) (es : List BootInfoRange) {i : Nat} (hi : 40 ≤ i) :
    (addAll (bootStructure high low) es).mmap i = ⟨0, 0⟩ := by
  refine addAll_induction (P := fun _ info => info.mmap i = ⟨0, 0⟩) rfl ?_ ?_ es
  · intro es info e ih _
    exact (addMemmapLoop_apart _ e 40 0 (by omega)).trans ih
  · intro es info e ih _
    exact ih

theorem addAll_highMem (high low : Word) (es : List BootInfoRange) :
    (addAll (bootStructure high low) es).highMem
      = ((lastAccepted 0x100000 es).map (fun e => e.base + e.length)).getD high := by
  refine addAll_induction (P := fun es info => info.highMem
    = ((lastAccepted 0x100000 es).map (fun e => e.base + e.length)).getD high) rfl ?_ ?_ es
  · intro es info e ih he
    rw [lastAccepted_concat]
    simp only [addMemmapHack_highMem, he, true_and]
    by_cases hbase : e.base = 0x100000
    · rw [if_pos hbase, if_pos hbase]
      exact BitVec.add_comm _ _
    · rw [if_neg hbase, if_neg hbase]
      exact ih
  · intro es info e ih he
    rw [lastAccepted_concat, if_neg (fun h => he h.1)]
    exact ih

theorem addAll_lowMem (high low : Word) (es : List BootInfoRange) :
    (addAll (bootStructure high low) es).lowMem
      = ((lastAccepted 0 es).map BootInfoRange.length).getD low := by
  refine addAll_induction (P := fun es info => info.lowMem
    = ((lastAccepted 0 es).map BootInfoRange.length).getD low) rfl ?_ ?_ es
  · intro es info e ih he
    rw [lastAccepted_concat]
    simp only [addMemmapHack_lowMem, he, true_and]
    by_cases hbase : e.base = 0
    · rw [if_pos hbase, if_pos hbase]
      rfl
    · rw [if_neg hbase, if_neg hbase]
      exact ih
  · intro es info e ih he
    rw [lastAccepted_concat, if_neg (fun h => he h.1)]
    exact ih

/-- Later calls leave an entry in use as it is. -/
theorem addAll_keeps (info : BootInfo) (es : List BootInfoRange) {i : Nat}
    (hi : (info.mmap i).length ≠ 0) : (addAll info es).mmap i = info.mmap i := by
  refine addAll_induction (P := fun _ info' => info'.mmap i = info.mmap i) rfl ?_ ?_ es
  · intro es info' e ih _
    refine (addMemmapLoop_used _ e 40 0 ?_).trans ih
    rw [ih]
    exact hi
  · intro es info' e ih _
    exact ih

theorem addAll_recorded (high low : Word) (es : List BootInfoRange) :
    Recorded high low es (addAll (bootStructure high low) es) := by
  have hfilled := addAll_filled high low es
  refine ⟨?_, hfilled.entry, fun _ => addAll_untouched high low es, addAll_highMem high low es,
    addAll_lowMem high low es⟩
  intro i
  by_cases hi : i < 40
  · by_cases hlen : i < (storedRanges es).length
    · have hget := List.getElem?_eq_getElem hlen
      rw [hfilled.entry i _ hi hget]
      exact iff_of_true (hfilled.nonempty _ (List.getElem_mem hlen)) ⟨hi, hlen⟩
    · have hfree := hfilled.free i hi (by omega)
      exact iff_of_false (fun h => h hfree) (fun h => hlen h.2)
  · rw [addAll_untouched high low es (by omega)]
    exact iff_of_false (fun h => h rfl) (fun h => hi h.1)

/-- **The boot memory map.** After any calls the map holds the first 40 accepted ranges
that are not empty, in order, and the later calls leave them where they are. -/
theorem bootMap_recorded (high low : Word) (es : List BootInfoRange) :
    Recorded high low es (addAll (bootStructure high low) es) ∧
      ∀ es' i, ((addAll (bootStructure high low) es).mmap i).length ≠ 0 →
        (addAll (bootStructure high low) (es ++ es')).mmap i
          = (addAll (bootStructure high low) es).mmap i := by
  refine ⟨addAll_recorded high low es, ?_⟩
  intro es' i hi
  rw [addAll_append]
  exact addAll_keeps _ es' hi

/-! ## The limit of the ranges -/

/-- The range ends at or below the limit, without wrap-around. -/
def WithinLimit (e : BootInfoRange) : Prop :=
  e.base.toNat + e.length.toNat ≤ bootInfoMemoryLimit.toNat

/-- `sub ecx, edx` does not wrap, or the first comparison already rejects the range. -/
def LimitChecked (e : BootInfoRange) : Prop :=
  e.length ≤ bootInfoMemoryLimit ∨ bootInfoMemoryLimit < e.base

instance (e : BootInfoRange) : Decidable (WithinLimit e) := by
  unfold WithinLimit
  infer_instance

instance (e : BootInfoRange) : Decidable (LimitChecked e) := by
  unfold LimitChecked
  infer_instance

/-- A call for `e` that records it somewhere. -/
def RecordsRange (e : BootInfoRange) (info : BootInfo) : Prop :=
  (bootInfoAddMemmap info e.base e.length).1 ≠ info

/-- What the recorded ranges `es` may leave in the boot structure. -/
structure LimitsKept (es : List BootInfoRange) (info : BootInfo) : Prop where
  mmap : ∀ i, (info.mmap i).length ≠ 0 → WithinLimit (info.mmap i)
  highMem : ∀ e ∈ es, accepted e = true → e.base = 0x100000 →
    0x100000 ≤ info.highMem ∧ info.highMem ≤ bootInfoMemoryLimit
  lowMem : ∀ e ∈ es, accepted e = true → e.base = 0 → info.lowMem ≤ bootInfoMemoryLimit

/-- The second comparison, on numbers. -/
theorem ule_limit_sub_iff {base length : Word} (hlength : length ≤ bootInfoMemoryLimit) :
    base.ule (bootInfoMemoryLimit - length) = true
      ↔ base.toNat + length.toNat ≤ bootInfoMemoryLimit.toNat := by
  rw [BitVec.ule_iff_le, BitVec.le_def, BitVec.toNat_sub_of_le hlength]
  rw [BitVec.le_def] at hlength
  omega

theorem accepted_within {e : BootInfoRange} (hchecked : LimitChecked e)
    (h : accepted e = true) : WithinLimit e := by
  rw [accepted, Bool.and_eq_true] at h
  rcases hchecked with hlength | hbase
  · exact (ule_limit_sub_iff hlength).1 h.2
  · have hle := BitVec.ule_iff_le.1 h.1
    exact absurd hle (BitVec.not_le.2 hbase)

/-- Where the subtraction wraps, the second comparison always passes: the difference is
above the limit. -/
theorem accepted_of_wrap {e : BootInfoRange} (h : ¬ LimitChecked e) : accepted e = true := by
  have hlength : bootInfoMemoryLimit < e.length :=
    BitVec.not_le.1 (fun hle => h (Or.inl hle))
  have hbase : e.base ≤ bootInfoMemoryLimit :=
    BitVec.not_lt.1 (fun hlt => h (Or.inr hlt))
  have hdiff : (bootInfoMemoryLimit - e.length).toNat
      = 2 ^ 32 + bootInfoMemoryLimit.toNat - e.length.toNat := by
    rw [BitVec.lt_def] at hlength
    rw [BitVec.toNat_sub]
    have hlt := e.length.isLt
    omega
  have hlt := e.length.isLt
  rw [BitVec.le_def] at hbase
  rw [accepted, Bool.and_eq_true, BitVec.ule_iff_le, BitVec.ule_iff_le, BitVec.le_def,
    BitVec.le_def, hdiff]
  exact ⟨hbase, by omega⟩

theorem wrap_not_within {e : BootInfoRange} (h : ¬ LimitChecked e) : ¬ WithinLimit e := by
  intro hwithin
  refine h (Or.inl ?_)
  rw [WithinLimit] at hwithin
  rw [BitVec.le_def]
  omega

/-- A range that is not empty is recorded in an empty map. -/
theorem recordsRange_empty {e : BootInfoRange} (haccepted : accepted e = true)
    (hlength : e.length ≠ 0) : RecordsRange e (bootStructure 0 0) := by
  intro heq
  have hentry : addMemmapLoop (bootStructure 0 0).mmap e 40 0 0 = e := by
    rw [addMemmapLoop, if_pos (by rfl), if_pos rfl]
  have hmmap : (bootInfoAddMemmap (bootStructure 0 0) e.base e.length).1.mmap 0 = e := by
    rw [bootInfoAddMemmap_accepted _ haccepted]
    exact hentry
  rw [heq] at hmmap
  refine hlength ?_
  rw [← hmmap]
  rfl

theorem recordsRange_accepted {e : BootInfoRange} {info : BootInfo}
    (h : RecordsRange e info) : accepted e = true := by
  by_contra hrejected
  exact h (bootInfoAddMemmap_rejected info (Bool.eq_false_iff.2 hrejected))

theorem recordsRange_within_iff (e : BootInfoRange) :
    (∀ info, RecordsRange e info → WithinLimit e) ↔ LimitChecked e := by
  constructor
  · intro hwithin
    by_contra hchecked
    have hlength : e.length ≠ 0 := by
      intro hzero
      refine hchecked (Or.inl ?_)
      rw [hzero, BitVec.le_def]
      exact Nat.zero_le _
    have hrecords := recordsRange_empty (accepted_of_wrap hchecked) hlength
    exact wrap_not_within hchecked (hwithin _ hrecords)
  · intro hchecked info hrecords
    exact accepted_within hchecked (recordsRange_accepted hrecords)

theorem mem_lastAccepted {base : Word} {es : List BootInfoRange} {e : BootInfoRange}
    (h : lastAccepted base es = some e) : e ∈ es ∧ accepted e = true ∧ e.base = base := by
  have hmem := List.mem_of_getLast? h
  rw [List.mem_filter, Bool.and_eq_true, decide_eq_true_iff] at hmem
  exact hmem

theorem lastAccepted_isSome {base : Word} {es : List BootInfoRange} {e : BootInfoRange}
    (hmem : e ∈ es) (haccepted : accepted e = true) (hbase : e.base = base) :
    ∃ last, lastAccepted base es = some last := by
  have hfilter : e ∈ es.filter (fun e => accepted e && decide (e.base = base)) := by
    rw [List.mem_filter]
    exact ⟨hmem, by simp [haccepted, hbase]⟩
  exact ⟨_, List.getLast?_eq_some_getLast (List.ne_nil_of_mem hfilter)⟩

theorem mem_storedRanges {es : List BootInfoRange} {e : BootInfoRange}
    (h : e ∈ storedRanges es) : e ∈ es ∧ accepted e = true := by
  rw [storedRanges, nonemptyEntries] at h
  exact List.mem_filter.1 (List.mem_of_mem_filter h)

/-- Of the calls for `es`, only the entries they store and the last range at each of the
two bases show. -/
theorem addAll_limitsKept (high low : Word) {es : List BootInfoRange}
    (hchecked : ∀ e ∈ es, LimitChecked e) :
    LimitsKept es (addAll (bootStructure high low) es) := by
  have hrecorded := addAll_recorded high low es
  refine ⟨?_, ?_, ?_⟩
  · intro i hi
    rcases (hrecorded.used i).1 hi with ⟨hslot, hlen⟩
    have hget := List.getElem?_eq_getElem hlen
    rw [hrecorded.entry i _ hslot hget]
    rcases mem_storedRanges (List.getElem_mem hlen) with ⟨hmem, haccepted⟩
    exact accepted_within (hchecked _ hmem) haccepted
  · intro e hmem haccepted hbase
    rcases lastAccepted_isSome hmem haccepted hbase with ⟨last, hlast⟩
    rcases mem_lastAccepted hlast with ⟨hlastMem, hlastAccepted, hlastBase⟩
    have hwithin := accepted_within (hchecked _ hlastMem) hlastAccepted
    rw [hrecorded.highMem, hlast]
    change 0x100000 ≤ last.base + last.length ∧ last.base + last.length ≤ bootInfoMemoryLimit
    rw [WithinLimit, hlastBase] at hwithin
    rw [hlastBase, BitVec.le_def, BitVec.le_def, BitVec.toNat_add]
    have hlimit : bootInfoMemoryLimit.toNat = 0xFFFFF000 := rfl
    have hstart : (0x100000 : Word).toNat = 0x100000 := rfl
    omega
  · intro e hmem haccepted hbase
    rcases lastAccepted_isSome hmem haccepted hbase with ⟨last, hlast⟩
    rcases mem_lastAccepted hlast with ⟨hlastMem, hlastAccepted, _⟩
    have hwithin := accepted_within (hchecked _ hlastMem) hlastAccepted
    rw [hrecorded.lowMem, hlast]
    change last.length ≤ bootInfoMemoryLimit
    rw [WithinLimit] at hwithin
    rw [BitVec.le_def]
    omega

/-- **The limit of the boot memory map.** The ranges recorded stay below the limit exactly
when `sub ecx, edx` does not wrap for them, and calls for such ranges only, in any order,
keep the map, `high_mem` and `low_mem` below it. -/
theorem bootMap_limits_iff (high low : Word) :
    (∀ e, (∀ info, RecordsRange e info → WithinLimit e) ↔ LimitChecked e) ∧
      ∀ es : List BootInfoRange, (∀ e ∈ es, LimitChecked e) →
        LimitsKept es (addAll (bootStructure high low) es) := by
  constructor
  · exact recordsRange_within_iff
  · intro es hchecked
    exact addAll_limitsKept high low hchecked

theorem bootMap_limits_iff_usable :
    (∀ e ∈ [(⟨0x100000, 0x700000⟩ : BootInfoRange)], LimitChecked e) ∧
      LimitsKept [⟨0x100000, 0x700000⟩]
        (addAll (bootStructure 0 0) [⟨0x100000, 0x700000⟩]) := by
  have hchecked : ∀ e ∈ [(⟨0x100000, 0x700000⟩ : BootInfoRange)], LimitChecked e := by decide
  exact ⟨hchecked, (bootMap_limits_iff 0 0).2 _ hchecked⟩

/-- One range just above the limit in length brings `high_mem` below 1 MiB. -/
theorem bootMap_limits_counterexample :
    let e : BootInfoRange := ⟨0x100000, 0xFFFFFFFF⟩
    let info := addAll (bootStructure 0 0) [e]
    info.mmap 0 = e ∧ ¬ WithinLimit e ∧ info.highMem = 0xFFFFF ∧ info.highMem < 0x100000 := by
  decide

end StupidOS.Boot
