import StupidOS.Coff.Header
import StupidOS.Lib.Heap

/-!
# What `readcoff` loads

`coff_load_file` with its static variables and the heap. It takes the files that meet the format,
but for those without sections: `fread` of no bytes gives 0, and that counts as an error
(`coffLoadFile_exact_iff`).
-/

namespace StupidOS.Coff.Readcoff

/-! ## The tables -/

/-- `MACHINES` -/
def machines : List (Nat × String) :=
  [(fMachAm33, "Matsushita AM33"),
   (fMachAmd64, "Intel amd64"),
   (fMachArm, "ARM"),
   (fMachArmnt, "ARM Thumb-2"),
   (fMachEbc, "EFI byte code"),
   (fMachI386, "Intel 80386"),
   (fMachIa64, "IA64"),
   (fMachM32r, "Mitsubishi M32R"),
   (fMachUnknown, "unknown")]

/-- `AOUTMAG` -/
def aoutmags : List (Int × Option String) :=
  [(omagic, some "OMAGIC"),
   (nmagic, some "NMAGIC"),
   (zmagic, some "ZMAGIC"),
   (stmagic, some "STMAGIC"),
   (shmagic, some "SHMAGIC"),
   (0, none)]

/-- The loop over `MACHINES`, to `F_MACH_UNKNOWN`. -/
def findMachine : List (Nat × String) → Nat → Option String
  | [], _ => none
  | (magic, machine) :: rest, m =>
    if magic = fMachUnknown then none else if m = magic then some machine else findMachine rest m

/-- The loop over `AOUTMAG`, to a `NULL`. -/
def findAoutmag : List (Int × Option String) → Int → Option String
  | [], _ => none
  | (_, none) :: _, _ => none
  | (mag, some str) :: rest, m => if m = mag then some str else findAoutmag rest m

/-! ## The static variables -/

/-- The static variables, what is on `stderr`, and the heap. A pointer is an address. -/
structure Vars where
  filhdr : Obj
  aouthdr : Obj
  scnhdrs : Nat
  symtab : Nat
  strtab : Nat
  sym_cnt : Nat
  sec_cnt : Nat
  machine : Option String
  aoutmag : Option String
  relocs : Nat
  secdata : Nat
  stderr : List String
  heap : Heap

/-- What a program starts with. -/
def Vars.start : Vars :=
  ⟨fun _ => 0, fun _ => 0, 0, 0, 0, 0, 0, none, none, 0, 0, [], Heap.empty⟩

/-- The pointers to tables. -/
def Vars.tables (v : Vars) : List Nat := [v.relocs, v.secdata, v.scnhdrs, v.symtab, v.strtab]

/-- `msg_errx`, without the name of the program -/
def msgErrx (v : Vars) (msg : String) : Vars := { v with stderr := v.stderr ++ [msg] }

/-- `msg_err` after `malloc` has failed -/
def msgErr (v : Vars) (msg : String) : Vars := msgErrx v (msg ++ ": Cannot allocate memory")

/-- `%04X` of a `uint16_t` -/
def hex4 (n : Nat) : String :=
  String.ofList (((Nat.toDigits 16 n).map Char.toUpper).leftpad 4 '0')

/-! ## `readcoff/main.c` -/

/-- `fread` of one item: the value returned, the bytes stored, and the rest of the file. -/
def fread (fp : List Byte) (size : Nat) : Nat × List Byte × List Byte :=
  if size = 0 then (0, [], fp)
  else if fp.length < size then (0, fp, [])
  else (1, fp.take size, fp.drop size)

/-- `free` of the `n` pointers in a table, and of the table. -/
def freeTable (h : Heap) (p n : Nat) : Option Heap :=
  if p = 0 then some h
  else do
    let h ← (List.range n).foldlM (fun h idx => do
      let q ← h.load p (8 * idx) 8
      h.free (ofLe q)) h
    h.free p

def coffCleanup (v : Vars) : Option Vars := do
  let n := fNscns v.filhdr
  let h ← freeTable v.heap v.relocs n
  let h ← freeTable h v.secdata n
  let h ← h.free v.scnhdrs
  let h ← h.free v.symtab
  let h ← h.free v.strtab
  some { v with
    relocs := 0, secdata := 0, scnhdrs := 0, symtab := 0, strtab := 0, sym_cnt := 0, sec_cnt := 0
    machine := none, aoutmag := none, heap := h }

def coffLoadHeaders (file : String) (fp : List Byte) (v : Vars) : Int × List Byte × Vars :=
  let (cnt, bytes, fp) := fread fp filhsz
  let v := { v with filhdr := v.filhdr.store 0 bytes }
  if cnt ≠ 1 then
    (-1, fp, msgErrx v
      (file ++ ": An unexpected error/eof occured while reading COFF header"))
  else
    let v := { v with machine := (findMachine machines (fMagic v.filhdr)).or v.machine }
    if v.machine = none then
      (-1, fp, msgErrx v (file ++ ": Unknown magic '0x" ++ hex4 (fMagic v.filhdr) ++ "'"))
    else if fOpthdr v.filhdr = 0 then (0, fp, v)
    else if fOpthdr v.filhdr ≠ aouthsz then
      (-1, fp, msgErrx v (file ++ ": Invalid optional header size"))
    else
      let (cnt, bytes, fp) := fread fp aouthsz
      let v := { v with aouthdr := v.aouthdr.store 0 bytes }
      if cnt ≠ 1 then
        (-1, fp, msgErrx v
          (file ++ ": An unexpected error/eof occured while reading optional header"))
      else
        let v := { v with aoutmag := (findAoutmag aoutmags (aoutMagic v.aouthdr)).or v.aoutmag }
        if v.aoutmag = none then
          (-1, fp, msgErrx v (file ++ ": Invalid optional header magic"))
        else (0, fp, v)

variable (alloc : Nat → Nat → Option Obj)

def coffLoadSections (file : String) (fp : List Byte) (v : Vars) : Option (Int × Vars) :=
  let n := fNscns v.filhdr
  match v.heap.malloc alloc (8 * n) with
  | none => some (-1, msgErr { v with relocs := 0 } file)
  | some (p, h) => do
    let h ← h.store p 0 (List.replicate (8 * n) 0)
    let v := { v with relocs := p, heap := h }
    match v.heap.malloc alloc (8 * n) with
    | none => some (-1, msgErr { v with secdata := 0 } file)
    | some (p, h) =>
      let h ← h.store p 0 (List.replicate (8 * n) 0)
      let v := { v with secdata := p, heap := h }
      match v.heap.malloc alloc (scnhsz * n) with
      | none => some (-1, msgErr { v with scnhdrs := 0 } file)
      | some (p, h) =>
        let (cnt, bytes, _) := fread fp (scnhsz * n)
        let h ← h.store p 0 bytes
        let v := { v with scnhdrs := p, heap := h }
        if cnt ≠ 1 then
          some (-1, msgErrx v
            (file ++ ": An unexpected error/eof occured while reading section headers"))
        else some (0, v)

/-- `coff_load_file`; `fp` is what `fopen` finds. -/
def coffLoadFile (file : String) (fp : Option (List Byte)) (v : Vars) : Option (Int × Vars) :=
  match fp with
  | none => some (-1, v)
  | some fp =>
    let (ret, fp, v) := coffLoadHeaders file fp v
    -- goto err
    if ret ≠ 0 then some (-1, v)
    else do
      let (ret, v) ← coffLoadSections alloc file fp v
      -- goto err_cleanup
      if ret ≠ 0 then
        let v ← coffCleanup v
        some (-1, v)
      else some (0, v)

/-! ## The format -/

def KnownMachine (m : Nat) : Prop := m ≠ fMachUnknown ∧ ∃ machine, (m, machine) ∈ machines

def KnownAoutmag (m : Int) : Prop := ∃ str, (m, some str) ∈ aoutmags

/-- The headers are there, and right. -/
structure Headers (data : List Byte) : Prop where
  header : filhsz ≤ data.length
  machine : KnownMachine (leAt data 0 2)
  opthdr : leAt data 16 2 = 0 ∨ leAt data 16 2 = aouthsz ∧ filhsz + aouthsz ≤ data.length ∧
    KnownAoutmag (BitVec.ofNat 16 (leAt data filhsz 2)).toInt

/-- And so are the section headers. -/
structure Format (data : List Byte) : Prop extends Headers data where
  sections : filhsz + leAt data 16 2 + scnhsz * leAt data 2 2 ≤ data.length

/-- What `coff_load_file` ought to do with a file. -/
structure LoadsExactly (data : List Byte) (ret : Int) (v : Vars) : Prop where
  accepts : ret = 0 ↔ Format data
  sections : ret = 0 → ∀ i, i < leAt data 2 2 → v.heap.load v.scnhdrs (scnhsz * i) scnhsz
    = some ((data.drop (filhsz + leAt data 16 2 + scnhsz * i)).take scnhsz)
  pointers : ret ≠ 0 → ∀ p ∈ v.tables, ¬ v.heap.Dangling p

/-- Nothing is loaded. -/
structure Vars.Clean (v : Vars) : Prop where
  tables : ∀ p ∈ v.tables, p = 0
  machine : v.machine = none
  aoutmag : v.aoutmag = none

theorem start_clean : Vars.start.Clean := ⟨by decide, rfl, rfl⟩

/-! ## The loops over the tables -/

theorem findMachine_known (m : Nat) : findMachine machines m ≠ none ↔ KnownMachine m := by
  have hloop : ∀ l : List (Nat × String), (∀ e ∈ l, e.1 ≠ fMachUnknown) →
      (findMachine (l ++ [(fMachUnknown, "unknown")]) m ≠ none ↔
        m ≠ fMachUnknown ∧ ∃ machine, (m, machine) ∈ l ++ [(fMachUnknown, "unknown")]) := by
    intro l hl
    induction l with
    | nil =>
        rw [List.nil_append, findMachine, if_pos rfl]
        simp only [List.mem_singleton, Prod.mk.injEq]
        tauto
    | cons e l ih =>
        rcases List.forall_mem_cons.mp hl with ⟨he, hrest⟩
        rw [List.cons_append, findMachine, if_neg he]
        by_cases hm : m = e.1
        · rw [if_pos hm]
          refine ⟨fun _ => ⟨hm ▸ he, e.2, ?_⟩, fun _ => Option.some_ne_none _⟩
          rw [hm]
          exact List.mem_cons_self
        · rw [if_neg hm, ih hrest]
          refine and_congr_right fun _ => exists_congr fun machine => ?_
          rw [List.mem_cons, or_iff_right]
          rintro rfl
          exact hm rfl
  exact hloop machines.dropLast (by decide)

theorem findAoutmag_known (m : Int) : findAoutmag aoutmags m ≠ none ↔ KnownAoutmag m := by
  have hloop : ∀ l : List (Int × String), findAoutmag
      (l.map (fun e => (e.1, some e.2)) ++ [(0, none)]) m ≠ none ↔
        ∃ str, (m, some str) ∈ l.map (fun e => (e.1, some e.2)) ++ [(0, none)] := by
    intro l
    induction l with
    | nil => simp [findAoutmag]
    | cons e l ih =>
        rw [List.map_cons, List.cons_append, findAoutmag]
        by_cases hm : m = e.1
        · rw [if_pos hm]
          refine ⟨fun _ => ⟨e.2, ?_⟩, fun _ => Option.some_ne_none _⟩
          rw [hm]
          exact List.mem_cons_self
        · rw [if_neg hm, ih]
          refine exists_congr fun str => ?_
          rw [List.mem_cons, or_iff_right]
          intro heq
          exact hm (congrArg Prod.fst heq)
  exact hloop [(omagic, "OMAGIC"), (nmagic, "NMAGIC"), (zmagic, "ZMAGIC"), (stmagic, "STMAGIC"),
    (shmagic, "SHMAGIC")]

/-! ## The headers -/

theorem fread_spec (fp : List Byte) (size : Nat) : ∃ cnt bytes fp',
    fread fp size = (cnt, bytes, fp') ∧ bytes.length ≤ size ∧
      (cnt = 1 ↔ size ≠ 0 ∧ size ≤ fp.length) ∧
      (cnt = 1 → bytes = fp.take size ∧ bytes.length = size) := by
  rw [fread]
  by_cases hzero : size = 0
  · rw [if_pos hzero]
    exact ⟨_, _, _, rfl, Nat.zero_le _, iff_of_false (by decide) (fun h => h.1 hzero),
      fun h => absurd h (by decide)⟩
  · rw [if_neg hzero]
    by_cases hlt : fp.length < size
    · rw [if_pos hlt]
      exact ⟨_, _, _, rfl, Nat.le_of_lt hlt, iff_of_false (by decide) (fun h => by omega),
        fun h => absurd h (by decide)⟩
    · have hlen : (fp.take size).length = size := List.length_take_of_le (Nat.le_of_not_lt hlt)
      rw [if_neg hlt]
      exact ⟨_, _, _, rfl, Nat.le_of_eq hlen, iff_of_true rfl ⟨hzero, Nat.le_of_not_lt hlt⟩,
        fun _ => ⟨rfl, hlen⟩⟩

theorem fread_one {fp : List Byte} {size : Nat} (hpos : 0 < size) (hlen : size ≤ fp.length) :
    fread fp size = (1, fp.take size, fp.drop size) := by
  rw [fread, if_neg (by omega), if_neg (by omega)]

theorem fread_short {fp : List Byte} {size : Nat} (h : fp.length < size) :
    fread fp size = (0, fp, []) := by
  rw [fread, if_neg (by omega), if_pos h]

/-- What `coff_load_headers` does with the rest of it: a value, and what is behind the headers. -/
structure HeadersLoaded (data : List Byte) (v : Vars) (ret : Int) (fp : List Byte) (v' : Vars) :
    Prop where
  tables : v'.tables = v.tables
  heap : v'.heap = v.heap
  accepts : ret = 0 ↔ Headers data
  fp_eq : ret = 0 → fp = data.drop (filhsz + leAt data 16 2)
  nscns : ret = 0 → fNscns v'.filhdr = leAt data 2 2

theorem HeadersLoaded.reject {data fp : List Byte} {v v' : Vars} (htables : v'.tables = v.tables)
    (hheap : v'.heap = v.heap) (hnot : ¬ Headers data) : HeadersLoaded data v (-1) fp v' where
  tables := htables
  heap := hheap
  accepts := ⟨fun h => absurd h (by decide), fun h => absurd h hnot⟩
  fp_eq := fun h => absurd h (by decide)
  nscns := fun h => absurd h (by decide)

/-- The headers are taken if they are right; the tables and the heap stay as they are. -/
theorem coffLoadHeaders_spec (file : String) (data : List Byte) {v : Vars}
    (hmachine : v.machine = none) (haoutmag : v.aoutmag = none) : ∃ ret fp v',
      coffLoadHeaders file data v = (ret, fp, v') ∧ HeadersLoaded data v ret fp v' := by
  rw [coffLoadHeaders]
  by_cases hlen : filhsz ≤ data.length
  · have hmagic : fMagic (v.filhdr.store 0 (data.take filhsz)) = leAt data 0 2 :=
      field_store_take _ data (by decide) hlen
    have hnscns : fNscns (v.filhdr.store 0 (data.take filhsz)) = leAt data 2 2 :=
      field_store_take _ data (by decide) hlen
    have hopthdr : fOpthdr (v.filhdr.store 0 (data.take filhsz)) = leAt data 16 2 :=
      field_store_take _ data (by decide) hlen
    rw [fread_one (by decide) hlen]
    dsimp only
    rw [if_neg (not_not_intro rfl), hmachine, Option.or_none, hmagic, hopthdr, haoutmag]
    by_cases hknown : findMachine machines (leAt data 0 2) = none
    · rw [if_pos hknown]
      refine ⟨_, _, _, rfl, .reject rfl rfl ?_⟩
      intro h
      exact (findMachine_known _).mpr h.machine hknown
    · have hmach := (findMachine_known _).mp hknown
      rw [if_neg hknown]
      by_cases hzero : leAt data 16 2 = 0
      · rw [if_pos hzero]
        refine ⟨_, _, _, rfl, rfl, rfl, iff_of_true rfl ⟨hlen, hmach, Or.inl hzero⟩, ?_,
          fun _ => hnscns⟩
        rw [hzero]
        exact fun _ => rfl
      · rw [if_neg hzero]
        by_cases hsize : leAt data 16 2 = aouthsz
        · rw [if_neg (not_not_intro hsize)]
          by_cases hfull : filhsz + aouthsz ≤ data.length
          · have hrest : aouthsz ≤ (data.drop filhsz).length := by
              rw [List.length_drop]
              omega
            have hmag : aoutMagic (v.aouthdr.store 0 ((data.drop filhsz).take aouthsz))
                = (BitVec.ofNat 16 (leAt data filhsz 2)).toInt := by
              have hfield := field_store_take v.aouthdr (data.drop filhsz)
                (show 0 + 2 ≤ aouthsz by decide) hrest
              exact congrArg (fun n => (BitVec.ofNat 16 n).toInt) hfield
            rw [fread_one (by decide) hrest]
            dsimp only
            rw [if_neg (not_not_intro rfl), Option.or_none, hmag]
            by_cases haout : findAoutmag aoutmags
                (BitVec.ofNat 16 (leAt data filhsz 2)).toInt = none
            · rw [if_pos haout]
              refine ⟨_, _, _, rfl, .reject rfl rfl ?_⟩
              intro h
              rcases h.opthdr with h0 | ⟨-, -, hk⟩
              · exact hzero h0
              · exact (findAoutmag_known _).mpr hk haout
            · rw [if_neg haout, List.drop_drop]
              refine ⟨_, _, _, rfl, rfl, rfl, iff_of_true rfl ⟨hlen, hmach,
                Or.inr ⟨hsize, hfull, (findAoutmag_known _).mp haout⟩⟩, ?_, fun _ => hnscns⟩
              rw [hsize]
              exact fun _ => rfl
          · have hrest : (data.drop filhsz).length < aouthsz := by
              rw [List.length_drop]
              omega
            rw [fread_short hrest]
            dsimp only
            rw [if_pos (by decide)]
            refine ⟨_, _, _, rfl, .reject rfl rfl ?_⟩
            intro h
            rcases h.opthdr with h0 | ⟨-, hf, -⟩
            · exact hzero h0
            · exact hfull hf
        · rw [if_pos hsize]
          refine ⟨_, _, _, rfl, .reject rfl rfl ?_⟩
          intro h
          rcases h.opthdr with h0 | ⟨hs, -, -⟩
          · exact hzero h0
          · exact hsize hs
  · rw [fread_short (Nat.lt_of_not_le hlen)]
    dsimp only
    rw [if_pos (by decide)]
    refine ⟨_, _, _, rfl, .reject rfl rfl ?_⟩
    exact fun h => hlen h.header

/-! ## The sections -/

/-- A table of `n` pointers, all of them `NULL`. -/
def NullTable (h : Heap) (p n : Nat) : Prop :=
  ∃ b, h.block p = some b ∧ b.size = 8 * n ∧ ∀ i, i < n → b.mem.field (8 * i) 8 = 0

theorem ofLe_zeros (n : Nat) : ofLe (List.replicate n 0) = 0 := by
  induction n with
  | zero => rfl
  | succ n ih =>
      rw [List.replicate_succ, ofLe, ih]
      rfl

/-- `malloc` and `memset` -/
theorem nullTable_malloc {alloc : Nat → Nat → Option Obj} (halloc : ∀ p size, alloc p size ≠ none)
    (h : Heap) (n : Nat) : ∃ p h₁ h₂, h.malloc alloc (8 * n) = some (p, h₁) ∧
      h₁.store p 0 (List.replicate (8 * n) 0) = some h₂ ∧ 0 < p ∧ h.block p = none ∧
      (∀ q, q ≠ p → h₂.block q = h.block q) ∧ NullTable h₂ p n := by
  rcases h.malloc_spec (halloc _ (8 * n)) with ⟨p, junk, h₁, hmalloc, hpos, hnew, hblock⟩
  have hp : h₁.block p = some ⟨8 * n, junk⟩ := by
    rw [hblock, Function.update_self]
  have hfits : 0 + (List.replicate (8 * n) (0 : Byte)).length ≤ 8 * n := by
    rw [List.length_replicate, Nat.zero_add]
  rcases h₁.store_spec hp hfits with ⟨h₂, hstore, hblock₂⟩
  refine ⟨p, h₁, h₂, hmalloc, hstore, hpos, hnew, ?_, ?_⟩
  · intro q hq
    rw [hblock₂, Function.update_of_ne hq, hblock, Function.update_of_ne hq]
  · refine ⟨_, by rw [hblock₂, Function.update_self], rfl, ?_⟩
    intro i hi
    have hload := Obj.load_store_part junk 0
      (show 8 * i + 8 ≤ (List.replicate (8 * n) (0 : Byte)).length by
        rw [List.length_replicate]
        omega)
    rw [List.drop_replicate, List.take_replicate, Int.zero_add] at hload
    rw [Obj.field]
    exact (congrArg ofLe hload).trans (ofLe_zeros _)

theorem NullTable.congr {h h' : Heap} {p n : Nat} (ht : NullTable h p n)
    (heq : h'.block p = h.block p) : NullTable h' p n := by
  rcases ht with ⟨b, hb, hrest⟩
  exact ⟨b, heq.trans hb, hrest⟩

/-- `coff_cleanup` frees the pointers in a table, and the table. -/
theorem freeTable_spec {h : Heap} {p n : Nat} (ht : NullTable h p n) :
    ∃ h', freeTable h p n = some h' ∧ h'.block = Function.update h.block p none := by
  rcases ht with ⟨b, hb, hsize, hzero⟩
  have hpos := (h.block_range hb).1
  have hloop : ∀ l : List Nat, (∀ i ∈ l, i < n) → l.foldlM (fun h idx => do
      let q ← h.load p (8 * idx) 8
      h.free (ofLe q)) h = some h := by
    intro l hl
    induction l with
    | nil => rfl
    | cons i l ih =>
        rcases List.forall_mem_cons.mp hl with ⟨hi, hrest⟩
        have hload := h.load_spec hb (show 8 * i + 8 ≤ b.size by omega)
        have hnull : ofLe (b.mem.load ((8 * i : Nat) : Int) 8) = 0 := hzero i hi
        rw [List.foldlM_cons, hload]
        simp only [Option.bind_eq_bind, Option.bind_some, hnull, Heap.free_null]
        exact ih hrest
  rcases h.free_spec hb with ⟨h', hfree, hblock⟩
  refine ⟨h', ?_, hblock⟩
  rw [freeTable, if_neg (Nat.ne_of_gt hpos), hloop _ (fun i hi => List.mem_range.mp hi)]
  exact hfree

/-- What `coff_load_sections` leaves: three blocks, and the bytes of the section headers. -/
structure SectionsLoaded (n : Nat) (fp : List Byte) (ret : Int) (v : Vars) : Prop where
  nscns : fNscns v.filhdr = n
  relocs : NullTable v.heap v.relocs n
  secdata : NullTable v.heap v.secdata n
  scnhdrs : ∃ b, v.heap.block v.scnhdrs = some b ∧ b.size = scnhsz * n ∧
    (ret = 0 → b.mem.load 0 (scnhsz * n) = fp.take (scnhsz * n))
  symtab : v.symtab = 0
  strtab : v.strtab = 0
  apart : v.relocs ≠ v.secdata ∧ v.relocs ≠ v.scnhdrs ∧ v.secdata ≠ v.scnhdrs
  accepts : ret = 0 ↔ n ≠ 0 ∧ scnhsz * n ≤ fp.length

theorem coffLoadSections_spec {alloc : Nat → Nat → Option Obj}
    (halloc : ∀ p size, alloc p size ≠ none) (file : String) (fp : List Byte) {v : Vars}
    (hnull : ∀ p ∈ v.tables, p = 0) : ∃ ret v', coffLoadSections alloc file fp v = some (ret, v') ∧
      SectionsLoaded (fNscns v.filhdr) fp ret v' := by
  rw [coffLoadSections]
  generalize hn : fNscns v.filhdr = n
  rcases nullTable_malloc halloc v.heap n with ⟨p, g₁, h₁, hmalloc₁, hstore₁, hp, -, hsame₁, hrelocs⟩
  rcases nullTable_malloc halloc h₁ n with
    ⟨q, g₂, h₂, hmalloc₂, hstore₂, hq, hqnew, hsame₂, hsecdata⟩
  rcases h₂.malloc_spec (halloc _ (scnhsz * n)) with ⟨r, junk, h₃, hmalloc₃, hr, hrnew, hblock₃⟩
  -- a block that is new is none of those before
  have hpq : p ≠ q := by
    rintro rfl
    rcases hrelocs with ⟨b, hb, -⟩
    rw [hqnew] at hb
    cases hb
  have hqr : q ≠ r := by
    rintro rfl
    rcases hsecdata with ⟨b, hb, -⟩
    rw [hrnew] at hb
    cases hb
  have hpr : p ≠ r := by
    rintro rfl
    rcases hrelocs with ⟨b, hb, -⟩
    rw [hsame₂ p hpq, hb] at hrnew
    cases hrnew
  have hself : h₃.block r = some ⟨scnhsz * n, junk⟩ := by
    rw [hblock₃, Function.update_self]
  rw [hmalloc₁]
  simp only [Option.bind_eq_bind, Option.bind_some, hstore₁, hmalloc₂, hstore₂, hmalloc₃]
  have hsymtab : v.symtab = 0 := hnull _ (by simp [Vars.tables])
  have hstrtab : v.strtab = 0 := hnull _ (by simp [Vars.tables])
  rcases fread_spec fp (scnhsz * n) with ⟨cnt, bytes, fp', hread, hbytes, hcnt, hfull⟩
  have hfits : 0 + bytes.length ≤ scnhsz * n := by omega
  rcases h₃.store_spec hself hfits with ⟨h₄, hstore₄, hblock₄⟩
  have hkept : ∀ x, x ≠ r → h₄.block x = h₂.block x := by
    intro x hx
    rw [hblock₄, Function.update_of_ne hx, hblock₃, Function.update_of_ne hx]
  have haccepts : cnt = 1 ↔ n ≠ 0 ∧ scnhsz * n ≤ fp.length := by
    have hzero : scnhsz * n = 0 ↔ n = 0 := by
      rw [Nat.mul_eq_zero, or_iff_right (by decide)]
    rw [hcnt, ne_eq, hzero]
  have hloaded : ∀ (ret : Int) (w : Vars), w.filhdr = v.filhdr → w.heap = h₄ → w.relocs = p →
      w.secdata = q → w.scnhdrs = r → w.symtab = v.symtab → w.strtab = v.strtab →
        (ret = 0 ↔ cnt = 1) → SectionsLoaded n fp ret w := by
    rintro ret w hfilhdr hheap rfl rfl rfl hsym hstr hret
    refine ⟨by rw [hfilhdr, hn], ?_, ?_, ?_, by rw [hsym, hsymtab], by rw [hstr, hstrtab],
      ⟨hpq, hpr, hqr⟩, hret.trans haccepts⟩
    · rw [hheap]
      exact hrelocs.congr ((hkept _ hpr).trans (hsame₂ _ hpq))
    · rw [hheap]
      exact hsecdata.congr (hkept _ hqr)
    · refine ⟨⟨scnhsz * n, junk.store 0 bytes⟩, ?_, rfl, fun h => ?_⟩
      · rw [hheap, hblock₄]
        exact Function.update_self ..
      · have hload := Obj.load_store junk 0 bytes
        rcases hfull (hret.mp h) with ⟨rfl, hlen⟩
        rw [hlen] at hload
        exact hload
  rw [hread]
  dsimp only
  rw [hstore₄, Option.bind_some]
  by_cases hone : cnt = 1
  · rw [if_neg (not_not_intro hone)]
    exact ⟨0, _, rfl, hloaded _ _ rfl rfl rfl rfl rfl rfl rfl (iff_of_true rfl hone)⟩
  · rw [if_pos hone]
    exact ⟨-1, _, rfl, hloaded _ _ rfl rfl rfl rfl rfl rfl rfl (iff_of_false (by decide) hone)⟩

/-- `coff_cleanup` frees the three blocks and leaves no pointer. -/
theorem coffCleanup_spec {n : Nat} {fp : List Byte} {ret : Int} {v : Vars}
    (hv : SectionsLoaded n fp ret v) :
    ∃ v', coffCleanup v = some v' ∧ ∀ p ∈ v'.tables, p = 0 := by
  rcases hv.apart with ⟨hpq, hpr, hqr⟩
  rcases hv.scnhdrs with ⟨b, hb, -⟩
  rcases freeTable_spec hv.relocs with ⟨h₁, hfree₁, hblock₁⟩
  have hsecdata : NullTable h₁ v.secdata n := by
    refine hv.secdata.congr ?_
    rw [hblock₁, Function.update_of_ne hpq.symm]
  rcases freeTable_spec hsecdata with ⟨h₂, hfree₂, hblock₂⟩
  have hscnhdrs : h₂.block v.scnhdrs = some b := by
    rw [hblock₂, Function.update_of_ne hqr.symm, hblock₁, Function.update_of_ne hpr.symm, hb]
  rcases h₂.free_spec hscnhdrs with ⟨h₃, hfree₃, -⟩
  rw [coffCleanup, hv.nscns]
  simp only [Option.bind_eq_bind, Option.bind_some, hfree₁, hfree₂, hfree₃, hv.symtab, hv.strtab,
    Heap.free_null]
  refine ⟨_, rfl, ?_⟩
  simp [Vars.tables]

/-! ## The whole file -/

/-- A run on a file. It returns, and takes the files that meet the format and have sections. -/
theorem coffLoadFile_spec {alloc : Nat → Nat → Option Obj}
    (halloc : ∀ p size, alloc p size ≠ none) (file : String) (data : List Byte) {v : Vars}
    (hv : v.Clean) : ∃ ret v', coffLoadFile alloc file (some data) v = some (ret, v') ∧
      (ret = 0 ↔ Format data ∧ leAt data 2 2 ≠ 0) ∧
      (ret = 0 → ∀ i, i < leAt data 2 2 → v'.heap.load v'.scnhdrs (scnhsz * i) scnhsz
        = some ((data.drop (filhsz + leAt data 16 2 + scnhsz * i)).take scnhsz)) ∧
      (ret ≠ 0 → ∀ p ∈ v'.tables, p = 0) := by
  rw [coffLoadFile]
  rcases coffLoadHeaders_spec file data hv.machine hv.aoutmag with ⟨ret, fp, v₁, hheaders, hl⟩
  have hnull : ∀ p ∈ v₁.tables, p = 0 := by
    rw [hl.tables]
    exact hv.tables
  rw [hheaders]
  dsimp only
  by_cases hret : ret = 0
  · rcases coffLoadSections_spec halloc file fp hnull with ⟨ret₂, v₂, hsections, hs⟩
    rw [hl.nscns hret] at hs
    have hheader := hl.accepts.mp hret
    have hlength : fp.length = data.length - (filhsz + leAt data 16 2) := by
      rw [hl.fp_eq hret, List.length_drop]
    have hformat : Format data ↔ scnhsz * leAt data 2 2 ≤ fp.length ∨ leAt data 2 2 = 0 := by
      have hbehind : filhsz + leAt data 16 2 ≤ data.length := by
        have hlen := hheader.header
        rcases hheader.opthdr with h0 | ⟨hsize, hfull, -⟩ <;> omega
      constructor
      · intro h
        have hsec := h.sections
        omega
      · intro h
        refine ⟨hheader, ?_⟩
        rcases h with h | h
        · omega
        · rw [h]
          exact hbehind
    rw [if_neg (not_not_intro hret), hsections]
    simp only [Option.bind_eq_bind, Option.bind_some]
    by_cases hret₂ : ret₂ = 0
    · rw [if_neg (not_not_intro hret₂)]
      rcases hs.scnhdrs with ⟨b, hb, hsize, hbytes⟩
      have hfull := hs.accepts.mp hret₂
      refine ⟨0, v₂, rfl, iff_of_true rfl ⟨hformat.mpr (Or.inl hfull.2), hfull.1⟩, ?_,
        fun h => absurd rfl h⟩
      intro _ i hi
      have hfits : scnhsz * i + scnhsz ≤ scnhsz * leAt data 2 2 := by
        rw [← Nat.mul_succ]
        exact Nat.mul_le_mul_left _ hi
      have hpart := Obj.drop_load b.mem 0 hfits
      rw [hbytes hret₂, Int.zero_add] at hpart
      rw [v₂.heap.load_spec hb (by omega), ← hpart, hl.fp_eq hret, List.drop_take, List.take_take,
        List.drop_drop, Nat.min_eq_left (by omega)]
    · rw [if_pos hret₂]
      rcases coffCleanup_spec hs with ⟨v₃, hcleanup, hclean⟩
      rw [hcleanup]
      refine ⟨-1, v₃, rfl, iff_of_false (by decide) ?_, fun h => absurd h (by decide),
        fun _ => hclean⟩
      rintro ⟨hf, hne⟩
      exact hret₂ (hs.accepts.mpr ⟨hne, (hformat.mp hf).resolve_right hne⟩)
  · rw [if_pos hret]
    refine ⟨-1, v₁, rfl, iff_of_false (by decide) ?_, fun h => absurd h (by decide),
      fun _ => hnull⟩
    exact fun h => hret (hl.accepts.mpr h.1.toHeaders)

/-- **`coff_load_file`.** It takes exactly the files that meet the format, with the section headers
as they are in the file, and leaves no dangling pointer otherwise, unless the file meets the format
and has no sections. -/
theorem coffLoadFile_exact_iff {alloc : Nat → Nat → Option Obj}
    (halloc : ∀ p size, alloc p size ≠ none) (file : String) (data : List Byte) {v : Vars}
    (hv : v.Clean) :
    (∃ ret v', coffLoadFile alloc file (some data) v = some (ret, v') ∧ LoadsExactly data ret v') ↔
      ¬ (Format data ∧ leAt data 2 2 = 0) := by
  rcases coffLoadFile_spec halloc file data hv with ⟨ret, v', hrun, haccepts, hsections, hnull⟩
  constructor
  · rintro ⟨ret', v'', hrun', hexact⟩ ⟨hformat, hzero⟩
    rw [hrun, Option.some.injEq, Prod.mk.injEq] at hrun'
    rcases hrun' with ⟨rfl, rfl⟩
    exact (haccepts.mp (hexact.accepts.mpr hformat)).2 hzero
  · intro h
    refine ⟨ret, v', hrun, ?_, hsections, ?_⟩
    · rw [haccepts]
      exact ⟨fun hf => hf.1, fun hf => ⟨hf, fun hzero => h ⟨hf, hzero⟩⟩⟩
    · intro hret p hp hdangling
      exact hdangling.1 (hnull hret p hp)

/-- A header for `n` sections, of an i386 object, and nothing else in it. -/
def demoHeader (n : Nat) : List Byte :=
  leBytes 2 fMachI386 ++ leBytes 2 n ++ List.replicate 16 0

/-- One section. -/
theorem coffLoadFile_exact_iff_demo :
    (∃ ret v', coffLoadFile (fun _ _ => some fun _ => 0) "a.o"
        (some (demoHeader 1 ++ List.replicate 40 0x2E)) Vars.start = some (ret, v') ∧
      LoadsExactly (demoHeader 1 ++ List.replicate 40 0x2E) ret v') ↔
      ¬ (Format (demoHeader 1 ++ List.replicate 40 0x2E) ∧
        leAt (demoHeader 1 ++ List.replicate 40 0x2E) 2 2 = 0) :=
  coffLoadFile_exact_iff (fun _ _ => Option.some_ne_none _) "a.o" _ start_clean

theorem demoHeader_format : Format (demoHeader 0) where
  header := by decide
  machine := ⟨by decide, "Intel 80386", by decide⟩
  opthdr := Or.inl (by decide)
  sections := by decide

/-- A file with no sections is not taken. -/
theorem coffLoadFile_exact_counterexample :
    ¬ ∀ alloc : Nat → Nat → Option Obj, (∀ p size, alloc p size ≠ none) → ∀ file data,
      ∃ ret v', coffLoadFile alloc file (some data) Vars.start = some (ret, v') ∧
        LoadsExactly data ret v' := by
  intro h
  have halloc : ∀ p size : Nat, (fun _ _ => some fun _ => 0 : Nat → Nat → Option Obj) p size ≠ none :=
    fun _ _ => Option.some_ne_none _
  rcases h _ halloc "a.o" (demoHeader 0) with ⟨ret, v', hrun, hexact⟩
  rcases coffLoadFile_spec halloc "a.o" (demoHeader 0) start_clean with
    ⟨ret', v'', hrun', haccepts, -⟩
  rw [hrun, Option.some.injEq, Prod.mk.injEq] at hrun'
  rcases hrun' with ⟨rfl, rfl⟩
  exact (haccepts.mp (hexact.accepts.mpr demoHeader_format)).2 (by decide)

end StupidOS.Coff.Readcoff
