import StupidOS.Coff.Header
import StupidOS.Lib.File

/-!
# The symbols of an object (`ranlib`)

`coff_getsym` goes over the symbol table twice, to find the string table behind it and to take
the symbols. It counts the symbols only, where `f_nsyms` counts their auxiliary records too, and
reads the string table from behind its length field on, where the offsets of the names count from
the field. So it is right about objects where neither shows (`coffGetsym_walks_iff`).
-/

namespace StupidOS.Coff

/-! ## `ranlib/main.c` -/

/-- The name that `coff_addsym` has: at an offset from `strtab`, or in `nbuff`. -/
inductive SymName where
  | inStrtab (off : Int)
  | nbuff (bytes : List Byte)
deriving DecidableEq, Repr

variable (malloc : Nat → Bool)

/-- `coff_addsym`; the name is all that it makes, and it is nowhere kept. -/
def coffAddsym (syment : List Byte) : Option SymName :=
  if nScnum syment < 1 ∨ nSclass syment ≠ cExt then none
  -- `sizeof(struct rsym)`
  else if malloc 32 = false then none
  else if nZeroes syment = 0 then some (.inStrtab (nOffset syment))
  else some (.nbuff (nName syment ++ [0]))

/-- A call of `coff_addsym`, and the name that it makes. -/
structure AddsymCall where
  strtab : List Byte
  syment : List Byte
  name : Option SymName
deriving DecidableEq, Repr

variable (sys : Nat → ReadResult)

/-- The rest of a loop over the symbols: whether it comes to its end, and the symbols read. -/
def symentLoop : Nat → Fd → Bool × List (List Byte) × Fd
  | 0, fd => (true, [], fd)
  | n + 1, fd =>
    let (ret, syment, fd) := fd.read sys symesz
    if ret ≠ symesz then (false, [], fd)
    else
      -- skip auxent
      let fd := if nNumaux syment ≠ 0 then (fd.lseekCur (auxesz * nNumaux syment)).2 else fd
      let (ends, syments, fd) := symentLoop n fd
      (ends, syment :: syments, fd)

/-- `coff_getsym` behind the checks of the header, from `symtab` on and back to `off`. -/
def walkSymtab (off symtab : Int) (nsyms : Nat) (fd : Fd) : List AddsymCall × Fd :=
  -- load strtab but first we need to skip symtab
  let fd := (fd.lseekSet symtab).2
  let (ends, _, fd) := symentLoop sys nsyms fd
  if ends = false then ([], (fd.lseekSet off).2)
  else
    let (ret, bytes, fd) := fd.read sys 4
    let strtabsz := ofLe bytes
    if ret ≠ 4 then ([], (fd.lseekSet off).2)
    else if malloc strtabsz = false then ([], (fd.lseekSet off).2)
    else
      let (ret, strtab, fd) := fd.read sys strtabsz
      if ret ≠ strtabsz then ([], (fd.lseekSet off).2)
      else
        -- go back to symtab
        let fd := (fd.lseekSet symtab).2
        let (_, syments, fd) := symentLoop sys nsyms fd
        (syments.map (fun syment => ⟨strtab, syment, coffAddsym malloc syment⟩),
          (fd.lseekSet off).2)

/-- `coff_getsym`: the calls of `coff_addsym`, and the file. No offset in a file is so large that
the sum of two does not fit an `off_t`. -/
def coffGetsym (fd : Fd) : List AddsymCall × Fd :=
  let off := fd.pos
  let (ret, bytes, fd) := fd.read sys filhsz
  let hdr : Obj := Obj.store (fun _ => 0) 0 bytes
  if ret ≠ filhsz then ([], (fd.lseekSet off).2)
  else if fMagic hdr ≠ fMachI386 ∨ fFlags hdr &&& fExec ≠ 0 ∨ fFlags hdr &&& fLsyms ≠ 0 then
    ([], (fd.lseekSet off).2)
  else walkSymtab malloc sys off (off + fSymptr hdr) (fNsyms hdr).toNat fd

/-! ## Objects -/

/-- A symbol with its auxiliary records. -/
structure Symbol where
  syment : List Byte
  length_syment : syment.length = symesz
  aux : List Byte
  length_aux : aux.length = auxesz * leAt syment 17 1

def Symbol.bytes (s : Symbol) : List Byte := s.syment ++ s.aux

/-- `name` is the string at `n_offset` in a string table. -/
def LongName (table syment name : List Byte) : Prop :=
  0 ∉ name ∧ name ++ [0] <+: table.drop (nOffset syment).toNat

/-- An i386 object. `table` is the string table with its length field. -/
structure Object where
  hdr : List Byte
  sections : List Byte
  symbols : List Symbol
  table : List Byte
  length_hdr : hdr.length = filhsz
  magic : leAt hdr 0 2 = fMachI386
  symptr : (BitVec.ofNat 32 (leAt hdr 8 4)).toInt = filhsz + sections.length
  nsyms : (BitVec.ofNat 32 (leAt hdr 12 4)).toInt
    = ((symbols.map fun s => 1 + leAt s.syment 17 1).sum : Nat)
  table_size : 4 ≤ table.length ∧ leAt table 0 4 = table.length
  names : ∀ s ∈ symbols, nZeroes s.syment = 0 →
    4 ≤ nOffset s.syment ∧ ∃ name, LongName table s.syment name

namespace Object

variable (o : Object)

def symtab : List Byte := o.symbols.flatMap Symbol.bytes

def bytes : List Byte := o.hdr ++ (o.sections ++ (o.symtab ++ o.table))

/-- `f_flags` -/
def flags : Nat := leAt o.hdr 18 2

/-- `f_nsyms` -/
def records : Nat := (o.symbols.map fun s => 1 + leAt s.syment 17 1).sum

end Object

/-- What `coff_getsym` ought to do with an object at offset `off`. -/
structure Walks (o : Object) (off : Nat) (r : List AddsymCall × Fd) : Prop where
  symbols : r.1.map AddsymCall.syment = o.symbols.map Symbol.syment
  names : ∀ c ∈ r.1, nZeroes c.syment = 0 → ∀ name, LongName o.table c.syment name →
    LongName c.strtab c.syment name
  pos : r.2.pos = off

/-- An object about which it is right, with `after` behind it: there is no symbol; or the flags
are clear, there are no auxiliary records, the file goes on for 4 bytes at least, and each long
name is there 4 bytes further on as well. -/
def WalksRight (o : Object) (after : List Byte) : Prop :=
  o.symbols = [] ∨
    o.flags &&& fExec = 0 ∧ o.flags &&& fLsyms = 0 ∧ (∀ s ∈ o.symbols, s.aux = []) ∧
      4 ≤ after.length ∧ ∀ s ∈ o.symbols, nZeroes s.syment = 0 →
        ∀ name, LongName o.table s.syment name →
          LongName (o.table.drop 4 ++ after.take 4) s.syment name

/-! ## The loop over the symbols -/

section Reads

variable {malloc} {sys} {data : List Byte} (hsys : ReadsAll sys data.length)
include hsys

omit hsys in
theorem symentLoop_data (n : Nat) (fd : Fd) : (symentLoop sys n fd).2.2.data = fd.data := by
  induction n generalizing fd with
  | zero => rfl
  | succ n ih =>
      rw [symentLoop]
      dsimp only
      split
      · exact Fd.read_data ..
      · refine (ih _).trans ?_
        split
        · rw [Fd.lseekCur_snd]
          exact Fd.read_data ..
        · exact Fd.read_data ..

omit hsys in
theorem symentLoop_length (n : Nat) (fd : Fd) (hends : (symentLoop sys n fd).1 = true) :
    (symentLoop sys n fd).2.1.length = n := by
  induction n generalizing fd with
  | zero => rfl
  | succ n ih =>
      rw [symentLoop] at hends ⊢
      dsimp only at hends ⊢
      split at hends
      · cases hends
      next hret =>
        rw [if_neg hret, List.length_cons, ih _ hends]

/-- The second time it reads what it has read the first time. -/
theorem symentLoop_again (n pos calls calls' : Nat) :
    (symentLoop sys n ⟨data, pos, calls⟩).1 = (symentLoop sys n ⟨data, pos, calls'⟩).1 ∧
      (symentLoop sys n ⟨data, pos, calls⟩).2.1 = (symentLoop sys n ⟨data, pos, calls'⟩).2.1 := by
  induction n generalizing pos calls calls' with
  | zero => exact ⟨rfl, rfl⟩
  | succ n ih =>
      rw [symentLoop, symentLoop, Fd.read_all hsys, Fd.read_all hsys]
      dsimp only
      split
      · exact ⟨rfl, rfl⟩
      · rw [Fd.lseekCur_snd, Fd.lseekCur_snd]
        split
        · rcases ih _ (calls + 1) (calls' + 1) with ⟨hends, hsyments⟩
          exact ⟨hends, congrArg (List.cons _) hsyments⟩
        · rcases ih _ (calls + 1) (calls' + 1) with ⟨hends, hsyments⟩
          exact ⟨hends, congrArg (List.cons _) hsyments⟩

/-- Symbols without auxiliary records are read one after the other. -/
theorem symentLoop_plain (syments : List (List Byte))
    (hsyments : ∀ s ∈ syments, s.length = symesz ∧ nNumaux s = 0) (tail : List Byte) (pos calls : Nat)
    (hrest : data.drop pos = syments.flatten ++ tail) : ∃ pos' calls',
      symentLoop sys syments.length ⟨data, pos, calls⟩ = (true, syments, ⟨data, pos', calls'⟩) ∧
        data.drop pos' = tail := by
  induction syments generalizing pos calls with
  | nil => exact ⟨pos, calls, rfl, hrest⟩
  | cons s syments ih =>
      rcases List.forall_mem_cons.mp hsyments with ⟨⟨hlen, hnumaux⟩, hothers⟩
      rw [List.flatten_cons, List.append_assoc] at hrest
      have hread := Fd.read_all hsys pos calls symesz
      have hmin : min symesz (data.drop pos).length = symesz := by
        rw [hrest, List.length_append, hlen]
        exact Nat.min_eq_left (Nat.le_add_right ..)
      have hnext : data.drop (pos + symesz) = syments.flatten ++ tail := by
        rw [← List.drop_drop, hrest, List.drop_left' hlen]
      rcases ih hothers _ (calls + 1) hnext with ⟨pos', calls', hloop, hdrop⟩
      rw [hmin, hrest, List.take_left' hlen] at hread
      refine ⟨pos', calls', ?_, hdrop⟩
      rw [List.length_cons, symentLoop, hread]
      dsimp only
      rw [if_neg (not_not_intro rfl), if_neg (not_not_intro hnumaux), hloop]

/-! ## The walk -/

omit hsys in
theorem walkSymtab_pos (off : Nat) (symtab : Int) (n : Nat) (fd : Fd) :
    (walkSymtab malloc sys off symtab n fd).2.pos = off := by
  have hback : ∀ fd : Fd, (fd.lseekSet off).2.pos = off := by
    intro fd
    rw [Fd.lseekSet_nat]
  rw [walkSymtab]
  dsimp only
  split
  · exact hback _
  · split
    · exact hback _
    · split
      · exact hback _
      · split <;> exact hback _

/-- Whatever it reads, it calls `coff_addsym` for none or for `f_nsyms` symbols. -/
theorem walkSymtab_count (off : Int) (symtab n : Nat) {fd : Fd} (hdata : fd.data = data) :
    (walkSymtab malloc sys off symtab n fd).1 = [] ∨
      (walkSymtab malloc sys off symtab n fd).1.length = n := by
  subst hdata
  have hdata : (symentLoop sys n ⟨fd.data, symtab, fd.calls⟩).2.2.data = fd.data :=
    symentLoop_data ..
  rw [walkSymtab, Fd.lseekSet_nat]
  dsimp only
  generalize hfirst : symentLoop sys n ⟨fd.data, symtab, fd.calls⟩ = first at hdata
  split
  · exact Or.inl rfl
  next hends =>
    split
    · exact Or.inl rfl
    · split
      · exact Or.inl rfl
      · split
        · exact Or.inl rfl
        · right
          rw [List.length_map, Fd.lseekSet_nat]
          dsimp only
          rw [Fd.read_data, Fd.read_data, hdata]
          have hagain := symentLoop_again hsys n symtab fd.calls
          rw [← (hagain _).2, symentLoop_length n _ ?_]
          rw [hfirst]
          exact Bool.eq_true_of_not_eq_false hends

/-- No auxiliary records: the symbols are found if the file goes on for 4 bytes behind the string
table, which are taken for its last. -/
theorem walkSymtab_plain {fd : Fd} (hdata : fd.data = data) (off symtab : Nat)
    (syments : List (List Byte)) (hsyments : ∀ s ∈ syments, s.length = symesz ∧ nNumaux s = 0)
    {table after : List Byte} (hsize : 4 ≤ table.length ∧ leAt table 0 4 = table.length)
    (hmalloc : malloc table.length = true)
    (hrest : data.drop symtab = syments.flatten ++ (table ++ after)) :
    (walkSymtab malloc sys off symtab syments.length fd).1
      = if after.length < 4 then []
        else syments.map fun s => ⟨table.drop 4 ++ after.take 4, s, coffAddsym malloc s⟩ := by
  subst hdata
  rcases hsize with ⟨hfour, hlen⟩
  rcases symentLoop_plain hsys syments hsyments _ symtab fd.calls hrest with
    ⟨pos, calls, hloop, hbehind⟩
  -- the length field
  have hfield := Fd.read_all hsys pos calls 4
  have hmin : min 4 (fd.data.drop pos).length = 4 := by
    rw [hbehind, List.length_append]
    omega
  have hsz : ofLe (table.take 4) = table.length := hlen
  rw [hmin, hbehind, List.take_append_of_le_length hfour] at hfield
  -- and as many bytes as it says, behind it
  have htable := Fd.read_all hsys (pos + 4) (calls + 1) table.length
  have hrest' : fd.data.drop (pos + 4) = table.drop 4 ++ after := by
    rw [← List.drop_drop, hbehind, List.drop_append_of_le_length hfour]
  have hlength : (table.drop 4 ++ after).length = table.length - 4 + after.length := by
    rw [List.length_append, List.length_drop]
  rw [hrest', hlength] at htable
  rw [walkSymtab, Fd.lseekSet_nat]
  dsimp only
  rw [hloop]
  dsimp only
  rw [if_neg (by decide), hfield]
  dsimp only
  rw [if_neg (by decide), hsz, hmalloc, if_neg (by decide), htable]
  dsimp only
  by_cases hshort : after.length < 4
  · rw [if_pos hshort, if_pos (by omega)]
  · have htake : (table.drop 4 ++ after).take table.length = table.drop 4 ++ after.take 4 := by
      rw [List.take_append, List.length_drop, List.take_of_length_le (by
        rw [List.length_drop]
        omega), Nat.sub_sub_self hfour]
    rw [if_neg hshort, if_neg (by omega), Fd.lseekSet_nat, htake]
    dsimp only
    rw [← (symentLoop_again hsys syments.length symtab fd.calls _).2, hloop]

/-! ## The whole object -/

/-- `coff_getsym` takes the header of an object, and goes to its symbol table. -/
theorem coffGetsym_object (o : Object) {off : Nat} {after : List Byte}
    (hrest : data.drop off = o.bytes ++ after) (calls : Nat) :
    coffGetsym malloc sys ⟨data, off, calls⟩
      = if o.flags &&& fExec ≠ 0 ∨ o.flags &&& fLsyms ≠ 0 then ([], ⟨data, off, calls + 1⟩)
        else walkSymtab malloc sys off (off + (filhsz + o.sections.length) : Nat) o.records
          ⟨data, off + filhsz, calls + 1⟩ := by
  have hlen := o.length_hdr
  have hread := Fd.read_all hsys off calls filhsz
  have hmin : min filhsz (data.drop off).length = filhsz := by
    rw [hrest, Object.bytes, List.append_assoc, List.length_append, hlen]
    exact Nat.min_eq_left (Nat.le_add_right ..)
  rw [hmin, hrest, Object.bytes, List.append_assoc, List.take_left' hlen] at hread
  have hfield : ∀ k n : Nat, k + n ≤ filhsz →
      (Obj.store (fun _ => 0) 0 o.hdr).field k n = leAt o.hdr k n := by
    intro k n hkn
    exact field_store _ (by omega)
  have hmagic : fMagic (Obj.store (fun _ => 0) 0 o.hdr) = fMachI386 :=
    (hfield 0 2 (by decide)).trans o.magic
  have hflags : fFlags (Obj.store (fun _ => 0) 0 o.hdr) = o.flags := hfield 18 2 (by decide)
  have hsymptr : fSymptr (Obj.store (fun _ => 0) 0 o.hdr) = filhsz + o.sections.length := by
    rw [← o.symptr, ← hfield 8 4 (by decide)]
    rfl
  have hnsyms : (fNsyms (Obj.store (fun _ => 0) 0 o.hdr)).toNat = o.records := by
    have h := o.nsyms
    rw [← hfield 12 4 (by decide)] at h
    exact (congrArg Int.toNat h).trans (Int.toNat_natCast _)
  have hnot : ¬ fMachI386 ≠ fMachI386 := not_not_intro rfl
  rw [coffGetsym]
  dsimp only
  rw [hread]
  dsimp only
  rw [if_neg (not_not_intro rfl), hmagic, hflags, hsymptr, hnsyms]
  by_cases hskipped : o.flags &&& fExec ≠ 0 ∨ o.flags &&& fLsyms ≠ 0
  · rw [if_pos (Or.inr hskipped), if_pos hskipped, Fd.lseekSet_nat]
  · rw [if_neg (not_or.mpr ⟨hnot, hskipped⟩), if_neg hskipped]
    rfl

omit hsys in
theorem coffGetsym_pos (fd : Fd) : (coffGetsym malloc sys fd).2.pos = fd.pos := by
  rw [coffGetsym]
  dsimp only
  split
  · rw [Fd.lseekSet_nat]
  · split
    · rw [Fd.lseekSet_nat]
    · exact walkSymtab_pos ..

end Reads

namespace Object

variable (o : Object)

/-- There are more records than symbols if some are auxiliary. -/
theorem records_eq_iff : o.records = o.symbols.length ↔ ∀ s ∈ o.symbols, s.aux = [] := by
  have hsum : ∀ l : List Symbol, (l.map fun s => 1 + leAt s.syment 17 1).sum
      = l.length + (l.map fun s => leAt s.syment 17 1).sum := by
    intro l
    induction l with
    | nil => rfl
    | cons s l ih =>
        rw [List.map_cons, List.sum_cons, ih, List.map_cons, List.sum_cons, List.length_cons]
        omega
  rw [records, hsum, Nat.add_eq_left, List.sum_eq_zero_iff_forall_eq_nat,
    List.forall_mem_map]
  refine forall₂_congr fun s _ => ?_
  have hlen := s.length_aux
  rw [← List.length_eq_zero_iff, hlen, Nat.mul_eq_zero, or_iff_right (by decide)]

theorem symtab_plain (haux : ∀ s ∈ o.symbols, s.aux = []) :
    o.symtab = (o.symbols.map Symbol.syment).flatten := by
  rw [symtab, List.flatMap_def]
  refine congrArg List.flatten (List.map_congr_left fun s hs => ?_)
  rw [Symbol.bytes, haux s hs, List.append_nil]

theorem syments_plain (haux : ∀ s ∈ o.symbols, s.aux = []) :
    ∀ s ∈ o.symbols.map Symbol.syment, s.length = symesz ∧ nNumaux s = 0 := by
  rw [List.forall_mem_map]
  intro s hs
  have hlen := s.length_aux
  have hnone : leAt s.syment 17 1 = 0 := by
    rw [haux s hs, List.length_nil, eq_comm, Nat.mul_eq_zero] at hlen
    exact hlen.resolve_left (by decide)
  refine ⟨s.length_syment, ?_⟩
  rw [nNumaux, hnone]
  rfl

end Object

variable {malloc} {sys}

/-- **`coff_getsym`.** For an object anywhere in a file, it calls `coff_addsym` for its symbols and
with their names, exactly if there is no symbol, or neither flags, auxiliary records nor long names
show what it does wrong and the file goes on behind the object. -/
theorem coffGetsym_walks_iff (o : Object) (before after : List Byte)
    (hsys : ReadsAll sys (before ++ (o.bytes ++ after)).length)
    (hmalloc : ∀ size, 0 < size → malloc size = true) (calls : Nat) :
    Walks o before.length
        (coffGetsym malloc sys ⟨before ++ (o.bytes ++ after), before.length, calls⟩) ↔
      WalksRight o after := by
  have hrest : (before ++ (o.bytes ++ after)).drop before.length = o.bytes ++ after :=
    List.drop_left' rfl
  generalize before ++ (o.bytes ++ after) = data at hsys hrest ⊢
  generalize before.length = off at hrest ⊢
  have hpos : (coffGetsym malloc sys ⟨data, off, calls⟩).2.pos = off := coffGetsym_pos _
  -- no call is right only if there is no symbol
  have hnocalls : (coffGetsym malloc sys ⟨data, off, calls⟩).1 = [] →
      (Walks o off (coffGetsym malloc sys ⟨data, off, calls⟩) ↔ o.symbols = []) := by
    intro hnil
    constructor
    · intro h
      have hsymbols := h.symbols
      rw [hnil, List.map_nil, eq_comm, List.map_eq_nil_iff] at hsymbols
      exact hsymbols
    · intro hnone
      refine ⟨?_, ?_, hpos⟩
      · rw [hnil, hnone]
        rfl
      · rw [hnil]
        exact fun c hc => absurd hc List.not_mem_nil
  have hobject : coffGetsym malloc sys ⟨data, off, calls⟩ = _ :=
    coffGetsym_object hsys o hrest calls
  by_cases hskipped : o.flags &&& fExec ≠ 0 ∨ o.flags &&& fLsyms ≠ 0
  · rw [if_pos hskipped] at hobject
    rw [hnocalls (by rw [hobject]), WalksRight]
    refine ⟨Or.inl, fun h => h.resolve_right ?_⟩
    rintro ⟨hexec, hlsyms, -⟩
    exact hskipped.elim (fun h => h hexec) (fun h => h hlsyms)
  · rw [if_neg hskipped] at hobject
    rw [not_or, not_not, not_not] at hskipped
    by_cases haux : ∀ s ∈ o.symbols, s.aux = []
    · have hsymtab : data.drop (off + (filhsz + o.sections.length))
          = (o.symbols.map Symbol.syment).flatten ++ (o.table ++ after) := by
        have hbehind : o.bytes ++ after
            = (o.hdr ++ o.sections) ++ (o.symtab ++ (o.table ++ after)) := by
          simp only [Object.bytes, List.append_assoc]
        rw [← List.drop_drop, hrest, hbehind, ← o.symtab_plain haux]
        exact List.drop_left' (by rw [List.length_append, o.length_hdr])
      have hfd : (⟨data, off + filhsz, calls + 1⟩ : Fd).data = data := rfl
      have hsize : 0 < o.table.length := Nat.lt_of_lt_of_le (by decide) o.table_size.1
      have hwalk := walkSymtab_plain hsys hfd off _ _ (o.syments_plain haux) o.table_size
        (hmalloc _ hsize) hsymtab
      rw [List.length_map, ← o.records_eq_iff.mpr haux, ← hobject] at hwalk
      by_cases hshort : after.length < 4
      · rw [if_pos hshort] at hwalk
        rw [hnocalls hwalk, WalksRight]
        refine ⟨Or.inl, fun h => h.resolve_right ?_⟩
        rintro ⟨-, -, -, hlong, -⟩
        omega
      · rw [if_neg hshort, List.map_map] at hwalk
        constructor
        · intro h
          refine Or.inr ⟨hskipped.1, hskipped.2, haux, by omega, ?_⟩
          intro s hs hlong name hname
          have hcall : (⟨o.table.drop 4 ++ after.take 4, s.syment, coffAddsym malloc s.syment⟩ :
              AddsymCall) ∈ (coffGetsym malloc sys ⟨data, off, calls⟩).1 := by
            rw [hwalk]
            exact List.mem_map.mpr ⟨s, hs, rfl⟩
          exact h.names _ hcall hlong name hname
        · intro h
          refine ⟨?_, ?_, hpos⟩
          · rw [hwalk, List.map_map]
            rfl
          · intro c hc hlong name hname
            rw [hwalk] at hc
            rcases List.mem_map.mp hc with ⟨s, hs, rfl⟩
            rcases h with hnone | ⟨-, -, -, -, hnames⟩
            · rw [hnone] at hs
              exact absurd hs List.not_mem_nil
            · exact hnames s hs hlong name hname
    · -- the loops go on for the number of records
      have hfd : (⟨data, off + filhsz, calls + 1⟩ : Fd).data = data := rfl
      have hcount : (coffGetsym malloc sys ⟨data, off, calls⟩).1 = [] ∨
          (coffGetsym malloc sys ⟨data, off, calls⟩).1.length = o.records := by
        rw [hobject]
        exact walkSymtab_count hsys _ _ _ hfd
      have hne : o.symbols ≠ [] := by
        rintro hnone
        rw [hnone] at haux
        exact haux fun s hs => absurd hs List.not_mem_nil
      refine iff_of_false ?_ ?_
      · intro h
        rcases hcount with hnil | hlen
        · exact hne ((hnocalls hnil).mp h)
        · have hsymbols := congrArg List.length h.symbols
          rw [List.length_map, List.length_map, hlen] at hsymbols
          exact haux (o.records_eq_iff.mp hsymbols)
      · rintro (hnone | ⟨-, -, hplain, -⟩)
        · exact hne hnone
        · exact haux hplain

/-! ### Objects with one symbol -/

/-- The external symbol `a` with `n` auxiliary records. -/
def demoSymbol (n : Nat) : Symbol where
  syment := 0x61 :: List.replicate 11 0 ++ leBytes 2 1 ++ leBytes 2 0 ++ leBytes 1 2 ++ leBytes 1 n
  length_syment := rfl
  aux := List.replicate (auxesz * leAt _ 17 1) 0
  length_aux := List.length_replicate

/-- With no sections, and an empty string table. -/
def demoHdr (nsyms : Nat) : List Byte :=
  leBytes 2 fMachI386 ++ List.replicate 6 0 ++ leBytes 4 filhsz ++ leBytes 4 nsyms ++
    List.replicate 4 0

def demoObject (n : Nat) (hnsyms : (BitVec.ofNat 32 (leAt (demoHdr (1 + n)) 12 4)).toInt
    = (([demoSymbol n].map fun s => 1 + leAt s.syment 17 1).sum : Nat)) : Object where
  hdr := demoHdr (1 + n)
  sections := []
  symbols := [demoSymbol n]
  table := leBytes 4 4
  length_hdr := rfl
  magic := rfl
  symptr := rfl
  nsyms := hnsyms
  table_size := by decide
  names := by
    intro s hs hzero
    have hname : nZeroes (demoSymbol n).syment = 0x61 := rfl
    rw [List.mem_singleton.mp hs, hname] at hzero
    cases hzero

/-- No auxiliary record. -/
def demoPlain : Object := demoObject 0 (by decide)

/-- One auxiliary record. -/
def demoAux : Object := demoObject 1 (by decide)

/-- The symbol is found, when the file goes on behind the object. -/
theorem coffGetsym_walks_iff_demo :
    Walks demoPlain 0 (coffGetsym (fun _ => true) (fun _ => .upTo 64)
      ⟨demoPlain.bytes ++ [0, 0, 0, 0], 0, 0⟩) := by
  apply (coffGetsym_walks_iff demoPlain [] [0, 0, 0, 0] (fun _ => ⟨64, by decide, rfl⟩)
    (fun _ _ => rfl) 0).mpr
  refine Or.inr ⟨by decide, by decide, ?_, by decide, ?_⟩
  · intro s hs
    rw [List.mem_singleton.mp hs]
    rfl
  · intro s hs hzero
    have hname : nZeroes (demoSymbol 0).syment = 0x61 := rfl
    rw [List.mem_singleton.mp hs, hname] at hzero
    cases hzero

/-- The symbol is not found. -/
theorem coffGetsym_walks_counterexample :
    ¬ ∀ (o : Object) (before after : List Byte) (malloc : Nat → Bool) (sys : Nat → ReadResult),
      ReadsAll sys (before ++ (o.bytes ++ after)).length →
        (∀ size, 0 < size → malloc size = true) → ∀ calls, Walks o before.length
          (coffGetsym malloc sys ⟨before ++ (o.bytes ++ after), before.length, calls⟩) := by
  intro h
  have hsys : ReadsAll (fun _ => .upTo 64) ([] ++ (demoAux.bytes ++ [])).length :=
    fun _ => ⟨64, by decide, rfl⟩
  have hwalks := h demoAux [] [] (fun _ => true) _ hsys (fun _ _ => rfl) 0
  have hsymbols := congrArg List.length hwalks.symbols
  rw [coffGetsym_object hsys demoAux rfl 0, if_neg (by decide), List.length_map, List.length_map]
    at hsymbols
  have hfd : (⟨[] ++ (demoAux.bytes ++ []), 0 + filhsz, 1⟩ : Fd).data = _ := rfl
  have hcount : (walkSymtab (fun _ => true) (fun _ => .upTo 64) _ _ _ _).1 = [] ∨ _ :=
    walkSymtab_count hsys (0 : Nat) (0 + (filhsz + 0)) demoAux.records hfd
  rcases hcount with hnil | hlen
  · exact absurd ((congrArg List.length hnil).symm.trans hsymbols) (by decide)
  · exact absurd (hlen.symm.trans hsymbols) (by decide)

end StupidOS.Coff
