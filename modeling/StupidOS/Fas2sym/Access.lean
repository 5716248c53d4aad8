import StupidOS.Fas2sym.Failure
import StupidOS.Lib.Traced

/-!
# What `fas_export_symbols` touches (`fas.c`)

The functions of `fas.c` once more, now on memory and with a log of the bytes that they read and
write: the three tables through their pointers, and the array `name` on the stack. What the
calls into `elf.c` return has no part in that, so only the bytes they copy are noted. A file
that loads may still name strings that are not in its tables; `fasExportSymbols_inside` says
for which files the log stays inside the tables.
-/

namespace StupidOS.Fas2sym

/-! ## Memory -/

/-- The tables of a FAS file. -/
inductive FasTable where
  | strtab
  | symtab
  | psrc
deriving DecidableEq, Repr

/-- A table, if it was loaded. -/
def Fas.table (fas : Fas) : FasTable → Option (List Byte)
  | .strtab => fas.strtab
  | .symtab => fas.symtab
  | .psrc => fas.psrc

/-- The bytes allocated for a table; the pointer to one that was not loaded is `NULL`. -/
def Fas.tableSize (fas : Fas) (t : FasTable) : Nat := ((fas.table t).getD []).length

/-- A byte read through the pointer to a table, or one of `name`. -/
inductive Access where
  | table (t : FasTable) (off : Nat)
  | name (off : Nat)
deriving DecidableEq, Repr

/-- The byte belongs to what the pointer points to. -/
def Access.Inside (fas : Fas) : Access → Prop
  | .table t off => off < fas.tableSize t
  | .name off => off < 256

/-- A byte of `name`, if it is one of that. -/
def Access.InName : Access → Prop
  | .table _ _ => True
  | .name off => off < 256

instance (fas : Fas) : DecidablePred (Access.Inside fas)
  | .table t off => Nat.decLt off (fas.tableSize t)
  | .name off => Nat.decLt off 256

/-- The memory at the three pointers and around `name`. Outside the tables there is anything. -/
structure FasMem (fas : Fas) where
  obj : FasTable → Obj
  stack : Obj
  loaded : ∀ t, (obj t).load 0 (fas.tableSize t) = (fas.table t).getD []

/-- Memory with nothing else in it. -/
def FasMem.zero (fas : Fas) : FasMem fas where
  obj t := Obj.store (fun _ => 0) 0 ((fas.table t).getD [])
  stack := fun _ => 0
  loaded _ := Obj.load_store _ _ _

/-! ## `fas.c` -/

namespace Watched

/-- `strlen` of the string at `off`, with a bound on the bytes read. -/
def strlen (acc : Nat → Access) (o : Obj) : Nat → Nat → Traced Access Nat
  | 0, _ => Traced.cut
  | fuel + 1, off => do
    Traced.note [acc off]
    if o off = 0 then pure 0
    else do
      let n ← strlen acc o fuel (off + 1)
      pure (n + 1)

/-- The loop of `pstr2cstr`: where `dst` ends, and the array. -/
def pstrLoop (o : Obj) : Nat → Nat → Nat → Obj → Traced Access (Nat × Obj)
  | 0, dst, _, name => pure (dst, name)
  | psz + 1, dst, src, name => do
    Traced.note [.table .psrc src, .name dst]
    pstrLoop o psz (dst + 1) (src + 1) (name.store dst [o src])

/-- `pstr2cstr` into `name`. -/
def pstr2cstr (o : Obj) (src : Nat) (name : Obj) : Traced Access Obj := do
  Traced.note [.table .psrc src]
  let (dst, name) ← pstrLoop o (o src).toNat 0 (src + 1) name
  Traced.note [.name dst]
  pure (name.store dst [0])

/-- `elf_add_str` copies `len` bytes. -/
def elfAddStr (acc : Nat → Access) (off len : Nat) : Traced Access Unit :=
  Traced.note ((List.range len).map fun i => acc (off + i))

variable {fas : Fas} (mem : FasMem fas) (fuel : Nat)

/-- `fas_export_symbol_name` -/
def fasExportSymbolName (name_off : Word) : Traced Access Unit := do
  -- char name[256] = { 0 };
  Traced.note ((List.range 256).map .name)
  let name := mem.stack.store 0 (List.replicate 256 0)
  if name_off = 0 then pure () /- anonymous symbol -/
  else if name_off &&& 0x80000000 ≠ 0 then do
    let ptr := (name_off &&& ~~~0x80000000).toNat
    let len ← strlen (.table .strtab) (mem.obj .strtab) fuel ptr
    elfAddStr (.table .strtab) ptr (len + 1)
  else do
    let name ← pstr2cstr (mem.obj .psrc) name_off.toNat name
    let len ← strlen .name name fuel 0
    elfAddStr .name 0 (len + 1)

/-- `n` bytes of `fas_symtab[idx]`. -/
def field (idx off n : Nat) : Traced Access Unit :=
  Traced.note ((List.range n).map fun i => .table .symtab (32 * idx + off + i))

/-- The loop of `fas_export_symbols`. -/
def fasExportLoop : List Nat → Traced Access Unit
  | [] => pure ()
  | idx :: idxs => do
    let sym := FasSym.ofBytes ((mem.obj .symtab).load ((32 * idx : Nat) : Int) 32)
    field idx 8 2
    if sym.flags &&& fasSymDef = 0 ∨ sym.flags &&& fasSymAsmTime ≠ 0 then
      fasExportLoop idxs
    else do
      field idx 24 4
      fasExportSymbolName mem fuel sym.name_off
      field idx 0 8
      field idx 10 1
      fasExportLoop idxs

/-- `fas_export_symbols` -/
def fasExportSymbols : Traced Access Unit := do
  -- export file name symbol
  let name_ptr := fas.hdr.ifnm_off.toNat
  let len ← strlen (.table .strtab) (mem.obj .strtab) fuel name_ptr
  elfAddStr (.table .strtab) name_ptr (len + 1)
  fasExportLoop mem fuel (List.range fas.sym_cnt)

end Watched

/-! ## Strings -/

/-- A C string at `off` ends within an object of `size` bytes. -/
def Terminated (o : Obj) (size off : Nat) : Prop := ∃ n, off + n < size ∧ o (off + n) = 0

/-- The first NUL. -/
theorem Terminated.first {o : Obj} {size off : Nat} (h : Terminated o size off) :
    ∃ n : Nat, off + n < size ∧ o (off + n) = 0 ∧ ∀ j : Nat, j < n → o (off + j) ≠ 0 := by
  classical
  rcases h with ⟨k, hk, hnul⟩
  have hex : ∃ n : Nat, o (off + n) = 0 := ⟨k, hnul⟩
  have hle : Nat.find hex ≤ k := Nat.find_min' hex hnul
  exact ⟨Nat.find hex, by omega, Nat.find_spec hex, fun j hj => Nat.find_min hex hj⟩

namespace Watched

section Strings

variable (acc : Nat → Access) (o : Obj) (fuel off : Nat)

/-- One byte that is not the end. -/
theorem strlen_succ (h : o off ≠ 0) : strlen acc o (fuel + 1) off =
    ⟨acc off :: (strlen acc o fuel (off + 1)).log,
      (strlen acc o fuel (off + 1)).result.map (· + 1)⟩ := by
  rw [strlen, if_neg h]
  rcases strlen acc o fuel (off + 1) with ⟨log, _ | n⟩
  · rfl
  · change (⟨[acc off] ++ (log ++ []), some (n + 1)⟩ : Traced Access Nat) = _
    rw [List.append_nil]
    rfl

theorem map_range_succ (f : Nat → Access) (n : Nat) :
    (List.range (n + 1)).map (fun i => f (off + i))
      = f off :: (List.range n).map (fun i => f (off + 1 + i)) := by
  rw [List.range_succ_eq_map, List.map_cons, List.map_map]
  refine congrArg (f off :: ·) (List.map_congr_left ?_)
  intro i _
  exact congrArg f (by rw [Nat.succ_eq_add_one]; omega)

/-- Bytes that are not the end, seen from the next one. -/
theorem before_next {n : Nat} (h : ∀ j : Nat, j < n + 1 → o (off + j) ≠ 0) :
    o off ≠ 0 ∧ ∀ j : Nat, j < n → o ((off + 1 : Nat) + j) ≠ 0 := by
  constructor
  · have hfirst := h 0 (Nat.succ_pos n)
    rw [Int.natCast_zero, Int.add_zero] at hfirst
    exact hfirst
  · intro j hj
    have hnext := h (j + 1) (by omega)
    rw [Int.natCast_succ, ← Int.add_assoc, Int.add_right_comm] at hnext
    exact hnext

/-- `strlen` reads up to the first NUL. -/
theorem strlen_found {n : Nat} (hn : n < fuel) (hbefore : ∀ j : Nat, j < n → o (off + j) ≠ 0)
    (hnul : o (off + n) = 0) :
    strlen acc o fuel off = ⟨(List.range (n + 1)).map (fun i => acc (off + i)), some n⟩ := by
  induction n generalizing fuel off with
  | zero =>
      cases fuel with
      | zero => exact absurd hn (Nat.not_lt_zero 0)
      | succ fuel =>
          rw [Int.natCast_zero, Int.add_zero] at hnul
          rw [strlen, if_pos hnul]
          rfl
  | succ n ih =>
      cases fuel with
      | zero => exact absurd hn (Nat.not_lt_zero _)
      | succ fuel =>
          rcases before_next o off hbefore with ⟨hfirst, hrest⟩
          rw [Int.natCast_succ, ← Int.add_assoc, Int.add_right_comm] at hnul
          rw [strlen_succ acc o fuel off hfirst, ih fuel (off + 1) (by omega) hrest hnul,
            map_range_succ off acc (n + 1)]
          rfl

/-- Without a NUL `strlen` reads on. -/
theorem strlen_lost (hne : ∀ j : Nat, j < fuel → o (off + j) ≠ 0) :
    strlen acc o fuel off = ⟨(List.range fuel).map (fun i => acc (off + i)), none⟩ := by
  induction fuel generalizing off with
  | zero => rfl
  | succ fuel ih =>
      rcases before_next o off hne with ⟨hfirst, hrest⟩
      rw [strlen_succ acc o fuel off hfirst, ih (off + 1) hrest, map_range_succ off acc fuel]
      rfl

end Strings

section Copies

variable {acc : Nat → Access} {o : Obj} {size off : Nat} {P : Access → Prop}

/-- A string that ends within the object is read and copied inside. -/
theorem strlen_copy_only (hacc : ∀ i, i < size → P (acc i)) (h : Terminated o size off)
    (fuel : Nat) :
    (strlen acc o fuel off >>= fun len => elfAddStr acc off (len + 1)).Only P := by
  rcases h.first with ⟨n, hn, hnul, hbefore⟩
  rcases Nat.lt_or_ge n fuel with hlt | hge
  · rw [strlen_found acc o fuel off hlt hbefore hnul]
    intro e he
    rcases (Traced.mem_log_bind _ _ _).mp he with hread | ⟨len, hlen, hcopy⟩
    · rcases List.mem_map.mp hread with ⟨i, hi, rfl⟩
      exact hacc _ (by rw [List.mem_range] at hi; omega)
    · rw [← Option.some.inj hlen] at hcopy
      rcases List.mem_map.mp hcopy with ⟨i, hi, rfl⟩
      exact hacc _ (by rw [List.mem_range] at hi; omega)
  · rw [strlen_lost acc o fuel off (fun j hj => hbefore j (by omega))]
    intro e he
    rcases (Traced.mem_log_bind _ _ _).mp he with hread | ⟨len, hlen, -⟩
    · rcases List.mem_map.mp hread with ⟨i, hi, rfl⟩
      exact hacc _ (by rw [List.mem_range] at hi; omega)
    · cases hlen

/-- With time for the whole object the end is reached. -/
theorem strlen_copy_ends (h : Terminated o size off) {fuel : Nat} (hfuel : size ≤ fuel) :
    (strlen acc o fuel off >>= fun len => elfAddStr acc off (len + 1)).result = some () := by
  rcases h.first with ⟨n, hn, hnul, hbefore⟩
  rw [strlen_found acc o fuel off (by omega) hbefore hnul]
  rfl

/-- Without a NUL in the object what is behind it is read. -/
theorem strlen_copy_terminated (hacc : ∀ i, P (acc i) → i < size) {fuel : Nat}
    (hfuel : size < fuel)
    (h : (strlen acc o fuel off >>= fun len => elfAddStr acc off (len + 1)).Only P) :
    Terminated o size off := by
  by_contra hnot
  have hstrlen := ((Traced.only_bind _ _).mp h).1
  have hne : ∀ j : Nat, off + j < size → o (off + j) ≠ 0 := fun j hj hnul => hnot ⟨j, hj, hnul⟩
  -- the byte at `off` itself, or the first one behind the object
  have hread : acc (off + (size - off)) ∈ (strlen acc o fuel off).log := by
    by_cases hlost : ∀ j : Nat, j < fuel → o (off + j) ≠ 0
    · rw [strlen_lost acc o fuel off hlost]
      exact List.mem_map.mpr ⟨size - off, List.mem_range.mpr (by omega), rfl⟩
    · have hterm : Terminated o (off + fuel) off := by
        by_contra hnone
        exact hlost fun j hj hnul => hnone ⟨j, by omega, hnul⟩
      rcases hterm.first with ⟨n, hn, hnul, hbefore⟩
      rw [strlen_found acc o fuel off (by omega) hbefore hnul]
      have hfar : size ≤ off + n := by
        by_contra hnear
        exact hne n (by omega) hnul
      exact List.mem_map.mpr ⟨size - off, List.mem_range.mpr (by omega), rfl⟩
  have hlt := hacc _ (hstrlen _ hread)
  omega

end Copies

section Pascal

variable {fas : Fas} (o : Obj)

/-- The loop ends behind the bytes copied. -/
theorem pstrLoop_ends (psz dst src : Nat) (name : Obj) :
    ∃ name', (pstrLoop o psz dst src name).result = some (dst + psz, name') := by
  induction psz generalizing dst src name with
  | zero => exact ⟨name, rfl⟩
  | succ psz ih =>
      rcases ih (dst + 1) (src + 1) (name.store dst [o src]) with ⟨name', hname⟩
      refine ⟨name', (Traced.result_bind _ _ _).mpr ⟨(), rfl, ?_⟩⟩
      rw [hname, Nat.add_right_comm, Nat.add_assoc]

/-- The loop reads `psz` bytes and writes as many. -/
theorem pstrLoop_only {P : Access → Prop} (psz dst src : Nat) (name : Obj) :
    (pstrLoop o psz dst src name).Only P ↔
      ∀ i, i < psz → P (.table .psrc (src + i)) ∧ P (.name (dst + i)) := by
  induction psz generalizing dst src name with
  | zero => simp [pstrLoop]
  | succ psz ih =>
      have hshift : ∀ a i, a + 1 + i = a + (i + 1) := by
        intro a i
        omega
      rw [pstrLoop, Traced.only_bind]
      simp only [Traced.only_note, Traced.result_note, ih, hshift]
      constructor
      · rintro ⟨hfirst, hrest⟩ i hi
        cases i with
        | zero => exact ⟨hfirst _ (by simp), hfirst _ (by simp)⟩
        | succ i => exact hrest () trivial i (by omega)
      · intro h
        refine ⟨?_, fun _ _ i hi => h (i + 1) (by omega)⟩
        intro e he
        rcases List.mem_pair.mp he with rfl | rfl
        · exact (h 0 (Nat.succ_pos psz)).1
        · exact (h 0 (Nat.succ_pos psz)).2

/-- What is copied has room in `name`, which is a C string afterwards. -/
theorem pstr2cstr_ends (src : Nat) (name : Obj) :
    ∃ name', (pstr2cstr o src name).result = some name' ∧ Terminated name' 256 0 := by
  rcases pstrLoop_ends o (o src).toNat 0 (src + 1) name with ⟨name', hloop⟩
  rw [Nat.zero_add] at hloop
  refine ⟨name'.store ((o src).toNat : Nat) [0], ?_, (o src).toNat, ?_, ?_⟩
  · refine (Traced.result_bind _ _ _).mpr ⟨(), rfl, ?_⟩
    refine (Traced.result_bind _ _ _).mpr ⟨_, hloop, ?_⟩
    exact (Traced.result_bind _ _ _).mpr ⟨(), rfl, rfl⟩
  · have hlt := (o src).isLt
    omega
  · have hget : ([0] : List Byte)[0]? = some 0 := rfl
    have hin := Obj.store_in name' ((o src).toNat : Nat) hget
    rw [Int.natCast_zero, Int.add_zero] at hin
    rw [Int.natCast_zero, Int.zero_add]
    exact hin

/-- The length and as many bytes are read, and one more than that is written. -/
theorem pstr2cstr_only (src : Nat) (name : Obj) :
    (pstr2cstr o src name).Only (Access.Inside fas) ↔
      src + 1 + (o src).toNat ≤ fas.tableSize .psrc := by
  have hpsz := (o src).isLt
  rcases pstrLoop_ends o (o src).toNat 0 (src + 1) name with ⟨name', hloop⟩
  rw [Nat.zero_add] at hloop
  simp only [pstr2cstr, Traced.only_bind, Traced.only_note, Traced.result_note, pstrLoop_only,
    hloop, List.forall_mem_singleton, Access.Inside]
  constructor
  · rintro ⟨hfirst, hrest⟩
    rcases Nat.eq_zero_or_pos (o src).toNat with hzero | hpos
    · omega
    · have hlast := ((hrest () trivial).1 ((o src).toNat - 1) (by omega)).1
      omega
  · intro h
    refine ⟨by omega, fun _ _ => ⟨fun i hi => ⟨by omega, by omega⟩, ?_⟩⟩
    intro p hp
    rw [← Option.some.inj hp]
    exact ⟨by omega, fun _ _ => Traced.only_pure _⟩

end Pascal

section Symbols

variable {fas : Fas} (mem : FasMem fas) {fuel : Nat}

/-- The name of a symbol lies in its table. -/
def NameInside (name_off : Word) : Prop :=
  name_off = 0 ∨
  name_off &&& 0x80000000 ≠ 0 ∧
    Terminated (mem.obj .strtab) (fas.tableSize .strtab) (name_off &&& ~~~0x80000000).toNat ∨
  name_off &&& 0x80000000 = 0 ∧
    name_off.toNat + 1 + (mem.obj .psrc name_off.toNat).toNat ≤ fas.tableSize .psrc

/-- `fas_symtab[idx]` -/
def symAt (idx : Nat) : FasSym :=
  FasSym.ofBytes ((mem.obj .symtab).load ((32 * idx : Nat) : Int) 32)

variable {mem}

theorem fasExportSymbolName_only {name_off : Word} (h : NameInside mem name_off) (fuel : Nat) :
    (fasExportSymbolName mem fuel name_off).Only (Access.Inside fas) := by
  refine (Traced.only_bind _ _).mpr ⟨?_, fun _ _ => ?_⟩
  · intro e he
    rcases List.mem_map.mp he with ⟨i, hi, rfl⟩
    exact List.mem_range.mp hi
  by_cases hzero : name_off = 0
  · rw [if_pos hzero]
    exact Traced.only_pure _
  · rw [if_neg hzero]
    rcases h with hzero' | ⟨hbit, hterm⟩ | ⟨hbit, hpstr⟩
    · exact absurd hzero' hzero
    · rw [if_pos hbit]
      exact strlen_copy_only (fun i hi => hi) hterm fuel
    · rw [if_neg (not_not_intro hbit)]
      refine (Traced.only_bind _ _).mpr ⟨(pstr2cstr_only _ _ _).mpr hpstr, ?_⟩
      intro name hname
      rcases pstr2cstr_ends (mem.obj .psrc) name_off.toNat
        (mem.stack.store 0 (List.replicate 256 0)) with ⟨name', hname', hterm⟩
      rw [hname, Option.some.injEq] at hname'
      rw [hname']
      exact strlen_copy_only (fun i hi => hi) hterm fuel

theorem fasExportSymbolName_ends {name_off : Word} (h : NameInside mem name_off)
    (hfuel : fas.tableSize .strtab + 256 ≤ fuel) :
    (fasExportSymbolName mem fuel name_off).result = some () := by
  refine (Traced.result_bind _ _ _).mpr ⟨(), rfl, ?_⟩
  by_cases hzero : name_off = 0
  · rw [if_pos hzero]
    rfl
  · rw [if_neg hzero]
    rcases h with hzero' | ⟨hbit, hterm⟩ | ⟨hbit, -⟩
    · exact absurd hzero' hzero
    · rw [if_pos hbit]
      exact strlen_copy_ends hterm (by omega)
    · rw [if_neg (not_not_intro hbit)]
      rcases pstr2cstr_ends (mem.obj .psrc) name_off.toNat
        (mem.stack.store 0 (List.replicate 256 0)) with ⟨name', hname', hterm⟩
      exact (Traced.result_bind _ _ _).mpr ⟨name', hname', strlen_copy_ends hterm (by omega)⟩

theorem fasExportSymbolName_inside {name_off : Word}
    (hfuel : fas.tableSize .strtab + 256 ≤ fuel)
    (h : (fasExportSymbolName mem fuel name_off).Only (Access.Inside fas)) :
    NameInside mem name_off := by
  have hrest := ((Traced.only_bind _ _).mp h).2 () rfl
  by_cases hzero : name_off = 0
  · exact Or.inl hzero
  rw [if_neg hzero] at hrest
  by_cases hbit : name_off &&& 0x80000000 ≠ 0
  · rw [if_pos hbit] at hrest
    exact Or.inr (Or.inl ⟨hbit, strlen_copy_terminated (fun i hi => hi) (by omega) hrest⟩)
  · rw [if_neg hbit] at hrest
    have hpstr := (pstr2cstr_only _ _ _).mp ((Traced.only_bind _ _).mp hrest).1
    exact Or.inr (Or.inr ⟨not_not.mp hbit, hpstr⟩)

/-- A field of a symbol in the table. -/
theorem field_only {idx off n : Nat} (hidx : 32 * (idx + 1) ≤ fas.tableSize .symtab)
    (hoff : off + n ≤ 32) : (field idx off n).Only (Access.Inside fas) := by
  intro e he
  rcases List.mem_map.mp he with ⟨i, hi, rfl⟩
  rw [List.mem_range] at hi
  change 32 * idx + off + i < _
  omega

variable {idxs : List Nat}

/-- The loop reads fields of its symbols, and the names of those that are exported. -/
theorem fasExportLoop_of {P : Access → Prop}
    (hfield : ∀ idx ∈ idxs, ∀ off n, off + n ≤ 32 → (field idx off n).Only P)
    (hname : ∀ idx ∈ idxs, (symAt mem idx).kept →
      (fasExportSymbolName mem fuel (symAt mem idx).name_off).Only P) :
    (fasExportLoop mem fuel idxs).Only P := by
  induction idxs with
  | nil => exact Traced.only_pure _
  | cons idx idxs ih =>
      have hfields := hfield idx (List.mem_cons_self ..)
      have hrest := ih (fun i hi => hfield i (List.mem_cons_of_mem _ hi))
        (fun i hi => hname i (List.mem_cons_of_mem _ hi))
      refine (Traced.only_bind _ _).mpr ⟨hfields 8 2 (by decide), fun _ _ => ?_⟩
      split
      · exact hrest
      next hkept =>
        have hexport := hname idx (List.mem_cons_self ..) ((FasSym.kept_iff _).mpr hkept)
        refine (Traced.only_bind _ _).mpr ⟨hfields 24 4 (by decide), fun _ _ => ?_⟩
        refine (Traced.only_bind _ _).mpr ⟨hexport, fun _ _ => ?_⟩
        refine (Traced.only_bind _ _).mpr ⟨hfields 0 8 (by decide), fun _ _ => ?_⟩
        exact (Traced.only_bind _ _).mpr ⟨hfields 10 1 (by decide), fun _ _ => hrest⟩

/-- A loop that stays inside has found all its names inside. -/
theorem fasExportLoop_inside (hfuel : fas.tableSize .strtab + 256 ≤ fuel)
    (h : (fasExportLoop mem fuel idxs).Only (Access.Inside fas)) :
    ∀ idx ∈ idxs, (symAt mem idx).kept → NameInside mem (symAt mem idx).name_off := by
  induction idxs with
  | nil =>
      intro idx hidx
      exact absurd hidx List.not_mem_nil
  | cons idx idxs ih =>
      have hsym := ((Traced.only_bind _ _).mp h).2 () rfl
      -- the symbol is skipped, or its name is inside and the loop goes on
      split at hsym
      next hskip =>
        intro i hi hkept
        rcases List.mem_cons.mp hi with rfl | hi
        · exact absurd hskip ((FasSym.kept_iff _).mp hkept)
        · exact ih hsym i hi hkept
      next hkept =>
        have hcall := ((Traced.only_bind _ _).mp hsym).2 () rfl
        have hname := fasExportSymbolName_inside hfuel ((Traced.only_bind _ _).mp hcall).1
        have hfields := ((Traced.only_bind _ _).mp hcall).2 ()
          (fasExportSymbolName_ends hname hfuel)
        have hsize := ((Traced.only_bind _ _).mp hfields).2 () rfl
        have hrest := ((Traced.only_bind _ _).mp hsize).2 () rfl
        intro i hi hkept'
        rcases List.mem_cons.mp hi with rfl | hi
        · exact hname
        · exact ih hrest i hi hkept'

end Symbols

section Array

variable {fas : Fas}

theorem strlen_copy_table (t : FasTable) (o : Obj) (fuel off : Nat) :
    (strlen (.table t) o fuel off >>= fun len => elfAddStr (.table t) off (len + 1)).Only
      Access.InName := by
  refine (Traced.only_bind _ _).mpr ⟨?_, fun len _ e he => ?_⟩
  · induction fuel generalizing off with
    | zero => exact Traced.only_cut
    | succ fuel ih =>
        refine (Traced.only_bind _ _).mpr ⟨?_, fun _ _ => ?_⟩
        · intro e he
          rw [List.mem_singleton.mp he]
          trivial
        · split
          · exact Traced.only_pure _
          · exact (Traced.only_bind _ _).mpr ⟨ih (off + 1), fun _ _ => Traced.only_pure _⟩
  · rcases List.mem_map.mp he with ⟨i, -, rfl⟩
    trivial

/-- A Pascal string has at most 255 bytes, so its copy with the NUL fits. -/
theorem pstr2cstr_name (o : Obj) (src : Nat) (name : Obj) :
    (pstr2cstr o src name).Only Access.InName := by
  have hpsz := (o src).isLt
  rcases pstrLoop_ends o (o src).toNat 0 (src + 1) name with ⟨name', hloop⟩
  rw [Nat.zero_add] at hloop
  refine (Traced.only_bind _ _).mpr ⟨?_, fun _ _ => (Traced.only_bind _ _).mpr ⟨?_, ?_⟩⟩
  · intro e he
    rw [List.mem_singleton.mp he]
    trivial
  · rw [pstrLoop_only]
    intro i hi
    exact ⟨trivial, by change 0 + i < 256; omega⟩
  · intro p hp
    rw [hloop] at hp
    rw [← Option.some.inj hp]
    refine (Traced.only_bind _ _).mpr ⟨?_, fun _ _ => Traced.only_pure _⟩
    intro e he
    rw [List.mem_singleton.mp he]
    exact hpsz

theorem field_name (idx off n : Nat) : (field idx off n).Only Access.InName := by
  intro e he
  rcases List.mem_map.mp he with ⟨i, -, rfl⟩
  trivial

variable (mem : FasMem fas) (fuel : Nat)

theorem fasExportSymbolName_name (name_off : Word) :
    (fasExportSymbolName mem fuel name_off).Only Access.InName := by
  refine (Traced.only_bind _ _).mpr ⟨?_, fun _ _ => ?_⟩
  · intro e he
    rcases List.mem_map.mp he with ⟨i, hi, rfl⟩
    exact List.mem_range.mp hi
  split
  · exact Traced.only_pure _
  · split
    · exact strlen_copy_table .strtab _ _ _
    · refine (Traced.only_bind _ _).mpr ⟨pstr2cstr_name _ _ _, fun name hname => ?_⟩
      rcases pstr2cstr_ends (mem.obj .psrc) name_off.toNat
        (mem.stack.store 0 (List.replicate 256 0)) with ⟨name', hname', hterm⟩
      rw [hname, Option.some.injEq] at hname'
      rw [hname']
      exact strlen_copy_only (fun i hi => hi) hterm fuel

/-- Whatever the file, `name` is not overrun. -/
theorem fasExportSymbols_name : (fasExportSymbols mem fuel).Only Access.InName := by
  rw [fasExportSymbols, Traced.bind_assoc, Traced.only_bind]
  refine ⟨strlen_copy_table .strtab _ _ _, fun _ _ => fasExportLoop_of ?_ ?_⟩
  · intro idx _ off n _
    exact field_name idx off n
  · intro idx _ _
    exact fasExportSymbolName_name mem fuel _

end Array

end Watched

/-! ## Files -/

variable {fas : Fas}

/-- The tables have the sizes in the header. -/
theorem fasLoadFile_sizes {malloc : Nat → Bool} {file : Option (List Byte)}
    (hload : fasLoadFile malloc file = some fas) :
    fas.tableSize .strtab = fas.hdr.strtab_len.toNat ∧
      fas.tableSize .symtab = fas.hdr.symtab_len.toNat ∧
      fas.tableSize .psrc = fas.hdr.psrc_len.toNat ∧
      fas.sym_cnt = fas.hdr.symtab_len.toNat / 32 := by
  rcases fasLoadFile_tables hload with ⟨fp, -, hstrtab, hsymtab, hpsrc, hcnt⟩
  exact ⟨fasLoadTable_size hstrtab, fasLoadTable_size hsymtab, fasLoadTable_size hpsrc, hcnt⟩

/-- The names that the export asks for are in the tables. -/
structure NamesInside (fas : Fas) : Prop where
  file : ∃ name, CName fas.strtab fas.hdr.ifnm_off.toNat name
  symbols : ∀ sym ∈ fas.syms.filter FasSym.kept, ∃ name, FasName fas sym.name_off name

variable (mem : FasMem fas)

/-- A byte of a table. -/
theorem FasMem.byte {t : FasTable} {i : Nat} {table : List Byte} (htable : fas.table t = some table)
    (hi : i < table.length) : table[i]? = some (mem.obj t i) := by
  have hloaded := mem.loaded t
  rw [Fas.tableSize, htable, Option.getD_some] at hloaded
  have hget := Obj.getElem?_load (mem.obj t) 0 hi
  rw [hloaded, Int.zero_add] at hget
  exact hget

/-- A table with something in it. -/
theorem FasMem.table_load {t : FasTable} (hsize : 0 < fas.tableSize t) :
    fas.table t = some ((mem.obj t).load 0 (fas.tableSize t)) := by
  rw [mem.loaded t]
  rw [Fas.tableSize] at hsize
  cases htable : fas.table t with
  | none =>
      rw [htable] at hsize
      exact absurd hsize (Nat.lt_irrefl 0)
  | some table => rfl

theorem cname_iff (t : FasTable) (off : Nat) : (∃ name, CName (fas.table t) off name) ↔
    Terminated (mem.obj t) (fas.tableSize t) off := by
  constructor
  · rintro ⟨name, -, before, rest, htable, rfl⟩
    have hlen : before.length + name.length < (before ++ (name ++ 0 :: rest)).length := by
      simp
    refine ⟨name.length, ?_, ?_⟩
    · rw [Fas.tableSize, htable]
      exact hlen
    · have hbyte := mem.byte htable hlen
      rw [List.getElem?_append_right (by omega), Nat.add_sub_cancel_left,
        List.getElem?_append_right (Nat.le_refl _), Nat.sub_self, List.getElem?_cons_zero,
        Option.some.injEq] at hbyte
      rw [← Int.natCast_add]
      exact hbyte.symm
  · intro h
    rcases h.first with ⟨n, hn, hnul, hbefore⟩
    have hsize : fas.tableSize t = off + (n + (1 + (fas.tableSize t - (off + n + 1)))) := by omega
    refine ⟨(mem.obj t).load off n, ?_, (mem.obj t).load 0 off,
      (mem.obj t).load (off + n + (1 : Nat)) (fas.tableSize t - (off + n + 1)), ?_,
      Obj.length_load _ _ _⟩
    · intro hmem
      rcases List.mem_map.mp hmem with ⟨i, hi, hzero⟩
      exact hbefore i (List.mem_range.mp hi) hzero
    · rw [mem.table_load (by omega)]
      conv_lhs =>
        rw [hsize, Obj.load_append, Obj.load_append, Obj.load_append, Int.zero_add]
      change some (_ ++ (_ ++ ([mem.obj t (off + n + 0)] ++ _))) = _
      rw [Int.add_zero, hnul]
      rfl

theorem pname_iff (off : Nat) : (∃ name, PName fas.psrc off name) ↔
    off + 1 + (mem.obj .psrc off).toNat ≤ fas.tableSize .psrc := by
  constructor
  · rintro ⟨name, before, psz, src, rest, htable, rfl, hsrc, -⟩
    have hbyte := mem.byte (t := .psrc) (i := before.length) htable (by simp)
    rw [List.getElem?_append_right (Nat.le_refl _), Nat.sub_self, List.getElem?_cons_zero,
      Option.some.injEq] at hbyte
    rw [Fas.tableSize, show fas.table .psrc = _ from htable, ← hbyte, ← hsrc, Option.getD_some]
    simp
    omega
  · intro h
    refine ⟨_, (mem.obj .psrc).load 0 off, mem.obj .psrc off,
      (mem.obj .psrc).load (off + 1) (mem.obj .psrc off).toNat, (mem.obj .psrc).load
        (off + 1 + (mem.obj .psrc off).toNat)
        (fas.tableSize .psrc - (off + 1 + (mem.obj .psrc off).toNat)), ?_,
      Obj.length_load _ _ _, Obj.length_load _ _ _, rfl⟩
    have hsize : fas.tableSize .psrc = off + (1 + ((mem.obj .psrc off).toNat +
        (fas.tableSize .psrc - (off + 1 + (mem.obj .psrc off).toNat)))) := by omega
    change fas.table .psrc = _
    rw [mem.table_load (by omega)]
    conv_lhs => rw [hsize, Obj.load_append, Obj.load_append, Obj.load_append, Int.zero_add]
    change some (_ ++ ([mem.obj .psrc (off + 0)] ++ (_ ++ _))) = _
    rw [Int.add_zero]
    rfl

/-- Names in memory are names in the tables. -/
theorem nameInside_iff (name_off : Word) :
    Watched.NameInside mem name_off ↔ ∃ name, FasName fas name_off name := by
  constructor
  · rintro (rfl | ⟨hbit, hterm⟩ | ⟨hbit, hpstr⟩)
    · exact ⟨[], FasName.anonymous⟩
    · rcases (cname_iff mem .strtab _).mpr hterm with ⟨name, hname⟩
      exact ⟨name, FasName.inStrtab hbit hname⟩
    · rcases (pname_iff mem _).mpr hpstr with ⟨name, hname⟩
      by_cases hzero : name_off = 0
      · rw [hzero]
        exact ⟨[], FasName.anonymous⟩
      · exact ⟨name, FasName.inPsrc hzero hbit hname⟩
  · rintro ⟨name, hname⟩
    cases hname with
    | anonymous => exact Or.inl rfl
    | inStrtab hbit hname =>
        exact Or.inr (Or.inl ⟨hbit, (cname_iff mem .strtab _).mp ⟨name, hname⟩⟩)
    | inPsrc _ hbit hname => exact Or.inr (Or.inr ⟨hbit, (pname_iff mem _).mp ⟨name, hname⟩⟩)

/-- The symbols in memory are those of the table. -/
theorem syms_eq (hsyms : 32 * fas.sym_cnt ≤ fas.tableSize .symtab) :
    fas.syms = (List.range fas.sym_cnt).map (Watched.symAt mem) := by
  rw [Fas.syms]
  split
  next hnone =>
    rw [Fas.tableSize, show fas.table .symtab = none from hnone, Option.getD_none,
      List.length_nil] at hsyms
    have hzero : fas.sym_cnt = 0 := by omega
    rw [hzero]
    rfl
  next t ht =>
    have hloaded := mem.loaded .symtab
    have hsize : fas.tableSize .symtab = t.length := by
      rw [Fas.tableSize, show fas.table .symtab = some t from ht, Option.getD_some]
    rw [hsize, show fas.table .symtab = some t from ht, Option.getD_some] at hloaded
    refine List.map_congr_left ?_
    intro idx hidx
    rw [List.mem_range] at hidx
    have hpart := Obj.drop_load (mem.obj .symtab) 0 (k := 32 * idx) (m := 32) (n := t.length)
      (by omega)
    rw [hloaded, Int.zero_add] at hpart
    rw [Watched.symAt, ← hpart, FasSym.ofBytes, FasSym.ofBytes, half16At, half16At, byte8At,
      byte8At, word32At, word32At, leAt_take _ (by decide), leAt_take _ (by decide),
      leAt_take _ (by decide), leAt_take _ (by decide)]

/-- **The tables.** For every FAS file that loads, whatever lies around its tables, the export
reads and writes inside them and inside `name` if and only if the names are in the tables. -/
theorem fasExportSymbols_inside {malloc : Nat → Bool} {file : List Byte}
    (hload : fasLoadFile malloc (some file) = some fas) (mem : FasMem fas) :
    (∀ fuel, (Watched.fasExportSymbols mem fuel).Only (Access.Inside fas)) ↔ NamesInside fas := by
  have hsyms : 32 * fas.sym_cnt ≤ fas.tableSize .symtab := by
    rcases fasLoadFile_sizes hload with ⟨-, hsymtab, -, hcnt⟩
    omega
  have hsymbols : (∀ sym ∈ fas.syms.filter FasSym.kept, ∃ name, FasName fas sym.name_off name) ↔
      ∀ idx ∈ List.range fas.sym_cnt, (Watched.symAt mem idx).kept →
        Watched.NameInside mem (Watched.symAt mem idx).name_off := by
    simp only [syms_eq mem hsyms, nameInside_iff, List.mem_filter, List.mem_map, and_imp,
      forall_exists_index, forall_apply_eq_imp_iff₂]
  constructor
  · intro h
    have hlong := h (fas.tableSize .strtab + 256)
    rw [Watched.fasExportSymbols, Traced.bind_assoc, Traced.only_bind] at hlong
    have hfile := Watched.strlen_copy_terminated (fun i hi => hi) (by omega) hlong.1
    have hloop := hlong.2 () (Watched.strlen_copy_ends hfile (by omega))
    exact ⟨(cname_iff mem .strtab _).mpr hfile,
      hsymbols.mpr (Watched.fasExportLoop_inside (Nat.le_refl _) hloop)⟩
  · intro h fuel
    rw [Watched.fasExportSymbols, Traced.bind_assoc, Traced.only_bind]
    refine ⟨Watched.strlen_copy_only (fun i hi => hi) ((cname_iff mem .strtab _).mp h.file) fuel,
      fun _ _ => Watched.fasExportLoop_of ?_ ?_⟩
    · intro idx hidx off n hoff
      rw [List.mem_range] at hidx
      exact Watched.field_only (by omega) hoff
    · intro idx hidx hkept
      exact Watched.fasExportSymbolName_only (hsymbols.mp h.symbols idx hidx hkept) fuel

/-- A header and nothing else. -/
def bareFile : List Byte := [0x66, 0x61, 0x73, 0x1A] ++ List.replicate 60 0

/-- That file after `fas_load_file`. -/
def bareFas : Fas := ⟨FasHdr.ofBytes bareFile, none, none, none, 0⟩

/-- There is no string table, and the name of the file is read from it. -/
theorem fasExportSymbols_counterexample :
    ¬ ∀ (malloc : Nat → Bool) (file : List Byte) (fas : Fas),
      fasLoadFile malloc (some file) = some fas → ∀ (mem : FasMem fas) (fuel : Nat),
        (Watched.fasExportSymbols mem fuel).Only (Access.Inside fas) := by
  intro h
  have hload : fasLoadFile (fun _ => true) (some bareFile) = some bareFas := by decide +kernel
  have hread : Access.table .strtab 0 ∈
      (Watched.fasExportSymbols (FasMem.zero bareFas) 1).log := by decide
  exact absurd (h _ bareFile bareFas hload (FasMem.zero bareFas) 1 _ hread) (by decide)

theorem fasExportSymbols_inside_demo :
    (∀ fuel, (Watched.fasExportSymbols (FasMem.zero demoFas) fuel).Only (Access.Inside demoFas)) ↔
      NamesInside demoFas :=
  fasExportSymbols_inside demoFas_load (FasMem.zero demoFas)

/-! ## The export with its result -/

theorem tableCstr_name {table : Option (List Byte)} {off : Nat} {name : List Byte}
    (h : tableCstr table off = some name) : ∃ name, CName table off name := by
  cases table with
  | none => cases h
  | some t =>
      rw [tableCstr] at h
      split at h
      next hmem =>
        rcases List.eq_append_cons_of_mem hmem with ⟨as, bs, hdrop, hnul⟩
        have hlen : off ≤ t.length := by
          by_contra hlt
          rw [List.drop_eq_nil_of_le (by omega)] at hmem
          exact absurd hmem List.not_mem_nil
        refine ⟨as, hnul, t.take off, bs, ?_, by rw [List.length_take]; omega⟩
        rw [← hdrop, List.take_append_drop]
      · cases h

theorem pstr2cstr_name {table : Option (List Byte)} {off : Nat} {stored : List Byte}
    (h : pstr2cstr table off = some stored) : ∃ name, PName table off name := by
  cases table with
  | none => cases h
  | some t =>
      rw [pstr2cstr, Option.map_some] at h
      cases hdrop : t.drop off with
      | nil =>
          rw [hdrop] at h
          cases h
      | cons psz src =>
          rw [hdrop] at h
          dsimp only at h
          split at h
          next hle =>
            have hlen : off ≤ t.length := by
              by_contra hlt
              rw [List.drop_eq_nil_of_le (by omega)] at hdrop
              cases hdrop
            refine ⟨_, t.take off, psz, src.take psz.toNat, src.drop psz.toNat, ?_,
              by rw [List.length_take]; omega, by rw [List.length_take]; omega, rfl⟩
            rw [List.take_append_drop, ← hdrop, List.take_append_drop]
          · cases h

/-- A name that is found is in its table. -/
theorem fasSymbolName_name {name_off : Word} {name : List Byte} (hne : name_off ≠ 0)
    (h : fasSymbolName fas name_off = some name) : ∃ name, FasName fas name_off name := by
  rw [fasSymbolName] at h
  split at h
  next hbit =>
    rcases tableCstr_name h with ⟨name, hname⟩
    exact ⟨name, FasName.inStrtab hbit hname⟩
  next hbit =>
    rcases Option.map_eq_some_iff.mp h with ⟨stored, hstored, -⟩
    rcases pstr2cstr_name hstored with ⟨name, hname⟩
    exact ⟨name, FasName.inPsrc hne (not_not.mp hbit) hname⟩

variable {env : Env}

theorem fasExportLoop_names {l : List FasSym} {s s' : Elf}
    (h : fasExportLoop env fas l s = some s') :
    ∀ sym ∈ l.filter FasSym.kept, ∃ name, FasName fas sym.name_off name := by
  induction l generalizing s with
  | nil =>
      intro sym hsym
      exact absurd hsym List.not_mem_nil
  | cons sym l ih =>
      rw [fasExportLoop] at h
      split at h
      next hskip =>
        rw [List.filter_cons_of_neg (by rw [FasSym.kept_iff]; exact not_not_intro hskip)]
        exact ih h
      next hkept =>
        rw [List.filter_cons_of_pos ((FasSym.kept_iff sym).mpr hkept)]
        cases hexport : fasExportSymbolName env fas sym.name_off s with
        | none =>
            rw [hexport] at h
            cases h
        | some p =>
            rw [hexport] at h
            dsimp only at h
            split at h
            · cases h
            · intro x hx
              rcases List.mem_cons.mp hx with rfl | hx
              · by_cases hzero : x.name_off = 0
                · rw [hzero]
                  exact ⟨[], FasName.anonymous⟩
                · rw [fasExportSymbolName, if_neg hzero] at hexport
                  cases hname : fasSymbolName fas x.name_off with
                  | none =>
                      rw [hname] at hexport
                      cases hexport
                  | some name => exact fasSymbolName_name hzero hname
              · exact ih h x hx

/-- An export with a result has found all names. -/
theorem fasExportSymbols_names {s s' : Elf} (h : fasExportSymbols env fas s = some s') :
    NamesInside fas := by
  rw [fasExportSymbols] at h
  cases hfile : tableCstr fas.strtab fas.hdr.ifnm_off.toNat with
  | none =>
      rw [hfile] at h
      cases h
  | some name =>
      rw [hfile] at h
      dsimp only at h
      split at h
      · cases h
      · split at h
        · cases h
        · exact ⟨tableCstr_name hfile, fasExportLoop_names h⟩

/-- If `realloc` does not fail, then the export has a result if and only if it stays inside. -/
theorem fasExportSymbols_result (hheap : env.heap.Gives) (hfuel : 58 < env.fuel)
    {malloc : Nat → Bool} {file : List Byte} (hload : fasLoadFile malloc (some file) = some fas)
    {s : Elf} (h : ElfInv env.heap s [] []) :
    (∃ s', fasExportSymbols env fas s = some s') ↔ NamesInside fas := by
  constructor
  · rintro ⟨s', hs'⟩
    exact fasExportSymbols_names hs'
  · rintro ⟨⟨fileName, hfile⟩, hsymbols⟩
    have hnames : ∃ nm : FasSym → List Byte,
        ∀ sym ∈ fas.syms.filter FasSym.kept, FasName fas sym.name_off (nm sym) := by
      classical
      refine ⟨fun sym => if h : ∃ name, FasName fas sym.name_off name then h.choose else [], ?_⟩
      intro sym hsym
      dsimp only
      rw [dif_pos (hsymbols sym hsym)]
      exact (hsymbols sym hsym).choose_spec
    rcases hnames with ⟨nm, hnames⟩
    have hvalid : Valid malloc file fas fileName nm := ⟨hload, hfile, hnames⟩
    rcases hvalid.bounds with ⟨hstrs, hsyms⟩
    rw [Fas.addedSyms, exportSyms, List.length_cons, length_elfSymsOf] at hsyms
    rcases fasExportSymbols_spec hfuel h hfile hnames hstrs (by omega) with
      ⟨s', hs', -⟩ | hrefused
    · exact ⟨s', hs'⟩
    · exact absurd hrefused (hheap.not_refused _)

end StupidOS.Fas2sym
