import StupidOS.Fas2sym.Access

/-!
# The tables of a FAS file (`fas.c`)

`fas_load_file` once more, now on the static variables: it allocates the tables one after the
other, and a table that cannot be read leaves those before it, and its own memory, to
`fas_cleanup`. `fasLoadFile_accepts` says which files load, and that nothing of the others stays.
-/

namespace StupidOS.Fas2sym

/-! ## The tables in the header -/

/-- Where the header says that a table is. -/
def FasHdr.off (hdr : FasHdr) : FasTable → Nat
  | .strtab => hdr.strtab_off.toNat
  | .symtab => hdr.symtab_off.toNat
  | .psrc => hdr.psrc_off.toNat

/-- How long the header says that a table is. -/
def FasHdr.len (hdr : FasHdr) : FasTable → Nat
  | .strtab => hdr.strtab_len.toNat
  | .symtab => hdr.symtab_len.toNat
  | .psrc => hdr.psrc_len.toNat

/-- A complete FAS file. -/
structure Complete (file : List Byte) : Prop where
  header : 64 ≤ file.length
  magic : (FasHdr.ofBytes file).magic = fasMagic
  tables : ∀ t, (FasHdr.ofBytes file).len t ≠ 0 →
    (FasHdr.ofBytes file).off t + (FasHdr.ofBytes file).len t ≤ file.length

/-- The bytes of a table; there is none of length 0. -/
def FasHdr.slice (hdr : FasHdr) (file : List Byte) (t : FasTable) : Option (List Byte) :=
  if hdr.len t = 0 then none else some ((file.drop (hdr.off t)).take (hdr.len t))

variable {malloc : Nat → Bool}

/-- With memory, a table is read if it is in the file. -/
theorem fasLoadTable_iff (hmalloc : ∀ size, malloc size = true) (offset size : Nat)
    (fp : List Byte) (table : Option (List Byte)) :
    fasLoadTable malloc offset size fp = some table ↔
      (size ≠ 0 → offset + size ≤ fp.length) ∧
        table = if size = 0 then none else some ((fp.drop offset).take size) := by
  rw [fasLoadTable, hmalloc size]
  by_cases hzero : size = 0
  · rw [if_pos hzero, if_pos hzero, Option.some.injEq, eq_comm]
    exact ⟨fun h => ⟨fun hne => absurd hzero hne, h⟩, fun h => h.2⟩
  · rw [if_neg hzero, if_neg hzero, if_neg (not_not_intro rfl), List.length_drop]
    by_cases hlen : fp.length - offset < size
    · rw [if_pos hlen]
      refine ⟨fun h => (by cases h), fun h => ?_⟩
      have hfits := h.1 hzero
      omega
    · rw [if_neg hlen, Option.some.injEq, eq_comm]
      exact ⟨fun h => ⟨fun _ => by omega, h⟩, fun h => h.2⟩

/-- With memory, the files that load are the complete ones. -/
theorem fasLoadFile_iff (hmalloc : ∀ size, malloc size = true) (file : List Byte) (fas : Fas) :
    fasLoadFile malloc (some file) = some fas ↔
      Complete file ∧ fas.hdr = FasHdr.ofBytes file ∧
        (∀ t, fas.table t = (FasHdr.ofBytes file).slice file t) ∧
        fas.sym_cnt = (FasHdr.ofBytes file).len .symtab / 32 := by
  simp only [fasLoadFile, Option.bind_eq_bind, Option.bind_some]
  constructor
  · intro h
    split at h
    · cases h
    next hlen =>
      split at h
      · cases h
      next hmagic =>
        simp only [Option.bind_eq_some_iff, fasLoadTable_iff hmalloc] at h
        rcases h with ⟨strtab, ⟨hstr, rfl⟩, symtab, ⟨hsym, rfl⟩, psrc, ⟨hsrc, rfl⟩, hfas⟩
        rw [← Option.some.inj hfas]
        refine ⟨⟨by omega, not_not.mp hmagic, ?_⟩, rfl, ?_, rfl⟩
        · intro t
          cases t <;> assumption
        · intro t
          cases t <;> rfl
  · rintro ⟨⟨hlen, hmagic, htables⟩, hhdr, htable, hcnt⟩
    rw [if_neg (by omega), if_neg (not_not_intro hmagic)]
    simp only [Option.bind_eq_some_iff, fasLoadTable_iff hmalloc]
    refine ⟨_, ⟨htables .strtab, rfl⟩, _, ⟨htables .symtab, rfl⟩, _, ⟨htables .psrc, rfl⟩, ?_⟩
    rcases fas with ⟨hdr, strtab, symtab, psrc, cnt⟩
    dsimp only at hhdr hcnt
    have hstrtab : strtab = _ := htable .strtab
    have hsymtab : symtab = _ := htable .symtab
    have hpsrc : psrc = _ := htable .psrc
    rw [hstrtab, hsymtab, hpsrc, hhdr, hcnt]
    rfl

/-! ## `fas.c` -/

namespace Static

/-- The static variables; `fas_hdr` by its bytes, a pointer by the block it points to. -/
structure Vars where
  fas_hdr : List Byte
  fas_strtab : Option (List Byte)
  fas_symtab : Option (List Byte)
  fas_psrc : Option (List Byte)
  fas_sym_cnt : Nat
deriving DecidableEq, Repr

/-- What a program starts with. -/
def Vars.start : Vars := ⟨List.replicate 64 0, none, none, none, 0⟩

/-- The pointer to a table. -/
def Vars.table (v : Vars) : FasTable → Option (List Byte)
  | .strtab => v.fas_strtab
  | .symtab => v.fas_symtab
  | .psrc => v.fas_psrc

/-- `fas_cleanup` -/
def fasCleanup (v : Vars) : Vars :=
  { v with fas_psrc := none, fas_symtab := none, fas_strtab := none }

variable (malloc : Nat → Option (List Byte))

/-- `fas_load_table`: the value returned, and `*dest`. `malloc` gives nothing, or a block with
these contents. -/
def fasLoadTable (dest : Option (List Byte)) (offset size : Nat) (fp : List Byte) :
    Int × Option (List Byte) :=
  if size = 0 then (0, dest) /- XXX -/
  else
    match malloc size with
    | none => (-1, none)
    | some junk =>
      -- no 32-bit offset makes `fseek` fail
      let rest := fp.drop offset
      if rest.length < size then (-1, some (rest ++ junk.drop rest.length))
      else (0, some (rest.take size))

/-- `fas_load_file`: `file` is what `fopen` finds. -/
def fasLoadFile (file : Option (List Byte)) (v : Vars) : Int × Vars :=
  match file with
  | none => (-1, v)
  | some fp =>
    let v := { v with fas_hdr := fp.take 64 ++ v.fas_hdr.drop fp.length }
    let hdr := FasHdr.ofBytes v.fas_hdr
    -- goto err
    if fp.length < 64 then (-1, v)
    else if hdr.magic ≠ fasMagic then (-1, v)
    else
      let (ret, dest) := fasLoadTable malloc v.fas_strtab hdr.strtab_off.toNat
        hdr.strtab_len.toNat fp
      let v := { v with fas_strtab := dest }
      -- goto err_cleanup
      if ret ≠ 0 then (-1, fasCleanup v)
      else
        let (ret, dest) := fasLoadTable malloc v.fas_symtab hdr.symtab_off.toNat
          hdr.symtab_len.toNat fp
        let v := { v with fas_symtab := dest }
        if ret ≠ 0 then (-1, fasCleanup v)
        else
          let (ret, dest) := fasLoadTable malloc v.fas_psrc hdr.psrc_off.toNat hdr.psrc_len.toNat fp
          let v := { v with fas_psrc := dest }
          if ret ≠ 0 then (-1, fasCleanup v)
          else (0, { v with fas_sym_cnt := hdr.symtab_len.toNat / 32 })

/-! ## Simulation -/

/-- All three pointers are `NULL`. -/
def Vars.Null (v : Vars) : Prop := ∀ t, v.table t = none

/-- The static variables are those of a file that was loaded. -/
structure Vars.Loaded (v : Vars) (fas : Fas) : Prop where
  hdr : FasHdr.ofBytes v.fas_hdr = fas.hdr
  table : ∀ t, v.table t = fas.table t
  sym_cnt : v.fas_sym_cnt = fas.sym_cnt

theorem start_null : Vars.start.Null := fun t => by cases t <;> rfl

theorem fasCleanup_null (v : Vars) : (fasCleanup v).Null := fun t => by cases t <;> rfl

/-- Of the header only its 64 bytes count. -/
theorem hdr_take (bs : List Byte) : FasHdr.ofBytes (bs.take 64) = FasHdr.ofBytes bs := by
  simp only [FasHdr.ofBytes, word32At]
  rw [leAt_take _ (by decide), leAt_take _ (by decide), leAt_take _ (by decide),
    leAt_take _ (by decide), leAt_take _ (by decide), leAt_take _ (by decide),
    leAt_take _ (by decide), leAt_take _ (by decide)]

/-- What `fread` leaves of the header before does not count. -/
theorem hdr_fread {fp : List Byte} (hlen : 64 ≤ fp.length) (before : List Byte) :
    FasHdr.ofBytes (fp.take 64 ++ before) = FasHdr.ofBytes fp := by
  have htake : (fp.take 64).length = 64 := by
    rw [List.length_take]
    omega
  rw [← hdr_take (fp.take 64 ++ before), List.take_left' htake, hdr_take]

theorem fasLoadTable_cases (offset size : Nat) (fp : List Byte) :
    (∃ table, Fas2sym.fasLoadTable (fun n => (malloc n).isSome) offset size fp = some table ∧
      fasLoadTable malloc none offset size fp = (0, table)) ∨
    Fas2sym.fasLoadTable (fun n => (malloc n).isSome) offset size fp = none ∧
      ∃ dest, fasLoadTable malloc none offset size fp = (-1, dest) := by
  rw [fasLoadTable, Fas2sym.fasLoadTable]
  split
  next => exact Or.inl ⟨none, rfl, rfl⟩
  next =>
    cases malloc size with
    | none => exact Or.inr ⟨rfl, _, rfl⟩
    | some junk =>
        dsimp only
        rw [Option.isSome_some, if_neg (not_not_intro rfl)]
        split
        next => exact Or.inr ⟨rfl, _, rfl⟩
        next => exact Or.inl ⟨_, rfl, rfl⟩

/-- From `NULL` pointers, `fas_load_file` loads the file, or leaves `NULL` pointers. -/
theorem fasLoadFile_cases {v : Vars} (hnull : v.Null) (file : Option (List Byte)) :
    (∃ fas, Fas2sym.fasLoadFile (fun n => (malloc n).isSome) file = some fas ∧
      (fasLoadFile malloc file v).1 = 0 ∧ (fasLoadFile malloc file v).2.Loaded fas) ∨
    Fas2sym.fasLoadFile (fun n => (malloc n).isSome) file = none ∧
      (fasLoadFile malloc file v).1 = -1 ∧ (fasLoadFile malloc file v).2.Null := by
  cases file with
  | none => exact Or.inr ⟨rfl, rfl, hnull⟩
  | some fp =>
      have hstrtab : v.fas_strtab = none := hnull .strtab
      have hsymtab : v.fas_symtab = none := hnull .symtab
      have hpsrc : v.fas_psrc = none := hnull .psrc
      simp only [fasLoadFile, Fas2sym.fasLoadFile, Option.bind_eq_bind, Option.bind_some]
      by_cases hlen : fp.length < 64
      · rw [if_pos hlen, if_pos hlen]
        refine Or.inr ⟨rfl, rfl, ?_⟩
        intro t
        cases t <;> assumption
      · rw [if_neg hlen, if_neg hlen, hdr_fread (by omega), hstrtab, hsymtab, hpsrc]
        by_cases hmagic : (FasHdr.ofBytes fp).magic ≠ fasMagic
        · rw [if_pos hmagic, if_pos hmagic]
          refine Or.inr ⟨rfl, rfl, ?_⟩
          intro t
          cases t <;> rfl
        · rw [if_neg hmagic, if_neg hmagic]
          -- what fails is cleaned up
          rcases fasLoadTable_cases malloc (FasHdr.ofBytes fp).strtab_off.toNat
            (FasHdr.ofBytes fp).strtab_len.toNat fp with
            ⟨strtab, hspec, hcode⟩ | ⟨hspec, dest, hcode⟩ <;> rw [hspec, hcode]
          · rcases fasLoadTable_cases malloc (FasHdr.ofBytes fp).symtab_off.toNat
              (FasHdr.ofBytes fp).symtab_len.toNat fp with
              ⟨symtab, hspec, hcode⟩ | ⟨hspec, dest, hcode⟩ <;> rw [hspec, hcode]
            · rcases fasLoadTable_cases malloc (FasHdr.ofBytes fp).psrc_off.toNat
                (FasHdr.ofBytes fp).psrc_len.toNat fp with
                ⟨psrc, hspec, hcode⟩ | ⟨hspec, dest, hcode⟩ <;> rw [hspec, hcode]
              · refine Or.inl ⟨_, rfl, rfl, hdr_fread (by omega) _, ?_, rfl⟩
                intro t
                cases t <;> rfl
              · exact Or.inr ⟨rfl, rfl, fasCleanup_null _⟩
            · exact Or.inr ⟨rfl, rfl, fasCleanup_null _⟩
          · exact Or.inr ⟨rfl, rfl, fasCleanup_null _⟩

end Static

open Static in
/-- **Loading.** If there is always memory, `fas_load_file` returns 0 exactly for the complete
files; then each table is its part of the file, and otherwise all three pointers are `NULL`. -/
theorem fasLoadFile_accepts (malloc : Nat → Option (List Byte))
    (hmalloc : ∀ size, (malloc size).isSome = true) {v : Vars} (hnull : v.Null)
    (file : List Byte) :
    ((Static.fasLoadFile malloc (some file) v).1 = 0 ↔ Complete file) ∧
      ((Static.fasLoadFile malloc (some file) v).1 = 0 →
        (∀ t, (Static.fasLoadFile malloc (some file) v).2.table t
          = (FasHdr.ofBytes file).slice file t) ∧
        (Static.fasLoadFile malloc (some file) v).2.fas_sym_cnt
          = (FasHdr.ofBytes file).len .symtab / 32) ∧
      ((Static.fasLoadFile malloc (some file) v).1 ≠ 0 →
        (Static.fasLoadFile malloc (some file) v).1 = -1 ∧
        (Static.fasLoadFile malloc (some file) v).2.Null) := by
  rcases fasLoadFile_cases malloc hnull (some file) with
    ⟨fas, hspec, hret, hloaded⟩ | ⟨hspec, hret, hnull'⟩
  · rcases (fasLoadFile_iff hmalloc file fas).mp hspec with ⟨hcomplete, -, htables, hcnt⟩
    refine ⟨⟨fun _ => hcomplete, fun _ => hret⟩, fun _ => ⟨?_, ?_⟩, fun hne => absurd hret hne⟩
    · intro t
      rw [hloaded.table t, htables t]
    · rw [hloaded.sym_cnt, hcnt]
  · have hincomplete : ¬ Complete file := by
      intro hcomplete
      have hloads := (fasLoadFile_iff hmalloc file ⟨_, _, _, _, _⟩).mpr
        ⟨hcomplete, rfl, fun t => (by cases t <;> rfl), rfl⟩
      rw [hspec] at hloads
      cases hloads
    rw [hret]
    exact ⟨⟨fun h => absurd h (by decide), fun h => absurd h hincomplete⟩,
      fun h => absurd h (by decide), fun _ => ⟨rfl, hnull'⟩⟩

theorem fasLoadFile_accepts_demo :
    (Static.fasLoadFile (fun size => some (List.replicate size 0)) (some demoFile) .start).1 = 0 ∧
      (Static.fasLoadFile (fun size => some (List.replicate size 0)) (some demoFile)
        .start).2.fas_sym_cnt = 3 := by
  rcases (fasLoadFile_iff (fun _ => rfl) demoFile demoFas).mp demoFas_load with
    ⟨hcomplete, -, -, hcnt⟩
  rcases fasLoadFile_accepts (fun size => some (List.replicate size 0)) (fun _ => rfl)
    Static.start_null demoFile with ⟨hret, hloaded, -⟩
  have hzero := hret.mpr hcomplete
  exact ⟨hzero, (hloaded hzero).2.trans hcnt.symm⟩

end StupidOS.Fas2sym
