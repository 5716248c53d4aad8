import StupidOS.Fas2sym.Elf

/-!
# From FAS to ELF (`fas.c`)

`fas_load_file` reads the header of a FAS file and three tables; `fas_export_symbols` goes
through the symbols, copies the names of those that are defined into `.strtab`, and adds an ELF
symbol for each. Names are C strings in the string table or Pascal strings in the preprocessed
source. `fasExport_symbols` says that no symbol and no name is lost on the way.
-/

namespace StupidOS.Fas2sym

/-! ## Data -/

/-- `FAS_MAGIC` -/
def fasMagic : Word := 0x1A736166

/-- Symbol flags. -/
def fasSymDef : Half := 0x001
def fasSymAsmTime : Half := 0x002

/-- `FAS_Hdr`, as far as it is read; the header has 64 bytes. -/
structure FasHdr where
  magic : Word
  ifnm_off : Word
  strtab_off : Word
  strtab_len : Word
  symtab_off : Word
  symtab_len : Word
  psrc_off : Word
  psrc_len : Word
deriving DecidableEq, Repr

def FasHdr.ofBytes (bs : List Byte) : FasHdr where
  magic := word32At bs 0
  ifnm_off := word32At bs 8
  strtab_off := word32At bs 16
  strtab_len := word32At bs 20
  symtab_off := word32At bs 24
  symtab_len := word32At bs 28
  psrc_off := word32At bs 32
  psrc_len := word32At bs 36

/-- `FAS_Sym`, as far as it is read; a symbol has 32 bytes. -/
structure FasSym where
  value : BitVec 64
  flags : Half
  size : Byte
  name_off : Word
deriving DecidableEq, Repr

def FasSym.ofBytes (bs : List Byte) : FasSym where
  value := BitVec.ofNat 64 (leAt bs 0 8)
  flags := half16At bs 8
  size := byte8At bs 10
  name_off := word32At bs 24

/-- The static variables after `fas_load_file`; a table of length 0 is not loaded. -/
structure Fas where
  hdr : FasHdr
  strtab : Option (List Byte)
  symtab : Option (List Byte)
  psrc : Option (List Byte)
  sym_cnt : Nat
deriving DecidableEq, Repr

/-! ## Loading -/

/-- `fas_load_table`: the table, or nothing on an error. `malloc` tells for which sizes there is
memory. -/
def fasLoadTable (malloc : Nat → Bool) (offset size : Nat) (fp : List Byte) :
    Option (Option (List Byte)) :=
  if size = 0 then some none
  else if ¬ malloc size then none
  else if (fp.drop offset).length < size then none
  else some (some ((fp.drop offset).take size))

/-- `fas_load_file`: `file` is what `fopen` finds. -/
def fasLoadFile (malloc : Nat → Bool) (file : Option (List Byte)) : Option Fas := do
  let fp ← file
  if fp.length < 64 then none else
  let hdr := FasHdr.ofBytes fp
  if hdr.magic ≠ fasMagic then none else
  let strtab ← fasLoadTable malloc hdr.strtab_off.toNat hdr.strtab_len.toNat fp
  let symtab ← fasLoadTable malloc hdr.symtab_off.toNat hdr.symtab_len.toNat fp
  let psrc ← fasLoadTable malloc hdr.psrc_off.toNat hdr.psrc_len.toNat fp
  some ⟨hdr, strtab, symtab, psrc, hdr.symtab_len.toNat / 32⟩

/-- A table has the size asked for; one that is not loaded has none. -/
theorem fasLoadTable_size {malloc : Nat → Bool} {offset size : Nat} {fp : List Byte}
    {table : Option (List Byte)} (h : fasLoadTable malloc offset size fp = some table) :
    (table.getD []).length = size := by
  rw [fasLoadTable] at h
  split at h
  next hzero =>
    rw [← Option.some.inj h, hzero]
    rfl
  · split at h
    · cases h
    · split at h
      · cases h
      next hlen =>
        rw [← Option.some.inj h]
        change ((fp.drop offset).take size).length = size
        rw [List.length_take]
        omega

/-- What a file that loads has given. -/
theorem fasLoadFile_tables {malloc : Nat → Bool} {file : Option (List Byte)} {fas : Fas}
    (h : fasLoadFile malloc file = some fas) :
    ∃ fp, file = some fp ∧
      fasLoadTable malloc fas.hdr.strtab_off.toNat fas.hdr.strtab_len.toNat fp
        = some fas.strtab ∧
      fasLoadTable malloc fas.hdr.symtab_off.toNat fas.hdr.symtab_len.toNat fp
        = some fas.symtab ∧
      fasLoadTable malloc fas.hdr.psrc_off.toNat fas.hdr.psrc_len.toNat fp = some fas.psrc ∧
      fas.sym_cnt = fas.hdr.symtab_len.toNat / 32 := by
  simp only [fasLoadFile, Option.bind_eq_bind, Option.bind_eq_some_iff] at h
  rcases h with ⟨fp, hfp, h⟩
  split at h
  · cases h
  · split at h
    · cases h
    · simp only [Option.bind_eq_some_iff] at h
      rcases h with ⟨strtab, hstrtab, symtab, hsymtab, psrc, hpsrc, hfas⟩
      rw [← Option.some.inj hfas]
      exact ⟨fp, hfp, hstrtab, hsymtab, hpsrc, rfl⟩

/-- `fas_symtab` -/
def Fas.syms (fas : Fas) : List FasSym :=
  match fas.symtab with
  | none => []
  | some t => recordsAt FasSym.ofBytes 32 fas.sym_cnt t

/-! ## Exporting -/

/-- The C string at `off` of a table; there is none without a NUL in the table. -/
def tableCstr (table : Option (List Byte)) (off : Nat) : Option (List Byte) :=
  match table with
  | none => none
  | some t => if 0 ∈ t.drop off then some (cstr t off) else none

/-- `pstr2cstr` from `off` of a table: what it stores; there is nothing outside the table. -/
def pstr2cstr (table : Option (List Byte)) (off : Nat) : Option (List Byte) :=
  match table.map (List.drop off) with
  | some (psz :: src) => if psz.toNat ≤ src.length then some (src.take psz.toNat ++ [0]) else none
  | _ => none

variable (env : Env) (fas : Fas)

/-- The name that `fas_export_symbol_name` finds. -/
def fasSymbolName (name_off : Word) : Option (List Byte) :=
  if name_off &&& 0x80000000 ≠ 0 then
    tableCstr fas.strtab (name_off &&& ~~~0x80000000).toNat
  else
    -- up to the first NUL in the copy
    (pstr2cstr fas.psrc name_off.toNat).map (cstr · 0)

/-- `fas_export_symbol_name` -/
def fasExportSymbolName (name_off : Word) (s : Elf) : Option (Word × Elf) :=
  if name_off = 0 then some (0, s) else
  match fasSymbolName fas name_off with
  | none => none
  | some name =>
    match elfAddStr env (name ++ [0]) s with
    | none => none
    | some (ret, idx, s) =>
      if ret ≠ 0 then some (0, s)
      else some (BitVec.ofNat 32 idx, s)

/-- The loop of `fas_export_symbols`. -/
def fasExportLoop : List FasSym → Elf → Option Elf
  | [], s => some s
  | sym :: syms, s =>
    if sym.flags &&& fasSymDef = 0 ∨ sym.flags &&& fasSymAsmTime ≠ 0 then
      fasExportLoop syms s
    else
      match fasExportSymbolName env fas sym.name_off s with
      | none => none
      | some (name_idx, s) =>
        match elfAddSymbol env name_idx (sym.value.setWidth 32) (sym.size.setWidth 32) sttObject
          shnAbs s with
        | none => none
        | some (_, s) => fasExportLoop syms s

/-- `fas_export_symbols` -/
def fasExportSymbols (s : Elf) : Option Elf :=
  -- export file name symbol
  match tableCstr fas.strtab fas.hdr.ifnm_off.toNat with
  | none => none
  | some name =>
    match elfAddStr env (name ++ [0]) s with
    | none => none
    | some (_, name_idx, s) =>
      match elfAddSymbol env (BitVec.ofNat 32 name_idx) 0 0 sttFile shnAbs s with
      | none => none
      | some (_, s) => fasExportLoop env fas fas.syms s

/-! ## Names -/

variable {env fas}

/-- `name` is the C string at `off` of the table. -/
def CName (table : Option (List Byte)) (off : Nat) (name : List Byte) : Prop :=
  0 ∉ name ∧ ∃ before rest, table = some (before ++ (name ++ 0 :: rest)) ∧ before.length = off

/-- `name` is the Pascal string at `off` of the table, up to its first NUL. -/
def PName (table : Option (List Byte)) (off : Nat) (name : List Byte) : Prop :=
  ∃ before psz src rest, table = some (before ++ (psz :: (src ++ rest))) ∧ before.length = off ∧
    src.length = psz.toNat ∧ name = src.takeWhile (· ≠ 0)

variable (fas) in
/-- The name of a symbol: nothing, a C string or a Pascal string. -/
inductive FasName : Word → List Byte → Prop where
  | anonymous : FasName 0 []
  | inStrtab {name_off : Word} {name : List Byte} (hbit : name_off &&& 0x80000000 ≠ 0)
      (hname : CName fas.strtab (name_off &&& 0x7FFFFFFF).toNat name) : FasName name_off name
  | inPsrc {name_off : Word} {name : List Byte} (hne : name_off ≠ 0)
      (hbit : name_off &&& 0x80000000 = 0) (hname : PName fas.psrc name_off.toNat name) :
      FasName name_off name

theorem not_mem_takeWhile (l : List Byte) : (0 : Byte) ∉ l.takeWhile (· ≠ 0) := by
  intro h
  exact absurd (List.mem_takeWhile_imp h) (by decide)

theorem CName.tableCstr {table : Option (List Byte)} {off : Nat} {name : List Byte}
    (h : CName table off name) : tableCstr table off = some name := by
  rcases h with ⟨hnul, before, rest, rfl, rfl⟩
  rw [Fas2sym.tableCstr, if_pos, cstr_append hnul]
  rw [List.drop_left]
  exact List.mem_append_right _ (List.mem_cons_self ..)

theorem PName.pstr2cstr {table : Option (List Byte)} {off : Nat} {name : List Byte}
    (h : PName table off name) : (pstr2cstr table off).map (cstr · 0) = some name := by
  rcases h with ⟨before, psz, src, rest, rfl, rfl, hlen, rfl⟩
  rw [Fas2sym.pstr2cstr, Option.map_some, List.drop_left]
  dsimp only
  rw [if_pos (by rw [List.length_append]; omega), ← hlen, List.take_left, Option.map_some, cstr,
    List.drop_zero, List.takeWhile_append]
  split
  · rw [List.takeWhile_cons_of_neg (by simp), List.append_nil]
    rename_i hall
    rw [(List.takeWhile_prefix _).eq_of_length hall]
  · rfl

/-- A name ends before its NUL. -/
theorem FasName.no_nul {name_off : Word} {name : List Byte} (h : FasName fas name_off name) :
    0 ∉ name := by
  cases h with
  | anonymous => exact List.not_mem_nil
  | inStrtab _ hname => exact hname.1
  | inPsrc _ _ hname =>
      rcases hname with ⟨_, _, src, _, -, -, -, rfl⟩
      exact not_mem_takeWhile src

/-- The code finds the name of a symbol. -/
theorem FasName.found {name_off : Word} {name : List Byte} (h : FasName fas name_off name)
    (hne : name_off ≠ 0) : fasSymbolName fas name_off = some name := by
  rw [fasSymbolName]
  cases h with
  | anonymous => exact absurd rfl hne
  | inStrtab hbit hname =>
      rw [if_pos hbit]
      exact hname.tableCstr
  | inPsrc _ hbit hname =>
      rw [if_neg (not_not_intro hbit)]
      exact hname.pstr2cstr

theorem FasName.zero {name : List Byte} (h : FasName fas 0 name) : name = [] := by
  cases h with
  | anonymous => rfl
  | inStrtab hbit _ => exact absurd rfl hbit
  | inPsrc hne _ _ => exact absurd rfl hne

/-! ## What is exported -/

/-- The symbols that are exported. -/
def FasSym.kept (sym : FasSym) : Bool :=
  sym.flags &&& fasSymDef ≠ 0 && sym.flags &&& fasSymAsmTime = 0

theorem FasSym.kept_iff (sym : FasSym) : sym.kept = true ↔
    ¬ (sym.flags &&& fasSymDef = 0 ∨ sym.flags &&& fasSymAsmTime ≠ 0) := by
  simp [kept]

/-- The bytes added to `.strtab` for a symbol. -/
def nameBytes (nm : FasSym → List Byte) (sym : FasSym) : List Byte :=
  if sym.name_off = 0 then [] else nm sym ++ [0]

/-- The ELF symbol for a symbol whose name is at `off`. -/
def elfSymOf (off : Nat) (sym : FasSym) : Elf32Sym where
  st_name := if sym.name_off = 0 then 0 else BitVec.ofNat 32 off
  st_value := sym.value.setWidth 32
  st_size := sym.size.setWidth 32
  st_info := sttObject
  st_other := 0
  st_shndx := shnAbs

/-- The ELF symbols for a list whose names are put from `off` on. -/
def elfSymsOf (nm : FasSym → List Byte) : Nat → List FasSym → List Elf32Sym
  | _, [] => []
  | off, sym :: syms => elfSymOf off sym :: elfSymsOf nm (off + (nameBytes nm sym).length) syms

theorem length_elfSymsOf (nm : FasSym → List Byte) (off : Nat) (syms : List FasSym) :
    (elfSymsOf nm off syms).length = syms.length := by
  induction syms generalizing off with
  | nil => rfl
  | cons sym syms ih => rw [elfSymsOf, List.length_cons, List.length_cons, ih]

/-- The ELF symbol is the one for the FAS symbol, with its name in the table. -/
structure Exported (nm : FasSym → List Byte) (table : List Byte) (sym : FasSym)
    (elf : Elf32Sym) : Prop where
  value : elf.st_value.toNat = sym.value.toNat % 2 ^ 32
  size : elf.st_size.toNat = sym.size.toNat
  info : elf.st_info = sttObject
  other : elf.st_other = 0
  shndx : elf.st_shndx = shnAbs
  name : cstr table elf.st_name.toNat = nm sym

/-- The names resolve in every table that continues with them. -/
theorem elfSymsOf_exported {nm : FasSym → List Byte} {syms : List FasSym}
    (hnames : ∀ sym ∈ syms, FasName fas sym.name_off (nm sym)) (strs more : List Byte)
    (hsize : 2 + (strs ++ syms.flatMap (nameBytes nm)).length < 2 ^ 32) :
    List.Forall₂ (Exported nm (strtabBytes (strs ++ syms.flatMap (nameBytes nm)) ++ more)) syms
      (elfSymsOf nm (2 + strs.length) syms) := by
  induction syms generalizing strs with
  | nil => exact List.Forall₂.nil
  | cons sym syms ih =>
      have hsym := hnames sym (List.mem_cons_self ..)
      rw [List.flatMap_cons, ← List.append_assoc] at hsize ⊢
      have hrest := ih (fun x hx => hnames x (List.mem_cons_of_mem _ hx))
        (strs ++ nameBytes nm sym) hsize
      rw [List.length_append, ← Nat.add_assoc] at hrest
      rw [List.length_append, List.length_append] at hsize
      refine List.Forall₂.cons ⟨?_, ?_, rfl, rfl, rfl, ?_⟩ hrest
      · exact BitVec.toNat_setWidth ..
      · have hlt := sym.size.isLt
        change (sym.size.setWidth 32).toNat = _
        rw [BitVec.toNat_setWidth, Nat.mod_eq_of_lt (by omega)]
      · change cstr _ (if sym.name_off = 0 then 0 else BitVec.ofNat 32 (2 + strs.length)).toNat = _
        by_cases hzero : sym.name_off = 0
        · -- the table starts with a NUL
          rw [hzero] at hsym
          rw [if_pos hzero, hsym.zero]
          rfl
        · rw [if_neg hzero, toNat_ofNat_lt (by omega), nameBytes, if_neg hzero, strtabBytes]
          have hat := cstr_append hsym.no_nul (strtabBytes strs)
            (syms.flatMap (nameBytes nm) ++ more)
          rw [length_strtabBytes, strtabBytes] at hat
          simp only [List.append_assoc, List.singleton_append] at hat ⊢
          exact hat

/-! ## The export -/

variable {s : Elf} {strs : List Byte} {syms : List Elf32Sym} {nm : FasSym → List Byte}

/-- `fas_export_symbol_name` adds the name, unless `realloc` fails. -/
theorem fasExportSymbolName_spec (h : ElfInv env.heap s strs syms) (hfuel : 58 < env.fuel)
    {sym : FasSym} (hname : FasName fas sym.name_off (nm sym))
    (hlen : 2 + strs.length + (nameBytes nm sym).length ≤ 2 ^ 62) :
    (∃ s', fasExportSymbolName env fas sym.name_off s
        = some ((elfSymOf (2 + strs.length) sym).st_name, s') ∧
      ElfInv env.heap s' (strs ++ nameBytes nm sym) syms) ∨
    Refused env.heap (callsFor (strs ++ nameBytes nm sym) syms) := by
  rw [nameBytes] at hlen ⊢
  rw [fasExportSymbolName]
  change (∃ s', _ = some (if sym.name_off = 0 then 0 else BitVec.ofNat 32 (2 + strs.length), s') ∧
    _) ∨ _
  by_cases hzero : sym.name_off = 0
  · rw [if_pos hzero, if_pos hzero, if_pos hzero, List.append_nil]
    exact Or.inl ⟨s, rfl, h⟩
  · rw [if_neg hzero] at hlen ⊢
    rw [if_neg hzero, if_neg hzero, hname.found hzero]
    dsimp only
    rcases elfAddStr_cases h hfuel (nm sym ++ [0]) hlen with
      ⟨ret, s', hadd, ⟨rfl, h'⟩ | ⟨-, -, hrefused⟩⟩
    · rw [hadd]
      exact Or.inl ⟨s', rfl, h'⟩
    · exact Or.inr hrefused

/-- The loop exports the symbols that are kept, unless `realloc` fails. -/
theorem fasExportLoop_spec (hfuel : 58 < env.fuel) (l : List FasSym)
    (h : ElfInv env.heap s strs syms)
    (hnames : ∀ sym ∈ l.filter FasSym.kept, FasName fas sym.name_off (nm sym))
    (hstrs : 2 + (strs ++ (l.filter FasSym.kept).flatMap (nameBytes nm)).length ≤ 2 ^ 62)
    (hsyms : 16 * (syms.length + (l.filter FasSym.kept).length + 1) ≤ 2 ^ 62) :
    (∃ s', fasExportLoop env fas l s = some s' ∧
      ElfInv env.heap s' (strs ++ (l.filter FasSym.kept).flatMap (nameBytes nm))
        (syms ++ elfSymsOf nm (2 + strs.length) (l.filter FasSym.kept))) ∨
    Refused env.heap (callsFor (strs ++ (l.filter FasSym.kept).flatMap (nameBytes nm))
      (syms ++ elfSymsOf nm (2 + strs.length) (l.filter FasSym.kept))) := by
  -- on the symbols still to come
  induction l generalizing s strs syms with
  | nil =>
      left
      refine ⟨s, rfl, ?_⟩
      rw [List.filter_nil, List.flatMap_nil, elfSymsOf, List.append_nil, List.append_nil]
      exact h
  | cons sym l ih =>
      rw [fasExportLoop]
      by_cases hskip : sym.flags &&& fasSymDef = 0 ∨ sym.flags &&& fasSymAsmTime ≠ 0
      · have hkept : ¬ sym.kept = true := by
          rw [FasSym.kept_iff]
          exact not_not_intro hskip
        rw [List.filter_cons_of_neg hkept] at hnames hstrs hsyms ⊢
        rw [if_pos hskip]
        exact ih h hnames hstrs hsyms
      · have hkept : sym.kept = true := (FasSym.kept_iff sym).mpr hskip
        rw [List.filter_cons_of_pos hkept] at hnames hstrs hsyms ⊢
        rw [List.flatMap_cons, ← List.append_assoc] at hstrs ⊢
        rw [if_neg hskip, elfSymsOf, List.append_cons]
        rw [List.length_cons] at hsyms
        have hlens := hstrs
        rw [List.length_append, List.length_append] at hlens
        rcases fasExportSymbolName_spec h hfuel (hnames sym (List.mem_cons_self ..))
          (by omega) with ⟨s₁, hexport, h₁⟩ | hrefused
        · rw [hexport]
          dsimp only
          rcases elfAddSymbol_cases h₁ hfuel (elfSymOf (2 + strs.length) sym).st_name
            (sym.value.setWidth 32) (sym.size.setWidth 32) sttObject shnAbs (by omega) with
            ⟨ret, s₂, hadd, ⟨-, h₂⟩ | ⟨-, -, hrefused⟩⟩
          · rw [hadd]
            dsimp only
            have hoff : 2 + (strs ++ nameBytes nm sym).length
                = 2 + strs.length + (nameBytes nm sym).length := by
              rw [List.length_append]
              omega
            have hrest := ih h₂ (fun x hx => hnames x (List.mem_cons_of_mem _ hx)) hstrs (by
              rw [List.length_append, List.length_singleton]
              omega)
            rw [hoff] at hrest
            exact hrest
          · exact Or.inr (hrefused.extend (List.prefix_append _ _) (List.prefix_append _ _))
        · -- the name fails, before its symbol
          rw [List.append_assoc syms]
          exact Or.inr (hrefused.extend (List.prefix_append _ _) (List.prefix_append _ _))

/-- The strings of a whole export, behind those of `elf_init`. -/
def exportStrs (fileName : List Byte) (nm : FasSym → List Byte) (l : List FasSym) : List Byte :=
  (fileName ++ [0]) ++ l.flatMap (nameBytes nm)

/-- The symbol of the file name, which is the first string added. -/
def fileSym : Elf32Sym := ⟨2, 0, 0, sttFile, 0, shnAbs⟩

/-- The symbols of a whole export, behind the null symbol. -/
def exportSyms (fileName : List Byte) (nm : FasSym → List Byte) (l : List FasSym) :
    List Elf32Sym :=
  fileSym :: elfSymsOf nm (2 + (fileName ++ [0]).length) l

/-- `fas_export_symbols` exports the symbols that are kept, unless `realloc` fails. -/
theorem fasExportSymbols_spec (hfuel : 58 < env.fuel) (h : ElfInv env.heap s [] [])
    {fileName : List Byte} (hfile : CName fas.strtab fas.hdr.ifnm_off.toNat fileName)
    (hnames : ∀ sym ∈ fas.syms.filter FasSym.kept, FasName fas sym.name_off (nm sym))
    (hstrs : 2 + (exportStrs fileName nm (fas.syms.filter FasSym.kept)).length ≤ 2 ^ 62)
    (hsyms : 16 * ((fas.syms.filter FasSym.kept).length + 2) ≤ 2 ^ 62) :
    (∃ s', fasExportSymbols env fas s = some s' ∧
      ElfInv env.heap s' (exportStrs fileName nm (fas.syms.filter FasSym.kept))
        (exportSyms fileName nm (fas.syms.filter FasSym.kept))) ∨
    Refused env.heap (callsFor (exportStrs fileName nm (fas.syms.filter FasSym.kept))
      (exportSyms fileName nm (fas.syms.filter FasSym.kept))) := by
  have hlens := hstrs
  rw [exportStrs, List.length_append] at hlens
  rw [fasExportSymbols, hfile.tableCstr]
  dsimp only
  -- the name of the file and its symbol come first
  rcases elfAddStr_cases h hfuel (fileName ++ [0]) (by rw [List.length_nil]; omega) with
    ⟨ret, s₁, hadd, ⟨-, h₁⟩ | ⟨-, -, hrefused⟩⟩
  · rw [hadd]
    dsimp only
    rcases elfAddSymbol_cases h₁ hfuel 2 0 0 sttFile shnAbs (by decide) with
      ⟨ret, s₂, hadd, ⟨-, h₂⟩ | ⟨-, -, hrefused⟩⟩
    · rw [List.length_nil, show BitVec.ofNat 32 (2 + 0) = 2 from rfl, hadd]
      exact fasExportLoop_spec hfuel fas.syms h₂ hnames hstrs (by
        rw [List.nil_append, List.length_singleton]
        omega)
    · exact Or.inr (hrefused.extend (List.prefix_append _ _) (List.prefix_append [fileSym] _))
  · exact Or.inr (hrefused.extend (List.prefix_append _ _) List.nil_prefix)

/-- A file has less than 2^27 symbols. -/
theorem length_syms {malloc : Nat → Bool} {file : Option (List Byte)}
    (hload : fasLoadFile malloc file = some fas) : fas.syms.length < 2 ^ 27 := by
  rcases fasLoadFile_tables hload with ⟨-, -, -, -, -, hcnt⟩
  have hlt := fas.hdr.symtab_len.isLt
  rw [Fas.syms]
  split
  · exact Nat.pow_pos (by decide)
  · rw [recordsAt, List.length_map, List.length_range, hcnt]
    omega

/-- **The symbols.** For every FAS file that loads and whose names are in its tables, if `realloc`
does not fail then the ELF symbol table is the null symbol, the symbol of the file name, and one
symbol for each FAS symbol that is kept, in order, with names that resolve in `.strtab`. -/
theorem fasExport_symbols (env : Env) (hheap : env.heap.Gives) (hfuel : 58 < env.fuel)
    (malloc : Nat → Bool) (file : List Byte) (fas : Fas)
    (hload : fasLoadFile malloc (some file) = some fas) (fileName : List Byte)
    (hfile : CName fas.strtab fas.hdr.ifnm_off.toNat fileName) (nm : FasSym → List Byte)
    (hnames : ∀ sym ∈ fas.syms.filter FasSym.kept, FasName fas sym.name_off (nm sym))
    (hsize : 2 + (exportStrs fileName nm (fas.syms.filter FasSym.kept)).length < 2 ^ 32) :
    ∃ s s' elfs, elfInit env .start = some (0, s) ∧ fasExportSymbols env fas s = some s' ∧
      recordsAt Elf32Sym.ofBytes 16 (s'.symtab.cnt / 16) (tabBytes s'.symtab)
        = symtabInitial :: fileSym :: elfs ∧
      cstr (tabBytes s'.strtab) fileSym.st_name.toNat = fileName ∧
      List.Forall₂ (Exported nm (tabBytes s'.strtab)) (fas.syms.filter FasSym.kept) elfs := by
  have hsyms := length_syms hload
  have hkept : (fas.syms.filter FasSym.kept).length ≤ fas.syms.length := List.length_filter_le _ _
  -- `realloc` always gives memory, so neither call fails
  rcases elfInit_cases hfuel with ⟨ret, s, hinit, ⟨rfl, h⟩ | ⟨-, hrefused⟩⟩
  · rcases fasExportSymbols_spec hfuel h hfile hnames (by omega) (by omega) with
      ⟨s', hexport, h'⟩ | hrefused
    · refine ⟨s, s', elfSymsOf nm (2 + (fileName ++ [0]).length) (fas.syms.filter FasSym.kept),
        hinit, hexport, ?_, ?_, ?_⟩
      · have hback := Elf32Sym.recordsAt_bytes
          (symtabInitial :: exportSyms fileName nm (fas.syms.filter FasSym.kept))
        rw [h'.symtab.tabBytes, h'.symtab.cnt, length_symtabBytes,
          Nat.mul_div_cancel_left _ (by decide)]
        exact hback
      · rw [h'.strtab.tabBytes, strtabBytes, exportStrs, List.append_assoc]
        exact cstr_append hfile.1 strtabInitial _
      · have hall := elfSymsOf_exported hnames (fileName ++ [0]) [] hsize
        rw [List.append_nil] at hall
        rw [h'.strtab.tabBytes]
        exact hall
    · exact absurd hrefused (hheap.not_refused _)
  · exact absurd hrefused (hheap.not_refused _)

/-- The bytes of a FAS symbol. -/
def demoSym (value flags size name_off : Nat) : List Byte :=
  leBytes 8 value ++ leBytes 2 flags ++ leBytes 1 size ++ leBytes 13 0 ++ leBytes 4 name_off ++
    leBytes 4 0

/-- The file name `f`, a symbol `x`, one that is skipped, and a symbol `y` from the source. -/
def demoFile : List Byte :=
  [0x66, 0x61, 0x73, 0x1A] ++ leBytes 12 0 ++ leBytes 4 64 ++ leBytes 4 4 ++ leBytes 4 68 ++
    leBytes 4 96 ++ leBytes 4 164 ++ leBytes 4 3 ++ leBytes 24 0 ++ [0x66, 0, 0x78, 0] ++
    (demoSym 0x1000 1 4 0x80000002 ++ demoSym 7 3 0 0 ++ demoSym 0x2000 1 2 1) ++ [0, 1, 0x79]

/-- That file after `fas_load_file`. -/
def demoFas : Fas :=
  ⟨FasHdr.ofBytes demoFile, some [0x66, 0, 0x78, 0],
    some (demoSym 0x1000 1 4 0x80000002 ++ demoSym 7 3 0 0 ++ demoSym 0x2000 1 2 1),
    some [0, 1, 0x79], 3⟩

theorem demoFas_load : fasLoadFile (fun _ => true) (some demoFile) = some demoFas := by
  decide +kernel

theorem demoFas_kept : demoFas.syms.filter FasSym.kept
    = [⟨0x1000, 1, 4, 0x80000002⟩, ⟨0x2000, 1, 2, 1⟩] := by
  decide

/-- The names in that file. -/
def demoName (sym : FasSym) : List Byte := if sym.name_off = 1 then [0x79] else [0x78]

theorem demoFas_file : CName demoFas.strtab demoFas.hdr.ifnm_off.toNat [0x66] :=
  ⟨by decide, [], [0x78, 0], rfl, rfl⟩

theorem demoFas_names (sym : FasSym) (hsym : sym ∈ demoFas.syms.filter FasSym.kept) :
    FasName demoFas sym.name_off (demoName sym) := by
  rw [demoFas_kept, List.mem_cons, List.mem_singleton] at hsym
  rcases hsym with rfl | rfl
  · exact FasName.inStrtab (by decide) ⟨by decide, [0x66, 0], [], rfl, rfl⟩
  · exact FasName.inPsrc (by decide) (by decide) ⟨[0], 1, [0x79], [], rfl, rfl, rfl, rfl⟩

theorem fasExport_symbols_demo :
    ∃ s s' elfs, elfInit demoEnv .start = some (0, s) ∧
      fasExportSymbols demoEnv demoFas s = some s' ∧
      recordsAt Elf32Sym.ofBytes 16 (s'.symtab.cnt / 16) (tabBytes s'.symtab)
        = symtabInitial :: fileSym :: elfs ∧
      cstr (tabBytes s'.strtab) fileSym.st_name.toNat = [0x66] ∧
      List.Forall₂ (Exported demoName (tabBytes s'.strtab)) (demoFas.syms.filter FasSym.kept)
        elfs :=
  fasExport_symbols demoEnv (fun _ => ⟨_, rfl⟩) (by decide) (fun _ => true) demoFile demoFas
    demoFas_load [0x66] demoFas_file demoName demoFas_names (by rw [demoFas_kept]; decide)

end StupidOS.Fas2sym
