import StupidOS.Fas2sym.Failure

/-!
# From a FAS file to the symbols of an ELF file

`fas2sym` reads one format and writes the other. What it preserves is said with a reader for each:
`Valid` gives the names that a FAS file has for its symbols, and `elf32Symbols` reads the symbols
of an ELF file from its bytes alone. `fas2sym_symbols` says that reading the file that is written
gives the symbols that were defined in the file that was read.
-/

namespace StupidOS.Fas2sym

/-! ## Symbols with their names -/

/-- The null symbol. -/
def nullNamed : NamedSym := ⟨[], 0, 0, 0, 0⟩

/-- The symbol of the file name. -/
def fileNamed (fileName : List Byte) : NamedSym := ⟨fileName, 0, 0, sttFile, shnAbs⟩

/-- The symbol for a FAS symbol. -/
def symNamed (nm : FasSym → List Byte) (sym : FasSym) : NamedSym :=
  ⟨nm sym, sym.value.setWidth 32, sym.size.setWidth 32, sttObject, shnAbs⟩

/-- The symbols that a FAS file defines, in ELF terms. -/
def Fas.named (fas : Fas) (fileName : List Byte) (nm : FasSym → List Byte) : List NamedSym :=
  nullNamed :: fileNamed fileName :: (fas.syms.filter FasSym.kept).map (symNamed nm)

/-- Without the section, which `-t` may change. -/
def unplaced (sym : NamedSym) : NamedSym := { sym with shndx := 0 }

/-! ## Reading the file -/

/-- The reader finds the two tables. -/
theorem LayoutOf.read {file strs : List Byte} {e : Elf32Ehdr} {shdrs : Section → Elf32Shdr}
    {syms : List Elf32Sym} (h : LayoutOf file e shdrs strs syms) :
    elf32Symbols (Section.name .symtab) file
      = some (syms.map (Elf32Sym.named (strtabBytes strs))) := by
  have hinside : (shdrs .symtab).sh_offset.toNat + (shdrs .symtab).sh_size.toNat
      ≤ file.length := by
    have hlast := h.last
    have hshoff := h.shoff
    omega
  have hsize : (shdrs .symtab).sh_size.toNat = 16 * syms.length := by
    rw [← length_sectionBytes hinside, h.symtab, length_flatMap Elf32Sym.length_bytes]
  have hcount : (shdrs .symtab).sh_size.toNat / 16 = syms.length := by omega
  -- of the five sections only the last one has that name
  have hfind : elf32Section file e (Section.all.map shdrs) (Section.name .symtab)
      = some (shdrs .symtab) := by
    have hall : Section.all.map shdrs = [shdrs .null, shdrs .text, shdrs .shstrtab,
        shdrs .strtab, shdrs .symtab] := rfl
    have hndx : e.e_shstrndx.toNat = 2 := by
      rw [h.shstrndx]
      rfl
    have hnot : ∀ sec, sec ≠ .symtab →
        ¬ cstr (sectionBytes file (shdrs .shstrtab)) (shdrs sec).sh_name.toNat
          = Section.name .symtab := by
      intro sec hsec
      rw [h.names]
      cases sec with
      | null => decide
      | text => decide
      | shstrtab => decide
      | strtab => decide
      | symtab => exact absurd rfl hsec
    have hstr : (Section.all.map shdrs)[e.e_shstrndx.toNat]? = some (shdrs .shstrtab) := by
      rw [hndx, hall]
      rfl
    rw [elf32Section, hstr, hall]
    dsimp only
    rw [List.find?_cons_of_neg (by simpa using hnot .null (by decide)),
      List.find?_cons_of_neg (by simpa using hnot .text (by decide)),
      List.find?_cons_of_neg (by simpa using hnot .shstrtab (by decide)),
      List.find?_cons_of_neg (by simpa using hnot .strtab (by decide)),
      List.find?_cons_of_pos (by simpa using h.names .symtab)]
  have hlink : (Section.all.map shdrs)[(shdrs .symtab).sh_link.toNat]?
      = some (shdrs .strtab) := by
    rw [h.link]
    rfl
  simp only [elf32Symbols, h.parses, hfind, hlink, Option.bind_eq_bind, Option.bind_some,
    Option.pure_def, hcount, h.symbols, h.strtab]

theorem SameSymbols.named {t : TextNames} {syms final : List Elf32Sym}
    (h : SameSymbols t syms final) (strtab : List Byte) :
    (final.map (Elf32Sym.named strtab)).map unplaced
      = (syms.map (Elf32Sym.named strtab)).map unplaced := by
  have hsplit : ∀ l : List Elf32Sym, (l.map (Elf32Sym.named strtab)).map unplaced
      = (l.map (fun sym => { sym with st_shndx := 0 })).map (Elf32Sym.named strtab) := by
    intro l
    rw [List.map_map, List.map_map]
    rfl
  rw [hsplit, hsplit, h.fields]

/-! ## What is written -/

theorem Exported.named {nm : FasSym → List Byte} {table : List Byte} {sym : FasSym}
    {elf : Elf32Sym} (h : Exported nm table sym elf) : elf.named table = symNamed nm sym := by
  have hvalue : elf.st_value = sym.value.setWidth 32 := by
    apply BitVec.eq_of_toNat_eq
    rw [h.value, BitVec.toNat_setWidth]
  have hsize : elf.st_size = sym.size.setWidth 32 := by
    apply BitVec.eq_of_toNat_eq
    have hlt := sym.size.isLt
    rw [h.size, BitVec.toNat_setWidth, Nat.mod_eq_of_lt (by omega)]
  rw [Elf32Sym.named, symNamed, h.name, hvalue, hsize, h.info, h.shndx]

theorem exported_named {nm : FasSym → List Byte} {table : List Byte} {syms : List FasSym}
    {elfs : List Elf32Sym} (h : List.Forall₂ (Exported nm table) syms elfs) :
    elfs.map (Elf32Sym.named table) = syms.map (symNamed nm) := by
  induction h with
  | nil => rfl
  | cons hsym _ ih => rw [List.map_cons, List.map_cons, hsym.named, ih]

/-- The symbols added, with the strings added. -/
theorem addedSyms_named {malloc : Nat → Bool} {file fileName : List Byte} {fas : Fas}
    {nm : FasSym → List Byte} (h : Valid malloc file fas fileName nm)
    (hsize : 2 + (fas.addedStrs fileName nm).length < 2 ^ 32) :
    (symtabInitial :: fas.addedSyms fileName nm).map
        (Elf32Sym.named (strtabBytes (fas.addedStrs fileName nm)))
      = fas.named fileName nm := by
  have hall := elfSymsOf_exported h.names (fileName ++ [0]) [] hsize
  rw [List.append_nil] at hall
  have hrest := exported_named hall
  have hfile : fileSym.named (strtabBytes (fas.addedStrs fileName nm)) = fileNamed fileName := by
    have hname : cstr (strtabBytes (fas.addedStrs fileName nm)) 2 = fileName := by
      rw [strtabBytes, Fas.addedStrs, exportStrs, List.append_assoc]
      exact cstr_append h.file.1 strtabInitial _
    have hoff : fileSym.st_name.toNat = 2 := rfl
    rw [Elf32Sym.named, hoff, hname]
    rfl
  rw [Fas.addedSyms, exportSyms, List.map_cons, List.map_cons, hfile, Fas.named]
  exact congrArg (fun l => _ :: _ :: l) hrest

/-! ## The program -/

/-- **Symbols are preserved.** For every FAS file that loads and has its names in its tables, if
memory and disk do not fail and the file fits 32-bit offsets, the program ends with success, and
the symbols that are read back from the ELF file are the null symbol, the name of the source and
one symbol for each FAS symbol that is defined and not of assembly time, in order, with its name,
its value mod 2^32 and its size. With `-t` their sections may differ, and nothing else. -/
theorem fas2sym_symbols (env : Env) (hheap : env.heap.Gives) (hfuel : 58 < env.fuel)
    (malloc : Nat → Bool) {file fileName : List Byte} {fas : Fas} {nm : FasSym → List Byte}
    (h : Valid malloc file fas fileName nm)
    (hsize : fileSize (fas.addedStrs fileName nm) (fas.addedSyms fileName nm) < 2 ^ 32)
    (t : TextNames) :
    ∃ fp syms, fas2sym env malloc (some file) .good t = some (0, fp) ∧
      elf32Symbols (Section.name .symtab) fp = some syms ∧
      syms.map unplaced = (fas.named fileName nm).map unplaced ∧
      (t.text_begin = none ∨ t.text_end = none → syms = fas.named fileName nm) := by
  have hbounds := h.bounds
  have hlens := hsize
  rw [fileSize] at hlens
  have hsyms := length_syms h.load
  have hkept : (fas.syms.filter FasSym.kept).length ≤ fas.syms.length := List.length_filter_le _ _
  rcases elfInit_cases hfuel with ⟨ret, s, hinit, ⟨rfl, hinv⟩ | ⟨-, hrefused⟩⟩
  · rcases fasExportSymbols_spec hfuel hinv h.file h.names hbounds.1 (by omega) with
      ⟨s', hexport, hinv'⟩ | hrefused
    · rcases elfWrite_spec hinv' t (by
        rw [Fas.addedStrs, Fas.addedSyms] at hsize
        omega) with ⟨fp, s'', hwrite, e, shdrs, final, hlayout, hsame⟩
      have hnamed := addedSyms_named h (by omega)
      refine ⟨fp, _, ?_, hlayout.read, ?_, ?_⟩
      · simp only [fas2sym, h.load, hinit, hexport, hwrite]
        rfl
      · rw [← hnamed]
        exact hsame.named _
      · intro hnone
        rw [hsame.exact hnone]
        exact hnamed
    · exact absurd hrefused (hheap.not_refused _)
  · exact absurd hrefused (hheap.not_refused _)

/-- The file has `x` at 0x1000, from the string table, and `y` at 0x2000, from the source. -/
theorem fas2sym_symbols_demo :
    ∃ fp, fas2sym demoEnv (fun _ => true) (some demoFile) .good ⟨none, none⟩ = some (0, fp) ∧
      elf32Symbols (Section.name .symtab) fp = some [nullNamed, fileNamed [0x66],
        ⟨[0x78], 0x1000, 4, sttObject, shnAbs⟩, ⟨[0x79], 0x2000, 2, sttObject, shnAbs⟩] := by
  have hsize : fileSize (demoFas.addedStrs [0x66] demoName) (demoFas.addedSyms [0x66] demoName)
      < 2 ^ 32 := by
    rw [Fas.addedStrs, Fas.addedSyms, demoFas_kept]
    decide
  rcases fas2sym_symbols demoEnv (fun _ => ⟨_, rfl⟩) (by decide) (fun _ => true) demoFas_valid
    hsize ⟨none, none⟩ with ⟨fp, syms, hrun, hread, _, hexact⟩
  have hsyms := hexact (Or.inl rfl)
  rw [Fas.named, demoFas_kept] at hsyms
  refine ⟨fp, hrun, ?_⟩
  rw [hread, hsyms]
  rfl

end StupidOS.Fas2sym
