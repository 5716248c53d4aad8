import Mathlib.Logic.Function.Basic
import StupidOS.Fas2sym.Buffer
import StupidOS.Lib.Elf32

/-!
# The ELF output of `fas2sym` (`elf.c`)

Three buffers are filled, `.shstrtab`, `.strtab` and `.symtab`, and `elf_write` puts a header in
front of them and the section headers behind. Where the section headers will be is computed
before anything is written, the offsets of the sections after. `elfWrite_layout` says that the
two agree and that the file reads back to what was added.
-/

namespace StupidOS.Fas2sym

/-! ## Data -/

/-- `enum sections` -/
inductive Section where
  | null
  | text
  | shstrtab
  | strtab
  | symtab
deriving DecidableEq, Repr

def Section.all : List Section := [.null, .text, .shstrtab, .strtab, .symtab]

/-- `ELF32_ST_INFO` of `STB_LOCAL` symbols. -/
def sttFile : Byte := 4
def sttObject : Byte := 1

/-- `SHN_ABS` -/
def shnAbs : Half := 0xFFF1

/-- `SEC_TEXT` as a section index. -/
def secText : Half := 1

/-- `elf_ehdr` -/
def elfEhdr : Elf32Ehdr where
  e_ident := elf32Ident ++ List.replicate 9 0
  e_type := 3
  e_machine := 3
  e_version := 1
  e_entry := 0
  e_phoff := 0
  e_shoff := 0
  e_flags := 0
  e_ehsize := 52
  e_phentsize := 32
  e_phnum := 0
  e_shentsize := 40
  e_shnum := 5
  e_shstrndx := 2

/-- `elf_shdrs` -/
def elfShdrs : Section → Elf32Shdr
  | .null => ⟨0, 0, 0, 0, 0, 0, 0, 0, 0, 0⟩
  | .text => ⟨1, 8, 2 ||| 4, 0, 0, 0, 0, 0, 1, 0⟩
  | .shstrtab => ⟨7, 3, 0, 0, 0, 0, 0, 0, 1, 0⟩
  | .strtab => ⟨17, 3, 0, 0, 0, 0, 0, 0, 1, 0⟩
  | .symtab => ⟨25, 2, 0, 0, 0, 0, 3, 0, 4, 16⟩

/-- The names of the sections. -/
def Section.name : Section → List Byte
  | .null => []
  | .text => [0x2E, 0x74, 0x65, 0x78, 0x74]
  | .shstrtab => [0x2E, 0x73, 0x68, 0x73, 0x74, 0x72, 0x74, 0x61, 0x62]
  | .strtab => [0x2E, 0x73, 0x74, 0x72, 0x74, 0x61, 0x62]
  | .symtab => [0x2E, 0x73, 0x79, 0x6D, 0x74, 0x61, 0x62]

/-- The string in `elf_shstrtab_init`, with the NUL that `sizeof` counts. -/
def shstrtabInitial : List Byte :=
  0 :: (Section.name .text ++ 0 :: (Section.name .shstrtab ++ 0 :: (Section.name .strtab ++
    0 :: (Section.name .symtab ++ [0, 0]))))

/-- The string in `elf_strtab_init`, with the NUL that `sizeof` counts. -/
def strtabInitial : List Byte := [0, 0]

/-- The symbol in `elf_symtab_init`. -/
def symtabInitial : Elf32Sym := ⟨0, 0, 0, 0, 0, 0⟩

/-- The static variables, and how often `realloc` was called. -/
structure Elf where
  ehdr : Elf32Ehdr
  shdrs : Section → Elf32Shdr
  shstrtab : Buffer
  strtab : Buffer
  symtab : Buffer
  calls : Nat

/-- The variables of a fresh process. -/
def Elf.start : Elf := ⟨elfEhdr, elfShdrs, .empty, .empty, .empty, 0⟩

/-- What a process depends on: the heap, a bound on the passes of a growth loop, and how often
`-v` was given. -/
structure Env where
  heap : Heap
  fuel : Nat
  verbose : Nat

/-- `text_begin` and `text_end`, set by `-t`. -/
structure TextNames where
  text_begin : Option (List Byte)
  text_end : Option (List Byte)

/-- Whether `fopen` succeeds, and each `fwrite`. -/
structure Disk where
  opens : Bool
  writes : Nat → Bool

/-- A disk without failures. -/
def Disk.good : Disk := ⟨true, fun _ => true⟩

/-! ## `elf.c` -/

variable (env : Env)

def elfShstrtabInit (s : Elf) : Option (Int × Elf) :=
  (bufferPut env.heap env.fuel s.calls s.shstrtab shstrtabInitial).map fun p =>
    (p.ret, { s with shstrtab := p.buff, calls := p.calls })

def elfStrtabInit (s : Elf) : Option (Int × Elf) :=
  (bufferPut env.heap env.fuel s.calls s.strtab strtabInitial).map fun p =>
    (p.ret, { s with strtab := p.buff, calls := p.calls })

def elfSymtabInit (s : Elf) : Option (Int × Elf) :=
  (bufferPut env.heap env.fuel s.calls s.symtab symtabInitial.bytes).map fun p =>
    (p.ret, { s with symtab := p.buff, calls := p.calls })

def elfInit (s : Elf) : Option (Int × Elf) := do
  let (ret, s) ← elfShstrtabInit env s
  if ret ≠ 0 then return (-1, s)
  let (ret, s) ← elfStrtabInit env s
  if ret ≠ 0 then return (-1, s)
  let (ret, s) ← elfSymtabInit env s
  if ret ≠ 0 then return (-1, s)
  return (0, s)

/-- `elf_add_symbol`. With `-vv` the message reads the name through `elf_strtab.data`. -/
def elfAddSymbol (name_off value size : Word) (info : Byte) (sect : Half) (s : Elf) :
    Option (Int × Elf) :=
  let sym : Elf32Sym := ⟨name_off, value, size, info, 0, sect⟩
  if 2 ≤ env.verbose ∧ s.strtab.data.isNone then none else
  let shdr := s.shdrs .symtab
  let s := { s with
    shdrs := Function.update s.shdrs .symtab { shdr with sh_info := shdr.sh_info + 1 } }
  (bufferPut env.heap env.fuel s.calls s.symtab sym.bytes).map fun p =>
    (p.ret, { s with symtab := p.buff, calls := p.calls })

/-- `elf_add_str` of the bytes at `str`: what it returns, and `*idx`. -/
def elfAddStr (str : List Byte) (s : Elf) : Option (Int × Nat × Elf) :=
  (bufferPut env.heap env.fuel s.calls s.strtab str).map fun p =>
    (p.ret, p.index, { s with strtab := p.buff, calls := p.calls })

/-- `elf_write_tab`: what it returns, and the file. -/
def elfWriteTab (writes : Bool) (buff : Buffer) (fp : List Byte) : Int × List Byte :=
  match buff.data with
  | none => (0, fp)
  | some block =>
    if buff.cnt = 0 then (0, fp)
    else if writes then (0, fp ++ block.bytes.load 0 buff.cnt)
    else (-1, fp)

/-- `elf_compute_section_offsets` -/
def elfComputeSectionOffsets (s : Elf) : Elf :=
  let place (shdrs : Section → Elf32Shdr) (sec : Section) (offset cnt : Nat) :=
    Function.update shdrs sec { shdrs sec with
      sh_offset := BitVec.ofNat 32 offset, sh_size := BitVec.ofNat 32 cnt }
  let offset := 52
  let shdrs := place s.shdrs .shstrtab offset s.shstrtab.cnt
  let offset := offset + s.shstrtab.cnt
  let shdrs := place shdrs .strtab offset s.strtab.cnt
  let offset := offset + s.strtab.cnt
  let shdrs := place shdrs .symtab offset s.symtab.cnt
  { s with shdrs := shdrs }

/-- The first loop of `elf_resolve_symbols`: the values of the two symbols. -/
def resolveNames (strtab : Obj) (text_begin text_end : List Byte) :
    List Elf32Sym → Word → Word → Word × Word
  | [], begin, finish => (begin, finish)
  | sym :: syms, begin, finish =>
    let (begin, finish) :=
      if strcmpEq text_begin strtab sym.st_name.toNat then (sym.st_value, finish)
      else if strcmpEq text_end strtab sym.st_name.toNat then (begin, sym.st_value)
      else (begin, finish)
    if begin ≠ 0 ∧ finish ≠ 0 then (begin, finish)
    else resolveNames strtab text_begin text_end syms begin finish

/-- The second loop on one symbol. -/
def resolveSym (begin finish : Word) (sym : Elf32Sym) : Elf32Sym :=
  if begin ≤ sym.st_value ∧ sym.st_value ≤ finish then { sym with st_shndx := secText } else sym

/-- The section header of `.text` for the two values. -/
def Elf.setText (s : Elf) (begin finish : Word) : Elf :=
  let shdr := { s.shdrs .text with sh_addr := begin, sh_size := finish - begin }
  { s with shdrs := Function.update s.shdrs .text shdr }

/-- `elf_resolve_symbols`. Through a buffer without data it has no result. -/
def elfResolveSymbols (t : TextNames) (s : Elf) : Option Elf :=
  match t.text_begin, t.text_end with
  | some text_begin, some text_end =>
    let symcnt := s.symtab.cnt / 16
    if symcnt = 0 then some (s.setText 0 0) else
    match s.symtab.data, s.strtab.data with
    | some block, some strtab =>
      let syms := recordsAt Elf32Sym.ofBytes 16 symcnt (block.bytes.load 0 (16 * symcnt))
      let (begin, finish) := resolveNames strtab.bytes text_begin text_end syms 0 0
      let bytes := block.bytes.store 0 ((syms.map (resolveSym begin finish)).flatMap Elf32Sym.bytes)
      let s := s.setText begin finish
      some { s with symtab := ⟨s.symtab.cap, s.symtab.cnt, some ⟨block.size, bytes⟩⟩ }
    | _, _ => none
  | _, _ => some s

/-- The offset of the section headers, as `elf_write` computes it before it writes. -/
def Elf.withShoff (s : Elf) : Elf :=
  let shoff : Word := 52
  let shoff := shoff + BitVec.ofNat 32 (s.shstrtab.cnt + s.strtab.cnt)
  let shoff := shoff + BitVec.ofNat 32 s.symtab.cnt
  { s with ehdr := { s.ehdr with e_shoff := shoff } }

/-- `elf_write`: what it returns, the file, and the variables. -/
def elfWrite (d : Disk) (t : TextNames) (s : Elf) : Option (Int × List Byte × Elf) :=
  if ¬ d.opens then some (-1, [], s) else
  match elfResolveSymbols t s.withShoff with
  | none => none
  | some s =>
    if ¬ d.writes 0 then some (-1, [], s) else
    let (ret, fp) := elfWriteTab (d.writes 1) s.shstrtab s.ehdr.bytes
    if ret ≠ 0 then some (-1, fp, s) else
    let (ret, fp) := elfWriteTab (d.writes 2) s.strtab fp
    if ret ≠ 0 then some (-1, fp, s) else
    let (ret, fp) := elfWriteTab (d.writes 3) s.symtab fp
    if ret ≠ 0 then some (-1, fp, s) else
    -- section headers
    let s := elfComputeSectionOffsets s
    let shdr := s.shdrs .symtab
    let s := { s with
      shdrs := Function.update s.shdrs .symtab { shdr with sh_info := shdr.sh_info + 1 } }
    if ¬ d.writes 4 then some (-1, fp, s) else
    some (0, fp ++ (Section.all.map s.shdrs).flatMap Elf32Shdr.bytes, s)

/-! ## What was added -/

variable {env}

/-- The bytes of `.strtab` for the strings added. -/
def strtabBytes (strs : List Byte) : List Byte := strtabInitial ++ strs

/-- The bytes of `.symtab` for the symbols added, behind the null symbol. -/
def symtabBytes (syms : List Elf32Sym) : List Byte :=
  (symtabInitial :: syms).flatMap Elf32Sym.bytes

@[simp] theorem length_shstrtabInitial : shstrtabInitial.length = 34 := rfl

@[simp] theorem length_strtabBytes (strs : List Byte) :
    (strtabBytes strs).length = 2 + strs.length := by
  rw [strtabBytes, List.length_append]
  rfl

@[simp] theorem length_symtabBytes (syms : List Elf32Sym) :
    (symtabBytes syms).length = 16 * (syms.length + 1) :=
  length_flatMap Elf32Sym.length_bytes _

theorem strtabBytes_append (strs str : List Byte) :
    strtabBytes strs ++ str = strtabBytes (strs ++ str) := List.append_assoc _ _ _

theorem symtabBytes_append (syms : List Elf32Sym) (sym : Elf32Sym) :
    symtabBytes syms ++ sym.bytes = symtabBytes (syms ++ [sym]) := by
  rw [symtabBytes, symtabBytes, ← List.cons_append, List.flatMap_append]
  simp only [List.flatMap_cons, List.flatMap_nil, List.append_nil]

/-- The calls of `realloc` that it takes to add all that. -/
def callsFor (strs : List Byte) (syms : List Elf32Sym) : Nat :=
  growths shstrtabInitial.length + growths (strtabBytes strs).length +
    growths (symtabBytes syms).length

/-- The strings and symbols added are in the buffers, and no call of `realloc` has failed. -/
structure ElfInv (heap : Heap) (s : Elf) (strs : List Byte) (syms : List Elf32Sym) : Prop where
  ehdr : s.ehdr = elfEhdr
  shdrs : s.shdrs = Function.update elfShdrs .symtab
    { elfShdrs .symtab with sh_info := BitVec.ofNat 32 syms.length }
  shstrtab : Holds s.shstrtab shstrtabInitial
  strtab : Holds s.strtab (strtabBytes strs)
  symtab : Holds s.symtab (symtabBytes syms)
  calls : s.calls = callsFor strs syms
  served : Served heap 0 s.calls

/-- Some call of `realloc` among the first `n` fails. -/
def Refused (heap : Heap) (n : Nat) : Prop := ∃ i, i < n ∧ heap i = none

theorem Heap.Gives.not_refused {heap : Heap} (h : heap.Gives) (n : Nat) : ¬ Refused heap n := by
  intro hrefused
  rcases hrefused with ⟨i, -, hnone⟩
  rcases h i with ⟨junk, hjunk⟩
  rw [hnone] at hjunk
  cases hjunk

theorem Served.append {heap : Heap} {n k : Nat} (h : Served heap 0 n) (h' : Served heap n k) :
    Served heap 0 k := by
  intro i _ hi
  rcases Nat.lt_or_ge i n with hlt | hge
  · exact h i (Nat.zero_le i) hlt
  · exact h' i hge hi

/-- A buffer with contents has a block. -/
theorem Room.block {b : Buffer} {l : List Byte} {g : Nat} (h : Room b l g) (hl : l ≠ []) :
    ∃ block, b.data = some block ∧ block.bytes.load 0 b.cnt = l := by
  rcases h.data with ⟨hzero, -⟩ | ⟨block, hsome, -, hload⟩
  · have hle := h.le
    rw [hzero, ← le_capAt_iff, capAt] at hle
    exact absurd (List.eq_nil_of_length_eq_zero (Nat.le_zero.mp hle)) hl
  · rw [h.cnt]
    exact ⟨block, hsome, hload⟩

/-- `elf_init` of a fresh process: it fails only if one of its calls of `realloc` does. -/
theorem elfInit_cases (hfuel : 58 < env.fuel) :
    ∃ ret s, elfInit env .start = some (ret, s) ∧
      (ret = 0 ∧ ElfInv env.heap s [] [] ∨ ret = -1 ∧ Refused env.heap (callsFor [] [])) := by
  have hcalls : callsFor [] [] = 4 := by decide
  have hg₀ : growths shstrtabInitial.length = 2 := by decide
  have hg₁ : growths strtabInitial.length = 1 := by decide
  have hg₂ : growths symtabInitial.bytes.length = 1 := by decide
  have hg : growths ([] : List Byte).length = 0 := rfl
  rcases bufferPut_cases env.heap holds_empty shstrtabInitial (by decide) hfuel 0 with
    ⟨p₀, hput₀, -, ⟨hret₀, hholds₀, hcalls₀, hserved₀⟩ | ⟨hret₀, -, -, i, -, hi, hnone⟩⟩
  · rw [List.nil_append] at hholds₀ hcalls₀
    rcases bufferPut_cases env.heap holds_empty strtabInitial (by decide) hfuel
      p₀.calls with
      ⟨p₁, hput₁, -, ⟨hret₁, hholds₁, hcalls₁, hserved₁⟩ | ⟨hret₁, -, -, i, -, hi, hnone⟩⟩
    · rw [List.nil_append] at hholds₁ hcalls₁
      rcases bufferPut_cases env.heap holds_empty symtabInitial.bytes (by decide) hfuel
        p₁.calls with
        ⟨p₂, hput₂, -, ⟨hret₂, hholds₂, hcalls₂, hserved₂⟩ | ⟨hret₂, -, -, i, -, hi, hnone⟩⟩
      · rw [List.nil_append] at hholds₂ hcalls₂
        refine ⟨0, ⟨elfEhdr, elfShdrs, p₀.buff, p₁.buff, p₂.buff, p₂.calls⟩, ?_, Or.inl ⟨rfl, rfl,
          ?_, hholds₀, hholds₁, hholds₂, ?_, (hserved₀.append hserved₁).append hserved₂⟩⟩
        · simp [elfInit, elfShstrtabInit, elfStrtabInit, elfSymtabInit, Elf.start, hput₀, hput₁,
            hput₂, hret₀, hret₁, hret₂]
        · exact (Function.update_eq_self _ _).symm
        · dsimp only
          omega
      · refine ⟨-1, ⟨elfEhdr, elfShdrs, p₀.buff, p₁.buff, p₂.buff, p₂.calls⟩, ?_,
          Or.inr ⟨rfl, i, ?_, hnone⟩⟩
        · simp [elfInit, elfShstrtabInit, elfStrtabInit, elfSymtabInit, Elf.start, hput₀, hput₁,
            hput₂, hret₀, hret₁, hret₂]
        · rw [List.nil_append] at hi
          omega
    · refine ⟨-1, ⟨elfEhdr, elfShdrs, p₀.buff, p₁.buff, .empty, p₁.calls⟩, ?_,
        Or.inr ⟨rfl, i, ?_, hnone⟩⟩
      · simp [elfInit, elfShstrtabInit, elfStrtabInit, Elf.start, hput₀, hput₁, hret₀, hret₁]
      · rw [List.nil_append] at hi
        omega
  · refine ⟨-1, ⟨elfEhdr, elfShdrs, p₀.buff, .empty, .empty, p₀.calls⟩, ?_,
      Or.inr ⟨rfl, i, ?_, hnone⟩⟩
    · simp [elfInit, elfShstrtabInit, Elf.start, hput₀, hret₀]
    · rw [List.nil_append] at hi
      omega

/-- What a failed `elf_add_str` leaves. -/
structure StrLost (s s' : Elf) (cnt : Nat) : Prop where
  data : s'.strtab.data = none
  cnt : s'.strtab.cnt = cnt
  rest : s' = { s with strtab := s'.strtab, calls := s'.calls }

/-- What a failed `elf_add_symbol` leaves. -/
structure SymLost (s s' : Elf) (cnt : Nat) : Prop where
  data : s'.symtab.data = none
  cnt : s'.symtab.cnt = cnt
  rest : s' = { s with shdrs := s'.shdrs, symtab := s'.symtab, calls := s'.calls }

variable {s : Elf} {strs : List Byte} {syms : List Elf32Sym}

/-- `elf_add_str`: the string is behind the ones before, unless `realloc` fails. -/
theorem elfAddStr_cases (h : ElfInv env.heap s strs syms) (hfuel : 58 < env.fuel)
    (str : List Byte) (hlen : 2 + strs.length + str.length ≤ 2 ^ 62) :
    ∃ ret s', elfAddStr env str s = some (ret, 2 + strs.length, s') ∧
      (ret = 0 ∧ ElfInv env.heap s' (strs ++ str) syms ∨
        ret = -1 ∧ StrLost s s' (2 + strs.length) ∧
          Refused env.heap (callsFor (strs ++ str) syms)) := by
  rcases bufferPut_cases env.heap h.strtab str (by rw [length_strtabBytes]; exact hlen)
    hfuel s.calls with ⟨p, hput, hindex, hcases⟩
  have hcalls := h.calls
  rw [callsFor] at hcalls
  rw [length_strtabBytes] at hindex
  rw [strtabBytes_append] at hcases
  refine ⟨p.ret, { s with strtab := p.buff, calls := p.calls }, ?_, ?_⟩
  · rw [elfAddStr, hput, Option.map_some, hindex]
  · rcases hcases with ⟨hret, hholds, hput, hserved⟩ | ⟨hret, hnone, hcnt, i, -, hi, hfail⟩
    · refine Or.inl ⟨hret, h.ehdr, h.shdrs, h.shstrtab, hholds, h.symtab, ?_,
        h.served.append hserved⟩
      dsimp only
      rw [callsFor]
      omega
    · rw [length_strtabBytes] at hcnt
      refine Or.inr ⟨hret, ⟨hnone, hcnt, rfl⟩, i, ?_, hfail⟩
      rw [callsFor]
      omega

/-- `elf_add_symbol`: the symbol is behind the ones before, unless `realloc` fails. -/
theorem elfAddSymbol_cases (h : ElfInv env.heap s strs syms) (hfuel : 58 < env.fuel)
    (name_off value size : Word) (info : Byte) (sect : Half)
    (hlen : 16 * (syms.length + 2) ≤ 2 ^ 62) :
    ∃ ret s', elfAddSymbol env name_off value size info sect s = some (ret, s') ∧
      (ret = 0 ∧ ElfInv env.heap s' strs (syms ++ [⟨name_off, value, size, info, 0, sect⟩]) ∨
        ret = -1 ∧ SymLost s s' (16 * (syms.length + 1)) ∧
          Refused env.heap (callsFor strs (syms ++ [⟨name_off, value, size, info, 0, sect⟩]))) := by
  rcases bufferPut_cases env.heap h.symtab
    (Elf32Sym.bytes ⟨name_off, value, size, info, 0, sect⟩)
    (by rw [length_symtabBytes, Elf32Sym.length_bytes]; omega) hfuel s.calls with
    ⟨p, hput, -, hcases⟩
  have hcalls := h.calls
  rw [callsFor] at hcalls
  rw [symtabBytes_append] at hcases
  rcases h.strtab.block (by rw [strtabBytes, strtabInitial]; simp) with ⟨block, hblock, -⟩
  -- the message of a verbose run reads the string table, which has its block
  have hreads : ¬ (2 ≤ env.verbose ∧ s.strtab.data.isNone) := by
    rw [hblock]
    simp
  have hinfo : (s.shdrs .symtab).sh_info + 1 = BitVec.ofNat 32 (syms.length + 1) := by
    rw [h.shdrs, Function.update_self, BitVec.ofNat_add]
    rfl
  refine ⟨p.ret, { s with
    shdrs := Function.update s.shdrs .symtab
      { s.shdrs .symtab with sh_info := (s.shdrs .symtab).sh_info + 1 },
    symtab := p.buff, calls := p.calls }, ?_, ?_⟩
  · rw [elfAddSymbol]
    dsimp only
    rw [if_neg hreads, hput, Option.map_some]
  · rcases hcases with ⟨hret, hholds, hput, hserved⟩ | ⟨hret, hnone, hcnt, i, -, hi, hfail⟩
    · refine Or.inl ⟨hret, h.ehdr, ?_, h.shstrtab, h.strtab, hholds, ?_,
        h.served.append hserved⟩
      · dsimp only
        rw [hinfo, h.shdrs, Function.update_idem, Function.update_self, List.length_append]
        rfl
      · dsimp only
        rw [callsFor]
        omega
    · rw [length_symtabBytes] at hcnt
      refine Or.inr ⟨hret, ⟨hnone, hcnt, rfl⟩, i, ?_, hfail⟩
      rw [callsFor]
      omega

/-! ## Runs -/

/-- The calls between `elf_init` and `elf_write`. -/
inductive ElfOp where
  | addStr (str : List Byte)
  | addSymbol (name_off value size : Word) (info : Byte) (sect : Half)

variable (env) in
/-- A sequence of calls. -/
def elfRun : List ElfOp → Elf → Option Elf
  | [], s => some s
  | .addStr str :: ops, s =>
    match elfAddStr env str s with
    | none => none
    | some (_, _, s) => elfRun ops s
  | .addSymbol name_off value size info sect :: ops, s =>
    match elfAddSymbol env name_off value size info sect s with
    | none => none
    | some (_, s) => elfRun ops s

/-- The strings that a sequence adds. -/
def strsOf : List ElfOp → List Byte
  | [] => []
  | .addStr str :: ops => str ++ strsOf ops
  | .addSymbol _ _ _ _ _ :: ops => strsOf ops

/-- The symbols that a sequence adds. -/
def symsOf : List ElfOp → List Elf32Sym
  | [] => []
  | .addStr _ :: ops => symsOf ops
  | .addSymbol name_off value size info sect :: ops =>
    ⟨name_off, value, size, info, 0, sect⟩ :: symsOf ops

/-- The size of the file. -/
def fileSize (strs : List Byte) (syms : List Elf32Sym) : Nat :=
  52 + 34 + (2 + strs.length) + 16 * (syms.length + 1) + 40 * 5

theorem Refused.mono {heap : Heap} {n k : Nat} (h : Refused heap n) (hle : n ≤ k) :
    Refused heap k := by
  rcases h with ⟨i, hi, hnone⟩
  exact ⟨i, Nat.lt_of_lt_of_le hi hle, hnone⟩

/-- More contents take more calls. -/
theorem callsFor_mono {strs strs' : List Byte} {syms syms' : List Elf32Sym}
    (hstrs : strs.length ≤ strs'.length) (hsyms : syms.length ≤ syms'.length) :
    callsFor strs syms ≤ callsFor strs' syms' := by
  have h₁ : growths (strtabBytes strs).length ≤ growths (strtabBytes strs').length := by
    apply growths_mono
    rw [length_strtabBytes, length_strtabBytes]
    omega
  have h₂ : growths (symtabBytes syms).length ≤ growths (symtabBytes syms').length := by
    apply growths_mono
    rw [length_symtabBytes, length_symtabBytes]
    omega
  unfold callsFor
  omega

/-- A call that fails early is one of those that everything takes. -/
theorem Refused.extend {heap : Heap} {strs strs' : List Byte} {syms syms' : List Elf32Sym}
    (h : Refused heap (callsFor strs syms)) (hstrs : strs <+: strs') (hsyms : syms <+: syms') :
    Refused heap (callsFor strs' syms') :=
  h.mono (callsFor_mono hstrs.length_le hsyms.length_le)

/-- A sequence of calls adds everything, unless `realloc` fails. -/
theorem elfRun_cases (hfuel : 58 < env.fuel) (ops : List ElfOp) (h : ElfInv env.heap s strs syms)
    (hstrs : 2 + (strs ++ strsOf ops).length ≤ 2 ^ 62)
    (hsyms : 16 * ((syms ++ symsOf ops).length + 1) ≤ 2 ^ 62) :
    (∃ s', elfRun env ops s = some s' ∧
      ElfInv env.heap s' (strs ++ strsOf ops) (syms ++ symsOf ops)) ∨
    Refused env.heap (callsFor (strs ++ strsOf ops) (syms ++ symsOf ops)) := by
  -- on the calls still to come
  induction ops generalizing s strs syms with
  | nil =>
      left
      rw [strsOf, symsOf, List.append_nil, List.append_nil]
      exact ⟨s, rfl, h⟩
  | cons op ops ih =>
      cases op with
      | addStr str =>
          rw [strsOf, symsOf, ← List.append_assoc] at *
          have hlen := hstrs
          rw [List.length_append, List.length_append] at hlen
          rcases elfAddStr_cases h hfuel str (by omega) with
            ⟨ret, s₁, hadd, ⟨-, h₁⟩ | ⟨-, -, hrefused⟩⟩
          · rw [elfRun, hadd]
            exact ih h₁ hstrs hsyms
          · right
            exact hrefused.extend (List.prefix_append _ _) (List.prefix_append _ _)
      | addSymbol name_off value size info sect =>
          rw [strsOf, symsOf, List.append_cons] at *
          have hlen := hsyms
          rw [List.length_append, List.length_append, List.length_singleton] at hlen
          rcases elfAddSymbol_cases h hfuel name_off value size info sect (by omega) with
            ⟨ret, s₁, hadd, ⟨-, h₁⟩ | ⟨-, -, hrefused⟩⟩
          · rw [elfRun, hadd]
            exact ih h₁ hstrs hsyms
          · right
            exact hrefused.extend (List.prefix_append _ _) (List.prefix_append _ _)

/-! ## The file -/

/-- What `elf_write_tab` writes of a buffer. -/
def tabBytes (b : Buffer) : List Byte :=
  match b.data with
  | none => []
  | some block => block.bytes.load 0 b.cnt

theorem elfWriteTab_good (b : Buffer) (fp : List Byte) :
    elfWriteTab true b fp = (0, fp ++ tabBytes b) := by
  unfold elfWriteTab tabBytes
  cases b.data with
  | none =>
      dsimp only
      rw [List.append_nil]
  | some block =>
      dsimp only
      split
      next hzero =>
        rw [hzero]
        exact congrArg (Prod.mk 0) (List.append_nil fp).symm
      next => rfl

theorem Room.tabBytes {b : Buffer} {l : List Byte} {g : Nat} (h : Room b l g) :
    tabBytes b = l := by
  unfold Fas2sym.tabBytes
  rcases h.data with ⟨hzero, hnone⟩ | ⟨block, hsome, -, hload⟩
  · have hle := h.le
    rw [hzero, ← le_capAt_iff, capAt] at hle
    rw [hnone]
    exact (List.eq_nil_of_length_eq_zero (Nat.le_zero.mp hle)).symm
  · rw [hsome]
    dsimp only
    rw [h.cnt, hload]

/-- The section headers as they are written. -/
def Elf.finished (s : Elf) : Section → Elf32Shdr
  | .null => s.shdrs .null
  | .text => s.shdrs .text
  | .shstrtab => { s.shdrs .shstrtab with
      sh_offset := 52, sh_size := BitVec.ofNat 32 s.shstrtab.cnt }
  | .strtab => { s.shdrs .strtab with
      sh_offset := BitVec.ofNat 32 (52 + s.shstrtab.cnt),
      sh_size := BitVec.ofNat 32 s.strtab.cnt }
  | .symtab => { s.shdrs .symtab with
      sh_offset := BitVec.ofNat 32 (52 + s.shstrtab.cnt + s.strtab.cnt),
      sh_size := BitVec.ofNat 32 s.symtab.cnt,
      sh_info := (s.shdrs .symtab).sh_info + 1 }

/-- The file for the variables after `elf_resolve_symbols`. -/
def Elf.output (s : Elf) : List Byte :=
  s.ehdr.bytes ++ ((tabBytes s.shstrtab ++ (tabBytes s.strtab ++ tabBytes s.symtab)) ++
    (Section.all.map s.finished).flatMap Elf32Shdr.bytes)

theorem Elf.finished_eq (s : Elf) : Function.update (elfComputeSectionOffsets s).shdrs .symtab
    { (elfComputeSectionOffsets s).shdrs .symtab with
      sh_info := ((elfComputeSectionOffsets s).shdrs .symtab).sh_info + 1 } = s.finished := by
  funext sec
  cases sec <;> rfl

/-- `elf_write` on a disk without failures. -/
theorem elfWrite_good (t : TextNames) (s : Elf) :
    elfWrite .good t s = (elfResolveSymbols t s.withShoff).map fun s' =>
      (0, s'.output, { s' with shdrs := s'.finished }) := by
  have hopens : ¬ ¬ Disk.good.opens = true := by decide
  have hwrites : ∀ k, ¬ ¬ Disk.good.writes k = true := fun _ => not_not_intro rfl
  have htab : ∀ k b fp, elfWriteTab (Disk.good.writes k) b fp = (0, fp ++ tabBytes b) :=
    fun _ => elfWriteTab_good
  rw [elfWrite, if_neg hopens]
  cases elfResolveSymbols t s.withShoff with
  | none => rfl
  | some s =>
      dsimp only
      rw [if_neg (hwrites 0), if_neg (hwrites 4), htab, htab, htab, s.finished_eq]
      dsimp only
      rw [if_neg (by decide), if_neg (by decide), if_neg (by decide), Option.map_some, Elf.output]
      simp only [List.append_assoc]
      rfl

/-! ### Resolving -/

/-- The same symbols, without `-t` names, and otherwise up to their section. -/
structure SameSymbols (t : TextNames) (syms final : List Elf32Sym) : Prop where
  exact : t.text_begin = none ∨ t.text_end = none → final = syms
  fields : final.map (fun sym => { sym with st_shndx := 0 })
    = syms.map (fun sym => { sym with st_shndx := 0 })

theorem SameSymbols.length {t : TextNames} {syms final : List Elf32Sym}
    (h : SameSymbols t syms final) : final.length = syms.length := by
  have hlen := congrArg List.length h.fields
  rw [List.length_map, List.length_map] at hlen
  exact hlen

theorem sameSymbols_resolve {t : TextNames} (ht : t.text_begin ≠ none ∧ t.text_end ≠ none)
    (begin finish : Word) (syms : List Elf32Sym) :
    SameSymbols t syms (syms.map (resolveSym begin finish)) := by
  constructor
  · intro hnone
    rcases hnone with hnone | hnone
    · exact absurd hnone ht.1
    · exact absurd hnone ht.2
  · rw [List.map_map]
    apply List.map_congr_left
    intro sym _
    rw [Function.comp_apply, resolveSym]
    split
    · rfl
    · rfl

/-- What `elf_resolve_symbols` changes: the section of symbols, and `.text`. -/
structure Resolved (t : TextNames) (s s' : Elf) (syms : List Elf32Sym) : Prop where
  ehdr : s'.ehdr = s.ehdr
  shdrs : ∀ sec, sec ≠ .text → s'.shdrs sec = s.shdrs sec
  name : (s'.shdrs .text).sh_name = (s.shdrs .text).sh_name
  shstrtab : s'.shstrtab = s.shstrtab
  strtab : s'.strtab = s.strtab
  cnt : s'.symtab.cnt = s.symtab.cnt
  symtab : ∃ final, tabBytes s'.symtab = final.flatMap Elf32Sym.bytes ∧ SameSymbols t syms final

theorem elfResolveSymbols_spec (t : TextNames) {s : Elf} (hstrtab : Holds s.strtab (strtabBytes strs))
    (hsymtab : Holds s.symtab (symtabBytes syms)) :
    ∃ s', elfResolveSymbols t s = some s' ∧ Resolved t s s' (symtabInitial :: syms) := by
  have hunresolved : t.text_begin = none ∨ t.text_end = none →
      Resolved t s s (symtabInitial :: syms) := by
    intro _
    exact ⟨rfl, fun _ _ => rfl, rfl, rfl, rfl, rfl, _, hsymtab.tabBytes, fun _ => rfl, rfl⟩
  unfold elfResolveSymbols
  cases hbegin : t.text_begin with
  | none => exact ⟨s, rfl, hunresolved (Or.inl hbegin)⟩
  | some text_begin =>
      cases hend : t.text_end with
      | none => exact ⟨s, rfl, hunresolved (Or.inr hend)⟩
      | some text_end =>
          have ht : t.text_begin ≠ none ∧ t.text_end ≠ none := by
            rw [hbegin, hend]
            exact ⟨Option.some_ne_none _, Option.some_ne_none _⟩
          have hcnt : s.symtab.cnt = 16 * (syms.length + 1) := by
            rw [hsymtab.cnt, length_symtabBytes]
          have hsymcnt : s.symtab.cnt / 16 = syms.length + 1 := by omega
          rcases hstrtab.block (by rw [strtabBytes, strtabInitial]; simp) with ⟨names, hnames, -⟩
          rcases hsymtab.block (by rw [symtabBytes, List.flatMap_cons]; simp [Elf32Sym.bytes,
            word32, leBytes]) with ⟨block, hblock, hload⟩
          rw [hcnt] at hload
          -- the table read back is the list of symbols
          have htable : recordsAt Elf32Sym.ofBytes 16 (syms.length + 1)
              (block.bytes.load 0 (16 * (syms.length + 1))) = symtabInitial :: syms := by
            rw [hload]
            exact Elf32Sym.recordsAt_bytes (symtabInitial :: syms)
          dsimp only
          rw [hsymcnt, if_neg (Nat.succ_ne_zero _), hblock, hnames]
          dsimp only
          rw [htable]
          generalize resolveNames names.bytes text_begin text_end (symtabInitial :: syms) 0 0 = r
          have hsame := sameSymbols_resolve ht r.1 r.2 (symtabInitial :: syms)
          refine ⟨_, rfl, rfl, ?_, rfl, rfl, rfl, rfl, _, ?_, hsame⟩
          · intro sec hsec
            exact Function.update_of_ne hsec _ _
          · have hstore := Obj.load_store block.bytes 0
              (((symtabInitial :: syms).map (resolveSym r.1 r.2)).flatMap Elf32Sym.bytes)
            rw [length_flatMap Elf32Sym.length_bytes, List.length_map, List.length_cons, ← hcnt]
              at hstore
            exact hstore

/-! ### The layout -/

/-- A file that reads back: the section headers are the last bytes of it, the three sections lie
between them and the file header without a gap, and they hold what they should. -/
structure LayoutOf (file : List Byte) (e : Elf32Ehdr) (shdrs : Section → Elf32Shdr)
    (strs : List Byte) (syms : List Elf32Sym) : Prop where
  parses : elf32Parse file = some (e, Section.all.map shdrs)
  shnum : e.e_shnum = 5
  shoff : e.e_shoff.toNat + 40 * 5 = file.length
  shstrndx : e.e_shstrndx = 2
  first : (shdrs .shstrtab).sh_offset.toNat = 52
  second : (shdrs .strtab).sh_offset.toNat
    = (shdrs .shstrtab).sh_offset.toNat + (shdrs .shstrtab).sh_size.toNat
  third : (shdrs .symtab).sh_offset.toNat
    = (shdrs .strtab).sh_offset.toNat + (shdrs .strtab).sh_size.toNat
  last : e.e_shoff.toNat = (shdrs .symtab).sh_offset.toNat + (shdrs .symtab).sh_size.toNat
  shstrtab : sectionBytes file (shdrs .shstrtab) = shstrtabInitial
  strtab : sectionBytes file (shdrs .strtab) = strtabBytes strs
  symtab : sectionBytes file (shdrs .symtab) = syms.flatMap Elf32Sym.bytes
  symbols : recordsAt Elf32Sym.ofBytes 16 syms.length (sectionBytes file (shdrs .symtab)) = syms
  names : ∀ sec, cstr (sectionBytes file (shdrs .shstrtab)) (shdrs sec).sh_name.toNat = sec.name
  link : (shdrs .symtab).sh_link = 3
  info : (shdrs .symtab).sh_info.toNat = syms.length

/-- The file reads back to the strings and symbols added. -/
def Layout (t : TextNames) (file strs : List Byte) (syms : List Elf32Sym) : Prop :=
  ∃ e shdrs final, LayoutOf file e shdrs strs final ∧ SameSymbols t (symtabInitial :: syms) final

/-- Offsets computed with 32 bits. -/
theorem toNat_shoff {a b c : Nat} (h : 52 + a + b + c < 2 ^ 32) :
    (52 + BitVec.ofNat 32 (a + b) + BitVec.ofNat 32 c : Word).toNat = 52 + (a + (b + c)) := by
  rw [BitVec.toNat_add, BitVec.toNat_add, BitVec.toNat_ofNat, BitVec.toNat_ofNat]
  change ((52 + (a + b) % 2 ^ 32) % 2 ^ 32 + c % 2 ^ 32) % 2 ^ 32 = _
  omega

theorem toNat_ofNat_lt {n : Nat} (h : n < 2 ^ 32) : (BitVec.ofNat 32 n).toNat = n := by
  rw [BitVec.toNat_ofNat, Nat.mod_eq_of_lt h]

/-- Where the three sections lie, with `n` bytes in `.strtab` and `k` in `.symtab`. -/
structure Places (shdrs : Section → Elf32Shdr) (n k : Nat) : Prop where
  shstrtab_offset : (shdrs .shstrtab).sh_offset.toNat = 52
  shstrtab_size : (shdrs .shstrtab).sh_size.toNat = 34
  strtab_offset : (shdrs .strtab).sh_offset.toNat = 52 + 34
  strtab_size : (shdrs .strtab).sh_size.toNat = n
  symtab_offset : (shdrs .symtab).sh_offset.toNat = 52 + 34 + n
  symtab_size : (shdrs .symtab).sh_size.toNat = k

/-- What lies at these places of a file with these parts. -/
theorem Places.sections {shdrs : Section → Elf32Shdr} {ehdr strtab symtab : List Byte}
    (h : Places shdrs strtab.length symtab.length) (hehdr : ehdr.length = 52)
    (rest : List Byte) :
    sectionBytes (ehdr ++ ((shstrtabInitial ++ (strtab ++ symtab)) ++ rest))
        (shdrs .shstrtab) = shstrtabInitial ∧
      sectionBytes (ehdr ++ ((shstrtabInitial ++ (strtab ++ symtab)) ++ rest))
        (shdrs .strtab) = strtab ∧
      sectionBytes (ehdr ++ ((shstrtabInitial ++ (strtab ++ symtab)) ++ rest))
        (shdrs .symtab) = symtab := by
  refine ⟨?_, ?_, ?_⟩
  · rw [List.append_assoc]
    exact sectionBytes_at _ (h.shstrtab_offset.trans hehdr.symm) h.shstrtab_size
  · rw [List.append_assoc, List.append_assoc, ← List.append_assoc ehdr]
    apply sectionBytes_at
    · rw [h.strtab_offset, List.length_append, hehdr, length_shstrtabInitial]
    · exact h.strtab_size
  · rw [List.append_assoc, List.append_assoc, ← List.append_assoc ehdr,
      ← List.append_assoc (ehdr ++ shstrtabInitial)]
    apply sectionBytes_at
    · rw [h.symtab_offset, List.length_append, List.length_append, hehdr, length_shstrtabInitial]
    · exact h.symtab_size

section Output

variable {s' : Elf} {t : TextNames} {heap : Heap}

/-- The file header. -/
theorem resolved_ehdr (h : ElfInv heap s strs syms)
    (hres : Resolved t s.withShoff s' (symtabInitial :: syms)) :
    ∃ shoff, s'.ehdr = { elfEhdr with e_shoff := shoff } ∧
      (fileSize strs syms < 2 ^ 32 + 200 →
        shoff.toNat = 52 + (34 + ((2 + strs.length) + 16 * (syms.length + 1)))) := by
  have hcnt₀ : s.shstrtab.cnt = 34 := h.shstrtab.cnt
  have hcnt₁ : s.strtab.cnt = 2 + strs.length := by rw [h.strtab.cnt, length_strtabBytes]
  have hcnt₂ : s.symtab.cnt = 16 * (syms.length + 1) := by rw [h.symtab.cnt, length_symtabBytes]
  refine ⟨s.withShoff.ehdr.e_shoff, ?_, ?_⟩
  · rw [hres.ehdr, Elf.withShoff, h.ehdr]
  · intro hsize
    rw [fileSize] at hsize
    rw [Elf.withShoff, hcnt₀, hcnt₁, hcnt₂]
    exact toNat_shoff (by omega)

/-- The places of the sections. -/
theorem resolved_places (h : ElfInv heap s strs syms)
    (hres : Resolved t s.withShoff s' (symtabInitial :: syms))
    (hsize : fileSize strs syms < 2 ^ 32 + 200) :
    Places s'.finished (2 + strs.length) (16 * (syms.length + 1)) := by
  rw [fileSize] at hsize
  have hcnt₀ : s'.shstrtab.cnt = 34 := by
    rw [hres.shstrtab]
    exact h.shstrtab.cnt
  have hcnt₁ : s'.strtab.cnt = 2 + strs.length := by
    rw [hres.strtab, ← length_strtabBytes]
    exact h.strtab.cnt
  have hcnt₂ : s'.symtab.cnt = 16 * (syms.length + 1) := by
    rw [hres.cnt, ← length_symtabBytes]
    exact h.symtab.cnt
  constructor
  · rfl
  · change (BitVec.ofNat 32 s'.shstrtab.cnt).toNat = 34
    rw [hcnt₀]
    rfl
  · change (BitVec.ofNat 32 (52 + s'.shstrtab.cnt)).toNat = _
    rw [hcnt₀]
    rfl
  · change (BitVec.ofNat 32 s'.strtab.cnt).toNat = _
    rw [hcnt₁, toNat_ofNat_lt (by omega)]
  · change (BitVec.ofNat 32 (52 + s'.shstrtab.cnt + s'.strtab.cnt)).toNat = _
    rw [hcnt₀, hcnt₁, toNat_ofNat_lt (by omega)]
  · change (BitVec.ofNat 32 s'.symtab.cnt).toNat = _
    rw [hcnt₂, toNat_ofNat_lt (by omega)]

/-- The header of `.symtab`. -/
theorem resolved_symtab (h : ElfInv heap s strs syms)
    (hres : Resolved t s.withShoff s' (symtabInitial :: syms)) :
    s'.shdrs .symtab = { elfShdrs .symtab with sh_info := BitVec.ofNat 32 syms.length } := by
  rw [hres.shdrs _ (by decide)]
  change s.shdrs .symtab = _
  rw [h.shdrs, Function.update_self]

/-- The names of the sections. -/
theorem resolved_names (h : ElfInv heap s strs syms)
    (hres : Resolved t s.withShoff s' (symtabInitial :: syms)) (sec : Section) :
    cstr shstrtabInitial (s'.finished sec).sh_name.toNat = sec.name := by
  -- two of the headers are changed after `elf_init`, none in its name
  have hstatic : ∀ sec, sec ≠ .text → sec ≠ .symtab → s'.shdrs sec = elfShdrs sec := by
    intro sec htext hsym
    rw [hres.shdrs sec htext]
    change s.shdrs sec = _
    rw [h.shdrs, Function.update_of_ne hsym]
  cases sec with
  | null =>
      change cstr shstrtabInitial (s'.shdrs .null).sh_name.toNat = _
      rw [hstatic _ (by decide) (by decide)]
      decide
  | text =>
      have hname : (s'.shdrs .text).sh_name = 1 := by
        rw [hres.name]
        change (s.shdrs .text).sh_name = 1
        rw [h.shdrs, Function.update_of_ne (by decide)]
        rfl
      change cstr shstrtabInitial (s'.shdrs .text).sh_name.toNat = _
      rw [hname]
      decide
  | shstrtab =>
      change cstr shstrtabInitial (s'.shdrs .shstrtab).sh_name.toNat = _
      rw [hstatic _ (by decide) (by decide)]
      decide
  | strtab =>
      change cstr shstrtabInitial (s'.shdrs .strtab).sh_name.toNat = _
      rw [hstatic _ (by decide) (by decide)]
      decide
  | symtab =>
      change cstr shstrtabInitial (s'.shdrs .symtab).sh_name.toNat = _
      rw [resolved_symtab h hres]
      change cstr shstrtabInitial 25 = _
      decide

/-- The file written from the buffers has the layout. -/
theorem layoutOf_output (h : ElfInv heap s strs syms)
    (hsize : fileSize strs syms < 2 ^ 32 + 200)
    (hres : Resolved t s.withShoff s' (symtabInitial :: syms)) :
    Layout t s'.output strs syms := by
  rcases hres.symtab with ⟨final, hfinal, hsame⟩
  have hlen : final.length = syms.length + 1 := hsame.length
  have hbytes : (final.flatMap Elf32Sym.bytes).length = 16 * (syms.length + 1) := by
    rw [length_flatMap Elf32Sym.length_bytes, hlen]
  rcases resolved_ehdr h hres with ⟨shoff, hehdr, hshoff⟩
  have hshoff := hshoff hsize
  have hident : s'.ehdr.e_ident.length = 16 := by
    rw [hehdr]
    rfl
  have hlen₀ := Elf32Ehdr.length_bytes hident
  have hplaces := resolved_places h hres hsize
  -- the file, part by part
  have hfile : s'.output = s'.ehdr.bytes ++ ((shstrtabInitial ++ (strtabBytes strs ++
      final.flatMap Elf32Sym.bytes)) ++ (Section.all.map s'.finished).flatMap Elf32Shdr.bytes) := by
    rw [Elf.output, hres.shstrtab, hres.strtab, hfinal]
    change _ ++ ((tabBytes s.shstrtab ++ (tabBytes s.strtab ++ _)) ++ _) = _
    rw [h.shstrtab.tabBytes, h.strtab.tabBytes]
  -- each part lies where the headers say
  have hplaces' := hplaces
  rw [← length_strtabBytes strs, ← hbytes] at hplaces'
  rcases hplaces'.sections hlen₀
    ((Section.all.map s'.finished).flatMap Elf32Shdr.bytes) with ⟨hbytes₀, hbytes₁, hbytes₂⟩
  rw [← hfile] at hbytes₀ hbytes₁ hbytes₂
  rw [fileSize] at hsize
  refine ⟨s'.ehdr, s'.finished, final, ?_, hsame⟩
  constructor
  · rw [hfile]
    apply elf32Parse_file hident
    · rw [hehdr]
      rfl
    · rw [hehdr]
      rfl
    · rw [hehdr, List.length_append, List.length_append, length_strtabBytes, hbytes,
        length_shstrtabInitial]
      exact hshoff
    · rw [hehdr]
      rfl
  · rw [hehdr]
    rfl
  · rw [hfile, List.length_append, List.length_append, List.length_append, List.length_append,
      length_flatMap Elf32Shdr.length_bytes, hlen₀, hbytes, length_strtabBytes,
      length_shstrtabInitial, hehdr, List.length_map]
    change shoff.toNat + 40 * 5
      = 52 + (34 + (2 + strs.length + 16 * (syms.length + 1)) + 40 * 5)
    omega
  · rw [hehdr]
    rfl
  · exact hplaces.shstrtab_offset
  · rw [hplaces.strtab_offset, hplaces.shstrtab_offset, hplaces.shstrtab_size]
  · rw [hplaces.symtab_offset, hplaces.strtab_offset, hplaces.strtab_size]
  · rw [hplaces.symtab_offset, hplaces.symtab_size, hehdr]
    change shoff.toNat = _
    omega
  · exact hbytes₀
  · exact hbytes₁
  · exact hbytes₂
  · rw [hbytes₂]
    exact Elf32Sym.recordsAt_bytes final
  · intro sec
    rw [hbytes₀]
    exact resolved_names h hres sec
  · change (s'.shdrs .symtab).sh_link = 3
    rw [resolved_symtab h hres]
    rfl
  · change ((s'.shdrs .symtab).sh_info + 1).toNat = _
    rw [resolved_symtab h hres, hlen]
    change (BitVec.ofNat 32 syms.length + BitVec.ofNat 32 1).toNat = _
    rw [← BitVec.ofNat_add, toNat_ofNat_lt (by omega)]

end Output

/-- `elf_write` of what was added, on a disk without failures. -/
theorem elfWrite_spec {heap : Heap} (h : ElfInv heap s strs syms) (t : TextNames)
    (hsize : fileSize strs syms < 2 ^ 32 + 200) :
    ∃ file s', elfWrite .good t s = some (0, file, s') ∧ Layout t file strs syms := by
  have hstrtab : Holds s.withShoff.strtab (strtabBytes strs) := h.strtab
  have hsymtab : Holds s.withShoff.symtab (symtabBytes syms) := h.symtab
  rcases elfResolveSymbols_spec t hstrtab hsymtab with ⟨s', hs', hres⟩
  refine ⟨s'.output, { s' with shdrs := s'.finished }, ?_, layoutOf_output h hsize hres⟩
  rw [elfWrite_good, hs']
  rfl

/-- **The layout of the file.** However strings and symbols are added after `elf_init`, if
`realloc` and the disk do not fail then `elf_write` returns 0, and the file reads back to them. -/
theorem elfWrite_layout (env : Env) (hheap : env.heap.Gives) (hfuel : 58 < env.fuel)
    (t : TextNames) (ops : List ElfOp) (hsize : fileSize (strsOf ops) (symsOf ops) < 2 ^ 32) :
    ∃ s s' file s'', elfInit env .start = some (0, s) ∧ elfRun env ops s = some s' ∧
      elfWrite .good t s' = some (0, file, s'') ∧ Layout t file (strsOf ops) (symsOf ops) := by
  have hlens := hsize
  rw [fileSize] at hlens
  rcases elfInit_cases hfuel with ⟨ret, s, hinit, ⟨rfl, h⟩ | ⟨-, hrefused⟩⟩
  · rcases elfRun_cases hfuel ops h (by rw [List.nil_append]; omega)
      (by rw [List.nil_append]; omega) with ⟨s', hrun, h'⟩ | hrefused
    · rw [List.nil_append, List.nil_append] at h'
      rcases elfWrite_spec h' t (by omega) with ⟨file, s'', hwrite, hlayout⟩
      exact ⟨s, s', file, s'', hinit, hrun, hwrite, hlayout⟩
    · exact absurd hrefused (hheap.not_refused _)
  · exact absurd hrefused (hheap.not_refused _)

/-- A heap of zeroes. -/
def demoEnv : Env := ⟨fun _ => some (fun _ => 0), 59, 0⟩

/-- The string `a` and a symbol of that name. -/
def demoOps : List ElfOp := [.addStr [0x61, 0], .addSymbol 2 0x1000 4 sttObject shnAbs]

theorem elfWrite_layout_demo :
    ∃ s s' file s'', elfInit demoEnv .start = some (0, s) ∧ elfRun demoEnv demoOps s = some s' ∧
      elfWrite .good ⟨some [0x61], some [0x61]⟩ s' = some (0, file, s'') ∧
      Layout ⟨some [0x61], some [0x61]⟩ file (strsOf demoOps) (symsOf demoOps) :=
  elfWrite_layout demoEnv (fun _ => ⟨_, rfl⟩) (by decide) _ demoOps (by decide)

end StupidOS.Fas2sym
