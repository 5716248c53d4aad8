import StupidOS.Fas2sym.Elf

/-!
# The `.text` section of `fas2sym` (`elf.c`)

`elf_resolve_symbols` looks up the two names given with `-t`, takes their values as the bounds of
`.text`, and moves every symbol between them there. A bound that is not found stays 0, which is
an address like any other, and the null symbol has the value 0. `elfResolveSymbols_text` says for
which tables the result is what it should be.
-/

namespace StupidOS.Fas2sym

/-! ## The tables -/

/-- A table with these strings and symbols, built by calls that all return 0. -/
inductive Built (env : Env) : Elf → List Byte → List Elf32Sym → Prop where
  | init {s : Elf} (hinit : elfInit env .start = some (0, s)) : Built env s [] []
  | addStr {s s' : Elf} {strs str : List Byte} {syms : List Elf32Sym} {idx : Nat}
      (h : Built env s strs syms) (hadd : elfAddStr env str s = some (0, idx, s')) :
      Built env s' (strs ++ str) syms
  | addSymbol {s s' : Elf} {strs : List Byte} {syms : List Elf32Sym}
      {name_off value size : Word} {info : Byte} {sect : Half} (h : Built env s strs syms)
      (hadd : elfAddSymbol env name_off value size info sect s = some (0, s')) :
      Built env s' strs (syms ++ [⟨name_off, value, size, info, 0, sect⟩])

/-- The symbols in `.symtab`. -/
def Elf.symbols (s : Elf) : List Elf32Sym :=
  recordsAt Elf32Sym.ofBytes 16 (s.symtab.cnt / 16) (tabBytes s.symtab)

/-- The memory at `elf_strtab.data`. -/
def Elf.names (s : Elf) : Obj :=
  match s.strtab.data with
  | none => fun _ => 0
  | some block => block.bytes

variable {env : Env} {s : Elf} {strs : List Byte} {syms : List Elf32Sym}

theorem elfInit_filled (h : elfInit env .start = some (0, s)) :
    Filled s.strtab (strtabBytes []) ∧ Filled s.symtab (symtabBytes []) := by
  simp only [elfInit, elfShstrtabInit, elfStrtabInit, elfSymtabInit, Option.bind_eq_bind,
    Option.bind_eq_some_iff, Option.map_eq_some_iff] at h
  rcases h with ⟨_, ⟨p₀, hput₀, rfl⟩, h⟩
  dsimp only at h
  split at h
  · cases h
  · simp only [Option.bind_eq_some_iff, Option.map_eq_some_iff] at h
    rcases h with ⟨_, ⟨p₁, hput₁, rfl⟩, h⟩
    dsimp only at h
    split at h
    · cases h
    next hret₁ =>
      simp only [Option.bind_eq_some_iff, Option.map_eq_some_iff] at h
      rcases h with ⟨_, ⟨p₂, hput₂, rfl⟩, h⟩
      dsimp only at h
      split at h
      · cases h
      next hret₂ =>
        injection h with h
        injection h with _ h
        rw [← h]
        constructor
        · have hfilled := bufferPut_filled filled_empty hput₁ (not_not.mp hret₁)
          rw [strtabBytes, List.append_nil]
          exact hfilled
        · have hfilled := bufferPut_filled filled_empty hput₂ (not_not.mp hret₂)
          rw [symtabBytes, List.flatMap_singleton]
          exact hfilled

/-- The buffers hold what was added, whatever the sizes. -/
theorem Built.filled (h : Built env s strs syms) :
    Filled s.strtab (strtabBytes strs) ∧ Filled s.symtab (symtabBytes syms) := by
  induction h with
  | init hinit => exact elfInit_filled hinit
  | addStr _ hadd ih =>
      rcases Option.map_eq_some_iff.mp hadd with ⟨p, hput, hp⟩
      injection hp with hret hp
      injection hp with _ hp
      rw [← hp, ← strtabBytes_append]
      exact ⟨bufferPut_filled ih.1 hput hret, ih.2⟩
  | addSymbol _ hadd ih =>
      unfold elfAddSymbol at hadd
      dsimp only at hadd
      split at hadd
      · cases hadd
      · rcases Option.map_eq_some_iff.mp hadd with ⟨p, hput, hp⟩
        injection hp with hret hp
        rw [← hp, ← symtabBytes_append]
        exact ⟨ih.1, bufferPut_filled ih.2 hput hret⟩

/-! ## The names -/

/-- `strcmp` finds the name of the symbol equal. -/
def Named (names : Obj) (name : List Byte) (sym : Elf32Sym) : Bool :=
  strcmpEq name names sym.st_name.toNat

/-- The second name is compared if the first one is not equal. -/
def NamedEnd (names : Obj) (text_begin text_end : List Byte) (sym : Elf32Sym) : Bool :=
  !Named names text_begin sym && Named names text_end sym

/-- The value of the last of these symbols, 0 if there is none. -/
def lastValue (p : Elf32Sym → Bool) (syms : List Elf32Sym) : Word :=
  ((syms.filter p).getLast?.map Elf32Sym.st_value).getD 0

theorem lastValue_append (p : Elf32Sym → Bool) (syms : List Elf32Sym) (sym : Elf32Sym) :
    lastValue p (syms ++ [sym]) = if p sym then sym.st_value else lastValue p syms := by
  rw [lastValue, List.filter_append]
  split
  next hp =>
    rw [List.filter_cons_of_pos hp, List.filter_nil, List.getLast?_concat]
    rfl
  next hp =>
    rw [List.filter_cons_of_neg hp, List.filter_nil, List.append_nil]
    rfl

theorem lastValue_none {p : Elf32Sym → Bool} {syms : List Elf32Sym} (h : syms.filter p = []) :
    lastValue p syms = 0 := by
  rw [lastValue, h]
  rfl

theorem lastValue_one {p : Elf32Sym → Bool} {syms : List Elf32Sym} {sym : Elf32Sym}
    (h : syms.filter p = [sym]) : lastValue p syms = sym.st_value := by
  rw [lastValue, h]
  rfl

section Search

variable (names : Obj) (text_begin text_end : List Byte)

/-- Both names have a value other than 0. -/
def BothFound (syms : List Elf32Sym) : Prop :=
  lastValue (Named names text_begin) syms ≠ 0 ∧
    lastValue (NamedEnd names text_begin text_end) syms ≠ 0

/-- The part of a table up to the first symbol at which both names have a value other than 0, or
all of it. -/
structure Searched (syms part : List Elf32Sym) : Prop where
  inside : part <+: syms
  stops : part = syms ∨ BothFound names text_begin text_end part
  first : ∀ q, q <+: part → BothFound names text_begin text_end q → q = part

variable {names text_begin text_end}

theorem Searched.le {syms p q : List Elf32Sym} (hp : Searched names text_begin text_end syms p)
    (hq : Searched names text_begin text_end syms q) (hle : p <+: q) : p = q := by
  rcases hp.stops with rfl | hboth
  · exact hle.eq_of_length_le hq.inside.length_le
  · exact hq.first p hle hboth

/-- There is one such part. -/
theorem Searched.unique {syms p q : List Elf32Sym}
    (hp : Searched names text_begin text_end syms p)
    (hq : Searched names text_begin text_end syms q) : p = q := by
  rcases List.prefix_or_prefix_of_prefix hp.inside hq.inside with hle | hle
  · exact hp.le hq hle
  · exact (hq.le hp hle).symm

variable (names text_begin text_end)

/-- The first loop takes the last values of the part that it searches. -/
theorem resolveNames_searched (done syms : List Elf32Sym)
    (hdone : ∀ q, q <+: done → ¬ BothFound names text_begin text_end q) :
    ∃ p, Searched names text_begin text_end (done ++ syms) p ∧
      resolveNames names text_begin text_end syms (lastValue (Named names text_begin) done)
          (lastValue (NamedEnd names text_begin text_end) done)
        = (lastValue (Named names text_begin) p,
          lastValue (NamedEnd names text_begin text_end) p) := by
  -- on the symbols still to come
  induction syms generalizing done with
  | nil =>
      refine ⟨done, ⟨?_, Or.inl (List.append_nil done).symm, ?_⟩, rfl⟩
      · rw [List.append_nil]
      · intro q hq hboth
        exact absurd hboth (hdone q hq)
  | cons sym syms ih =>
      have hvalues : (if strcmpEq text_begin names sym.st_name.toNat then
            (sym.st_value, lastValue (NamedEnd names text_begin text_end) done)
          else if strcmpEq text_end names sym.st_name.toNat then
            (lastValue (Named names text_begin) done, sym.st_value)
          else (lastValue (Named names text_begin) done,
            lastValue (NamedEnd names text_begin text_end) done))
          = (lastValue (Named names text_begin) (done ++ [sym]),
            lastValue (NamedEnd names text_begin text_end) (done ++ [sym])) := by
        rw [lastValue_append, lastValue_append, NamedEnd, Named, Named]
        by_cases hb : strcmpEq text_begin names sym.st_name.toNat
        · simp [hb]
        · by_cases he : strcmpEq text_end names sym.st_name.toNat
          · simp [hb, he]
          · simp [hb, he]
      rw [resolveNames, hvalues]
      dsimp only
      split
      next hboth =>
        refine ⟨done ++ [sym], ⟨?_, Or.inr hboth, ?_⟩, rfl⟩
        · rw [List.append_cons done sym syms]
          exact List.prefix_append _ _
        · intro q hq hfound
          rcases List.prefix_concat_iff.mp hq with hlast | hbefore
          · exact hlast
          · exact absurd hfound (hdone q hbefore)
      next hboth =>
        rw [List.append_cons]
        refine ih (done ++ [sym]) ?_
        intro q hq
        rcases List.prefix_concat_iff.mp hq with rfl | hbefore
        · exact hboth
        · exact hdone q hbefore

/-- The first loop on a whole table. -/
theorem resolveNames_start (syms : List Elf32Sym) :
    ∃ part, Searched names text_begin text_end syms part ∧
      resolveNames names text_begin text_end syms 0 0
        = (lastValue (Named names text_begin) part,
          lastValue (NamedEnd names text_begin text_end) part) := by
  have hstart : ∀ q, q <+: [] → ¬ BothFound names text_begin text_end q := by
    intro q hq hboth
    rw [List.prefix_nil.mp hq] at hboth
    exact hboth.1 rfl
  exact resolveNames_searched names text_begin text_end [] syms hstart

end Search

/-- Two different C strings are not both equal to a third one; here the longer one has no NUL. -/
theorem named_unique {names : Obj} {a b : List Byte} (hb : 0 ∉ b) {sym : Elf32Sym}
    (hsa : Named names a sym) (hsb : Named names b sym) (hle : a.length ≤ b.length) : a = b := by
  have hloada : names.load sym.st_name.toNat (a.length + 1) = a ++ [0] := of_decide_eq_true hsa
  have hloadb : names.load sym.st_name.toNat (b.length + 1) = b ++ [0] := of_decide_eq_true hsb
  have htake := Obj.take_load names sym.st_name.toNat (k := a.length + 1) (n := b.length + 1)
    (by omega)
  rw [hloada, hloadb] at htake
  rcases Nat.lt_or_ge a.length b.length with hlt | hge
  · -- the NUL of the shorter one would be a byte of the longer one
    rw [List.take_append_of_le_length (by omega)] at htake
    have hmem : (0 : Byte) ∈ b.take (a.length + 1) := by
      rw [htake]
      exact List.mem_append_right _ (List.mem_singleton_self _)
    exact absurd (List.mem_of_mem_take hmem) hb
  · have hlen : a.length = b.length := by omega
    rw [hlen, List.take_of_length_le (by rw [List.length_append]; exact Nat.le_refl _)] at htake
    exact (List.append_cancel_right htake).symm

theorem namedEnd_eq {names : Obj} {text_begin text_end : List Byte} (hb : 0 ∉ text_begin)
    (he : 0 ∉ text_end) (hne : text_begin ≠ text_end) :
    NamedEnd names text_begin text_end = Named names text_end := by
  funext sym
  rw [NamedEnd]
  by_cases hend : Named names text_end sym
  · have hbegin : ¬ Named names text_begin sym := by
      intro hbegin
      rcases Nat.le_total text_begin.length text_end.length with hle | hle
      · exact hne (named_unique he hbegin hend hle)
      · exact hne (named_unique hb hend hbegin hle).symm
    simp [hend, hbegin]
  · simp [hend]

/-- A name that is defined once is found with its value. -/
theorem Searched.once {names : Obj} {text_begin text_end : List Byte} {syms part : List Elf32Sym}
    (h : Searched names text_begin text_end syms part) {p : Elf32Sym → Bool} {sym : Elf32Sym}
    (hp : BothFound names text_begin text_end part → lastValue p part ≠ 0)
    (honce : syms.filter p = [sym]) : lastValue p part = sym.st_value := by
  rcases h.stops with rfl | hboth
  · exact lastValue_one honce
  · have hsub := h.inside.filter p
    rw [honce] at hsub
    rcases List.prefix_concat_iff.mp (show part.filter p <+: [] ++ [sym] from hsub) with
      hone | hnone
    · exact lastValue_one hone
    · exact absurd (lastValue_none (List.prefix_nil.mp hnone)) (hp hboth)

/-! ## The result -/

/-- `ELF32_ST_TYPE` -/
def elf32StType (info : Byte) : Byte := info &&& 0xF

/-- The symbols before and after, and the header of `.text`, are what the names ask for. -/
structure TextResolved (names : Obj) (text_begin text_end : List Byte)
    (before after : List Elf32Sym) (text : Elf32Shdr) : Prop where
  null : after[0]? = some symtabInitial
  file : ∀ (i : Nat) sym sym', before[i]? = some sym → after[i]? = some sym' →
    elf32StType sym.st_info = sttFile → sym.st_shndx = shnAbs → sym'.st_shndx = shnAbs
  defined : ∀ b e, before.filter (Named names text_begin) = [b] →
    before.filter (Named names text_end) = [e] → b.st_value ≤ e.st_value →
    text.sh_addr = b.st_value ∧ text.sh_size = e.st_value - b.st_value ∧
      ∀ sym ∈ after, elf32StType sym.st_info = sttObject →
        (sym.st_shndx = secText ↔ b.st_value ≤ sym.st_value ∧ sym.st_value ≤ e.st_value)
  undefined : before.filter (Named names text_begin) = [] ∨
    before.filter (Named names text_end) = [] → text.sh_size = 0 ∧ after = before

/-- `elf_resolve_symbols` does what the names ask for. -/
def ResolvesText (text_begin text_end : List Byte) (s : Elf) : Prop :=
  ∃ s', elfResolveSymbols ⟨some text_begin, some text_end⟩ s = some s' ∧
    TextResolved s.names text_begin text_end s.symbols s'.symbols (s'.shdrs .text)

/-- Both names are defined, the first one not as 0, and nothing is in the way: no `STT_FILE`
symbol lies between them, and if they are defined once then they are different and no symbol
outside was added as one of `.text`. -/
structure TextFound (names : Obj) (text_begin text_end : List Byte) (syms : List Elf32Sym) :
    Prop where
  begins : syms.filter (Named names text_begin) ≠ []
  ends : syms.filter (Named names text_end) ≠ []
  apart : ∃ part, Searched names text_begin text_end syms part ∧
    lastValue (Named names text_begin) part ≠ 0 ∧
    ∀ sym ∈ syms, elf32StType sym.st_info = sttFile → sym.st_shndx = shnAbs →
      ¬ (lastValue (Named names text_begin) part ≤ sym.st_value ∧
        sym.st_value ≤ lastValue (NamedEnd names text_begin text_end) part)
  once : ∀ b e, syms.filter (Named names text_begin) = [b] →
    syms.filter (Named names text_end) = [e] → b.st_value ≤ e.st_value →
    text_begin ≠ text_end ∧ ∀ sym ∈ syms, elf32StType sym.st_info = sttObject →
      sym.st_shndx = secText → b.st_value ≤ sym.st_value ∧ sym.st_value ≤ e.st_value

/-- A buffer with contents has a block. -/
theorem Filled.block {b : Buffer} {l : List Byte} (h : Filled b l) (hl : l ≠ []) :
    ∃ block, b.data = some block ∧ b.cnt = l.length ∧ block.bytes.load 0 l.length = l := by
  rcases h with ⟨g, -, hroom⟩
  rcases hroom.block hl with ⟨block, hsome, hload⟩
  have hcnt := hroom.cnt
  rw [hcnt] at hload
  exact ⟨block, hsome, hcnt, hload⟩

/-- The blocks of the two buffers. -/
theorem Built.blocks (h : Built env s strs syms) :
    (∃ strtab, s.strtab.data = some strtab ∧
      strtab.bytes.load 0 (2 + strs.length) = strtabBytes strs) ∧
    ∃ block, s.symtab.data = some block ∧ s.symtab.cnt = 16 * (syms.length + 1) ∧
      block.bytes.load 0 (16 * (syms.length + 1)) = symtabBytes syms := by
  rcases h.filled with ⟨hstrtab, hsymtab⟩
  constructor
  · rcases hstrtab.block (by rw [strtabBytes, strtabInitial]; simp) with
      ⟨strtab, hnames, -, hload⟩
    rw [length_strtabBytes] at hload
    exact ⟨strtab, hnames, hload⟩
  · rcases hsymtab.block (by rw [symtabBytes, List.flatMap_cons]; simp [Elf32Sym.bytes, word32,
      leBytes]) with ⟨block, hblock, hcnt, hload⟩
    rw [length_symtabBytes] at hcnt hload
    exact ⟨block, hblock, hcnt, hload⟩

theorem Built.symbols (h : Built env s strs syms) : s.symbols = symtabInitial :: syms := by
  rcases h.blocks with ⟨-, block, hblock, hcnt, hload⟩
  have hsymcnt : s.symtab.cnt / 16 = syms.length + 1 := by omega
  rw [Elf.symbols, hsymcnt, tabBytes, hblock]
  dsimp only
  rw [hcnt, hload]
  exact Elf32Sym.recordsAt_bytes (symtabInitial :: syms)

/-- What both loops do to a table. -/
theorem Built.run (h : Built env s strs syms) {text_begin text_end : List Byte}
    {begin finish : Word} (hresolve : resolveNames s.names text_begin text_end
      (symtabInitial :: syms) 0 0 = (begin, finish)) :
    ∃ s', elfResolveSymbols ⟨some text_begin, some text_end⟩ s = some s' ∧
      s'.symbols = (symtabInitial :: syms).map (resolveSym begin finish) ∧
      (s'.shdrs .text).sh_addr = begin ∧ (s'.shdrs .text).sh_size = finish - begin := by
  rcases h.blocks with ⟨⟨strtab, hnames, -⟩, block, hblock, hcnt, hload⟩
  have hsymcnt : s.symtab.cnt / 16 = syms.length + 1 := by omega
  have hmem : s.names = strtab.bytes := by
    rw [Elf.names, hnames]
  have htable : recordsAt Elf32Sym.ofBytes 16 (syms.length + 1)
      (block.bytes.load 0 (16 * (syms.length + 1))) = symtabInitial :: syms := by
    rw [hload]
    exact Elf32Sym.recordsAt_bytes (symtabInitial :: syms)
  have hrun : elfResolveSymbols ⟨some text_begin, some text_end⟩ s = some
      { s.setText begin finish with
        symtab := ⟨s.symtab.cap, s.symtab.cnt, some ⟨block.size, block.bytes.store 0
          (((symtabInitial :: syms).map (resolveSym begin finish)).flatMap Elf32Sym.bytes)⟩⟩ } := by
    rw [elfResolveSymbols]
    dsimp only
    rw [hsymcnt, if_neg (Nat.succ_ne_zero _), hblock, hnames]
    dsimp only
    rw [htable, ← hmem, hresolve]
    rfl
  refine ⟨_, hrun, ?_, ?_, ?_⟩
  · rw [Elf.symbols, tabBytes]
    dsimp only
    rw [hsymcnt, hcnt]
    have hstore := Obj.load_store block.bytes 0
      (((symtabInitial :: syms).map (resolveSym begin finish)).flatMap Elf32Sym.bytes)
    rw [length_flatMap Elf32Sym.length_bytes, List.length_map, List.length_cons] at hstore
    have hback := Elf32Sym.recordsAt_bytes ((symtabInitial :: syms).map (resolveSym begin finish))
    rw [List.length_map, List.length_cons] at hback
    rw [hstore]
    exact hback
  · simp [Elf.setText]
  · simp [Elf.setText]

/-- The bounds are the last values of the part that is searched. -/
theorem Built.resolve (h : Built env s strs syms) (text_begin text_end : List Byte) :
    ∃ part s', Searched s.names text_begin text_end (symtabInitial :: syms) part ∧
      elfResolveSymbols ⟨some text_begin, some text_end⟩ s = some s' ∧
      s'.symbols = (symtabInitial :: syms).map (resolveSym
        (lastValue (Named s.names text_begin) part)
        (lastValue (NamedEnd s.names text_begin text_end) part)) ∧
      (s'.shdrs .text).sh_addr = lastValue (Named s.names text_begin) part ∧
      (s'.shdrs .text).sh_size = lastValue (NamedEnd s.names text_begin text_end) part -
        lastValue (Named s.names text_begin) part := by
  rcases resolveNames_start s.names text_begin text_end (symtabInitial :: syms) with
    ⟨part, hpart, hresolve⟩
  rcases h.run hresolve with ⟨s', hrun⟩
  exact ⟨part, s', hpart, hrun⟩

/-! ## When it is right -/

section Iff

variable {begin finish : Word}

theorem resolveSym_in {sym : Elf32Sym} (h : begin ≤ sym.st_value ∧ sym.st_value ≤ finish) :
    (resolveSym begin finish sym).st_shndx = secText := by
  rw [resolveSym, if_pos h]

theorem resolveSym_out {sym : Elf32Sym} (h : ¬ (begin ≤ sym.st_value ∧ sym.st_value ≤ finish)) :
    resolveSym begin finish sym = sym := by
  rw [resolveSym, if_neg h]

theorem resolveSym_info (begin finish : Word) (sym : Elf32Sym) :
    (resolveSym begin finish sym).st_info = sym.st_info := by
  rw [resolveSym]
  split <;> rfl

theorem resolveSym_value (begin finish : Word) (sym : Elf32Sym) :
    (resolveSym begin finish sym).st_value = sym.st_value := by
  rw [resolveSym]
  split <;> rfl

/-- The null symbol stays if the first bound is not 0. -/
theorem resolveSym_null_iff :
    resolveSym begin finish symtabInitial = symtabInitial ↔ begin ≠ 0 := by
  constructor
  · rintro hsame rfl
    have hmoved : (resolveSym 0 finish symtabInitial).st_shndx = secText :=
      resolveSym_in ⟨BitVec.le_refl _, BitVec.le_def.mpr (Nat.zero_le _)⟩
    rw [hsame] at hmoved
    exact absurd hmoved (by decide)
  · intro hne
    refine resolveSym_out ?_
    rintro ⟨hle, -⟩
    exact hne (BitVec.le_zero_iff.mp hle)

variable {names : Obj} {text_begin text_end : List Byte} {part : List Elf32Sym} {text : Elf32Shdr}

/-- A name that is not defined leaves its bound at 0. -/
theorem Searched.undefined (h : Searched names text_begin text_end syms part)
    {p q : Elf32Sym → Bool} (hpq : ∀ sym, p sym → q sym) (hnone : syms.filter q = []) :
    lastValue p part = 0 := by
  refine lastValue_none (List.filter_eq_nil_iff.mpr ?_)
  intro sym hsym hp
  exact List.filter_eq_nil_iff.mp hnone sym (h.inside.subset hsym) (hpq sym hp)

theorem TextResolved.found (hpart : Searched names text_begin text_end syms part)
    (hnull : syms[0]? = some symtabInitial)
    (hsize : text.sh_size = lastValue (NamedEnd names text_begin text_end) part -
      lastValue (Named names text_begin) part)
    (h : TextResolved names text_begin text_end syms
      (syms.map (resolveSym (lastValue (Named names text_begin) part)
        (lastValue (NamedEnd names text_begin text_end) part))) text) :
    TextFound names text_begin text_end syms := by
  have hends : ∀ sym, NamedEnd names text_begin text_end sym → Named names text_end sym := by
    intro sym hsym
    rw [NamedEnd, Bool.and_eq_true] at hsym
    exact hsym.2
  have hbegin : lastValue (Named names text_begin) part ≠ 0 := by
    have hfirst := h.null
    rw [List.getElem?_map, hnull, Option.map_some, Option.some.injEq] at hfirst
    exact resolveSym_null_iff.mp hfirst
  -- without an end the size is not 0, since the begin is not
  have hfinish : lastValue (NamedEnd names text_begin text_end) part = 0 → text.sh_size ≠ 0 := by
    intro hzero hsize'
    rw [hsize, hzero] at hsize'
    bv_omega
  constructor
  · intro hnone
    exact hbegin (hpart.undefined (fun _ hp => hp) hnone)
  · intro hnone
    exact hfinish (hpart.undefined hends hnone) (h.undefined (Or.inr hnone)).1
  · refine ⟨part, hpart, hbegin, ?_⟩
    intro sym hsym htype hshndx hin
    rcases List.getElem?_of_mem hsym with ⟨i, hi⟩
    have habs := h.file i sym _ hi (by rw [List.getElem?_map, hi, Option.map_some]) htype hshndx
    rw [resolveSym_in hin] at habs
    exact absurd habs (by decide)
  · intro b e hb he hle
    rcases h.defined b e hb he hle with ⟨-, hsize', hobjects⟩
    constructor
    · rintro rfl
      rw [hb, List.cons.injEq] at he
      rw [he.1, BitVec.sub_self] at hsize'
      refine hfinish (lastValue_none (List.filter_eq_nil_iff.mpr ?_)) hsize'
      intro sym _ hsym
      rw [NamedEnd, Bool.not_and_self] at hsym
      cases hsym
    · intro sym hsym htype hshndx
      have hmoved := hobjects _ (List.mem_map_of_mem hsym) (by rw [resolveSym_info]; exact htype)
      rw [resolveSym_value] at hmoved
      refine hmoved.mp ?_
      rw [resolveSym]
      split
      · rfl
      · exact hshndx

theorem TextFound.resolved (hpart : Searched names text_begin text_end syms part)
    (hnull : syms[0]? = some symtabInitial)
    (haddr : text.sh_addr = lastValue (Named names text_begin) part)
    (hsize : text.sh_size = lastValue (NamedEnd names text_begin text_end) part -
      lastValue (Named names text_begin) part)
    (hb : 0 ∉ text_begin) (he : 0 ∉ text_end)
    (h : TextFound names text_begin text_end syms) :
    TextResolved names text_begin text_end syms
      (syms.map (resolveSym (lastValue (Named names text_begin) part)
        (lastValue (NamedEnd names text_begin text_end) part))) text := by
  rcases h.apart with ⟨part', hpart', hbegin, hfile⟩
  rw [hpart'.unique hpart] at hbegin hfile
  constructor
  · rw [List.getElem?_map, hnull, Option.map_some, resolveSym_null_iff.mpr hbegin]
  · intro i sym sym' hi hi' htype hshndx
    rw [List.getElem?_map, hi, Option.map_some, Option.some.injEq] at hi'
    rw [← hi', resolveSym_out (hfile sym (List.mem_of_getElem? hi) htype hshndx)]
    exact hshndx
  · intro b e hbs hes hle
    rcases h.once b e hbs hes hle with ⟨hne, hobjects⟩
    have hends : NamedEnd names text_begin text_end = Named names text_end :=
      namedEnd_eq hb he hne
    have hbvalue := hpart.once (fun hboth => hboth.1) hbs
    have hevalue := hpart.once (fun hboth => hboth.2) (by rw [hends]; exact hes)
    rw [hbvalue, hevalue] at hsize ⊢
    rw [hbvalue] at haddr
    refine ⟨haddr, hsize, ?_⟩
    intro sym' hsym' htype
    rcases List.mem_map.mp hsym' with ⟨sym, hsym, rfl⟩
    rw [resolveSym_info] at htype
    rw [resolveSym_value]
    by_cases hin : b.st_value ≤ sym.st_value ∧ sym.st_value ≤ e.st_value
    · exact ⟨fun _ => hin, fun _ => resolveSym_in hin⟩
    · rw [resolveSym_out hin]
      exact ⟨hobjects sym hsym htype, fun hin' => absurd hin' hin⟩
  · rintro (hnone | hnone)
    · exact absurd hnone h.begins
    · exact absurd hnone h.ends

end Iff

/-- Names that end in `.strtab` are compared with the strings added. -/
theorem Built.filter_named (h : Built env s strs syms) {name : List Byte} {l : List Elf32Sym}
    (hin : ∀ sym ∈ l, sym.st_name.toNat + (name.length + 1) ≤ 2 + strs.length) :
    l.filter (Named s.names name) = l.filter fun sym =>
      ((strtabBytes strs).drop sym.st_name.toNat).take (name.length + 1) = name ++ [0] := by
  rcases h.blocks with ⟨⟨strtab, hnames, hload⟩, -⟩
  refine List.filter_congr ?_
  intro sym hsym
  have hpart := Obj.drop_load strtab.bytes 0 (hin sym hsym)
  rw [hload, Int.zero_add] at hpart
  rw [hpart, Elf.names, hnames]
  rfl

/-- With names that are defined once, only a begin at 0 and symbols in the way are wrong. -/
theorem textFound_once {names : Obj} {text_begin text_end : List Byte} {b e : Elf32Sym}
    (hb : 0 ∉ text_begin) (he : 0 ∉ text_end) (hne : text_begin ≠ text_end)
    (hbs : syms.filter (Named names text_begin) = [b])
    (hes : syms.filter (Named names text_end) = [e]) :
    TextFound names text_begin text_end syms ↔ b.st_value ≠ 0 ∧
      (∀ sym ∈ syms, elf32StType sym.st_info = sttFile → sym.st_shndx = shnAbs →
        ¬ (b.st_value ≤ sym.st_value ∧ sym.st_value ≤ e.st_value)) ∧
      (b.st_value ≤ e.st_value → ∀ sym ∈ syms, elf32StType sym.st_info = sttObject →
        sym.st_shndx = secText → b.st_value ≤ sym.st_value ∧ sym.st_value ≤ e.st_value) := by
  have hvalues : ∀ part, Searched names text_begin text_end syms part →
      lastValue (Named names text_begin) part = b.st_value ∧
        lastValue (NamedEnd names text_begin text_end) part = e.st_value := by
    intro part hpart
    refine ⟨hpart.once (fun hboth => hboth.1) hbs, hpart.once (fun hboth => hboth.2) ?_⟩
    rw [namedEnd_eq hb he hne]
    exact hes
  constructor
  · intro h
    rcases h.apart with ⟨part, hpart, hbegin, hfile⟩
    rw [(hvalues part hpart).1] at hbegin hfile
    rw [(hvalues part hpart).2] at hfile
    exact ⟨hbegin, hfile, fun hle => (h.once b e hbs hes hle).2⟩
  · rintro ⟨hbegin, hfile, hobjects⟩
    rcases resolveNames_start names text_begin text_end syms with ⟨part, hpart, -⟩
    constructor
    · rw [hbs]
      exact List.cons_ne_nil _ _
    · rw [hes]
      exact List.cons_ne_nil _ _
    · refine ⟨part, hpart, ?_⟩
      rw [(hvalues part hpart).1, (hvalues part hpart).2]
      exact ⟨hbegin, hfile⟩
    · intro b' e' hbs' hes' hle
      rw [hbs, List.cons.injEq] at hbs'
      rw [hes, List.cons.injEq] at hes'
      rw [← hbs'.1, ← hes'.1] at hle ⊢
      exact ⟨hne, hobjects hle⟩

/-- **The `.text` section.** For every table that is built, `elf_resolve_symbols` does what two
names ask for if and only if both are found, the first one not at 0, with nothing in the way. -/
theorem elfResolveSymbols_text (h : Built env s strs syms) {text_begin text_end : List Byte}
    (hb : 0 ∉ text_begin) (he : 0 ∉ text_end) :
    ResolvesText text_begin text_end s ↔
      TextFound s.names text_begin text_end (symtabInitial :: syms) := by
  rcases h.resolve text_begin text_end with ⟨part, s', hpart, hrun, hafter, haddr, hsize⟩
  rw [ResolvesText, h.symbols]
  constructor
  · rintro ⟨s'', hrun', hresolved⟩
    rw [hrun, Option.some.injEq] at hrun'
    rw [← hrun', hafter] at hresolved
    exact hresolved.found hpart rfl hsize
  · intro hfound
    refine ⟨s', hrun, ?_⟩
    rw [hafter]
    exact hfound.resolved hpart rfl haddr hsize hb he

/-- The strings `f`, `a` and `b`, the symbol of the file, and two with an address. -/
def textStrs : List Byte := [0x66, 0, 0x61, 0, 0x62, 0]

def textSyms : List Elf32Sym :=
  [⟨2, 0, 0, sttFile, 0, shnAbs⟩, ⟨4, 0x1000, 4, sttObject, 0, shnAbs⟩,
    ⟨6, 0x2000, 4, sttObject, 0, shnAbs⟩]

theorem text_built : ∃ s, Built demoEnv s textStrs textSyms := by
  have hfuel : 58 < demoEnv.fuel := by decide
  have hgives : demoEnv.heap.Gives := fun _ => ⟨_, rfl⟩
  rcases elfInit_cases hfuel with ⟨ret, s, hinit, ⟨rfl, h⟩ | ⟨-, hrefused⟩⟩
  rotate_left
  · exact absurd hrefused (hgives.not_refused _)
  rcases elfAddStr_cases h hfuel textStrs (by decide) with
    ⟨ret, s₁, hadd₁, ⟨rfl, h₁⟩ | ⟨-, -, hrefused⟩⟩
  rotate_left
  · exact absurd hrefused (hgives.not_refused _)
  rcases elfAddSymbol_cases h₁ hfuel 2 0 0 sttFile shnAbs (by decide) with
    ⟨ret, s₂, hadd₂, ⟨rfl, h₂⟩ | ⟨-, -, hrefused⟩⟩
  rotate_left
  · exact absurd hrefused (hgives.not_refused _)
  rcases elfAddSymbol_cases h₂ hfuel 4 0x1000 4 sttObject shnAbs (by decide) with
    ⟨ret, s₃, hadd₃, ⟨rfl, h₃⟩ | ⟨-, -, hrefused⟩⟩
  rotate_left
  · exact absurd hrefused (hgives.not_refused _)
  rcases elfAddSymbol_cases h₃ hfuel 6 0x2000 4 sttObject shnAbs (by decide) with
    ⟨ret, s₄, hadd₄, ⟨rfl, h₄⟩ | ⟨-, -, hrefused⟩⟩
  rotate_left
  · exact absurd hrefused (hgives.not_refused _)
  exact ⟨s₄, .addSymbol (.addSymbol (.addSymbol (.addStr (.init hinit) hadd₁) hadd₂) hadd₃) hadd₄⟩

theorem elfResolveSymbols_text_demo :
    ∃ s, Built demoEnv s textStrs textSyms ∧ ResolvesText [0x61] [0x62] s := by
  rcases text_built with ⟨s, h⟩
  refine ⟨s, h, (elfResolveSymbols_text h (by decide) (by decide)).mpr ?_⟩
  have hbs : (symtabInitial :: textSyms).filter (Named s.names [0x61])
      = [⟨4, 0x1000, 4, sttObject, 0, shnAbs⟩] := by
    rw [h.filter_named (by decide)]
    decide
  have hes : (symtabInitial :: textSyms).filter (Named s.names [0x62])
      = [⟨6, 0x2000, 4, sttObject, 0, shnAbs⟩] := by
    rw [h.filter_named (by decide)]
    decide
  exact (textFound_once (by decide) (by decide) (by decide) hbs hes).mpr (by decide)

/-- With names that no symbol has, the null symbol becomes one of `.text`. -/
theorem elfResolveSymbols_counterexample :
    ¬ ∀ (env : Env) (s : Elf) (strs : List Byte) (syms : List Elf32Sym), Built env s strs syms →
      ∀ text_begin text_end : List Byte, 0 ∉ text_begin → 0 ∉ text_end →
        ResolvesText text_begin text_end s := by
  intro hclaim
  rcases text_built with ⟨s, h⟩
  rcases hclaim demoEnv s textStrs textSyms h [0x78] [0x79] (by decide) (by decide) with
    ⟨s', hrun, hresolved⟩
  rcases h.resolve [0x78] [0x79] with ⟨part, s'', hpart, hrun', hafter, -, hsize⟩
  rw [hrun', Option.some.injEq] at hrun
  rw [← hrun, h.symbols, hafter] at hresolved
  refine (hresolved.found hpart rfl hsize).begins ?_
  rw [h.filter_named (by decide)]
  decide

end StupidOS.Fas2sym
