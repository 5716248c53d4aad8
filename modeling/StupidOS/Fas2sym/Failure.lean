import StupidOS.Fas2sym.Fas

/-!
# `fas2sym` without memory

`buffer_put` stores what `realloc` returns before it looks at it, and its callers go on: the next
call copies through the lost pointer, or gets a new block without the old contents. The counters
are kept, so that `elf_write` may succeed with a file in which something is missing.

`fas2sym_sound_iff` says for which failures a run is nevertheless sound. In the proof all new
memory is full of 0xFF, so that a buffer is damaged for good once its data are lost: the first
byte of `.strtab` and of `.symtab` should be 0.
-/

namespace StupidOS.Fas2sym

/-! ## The program -/

/-- `main` behind its options: the exit status, and the file. -/
def fas2sym (env : Env) (malloc : Nat → Bool) (file : Option (List Byte)) (d : Disk)
    (t : TextNames) : Option (Int × List Byte) :=
  match fasLoadFile malloc file with
  | none => some (1, [])
  | some fas =>
    match elfInit env .start with
    | none => none
    | some (ret, s) =>
      if ret ≠ 0 then some (1, []) else
      match fasExportSymbols env fas s with
      | none => none
      | some s =>
        match elfWrite d t s with
        | none => none
        | some (ret, fp, _) => some (if ret ≠ 0 then 1 else 0, fp)

/-! ## The calls of an export -/

section Calls

variable (env : Env) (fas : Fas)

/-- The call for the name of a symbol. -/
def fasNameCalls (name_off : Word) : List ElfOp :=
  if name_off = 0 then [] else
  match fasSymbolName fas name_off with
  | none => []
  | some name => [.addStr (name ++ [0])]

/-- The calls of the loop; a symbol gets the index that was returned for its name. -/
def fasLoopCalls : List FasSym → Elf → List ElfOp
  | [], _ => []
  | sym :: syms, s =>
    if sym.flags &&& fasSymDef = 0 ∨ sym.flags &&& fasSymAsmTime ≠ 0 then fasLoopCalls syms s
    else
      let named := (fasExportSymbolName env fas sym.name_off s).getD (0, s)
      let call := ElfOp.addSymbol named.1 (sym.value.setWidth 32) (sym.size.setWidth 32) sttObject
        shnAbs
      fasNameCalls fas sym.name_off ++
        call :: fasLoopCalls syms ((elfRun env [call] named.2).getD named.2)

/-- What `fas_export_symbols` adds: its calls of `elf_add_str` and `elf_add_symbol`. -/
def fasExportCalls (s : Elf) : List ElfOp :=
  match tableCstr fas.strtab fas.hdr.ifnm_off.toNat with
  | none => []
  | some name =>
    let idx := ((elfAddStr env (name ++ [0]) s).map (·.2.1)).getD 0
    let calls := [ElfOp.addStr (name ++ [0]),
      ElfOp.addSymbol (BitVec.ofNat 32 idx) 0 0 sttFile shnAbs]
    calls ++ fasLoopCalls env fas fas.syms ((elfRun env calls s).getD s)

end Calls

variable {env : Env} {fas : Fas} {nm : FasSym → List Byte}

theorem elfRun_append (a b : List ElfOp) (s : Elf) :
    elfRun env (a ++ b) s = (elfRun env a s).bind (elfRun env b) := by
  induction a generalizing s with
  | nil => rfl
  | cons op a ih =>
      cases op with
      | addStr str =>
          rw [List.cons_append, elfRun, elfRun]
          cases elfAddStr env str s with
          | none => rfl
          | some r => exact ih r.2.2
      | addSymbol name_off value size info sect =>
          rw [List.cons_append, elfRun, elfRun]
          cases elfAddSymbol env name_off value size info sect s with
          | none => rfl
          | some r => exact ih r.2

theorem strsOf_append (a b : List ElfOp) : strsOf (a ++ b) = strsOf a ++ strsOf b := by
  induction a with
  | nil => rfl
  | cons op a ih => cases op <;> simp [strsOf, ih]

theorem symsOf_append (a b : List ElfOp) : symsOf (a ++ b) = symsOf a ++ symsOf b := by
  induction a with
  | nil => rfl
  | cons op a ih => cases op <;> simp [symsOf, ih]

/-- The call for a name does what `fas_export_symbol_name` does. -/
theorem elfRun_nameCalls {name_off : Word} {name : List Byte} (h : FasName fas name_off name)
    (s : Elf) :
    elfRun env (fasNameCalls fas name_off) s = (fasExportSymbolName env fas name_off s).map (·.2) := by
  unfold fasNameCalls fasExportSymbolName
  by_cases hzero : name_off = 0
  · rw [if_pos hzero, if_pos hzero]
    rfl
  · rw [if_neg hzero, if_neg hzero, h.found hzero]
    dsimp only
    rw [elfRun]
    cases elfAddStr env (name ++ [0]) s with
    | none => rfl
    | some r =>
        dsimp only
        split <;> rfl

/-- The calls of the loop do what the loop does. -/
theorem elfRun_loopCalls (l : List FasSym)
    (hnames : ∀ sym ∈ l.filter FasSym.kept, FasName fas sym.name_off (nm sym)) (s : Elf) :
    elfRun env (fasLoopCalls env fas l s) s = fasExportLoop env fas l s := by
  -- on the symbols; a call depends on the state that the ones before it left
  induction l generalizing s with
  | nil => rfl
  | cons sym l ih =>
      rw [fasLoopCalls, fasExportLoop]
      by_cases hskip : sym.flags &&& fasSymDef = 0 ∨ sym.flags &&& fasSymAsmTime ≠ 0
      · rw [if_pos hskip, if_pos hskip]
        rw [List.filter_cons_of_neg (by rw [FasSym.kept_iff]; exact not_not_intro hskip)] at hnames
        exact ih hnames s
      · rw [if_neg hskip, if_neg hskip]
        rw [List.filter_cons_of_pos (by rw [FasSym.kept_iff]; exact hskip)] at hnames
        rw [elfRun_append, elfRun_nameCalls (hnames sym (List.mem_cons_self ..))]
        cases fasExportSymbolName env fas sym.name_off s with
        | none => rfl
        | some r =>
            change elfRun env (_ :: _) r.2 = _
            rw [elfRun]
            dsimp only [Option.getD_some]
            rw [elfRun]
            cases elfAddSymbol env r.1 (sym.value.setWidth 32) (sym.size.setWidth 32) sttObject
              shnAbs r.2 with
            | none => rfl
            | some r' =>
                exact ih (fun x hx => hnames x (List.mem_cons_of_mem _ hx)) r'.2

/-- The calls of an export do what `fas_export_symbols` does. -/
theorem elfRun_exportCalls {fileName : List Byte}
    (hfile : CName fas.strtab fas.hdr.ifnm_off.toNat fileName)
    (hnames : ∀ sym ∈ fas.syms.filter FasSym.kept, FasName fas sym.name_off (nm sym)) (s : Elf) :
    elfRun env (fasExportCalls env fas s) s = fasExportSymbols env fas s := by
  rw [fasExportCalls, fasExportSymbols, hfile.tableCstr]
  dsimp only
  rw [elfRun_append, elfRun]
  cases elfAddStr env (fileName ++ [0]) s with
  | none => rfl
  | some r =>
      dsimp only [Option.map_some, Option.getD_some]
      rw [elfRun]
      cases elfAddSymbol env (BitVec.ofNat 32 r.2.1) 0 0 sttFile shnAbs r.2.2 with
      | none => rfl
      | some r' => exact elfRun_loopCalls fas.syms hnames r'.2

theorem strsOf_nameCalls {sym : FasSym} (h : FasName fas sym.name_off (nm sym)) :
    strsOf (fasNameCalls fas sym.name_off) = nameBytes nm sym := by
  unfold fasNameCalls nameBytes
  by_cases hzero : sym.name_off = 0
  · rw [if_pos hzero, if_pos hzero]
    rfl
  · rw [if_neg hzero, if_neg hzero, h.found hzero]
    exact List.append_nil _

theorem symsOf_nameCalls (name_off : Word) : symsOf (fasNameCalls fas name_off) = [] := by
  unfold fasNameCalls
  split
  · rfl
  · split <;> rfl

/-- The strings do not depend on what fails, and neither does the number of symbols. -/
theorem loopCalls_adds (l : List FasSym)
    (hnames : ∀ sym ∈ l.filter FasSym.kept, FasName fas sym.name_off (nm sym)) (s : Elf) :
    strsOf (fasLoopCalls env fas l s) = (l.filter FasSym.kept).flatMap (nameBytes nm) ∧
      (symsOf (fasLoopCalls env fas l s)).length = (l.filter FasSym.kept).length := by
  induction l generalizing s with
  | nil => exact ⟨rfl, rfl⟩
  | cons sym l ih =>
      rw [fasLoopCalls]
      by_cases hskip : sym.flags &&& fasSymDef = 0 ∨ sym.flags &&& fasSymAsmTime ≠ 0
      · rw [if_pos hskip]
        rw [List.filter_cons_of_neg (by rw [FasSym.kept_iff]; exact not_not_intro hskip)] at *
        exact ih hnames s
      · rw [if_neg hskip]
        rw [List.filter_cons_of_pos (by rw [FasSym.kept_iff]; exact hskip)] at *
        dsimp only
        rw [strsOf_append, symsOf_append, strsOf_nameCalls (hnames sym (List.mem_cons_self ..)),
          symsOf_nameCalls, strsOf, symsOf, List.nil_append]
        rcases ih (fun x hx => hnames x (List.mem_cons_of_mem _ hx)) _ with ⟨hstrs, hsyms⟩
        constructor
        · rw [hstrs, List.flatMap_cons]
        · rw [List.length_cons, hsyms, List.length_cons]

variable (env) in
theorem exportCalls_adds {fileName : List Byte}
    (hfile : CName fas.strtab fas.hdr.ifnm_off.toNat fileName)
    (hnames : ∀ sym ∈ fas.syms.filter FasSym.kept, FasName fas sym.name_off (nm sym)) (s : Elf) :
    strsOf (fasExportCalls env fas s) = exportStrs fileName nm (fas.syms.filter FasSym.kept) ∧
      (symsOf (fasExportCalls env fas s)).length
        = (exportSyms fileName nm (fas.syms.filter FasSym.kept)).length := by
  rw [fasExportCalls, hfile.tableCstr]
  dsimp only
  rw [strsOf_append, symsOf_append]
  rcases loopCalls_adds fas.syms hnames _ with ⟨hstrs, hsyms⟩
  constructor
  · rw [hstrs]
    simp [strsOf, exportStrs]
  · rw [List.length_append, hsyms, exportSyms, List.length_cons, length_elfSymsOf]
    exact Nat.add_comm 1 _

/-! ## Damaged buffers -/

/-- The data of the buffer are lost, or are new ones with 0xFF at the start. -/
structure Damaged (b : Buffer) : Prop where
  cnt : b.cnt ≠ 0
  first : ∀ block, b.data = some block → block.bytes 0 = 0xFF

theorem Damaged.of_none {b : Buffer} (hcnt : b.cnt ≠ 0) (hdata : b.data = none) : Damaged b := by
  refine ⟨hcnt, ?_⟩
  intro block hblock
  rw [hdata] at hblock
  cases hblock

/-- A heap with these failures, and memory full of 0xFF. -/
def dirtyHeap (fails : Nat → Bool) : Heap := fun k => if fails k then none else some (fun _ => 0xFF)

section Dirty

variable {fails : Nat → Bool}

/-- `realloc` does not repair the first byte. -/
theorem realloc_dirty {data : Option Block} {calls size : Nat} {block : Block}
    (hdata : ∀ block, data = some block → block.bytes 0 = 0xFF)
    (hblock : realloc (dirtyHeap fails) calls data size = some block) : block.bytes 0 = 0xFF := by
  unfold realloc dirtyHeap at hblock
  split at hblock
  · cases hblock
  · rw [Option.map_some] at hblock
    rw [← Option.some.inj hblock]
    cases data with
    | none => rfl
    | some old =>
        dsimp only
        cases hn : min old.size size with
        | zero => rfl
        | succ n =>
            have hfirst := Obj.getElem?_load old.bytes 0 (Nat.succ_pos n)
            have hkept := Obj.store_in (fun _ => 0xFF) 0 hfirst
            exact hkept.trans (hdata old rfl)

/-- The growth loop keeps damage. -/
theorem grown_dirty {need fuel calls : Nat} {b : Buffer} {g : Grown}
    (hgrow : iterate (growPass (dirtyHeap fails) need) fuel (b, calls) = some g) :
    g.buff.cnt = b.cnt ∧ (Damaged b → Damaged g.buff) := by
  -- every pass keeps the count, and a first byte that is wrong
  refine iterate_sound (fun s => s.1.cnt = b.cnt ∧ (Damaged b → Damaged s.1))
    (fun g => g.buff.cnt = b.cnt ∧ (Damaged b → Damaged g.buff)) ?_ ?_ ⟨rfl, id⟩ hgrow
  · intro s s' hs hpass
    rcases growPass_again_inv hpass with ⟨-, cap, block, -, hblock, rfl⟩
    refine ⟨hs.1, fun hdamaged => ⟨(hs.2 hdamaged).cnt, ?_⟩⟩
    intro block' hblock'
    rw [← Option.some.inj hblock']
    exact realloc_dirty (hs.2 hdamaged).first hblock
  · intro s r hs hpass
    rcases growPass_done_inv hpass with ⟨-, rfl⟩ | ⟨cap, rfl⟩
    · exact hs
    · exact ⟨hs.1, fun hdamaged => Damaged.of_none (hs.2 hdamaged).cnt rfl⟩

/-- The copy goes behind the first byte. -/
theorem bufferCopy_dirty {b b' : Buffer} {data : List Byte} (hcopy : bufferCopy b data = some b') :
    b'.cnt ≤ b.cnt + data.length ∧ (Damaged b → Damaged b') := by
  unfold bufferCopy at hcopy
  split at hcopy
  · split at hcopy
    · rw [← Option.some.inj hcopy]
      exact ⟨Nat.le_add_right _ _, id⟩
    · cases hcopy
  · rename_i block hblock
    split at hcopy
    · rw [← Option.some.inj hcopy]
      refine ⟨Nat.le_refl _, ?_⟩
      intro hdamaged
      have hcnt := hdamaged.cnt
      refine ⟨fun hzero => hcnt (Nat.eq_zero_of_add_eq_zero hzero).1, ?_⟩
      intro block' hblock'
      rw [← Option.some.inj hblock']
      dsimp only
      rw [Obj.store_out _ (Or.inl (by omega))]
      exact hdamaged.first block hblock
    · cases hcopy

/-- `buffer_put` keeps damage, and counts no more than the data. -/
theorem bufferPut_dirty {fuel calls : Nat} {b : Buffer} {data : List Byte} {p : Put}
    (hput : bufferPut (dirtyHeap fails) fuel calls b data = some p) :
    p.buff.cnt ≤ b.cnt + data.length ∧ (Damaged b → Damaged p.buff) := by
  unfold bufferPut at hput
  split at hput
  · cases hput
  · rename_i g hgrow
    rcases grown_dirty hgrow with ⟨hcnt, hgrown⟩
    split at hput
    · rcases Option.map_eq_some_iff.mp hput with ⟨b', hcopy, rfl⟩
      rcases bufferCopy_dirty hcopy with ⟨hle, hcopied⟩
      rw [hcnt] at hle
      exact ⟨hle, fun hdamaged => hcopied (hgrown hdamaged)⟩
    · rw [← Option.some.inj hput]
      exact ⟨Nat.le_trans (Nat.le_of_eq hcnt) (Nat.le_add_right _ _), hgrown⟩

/-! ## Damage to the end -/

/-- One of the two growing buffers is damaged, and they count no more than what was added. -/
structure Lossy (s : Elf) (strs : List Byte) (syms : List Elf32Sym) : Prop where
  ident : s.ehdr.e_ident.length = 16
  shstrtab : Holds s.shstrtab shstrtabInitial
  strs : s.strtab.cnt ≤ 2 + strs.length
  syms : s.symtab.cnt ≤ 16 * (syms.length + 1)
  lost : Damaged s.strtab ∨ Damaged s.symtab

/-- Either all that was added is there, or it is damaged. -/
def Kept (heap : Heap) (s : Elf) (strs : List Byte) (syms : List Elf32Sym) : Prop :=
  ElfInv heap s strs syms ∨ Lossy s strs syms

theorem ElfInv.ident {heap : Heap} {s : Elf} {strs : List Byte} {syms : List Elf32Sym}
    (h : ElfInv heap s strs syms) : s.ehdr.e_ident.length = 16 := by
  rw [h.ehdr]
  rfl

variable {s s' : Elf} {strs : List Byte} {syms : List Elf32Sym}

theorem elfAddStr_dirty (henv : env.heap = dirtyHeap fails) (hfuel : 58 < env.fuel)
    (h : Kept env.heap s strs syms) {str : List Byte}
    (hlen : 2 + strs.length + str.length ≤ 2 ^ 62) {ret : Int} {idx : Nat}
    (hadd : elfAddStr env str s = some (ret, idx, s')) :
    Kept env.heap s' (strs ++ str) syms := by
  rcases h with h | h
  · rcases elfAddStr_cases h hfuel str hlen with ⟨ret', s₁, hadd', hcases⟩
    rw [hadd'] at hadd
    rcases Prod.ext_iff.mp (Option.some.inj hadd) with ⟨-, hs⟩
    rcases Prod.ext_iff.mp hs with ⟨-, rfl⟩
    rcases hcases with ⟨-, h'⟩ | ⟨-, hlost, -⟩
    · exact Or.inl h'
    · -- the first failure
      right
      have hcnt := hlost.cnt
      have hehdr : s₁.ehdr = s.ehdr := by rw [hlost.rest]
      have hshstrtab : s₁.shstrtab = s.shstrtab := by rw [hlost.rest]
      have hsymtab : s₁.symtab = s.symtab := by rw [hlost.rest]
      constructor
      · rw [hehdr]
        exact h.ident
      · rw [hshstrtab]
        exact h.shstrtab
      · rw [hcnt, List.length_append]
        omega
      · rw [hsymtab, h.symtab.cnt, length_symtabBytes]
      · left
        apply Damaged.of_none _ hlost.data
        rw [hcnt]
        omega
  · right
    unfold elfAddStr at hadd
    rcases Option.map_eq_some_iff.mp hadd with ⟨p, hput, heq⟩
    rcases Prod.ext_iff.mp heq with ⟨-, heq⟩
    rcases Prod.ext_iff.mp heq with ⟨-, rfl⟩
    rw [henv] at hput
    rcases bufferPut_dirty hput with ⟨hle, hdamaged⟩
    have hstrs := h.strs
    refine ⟨h.ident, h.shstrtab, ?_, h.syms, h.lost.imp hdamaged id⟩
    dsimp only
    rw [List.length_append]
    omega

theorem elfAddSymbol_dirty (henv : env.heap = dirtyHeap fails) (hfuel : 58 < env.fuel)
    (h : Kept env.heap s strs syms) {name_off value size : Word} {info : Byte} {sect : Half}
    (hlen : 16 * (syms.length + 2) ≤ 2 ^ 62) {ret : Int}
    (hadd : elfAddSymbol env name_off value size info sect s = some (ret, s')) :
    Kept env.heap s' strs (syms ++ [⟨name_off, value, size, info, 0, sect⟩]) := by
  rcases h with h | h
  · rcases elfAddSymbol_cases h hfuel name_off value size info sect hlen with
      ⟨ret', s₁, hadd', hcases⟩
    rw [hadd'] at hadd
    rcases Prod.ext_iff.mp (Option.some.inj hadd) with ⟨-, rfl⟩
    rcases hcases with ⟨-, h'⟩ | ⟨-, hlost, -⟩
    · exact Or.inl h'
    · -- the first failure
      right
      have hcnt := hlost.cnt
      have hehdr : s₁.ehdr = s.ehdr := by rw [hlost.rest]
      have hshstrtab : s₁.shstrtab = s.shstrtab := by rw [hlost.rest]
      have hstrtab : s₁.strtab = s.strtab := by rw [hlost.rest]
      constructor
      · rw [hehdr]
        exact h.ident
      · rw [hshstrtab]
        exact h.shstrtab
      · rw [hstrtab, h.strtab.cnt, length_strtabBytes]
      · rw [hcnt, List.length_append]
        omega
      · right
        apply Damaged.of_none _ hlost.data
        rw [hcnt]
        omega
  · right
    unfold elfAddSymbol at hadd
    dsimp only at hadd
    split at hadd
    · cases hadd
    · rcases Option.map_eq_some_iff.mp hadd with ⟨p, hput, heq⟩
      rcases Prod.ext_iff.mp heq with ⟨-, rfl⟩
      rw [henv] at hput
      rcases bufferPut_dirty hput with ⟨hle, hdamaged⟩
      rw [Elf32Sym.length_bytes] at hle
      have hsyms := h.syms
      refine ⟨h.ident, h.shstrtab, h.strs, ?_, h.lost.imp id hdamaged⟩
      dsimp only
      rw [List.length_append, List.length_singleton]
      omega

/-- A sequence of calls that comes to its end. -/
theorem elfRun_dirty (henv : env.heap = dirtyHeap fails) (hfuel : 58 < env.fuel) (ops : List ElfOp)
    (h : Kept env.heap s strs syms) (hstrs : 2 + (strs ++ strsOf ops).length ≤ 2 ^ 62)
    (hsyms : 16 * ((syms ++ symsOf ops).length + 1) ≤ 2 ^ 62)
    (hrun : elfRun env ops s = some s') :
    Kept env.heap s' (strs ++ strsOf ops) (syms ++ symsOf ops) := by
  -- what one call loses no later call brings back
  induction ops generalizing s strs syms with
  | nil =>
      rw [strsOf, symsOf, List.append_nil, List.append_nil]
      rw [← Option.some.inj hrun]
      exact h
  | cons op ops ih =>
      cases op with
      | addStr str =>
          rw [strsOf, symsOf, ← List.append_assoc] at *
          have hlen := hstrs
          rw [List.length_append, List.length_append] at hlen
          rw [elfRun] at hrun
          split at hrun
          · cases hrun
          · rename_i hadd
            exact ih (elfAddStr_dirty henv hfuel h (by omega) hadd) hstrs hsyms hrun
      | addSymbol name_off value size info sect =>
          rw [strsOf, symsOf, List.append_cons] at *
          have hlen := hsyms
          rw [List.length_append, List.length_append, List.length_singleton] at hlen
          rw [elfRun] at hrun
          split at hrun
          · cases hrun
          · rename_i hadd
            exact ih (elfAddSymbol_dirty henv hfuel h (by omega) hadd) hstrs hsyms hrun

end Dirty

/-! ## The file of a damaged run -/

/-- A symbol read from bytes starts with the first of them. -/
theorem head_bytes_ofBytes (b : Byte) (bs : List Byte) :
    ∃ rest, (Elf32Sym.ofBytes (b :: bs)).bytes = b :: rest := by
  refine ⟨_, congrArg₂ List.cons ?_ rfl⟩
  apply BitVec.eq_of_toNat_eq
  have hb := b.isLt
  simp only [Elf32Sym.ofBytes, word32At, leAt, List.drop_zero, List.take_succ_cons, ofLe,
    BitVec.toNat_ofNat]
  omega

/-- The first byte of a table is that of its first symbol, whatever section it is put into. -/
theorem head_resolved {o : Obj} {b : Byte} (hb : o 0 = b) (n : Nat) (begin finish : Word) :
    ∃ rest, ((recordsAt Elf32Sym.ofBytes 16 (n + 1) (o.load 0 (16 * (n + 1)))).map
      (resolveSym begin finish)).flatMap Elf32Sym.bytes = b :: rest := by
  have hload : o.load 0 (16 * (n + 1)) = b :: (o.load 0 (16 * (n + 1))).tail := by
    rw [← hb, Nat.mul_succ, Obj.load, List.range_succ_eq_map]
    rfl
  rcases head_bytes_ofBytes b (o.load 0 (16 * (n + 1))).tail with ⟨rest, hrest⟩
  rw [← hload] at hrest
  rw [recordsAt, List.range_succ_eq_map, List.map_cons, List.map_cons, List.flatMap_cons,
    Nat.mul_zero, List.drop_zero]
  have hname : ∀ sym : Elf32Sym, (resolveSym begin finish sym).st_name = sym.st_name := by
    intro sym
    rw [resolveSym]
    split <;> rfl
  have hsame : ∃ rest', (resolveSym begin finish
      (Elf32Sym.ofBytes (o.load 0 (16 * (n + 1))))).bytes = b :: rest' := by
    have hword := congrArg (List.take 1) hrest
    rw [Elf32Sym.bytes] at hword ⊢
    rw [hname]
    generalize (Elf32Sym.ofBytes (o.load 0 (16 * (n + 1)))).st_name = w at hword ⊢
    have hhead : BitVec.ofNat 8 w.toNat = b := List.head_eq_of_cons_eq hword
    exact ⟨_, congrArg₂ List.cons hhead rfl⟩
  rcases hsame with ⟨rest', hrest'⟩
  rw [hrest']
  exact ⟨_, rfl⟩

variable {s s' : Elf} {strs : List Byte} {syms : List Elf32Sym} {t : TextNames}

/-- `elf_resolve_symbols` does not repair anything. -/
theorem Lossy.resolve (h : Lossy s strs syms) (hres : elfResolveSymbols t s = some s') :
    Lossy s' strs syms := by
  unfold elfResolveSymbols at hres
  split at hres
  · dsimp only at hres
    split at hres
    · rw [← Option.some.inj hres]
      exact ⟨h.ident, h.shstrtab, h.strs, h.syms, h.lost⟩
    · rename_i hcnt
      split at hres
      · rename_i block strtab hblock hstrtab
        rw [← Option.some.inj hres]
        refine ⟨h.ident, h.shstrtab, h.strs, h.syms, h.lost.imp id ?_⟩
        intro hdamaged
        refine ⟨hdamaged.cnt, ?_⟩
        intro block' hblock'
        rw [← Option.some.inj hblock']
        -- the section of a symbol changes, its first byte does not
        rcases Nat.exists_eq_succ_of_ne_zero hcnt with ⟨n, hn⟩
        dsimp only
        rw [hn]
        rcases head_resolved (hdamaged.first block hblock) n _ _ with ⟨rest, hrest⟩
        rw [hrest]
        rfl
      · cases hres
  · rw [← Option.some.inj hres]
    exact h

/-- A file with the layout has the sections at their places, and ends behind the section
headers. -/
theorem LayoutOf.places {file : List Byte} {e : Elf32Ehdr} {shdrs : Section → Elf32Shdr}
    {final : List Elf32Sym} (h : LayoutOf file e shdrs strs final) :
    Places shdrs (2 + strs.length) (16 * final.length) ∧
      file.length = 52 + 34 + (2 + strs.length) + 16 * final.length + 200 := by
  have hfirst := h.first
  have hsecond := h.second
  have hthird := h.third
  have hlast := h.last
  have hshoff := h.shoff
  have hlen₀ := congrArg List.length h.shstrtab
  have hlen₁ := congrArg List.length h.strtab
  have hlen₂ := congrArg List.length h.symtab
  rw [sectionBytes, List.length_take, List.length_drop, length_shstrtabInitial] at hlen₀
  rw [sectionBytes, List.length_take, List.length_drop, length_strtabBytes] at hlen₁
  rw [sectionBytes, List.length_take, List.length_drop,
    length_flatMap Elf32Sym.length_bytes] at hlen₂
  refine ⟨⟨hfirst, ?_, ?_, ?_, ?_, ?_⟩, ?_⟩ <;> omega

/-- Its size is below 2^32, but for the section headers. -/
theorem Layout.fileSize_lt {file : List Byte} (h : Layout t file strs syms) :
    fileSize strs syms < 2 ^ 32 + 40 * 5 := by
  rcases h with ⟨e, shdrs, final, hlayout, hsame⟩
  have hlen : final.length = syms.length + 1 := hsame.length
  have hfile := hlayout.places.2
  have hshoff := hlayout.shoff
  have hlt := e.e_shoff.isLt
  rw [hlen] at hfile
  rw [fileSize]
  omega

theorem length_tabBytes_le (b : Buffer) : (tabBytes b).length ≤ b.cnt := by
  unfold tabBytes
  split
  · exact Nat.zero_le _
  · exact Nat.le_of_eq (Obj.length_load _ _ _)

/-- What is written of a damaged buffer. -/
theorem Damaged.tabBytes {b : Buffer} (h : Damaged b) :
    tabBytes b = [] ∨ ∃ rest, tabBytes b = 0xFF :: rest := by
  unfold Fas2sym.tabBytes
  cases hdata : b.data with
  | none => exact Or.inl rfl
  | some block =>
      right
      rcases Nat.exists_eq_succ_of_ne_zero h.cnt with ⟨n, hn⟩
      dsimp only
      rw [hn, Obj.load, List.range_succ_eq_map, List.map_cons]
      exact ⟨_, congrArg₂ List.cons (h.first block hdata) rfl⟩

/-- A damaged run does not write what was added. -/
theorem Lossy.not_layout (h : Lossy s strs syms) : ¬ Layout t s.output strs syms := by
  intro hlayout
  rcases hlayout with ⟨e, shdrs, final, hlayout, hsame⟩
  have hlen : final.length = syms.length + 1 := hsame.length
  rcases hlayout.places with ⟨hplaces, hfile⟩
  rw [hlen] at hplaces hfile
  have hehdr := Elf32Ehdr.length_bytes h.ident
  have hle₁ := length_tabBytes_le s.strtab
  have hle₂ := length_tabBytes_le s.symtab
  have hstrs := h.strs
  have hsyms := h.syms
  -- for the length both tables must be complete
  rw [Elf.output, h.shstrtab.tabBytes, List.length_append, List.length_append, List.length_append,
    List.length_append, length_flatMap Elf32Shdr.length_bytes, hehdr, length_shstrtabInitial,
    List.length_map] at hfile
  have hall : Section.all.length = 5 := rfl
  have hlen₁ : (Fas2sym.tabBytes s.strtab).length = 2 + strs.length := by omega
  have hlen₂ : (Fas2sym.tabBytes s.symtab).length = 16 * (syms.length + 1) := by omega
  rw [← hlen₁, ← hlen₂] at hplaces
  rcases hplaces.sections hehdr ((Section.all.map s.finished).flatMap Elf32Shdr.bytes) with
    ⟨-, hbytes₁, hbytes₂⟩
  have houtput : s.output = s.ehdr.bytes ++ ((shstrtabInitial ++ (Fas2sym.tabBytes s.strtab ++
      Fas2sym.tabBytes s.symtab)) ++
        (Section.all.map s.finished).flatMap Elf32Shdr.bytes) := by
    rw [Elf.output, h.shstrtab.tabBytes]
  rw [← houtput] at hbytes₁ hbytes₂
  have hstrtab := hbytes₁.symm.trans hlayout.strtab
  have hsymtab := hbytes₂.symm.trans hlayout.symtab
  rcases h.lost with hlost | hlost
  · -- `.strtab` starts with 0
    rcases hlost.tabBytes with hnil | ⟨rest, hfirst⟩
    · rw [hnil, List.length_nil] at hlen₁
      omega
    · rw [hfirst] at hstrtab
      exact absurd (List.head_eq_of_cons_eq hstrtab) (by decide)
  · -- `.symtab` starts with the null symbol
    rcases hlost.tabBytes with hnil | ⟨rest, hfirst⟩
    · rw [hnil, List.length_nil] at hlen₂
      omega
    · cases final with
      | nil => cases hlen
      | cons sym final =>
          have hsym := List.head_eq_of_cons_eq hsame.fields
          have hname : sym.st_name = 0 := congrArg Elf32Sym.st_name hsym
          rw [hfirst, List.flatMap_cons, Elf32Sym.bytes, hname] at hsymtab
          exact absurd (List.head_eq_of_cons_eq hsymtab) (by decide)

/-! ## Sound runs -/

theorem elfWriteTab_cases (writes : Bool) (b : Buffer) (fp : List Byte) :
    elfWriteTab writes b fp = elfWriteTab true b fp ∨ elfWriteTab writes b fp = (-1, fp) := by
  cases writes with
  | true => exact Or.inl rfl
  | false =>
      unfold elfWriteTab
      split
      · exact Or.inl rfl
      · split
        · exact Or.inl rfl
        · exact Or.inr rfl

/-- On any disk `elf_write` writes the same file or returns -1. -/
theorem elfWrite_disk (d : Disk) {file : List Byte} (hwrite : elfWrite .good t s = some (0, file, s')) :
    ∃ ret fp s₁, elfWrite d t s = some (ret, fp, s₁) ∧ (ret = 0 → fp = file) := by
  have hminus : ∀ {fp : List Byte}, (-1 : Int) = 0 → fp = file := fun h => absurd h (by decide)
  rw [elfWrite_good] at hwrite
  rcases Option.map_eq_some_iff.mp hwrite with ⟨s₂, hres, heq⟩
  have hfile : s₂.output = file := congrArg (fun r => r.2.1) heq
  unfold elfWrite
  -- an error ends `elf_write`; without one each part follows the last
  by_cases hopens : ¬ d.opens
  · rw [if_pos hopens]
    exact ⟨_, _, _, rfl, hminus⟩
  rw [if_neg hopens, hres]
  dsimp only
  by_cases h₀ : ¬ d.writes 0
  · rw [if_pos h₀]
    exact ⟨_, _, _, rfl, hminus⟩
  rw [if_neg h₀]
  rcases elfWriteTab_cases (d.writes 1) s₂.shstrtab s₂.ehdr.bytes with h₁ | h₁
  rotate_left
  · rw [h₁]
    exact ⟨_, _, _, rfl, hminus⟩
  rw [h₁, elfWriteTab_good]
  dsimp only
  rcases elfWriteTab_cases (d.writes 2) s₂.strtab (s₂.ehdr.bytes ++ tabBytes s₂.shstrtab) with
    h₂ | h₂
  rotate_left
  · rw [h₂]
    exact ⟨_, _, _, rfl, hminus⟩
  rw [h₂, elfWriteTab_good]
  dsimp only
  rcases elfWriteTab_cases (d.writes 3) s₂.symtab
    (s₂.ehdr.bytes ++ tabBytes s₂.shstrtab ++ tabBytes s₂.strtab) with h₃ | h₃
  rotate_left
  · rw [h₃]
    exact ⟨_, _, _, rfl, hminus⟩
  rw [h₃, elfWriteTab_good]
  dsimp only
  by_cases h₄ : ¬ d.writes 4
  · rw [if_pos h₄]
    exact ⟨_, _, _, rfl, hminus⟩
  rw [if_neg h₄]
  refine ⟨_, _, _, rfl, ?_⟩
  intro _
  rw [← hfile, Elf.output]
  rw [s₂.finished_eq]
  simp only [List.append_assoc]

/-- A FAS file that loads, with its names in its tables. -/
structure Valid (malloc : Nat → Bool) (file : List Byte) (fas : Fas) (fileName : List Byte)
    (nm : FasSym → List Byte) : Prop where
  load : fasLoadFile malloc (some file) = some fas
  file : CName fas.strtab fas.hdr.ifnm_off.toNat fileName
  names : ∀ sym ∈ fas.syms.filter FasSym.kept, FasName fas sym.name_off (nm sym)

/-- The strings that an export adds. -/
def Fas.addedStrs (fas : Fas) (fileName : List Byte) (nm : FasSym → List Byte) : List Byte :=
  exportStrs fileName nm (fas.syms.filter FasSym.kept)

/-- The symbols that an export adds. -/
def Fas.addedSyms (fas : Fas) (fileName : List Byte) (nm : FasSym → List Byte) : List Elf32Sym :=
  exportSyms fileName nm (fas.syms.filter FasSym.kept)

/-- The run accesses no memory outside its blocks, and if it reports success then everything
added is in the file. -/
def Sound (env : Env) (malloc : Nat → Bool) (file : List Byte) (d : Disk) (t : TextNames) : Prop :=
  ∃ status fp, fas2sym env malloc (some file) d t = some (status, fp) ∧
    (status = 0 → ∀ fas ret s, fasLoadFile malloc (some file) = some fas →
      elfInit env .start = some (ret, s) →
        Layout t fp (strsOf (fasExportCalls env fas s)) (symsOf (fasExportCalls env fas s)))

section Runs

variable {malloc : Nat → Bool} {file fileName : List Byte}

/-- The string table has less than 2^32 bytes. -/
theorem length_strtab (h : fasLoadFile malloc (some file) = some fas) {table : List Byte}
    (htable : fas.strtab = some table) : table.length < 2 ^ 32 := by
  rcases fasLoadFile_tables h with ⟨fp, -, hstrtab, -⟩
  rw [htable] at hstrtab
  have hlen : table.length = fas.hdr.strtab_len.toNat := fasLoadTable_size hstrtab
  rw [hlen]
  exact BitVec.isLt _

theorem CName.length_lt (hload : fasLoadFile malloc (some file) = some fas) {off : Nat}
    {name : List Byte} (h : CName fas.strtab off name) : name.length + 1 < 2 ^ 32 := by
  rcases h with ⟨-, before, rest, htable, -⟩
  have hlt := length_strtab hload htable
  rw [List.length_append, List.length_append, List.length_cons] at hlt
  omega

/-- No name is longer than the tables. -/
theorem length_nameBytes (hload : fasLoadFile malloc (some file) = some fas) {sym : FasSym}
    (h : FasName fas sym.name_off (nm sym)) : (nameBytes nm sym).length ≤ 2 ^ 32 := by
  unfold nameBytes
  split
  · exact Nat.zero_le _
  · rename_i hne
    rw [List.length_append, List.length_singleton]
    generalize sym.name_off = off at h hne
    generalize nm sym = name at h
    cases h with
    | anonymous => exact absurd rfl hne
    | inStrtab _ hname => exact Nat.le_of_lt (hname.length_lt hload)
    | inPsrc _ _ hname =>
        rcases hname with ⟨_, psz, src, _, -, -, hlen, rfl⟩
        have hlt := psz.isLt
        have hle := (List.takeWhile_prefix (l := src) (fun b : Byte => b ≠ 0)).length_le
        omega

theorem length_flatMap_le {α : Type} {f : α → List Byte} {k : Nat} {l : List α}
    (h : ∀ a ∈ l, (f a).length ≤ k) : (l.flatMap f).length ≤ k * l.length := by
  induction l with
  | nil => exact Nat.zero_le _
  | cons a l ih =>
      have hhead := h a (List.mem_cons_self ..)
      have htail := ih (fun b hb => h b (List.mem_cons_of_mem _ hb))
      rw [List.flatMap_cons, List.length_append, List.length_cons, Nat.mul_succ]
      omega

/-- What is added fits into the buffers. -/
theorem Valid.bounds (h : Valid malloc file fas fileName nm) :
    2 + (fas.addedStrs fileName nm).length ≤ 2 ^ 62 ∧
      16 * ((fas.addedSyms fileName nm).length + 1) ≤ 2 ^ 62 := by
  have hsyms := length_syms h.load
  have hkept : (fas.syms.filter FasSym.kept).length ≤ fas.syms.length := List.length_filter_le _ _
  have hname := h.file.length_lt h.load
  have hflat : ((fas.syms.filter FasSym.kept).flatMap (nameBytes nm)).length
      ≤ 2 ^ 32 * (fas.syms.filter FasSym.kept).length :=
    length_flatMap_le (fun sym hsym => length_nameBytes h.load (h.names sym hsym))
  unfold Fas.addedStrs Fas.addedSyms exportStrs exportSyms
  rw [List.length_append, List.length_append, List.length_singleton, List.length_cons,
    length_elfSymsOf]
  constructor
  · omega
  · omega

variable (env) in
/-- What a run adds, from any state on. -/
theorem Valid.calls (h : Valid malloc file fas fileName nm) (s : Elf) :
    2 + ([] ++ strsOf (fasExportCalls env fas s)).length ≤ 2 ^ 62 ∧
      16 * (([] ++ symsOf (fasExportCalls env fas s)).length + 1) ≤ 2 ^ 62 ∧
      callsFor (strsOf (fasExportCalls env fas s)) (symsOf (fasExportCalls env fas s))
        = callsFor (fas.addedStrs fileName nm) (fas.addedSyms fileName nm) ∧
      fileSize (strsOf (fasExportCalls env fas s)) (symsOf (fasExportCalls env fas s))
        = fileSize (fas.addedStrs fileName nm) (fas.addedSyms fileName nm) := by
  rcases exportCalls_adds env h.file h.names s with ⟨hstrs, hsyms⟩
  have hbounds := h.bounds
  unfold Fas.addedStrs Fas.addedSyms at *
  rw [List.nil_append, List.nil_append, hstrs, hsyms]
  refine ⟨hbounds.1, hbounds.2, ?_, ?_⟩
  · unfold callsFor
    rw [length_symtabBytes, length_symtabBytes, hsyms]
  · unfold fileSize
    rw [hsyms]

/-- If a call of `elf_init` fails, the program stops. -/
theorem sound_of_init {env : Env} (hfuel : 58 < env.fuel) {k : Nat} (hk : k < 4)
    (hfail : env.heap k = none) (d : Disk) (t : TextNames) : Sound env malloc file d t := by
  unfold Sound fas2sym
  cases fasLoadFile malloc (some file) with
  | none => exact ⟨1, [], rfl, fun h => absurd h (by decide)⟩
  | some fas =>
      rcases elfInit_cases hfuel with ⟨ret, s, hinit, ⟨rfl, h⟩ | ⟨rfl, -⟩⟩
      · have hcalls : s.calls = 4 := h.calls
        have hserved := h.served k (Nat.zero_le _) (by omega)
        rw [hfail] at hserved
        cases hserved
      · rw [hinit]
        exact ⟨1, [], rfl, fun h => absurd h (by decide)⟩

/-- If no call fails, everything is written. -/
theorem sound_of_served {env : Env} (hfuel : 58 < env.fuel)
    (h : Valid malloc file fas fileName nm)
    (hserved : ¬ Refused env.heap
      (callsFor (fas.addedStrs fileName nm) (fas.addedSyms fileName nm)))
    (hsize : fileSize (fas.addedStrs fileName nm) (fas.addedSyms fileName nm) < 2 ^ 32 + 40 * 5)
    (d : Disk) (t : TextNames) : Sound env malloc file d t := by
  unfold Sound fas2sym
  rw [h.load]
  dsimp only
  rcases elfInit_cases hfuel with ⟨ret, s, hinit, ⟨rfl, hinv⟩ | ⟨-, hrefused⟩⟩
  · rcases h.calls env s with ⟨hstrs, hsyms, hcalls, hall⟩
    rcases elfRun_cases hfuel (fasExportCalls env fas s) hinv hstrs hsyms with
      ⟨s', hrun, hinv'⟩ | hrefused
    · rw [elfRun_exportCalls h.file h.names] at hrun
      rw [List.nil_append, List.nil_append] at hinv'
      rw [← hall] at hsize
      rcases elfWrite_spec hinv' t hsize with ⟨fp, s₂, hwrite, hlayout⟩
      rcases elfWrite_disk d hwrite with ⟨ret, fp', s₃, hwrite', hsame⟩
      rw [hinit]
      dsimp only
      rw [if_neg (by decide), hrun]
      dsimp only
      rw [hwrite']
      refine ⟨_, _, rfl, ?_⟩
      intro hstatus fas₁ ret₁ s₁ hload₁ hinit₁
      have hsame₁ : s = s₁ := (Prod.ext_iff.mp (Option.some.inj hinit₁)).2
      rw [← Option.some.inj hload₁, ← hsame₁]
      -- the program exits with 0 only if `elf_write` returned 0
      have hret : ret = 0 := by
        by_contra hne
        rw [if_pos hne] at hstatus
        exact absurd hstatus (by decide)
      rw [hsame hret]
      exact hlayout
    · rw [List.nil_append, List.nil_append, hcalls] at hrefused
      exact absurd hrefused hserved
  · exact absurd (hrefused.extend List.nil_prefix List.nil_prefix) hserved

/-- A run that is sound with dirty memory, past `elf_init`, had no failure. -/
theorem served_of_sound {fails : Nat → Bool} {fuel verbose : Nat} (hfuel : 58 < fuel)
    (h : Valid malloc file fas fileName nm) (hinit : ∀ k, k < 4 → ¬ fails k) {t : TextNames}
    (hsound : Sound ⟨dirtyHeap fails, fuel, verbose⟩ malloc file .good t) :
    (∀ k, k < callsFor (fas.addedStrs fileName nm) (fas.addedSyms fileName nm) → ¬ fails k) ∧
      fileSize (fas.addedStrs fileName nm) (fas.addedSyms fileName nm) < 2 ^ 32 + 40 * 5 := by
  rcases hsound with ⟨status, fp, hrun, hlayout⟩
  unfold fas2sym at hrun
  rw [h.load] at hrun
  dsimp only at hrun
  have henv : 58 < (⟨dirtyHeap fails, fuel, verbose⟩ : Env).fuel := hfuel
  generalize hE : (⟨dirtyHeap fails, fuel, verbose⟩ : Env) = env at hrun hlayout henv
  have hheap : env.heap = dirtyHeap fails := by rw [← hE]
  rcases elfInit_cases henv with ⟨ret, s, hs, ⟨rfl, hinv⟩ | ⟨-, hrefused⟩⟩
  · rcases h.calls env s with ⟨hstrs, hsyms, hcalls, hall⟩
    rw [hs] at hrun
    dsimp only at hrun
    rw [if_neg (by decide)] at hrun
    split at hrun
    · cases hrun
    · rename_i s' hexport
      rw [elfWrite_good] at hrun
      rw [← elfRun_exportCalls h.file h.names] at hexport
      have hkept := elfRun_dirty hheap henv _ (Or.inl hinv) hstrs hsyms hexport
      rw [List.nil_append, List.nil_append] at hkept
      cases hres : elfResolveSymbols t s'.withShoff with
      | none =>
          rw [hres] at hrun
          cases hrun
      | some s₂ =>
          rw [hres, Option.map_some] at hrun
          have hpair := Option.some.inj hrun
          have hstatus : status = 0 := (Prod.ext_iff.mp hpair).1.symm
          have hfp : s₂.output = fp := (Prod.ext_iff.mp hpair).2
          have hfile := hlayout hstatus fas 0 s h.load hs
          rw [← hfp] at hfile
          -- either no call failed, or the file is not the one promised
          rcases hkept with hinv' | hlossy
          · constructor
            · intro k hk hfail
              rw [← hcalls, ← hinv'.calls] at hk
              have hserved := hinv'.served k (Nat.zero_le k) hk
              rw [hheap, dirtyHeap, if_pos hfail] at hserved
              cases hserved
            · rw [← hall]
              exact hfile.fileSize_lt
          · have hwith : Lossy s'.withShoff _ _ :=
              ⟨hlossy.ident, hlossy.shstrtab, hlossy.strs, hlossy.syms, hlossy.lost⟩
            exact absurd hfile (hwith.resolve hres).not_layout
  · rcases hrefused with ⟨k, hk, hnone⟩
    rw [hheap] at hnone
    unfold dirtyHeap at hnone
    rw [if_neg (hinit k hk)] at hnone
    cases hnone

end Runs

/-- **Failures.** For every FAS file and every pattern of failing calls of `realloc`, all runs are
sound exactly if a call of `elf_init` fails, or no call fails that the strings and symbols take and
the section headers begin below 2^32. -/
theorem fas2sym_sound_iff (fuel verbose : Nat) (hfuel : 58 < fuel) (malloc : Nat → Bool)
    (file : List Byte) (fas : Fas) (fileName : List Byte) (nm : FasSym → List Byte)
    (h : Valid malloc file fas fileName nm) (t : TextNames) (fails : Nat → Bool) :
    (∀ heap : Heap, (∀ k, heap k = none ↔ fails k) → ∀ d,
        Sound ⟨heap, fuel, verbose⟩ malloc file d t) ↔
      (∃ k, k < 4 ∧ fails k) ∨
        (∀ k, k < callsFor (fas.addedStrs fileName nm) (fas.addedSyms fileName nm) → ¬ fails k) ∧
          fileSize (fas.addedStrs fileName nm) (fas.addedSyms fileName nm) < 2 ^ 32 + 40 * 5 := by
  constructor
  · intro hsound
    by_cases hinit : ∃ k, k < 4 ∧ fails k
    · exact Or.inl hinit
    · right
      -- blocks full of 0xFF show what was not copied into them
      have hdirty : ∀ k, dirtyHeap fails k = none ↔ fails k := by
        intro k
        unfold dirtyHeap
        split <;> simp [*]
      exact served_of_sound hfuel h (fun k hk hfail => hinit ⟨k, hk, hfail⟩)
        (hsound (dirtyHeap fails) hdirty .good)
  · intro hcond heap hheap d
    rcases hcond with ⟨k, hk, hfail⟩ | ⟨hserved, hsize⟩
    · exact sound_of_init hfuel hk ((hheap k).mpr hfail) d t
    · apply sound_of_served hfuel h _ hsize
      intro hrefused
      rcases hrefused with ⟨k, hk, hnone⟩
      exact hserved k hk ((hheap k).mp hnone)

/-- The file of `demoFas` with a symbol table that grows to 64 bytes. -/
theorem demoFas_valid : Valid (fun _ => true) demoFile demoFas [0x66] demoName :=
  ⟨demoFas_load, demoFas_file, demoFas_names⟩

/-- Five calls are enough, so it does no harm that all others fail. -/
theorem fas2sym_sound_iff_demo :
    Sound ⟨fun k => if 5 ≤ k then none else some (fun _ => 0), 59, 0⟩ (fun _ => true) demoFile .good
      ⟨none, none⟩ := by
  refine (fas2sym_sound_iff 59 0 (by decide) _ _ _ _ _ demoFas_valid ⟨none, none⟩
    (fun k => decide (5 ≤ k))).mpr (Or.inr ?_) _ (fun k => ?_) .good
  · rw [Fas.addedStrs, Fas.addedSyms, demoFas_kept]
    decide
  · by_cases hk : 5 ≤ k <;> simp [hk]

/-- Call 4 should make room for the third symbol; the fourth is copied through the null pointer. -/
theorem fas2sym_sound_counterexample :
    fas2sym ⟨fun k => if k = 4 then none else some (fun _ => 0), 59, 0⟩ (fun _ => true)
        (some demoFile) .good ⟨none, none⟩ = none ∧
      ¬ Sound ⟨fun k => if k = 4 then none else some (fun _ => 0), 59, 0⟩ (fun _ => true)
        demoFile .good ⟨none, none⟩ := by
  have hfault : fas2sym ⟨fun k => if k = 4 then none else some (fun _ => 0), 59, 0⟩
      (fun _ => true) (some demoFile) .good ⟨none, none⟩ = none := by
    decide +kernel
  refine ⟨hfault, ?_⟩
  intro hsound
  rcases hsound with ⟨status, fp, hrun, -⟩
  rw [hfault] at hrun
  cases hrun

end StupidOS.Fas2sym
