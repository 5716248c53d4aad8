import StupidOS.Ar.Ranlib

/-!
# The names of archive members (`archive.c`)

`ranlib` reads the header of one member after the other into the same `struct archive_entry_hdr`.
An extended name is terminated, but a name that fills its field is copied without a NUL; then
the name goes on with what an earlier one has left. `getEntries_names_iff` says when that does not
show.
-/

namespace StupidOS.Ar

/-! ## Names -/

/-- The name of a member: the field without the blanks at its end, or what is stored. -/
def MemberName.text : MemberName → List Byte
  | .short field _ _ => field.rdropWhile (· = blank)
  | .ext _ _ name _ _ _ => name

/-- A string without blanks at its end, or NULs in it, that takes the whole field. -/
def MemberName.Fills : MemberName → Prop
  | .short field _ _ => field.getLast? ≠ some blank ∧ 0 ∉ field
  | .ext _ _ _ _ _ _ => False

/-- Up to the first NUL. -/
def cut (text : List Byte) : List Byte := text.takeWhile (· ≠ 0)

/-- The byte behind the 16 of a field, once a name is read. -/
def MemberName.left : MemberName → Byte → Byte
  | .short _ _ _, b => b
  | .ext _ _ name _ _ _, b => ((name ++ [0])[16]?).getD b

/-- `entry.name` is the name, as a C string. -/
def NameRight (m : Member) (entry : Obj) : Prop := strcmpEq (cut m.name.text) entry entryName = true

/-! ## Calls -/

/-- Where a member is in an archive; behind the last one is the end of the file. -/
def memberOffset (members : List Member) (idx : Nat) : Nat :=
  8 + (membersBytes (members.take idx)).length

/-- A call of `archive_get_entry_hdr`: the member at which the file is, how often `read` was called
before, and what is on the stack for `hdr`. -/
structure Call where
  idx : Nat
  reads : Nat
  hdr : Obj

/-- A sequence of calls with one entry; the value and the entry after each of them. -/
def getEntries (sys : Nat → ReadResult) (fuel : Nat) (members : List Member) :
    Obj → List Call → Option (List (Int × Obj))
  | _, [] => some []
  | entry, c :: calls =>
    match archiveGetEntryHdr sys fuel ⟨archive members, memberOffset members c.idx, c.reads⟩ entry
      c.hdr with
    | none => none
    | some (ret, entry, _) =>
      (getEntries sys fuel members entry calls).map fun results => (ret, entry) :: results

/-- The byte behind a field after some calls. -/
def leftAfter (members : List Member) : Byte → List Call → Byte
  | b, [] => b
  | b, c :: calls =>
    match members[c.idx]? with
    | none => leftAfter members b calls
    | some m => leftAfter members (m.name.left b) calls

/-! ## One member -/

theorem strcmpEq_iff (str : List Byte) (o : Obj) (off : Int) :
    strcmpEq str o off = true ↔ o.load off (str.length + 1) = str ++ [0] := by
  rw [strcmpEq, decide_eq_true_iff]
  rfl

/-- A string at the start of what is known of an object. -/
theorem strcmpEq_starts {str known : List Byte} {o : Obj} {off : Int}
    (hknown : o.load off known.length = known) (hstarts : str ++ [0] <+: known) :
    strcmpEq str o off = true := by
  have hlen := hstarts.length_le
  rw [List.length_append, List.length_singleton] at hlen
  rw [strcmpEq_iff, ← Obj.take_load o off hlen, hknown, List.prefix_iff_eq_take.mp hstarts]
  simp

/-- A text with a NUL in it ends there. -/
theorem cut_nul {text : List Byte} (h : 0 ∈ text) : cut text ++ [0] <+: text := by
  induction text with
  | nil => exact absurd h List.not_mem_nil
  | cons c text ih =>
      by_cases hc : c = 0
      · rw [cut, List.takeWhile_cons_of_neg (by simp [hc]), hc]
        exact List.prefix_append [0] text
      · rw [cut, List.takeWhile_cons_of_pos (by simpa using hc), List.cons_append]
        rcases List.mem_cons.mp h with h | h
        · exact absurd h.symm hc
        · exact List.cons_prefix_cons.mpr ⟨rfl, ih h⟩

theorem cut_plain {text : List Byte} (h : 0 ∉ text) : cut text = text := by
  rw [cut, List.takeWhile_eq_self_iff]
  intro c hc
  simp only [decide_eq_true_eq]
  rintro rfl
  exact h hc

/-- A text with a NUL behind it ends there at the latest. -/
theorem cut_starts (text : List Byte) : cut text ++ [0] <+: text ++ [0] := by
  by_cases h : 0 ∈ text
  · exact (cut_nul h).trans (List.prefix_append _ _)
  · rw [cut_plain h]

/-- The bytes of an extended name, and its NUL. -/
theorem named_name (entry : Obj) (text : List Byte) {x : Int} (hx : 40 ≤ x) :
    named entry text.length text x = entry.store entryName (text ++ [0]) x := by
  rw [← Obj.store_append, named]
  exact Obj.store_out _ (Or.inr (by rw [length_leBytes]; omega))

namespace Member

variable (m : Member)

theorem entry_short {field : List Byte} {length : field.length = 16}
    {plain : field.take 3 ≠ arExtname} (h : m.name = .short field length plain) (entry : Obj)
    (pos : Int) : m.entry entry pos
      = (numbered entry pos m.header).store entryName (cleared field) := by
  have hfield : m.header.take 16 = field := by
    rw [m.header_name, h]
    rfl
  rcases m.forms with ⟨-, -, hentry⟩ | ⟨hext, -⟩
  · rw [hentry, hfield]
  · refine absurd ?_ plain
    rw [← hfield, List.take_take]
    exact hext

theorem entry_ext {len : DecField 13} {ends : len.digits.length < 13} {name : List Byte}
    {length : name.length = len.val} {nonempty : 0 < len.val} {fits : len.val ≤ 254}
    (h : m.name = .ext len ends name length nonempty fits) (entry : Obj) (pos : Int) :
    m.entry entry pos = named (numbered entry pos m.header) name.length name := by
  have hstored : m.name.stored = name := by
    rw [h]
    rfl
  rcases m.forms with ⟨-, hnil, -⟩ | ⟨-, -, hentry⟩
  · rw [hstored] at hnil
    rw [hnil, List.length_nil] at length
    omega
  · rw [hentry, hstored]

/-- The byte behind the field. -/
theorem entry_left (entry : Obj) (pos : Int) : m.entry entry pos 56 = m.name.left (entry 56) := by
  cases hname : m.name with
  | short field length plain =>
      rw [m.entry_short hname, Obj.store_out _ (Or.inr (by rw [length_cleared, length]; decide)),
        numbered_name _ _ _ (by decide), MemberName.left]
  | ext len ends name length nonempty fits =>
      rw [m.entry_ext hname, named_name _ _ (by decide), MemberName.left,
        ← numbered_name entry pos m.header (by decide)]
      rfl

/-- The name is right, unless it fills the field and something follows. -/
theorem nameRight_iff (entry : Obj) (pos : Int) :
    NameRight m (m.entry entry pos) ↔ (m.name.Fills → entry 56 = 0) := by
  rw [NameRight]
  cases hname : m.name with
  | short field length plain =>
      have hentry := m.entry_short hname entry pos
      have hload : (m.entry entry pos).load entryName (cleared field).length = cleared field := by
        rw [hentry, Obj.load_store]
      have hleft : m.entry entry pos (entryName + 16) = entry 56 := by
        have hkept := m.entry_left entry pos
        rw [hname] at hkept
        exact hkept
      rw [MemberName.text, MemberName.Fills]
      by_cases hblank : field.getLast? = some blank
      · -- the first blank that is cleared ends the name
        rcases List.getLast?_eq_some_iff.mp hblank with ⟨before, hbefore⟩
        have hshort : (field.rdropWhile (· = blank)).length < field.length := by
          have hstarts := (List.rdropWhile_prefix (fun b : Byte => decide (b = blank))
            (l := before)).length_le
          rw [hbefore, List.rdropWhile_concat_pos _ _ _ (by decide), List.length_append,
            List.length_singleton]
          omega
        obtain ⟨k, hk⟩ : ∃ k, field.length - (field.rdropWhile (· = blank)).length = k + 1 :=
          ⟨field.length - (field.rdropWhile (· = blank)).length - 1, by omega⟩
        refine iff_of_true (strcmpEq_starts hload ((cut_starts _).trans ?_))
          (fun hfills => absurd hblank hfills.1)
        rw [cleared, hk, List.replicate_succ]
        exact (List.prefix_append_right_inj _).mpr (List.prefix_append [0] _)
      · have hplain : field.rdropWhile (· = blank) = field := by
          rw [List.rdropWhile_eq_self_iff]
          intro hne hlast
          rw [List.getLast?_eq_some_getLast hne, of_decide_eq_true hlast] at hblank
          exact hblank rfl
        have hfield : cleared field = field := by
          rw [cleared, hplain, Nat.sub_self, List.replicate_zero, List.append_nil]
        rw [hfield] at hload
        rw [hplain]
        by_cases hnul : 0 ∈ field
        · exact iff_of_true (strcmpEq_starts hload (cut_nul hnul)) (fun hfills => absurd hnul hfills.2)
        · rw [length] at hload
          rw [cut_plain hnul, strcmpEq_iff, length, Obj.load_append, Obj.load_one, hload,
            List.append_cancel_left_eq, List.singleton_inj]
          rw [← hleft]
          exact ⟨fun h _ => h, fun h => h ⟨hblank, hnul⟩⟩
  | ext len ends name length nonempty fits =>
      have hload : (m.entry entry pos).load entryName (name ++ [0]).length = name ++ [0] := by
        have hsame : (m.entry entry pos).load entryName (name ++ [0]).length
            = ((numbered entry pos m.header).store entryName (name ++ [0])).load entryName
              (name ++ [0]).length := by
          apply Obj.load_congr
          intro i _
          rw [m.entry_ext hname, named_name _ _ (by rw [entryName]; omega)]
        rw [hsame, Obj.load_store]
      exact iff_of_true (strcmpEq_starts hload (cut_starts name)) False.elim

end Member

/-! ## Any number of calls -/

section RegularFile

variable {sys : Nat → ReadResult} (hsys : ReadsFile sys)
include hsys

/-- One call: a member, or the end of the file. -/
theorem getEntries_call (members : List Member) (entry : Obj) (c : Call) {fuel : Nat}
    (hfuel : 254 < fuel) :
    (members[c.idx]? = none ∧ ∃ fd', archiveGetEntryHdr sys fuel
        ⟨archive members, memberOffset members c.idx, c.reads⟩ entry c.hdr
          = some (0, setOffset entry (memberOffset members c.idx), fd')) ∨
      ∃ m, members[c.idx]? = some m ∧ ∃ fd', archiveGetEntryHdr sys fuel
        ⟨archive members, memberOffset members c.idx, c.reads⟩ entry c.hdr
          = some (1, m.entry entry (memberOffset members c.idx), fd') := by
  have hrest : (⟨archive members, memberOffset members c.idx, c.reads⟩ : Fd).rest
      = membersBytes (members.drop c.idx) := by
    have hsplit : membersBytes members
        = membersBytes (members.take c.idx) ++ membersBytes (members.drop c.idx) := by
      rw [membersBytes, membersBytes, membersBytes, ← List.flatMap_append, List.take_append_drop]
    rw [Fd.rest, archive, memberOffset, ← List.drop_drop]
    change (membersBytes members).drop _ = _
    rw [hsplit, List.drop_left]
  cases hm : members[c.idx]? with
  | none =>
      left
      rw [List.drop_eq_nil_of_le (List.getElem?_eq_none_iff.mp hm)] at hrest
      exact ⟨rfl, getEntryHdr_end hsys hrest entry c.hdr (by omega)⟩
  | some m =>
      right
      rcases List.getElem?_eq_some_iff.mp hm with ⟨hlt, rfl⟩
      rw [List.drop_eq_getElem_cons hlt, membersBytes, List.flatMap_cons] at hrest
      rcases getEntryHdr_memberEntry hsys hrest entry c.hdr hfuel with ⟨calls, hget⟩
      exact ⟨_, rfl, _, hget⟩

/-- A sequence of calls. -/
theorem getEntries_run (members : List Member) (calls : List Call) (entry : Obj) {fuel : Nat}
    (hfuel : 254 < fuel) : ∃ results, getEntries sys fuel members entry calls = some results ∧
      ∀ k c, calls[k]? = some c → ∃ r, results[k]? = some r ∧
        (members[c.idx]? = none ∧ r.1 = 0 ∨ ∃ m, members[c.idx]? = some m ∧ r.1 = 1 ∧
          (NameRight m r.2 ↔
            (m.name.Fills → leftAfter members (entry 56) (calls.take k) = 0))) := by
  induction calls generalizing entry with
  | nil => exact ⟨[], rfl, fun k c hc => by cases hc⟩
  | cons c calls ih =>
      -- what the first call leaves behind the field
      have hfirst : ∃ ret entry' fd', archiveGetEntryHdr sys fuel
            ⟨archive members, memberOffset members c.idx, c.reads⟩ entry c.hdr
              = some (ret, entry', fd') ∧
          (∀ rest, leftAfter members (entry 56) (c :: rest)
            = leftAfter members (entry' 56) rest) ∧
          (members[c.idx]? = none ∧ ret = 0 ∨ ∃ m, members[c.idx]? = some m ∧ ret = 1 ∧
            (NameRight m entry' ↔ (m.name.Fills → entry 56 = 0))) := by
        rcases getEntries_call hsys members entry c hfuel with
          ⟨hnone, fd', hget⟩ | ⟨m, hm, fd', hget⟩
        · refine ⟨_, _, fd', hget, ?_, Or.inl ⟨hnone, rfl⟩⟩
          intro rest
          rw [leftAfter, hnone, setOffset, Obj.setField,
            Obj.store_out entry (Or.inr (by rw [length_leBytes]; decide))]
        · refine ⟨_, _, fd', hget, ?_, Or.inr ⟨m, hm, rfl, m.nameRight_iff entry _⟩⟩
          intro rest
          rw [leftAfter, hm, m.entry_left]
      rcases hfirst with ⟨ret, entry', fd', hget, hleft, hcase⟩
      rcases ih entry' with ⟨results, hrun, hspec⟩
      refine ⟨(ret, entry') :: results, ?_, ?_⟩
      · rw [getEntries, hget]
        dsimp only
        rw [hrun]
        rfl
      · intro k c' hc'
        cases k with
        | zero =>
            rw [List.getElem?_cons_zero, Option.some.injEq] at hc'
            subst hc'
            exact ⟨_, rfl, hcase⟩
        | succ k =>
            rw [List.getElem?_cons_succ] at hc'
            rw [List.take_succ_cons, hleft]
            exact hspec k c' hc'

/-- **Names.** In every sequence of calls on the members of an archive, with one entry, every name
that is read is right if and only if each time that a name fills its field the byte behind the
field is a NUL: the last extended name of 16 bytes or more has just 16, or a NUL behind them. -/
theorem getEntries_names_iff (members : List Member) (calls : List Call) (entry : Obj)
    {fuel : Nat} (hfuel : 254 < fuel) :
    (∃ results, getEntries sys fuel members entry calls = some results ∧
      ∀ (k : Nat) (c : Call) (r : Int × Obj), calls[k]? = some c → results[k]? = some r →
        r.1 = 1 → ∃ m, members[c.idx]? = some m ∧ NameRight m r.2) ↔
      ∀ (k : Nat) (c : Call) (m : Member), calls[k]? = some c → members[c.idx]? = some m →
        m.name.Fills → leftAfter members (entry 56) (calls.take k) = 0 := by
  rcases getEntries_run hsys members calls entry hfuel with ⟨results, hrun, hspec⟩
  constructor
  · rintro ⟨results', hrun', hright⟩ k c m hc hm hfills
    rw [hrun, Option.some.injEq] at hrun'
    rw [← hrun'] at hright
    rcases hspec k c hc with ⟨r, hr, ⟨hnone, -⟩ | ⟨m', hm', hret, hiff⟩⟩
    · rw [hm] at hnone
      cases hnone
    · rcases hright k c r hc hr hret with ⟨m'', hm'', hname⟩
      rw [hm, Option.some.injEq] at hm' hm''
      rw [← hm'] at hiff
      rw [← hm''] at hname
      exact hiff.mp hname hfills
  · intro h
    refine ⟨results, hrun, ?_⟩
    intro k c r hc hr hret
    rcases hspec k c hc with ⟨r', hr', ⟨-, hzero⟩ | ⟨m, hm, -, hiff⟩⟩
    · rw [hr, Option.some.injEq] at hr'
      rw [hr', hzero] at hret
      cases hret
    · rw [hr, Option.some.injEq] at hr'
      rw [hr']
      exact ⟨m, hm, hiff.mpr (h k c m hc hm)⟩

end RegularFile

/-! ### A name of 22 bytes, and one that fills its field -/

def longName : MemberName :=
  .ext ⟨[⟨2, by decide⟩, ⟨2, by decide⟩], List.cons_ne_nil _ _, by decide⟩ (by decide)
    (List.replicate 22 0x61) rfl (by decide) (by decide)

def fullName : MemberName := .short (List.replicate 16 0x62) rfl (by decide)

def demoNames : List Member :=
  [demoMember longName ⟨[⟨2, by decide⟩, ⟨3, by decide⟩], List.cons_ne_nil _ _, by decide⟩ rfl,
    demoMember fullName ⟨[⟨1, by decide⟩], List.cons_ne_nil _ _, by decide⟩ rfl]

/-- One after the other. -/
def demoCalls : List Call := [⟨0, 1, fun _ => 0⟩, ⟨1, 5, fun _ => 0⟩]

theorem getEntries_names_iff_demo :
    (∃ results, getEntries demoReads 255 demoNames (fun _ => 0) demoCalls = some results ∧
      ∀ (k : Nat) (c : Call) (r : Int × Obj), demoCalls[k]? = some c → results[k]? = some r →
        r.1 = 1 → ∃ m, demoNames[c.idx]? = some m ∧ NameRight m r.2) ↔
      ∀ (k : Nat) (c : Call) (m : Member), demoCalls[k]? = some c → demoNames[c.idx]? = some m →
        m.name.Fills → leftAfter demoNames 0 (demoCalls.take k) = 0 :=
  getEntries_names_iff demoReads_file demoNames demoCalls (fun _ => 0) (by decide)

/-- The second name ends with what is left of the first. -/
theorem getEntries_names_counterexample :
    ¬ ∀ (sys : Nat → ReadResult) (members : List Member) (calls : List Call) (entry : Obj)
      (fuel : Nat), ReadsFile sys → 254 < fuel →
        ∃ results, getEntries sys fuel members entry calls = some results ∧
          ∀ (k : Nat) (c : Call) (r : Int × Obj), calls[k]? = some c → results[k]? = some r →
            r.1 = 1 → ∃ m, members[c.idx]? = some m ∧ NameRight m r.2 := by
  intro h
  rcases h demoReads demoNames demoCalls (fun _ => 0) 255 demoReads_file (by decide) with
    ⟨results, hrun, hright⟩
  rcases getEntries_run demoReads_file demoNames demoCalls (fun _ => 0) (show 254 < 255 by decide)
    with ⟨results', hrun', hspec⟩
  rw [hrun, Option.some.injEq] at hrun'
  rw [← hrun'] at hspec
  rcases hspec 1 ⟨1, 5, fun _ => 0⟩ rfl with ⟨r, hr, ⟨hnone, -⟩ | ⟨m, hm, hret, hiff⟩⟩
  · cases hnone
  · rcases hright 1 _ r rfl hr hret with ⟨m', hm', hname⟩
    rw [hm, Option.some.injEq] at hm'
    rw [← hm'] at hname
    have hfills : m.name.Fills := by
      rw [← Option.some.inj hm]
      exact ⟨by decide, by decide⟩
    exact absurd (hiff.mp hname hfills) (by decide)

end StupidOS.Ar
