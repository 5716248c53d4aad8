import StupidOS.Ar.Header

/-!
# The loop of `ranlib` over an archive

An archive is the magic followed by its members (`archive`). The loop of `ranlib` takes one
header after the other and skips the data. `archive_skip_entry` pads by the size that is left
after an extended name, not by the size of the member, so the next header is missed behind a
name of odd length (`ranlib_visits_iff`).
-/

namespace StupidOS.Ar

/-! ## Archives -/

/-- The name of a member: in the header, or in the data with its length in the header. -/
inductive MemberName where
  | short (field : List Byte) (length : field.length = 16) (plain : field.take 3 ≠ arExtname)
  | ext (len : DecField 13) (ends : len.digits.length < 13) (name : List Byte)
      (length : name.length = len.val) (nonempty : 0 < len.val) (fits : len.val ≤ 254)

namespace MemberName

/-- `ar_name` -/
def field : MemberName → List Byte
  | short field _ _ => field
  | ext len _ _ _ _ _ => arExtname ++ len.bytes

/-- What is stored in front of the data. -/
def stored : MemberName → List Byte
  | short _ _ _ => []
  | ext _ _ name _ _ _ => name

theorem length_field (n : MemberName) : n.field.length = 16 := by
  cases n with
  | short field length _ => exact length
  | ext len _ _ _ _ _ =>
      rw [field, List.length_append, DecField.length_bytes]
      rfl

/-- The two forms. -/
theorem forms (n : MemberName) : n.field.take 3 ≠ arExtname ∧ n.stored = [] ∨
    ∃ len : DecField 13, len.digits.length < 13 ∧ n.field = arExtname ++ len.bytes ∧
      n.stored.length = len.val := by
  cases n with
  | short field length plain => exact Or.inl ⟨plain, rfl⟩
  | ext len ends name length nonempty fits => exact Or.inr ⟨len, ends, rfl, length⟩

theorem length_stored (n : MemberName) : n.stored.length ≤ 254 := by
  cases n with
  | short _ _ _ => exact Nat.zero_le _
  | ext len _ name length _ fits => exact Nat.le_trans (Nat.le_of_eq length) fits

end MemberName

/-- A member. `stat` is `ar_date`, `ar_uid`, `ar_gid` and `ar_mode`. -/
structure Member where
  name : MemberName
  stat : List Byte
  length_stat : stat.length = 32
  size : DecField 10
  data : List Byte
  size_eq : size.val = name.stored.length + data.length
  pad : Byte

namespace Member

variable (m : Member)

/-- `ar_size` -/
def arSize : Nat := m.name.stored.length + m.data.length

def header : List Byte := m.name.field ++ m.stat ++ m.size.bytes ++ arfmag

/-- The pad byte, if there is one. -/
def padding : List Byte := if m.arSize % 2 ≠ 0 then [m.pad] else []

def bytes : List Byte := m.header ++ (m.name.stored ++ (m.data ++ m.padding))

theorem length_header : m.header.length = 60 := by
  have hname := m.name.length_field
  have hstat := m.length_stat
  have hmag : arfmag.length = 2 := rfl
  simp only [header, List.length_append, DecField.length_bytes]
  omega

theorem length_padding : m.padding.length = m.arSize % 2 := by
  unfold padding
  split
  · rw [List.length_singleton]
    omega
  · rw [List.length_nil]
    omega

theorem length_bytes : m.bytes.length = 60 + m.arSize + m.arSize % 2 := by
  have hheader := m.length_header
  have hpadding := m.length_padding
  have hsize : m.arSize = m.name.stored.length + m.data.length := rfl
  simp only [bytes, List.length_append]
  omega

theorem header_mag : m.header.drop 58 = arfmag := by
  have hname := m.name.length_field
  have hstat := m.length_stat
  rw [header, List.drop_left' (by simp only [List.length_append, DecField.length_bytes]; omega)]

theorem header_size : (m.header.drop 48).take 10 = m.size.bytes := by
  have hname := m.name.length_field
  have hstat := m.length_stat
  rw [header, List.append_assoc, List.drop_left' (by rw [List.length_append]; omega),
    List.take_left' m.size.length_bytes]

theorem header_name : m.header.take 16 = m.name.field := by
  rw [header, List.append_assoc, List.append_assoc, List.take_left' m.name.length_field]

theorem arSize_lt : m.arSize < 10 ^ 10 := by
  have hlt := m.size.val_lt
  rw [m.size_eq] at hlt
  exact hlt

end Member

/-- The members one after the other. -/
def membersBytes (members : List Member) : List Byte := members.flatMap Member.bytes

/-- An archive file. -/
def archive (members : List Member) : List Byte := armag ++ membersBytes members

/-- Offset and data size of each member, from offset `pos` on. -/
def entries : Nat → List Member → List (Nat × Nat)
  | _, [] => []
  | pos, m :: members => (pos, m.data.length) :: entries (pos + m.bytes.length) members

/-! ## `ranlib` -/

variable (sys : Nat → ReadResult)

/-- The file, the entry, and the entry as it was after each header taken. -/
structure RanlibState where
  fd : Fd
  entry : Obj
  visited : List Obj

/-- What the last call of `archive_get_entry_hdr` returned, and the entries before. -/
structure RanlibEnd where
  ret : Int
  visited : List Obj

/-- One pass of the loop. `hdr` is what the stack holds at each call. -/
def ranlibPass (fuel : Nat) (hdr : Nat → Obj) (s : RanlibState) :
    Option (Pass RanlibState RanlibEnd) :=
  match archiveGetEntryHdr sys fuel s.fd s.entry (hdr s.visited.length) with
  | none => none
  | some (ret, entry, fd) =>
    if ret > 0 then
      let visited := s.visited ++ [entry]
      if strcmpEq arSymtabName entry entryName then
        some (.again ⟨(archiveSkipEntry fd entry).2, entry, visited⟩)
      else some (.again ⟨(archiveSkipEntry fd entry).2, entry, visited⟩)
    else some (.done ⟨ret, s.visited⟩)

/-- `ranlib` on a file with these contents, without the temporary file; `some none` if
`archive_open` fails. `buff`, `entry` and `hdr` are what is on the stack. -/
def ranlib (fuel : Nat) (data : List Byte) (buff entry : Obj) (hdr : Nat → Obj) :
    Option (Option RanlibEnd) :=
  match archiveOpen sys fuel data buff with
  | none => none
  | some none => some none
  | some (some fd) => (iterate (ranlibPass sys fuel hdr) fuel ⟨fd, entry, []⟩).map some

/-- The loop visits the members in order, with the right offset and size, and ends with 0. -/
def Visits (members : List Member) (r : RanlibEnd) : Prop :=
  r.ret = 0 ∧ r.visited.map (fun entry => (entryOffset entry, entrySize entry)) = entries 8 members

/-- Behind each name of odd length there is no member, and no pad byte either. -/
def SkipsRight : List Member → Prop
  | [] => True
  | m :: members => m.name.stored.length % 2 = 0 ∧ SkipsRight members ∨
      members = [] ∧ m.arSize % 2 = 0

theorem skipsRight_even {m : Member} (h : m.name.stored.length % 2 = 0) (members : List Member) :
    SkipsRight (m :: members) ↔ SkipsRight members := by
  constructor
  · intro hright
    rcases hright with ⟨-, hrest⟩ | ⟨rfl, -⟩
    · exact hrest
    · trivial
  · intro hrest
    exact Or.inl ⟨h, hrest⟩

theorem skipsRight_odd {m : Member} (h : ¬ m.name.stored.length % 2 = 0) (members : List Member) :
    SkipsRight (m :: members) ↔ members = [] ∧ m.arSize % 2 = 0 := by
  constructor
  · intro hright
    rcases hright with ⟨heven, -⟩ | hlast
    · exact absurd heven h
    · exact hlast
  · exact Or.inr

/-! ## Where the next header is looked for -/

/-- The magic stands at the end of the next header, and nowhere one byte off. -/
theorem membersBytes_mag (m : Member) (members : List Member) :
    (membersBytes (m :: members))[58]? = some 0x60 ∧
      (membersBytes (m :: members))[59]? = some 0x0A := by
  have hlen := m.length_header
  have hget : ∀ i : Nat, i < 2 → (membersBytes (m :: members))[58 + i]? = arfmag[i]? := by
    intro i hi
    rw [membersBytes, List.flatMap_cons, Member.bytes, List.append_assoc,
      List.getElem?_append_left (by omega), ← m.header_mag, List.getElem?_drop]
  exact ⟨hget 0 (by decide), hget 1 (by decide)⟩

/-- A pad byte that was not skipped. -/
theorem badHeader_pad (pad : Byte) (members : List Member) :
    BadHeader (pad :: membersBytes members) := by
  refine ⟨List.cons_ne_nil _ _, ?_⟩
  cases members with
  | nil => exact Or.inl (show 1 < 60 by decide)
  | cons m members =>
      rcases membersBytes_mag m members with ⟨h58, -⟩
      refine Or.inr (Or.inr ?_)
      rw [List.getElem?_cons_succ, h58]
      decide

/-- One byte too many skipped. -/
theorem badHeader_drop (m : Member) (members : List Member) :
    BadHeader ((membersBytes (m :: members)).drop 1) := by
  rcases membersBytes_mag m members with ⟨-, h59⟩
  have hlen := (List.getElem?_eq_some_iff.mp h59).1
  constructor
  · intro hnil
    rw [List.drop_eq_nil_iff] at hnil
    omega
  · refine Or.inr (Or.inl ?_)
    rw [List.getElem?_drop, h59]
    decide

namespace Member

variable (m : Member) (tail : List Byte)

/-- Behind the data. -/
theorem drop_data : (m.bytes ++ tail).drop (60 + m.arSize) = m.padding ++ tail := by
  have hheader := m.length_header
  have hbytes : m.bytes ++ tail
      = (m.header ++ m.name.stored ++ m.data) ++ (m.padding ++ tail) := by
    simp only [bytes, List.append_assoc]
  rw [hbytes, List.drop_left' (by simp only [List.length_append, hheader, arSize]; omega)]

/-- Where `archive_skip_entry` goes from a name of even length. -/
theorem drop_even (h : m.name.stored.length % 2 = 0) :
    (m.bytes ++ tail).drop (60 + m.arSize + m.data.length % 2) = tail := by
  have harSize : m.arSize = m.name.stored.length + m.data.length := rfl
  rw [List.drop_left' (by rw [length_bytes]; omega)]

/-- And from a name of odd length. -/
theorem drop_odd (h : ¬ m.name.stored.length % 2 = 0) :
    (m.bytes ++ tail).drop (60 + m.arSize + m.data.length % 2)
      = if m.arSize % 2 = 0 then tail.drop 1 else m.pad :: tail := by
  have harSize : m.arSize = m.name.stored.length + m.data.length := rfl
  rw [← List.drop_drop, drop_data, padding]
  by_cases heven : m.arSize % 2 = 0
  · have hdata : m.data.length % 2 = 1 := by omega
    rw [if_neg (not_not_intro heven), if_pos heven, hdata]
    rfl
  · have hdata : m.data.length % 2 = 0 := by omega
    rw [if_pos heven, if_neg heven, hdata]
    rfl

end Member

/-! ## The entry of a member -/

namespace Member

variable (m : Member)

theorem isHeader : IsHeader m.header := ⟨m.length_header, m.header_mag⟩

theorem hdrSize_header : hdrSize m.header = m.arSize := by
  rw [hdrSize, m.header_size, m.size.strtol_bytes (by decide), m.size_eq]
  rfl

/-- What `archive_get_entry_hdr` makes of an entry. -/
def entry (entry : Obj) (pos : Int) : Obj :=
  if HasExt m.header then named (numbered entry pos m.header) m.name.stored.length m.name.stored
  else (numbered entry pos m.header).store entryName (cleared m.name.field)

/-- The two forms. -/
theorem forms : ¬ HasExt m.header ∧ m.name.stored = [] ∧ (∀ entry pos, m.entry entry pos
      = (numbered entry pos m.header).store entryName (cleared (m.header.take 16))) ∨
    HasExt m.header ∧ hdrLen m.header = m.name.stored.length ∧ ∀ entry pos, m.entry entry pos
      = named (numbered entry pos m.header) m.name.stored.length m.name.stored := by
  have hthree : m.header.take 3 = m.name.field.take 3 := by
    rw [← m.header_name, List.take_take]
    rfl
  rcases m.name.forms with ⟨hplain, hnil⟩ | ⟨len, hends, hfield, hlen⟩
  · have hnot : ¬ HasExt m.header := by
      rw [HasExt, hthree]
      exact hplain
    refine Or.inl ⟨hnot, hnil, ?_⟩
    intro entry pos
    rw [Member.entry, if_neg hnot, m.header_name]
  · have hext : HasExt m.header := by
      rw [HasExt, hthree, hfield]
      rfl
    refine Or.inr ⟨hext, ?_, fun entry pos => if_pos hext⟩
    have hbehind : m.header.drop 3 = len.bytes ++ (m.stat ++ m.size.bytes ++ arfmag) := by
      rw [Member.header, hfield]
      simp only [List.append_assoc]
      rfl
    have hstored := m.name.length_stored
    rw [hdrLen, hbehind, len.atoi_bytes hends (by omega), hlen]

theorem entryOffset_entry (entry : Obj) (pos : Nat) :
    entryOffset (m.entry entry pos) = pos % 2 ^ 32 := by
  have hoffset : (entryOffset (numbered entry pos m.header) : Int) = (pos : Int) % 2 ^ 32 :=
    entryOffset_numbers entry _ pos
  rcases m.forms with ⟨-, -, hentry⟩ | ⟨-, -, hentry⟩
  · rw [hentry, entryOffset_store _ (by decide)]
    omega
  · rw [hentry, entryOffset_named]
    omega

theorem entrySize_entry (entry : Obj) (pos : Nat) :
    entrySize (m.entry entry pos) = m.data.length := by
  have hsize := entrySize_numbered entry pos m.length_header
  have hlt := m.arSize_lt
  have harSize : m.arSize = m.name.stored.length + m.data.length := rfl
  rw [m.hdrSize_header] at hsize
  rcases m.forms with ⟨-, hnil, hentry⟩ | ⟨-, -, hentry⟩
  · rw [hnil, List.length_nil] at harSize
    rw [hentry, entrySize_store _ (by decide)]
    omega
  · have hnamed := entrySize_named (numbered entry pos m.header) m.name.stored.length m.name.stored
    rw [hentry]
    omega

end Member

/-! ## One member -/

section RegularFile

variable {sys} (hsys : ReadsFile sys)
include hsys

/-- A member is taken, up to the end of its extended name. -/
theorem getEntryHdr_memberEntry {fd : Fd} {m : Member} {tail : List Byte}
    (hrest : fd.rest = m.bytes ++ tail) (entry hdr : Obj) {fuel : Nat} (hfuel : 254 < fuel) :
    ∃ calls, archiveGetEntryHdr sys fuel fd entry hdr = some (1, m.entry entry fd.pos,
      ⟨fd.data, fd.pos + 60 + m.name.stored.length, calls⟩) := by
  have hrest' : fd.rest = m.header ++ (m.name.stored ++ (m.data ++ m.padding) ++ tail) := by
    rw [hrest, Member.bytes, List.append_assoc]
  -- a short name is in its field; a long one follows the header, and its length is in the field
  rcases m.forms with ⟨hplain, hnil, hentry⟩ | ⟨hext, hlen, hentry⟩
  · rcases getEntryHdr_short hsys hrest' m.isHeader hplain entry hdr (show 60 < fuel by omega) with
      ⟨calls, hget⟩
    refine ⟨calls, ?_⟩
    rw [hget, hnil, hentry]
    rfl
  · have hstored := m.name.length_stored
    rcases getEntryHdr_ext hsys hrest' m.isHeader hext hlen entry hdr (show 60 < fuel by omega)
      (show m.name.stored.length < fuel by omega) with ⟨calls, hget⟩
    refine ⟨calls, ?_⟩
    rw [hget, hentry, List.append_assoc, List.take_left, Nat.min_eq_left]
    rw [List.length_append]
    omega

theorem getEntryHdr_member {fd : Fd} {m : Member} {tail : List Byte}
    (hrest : fd.rest = m.bytes ++ tail) (entry hdr : Obj) {fuel : Nat} (hfuel : 254 < fuel) :
    ∃ entry' calls, archiveGetEntryHdr sys fuel fd entry hdr
        = some (1, entry', ⟨fd.data, fd.pos + 60 + m.name.stored.length, calls⟩) ∧
      entryOffset entry' = fd.pos % 2 ^ 32 ∧ entrySize entry' = m.data.length := by
  rcases getEntryHdr_memberEntry hsys hrest entry hdr hfuel with ⟨calls, hget⟩
  exact ⟨_, calls, hget, m.entryOffset_entry entry fd.pos, m.entrySize_entry entry fd.pos⟩

omit hsys in
/-- The data is skipped, and a byte more if what is left behind the name is odd. -/
theorem archiveSkipEntry_snd (fd : Fd) {entry : Obj} {size : Nat} (hsize : entrySize entry = size)
    (hlt : size < 2 ^ 62) :
    (archiveSkipEntry fd entry).2 = { fd with pos := fd.pos + size + size % 2 } := by
  have hint : ∀ n : Nat, n < 2 ^ 63 → (BitVec.ofNat 64 n).toInt = n := by
    intro n hn
    rw [BitVec.toInt_eq_toNat_of_lt (by rw [BitVec.toNat_ofNat]; omega), BitVec.toNat_ofNat,
      Nat.mod_eq_of_lt (by omega)]
  unfold archiveSkipEntry
  dsimp only
  rw [hsize]
  by_cases hodd : size % 2 = 0
  · rw [if_neg (not_not_intro hodd), hint _ (by omega), Fd.lseekCur_nat, hodd]
    rfl
  · have hone : size % 2 = 1 := by omega
    rw [if_pos hodd, hint _ (by omega), Fd.lseekCur_nat, hone]
    rfl

/-- One pass over a member. -/
theorem ranlibPass_member {s : RanlibState} {m : Member} {tail : List Byte}
    (hrest : s.fd.rest = m.bytes ++ tail) (hdr : Nat → Obj) {fuel : Nat} (hfuel : 254 < fuel) :
    ∃ entry calls, ranlibPass sys fuel hdr s = some (.again
        ⟨⟨s.fd.data, s.fd.pos + (60 + m.arSize + m.data.length % 2), calls⟩, entry,
          s.visited ++ [entry]⟩) ∧
      entryOffset entry = s.fd.pos % 2 ^ 32 ∧ entrySize entry = m.data.length := by
  rcases getEntryHdr_member hsys hrest s.entry (hdr s.visited.length) hfuel with
    ⟨entry, calls, hget, hoff, hsize⟩
  have hlt := m.arSize_lt
  have harSize : m.arSize = m.name.stored.length + m.data.length := rfl
  have hskip := archiveSkipEntry_snd
    ⟨s.fd.data, s.fd.pos + 60 + m.name.stored.length, calls⟩ hsize (by omega)
  have hpos : s.fd.pos + 60 + m.name.stored.length + m.data.length + m.data.length % 2
      = s.fd.pos + (60 + m.arSize + m.data.length % 2) := by omega
  refine ⟨entry, calls, ?_, hoff, hsize⟩
  unfold ranlibPass
  rw [hget]
  dsimp only
  rw [if_pos (by decide), ite_self, hskip]
  dsimp only
  rw [hpos]

/-- The loop ends at the end of the file, or at a bad header. -/
theorem ranlibPass_end {s : RanlibState} (hrest : s.fd.rest = []) (hdr : Nat → Obj) {fuel : Nat}
    (hfuel : 254 < fuel) : ranlibPass sys fuel hdr s = some (.done ⟨0, s.visited⟩) := by
  rcases getEntryHdr_end hsys hrest s.entry (hdr s.visited.length) (Nat.lt_trans (by decide) hfuel)
    with ⟨fd', hget⟩
  unfold ranlibPass
  rw [hget]
  rfl

theorem ranlibPass_bad {s : RanlibState} (hbad : BadHeader s.fd.rest) (hdr : Nat → Obj)
    {fuel : Nat} (hfuel : 254 < fuel) :
    ranlibPass sys fuel hdr s = some (.done ⟨-1, s.visited⟩) := by
  rcases getEntryHdr_bad hsys hbad s.entry (hdr s.visited.length) (Nat.lt_trans (by decide) hfuel)
    with ⟨fd', hget⟩
  unfold ranlibPass
  rw [hget]
  rfl

/-! ## Any number of members -/

/-- The loop from the start of a member on. It ends at the end of the file with 0, or at the
place where a header was missed with -1. -/
theorem ranlib_members (members : List Member) {s : RanlibState}
    (hrest : s.fd.rest = membersBytes members) (hdr : Nat → Obj) {fuel n : Nat}
    (hfuel : 254 < fuel) (hn : members.length < n) :
    ∃ ret visited, iterate (ranlibPass sys fuel hdr) n s = some ⟨ret, s.visited ++ visited⟩ ∧
      (SkipsRight members → ret = 0 ∧
        visited.map (fun entry => (entryOffset entry, entrySize entry))
          = (entries s.fd.pos members).map (fun e => (e.1 % 2 ^ 32, e.2))) ∧
      (¬ SkipsRight members → ret = -1) := by
  induction members generalizing s n with
  | nil =>
      obtain ⟨n, rfl⟩ : ∃ k, n = k + 1 := ⟨n - 1, by omega⟩
      refine ⟨0, [], ?_, fun _ => ⟨rfl, rfl⟩, fun h => absurd trivial h⟩
      rw [iterate_done (ranlibPass_end hsys hrest hdr hfuel), List.append_nil]
  | cons m members ih =>
      obtain ⟨n, rfl⟩ : ∃ k, n = k + 1 := ⟨n - 1, by omega⟩
      rw [List.length_cons] at hn
      have hbytes : s.fd.rest = m.bytes ++ membersBytes members := by
        rw [hrest, membersBytes, List.flatMap_cons, membersBytes]
      rcases ranlibPass_member hsys hbytes hdr hfuel with ⟨entry, calls, hpass, hoff, hsize⟩
      rw [iterate_again hpass]
      have hnext : (⟨s.fd.data, s.fd.pos + (60 + m.arSize + m.data.length % 2), calls⟩ : Fd).rest
          = (m.bytes ++ membersBytes members).drop (60 + m.arSize + m.data.length % 2) := by
        rw [← hbytes, Fd.rest, Fd.rest, List.drop_drop]
      obtain ⟨n, rfl⟩ : ∃ k, n = k + 1 := ⟨n - 1, by omega⟩
      by_cases heven : m.name.stored.length % 2 = 0
      · -- the parity of what is left is that of the member
        rw [m.drop_even _ heven] at hnext
        have harSize : m.arSize = m.name.stored.length + m.data.length := rfl
        have hpos : s.fd.pos + (60 + m.arSize + m.data.length % 2) = s.fd.pos + m.bytes.length := by
          rw [m.length_bytes]
          omega
        rcases ih (s := ⟨⟨_, _, calls⟩, entry, s.visited ++ [entry]⟩) hnext
          (show members.length < n + 1 by omega) with ⟨ret, visited, hrun, hyes, hno⟩
        rw [skipsRight_even heven]
        refine ⟨ret, entry :: visited, ?_, ?_, hno⟩
        · rw [hrun, List.append_assoc, List.singleton_append]
        · intro hright
          rcases hyes hright with ⟨hret, hvisited⟩
          refine ⟨hret, ?_⟩
          rw [List.map_cons, hvisited, hoff, hsize, entries, List.map_cons, ← hpos]
      · rw [m.drop_odd _ heven] at hnext
        rw [skipsRight_odd heven]
        by_cases hlast : members = [] ∧ m.arSize % 2 = 0
        · rcases hlast with ⟨rfl, hpad⟩
          rw [if_pos hpad] at hnext
          refine ⟨0, [entry], iterate_done (ranlibPass_end hsys hnext hdr hfuel) n, ?_,
            fun h => absurd ⟨rfl, hpad⟩ h⟩
          intro _
          refine ⟨rfl, ?_⟩
          rw [List.map_singleton, hoff, hsize]
          rfl
        · have hbad : BadHeader (⟨s.fd.data, s.fd.pos + (60 + m.arSize + m.data.length % 2),
              calls⟩ : Fd).rest := by
            rw [hnext]
            split
            · rename_i hpad
              cases members with
              | nil => exact absurd ⟨rfl, hpad⟩ hlast
              | cons m' members => exact badHeader_drop m' members
            · exact badHeader_pad m.pad members
          exact ⟨-1, [entry], iterate_done (ranlibPass_bad hsys hbad hdr hfuel) n,
            fun h => absurd h hlast, fun _ => rfl⟩

/-! ## The whole archive -/

theorem archiveOpen_archive (members : List Member) (buff : Obj) {fuel : Nat}
    (hfuel : 254 < fuel) : ∃ calls, archiveOpen sys fuel (archive members) buff
      = some (some ⟨archive members, 8, calls⟩) := by
  rcases readData_spec hsys ⟨archive members, 0, 0⟩ buff 0 (n := sarmag) (by decide)
    (Nat.lt_trans (by decide) hfuel) with ⟨calls, hread⟩
  have hrest : (⟨archive members, 0, 0⟩ : Fd).rest = armag ++ membersBytes members := rfl
  have hlen : sarmag ≤ (armag ++ membersBytes members).length := by
    rw [List.length_append]
    exact Nat.le_add_right ..
  have htake : (armag ++ membersBytes members).take sarmag = armag := List.take_left' rfl
  rw [hrest, Nat.min_eq_left hlen, htake] at hread
  refine ⟨calls, ?_⟩
  unfold archiveOpen
  rw [hread]
  dsimp only
  have hmag : (buff.store 0 armag).load 0 sarmag = armag := Obj.load_store buff 0 armag
  rw [res_natCast _ _ (by decide), if_neg (not_not_intro rfl), if_neg (not_not_intro hmag)]
  rfl

/-- A run of `ranlib`. -/
theorem ranlib_archive (members : List Member) (buff entry : Obj) (hdr : Nat → Obj) {fuel : Nat}
    (hfuel : 254 < fuel) (hlen : members.length < fuel) :
    ∃ ret visited, ranlib sys fuel (archive members) buff entry hdr
        = some (some ⟨ret, visited⟩) ∧
      (SkipsRight members → ret = 0 ∧
        visited.map (fun entry => (entryOffset entry, entrySize entry))
          = (entries 8 members).map (fun e => (e.1 % 2 ^ 32, e.2))) ∧
      (¬ SkipsRight members → ret = -1) := by
  rcases archiveOpen_archive hsys members buff hfuel with ⟨calls, hopen⟩
  have hrest : (⟨archive members, 8, calls⟩ : Fd).rest = membersBytes members := List.drop_left' rfl
  rcases ranlib_members hsys members (s := ⟨⟨archive members, 8, calls⟩, entry, []⟩) hrest hdr
    hfuel hlen with ⟨ret, visited, hrun, hcases⟩
  refine ⟨ret, visited, ?_, hcases⟩
  unfold ranlib
  rw [hopen]
  dsimp only
  rw [hrun]
  rfl

omit hsys in
/-- Offsets that an `unsigned` holds are not changed by it. -/
theorem truncated_eq_iff (l : List (Nat × Nat)) :
    l.map (fun e => (e.1 % 2 ^ 32, e.2)) = l ↔ ∀ e ∈ l, e.1 < 2 ^ 32 := by
  have hmap : l.map (fun e => (e.1 % 2 ^ 32, e.2)) = l.map id ↔ _ := List.map_inj_left
  rw [List.map_id] at hmap
  rw [hmap]
  constructor
  · intro h e he
    have hfst : e.1 % 2 ^ 32 = e.1 := congrArg Prod.fst (h e he)
    omega
  · intro h e he
    exact Prod.ext (Nat.mod_eq_of_lt (h e he)) rfl

/-- **The loop of `ranlib`.** On a well-formed archive it visits every member with its offset
and size, and ends with 0, exactly when behind a name of odd length there is neither a member
nor a pad byte, and each header is at an offset that an `unsigned` holds. -/
theorem ranlib_visits_iff (members : List Member) (buff entry : Obj) (hdr : Nat → Obj) :
    (∃ n, ∀ fuel, n ≤ fuel → ∃ r, ranlib sys fuel (archive members) buff entry hdr
        = some (some r) ∧ Visits members r) ↔
      SkipsRight members ∧ ∀ e ∈ entries 8 members, e.1 < 2 ^ 32 := by
  constructor
  · intro h
    rcases h with ⟨n, hn⟩
    rcases hn (n + members.length + 255) (by omega) with ⟨r, hr, hret, hvisited⟩
    rcases ranlib_archive hsys members buff entry hdr (show 254 < n + members.length + 255 by omega)
      (by omega) with ⟨ret, visited, hrun, hyes, hno⟩
    rw [hrun, Option.some.injEq, Option.some.injEq] at hr
    subst hr
    -- had it gone astray at an odd size, it would have returned an error
    have hright : SkipsRight members := by
      by_contra hnot
      exact absurd (hret.symm.trans (hno hnot)) (by decide)
    refine ⟨hright, ?_⟩
    intro e he
    exact (truncated_eq_iff _).mp ((hyes hright).2.symm.trans hvisited) e he
  · intro h
    rcases h with ⟨hright, hoffsets⟩
    refine ⟨members.length + 255, ?_⟩
    intro fuel hfuel
    rcases ranlib_archive hsys members buff entry hdr (show 254 < fuel by omega) (by omega) with
      ⟨ret, visited, hrun, hyes, -⟩
    rcases hyes hright with ⟨hret, hvisited⟩
    exact ⟨_, hrun, hret, hvisited.trans ((truncated_eq_iff _).mpr hoffsets)⟩

end RegularFile

/-! ### Two members, the first with a name of three bytes -/

/-- A file with one byte of data. -/
def demoMember (name : MemberName) (size : DecField 10) (h : size.val = name.stored.length + 1) :
    Member where
  name := name
  stat := List.replicate 32 blank
  length_stat := rfl
  size := size
  data := [0x61]
  size_eq := h
  pad := 0x0A

/-- `#1/3` with the name `a.o`, and `b.o/` -/
def demoMembers : List Member :=
  [demoMember (.ext ⟨[3], List.cons_ne_nil _ _, by decide⟩ (by decide) [0x61, 0x2E, 0x6F] rfl
      (by decide) (by decide)) ⟨[4], List.cons_ne_nil _ _, by decide⟩ rfl,
    demoMember (.short (0x62 :: 0x2E :: 0x6F :: 0x2F :: List.replicate 12 blank) rfl (by decide))
      ⟨[1], List.cons_ne_nil _ _, by decide⟩ rfl]

/-- Reads in pieces of at most 16 bytes. -/
def demoReads : Nat → ReadResult := fun _ => .upTo 16

theorem demoReads_file : ReadsFile demoReads := fun _ => ⟨16, by decide, rfl⟩

/-- With the odd name last, both are visited. -/
theorem ranlib_visits_iff_demo :
    ∃ n, ∀ fuel, n ≤ fuel → ∃ r, ranlib demoReads fuel (archive demoMembers.reverse) (fun _ => 0)
      (fun _ => 0) (fun _ _ => 0) = some (some r) ∧ Visits demoMembers.reverse r :=
  (ranlib_visits_iff demoReads_file demoMembers.reverse (fun _ => 0) (fun _ => 0)
    (fun _ _ => 0)).mpr ⟨Or.inl ⟨by decide, Or.inr ⟨rfl, by decide⟩⟩, by decide⟩

/-- The loop ends with an error instead of the second member. -/
theorem ranlib_visits_counterexample :
    ¬ ∃ n, ∀ fuel, n ≤ fuel → ∃ r, ranlib demoReads fuel (archive demoMembers) (fun _ => 0)
        (fun _ => 0) (fun _ _ => 0) = some (some r) ∧ Visits demoMembers r := by
  intro h
  rcases h with ⟨n, hn⟩
  rcases hn (n + 255) (by omega) with ⟨r, hr, hret, -⟩
  rcases ranlib_archive demoReads_file demoMembers (fun _ => 0) (fun _ => 0) (fun _ _ => 0)
    (show 254 < n + 255 by omega) (show 2 < n + 255 by omega) with ⟨ret, visited, hrun, -, hno⟩
  have hwrong : ¬ SkipsRight demoMembers := by
    intro hright
    rcases hright with ⟨hodd, -⟩ | ⟨hlast, -⟩
    · exact absurd hodd (by decide)
    · exact absurd hlast (List.cons_ne_nil _ _)
  rw [hrun, Option.some.injEq, Option.some.injEq] at hr
  rw [← hr] at hret
  exact absurd (hret.symm.trans (hno hwrong)) (by decide)

end StupidOS.Ar
