import StupidOS.Ar.Ranlib
import StupidOS.Lib.Cycle

/-!
# Where the loop of `ranlib` goes

The loop goes from header to header, by numbers that are text in the file. Nothing makes sure that
a header is behind the one before: a negative size leads backwards. So the loop ends, however the
file is read, exactly if no header that it can get to leads back to itself (`ranlib_ends_iff`).
-/

namespace StupidOS.Ar

/-! ## From header to header -/

/-- What is taken for the header at an offset. -/
def headerAt (data : List Byte) (pos : Nat) : List Byte := (data.drop pos).take 60

/-- The 8 bytes of `size` before the name is read. -/
def sizeText (h : List Byte) : List Byte := leBytes 8 (hdrSize h % 2 ^ 64).toNat

/-- The size in the entry behind the name. The NUL of a name with a length from -8 to -1 is a byte
of `size`. -/
def sizeLeft (h : List Byte) : Nat :=
  if HasExt h then
    let size := ofLe (if -8 ≤ hdrLen h ∧ hdrLen h < 0 then (sizeText h).set (8 + hdrLen h).toNat 0
      else sizeText h)
    ((size - hdrLen h) % 2 ^ 64).toNat
  else (hdrSize h % 2 ^ 64).toNat

/-- How many bytes of what follows a header are read for its name; with a negative length it is
up to `read`. -/
def Takes (h tail : List Byte) (k : Nat) : Prop :=
  if HasExt h then
    if 0 ≤ hdrLen h then k = min (hdrLen h).toNat tail.length
    else k ≤ tail.length ∧ (k : Int) ≤ hdrLen h % 2 ^ 64 ∧ (k = 0 → tail = [])
  else k = 0

/-- Where `archive_skip_entry` goes; it stays where it cannot go. -/
def skipTo (pos size : Nat) : Nat :=
  let sz := if size % 2 ≠ 0 then size + 1 else size
  let off := (BitVec.ofNat 64 sz).toInt
  if pos + off < 0 then pos else (pos + off).toNat

/-- The header at `pos` leads to `pos'`. -/
def Next (data : List Byte) (pos pos' : Nat) : Prop :=
  IsHeader (headerAt data pos) ∧ ∃ k, Takes (headerAt data pos) (data.drop (pos + 60)) k ∧
    pos' = skipTo (pos + 60 + k) (sizeLeft (headerAt data pos))

/-! ## The numbers -/

theorem archiveSkipEntry_pos (fd : Fd) (entry : Obj) :
    (archiveSkipEntry fd entry).2 = { fd with pos := skipTo fd.pos (entrySize entry) } := by
  rw [archiveSkipEntry, skipTo]
  generalize (BitVec.ofNat 64 _).toInt = off
  rw [Fd.lseekCur]
  split <;> rfl

theorem numbered_size (entry : Obj) (pos : Int) {h : List Byte} (hh : h.length = 60) :
    (numbered entry pos h).load 32 8 = sizeText h := by
  have hload := Obj.load_store_part (fun _ => 0) 0 (show 48 + 10 ≤ h.length by omega)
  have htext : arStrToNum (Obj.store (fun _ => 0) 0 h) 48 10 10 = hdrSize h := by
    rw [arStrToNum, hdrSize, ← hload]
    rfl
  rw [numbered, setNumbers, htext]
  exact Obj.load_store _ 32 (leBytes 8 _)

theorem entrySize_left (entry : Obj) (pos : Int) {h : List Byte} (hh : h.length = 60)
    (hext : HasExt h) (text : List Byte) :
    entrySize (named (numbered entry pos h) (hdrLen h) text) = sizeLeft h := by
  have hsize := numbered_size entry pos hh
  have hname : ((numbered entry pos h).store entryName text).load 32 8 = sizeText h := by
    rw [← hsize]
    exact Obj.load_store_apart _ (Or.inl (by decide))
  have hnul : entrySize (((numbered entry pos h).store entryName text).store
      (entryName + hdrLen h) [0]) = ofLe (if -8 ≤ hdrLen h ∧ hdrLen h < 0 then
        (sizeText h).set (8 + hdrLen h).toNat 0 else sizeText h) := by
    rw [entrySize, Obj.field]
    split
    next hin =>
      have haddr : entryName + hdrLen h = 32 + ((8 + hdrLen h).toNat : Int) := by
        rw [entryName]
        omega
      rw [haddr, Obj.load_store_one _ _ (by omega), hname]
    next hout =>
      rw [Obj.load_store_apart _ (by rw [entryName, List.length_singleton]; omega), hname]
  have hset := entrySize_setSize
    (((numbered entry pos h).store entryName text).store (entryName + hdrLen h) [0])
    (entrySize (((numbered entry pos h).store entryName text).store
      (entryName + hdrLen h) [0]) - hdrLen h)
  rw [hnul] at hset
  rw [sizeLeft, if_pos hext, named]
  dsimp only
  rw [hnul]
  omega

theorem entrySize_plain (entry : Obj) (pos : Int) {h : List Byte} (hh : h.length = 60)
    (hplain : ¬ HasExt h) (text : List Byte) :
    entrySize ((numbered entry pos h).store entryName text) = sizeLeft h := by
  have hsize := entrySize_numbered entry pos hh
  rw [entrySize_store _ (by decide), sizeLeft, if_neg hplain]
  omega

/-! ## One pass -/

theorem headerAt_rest (fd : Fd) :
    fd.rest = headerAt fd.data fd.pos ++ fd.data.drop (fd.pos + 60) := by
  rw [headerAt, ← List.drop_drop, List.take_append_drop]
  rfl

/-- What is no header is a bad one, or the end of the file. -/
theorem badHeader_of_not {data : List Byte} {pos : Nat} (hnot : ¬ IsHeader (headerAt data pos))
    (hrest : data.drop pos ≠ []) : BadHeader (data.drop pos) := by
  refine ⟨hrest, ?_⟩
  by_contra hgood
  rw [not_or, not_or, not_not, not_not, Nat.not_lt] at hgood
  rcases hgood with ⟨hlen, h58, h59⟩
  refine hnot ⟨List.length_take_of_le hlen, ?_⟩
  rw [headerAt, List.drop_take]
  refine List.ext_getElem? ?_
  intro i
  rcases i with - | - | i
  · rw [List.getElem?_take_of_lt (by decide), List.getElem?_drop]
    exact h58
  · rw [List.getElem?_take_of_lt (by decide), List.getElem?_drop]
    exact h59
  · rw [List.getElem?_take_eq_none (by omega)]
    rfl

variable {sys : Nat → ReadResult}

/-- Where the loop goes from a header that was taken. -/
theorem ranlibPass_of_hdr {s : RanlibState} {entry : Obj} {hdr : Nat → Obj}
    {fuel pos calls : Nat}
    (hget : archiveGetEntryHdr sys fuel s.fd s.entry (hdr s.visited.length)
      = some (1, entry, ⟨s.fd.data, pos, calls⟩)) :
    ranlibPass sys fuel hdr s = some (.again
      ⟨⟨s.fd.data, skipTo pos (entrySize entry), calls⟩, entry, s.visited ++ [entry]⟩) := by
  rw [ranlibPass, hget]
  dsimp only
  rw [if_pos (by decide), ite_self, archiveSkipEntry_pos]

section RegularFile

variable (hsys : ReadsFile sys)
include hsys

/-- A header is taken, with some bytes for its name. -/
theorem getEntryHdr_takes {fd : Fd} (hh : IsHeader (headerAt fd.data fd.pos)) (entry hdr : Obj)
    {fuel : Nat} (hfuel : 2 ^ 31 ≤ fuel) : ∃ entry' k calls,
      Takes (headerAt fd.data fd.pos) (fd.data.drop (fd.pos + 60)) k ∧
      archiveGetEntryHdr sys fuel fd entry hdr
        = some (1, entry', ⟨fd.data, fd.pos + 60 + k, calls⟩) ∧
      entrySize entry' = sizeLeft (headerAt fd.data fd.pos) := by
  have hrest := headerAt_rest fd
  generalize headerAt fd.data fd.pos = h at hh hrest ⊢
  generalize fd.data.drop (fd.pos + 60) = tail at hrest ⊢
  have hbound := hdrLen_bound h
  have hfuel' : 60 < fuel := by omega
  by_cases hext : HasExt h
  · have hsize := fun text => entrySize_left entry fd.pos hh.length hext text
    by_cases hlen : 0 ≤ hdrLen h
    · have hnat : hdrLen h = ((hdrLen h).toNat : Nat) := by omega
      rcases getEntryHdr_ext hsys hrest hh hext hnat entry hdr hfuel' (by omega) with
        ⟨calls, hget⟩
      rw [← hnat] at hget
      refine ⟨_, _, calls, ?_, hget, hsize _⟩
      rw [Takes, if_pos hext, if_pos hlen]
    · rcases getEntryHdr_neg hsys hrest hh hext (by omega) entry hdr hfuel' with
        ⟨k, calls, hk, hcount, hzero, hget⟩
      refine ⟨_, k, calls, ?_, hget, hsize _⟩
      rw [Takes, if_pos hext, if_neg hlen]
      exact ⟨hk, hcount, hzero⟩
  · rcases getEntryHdr_short hsys hrest hh hext entry hdr hfuel' with
      ⟨calls, hget⟩
    refine ⟨_, 0, calls, ?_, hget, entrySize_plain entry fd.pos hh.length hext _⟩
    rw [Takes, if_neg hext]

/-- The loop ends, or goes to a next header. -/
theorem ranlibPass_next (s : RanlibState) (hdr : Nat → Obj) {fuel : Nat} (hfuel : 2 ^ 31 ≤ fuel) :
    (∃ r, ranlibPass sys fuel hdr s = some (.done r)) ∨
      s.fd.pos < s.fd.data.length ∧ ∃ s', ranlibPass sys fuel hdr s = some (.again s') ∧
        s'.fd.data = s.fd.data ∧ Next s.fd.data s.fd.pos s'.fd.pos := by
  by_cases hh : IsHeader (headerAt s.fd.data s.fd.pos)
  · right
    have hlen := hh.length
    rw [headerAt, List.length_take, List.length_drop] at hlen
    rcases getEntryHdr_takes hsys hh s.entry (hdr s.visited.length) hfuel with
      ⟨entry, k, calls, htakes, hget, hsize⟩
    refine ⟨by omega, _, ranlibPass_of_hdr hget, rfl, hh, k, htakes, ?_⟩
    dsimp only
    rw [hsize]
  · left
    by_cases hrest : s.fd.rest = []
    · exact ⟨_, ranlibPass_end hsys hrest hdr (by omega)⟩
    · exact ⟨_, ranlibPass_bad hsys (badHeader_of_not hh hrest) hdr (by omega)⟩

end RegularFile

/-! ## Calls that give all there is -/

/-- How many calls `read_data` makes for `n` bytes if each gives all that there is. -/
def callsFor (n : Nat) (tail : List Byte) : Nat :=
  if 0 < tail.length ∧ tail.length < n then 2 else 1

/-- How many calls are made for a header and its name. -/
def callsAt (h tail : List Byte) : Nat :=
  1 + if HasExt h then (if 0 ≤ hdrLen h then callsFor (hdrLen h).toNat tail else 1) else 0

/-- How many bytes call `i` of them may give: `k` for a name of negative length, else all. -/
def giving (all : Nat) (h : List Byte) (k i : Nat) : Nat :=
  if i = 1 ∧ HasExt h ∧ hdrLen h < 0 then max 1 k else all

/-- The first call gives up to `size` bytes, the others what `f` says. -/
def firstThen (size : Nat) (f : Nat → Nat) (n : Nat) : ReadResult :=
  .upTo (if n = 0 then size else f (n - 1))

theorem firstThen_zero (size : Nat) (f : Nat → Nat) : firstThen size f 0 = .upTo size := rfl

theorem firstThen_succ (size : Nat) (f : Nat → Nat) (n : Nat) :
    firstThen size f (n + 1) = .upTo (f n) := rfl

/-- `read_data` when every call gives all that there is. -/
theorem readData_all {all : Nat} {fd : Fd} (hall : fd.rest.length ≤ all) {n : Nat}
    (hn : n < 2 ^ 63)
    (hcalls : ∀ i, i < callsFor n fd.rest → sys (fd.calls + i) = .upTo all) (buff : Obj) (off : Int)
    {fuel : Nat} (hfuel : 2 ≤ fuel) : readData sys fuel fd buff off n
      = some ⟨⟨fd.data, fd.pos + min n fd.rest.length, fd.calls + callsFor n fd.rest⟩,
        buff.store off (fd.rest.take n), (min n fd.rest.length : Nat)⟩ := by
  obtain ⟨fuel, rfl⟩ : ∃ k, fuel = k + 2 := ⟨fuel - 2, by omega⟩
  have htake : fd.rest.take (min n fd.rest.length) = fd.rest.take n := by
    rw [← List.take_take, List.take_length]
  have hcount : (((n : Int) - 0) % 2 ^ 64).toNat = n := by omega
  have hpos : 0 < callsFor n fd.rest := by
    rw [callsFor]
    split <;> decide
  have hfirst := Fd.read_upTo (hcalls 0 hpos) n
    (show min (min n all) fd.rest.length = min n fd.rest.length by omega)
  rw [htake] at hfirst
  by_cases hmore : 0 < fd.rest.length ∧ fd.rest.length < n
  · -- the second call says that there is no more
    have hcallsFor : callsFor n fd.rest = 2 := if_pos hmore
    have hmin : min n fd.rest.length = fd.rest.length := by omega
    have hend : (⟨fd.data, fd.pos + fd.rest.length, fd.calls + 1⟩ : Fd).rest = [] := by
      rw [Fd.rest, ← List.drop_drop]
      exact List.drop_length
    have hcall : sys (⟨fd.data, fd.pos + fd.rest.length, fd.calls + 1⟩ : Fd).calls = .upTo all :=
      hcalls 1 (by rw [hcallsFor]; decide)
    have hnone : ∀ count, min (min count all)
        (⟨fd.data, fd.pos + fd.rest.length, fd.calls + 1⟩ : Fd).rest.length = 0 := by
      intro count
      rw [hend]
      exact Nat.min_zero _
    have hsecond := Fd.read_upTo hcall (((n : Int) - (0 + fd.rest.length)) % 2 ^ 64).toNat (hnone _)
    rw [hmin] at hfirst
    have hagain : readPass sys off n ⟨fd, buff, 0⟩ = some (.again
        ⟨⟨fd.data, fd.pos + fd.rest.length, fd.calls + 1⟩, buff.store off (fd.rest.take n),
          0 + fd.rest.length⟩) := by
      rw [readPass]
      dsimp only
      rw [hcount, hfirst]
      dsimp only
      rw [if_neg (by omega), if_neg (by omega), Int.add_zero]
    rw [readData, iterate_again hagain, hcallsFor, hmin]
    refine iterate_done ?_ fuel
    rw [readPass]
    dsimp only
    rw [hsecond]
    dsimp only
    rw [if_pos Int.natCast_zero, Int.zero_add]
    rfl
  · have hcallsFor : callsFor n fd.rest = 1 := if_neg hmore
    rw [readData, hcallsFor]
    refine iterate_done ?_ (fuel + 1)
    rw [readPass]
    dsimp only
    rw [hcount, hfirst]
    dsimp only
    by_cases hzero : min n fd.rest.length = 0
    · have hnil : fd.rest.take n = [] := by
        rw [← htake, hzero, List.take_zero]
      rw [hzero, hnil, if_pos Int.natCast_zero, Obj.store_nil]
      rfl
    · rw [if_neg (by omega), if_pos (by omega), Int.add_zero, Int.zero_add]

/-- A header is taken, with as many bytes for its name as the calls are set up to give. -/
theorem getEntryHdr_giving {all : Nat} {fd : Fd} (hh : IsHeader (headerAt fd.data fd.pos))
    (hall : fd.data.length ≤ all) {k : Nat}
    (htakes : Takes (headerAt fd.data fd.pos) (fd.data.drop (fd.pos + 60)) k)
    (hcalls : ∀ i, i < callsAt (headerAt fd.data fd.pos) (fd.data.drop (fd.pos + 60)) →
      sys (fd.calls + i) = .upTo (giving all (headerAt fd.data fd.pos) k i))
    (entry hdr : Obj) {fuel : Nat} (hfuel : 60 < fuel) : ∃ entry',
      archiveGetEntryHdr sys fuel fd entry hdr = some (1, entry', ⟨fd.data, fd.pos + 60 + k,
        fd.calls + callsAt (headerAt fd.data fd.pos) (fd.data.drop (fd.pos + 60))⟩) ∧
      entrySize entry' = sizeLeft (headerAt fd.data fd.pos) := by
  have hrest := headerAt_rest fd
  have hrestlen : fd.rest.length ≤ fd.data.length := by
    rw [Fd.rest, List.length_drop]
    exact Nat.sub_le ..
  generalize headerAt fd.data fd.pos = h at hh hrest htakes hcalls ⊢
  generalize fd.data.drop (fd.pos + 60) = tail at hrest htakes hcalls ⊢
  have hlen := hh.length
  have hbound := hdrLen_bound h
  have htail := rest_behind hrest hh (fd.calls + 1)
  have hlength : fd.rest.length = 60 + tail.length := by
    rw [hrest, List.length_append, hlen]
  -- the header is one call
  have hone : callsFor 60 fd.rest = 1 := if_neg (by omega)
  have hhdrcalls : ∀ i, i < callsFor 60 fd.rest → sys (fd.calls + i) = .upTo all := by
    intro i hi
    rw [hone] at hi
    rw [hcalls i (by rw [callsAt]; omega), giving, if_neg (by omega)]
  have hread := readData_all (hrestlen.trans hall) (by decide) hhdrcalls hdr 0
    (show 2 ≤ fuel by omega)
  rw [hone, hrest, ← hlen, List.take_left, List.length_append, Nat.min_eq_left (by omega), hlen]
    at hread
  rw [getEntryHdr_of_read hh hread]
  by_cases hext : HasExt h
  · have hsize := fun text => entrySize_left entry fd.pos hh.length hext text
    rw [Takes, if_pos hext] at htakes
    rw [callsAt, if_pos hext] at hcalls ⊢
    by_cases hlen0 : 0 ≤ hdrLen h
    · have hnat : hdrLen h = ((hdrLen h).toNat : Nat) := by omega
      rw [if_pos hlen0] at htakes hcalls ⊢
      have htailall : (⟨fd.data, fd.pos + 60, fd.calls + 1⟩ : Fd).rest.length ≤ all := by
        rw [htail]
        omega
      have hnamecalls : ∀ i, i < callsFor (hdrLen h).toNat
          (⟨fd.data, fd.pos + 60, fd.calls + 1⟩ : Fd).rest →
            sys (fd.calls + 1 + i) = .upTo all := by
        intro i hi
        rw [htail] at hi
        rw [Nat.add_assoc, hcalls (1 + i) (by omega), giving, if_neg (by omega)]
      have hname := readData_all htailall (by omega) hnamecalls (numbered entry fd.pos h) entryName
        (show 2 ≤ fuel by omega)
      rw [htail, ← hnat] at hname
      rw [getEntryName_of_read hh hext hname, htakes, ← Nat.add_assoc fd.calls]
      exact ⟨_, rfl, hsize _⟩
    · rw [if_neg hlen0] at htakes hcalls ⊢
      rcases htakes with ⟨hk, hcount, hnone⟩
      have hcall : sys (⟨fd.data, fd.pos + 60, fd.calls + 1⟩ : Fd).calls = .upTo (max 1 k) := by
        refine (hcalls 1 (by decide)).trans ?_
        rw [giving, if_pos ⟨rfl, hext, by omega⟩]
      have hmin : min (min (hdrLen h % 2 ^ 64).toNat (max 1 k))
          (⟨fd.data, fd.pos + 60, fd.calls + 1⟩ : Fd).rest.length = k := by
        rw [htail]
        by_cases hk0 : k = 0
        · rw [hnone hk0, List.length_nil]
          omega
        · omega
      have hname := readData_neg_of_read (by omega) (Fd.read_upTo hcall _ hmin)
        (numbered entry fd.pos h) entryName (show 0 < fuel by omega)
      rw [getEntryName_of_read hh hext hname]
      exact ⟨_, rfl, hsize _⟩
  · rw [Takes, if_neg hext] at htakes
    rw [callsAt, if_neg hext, htakes, getEntryName_plain hh hext _ entry hdr fd.pos hfuel]
    exact ⟨_, rfl, entrySize_plain entry fd.pos hh.length hext _⟩

/-! ## The whole loop -/

theorem archiveOpen_of_read {data : List Byte} {buff : Obj} {fuel calls : Nat}
    (hread : readData sys fuel ⟨data, 0, 0⟩ buff 0 sarmag
      = some ⟨⟨data, 8, calls⟩, buff.store 0 armag, (8 : Nat)⟩) :
    archiveOpen sys fuel data buff = some (some ⟨data, 8, calls⟩) := by
  have hsar : ((8 : Nat) : Int) = sarmag := rfl
  have hmag : (buff.store 0 armag).load 0 sarmag = armag := Obj.load_store buff 0 armag
  rw [archiveOpen, hread]
  dsimp only
  rw [res_natCast _ _ (by decide), if_neg (not_not_intro hsar), if_neg (not_not_intro hmag)]

section Magic

variable {data : List Byte} (hmagic : armag <+: data)
include hmagic

theorem magic_take : data.take sarmag = armag := (List.prefix_iff_eq_take.mp hmagic).symm

theorem archiveOpen_magic (hsys : ReadsFile sys) (buff : Obj) {fuel : Nat} (hfuel : 8 < fuel) :
    ∃ calls, archiveOpen sys fuel data buff = some (some ⟨data, 8, calls⟩) := by
  have hlen : 8 ≤ data.length := hmagic.length_le
  rcases readData_spec hsys ⟨data, 0, 0⟩ buff 0 (n := sarmag) (by decide) hfuel with
    ⟨calls, hread⟩
  refine ⟨calls, archiveOpen_of_read ?_⟩
  have hmin : min sarmag (⟨data, 0, 0⟩ : Fd).rest.length = 8 := Nat.min_eq_left hlen
  rw [hread, hmin]
  exact congrArg (fun bs => some (ReadState.mk _ (buff.store 0 bs) _)) (magic_take hmagic)

/-- If no header leads back to itself, the loop ends. -/
theorem ranlib_ends (hsys : ReadsFile sys) (hback : ¬ LeadsBack (Next data) 8)
    (buff entry : Obj) (hdr : Nat → Obj) {fuel : Nat} (hfuel : 2 ^ 31 ≤ fuel)
    (hlen : data.length < fuel) : ∃ r, ranlib sys fuel data buff entry hdr = some r := by
  rcases archiveOpen_magic hmagic hsys buff (show 8 < fuel by omega) with ⟨calls, hopen⟩
  have hplaces : (Finset.range data.length).card < fuel := by
    rw [Finset.card_range]
    exact hlen
  obtain ⟨r, hr⟩ : ∃ r, iterate (ranlibPass sys fuel hdr) fuel ⟨⟨data, 8, calls⟩, entry, []⟩
      = some r := by
    refine iterate_acyclic (fun s => s.fd.data = data) (fun s => s.fd.pos)
      (Finset.range data.length) ?_ rfl hback hplaces
    rintro s rfl
    rcases ranlibPass_next hsys s hdr hfuel with hdone | ⟨hpos, s', hpass, hdata, hnext⟩
    · exact Or.inl hdone
    · exact Or.inr ⟨Finset.mem_range.mpr hpos, s', hpass, hdata, hnext⟩
  refine ⟨some r, ?_⟩
  rw [ranlib, hopen]
  dsimp only
  rw [hr]
  rfl

/-- If one does, there is a way to read the file on which the loop does not end. -/
theorem ranlib_goes_on (hback : LeadsBack (Next data) 8) :
    ∃ sys, ReadsFile sys ∧ ∀ buff entry hdr fuel, 60 < fuel →
      ranlib sys fuel data buff entry hdr = none := by
  have hlen : 8 ≤ data.length := hmagic.length_le
  rcases exists_path hback with ⟨p, hstart, hpath⟩
  choose hheader k htakes hskip using hpath
  -- the calls for header `i` are block `i`
  rcases exists_blocks
      (fun i => callsAt (headerAt data (p i)) (data.drop (p i + 60)))
      (fun i => by rw [callsAt]; omega)
      (fun i j => giving data.length (headerAt data (p i)) (k i) j) with
    ⟨f, c, hc0, hcsucc, hblock, hvalue⟩
  refine ⟨firstThen data.length f, ?_, ?_⟩
  · intro n
    cases n with
    | zero => exact ⟨data.length, by omega, firstThen_zero _ _⟩
    | succ n =>
        rcases hvalue n with ⟨i, j, hfn⟩
        refine ⟨f n, ?_, firstThen_succ _ _ n⟩
        rw [hfn, giving]
        split <;> omega
  · intro buff entry hdr fuel hfuel
    have hopen : archiveOpen (firstThen data.length f) fuel data buff = some (some ⟨data, 8, 1⟩) := by
      have hone : callsFor sarmag (⟨data, 0, 0⟩ : Fd).rest = 1 := by
        refine if_neg ?_
        rintro ⟨-, hlt⟩
        exact absurd hlen (Nat.not_le_of_lt hlt)
      have hcalls : ∀ i, i < callsFor sarmag (⟨data, 0, 0⟩ : Fd).rest →
          firstThen data.length f (0 + i) = .upTo data.length := by
        intro i hi
        rw [hone] at hi
        rw [Nat.lt_one_iff.mp hi]
        exact firstThen_zero _ _
      have hread := readData_all (Nat.le_refl _) (by decide) hcalls buff 0 (show 2 ≤ fuel by omega)
      have hmin : min sarmag (⟨data, 0, 0⟩ : Fd).rest.length = 8 := Nat.min_eq_left hlen
      rw [hone, hmin] at hread
      refine archiveOpen_of_read (hread.trans ?_)
      exact congrArg (fun bs => some (ReadState.mk _ (buff.store 0 bs) _)) (magic_take hmagic)
    have hloop : iterate (ranlibPass (firstThen data.length f) fuel hdr) fuel
        ⟨⟨data, 8, 1⟩, entry, []⟩ = none := by
      refine iterate_diverges (fun s => ∃ i, s.fd = ⟨data, p i, 1 + c i⟩) ?_ ?_ fuel
      · rintro ⟨fd, e, visited⟩ ⟨i, rfl⟩
        have hcalls : ∀ j, j < callsAt (headerAt data (p i)) (data.drop (p i + 60)) →
            firstThen data.length f (1 + c i + j)
              = .upTo (giving data.length (headerAt data (p i)) (k i) j) := by
          intro j hj
          have hsucc : 1 + c i + j = c i + j + 1 := by omega
          rw [hsucc, firstThen_succ]
          exact congrArg ReadResult.upTo (hblock i j hj)
        have hh : IsHeader (headerAt (⟨data, p i, 1 + c i⟩ : Fd).data (p i)) := hheader i
        rcases getEntryHdr_giving hh (Nat.le_refl _) (htakes i) hcalls e (hdr visited.length)
          hfuel with ⟨entry', hget, hsize⟩
        refine ⟨_, ranlibPass_of_hdr hget, i + 1, ?_⟩
        rw [hskip i, hcsucc i, hsize, ← Nat.add_assoc]
      · refine ⟨0, ?_⟩
        rw [hstart, hc0]
    rw [ranlib, hopen]
    dsimp only
    rw [hloop]
    rfl

/-- **The loop of `ranlib`.** On a file that starts with the magic it ends, however the calls of
`read` that do not fail cut the file, exactly if no header that it can get to leads back to
itself. -/
theorem ranlib_ends_iff : (∀ sys, ReadsFile sys → ∀ buff entry hdr, ∃ n, ∀ fuel, n ≤ fuel →
    ∃ r, ranlib sys fuel data buff entry hdr = some r) ↔ ¬ LeadsBack (Next data) 8 := by
  constructor
  · intro h hback
    rcases ranlib_goes_on hmagic hback with ⟨sys, hsys, hnone⟩
    rcases h sys hsys (fun _ => 0) (fun _ => 0) (fun _ _ => 0) with ⟨n, hn⟩
    rcases hn (n + 61) (by omega) with ⟨r, hr⟩
    rw [hnone _ _ _ _ (by omega)] at hr
    cases hr
  · intro hback sys hsys buff entry hdr
    refine ⟨2 ^ 31 + data.length, fun fuel hfuel => ?_⟩
    exact ranlib_ends hmagic hsys hback buff entry hdr (by omega) (by omega)

end Magic

/-- Behind the file with the short name the one with the extended name: the loop goes from 8 to 70,
and from there one byte too far. -/
theorem demoMembers_forward {a b : Nat} (ha : a = 8 ∨ a = 70 ∨ a = 135)
    (hnext : Next (archive demoMembers.reverse) a b) :
    (b = 8 ∨ b = 70 ∨ b = 135) ∧ a < b := by
  rcases hnext with ⟨hheader, k, htakes, rfl⟩
  rcases ha with rfl | rfl | rfl
  · rw [Takes, if_neg (by decide)] at htakes
    rw [htakes]
    decide
  · rw [Takes, if_pos (by decide), if_pos (by decide)] at htakes
    rw [htakes]
    decide
  · exact absurd hheader.length (by decide)

/-- So it ends on this archive. -/
theorem ranlib_ends_iff_demo : ∃ n, ∀ fuel, n ≤ fuel → ∃ r,
    ranlib demoReads fuel (archive demoMembers.reverse) (fun _ => 0) (fun _ => 0) (fun _ _ => 0)
      = some r :=
  (ranlib_ends_iff (List.prefix_append ..)).mpr
    (not_leadsBack_of_lt (fun pos => pos = 8 ∨ pos = 70 ∨ pos = 135) id
      (fun _ _ => demoMembers_forward) (Or.inl rfl))
    demoReads demoReads_file (fun _ => 0) (fun _ => 0) (fun _ _ => 0)

/-- A header with `-60` for its size, and blanks. -/
def backHeader : List Byte :=
  List.replicate 48 blank ++ ([0x2D, 0x36, 0x30] ++ List.replicate 7 blank) ++ arfmag

/-- The loop takes it again and again. -/
theorem ranlib_ends_counterexample : ¬ ∀ data, armag <+: data → ∀ sys, ReadsFile sys →
    ∀ buff entry hdr, ∃ n, ∀ fuel, n ≤ fuel →
      ∃ r, ranlib sys fuel data buff entry hdr = some r := by
  intro h
  have hstarts : armag <+: armag ++ backHeader := List.prefix_append ..
  have hnext : Next (armag ++ backHeader) 8 8 := by
    refine ⟨⟨by decide, by decide⟩, 0, ?_, ?_⟩
    · rw [Takes, if_neg (by decide)]
    · decide
  rcases ranlib_goes_on hstarts ⟨8, Relation.ReflTransGen.refl, Relation.TransGen.single hnext⟩ with
    ⟨sys, hsys, hnone⟩
  rcases h _ hstarts sys hsys (fun _ => 0) (fun _ => 0) (fun _ _ => 0) with ⟨n, hn⟩
  rcases hn (n + 61) (by omega) with ⟨r, hr⟩
  rw [hnone _ _ _ _ (by omega)] at hr
  cases hr

end StupidOS.Ar
