import Mathlib.Data.List.DropRight
import StupidOS.Ar.Archive

/-!
# Any header of an archive (`archive.c`)

What `archive_get_entry_hdr` leaves for 60 bytes that end in `ARFMAG`, whatever the text fields
contain: the numbers that `strtol` and `atoi` make of them, a name without its blanks, or an
extended name with any length.
-/

namespace StupidOS.Ar

/-! ## The text fields -/

/-- `strtol` of `ar_size` -/
def hdrSize (h : List Byte) : Int := strtol ((h.drop 48).take 10) 10

/-- Whether the name is an extended one. -/
def HasExt (h : List Byte) : Prop := h.take 3 = arExtname

instance (h : List Byte) : Decidable (HasExt h) := inferInstanceAs (Decidable (_ = _))

/-- `atoi` of what follows `AR_EXTNAME`. -/
def hdrLen (h : List Byte) : Int := atoi (h.drop 3)

/-- A header as `archive_get_entry_hdr` accepts it. -/
structure IsHeader (h : List Byte) : Prop where
  length : h.length = 60
  mag : h.drop 58 = arfmag

/-- `name` as it is left in the field, with a NUL for each blank at its end. -/
def cleared (name : List Byte) : List Byte :=
  name.rdropWhile (· = blank) ++
    List.replicate (name.length - (name.rdropWhile (· = blank)).length) 0

theorem strtolDigits_lt (cs : List Byte) (acc : Nat) :
    strtolDigits 10 cs acc < (acc + 1) * 10 ^ cs.length := by
  induction cs generalizing acc with
  | nil =>
      rw [strtolDigits, List.length_nil]
      omega
  | cons c cs ih =>
      have hpow : 10 ^ (cs.length + 1) = 10 * 10 ^ cs.length := Nat.pow_succ'
      have hpos : 0 < 10 ^ cs.length := Nat.pow_pos (by decide)
      rw [strtolDigits, List.length_cons, hpow, ← Nat.mul_assoc]
      split
      · calc acc < (acc + 1) * 10 := by omega
          _ ≤ (acc + 1) * 10 * 10 ^ cs.length := Nat.le_mul_of_pos_right _ hpos
      next d hd =>
        have hlt : d < 10 := by
          rw [digitVal] at hd
          split at hd
          next hrange =>
            rw [← Option.some.inj hd]
            exact hrange.2
          · cases hd
        refine Nat.lt_of_lt_of_le (ih (10 * acc + d)) (Nat.mul_le_mul_right _ ?_)
        omega

theorem clampLong_bound {v : Int} {n : Nat} (h : -n < v ∧ v < n) :
    -(n : Int) < clampLong v ∧ clampLong v < n := by
  rw [clampLong]
  omega

/-- A text of `n` bytes is not a number of more than `n` digits. -/
theorem strtol_bound {str : List Byte} {n : Nat} (hlen : str.length ≤ n) :
    -((10 ^ n : Nat) : Int) < strtol str 10 ∧ strtol str 10 < (10 ^ n : Nat) := by
  have hpos : 0 < 10 ^ n := Nat.pow_pos (by decide)
  have hdigits : ∀ cs : List Byte, cs.length ≤ n → strtolDigits 10 cs 0 < 10 ^ n := by
    intro cs hcs
    have hlt := strtolDigits_lt cs 0
    rw [Nat.zero_add, Nat.one_mul] at hlt
    exact Nat.lt_of_lt_of_le hlt (Nat.pow_le_pow_right (by decide) hcs)
  have hdrop := (List.dropWhile_suffix isSpace (l := str)).length_le
  rw [strtol]
  split
  next => omega
  next c cs htext =>
    rw [htext, List.length_cons] at hdrop
    have htail := hdigits cs (by omega)
    have hall := hdigits (c :: cs) (by rw [List.length_cons]; omega)
    split
    · exact clampLong_bound (by omega)
    · split <;> exact clampLong_bound (by omega)

theorem hdrSize_bound (h : List Byte) : -(10 : Int) ^ 10 < hdrSize h ∧ hdrSize h < (10 : Int) ^ 10 := by
  have hlen : ((h.drop 48).take 10).length ≤ 10 := by
    rw [List.length_take]
    omega
  have hbound := strtol_bound hlen
  rw [hdrSize]
  omega

theorem hdrLen_bound (h : List Byte) : -2 ^ 31 ≤ hdrLen h ∧ hdrLen h < 2 ^ 31 := by
  rw [hdrLen, atoi, BitVec.toInt_ofInt, Int.bmod_def]
  omega

/-! ## The blanks of a name -/

theorem cleared_nil : cleared [] = [] := rfl

theorem cleared_blank (name : List Byte) : cleared (name ++ [blank]) = cleared name ++ [0] := by
  have hstarts := (List.rdropWhile_prefix (fun b : Byte => decide (b = blank)) (l := name)).length_le
  rw [cleared, cleared, List.rdropWhile_concat_pos _ _ _ (by decide), List.length_append,
    List.length_singleton, Nat.sub_add_comm hstarts, List.replicate_succ', List.append_assoc]

theorem cleared_other (name : List Byte) {c : Byte} (hc : c ≠ blank) :
    cleared (name ++ [c]) = name ++ [c] := by
  rw [cleared, List.rdropWhile_concat_neg _ _ _ (by simp [hc]), Nat.sub_self, List.replicate_zero,
    List.append_nil]

@[simp] theorem length_cleared (name : List Byte) : (cleared name).length = name.length := by
  have hstarts := (List.rdropWhile_prefix (fun b : Byte => decide (b = blank)) (l := name)).length_le
  rw [cleared, List.length_append, List.length_replicate]
  omega

/-- From the end of a name, the loop clears its blanks and stops in the name, or in front of it. -/
theorem trim_cleared (name : List Byte) {entry : Obj} (htop : entry 39 ≠ blank)
    (hname : entry.load 40 name.length = name) {fuel : Nat} (hfuel : name.length < fuel) :
    iterate trimPass fuel (entry, 39 + name.length) = some (entry.store 40 (cleared name)) := by
  -- from the last byte to the first
  induction name using List.reverseRecOn generalizing entry fuel with
  | nil =>
      obtain ⟨fuel, rfl⟩ : ∃ k, fuel = k + 1 := ⟨fuel - 1, by omega⟩
      have hpass : trimPass (entry, 39) = some (.done entry) := if_neg htop
      rw [cleared_nil, Obj.store_nil]
      exact iterate_done hpass fuel
  | append_singleton name c ih =>
      rw [List.length_append, List.length_singleton] at hname hfuel ⊢
      obtain ⟨fuel, rfl⟩ : ∃ k, fuel = k + 1 := ⟨fuel - 1, by omega⟩
      have haddr : (39 : Int) + ((name.length + 1 : Nat) : Int) = 40 + name.length := by omega
      have hparts := Obj.load_append entry 40 name.length 1
      rw [hname, Obj.load_one] at hparts
      rcases List.append_inj hparts.symm (Obj.length_load ..) with ⟨hfirst, hlast⟩
      have hlast := List.singleton_inj.mp hlast
      rw [haddr]
      by_cases hc : c = blank
      · have htmp : (40 : Int) + name.length - 1 = 39 + name.length := by omega
        have hpass : trimPass (entry, 40 + name.length)
            = some (.again (entry.store (40 + name.length) [0], 39 + name.length)) := by
          rw [← htmp]
          exact if_pos (hlast.trans hc)
        have hbefore : (entry.store (40 + name.length) [0]).load 40 name.length = name :=
          (Obj.load_store_apart entry (Or.inl (Int.le_refl _))).trans hfirst
        have htop' : (entry.store (40 + name.length) [0]) 39 ≠ blank := by
          rw [Obj.store_out entry (Or.inl (by omega))]
          exact htop
        rw [iterate_again hpass, ih htop' hbefore (by omega), hc, cleared_blank,
          ← Obj.store_append, length_cleared,
          Obj.store_comm entry (Or.inr (by rw [length_cleared]))]
      · have hother : ¬ entry (40 + name.length) = blank := by
          rw [hlast]
          exact hc
        have hpass : trimPass (entry, 40 + name.length) = some (.done entry) := if_neg hother
        rw [iterate_done hpass, cleared_other name hc, ← hname, Obj.store_load]

/-! ## The numbers -/

/-- The entry with the position and the numbers of the header. -/
def numbered (entry : Obj) (pos : Int) (h : List Byte) : Obj :=
  setNumbers (setOffset entry pos) (Obj.store (fun _ => 0) 0 h)

/-- `setNumbers` reads the text fields only. -/
theorem setNumbers_congr (entry : Obj) {hdr hdr' : Obj}
    (h : ∀ k n : Nat, k + n ≤ 60 → hdr.load k n = hdr'.load k n) :
    setNumbers entry hdr = setNumbers entry hdr' := by
  have hdate : hdr.load 16 12 = hdr'.load 16 12 := h 16 12 (by decide)
  have huid : hdr.load 28 6 = hdr'.load 28 6 := h 28 6 (by decide)
  have hgid : hdr.load 34 6 = hdr'.load 34 6 := h 34 6 (by decide)
  have hmode : hdr.load 40 8 = hdr'.load 40 8 := h 40 8 (by decide)
  have hsize : hdr.load 48 10 = hdr'.load 48 10 := h 48 10 (by decide)
  simp only [setNumbers, arStrToNum, hdate, huid, hgid, hmode, hsize]

namespace IsHeader

variable {h : List Byte} (hh : IsHeader h) (hdr : Obj)
include hh

theorem load {k n : Nat} (hkn : k + n ≤ 60) : (hdr.store 0 h).load k n = (h.drop k).take n := by
  have hlen := hh.length
  rw [← Obj.load_store_part hdr 0 (by omega), Int.zero_add]

theorem load_name : (hdr.store 0 h).load 0 16 = h.take 16 := hh.load hdr (by decide)

theorem load_ext : (hdr.store 0 h).load 0 arExtnameSz = h.take 3 := hh.load hdr (by decide)

theorem load_len : (hdr.store 0 h).load arExtnameSz 57 = h.drop 3 := by
  have hlen := hh.length
  exact (hh.load hdr (k := 3) (by decide)).trans
    (List.take_of_length_le (by rw [List.length_drop]; omega))

theorem load_mag : (hdr.store 0 h).load 58 2 = arfmag := by
  have hlen := hh.length
  rw [← hh.mag]
  exact (hh.load hdr (k := 58) (by decide)).trans
    (List.take_of_length_le (by rw [List.length_drop]; omega))

theorem setNumbers_eq (entry : Obj) (pos : Int) :
    setNumbers (setOffset entry pos) (hdr.store 0 h) = numbered entry pos h := by
  apply setNumbers_congr
  intro k n hkn
  rw [hh.load hdr hkn, hh.load _ hkn]

end IsHeader

/-- The numbers are in front of the name. -/
theorem numbered_name (entry : Obj) (pos : Int) (h : List Byte) {x : Int} (hx : 40 ≤ x) :
    numbered entry pos h x = entry x := by
  unfold numbered setNumbers setSize setMode setGid setUid setDate setOffset Obj.setField
  rw [Obj.store_out _ (Or.inr (by rw [length_leBytes]; omega)),
    Obj.store_out _ (Or.inr (by rw [length_leBytes]; omega)),
    Obj.store_out _ (Or.inr (by rw [length_leBytes]; omega)),
    Obj.store_out _ (Or.inr (by rw [length_leBytes]; omega)),
    Obj.store_out _ (Or.inr (by rw [length_leBytes]; omega)),
    Obj.store_out _ (Or.inr (by rw [length_leBytes]; omega))]

theorem entrySize_numbered (entry : Obj) (pos : Int) {h : List Byte} (hh : h.length = 60) :
    (entrySize (numbered entry pos h) : Int) = hdrSize h % 2 ^ 64 := by
  have hload := Obj.load_store_part (fun _ => 0) 0 (show 48 + 10 ≤ h.length by omega)
  rw [numbered, entrySize_numbers, arStrToNum, hdrSize, ← hload]
  rfl

/-- The byte in front of the name is not a blank, whatever the size. -/
theorem numbered_top (entry : Obj) (pos : Int) {h : List Byte} (hh : h.length = 60) :
    numbered entry pos h 39 ≠ blank := by
  intro hblank
  have hsize := entrySize_numbered entry pos hh
  have hbound := hdrSize_bound h
  have hsucc : (numbered entry pos h).field 32 8 = _ := Obj.field_succ (numbered entry pos h) 32 7
  have hlow := ofLe_lt ((numbered entry pos h).load 32 7)
  have haddr : (32 : Int) + (7 : Nat) = 39 := rfl
  have hval : blank.toNat = 32 := rfl
  rw [Obj.length_load, ← Obj.field] at hlow
  rw [haddr, hblank, hval] at hsucc
  rw [entrySize] at hsize
  omega

/-! ## What the functions leave -/

/-- The entry with `text` for its name, as an extended name of length `len`. -/
def named (entry : Obj) (len : Int) (text : List Byte) : Obj :=
  let entry := (entry.store entryName text).store (entryName + len) [0]
  setSize entry (entrySize entry - len)

theorem entryOffset_named (entry : Obj) (len : Nat) (text : List Byte) :
    entryOffset (named entry len text) = entryOffset entry := by
  rw [named, entryOffset_setSize, entryOffset_store _ (by rw [entryName]; omega),
    entryOffset_store _ (by decide)]

theorem entrySize_named (entry : Obj) (len : Nat) (text : List Byte) :
    (entrySize (named entry len text) : Int) = ((entrySize entry : Int) - len) % 2 ^ 64 := by
  have hsize : entrySize ((entry.store entryName text).store (entryName + len) [0])
      = entrySize entry := by
    rw [entrySize_store _ (by rw [entryName]; omega), entrySize_store _ (by decide)]
  rw [← hsize]
  exact entrySize_setSize ..

section RegularFile

variable {sys : Nat → ReadResult} (hsys : ReadsFile sys)
include hsys

omit hsys in
/-- With a negative size, `read_data` is one call of `read`. -/
theorem readData_neg_of_read {fd : Fd} {size : Int} (hneg : size < 0) {k : Nat}
    (hread : fd.read sys (size % 2 ^ 64).toNat
      = ((k : Int), fd.rest.take k, ⟨fd.data, fd.pos + k, fd.calls + 1⟩))
    (buff : Obj) (off : Int) {fuel : Nat} (hfuel : 0 < fuel) :
    readData sys fuel fd buff off size
      = some ⟨⟨fd.data, fd.pos + k, fd.calls + 1⟩, buff.store off (fd.rest.take k), (k : Nat)⟩ := by
  obtain ⟨fuel, rfl⟩ : ∃ n, fuel = n + 1 := ⟨fuel - 1, by omega⟩
  refine iterate_done ?_ fuel
  rw [readPass, Int.sub_zero, hread]
  dsimp only
  by_cases hend : (k : Int) = 0
  · rw [if_pos hend, Int.natCast_eq_zero.mp hend, List.take_zero, Obj.store_nil]
    rfl
  · rw [if_neg hend, if_pos (by omega), Int.add_zero, Int.zero_add]

theorem readData_neg (fd : Fd) (buff : Obj) (off : Int) {size : Int} (hneg : size < 0)
    (hsize : -2 ^ 31 ≤ size) {fuel : Nat} (hfuel : 0 < fuel) : ∃ k calls, k ≤ fd.rest.length ∧
      (k : Int) ≤ size % 2 ^ 64 ∧ (k = 0 → fd.rest = []) ∧ readData sys fuel fd buff off size
        = some ⟨⟨fd.data, fd.pos + k, calls⟩, buff.store off (fd.rest.take k), (k : Nat)⟩ := by
  have hcount : (size % 2 ^ 64).toNat ≠ 0 := by omega
  rcases Fd.read_spec hsys fd (size % 2 ^ 64).toNat with ⟨k, hle, hk, hzero, hread⟩
  exact ⟨k, fd.calls + 1, hk, by omega, fun h => (hzero h).resolve_left hcount,
    readData_neg_of_read hneg hread buff off hfuel⟩

variable {fd : Fd} {h tail : List Byte} (hrest : fd.rest = h ++ tail) (hh : IsHeader h)
include hrest hh

/-- The header is read whole. -/
theorem readData_header (hdr : Obj) {fuel : Nat} (hfuel : 60 < fuel) :
    ∃ calls, readData sys fuel fd hdr 0 sarHdr
      = some ⟨⟨fd.data, fd.pos + 60, calls⟩, hdr.store 0 h, (60 : Nat)⟩ := by
  have hlen := hh.length
  have hsar : sarHdr = 60 := rfl
  rcases readData_spec hsys fd hdr 0 (n := sarHdr) (by decide) hfuel with ⟨calls, hread⟩
  rw [hrest, hsar, ← hlen, List.take_left, List.length_append, Nat.min_eq_left (by omega), hlen]
    at hread
  exact ⟨calls, hread⟩

omit hsys hrest in
/-- What `archive_get_entry_hdr` does once the header is read. -/
theorem getEntryHdr_of_read {entry hdr : Obj} {fuel calls : Nat}
    (hread : readData sys fuel fd hdr 0 sarHdr
      = some ⟨⟨fd.data, fd.pos + 60, calls⟩, hdr.store 0 h, (60 : Nat)⟩) :
    archiveGetEntryHdr sys fuel fd entry hdr = getEntryName sys fuel
      ⟨fd.data, fd.pos + 60, calls⟩ (numbered entry fd.pos h) (hdr.store 0 h) := by
  unfold archiveGetEntryHdr
  dsimp only
  rw [hread]
  dsimp only
  rw [res_natCast _ _ (by decide), if_neg (by decide), if_neg (not_not_intro (hh.load_mag hdr)),
    hh.setNumbers_eq]

omit hsys hrest in
/-- What it does with a short name. -/
theorem getEntryName_plain (hplain : ¬ HasExt h) (fd : Fd) (entry hdr : Obj) (pos : Int)
    {fuel : Nat} (hfuel : 60 < fuel) :
    getEntryName sys fuel fd (numbered entry pos h) (hdr.store 0 h)
      = some (1, (numbered entry pos h).store entryName (cleared (h.take 16)), fd) := by
  have hlen : (h.take 16).length = 16 := by
    rw [List.length_take, hh.length]
    rfl
  have htop : ((numbered entry pos h).store entryName (h.take 16)) 39 ≠ blank := by
    rw [Obj.store_out _ (Or.inl (by decide))]
    exact numbered_top entry pos hh.length
  have hname := Obj.load_store (numbered entry pos h) entryName (h.take 16)
  have htrim := trim_cleared (h.take 16) htop hname (show (h.take 16).length < fuel by omega)
  have hplain' : ¬ (hdr.store 0 h).load 0 arExtnameSz = arExtname := by
    rw [hh.load_ext]
    exact hplain
  have hover := Obj.store_over (numbered entry pos h) entryName
    (Nat.le_of_eq (length_cleared (h.take 16)).symm)
  rw [hlen] at htrim
  rw [getEntryName, if_neg hplain', hh.load_name]
  change (iterate trimPass fuel (_, 39 + ((16 : Nat) : Int))).map _ = _
  rw [htrim]
  exact congrArg (fun e => some ((1 : Int), e, _)) hover

omit hsys hrest in
/-- What it does with an extended name once that is read. -/
theorem getEntryName_of_read (hext : HasExt h) {fd fd' : Fd} {entry hdr : Obj} {text : List Byte}
    {total : Int} {fuel : Nat} (hread : readData sys fuel fd entry entryName (hdrLen h)
      = some ⟨fd', entry.store entryName text, total⟩) :
    getEntryName sys fuel fd entry (hdr.store 0 h) = some (1, named entry (hdrLen h) text, fd') := by
  have hext' : (hdr.store 0 h).load 0 arExtnameSz = arExtname := by
    rw [hh.load_ext]
    exact hext
  rw [getEntryName, if_pos hext', hh.load_len, ← hdrLen]
  dsimp only
  rw [hread]
  rfl

omit hsys in
theorem rest_behind (calls : Nat) : (⟨fd.data, fd.pos + 60, calls⟩ : Fd).rest = tail := by
  rw [Fd.rest, ← List.drop_drop]
  change fd.rest.drop 60 = tail
  rw [hrest, List.drop_left' hh.length]

/-- A short name. -/
theorem getEntryHdr_short (hplain : ¬ HasExt h) (entry hdr : Obj) {fuel : Nat}
    (hfuel : 60 < fuel) : ∃ calls, archiveGetEntryHdr sys fuel fd entry hdr
      = some (1, (numbered entry fd.pos h).store entryName (cleared (h.take 16)),
        ⟨fd.data, fd.pos + 60, calls⟩) := by
  rcases readData_header hsys hrest hh hdr hfuel with ⟨calls, hread⟩
  exact ⟨calls, (getEntryHdr_of_read hh hread).trans
    (getEntryName_plain hh hplain _ entry hdr fd.pos hfuel)⟩

/-- An extended name. -/
theorem getEntryHdr_ext (hext : HasExt h) {len : Nat} (hhlen : hdrLen h = len) (entry hdr : Obj)
    {fuel : Nat} (hfuel : 60 < fuel) (hfuel' : len < fuel) :
    ∃ calls, archiveGetEntryHdr sys fuel fd entry hdr
      = some (1, named (numbered entry fd.pos h) len (tail.take len),
        ⟨fd.data, fd.pos + 60 + min len tail.length, calls⟩) := by
  have hbound := hdrLen_bound h
  rcases readData_header hsys hrest hh hdr hfuel with ⟨calls, hread⟩
  rcases readData_spec hsys ⟨fd.data, fd.pos + 60, calls⟩ (numbered entry fd.pos h) entryName
    (show len < 2 ^ 63 by omega) hfuel' with ⟨calls', hname⟩
  rw [rest_behind hrest hh, ← hhlen] at hname
  rw [getEntryHdr_of_read hh hread, getEntryName_of_read hh hext hname, hhlen]
  exact ⟨calls', rfl⟩

/-- A name with a negative length. -/
theorem getEntryHdr_neg (hext : HasExt h) (hneg : hdrLen h < 0) (entry hdr : Obj)
    {fuel : Nat} (hfuel : 60 < fuel) : ∃ k calls, k ≤ tail.length ∧
      (k : Int) ≤ hdrLen h % 2 ^ 64 ∧ (k = 0 → tail = []) ∧
      archiveGetEntryHdr sys fuel fd entry hdr
        = some (1, named (numbered entry fd.pos h) (hdrLen h) (tail.take k),
          ⟨fd.data, fd.pos + 60 + k, calls⟩) := by
  rcases readData_header hsys hrest hh hdr hfuel with ⟨calls, hread⟩
  rcases readData_neg hsys ⟨fd.data, fd.pos + 60, calls⟩ (numbered entry fd.pos h) entryName hneg
    (hdrLen_bound h).1 (show 0 < fuel by omega) with ⟨k, calls', hk, hcount, hzero, hname⟩
  rw [rest_behind hrest hh] at hk hzero hname
  refine ⟨k, calls', hk, hcount, hzero, ?_⟩
  rw [getEntryHdr_of_read hh hread, getEntryName_of_read hh hext hname]

end RegularFile

end StupidOS.Ar
