import StupidOS.Lib.Bytes
import StupidOS.Lib.File
import StupidOS.Lib.Loop
import StupidOS.Lib.Strtol

/-!
# Reading an `ar` archive

`archive.c`, with a 64-bit `long`, `size_t` and `off_t`. A structure on the stack is an `Obj`:
`entry` is a `struct archive_entry_hdr` in the layout of that ABI, `hdr` a `struct arhdr`.
-/

namespace StupidOS.Ar

/-! ## `ar.h` -/

/-- `ARMAG`, `"!<arch>\n"` -/
def armag : List Byte := [0x21, 0x3C, 0x61, 0x72, 0x63, 0x68, 0x3E, 0x0A]

def sarmag : Nat := 8

/-- ``ARFMAG``, a backquote and a newline -/
def arfmag : List Byte := [0x60, 0x0A]

/-- `AR_SYMTAB_NAME`, `"__.SYMDEF"` -/
def arSymtabName : List Byte := [0x5F, 0x5F, 0x2E, 0x53, 0x59, 0x4D, 0x44, 0x45, 0x46]

/-- `AR_EXTNAME`, `"#1/"` -/
def arExtname : List Byte := [0x23, 0x31, 0x2F]

def arExtnameSz : Nat := 3

/-- `sizeof(struct arhdr)` -/
def sarHdr : Nat := 60

/-! ## `struct archive_entry_hdr` -/

/-- Offset of `name` -/
def entryName : Int := 40

def entryOffset (entry : Obj) : Nat := entry.field 0 4
def entrySize (entry : Obj) : Nat := entry.field 32 8

def setOffset (entry : Obj) (v : Int) : Obj := entry.setField 0 4 v
def setDate (entry : Obj) (v : Int) : Obj := entry.setField 8 8 v
def setGid (entry : Obj) (v : Int) : Obj := entry.setField 16 4 v
def setUid (entry : Obj) (v : Int) : Obj := entry.setField 20 4 v
def setMode (entry : Obj) (v : Int) : Obj := entry.setField 24 2 v
def setSize (entry : Obj) (v : Int) : Obj := entry.setField 32 8 v

/-! ## `read_data` -/

/-- The file, the buffer and `total`. -/
structure ReadState where
  fd : Fd
  buff : Obj
  total : Int

variable (sys : Nat → ReadResult)

/-- One pass of the loop. `size - total` is converted to `size_t`. -/
def readPass (off size : Int) (s : ReadState) : Option (Pass ReadState ReadState) :=
  let (rbytes, bytes, fd) := s.fd.read sys ((size - s.total) % 2 ^ 64).toNat
  if rbytes = 0 then some (.done { s with fd })
  else
    let s := ⟨fd, s.buff.store (off + s.total) bytes, s.total + rbytes⟩
    if s.total ≥ size then some (.done s) else some (.again s)

/-- `read_data` into the object `buff` at offset `off` -/
def readData (fuel : Nat) (fd : Fd) (buff : Obj) (off size : Int) : Option ReadState :=
  iterate (readPass sys off size) fuel ⟨fd, buff, 0⟩

/-- The value returned, an `int`. -/
def ReadState.res (s : ReadState) : Int := (BitVec.ofInt 32 s.total).toInt

/-! ## `archive_open` -/

/-- `archive_open` on a file with these contents; `none` stands for -1. -/
def archiveOpen (fuel : Nat) (data : List Byte) (buff : Obj) : Option (Option Fd) :=
  match readData sys fuel ⟨data, 0, 0⟩ buff 0 sarmag with
  | none => none
  | some r =>
    if r.res ≠ sarmag then some none
    else if r.buff.load 0 sarmag ≠ armag then some none
    else some (some r.fd)

/-! ## `archive_get_entry_hdr` -/

/-- `AR_STR_TO_NUM` of the `len` bytes at `src` -/
def arStrToNum (hdr : Obj) (src : Int) (len base : Nat) : Int := strtol (hdr.load src len) base

/-- The numbers of the header, in the order of the source. -/
def setNumbers (entry hdr : Obj) : Obj :=
  let entry := setDate entry (arStrToNum hdr 16 12 10)
  let entry := setUid entry (arStrToNum hdr 28 6 10)
  let entry := setGid entry (arStrToNum hdr 34 6 10)
  let entry := setMode entry (arStrToNum hdr 40 8 8)
  setSize entry (arStrToNum hdr 48 10 10)

/-- One pass of the loop that clears the blanks, from `tmp` down. -/
def trimPass (s : Obj × Int) : Option (Pass (Obj × Int) Obj) :=
  if s.1 s.2 = blank then some (.again (s.1.store s.2 [0], s.2 - 1)) else some (.done s.1)

/-- The last part of `archive_get_entry_hdr`, the name. `atoi` reads on behind the name field,
to the end of the header at most since `ar_fmag` has no digit. -/
def getEntryName (fuel : Nat) (fd : Fd) (entry hdr : Obj) : Option (Int × Obj × Fd) :=
  if hdr.load 0 arExtnameSz = arExtname then
    let res := atoi (hdr.load arExtnameSz 57)
    match readData sys fuel fd entry entryName res with
    | none => none
    | some r =>
      let entry := r.buff.store (entryName + res) [0]
      some (1, setSize entry (entrySize entry - res), r.fd)
  else
    let entry := entry.store entryName (hdr.load 0 16)
    (iterate trimPass fuel (entry, entryName + 15)).map (fun entry => (1, entry, fd))

/-- `archive_get_entry_hdr`; `hdr` is what is on the stack for `hdr`. -/
def archiveGetEntryHdr (fuel : Nat) (fd : Fd) (entry hdr : Obj) : Option (Int × Obj × Fd) :=
  let entry := setOffset entry fd.pos
  match readData sys fuel fd hdr 0 sarHdr with
  | none => none
  | some r =>
    if r.res ≠ sarHdr then
      if r.res = 0 then some (0, entry, r.fd) else some (-1, entry, r.fd)
    else if r.buff.load 58 2 ≠ arfmag then some (-1, entry, r.fd)
    else getEntryName sys fuel r.fd (setNumbers entry r.buff) r.buff

/-! ## `archive_skip_entry` -/

/-- `archive_skip_entry`; the `size_t` is converted to `off_t`. -/
def archiveSkipEntry (fd : Fd) (entry : Obj) : Int × Fd :=
  let size := entrySize entry
  let sz := if size % 2 ≠ 0 then size + 1 else size
  fd.lseekCur (BitVec.ofNat 64 sz).toInt

/-! ## The fields of an entry -/

theorem res_natCast (fd : Fd) (buff : Obj) {n : Nat} (hn : n < 2 ^ 31) :
    (⟨fd, buff, (n : Nat)⟩ : ReadState).res = n := by
  rw [ReadState.res, BitVec.toInt_ofInt, Int.bmod_def]
  dsimp only
  omega

theorem entryOffset_numbers (entry hdr : Obj) (v : Int) :
    entryOffset (setNumbers (setOffset entry v) hdr) = v % 2 ^ 32 := by
  unfold setNumbers setSize setMode setGid setUid setDate
  dsimp only
  rw [entryOffset, Obj.field_setField_apart _ _ (by decide),
    Obj.field_setField_apart _ _ (by decide), Obj.field_setField_apart _ _ (by decide),
    Obj.field_setField_apart _ _ (by decide), Obj.field_setField_apart _ _ (by decide)]
  exact Obj.field_setField entry 0 4 v

theorem entrySize_numbers (entry hdr : Obj) :
    entrySize (setNumbers entry hdr) = arStrToNum hdr 48 10 10 % 2 ^ 64 := Obj.field_setField ..

/-- A store to the name or behind it. -/
theorem entryOffset_store (entry : Obj) {a : Int} (ha : 40 ≤ a) (bs : List Byte) :
    entryOffset (entry.store a bs) = entryOffset entry :=
  Obj.field_store_apart entry (Or.inl (by omega))

theorem entrySize_store (entry : Obj) {a : Int} (ha : 40 ≤ a) (bs : List Byte) :
    entrySize (entry.store a bs) = entrySize entry :=
  Obj.field_store_apart entry (Or.inl (by omega))

theorem entryOffset_setSize (entry : Obj) (v : Int) :
    entryOffset (setSize entry v) = entryOffset entry :=
  Obj.field_setField_apart entry v (by decide)

theorem entrySize_setSize (entry : Obj) (v : Int) :
    entrySize (setSize entry v) = v % 2 ^ 64 := Obj.field_setField ..

/-! ## What the functions do on a regular file -/

section RegularFile

variable {sys} (hsys : ReadsFile sys)
include hsys

/-- `total` is `t`, and the buffer holds the first `t` bytes of what was left. -/
def ReadTo (fd : Fd) (buff : Obj) (off : Int) (n : Nat) (k : Nat) (s : ReadState) : Prop :=
  ∃ t calls, t ≤ n ∧ t ≤ fd.rest.length ∧ k = n - t ∧
    s = ⟨⟨fd.data, fd.pos + t, calls⟩, buff.store off (fd.rest.take t), t⟩

theorem readPass_step {fd : Fd} {buff : Obj} {off : Int} {n : Nat} (hn : n < 2 ^ 63) (k : Nat)
    (s : ReadState) (hs : ReadTo fd buff off n k s) :
    (∃ r, readPass sys off n s = some (.done r) ∧
      ReadTo fd buff off n (n - min n fd.rest.length) r) ∨
    (∃ s' k', readPass sys off n s = some (.again s') ∧ k' < k ∧
      ReadTo fd buff off n k' s') := by
  rcases hs with ⟨t, calls, htn, htrest, rfl, rfl⟩
  have hcount : (((n : Int) - t) % 2 ^ 64).toNat = n - t := by omega
  have hrest : (⟨fd.data, fd.pos + t, calls⟩ : Fd).rest = fd.rest.drop t := by
    rw [Fd.rest, Fd.rest, List.drop_drop]
  rcases Fd.read_spec hsys ⟨fd.data, fd.pos + t, calls⟩ (n - t) with
    ⟨k, hk, hkrest, hk0, hread⟩
  rw [hrest, List.length_drop] at hkrest
  unfold readPass
  dsimp only
  rw [hcount, hread, hrest]
  dsimp only
  by_cases h0 : k = 0
  · -- the end of the file, or `n` bytes are there
    subst h0
    rw [if_pos Int.natCast_zero]
    refine Or.inl ⟨_, rfl, t, calls + 1, htn, htrest, ?_, rfl⟩
    rcases hk0 rfl with hfull | hend
    · omega
    · rw [hrest, List.drop_eq_nil_iff] at hend
      omega
  · have hlen : (fd.rest.take t).length = t := by
      rw [List.length_take]
      omega
    have hstore : (buff.store off (fd.rest.take t)).store (off + t) ((fd.rest.drop t).take k)
        = buff.store off (fd.rest.take (t + k)) := by
      have happend := Obj.store_append buff off (fd.rest.take t) ((fd.rest.drop t).take k)
      rw [hlen] at happend
      rw [happend, List.take_add]
    have hnext : ReadTo fd buff off n (n - (t + k))
        ⟨⟨fd.data, fd.pos + t + k, calls + 1⟩,
          (buff.store off (fd.rest.take t)).store (off + t) ((fd.rest.drop t).take k),
          (t : Int) + k⟩ := by
      refine ⟨t + k, calls + 1, by omega, by omega, rfl, ?_⟩
      rw [hstore, Nat.add_assoc, Int.natCast_add]
    rw [if_neg (by omega)]
    by_cases hge : (t : Int) + k ≥ n
    · rw [if_pos hge]
      refine Or.inl ⟨_, rfl, ?_⟩
      have hmin : n - min n fd.rest.length = n - (t + k) := by omega
      rw [hmin]
      exact hnext
    · rw [if_neg hge]
      exact Or.inr ⟨_, n - (t + k), rfl, by omega, hnext⟩

/-- `read_data` stores what is left of the file, up to `n` bytes. -/
theorem readData_spec (fd : Fd) (buff : Obj) (off : Int) {n fuel : Nat} (hn : n < 2 ^ 63)
    (hfuel : n < fuel) : ∃ calls, readData sys fuel fd buff off n
      = some ⟨⟨fd.data, fd.pos + min n fd.rest.length, calls⟩,
          buff.store off (fd.rest.take n), (min n fd.rest.length : Nat)⟩ := by
  have hstart : ReadTo fd buff off n n ⟨fd, buff, 0⟩ := by
    refine ⟨0, fd.calls, Nat.zero_le _, Nat.zero_le _, rfl, ?_⟩
    rw [List.take_zero, Obj.store_nil]
    rfl
  rcases iterate_total (ReadTo fd buff off n) _ (readPass_step hsys hn) hstart hfuel with
    ⟨r, hr, t, calls, htn, htrest, hmin, rfl⟩
  have ht : t = min n fd.rest.length := by omega
  have htake : fd.rest.take t = fd.rest.take n := by
    rw [ht, ← List.take_take, List.take_length]
  refine ⟨calls, ?_⟩
  rw [readData, hr, htake, ht]

/-! ### `archive_get_entry_hdr` -/

/-- At the end of the file. -/
theorem getEntryHdr_end {fd : Fd} (hrest : fd.rest = []) (entry hdr : Obj) {fuel : Nat}
    (hfuel : 60 < fuel) : ∃ fd', archiveGetEntryHdr sys fuel fd entry hdr
      = some (0, setOffset entry fd.pos, fd') := by
  rcases readData_spec hsys fd hdr 0 (n := sarHdr) (by decide) hfuel with ⟨calls, hread⟩
  have hlen : min sarHdr fd.rest.length = 0 := by
    rw [hrest]
    rfl
  rw [hlen] at hread
  have hne : ((0 : Nat) : Int) ≠ sarHdr := by decide
  unfold archiveGetEntryHdr
  dsimp only
  rw [hread]
  dsimp only
  rw [res_natCast _ _ (by decide), if_pos hne, if_pos Int.natCast_zero]
  exact ⟨_, rfl⟩

/-- A header that is cut off, or does not end as it should. -/
def BadHeader (rest : List Byte) : Prop :=
  rest ≠ [] ∧ (rest.length < 60 ∨ rest[58]? ≠ some 0x60 ∨ rest[59]? ≠ some 0x0A)

theorem getEntryHdr_bad {fd : Fd} (hbad : BadHeader fd.rest) (entry hdr : Obj) {fuel : Nat}
    (hfuel : 60 < fuel) : ∃ fd', archiveGetEntryHdr sys fuel fd entry hdr
      = some (-1, setOffset entry fd.pos, fd') := by
  rcases readData_spec hsys fd hdr 0 (n := sarHdr) (by decide) hfuel with ⟨calls, hread⟩
  have hpos : 0 < fd.rest.length := List.length_pos_iff.mpr hbad.1
  have hsar : sarHdr = 60 := rfl
  unfold archiveGetEntryHdr
  dsimp only
  rw [hread]
  dsimp only
  rw [res_natCast _ _ (by omega)]
  by_cases hshort : fd.rest.length < 60
  · rw [if_pos (by omega), if_neg (by omega)]
    exact ⟨_, rfl⟩
  · have hmin : min sarHdr fd.rest.length = 60 := by omega
    have hmag : ¬ (hdr.store 0 (fd.rest.take sarHdr)).load 58 2 = arfmag := by
      intro heq
      have hlen : 58 + 2 ≤ (fd.rest.take sarHdr).length := by
        rw [List.length_take]
        omega
      have hload := Obj.load_store_part hdr 0 hlen
      have hparts := hload.symm.trans heq
      have h58 := congrArg (fun l : List Byte => l[0]?) hparts
      have h59 := congrArg (fun l : List Byte => l[1]?) hparts
      simp only [List.getElem?_take_of_lt, List.getElem?_drop, hsar, Nat.zero_lt_succ,
        Nat.one_lt_two, Nat.reduceAdd, Nat.reduceLT] at h58 h59
      rcases hbad.2 with hlt | hne | hne
      · exact hshort hlt
      · exact hne h58
      · exact hne h59
    rw [hmin, if_neg (by decide), if_pos hmag]
    exact ⟨_, rfl⟩

end RegularFile

end StupidOS.Ar
