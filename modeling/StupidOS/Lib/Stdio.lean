import Mathlib.Logic.Function.Basic
import Mathlib.Tactic.Common
import StupidOS.Lib.Word

/-!
# Streams on files

Files by name, and the streams that `fopen` made for them, each with a position. A stream is
known by its number; one that was closed stays closed, and using it, like using the null pointer,
has no result.

What the operating system does beyond that is left open (`Os`): a call may fail, and a transfer
may end early. Streams are buffered, so that two of them on one file need not see each other's
writes: only a stream that is alone on its file is sure to read what is in it (`Alone`).
-/

namespace StupidOS.Stdio

/-! ## Files and streams -/

/-- An open stream. -/
structure Stream (F : Type) where
  file : F
  pos : Nat

/-- The files, and the streams by number. -/
structure Files (F : Type) where
  streams : List (Option (Stream F))
  data : F → Option (List Byte)

/-- What the operating system answers: which calls succeed, after how many bytes a transfer ends
with an error, and what is found in a file that is open more than once. -/
structure Os where
  fopen : Bool
  fseek : Bool
  ftell : Bool
  limit : Option Nat
  found : List Byte

/-- How many of `n` bytes are transferred. -/
def Os.cut (os : Os) (n : Nat) : Nat :=
  match os.limit with
  | none => n
  | some k => min k n

section Operations

variable {F : Type}

/-- The stream with a number, if it is open. -/
def Files.live (x : Files F) (fp : Nat) : Option (Stream F) := x.streams[fp]?.join

/-- The file that it is open on. -/
def Files.fileOf (x : Files F) (fp : Nat) : Option F := (x.live fp).map Stream.file

/-- No other stream is open on the file. -/
def Files.Alone (x : Files F) (fp : Nat) (f : F) : Prop :=
  ∀ i, i < x.streams.length → x.fileOf i = some f → i = fp

instance [DecidableEq F] (x : Files F) (fp : Nat) (f : F) : Decidable (x.Alone fp f) :=
  inferInstanceAs (Decidable (∀ i, i < x.streams.length → x.fileOf i = some f → i = fp))

/-- Move a stream. -/
def Files.moveTo (x : Files F) (fp : Nat) (st : Stream F) (pos : Nat) : Files F :=
  { x with streams := x.streams.set fp (some { st with pos := pos }) }

/-- `bs` with `put` at `off`; a gap is filled with zeroes. -/
def overlay (bs : List Byte) (off : Nat) (put : List Byte) : List Byte :=
  if put = [] then bs
  else (bs ++ List.replicate (off - bs.length) 0).take off ++ put ++ bs.drop (off + put.length)

variable [DecidableEq F] (os : Os) (x : Files F)

/-- `fopen` with `"r+b"`. -/
def fopen (file : F) : Option Nat × Files F :=
  if os.fopen ∧ (x.data file).isSome then
    (some x.streams.length, { x with streams := x.streams ++ [some ⟨file, 0⟩] })
  else (none, x)

/-- `fclose` -/
def fclose (fp : Nat) : Option (Files F) :=
  (x.live fp).map fun _ => { x with streams := x.streams.set fp none }

/-- `fseek` with `SEEK_SET`. -/
def fseek (fp : Option Nat) (off : Int) : Option (Int × Files F) :=
  match fp with
  | none => none
  | some fp =>
    match x.live fp with
    | none => none
    | some st => some (if os.fseek ∧ 0 ≤ off then (0, x.moveTo fp st off.toNat) else (-1, x))

/-- `fseek` to offset 0 with `SEEK_END`. -/
def fseekEnd (fp : Nat) : Option (Int × Files F) :=
  match x.live fp with
  | none => none
  | some st =>
    some (if os.fseek then (0, x.moveTo fp st ((x.data st.file).getD []).length) else (-1, x))

/-- `ftell` -/
def ftell (fp : Nat) : Option Int :=
  (x.live fp).map fun st => if os.ftell then (st.pos : Int) else -1

/-- What a stream finds in its file. -/
def Files.contents (fp : Nat) (f : F) : List Byte :=
  if x.Alone fp f then (x.data f).getD [] else os.found

/-- `fread` of `n` items: their number, and the bytes. -/
def fread (fp : Option Nat) (size n : Nat) : Option (Nat × List Byte × Files F) :=
  match fp with
  | none => none
  | some fp =>
    match x.live fp with
    | none => none
    | some st =>
      let bytes := ((x.contents os fp st.file).drop st.pos).take (os.cut (size * n))
      some (bytes.length / size, bytes, x.moveTo fp st (st.pos + bytes.length))

/-- `fwrite` of `n` items of the memory at `buff`: their number. -/
def fwrite (fp : Option Nat) (buff : Nat → Byte) (size n : Nat) : Option (Nat × Files F) :=
  match fp with
  | none => none
  | some fp =>
    match x.live fp with
    | none => none
    | some st =>
      let bytes := (List.range (os.cut (size * n))).map buff
      let data := Function.update x.data st.file
        (some (overlay ((x.data st.file).getD []) st.pos bytes))
      some (bytes.length / size, { x with data := data }.moveTo fp st (st.pos + bytes.length))

end Operations

/-! ## Which files are open -/

section Open

variable {F : Type} {x : Files F}

theorem Files.live_of_fileOf {fp : Nat} {f : F} (h : x.fileOf fp = some f) :
    ∃ st, x.live fp = some st ∧ st.file = f :=
  Option.map_eq_some_iff.mp h

theorem Files.fileOf_lt {fp : Nat} {f : F} (h : x.fileOf fp = some f) :
    fp < x.streams.length := by
  rcases x.live_of_fileOf h with ⟨st, hlive, -⟩
  by_contra hge
  rw [live, List.getElem?_eq_none (Nat.le_of_not_lt hge)] at hlive
  cases hlive

/-- Moving a stream leaves all of them open. -/
@[simp] theorem Files.fileOf_moveTo {fp : Nat} {st : Stream F} (h : x.live fp = some st)
    (pos i : Nat) : (x.moveTo fp st pos).fileOf i = x.fileOf i := by
  have hlt : fp < x.streams.length := fileOf_lt (f := st.file) (by rw [fileOf, h]; rfl)
  unfold fileOf live moveTo
  by_cases hi : i = fp
  · rw [hi, List.getElem?_set_self hlt]
    exact (congrArg (Option.map Stream.file) h).symm
  · rw [List.getElem?_set_ne (Ne.symm hi)]

theorem Files.live_moveTo {fp : Nat} {st : Stream F} (h : x.live fp = some st) (pos : Nat) :
    (x.moveTo fp st pos).live fp = some { st with pos := pos } := by
  have hlt : fp < x.streams.length := fileOf_lt (f := st.file) (by rw [fileOf, h]; rfl)
  rw [live, moveTo, List.getElem?_set_self hlt]
  rfl

/-- `fclose` closes one stream. -/
theorem fclose_live {fp : Nat} {st : Stream F} (h : x.live fp = some st) :
    ∃ x', fclose x fp = some x' ∧ x'.data = x.data ∧
      ∀ i, x'.fileOf i = if i = fp then none else x.fileOf i := by
  refine ⟨{ x with streams := x.streams.set fp none }, ?_, rfl, ?_⟩
  · rw [fclose, h]
    rfl
  · intro i
    unfold Files.fileOf Files.live
    by_cases hi : i = fp
    · rw [if_pos hi, hi, List.getElem?_set]
      split
      · split <;> rfl
      · contradiction
    · rw [if_neg hi, List.getElem?_set_ne (Ne.symm hi)]

/-- `fopen` opens a new stream, or fails. -/
theorem fopen_cases (os : Os) (x : Files F) (file : F) :
    (os.fopen ∧ (x.data file).isSome) ∧
      (∃ x', fopen os x file = (some x.streams.length, x') ∧ x'.data = x.data ∧
        x'.live x.streams.length = some ⟨file, 0⟩ ∧
        ∀ i, x'.fileOf i = if i = x.streams.length then some file else x.fileOf i) ∨
    ¬ (os.fopen ∧ (x.data file).isSome) ∧ fopen os x file = (none, x) := by
  unfold fopen
  by_cases hfound : os.fopen ∧ (x.data file).isSome
  · left
    rw [if_pos hfound]
    refine ⟨hfound, _, rfl, rfl, ?_, ?_⟩
    · unfold Files.live
      rw [List.getElem?_append_right (Nat.le_refl _), Nat.sub_self]
      rfl
    · intro i
      unfold Files.fileOf Files.live
      split
      next hi =>
        rw [hi, List.getElem?_append_right (Nat.le_refl _), Nat.sub_self]
        rfl
      next hi =>
        rcases Nat.lt_or_ge i x.streams.length with hlt | hge
        · rw [List.getElem?_append_left hlt]
        · rw [List.getElem?_eq_none hge, List.getElem?_eq_none]
          rw [List.length_append, List.length_singleton]
          omega
  · right
    rw [if_neg hfound]
    exact ⟨hfound, rfl⟩

/-- What was never opened is not open. -/
theorem Files.fileOf_fresh (x : Files F) : x.fileOf x.streams.length = none := by
  cases h : x.fileOf x.streams.length with
  | none => rfl
  | some f => exact absurd (fileOf_lt h) (Nat.lt_irrefl _)

section Access

variable {os : Os} {fp : Nat} {st : Stream F}

theorem fseekEnd_live (h : x.live fp = some st) : fseekEnd os x fp
    = some (if os.fseek then (0, x.moveTo fp st ((x.data st.file).getD []).length) else (-1, x)) := by
  rw [fseekEnd, h]

theorem ftell_live (h : x.live fp = some st) :
    ftell os x fp = some (if os.ftell then (st.pos : Int) else -1) := by
  rw [ftell, h]
  rfl

theorem fseek_live (h : x.live fp = some st) (off : Int) : fseek os x (some fp) off
    = some (if os.fseek ∧ 0 ≤ off then (0, x.moveTo fp st off.toNat) else (-1, x)) := by
  rw [fseek, h]

variable [DecidableEq F]

/-- A stream that is alone reads the file. -/
theorem fread_alone (h : x.live fp = some st) (halone : x.Alone fp st.file) (size n : Nat) :
    ∃ x', fread os x (some fp) size n
        = some ((((x.data st.file).getD [] |>.drop st.pos).take (os.cut (size * n))).length / size,
          ((x.data st.file).getD [] |>.drop st.pos).take (os.cut (size * n)), x') ∧
      x'.data = x.data ∧ ∀ i, x'.fileOf i = x.fileOf i := by
  have hcontents : x.contents os fp st.file = (x.data st.file).getD [] := if_pos halone
  rw [fread, h]
  dsimp only
  rw [hcontents]
  exact ⟨_, rfl, rfl, Files.fileOf_moveTo h _⟩

/-- A write changes the file of the stream. -/
theorem fwrite_live (h : x.live fp = some st) (buff : Nat → Byte) (size n : Nat) :
    ∃ x', fwrite os x (some fp) buff size n
        = some (((List.range (os.cut (size * n))).map buff).length / size, x') ∧
      x'.data = Function.update x.data st.file (some (overlay ((x.data st.file).getD []) st.pos
        ((List.range (os.cut (size * n))).map buff))) ∧
      ∀ i, x'.fileOf i = x.fileOf i := by
  rw [fwrite, h]
  exact ⟨_, rfl, rfl, Files.fileOf_moveTo h _⟩

end Access

end Open

/-! ## What a write changes -/

/-- The bytes written are there. -/
theorem overlay_written (bs : List Byte) (off : Nat) (put : List Byte) :
    ((overlay bs off put).drop off).take put.length = put := by
  unfold overlay
  split
  next hnil => rw [hnil, List.length_nil, List.take_zero]
  next =>
    have hlen : ((bs ++ List.replicate (off - bs.length) 0).take off).length = off := by
      rw [List.length_take, List.length_append, List.length_replicate]
      omega
    rw [List.append_assoc, List.drop_left' hlen, List.take_left]

/-- The bytes of the file elsewhere stay. -/
theorem overlay_kept (bs : List Byte) (off : Nat) (put : List Byte) {i : Nat}
    (hi : i < bs.length) (h : i < off ∨ off + put.length ≤ i) :
    (overlay bs off put)[i]? = bs[i]? := by
  unfold overlay
  split
  · rfl
  · have hlen : ((bs ++ List.replicate (off - bs.length) 0).take off).length = off := by
      rw [List.length_take, List.length_append, List.length_replicate]
      omega
    rcases h with hlt | hge
    · rw [List.append_assoc, List.getElem?_append_left (by omega), List.getElem?_take,
        if_pos hlt, List.getElem?_append_left hi]
    · rw [List.getElem?_append_right (by rw [List.length_append]; omega), List.getElem?_drop,
        List.length_append, hlen]
      congr 1
      omega

end StupidOS.Stdio
