import Mathlib.Data.List.TakeWhile
import StupidOS.Lib.Cells
import StupidOS.Lib.Loop
import StupidOS.Lib.Word

/-!
# The command loop of `fdisk` (`sbin/fdisk/repl.c`)

`readline` glues the pieces that `fgets` gives to a line, `parse_cmd` cuts the line into words and
looks the first one up, `repl` does so for one line after the other. An access that C does not
allow is a `Fault`. Without NUL bytes on standard input the lines are those of the stream
(`readline_lines`). The loop is free of faults exactly for the streams that `LinesOk` describes
(`repl_safe_iff`).
-/

namespace StupidOS.Fdisk.Repl

/-- `BUFFSZ` -/
def buffSz : Nat := 128

/-- `MAXARGS` -/
def maxArgs : Nat := 6

def newline : Byte := 0x0A

/-- What must not happen. -/
inductive Fault where
  | lineIndex
  | argvStore
  | strcmpNull
deriving DecidableEq, Repr

/-! ## The library -/

/-- The bytes that a stream gives up to a newline, `k` at most. -/
def piece : Nat → List Byte → List Byte
  | 0, _ => []
  | _, [] => []
  | k + 1, b :: bs => if b = newline then [b] else b :: piece k bs

/-- `fgets`: the buffer with its NUL, and the rest of the stream. -/
def fgets (n : Nat) (stdin : List Byte) : Option (List Byte × List Byte) :=
  if stdin = [] then none
  else some (piece (n - 1) stdin ++ [0], stdin.drop (piece (n - 1) stdin).length)

/-- The string in a buffer. -/
def text (buffer : List Byte) : List Byte := buffer.takeWhile (· ≠ 0)

def strlen (buffer : List Byte) : Nat := (text buffer).length

/-- The string in a block, if it has its NUL there. -/
def cstr : Cells Byte → Option (List Byte)
  | [] => none
  | none :: _ => none
  | some b :: cells => if b = 0 then some [] else (cstr cells).map (b :: ·)

def isDelim (b : Byte) : Bool := b = 0x20 || b = 0x09

/-- `strtok` with blank and tab: the next word, and what is behind it. -/
def strtok (str : List Byte) : Option (List Byte × List Byte) :=
  let str := str.dropWhile isDelim
  if str = [] then none
  else some (str.takeWhile (! isDelim ·), (str.dropWhile (! isDelim ·)).drop 1)

/-- `strcmp` of an argument with a name -/
def strcmpEq (arg : Option (List Byte)) (name : List Byte) : Except Fault Bool :=
  match arg with
  | none => .error .strcmpNull
  | some arg => .ok (arg = name)

/-! ## `readline` -/

/-- The local variables of `readline`. A line that is `NULL` is an empty block. -/
structure ReadState where
  linsz : Nat
  line : Cells Byte
  stdin : List Byte

/-- An access to the line. -/
def index {α : Type} : Option α → Except Fault α
  | none => .error .lineIndex
  | some x => .ok x

/-- The body of the loop, with the buffer that `fgets` has filled. Whether the line is complete. -/
def addPiece (linsz : Nat) (line : Cells Byte) (buffer : List Byte) :
    Except Fault (Nat × Cells Byte × Bool) := do
  let buffsz := strlen buffer
  let line := line.realloc (linsz + buffsz + 1)
  -- memcpy(line + linsz, buffer, buffsz)
  let line ← index (line.storeAll linsz (buffer.take buffsz))
  let linsz := linsz + buffsz
  let line ← index (line.store linsz 0)
  -- `linsz - 1` is the greatest `size_t` when `linsz` is 0
  let last ← index (if linsz = 0 then none else line.read (linsz - 1))
  if last = newline then
    let line ← index (line.store (linsz - 1) 0)
    return (linsz, line, true)
  else return (linsz, line, false)

/-- One pass of the loop of `readline`. -/
def readlinePass (s : ReadState) :
    Option (Pass ReadState (Except Fault (Option (Cells Byte) × List Byte))) :=
  match fgets buffSz s.stdin with
  | none => some (.done (.ok (none, s.stdin)))
  | some (buffer, stdin) =>
    match addPiece s.linsz s.line buffer with
    | .error fault => some (.done (.error fault))
    | .ok (_, line, true) => some (.done (.ok (some line, stdin)))
    | .ok (linsz, line, false) => some (.again ⟨linsz, line, stdin⟩)

/-- `readline`, when no allocation fails. The line, and the rest of the stream. -/
def readline (fuel : Nat) (stdin : List Byte) :
    Option (Except Fault (Option (Cells Byte) × List Byte)) :=
  iterate readlinePass fuel ⟨0, [], stdin⟩

/-- The results of `k` calls of `readline`, one after the other. -/
def readlineCalls (fuel : Nat) :
    Nat → List Byte → Option (Except Fault (List (Option (Cells Byte))))
  | 0, _ => some (.ok [])
  | k + 1, stdin => do
    match ← readline fuel stdin with
    | .error fault => return .error fault
    | .ok (line, stdin) => return (← readlineCalls fuel k stdin).map (line :: ·)

/-! ## The commands -/

/-- The functions of `cmds` that do not just return. -/
inductive Callback where
  | help
  | quit
  | other
deriving DecidableEq, Repr

/-- An entry of `cmds`. -/
structure Cmd where
  cmd : List Byte
  cb : Option Callback

/-- `cmds` -/
def cmds : List Cmd :=
  [⟨[0x68, 0x65, 0x6C, 0x70], some .help⟩,
   ⟨[0x76, 0x65, 0x72, 0x73, 0x69, 0x6F, 0x6E], some .other⟩,
   ⟨[0x70, 0x72, 0x69, 0x6E, 0x74], some .other⟩,
   ⟨[0x6D, 0x6B, 0x6C, 0x61, 0x62, 0x65, 0x6C], some .other⟩,
   ⟨[0x72, 0x6D], some .other⟩,
   ⟨[0x73, 0x65, 0x74], some .other⟩,
   ⟨[0x71, 0x75, 0x69, 0x74], some .quit⟩]

/-- The command of a name, by `strcmp` with one after the other. -/
def findCmd (arg : Option (List Byte)) : List Cmd → Except Fault (Option Cmd)
  | [] => .ok none
  | cmd :: rest => do
    let same ← strcmpEq arg cmd.cmd
    if same then return some cmd else findCmd arg rest

/-- `cmd_help`, without what it prints -/
def cmdHelp (argc : Nat) (argv : List (Option (List Byte))) : Except Fault Int :=
  if argc ≥ 2 then do
    let found ← findCmd (argv[1]?).join cmds
    if found.isSome then return 0 else return -1
  else .ok 0

/-- The result of a command; `none` when it ends the program. -/
def Callback.run (argc : Nat) (argv : List (Option (List Byte))) :
    Callback → Except Fault (Option Int)
  | .help => (cmdHelp argc argv).map some
  | .quit => .ok none
  | .other => .ok (some 0)

/-! ## `parse_cmd` and `repl` -/

/-- The local variables of the first loop of `parse_cmd`. -/
structure ArgState where
  argc : Nat
  argv : List (Option (List Byte))
  tmp : Option (List Byte × List Byte)

/-- One pass of it: `argv[argc++] = tmp` and the next `strtok`. -/
def argPass (s : ArgState) : Option (Pass ArgState (Except Fault ArgState)) :=
  match s.tmp with
  | none => some (.done (.ok s))
  | some (word, rest) =>
    if s.argc < maxArgs then
      if s.argc < s.argv.length then
        some (.again ⟨s.argc + 1, s.argv.set s.argc (some word), strtok rest⟩)
      else some (.done (.error .argvStore))
    else some (.done (.ok s))

/-- The second loop of `parse_cmd`, and what it calls. -/
def runCmd (s : ArgState) : Except Fault (Option Int) := do
  let found ← findCmd (s.argv[0]?).join cmds
  match found with
  | none => return some (-1)
  | some cmd =>
    match cmd.cb with
    | none => return some (-1)
    | some cb => cb.run s.argc s.argv

/-- `parse_cmd` -/
def parseCmd (fuel : Nat) (line : Cells Byte) : Option (Except Fault (Option Int)) :=
  match cstr line with
  | none => some (.error .lineIndex)
  | some str =>
    (iterate argPass fuel ⟨0, List.replicate maxArgs none, strtok str⟩).map (·.bind runCmd)

/-- One pass of the loop of `repl`. -/
def replPass (fuel : Nat) (stdin : List Byte) : Option (Pass (List Byte) (Except Fault Unit)) := do
  match ← readline fuel stdin with
  | .error fault => return .done (.error fault)
  | .ok (none, _) => return .done (.ok ())
  | .ok (some line, stdin) =>
    match line.read 0 with
    | none => return .done (.error .lineIndex)
    | some first =>
      if first = 0 then return .again stdin
      else
        match ← parseCmd fuel line with
        | .error fault => return .done (.error fault)
        | .ok none => return .done (.ok ())
        | .ok (some _) => return .again stdin

/-- `repl` -/
def repl (fuel : Nat) (stdin : List Byte) : Option (Except Fault Unit) :=
  iterate (replPass fuel) fuel stdin

/-! ## What `fgets` gives -/

theorem length_piece_pos {k : Nat} {stdin : List Byte} (h : stdin ≠ []) :
    0 < (piece (k + 1) stdin).length := by
  cases stdin with
  | nil => exact absurd rfl h
  | cons b bs =>
      rw [piece]
      split
      · exact Nat.one_pos
      · exact Nat.succ_pos _

/-- What the next call of `fgets` puts into the buffer before the NUL. -/
def first (stdin : List Byte) : List Byte := piece (buffSz - 1) stdin

/-- What it leaves. -/
def behind (stdin : List Byte) : List Byte := stdin.drop (first stdin).length

theorem length_behind_lt {stdin : List Byte} (h : stdin ≠ []) :
    (behind stdin).length < stdin.length := by
  have hpos : 0 < (first stdin).length := length_piece_pos h
  have hlen : 0 < stdin.length := List.length_pos_of_ne_nil h
  rw [behind, List.length_drop]
  omega

/-- The strings that `readline` finds in the buffer, one call of `fgets` after the other. -/
def texts (stdin : List Byte) : List (List Byte) :=
  if h : stdin = [] then [] else text (first stdin) :: texts (behind stdin)
termination_by stdin.length
decreasing_by exact length_behind_lt h

theorem texts_nil : texts [] = [] := by
  rw [texts, dif_pos rfl]

theorem texts_of_ne_nil {stdin : List Byte} (h : stdin ≠ []) :
    texts stdin = text (first stdin) :: texts (behind stdin) := by
  rw [texts, dif_neg h]

theorem text_concat_zero (p : List Byte) : text (p ++ [0]) = text p := by
  induction p with
  | nil => rfl
  | cons b p ih =>
      rw [text, text, List.cons_append, List.takeWhile_cons, List.takeWhile_cons]
      split
      · rw [← text, ← text, ih]
      · rfl

theorem take_strlen (buffer : List Byte) : buffer.take (strlen buffer) = text buffer :=
  (List.prefix_iff_eq_take.mp (List.takeWhile_prefix _)).symm

theorem zero_notMem_text (buffer : List Byte) : (0 : Byte) ∉ text buffer := by
  intro h
  exact absurd (List.mem_takeWhile_imp h) (by decide)

/-! ## `readline` -/

theorem index_bind {α β : Type} (x : α) (f : α → Except Fault β) : index (some x) >>= f = f x := rfl

/-- `addPiece` up to the test for the newline. -/
theorem addPiece_glued {acc : List Byte} {line : Cells Byte} (h : line.Holds acc)
    (buffer : List Byte) : ∃ line' : Cells Byte,
      line'.Holds (acc ++ text buffer ++ [0]) ∧
      line'.length = (acc ++ text buffer).length + 1 ∧
      addPiece acc.length line buffer = (do
        let linsz := (acc ++ text buffer).length
        let last ← index (if linsz = 0 then none else line'.read (linsz - 1))
        if last = newline then
          let line ← index (line'.store (linsz - 1) 0)
          return (linsz, line, true)
        else return (linsz, line', false)) := by
  have hlen : (acc ++ text buffer).length = acc.length + strlen buffer := List.length_append
  have hroom : acc.length + (text buffer).length ≤
      (line.realloc (acc.length + strlen buffer + 1)).length := by
    rw [Cells.length_realloc, ← strlen]
    omega
  have hkept : (line.realloc (acc.length + strlen buffer + 1)).Holds acc := h.realloc (by omega)
  rcases hkept.storeAll hroom with ⟨line₁, hrun, hlen₁, hholds⟩
  rw [Cells.length_realloc] at hlen₁
  have hlt : (acc ++ text buffer).length < line₁.length := by omega
  refine ⟨line₁.set (acc ++ text buffer).length (some 0), hholds.set 0 hlt, ?_, ?_⟩
  · rw [List.length_set, hlen₁, hlen]
  · rw [addPiece]
    dsimp only
    rw [take_strlen, hrun, ← hlen, index_bind, Cells.store_eq hlt, index_bind]

/-- A piece that leaves the line empty. -/
theorem addPiece_empty {line : Cells Byte} {buffer : List Byte} (h : text buffer = []) :
    addPiece 0 line buffer = .error .lineIndex := by
  rcases addPiece_glued (Cells.holds_nil line) buffer with ⟨line', -, -, hrun⟩
  rw [h] at hrun
  exact hrun

/-- A piece that ends the line. -/
theorem addPiece_complete {acc l : List Byte} {line : Cells Byte} (h : line.Holds acc)
    {buffer : List Byte} (hl : acc ++ text buffer = l ++ [newline]) : ∃ line',
      addPiece acc.length line buffer = .ok (l.length + 1, line', true) ∧
        line'.Holds (l ++ [0]) := by
  rcases addPiece_glued h buffer with ⟨line', hholds, hlen, hrun⟩
  rw [hl] at hholds hlen hrun
  rw [List.length_append, List.length_singleton] at hlen hrun
  have hlast : line'.read l.length = some newline :=
    hholds.left l.length newline List.getElem?_concat_length
  have hlt : l.length < line'.length := by omega
  refine ⟨line'.set l.length (some 0), hrun.trans ?_, hholds.left.left.set 0 hlt⟩
  dsimp only
  rw [if_neg (Nat.succ_ne_zero _), Nat.add_sub_cancel, hlast, index_bind, if_pos rfl,
    Cells.store_eq hlt, index_bind]
  rfl

/-- A piece that does not. -/
theorem addPiece_open {acc l : List Byte} {b : Byte} {line : Cells Byte} (h : line.Holds acc)
    {buffer : List Byte} (hl : acc ++ text buffer = l ++ [b]) (hb : b ≠ newline) : ∃ line',
      addPiece acc.length line buffer = .ok ((acc ++ text buffer).length, line', false) ∧
        line'.Holds (acc ++ text buffer) := by
  rcases addPiece_glued h buffer with ⟨line', hholds, -, hrun⟩
  rw [hl] at hholds hrun ⊢
  rw [List.length_append, List.length_singleton] at hrun ⊢
  have hlast : line'.read l.length = some b :=
    hholds.left l.length b List.getElem?_concat_length
  refine ⟨line', hrun.trans ?_, hholds.left⟩
  dsimp only
  rw [if_neg (Nat.succ_ne_zero _), Nat.add_sub_cancel, hlast, index_bind, if_neg hb]
  rfl

theorem readlinePass_nil (linsz : Nat) (line : Cells Byte) :
    readlinePass ⟨linsz, line, []⟩ = some (.done (.ok (none, []))) := rfl

section Passes

variable {acc : List Byte} {line : Cells Byte} {stdin : List Byte}

theorem readlinePass_fault (hend : stdin ≠ []) (h : acc ++ text (first stdin) = []) :
    readlinePass ⟨acc.length, line, stdin⟩ = some (.done (.error .lineIndex)) := by
  rcases List.append_eq_nil_iff.mp h with ⟨rfl, htext⟩
  rw [readlinePass, fgets, if_neg hend]
  dsimp only
  rw [List.length_nil, ← first, addPiece_empty ((text_concat_zero _).trans htext)]

theorem readlinePass_done (hholds : line.Holds acc) (hend : stdin ≠ []) {l : List Byte}
    (h : acc ++ text (first stdin) = l ++ [newline]) : ∃ line',
      readlinePass ⟨acc.length, line, stdin⟩ = some (.done (.ok (some line', behind stdin))) ∧
        line'.Holds (l ++ [0]) := by
  rw [← text_concat_zero] at h
  rcases addPiece_complete hholds h with ⟨line', hrun, hholds'⟩
  refine ⟨line', ?_, hholds'⟩
  rw [readlinePass, fgets, if_neg hend]
  dsimp only
  rw [← first, hrun, ← behind]

theorem readlinePass_again (hholds : line.Holds acc) (hend : stdin ≠ []) {l : List Byte} {b : Byte}
    (h : acc ++ text (first stdin) = l ++ [b]) (hb : b ≠ newline) : ∃ line',
      readlinePass ⟨acc.length, line, stdin⟩ =
        some (.again ⟨(acc ++ text (first stdin)).length, line', behind stdin⟩) ∧
        line'.Holds (acc ++ text (first stdin)) := by
  rw [← text_concat_zero] at h
  rcases addPiece_open hholds h hb with ⟨line', hrun, hholds'⟩
  rw [text_concat_zero] at hrun hholds'
  refine ⟨line', ?_, hholds'⟩
  rw [readlinePass, fgets, if_neg hend]
  dsimp only
  rw [← first, hrun, ← behind]

end Passes

/-- What the calls of `readline` find: the lines, up to a piece that is empty as a string where a
line begins. -/
def lines : List Byte → List (List Byte) → List (Option (List Byte))
  | _, [] => []
  | begun, t :: ts =>
    if begun ++ t = [] then [none]
    else if (begun ++ t).getLast? = some newline then some (begun ++ t).dropLast :: lines [] ts
    else lines (begun ++ t) ts

theorem lines_complete {acc t l : List Byte} (h : acc ++ t = l ++ [newline])
    (ts : List (List Byte)) : lines acc (t :: ts) = some l :: lines [] ts := by
  rw [lines, h, if_neg (by simp), List.getLast?_concat, if_pos rfl, List.dropLast_concat]

theorem lines_open {acc t l : List Byte} {b : Byte} (h : acc ++ t = l ++ [b]) (hb : b ≠ newline)
    (ts : List (List Byte)) : lines acc (t :: ts) = lines (acc ++ t) ts := by
  rw [lines, h, if_neg (by simp), List.getLast?_concat, if_neg fun h => hb (Option.some.inj h)]

/-- A result of `readline`, for a stream and the lines in it. -/
inductive Gives (stdin : List Byte) :
    List (Option (List Byte)) → Except Fault (Option (Cells Byte) × List Byte) → Prop
  | stop : Gives stdin [] (.ok (none, []))
  | fault : Gives stdin [none] (.error .lineIndex)
  | line {l : List Byte} {line : Cells Byte} {rest : List Byte}
      (holds : line.Holds (l ++ [0])) (nonzero : 0 ∉ l) (shorter : rest.length < stdin.length) :
      Gives stdin (some l :: lines [] (texts rest)) (.ok (some line, rest))

theorem Gives.mono {stdin stdin' : List Byte} (hle : stdin.length ≤ stdin'.length)
    {ls : List (Option (List Byte))} {r : Except Fault (Option (Cells Byte) × List Byte)}
    (h : Gives stdin ls r) : Gives stdin' ls r := by
  cases h with
  | stop => exact .stop
  | fault => exact .fault
  | line holds nonzero shorter => exact .line holds nonzero (by omega)

/-- The loop, from a line begun. -/
theorem readlineLoop {acc : List Byte} {line : Cells Byte} {stdin : List Byte}
    (hholds : line.Holds acc) (hzero : 0 ∉ acc) {fuel : Nat} (hfuel : stdin.length < fuel) :
    ∃ r, iterate readlinePass fuel ⟨acc.length, line, stdin⟩ = some r ∧
      Gives stdin (lines acc (texts stdin)) r := by
  induction fuel generalizing acc line stdin with
  | zero => omega
  | succ fuel ih =>
      by_cases hend : stdin = []
      · subst hend
        rw [texts_nil, lines]
        exact ⟨_, iterate_done (readlinePass_nil ..) fuel, .stop⟩
      · have hshort : (behind stdin).length < stdin.length := length_behind_lt hend
        have hclean : (0 : Byte) ∉ acc ++ text (first stdin) := fun h =>
          (List.mem_append.mp h).elim hzero (zero_notMem_text _)
        rw [texts_of_ne_nil hend]
        rcases List.eq_nil_or_concat' (acc ++ text (first stdin)) with hnil | ⟨l, b, hl⟩
        · rw [lines, if_pos hnil]
          exact ⟨_, iterate_done (readlinePass_fault hend hnil) fuel, .fault⟩
        · by_cases hb : b = newline
          · subst hb
            rcases readlinePass_done hholds hend hl with ⟨line', hpass, hholds'⟩
            have hl0 : (0 : Byte) ∉ l := fun h => hclean (hl ▸ List.mem_append_left _ h)
            rw [lines_complete hl]
            exact ⟨_, iterate_done hpass fuel, .line hholds' hl0 hshort⟩
          · rcases readlinePass_again hholds hend hl hb with ⟨line', hpass, hholds'⟩
            have hrest : (behind stdin).length < fuel := by omega
            rcases ih hholds' hclean hrest with ⟨r, hr, hgives⟩
            rw [lines_open hl hb, iterate_again hpass]
            exact ⟨r, hr, hgives.mono (by omega)⟩

/-- `readline` returns the first line, NULL at the end of the stream. -/
theorem readline_gives {stdin : List Byte} {fuel : Nat} (hfuel : stdin.length < fuel) :
    ∃ r, readline fuel stdin = some r ∧ Gives stdin (lines [] (texts stdin)) r :=
  readlineLoop (Cells.holds_nil []) List.not_mem_nil hfuel

theorem cstr_of_holds {line : Cells Byte} {l : List Byte} (h : line.Holds (l ++ [0]))
    (hl : 0 ∉ l) : cstr line = some l := by
  induction l generalizing line with
  | nil =>
      have hread : line.read 0 = some 0 := h 0 0 rfl
      cases line with
      | nil => cases hread
      | cons c cells =>
          have hc : c = some 0 := hread
          rw [hc, cstr, if_pos rfl]
  | cons b l ih =>
      have hread : line.read 0 = some b := h 0 b rfl
      have hb : b ≠ 0 := fun hb => hl (hb ▸ List.mem_cons_self)
      cases line with
      | nil => cases hread
      | cons c cells =>
          have hc : c = some b := hread
          have hrest : Cells.Holds cells (l ++ [0]) := fun i x hi => h (i + 1) x hi
          rw [hc, cstr, if_neg hb, ih hrest fun hmem => hl (List.mem_cons_of_mem b hmem)]
          rfl

/-! ## Streams without NUL bytes -/

theorem piece_append {l : List Byte} (hl : newline ∉ l) (k : Nat) (r : List Byte) :
    piece k (l ++ r) = l.take k ++ piece (k - l.length) r := by
  induction l generalizing k with
  | nil => rw [List.take_nil, List.length_nil, Nat.sub_zero, List.nil_append, List.nil_append]
  | cons b l ih =>
      cases k with
      | zero => rw [List.take_zero, Nat.zero_sub, piece, piece, List.append_nil]
      | succ k =>
          have hb : b ≠ newline := fun hb => hl (hb ▸ List.mem_cons_self)
          rw [List.cons_append, piece, if_neg hb, ih fun h => hl (List.mem_cons_of_mem b h),
            List.length_cons, Nat.add_sub_add_right, List.take_succ_cons, List.cons_append]

theorem text_of_nonzero {t : List Byte} (h : 0 ∉ t) : text t = t := by
  rw [text, List.takeWhile_eq_self_iff]
  intro b hb
  exact decide_eq_true fun hz => h (hz ▸ hb)

theorem lines_plain {t : List Byte} (hne : t ≠ []) (hnl : newline ∉ t) (acc : List Byte)
    (ts : List (List Byte)) : lines acc (t :: ts) = lines (acc ++ t) ts := by
  rcases List.eq_nil_or_concat' t with hnil | ⟨l, b, rfl⟩
  · exact absurd hnil hne
  · refine lines_open (List.append_assoc acc l [b]).symm ?_ ts
    intro hb
    exact hnl (List.mem_append_right l (hb ▸ List.mem_singleton_self newline))

/-- A full buffer inside of a line. -/
theorem lines_chunk {l r : List Byte} (hnl : newline ∉ l) (hzero : 0 ∉ l)
    (hlen : buffSz - 1 ≤ l.length) (acc : List Byte) : lines acc (texts (l ++ r)) =
      lines (acc ++ l.take (buffSz - 1)) (texts (l.drop (buffSz - 1) ++ r)) := by
  have hpos : 0 < l.length := Nat.lt_of_lt_of_le (by decide) hlen
  have hne : l ++ r ≠ [] := List.append_ne_nil_of_left_ne_nil (List.ne_nil_of_length_pos hpos) r
  have hfirst : first (l ++ r) = l.take (buffSz - 1) := by
    rw [first, piece_append hnl, Nat.sub_eq_zero_of_le hlen, piece, List.append_nil]
  have hbehind : behind (l ++ r) = l.drop (buffSz - 1) ++ r := by
    rw [behind, hfirst, List.length_take_of_le hlen, List.drop_append_of_le_length hlen]
  have htake : l.take (buffSz - 1) ≠ [] := by
    refine List.ne_nil_of_length_pos ?_
    rw [List.length_take_of_le hlen]
    decide
  rw [texts_of_ne_nil hne, hfirst, hbehind,
    text_of_nonzero fun h => hzero (List.mem_of_mem_take h)]
  exact lines_plain htake (fun h => hnl (List.mem_of_mem_take h)) acc _

/-- A line of the stream is found, whatever its length. -/
theorem lines_line {l : List Byte} (hnl : newline ∉ l) (hzero : 0 ∉ l) (acc rest : List Byte) :
    lines acc (texts (l ++ newline :: rest)) = some (acc ++ l) :: lines [] (texts rest) := by
  induction hn : l.length using Nat.strong_induction_on generalizing l acc
  next n ih =>
  subst hn
  by_cases hlen : buffSz - 1 ≤ l.length
  · have hdrop : (l.drop (buffSz - 1)).length < l.length := by
      rw [List.length_drop]
      exact Nat.sub_lt (Nat.lt_of_lt_of_le (by decide) hlen) (by decide)
    rw [lines_chunk hnl hzero hlen, ih _ hdrop (fun h => hnl (List.mem_of_mem_drop h))
      (fun h => hzero (List.mem_of_mem_drop h)) _ rfl, List.append_assoc, List.take_append_drop]
  · obtain ⟨k, hk⟩ : ∃ k, buffSz - 1 - l.length = k + 1 := ⟨buffSz - 1 - l.length - 1, by omega⟩
    have hfirst : first (l ++ newline :: rest) = l ++ [newline] := by
      rw [first, piece_append hnl, hk, piece, if_pos rfl, List.take_of_length_le (by omega)]
    have hbehind : behind (l ++ newline :: rest) = rest := by
      rw [behind, hfirst, List.append_cons l newline rest, List.drop_left]
    have htext : text (l ++ [newline]) = l ++ [newline] := text_of_nonzero fun h =>
      (List.mem_append.mp h).elim hzero (by decide)
    rw [texts_of_ne_nil (by simp), hfirst, hbehind, htext]
    exact lines_complete (List.append_assoc acc l [newline]).symm _

/-- A last piece without a newline is not. -/
theorem lines_tail {l : List Byte} (hnl : newline ∉ l) (hzero : 0 ∉ l) (acc : List Byte) :
    lines acc (texts l) = [] := by
  induction hn : l.length using Nat.strong_induction_on generalizing l acc
  next n ih =>
  subst hn
  by_cases hend : l = []
  · rw [hend, texts_nil, lines]
  · have hbehind : (behind l).length < l.length := length_behind_lt hend
    have hfirst : first l = l.take (buffSz - 1) := by
      have happend := piece_append hnl (buffSz - 1) []
      rw [List.append_nil] at happend
      rw [first, happend]
      cases buffSz - 1 - l.length <;> exact List.append_nil _
    have htake : l.take (buffSz - 1) ≠ [] := by
      rw [← hfirst]
      exact List.ne_nil_of_length_pos (length_piece_pos hend)
    have hrest : ∀ b, b ∉ l → b ∉ behind l := fun b hb h => hb (List.mem_of_mem_drop h)
    rw [texts_of_ne_nil hend, hfirst, text_of_nonzero fun h => hzero (List.mem_of_mem_take h),
      lines_plain htake fun h => hnl (List.mem_of_mem_take h)]
    exact ih _ hbehind (hrest newline hnl) (hrest 0 hzero) _ rfl

/-- A stream is a sequence of lines and a piece without a newline. -/
theorem exists_lines (stdin : List Byte) : ∃ (ls : List (List Byte)) (tail : List Byte),
    stdin = (ls.map (· ++ [newline])).flatten ++ tail ∧ (∀ l ∈ ls, newline ∉ l) ∧
      newline ∉ tail := by
  induction stdin with
  | nil => exact ⟨[], [], rfl, List.forall_mem_nil _, List.not_mem_nil⟩
  | cons b bs ih =>
      rcases ih with ⟨ls, tail, rfl, hls, htail⟩
      by_cases hb : b = newline
      · exact ⟨[] :: ls, tail, by rw [hb]; rfl,
          List.forall_mem_cons.mpr ⟨List.not_mem_nil, hls⟩, htail⟩
      · have hcons : ∀ {l : List Byte}, newline ∉ l → newline ∉ b :: l := fun hl =>
          List.not_mem_cons_of_ne_of_not_mem (Ne.symm hb) hl
        cases ls with
        | nil => exact ⟨[], b :: tail, rfl, hls, hcons htail⟩
        | cons l ls =>
            rcases List.forall_mem_cons.mp hls with ⟨hl, hls⟩
            exact ⟨(b :: l) :: ls, tail, rfl, List.forall_mem_cons.mpr ⟨hcons hl, hls⟩, htail⟩

theorem lines_stream {ls : List (List Byte)} {tail : List Byte}
    (hzero : 0 ∉ (ls.map (· ++ [newline])).flatten ++ tail) (hls : ∀ l ∈ ls, newline ∉ l)
    (htail : newline ∉ tail) :
    lines [] (texts ((ls.map (· ++ [newline])).flatten ++ tail)) = ls.map some := by
  induction ls with
  | nil => exact lines_tail htail hzero []
  | cons l ls ih =>
      rw [List.map_cons, List.flatten_cons, List.append_assoc, List.append_assoc] at hzero ⊢
      have hl : (0 : Byte) ∉ l := fun h => hzero (List.mem_append_left _ h)
      have hrest : (0 : Byte) ∉ (ls.map (· ++ [newline])).flatten ++ tail := fun h =>
        hzero (List.mem_append_right _ (List.mem_append_right _ h))
      rw [List.singleton_append, lines_line (hls l List.mem_cons_self) hl,
        ih hrest fun l' h => hls l' (List.mem_cons_of_mem l h)]
      rfl

theorem readlineCalls_succ {fuel k : Nat} {stdin rest : List Byte} {line : Option (Cells Byte)}
    {rs : List (Option (Cells Byte))} (h : readline fuel stdin = some (.ok (line, rest)))
    (hrs : readlineCalls fuel k rest = some (.ok rs)) :
    readlineCalls fuel (k + 1) stdin = some (.ok (line :: rs)) := by
  rw [readlineCalls, h]
  dsimp only [Option.bind_eq_bind, Option.bind_some]
  rw [hrs]
  rfl

theorem readlineCalls_gives {k fuel : Nat} {stdin : List Byte} {ls : List (List Byte)}
    (hfuel : stdin.length < fuel) (hls : lines [] (texts stdin) = ls.map some) :
    ∃ rs, readlineCalls fuel k stdin = some (.ok rs) ∧
      rs.map (·.map cstr) = (List.range k).map fun i => ls[i]?.map some := by
  induction k generalizing stdin ls with
  | zero => exact ⟨[], rfl, rfl⟩
  | succ k ih =>
      rcases readline_gives hfuel with ⟨r, hr, hgives⟩
      rw [hls] at hgives
      rw [List.range_succ_eq_map, List.map_cons, List.map_map]
      cases ls with
      | nil =>
          cases hgives with
          | stop =>
              have hpos : ([] : List Byte).length < fuel := Nat.zero_lt_of_lt hfuel
              have hnone : lines [] (texts []) = ([] : List (List Byte)).map some := by
                rw [texts_nil]
                rfl
              rcases ih hpos hnone with ⟨rs, hrs, hcalls⟩
              refine ⟨none :: rs, readlineCalls_succ hr hrs, ?_⟩
              rw [List.map_cons, hcalls]
              rfl
      | cons l ls =>
          rw [List.map_cons] at hgives
          generalize hrest : ls.map some = later at hgives
          cases hgives with
          | line holds nonzero shorter =>
              rcases ih (by omega) hrest.symm with ⟨rs, hrs, hcalls⟩
              refine ⟨_ :: rs, readlineCalls_succ hr hrs, ?_⟩
              rw [List.map_cons, hcalls, Option.map_some, cstr_of_holds holds nonzero]
              rfl

/-- The results of `readline` on a stream without NUL bytes: its lines without their newlines, and
then `NULL`. -/
theorem readline_lines {stdin : List Byte} (hzero : 0 ∉ stdin) :
    ∃ (ls : List (List Byte)) (tail : List Byte),
      stdin = (ls.map (· ++ [newline])).flatten ++ tail ∧ (∀ l ∈ ls, newline ∉ l) ∧
        newline ∉ tail ∧ ∀ k, ∃ n, ∀ fuel ≥ n, ∃ rs,
          readlineCalls fuel k stdin = some (.ok rs) ∧
            rs.map (·.map cstr) = (List.range k).map fun i => ls[i]?.map some := by
  rcases exists_lines stdin with ⟨ls, tail, hstdin, hls, htail⟩
  refine ⟨ls, tail, hstdin, hls, htail, fun k => ⟨stdin.length + 1, fun fuel hfuel => ?_⟩⟩
  refine readlineCalls_gives hfuel ?_
  rw [hstdin] at hzero ⊢
  exact lines_stream hzero hls htail

theorem readline_lines_demo : ∃ (ls : List (List Byte)) (tail : List Byte),
    [0x70, 0x0A, 0x71] = (ls.map (· ++ [newline])).flatten ++ tail ∧ (∀ l ∈ ls, newline ∉ l) ∧
      newline ∉ tail ∧ ∀ k, ∃ n, ∀ fuel ≥ n, ∃ rs,
        readlineCalls fuel k [0x70, 0x0A, 0x71] = some (.ok rs) ∧
          rs.map (·.map cstr) = (List.range k).map fun i => ls[i]?.map some :=
  readline_lines (by decide)

/-! ## `strtok` and `parse_cmd` -/

theorem strtok_eq_none {str : List Byte} : strtok str = none ↔ ∀ b ∈ str, isDelim b := by
  rw [strtok, ← List.dropWhile_eq_nil_iff]
  constructor
  · intro h
    by_contra hne
    rw [if_neg hne] at h
    exact Option.some_ne_none _ h
  · exact fun h => if_pos h

/-- The arguments stored so far: as many as counted, the first word first. -/
structure Stored (word : List Byte) (s : ArgState) : Prop where
  length : s.argv.length = maxArgs
  count : s.argc ≤ maxArgs
  stored : ∀ i < s.argc, ∃ arg, s.argv[i]? = some (some arg)
  head : s.argv[0]? = some (some word)

/-- An argument is stored behind the others, and within `argv`. -/
theorem Stored.argPass {word : List Byte} {s : ArgState} (h : Stored word s) (hpos : 0 < s.argc) :
    argPass s = some (.done (.ok s)) ∨
      ∃ s', argPass s = some (.again s') ∧ s'.argc = s.argc + 1 ∧ Stored word s' := by
  rw [Repl.argPass]
  rcases htmp : s.tmp with _ | ⟨arg, rest⟩
  · exact .inl rfl
  · by_cases hroom : s.argc < maxArgs
    · have hstore : s.argc < s.argv.length := h.length ▸ hroom
      dsimp only
      rw [if_pos hroom, if_pos hstore]
      refine .inr ⟨_, rfl, rfl, ?_, ?_, ?_, ?_⟩
      · rw [List.length_set]
        exact h.length
      · exact hroom
      · intro i (hi : i < s.argc + 1)
        by_cases heq : s.argc = i
        · exact ⟨arg, by rw [heq, List.getElem?_set_self (heq ▸ hstore)]⟩
        · rcases h.stored i (by omega) with ⟨arg', harg⟩
          exact ⟨arg', by rw [List.getElem?_set_ne heq, harg]⟩
      · rw [List.getElem?_set_ne (by omega), h.head]
    · dsimp only
      rw [if_neg hroom]
      exact .inl rfl

/-- The first loop of `parse_cmd`, behind the first word. -/
theorem Stored.args {word : List Byte} {s : ArgState} (h : Stored word s) (hpos : 0 < s.argc)
    {fuel : Nat} (hfuel : maxArgs - s.argc < fuel) : ∃ s',
      iterate Repl.argPass fuel s = some (.ok s') ∧ Stored word s' := by
  induction fuel generalizing s with
  | zero => omega
  | succ fuel ih =>
      rcases h.argPass hpos with hdone | ⟨s', hagain, hargc, hs'⟩
      · exact ⟨s, iterate_done hdone fuel, h⟩
      · have hcount := hs'.count
        rw [iterate_again hagain]
        exact ih hs' (by omega) (by omega)

theorem findCmd_some (arg : List Byte) (cs : List Cmd) :
    findCmd (some arg) cs = .ok (cs.find? fun c => arg = c.cmd) := by
  induction cs with
  | nil => rfl
  | cons c cs ih =>
      rw [findCmd, List.find?_cons]
      by_cases h : arg = c.cmd
      · rw [decide_eq_true h, strcmpEq, decide_eq_true h]
        rfl
      · rw [decide_eq_false h, strcmpEq, decide_eq_false h, ← ih]
        rfl

/-- The name of the command that ends the program. -/
def quitName : List Byte := [0x71, 0x75, 0x69, 0x74]

theorem cb_quit : ∀ c ∈ cmds, c.cb = some .quit ↔ c.cmd = quitName := by decide

theorem cb_some : ∀ c ∈ cmds, c.cb.isSome := by decide

/-- No command fails, given the arguments. -/
theorem Stored.run {word : List Byte} {s : ArgState} (h : Stored word s) (cb : Callback) :
    ∃ v, cb.run s.argc s.argv = .ok v ∧ (v = none ↔ cb = .quit) := by
  cases cb with
  | help =>
      rw [Callback.run, cmdHelp]
      by_cases hargc : s.argc ≥ 2
      · rcases h.stored 1 hargc with ⟨arg, harg⟩
        rw [if_pos hargc, harg, Option.join_some, findCmd_some]
        cases cmds.find? fun c => arg = c.cmd with
        | none => exact ⟨some (-1), rfl, by decide⟩
        | some c => exact ⟨some 0, rfl, by decide⟩
      · rw [if_neg hargc]
        exact ⟨some 0, rfl, by decide⟩
  | quit => exact ⟨none, rfl, by decide⟩
  | other => exact ⟨some 0, rfl, by decide⟩

theorem Stored.runCmd {word : List Byte} {s : ArgState} (h : Stored word s) :
    ∃ v, Repl.runCmd s = .ok v ∧ (v = none ↔ word = quitName) := by
  have hfind : findCmd (s.argv[0]?).join cmds = .ok (cmds.find? fun c => word = c.cmd) := by
    rw [h.head]
    exact findCmd_some word cmds
  rcases hcmd : cmds.find? fun c => word = c.cmd with _ | cmd
  · rw [hcmd] at hfind
    refine ⟨some (-1), by rw [Repl.runCmd, hfind]; rfl, ?_⟩
    have hquit := List.find?_eq_none.mp hcmd ⟨quitName, some .quit⟩ (by simp [cmds, quitName])
    simpa using hquit
  · have hmem : cmd ∈ cmds := List.mem_of_find?_eq_some hcmd
    have hword : decide (word = cmd.cmd) = true := by
      simpa using List.find?_some hcmd
    rcases Option.isSome_iff_exists.mp (cb_some cmd hmem) with ⟨cb, hcb⟩
    rcases h.run cb with ⟨v, hv, hquit⟩
    rw [hcmd] at hfind
    refine ⟨v, ?_, ?_⟩
    · rw [Repl.runCmd, hfind, ← hv]
      change (match cmd.cb with | none => _ | some cb => _) = _
      rw [hcb]
    · rw [hquit, of_decide_eq_true hword, ← cb_quit cmd hmem, hcb, Option.some.injEq]

/-- `parse_cmd` on a string with a word. -/
theorem parseCmd_word {line : Cells Byte} {str word rest : List Byte} (hline : cstr line = some str)
    (hword : strtok str = some (word, rest)) {fuel : Nat} (hfuel : maxArgs < fuel) :
    ∃ v, parseCmd fuel line = some (.ok v) ∧ (v = none ↔ word = quitName) := by
  obtain ⟨fuel, rfl⟩ : ∃ n, fuel = n + 1 := ⟨fuel - 1, by omega⟩
  have hpass : argPass ⟨0, List.replicate maxArgs none, strtok str⟩ =
      some (.again ⟨1, (List.replicate maxArgs none).set 0 (some word), strtok rest⟩) := by
    rw [hword]
    rfl
  have hstored : Stored word ⟨1, (List.replicate maxArgs none).set 0 (some word), strtok rest⟩ := by
    refine ⟨rfl, Nat.succ_pos 5, ?_, rfl⟩
    intro i (hi : i < 1)
    exact ⟨word, by rw [Nat.lt_one_iff.mp hi]; rfl⟩
  have hroom : maxArgs - 1 < fuel := by
    have hmax : 0 < maxArgs := by decide
    omega
  rcases hstored.args Nat.one_pos hroom with ⟨s', hargs, hs'⟩
  rcases hs'.runCmd with ⟨v, hv, hquit⟩
  refine ⟨v, ?_, hquit⟩
  rw [parseCmd, hline]
  dsimp only
  rw [iterate_again hpass, hargs, Option.map_some]
  exact congrArg some hv

/-- `parse_cmd` on a string without one. -/
theorem parseCmd_blank {line : Cells Byte} {str : List Byte} (hline : cstr line = some str)
    (hword : strtok str = none) {fuel : Nat} (hfuel : maxArgs < fuel) :
    parseCmd fuel line = some (.error .strcmpNull) := by
  obtain ⟨fuel, rfl⟩ : ∃ n, fuel = n + 1 := ⟨fuel - 1, by omega⟩
  rw [parseCmd, hline]
  dsimp only
  rw [hword, iterate_done rfl]
  rfl

/-! ## `repl` -/

/-- What becomes of the loop, for the lines that `readline` finds. -/
def serve : List (Option (List Byte)) → Except Fault Unit
  | [] => .ok ()
  | none :: _ => .error .lineIndex
  | some l :: ls =>
    if l = [] then serve ls
    else
      match strtok l with
      | none => .error .strcmpNull
      | some (word, _) => if word = quitName then .ok () else serve ls

theorem replPass_line {stdin rest l : List Byte} {line : Cells Byte} {fuel : Nat}
    (hargs : maxArgs < fuel) (hread : readline fuel stdin = some (.ok (some line, rest)))
    (hline : line.Holds (l ++ [0])) (hzero : 0 ∉ l) (ls : List (Option (List Byte))) :
    (replPass fuel stdin = some (.again rest) ∧ serve (some l :: ls) = serve ls) ∨
      replPass fuel stdin = some (.done (serve (some l :: ls))) := by
  have hstr : cstr line = some l := cstr_of_holds hline hzero
  cases l with
  | nil =>
      have hfirst : line.read 0 = some 0 := hline 0 0 rfl
      refine .inl ⟨?_, rfl⟩
      rw [replPass, hread]
      dsimp only [Option.bind_eq_bind, Option.bind_some]
      rw [hfirst]
      rfl
  | cons b l =>
      have hfirst : line.read 0 = some b := hline 0 b rfl
      have hb : b ≠ 0 := fun hb => hzero (hb ▸ List.mem_cons_self)
      have hpass : replPass fuel stdin = (do
          match ← parseCmd fuel line with
          | .error fault => return .done (.error fault)
          | .ok none => return .done (.ok ())
          | .ok (some _) => return .again rest) := by
        rw [replPass, hread]
        dsimp only [Option.bind_eq_bind, Option.bind_some]
        rw [hfirst]
        exact if_neg hb
      rw [hpass, serve, if_neg (List.cons_ne_nil b l)]
      rcases htok : strtok (b :: l) with _ | ⟨word, behind⟩
      · rw [parseCmd_blank hstr htok hargs]
        exact .inr rfl
      · rcases parseCmd_word hstr htok hargs with ⟨v, hv, hquit⟩
        rw [hv]
        dsimp only
        cases v with
        | none =>
            rw [if_pos (hquit.mp rfl)]
            exact .inr rfl
        | some v =>
            rw [if_neg fun h => absurd (hquit.mpr h) (Option.some_ne_none v)]
            exact .inl ⟨rfl, rfl⟩

theorem repl_serves {stdin : List Byte} {fuel n : Nat} (hargs : maxArgs < fuel)
    (hfuel : stdin.length < fuel) (hn : stdin.length < n) :
    iterate (replPass fuel) n stdin = some (serve (lines [] (texts stdin))) := by
  induction n generalizing stdin with
  | zero => omega
  | succ n ih =>
      rcases readline_gives hfuel with ⟨r, hr, hgives⟩
      generalize lines [] (texts stdin) = ls at hgives
      cases hgives with
      | stop => exact iterate_done (by rw [replPass, hr]; rfl) n
      | fault => exact iterate_done (by rw [replPass, hr]; rfl) n
      | line holds nonzero shorter =>
          rcases replPass_line hargs hr holds nonzero _ with ⟨hagain, hserve⟩ | hdone
          · rw [iterate_again hagain, hserve]
            exact ih (by omega) (by omega)
          · exact iterate_done hdone n

/-- A line that the loop takes: it is found, and it is empty or has a word. -/
def Served (l : Option (List Byte)) : Prop :=
  ∃ str, l = some str ∧ (str = [] ∨ ∃ b ∈ str, ¬ isDelim b)

/-- A line that ends the program: its first word is `quit`. -/
def quits (l : Option (List Byte)) : Bool := (l.bind strtok).map Prod.fst = some quitName

/-- Every line is taken, up to one that ends the program. -/
def LinesOk (stdin : List Byte) : Prop :=
  ∀ l ∈ (lines [] (texts stdin)).takeWhile (! quits ·), Served l

theorem served_word {str word rest : List Byte} (h : strtok str = some (word, rest)) :
    Served (some str) := by
  refine ⟨str, rfl, .inr ?_⟩
  by_contra hnone
  have hall : ∀ b ∈ str, isDelim b := fun b hb => by_contra fun hd => hnone ⟨b, hb, hd⟩
  rw [strtok_eq_none.mpr hall] at h
  cases h

theorem not_served_blank {str : List Byte} (hne : str ≠ []) (h : strtok str = none) :
    ¬ Served (some str) := by
  rintro ⟨_, ⟨⟩, hnil | ⟨b, hb, hd⟩⟩
  · exact hne hnil
  · exact hd (strtok_eq_none.mp h b hb)

theorem quits_word {str word rest : List Byte} (h : strtok str = some (word, rest)) :
    quits (some str) = decide (word = quitName) := by
  rw [quits, Option.bind_some, h]
  exact decide_eq_decide.mpr Option.some_inj

theorem served_cons {l : Option (List Byte)} (h : quits l = false)
    (ls : List (Option (List Byte))) :
    (∀ x ∈ (l :: ls).takeWhile (! quits ·), Served x) ↔
      Served l ∧ ∀ x ∈ ls.takeWhile (! quits ·), Served x := by
  rw [List.takeWhile_cons, h]
  exact List.forall_mem_cons

theorem serve_ok_iff (ls : List (Option (List Byte))) :
    serve ls = .ok () ↔ ∀ l ∈ ls.takeWhile (! quits ·), Served l := by
  induction ls with
  | nil => exact ⟨fun _ => List.forall_mem_nil _, fun _ => rfl⟩
  | cons l ls ih =>
      rcases l with _ | str
      · have hbad : ¬ Served none := fun ⟨_, h, _⟩ => Option.some_ne_none _ h.symm
        rw [served_cons rfl, serve]
        exact ⟨fun h => (nomatch h), fun h => absurd h.1 hbad⟩
      · rw [serve]
        by_cases hnil : str = []
        · rw [if_pos hnil, served_cons (by rw [hnil]; rfl), ih]
          exact ⟨fun h => ⟨⟨str, rfl, .inl hnil⟩, h⟩, And.right⟩
        · rw [if_neg hnil]
          rcases htok : strtok str with _ | ⟨word, rest⟩
          · have hq : quits (some str) = false := by
              rw [quits, Option.bind_some, htok]
              rfl
            rw [served_cons hq]
            exact ⟨fun h => (nomatch h), fun h => absurd h.1 (not_served_blank hnil htok)⟩
          · dsimp only
            by_cases hword : word = quitName
            · rw [if_pos hword, List.takeWhile_cons, quits_word htok, decide_eq_true hword]
              exact ⟨fun _ => List.forall_mem_nil _, fun _ => rfl⟩
            · rw [if_neg hword, served_cons ((quits_word htok).trans (decide_eq_false hword)), ih]
              exact ⟨fun h => ⟨served_word htok, h⟩, And.right⟩

theorem serve_ne_argvStore (ls : List (Option (List Byte))) : serve ls ≠ .error .argvStore := by
  induction ls with
  | nil => exact fun h => nomatch h
  | cons l ls ih =>
      rcases l with _ | str
      · exact fun h => nomatch h
      · rw [serve]
        split
        · exact ih
        · split
          · exact fun h => nomatch h
          · split
            · exact fun h => nomatch h
            · exact ih

/-- The loop ends for every stream, and never stores outside of `argv`. It is free of the other
faults exactly for the streams with good lines. -/
theorem repl_safe_iff (stdin : List Byte) : ∃ n r,
    (∀ fuel ≥ n, repl fuel stdin = some r) ∧ r ≠ .error .argvStore ∧
      (r = .ok () ↔ LinesOk stdin) := by
  refine ⟨stdin.length + maxArgs + 1, serve (lines [] (texts stdin)), ?_,
    serve_ne_argvStore _, serve_ok_iff _⟩
  intro fuel hfuel
  exact repl_serves (by omega) (by omega) (by omega)

/-- A line of one blank, and a stream of one NUL byte. -/
theorem repl_safe_counterexample : repl 8 [0x20, 0x0A] = some (.error .strcmpNull) ∧
    repl 8 [0x00] = some (.error .lineIndex) := ⟨rfl, rfl⟩

end StupidOS.Fdisk.Repl
