import StupidOS.Lib.StringOps
import StupidOS.Kernel.Const

/-!
# The CGA console (`dev/at/cga.inc`)

`cga_putc` keeps the cursor in two registers of the CRT controller, as one linear index
into the text memory. `Terminal` is what the console is for: 25 rows of 80 cells and a
cursor. `Shows` relates the two, and `putc_shows` is the step lemma of the refinement.
-/

namespace StupidOS.Kernel

/-! ## The device -/

def cgaMemory : Word := 0xC00B8000
def cgaCursorHigh : Byte := 0xE
def cgaCursorLow : Byte := 0xF
def cgaColumns : Byte := 80
def cgaLines : Byte := 24

/-- The CRT controller: `CGA_COMMAND` selects the register that is read and written at
`CGA_DATA`. -/
structure Crtc where
  index : Byte
  reg : Byte → Byte

/-- `out dx, al` with DX = `CGA_COMMAND` -/
def Crtc.command (d : Crtc) (al : Byte) : Crtc := { d with index := al }

/-- `out dx, al` with DX = `CGA_DATA` -/
def Crtc.write (d : Crtc) (al : Byte) : Crtc :=
  { d with reg := fun i => if i = d.index then al else d.reg i }

/-- `in al, dx` with DX = `CGA_DATA` -/
def Crtc.read (d : Crtc) : Byte := d.reg d.index

/-- The kernel as far as the console needs it. The direction flag is clear. -/
structure Cga where
  mem : Mem
  crtc : Crtc
  /-- `bCGAColor` -/
  color : Byte
  esi : Word
  edi : Word

/-! ## The routines -/

/-- `cga_getpos`, with AX -/
def cgaGetpos (s : Cga) : Half × Cga :=
  let crtc := s.crtc.command cgaCursorHigh
  let ah := crtc.read
  let crtc := crtc.command cgaCursorLow
  (ah ++ crtc.read, { s with crtc })

/-- `cga_setpos` -/
def cgaSetpos (ax : Half) (s : Cga) : Cga :=
  let crtc := (s.crtc.command cgaCursorHigh).write (ax.extractLsb' 8 8)
  { s with crtc := (crtc.command cgaCursorLow).write (ax.setWidth 8) }

/-- `div dl` of AX: the remainder (AH) and the quotient (AL). A quotient of more than
8 bits faults. -/
def div8 (ax : Half) (dl : Byte) : Option (Byte × Byte) :=
  if dl = 0 ∨ 256 ≤ ax.toNat / dl.toNat then none
  else some (BitVec.ofNat 8 (ax.toNat % dl.toNat), BitVec.ofNat 8 (ax.toNat / dl.toNat))

/-- The two block operations of `scroll up`. -/
def scrollUp (mem : Mem) : Mem :=
  (mem.repMovsw (80 * 24) (cgaMemory + 80 * 2) cgaMemory).repStosw 0 80
    (cgaMemory + 80 * 24 * 2)

/-- `scroll up` of `cga_putc`. ESI and EDI are popped in the order they were pushed. -/
def cgaScroll (s : Cga) : Cga :=
  { s with mem := scrollUp s.mem, esi := s.edi, edi := s.esi }

/-- `.next` of `cga_putc` -/
def cgaNext (cx : Half) (s : Cga) : Option Cga :=
  match div8 cx cgaColumns with
  | none => none
  | some (_, al) =>
    if al.ule cgaLines then some (cgaSetpos cx s)
    else some (cgaSetpos (80 * 24) (cgaScroll s))

/-- `cga_putc` -/
def cgaPutc (al : Byte) (s : Cga) : Option Cga :=
  let (pos, s) := cgaGetpos s
  if al = cr then some s
  else if al = lf then
    match div8 pos cgaColumns with
    | none => none
    | some (ah, _) => cgaNext (pos + (cgaColumns - ah).setWidth 16) s
  else
    let edx := cgaMemory + (pos <<< 1).setWidth 32
    cgaNext (pos + 1) { s with mem := s.mem.write16 edx (s.color ++ al) }

/-- What the callers do: `CGA_SET_COLOR`, and `cga_putc` of one byte. -/
inductive ConsoleOp where
  | setColor (col : Byte)
  | putc (al : Byte)
deriving DecidableEq, Repr

def ConsoleOp.exec (s : Cga) : ConsoleOp → Option Cga
  | .setColor col => some { s with color := col }
  | .putc al => cgaPutc al s

/-- The console after a sequence of calls. -/
def cgaRun (s : Cga) : List ConsoleOp → Option Cga
  | [] => some s
  | op :: ops =>
    match op.exec s with
    | none => none
    | some s' => cgaRun s' ops

/-! ## The terminal -/

/-- 25 rows of 80 cells, each an attribute and a character. -/
structure Terminal where
  cell : Fin 25 → Fin 80 → Half
  row : Fin 25
  col : Fin 80
  attr : Byte

namespace Terminal

/-- To column 0 of the next row; past the last row everything moves up. -/
def newline (t : Terminal) : Terminal :=
  if h : t.row.val + 1 < 25 then { t with row := ⟨t.row.val + 1, h⟩, col := 0 }
  else
    { t with
      cell := fun r c => if hr : r.val + 1 < 25 then t.cell ⟨r.val + 1, hr⟩ c else 0
      row := 24
      col := 0 }

/-- One cell to the right. -/
def advance (t : Terminal) : Terminal :=
  if h : t.col.val + 1 < 80 then { t with col := ⟨t.col.val + 1, h⟩ } else t.newline

/-- A character at the cursor. -/
def write (t : Terminal) (b : Byte) : Terminal :=
  { t with cell := fun r c => if r = t.row ∧ c = t.col then t.attr ++ b else t.cell r c }

def putc (t : Terminal) (b : Byte) : Terminal :=
  if b = cr then t
  else if b = lf then t.newline
  else (t.write b).advance

def exec (t : Terminal) : ConsoleOp → Terminal
  | .setColor col => { t with attr := col }
  | .putc b => t.putc b

def run (t : Terminal) (ops : List ConsoleOp) : Terminal := ops.foldl exec t

/-- The cursor as a linear index. -/
def cursor (t : Terminal) : Nat := 80 * t.row.val + t.col.val

/-- The text memory of the terminal, two bytes a cell, the character first. -/
def byte (t : Terminal) (i : Fin 4000) : Byte :=
  Mem.byteOf16 (t.cell ⟨i.val / 160, by omega⟩ ⟨i.val % 160 / 2, by omega⟩) (i.val % 2)

theorem cursor_lt (t : Terminal) : t.cursor < 2000 := by
  have hrow := t.row.isLt
  have hcol := t.col.isLt
  unfold cursor
  omega

end Terminal

/-! ## The refinement relation -/

/-- The cursor registers. -/
def Cga.pos (s : Cga) : Half := s.crtc.reg cgaCursorHigh ++ s.crtc.reg cgaCursorLow

/-- The address of cell `i` of the text memory. -/
def cellAddr (i : Nat) : Word := cgaMemory + BitVec.ofNat 32 (2 * i)

/-- The text memory and the attribute of `s` are those of the terminal `t`. -/
structure Draws (s : Cga) (t : Terminal) : Prop where
  cell : ∀ r c, s.mem.read16 (cellAddr (80 * r.val + c.val)) = t.cell r c
  attr : s.color = t.attr

/-- So is the cursor. -/
structure Shows (s : Cga) (t : Terminal) : Prop extends Draws s t where
  cursor : s.pos.toNat = t.cursor

/-- Nothing but the text memory has changed. -/
def OnlyText (m m' : Mem) : Prop := ∀ x, 4000 ≤ (x - cgaMemory).toNat → m' x = m x

theorem OnlyText.trans {m m' m'' : Mem} (h : OnlyText m m') (h' : OnlyText m' m'') :
    OnlyText m m'' := by
  intro x hx
  rw [h' x hx, h x hx]

/-- Byte by byte, the text memory is that of the terminal. -/
theorem Shows.byte {s : Cga} {t : Terminal} (h : Shows s t) (i : Fin 4000) :
    s.mem (cgaMemory + BitVec.ofNat 32 i.val) = t.byte i := by
  have hi := i.isLt
  have hpar : i.val % 2 < 2 := Nat.mod_lt _ (by omega)
  have haddr : cgaMemory + BitVec.ofNat 32 i.val
      = cellAddr (80 * (i.val / 160) + i.val % 160 / 2) + BitVec.ofNat 32 (i.val % 2) := by
    rw [cellAddr, BitVec.add_assoc, ← BitVec.ofNat_add]
    congr 2
    omega
  rw [Terminal.byte, ← h.cell, Mem.byteOf16_read16 _ _ hpar, haddr]

/-! ### The cursor -/

-- the copies are long: unfolding them is never the way to a proof
attribute [irreducible] scrollUp

@[simp] theorem cgaGetpos_fst (s : Cga) : (cgaGetpos s).1 = s.pos := rfl

@[simp] theorem cgaGetpos_mem (s : Cga) : (cgaGetpos s).2.mem = s.mem := rfl

@[simp] theorem cgaGetpos_color (s : Cga) : (cgaGetpos s).2.color = s.color := rfl

@[simp] theorem cgaGetpos_pos (s : Cga) : (cgaGetpos s).2.pos = s.pos := rfl

@[simp] theorem cgaSetpos_mem (ax : Half) (s : Cga) : (cgaSetpos ax s).mem = s.mem := rfl

@[simp] theorem cgaSetpos_color (ax : Half) (s : Cga) : (cgaSetpos ax s).color = s.color := rfl

/-- The cursor registers read back what was written. -/
@[simp] theorem cgaSetpos_pos (ax : Half) (s : Cga) : (cgaSetpos ax s).pos = ax := by
  have hne : ¬ cgaCursorHigh = cgaCursorLow := by decide
  have hhigh : (cgaSetpos ax s).crtc.reg cgaCursorHigh = ax.extractLsb' 8 8 := by
    simp [cgaSetpos, Crtc.write, Crtc.command, hne]
  have hlow : (cgaSetpos ax s).crtc.reg cgaCursorLow = ax.setWidth 8 := by
    simp [cgaSetpos, Crtc.write, Crtc.command]
  rw [Cga.pos, hhigh, hlow]
  exact Mem.append_byteOf16 ax

/-! ### One cell -/

theorem cellAddr_sub {i : Nat} (hi : i < 2000) : (cellAddr i - cgaMemory).toNat = 2 * i := by
  rw [cellAddr, BitVec.add_comm, BitVec.add_sub_cancel, BitVec.toNat_ofNat]
  omega

/-- The address that `cga_putc` computes from the cursor. -/
theorem cellAddr_pos {pos : Half} (h : pos.toNat < 2000) :
    cgaMemory + (pos <<< 1).setWidth 32 = cellAddr pos.toNat := by
  rw [cellAddr]
  congr 1
  apply BitVec.eq_of_toNat_eq
  rw [BitVec.toNat_setWidth_of_le (by omega), BitVec.toNat_shiftLeft, BitVec.toNat_ofNat,
    Nat.shiftLeft_eq]
  omega

theorem cellAddr_sep {i j : Nat} (hi : i < 2000) (hj : j < 2000) (hne : i ≠ j) :
    Sep (cellAddr i) 2 (cellAddr j) 2 := by
  have hsubi := cellAddr_sub hi
  have hsubj := cellAddr_sub hj
  unfold Sep
  constructor <;> bv_omega

theorem onlyText_write16 (m : Mem) {i : Nat} (hi : i < 2000) (h : Half) :
    OnlyText m (m.write16 (cellAddr i) h) := by
  intro x hx
  have hsub := cellAddr_sub hi
  apply Mem.write16_frame
  bv_omega

/-- A character is drawn at the cursor. -/
theorem Shows.write {s : Cga} {t : Terminal} (h : Shows s t) (al : Byte) :
    Draws { s with mem := s.mem.write16 (cellAddr s.pos.toNat) (s.color ++ al) }
      (t.write al) := by
  refine ⟨?_, h.attr⟩
  intro r c
  have hr := r.isLt
  have hc := c.isLt
  have hlt := t.cursor_lt
  rw [h.cursor, h.attr, Terminal.write]
  dsimp only
  by_cases hhere : r = t.row ∧ c = t.col
  · rw [if_pos hhere, hhere.1, hhere.2]
    exact Mem.read16_write16 _ _ _
  · have hne : 80 * r.val + c.val ≠ t.cursor := by
      intro heq
      have hcol := t.col.isLt
      unfold Terminal.cursor at heq
      exact hhere ⟨Fin.ext (by omega), Fin.ext (by omega)⟩
    rw [if_neg hhere, Mem.read16_write16_of_sep _ _ (cellAddr_sep (by omega) hlt hne)]
    exact h.cell r c

/-! ### Scrolling -/

theorem scrollUp_apply (m : Mem) (x : Word) : scrollUp m x =
    if (x - (cgaMemory + 80 * 24 * 2)).toNat < 160 then 0
    else if (x - cgaMemory).toNat < 3840 then m (x + 160) else m x := by
  have hzero : ∀ i, Mem.byteOf16 0 i = 0 := by
    intro i
    simp [Mem.byteOf16]
  have hdist : (cgaMemory + 80 * 2 - cgaMemory : Word).toNat = 160 := by decide
  have hsource : x - cgaMemory + (cgaMemory + 80 * 2) = x + 160 := by bv_omega
  rw [scrollUp, Mem.repStosw_apply _ _ _ _ _ (by omega),
    Mem.repMovsw_apply _ _ _ _ _ (by omega) (by omega), hzero, hsource]

/-- Row `r` shows what row `r + 1` did, and the last row is cleared. -/
theorem scrollUp_read16 (m : Mem) {i : Nat} (hi : i < 2000) :
    (scrollUp m).read16 (cellAddr i)
      = if i < 1920 then m.read16 (cellAddr (i + 80)) else 0 := by
  have hsub := cellAddr_sub hi
  have hlast : ∀ x : Word, x = cellAddr i ∨ x = cellAddr i + 1 →
      ((x - (cgaMemory + 80 * 24 * 2)).toNat < 160 ↔ 1920 ≤ i) ∧
        (i < 1920 → (x - cgaMemory).toNat < 3840) := by
    intro x hx
    unfold cgaMemory at *
    rcases hx with rfl | rfl
    · constructor <;> bv_omega
    · constructor <;> bv_omega
  rcases hlast _ (Or.inl rfl) with ⟨hlast0, hrow0⟩
  rcases hlast _ (Or.inr rfl) with ⟨hlast1, hrow1⟩
  rw [Mem.read16, scrollUp_apply, scrollUp_apply]
  by_cases hrow : i < 1920
  · have hnot : ¬ 1920 ≤ i := by omega
    have hnext : cellAddr i + 160 = cellAddr (i + 80) := by
      rw [cellAddr, cellAddr, BitVec.add_assoc]
      congr 1
      bv_omega
    have hnext1 : cellAddr i + 1 + 160 = cellAddr (i + 80) + 1 := by
      rw [← hnext, BitVec.add_assoc, BitVec.add_assoc]
      rfl
    rw [if_pos hrow, if_neg (mt hlast0.mp hnot), if_neg (mt hlast1.mp hnot), if_pos (hrow0 hrow),
      if_pos (hrow1 hrow), hnext, hnext1, Mem.read16]
  · rw [if_neg hrow, if_pos (hlast0.mpr (by omega)), if_pos (hlast1.mpr (by omega))]
    rfl

theorem onlyText_scrollUp (m : Mem) : OnlyText m (scrollUp m) := by
  intro x hx
  unfold cgaMemory at hx
  rw [scrollUp_apply, if_neg, if_neg]
  · unfold cgaMemory
    omega
  · unfold cgaMemory
    bv_omega

/-! ### The next position -/

theorem div8_columns {ax : Half} (h : ax.toNat ≤ 2000) :
    div8 ax cgaColumns
      = some (BitVec.ofNat 8 (ax.toNat % 80), BitVec.ofNat 8 (ax.toNat / 80)) := by
  have hcols : cgaColumns.toNat = 80 := rfl
  have hzero : ¬ cgaColumns = 0 := by decide
  rw [div8, hcols, if_neg]
  intro hfault
  rcases hfault with hfault | hfault
  · exact hzero hfault
  · omega

/-- `.next` with a position on the screen, and with the one behind it. -/
theorem cgaNext_eq {cx : Half} (h : cx.toNat ≤ 2000) (s : Cga) :
    cgaNext cx s = some (if cx.toNat < 2000 then cgaSetpos cx s
      else cgaSetpos (80 * 24) (cgaScroll s)) := by
  have hlines : cgaLines.toNat = 24 := rfl
  have hquot : (BitVec.ofNat 8 (cx.toNat / 80)).toNat = cx.toNat / 80 := by
    rw [BitVec.toNat_ofNat]
    omega
  rw [cgaNext, div8_columns h]
  dsimp only
  rw [BitVec.ule, hquot, hlines]
  by_cases hon : cx.toNat < 2000
  · rw [if_pos hon, if_pos (decide_eq_true (by omega))]
  · have hnot : ¬ decide (cx.toNat / 80 ≤ 24) = true := by
      rw [decide_eq_true_iff]
      omega
    rw [if_neg hon, if_neg hnot]

/-- A step of the console from `s` that brings it to the terminal `t`. -/
structure Moved (s s' : Cga) (t : Terminal) : Prop where
  shows : Shows s' t
  onlyText : OnlyText s.mem s'.mem

/-- Position `80 * (row + 1)` is the start of the next line. -/
theorem cgaNext_newline {s : Cga} {t : Terminal} (h : Draws s t) {cx : Half}
    (hcx : cx.toNat = 80 * (t.row.val + 1)) :
    ∃ s', cgaNext cx s = some s' ∧ Moved s s' t.newline := by
  have hrow := t.row.isLt
  refine ⟨_, cgaNext_eq (by omega) s, ?_⟩
  -- past the last row the screen scrolls
  by_cases hon : t.row.val + 1 < 25
  · rw [if_pos (by omega)]
    refine ⟨⟨⟨?_, ?_⟩, ?_⟩, fun x _ => rfl⟩
    · intro r c
      rw [Terminal.newline, dif_pos hon]
      exact h.cell r c
    · rw [Terminal.newline, dif_pos hon]
      exact h.attr
    · rw [cgaSetpos_pos, hcx, Terminal.newline, dif_pos hon]
      rfl
  · rw [if_neg (by omega)]
    refine ⟨⟨⟨?_, ?_⟩, ?_⟩, onlyText_scrollUp s.mem⟩
    · intro r c
      have hr := r.isLt
      have hc := c.isLt
      rw [Terminal.newline, dif_neg hon, cgaSetpos_mem, cgaScroll, scrollUp_read16 _ (by omega)]
      dsimp only
      -- a row gets what the row below held, the last one blanks
      by_cases hlast : r.val + 1 < 25
      · have hnext : 80 * r.val + c.val + 80 = 80 * (r.val + 1) + c.val := by omega
        rw [dif_pos hlast, if_pos (by omega), hnext]
        exact h.cell ⟨r.val + 1, hlast⟩ c
      · rw [dif_neg hlast, if_neg (by omega)]
    · rw [Terminal.newline, dif_neg hon]
      exact h.attr
    · rw [cgaSetpos_pos, Terminal.newline, dif_neg hon]
      rfl

/-- Position `cursor + 1` is the next cell. -/
theorem cgaNext_advance {s : Cga} {t : Terminal} (h : Draws s t) {cx : Half}
    (hcx : cx.toNat = t.cursor + 1) :
    ∃ s', cgaNext cx s = some s' ∧ Moved s s' t.advance := by
  have hrow := t.row.isLt
  have hcol := t.col.isLt
  unfold Terminal.cursor at hcx
  by_cases hin : t.col.val + 1 < 80
  · refine ⟨_, cgaNext_eq (by omega) s, ?_⟩
    rw [if_pos (by omega), Terminal.advance, dif_pos hin]
    refine ⟨⟨⟨h.cell, h.attr⟩, ?_⟩, fun x _ => rfl⟩
    rw [cgaSetpos_pos, hcx]
    rfl
  · rw [Terminal.advance, dif_neg hin]
    exact cgaNext_newline h (by omega)

/-! ### The refinement -/

/-- The step of the refinement: one byte. -/
theorem putc_shows {s : Cga} {t : Terminal} (h : Shows s t) (al : Byte) :
    ∃ s', cgaPutc al s = some s' ∧ Moved s s' (t.putc al) := by
  have hrow := t.row.isLt
  have hcol := t.col.isLt
  have hcursor := h.cursor
  have hlt := t.cursor_lt
  have hget : Draws (cgaGetpos s).2 t := ⟨h.cell, h.attr⟩
  rw [cgaPutc, Terminal.putc]
  dsimp only
  rw [cgaGetpos_fst]
  by_cases hcr : al = cr
  · rw [if_pos hcr, if_pos hcr]
    exact ⟨_, rfl, ⟨hget, hcursor⟩, fun x _ => rfl⟩
  rw [if_neg hcr, if_neg hcr]
  by_cases hlf : al = lf
  · -- 80 less the column, added to the position
    have hcols : cgaColumns.toNat = 80 := rfl
    have hmod : s.pos.toNat % 80 = t.col.val := by
      rw [hcursor]
      unfold Terminal.cursor
      omega
    have hnext : (s.pos + (cgaColumns - BitVec.ofNat 8 (s.pos.toNat % 80)).setWidth 16).toNat
        = 80 * (t.row.val + 1) := by
      rw [hmod, BitVec.toNat_add, BitVec.toNat_setWidth_of_le (by omega), BitVec.toNat_sub, hcols,
        BitVec.toNat_ofNat, hcursor]
      unfold Terminal.cursor
      omega
    rw [if_pos hlf, if_pos hlf, div8_columns (by omega)]
    rcases cgaNext_newline hget hnext with ⟨s', hrun, hshows, honly⟩
    exact ⟨s', hrun, hshows, honly⟩
  · rw [if_neg hlf, if_neg hlf, cgaGetpos_mem, cgaGetpos_color, cellAddr_pos (by omega)]
    have hdraw : Draws { (cgaGetpos s).2 with
        mem := s.mem.write16 (cellAddr s.pos.toNat) (s.color ++ al) } (t.write al) :=
      ⟨(h.write al).cell, (h.write al).attr⟩
    have hpos : (s.pos + 1).toNat = (t.write al).cursor + 1 := by
      have hsame : (t.write al).cursor = t.cursor := rfl
      rw [hsame, ← hcursor]
      bv_omega
    rcases cgaNext_advance hdraw hpos with ⟨s', hrun, hshows, honly⟩
    exact ⟨s', hrun, hshows, (onlyText_write16 s.mem (by omega) _).trans honly⟩

theorem exec_shows {s : Cga} {t : Terminal} (h : Shows s t) (op : ConsoleOp) :
    ∃ s', op.exec s = some s' ∧ Moved s s' (t.exec op) := by
  cases op with
  | setColor col => exact ⟨_, rfl, ⟨⟨h.cell, rfl⟩, h.cursor⟩, fun x _ => rfl⟩
  | putc al => exact putc_shows h al

theorem run_shows {s : Cga} {t : Terminal} (h : Shows s t) (ops : List ConsoleOp) :
    ∃ s', cgaRun s ops = some s' ∧ Moved s s' (t.run ops) := by
  induction ops generalizing s t with
  | nil => exact ⟨s, rfl, h, fun x _ => rfl⟩
  | cons op ops ih =>
      rcases exec_shows h op with ⟨s₁, hstep, hmoved⟩
      rcases ih hmoved.shows with ⟨s', hrun, hmoved'⟩
      refine ⟨s', ?_, hmoved'.shows, hmoved.onlyText.trans hmoved'.onlyText⟩
      rw [cgaRun, hstep]
      exact hrun

/-- The terminal that a screen shows. -/
def terminalOf (s : Cga) (h : s.pos.toNat < 2000) : Terminal where
  cell := fun r c => s.mem.read16 (cellAddr (80 * r.val + c.val))
  row := ⟨s.pos.toNat / 80, by omega⟩
  col := ⟨s.pos.toNat % 80, by omega⟩
  attr := s.color

theorem terminalOf_shows (s : Cga) (h : s.pos.toNat < 2000) : Shows s (terminalOf s h) :=
  ⟨⟨fun _ _ => rfl, rfl⟩, (Nat.div_add_mod _ _).symm⟩

/-- **The console is a terminal.** From any screen and any cursor on it, every sequence
of bytes leaves in the text memory and the cursor registers what it leaves in the terminal,
and changes no byte outside the text memory. -/
theorem cgaRun_refines (s : Cga) (h : s.pos.toNat < 2000) (ops : List ConsoleOp) :
    ∃ s', cgaRun s ops = some s' ∧
      (∀ i : Fin 4000, s'.mem (cgaMemory + BitVec.ofNat 32 i.val)
        = ((terminalOf s h).run ops).byte i) ∧
      s'.pos.toNat = ((terminalOf s h).run ops).cursor ∧ s'.pos.toNat < 2000 ∧
      (∀ x, 4000 ≤ (x - cgaMemory).toNat → s'.mem x = s.mem x) := by
  rcases run_shows (terminalOf_shows s h) ops with ⟨s', hrun, hshows, honly⟩
  refine ⟨s', hrun, hshows.byte, hshows.cursor, ?_, honly⟩
  rw [hshows.cursor]
  exact Terminal.cursor_lt _

/-- An empty screen with the cursor in the first cell. -/
def blankScreen : Cga where
  mem := fun _ => 0
  crtc := ⟨0, fun _ => 0⟩
  color := 0x07
  esi := 0
  edi := 0

/-- `A` and a line feed. -/
theorem cgaRun_refines_blank :
    ∃ s', cgaRun blankScreen [.putc 0x41, .putc lf] = some s' ∧
      s'.mem (cgaMemory + BitVec.ofNat 32 0) = 0x41 ∧ s'.pos.toNat = 80 := by
  rcases cgaRun_refines blankScreen (by decide) [.putc 0x41, .putc lf] with
    ⟨s', hrun, hbyte, hcursor, -, -⟩
  refine ⟨s', hrun, ?_, ?_⟩
  · rw [hbyte ⟨0, Nat.zero_lt_succ _⟩]
    decide
  · rw [hcursor]
    decide

end StupidOS.Kernel
