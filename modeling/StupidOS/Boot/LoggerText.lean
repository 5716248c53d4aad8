import StupidOS.Boot.Logger
import StupidOS.Lib.Numeral

/-!
# What the BIOS loader logs (`boot/loader/logger.inc`)

`render` is what a format and its arguments come to. `bios_log`, `bios_log_warn` and
`bios_log_error` write that as a line with the time in front (`biosLogAt_renders`).
-/

namespace StupidOS.Boot.Logger

/-! ## The data of the logger -/

section Labels

variable (szTime : Half)

def szLogError : Half := szTime + 43
def szLogWarn : Half := szTime + 51

end Labels

/-- `ERROR: ` -/
def errorText : List Byte := [0x45, 0x52, 0x52, 0x4F, 0x52, 0x3A, 0x20]

/-- `WARN: ` -/
def warnText : List Byte := [0x57, 0x41, 0x52, 0x4E, 0x3A, 0x20]

/-- The bytes from `szTime` on. -/
def image : List Byte :=
  [0x5B, 0x30, 0x30, 0x3A, 0x30, 0x30, 0x3A, 0x30, 0x30, 0x5D, 0x20, 0] ++ [0x30, 0x78, 0] ++
    (List.range 16).map hexDigit ++ [0x0D, 0x0A, 0] ++ List.replicate 8 0x30 ++ [0] ++
    errorText ++ [0] ++ warnText ++ [0]

/-- The digits of the time, and the buffer. -/
def Stored (i : Nat) : Prop := i ∈ [1, 2, 4, 5, 7, 8] ∨ (34 ≤ i ∧ i < 43)

instance (i : Nat) : Decidable (Stored i) := inferInstanceAs (Decidable (_ ∨ _))

section Image

variable (szTime : Half)

/-- Nothing is stored there. -/
def Stays (x : Half) : Prop := ¬ Stored (x - szTime).toNat

instance (x : Half) : Decidable (Stays szTime x) := inferInstanceAs (Decidable (¬ _))

/-- The bytes from `szTime` on are there. -/
def InImage (m : Half → Byte) : Prop :=
  ∀ i b, image[i]? = some b → ¬ Stored i → m (szTime + BitVec.ofNat 16 i) = b

def OnlyStored (m m' : Half → Byte) : Prop := ∀ x, Stays szTime x → m' x = m x

/-- The bytes are written, and nothing is stored elsewhere. -/
structure Writes (bytes : List Byte) (s s' : Screen) : Prop where
  out : s'.out = s.out ++ bytes
  only : OnlyStored szTime s.mem s'.mem

end Image

/-! ## The routines -/

section Routines

variable (szTime : Half) (fuel : Nat)

/-- `bios_log` from `.loop` on -/
def logLoop (si : Half) (stack : List Half) (s : Screen) :
    Option (Half × List Half × Screen) := do
  let (_, stack, s) ← iterate (logPass szTime fuel) fuel (si, stack, s)
  let s ← biosPrint fuel (szEndLine szTime) s
  match stack with
  | [] => none
  | ret :: stack => return (ret, stack, s)

/-- `bios_log_error` from `.common` on, with the prefix in SI. What SI was is pushed and popped. -/
def logCommon (label si : Half) (stack : List Half) (s : Screen) :
    Option (Half × List Half × Screen) := do
  let s ← biosPrint fuel label s
  logLoop szTime fuel si stack s

/-- `bios_log_warn` -/
def biosLogWarn (rtc : RtcTime) (si : Half) (stack : List Half) (s : Screen) :
    Option (Half × List Half × Screen) := do
  let s ← biosLogTime szTime fuel rtc s
  logCommon szTime fuel (szLogWarn szTime) si stack s

/-- `bios_log_error` -/
def biosLogError (rtc : RtcTime) (si : Half) (stack : List Half) (s : Screen) :
    Option (Half × List Half × Screen) := do
  let s ← biosLogTime szTime fuel rtc s
  logCommon szTime fuel (szLogError szTime) si stack s

/-- The three logs. -/
inductive Level
  | plain
  | warn
  | error
deriving DecidableEq, Repr

/-- What is in front of the text. -/
def Level.text : Level → List Byte
  | .plain => []
  | .warn => warnText
  | .error => errorText

def biosLogAt : Level → RtcTime → Half → List Half → Screen → Option (Half × List Half × Screen)
  | .plain => biosLog szTime fuel
  | .warn => biosLogWarn szTime fuel
  | .error => biosLogError szTime fuel

end Routines

/-! ## What a format comes to -/

/-- The two digits of a binary-coded decimal. -/
def bcdDigits (al : Byte) : List Byte := [((al >>> 4) &&& 0xF) + 0x30, (al &&& 0xF) + 0x30]

/-- `[hh:mm:ss] ` -/
def timeText (rtc : RtcTime) : List Byte :=
  [0x5B] ++ bcdDigits rtc.ch ++ [0x3A] ++ bcdDigits rtc.cl ++ [0x3A] ++ bcdDigits rtc.dh ++
    [0x5D, 0x20]

/-- `0`, or 8 digits, behind `0x`. -/
def hexText (v : Word) : List Byte := [0x30, 0x78] ++ if v = 0 then [0x30] else hexFixed 8 v.toNat

/-- An argument: a string and where it is, a double word or a word. -/
inductive Arg
  | str (p : Half) (chars : List Byte)
  | hex (v : Word)
  | dec (v : Half)

/-- What is pushed for it, from the top on. -/
def Arg.words : Arg → List Half
  | .str p _ => [p]
  | .hex v => [v.setWidth 16, v.extractLsb' 16 16]
  | .dec v => [v]

/-- What stands behind the `%` of its directive. -/
def Arg.char : Arg → Byte
  | .str _ _ => 0x73
  | .hex _ => 0x78
  | .dec _ => 0x64

def Arg.text : Arg → List Byte
  | .str _ chars => chars
  | .hex v => hexText v
  | .dec v => decimal v.toNat

/-- `s`, `x` and `d` -/
def takesArg (al : Byte) : Bool := al = 0x73 || al = 0x78 || al = 0x64

/-- What a format and its arguments come to. Nothing, when a `%` stands at the end or the
arguments are others. -/
def render : List Byte → List Arg → Option (List Byte)
  | [], [] => some []
  | [], _ :: _ => none
  | al :: fmt, args =>
    if al = 0x25 then
      match fmt with
      | [] => none
      | al :: fmt =>
        if takesArg al then
          match args with
          | [] => none
          | a :: args => if a.char = al then (render fmt args).map (a.text ++ ·) else none
        else (render fmt args).map ((if al = 0x25 then 0x25 else 0x3F) :: ·)
    else (render fmt args).map (al :: ·)

example : render [0x61, 0x25, 0x78, 0x25, 0x25, 0x25, 0x75] [.hex 0]
    = some [0x61, 0x30, 0x78, 0x30, 0x25, 0x3F] := by
  decide +kernel

/-! ## Stores -/

section Stores

variable {szTime : Half} {m m' m'' : Half → Byte} {s s' s'' : Screen}

theorem stays_label {i : Nat} (hi : i < 2 ^ 16) (hstored : ¬ Stored i) :
    Stays szTime (szTime + BitVec.ofNat 16 i) := by
  rw [Stays, offset_toNat szTime hi]
  exact hstored

theorem length_image : image.length = 58 := by decide

theorem OnlyStored.refl : OnlyStored szTime m m := fun _ _ => rfl

theorem OnlyStored.trans (h : OnlyStored szTime m m') (h' : OnlyStored szTime m' m'') :
    OnlyStored szTime m m'' := fun x hx => (h' x hx).trans (h x hx)

theorem OnlyStored.update {k : Nat} (hk : Stored k) (al : Byte) :
    OnlyStored szTime m (Function.update m (szTime + BitVec.ofNat 16 k) al) := by
  have hlt : k < 43 := by
    rcases hk with hmem | hbuffer
    · simp only [List.mem_cons, List.not_mem_nil, or_false] at hmem
      omega
    · exact hbuffer.2
  intro x hx
  refine Function.update_of_ne ?_ _ _
  rintro rfl
  rw [Stays, offset_toNat szTime (by omega)] at hx
  exact hx hk

theorem InImage.only (h : InImage szTime m) (honly : OnlyStored szTime m m') :
    InImage szTime m' := by
  intro i b hb hstored
  have hi := (List.getElem?_eq_some_iff.mp hb).1
  rw [length_image] at hi
  exact (honly _ (stays_label (by omega) hstored)).trans (h i b hb hstored)

/-- A string among the bytes that stay. -/
theorem InImage.str (h : InImage szTime m) {k : Nat} {str : List Byte} (hne : 0 ∉ str)
    (hstays : ∀ i, i < str.length + 1 → ¬ Stored (k + i))
    (heq : (image.drop k).take (str.length + 1) = str ++ [0]) :
    StrAt (Stays szTime) m (szTime + BitVec.ofNat 16 k) str := by
  refine ZStr.iff_cells.mpr ⟨hne, ?_⟩
  intro i b hb
  have hlen := (List.getElem?_eq_some_iff.mp hb).1
  rw [List.length_append, List.length_singleton] at hlen
  rw [← heq, List.getElem?_take_of_lt hlen, List.getElem?_drop] at hb
  have hi := (List.getElem?_eq_some_iff.mp hb).1
  rw [length_image] at hi
  rw [iterate_add_one, BitVec.add_assoc, ← BitVec.ofNat_add]
  exact ⟨stays_label (by omega) (hstays i hlen), h _ b hb (hstays i hlen)⟩

theorem InImage.hexPrefix (h : InImage szTime m) :
    StrAt (Stays szTime) m (szHexPrefix szTime) [0x30, 0x78] :=
  h.str (by decide) (by decide) (by decide)

theorem InImage.endLine (h : InImage szTime m) :
    StrAt (Stays szTime) m (szEndLine szTime) [0x0D, 0x0A] :=
  h.str (by decide) (by decide) (by decide)

theorem InImage.logError (h : InImage szTime m) :
    StrAt (Stays szTime) m (szLogError szTime) errorText :=
  h.str (by decide) (by decide) (by decide)

theorem InImage.logWarn (h : InImage szTime m) :
    StrAt (Stays szTime) m (szLogWarn szTime) warnText :=
  h.str (by decide) (by decide) (by decide)

theorem InImage.digit (h : InImage szTime m) {d : Nat} (hd : d < 16) :
    m (sDigits szTime + BitVec.ofNat 16 d) = hexDigit d := by
  have himage : image[15 + d]? = some (hexDigit d) := by
    interval_cases d <;> rfl
  have hstored : ¬ Stored (15 + d) := by
    rintro (hmem | hbuffer)
    · simp only [List.mem_cons, List.not_mem_nil, or_false] at hmem
      omega
    · omega
  have hbyte := h _ _ himage hstored
  rw [BitVec.ofNat_add, ← BitVec.add_assoc] at hbyte
  exact hbyte

theorem Writes.refl : Writes szTime [] s s := ⟨(List.append_nil _).symm, OnlyStored.refl⟩

theorem Writes.trans {bytes bytes' : List Byte} (h : Writes szTime bytes s s')
    (h' : Writes szTime bytes' s' s'') : Writes szTime (bytes ++ bytes') s s'' := by
  refine ⟨?_, h.only.trans h'.only⟩
  rw [h'.out, h.out, List.append_assoc]

theorem biosPrint_writes {fuel : Nat} {p : Half} {str : List Byte}
    (h : StrAt (Stays szTime) s.mem p str) (hfuel : str.length < fuel) :
    ∃ s', biosPrint fuel p s = some s' ∧ Writes szTime str s s' :=
  ⟨_, biosPrint_str h hfuel, rfl, OnlyStored.refl⟩

end Stores

/-! ## What each routine writes -/

section Writing

variable {szTime : Half} {s : Screen} {fuel : Nat}

/-! ### The time -/

theorem bcd_ne_zero (al : Byte) : (al &&& 0xF) + 0x30 ≠ 0 := by
  have hle : (al &&& 0xF).toNat ≤ 15 := by
    rw [BitVec.toNat_and]
    exact Nat.and_le_right
  bv_omega

theorem timeText_nonzero (rtc : RtcTime) : 0 ∉ timeText rtc := by
  have hdigits : ∀ al : Byte, 0 ∉ bcdDigits al := by
    intro al hmem
    rcases List.mem_pair.mp hmem with hzero | hzero
    · exact bcd_ne_zero _ hzero.symm
    · exact bcd_ne_zero _ hzero.symm
  simp only [timeText, List.mem_append, not_or]
  exact ⟨⟨⟨⟨⟨⟨by decide, hdigits _⟩, by decide⟩, hdigits _⟩, by decide⟩, hdigits _⟩, by decide⟩

/-- The memory once the time is stored. -/
def stamped (szTime : Half) (rtc : RtcTime) (s : Screen) : Screen :=
  storeBcd (szTime + 7) rtc.dh (storeBcd (szTime + 4) rtc.cl (storeBcd (szTime + 1) rtc.ch s))

theorem stamped_only (rtc : RtcTime) (s : Screen) :
    OnlyStored szTime s.mem (stamped szTime rtc s).mem := by
  have hbcd : ∀ (s : Screen) {k : Nat} (al : Byte), Stored k → Stored (k + 1) →
      OnlyStored szTime s.mem (storeBcd (szTime + BitVec.ofNat 16 k) al s).mem := by
    intro s k al hfirst hsecond
    have hnext : szTime + BitVec.ofNat 16 k + 1 = szTime + BitVec.ofNat 16 (k + 1) := by
      rw [BitVec.ofNat_add, ← BitVec.add_assoc]
      rfl
    refine (OnlyStored.update hfirst (((al >>> 4) &&& 0xF) + 0x30)).trans ?_
    rw [storeBcd, hnext]
    exact OnlyStored.update hsecond _
  exact ((hbcd s rtc.ch (by decide) (by decide)).trans
    (hbcd _ rtc.cl (by decide) (by decide))).trans (hbcd _ rtc.dh (by decide) (by decide))

theorem stamped_str (himage : InImage szTime s.mem) (rtc : RtcTime) :
    StrAt (fun _ => True) (stamped szTime rtc s).mem szTime (timeText rtc) := by
  refine ZStr.iff_cells.mpr ⟨timeText_nonzero rtc, ?_⟩
  intro i b hb
  refine ⟨trivial, ?_⟩
  rw [iterate_add_one]
  have hi := (List.getElem?_eq_some_iff.mp hb).1
  have hlen : (timeText rtc ++ [0]).length = 12 := rfl
  rw [hlen] at hi
  by_cases hstored : Stored i
  · -- a digit that was stored
    have hdigit : i = 1 ∨ i = 2 ∨ i = 4 ∨ i = 5 ∨ i = 7 ∨ i = 8 := by
      rcases hstored with hmem | hbuffer
      · simpa using hmem
      · omega
    rcases hdigit with rfl | rfl | rfl | rfl | rfl | rfl <;> rw [← Option.some.inj hb] <;>
      simp [stamped, storeBcd, Screen.store, BitVec.add_assoc]
  · have hfixed : image[i]? = some b := by
      rw [← hb]
      interval_cases i <;> first | rfl | exact absurd (by decide) hstored
    rw [stamped_only rtc s _ (stays_label (by omega) hstored)]
    exact himage i b hfixed hstored

theorem biosLogTime_writes (himage : InImage szTime s.mem) (hfuel : 11 < fuel) (rtc : RtcTime) :
    ∃ s', biosLogTime szTime fuel rtc s = some s' ∧ Writes szTime (timeText rtc) s s' :=
  ⟨_, biosPrint_str (stamped_str himage rtc) hfuel, rfl, stamped_only rtc s⟩

/-! ### Numbers -/

/-- A digit as it is written. -/
def asDigit (ax : Half) : Byte := ax.setWidth 8 + 0x30

theorem asDigit_rem (ax : Half) : asDigit (ax % 10) = digit (ax.toNat % 10) := by
  have hrem : (ax % 10).toNat = ax.toNat % 10 := BitVec.toNat_umod
  apply BitVec.eq_of_toNat_eq
  rw [asDigit, digit, BitVec.toNat_add, BitVec.toNat_setWidth, hrem, BitVec.toNat_ofNat]
  change (ax.toNat % 10 % 2 ^ 8 + 0x30) % 2 ^ 8 = (0x30 + ax.toNat % 10) % 2 ^ 8
  omega

theorem calcPass_last {ax : Half} (hax : ax.toNat < 10) (cx : Half) (stack : List Half) :
    calcPass (ax, cx, stack) = some (.done (cx + 1, ax % 10 :: stack)) ∧
      [ax % 10].map asDigit = decimal ax.toNat := by
  constructor
  · refine if_pos (BitVec.eq_of_toNat_eq ?_)
    exact BitVec.toNat_udiv.trans (Nat.div_eq_of_lt hax)
  · rw [decimal_of_lt hax, List.map_singleton, asDigit_rem, Nat.mod_eq_of_lt hax]

theorem calcPass_more {ax : Half} (hax : 10 ≤ ax.toNat) (cx : Half) (stack : List Half) :
    calcPass (ax, cx, stack) = some (.again (ax / 10, cx + 1, ax % 10 :: stack)) := by
  refine if_neg fun hzero => ?_
  have hquot : (ax / 10).toNat = ax.toNat / 10 := BitVec.toNat_udiv
  rw [hzero] at hquot
  change 0 = _ at hquot
  omega

/-- The digits are pushed, the last one first. -/
theorem calcPass_digits {ax : Half} {k : Nat} (hax : ax.toNat < 10 ^ (k + 1)) (hfuel : k < fuel)
    (cx : Half) (stack : List Half) :
    ∃ ds, iterate calcPass fuel (ax, cx, stack)
        = some (cx + BitVec.ofNat 16 ds.length, ds ++ stack) ∧
      ds.map asDigit = decimal ax.toNat ∧ ds.length ≤ k + 1 := by
  obtain ⟨fuel, rfl⟩ : ∃ n, fuel = n + 1 := ⟨fuel - 1, by omega⟩
  induction k generalizing ax cx stack fuel with
  | zero =>
      rcases calcPass_last hax cx stack with ⟨hpass, hdigits⟩
      exact ⟨[ax % 10], iterate_done hpass fuel, hdigits, Nat.le_refl 1⟩
  | succ k ih =>
      rcases Nat.lt_or_ge ax.toNat 10 with hsmall | hlarge
      · rcases calcPass_last hsmall cx stack with ⟨hpass, hdigits⟩
        exact ⟨[ax % 10], iterate_done hpass fuel, hdigits, Nat.le_add_left 1 _⟩
      · have hquot : (ax / 10).toNat = ax.toNat / 10 := BitVec.toNat_udiv
        have hdiv : (ax / 10).toNat < 10 ^ (k + 1) := by
          rw [hquot]
          exact (Nat.div_lt_iff_lt_mul (by decide)).mpr hax
        obtain ⟨fuel, rfl⟩ : ∃ n, fuel = n + 1 := ⟨fuel - 1, by omega⟩
        rcases ih hdiv (cx + 1) (ax % 10 :: stack) fuel (by omega) with
          ⟨ds, hrun, hdigits, hlen⟩
        refine ⟨ds ++ [ax % 10], ?_, ?_, ?_⟩
        · rw [iterate_again (calcPass_more hlarge cx stack), hrun, List.length_append,
            List.length_singleton, Nat.add_comm ds.length, BitVec.ofNat_add,
            ← BitVec.add_assoc, List.append_assoc]
          rfl
        · rw [List.map_append, hdigits, List.map_singleton, asDigit_rem, hquot,
            ← decimal_step hlarge]
        · rw [List.length_append, List.length_singleton]
          omega

theorem popPass_writes {ds : List Half} (hpos : 0 < ds.length) (hroom : ds.length < 256)
    (hfuel : ds.length ≤ fuel) : iterate popPass fuel (BitVec.ofNat 16 ds.length, ds, s)
      = some { s with out := s.out ++ ds.map asDigit } := by
  induction ds generalizing s fuel with
  | nil => exact absurd hpos (Nat.lt_irrefl 0)
  | cons ax ds ih =>
      rw [List.length_cons] at hroom hfuel ⊢
      obtain ⟨fuel, rfl⟩ : ∃ n, fuel = n + 1 := ⟨fuel - 1, by omega⟩
      have hdec : BitVec.ofNat 16 (ds.length + 1) - 1 = BitVec.ofNat 16 ds.length := by
        rw [BitVec.ofNat_add]
        exact BitVec.add_sub_cancel _ _
      have hcl : ((BitVec.ofNat 16 ds.length).setWidth 8 : Byte).toNat = ds.length := by
        rw [BitVec.toNat_setWidth, BitVec.toNat_ofNat]
        omega
      cases ds with
      | nil => rfl
      | cons ax' ds =>
          have hmore : ((BitVec.ofNat 16 (ax' :: ds).length).setWidth 8 : Byte) ≠ 0 := by
            intro hzero
            rw [hzero] at hcl
            cases hcl
          have hpass : popPass (BitVec.ofNat 16 ((ax' :: ds).length + 1), ax :: ax' :: ds, s) =
              some (.again
                (BitVec.ofNat 16 (ax' :: ds).length, ax' :: ds, s.teletype (asDigit ax))) := by
            rw [← hdec] at hmore ⊢
            exact if_neg hmore
          rw [iterate_again hpass, ih (Nat.succ_pos _) (by omega) (by omega)]
          rw [Screen.teletype, List.append_assoc, List.singleton_append, ← List.map_cons]

theorem biosLogNumber_writes (hfuel : 5 ≤ fuel) (di : Half) :
    biosLogNumber fuel di s = some { s with out := s.out ++ decimal di.toNat } := by
  have hdi : di.toNat < 10 ^ (4 + 1) := by omega
  rcases calcPass_digits hdi (show 4 < fuel from hfuel) 0 [] with
    ⟨ds, hcalc, hdigits, hlen⟩
  have hpos : 0 < ds.length := by
    rw [← List.length_map asDigit, hdigits]
    exact List.length_pos_iff.mpr (decimal_ne_nil _)
  have hcx : (0 : Half) + BitVec.ofNat 16 ds.length = BitVec.ofNat 16 ds.length :=
    BitVec.zero_add _
  rw [List.append_nil, hcx] at hcalc
  rw [biosLogNumber, hcalc, ← hdigits]
  exact popPass_writes hpos (by omega) (by omega)

/-! ### Hexadecimal -/

/-- After `i` passes there are `i` digits in the buffer. -/
structure HexLeft (szTime : Half) (v : Word) (i : Nat) (s : Screen)
    (t : Byte × Half × Word × Screen) : Prop where
  cl : t.1 = BitVec.ofNat 8 i
  si : t.2.1 = szBuffer szTime + BitVec.ofNat 16 i
  edi : t.2.2.1 = v.rotateLeft (4 * i)
  writes : Writes szTime [] s t.2.2.2
  digits : ∀ j, j < i → t.2.2.2.mem (szBuffer szTime + BitVec.ofNat 16 j)
    = hexDigit (v.toNat / 16 ^ (7 - j) % 16)

theorem buffer_label (i : Nat) :
    szBuffer szTime + BitVec.ofNat 16 i = szTime + BitVec.ofNat 16 (34 + i) := by
  rw [BitVec.ofNat_add, ← BitVec.add_assoc]
  rfl

theorem buffer_ne {i j : Nat} (hi : i < 9) (hj : j < 9) (hne : i ≠ j) :
    szBuffer szTime + BitVec.ofNat 16 i ≠ szBuffer szTime + BitVec.ofNat 16 j := by
  intro heq
  have hoff := offset_toNat (szBuffer szTime) (show i < 2 ^ 16 by omega)
  rw [heq, offset_toNat (szBuffer szTime) (by omega)] at hoff
  exact hne hoff.symm

theorem Writes.buffer {bytes : List Byte} {t : Screen} (h : Writes szTime bytes s t) {i : Nat}
    (hi : i < 9) (al : Byte) :
    Writes szTime bytes s (t.store (szBuffer szTime + BitVec.ofNat 16 i) al) := by
  refine ⟨h.out, h.only.trans ?_⟩
  rw [buffer_label]
  exact OnlyStored.update (.inr ⟨by omega, by omega⟩) al

/-- One digit goes to the buffer. -/
theorem digitPass_step (himage : InImage szTime s.mem) {v : Word} {i : Nat} (hi : i < 8)
    {t : Byte × Half × Word × Screen} (h : HexLeft szTime v i s t) :
    ∃ t', digitPass szTime t = some (.again t') ∧ HexLeft szTime v (i + 1) s t' := by
  rcases t with ⟨cl, si, edi, t⟩
  rcases h with ⟨hcl, hsi, hedi, hwrites, hdigits⟩
  dsimp only at hcl hsi hedi hwrites hdigits
  subst hcl hsi hedi
  have hturned := rotateLeft_again v hi
  -- the digit is looked up
  have hindex : (v.rotateLeft (4 * (i + 1)) &&& 0xF).setWidth 16
      = BitVec.ofNat 16 (v.toNat / 16 ^ (7 - i) % 16) := by
    apply BitVec.eq_of_toNat_eq
    rw [BitVec.toNat_setWidth, rotateLeft_digit v hi, BitVec.toNat_ofNat]
  have hal : t.mem (sDigits szTime + (v.rotateLeft (4 * (i + 1)) &&& 0xF).setWidth 16)
      = hexDigit (v.toNat / 16 ^ (7 - i) % 16) := by
    rw [hindex]
    exact (himage.only hwrites.only).digit (Nat.mod_lt _ (by decide))
  have hnot : BitVec.ofNat 8 i ≠ 8 := by
    intro heq
    have hnat := congrArg BitVec.toNat heq
    rw [BitVec.toNat_ofNat] at hnat
    change i % 2 ^ 8 = 8 at hnat
    omega
  refine ⟨_, if_neg hnot, ?_, ?_, hturned, ?_, ?_⟩
  · exact (BitVec.ofNat_add i 1).symm
  · rw [BitVec.ofNat_add, ← BitVec.add_assoc]
    rfl
  · exact hwrites.buffer (by omega) _
  · intro j hj
    dsimp only
    rw [hturned, hal]
    rcases Nat.lt_or_eq_of_le (Nat.le_of_lt_succ hj) with hlt | rfl
    · refine (Function.update_of_ne ?_ _ _).trans (hdigits j hlt)
      exact buffer_ne (by omega) (by omega) (Nat.ne_of_lt hlt)
    · exact Function.update_self ..

/-- The loop leaves all 8 digits. -/
theorem digitPass_digits (himage : InImage szTime s.mem) {v : Word}
    {t : Byte × Half × Word × Screen} (h : HexLeft szTime v 0 s t) (hfuel : 8 < fuel) :
    ∃ t', iterate (digitPass szTime) fuel t = some (t'.2.1, t'.2.2.2) ∧
      HexLeft szTime v 8 s t' := by
  have hstep : ∀ k t, (∃ i, i + k = 8 ∧ HexLeft szTime v i s t) →
      (∃ r, digitPass szTime t = some (.done r) ∧
        ∃ t', r = (t'.2.1, t'.2.2.2) ∧ HexLeft szTime v 8 s t') ∨
      ∃ t' k', digitPass szTime t = some (.again t') ∧ k' < k ∧
        ∃ i, i + k' = 8 ∧ HexLeft szTime v i s t' := by
    rintro k t ⟨i, hik, hleft⟩
    by_cases hi : i = 8
    · refine .inl ⟨_, if_pos ?_, t, rfl, hi ▸ hleft⟩
      rw [hleft.cl, hi]
      rfl
    · rcases digitPass_step himage (by omega) hleft with ⟨t', hpass, hleft'⟩
      exact .inr ⟨t', k - 1, hpass, by omega, i + 1, by omega, hleft'⟩
  rcases iterate_total _ _ hstep ⟨0, rfl, h⟩ hfuel with ⟨r, hrun, t', rfl, hleft⟩
  exact ⟨t', hrun, hleft⟩

/-- With a NUL behind them they are a string. -/
theorem HexLeft.str {v : Word} {t : Byte × Half × Word × Screen} (h : HexLeft szTime v 8 s t) :
    StrAt (fun _ => True) (t.2.2.2.store t.2.1 0).mem (szBuffer szTime) (hexFixed 8 v.toNat) := by
  have hlen : (hexFixed 8 v.toNat).length = 8 := length_hexFixed 8 _
  refine ZStr.iff_cells.mpr ⟨?_, ?_⟩
  · intro hmem
    rcases List.mem_map.mp hmem with ⟨i, -, hzero⟩
    exact hexDigit_ne_zero (Nat.mod_lt _ (by decide)) hzero
  · intro i b hb
    refine ⟨trivial, ?_⟩
    have hi := (List.getElem?_eq_some_iff.mp hb).1
    rw [List.length_append, List.length_singleton, hlen] at hi
    rw [iterate_add_one, h.si]
    rcases Nat.lt_or_eq_of_le (Nat.le_of_lt_succ hi) with hlt | rfl
    · rw [List.getElem?_append_left (by omega), hexFixed, List.getElem?_map,
        List.getElem?_range hlt] at hb
      refine (Function.update_of_ne ?_ _ _).trans ((h.digits i hlt).trans (Option.some.inj hb))
      exact buffer_ne (by omega) (by omega) (Nat.ne_of_lt hlt)
    · rw [List.getElem?_append_right (by omega), hlen] at hb
      exact (Function.update_self ..).trans (Option.some.inj hb)

theorem biosLogHex_writes (himage : InImage szTime s.mem) (hfuel : 8 < fuel) (edi : Word) :
    ∃ s', biosLogHex szTime fuel edi s = some s' ∧ Writes szTime (hexText edi) s s' := by
  rcases biosPrint_writes himage.hexPrefix (show 2 < fuel by omega) with ⟨s₁, hfirst, hwrites⟩
  rw [biosLogHex, hfirst, hexText]
  dsimp only [Option.bind_eq_bind, Option.bind_some]
  by_cases hzero : edi = 0
  · rw [if_pos hzero, if_pos hzero]
    exact ⟨_, rfl, hwrites.trans ⟨rfl, OnlyStored.refl⟩⟩
  · rw [if_neg hzero, if_neg hzero]
    have hturned : edi = edi.rotateLeft (4 * 0) := by
      rw [Nat.mul_zero, BitVec.rotateLeft_def, Nat.zero_mod, BitVec.shiftLeft_zero,
        BitVec.ushiftRight_eq_zero (Nat.le_refl 32), BitVec.or_zero]
    have hstart : HexLeft szTime edi 0 s₁ (0, szBuffer szTime, edi, s₁) :=
      ⟨rfl, (BitVec.add_zero _).symm, hturned, Writes.refl, by omega⟩
    rcases digitPass_digits (himage.only hwrites.only) hstart hfuel with ⟨t, hloop, hleft⟩
    have hnul : Writes szTime [] s₁ (t.2.2.2.store t.2.1 0) := by
      rw [hleft.si]
      exact hleft.writes.buffer (by omega) 0
    have hlen : (hexFixed 8 edi.toNat).length = 8 := length_hexFixed 8 _
    have hprint : biosPrint fuel (szBuffer szTime) (t.2.2.2.store t.2.1 0) = some
        { t.2.2.2.store t.2.1 0 with
          out := (t.2.2.2.store t.2.1 0).out ++ hexFixed 8 edi.toNat } :=
      biosPrint_str hleft.str (by omega)
    rw [hloop]
    exact ⟨_, hprint, hwrites.trans (Writes.trans hnul ⟨rfl, OnlyStored.refl⟩)⟩

end Writing

/-! ## The loop -/

section Render

variable {szTime : Half} (ret : Half) {s s' : Screen} {fuel : Nat} {al : Byte}
  {fmt text : List Byte} {args : List Arg}

/-- The strings among the arguments are there, and shorter than `k`. -/
def StrArgs (Ok : Half → Prop) (m : Half → Byte) (k : Nat) (args : List Arg) : Prop :=
  ∀ a ∈ args, ∀ p str, a = .str p str → StrAt Ok m p str ∧ str.length < k

theorem StrArgs.mono {Ok : Half → Prop} {m : Half → Byte} {k : Nat} (hk : k ≤ fuel)
    (h : StrArgs Ok m k args) : StrArgs Ok m fuel args := by
  intro a ha p str heq
  rcases h a ha p str heq with ⟨hstr, hlen⟩
  exact ⟨hstr, Nat.lt_of_lt_of_le hlen hk⟩

theorem StrArgs.tail {Ok : Half → Prop} {m : Half → Byte} {a : Arg}
    (h : StrArgs Ok m fuel (a :: args)) : StrArgs Ok m fuel args :=
  fun a' ha => h a' (List.mem_cons_of_mem a ha)

theorem StrArgs.only {m m' : Half → Byte} (h : StrArgs (Stays szTime) m fuel args)
    (honly : OnlyStored szTime m m') : StrArgs (Stays szTime) m' fuel args := by
  intro a ha p str heq
  rcases h a ha p str heq with ⟨hstr, hlen⟩
  exact ⟨hstr.congr honly, hlen⟩

theorem render_arg (htakes : takesArg al = true) (hrender : render (0x25 :: al :: fmt) args
    = some text) : ∃ a args' text', args = a :: args' ∧ a.char = al ∧ text = a.text ++ text' ∧
      render fmt args' = some text' := by
  rw [render.eq_def] at hrender
  dsimp only at hrender
  rw [if_pos rfl, if_pos htakes] at hrender
  cases args with
  | nil => cases hrender
  | cons a args =>
      dsimp only at hrender
      split at hrender
      next hchar =>
        rcases Option.map_eq_some_iff.mp hrender with ⟨text', hrest, htext⟩
        exact ⟨a, args, text', rfl, hchar, htext.symm, hrest⟩
      next => cases hrender

theorem render_plain (htakes : takesArg al = false) (hrender : render (0x25 :: al :: fmt) args
    = some text) : ∃ text', text = (if al = 0x25 then 0x25 else 0x3F) :: text' ∧
      render fmt args = some text' := by
  rw [render.eq_def] at hrender
  dsimp only at hrender
  rw [if_pos rfl, if_neg (Bool.eq_false_iff.mp htakes)] at hrender
  rcases Option.map_eq_some_iff.mp hrender with ⟨text', hrest, htext⟩
  exact ⟨text', htext.symm, hrest⟩

theorem render_char (hne : al ≠ 0x25) (hrender : render (al :: fmt) args = some text) :
    ∃ text', text = al :: text' ∧ render fmt args = some text' := by
  rw [render.eq_def] at hrender
  dsimp only at hrender
  rw [if_neg hne] at hrender
  rcases Option.map_eq_some_iff.mp hrender with ⟨text', hrest, htext⟩
  exact ⟨text', htext.symm, hrest⟩

/-- A double word from its halves. -/
theorem append_halves (w : Word) : w.extractLsb' 16 16 ++ w.setWidth 16 = w := by
  apply BitVec.eq_of_toNat_eq
  rw [BitVec.toNat_append, BitVec.extractLsb'_toNat, BitVec.toNat_setWidth]
  rw [← Nat.shiftLeft_add_eq_or_of_lt (by omega)]
  rw [Nat.shiftRight_eq_div_pow, Nat.shiftLeft_eq]
  omega

/-- An argument is popped from below the return address, and written. -/
theorem logDirective_arg (himage : InImage szTime s.mem) (hfuel : 8 < fuel) {a : Arg}
    (hstr : ∀ p str, a = .str p str → StrAt (Stays szTime) s.mem p str ∧ str.length < fuel)
    (rest : List Half) : ∃ s', logDirective szTime fuel a.char (ret :: (a.words ++ rest)) s
      = some (ret :: rest, s') ∧ Writes szTime a.text s s' := by
  cases a with
  | str p chars =>
      rcases hstr p chars rfl with ⟨hstr, hlen⟩
      rcases biosPrint_writes hstr hlen with ⟨s', hrun, hwrites⟩
      refine ⟨s', ?_, hwrites⟩
      change (biosPrint fuel p s).map (ret :: rest, ·) = _
      rw [hrun]
      rfl
  | hex v =>
      rcases biosLogHex_writes himage hfuel v with ⟨s', hrun, hwrites⟩
      refine ⟨s', ?_, hwrites⟩
      change (biosLogHex szTime fuel (v.extractLsb' 16 16 ++ v.setWidth 16) s).map
        (ret :: rest, ·) = _
      rw [append_halves, hrun]
      rfl
  | dec v =>
      refine ⟨{ s with out := s.out ++ decimal v.toNat }, ?_, rfl, OnlyStored.refl⟩
      change (biosLogNumber fuel v s).map (ret :: rest, ·) = _
      rw [biosLogNumber_writes (by omega)]
      rfl

theorem logDirective_plain (htakes : takesArg al = false) (stack : List Half) :
    logDirective szTime fuel al stack s
      = some (stack, s.teletype (if al = 0x25 then 0x25 else 0x3F)) := by
  simp only [takesArg, Bool.or_eq_false_iff, decide_eq_false_iff_not] at htakes
  rcases htakes with ⟨⟨hs, hx⟩, hd⟩
  unfold logDirective
  by_cases hpercent : al = 0x25
  · rw [if_pos hpercent, if_pos hpercent, hpercent]
  · rw [if_neg hpercent, if_neg hs, if_neg hx, if_neg hd, if_neg hpercent]

theorem logPass_directive {si : Half} {stack stack' : List Half} (hpercent : s.mem si = 0x25)
    (hal : s.mem (si + 1) = al)
    (hdirective : logDirective szTime fuel al stack s = some (stack', s')) :
    logPass szTime fuel (si, stack, s) = some (.again (si + 1 + 1, stack', s')) := by
  rw [logPass]
  dsimp only
  rw [hpercent, if_neg (by decide), if_pos rfl, hal, hdirective]
  rfl

theorem logPass_char {si : Half} {stack : List Half} (hal : s.mem si = al) (hne : al ≠ 0)
    (hpercent : al ≠ 0x25) :
    logPass szTime fuel (si, stack, s) = some (.again (si + 1, stack, s.teletype al)) := by
  rw [logPass]
  dsimp only
  rw [hal, if_neg hne, if_neg hpercent]

/-- One pass for each character or directive. -/
theorem logPass_renders (hrender : render fmt args = some text) (himage : InImage szTime s.mem)
    {si : Half} (hformat : StrAt (Stays szTime) s.mem si fmt)
    (hargs : StrArgs (Stays szTime) s.mem fuel args) (hfuel : 8 < fuel) {n : Nat}
    (hn : fmt.length < n) (rest : List Half) :
    ∃ si' s', iterate (logPass szTime fuel) n (si, ret :: (args.flatMap Arg.words ++ rest), s)
        = some (si', ret :: rest, s') ∧ Writes szTime text s s' := by
  obtain ⟨n, rfl⟩ : ∃ m, n = m + 1 := ⟨n - 1, by omega⟩
  induction fmt using Closed.induct (0x25 : Byte) generalizing args text si s n with
  | case1 =>
      cases args with
      | nil =>
          rw [← Option.some.inj hrender]
          have hdone : logPass szTime fuel (si, ret :: rest, s)
              = some (.done (si, ret :: rest, s)) := if_pos hformat.2
          exact ⟨si, s, iterate_done hdone n, Writes.refl⟩
      | cons a args => cases hrender
  | case2 => simp [render] at hrender
  | case3 al fmt ih =>
      simp only [List.length_cons] at hn
      obtain ⟨n, rfl⟩ : ∃ m, n = m + 1 := ⟨n - 1, by omega⟩
      rcases hformat with ⟨-, hpercent, -, -, hal, -, hrest⟩
      cases htakes : takesArg al with
      | true =>
          rcases render_arg htakes hrender with ⟨a, args', text', rfl, hchar, rfl, hrender'⟩
          rcases logDirective_arg ret himage hfuel (hargs a List.mem_cons_self)
            (args'.flatMap Arg.words ++ rest) with ⟨s₁, hrun, hwrites⟩
          rw [hchar] at hrun
          rcases ih hrender' (himage.only hwrites.only) (hrest.congr hwrites.only)
            (hargs.tail.only hwrites.only) n (by omega) with ⟨si', s', hloop, hwrites'⟩
          refine ⟨si', s', ?_, hwrites.trans hwrites'⟩
          rw [List.flatMap_cons, List.append_assoc,
            iterate_again (logPass_directive hpercent hal hrun), hloop]
      | false =>
          rcases render_plain htakes hrender with ⟨text', rfl, hrender'⟩
          have hwrites : Writes szTime [if al = 0x25 then 0x25 else 0x3F] s
              (s.teletype (if al = 0x25 then 0x25 else 0x3F)) := ⟨rfl, OnlyStored.refl⟩
          rcases ih hrender' (himage.only hwrites.only) (hrest.congr hwrites.only)
            (hargs.only hwrites.only) n (by omega) with ⟨si', s', hloop, hwrites'⟩
          refine ⟨si', s', ?_, hwrites.trans hwrites'⟩
          rw [iterate_again (logPass_directive hpercent hal (logDirective_plain htakes _)), hloop]
  | case4 al fmt hne ih =>
      rw [List.length_cons] at hn
      obtain ⟨n, rfl⟩ : ∃ m, n = m + 1 := ⟨n - 1, by omega⟩
      rcases hformat with ⟨-, hal, hnonzero, hrest⟩
      rcases render_char hne hrender with ⟨text', rfl, hrender'⟩
      have hwrites : Writes szTime [al] s (s.teletype al) := ⟨rfl, OnlyStored.refl⟩
      rcases ih hrender' (himage.only hwrites.only) (hrest.congr hwrites.only)
        (hargs.only hwrites.only) n (by omega) with ⟨si', s', hloop, hwrites'⟩
      refine ⟨si', s', ?_, hwrites.trans hwrites'⟩
      rw [iterate_again (logPass_char hal hnonzero hne), hloop]

theorem logLoop_renders (hrender : render fmt args = some text) (himage : InImage szTime s.mem)
    {si : Half} (hformat : StrAt (Stays szTime) s.mem si fmt)
    (hargs : StrArgs (Stays szTime) s.mem fuel args) (hfuel : 8 < fuel) (hlen : fmt.length < fuel)
    (rest : List Half) :
    ∃ s', logLoop szTime fuel si (ret :: (args.flatMap Arg.words ++ rest)) s
        = some (ret, rest, s') ∧ Writes szTime (text ++ [0x0D, 0x0A]) s s' := by
  rcases logPass_renders ret hrender himage hformat hargs hfuel hlen rest with
    ⟨si', s₁, hloop, hwrites⟩
  rcases biosPrint_writes (himage.only hwrites.only).endLine (show 2 < fuel by omega) with
    ⟨s', hcrlf, hwrites'⟩
  refine ⟨s', ?_, hwrites.trans hwrites'⟩
  rw [logLoop, hloop]
  dsimp only [Option.bind_eq_bind, Option.bind_some]
  rw [hcrlf]
  rfl

theorem logCommon_renders (hrender : render fmt args = some text) (himage : InImage szTime s.mem)
    {label si : Half} {front : List Byte} (hlabel : StrAt (Stays szTime) s.mem label front)
    (hformat : StrAt (Stays szTime) s.mem si fmt)
    (hargs : StrArgs (Stays szTime) s.mem fuel args) (hfuel : 8 < fuel)
    (hfront : front.length < fuel) (hlen : fmt.length < fuel) (rest : List Half) :
    ∃ s', logCommon szTime fuel label si (ret :: (args.flatMap Arg.words ++ rest)) s
        = some (ret, rest, s') ∧ Writes szTime (front ++ (text ++ [0x0D, 0x0A])) s s' := by
  rcases biosPrint_writes hlabel hfront with ⟨s₁, hfirst, hwrites⟩
  rcases logLoop_renders ret hrender (himage.only hwrites.only)
    (hformat.congr hwrites.only) (hargs.only hwrites.only) hfuel hlen rest with
    ⟨s', hloop, hwrites'⟩
  refine ⟨s', ?_, hwrites.trans hwrites'⟩
  rw [logCommon, hfirst]
  exact hloop

/-- The line that is logged. -/
def logLine (l : Level) (rtc : RtcTime) (text : List Byte) : List Byte :=
  timeText rtc ++ (l.text ++ (text ++ [0x0D, 0x0A]))

theorem biosLogAt_writes (l : Level) (rtc : RtcTime) (hrender : render fmt args = some text)
    (himage : InImage szTime s.mem) {si : Half} (hformat : StrAt (Stays szTime) s.mem si fmt)
    (hargs : StrArgs (Stays szTime) s.mem fuel args) (hfuel : 11 < fuel) (hlen : fmt.length < fuel)
    (rest : List Half) :
    ∃ s', biosLogAt szTime fuel l rtc si (ret :: (args.flatMap Arg.words ++ rest)) s
        = some (ret, rest, s') ∧ Writes szTime (logLine l rtc text) s s' := by
  rcases biosLogTime_writes himage hfuel rtc with ⟨s₁, htime, hwrites⟩
  have himage₁ := himage.only hwrites.only
  have hformat₁ := hformat.congr hwrites.only
  have hargs₁ := hargs.only hwrites.only
  have hrest : ∃ s', biosLogAt szTime fuel l rtc si (ret :: (args.flatMap Arg.words ++ rest)) s
      = some (ret, rest, s') ∧ Writes szTime (l.text ++ (text ++ [0x0D, 0x0A])) s₁ s' := by
    cases l with
    | plain =>
        rcases logLoop_renders ret hrender himage₁ hformat₁ hargs₁ (by omega) hlen rest with
          ⟨s', hloop, hwrites'⟩
        refine ⟨s', ?_, hwrites'⟩
        rw [biosLogAt, biosLog, htime]
        exact hloop
    | warn =>
        rcases logCommon_renders ret hrender himage₁ himage₁.logWarn hformat₁ hargs₁
          (by omega) (show 6 < fuel by omega) hlen rest with ⟨s', hcommon, hwrites'⟩
        refine ⟨s', ?_, hwrites'⟩
        rw [biosLogAt, biosLogWarn, htime]
        exact hcommon
    | error =>
        rcases logCommon_renders ret hrender himage₁ himage₁.logError hformat₁ hargs₁
          (by omega) (show 7 < fuel by omega) hlen rest with ⟨s', hcommon, hwrites'⟩
        refine ⟨s', ?_, hwrites'⟩
        rw [biosLogAt, biosLogError, htime]
        exact hcommon
  rcases hrest with ⟨s', hrun, hwrites'⟩
  exact ⟨s', hrun, hwrites.trans hwrites'⟩

/-- **The logs render their format.** A line is written, with the time and the level in front;
exactly the arguments are popped, and only the digits of the time and the buffer are stored to. -/
theorem biosLogAt_renders (l : Level) (rtc : RtcTime) (hrender : render fmt args = some text)
    (himage : InImage szTime s.mem) {si : Half} (hformat : StrAt (Stays szTime) s.mem si fmt)
    {k : Nat} (hargs : StrArgs (Stays szTime) s.mem k args) (rest : List Half) :
    ∃ n, ∀ fuel ≥ n, ∃ s',
      biosLogAt szTime fuel l rtc si (ret :: (args.flatMap Arg.words ++ rest)) s
        = some (ret, rest, s') ∧
      s'.out = s.out ++ logLine l rtc text ∧ ∀ x, Stays szTime x → s'.mem x = s.mem x := by
  refine ⟨k + fmt.length + 12, fun fuel hfuel => ?_⟩
  rcases biosLogAt_writes ret l rtc hrender himage hformat
    (hargs.mono (show k ≤ fuel by omega)) (by omega) (by omega) rest with ⟨s', hrun, hwrites⟩
  exact ⟨s', hrun, hwrites.out, hwrites.only⟩

end Render

/-- The data of the logger at 0x100, and a string at 0x200. -/
def demoScreen (str : List Byte) : Screen :=
  ⟨fun x =>
    if x.toNat < 0x200 then image.getD (x - 0x100).toNat 0 else str.getD (x - 0x200).toNat 0, []⟩

def demoTime : RtcTime := ⟨0x12, 0x34, 0x56⟩

theorem demoScreen_image (str : List Byte) : InImage 0x100 (demoScreen str).mem := by
  intro i b hb _
  have hi := (List.getElem?_eq_some_iff.mp hb).1
  rw [length_image] at hi
  have hlow : ((0x100 : Half) + BitVec.ofNat 16 i).toNat < 0x200 := by
    rw [BitVec.toNat_add, BitVec.toNat_ofNat]
    change (0x100 + i % 2 ^ 16) % 2 ^ 16 < 0x200
    omega
  change (if _ then image.getD _ 0 else _) = b
  rw [if_pos hlow, offset_toNat _ (by omega), List.getD_eq_getElem?_getD, hb]
  rfl

/-- `E %s %d` -/
def demoFormat : List Byte := [0x45, 0x20, 0x25, 0x73, 0x20, 0x25, 0x64]

/-- Its end is the string it is given. -/
theorem biosLogAt_renders_demo : ∃ n, ∀ fuel ≥ n, ∃ s',
    biosLogAt 0x100 fuel .error demoTime 0x200 [0x7C, 0x202, 7, 1] (demoScreen demoFormat)
      = some (0x7C, [1], s') ∧
    s'.out = logLine .error demoTime [0x45, 0x20, 0x25, 0x73, 0x20, 0x25, 0x64, 0x20, 0x37] ∧
    ∀ x, Stays 0x100 x → s'.mem x = (demoScreen demoFormat).mem x := by
  have hrender : render demoFormat [.str 0x202 [0x25, 0x73, 0x20, 0x25, 0x64], .dec 7]
      = some [0x45, 0x20, 0x25, 0x73, 0x20, 0x25, 0x64, 0x20, 0x37] := by
    simp [render, demoFormat, takesArg, Arg.char, Arg.text, decimal_of_lt, digit]
  refine biosLogAt_renders 0x7C (k := 6) .error demoTime hrender (demoScreen_image _) (by decide)
    ?_ [1]
  intro a ha p str heq
  rcases List.mem_pair.mp ha with rfl | rfl
  · cases heq
    exact ⟨by decide, by decide⟩
  · cases heq

end StupidOS.Boot.Logger
