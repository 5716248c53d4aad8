import Mathlib.Tactic.IntervalCases
import StupidOS.Lib.Scan
import StupidOS.Lib.StringOps

/-!
# The log of the EFI loader (`boot/efi/logger.inc`)

`efi_log` prints its format piece by piece: it stores a NUL over each `%`, and `?` over a directive
that it does not know. The characters have 16 bits. `OutputString` and `GetTime` belong to the
firmware; `outputString` is what the first prints of a string in memory. `efi_log` reads up to the
NUL of its format and no further exactly if no directive is open there (`efiLog_stops_iff`).
-/

namespace StupidOS.Boot.EfiLogger

/-! ## The data of the logger -/

section Labels

variable (szTime : Word)

def szEndLine : Word := szTime + 24
def szHexPrefix : Word := szTime + 146
def sDigit : Word := szTime + 152
def szLogBuffer : Word := szTime + 184

end Labels

/-- The memory, and what was printed. -/
structure Console where
  mem : Mem
  out : List Half

/-- `mov [a], dx` -/
def Console.store (s : Console) (a : Word) (dx : Half) : Console :=
  { s with mem := s.mem.write16 a dx }

/-! ## The routines -/

variable (outputString : Mem → Word → Option (List Half))

/-- `EFI_CALL [fnOutputStr], [pConOut], p` -/
def print (p : Word) (s : Console) : Option Console :=
  (outputString s.mem p).map fun text => { s with out := s.out ++ text }

variable (szTime : Word)

/-- One pass of the loop of `efi_log_hex`, with ECX and EDI. -/
def hexPass (t : Word × Word × Console) : Option (Pass (Word × Word × Console) (Word × Console)) :=
  let (ecx, edi, s) := t
  if ecx = 16 then some (.done (ecx, s))
  else
    let edi := edi.rotateLeft 4
    let eax := (edi &&& 0xF) <<< 1
    let ax := s.mem.read16 (sDigit szTime + eax)
    some (.again (ecx + 2, edi, s.store (szLogBuffer szTime + ecx) ax))

/-- `efi_log_hex` -/
def efiLogHex (fuel : Nat) (eax : Word) (s : Console) : Option Console := do
  let s ← print outputString (szHexPrefix szTime) s
  let (ecx, s) ← iterate (hexPass szTime) fuel (0, eax, s)
  let s := s.store (szLogBuffer szTime + ecx) 0
  print outputString (szLogBuffer szTime) s

/-- What `GetTime` gives. -/
structure EfiTime where
  hour : Byte
  minute : Byte
  second : Byte

/-- The digits of `al` are stored at `a`. -/
def storeTwo (a : Word) (al : Byte) (s : Console) : Console :=
  -- div cl
  let ah := al % 10 + 0x30
  let al := al / 10 + 0x30
  (s.store a (al.setWidth 16)).store (a + 2) (ah.setWidth 16)

/-- The digits of the time, where `efi_log_time` puts them -/
def storeTime (time : EfiTime) (s : Console) : Console :=
  storeTwo (szTime + 14) time.second
    (storeTwo (szTime + 8) time.minute (storeTwo (szTime + 2) time.hour s))

/-- `efi_log_time` -/
def efiLogTime (time : EfiTime) (s : Console) : Option Console :=
  print outputString szTime (storeTime szTime time s)

variable (stack : Mem)

/-- What stands behind a `%`, with the arguments on `stack`: ESI, EBX and the console after it. -/
def efiDirective (fuel : Nat) (dx : Half) (edi esi ebx : Word) (s : Console) :
    Option (Word × Word × Console) :=
  if dx = 0x25 then some (esi, ebx, s)
  else if dx = 0x73 then do
    let s ← print outputString (stack.read32 ebx) s
    return (esi + 2, ebx + 4, s)
  else if dx = 0x78 then do
    let s ← efiLogHex outputString szTime fuel (stack.read32 ebx) s
    return (esi + 2, ebx + 4, s)
  else some (esi, ebx, s.store edi 0x3F)

/-- One pass of the loop of `efi_log`, with EDI, ESI and EBX. -/
def efiPass (fuel : Nat) (t : Word × Word × Word × Console) :
    Option (Pass (Word × Word × Word × Console) (Word × Word × Word × Console)) :=
  let (edi, esi, ebx, s) := t
  let dx := s.mem.read16 edi
  if dx = 0 then some (.done t)
  else if dx = 0x25 then do
    let s := s.store edi 0
    let s ← print outputString esi s
    let edi := edi + 2
    let esi := edi
    let dx := s.mem.read16 edi
    let (esi, ebx, s) ← efiDirective outputString szTime stack fuel dx edi esi ebx s
    return .again (edi + 2, esi, ebx, s)
  else some (.again (edi + 2, esi, ebx, s))

/-- `efi_log`, with the address of the first argument in EBX. -/
def efiLog (fuel : Nat) (time : EfiTime) (eax ebx : Word) (s : Console) : Option Console := do
  let s ← efiLogTime outputString szTime time s
  let (_, esi, _, s) ← iterate (efiPass outputString szTime stack fuel) fuel (eax, eax, ebx, s)
  let s ← if s.mem.read16 esi = 0 then some s else print outputString esi s
  print outputString (szEndLine szTime) s

/-! ## The firmware -/

/-- A string of 16-bit characters in memory. -/
abbrev StrAt (Ok : Word → Prop) (m : Mem) (p : Word) (str : List Half) : Prop :=
  ZStr (· + 2) Ok m.read16 p str

/-- `OutputString` prints the string that it is given. -/
def PrintsStrings (outputString : Mem → Word → Option (List Half)) : Prop :=
  ∀ m p str, StrAt (fun _ => True) m p str → outputString m p = some str

/-! ## What is stored -/

/-- The address of character `i`. -/
def cell (p : Word) (i : Nat) : Word := p + BitVec.ofNat 32 (2 * i)

theorem iterate_two (p : Word) (i : Nat) : (· + 2)^[i] p = cell p i := by
  rw [cell]
  induction i generalizing p with
  | zero => exact (BitVec.add_zero p).symm
  | succ i ih =>
      rw [Function.iterate_succ_apply, ih, BitVec.add_assoc, Nat.mul_succ, Nat.add_comm,
        BitVec.ofNat_add]
      rfl

theorem cell_cell (p : Word) (i j : Nat) : cell (cell p i) j = cell p (i + j) := by
  rw [cell, cell, cell, BitVec.add_assoc, ← BitVec.ofNat_add, Nat.mul_add]

theorem cell_next (p : Word) (i : Nat) : cell p i + 2 = cell p (i + 1) := cell_cell p i 1

/-- A store between words leaves the others alone. -/
theorem read16_store (m : Mem) (p : Word) {i j : Nat} (hi : i + 2 ≤ 2 ^ 32) (hj : j + 2 ≤ 2 ^ 32)
    (hsep : i + 2 ≤ j ∨ j + 2 ≤ i) (v : Half) :
    (m.write16 (p + BitVec.ofNat 32 j) v).read16 (p + BitVec.ofNat 32 i)
      = m.read16 (p + BitVec.ofNat 32 i) := by
  refine Mem.read16_write16_of_sep m v ?_
  have hwi : (BitVec.ofNat 32 i).toNat = i := toNat_ofNat_of_lt (by omega)
  have hwj : (BitVec.ofNat 32 j).toNat = j := toNat_ofNat_of_lt (by omega)
  generalize BitVec.ofNat 32 i = a at hwi ⊢
  generalize BitVec.ofNat 32 j = b at hwj ⊢
  rw [Sep]
  bv_omega

theorem read16_cell (m : Mem) (p : Word) {i j : Nat} (hi : i < 2 ^ 31) (hj : j < 2 ^ 31)
    (hne : i ≠ j) (v : Half) : (m.write16 (cell p j) v).read16 (cell p i) = m.read16 (cell p i) :=
  read16_store m p (by omega) (by omega) (by omega) v

/-- The words from `szTime` on that are never stored to: the time without its digits, the line end
and `0x`. -/
def fixedWords : List (Nat × Half) :=
  [(0, 0x5B), (6, 0x3A), (12, 0x3A), (18, 0x5D), (20, 0x20), (22, 0), (24, 0x0D), (26, 0x0A),
    (28, 0), (146, 0x30), (148, 0x78), (150, 0)]

section Stores

variable (szTime : Word)

/-- The data of the logger. -/
def InData (x : Word) : Prop := (x - szTime).toNat < 202

instance (x : Word) : Decidable (InData szTime x) := inferInstanceAs (Decidable (_ < _))

/-- The words that stay. -/
def Fixed (m : Mem) : Prop :=
  ∀ w ∈ fixedWords, m.read16 (szTime + BitVec.ofNat 32 w.1) = w.2

instance (m : Mem) : Decidable (Fixed szTime m) := inferInstanceAs (Decidable (∀ w ∈ _, _))

/-- Only data of the logger differs, and not the words that stay. -/
structure OnlyData (m m' : Mem) : Prop where
  outside : ∀ x, ¬ InData szTime x → m' x = m x
  fixed : Fixed szTime m → Fixed szTime m'

variable {szTime} {m m' m'' : Mem}

theorem OnlyData.refl : OnlyData szTime m m := ⟨fun _ _ => rfl, fun h => h⟩

theorem OnlyData.trans (h : OnlyData szTime m m') (h' : OnlyData szTime m' m'') :
    OnlyData szTime m m'' :=
  ⟨fun x hx => (h'.outside x hx).trans (h.outside x hx), fun hm => h'.fixed (h.fixed hm)⟩

/-- A store between the words that stay. -/
theorem OnlyData.write16 {k : Nat} (hk : k ≤ 200)
    (hfree : ∀ w ∈ fixedWords, w.1 + 2 ≤ k ∨ k + 2 ≤ w.1) (v : Half) :
    OnlyData szTime m (m.write16 (szTime + BitVec.ofNat 32 k) v) := by
  refine ⟨fun x hx => Mem.write16_frame _ _ ?_, fun hm w hw => ?_⟩
  · have hword : (BitVec.ofNat 32 k).toNat = k := toNat_ofNat_of_lt (by omega)
    generalize BitVec.ofNat 32 k = a at hword ⊢
    rw [InData] at hx
    bv_omega
  · have hsmall : ∀ w ∈ fixedWords, w.1 ≤ 150 := by decide
    have hle := hsmall w hw
    rw [read16_store m szTime (by omega) (by omega) (hfree w hw)]
    exact hm w hw

/-- Outside of the data 16-bit words are kept. -/
theorem OnlyData.read16 (h : OnlyData szTime m m') {a : Word} (ha : ¬ InData szTime a)
    (ha' : ¬ InData szTime (a + 1)) : m'.read16 a = m.read16 a := by
  rw [Mem.read16, Mem.read16, h.outside a ha, h.outside (a + 1) ha']

end Stores

/-! ## The routines return -/

section Routines

variable {outputString : Mem → Word → Option (List Half)} {szTime : Word} {s : Console}
  {fuel : Nat}

theorem print_str (hout : PrintsStrings outputString) {Ok : Word → Prop} {p : Word}
    {str : List Half} (h : StrAt Ok s.mem p str) :
    print outputString p s = some { s with out := s.out ++ str } := by
  rw [print, hout s.mem p str (h.mono fun _ _ => trivial)]
  rfl

/-- Two digits -/
def twoText (al : Byte) : List Half := [(al / 10 + 0x30).setWidth 16, (al % 10 + 0x30).setWidth 16]

/-- `[hh:mm:ss] ` -/
def timeText (time : EfiTime) : List Half :=
  [0x5B] ++ twoText time.hour ++ [0x3A] ++ twoText time.minute ++ [0x3A] ++
    twoText time.second ++ [0x5D, 0x20]

theorem onlyData_storeTwo {k : Nat} (hk : k ≤ 198)
    (hfree : ∀ w ∈ fixedWords, w.1 + 2 ≤ k ∨ k + 4 ≤ w.1) (al : Byte) :
    OnlyData szTime s.mem (storeTwo (szTime + BitVec.ofNat 32 k) al s).mem := by
  have hnext : szTime + BitVec.ofNat 32 k + 2 = szTime + BitVec.ofNat 32 (k + 2) := by
    rw [BitVec.add_assoc, BitVec.ofNat_add]
    rfl
  have hfirst : ∀ w ∈ fixedWords, w.1 + 2 ≤ k ∨ k + 2 ≤ w.1 := fun w hw => by
    have hw' := hfree w hw
    omega
  have hsecond : ∀ w ∈ fixedWords, w.1 + 2 ≤ k + 2 ∨ k + 2 + 2 ≤ w.1 := fun w hw => by
    have hw' := hfree w hw
    omega
  have hstore : OnlyData szTime s.mem (s.mem.write16 (szTime + BitVec.ofNat 32 k)
      ((al / 10 + 0x30).setWidth 16)) := OnlyData.write16 (by omega) hfirst _
  refine hstore.trans ?_
  change OnlyData szTime _ (Mem.write16 _ (szTime + BitVec.ofNat 32 k + 2) _)
  rw [hnext]
  exact OnlyData.write16 (by omega) hsecond _

theorem onlyData_storeTime (time : EfiTime) :
    OnlyData szTime s.mem (storeTime szTime time s).mem :=
  ((onlyData_storeTwo (k := 2) (by decide) (by decide) time.hour).trans
    (onlyData_storeTwo (k := 8) (by decide) (by decide) time.minute)).trans
    (onlyData_storeTwo (k := 14) (by decide) (by decide) time.second)

theorem storeTwo_digits {k i : Nat} (hk : k < 2 ^ 16) (hi : i < 2 ^ 16) (hpar : i % 2 = k % 2)
    (al : Byte) :
    (storeTwo (szTime + BitVec.ofNat 32 k) al s).mem.read16 (szTime + BitVec.ofNat 32 i) =
      if i = k then (al / 10 + 0x30).setWidth 16
      else if i = k + 2 then (al % 10 + 0x30).setWidth 16
      else s.mem.read16 (szTime + BitVec.ofNat 32 i) := by
  have hnext : szTime + BitVec.ofNat 32 k + 2 = szTime + BitVec.ofNat 32 (k + 2) := by
    rw [BitVec.add_assoc, BitVec.ofNat_add]
    rfl
  change Mem.read16 (Mem.write16 (Mem.write16 s.mem _ _) (szTime + BitVec.ofNat 32 k + 2) _) _ = _
  rw [hnext]
  by_cases hfirst : i = k
  · rw [if_pos hfirst, hfirst, read16_store _ _ (by omega) (by omega) (by omega),
      Mem.read16_write16]
  · rw [if_neg hfirst]
    by_cases hsecond : i = k + 2
    · rw [if_pos hsecond, hsecond, Mem.read16_write16]
    · rw [if_neg hsecond, read16_store _ _ (by omega) (by omega) (by omega),
        read16_store _ _ (by omega) (by omega) (by omega)]

theorem storeTime_word {i : Nat} (hi : i < 12) (time : EfiTime) :
    (storeTime szTime time s).mem.read16 (cell szTime i) =
      if i = 7 then (time.second / 10 + 0x30).setWidth 16
      else if i = 8 then (time.second % 10 + 0x30).setWidth 16
      else if i = 4 then (time.minute / 10 + 0x30).setWidth 16
      else if i = 5 then (time.minute % 10 + 0x30).setWidth 16
      else if i = 1 then (time.hour / 10 + 0x30).setWidth 16
      else if i = 2 then (time.hour % 10 + 0x30).setWidth 16
      else s.mem.read16 (cell szTime i) := by
  change (storeTwo (szTime + BitVec.ofNat 32 14) _ (storeTwo (szTime + BitVec.ofNat 32 8) _
    (storeTwo (szTime + BitVec.ofNat 32 2) _ s))).mem.read16 _ = _
  rw [cell, storeTwo_digits (by decide) (by omega) (by omega),
    storeTwo_digits (by decide) (by omega) (by omega),
    storeTwo_digits (by decide) (by omega) (by omega)]
  interval_cases i <;> rfl

theorem twoText_ne_zero (al : Byte) : 0 ∉ twoText al := by
  have htens : ∀ al : Byte, (al / 10 + 0x30).setWidth 16 ≠ (0 : Half) := by decide
  have hunits : ∀ al : Byte, (al % 10 + 0x30).setWidth 16 ≠ (0 : Half) := by decide
  intro hmem
  rcases List.mem_cons.mp hmem with hzero | hmem
  · exact htens al hzero.symm
  · exact hunits al (List.mem_singleton.mp hmem).symm

theorem timeText_ne_zero (time : EfiTime) : 0 ∉ timeText time := by
  simp only [timeText, List.mem_append, twoText_ne_zero, or_false]
  decide

theorem storeTime_str (hfixed : Fixed szTime s.mem) (time : EfiTime) :
    StrAt (fun _ => True) (storeTime szTime time s).mem szTime (timeText time) := by
  refine ZStr.iff_cells.mpr ⟨timeText_ne_zero time, fun i c hc => ⟨trivial, ?_⟩⟩
  have hi : i < 12 := (List.getElem?_eq_some_iff.mp hc).1
  rw [iterate_two, storeTime_word hi]
  rw [← Option.some_inj, ← hc]
  interval_cases i <;> first
    | rfl
    | exact congrArg some (hfixed (_, _) (by decide))

theorem efiLogTime_returns (hout : PrintsStrings outputString) (hfixed : Fixed szTime s.mem)
    (time : EfiTime) : ∃ s₁, efiLogTime outputString szTime time s = some s₁ ∧
      s₁.out = s.out ++ timeText time ∧ OnlyData szTime s.mem s₁.mem :=
  ⟨_, print_str hout (storeTime_str hfixed time), rfl, onlyData_storeTime time⟩

theorem efiPrefix_str (hfixed : Fixed szTime s.mem) :
    StrAt (fun _ => True) s.mem (szHexPrefix szTime) [0x30, 0x78] := by
  have hplace : ∀ k : Nat, szHexPrefix szTime + BitVec.ofNat 32 k
      = szTime + BitVec.ofNat 32 (146 + k) := by
    intro k
    rw [szHexPrefix, BitVec.add_assoc, BitVec.ofNat_add]
    rfl
  refine ZStr.iff_cells.mpr ⟨by decide, fun i c hc => ⟨trivial, ?_⟩⟩
  have hi : i < 3 := (List.getElem?_eq_some_iff.mp hc).1
  rw [iterate_two, cell, hplace, ← Option.some_inj, ← hc]
  interval_cases i <;> exact congrArg some (hfixed (_, _) (by decide))

/-- After `i` passes. -/
structure DigitsLeft (szTime : Word) (i : Nat) (s : Console) (t : Word × Word × Console) :
    Prop where
  ecx : t.1 = BitVec.ofNat 32 (2 * i)
  only : OnlyData szTime s.mem t.2.2.mem

theorem onlyData_buffer {m : Mem} {i : Nat} (hi : i ≤ 8) (v : Half) :
    OnlyData szTime m (m.write16 (szLogBuffer szTime + BitVec.ofNat 32 (2 * i)) v) := by
  have hsmall : ∀ w ∈ fixedWords, w.1 ≤ 150 := by decide
  have hplace : szLogBuffer szTime + BitVec.ofNat 32 (2 * i)
      = szTime + BitVec.ofNat 32 (184 + 2 * i) := by
    rw [szLogBuffer, BitVec.add_assoc, BitVec.ofNat_add]
    rfl
  rw [hplace]
  refine OnlyData.write16 (by omega) (fun w hw => ?_) v
  have hle := hsmall w hw
  omega

variable (szTime s) in
theorem hexPass_returns (hfuel : 8 < fuel) (edi : Word) :
    ∃ s', iterate (hexPass szTime) fuel (0, edi, s) = some (BitVec.ofNat 32 16, s') ∧
      OnlyData szTime s.mem s'.mem := by
  have hstep : ∀ k t, (∃ i, i + k = 8 ∧ DigitsLeft szTime i s t) →
      (∃ r, hexPass szTime t = some (.done r) ∧ r.1 = BitVec.ofNat 32 16 ∧
        OnlyData szTime s.mem r.2.mem) ∨
      ∃ t' k', hexPass szTime t = some (.again t') ∧ k' < k ∧
        ∃ i, i + k' = 8 ∧ DigitsLeft szTime i s t' := by
    rintro k ⟨ecx, edi, t⟩ ⟨i, hik, hecx, honly⟩
    dsimp only at hecx honly
    by_cases hlast : ecx = 16
    · exact .inl ⟨(ecx, t), if_pos hlast, hlast, honly⟩
    · have hi : i ≠ 8 := fun h => hlast (hecx.trans (by rw [h]; rfl))
      refine .inr ⟨_, k - 1, if_neg hlast, by omega, i + 1, by omega, ?_, ?_⟩
      · change ecx + 2 = _
        rw [hecx, Nat.mul_succ, BitVec.ofNat_add]
        rfl
      · refine honly.trans ?_
        rw [hecx]
        exact onlyData_buffer (by omega) _
  have hstart : DigitsLeft szTime 0 s (0, edi, s) := ⟨rfl, OnlyData.refl⟩
  rcases iterate_total _ _ hstep ⟨0, rfl, hstart⟩ hfuel with ⟨⟨ecx, s'⟩, hrun, hecx, honly⟩
  exact ⟨s', hrun.trans (congrArg (fun ecx => some (ecx, s')) hecx), honly⟩

theorem efiLogHex_returns (hout : PrintsStrings outputString) (hfixed : Fixed szTime s.mem)
    (hfuel : 8 < fuel) (eax : Word) :
    ∃ s', efiLogHex outputString szTime fuel eax s = some s' ∧ OnlyData szTime s.mem s'.mem := by
  rw [efiLogHex, print_str hout (efiPrefix_str hfixed)]
  dsimp only [Option.bind_eq_bind, Option.bind_some]
  rcases hexPass_returns szTime { s with out := s.out ++ [0x30, 0x78] } hfuel eax with
    ⟨s₁, hloop, honly⟩
  rw [hloop]
  dsimp only [Option.bind_some]
  -- the digits end with the NUL that is stored behind them
  have hnul : (s₁.store (szLogBuffer szTime + BitVec.ofNat 32 16) 0).mem.read16
      ((· + 2)^[8] (szLogBuffer szTime)) = 0 := by
    rw [iterate_two]
    exact Mem.read16_write16 ..
  rcases ZStr.exists_of_terminator (fun _ => True) hnul fun _ _ => trivial with ⟨str, -, hstr⟩
  refine ⟨_, print_str hout hstr, honly.trans ?_⟩
  exact onlyData_buffer (Nat.le_refl 8) 0

end Routines

/-! ## The loop -/

/-- Neither data of the logger nor one of the `n + 1` characters of the format. -/
def Beside (szTime start : Word) (n : Nat) (x : Word) : Prop :=
  ¬ InData szTime x ∧ 2 * (n + 1) ≤ (x - start).toNat

/-- `P` of both bytes of a 16-bit word -/
def Both (P : Word → Prop) (a : Word) : Prop := P a ∧ P (a + 1)

instance (P : Word → Prop) [DecidablePred P] (a : Word) : Decidable (Both P a) :=
  inferInstanceAs (Decidable (_ ∧ _))

/-- There is a string for `%s` at `p`: next to the format and to the data of the logger, or the
rest of the format. -/
def ArgAt (szTime start : Word) (n : Nat) (m : Mem) (p : Word) : Prop :=
  (∃ str, StrAt (Both (Beside szTime start n)) m p str) ∨ ∃ i ≤ n, p = cell start i

/-- The strings that the directives are to print are there, with the arguments from `ebx` on. -/
def Enough (Arg : Word → Prop) (stack : Mem) : List Half → Word → Prop
  | [], _ => True
  | dx :: dirs, ebx =>
    if dx = 0x73 then Arg (stack.read32 ebx) ∧ Enough Arg stack dirs (ebx + 4)
    else if dx = 0x78 then Enough Arg stack dirs (ebx + 4)
    else Enough Arg stack dirs ebx

/-- `efi_log` is called: its format at `start`, its arguments on the stack from `ebx` on. -/
structure EfiCall (szTime start : Word) (fmt : List Half) (stack : Mem) (ebx : Word) (m : Mem) :
    Prop where
  fixed : Fixed szTime m
  format : StrAt (Both fun x => ¬ InData szTime x) m start fmt
  args : Enough (ArgAt szTime start fmt.length m) stack (directives 0x25 fmt) ebx

/-- A state of the loop with `fmt` still ahead: from ESI up to EDI there is a piece to be printed.
Where the format was read it has been changed. -/
structure EfiAt (szTime start : Word) (n : Nat) (stack m : Mem) (fmt : List Half)
    (t : Word × Word × Word × Console) : Prop where
  pieces : ∃ i piece, i + piece.length + fmt.length = n ∧ t.2.1 = cell start i ∧
    t.1 = cell start (i + piece.length) ∧
    StrAt (Both fun x => ¬ InData szTime x) t.2.2.2.mem (cell start i) (piece ++ fmt)
  beside : ∀ x, Beside szTime start n x → t.2.2.2.mem x = m x
  fixed : Fixed szTime t.2.2.2.mem
  args : Enough (ArgAt szTime start n m) stack (directives 0x25 fmt) t.2.2.1

section Loop

variable {outputString : Mem → Word → Option (List Half)} {szTime start : Word} {n : Nat}
  {stack m : Mem} {fmt : List Half} {edi esi ebx : Word} {s : Console} {fuel : Nat}

theorem write16_other {m : Mem} {a x : Word} (h : x ≠ a) (h' : x ≠ a + 1) (v : Half) :
    m.write16 a v x = m x :=
  Mem.write16_frame m v (by bv_omega)

/-- A store outside of the data of the logger. -/
theorem Fixed.write16 {m : Mem} (h : Fixed szTime m) {a : Word}
    (ha : Both (fun x => ¬ InData szTime x) a) (v : Half) : Fixed szTime (m.write16 a v) := by
  intro w hw
  have hsmall : ∀ w ∈ fixedWords, w.1 ≤ 150 := by decide
  have hle := hsmall w hw
  have hword : (BitVec.ofNat 32 w.1).toNat = w.1 := toNat_ofNat_of_lt (by omega)
  rw [← h w hw]
  generalize BitVec.ofNat 32 w.1 = b at hword ⊢
  rcases ha with ⟨hfirst, hsecond⟩
  have hin : ∀ x, InData szTime x → x ≠ a ∧ x ≠ a + 1 := fun x hx =>
    ⟨fun h => hfirst (h ▸ hx), fun h => hsecond (h ▸ hx)⟩
  have hb : InData szTime (szTime + b) := by
    rw [InData]
    bv_omega
  have hb' : InData szTime (szTime + b + 1) := by
    rw [InData]
    bv_omega
  rw [Mem.read16, Mem.read16, write16_other (hin _ hb).1 (hin _ hb).2,
    write16_other (hin _ hb').1 (hin _ hb').2]

/-- A store into the format. -/
theorem Beside.write16 {j : Nat} (hj : j ≤ n) (hn : n + 1 < 2 ^ 31) {x : Word}
    (h : Beside szTime start n x) (m : Mem) (v : Half) : m.write16 (cell start j) v x = m x := by
  refine Mem.write16_frame m v ?_
  have hplace := h.2
  have hword : (BitVec.ofNat 32 (2 * j)).toNat = 2 * j := toNat_ofNat_of_lt (by omega)
  rw [cell]
  generalize BitVec.ofNat 32 (2 * j) = b at hword ⊢
  bv_omega

theorem Both.read16 {P : Word → Prop} {m m' : Mem} (h : ∀ x, P x → m' x = m x) {a : Word}
    (ha : Both P a) : m'.read16 a = m.read16 a := by
  rw [Mem.read16, Mem.read16, h a ha.1, h (a + 1) ha.2]

/-- The string of an argument is there as long as the format ends. -/
theorem ArgAt.str {m m' : Mem} {p : Word} (h : ArgAt szTime start n m p)
    (hnul : m'.read16 (cell start n) = 0) (hbeside : ∀ x, Beside szTime start n x → m' x = m x) :
    ∃ str, StrAt (fun _ => True) m' p str := by
  rcases h with ⟨str, hstr⟩ | ⟨i, hi, rfl⟩
  · have hsame := hstr.congr fun a ha => Both.read16 hbeside ha
    exact ⟨str, hsame.mono fun _ _ => trivial⟩
  · have hend : m'.read16 ((· + 2)^[n - i] (cell start i)) = 0 := by
      rw [iterate_two, cell_cell, Nat.add_sub_cancel' hi]
      exact hnul
    rcases ZStr.exists_of_terminator (fun _ => True) hend fun _ _ => trivial with ⟨str, -, hstr⟩
    exact ⟨str, hstr⟩

/-- The piece up to a `%` is cut off and printed. -/
theorem EfiAt.cut (hout : PrintsStrings outputString) (hn : n + 1 < 2 ^ 31)
    (h : EfiAt szTime start n stack m (0x25 :: fmt) (edi, esi, ebx, s)) : ∃ j s',
      edi = cell start j ∧ j + 1 + fmt.length = n ∧ s.mem.read16 edi = 0x25 ∧
      print outputString esi (s.store edi 0) = some s' ∧
      StrAt (Both fun x => ¬ InData szTime x) s'.mem (cell start (j + 1)) fmt ∧
      (∀ x, Beside szTime start n x → s'.mem x = m x) ∧ Fixed szTime s'.mem := by
  rcases h.pieces with ⟨i, piece, hlen, hesi, hedi, hstr⟩
  dsimp only at hesi hedi hstr
  rw [List.length_cons] at hlen
  have hsplit : piece ++ 0x25 :: fmt = (piece ++ [0x25]) ++ fmt := List.append_cons ..
  have hpercent := hstr.right
  rw [iterate_two, cell_cell, ← hedi] at hpercent
  have hrest := hstr
  rw [hsplit] at hrest
  have hrest := hrest.right
  rw [iterate_two, cell_cell, List.length_append, List.length_singleton, ← Nat.add_assoc] at hrest
  -- the piece ends where the `%` was
  have hpiece : StrAt (Both fun x => ¬ InData szTime x) (s.store edi 0).mem esi piece := by
    rw [hesi]
    refine hstr.cut (fun k hk => ?_) ?_
    · rw [iterate_two, cell_cell, hedi]
      exact read16_cell s.mem start (by omega) (by omega) (by omega) 0
    · rw [iterate_two, cell_cell, ← hedi]
      exact Mem.read16_write16 ..
  refine ⟨i + piece.length, _, hedi, by omega, hpercent.2.1, print_str hout hpiece, ?_, ?_, ?_⟩
  · refine hrest.congr_cells fun k hk => ?_
    rw [iterate_two, cell_cell]
    change (s.mem.write16 edi 0).read16 _ = _
    rw [hedi]
    exact read16_cell s.mem start (by omega) (by omega) (by omega) 0
  · intro x hx
    change s.mem.write16 edi 0 x = m x
    rw [hedi, hx.write16 (by omega) hn]
    exact h.beside x hx
  · exact Fixed.write16 h.fixed hpercent.1 0

/-- What stands behind a `%` returns, whatever it is. The next piece begins behind it or with it. -/
theorem efiDirective_returns (hout : PrintsStrings outputString) (hn : n + 1 < 2 ^ 31)
    (hfuel : 8 < fuel) {j : Nat} {dx : Half} (hlen : j + (dx :: fmt).length = n)
    (hstr : StrAt (Both fun x => ¬ InData szTime x) s.mem (cell start j) (dx :: fmt))
    (hbeside : ∀ x, Beside szTime start n x → s.mem x = m x) (hfixed : Fixed szTime s.mem)
    (hargs : Enough (ArgAt szTime start n m) stack (dx :: directives 0x25 fmt) ebx) :
    ∃ esi ebx' s',
      efiDirective outputString szTime stack fuel dx (cell start j) (cell start j) ebx s
        = some (esi, ebx', s') ∧
      EfiAt szTime start n stack m fmt (cell start j + 2, esi, ebx', s') := by
  have hnul := hstr.terminator
  rw [iterate_two, cell_cell, hlen] at hnul
  rcases hstr with ⟨hok, hdx, hnonzero, hrest⟩
  rw [List.length_cons] at hlen
  have hnext : cell start j + 2 = cell start (j + 1) := cell_next start j
  change StrAt _ _ (cell start j + 2) _ at hrest
  rw [Enough.eq_def] at hargs
  dsimp only at hargs
  rw [efiDirective]
  by_cases hpercent : dx = 0x25
  · subst hpercent
    rw [if_pos rfl]
    refine ⟨_, _, s, rfl, ⟨j, [0x25], ?_, rfl, hnext, hok, hdx, hnonzero, hrest⟩, hbeside, hfixed,
      hargs⟩
    rw [List.length_singleton]
    omega
  · rw [if_neg hpercent]
    by_cases hs : dx = 0x73
    · rw [if_pos hs] at hargs ⊢
      rcases hargs with ⟨harg, hmore⟩
      rcases harg.str hnul hbeside with ⟨str, hstr⟩
      rw [print_str hout hstr]
      refine ⟨_, _, _, rfl, ⟨j + 1, [], ?_, hnext, hnext, ?_⟩, hbeside, hfixed, hmore⟩
      · rw [List.length_nil]
        omega
      · rw [← hnext]
        exact hrest
    · rw [if_neg hs] at hargs ⊢
      by_cases hx : dx = 0x78
      · rw [if_pos hx] at hargs ⊢
        rcases efiLogHex_returns hout hfixed hfuel (stack.read32 ebx) with ⟨s', hhex, honly⟩
        rw [hhex]
        refine ⟨_, _, _, rfl, ⟨j + 1, [], ?_, hnext, hnext, ?_⟩, ?_, honly.fixed hfixed, hargs⟩
        · rw [List.length_nil]
          omega
        · rw [← hnext]
          exact hrest.congr fun a ha => honly.read16 ha.1 ha.2
        · intro x hxb
          exact (honly.outside x hxb.1).trans (hbeside x hxb)
      · rw [if_neg hx] at hargs ⊢
        have hmark := Mem.read16_write16 s.mem (cell start j) 0x3F
        refine ⟨_, _, _, rfl, ⟨j, [0x3F], ?_, rfl, hnext, hok, hmark, by decide, ?_⟩, ?_,
          Fixed.write16 hfixed hok 0x3F, hargs⟩
        · rw [List.length_singleton]
          omega
        · change StrAt _ _ (cell start j + 2) _
          refine hrest.congr_cells fun k hk => ?_
          rw [hnext, iterate_two, cell_cell]
          exact read16_cell s.mem start (by omega) (by omega) (by omega) 0x3F
        · intro x hxb
          exact (hxb.write16 (by omega) hn s.mem 0x3F).trans (hbeside x hxb)

variable (fuel) in
theorem efiLog_scans (hout : PrintsStrings outputString) (hn : n + 1 < 2 ^ 31) (hfuel : 8 < fuel) :
    Scans 0x25 (efiPass outputString szTime stack fuel) (EfiAt szTime start n stack m)
      (fun t => t.1 = cell start (n + 1)) (EfiAt szTime start n stack m []) where
  stop := by
    rintro ⟨edi, esi, ebx, s⟩ h
    rcases h.pieces with ⟨i, piece, -, -, hedi, hstr⟩
    have hend := hstr.right
    rw [iterate_two, cell_cell, ← hedi] at hend
    exact ⟨_, if_pos hend.2, h⟩
  char := by
    rintro ⟨edi, esi, ebx, s⟩ c fmt h hne
    rcases h.pieces with ⟨i, piece, hlen, hesi, hedi, hstr⟩
    have hc := hstr.right
    rw [iterate_two, cell_cell, ← hedi] at hc
    have hargs := h.args
    rw [directives_char hne] at hargs
    refine ⟨(edi + 2, esi, ebx, s), ?_, ⟨i, piece ++ [c], ?_, hesi, ?_, ?_⟩, h.beside, h.fixed,
      hargs⟩
    · rw [efiPass]
      dsimp only
      rw [hc.2.1, if_neg hc.2.2.1, if_neg hne]
    · rw [← hlen, List.length_append, List.length_singleton, List.length_cons]
      omega
    · change edi + 2 = _
      rw [show edi = _ from hedi, cell_next, List.length_append, List.length_singleton,
        Nat.add_assoc]
    · rw [List.append_assoc, List.singleton_append]
      exact hstr
  directive := by
    rintro ⟨edi, esi, ebx, s⟩ c fmt h
    rcases h.cut hout hn with ⟨j, s₁, hedi, hlen, hpercent, hprint, hstr, hbeside, hfixed⟩
    have hargs := h.args
    rw [directives_directive] at hargs
    rcases efiDirective_returns hout hn hfuel hlen hstr hbeside hfixed hargs with
      ⟨esi', ebx', s', hrun, hat⟩
    refine ⟨_, ?_, hat⟩
    rw [efiPass]
    dsimp only
    rw [hpercent, if_neg (by decide), if_pos rfl, hprint]
    dsimp only [Option.bind_eq_bind, Option.bind_some]
    rw [hedi, cell_next, hstr.2.1, hrun]
    rfl
  lone := by
    rintro ⟨edi, esi, ebx, s⟩ h
    rcases h.cut hout hn with ⟨j, s₁, hedi, hlen, hpercent, hprint, hstr, -, -⟩
    refine ⟨(edi + 2 + 2, edi + 2, ebx, s₁.store (edi + 2) 0x3F), ?_, ?_⟩
    · rw [efiPass]
      dsimp only
      rw [hpercent, if_neg (by decide), if_pos rfl, hprint]
      dsimp only [Option.bind_eq_bind, Option.bind_some]
      rw [hedi, cell_next, hstr.2]
      rfl
    · change edi + 2 + 2 = _
      rw [List.length_nil] at hlen
      rw [hedi, cell_next, cell_next, ← hlen]

end Loop

/-! ## `efi_log` -/

/-- Where a pass of the loop, or the test behind it, reads the format. -/
def efiReads (t : Word × Word × Word × Console) : List Word :=
  let dx := t.2.2.2.mem.read16 t.1
  t.1 :: if dx = 0 then [t.2.1] else if dx = 0x25 then [t.1 + 2] else []

/-- `efi_log` returns, on a format of `n` characters: it reads no character behind the NUL, and the
NUL is there all the time. -/
def EfiLogStops (outputString : Mem → Word → Option (List Half)) (szTime : Word) (stack : Mem)
    (time : EfiTime) (eax ebx : Word) (s : Console) (n : Nat) : Prop :=
  ∃ k, ∀ fuel ≥ k, ∃ s₁ s', efiLogTime outputString szTime time s = some s₁ ∧
    efiLog outputString szTime stack fuel time eax ebx s = some s' ∧
    s'.mem.read16 (cell eax n) = 0 ∧
    ∀ t, Visits (efiPass outputString szTime stack fuel) (eax, eax, ebx, s₁) t →
      (∀ a ∈ efiReads t, (a - eax).toNat ≤ 2 * n) ∧ t.2.2.2.mem.read16 (cell eax n) = 0

section EfiLog

variable {outputString : Mem → Word → Option (List Half)} {szTime start ebx : Word} {n : Nat}
  {stack m : Mem} {fmt : List Half} {s : Console} {time : EfiTime}

theorem cell_offset (a : Word) {i : Nat} (hi : i < 2 ^ 31) : (cell a i - a).toNat = 2 * i := by
  have hword : (BitVec.ofNat 32 (2 * i)).toNat = 2 * i := toNat_ofNat_of_lt (by omega)
  rw [cell]
  generalize BitVec.ofNat 32 (2 * i) = b at hword ⊢
  bv_omega

/-- Only in part of the memory is there room for a format. -/
theorem format_short (h : StrAt (Both fun x => ¬ InData szTime x) m start fmt) :
    fmt.length + 1 < 2 ^ 31 := by
  by_contra hlong
  have hlt := (szTime - start).isLt
  have hok := h.ok (show (szTime - start).toNat / 2 ≤ fmt.length by omega)
  rw [iterate_two, cell] at hok
  have hword : (BitVec.ofNat 32 (2 * ((szTime - start).toNat / 2))).toNat
      = 2 * ((szTime - start).toNat / 2) := toNat_ofNat_of_lt (by omega)
  generalize BitVec.ofNat 32 (2 * ((szTime - start).toNat / 2)) = b at hword hok
  rcases hok with ⟨hfirst, hsecond⟩
  rw [InData] at hfirst hsecond
  bv_omega

/-- A state of the loop reads within the format, as long as no directive is open. -/
theorem EfiAt.reads (hn : n + 1 < 2 ^ 31) (hclosed : Closed 0x25 fmt = true)
    {t : Word × Word × Word × Console} (h : EfiAt szTime start n stack m fmt t) :
    ∀ a ∈ efiReads t, (a - start).toNat ≤ 2 * n := by
  rcases t with ⟨edi, esi, ebx, s⟩
  rcases h.pieces with ⟨i, piece, hlen, hesi, hedi, hstr⟩
  dsimp only at hesi hedi hstr
  have hahead := hstr.right
  rw [iterate_two, cell_cell, ← hedi] at hahead
  have hplace : edi = (· + 2)^[i + piece.length] start := by rw [iterate_two, hedi]
  have hreads := hahead.reads (by decide) hclosed hplace hlen
  intro a ha
  have hwhere : a = esi ∨ a ∈ edi :: if s.mem.read16 edi = 0x25 then [edi + 2] else [] := by
    rw [efiReads] at ha
    dsimp only at ha
    rcases List.mem_cons.mp ha with rfl | hnext
    · exact .inr List.mem_cons_self
    · split at hnext
      · exact .inl (List.mem_singleton.mp hnext)
      · exact .inr (List.mem_cons_of_mem _ hnext)
  rcases hwhere with rfl | hwhere
  · rw [hesi, cell_offset start (by omega)]
    omega
  · rcases hreads a hwhere with ⟨j, hj, rfl⟩
    rw [iterate_two, cell_offset start (by omega)]
    omega

theorem EfiAt.nul {t : Word × Word × Word × Console} (h : EfiAt szTime start n stack m fmt t) :
    t.2.2.2.mem.read16 (cell start n) = 0 := by
  rcases h.pieces with ⟨i, piece, hlen, -, -, hstr⟩
  have hend := hstr.terminator
  rw [iterate_two, cell_cell, List.length_append, ← Nat.add_assoc, hlen] at hend
  exact hend

theorem endLine_str (hfixed : Fixed szTime s.mem) :
    StrAt (fun _ => True) s.mem (szEndLine szTime) [0x0D, 0x0A] := by
  have hplace : ∀ k : Nat, szEndLine szTime + BitVec.ofNat 32 k
      = szTime + BitVec.ofNat 32 (24 + k) := by
    intro k
    rw [szEndLine, BitVec.add_assoc, BitVec.ofNat_add]
    rfl
  refine ZStr.iff_cells.mpr ⟨by decide, fun i c hc => ⟨trivial, ?_⟩⟩
  have hi : i < 3 := (List.getElem?_eq_some_iff.mp hc).1
  rw [iterate_two, cell, hplace, ← Option.some_inj, ← hc]
  interval_cases i <;> exact congrArg some (hfixed (_, _) (by decide))

/-- Behind the loop the last piece is printed, and CR LF. -/
theorem efiLog_ends (hout : PrintsStrings outputString) {fuel : Nat} {eax ebx edi esi ebx' : Word}
    {s₁ s₂ : Console} (htime : efiLogTime outputString szTime time s = some s₁)
    (hloop : iterate (efiPass outputString szTime stack fuel) fuel (eax, eax, ebx, s₁)
      = some (edi, esi, ebx', s₂)) (hfixed : Fixed szTime s₂.mem) {Ok : Word → Prop}
    {piece : List Half} (hpiece : StrAt Ok s₂.mem esi piece) :
    efiLog outputString szTime stack fuel time eax ebx s
      = some { s₂ with out := s₂.out ++ piece ++ [0x0D, 0x0A] } := by
  rw [efiLog, htime]
  dsimp only [Option.bind_eq_bind, Option.bind_some]
  rw [hloop]
  dsimp only [Option.bind_some]
  cases piece with
  | nil =>
      rw [if_pos hpiece.2, List.append_nil]
      exact print_str hout (endLine_str hfixed)
  | cons c piece =>
      rw [hpiece.2.1, if_neg hpiece.2.2.1, print_str hout hpiece, Option.bind_some]
      exact print_str hout (endLine_str hfixed)

/-- The loop begins with the whole format ahead. -/
theorem efiLog_reachesLoop (hout : PrintsStrings outputString)
    (h : EfiCall szTime start fmt stack ebx s.mem) (time : EfiTime) :
    ∃ s₁, efiLogTime outputString szTime time s = some s₁ ∧
      s₁.out = s.out ++ timeText time ∧ OnlyData szTime s.mem s₁.mem ∧
      EfiAt szTime start fmt.length stack s.mem fmt (start, start, ebx, s₁) := by
  have hfirst : cell start 0 = start := BitVec.add_zero start
  rcases efiLogTime_returns hout h.fixed time with ⟨s₁, htime, houtput, honly⟩
  refine ⟨s₁, htime, houtput, honly, ⟨0, [], ?_, hfirst.symm, hfirst.symm, ?_⟩,
    fun x hx => honly.outside x hx.1, honly.fixed h.fixed, h.args⟩
  · rw [List.length_nil, Nat.add_zero, Nat.zero_add]
  · rw [hfirst]
    exact h.format.congr fun a ha => honly.read16 ha.1 ha.2

/-- **`efi_log` reads up to the NUL of its format** and no further exactly if no `%` is open
there. -/
theorem efiLog_stops_iff (hout : PrintsStrings outputString)
    (h : EfiCall szTime start fmt stack ebx s.mem) :
    EfiLogStops outputString szTime stack time start ebx s fmt.length ↔
      Closed 0x25 fmt = true := by
  have hn := format_short h.format
  rcases efiLog_reachesLoop hout h time with ⟨s₁, htime, -, -, hat⟩
  constructor
  · rintro ⟨k, hstops⟩
    by_contra hopen
    rcases hstops (k + 9) (by omega) with ⟨s₂, s', htime', -, -, hvisited⟩
    have hsame : s₁ = s₂ := Option.some.inj (htime.symm.trans htime')
    rw [hsame] at hat
    rcases (efiLog_scans (k + 9) hout hn (by omega)).past (Bool.eq_false_iff.mpr hopen) hat with
      ⟨t, hv, hpast⟩
    have hread := (hvisited t hv).1 t.1 List.mem_cons_self
    rw [hpast, cell_offset start hn] at hread
    omega
  · intro hclosed
    refine ⟨fmt.length + 9, fun fuel hfuel => ?_⟩
    have hscans : Scans 0x25 (efiPass outputString szTime stack fuel)
        (EfiAt szTime start fmt.length stack s.mem) _ _ := efiLog_scans fuel hout hn (by omega)
    rcases hscans.returns hclosed hat (show fmt.length < fuel by omega) with
      ⟨⟨edi, esi, ebx', s₂⟩, hloop, hend⟩
    rcases hend.pieces with ⟨i, piece, -, hesi, -, hstr⟩
    rw [List.append_nil, ← hesi] at hstr
    refine ⟨s₁, _, htime, efiLog_ends hout htime hloop hend.fixed hstr, hend.nul, fun t hv => ?_⟩
    rcases hscans.visits hclosed hat hv with ⟨fmt', hclosed', hat'⟩
    exact ⟨hat'.reads hn hclosed', hat'.nul⟩

end EfiLog

/-! ## A console -/

/-- The string at `p`, if its NUL is among the first `n` characters. -/
def firstString : Nat → Mem → Word → Option (List Half)
  | 0, _, _ => none
  | n + 1, m, p =>
    if m.read16 p = 0 then some []
    else (firstString n m (p + 2)).map (m.read16 p :: ·)

theorem firstString_str {Ok : Word → Prop} {m : Mem} {p : Word} {str : List Half}
    (h : StrAt Ok m p str) {n : Nat} (hn : str.length < n) : firstString n m p = some str := by
  induction str generalizing p n with
  | nil =>
      obtain ⟨n, rfl⟩ : ∃ j, n = j + 1 := ⟨n - 1, by omega⟩
      exact if_pos h.2
  | cons c str ih =>
      obtain ⟨n, rfl⟩ : ∃ j, n = j + 1 := ⟨n - 1, by omega⟩
      rcases h with ⟨-, hc, hne, hrest⟩
      rw [List.length_cons] at hn
      rw [firstString, hc, if_neg hne, ih hrest (by omega)]
      rfl

/-- There are no longer strings, since the addresses begin again behind the last one. -/
theorem firstString_prints : PrintsStrings (firstString (2 ^ 31)) := by
  intro m p str h
  refine firstString_str h ?_
  by_contra hlong
  have hend := h.terminator
  have hsplit := h
  rw [← List.append_nil str] at hsplit
  have hchar := hsplit.char (show str.length - 2 ^ 31 < str.length by omega)
  have hsame : cell p (str.length - 2 ^ 31) = cell p str.length := by
    refine congrArg (p + ·) (BitVec.eq_of_toNat_eq ?_)
    rw [BitVec.toNat_ofNat, BitVec.toNat_ofNat]
    omega
  rw [iterate_two, hsame, ← iterate_two, hend] at hchar
  exact h.nonzero (hchar ▸ List.getElem_mem _)

/-- The characters of a string are stored. -/
def stored (p : Word) : List Half → Mem → Mem
  | [], m => m
  | c :: str, m => stored (p + 2) str (m.write16 p c)

/-- The data of the logger at `0x1000`, and a format at `0x2000`. -/
def demoConsole (fmt : List Half) : Console where
  mem := fixedWords.foldl (fun m w => m.write16 (0x1000 + BitVec.ofNat 32 w.1) w.2)
    (stored 0x2000 fmt fun _ => 0)
  out := []

end StupidOS.Boot.EfiLogger
