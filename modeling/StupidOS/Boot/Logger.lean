import StupidOS.Boot.Bios
import StupidOS.Lib.Scan

/-!
# The log of the BIOS loader (`boot/loader/logger.inc`)

`bios_log` prints its format with `int 0x10`. Its arguments are on the stack above the return
address; each is popped from below it. Addresses are offsets in the data segment. `bios_log` reads
up to the NUL of its format and no further exactly if no directive is open there
(`biosLog_stops_iff`).
-/

namespace StupidOS.Boot.Logger

/-! ## The data of the logger -/

section Labels

variable (szTime : Half)

def szHexPrefix : Half := szTime + 12
def sDigits : Half := szTime + 15
def szEndLine : Half := szTime + 31
def szBuffer : Half := szTime + 34

end Labels

/-- The data segment, and what `int 0x10` has written. -/
structure Screen where
  mem : Half → Byte
  out : List Byte

/-- `mov [a], al` -/
def Screen.store (s : Screen) (a : Half) (al : Byte) : Screen :=
  { s with mem := Function.update s.mem a al }

/-- `int 0x10` with 0x0E in AH -/
def Screen.teletype (s : Screen) (al : Byte) : Screen := { s with out := s.out ++ [al] }

/-! ## The routines -/

/-- One pass of `bios_print`, with SI. -/
def printPass (t : Half × Screen) : Option (Pass (Half × Screen) Screen) :=
  let (si, s) := t
  -- lodsb
  let al := s.mem si
  let si := si + 1
  if al = 0 then some (.done s) else some (.again (si, s.teletype al))

/-- `bios_print` (`boot/common/bios.inc`) -/
def biosPrint (fuel : Nat) (si : Half) (s : Screen) : Option Screen :=
  iterate printPass fuel (si, s)

/-- CH, CL and DH after `int 0x1A` with 0x02 in AH: the time in binary-coded decimal. -/
structure RtcTime where
  ch : Byte
  cl : Byte
  dh : Byte

/-- The two digits of `al` are stored at `a`. -/
def storeBcd (a : Half) (al : Byte) (s : Screen) : Screen :=
  (s.store a (((al >>> 4) &&& 0xF) + 0x30)).store (a + 1) ((al &&& 0xF) + 0x30)

variable (szTime : Half)

/-- `bios_log_time` -/
def biosLogTime (fuel : Nat) (rtc : RtcTime) (s : Screen) : Option Screen :=
  let s := storeBcd (szTime + 1) rtc.ch s
  let s := storeBcd (szTime + 4) rtc.cl s
  let s := storeBcd (szTime + 7) rtc.dh s
  biosPrint fuel szTime s

/-- One pass of the first loop of `bios_log_number`, with AX, CX and what is pushed. -/
def calcPass (t : Half × Half × List Half) :
    Option (Pass (Half × Half × List Half) (Half × List Half)) :=
  let (ax, cx, stack) := t
  -- div bx
  let dx := ax % 10
  let ax := ax / 10
  let stack := dx :: stack
  let cx := cx + 1
  if ax = 0 then some (.done (cx, stack)) else some (.again (ax, cx, stack))

/-- One pass of the second. -/
def popPass (t : Half × List Half × Screen) : Option (Pass (Half × List Half × Screen) Screen) :=
  let (cx, stack, s) := t
  match stack with
  | [] => none
  | ax :: stack =>
    let s := s.teletype (ax.setWidth 8 + 0x30)
    let cx := cx - 1
    let cl : Byte := cx.setWidth 8
    if cl = 0 then some (.done s) else some (.again (cx, stack, s))

/-- `bios_log_number` -/
def biosLogNumber (fuel : Nat) (di : Half) (s : Screen) : Option Screen := do
  let (cx, stack) ← iterate calcPass fuel (di, 0, [])
  iterate popPass fuel (cx, stack, s)

/-- One pass of the loop of `bios_log_hex`, with CL, SI and EDI. -/
def digitPass (t : Byte × Half × Word × Screen) :
    Option (Pass (Byte × Half × Word × Screen) (Half × Screen)) :=
  let (cl, si, edi, s) := t
  if cl = 8 then some (.done (si, s))
  else
    let edi := edi.rotateLeft 4
    let eax := edi &&& 0xF
    let al := s.mem (sDigits szTime + eax.setWidth 16)
    some (.again (cl + 1, si + 1, edi, s.store si al))

/-- `bios_log_hex` -/
def biosLogHex (fuel : Nat) (edi : Word) (s : Screen) : Option Screen := do
  let s ← biosPrint fuel (szHexPrefix szTime) s
  if edi = 0 then return s.teletype 0x30
  else
    let (si, s) ← iterate (digitPass szTime) fuel (0, szBuffer szTime, edi, s)
    let s := s.store si 0
    biosPrint fuel (szBuffer szTime) s

/-- What stands behind a `%`. An argument is popped from below the return address. -/
def logDirective (fuel : Nat) (al : Byte) (stack : List Half) (s : Screen) :
    Option (List Half × Screen) :=
  if al = 0x25 then some (stack, s.teletype al)
  else if al = 0x73 then
    match stack with
    | ax :: si :: stack => (biosPrint fuel si s).map (ax :: stack, ·)
    | _ => none
  else if al = 0x78 then
    match stack with
    | ax :: low :: high :: stack => (biosLogHex szTime fuel (high ++ low) s).map (ax :: stack, ·)
    | _ => none
  else if al = 0x64 then
    match stack with
    | ax :: di :: stack => (biosLogNumber fuel di s).map (ax :: stack, ·)
    | _ => none
  else some (stack, s.teletype 0x3F)

/-- One pass of the loop of `bios_log`, with SI and the stack. -/
def logPass (fuel : Nat) (t : Half × List Half × Screen) :
    Option (Pass (Half × List Half × Screen) (Half × List Half × Screen)) :=
  let (si, stack, s) := t
  let al := s.mem si
  if al = 0 then some (.done t)
  else if al = 0x25 then do
    let si := si + 1
    let (stack, s) ← logDirective szTime fuel (s.mem si) stack s
    return .again (si + 1, stack, s)
  else some (.again (si + 1, stack, s.teletype al))

/-- `bios_log`: where it returns to, the stack behind that, and the screen. -/
def biosLog (fuel : Nat) (rtc : RtcTime) (si : Half) (stack : List Half) (s : Screen) :
    Option (Half × List Half × Screen) := do
  let s ← biosLogTime szTime fuel rtc s
  let (_, stack, s) ← iterate (logPass szTime fuel) fuel (si, stack, s)
  let s ← biosPrint fuel (szEndLine szTime) s
  match stack with
  | [] => none
  | ret :: stack => return (ret, stack, s)

/-! ## What is stored -/

/-- Neither in the time nor in the buffer. -/
def Aside (x : Half) : Prop := 12 ≤ (x - szTime).toNat ∧ 9 ≤ (x - szBuffer szTime).toNat

instance (x : Half) : Decidable (Aside szTime x) := inferInstanceAs (Decidable (_ ∧ _))

/-- The NUL bytes of `szTime`, `szHexPrefix` and `szEndLine`. -/
structure Nuls (m : Half → Byte) : Prop where
  time : m (szTime + 11) = 0
  hexPrefix : m (szTime + 14) = 0
  endLine : m (szTime + 33) = 0

/-- Of the memory aside nothing differs, nor of the NUL bytes. -/
structure OnlyBuffers (m m' : Half → Byte) : Prop where
  aside : ∀ x, Aside szTime x → m' x = m x
  nuls : Nuls szTime m → Nuls szTime m'

section Stores

variable {szTime : Half} {m m' m'' : Half → Byte}

theorem OnlyBuffers.refl : OnlyBuffers szTime m m := ⟨fun _ _ => rfl, fun h => h⟩

theorem OnlyBuffers.trans (h : OnlyBuffers szTime m m') (h' : OnlyBuffers szTime m' m'') :
    OnlyBuffers szTime m m'' :=
  ⟨fun x hx => (h'.aside x hx).trans (h.aside x hx), fun hm => h'.nuls (h.nuls hm)⟩

/-- A store into the digits of the time, or into the buffer. -/
theorem OnlyBuffers.update {a : Half}
    (ha : (a - szTime).toNat < 9 ∨ (a - szBuffer szTime).toNat < 9) (al : Byte) :
    OnlyBuffers szTime m (Function.update m a al) := by
  rw [szBuffer] at ha
  have hne : ∀ x, Aside szTime x ∨ x = szTime + 11 ∨ x = szTime + 14 ∨ x = szTime + 33 → x ≠ a := by
    rintro x hx rfl
    rw [Aside, szBuffer] at hx
    bv_omega
  refine ⟨fun x hx => Function.update_of_ne (hne x (.inl hx)) _ _, fun hm => ⟨?_, ?_, ?_⟩⟩
  · rw [Function.update_of_ne (hne _ (by simp))]
    exact hm.time
  · rw [Function.update_of_ne (hne _ (by simp))]
    exact hm.hexPrefix
  · rw [Function.update_of_ne (hne _ (by simp))]
    exact hm.endLine

theorem OnlyBuffers.storeBcd {s : Screen} {a : Half} (ha : (a - szTime).toNat < 8) (al : Byte) :
    OnlyBuffers szTime s.mem (Logger.storeBcd a al s).mem := by
  have hfirst : (a - szTime).toNat < 9 := by omega
  have hsecond : (a + 1 - szTime).toNat < 9 := by bv_omega
  exact (OnlyBuffers.update (.inl hfirst) _).trans (OnlyBuffers.update (.inl hsecond) _)

end Stores

/-! ## Every routine returns -/

/-- A string in the data segment. -/
abbrev StrAt (Ok : Half → Prop) (m : Half → Byte) (p : Half) (str : List Byte) : Prop :=
  ZStr (· + 1) Ok m p str

section Returns

variable {szTime : Half} {Ok : Half → Prop} {s : Screen} {fuel : Nat}

theorem biosPrint_str {p : Half} {str : List Byte} (h : StrAt Ok s.mem p str)
    (hfuel : str.length < fuel) :
    biosPrint fuel p s = some { s with out := s.out ++ str } := by
  rw [biosPrint]
  induction str generalizing s p fuel with
  | nil =>
      obtain ⟨fuel, rfl⟩ : ∃ n, fuel = n + 1 := ⟨fuel - 1, by omega⟩
      have hpass : printPass (p, s) = some (.done s) := if_pos h.2
      rw [iterate_done hpass, List.append_nil]
  | cons al str ih =>
      obtain ⟨fuel, rfl⟩ : ∃ n, fuel = n + 1 := ⟨fuel - 1, by omega⟩
      rcases h with ⟨-, hal, hne, hrest⟩
      have hpass : printPass (p, s) = some (.again (p + 1, s.teletype al)) := by
        rw [printPass, hal, if_neg hne]
      rw [List.length_cons] at hfuel
      rw [iterate_again hpass, ih (s := s.teletype al) hrest (by omega)]
      rw [Screen.teletype, List.append_assoc, List.singleton_append]

/-- Up to a NUL byte. -/
theorem biosPrint_nul {p : Half} {n : Nat} (h : s.mem (p + BitVec.ofNat 16 n) = 0)
    (hfuel : n < fuel) : ∃ s', biosPrint fuel p s = some s' ∧ s'.mem = s.mem := by
  rw [← iterate_add_one] at h
  rcases ZStr.exists_of_terminator (fun _ => True) h fun _ _ => trivial with ⟨str, hlen, hstr⟩
  exact ⟨_, biosPrint_str hstr (by omega), rfl⟩

theorem biosLogTime_returns (hnuls : Nuls szTime s.mem) (hfuel : 11 < fuel) (rtc : RtcTime) :
    ∃ s', biosLogTime szTime fuel rtc s = some s' ∧ OnlyBuffers szTime s.mem s'.mem := by
  have hstores : OnlyBuffers szTime s.mem (storeBcd (szTime + 7) rtc.dh
      (storeBcd (szTime + 4) rtc.cl (storeBcd (szTime + 1) rtc.ch s))).mem :=
    ((OnlyBuffers.storeBcd (by bv_omega) rtc.ch).trans
      (OnlyBuffers.storeBcd (by bv_omega) rtc.cl)).trans
      (OnlyBuffers.storeBcd (by bv_omega) rtc.dh)
  rcases biosPrint_nul (p := szTime) (n := 11) (hstores.nuls hnuls).time hfuel with
    ⟨s', hrun, hmem⟩
  refine ⟨s', hrun, ?_⟩
  rw [hmem]
  exact hstores

/-! ### `bios_log_number` -/

/-- At most `k + 1` digits are pushed, and counted in CX. -/
theorem calcPass_returns {ax cx : Half} {stack : List Half} {k : Nat}
    (hax : ax.toNat < 10 ^ (k + 1)) (hcx : cx.toNat = stack.length)
    (hroom : stack.length + k + 1 < 256) (hfuel : k < fuel) :
    ∃ cx' stack', iterate calcPass fuel (ax, cx, stack) = some (cx', stack') ∧
      cx'.toNat = stack'.length ∧ 0 < stack'.length ∧ stack'.length ≤ stack.length + k + 1 := by
  obtain ⟨fuel, rfl⟩ : ∃ n, fuel = n + 1 := ⟨fuel - 1, by omega⟩
  induction k generalizing ax cx stack fuel with
  | zero =>
      have hlast : ax / 10 = 0 := BitVec.eq_of_toNat_eq (by
        rw [BitVec.toNat_udiv]
        exact Nat.div_eq_of_lt hax)
      have hpass : calcPass (ax, cx, stack) = some (.done (cx + 1, ax % 10 :: stack)) :=
        if_pos hlast
      refine ⟨cx + 1, ax % 10 :: stack, iterate_done hpass fuel, ?_, Nat.succ_pos _, Nat.le_refl _⟩
      rw [List.length_cons]
      bv_omega
  | succ k ih =>
      have hcount : (cx + 1).toNat = (ax % 10 :: stack).length := by
        rw [List.length_cons]
        bv_omega
      by_cases hlast : ax / 10 = 0
      · have hpass : calcPass (ax, cx, stack) = some (.done (cx + 1, ax % 10 :: stack)) :=
          if_pos hlast
        refine ⟨cx + 1, ax % 10 :: stack, iterate_done hpass fuel, hcount, Nat.succ_pos _, ?_⟩
        rw [List.length_cons]
        omega
      · have hpass : calcPass (ax, cx, stack) = some (.again (ax / 10, cx + 1, ax % 10 :: stack)) :=
          if_neg hlast
        have hdiv : (ax / 10).toNat < 10 ^ (k + 1) := by
          rw [BitVec.toNat_udiv]
          exact (Nat.div_lt_iff_lt_mul (by decide)).mpr hax
        obtain ⟨fuel, rfl⟩ : ∃ n, fuel = n + 1 := ⟨fuel - 1, by omega⟩
        have hmore : (ax % 10 :: stack).length + k + 1 < 256 := by
          rw [List.length_cons]
          omega
        rcases ih hdiv hcount hmore fuel (by omega) with ⟨cx', stack', hrun, hcx', hpos, hle⟩
        rw [List.length_cons] at hle
        exact ⟨cx', stack', (iterate_again hpass _).trans hrun, hcx', hpos, by omega⟩

/-- All of them are popped. -/
theorem popPass_returns {cx : Half} {stack : List Half} (hcx : cx.toNat = stack.length)
    (hpos : 0 < stack.length) (hroom : stack.length < 256) (hfuel : stack.length ≤ fuel) :
    ∃ s', iterate popPass fuel (cx, stack, s) = some s' ∧ s'.mem = s.mem := by
  induction stack generalizing cx s fuel with
  | nil => exact absurd hpos (Nat.lt_irrefl 0)
  | cons ax stack ih =>
      rw [List.length_cons] at hcx hroom hfuel
      obtain ⟨fuel, rfl⟩ : ∃ n, fuel = n + 1 := ⟨fuel - 1, by omega⟩
      have hdec : (cx - 1).toNat = stack.length := by bv_omega
      have hcl : ((cx - 1).setWidth 8 : Byte).toNat = stack.length := by
        rw [BitVec.toNat_setWidth, hdec]
        omega
      by_cases hlast : ((cx - 1).setWidth 8 : Byte) = 0
      · have hpass : popPass (cx, ax :: stack, s) =
            some (.done (s.teletype (ax.setWidth 8 + 0x30))) := if_pos hlast
        exact ⟨_, iterate_done hpass fuel, rfl⟩
      · have hrest : 0 < stack.length := by
          rw [← hcl]
          exact Nat.pos_of_ne_zero fun h => hlast (BitVec.eq_of_toNat_eq h)
        have hpass : popPass (cx, ax :: stack, s) =
            some (.again (cx - 1, stack, s.teletype (ax.setWidth 8 + 0x30))) := if_neg hlast
        rw [iterate_again hpass]
        exact ih hdec hrest (by omega) (by omega)

theorem biosLogNumber_returns (hfuel : 5 ≤ fuel) (di : Half) :
    ∃ s', biosLogNumber fuel di s = some s' ∧ s'.mem = s.mem := by
  have hdi : di.toNat < 10 ^ (4 + 1) := by omega
  have hnone : (0 : Half).toNat = ([] : List Half).length := rfl
  rcases calcPass_returns hdi hnone (by decide) (show 4 < fuel from hfuel) with
    ⟨cx, stack, hcalc, hcx, hpos, hle⟩
  rw [List.length_nil] at hle
  rcases popPass_returns (s := s) hcx hpos (by omega) (show stack.length ≤ fuel by omega) with
    ⟨s', hpop, hmem⟩
  refine ⟨s', ?_, hmem⟩
  rw [biosLogNumber, hcalc]
  exact hpop

/-! ### `bios_log_hex` -/

/-- After `i` passes. -/
structure DigitsLeft (szTime : Half) (i : Nat) (s : Screen) (t : Byte × Half × Word × Screen) :
    Prop where
  cl : t.1.toNat = i
  si : t.2.1 = szBuffer szTime + BitVec.ofNat 16 i
  only : OnlyBuffers szTime s.mem t.2.2.2.mem

theorem OnlyBuffers.buffer {m : Half → Byte} {i : Nat} (hi : i ≤ 8) (al : Byte) :
    OnlyBuffers szTime m (Function.update m (szBuffer szTime + BitVec.ofNat 16 i) al) := by
  refine OnlyBuffers.update (.inr ?_) al
  have hword : (BitVec.ofNat 16 i).toNat = i := by
    rw [BitVec.toNat_ofNat]
    omega
  generalize BitVec.ofNat 16 i = w at hword
  bv_omega

theorem digitPass_returns {t : Byte × Half × Word × Screen} (h : DigitsLeft szTime 0 s t)
    (hfuel : 8 < fuel) : ∃ si s', iterate (digitPass szTime) fuel t = some (si, s') ∧
      si = szBuffer szTime + BitVec.ofNat 16 8 ∧ OnlyBuffers szTime s.mem s'.mem := by
  have hstep : ∀ k t, (∃ i, i + k = 8 ∧ DigitsLeft szTime i s t) →
      (∃ r, digitPass szTime t = some (.done r) ∧ r.1 = szBuffer szTime + BitVec.ofNat 16 8 ∧
        OnlyBuffers szTime s.mem r.2.mem) ∨
      ∃ t' k', digitPass szTime t = some (.again t') ∧ k' < k ∧
        ∃ i, i + k' = 8 ∧ DigitsLeft szTime i s t' := by
    rintro k ⟨cl, si, edi, t⟩ ⟨i, hik, hcl, hsi, honly⟩
    dsimp only at hcl hsi honly
    by_cases hlast : cl = 8
    · have hi : i = 8 := by
        rw [← hcl, hlast]
        rfl
      exact .inl ⟨(si, t), if_pos hlast, hi ▸ hsi, honly⟩
    · have hi : i ≠ 8 := fun h => hlast (BitVec.eq_of_toNat_eq (hcl.trans h))
      refine .inr ⟨_, k - 1, if_neg hlast, by omega, i + 1, by omega, ?_, ?_, ?_⟩
      · change (cl + 1).toNat = i + 1
        bv_omega
      · change si + 1 = _
        rw [hsi, BitVec.add_assoc, BitVec.ofNat_add]
        rfl
      · refine honly.trans ?_
        rw [hsi]
        exact OnlyBuffers.buffer (by omega) _
  rcases iterate_total _ _ hstep ⟨0, rfl, h⟩ hfuel with ⟨⟨si, s'⟩, hrun, hsi, honly⟩
  exact ⟨si, s', hrun, hsi, honly⟩

theorem biosLogHex_returns (hnuls : Nuls szTime s.mem) (hfuel : 8 < fuel) (edi : Word) :
    ∃ s', biosLogHex szTime fuel edi s = some s' ∧ OnlyBuffers szTime s.mem s'.mem := by
  have hnul : s.mem (szHexPrefix szTime + BitVec.ofNat 16 2) = 0 := by
    rw [szHexPrefix, BitVec.add_assoc]
    exact hnuls.hexPrefix
  rcases biosPrint_nul hnul (show 2 < fuel by omega) with ⟨s₁, hfirst, hmem₁⟩
  rw [biosLogHex, hfirst, ← hmem₁]
  dsimp only [Option.bind_eq_bind, Option.bind_some]
  by_cases hzero : edi = 0
  · rw [if_pos hzero]
    exact ⟨_, rfl, OnlyBuffers.refl⟩
  · rw [if_neg hzero]
    have hstart : DigitsLeft szTime 0 s₁ (0, szBuffer szTime, edi, s₁) :=
      ⟨rfl, (BitVec.add_zero _).symm, OnlyBuffers.refl⟩
    rcases digitPass_returns hstart hfuel with ⟨si, s₂, hloop, hsi, honly⟩
    -- the digits end with the NUL that is stored behind them
    have hend : (s₂.store si 0).mem (szBuffer szTime + BitVec.ofNat 16 8) = 0 := by
      rw [hsi]
      exact Function.update_self ..
    rcases biosPrint_nul hend hfuel with ⟨s', hprint, hmem⟩
    refine ⟨s', ?_, ?_⟩
    · rw [hloop]
      exact hprint
    · rw [hmem]
      refine honly.trans ?_
      change OnlyBuffers szTime s₂.mem (Function.update s₂.mem si 0)
      rw [hsi]
      exact OnlyBuffers.buffer (Nat.le_refl 8) 0

end Returns

/-! ## The loop -/

/-- The words that the directives pop are there, and the strings that they are to print are shorter
than `k`. -/
def Enough (Ok : Half → Prop) (m : Half → Byte) (k : Nat) : List Byte → List Half → Prop
  | [], _ => True
  | al :: dirs, stack =>
    if al = 0x73 then
      match stack with
      | p :: stack => (∃ str, str.length < k ∧ StrAt Ok m p str) ∧ Enough Ok m k dirs stack
      | [] => False
    else if al = 0x78 then
      match stack with
      | _ :: _ :: stack => Enough Ok m k dirs stack
      | _ => False
    else if al = 0x64 then
      match stack with
      | _ :: stack => Enough Ok m k dirs stack
      | [] => False
    else Enough Ok m k dirs stack

/-- `bios_log` is called: its format at `start`, the return address `ret` and the arguments on the
stack. -/
structure BiosCall (szTime start : Half) (fmt : List Byte) (args : List Half) (k : Nat)
    (m : Half → Byte) : Prop where
  nuls : Nuls szTime m
  format : StrAt (Aside szTime) m start fmt
  args : Enough (Aside szTime) m k (directives 0x25 fmt) args

/-- A state of the loop with `fmt` still ahead. -/
structure BiosAt (szTime start : Half) (full : List Byte) (ret : Half) (k : Nat) (m : Half → Byte)
    (fmt : List Byte) (t : Half × List Half × Screen) : Prop where
  place : ∃ before, full = before ++ fmt ∧ t.1 = start + BitVec.ofNat 16 before.length
  args : ∃ args, t.2.1 = ret :: args ∧ Enough (Aside szTime) m k (directives 0x25 fmt) args
  only : OnlyBuffers szTime m t.2.2.mem

section Loop

variable {szTime start ret : Half} {full fmt : List Byte} {k fuel : Nat} {m : Half → Byte}
  {si : Half} {stack : List Half} {s : Screen}

theorem logDirective_returns (hnuls : Nuls szTime m) (honly : OnlyBuffers szTime m s.mem)
    (hfuel : 8 < fuel) (hk : k ≤ fuel) {al : Byte} {dirs : List Byte} {args : List Half}
    (hargs : Enough (Aside szTime) m k (al :: dirs) args) : ∃ args' s',
      logDirective szTime fuel al (ret :: args) s = some (ret :: args', s') ∧
      OnlyBuffers szTime m s'.mem ∧ Enough (Aside szTime) m k dirs args' := by
  rw [Enough.eq_def] at hargs
  dsimp only at hargs
  by_cases hpercent : al = 0x25
  · subst hpercent
    exact ⟨args, _, rfl, honly, hargs⟩
  · unfold logDirective
    rw [if_neg hpercent]
    by_cases hs : al = 0x73
    · rw [if_pos hs] at hargs ⊢
      cases args with
      | nil => exact hargs.elim
      | cons p args =>
          rcases hargs with ⟨⟨str, hlen, hstr⟩, hrest⟩
          refine ⟨args, { s with out := s.out ++ str }, ?_, honly, hrest⟩
          dsimp only
          rw [biosPrint_str (hstr.congr honly.aside) (by omega)]
          rfl
    · rw [if_neg hs] at hargs ⊢
      by_cases hx : al = 0x78
      · rw [if_pos hx] at hargs ⊢
        rcases args with _ | ⟨low, _ | ⟨high, args⟩⟩
        · exact hargs.elim
        · exact hargs.elim
        · rcases biosLogHex_returns (honly.nuls hnuls) hfuel (high ++ low) with ⟨s', hrun, hhex⟩
          refine ⟨args, s', ?_, honly.trans hhex, hargs⟩
          dsimp only
          rw [hrun]
          rfl
      · rw [if_neg hx] at hargs ⊢
        by_cases hd : al = 0x64
        · rw [if_pos hd] at hargs ⊢
          cases args with
          | nil => exact hargs.elim
          | cons di args =>
              rcases biosLogNumber_returns (s := s) (show 5 ≤ fuel by omega) di with
                ⟨s', hrun, hmem⟩
              refine ⟨args, s', ?_, by rw [hmem]; exact honly, hargs⟩
              dsimp only
              rw [hrun]
              rfl
        · rw [if_neg hd] at hargs ⊢
          exact ⟨args, _, rfl, honly, hargs⟩

theorem BiosAt.format (hformat : StrAt (Aside szTime) m start full)
    (h : BiosAt szTime start full ret k m fmt (si, stack, s)) :
    StrAt (Aside szTime) s.mem si fmt := by
  rcases h.place with ⟨before, hfull, hsi⟩
  rw [hfull] at hformat
  have hright := (hformat.congr h.only.aside).right
  rw [iterate_add_one, ← hsi] at hright
  exact hright

theorem BiosAt.moved (moved : List Byte)
    (h : BiosAt szTime start full ret k m (moved ++ fmt) (si, stack, s)) {args : List Half}
    {s' : Screen} (hargs : Enough (Aside szTime) m k (directives 0x25 fmt) args)
    (honly : OnlyBuffers szTime m s'.mem) :
    BiosAt szTime start full ret k m fmt
      (si + BitVec.ofNat 16 moved.length, ret :: args, s') := by
  rcases h.place with ⟨before, hfull, hsi⟩
  refine ⟨⟨before ++ moved, by rw [hfull, List.append_assoc], ?_⟩, ⟨args, rfl, hargs⟩, honly⟩
  rw [List.length_append, BitVec.ofNat_add, ← BitVec.add_assoc, ← hsi]

variable (ret fuel) in
theorem biosLog_scans (hcall : BiosCall szTime start full args k m) (hfuel : 8 < fuel)
    (hk : k ≤ fuel) : Scans 0x25 (logPass szTime fuel) (BiosAt szTime start full ret k m)
      (fun t => t.1 = start + BitVec.ofNat 16 (full.length + 1))
      (BiosAt szTime start full ret k m []) where
  stop := by
    rintro ⟨si, stack, s⟩ h
    exact ⟨_, if_pos (h.format hcall.format).2, h⟩
  char := by
    rintro ⟨si, stack, s⟩ al fmt h hne
    rcases h.format hcall.format with ⟨-, hal, hnonzero, -⟩
    rcases h.args with ⟨args, hstack, hargs⟩
    rw [directives_char hne] at hargs
    refine ⟨(si + 1, stack, s.teletype al), ?_, ?_⟩
    · rw [logPass]
      dsimp only
      rw [hal, if_neg hnonzero, if_neg hne]
    · rw [show stack = ret :: args from hstack]
      exact h.moved [al] hargs h.only
  directive := by
    rintro ⟨si, stack, s⟩ al fmt h
    rcases h.format hcall.format with ⟨-, hpercent, -, -, hal, -, -⟩
    rcases h.args with ⟨args, hstack, hargs⟩
    rw [directives_directive] at hargs
    rcases logDirective_returns hcall.nuls h.only hfuel hk hargs with
      ⟨args', s', hrun, honly, hargs'⟩
    refine ⟨(si + 1 + 1, ret :: args', s'), ?_, ?_⟩
    · rw [logPass]
      dsimp only
      rw [hpercent, if_neg (by decide), if_pos rfl, hal, show stack = ret :: args from hstack, hrun]
      rfl
    · rw [BitVec.add_assoc]
      exact h.moved [0x25, al] hargs' honly
  lone := by
    rintro ⟨si, stack, s⟩ h
    rcases h.format hcall.format with ⟨-, hpercent, -, -, hnul⟩
    rcases h.place with ⟨before, hfull, hsi⟩
    refine ⟨(si + 1 + 1, stack, s.teletype 0x3F), ?_, ?_⟩
    · rw [logPass]
      dsimp only
      rw [hpercent, if_neg (by decide), if_pos rfl, hnul]
      rfl
    · have hplace : si = start + BitVec.ofNat 16 before.length := hsi
      rw [hplace, hfull, List.length_append, BitVec.add_assoc, BitVec.add_assoc, Nat.add_assoc,
        BitVec.ofNat_add before.length]
      rfl

end Loop

/-! ## `bios_log` -/

/-- Where a pass of the loop reads the format. -/
def biosReads (t : Half × List Half × Screen) : List Half :=
  t.1 :: if t.2.2.mem t.1 = 0x25 then [t.1 + 1] else []

/-- `bios_log` returns, on a format of `n` characters: it reads no character behind the NUL, and
the NUL is there all the time. -/
def BiosLogStops (szTime : Half) (rtc : RtcTime) (si : Half) (stack : List Half) (s : Screen)
    (n : Nat) : Prop :=
  ∃ k, ∀ fuel ≥ k, ∃ s₁ ret stack' s', biosLogTime szTime fuel rtc s = some s₁ ∧
    biosLog szTime fuel rtc si stack s = some (ret, stack', s') ∧
    s'.mem (si + BitVec.ofNat 16 n) = 0 ∧
    ∀ t, Visits (logPass szTime fuel) (si, stack, s₁) t →
      (∀ a ∈ biosReads t, (a - si).toNat ≤ n) ∧ t.2.2.mem (si + BitVec.ofNat 16 n) = 0

section BiosLog

variable {szTime start ret : Half} {fmt full : List Byte} {args : List Half} {k fuel : Nat}
  {s : Screen} {rtc : RtcTime}

/-- Only in part of the segment is there room for a format. -/
theorem BiosCall.short {m : Half → Byte} (h : BiosCall szTime start fmt args k m) :
    fmt.length + 1 < 2 ^ 16 := by
  by_contra hlong
  have hi : (szTime - start).toNat ≤ fmt.length := by
    have hlt := (szTime - start).isLt
    omega
  have hok := (h.format.ok hi).1
  rw [iterate_add_one, BitVec.ofNat_toNat, BitVec.setWidth_eq, BitVec.add_comm,
    BitVec.sub_add_cancel, BitVec.sub_self] at hok
  exact absurd hok (by decide)

theorem BiosAt.nul {m : Half → Byte} (hcall : BiosCall szTime start full args k m)
    {t : Half × List Half × Screen} (h : BiosAt szTime start full ret k m fmt t) :
    t.2.2.mem (start + BitVec.ofNat 16 full.length) = 0 := by
  rw [← iterate_add_one]
  exact (hcall.format.congr h.only.aside).terminator

/-- A state of the loop reads within the format, as long as no directive is open. -/
theorem BiosAt.reads {m : Half → Byte} (hcall : BiosCall szTime start full args k m)
    (hclosed : Closed 0x25 fmt = true) {t : Half × List Half × Screen}
    (h : BiosAt szTime start full ret k m fmt t) :
    ∀ a ∈ biosReads t, (a - start).toNat ≤ full.length := by
  rcases t with ⟨si, stack, s⟩
  have hshort := hcall.short
  rcases h.place with ⟨before, hfull, hplace⟩
  rw [← iterate_add_one] at hplace
  have hlen := congrArg List.length hfull
  rw [List.length_append] at hlen
  intro a ha
  rcases (h.format hcall.format).reads (by decide) hclosed hplace hlen.symm a ha with
    ⟨i, hi, rfl⟩
  rw [iterate_add_one, offset_toNat start (by omega)]
  exact hi

variable (ret rtc) in
theorem biosLog_reachesLoop (h : BiosCall szTime start fmt args k s.mem) (hfuel : 11 < fuel) :
    ∃ s₁, biosLogTime szTime fuel rtc s = some s₁ ∧
      BiosAt szTime start fmt ret k s.mem fmt (start, ret :: args, s₁) := by
  rcases biosLogTime_returns h.nuls hfuel rtc with ⟨s₁, htime, honly⟩
  exact ⟨s₁, htime, ⟨[], rfl, (BitVec.add_zero start).symm⟩, ⟨args, rfl, h.args⟩, honly⟩

/-- **`bios_log` reads up to the NUL of its format** and no further exactly if no `%` is open
there. -/
theorem biosLog_stops_iff (h : BiosCall szTime start fmt args k s.mem) :
    BiosLogStops szTime rtc start (ret :: args) s fmt.length ↔ Closed 0x25 fmt = true := by
  have hshort := h.short
  constructor
  · rintro ⟨n, hstops⟩
    by_contra hopen
    have hfuel : 11 < n + k + 12 := by omega
    rcases hstops (n + k + 12) (by omega) with ⟨s₁, ret', stack', s', htime, -, -, hvisited⟩
    rcases biosLog_reachesLoop ret rtc h hfuel with ⟨s₂, htime', hat⟩
    have hsame : s₂ = s₁ := Option.some.inj (htime'.symm.trans htime)
    rw [hsame] at hat
    have hscans := biosLog_scans ret (n + k + 12) h (by omega) (by omega)
    rcases hscans.past (Bool.eq_false_iff.mpr hopen) hat with ⟨t, hv, hpast⟩
    have hread := (hvisited t hv).1 t.1 List.mem_cons_self
    rw [hpast, offset_toNat start hshort] at hread
    omega
  · intro hclosed
    refine ⟨k + fmt.length + 12, fun fuel hfuel => ?_⟩
    rcases biosLog_reachesLoop ret rtc h (show 11 < fuel by omega) with
      ⟨s₁, htime, hat⟩
    have hscans := biosLog_scans ret fuel h (by omega) (by omega)
    rcases hscans.returns hclosed hat (show fmt.length < fuel by omega) with
      ⟨⟨si, stack, s₂⟩, hloop, hend⟩
    rcases hend.args with ⟨args', hstack, -⟩
    have hnul : s₂.mem (szEndLine szTime + BitVec.ofNat 16 2) = 0 := by
      rw [szEndLine, BitVec.add_assoc]
      exact (hend.only.nuls h.nuls).endLine
    rcases biosPrint_nul hnul (show 2 < fuel by omega) with ⟨s', hcrlf, hmem⟩
    refine ⟨s₁, ret, args', s', htime, ?_, ?_, fun t hv => ?_⟩
    · rw [biosLog, htime]
      dsimp only [Option.bind_eq_bind, Option.bind_some]
      rw [hloop]
      dsimp only [Option.bind_some]
      rw [hcrlf, show stack = ret :: args' from hstack]
      rfl
    · rw [hmem]
      exact hend.nul h
    · rcases hscans.visits hclosed hat hv with ⟨fmt', hclosed', hat'⟩
      exact ⟨hat'.reads h hclosed', hat'.nul h⟩

end BiosLog

end StupidOS.Boot.Logger
