import StupidOS.Boot.EfiLogger

/-!
# Two calls of `efi_log` (`boot/efi/logger.inc`)

What `efi_log` stores over its format it does not take back. A second call prints the same exactly
if there is no `%` in it (`efiLog_repeats_iff`); after any other call the first `%` is gone
(`efiLog_cut`).
-/

namespace StupidOS.Boot.EfiLogger

/-- Two calls one after the other print the same behind the time, and the first leaves the format
of `n` characters as it was. -/
def EfiLogRepeats (outputString : Mem → Word → Option (List Half)) (szTime : Word) (stack : Mem)
    (time time' : EfiTime) (eax ebx : Word) (s : Console) (n : Nat) : Prop :=
  ∃ k, ∀ fuel ≥ k, ∃ s₁ s₂ text,
    efiLog outputString szTime stack fuel time eax ebx s = some s₁ ∧
    efiLog outputString szTime stack fuel time' eax ebx s₁ = some s₂ ∧
    s₁.out = s.out ++ timeText time ++ text ∧ s₂.out = s₁.out ++ timeText time' ++ text ∧
    ∀ i, i ≤ n → s₁.mem.read16 (cell eax i) = s.mem.read16 (cell eax i)

section Repeats

variable {outputString : Mem → Word → Option (List Half)} {szTime start ebx : Word} {n : Nat}
  {stack : Mem} {fmt : List Half} {s : Console} {time : EfiTime} {fuel : Nat}

/-! ## Without a `%` -/

theorem efiPass_char {edi esi : Word} {c : Half} (hc : s.mem.read16 edi = c) (hne : c ≠ 0)
    (hpercent : c ≠ 0x25) : efiPass outputString szTime stack fuel (edi, esi, ebx, s)
      = some (.again (edi + 2, esi, ebx, s)) := by
  rw [efiPass]
  dsimp only
  rw [hc, if_neg hne, if_neg hpercent]

theorem efiLoop_plain {Ok : Word → Prop} {edi esi : Word} (h : StrAt Ok s.mem edi fmt)
    (hplain : 0x25 ∉ fmt) {k : Nat} (hk : fmt.length < k) :
    ∃ edi', iterate (efiPass outputString szTime stack fuel) k (edi, esi, ebx, s)
      = some (edi', esi, ebx, s) := by
  induction fmt generalizing edi k with
  | nil =>
      obtain ⟨k, rfl⟩ : ∃ j, k = j + 1 := ⟨k - 1, by omega⟩
      have hpass : efiPass outputString szTime stack fuel (edi, esi, ebx, s)
          = some (.done (edi, esi, ebx, s)) := if_pos h.2
      exact ⟨edi, iterate_done hpass k⟩
  | cons c fmt ih =>
      obtain ⟨k, rfl⟩ : ∃ j, k = j + 1 := ⟨k - 1, by omega⟩
      rcases h with ⟨-, hc, hne, hrest⟩
      have hpercent : c ≠ 0x25 := fun heq => hplain (heq ▸ List.mem_cons_self)
      rw [List.length_cons] at hk
      rw [iterate_again (efiPass_char hc hne hpercent)]
      exact ih hrest (fun hmem => hplain (List.mem_cons_of_mem c hmem)) (by omega)

/-- The format is printed as it is. -/
theorem efiLog_plain (hout : PrintsStrings outputString) (hfixed : Fixed szTime s.mem)
    (hformat : StrAt (Both fun x => ¬ InData szTime x) s.mem start fmt) (hplain : 0x25 ∉ fmt)
    (hfuel : fmt.length < fuel) :
    ∃ s', efiLog outputString szTime stack fuel time start ebx s = some s' ∧
      s'.out = s.out ++ timeText time ++ (fmt ++ [0x0D, 0x0A]) ∧
      OnlyData szTime s.mem s'.mem := by
  rcases efiLogTime_returns hout hfixed time with ⟨s₁, htime, houtput, honly⟩
  have hformat' := hformat.congr fun a ha => honly.read16 ha.1 ha.2
  have hloop : ∃ edi, iterate (efiPass outputString szTime stack fuel) fuel (start, start, ebx, s₁)
      = some (edi, start, ebx, s₁) := efiLoop_plain hformat' hplain hfuel
  rcases hloop with ⟨edi, hloop⟩
  refine ⟨_, efiLog_ends hout htime hloop (honly.fixed hfixed) hformat', ?_, honly⟩
  rw [← houtput]
  exact List.append_assoc ..

/-! ## With a `%` -/

theorem print_mem {p : Word} {s' : Console} (h : print outputString p s = some s') :
    s'.mem = s.mem := by
  rcases Option.map_eq_some_iff.mp h with ⟨text, -, rfl⟩
  rfl

theorem efiLogHex_outside {eax : Word} {s' : Console}
    (h : efiLogHex outputString szTime fuel eax s = some s') :
    ∀ x, ¬ InData szTime x → s'.mem x = s.mem x := by
  rw [efiLogHex] at h
  rcases Option.bind_eq_some_iff.mp h with ⟨s₁, hfirst, h⟩
  rcases Option.bind_eq_some_iff.mp h with ⟨⟨ecx, s₂⟩, hloop, hlast⟩
  rcases hexPass_returns szTime s₁ (show 8 < fuel + 9 by omega) eax with ⟨s₃, hloop', honly⟩
  have hsame := iterate_unique hloop hloop'
  have hecx : ecx = BitVec.ofNat 32 (2 * 8) := congrArg Prod.fst hsame
  have hs : s₂ = s₃ := congrArg Prod.snd hsame
  have hstored : OnlyData szTime s₁.mem (s₂.store (szLogBuffer szTime + ecx) 0).mem := by
    rw [hecx, hs]
    exact honly.trans (onlyData_buffer (Nat.le_refl 8) 0)
  intro x hx
  rw [print_mem hlast, hstored.outside x hx, print_mem hfirst]

/-- EDI is at character `c` or a whole number of characters away from it, and where `c` is there is
no `%` any more. -/
structure CutAt (c : Word) (t : Word × Word × Word × Console) : Prop where
  even : (t.1 - c).toNat % 2 = 0
  gone : t.2.2.2.mem.read16 c ≠ 0x25

theorem sep_of_even {c e : Word} (heven : (e - c).toNat % 2 = 0) (hne : e ≠ c) : Sep c 2 e 2 := by
  rw [Sep]
  bv_omega

theorem read16_cut {m : Mem} {c e : Word} (heven : (e - c).toNat % 2 = 0) {v : Half}
    (hv : v ≠ 0x25) (h : e = c ∨ m.read16 c ≠ 0x25) : (m.write16 e v).read16 c ≠ 0x25 := by
  by_cases heq : e = c
  · rw [heq, Mem.read16_write16]
    exact hv
  · rw [Mem.read16_write16_of_sep m v (sep_of_even heven heq)]
    exact h.resolve_left heq

theorem efiDirective_cut {c : Word} (hc : Both (fun x => ¬ InData szTime x) c) {dx : Half}
    {e esi ebx' esi' : Word} {s' : Console} (heven : (e - c).toNat % 2 = 0)
    (hgone : s.mem.read16 c ≠ 0x25)
    (h : efiDirective outputString szTime stack fuel dx e esi ebx s = some (esi', ebx', s')) :
    s'.mem.read16 c ≠ 0x25 := by
  have hfinal : ∀ {s₁ s₂ : Console} {a b a' b' : Word}, some (a, b, s₁) = some (a', b', s₂) →
      s₁ = s₂ := by
    rintro s₁ s₂ a b a' b' ⟨⟩
    rfl
  rw [efiDirective] at h
  split at h
  · rw [← hfinal h]
    exact hgone
  · split at h
    · rcases Option.bind_eq_some_iff.mp h with ⟨s₁, hprint, hrest⟩
      rw [← hfinal hrest, print_mem hprint]
      exact hgone
    · split at h
      · rcases Option.bind_eq_some_iff.mp h with ⟨s₁, hhex, hrest⟩
        rw [← hfinal hrest, Both.read16 (efiLogHex_outside hhex) hc]
        exact hgone
      · rw [← hfinal h]
        exact read16_cut heven (by decide) (.inr hgone)

/-- No pass puts a `%` back. -/
theorem efiPass_cut {c : Word} (hc : Both (fun x => ¬ InData szTime x) c)
    {t t' : Word × Word × Word × Console} (heven : (t.1 - c).toNat % 2 = 0)
    (hgone : t.1 = c ∨ t.2.2.2.mem.read16 c ≠ 0x25)
    (h : efiPass outputString szTime stack fuel t = some (.again t')) : CutAt c t' := by
  rcases t with ⟨edi, esi, ebx, s⟩
  dsimp only at heven hgone
  rw [efiPass] at h
  dsimp only at h
  split at h
  · cases h
  · split at h
    · rcases Option.bind_eq_some_iff.mp h with ⟨s₁, hprint, h⟩
      rcases Option.bind_eq_some_iff.mp h with ⟨⟨esi', ebx', s₂⟩, hdir, h⟩
      cases h
      have heven₂ : (edi + 2 - c).toNat % 2 = 0 := by bv_omega
      have hgone₁ : s₁.mem.read16 c ≠ 0x25 := by
        rw [print_mem hprint]
        exact read16_cut heven (by decide) hgone
      exact ⟨by dsimp only; bv_omega, efiDirective_cut hc heven₂ hgone₁ hdir⟩
    next hpercent =>
      cases h
      refine ⟨by dsimp only; bv_omega, ?_⟩
      rcases hgone with rfl | hgone
      · exact hpercent
      · exact hgone

/-- A pass that leaves the loop changes nothing. -/
theorem efiPass_done {t r : Word × Word × Word × Console}
    (h : efiPass outputString szTime stack fuel t = some (.done r)) :
    r = t ∧ t.2.2.2.mem.read16 t.1 = 0 := by
  rcases t with ⟨edi, esi, ebx, s⟩
  rw [efiPass] at h
  dsimp only at h
  split at h
  next hzero =>
    cases h
    exact ⟨rfl, hzero⟩
  · split at h
    · rcases Option.bind_eq_some_iff.mp h with ⟨s₁, -, h⟩
      rcases Option.bind_eq_some_iff.mp h with ⟨r, -, h⟩
      cases h
    · cases h

/-- When the loop has gone over a `%`, the `%` is gone. -/
theorem efiLoop_cut {Ok : Word → Prop} {before rest : List Half}
    (hformat : StrAt Ok s.mem start (before ++ 0x25 :: rest)) (hbefore : 0x25 ∉ before)
    (hc : Both (fun x => ¬ InData szTime x) (cell start before.length)) {k : Nat}
    {r : Word × Word × Word × Console}
    (h : iterate (efiPass outputString szTime stack fuel) k (start, start, ebx, s) = some r) :
    r.2.2.2.mem.read16 (cell start before.length) ≠ 0x25 := by
  have hpercent := hformat.right.2.1
  rw [iterate_two] at hpercent
  -- up to the `%` the loop only goes on, from then on the `%` stays away
  refine iterate_sound
    (fun t => (∃ i ≤ before.length, t = (cell start i, start, ebx, s)) ∨
      CutAt (cell start before.length) t)
    (fun r => r.2.2.2.mem.read16 (cell start before.length) ≠ 0x25) ?_ ?_
    (.inl ⟨0, Nat.zero_le _, by rw [cell, Nat.mul_zero, BitVec.add_zero]⟩) h
  · rintro t t' (⟨i, hi, rfl⟩ | hcut) hpass
    · rcases Nat.lt_or_eq_of_le hi with hlt | rfl
      · have hmem : before[i] ∈ before := List.getElem_mem hlt
        have hchar := hformat.char hlt
        rw [iterate_two] at hchar
        have hne : before[i] ≠ 0 := fun hzero =>
          hformat.nonzero (List.mem_append_left _ (hzero ▸ hmem))
        have hplain : before[i] ≠ 0x25 := fun heq => hbefore (heq ▸ hmem)
        rw [efiPass_char hchar hne hplain] at hpass
        cases hpass
        exact .inl ⟨i + 1, hlt, by rw [cell_next]⟩
      · exact .inr (efiPass_cut hc (by rw [BitVec.sub_self]; rfl) (.inl rfl) hpass)
    · exact .inr (efiPass_cut hc hcut.even (.inr hcut.gone) hpass)
  · rintro t r (⟨i, hi, rfl⟩ | hcut) hpass
    · rcases efiPass_done hpass with ⟨-, hzero⟩
      dsimp only at hzero
      rcases Nat.lt_or_eq_of_le hi with hlt | rfl
      · have hchar := hformat.char hlt
        rw [iterate_two, hzero] at hchar
        exact absurd (List.mem_append_left _ (hchar ▸ List.getElem_mem hlt)) hformat.nonzero
      · exact absurd (hzero.symm.trans hpercent) (by decide)
    · rw [(efiPass_done hpass).1]
      exact hcut.gone

/-- The first `%` of the format is not there any more when `efi_log` returns. -/
theorem efiLog_cut (hout : PrintsStrings outputString) (hfixed : Fixed szTime s.mem)
    {before rest : List Half}
    (hformat : StrAt (Both fun x => ¬ InData szTime x) s.mem start (before ++ 0x25 :: rest))
    (hbefore : 0x25 ∉ before) {s' : Console}
    (h : efiLog outputString szTime stack fuel time start ebx s = some s') :
    s'.mem.read16 (cell start before.length) ≠ 0x25 := by
  have hc := hformat.right.1
  rw [iterate_two] at hc
  rcases efiLogTime_returns hout hfixed time with ⟨s₁, htime, -, honly⟩
  have hformat' := hformat.congr fun a ha => honly.read16 ha.1 ha.2
  rw [efiLog, htime] at h
  dsimp only [Option.bind_eq_bind, Option.bind_some] at h
  rcases Option.bind_eq_some_iff.mp h with ⟨⟨edi, esi, ebx', s₂⟩, hloop, h⟩
  have hgone := efiLoop_cut hformat' hbefore hc hloop
  dsimp only at h
  split at h
  · rw [print_mem h]
    exact hgone
  · rcases Option.bind_eq_some_iff.mp h with ⟨s₃, hpiece, hend⟩
    rw [print_mem hend, print_mem hpiece]
    exact hgone

/-- **Two calls of `efi_log` print the same**, and the format stays as it is, exactly if there is no
`%` in it. -/
theorem efiLog_repeats_iff {time' : EfiTime} (hout : PrintsStrings outputString)
    (hfixed : Fixed szTime s.mem)
    (hformat : StrAt (Both fun x => ¬ InData szTime x) s.mem start fmt) :
    EfiLogRepeats outputString szTime stack time time' start ebx s fmt.length ↔
      0x25 ∉ fmt := by
  constructor
  · rintro ⟨k, hrepeats⟩ hpercent
    rcases hrepeats k (Nat.le_refl k) with ⟨s₁, s₂, text, hrun, -, -, -, hkept⟩
    obtain ⟨before, rest, rfl, hbefore⟩ := List.eq_append_cons_of_mem hpercent
    have hthere := hformat.right.2.1
    rw [iterate_two] at hthere
    have hlen : before.length ≤ (before ++ 0x25 :: rest).length :=
      (List.prefix_append before _).length_le
    exact efiLog_cut hout hfixed hformat hbefore hrun ((hkept _ hlen).trans hthere)
  · intro hplain
    refine ⟨fmt.length + 1, fun fuel hfuel => ?_⟩
    rcases efiLog_plain hout hfixed hformat hplain hfuel with ⟨s₁, hrun, htext, honly⟩
    have hformat' := hformat.congr fun a ha => honly.read16 ha.1 ha.2
    rcases efiLog_plain hout (honly.fixed hfixed) hformat' hplain hfuel with
      ⟨s₂, hrun', htext', -⟩
    refine ⟨s₁, s₂, _, hrun, hrun', htext, htext', fun i hi => ?_⟩
    have hok := hformat.ok hi
    rw [iterate_two] at hok
    exact honly.read16 hok.1 hok.2

end Repeats

theorem efiLog_repeats_demo :
    EfiLogRepeats (firstString (2 ^ 31)) 0x1000 (fun _ => 0) ⟨23, 59, 7⟩ ⟨23, 59, 8⟩ 0x2000 0x3000
      (demoConsole [0x6F, 0x6B]) 2 := by
  have hformat : StrAt (Both fun x => ¬ InData 0x1000 x) (demoConsole [0x6F, 0x6B]).mem 0x2000
      [0x6F, 0x6B] := by decide +kernel
  exact (efiLog_repeats_iff firstString_prints (by decide +kernel) hformat).mpr (by decide)

/-- `%%` is printed as `%` by the first call, and not at all by the second one. -/
theorem efiLog_repeats_counterexample :
    ¬ EfiLogRepeats (firstString (2 ^ 31)) 0x1000 (fun _ => 0) ⟨23, 59, 7⟩ ⟨23, 59, 8⟩ 0x2000
        0x3000 (demoConsole [0x25, 0x25]) 2 ∧
      ((efiLog (firstString (2 ^ 31)) 0x1000 (fun _ => 0) 30 ⟨23, 59, 7⟩ 0x2000 0x3000
          (demoConsole [0x25, 0x25])).bind
        (efiLog (firstString (2 ^ 31)) 0x1000 (fun _ => 0) 30 ⟨23, 59, 8⟩ 0x2000 0x3000)).map
          Console.out
        = some (timeText ⟨23, 59, 7⟩ ++ [0x25, 0x0D, 0x0A] ++
            timeText ⟨23, 59, 8⟩ ++ [0x0D, 0x0A]) := by
  refine ⟨?_, by decide +kernel⟩
  rintro ⟨k, hrepeats⟩
  rcases hrepeats k (Nat.le_refl k) with ⟨s₁, s₂, text, hrun, -, -, -, hkept⟩
  have hthere : (demoConsole [0x25, 0x25]).mem.read16 (cell 0x2000 0) = 0x25 := by decide +kernel
  have hformat : StrAt (Both fun x => ¬ InData 0x1000 x) (demoConsole [0x25, 0x25]).mem 0x2000
      ([] ++ 0x25 :: [0x25]) := by decide +kernel
  exact efiLog_cut firstString_prints (by decide +kernel) hformat List.not_mem_nil hrun
    ((hkept 0 (by decide)).trans hthere)

end StupidOS.Boot.EfiLogger
