import StupidOS.Boot.BootInfo
import StupidOS.Boot.LoggerText

/-!
# The memory map on the screen (`boot/common/bootinfo.inc`)

`boot_info_print_mmap` logs a line for each range that `boot_info_add_memmap` has recorded
(`bootInfoPrintMmap_lines`). Its loop reads one entry more than the other fills.
-/

namespace StupidOS.Boot.Logger

/-- `Address: %x - Length: %x` -/
def msgMemMap : List Byte :=
  [0x41, 0x64, 0x64, 0x72, 0x65, 0x73, 0x73, 0x3A, 0x20, 0x25, 0x78, 0x20, 0x2D, 0x20, 0x4C, 0x65,
    0x6E, 0x67, 0x74, 0x68, 0x3A, 0x20, 0x25, 0x78]

/-- `push dword` -/
def push32 (w : Word) (stack : List Half) : List Half :=
  w.setWidth 16 :: w.extractLsb' 16 16 :: stack

/-- `pop dword` -/
def pop32 : List Half → Option (Word × List Half)
  | low :: high :: stack => some (high ++ low, stack)
  | _ => none

section PrintMmap

variable (szTime szMsgMemMap ret : Half) (fuel : Nat) (rtc : Nat → RtcTime) (info : BootInfo)

/-- One pass of `boot_info_print_mmap`, with ECX. `ret` is the return address of `bios_log`, and
`rtc` what the clock is then. -/
def printMmapPass (t : Word × List Half × Screen) :
    Option (Pass (Word × List Half × Screen) (Word × List Half × Screen)) := do
  let (ecx, stack, s) := t
  let e := info.mmap ecx.toNat
  let (ecx, stack, s) ← (if e.length = 0 then some (ecx, stack, s)
    else do
      let stack := push32 e.base (push32 e.length (push32 ecx stack))
      let (back, stack, s) ← biosLog szTime fuel (rtc ecx.toNat) szMsgMemMap (ret :: stack) s
      if back ≠ ret then none
      let (ecx, stack) ← pop32 stack
      return (ecx, stack, s))
  let ecx := ecx + 1
  return if ecx.ule 40 then .again (ecx, stack, s) else .done (ecx, stack, s)

/-- `boot_info_print_mmap` -/
def bootInfoPrintMmap (stack : List Half) (s : Screen) : Option (List Half × Screen) := do
  let (_, stack, s) ←
    iterate (printMmapPass szTime szMsgMemMap ret fuel rtc info) fuel (0, stack, s)
  return (stack, s)

/-- What is printed of a range. -/
def rangeText (e : BootInfoRange) : List Byte :=
  msgMemMap.take 9 ++ hexText e.base ++ (msgMemMap.drop 11).take 11 ++ hexText e.length

theorem render_range (e : BootInfoRange) :
    render msgMemMap [.hex e.base, .hex e.length] = some (rangeText e) := by
  simp [render, msgMemMap, takesArg, Arg.char, Arg.text, rangeText]

/-- The line for an entry of the map, if it is in use. -/
def entryLine (i : Nat) : List Byte :=
  if (info.mmap i).length = 0 then []
  else logLine .plain (rtc i) (rangeText (info.mmap i))

variable {szTime szMsgMemMap fuel} {s : Screen}

theorem pop32_push32 (w : Word) (stack : List Half) : pop32 (push32 w stack) = some (w, stack) := by
  rw [push32, pop32, append_halves]

theorem printMmapPass_writes (stack : List Half) (himage : InImage szTime s.mem)
    (hmsg : StrAt (Stays szTime) s.mem szMsgMemMap msgMemMap) (hfuel : 24 < fuel) {k : Nat}
    (hk : k < 41) : ∃ s', Writes szTime (entryLine rtc info k) s s' ∧
      printMmapPass szTime szMsgMemMap ret fuel rtc info (BitVec.ofNat 32 k, stack, s)
        = some (if k + 1 < 41 then .again (BitVec.ofNat 32 (k + 1), stack, s')
          else .done (BitVec.ofNat 32 (k + 1), stack, s')) := by
  have hindex : (BitVec.ofNat 32 k).toNat = k := toNat_ofNat_of_lt (by omega)
  have hnext : BitVec.ofNat 32 k + 1 = BitVec.ofNat 32 (k + 1) := (BitVec.ofNat_add k 1).symm
  have htest : (BitVec.ofNat 32 (k + 1)).ule 40 = decide (k + 1 < 41) := by
    rw [BitVec.ule, toNat_ofNat_of_lt (by omega)]
    exact decide_eq_decide.mpr Nat.lt_succ_iff.symm
  have hturn : ∀ s' : Screen, (if (BitVec.ofNat 32 (k + 1)).ule 40 = true
      then (.again (BitVec.ofNat 32 (k + 1), stack, s') : Pass _ (Word × List Half × Screen))
      else .done (BitVec.ofNat 32 (k + 1), stack, s'))
        = if k + 1 < 41 then .again (BitVec.ofNat 32 (k + 1), stack, s')
          else .done (BitVec.ofNat 32 (k + 1), stack, s') := by
    intro s'
    rw [htest]
    exact if_congr decide_eq_true_iff rfl rfl
  rw [entryLine]
  by_cases hfree : (info.mmap k).length = 0
  · rw [if_pos hfree]
    refine ⟨s, Writes.refl, ?_⟩
    rw [printMmapPass]
    dsimp only
    rw [hindex, if_pos hfree]
    dsimp only [Option.bind_eq_bind, Option.bind_some]
    rw [hnext, ← hturn s]
    rfl
  · rw [if_neg hfree]
    have hargs : StrArgs (Stays szTime) s.mem fuel
        [.hex (info.mmap k).base, .hex (info.mmap k).length] := by
      intro a ha p str heq
      rw [heq] at ha
      simp at ha
    rcases biosLogAt_writes ret .plain (rtc k) (render_range (info.mmap k)) himage hmsg
      hargs (show 11 < fuel by omega) hfuel (push32 (BitVec.ofNat 32 k) stack) with
      ⟨s', hlog, hwrites⟩
    refine ⟨s', hwrites, ?_⟩
    have hlog' : biosLog szTime fuel (rtc k) szMsgMemMap (ret :: push32 (info.mmap k).base
        (push32 (info.mmap k).length (push32 (BitVec.ofNat 32 k) stack))) s
        = some (ret, push32 (BitVec.ofNat 32 k) stack, s') := hlog
    rw [printMmapPass]
    dsimp only
    rw [hindex, if_neg hfree, hlog']
    dsimp only [Option.bind_eq_bind, Option.bind_some]
    rw [if_neg (not_not.mpr rfl), pop32_push32]
    dsimp only [Option.bind_some, Option.pure_def]
    rw [hnext, ← hturn s']

/-- Whatever the map is. -/
theorem printMmap_entries (stack : List Half) (himage : InImage szTime s.mem)
    (hmsg : StrAt (Stays szTime) s.mem szMsgMemMap msgMemMap) (hfuel : 40 < fuel) :
    ∃ s', bootInfoPrintMmap szTime szMsgMemMap ret fuel rtc info stack s = some (stack, s') ∧
      Writes szTime ((List.range 41).flatMap (entryLine rtc info)) s s' := by
  rcases iterate_count (BitVec.ofNat 32) (fun k t => t.1 = stack ∧
      Writes szTime ((List.range k).flatMap (entryLine rtc info)) s t.2) (show 0 < 41 by decide)
    (fun k t _ hk ht => by
      rcases t with ⟨stack', t⟩
      rcases ht with ⟨rfl, hwrites⟩
      rcases printMmapPass_writes ret rtc info stack'
        (himage.only hwrites.only) (hmsg.congr hwrites.only) (show 24 < fuel by omega) hk with
        ⟨s', hline, hpass⟩
      refine ⟨(stack', s'), ⟨rfl, ?_⟩, hpass⟩
      rw [List.range_succ, List.flatMap_append, List.flatMap_singleton]
      exact hwrites.trans hline)
    (s := (stack, s)) ⟨rfl, Writes.refl⟩ with ⟨⟨stack', s'⟩, ⟨rfl, hwrites⟩, hrun⟩
  refine ⟨s', ?_, hwrites⟩
  rw [bootInfoPrintMmap]
  have hloop := hrun fuel (by omega)
  rw [show (0 : Word) = BitVec.ofNat 32 0 from rfl, hloop]
  rfl

/-- The lines for the ranges of a memory map, one after the other. -/
def mmapLines (rtc : Nat → RtcTime) (es : List BootInfoRange) : List Byte :=
  es.zipIdx.flatMap fun p => logLine .plain (rtc p.2) (rangeText p.1)

variable {rtc info} in
theorem entryLines_recorded {high low : Word} {es : List BootInfoRange}
    (h : Recorded high low es info) (k : Nat) :
    (List.range k).flatMap (entryLine rtc info)
      = mmapLines rtc (((storedRanges es).take 40).take k) := by
  induction k with
  | zero => rfl
  | succ k ih =>
      rw [List.range_succ, List.flatMap_append, List.flatMap_singleton, ih,
        List.take_add_one (i := k), mmapLines, mmapLines, List.zipIdx_append, List.flatMap_append]
      congr 1
      rw [entryLine]
      have hused := h.used k
      by_cases hk : k < 40 ∧ k < (storedRanges es).length
      · have hget : ((storedRanges es).take 40)[k]? = some ((storedRanges es)[k]) := by
          rw [List.getElem?_take_of_lt hk.1, List.getElem?_eq_getElem hk.2]
        have hlen : (((storedRanges es).take 40).take k).length = k := by
          rw [List.length_take, List.length_take]
          omega
        rw [if_neg (hused.mpr hk), hget, hlen,
          h.entry k _ hk.1 (List.getElem?_eq_getElem hk.2)]
        simp
      · have hget : ((storedRanges es).take 40)[k]? = none := by
          rw [List.getElem?_eq_none_iff, List.length_take]
          omega
        rw [if_pos (not_not.mp (mt hused.mp hk)), hget]
        rfl

/-- **The memory map is printed.** Whatever ranges were reported, `boot_info_print_mmap` writes a
line for each of those that are recorded, in their order. -/
theorem bootInfoPrintMmap_lines (high low : Word) (es : List BootInfoRange)
    (himage : InImage szTime s.mem)
    (hmsg : StrAt (Stays szTime) s.mem szMsgMemMap msgMemMap) (stack : List Half) :
    ∃ n, ∀ fuel ≥ n, ∃ s', bootInfoPrintMmap szTime szMsgMemMap ret fuel rtc
        (addAll (bootStructure high low) es) stack s = some (stack, s') ∧
      s'.out = s.out ++ mmapLines rtc ((storedRanges es).take 40) ∧
      ∀ x, Stays szTime x → s'.mem x = s.mem x := by
  refine ⟨41, fun fuel hfuel => ?_⟩
  rcases printMmap_entries ret rtc (addAll (bootStructure high low) es) stack himage hmsg
    (show 40 < fuel by omega) with ⟨s', hrun, hwrites⟩
  refine ⟨s', hrun, ?_, hwrites.only⟩
  rw [hwrites.out, entryLines_recorded (addAll_recorded high low es), List.take_of_length_le]
  rw [List.length_take]
  omega

/-- 640 KiB and what is above 1 MiB, with a range that is rejected in between. -/
theorem bootInfoPrintMmap_lines_demo : ∃ n, ∀ fuel ≥ n, ∃ s',
    bootInfoPrintMmap 0x100 0x200 0x7C fuel (fun _ => demoTime)
      (addAll (bootStructure 0 0) [⟨0, 0x9FC00⟩, ⟨0xFFFFFFFF, 1⟩, ⟨0x100000, 0x7EF0000⟩]) []
      (demoScreen msgMemMap) = some ([], s') ∧
    s'.out = logLine .plain demoTime (rangeText ⟨0, 0x9FC00⟩)
      ++ logLine .plain demoTime (rangeText ⟨0x100000, 0x7EF0000⟩) := by
  rcases bootInfoPrintMmap_lines 0x7C (fun _ => demoTime) 0 0
    [⟨0, 0x9FC00⟩, ⟨0xFFFFFFFF, 1⟩, ⟨0x100000, 0x7EF0000⟩]
    (demoScreen_image msgMemMap) (by decide : StrAt (Stays 0x100) _ 0x200 msgMemMap) [] with
    ⟨n, hlines⟩
  refine ⟨n, fun fuel hfuel => ?_⟩
  rcases hlines fuel hfuel with ⟨s', hrun, hout, -⟩
  refine ⟨s', hrun, ?_⟩
  rw [hout]
  rfl

end PrintMmap

end StupidOS.Boot.Logger
