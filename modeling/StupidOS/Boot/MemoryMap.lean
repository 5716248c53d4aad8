import StupidOS.Lib.Word
import StupidOS.Lib.Loop

/-!
# Probing the memory (`loader/memory.inc`, `common/bootinfo.inc`)

`memory_get_map` asks the BIOS for the memory map (`int 0x15`, E820), and where that
is not supported for the size of the memory above 1 MiB (E801, then 88h). Each range
found goes to `boot_info_add_memmap`. The calls of it are recorded.
-/

namespace StupidOS.Boot

/-! ## The boot structure -/

/-- `BootInfoRange` -/
structure BootInfoRange where
  base : Word
  length : Word
deriving DecidableEq, Repr

/-- The fields of `boot_structure` that the probes fill. -/
structure BootInfo where
  mmap : Nat → BootInfoRange
  highMem : Word
  lowMem : Word

/-- `BOOTINFO_MEMORY_LIMIT` -/
def bootInfoMemoryLimit : Word := 0xFFFFF000

/-- `.loop` of `boot_info_add_memmap`, with `n` entries left from entry `ecx` on. -/
def addMemmapLoop (mmap : Nat → BootInfoRange) (entry : BootInfoRange) :
    Nat → Nat → Nat → BootInfoRange
  | 0, _ => mmap
  | n + 1, ecx =>
    if (mmap ecx).length = 0 then fun i => if i = ecx then entry else mmap i
    else addMemmapLoop mmap entry n (ecx + 1)

/-- The "dirty hack" of `boot_info_add_memmap`. -/
def addMemmapHack (info : BootInfo) (eax edx : Word) : BootInfo :=
  let info := if eax = 0x100000 then { info with highMem := edx + eax } else info
  if eax = 0 then { info with lowMem := edx } else info

/-- `boot_info_add_memmap`, with the carry flag it returns: that of the last comparison
on either early exit; the loop ends with carry clear. -/
def bootInfoAddMemmap (info : BootInfo) (eax edx : Word) : BootInfo × Bool :=
  if ¬ eax.ule bootInfoMemoryLimit then
    (info, eax.ult bootInfoMemoryLimit)
  else
    let ecx := bootInfoMemoryLimit - edx
    if ¬ eax.ule ecx then
      (info, eax.ult ecx)
    else
      let info := addMemmapHack info eax edx
      ({ info with mmap := addMemmapLoop info.mmap ⟨eax, edx⟩ 40 0 }, false)

/-! ## The BIOS -/

def e820MemoryUsable : Word := 1

/-- `'PAMS'` -/
def smap : Word := 0x534D4150

structure E820AddressRange where
  baseAddrLow : Word
  baseAddrHigh : Word
  lengthLow : Word
  lengthHigh : Word
  type : Word
deriving DecidableEq, Repr

/-- What function E820 returns: carry, EAX, EBX and the buffer. -/
structure E820Result where
  carry : Bool
  eax : Word
  ebx : Word
  range : E820AddressRange

/-- What functions E801 and 88h return. -/
structure SizeResult where
  carry : Bool
  ax : Half
  bx : Half

/-- The BIOS services of `int 0x15`. The answer to E820 may depend on how often it has
been called, and on the continuation value. -/
structure MemoryBios where
  e820 : Nat → Word → E820Result
  e801 : SizeResult
  int88 : SizeResult

/-! ## The probes -/

structure Probe where
  info : BootInfo
  ebx : Word
  /-- Calls of E820 so far. -/
  calls : Nat
  /-- Calls of `boot_info_add_memmap`. -/
  adds : List BootInfoRange

/-- `call boot_info_add_memmap`; EBX is preserved. -/
def Probe.add (s : Probe) (eax edx : Word) : Probe × Bool :=
  let r := bootInfoAddMemmap s.info eax edx
  ({ s with info := r.1, adds := s.adds ++ [⟨eax, edx⟩] }, r.2)

variable (bios : MemoryBios)

/-- One pass of the loop of `memory_e820_get_map`. It leaves with the carry flag. -/
def memoryE820Pass (s : Probe) : Option (Pass Probe (Bool × Probe)) :=
  let r := bios.e820 s.calls s.ebx
  let s := { s with calls := s.calls + 1, ebx := r.ebx }
  if r.carry then some (.done (true, s))
  else if r.eax ≠ smap then some (.done (true, s))
  else if r.ebx = 0 then some (.done (false, s))
  else if r.range.type ≠ e820MemoryUsable then some (.again s)
  else if r.range.baseAddrHigh ≠ 0 then some (.again s)
  else if r.range.lengthHigh ≠ 0 then some (.again s)
  else some (.again (s.add r.range.baseAddrLow r.range.lengthLow).1)

/-- `memory_e820_get_map` -/
def memoryE820GetMap (fuel : Nat) (s : Probe) : Option (Bool × Probe) :=
  iterate (memoryE820Pass bios) fuel { s with ebx := 0 }

/-- `memory_get_for_large_conf` -/
def memoryGetForLargeConf (s : Probe) : Bool × Probe :=
  if bios.e801.carry then (true, s)
  else
    let s := (s.add 0x100000 (bios.e801.ax.setWidth 32)).1
    let (s, carry) := s.add 0x1000000 (bios.e801.bx.setWidth 32 <<< 16)
    (carry, s)

/-- `memory_get_map` from the second call on. -/
def memoryFallback (s : Probe) : Bool × Probe :=
  let r := memoryGetForLargeConf bios s
  if ¬ r.1 then r
  else if bios.int88.carry then (true, r.2)
  else
    let (s, carry) := r.2.add 0x100000 (bios.int88.ax.setWidth 32)
    (carry, s)

/-- `memory_get_map` -/
def memoryGetMap (fuel : Nat) (s : Probe) : Option (Bool × Probe) :=
  match memoryE820GetMap bios fuel s with
  | none => none
  | some (false, s) => some (false, s)
  | some (true, s) => some (memoryFallback bios s)

/-! ## A conforming memory map -/

/-- From call `n` with continuation `ebx` on, the BIOS delivers the descriptors one by
one, and returns 0 in EBX with the last of them only. -/
inductive Delivers (bios : MemoryBios) : Nat → Word → List E820AddressRange → Prop where
  | last {n : Nat} {ebx : Word} {d : E820AddressRange}
      (h : bios.e820 n ebx = ⟨false, smap, 0, d⟩) : Delivers bios n ebx [d]
  | next {n : Nat} {ebx k : Word} {d : E820AddressRange} {ds : List E820AddressRange}
      (h : bios.e820 n ebx = ⟨false, smap, k, d⟩) (hk : k ≠ 0)
      (hrest : Delivers bios (n + 1) k ds) : Delivers bios n ebx (d :: ds)

/-- Usable memory that 32-bit words can describe. -/
def Eligible (d : E820AddressRange) : Prop :=
  d.type = e820MemoryUsable ∧ d.baseAddrHigh = 0 ∧ d.lengthHigh = 0

instance (d : E820AddressRange) : Decidable (Eligible d) :=
  inferInstanceAs (Decidable (_ ∧ _ ∧ _))

def E820AddressRange.entry (d : E820AddressRange) : BootInfoRange := ⟨d.baseAddrLow, d.lengthLow⟩

/-- The entries that the descriptors `ds` stand for. -/
def entries (ds : List E820AddressRange) : List BootInfoRange :=
  (ds.filter (fun d => decide (Eligible d))).map E820AddressRange.entry

/-- The boot structure after `boot_info_add_memmap` for each of `es`. -/
def addAll (info : BootInfo) (es : List BootInfoRange) : BootInfo :=
  es.foldl (fun info e => (bootInfoAddMemmap info e.base e.length).1) info

/-- `s'` is `s` after the entries `es` have been added. -/
structure Added (es : List BootInfoRange) (s s' : Probe) : Prop where
  info : s'.info = addAll s.info es
  adds : s'.adds = s.adds ++ es

variable {bios}

theorem Delivers.ne_nil {n : Nat} {ebx : Word} {ds : List E820AddressRange}
    (h : Delivers bios n ebx ds) : ds ≠ [] := by
  cases h with
  | last _ => exact List.cons_ne_nil _ _
  | next _ _ _ => exact List.cons_ne_nil _ _

theorem entries_cons (d : E820AddressRange) (ds : List E820AddressRange) :
    entries (d :: ds) = (if Eligible d then [d.entry] else []) ++ entries ds := by
  rw [entries, List.filter_cons]
  by_cases hd : Eligible d
  · simp [hd, entries]
  · simp [hd, entries]

theorem entries_append (ds ds' : List E820AddressRange) :
    entries (ds ++ ds') = entries ds ++ entries ds' := by
  rw [entries, List.filter_append, List.map_append]
  rfl

/-- The pass for a descriptor that is not the last. -/
theorem memoryE820Pass_next {s : Probe} {k : Word} {d : E820AddressRange}
    (h : bios.e820 s.calls s.ebx = ⟨false, smap, k, d⟩) (hk : k ≠ 0) :
    ∃ s', memoryE820Pass bios s = some (.again s') ∧ s'.calls = s.calls + 1 ∧ s'.ebx = k ∧
      Added (if Eligible d then [d.entry] else []) s s' := by
  have hnot : ∀ {p : Prop}, p → ¬ ¬ p := fun hp hn => hn hp
  by_cases hd : Eligible d
  · refine ⟨({ s with calls := s.calls + 1, ebx := k }.add d.baseAddrLow d.lengthLow).1, ?_, rfl,
      rfl, ?_⟩
    · simp only [memoryE820Pass, h, if_neg hk, ne_eq, if_neg (hnot hd.1),
        if_neg (hnot hd.2.1), if_neg (hnot hd.2.2), Bool.false_eq_true, if_false, not_true]
    · rw [if_pos hd]
      exact ⟨rfl, rfl⟩
  · refine ⟨{ s with calls := s.calls + 1, ebx := k }, ?_, rfl, rfl, ?_⟩
    · rw [Eligible, not_and_or, not_and_or] at hd
      simp only [memoryE820Pass, h, if_neg hk, ne_eq, Bool.false_eq_true, if_false, not_true]
      rcases hd with hd | hd | hd
      · rw [if_pos hd]
      · rw [if_pos hd, ite_self]
      · rw [if_pos hd, ite_self, ite_self]
    · rw [if_neg hd]
      exact ⟨rfl, (List.append_nil _).symm⟩

/-- The pass for the last descriptor looks at EBX only. -/
theorem memoryE820Pass_last {s : Probe} {d : E820AddressRange}
    (h : bios.e820 s.calls s.ebx = ⟨false, smap, 0, d⟩) :
    memoryE820Pass bios s
      = some (.done (false, { s with calls := s.calls + 1, ebx := 0 })) := by
  simp [memoryE820Pass, h]

theorem Added.trans {es es' : List BootInfoRange} {s s' s'' : Probe} (h : Added es s s')
    (h' : Added es' s' s'') : Added (es ++ es') s s'' := by
  refine ⟨?_, ?_⟩
  · rw [h'.info, h.info, addAll, addAll, addAll, List.foldl_append]
  · rw [h'.adds, h.adds, List.append_assoc]

/-- The loop adds all descriptors but the last. -/
theorem memoryE820_run {s : Probe} {ds : List E820AddressRange}
    (h : Delivers bios s.calls s.ebx ds) :
    ∃ s', iterate (memoryE820Pass bios) ds.length s = some (false, s') ∧
      Added (entries ds.dropLast) s s' := by
  induction ds generalizing s with
  | nil => exact absurd rfl h.ne_nil
  | cons d ds ih =>
      cases h with
      | last hd =>
          refine ⟨_, iterate_done (memoryE820Pass_last hd) _, ?_⟩
          exact ⟨rfl, (List.append_nil _).symm⟩
      | next hd hk hrest =>
          rcases memoryE820Pass_next hd hk with ⟨s₁, hpass, hcalls, hebx, hadded⟩
          rw [← hcalls, ← hebx] at hrest
          rcases ih hrest with ⟨s', hrun, hadded'⟩
          refine ⟨s', ?_, ?_⟩
          · rw [List.length_cons, iterate_again hpass]
            exact hrun
          · rw [List.dropLast_cons_of_ne_nil hrest.ne_nil, entries_cons]
            exact hadded.trans hadded'

/-! ## Completeness of the map -/

/-- The loop ends with carry clear, having added every eligible descriptor once, in
order. -/
structure E820Complete (bios : MemoryBios) (ds : List E820AddressRange) (fuel : Nat)
    (s s' : Probe) : Prop where
  returns : memoryE820GetMap bios fuel s = some (false, s')
  adds : s'.adds = s.adds ++ entries ds

/-- Which maps lose nothing: those that do not end in usable memory. -/
def LastNotEligible (ds : List E820AddressRange) : Prop :=
  ∀ d, ds.getLast? = some d → ¬ Eligible d

theorem entries_dropLast_iff {ds : List E820AddressRange} (hne : ds ≠ []) :
    entries ds.dropLast = entries ds ↔ LastNotEligible ds := by
  have hlast := List.getLast?_eq_some_getLast hne
  rw [LastNotEligible, hlast]
  conv_lhs => rw [← List.dropLast_append_getLast hne]
  rw [List.dropLast_concat, entries_append, entries_cons]
  constructor
  · intro h d hd hel
    rw [Option.some.injEq] at hd
    subst hd
    rw [if_pos hel, List.self_eq_append_right] at h
    exact absurd h (List.cons_ne_nil _ _)
  · intro h
    have hnil : entries [] = [] := rfl
    rw [if_neg (h _ rfl), hnil, List.append_nil, List.append_nil]

theorem LastNotEligible.of_complete {ds : List E820AddressRange} {s s' : Probe} {fuel : Nat}
    (hbios : Delivers bios s.calls 0 ds) (h : E820Complete bios ds fuel s s') :
    LastNotEligible ds := by
  rcases memoryE820_run (s := { s with ebx := 0 }) hbios with ⟨t, hrun, hadded⟩
  have heq := iterate_unique h.returns hrun
  have ht : s' = t := congrArg Prod.snd heq
  have hadds := h.adds
  rw [ht, hadded.adds] at hadds
  exact (entries_dropLast_iff hbios.ne_nil).mp (List.append_cancel_left hadds)

/-- **Completeness of the E820 map.** A map is handed on whole exactly when its last
descriptor is none that would be: the loop looks at EBX before it looks at the
descriptor. -/
theorem e820Complete_iff {ds : List E820AddressRange} {s : Probe}
    (hbios : Delivers bios s.calls 0 ds) :
    (∃ fuel s', E820Complete bios ds fuel s s') ↔ LastNotEligible ds := by
  constructor
  · intro h
    rcases h with ⟨fuel, s', h⟩
    exact LastNotEligible.of_complete hbios h
  · intro h
    rcases memoryE820_run (s := { s with ebx := 0 }) hbios with ⟨s', hrun, hadded⟩
    refine ⟨ds.length, s', hrun, ?_⟩
    rw [hadded.adds, (entries_dropLast_iff hbios.ne_nil).mpr h]

/-- A BIOS without E801 and 88h whose map is `d`, or `d` and then `d'`. -/
def mapBios (d : E820AddressRange) (d' : Option E820AddressRange) : MemoryBios where
  e820 := fun n _ =>
    match n, d' with
    | 0, some _ => ⟨false, smap, 1, d⟩
    | 0, none => ⟨false, smap, 0, d⟩
    | _ + 1, _ => ⟨false, smap, 0, d'.getD d⟩
  e801 := ⟨true, 0, 0⟩
  int88 := ⟨true, 0, 0⟩

/-- The loader when the probes start. -/
def probeStart : Probe where
  info := ⟨fun _ => ⟨0, 0⟩, 0, 0⟩
  ebx := 0
  calls := 0
  adds := []

/-- 15 MiB from 1 MiB on. -/
def usableRange : E820AddressRange := ⟨0x100000, 0, 0xF00000, 0, e820MemoryUsable⟩

/-- A range that is not memory. -/
def reservedRange : E820AddressRange := ⟨0xFFFC0000, 0, 0x40000, 0, 2⟩

/-- A map of one usable range comes out empty. -/
theorem e820Complete_counterexample :
    Delivers (mapBios usableRange none) 0 0 [usableRange] ∧
      ¬ ∃ fuel s', E820Complete (mapBios usableRange none) [usableRange] fuel probeStart s' := by
  have hbios : Delivers (mapBios usableRange none) 0 0 [usableRange] := Delivers.last rfl
  refine ⟨hbios, ?_⟩
  intro h
  rcases h with ⟨fuel, s', h⟩
  have hlast := LastNotEligible.of_complete hbios h
  exact hlast usableRange rfl (by decide)

theorem e820Complete_iff_reserved :
    ∃ fuel s', E820Complete (mapBios usableRange (some reservedRange))
      [usableRange, reservedRange] fuel probeStart s' := by
  rw [e820Complete_iff (Delivers.next rfl (by decide) (Delivers.last rfl))]
  intro d hd
  have hreserved : reservedRange = d := Option.some.inj hd
  rw [← hreserved]
  decide

/-! ## The map in the boot structure -/

/-- The map holds the entries `es`, as far as there is room, and is empty behind them. -/
structure Filled (mmap : Nat → BootInfoRange) (es : List BootInfoRange) : Prop where
  nonempty : ∀ e ∈ es, e.length ≠ 0
  entry : ∀ i e, i < 40 → es[i]? = some e → mmap i = e
  free : ∀ i, i < 40 → es.length ≤ i → (mmap i).length = 0

/-- The search for a free entry, when the first one is entry `k`. -/
theorem addMemmapLoop_eq {mmap : Nat → BootInfoRange} {entry : BootInfoRange} {k : Nat}
    (n ecx : Nat) (hused : ∀ i, i < k → i < ecx + n → (mmap i).length ≠ 0)
    (hfree : k < ecx + n → (mmap k).length = 0) (hk : ecx ≤ k) :
    addMemmapLoop mmap entry n ecx
      = if k < ecx + n then fun i => if i = k then entry else mmap i else mmap := by
  induction n generalizing ecx with
  | zero => rw [addMemmapLoop, if_neg (by omega)]
  | succ n ih =>
      rw [addMemmapLoop]
      by_cases hhere : ecx = k
      · subst hhere
        rw [if_pos (hfree (by omega)), if_pos (by omega)]
      · have hbound : ecx + 1 + n = ecx + (n + 1) := by omega
        rw [if_neg (hused ecx (by omega) (by omega)), ih (ecx + 1), hbound]
        · rw [hbound]
          exact hused
        · rw [hbound]
          exact hfree
        · omega

/-- Entries that are not empty. -/
def nonemptyEntries (es : List BootInfoRange) : List BootInfoRange :=
  es.filter (fun e => decide (e.length ≠ 0))

theorem nonemptyEntries_append (es es' : List BootInfoRange) :
    nonemptyEntries (es ++ es') = nonemptyEntries es ++ nonemptyEntries es' :=
  List.filter_append ..

theorem nonemptyEntries_cons {e : BootInfoRange} (he : e.length ≠ 0)
    (es : List BootInfoRange) : nonemptyEntries (e :: es) = e :: nonemptyEntries es := by
  rw [nonemptyEntries, List.filter_cons, if_pos (decide_eq_true he)]
  rfl

theorem Filled.add {mmap : Nat → BootInfoRange} {es : List BootInfoRange}
    (h : Filled mmap es) (e : BootInfoRange) :
    Filled (addMemmapLoop mmap e 40 0) (es ++ nonemptyEntries [e]) := by
  -- the loop passes the entries in use and stops at the first free one, if there is one
  have hused : ∀ i, i < es.length → i < 0 + 40 → (mmap i).length ≠ 0 := by
    intro i hi hlt
    have hget : es[i]? = some es[i] := List.getElem?_eq_getElem hi
    rw [h.entry i es[i] (by omega) hget]
    exact h.nonempty _ (List.getElem_mem hi)
  rw [addMemmapLoop_eq 40 0 hused (fun hlt => h.free es.length (by omega) (Nat.le_refl _))
    (Nat.zero_le _)]
  by_cases he : e.length = 0
  · have hnone : nonemptyEntries [e] = [] := by simp [nonemptyEntries, he]
    rw [hnone, List.append_nil]
    split
    · refine ⟨h.nonempty, ?_, ?_⟩
      · intro i e' hi hget
        have hlt : i < es.length := (List.getElem?_eq_some_iff.mp hget).1
        rw [if_neg (by omega)]
        exact h.entry i e' hi hget
      · intro i hi hle
        by_cases heq : i = es.length
        · rw [if_pos heq, he]
        · rw [if_neg heq]
          exact h.free i hi hle
    · exact h
  · have hone : nonemptyEntries [e] = [e] := nonemptyEntries_cons he []
    rw [hone]
    have hall : ∀ e' ∈ es ++ [e], e'.length ≠ 0 := by
      intro e' he'
      rcases List.mem_append.mp he' with he' | he'
      · exact h.nonempty e' he'
      · rw [List.mem_singleton.mp he']
        exact he
    refine ⟨hall, ?_, ?_⟩
    · intro i e' hi hget
      by_cases hlt : i < es.length
      · rw [List.getElem?_append_left hlt] at hget
        have hold := h.entry i e' hi hget
        split
        · have hother : i ≠ es.length := by omega
          simp only [hother, if_false]
          exact hold
        · exact hold
      · have hlen := (List.getElem?_eq_some_iff.mp hget).1
        rw [List.length_append, List.length_singleton] at hlen
        have heq : i = es.length := by omega
        subst heq
        rw [List.getElem?_concat_length, Option.some.injEq] at hget
        rw [if_pos (by omega), if_pos rfl, hget]
    · intro i hi hle
      rw [List.length_append, List.length_singleton] at hle
      rw [if_pos (by omega), if_neg (by omega)]
      exact h.free i hi (by omega)

/-! ## The three services -/

/-- A range below `BOOTINFO_MEMORY_LIMIT` is taken. -/
theorem bootInfoAddMemmap_taken (info : BootInfo) {eax edx : Word}
    (h : eax.toNat + edx.toNat ≤ 0xFFFFF000) :
    bootInfoAddMemmap info eax edx =
      ({ addMemmapHack info eax edx with
        mmap := addMemmapLoop (addMemmapHack info eax edx).mmap ⟨eax, edx⟩ 40 0 }, false) := by
  have hlimit : bootInfoMemoryLimit.toNat = 0xFFFFF000 := rfl
  have hlow : eax.ule bootInfoMemoryLimit = true := by
    rw [BitVec.ule, hlimit]
    exact decide_eq_true (by omega)
  have hroom : eax.ule (bootInfoMemoryLimit - edx) = true := by
    rw [BitVec.ule, BitVec.toNat_sub, hlimit]
    exact decide_eq_true (by omega)
  simp only [bootInfoAddMemmap, hlow, hroom, not_true, if_false]

@[simp] theorem addMemmapHack_mmap (info : BootInfo) (eax edx : Word) :
    (addMemmapHack info eax edx).mmap = info.mmap := by
  unfold addMemmapHack
  split <;> split <;> rfl

theorem addMemmapHack_highMem (info : BootInfo) (eax edx : Word) :
    (addMemmapHack info eax edx).highMem
      = if eax = 0x100000 then edx + eax else info.highMem := by
  unfold addMemmapHack
  split <;> split <;> rfl

/-- The usable memory above 1 MiB, `[0x100000, E)`. -/
def highRegion (E : Word) : E820AddressRange := ⟨0x100000, 0, E - 0x100000, 0, e820MemoryUsable⟩

/-- The machines looked at: up to 16 MiB, in units of 64 KiB. -/
structure HighMemory (E : Word) : Prop where
  low : 0x100000 < E.toNat
  high : E.toNat ≤ 0x1000000
  aligned : E.toNat % 0x10000 = 0

/-- KB between 1 MiB and `E`. -/
def kilobytes (E : Word) : Half := BitVec.ofNat 16 ((E.toNat - 0x100000) / 1024)

/-- A range of usable memory below 1 MiB. -/
structure LowRange (d : E820AddressRange) : Prop where
  baseHigh : d.baseAddrHigh = 0
  lengthHigh : d.lengthHigh = 0
  below : d.baseAddrLow.toNat < 0x100000
  inside : d.baseAddrLow.toNat + d.lengthLow.toNat ≤ 0x100000

/-- A map that reports the memory truthfully and ends in a reserved range. -/
structure TruthfulMap (E : Word) (ds : List E820AddressRange) : Prop where
  region : highRegion E ∈ ds
  others : ∀ d ∈ ds, d.type = e820MemoryUsable → d = highRegion E ∨ LowRange d
  reserved : ∀ d, ds.getLast? = some d → d.type = 2

/-- The first service that the machine supports; for E820, with its map. -/
inductive Service where
  | e820 (ds : List E820AddressRange)
  | e801
  | int88

/-- E820 is not there: carry, or no signature. -/
def NoE820 (bios : MemoryBios) : Prop :=
  (bios.e820 0 0).carry = true ∨ (bios.e820 0 0).eax ≠ smap

/-- `service` is the first one supported, and reports the memory truthfully. -/
def Reports (bios : MemoryBios) (E : Word) : Service → Prop
  | .e820 ds => TruthfulMap E ds ∧ Delivers bios 0 0 ds
  | .e801 => NoE820 bios ∧ bios.e801 = ⟨false, kilobytes E, 0⟩
  | .int88 => NoE820 bios ∧ bios.e801.carry = true ∧ bios.int88.carry = false ∧
      bios.int88.ax = kilobytes E

/-- `memory_get_map` returns with the memory above 1 MiB in the boot structure. -/
structure Probed (bios : MemoryBios) (E : Word) (fuel : Nat) (s s' : Probe) : Prop where
  returns : memoryGetMap bios fuel s = some (false, s')
  highMem : s'.info.highMem = E
  mmap : ∃ i, i < 40 ∧ s'.info.mmap i = ⟨0x100000, E - 0x100000⟩

/-- Entries of the map that are taken when the region above 1 MiB is reached. -/
def slotsBefore (E : Word) (ds : List E820AddressRange) : Nat :=
  (nonemptyEntries (entries (ds.takeWhile (fun d => decide (d ≠ highRegion E))))).length

/-- Which services come out right: E820, unless 40 ranges stand before the region. -/
def ProbeMeets (E : Word) : Service → Prop
  | .e820 ds => slotsBefore E ds < 40
  | .e801 => False
  | .int88 => False

/-! ### E820 -/

/-- An entry that the truthful map hands on. -/
def GoodEntry (E : Word) (e : BootInfoRange) : Prop :=
  e = ⟨0x100000, E - 0x100000⟩ ∨
    e.base.toNat < 0x100000 ∧ e.base.toNat + e.length.toNat ≤ 0x100000

theorem GoodEntry.taken {E : Word} (hE : HighMemory E) {e : BootInfoRange}
    (h : GoodEntry E e) : e.base.toNat + e.length.toNat ≤ 0xFFFFF000 := by
  rcases h with rfl | h
  · have hlow := hE.low
    have hhigh := hE.high
    dsimp only
    bv_omega
  · omega

/-- The boot structure after good entries: the map is filled in order, and `high_mem` is
that of the region once it has been added. -/
theorem addAll_spec {E : Word} (hE : HighMemory E) {es : List BootInfoRange}
    (hgood : ∀ e ∈ es, GoodEntry E e) {info : BootInfo} {old : List BootInfoRange}
    (hfilled : Filled info.mmap old) :
    Filled (addAll info es).mmap (old ++ nonemptyEntries es) ∧
      (addAll info es).highMem
        = if ⟨0x100000, E - 0x100000⟩ ∈ es then E else info.highMem := by
  -- on the ranges still to come
  induction es generalizing info old with
  | nil => exact ⟨by simpa [addAll, nonemptyEntries] using hfilled, rfl⟩
  | cons e es ih =>
      have he := hgood e List.mem_cons_self
      have htaken := bootInfoAddMemmap_taken info (he.taken hE)
      have hfilled' : Filled (bootInfoAddMemmap info e.base e.length).1.mmap
          (old ++ nonemptyEntries [e]) := by
        rw [htaken, addMemmapHack_mmap]
        exact hfilled.add e
      rcases ih (fun e' he' => hgood e' (List.mem_cons_of_mem e he')) hfilled' with
        ⟨hmap, hhigh⟩
      have hcons : nonemptyEntries (e :: es) = nonemptyEntries [e] ++ nonemptyEntries es :=
        nonemptyEntries_append [e] es
      refine ⟨?_, ?_⟩
      · rw [hcons, ← List.append_assoc]
        exact hmap
      · have hstep : addAll info (e :: es)
            = addAll (bootInfoAddMemmap info e.base e.length).1 es := rfl
        rw [hstep, hhigh, htaken]
        simp only [addMemmapHack_highMem]
        by_cases hmem : (⟨0x100000, E - 0x100000⟩ : BootInfoRange) ∈ es
        · rw [if_pos hmem, if_pos (List.mem_cons_of_mem e hmem)]
        · rw [if_neg hmem]
          rcases he with rfl | he
          · rw [if_pos rfl, if_pos List.mem_cons_self]
            exact BitVec.sub_add_cancel E _
          -- a range below 1 MiB leaves `high_mem` alone
          · have hbase : ¬ e.base = 0x100000 := by
              intro h
              rw [h] at he
              exact absurd he.1 (by decide)
            have hne : (⟨0x100000, E - 0x100000⟩ : BootInfoRange) ≠ e := by
              intro h
              exact hbase (congrArg BootInfoRange.base h).symm
            rw [if_neg hbase, if_neg]
            intro h
            cases h with
            | head => exact hne rfl
            | tail _ h => exact hmem h

/-- The entry of the region. -/
def highEntry (E : Word) : BootInfoRange := ⟨0x100000, E - 0x100000⟩

theorem highEntry_length {E : Word} (hE : HighMemory E) : (highEntry E).length ≠ 0 := by
  have hlow := hE.low
  unfold highEntry
  dsimp only
  bv_omega

theorem mem_entries {ds : List E820AddressRange} {e : BootInfoRange} :
    e ∈ entries ds ↔ ∃ d ∈ ds, Eligible d ∧ d.entry = e := by
  simp [entries, and_assoc]

theorem TruthfulMap.good {E : Word} {ds : List E820AddressRange} (h : TruthfulMap E ds) :
    ∀ e ∈ entries ds.dropLast, GoodEntry E e := by
  intro e he
  rcases mem_entries.mp he with ⟨d, hd, hel, rfl⟩
  rcases h.others d (List.dropLast_subset ds hd) hel.1 with rfl | hlow
  · exact Or.inl rfl
  · exact Or.inr ⟨hlow.below, hlow.inside⟩

/-- The map around the first mention of the region. -/
theorem TruthfulMap.split {E : Word} {ds : List E820AddressRange} (h : TruthfulMap E ds) :
    ∃ pre post, ds.dropLast = pre ++ highRegion E :: post ∧ highRegion E ∉ pre ∧
      slotsBefore E ds = (nonemptyEntries (entries pre)).length := by
  have hne : ds ≠ [] := List.ne_nil_of_mem h.region
  have hdrop : highRegion E ∈ ds.dropLast := by
    have hmem := h.region
    rw [← List.dropLast_append_getLast hne, List.mem_append, List.mem_singleton] at hmem
    rcases hmem with hmem | hlast
    · exact hmem
    · have htype := h.reserved _ (List.getLast?_eq_some_getLast hne)
      rw [← hlast] at htype
      exact absurd htype (show ¬ e820MemoryUsable = 2 by decide)
  rcases List.eq_append_cons_of_mem hdrop with ⟨pre, post, hsplit, hpre⟩
  refine ⟨pre, post, hsplit, hpre, ?_⟩
  have hds : ds = pre ++ highRegion E :: (post ++ [ds.getLast hne]) := by
    conv_lhs => rw [← List.dropLast_append_getLast hne, hsplit]
    rw [List.append_assoc, List.cons_append]
  have htake : ds.takeWhile (fun d => decide (d ≠ highRegion E)) = pre := by
    have hall : ∀ d ∈ pre, decide (d ≠ highRegion E) = true := by
      intro d hd
      apply decide_eq_true
      intro heq
      exact hpre (heq ▸ hd)
    rw [hds, List.takeWhile_append_of_pos hall, List.takeWhile_cons_of_neg (by simp),
      List.append_nil]
  rw [slotsBefore, htake]

/-- The region has an entry in the boot structure if one was left for it. -/
theorem highEntry_mem_iff {E : Word} (hE : HighMemory E) {ds : List E820AddressRange}
    (h : TruthfulMap E ds) {mmap : Nat → BootInfoRange}
    (hfilled : Filled mmap (nonemptyEntries (entries ds.dropLast))) :
    (∃ i, i < 40 ∧ mmap i = highEntry E) ↔ slotsBefore E ds < 40 := by
  rcases h.split with ⟨pre, post, hsplit, hpre, hslots⟩
  have hregion : Eligible (highRegion E) := ⟨rfl, rfl, rfl⟩
  have hlist : ∃ rest, nonemptyEntries (entries ds.dropLast)
      = nonemptyEntries (entries pre) ++ highEntry E :: rest := by
    refine ⟨nonemptyEntries (entries post), ?_⟩
    rw [hsplit, entries_append, entries_cons, if_pos hregion, List.singleton_append,
      nonemptyEntries_append]
    congr 1
    exact nonemptyEntries_cons (highEntry_length hE) _
  rcases hlist with ⟨rest, hlist⟩
  rw [hlist] at hfilled
  rw [hslots]
  -- the region above 1 MiB is reported once
  have hnot : highEntry E ∉ nonemptyEntries (entries pre) := by
    intro hmem
    rcases mem_entries.mp (List.mem_filter.mp hmem).1 with ⟨d, hd, hel, heq⟩
    have hin : d ∈ ds.dropLast := by
      rw [hsplit]
      exact List.mem_append_left _ hd
    rcases h.others d (List.dropLast_subset ds hin) hel.1 with rfl | hlow
    · exact hpre hd
    · have hbase := hlow.below
      have heq' : d.baseAddrLow = 0x100000 := congrArg BootInfoRange.base heq
      rw [heq'] at hbase
      exact absurd hbase (by decide)
  constructor
  · intro hfound
    rcases hfound with ⟨i, hi, hentry⟩
    -- all slots are taken by entries before it
    by_contra hfull
    have hlt : i < (nonemptyEntries (entries pre)).length := by omega
    have hget := List.getElem?_eq_getElem hlt
    have hmem := hfilled.entry i _ hi (by rw [List.getElem?_append_left hlt, hget])
    rw [hentry] at hmem
    rw [hmem] at hnot
    exact hnot (List.getElem_mem hlt)
  · intro hroom
    refine ⟨_, hroom, hfilled.entry _ (highEntry E) hroom ?_⟩
    rw [List.getElem?_append_right (Nat.le_refl _), Nat.sub_self]
    rfl

/-! ### The fallbacks -/

theorem memoryE820GetMap_none (hno : NoE820 bios) {s : Probe} (hcalls : s.calls = 0)
    (fuel : Nat) : ∃ s', memoryE820GetMap bios (fuel + 1) s = some (true, s') ∧
      s'.info = s.info := by
  refine ⟨{ s with calls := s.calls + 1, ebx := (bios.e820 0 0).ebx }, ?_, rfl⟩
  apply iterate_done
  rw [memoryE820Pass]
  simp only [hcalls]
  rcases hno with hcarry | hsig
  · rw [if_pos hcarry]
  · rw [if_pos hsig, ite_self]

/-- The memory above 1 MiB in blocks of 64 KiB. -/
theorem HighMemory.blocks {E : Word} (hE : HighMemory E) :
    ∃ k, E.toNat = 0x100000 + 0x10000 * k ∧ 0 < k ∧ k ≤ 240 := by
  have hlow := hE.low
  have hhigh := hE.high
  have halign := hE.aligned
  refine ⟨E.toNat / 0x10000 - 16, ?_, ?_, ?_⟩ <;> omega

theorem toNat_kilobytes {E : Word} {k : Nat} (hE : E.toNat = 0x100000 + 0x10000 * k)
    (hk : k ≤ 240) : ((kilobytes E).setWidth 32 : Word).toNat = 64 * k := by
  rw [BitVec.toNat_setWidth_of_le (by omega), kilobytes, BitVec.toNat_ofNat, hE,
    Nat.add_sub_cancel_left]
  omega

/-- Kilobytes of a size in 64 KiB blocks are fewer than its bytes. -/
theorem kilobytes_mod_ne {k base : Nat} (hpos : 0 < k) :
    (64 * k + base) % 2 ^ 32 ≠ base + 0x10000 * k := by
  intro h
  have hmod := Nat.mod_le (64 * k + base) (2 ^ 32)
  omega

/-- A size in KB that is taken for a size in bytes ends below `E`. -/
theorem kilobytes_short {E : Word} (hE : HighMemory E) :
    (kilobytes E).setWidth 32 + 0x100000 ≠ E := by
  rcases hE.blocks with ⟨k, hval, hpos, hle⟩
  have hmb : (0x100000 : Word).toNat = 0x100000 := rfl
  intro h
  have hnum := congrArg BitVec.toNat h
  rw [BitVec.toNat_add, toNat_kilobytes hval hle, hmb, hval] at hnum
  exact kilobytes_mod_ne hpos hnum

theorem Probe.add_highMem (s : Probe) {eax edx : Word}
    (h : eax.toNat + edx.toNat ≤ 0xFFFFF000) :
    (s.add eax edx).1.info.highMem = if eax = 0x100000 then edx + eax else s.info.highMem := by
  rw [← addMemmapHack_highMem, Probe.add, bootInfoAddMemmap_taken s.info h]

theorem Probe.add_carry (s : Probe) {eax edx : Word}
    (h : eax.toNat + edx.toNat ≤ 0xFFFFF000) : (s.add eax edx).2 = false := by
  rw [Probe.add, bootInfoAddMemmap_taken s.info h]

/-- `high_mem` after a size in KB has been added at 1 MiB. -/
theorem add_kilobytes_highMem {E : Word} (hE : HighMemory E) (s : Probe) :
    (s.add 0x100000 ((kilobytes E).setWidth 32)).1.info.highMem ≠ E := by
  rcases hE.blocks with ⟨k, hval, hpos, hle⟩
  have hmb : (0x100000 : Word).toNat = 0x100000 := rfl
  have hkb := toNat_kilobytes hval hle
  rw [Probe.add_highMem s (by omega), if_pos rfl]
  exact kilobytes_short hE

/-- What is added at 16 MiB for no memory there leaves `high_mem` alone. -/
theorem add_none_highMem (s : Probe) :
    (s.add 0x1000000 ((0 : Half).setWidth 32 <<< 16)).1.info.highMem = s.info.highMem ∧
      (s.add 0x1000000 ((0 : Half).setWidth 32 <<< 16)).2 = false := by
  have hzero : ((0 : Half).setWidth 32 <<< 16 : Word) = 0 := by decide
  have hbase : (0x1000000 : Word).toNat = 0x1000000 := rfl
  have hlen : (0 : Word).toNat = 0 := rfl
  have hne : ¬ (0x1000000 : Word) = 0x100000 := by decide
  have hbound : (0x1000000 : Word).toNat + (0 : Word).toNat ≤ 0xFFFFF000 := by omega
  rw [hzero, Probe.add_highMem s hbound, Probe.add_carry s hbound, if_neg hne]
  exact ⟨rfl, rfl⟩

theorem memoryGetForLargeConf_eq (s : Probe) : memoryGetForLargeConf bios s =
    if bios.e801.carry = true then (true, s)
    else match (s.add 0x100000 (bios.e801.ax.setWidth 32)).1.add 0x1000000
        (bios.e801.bx.setWidth 32 <<< 16) with
      | (s, carry) => (carry, s) := rfl

/-- `memory_get_for_large_conf` where E801 is supported. -/
theorem memoryGetForLargeConf_carry (h : bios.e801.carry = false) {s t : Probe} {c : Bool}
    (hadd : (s.add 0x100000 (bios.e801.ax.setWidth 32)).1.add 0x1000000
      (bios.e801.bx.setWidth 32 <<< 16) = (t, c)) :
    memoryGetForLargeConf bios s = (c, t) := by
  rw [memoryGetForLargeConf_eq, h, if_neg Bool.false_ne_true, hadd]

/-- Without E820 the result does not reach `E`. -/
theorem fallback_highMem {E : Word} (hE : HighMemory E)
    (hrep : bios.e801 = ⟨false, kilobytes E, 0⟩ ∨
      bios.e801.carry = true ∧ bios.int88.carry = false ∧ bios.int88.ax = kilobytes E)
    (s : Probe) : (memoryFallback bios s).2.info.highMem ≠ E := by
  -- E801 reports the memory, or it fails and 88h does
  rcases hrep with hlarge | ⟨hcarry, hok, hax⟩
  · have hfirst := add_kilobytes_highMem hE s
    rcases add_none_highMem (s.add 0x100000 ((kilobytes E).setWidth 32)).1 with ⟨hhigh, hclear⟩
    rcases hadd : (s.add 0x100000 ((kilobytes E).setWidth 32)).1.add 0x1000000
      ((0 : Half).setWidth 32 <<< 16) with ⟨t, c⟩
    rw [← hhigh, hadd] at hfirst
    rw [hadd] at hclear
    have hget : memoryGetForLargeConf bios s = (c, t) := by
      apply memoryGetForLargeConf_carry
      · rw [hlarge]
      · rw [hlarge]
        exact hadd
    have hnot : ¬ (c, t).1 = true := by
      rw [show (c, t).1 = false from hclear]
      exact Bool.false_ne_true
    rw [memoryFallback, hget, if_pos hnot]
    exact hfirst
  · have hget : memoryGetForLargeConf bios s = (true, s) := by
      rw [memoryGetForLargeConf, if_pos hcarry]
    have hfirst := add_kilobytes_highMem hE s
    rcases hadd : s.add 0x100000 ((kilobytes E).setWidth 32) with ⟨t, c⟩
    rw [hadd] at hfirst
    rw [memoryFallback, hget, if_neg (not_not_intro rfl), hok, if_neg Bool.false_ne_true, hax]
    simp only [hadd]
    exact hfirst

/-! ### The probes together -/

/-- With E820 the map is filled in order, and `high_mem` set by the region. -/
theorem memoryE820_probed {E : Word} (hE : HighMemory E) {ds : List E820AddressRange}
    (hmap : TruthfulMap E ds) {s : Probe} (hbios : Delivers bios s.calls 0 ds)
    (hempty : ∀ i, i < 40 → (s.info.mmap i).length = 0) :
    ∃ fuel s', memoryGetMap bios fuel s = some (false, s') ∧ s'.info.highMem = E ∧
      Filled s'.info.mmap (nonemptyEntries (entries ds.dropLast)) := by
  rcases memoryE820_run (s := { s with ebx := 0 }) hbios with ⟨s', hrun, hadded⟩
  have hstart : Filled s.info.mmap [] := by
    refine ⟨?_, ?_, ?_⟩
    · intro e he
      exact absurd he List.not_mem_nil
    · intro i e _ hget
      exact absurd hget (by simp)
    · intro i hi _
      exact hempty i hi
  rcases addAll_spec hE hmap.good hstart with ⟨hfilled, hhigh⟩
  have hmem : (⟨0x100000, E - 0x100000⟩ : BootInfoRange) ∈ entries ds.dropLast := by
    rcases hmap.split with ⟨pre, post, hsplit, -, -⟩
    refine mem_entries.mpr ⟨highRegion E, ?_, ⟨rfl, rfl, rfl⟩, rfl⟩
    rw [hsplit]
    exact List.mem_append_right _ List.mem_cons_self
  rw [if_pos hmem] at hhigh
  refine ⟨ds.length, s', ?_, ?_, ?_⟩
  · have hget : memoryE820GetMap bios ds.length s = some (false, s') := hrun
    rw [memoryGetMap, hget]
  · rw [hadded.info]
    exact hhigh
  · rw [hadded.info]
    exact hfilled

/-- Two runs of `memory_get_map` that return end in the same state. -/
theorem memoryGetMap_unique {s : Probe} {fuel fuel' : Nat} {a b : Bool × Probe}
    (h : memoryGetMap bios fuel s = some a) (h' : memoryGetMap bios fuel' s = some b) :
    a = b := by
  rw [memoryGetMap] at h h'
  cases hrun : memoryE820GetMap bios fuel s with
  | none =>
      rw [hrun] at h
      exact absurd h (by simp)
  | some r =>
      cases hrun' : memoryE820GetMap bios fuel' s with
      | none =>
          rw [hrun'] at h'
          exact absurd h' (by simp)
      | some r' =>
          have hr := iterate_unique hrun hrun'
          rw [hrun] at h
          rw [hrun', ← hr] at h'
          exact Option.some.inj (h.symm.trans h')

/-- Where E820 is not supported, the fallbacks leave another `high_mem`. -/
theorem memoryGetMap_fallback {E : Word} (hE : HighMemory E) (hno : NoE820 bios)
    (hrep : bios.e801 = ⟨false, kilobytes E, 0⟩ ∨
      bios.e801.carry = true ∧ bios.int88.carry = false ∧ bios.int88.ax = kilobytes E)
    {s : Probe} (hcalls : s.calls = 0) : ¬ ∃ fuel s', Probed bios E fuel s s' := by
  intro h
  rcases h with ⟨fuel, s', h⟩
  rcases memoryE820GetMap_none hno hcalls 0 with ⟨t, hnone, -⟩
  have hrun : memoryGetMap bios 1 s = some (memoryFallback bios t) := by
    rw [memoryGetMap, hnone]
  have heq := memoryGetMap_unique h.returns hrun
  apply fallback_highMem hE hrep t
  rw [← heq]
  exact h.highMem

/-- **The probes compared.** The memory above 1 MiB comes out right with E820, if the map
has room left for it; it never does with the other two services, whose kilobytes are
added as bytes. -/
theorem memoryGetMap_iff {E : Word} (hE : HighMemory E) {service : Service}
    (hrep : Reports bios E service) {s : Probe} (hcalls : s.calls = 0)
    (hempty : ∀ i, i < 40 → (s.info.mmap i).length = 0) :
    (∃ fuel s', Probed bios E fuel s s') ↔ ProbeMeets E service := by
  -- only the E820 path can give the map that is asked for
  cases service with
  | e820 ds =>
      have hbios : Delivers bios s.calls 0 ds := by
        rw [hcalls]
        exact hrep.2
      rcases memoryE820_probed hE hrep.1 hbios hempty with ⟨fuel, s', hrun, hhigh, hfilled⟩
      have hslot := highEntry_mem_iff hE hrep.1 hfilled
      constructor
      · intro h
        rcases h with ⟨fuel', s'', h⟩
        have heq := memoryGetMap_unique h.returns hrun
        have hs : s'' = s' := congrArg Prod.snd heq
        apply hslot.mp
        rw [← hs]
        exact h.mmap
      · intro h
        exact ⟨fuel, s', hrun, hhigh, hslot.mpr h⟩
  | e801 =>
      have hnot := memoryGetMap_fallback hE hrep.1 (Or.inl hrep.2) hcalls
      exact iff_of_false hnot id
  | int88 =>
      have hnot := memoryGetMap_fallback hE hrep.1 (Or.inr hrep.2) hcalls
      exact iff_of_false hnot id

/-- A BIOS with E801 only, on a machine with 16 MiB. -/
def largeConfBios : MemoryBios where
  e820 := fun _ _ => ⟨true, 0, 0, reservedRange⟩
  e801 := ⟨false, 0x3C00, 0⟩
  int88 := ⟨true, 0, 0⟩

theorem highMemory_16MB : HighMemory 0x1000000 := ⟨by decide, by decide, by decide⟩

/-- E801 reports 15360 KB, and `high_mem` becomes 0x103C00. -/
theorem memoryGetMap_counterexample :
    HighMemory 0x1000000 ∧ Reports largeConfBios 0x1000000 .e801 ∧
      ¬ ∃ fuel s', Probed largeConfBios 0x1000000 fuel probeStart s' := by
  have hno : NoE820 largeConfBios := Or.inl rfl
  have hkb : largeConfBios.e801 = ⟨false, kilobytes 0x1000000, 0⟩ := by
    rw [largeConfBios]
    congr 1
  exact ⟨highMemory_16MB, ⟨hno, hkb⟩, memoryGetMap_fallback highMemory_16MB hno (Or.inl hkb) rfl⟩

theorem memoryGetMap_iff_16MB :
    ∃ fuel s', Probed (mapBios usableRange (some reservedRange)) 0x1000000 fuel probeStart s' := by
  have hmap : TruthfulMap 0x1000000 [usableRange, reservedRange] := by
    refine ⟨List.mem_cons_self, ?_, ?_⟩
    · intro d hd husable
      cases hd with
      | head => exact Or.inl rfl
      | tail _ hd =>
          rw [List.mem_singleton.mp hd] at husable
          exact absurd husable (by decide)
    · intro d hd
      rw [← Option.some.inj hd]
      rfl
  have hbios : Delivers (mapBios usableRange (some reservedRange)) 0 0
      [usableRange, reservedRange] := Delivers.next rfl (by decide) (Delivers.last rfl)
  have hrep : Reports (mapBios usableRange (some reservedRange)) 0x1000000
      (.e820 [usableRange, reservedRange]) := ⟨hmap, hbios⟩
  rw [memoryGetMap_iff highMemory_16MB hrep rfl (fun _ _ => rfl), ProbeMeets]
  decide

end StupidOS.Boot
