import StupidOS.Lib.Loop
import StupidOS.Lib.StringOps

/-!
# The interrupt descriptor table (`kernel/idt.inc`)

`idt_setup` fills the table with a loop over `aISRTable`, the timer and the keyboard, a loop
that gives the other lines `irq_dummy`, and then the lines of the drivers one by one. After
it (`idtSetup_gates`) every gate is the one of `handlerAt`, whatever the table held before,
and nothing but the table has changed.

Memory is as the kernel sees it.
-/

namespace StupidOS.Kernel

/-- What gets a gate. -/
inductive Handler
  | isr (n : Fin 32)
  | pitIrq
  | kbdIrq
  | irqDummy
  | comIrq2
  | comIrq1
  | floppyIrq
  | ne2kIrq
  | ataPrimaryIrq
  | ataSecondaryIrq
  | isrSyscall
  deriving DecidableEq

/-- Where the linker put the tables and the handlers. -/
structure IdtImage where
  aInterruptGate : Word
  aISRTable : Word
  entry : Handler → Word
  entry_inj : Function.Injective entry
  gates_high : aInterruptGate.toNat + 256 * 8 ≤ 2 ^ 32
  table_high : aISRTable.toNat + 32 * 4 ≤ 2 ^ 32
  apart : aISRTable.toNat + 32 * 4 ≤ aInterruptGate.toNat ∨
    aInterruptGate.toNat + 256 * 8 ≤ aISRTable.toNat

/-- The table of the entries holds them. -/
def IdtImage.Loaded (I : IdtImage) (m : Mem) : Prop :=
  ∀ n : Fin 32, m.read32 (I.aISRTable + BitVec.ofNat 32 n * 4) = I.entry (.isr n)

variable (I : IdtImage)

/-! ## The routines -/

/-- `idt_set_gate`. The third store is a word, and its high byte is overwritten by the
fourth. -/
def idtSetGate (ecx eax : Word) (m : Mem) : Mem :=
  let m := m.write16 (I.aInterruptGate + ecx * 8) (eax.setWidth 16)
  let m := m.write16 (I.aInterruptGate + ecx * 8 + 2) 0x08
  let m := m.write16 (I.aInterruptGate + ecx * 8 + 5) 0x8E
  let eax := eax >>> 16
  m.write16 (I.aInterruptGate + ecx * 8 + 6) (eax.setWidth 16)

/-- One pass of the first loop. -/
def idtExceptions : Word × Mem → Option (Pass (Word × Mem) (Word × Mem))
  | (ecx, m) => do
    let eax := m.read32 (I.aISRTable + ecx * 4)
    let m := idtSetGate I ecx eax m
    let ecx := ecx + 1
    if ecx.ult 32 then return .again (ecx, m) else return .done (ecx, m)

/-- One pass of the second loop. -/
def idtDummies : Word × Mem → Option (Pass (Word × Mem) (Word × Mem))
  | (ecx, m) => do
    let m := idtSetGate I ecx (I.entry .irqDummy) m
    let ecx := ecx + 1
    if ecx.ult 0x30 then return .again (ecx, m) else return .done (ecx, m)

/-- `idt_setup`, up to `lidt` and `sti` -/
def idtSetup (fuel : Nat) (m : Mem) : Option Mem := do
  let (ecx, m) ← iterate (idtExceptions I) fuel (0, m)
  let m := idtSetGate I ecx (I.entry .pitIrq) m
  let ecx := ecx + 1
  let m := idtSetGate I ecx (I.entry .kbdIrq) m
  let ecx := ecx + 1
  let (_, m) ← iterate (idtDummies I) fuel (ecx, m)
  let m := idtSetGate I 35 (I.entry .comIrq2) m
  let m := idtSetGate I 36 (I.entry .comIrq1) m
  let m := idtSetGate I 38 (I.entry .floppyIrq) m
  let m := idtSetGate I 41 (I.entry .ne2kIrq) m
  let m := idtSetGate I 46 (I.entry .ataPrimaryIrq) m
  let m := idtSetGate I 47 (I.entry .ataSecondaryIrq) m
  return idtSetGate I 0x42 (I.entry .isrSyscall) m

/-! ## What a table says -/

/-- A gate as the processor reads it. -/
@[ext] structure Gate where
  offset : Word
  selector : Half
  zero : Byte
  attr : Byte
  deriving DecidableEq

/-- The gate of vector `v`. -/
def gateAt (m : Mem) (v : Nat) : Gate :=
  let a := I.aInterruptGate + BitVec.ofNat 32 v * 8
  ⟨m.read16 (a + 6) ++ m.read16 a, m.read16 (a + 2), m (a + 4), m (a + 5)⟩

/-- A present 32-bit interrupt gate of privilege 0 into the code segment of the kernel. -/
def Gate.to (g : Gate) (offset : Word) : Gate := ⟨offset, 0x08, g.zero, 0x8E⟩

/-- The handler of a vector that is not an exception. -/
def vectorHandler : Nat → Option Handler
  | 32 => some .pitIrq
  | 33 => some .kbdIrq
  | 35 => some .comIrq2
  | 36 => some .comIrq1
  | 38 => some .floppyIrq
  | 41 => some .ne2kIrq
  | 46 => some .ataPrimaryIrq
  | 47 => some .ataSecondaryIrq
  | 0x42 => some .isrSyscall
  | v => if v < 0x30 then some .irqDummy else none

/-- The handler of a vector. -/
def handlerAt (v : Nat) : Option Handler :=
  if h : v < 32 then some (.isr ⟨v, h⟩) else vectorHandler v

/-- `m'` is `m` with the gates of `f` set. -/
structure GatesSet (m m' : Mem) (f : Nat → Option Word) : Prop where
  gate : ∀ v, v < 256 → gateAt I m' v =
    match f v with
    | some a => (gateAt I m v).to a
    | none => gateAt I m v
  frame : ∀ x, 256 * 8 ≤ (x - I.aInterruptGate).toNat → m' x = m x

/-! ## One gate -/

variable {I} {m m' : Mem}

theorem idtSetGate_frame {ecx eax x : Word}
    (h : 8 ≤ (x - (I.aInterruptGate + ecx * 8)).toNat) : idtSetGate I ecx eax m x = m x := by
  unfold idtSetGate
  generalize I.aInterruptGate + ecx * 8 = a at h ⊢
  rw [Mem.write16_frame _ _ (by bv_omega), Mem.write16_frame _ _ (by bv_omega),
    Mem.write16_frame _ _ (by bv_omega), Mem.write16_frame _ _ (by bv_omega)]

/-- Memories that agree on the bytes of a gate. -/
theorem gateAt_congr {v : Nat} (h : ∀ k : Word, k.toNat < 8 →
    m' (I.aInterruptGate + BitVec.ofNat 32 v * 8 + k)
      = m (I.aInterruptGate + BitVec.ofNat 32 v * 8 + k)) : gateAt I m' v = gateAt I m v := by
  unfold gateAt Mem.read16
  generalize I.aInterruptGate + BitVec.ofNat 32 v * 8 = a at h ⊢
  have h0 : m' a = m a := by simpa using h 0 (by decide)
  have h1 := h 1 (by decide)
  have h2 := h 2 (by decide)
  have h3 := h 3 (by decide)
  have h4 := h 4 (by decide)
  have h5 := h 5 (by decide)
  have h6 := h 6 (by decide)
  have h7 := h 7 (by decide)
  have e3 : a + 2 + 1 = a + 3 := by bv_omega
  have e7 : a + 6 + 1 = a + 7 := by bv_omega
  simp only [e3, e7, h0, h1, h2, h3, h4, h5, h6, h7]

/-- A word from its two halves. -/
theorem halves_append (x : Word) : ((x >>> 16).setWidth 16 ++ x.setWidth 16 : Word) = x := by
  ext i hi
  simp only [BitVec.getElem_append, BitVec.getElem_setWidth, BitVec.getLsbD_ushiftRight]
  split
  · next hlow => simp [hi]
  · next hlow =>
    rw [show 16 + (i - 16) = i by omega]
    simp [hi]

/-- The gate that is set. -/
theorem gateAt_idtSetGate (v : Nat) (eax : Word) :
    gateAt I (idtSetGate I (BitVec.ofNat 32 v) eax m) v = (gateAt I m v).to eax := by
  unfold gateAt idtSetGate Gate.to
  generalize I.aInterruptGate + BitVec.ofNat 32 v * 8 = a
  have hsep : ∀ k l : Word, k.toNat + 2 ≤ l.toNat ∨ l.toNat + 2 ≤ k.toNat → k.toNat < 8 →
      l.toNat < 8 → Sep (a + k) 2 (a + l) 2 := by
    intro k l hkl hk hl
    constructor
    · bv_omega
    · bv_omega
  have hsep0 : ∀ l : Word, 2 ≤ l.toNat → l.toNat < 8 → Sep a 2 (a + l) 2 := by
    intro l hl hl'
    constructor
    · bv_omega
    · bv_omega
  dsimp only
  ext1
  · dsimp only
    rw [Mem.read16_write16, Mem.read16_write16_of_sep _ _ (hsep0 6 (by decide) (by decide)),
      Mem.read16_write16_of_sep _ _ (hsep0 5 (by decide) (by decide)),
      Mem.read16_write16_of_sep _ _ (hsep0 2 (by decide) (by decide)), Mem.read16_write16]
    exact halves_append eax
  · dsimp only
    rw [Mem.read16_write16_of_sep _ _ (hsep 2 6 (by decide) (by decide) (by decide)),
      Mem.read16_write16_of_sep _ _ (hsep 2 5 (by decide) (by decide) (by decide)),
      Mem.read16_write16]
  · dsimp only
    rw [Mem.write16_frame _ _ (by bv_omega), Mem.write16_frame _ _ (by bv_omega),
      Mem.write16_frame _ _ (by bv_omega), Mem.write16_frame _ _ (by bv_omega)]
  · dsimp only
    rw [Mem.write16_frame _ _ (by bv_omega), Mem.write16_apply _ _ (by bv_omega)]
    rw [show a + 5 - (a + 5) = 0 by bv_omega]
    rfl

/-- Setting one more gate. -/
theorem GatesSet.set {f : Nat → Option Word} (h : GatesSet I m m' f) {v : Nat} (hv : v < 256)
    (eax : Word) : GatesSet I m (idtSetGate I (BitVec.ofNat 32 v) eax m')
      (Function.update f v (some eax)) := by
  have hhigh := I.gates_high
  constructor
  · intro w hw
    by_cases hvw : w = v
    · subst hvw
      have hgate := h.gate w hw
      rw [Function.update_self, gateAt_idtSetGate]
      rw [hgate]
      cases f w with
      | none => rfl
      | some b => rfl
    · rw [Function.update_of_ne hvw, ← h.gate w hw]
      refine gateAt_congr ?_
      intro k hk
      apply idtSetGate_frame
      bv_omega
  · intro x hx
    rw [idtSetGate_frame (by bv_omega)]
    exact h.frame x hx

/-! ## The two loops -/

/-- Entry `n` of the table. -/
def isrEntry (I : IdtImage) (m : Mem) (n : Nat) : Word :=
  m.read32 (I.aISRTable + BitVec.ofNat 32 n * 4)

/-- The gates of the exceptions below `k`, with the entries `t`. -/
def exceptionsBelow (t : Nat → Word) (k v : Nat) : Option Word := if v < k then some (t v) else none

theorem exceptionsBelow_succ (t : Nat → Word) (k : Nat) :
    Function.update (exceptionsBelow t k) k (some (t k)) = exceptionsBelow t (k + 1) := by
  funext v
  rw [Function.update_apply, exceptionsBelow, exceptionsBelow]
  by_cases hv : v = k
  · rw [if_pos hv, if_pos (by omega), hv]
  · rw [if_neg hv]
    by_cases hlt : v < k
    · rw [if_pos hlt, if_pos (by omega)]
    · rw [if_neg hlt, if_neg (by omega)]

/-- The table of the entries is not touched. -/
theorem GatesSet.table {f : Nat → Option Word} (h : GatesSet I m m' f) {n : Nat} (hn : n < 32) :
    isrEntry I m' n = isrEntry I m n := by
  have hgates := I.gates_high
  have htable := I.table_high
  have hapart := I.apart
  unfold isrEntry
  have hframe : ∀ k : Word, k.toNat < 4 → m' (I.aISRTable + BitVec.ofNat 32 n * 4 + k)
      = m (I.aISRTable + BitVec.ofNat 32 n * 4 + k) := by
    intro k hk
    apply h.frame
    bv_omega
  have h0 := hframe 0 (by decide)
  rw [show I.aISRTable + BitVec.ofNat 32 n * 4 + 0 = I.aISRTable + BitVec.ofNat 32 n * 4 by
    simp] at h0
  exact Mem.read32_congr h0 (hframe 1 (by decide)) (hframe 2 (by decide)) (hframe 3 (by decide))

/-- The first loop sets the gates of the exceptions. -/
theorem idtExceptions_total (I : IdtImage) (m : Mem) :
    ∃ m', GatesSet I m m' (exceptionsBelow (isrEntry I m) 32) ∧
      ∀ fuel, 32 ≤ fuel → iterate (idtExceptions I) fuel (0, m) = some (32, m') := by
  refine iterate_count (BitVec.ofNat 32)
    (fun k m' => GatesSet I m m' (exceptionsBelow (isrEntry I m) k)) (a := 0) (b := 32) (by decide)
    ?_ ⟨fun _ _ => rfl, fun _ _ => rfl⟩
  intro k m₁ _ hk hset
  have hread := hset.table hk
  have hnext := hset.set (v := k) (by omega) (isrEntry I m k)
  rw [exceptionsBelow_succ] at hnext
  refine ⟨_, hnext, ?_⟩
  have hecx : BitVec.ofNat 32 k + 1 = BitVec.ofNat 32 (k + 1) := (BitVec.ofNat_add ..).symm
  have htest : (BitVec.ofNat 32 (k + 1)).ult 32 = true ↔ k + 1 < 32 := by
    rw [BitVec.ult, decide_eq_true_iff, toNat_ofNat_of_lt (by omega)]
    rfl
  unfold isrEntry at hread hnext ⊢
  rw [idtExceptions, hread, hecx]
  by_cases hmore : k + 1 < 32
  · rw [if_pos (htest.mpr hmore), if_pos hmore]
    rfl
  · rw [if_neg (fun h => hmore (htest.mp h)), if_neg hmore]
    rfl

/-- The gates of `f`, and `irq_dummy` from 34 up to `k`. -/
def dummiesBelow (I : IdtImage) (f : Nat → Option Word) (k v : Nat) : Option Word :=
  if 34 ≤ v ∧ v < k then some (I.entry .irqDummy) else f v

theorem dummiesBelow_succ (I : IdtImage) (f : Nat → Option Word) {k : Nat} (hk : 34 ≤ k) :
    Function.update (dummiesBelow I f k) k (some (I.entry .irqDummy))
      = dummiesBelow I f (k + 1) := by
  funext v
  rw [Function.update_apply, dummiesBelow, dummiesBelow]
  by_cases hv : v = k
  · rw [if_pos hv, if_pos (by omega)]
  · rw [if_neg hv]
    by_cases hlt : 34 ≤ v ∧ v < k
    · rw [if_pos hlt, if_pos (by omega)]
    · rw [if_neg hlt, if_neg (by omega)]

/-- The second loop sets the gates from 34 to 47. -/
theorem idtDummies_total {f : Nat → Option Word} (hset : GatesSet I m m' f) :
    ∃ m'', GatesSet I m m'' (dummiesBelow I f 0x30) ∧
      ∀ fuel, 14 ≤ fuel → iterate (idtDummies I) fuel (34, m') = some (0x30, m'') := by
  have hstart : GatesSet I m m' (dummiesBelow I f 34) := by
    have heq : dummiesBelow I f 34 = f := by
      funext v
      exact if_neg (by omega)
    rwa [heq]
  refine iterate_count (BitVec.ofNat 32) (fun k m₁ => GatesSet I m m₁ (dummiesBelow I f k))
    (a := 34) (b := 0x30) (by decide) ?_ hstart
  intro k m₁ hk34 hk hset
  have hnext := hset.set (v := k) (by omega) (I.entry .irqDummy)
  rw [dummiesBelow_succ I f hk34] at hnext
  refine ⟨_, hnext, ?_⟩
  have hecx : BitVec.ofNat 32 k + 1 = BitVec.ofNat 32 (k + 1) := (BitVec.ofNat_add ..).symm
  have htest : (BitVec.ofNat 32 (k + 1)).ult 0x30 = true ↔ k + 1 < 0x30 := by
    rw [BitVec.ult, decide_eq_true_iff, toNat_ofNat_of_lt (by omega)]
    rfl
  rw [idtDummies, hecx]
  by_cases hmore : k + 1 < 0x30
  · rw [if_pos (htest.mpr hmore), if_pos hmore]
    rfl
  · rw [if_neg (fun h => hmore (htest.mp h)), if_neg hmore]
    rfl

/-! ## The whole table -/

/-- The handlers of all gates, with the entries `t` for the exceptions. -/
def gatesOf (I : IdtImage) (t : Nat → Word) (v : Nat) : Option Word :=
  if v < 32 then some (t v) else (vectorHandler v).map I.entry

/-- What the stores of `idt_setup` amount to. -/
theorem gatesOf_eq (I : IdtImage) (t : Nat → Word) (v : Nat) :
    gatesOf I t v =
      Function.update (Function.update (Function.update (Function.update (Function.update
        (Function.update (Function.update (dummiesBelow I (Function.update (Function.update
          (exceptionsBelow t 32) 32 (some (I.entry .pitIrq))) 33 (some (I.entry .kbdIrq))) 0x30)
        35 (some (I.entry .comIrq2))) 36 (some (I.entry .comIrq1))) 38
        (some (I.entry .floppyIrq))) 41 (some (I.entry .ne2kIrq))) 46
        (some (I.entry .ataPrimaryIrq))) 47 (some (I.entry .ataSecondaryIrq))) 0x42
        (some (I.entry .isrSyscall)) v := by
  simp only [Function.update_apply, dummiesBelow, exceptionsBelow, gatesOf]
  by_cases hexc : v < 32
  · rw [if_pos hexc, if_neg (by omega), if_neg (by omega), if_neg (by omega), if_neg (by omega),
      if_neg (by omega), if_neg (by omega), if_neg (by omega), if_neg (by omega),
      if_neg (by omega), if_neg (by omega), if_pos hexc]
  · rw [if_neg hexc]
    unfold vectorHandler
    split
    case h_10 h32 h33 h35 h36 h38 h41 h46 h47 h66 =>
      rw [if_neg h66, if_neg h47, if_neg h46, if_neg h41, if_neg h38, if_neg h36, if_neg h35]
      have hne : v ≠ 32 ∧ v ≠ 33 := ⟨h32, h33⟩
      by_cases hline : v < 0x30
      · have hin : 34 ≤ v ∧ v < 0x30 := by omega
        rw [if_pos hline, if_pos hin]
        rfl
      · rw [if_neg hline, if_neg (fun h => hline h.2), if_neg h33, if_neg h32,
          if_neg hexc]
        rfl
    all_goals rfl

/-- What `idt_setup` sets on any memory, and with enough fuel it ends. -/
theorem idtSetup_gates (I : IdtImage) (m : Mem) :
    ∃ m', GatesSet I m m' (gatesOf I (isrEntry I m)) ∧
      ∀ fuel, 32 ≤ fuel → idtSetup I fuel m = some m' := by
  rcases idtExceptions_total I m with ⟨m₁, hset₁, hloop₁⟩
  have hset₂ := (hset₁.set (v := 32) (by decide) (I.entry .pitIrq)).set (v := 33) (by decide)
    (I.entry .kbdIrq)
  rcases idtDummies_total hset₂ with ⟨m₂, hset₃, hloop₂⟩
  have hset := ((((((hset₃.set (v := 35) (by decide) (I.entry .comIrq2)).set (v := 36) (by decide)
    (I.entry .comIrq1)).set (v := 38) (by decide) (I.entry .floppyIrq)).set (v := 41) (by decide)
    (I.entry .ne2kIrq)).set (v := 46) (by decide) (I.entry .ataPrimaryIrq)).set (v := 47)
    (by decide) (I.entry .ataSecondaryIrq)).set (v := 0x42) (by decide) (I.entry .isrSyscall)
  refine ⟨_, ⟨?_, hset.frame⟩, ?_⟩
  · intro v hv
    rw [hset.gate v hv, gatesOf_eq]
  · intro fuel hfuel
    rw [idtSetup, hloop₁ fuel hfuel]
    dsimp only [Option.bind_eq_bind, Option.bind_some]
    have hsecond := hloop₂ fuel (by omega)
    rw [show (32 : Word) + 1 + 1 = 34 from rfl, show (32 : Word) + 1 = BitVec.ofNat 32 33 from rfl]
    rw [show (32 : Word) = BitVec.ofNat 32 32 from rfl, hsecond]
    rfl

/-- With the table in memory these are the handlers. -/
theorem idtSetup_total (hload : I.Loaded m) :
    ∃ m', GatesSet I m m' (fun v => (handlerAt v).map I.entry) ∧
      ∀ fuel, 32 ≤ fuel → idtSetup I fuel m = some m' := by
  have hgates : gatesOf I (isrEntry I m) = fun v => (handlerAt v).map I.entry := by
    funext v
    unfold gatesOf handlerAt
    by_cases hexc : v < 32
    · rw [if_pos hexc, dif_pos hexc]
      exact congrArg some (hload ⟨v, hexc⟩)
    · rw [if_neg hexc, dif_neg hexc]
  rw [← hgates]
  exact idtSetup_gates I m

/-- Whenever it ends, that is what it has set. -/
theorem idtSetup_set {fuel : Nat} (hload : I.Loaded m) (h : idtSetup I fuel m = some m') :
    GatesSet I m m' (fun v => (handlerAt v).map I.entry) := by
  rcases idtSetup_total hload with ⟨m₁, hset, htotal⟩
  have hmore : idtSetup I (max fuel 32) m = some m' := by
    rcases Option.bind_eq_some_iff.mp h with ⟨⟨ecx, m₂⟩, hloop, h⟩
    rcases Option.bind_eq_some_iff.mp h with ⟨⟨ecx', m₃⟩, hloop', h⟩
    rw [idtSetup, iterate_mono (le_max_left ..) hloop]
    dsimp only [Option.bind_eq_bind, Option.bind_some]
    rw [iterate_mono (le_max_left ..) hloop']
    exact h
  rw [htotal _ (le_max_right ..), Option.some.injEq] at hmore
  rwa [← hmore]

/-- **The descriptor table.** It starts out as zeros. `idt_setup` ends, and then a vector leads
to a handler through a present gate when and only when the handler is its own, and the gate of a
vector without one is not present. Nothing but the table has changed. -/
theorem idtSetup_vectors (I : IdtImage) (m : Mem) (hload : I.Loaded m)
    (hzero : ∀ x, (x - I.aInterruptGate).toNat < 256 * 8 → m x = 0) :
    ∃ m', (∀ fuel, 32 ≤ fuel → idtSetup I fuel m = some m') ∧
      (∀ v, v < 256 →
        (∀ hd, gateAt I m' v = ⟨I.entry hd, 0x08, 0, 0x8E⟩ ↔ handlerAt v = some hd) ∧
        (handlerAt v = none → (gateAt I m' v).attr.getLsbD 7 = false)) ∧
      ∀ x, 256 * 8 ≤ (x - I.aInterruptGate).toNat → m' x = m x := by
  rcases idtSetup_total hload with ⟨m', hset, htotal⟩
  refine ⟨m', htotal, ?_, hset.frame⟩
  intro v hv
  have hgate := hset.gate v hv
  have hbyte : ∀ k : Word, k.toNat < 8 →
      m (I.aInterruptGate + BitVec.ofNat 32 v * 8 + k) = 0 := by
    intro k hk
    apply hzero
    bv_omega
  have hblank : gateAt I m v = ⟨0, 0, 0, 0⟩ := by
    unfold gateAt Mem.read16
    generalize I.aInterruptGate + BitVec.ofNat 32 v * 8 = a at hbyte ⊢
    have h0 : m a = 0 := by simpa using hbyte 0 (by decide)
    have e3 : a + 2 + 1 = a + 3 := by bv_omega
    have e7 : a + 6 + 1 = a + 7 := by bv_omega
    simp only [e3, e7, h0, hbyte 1 (by decide), hbyte 2 (by decide), hbyte 3 (by decide),
      hbyte 4 (by decide), hbyte 5 (by decide), hbyte 6 (by decide), hbyte 7 (by decide)]
    rfl
  rw [hblank] at hgate
  cases hhandler : handlerAt v with
  | none =>
      rw [hhandler] at hgate
      rw [show gateAt I m' v = ⟨0, 0, 0, 0⟩ from hgate]
      refine ⟨fun hd => ⟨fun heq => ?_, nofun⟩, fun _ => by decide⟩
      have hattr : (0 : Byte) = 0x8E := congrArg Gate.attr heq
      exact absurd hattr (by decide)
  | some hd' =>
      rw [hhandler] at hgate
      rw [show gateAt I m' v = ⟨I.entry hd', 0x08, 0, 0x8E⟩ from hgate]
      refine ⟨fun hd => ⟨fun heq => ?_, fun heq => ?_⟩, nofun⟩
      · exact congrArg some (I.entry_inj (congrArg Gate.offset heq))
      · rw [Option.some.inj heq]

/-- The tables and handlers of an image, the entries 16 bytes apart. -/
def demoEntry : Handler → Word
  | .isr n => 0xC0100000 + 16 * BitVec.ofNat 32 n
  | .pitIrq => 0xC0100200
  | .kbdIrq => 0xC0100210
  | .irqDummy => 0xC0100220
  | .comIrq2 => 0xC0100230
  | .comIrq1 => 0xC0100240
  | .floppyIrq => 0xC0100250
  | .ne2kIrq => 0xC0100260
  | .ataPrimaryIrq => 0xC0100270
  | .ataSecondaryIrq => 0xC0100280
  | .isrSyscall => 0xC0100290

theorem demoEntry_inj : Function.Injective demoEntry := by
  have hisr : ∀ n : Fin 32, (demoEntry (.isr n)).toNat = 0xC0100000 + 16 * n := by decide
  intro a b h
  have hnat := congrArg BitVec.toNat h
  cases a with
  | isr n =>
      rw [hisr] at hnat
      cases b with
      | isr k =>
          rw [hisr] at hnat
          rw [Fin.ext (by omega : n.val = k.val)]
      | _ =>
          have hn := n.isLt
          revert hnat
          exact fun hnat => absurd hnat (by simp [demoEntry]; omega)
  | _ =>
      cases b with
      | isr k =>
          have hk := k.isLt
          rw [hisr] at hnat
          exact absurd hnat (by simp [demoEntry]; omega)
      | _ => first | rfl | exact absurd h (by decide)

def demoIdt : IdtImage where
  aInterruptGate := 0xC0102000
  aISRTable := 0xC0101000
  entry := demoEntry
  entry_inj := demoEntry_inj
  gates_high := by decide
  table_high := by decide
  apart := by decide

/-- Memory with the table of the entries in it. -/
def demoIdtMem : Mem := fun x =>
  let k := (x - 0xC0101000).toNat
  if h : k < 128 then byteOf (demoEntry (.isr ⟨k / 4, by omega⟩)) (k % 4) else 0

theorem demoIdtMem_loaded : demoIdt.Loaded demoIdtMem := by
  unfold IdtImage.Loaded
  decide

theorem demoIdtMem_zero (x : Word) (h : (x - demoIdt.aInterruptGate).toNat < 256 * 8) :
    demoIdtMem x = 0 := by
  have hgates : demoIdt.aInterruptGate = 0xC0102000 := rfl
  rw [hgates] at h
  exact dif_neg (by bv_omega)

theorem idtSetup_vectors_demo :
    ∃ m', (∀ fuel, 32 ≤ fuel → idtSetup demoIdt fuel demoIdtMem = some m') ∧
    (∀ v, v < 256 →
      (∀ hd, gateAt demoIdt m' v = ⟨demoEntry hd, 0x08, 0, 0x8E⟩ ↔ handlerAt v = some hd) ∧
      (handlerAt v = none → (gateAt demoIdt m' v).attr.getLsbD 7 = false)) ∧
    ∀ x, 256 * 8 ≤ (x - demoIdt.aInterruptGate).toNat → m' x = demoIdtMem x :=
  idtSetup_vectors demoIdt demoIdtMem demoIdtMem_loaded demoIdtMem_zero

end StupidOS.Kernel
