import StupidOS.Lib.StringOps

/-!
# Calls, stack frames and the registers that a routine keeps

The registers of a 32-bit processor that a routine hands back as it got them, and the
stack below the caller. A routine is run on the frame that `call` left, with the return
address on top, and gives the address that `ret` took and the frame behind it.

* `Balanced d f g`: ESP and EBP are those of `f`, and no byte of the stack has changed but
  the `d` below ESP;
* `Kept d f g`: the other registers are those of `f` as well;
* `Pushed d f ws g`: `g` has the words `ws` on the stack above what `f` had, the last one
  pushed first. Every push, pop and call has its rule for it.
-/

namespace StupidOS

/-- Of the two memories no byte differs but the `d` below `a`. -/
def OnlyBelow (a : Word) (d : Nat) (m m' : Mem) : Prop :=
  ∀ x, (x - a).toNat + d < 2 ^ 32 → m' x = m x

namespace OnlyBelow

variable {a : Word} {d : Nat} {m m' m'' : Mem}

theorem refl : OnlyBelow a d m m := by
  intro x hx
  rfl

theorem trans (h : OnlyBelow a d m m') (h' : OnlyBelow a d m' m'') : OnlyBelow a d m m'' := by
  intro x hx
  rw [h' x hx, h x hx]

/-- Seen from `k` bytes higher up. -/
theorem shift {k : Nat} {e : Nat} (h : OnlyBelow (a - BitVec.ofNat 32 k) e m m')
    (hk : k + e ≤ d) : OnlyBelow a d m m' := by
  intro x hx
  apply h
  have hmod : (BitVec.ofNat 32 k).toNat = k := by
    rw [BitVec.toNat_ofNat]
    omega
  generalize BitVec.ofNat 32 k = b at hmod ⊢
  bv_omega

theorem mono {e : Nat} (h : OnlyBelow a e m m') (hle : e ≤ d) : OnlyBelow a d m m' := by
  intro x hx
  exact h x (by omega)

theorem read32 (h : OnlyBelow a d m m') {k : Nat} (hk : k + d + 3 < 2 ^ 32) :
    m'.read32 (a + BitVec.ofNat 32 k) = m.read32 (a + BitVec.ofNat 32 k) := by
  have hmod : (BitVec.ofNat 32 k).toNat = k := by
    rw [BitVec.toNat_ofNat]
    omega
  generalize BitVec.ofNat 32 k = b at hmod ⊢
  exact Mem.read32_congr (h _ (by bv_omega)) (h _ (by bv_omega)) (h _ (by bv_omega))
    (h _ (by bv_omega))

/-- A store below `a`. -/
theorem write32 (m : Mem) (w : Word) {k : Nat} (hk : 4 ≤ k) (hd : k ≤ d) :
    OnlyBelow a d m (m.write32 (a - BitVec.ofNat 32 k) w) := by
  intro x hx
  have hmod : (BitVec.ofNat 32 k).toNat = k := by
    rw [BitVec.toNat_ofNat]
    omega
  generalize BitVec.ofNat 32 k = b at hmod ⊢
  exact Mem.write32_frame _ _ (by bv_omega)

theorem write16 (m : Mem) (h : Half) {k : Nat} (hk : 2 ≤ k) (hd : k ≤ d) :
    OnlyBelow a d m (m.write16 (a - BitVec.ofNat 32 k) h) := by
  intro x hx
  have hmod : (BitVec.ofNat 32 k).toNat = k := by
    rw [BitVec.toNat_ofNat]
    omega
  generalize BitVec.ofNat 32 k = b at hmod ⊢
  exact Mem.write16_frame _ _ (by bv_omega)

end OnlyBelow

/-! ## Frames -/

/-- The registers that a routine is to keep, and the stack. -/
structure Frame where
  ebx : Word
  esi : Word
  edi : Word
  ebp : Word
  esp : Word
  stack : Mem

namespace Frame

/-- The word `4 * k` bytes above ESP. -/
def word (f : Frame) (k : Nat) : Word := f.stack.read32 (f.esp + BitVec.ofNat 32 (4 * k))

/-- `push` -/
def push (f : Frame) (w : Word) : Frame :=
  { f with esp := f.esp - 4, stack := f.stack.write32 (f.esp - 4) w }

/-- `push` of each of the words, from the last one on -/
def pushAll (f : Frame) (ws : List Word) : Frame := ws.foldr (fun w g => g.push w) f

/-- `add esp, 4 * n` -/
def drop (f : Frame) (n : Nat) : Frame := { f with esp := f.esp + BitVec.ofNat 32 (4 * n) }

/-- `mov ebx, w` -/
def setEbx (f : Frame) (w : Word) : Frame := { f with ebx := w }

/-- `mov esi, w` -/
def setEsi (f : Frame) (w : Word) : Frame := { f with esi := w }

/-- `mov edi, w` -/
def setEdi (f : Frame) (w : Word) : Frame := { f with edi := w }

/-- `pop ebx` -/
def popEbx (f : Frame) : Frame := (f.drop 1).setEbx (f.word 0)

/-- `pop esi` -/
def popEsi (f : Frame) : Frame := (f.drop 1).setEsi (f.word 0)

/-- `pop edi` -/
def popEdi (f : Frame) : Frame := (f.drop 1).setEdi (f.word 0)

/-- `pusha`, with EAX, ECX and EDX -/
def pusha (f : Frame) (eax ecx edx : Word) : Frame :=
  (((((((f.push eax).push ecx).push edx).push f.ebx).push f.esp).push f.ebp).push f.esi).push f.edi

/-- `popa`. ESP is not taken from the stack. -/
def popa (f : Frame) : Frame :=
  { f.drop 8 with edi := f.word 0, esi := f.word 1, ebp := f.word 2, ebx := f.word 4 }

/-- `push ebp` and `mov ebp, esp` -/
def enter (f : Frame) : Frame := { f.push f.ebp with ebp := f.esp - 4 }

/-- `leave` -/
def leave (f : Frame) : Frame := { f with esp := f.ebp + 4, ebp := f.stack.read32 f.ebp }

/-- `ret`: where it goes, and the frame behind it. -/
def ret (f : Frame) : Word × Frame := (f.word 0, f.drop 1)

/-- `push` of 16 bits -/
def push16 (f : Frame) (h : Half) : Frame :=
  { f with esp := f.esp - 2, stack := f.stack.write16 (f.esp - 2) h }

/-- `pop` of 16 bits -/
def pop16 (f : Frame) : Half × Frame := (f.stack.read16 f.esp, { f with esp := f.esp + 2 })

/-- `sub esp, n` -/
def reserve (f : Frame) (n : Nat) : Frame := { f with esp := f.esp - BitVec.ofNat 32 n }

/-- The 16 bits at `[ebp - n]` -/
def local16 (f : Frame) (n : Nat) : Half := f.stack.read16 (f.ebp - BitVec.ofNat 32 n)

/-- A store at `[ebp - n]` -/
def setLocal16 (f : Frame) (n : Nat) (h : Half) : Frame :=
  { f with stack := f.stack.write16 (f.ebp - BitVec.ofNat 32 n) h }

/-- A call of a routine that leaves the stack alone: its return address is stored. -/
def leaf (f : Frame) (ra : Word) : Frame := (f.push ra).drop 1

/-- `call` of a routine with the return address `ra`. Nothing is said about a routine that
returns to another place. -/
def call {α : Type} (f : Frame) (ra : Word) (routine : Frame → Option (α × Word × Frame)) :
    Option (α × Frame) :=
  match routine (f.push ra) with
  | none => none
  | some (a, eip, g) => if eip = ra then some (a, g) else none

/-- ESP and EBP are those of `f`, and so is the stack but for the `d` bytes below ESP. -/
structure Balanced (d : Nat) (f g : Frame) : Prop where
  ebp : g.ebp = f.ebp
  esp : g.esp = f.esp
  stack : OnlyBelow f.esp d f.stack g.stack

/-- The other registers are as well. -/
structure Kept (d : Nat) (f g : Frame) : Prop extends Balanced d f g where
  ebx : g.ebx = f.ebx
  esi : g.esi = f.esi
  edi : g.edi = f.edi

/-- All registers but ESI are those of `f`. -/
structure ButEsi (d : Nat) (f g : Frame) : Prop extends Balanced d f g where
  ebx : g.ebx = f.ebx
  edi : g.edi = f.edi

/-- `g` has the words `ws` on the stack above that of `f`. -/
structure Pushed (d : Nat) (f : Frame) (ws : List Word) (g : Frame) : Prop where
  ebp : g.ebp = f.ebp
  esp : g.esp = f.esp - BitVec.ofNat 32 (4 * ws.length)
  words : ∀ i w, ws[i]? = some w → g.word i = w
  stack : OnlyBelow f.esp d f.stack g.stack
  depth : 4 * ws.length ≤ d
  small : d < 2 ^ 16

/-! ### The registers of a frame -/

variable {d e : Nat} {f g h : Frame} {ws : List Word} {w : Word}

@[simp] theorem setEbx_ebx : (f.setEbx w).ebx = w := rfl
@[simp] theorem setEbx_esi : (f.setEbx w).esi = f.esi := rfl
@[simp] theorem setEbx_edi : (f.setEbx w).edi = f.edi := rfl
@[simp] theorem setEsi_ebx : (f.setEsi w).ebx = f.ebx := rfl
@[simp] theorem setEsi_esi : (f.setEsi w).esi = w := rfl
@[simp] theorem setEsi_edi : (f.setEsi w).edi = f.edi := rfl
@[simp] theorem setEdi_ebx : (f.setEdi w).ebx = f.ebx := rfl
@[simp] theorem setEdi_esi : (f.setEdi w).esi = f.esi := rfl
@[simp] theorem setEdi_edi : (f.setEdi w).edi = w := rfl
@[simp] theorem popEbx_esi : f.popEbx.esi = f.esi := rfl
@[simp] theorem popEbx_edi : f.popEbx.edi = f.edi := rfl
@[simp] theorem popEsi_ebx : f.popEsi.ebx = f.ebx := rfl
@[simp] theorem popEsi_edi : f.popEsi.edi = f.edi := rfl
@[simp] theorem popEdi_ebx : f.popEdi.ebx = f.ebx := rfl
@[simp] theorem popEdi_esi : f.popEdi.esi = f.esi := rfl
@[simp] theorem setLocal16_ebx (n : Nat) (v : Half) : (f.setLocal16 n v).ebx = f.ebx := rfl
@[simp] theorem setLocal16_esi (n : Nat) (v : Half) : (f.setLocal16 n v).esi = f.esi := rfl
@[simp] theorem setLocal16_edi (n : Nat) (v : Half) : (f.setLocal16 n v).edi = f.edi := rfl
@[simp] theorem push_ebx : (f.push w).ebx = f.ebx := rfl
@[simp] theorem push_esi : (f.push w).esi = f.esi := rfl
@[simp] theorem push_edi : (f.push w).edi = f.edi := rfl
@[simp] theorem push_ebp : (f.push w).ebp = f.ebp := rfl
@[simp] theorem pushAll_esi (vs : List Word) : (f.pushAll vs).esi = f.esi := by
  induction vs with
  | nil => rfl
  | cons v vs ih => exact ih

@[simp] theorem pushAll_edi (vs : List Word) : (f.pushAll vs).edi = f.edi := by
  induction vs with
  | nil => rfl
  | cons v vs ih => exact ih

@[simp] theorem pushAll_ebx (vs : List Word) : (f.pushAll vs).ebx = f.ebx := by
  induction vs with
  | nil => rfl
  | cons v vs ih => exact ih

@[simp] theorem drop_ebx (n : Nat) : (f.drop n).ebx = f.ebx := rfl
@[simp] theorem drop_esi (n : Nat) : (f.drop n).esi = f.esi := rfl
@[simp] theorem drop_edi (n : Nat) : (f.drop n).edi = f.edi := rfl
@[simp] theorem drop_ebp (n : Nat) : (f.drop n).ebp = f.ebp := rfl
@[simp] theorem leaf_ebx (ra : Word) : (f.leaf ra).ebx = f.ebx := rfl
@[simp] theorem leaf_esi (ra : Word) : (f.leaf ra).esi = f.esi := rfl
@[simp] theorem leaf_edi (ra : Word) : (f.leaf ra).edi = f.edi := rfl
@[simp] theorem enter_ebx : f.enter.ebx = f.ebx := rfl
@[simp] theorem enter_esi : f.enter.esi = f.esi := rfl
@[simp] theorem enter_edi : f.enter.edi = f.edi := rfl
@[simp] theorem leave_ebx : f.leave.ebx = f.ebx := rfl
@[simp] theorem leave_esi : f.leave.esi = f.esi := rfl
@[simp] theorem leave_edi : f.leave.edi = f.edi := rfl

theorem drop_word (n i : Nat) : (f.drop n).word i = f.word (n + i) := by
  have hadd : f.esp + BitVec.ofNat 32 (4 * n) + BitVec.ofNat 32 (4 * i)
      = f.esp + BitVec.ofNat 32 (4 * (n + i)) := by
    rw [BitVec.add_assoc, ← BitVec.ofNat_add, Nat.mul_add]
  exact congrArg f.stack.read32 hadd

/-! ### Balanced frames -/

theorem Balanced.refl : Balanced d f f := ⟨rfl, rfl, OnlyBelow.refl⟩

theorem Balanced.mono (hb : Balanced e f g) (hle : e ≤ d) : Balanced d f g :=
  ⟨hb.ebp, hb.esp, hb.stack.mono hle⟩

theorem Balanced.trans (hb : Balanced d f g) (hb' : Balanced d g h) : Balanced d f h := by
  refine ⟨hb'.ebp.trans hb.ebp, hb'.esp.trans hb.esp, hb.stack.trans ?_⟩
  rw [← hb.esp]
  exact hb'.stack

theorem Balanced.setEbx (hb : Balanced d f g) (w : Word) : Balanced d f (g.setEbx w) :=
  ⟨hb.ebp, hb.esp, hb.stack⟩

theorem Balanced.setEsi (hb : Balanced d f g) (w : Word) : Balanced d f (g.setEsi w) :=
  ⟨hb.ebp, hb.esp, hb.stack⟩

theorem Balanced.setEdi (hb : Balanced d f g) (w : Word) : Balanced d f (g.setEdi w) :=
  ⟨hb.ebp, hb.esp, hb.stack⟩

theorem Kept.refl : Kept d f f := ⟨Balanced.refl, rfl, rfl, rfl⟩

theorem Kept.mono (hk : Kept e f g) (hle : e ≤ d) : Kept d f g :=
  ⟨hk.toBalanced.mono hle, hk.ebx, hk.esi, hk.edi⟩

theorem Kept.trans (hk : Kept d f g) (hk' : Kept d g h) : Kept d f h :=
  ⟨hk.toBalanced.trans hk'.toBalanced, hk'.ebx.trans hk.ebx, hk'.esi.trans hk.esi,
    hk'.edi.trans hk.edi⟩

theorem Kept.butEsi (hk : Kept d f g) : ButEsi d f g := ⟨hk.toBalanced, hk.ebx, hk.edi⟩

namespace ButEsi

theorem refl : ButEsi d f f := ⟨Balanced.refl, rfl, rfl⟩

theorem trans (hb : ButEsi d f g) (hb' : ButEsi d g h) : ButEsi d f h :=
  ⟨hb.toBalanced.trans hb'.toBalanced, hb'.ebx.trans hb.ebx, hb'.edi.trans hb.edi⟩

theorem mono (hb : ButEsi e f g) (hle : e ≤ d) : ButEsi d f g :=
  ⟨hb.toBalanced.mono hle, hb.ebx, hb.edi⟩

/-- A new value of ESI. -/
theorem setEsi (f : Frame) (w : Word) : ButEsi d f (f.setEsi w) :=
  ⟨⟨rfl, rfl, OnlyBelow.refl⟩, rfl, rfl⟩

end ButEsi

/-! ### Words on the stack -/

namespace Pushed

theorem nil (hd : d < 2 ^ 16) : Pushed d f [] f := by
  refine ⟨rfl, ?_, ?_, OnlyBelow.refl, Nat.zero_le d, hd⟩
  · rw [List.length_nil]
    bv_omega
  · intro i w hw
    simp at hw

theorem setEbx (hp : Pushed d f ws g) (w : Word) : Pushed d f ws (g.setEbx w) :=
  ⟨hp.ebp, hp.esp, hp.words, hp.stack, hp.depth, hp.small⟩

theorem setEsi (hp : Pushed d f ws g) (w : Word) : Pushed d f ws (g.setEsi w) :=
  ⟨hp.ebp, hp.esp, hp.words, hp.stack, hp.depth, hp.small⟩

theorem setEdi (hp : Pushed d f ws g) (w : Word) : Pushed d f ws (g.setEdi w) :=
  ⟨hp.ebp, hp.esp, hp.words, hp.stack, hp.depth, hp.small⟩

theorem push (hp : Pushed d f ws g) (hroom : 4 * ws.length + 4 ≤ d) (w : Word) :
    Pushed d f (w :: ws) (g.push w) := by
  have hsmall := hp.small
  have hesp : g.esp - 4 = f.esp - BitVec.ofNat 32 (4 * (w :: ws).length) := by
    rw [hp.esp, List.length_cons]
    bv_omega
  refine ⟨hp.ebp, hesp, ?_, ?_, ?_, hsmall⟩
  · intro i v hv
    cases i with
    | zero =>
        rw [List.getElem?_cons_zero, Option.some.injEq] at hv
        have hself : g.esp - 4 + BitVec.ofNat 32 (4 * 0) = g.esp - 4 := by bv_omega
        rw [word, Frame.push]
        dsimp only
        rw [hself, Mem.read32_write32, hv]
    | succ i =>
        -- the words pushed before lie above the new one
        rw [List.getElem?_cons_succ] at hv
        have hlt := (List.getElem?_eq_some_iff.mp hv).1
        have habove : g.esp - 4 + BitVec.ofNat 32 (4 * (i + 1))
            = g.esp + BitVec.ofNat 32 (4 * i) := by
          bv_omega
        have hsep : Sep (g.esp + BitVec.ofNat 32 (4 * i)) 4 (g.esp - 4) 4 := by
          unfold Sep
          constructor <;> bv_omega
        rw [word, Frame.push]
        dsimp only
        rw [habove, Mem.read32_write32_of_sep _ _ hsep]
        exact hp.words i v hv
  · refine hp.stack.trans ?_
    rw [Frame.push]
    dsimp only
    rw [hesp]
    refine OnlyBelow.write32 _ _ ?_ ?_
    · rw [List.length_cons]
      omega
    · rw [List.length_cons]
      omega
  · rw [List.length_cons]
    omega

/-- The word on top. -/
theorem top (hp : Pushed d f (w :: ws) g) : g.word 0 = w := hp.words 0 w rfl

theorem pushAll (hp : Pushed d f ws g) (vs : List Word)
    (hroom : 4 * (vs.length + ws.length) ≤ d) : Pushed d f (vs ++ ws) (g.pushAll vs) := by
  induction vs with
  | nil => exact hp
  | cons v vs ih =>
      rw [List.length_cons] at hroom
      exact (ih (by omega)).push (by rw [List.length_append]; omega) v

/-- Words are taken off the stack. -/
theorem drop (vs : List Word) (hp : Pushed d f (vs ++ ws) g) :
    Pushed d f ws (g.drop vs.length) := by
  have hdepth := hp.depth
  have hsmall := hp.small
  have hesp := hp.esp
  rw [List.length_append] at hdepth hesp
  refine ⟨hp.ebp, ?_, ?_, hp.stack, by omega, hsmall⟩
  · rw [Frame.drop]
    dsimp only
    rw [hesp]
    bv_omega
  · intro i v hv
    rw [drop_word]
    apply hp.words
    rw [List.getElem?_append_right (by omega), Nat.add_sub_cancel_left]
    exact hv

theorem pop (hp : Pushed d f (w :: ws) g) : Pushed d f ws (g.drop 1) :=
  drop [w] hp

theorem popEbx (hp : Pushed d f (w :: ws) g) : Pushed d f ws g.popEbx ∧ g.popEbx.ebx = w :=
  ⟨hp.pop.setEbx _, hp.top⟩

theorem popEsi (hp : Pushed d f (w :: ws) g) : Pushed d f ws g.popEsi ∧ g.popEsi.esi = w :=
  ⟨hp.pop.setEsi _, hp.top⟩

theorem popEdi (hp : Pushed d f (w :: ws) g) : Pushed d f ws g.popEdi ∧ g.popEdi.edi = w :=
  ⟨hp.pop.setEdi _, hp.top⟩

/-- A call of a routine that leaves what it finds on the stack. -/
theorem call (hp : Pushed d f ws g) (hb : Balanced e g h) (hroom : 4 * ws.length + e ≤ d) :
    Pushed d f ws h := by
  have hsmall := hp.small
  refine ⟨hb.ebp.trans hp.ebp, hb.esp.trans hp.esp, ?_, ?_, hp.depth, hsmall⟩
  · intro i w hw
    have hlt := (List.getElem?_eq_some_iff.mp hw).1
    rw [word, hb.esp, hb.stack.read32 (by omega)]
    exact hp.words i w hw
  · refine hp.stack.trans ?_
    have hbelow := hb.stack
    rw [hp.esp] at hbelow
    exact hbelow.shift hroom

/-- With nothing left on the stack, ESP is back. -/
theorem balanced (hp : Pushed d f [] g) : Balanced d f g := by
  refine ⟨hp.ebp, ?_, hp.stack⟩
  rw [hp.esp, List.length_nil]
  bv_omega

/-- A local variable that lies on the stack of `f`. -/
theorem local16 (hp : Pushed d f ws g) {n : Nat}
    (hon : (f.ebp - BitVec.ofNat 32 n - f.esp).toNat + d + 1 < 2 ^ 32) :
    g.local16 n = f.local16 n := by
  rw [Frame.local16, Frame.local16, hp.ebp]
  generalize f.ebp - BitVec.ofNat 32 n = a at hon
  rw [Mem.read16, Mem.read16, hp.stack a (by omega), hp.stack (a + 1) (by bv_omega)]

theorem setLocal16 (hp : Pushed d f ws g) {n : Nat}
    (hon : (f.ebp - BitVec.ofNat 32 n - f.esp).toNat + d + 1 < 2 ^ 32) (v : Half) :
    Pushed d (f.setLocal16 n v) ws (g.setLocal16 n v) := by
  have hdepth := hp.depth
  have hsmall := hp.small
  refine ⟨hp.ebp, hp.esp, ?_, ?_, hdepth, hsmall⟩
  · intro i w hw
    have hlt := (List.getElem?_eq_some_iff.mp hw).1
    have hword := hp.words i w hw
    have hesp := hp.esp
    rw [← hword, word, word, Frame.setLocal16]
    dsimp only
    rw [hp.ebp]
    generalize f.ebp - BitVec.ofNat 32 n = a at hon ⊢
    -- the words pushed lie below the variable
    exact Mem.read32_congr (Mem.write16_frame _ _ (by bv_omega)) (Mem.write16_frame _ _ (by bv_omega))
      (Mem.write16_frame _ _ (by bv_omega)) (Mem.write16_frame _ _ (by bv_omega))
  · intro x hx
    rw [Frame.setLocal16, Frame.setLocal16]
    dsimp only
    rw [hp.ebp, Mem.write16, Mem.write16, hp.stack x hx]

end Pushed

theorem leaf_kept (ra : Word) : Kept 4 f (f.leaf ra) := by
  refine ⟨⟨rfl, ?_, ?_⟩, rfl, rfl, rfl⟩
  · change f.esp - 4 + BitVec.ofNat 32 (4 * 1) = f.esp
    bv_omega
  · exact OnlyBelow.write32 (k := 4) _ _ (Nat.le_refl 4) (Nat.le_refl 4)

theorem Balanced.leaf (hb : Balanced d f g) (hd : 4 ≤ d) (ra : Word) :
    Balanced d f (g.leaf ra) :=
  hb.trans ((leaf_kept ra).toBalanced.mono hd)

theorem call_eq {α : Type} {ra : Word} {routine : Frame → Option (α × Word × Frame)} {a : α}
    (hrun : routine (f.push ra) = some (a, ra, g)) : f.call ra routine = some (a, g) := by
  rw [Frame.call, hrun]
  exact if_pos rfl

theorem push16_pop16 (v : Half) :
    (f.push16 v).pop16.1 = v ∧ Kept 2 f (f.push16 v).pop16.2 := by
  refine ⟨Mem.read16_write16 _ _ _, ⟨rfl, ?_, ?_⟩, rfl, rfl, rfl⟩
  · change f.esp - 2 + 2 = f.esp
    bv_omega
  · exact OnlyBelow.write16 (k := 2) _ _ (Nat.le_refl 2) (Nat.le_refl 2)

/-! ### Frame pointer and return address -/

/-- `leave` undoes `enter`, whatever the routine has left on its stack. -/
theorem leave_balanced (hebp : g.ebp = f.esp - 4)
    (hstack : OnlyBelow (f.esp - 4) d f.enter.stack g.stack) (hd : d < 2 ^ 16) :
    Balanced (d + 4) f g.leave := by
  have hword := hstack.read32 (k := 0) (by omega)
  have hself : f.esp - 4 + BitVec.ofNat 32 0 = f.esp - 4 := by bv_omega
  rw [hself] at hword
  refine ⟨?_, ?_, ?_⟩
  · change g.stack.read32 g.ebp = f.ebp
    rw [hebp, hword]
    exact Mem.read32_write32 _ _ _
  · change g.ebp + 4 = f.esp
    rw [hebp]
    bv_omega
  · have henter : OnlyBelow f.esp (d + 4) f.stack f.enter.stack :=
      OnlyBelow.write32 (k := 4) _ _ (Nat.le_refl 4) (by omega)
    exact henter.trans (hstack.shift (k := 4) (by omega))

theorem Pushed.leave (hp : Pushed d f.enter ws g) : Balanced (d + 4) f g.leave :=
  leave_balanced hp.ebp hp.stack hp.small

/-- `ret` behind a routine that has left the stack of its caller alone. -/
theorem Balanced.ret {ra : Word} (hb : Balanced d (f.push ra) g) (hd : d < 2 ^ 16) :
    g.ret = (ra, g.drop 1) ∧ Balanced (d + 4) f (g.drop 1) := by
  have hword := hb.stack.read32 (k := 4 * 0) (by omega)
  have hself : (f.push ra).esp + BitVec.ofNat 32 (4 * 0) = f.esp - 4 := by
    change f.esp - 4 + BitVec.ofNat 32 (4 * 0) = f.esp - 4
    bv_omega
  have hra : g.word 0 = ra := by
    rw [word, hb.esp, hword, hself]
    exact Mem.read32_write32 _ _ _
  refine ⟨?_, hb.ebp, ?_, ?_⟩
  · rw [Frame.ret, hra]
  · change g.esp + BitVec.ofNat 32 (4 * 1) = f.esp
    rw [hb.esp]
    change f.esp - 4 + BitVec.ofNat 32 (4 * 1) = f.esp
    bv_omega
  · have hcall : OnlyBelow f.esp (d + 4) f.stack (f.push ra).stack :=
      OnlyBelow.write32 (k := 4) _ _ (Nat.le_refl 4) (by omega)
    have hbelow : OnlyBelow (f.esp - BitVec.ofNat 32 4) d (f.push ra).stack g.stack := hb.stack
    exact hcall.trans (hbelow.shift (by omega))

theorem Kept.ret {ra : Word} (hk : Kept d (f.push ra) g) (hd : d < 2 ^ 16) :
    g.ret = (ra, g.drop 1) ∧ Kept (d + 4) f (g.drop 1) := by
  rcases hk.toBalanced.ret hd with ⟨hret, hbalanced⟩
  exact ⟨hret, hbalanced, hk.ebx, hk.esi, hk.edi⟩

/-- The registers of a frame are all behind `pusha`, and `popa` takes them back. -/
theorem pusha_pushed (hp : Pushed d f ws g) (hroom : 4 * ws.length + 32 ≤ d)
    (eax ecx edx : Word) :
    Pushed d f (g.edi :: g.esi :: g.ebp :: g.esp :: g.ebx :: edx :: ecx :: eax :: ws)
      (g.pusha eax ecx edx) := by
  have h₁ := hp.push (by omega) eax
  have h₂ := h₁.push (by rw [List.length_cons]; omega) ecx
  have h₃ := h₂.push (by simp only [List.length_cons]; omega) edx
  have h₄ := h₃.push (by simp only [List.length_cons]; omega) g.ebx
  have h₅ := h₄.push (by simp only [List.length_cons]; omega) g.esp
  have h₆ := h₅.push (by simp only [List.length_cons]; omega) g.ebp
  have h₇ := h₆.push (by simp only [List.length_cons]; omega) g.esi
  exact h₇.push (by simp only [List.length_cons]; omega) g.edi

/-- A call between `pusha` and `popa` keeps all registers, whatever it does to them. -/
theorem pusha_popa {eax ecx edx : Word} (hb : Balanced e (f.pusha eax ecx edx) g)
    (he : e < 2 ^ 15) : Kept (e + 32) f g.popa := by
  have hnil : Pushed (e + 32) f [] f := Pushed.nil (by omega)
  have hbase := pusha_pushed hnil (by rw [List.length_nil]; omega) eax ecx edx
  have hcall := hbase.call hb (by simp only [List.length_cons, List.length_nil]; omega)
  refine ⟨⟨hcall.words 2 _ rfl, ?_, hcall.stack⟩, hcall.words 4 _ rfl, hcall.words 1 _ rfl,
    hcall.words 0 _ rfl⟩
  change g.esp + BitVec.ofNat 32 (4 * 8) = f.esp
  rw [hcall.esp]
  simp only [List.length_cons, List.length_nil]
  bv_omega

end Frame

end StupidOS
