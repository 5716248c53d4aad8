import Mathlib.Data.List.Basic

/-!
# Computations that leave a log

A `Traced ε α` notes what it does in a log, and ends with a result or is cut short. `Only P`
says that everything noted satisfies `P`; of two computations in a row it holds of the second
where the first has a result (`only_bind`).
-/

namespace StupidOS

/-- What was done, and the result if the end was reached. -/
structure Traced (ε α : Type) where
  log : List ε
  result : Option α

namespace Traced

variable {ε α β : Type}

instance : Monad (Traced ε) where
  pure a := ⟨[], some a⟩
  bind x f :=
    match x.result with
    | none => ⟨x.log, none⟩
    | some a => ⟨x.log ++ (f a).log, (f a).result⟩

/-- Note what is done. -/
def note (es : List ε) : Traced ε Unit := ⟨es, some ()⟩

/-- The end of the time. -/
def cut : Traced ε α := ⟨[], none⟩

@[simp] theorem log_pure (a : α) : (pure a : Traced ε α).log = [] := rfl
@[simp] theorem log_cut : (cut : Traced ε α).log = [] := rfl
@[simp] theorem result_note (es : List ε) : (note es).result = some () := rfl
@[simp] theorem result_pure (a : α) : (pure a : Traced ε α).result = some a := rfl

theorem mem_log_bind (x : Traced ε α) (f : α → Traced ε β) (e : ε) :
    e ∈ (x >>= f).log ↔ e ∈ x.log ∨ ∃ a, x.result = some a ∧ e ∈ (f a).log := by
  rcases x with ⟨log, _ | a⟩
  · change e ∈ log ↔ _
    simp
  · change e ∈ log ++ (f a).log ↔ _
    simp

theorem result_bind_eq (x : Traced ε α) (f : α → Traced ε β) :
    (x >>= f).result = x.result.bind fun a => (f a).result := by
  rcases x with ⟨log, _ | a⟩
  · rfl
  · rfl

theorem result_bind (x : Traced ε α) (f : α → Traced ε β) (b : β) :
    (x >>= f).result = some b ↔ ∃ a, x.result = some a ∧ (f a).result = some b := by
  rcases x with ⟨log, _ | a⟩
  · change none = some b ↔ _
    simp
  · change (f a).result = some b ↔ _
    simp

theorem bind_assoc {γ : Type} (x : Traced ε α) (f : α → Traced ε β) (g : β → Traced ε γ) :
    (x >>= fun a => f a >>= g) = (x >>= f) >>= g := by
  rcases x with ⟨log, _ | a⟩
  · rfl
  · change (⟨log ++ (f a >>= g).log, (f a >>= g).result⟩ : Traced ε γ)
      = ((⟨log ++ (f a).log, (f a).result⟩ : Traced ε β) >>= g)
    rcases f a with ⟨log', _ | b⟩
    · rfl
    · change (⟨log ++ (log' ++ (g b).log), (g b).result⟩ : Traced ε γ)
        = ⟨(log ++ log') ++ (g b).log, (g b).result⟩
      rw [List.append_assoc]

/-! ## What is noted -/

/-- Nothing else is noted. -/
def Only (P : ε → Prop) (x : Traced ε α) : Prop := ∀ e ∈ x.log, P e

variable {P : ε → Prop}

@[simp] theorem only_pure (a : α) : (pure a : Traced ε α).Only P := by
  simp [Only]

@[simp] theorem only_cut : (cut : Traced ε α).Only P := by
  simp [Only]

@[simp] theorem only_note (es : List ε) : (note es).Only P ↔ ∀ e ∈ es, P e := Iff.rfl

/-- Two computations in a row. -/
@[simp] theorem only_bind (x : Traced ε α) (f : α → Traced ε β) :
    (x >>= f).Only P ↔ x.Only P ∧ ∀ a, x.result = some a → (f a).Only P := by
  constructor
  · intro h
    refine ⟨fun e he => h e ((mem_log_bind x f e).mpr (Or.inl he)), ?_⟩
    intro a ha e he
    exact h e ((mem_log_bind x f e).mpr (Or.inr ⟨a, ha, he⟩))
  · intro h e he
    rcases (mem_log_bind x f e).mp he with hx | ⟨a, ha, hf⟩
    · exact h.1 e hx
    · exact h.2 a ha e hf

/-- The second of two computations in a row, if the first is known. -/
theorem only_bind_of {x : Traced ε α} {a : α} (hx : x.Only P) (ha : x.result = some a)
    (f : α → Traced ε β) : (x >>= f).Only P ↔ (f a).Only P := by
  rw [only_bind]
  constructor
  · intro h
    exact h.2 a ha
  · intro h
    refine ⟨hx, ?_⟩
    intro b hb
    rw [ha, Option.some.injEq] at hb
    rw [← hb]
    exact h

end Traced

end StupidOS
