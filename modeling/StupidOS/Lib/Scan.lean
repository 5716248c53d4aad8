import Mathlib.Data.List.Basic
import Mathlib.Logic.Function.Iterate
import Mathlib.Logic.Relation
import StupidOS.Lib.Loop

/-!
# Loops that scan a format

A format is a string in which `pct` begins a directive, of which the next character is the rest.
`Closed` says that no directive is open where the string ends. A loop that goes over one character
or one directive with each pass (`Scans`) returns on a closed format, and in all the states it
visits a closed format is still ahead of it; on another one it gets past the end.
-/

namespace StupidOS

/-! ## Strings in memory -/

section Strings

variable {A α : Type} [Zero α]

/-- A string with its terminator is at `p`: `load` gives the character at an address, `next` the
address of the next one. All of it is where `Ok` holds. -/
def ZStr (next : A → A) (Ok : A → Prop) (load : A → α) : A → List α → Prop
  | p, [] => Ok p ∧ load p = 0
  | p, c :: str => Ok p ∧ load p = c ∧ c ≠ 0 ∧ ZStr next Ok load (next p) str

instance ZStr.decidable [DecidableEq α] {next : A → A} {Ok : A → Prop} [DecidablePred Ok]
    {load : A → α} : (p : A) → (str : List α) → Decidable (ZStr next Ok load p str)
  | _, [] => inferInstanceAs (Decidable (_ ∧ _))
  | p, _ :: str =>
    have : Decidable (ZStr next Ok load (next p) str) := ZStr.decidable (next p) str
    inferInstanceAs (Decidable (_ ∧ _ ∧ _ ∧ _))

namespace ZStr

variable {next : A → A} {Ok Ok' : A → Prop} {load load' : A → α} {p : A} {str : List α}

theorem congr (h : ZStr next Ok load p str) (hload : ∀ x, Ok x → load' x = load x) :
    ZStr next Ok load' p str := by
  induction str generalizing p with
  | nil => exact ⟨h.1, (hload p h.1).trans h.2⟩
  | cons c str ih => exact ⟨h.1, (hload p h.1).trans h.2.1, h.2.2.1, ih h.2.2.2⟩

theorem mono (h : ZStr next Ok load p str) (hok : ∀ x, Ok x → Ok' x) :
    ZStr next Ok' load p str := by
  induction str generalizing p with
  | nil => exact ⟨hok p h.1, h.2⟩
  | cons c str ih => exact ⟨hok p h.1, h.2.1, h.2.2.1, ih h.2.2.2⟩

theorem nonzero (h : ZStr next Ok load p str) : 0 ∉ str := by
  induction str generalizing p with
  | nil => exact List.not_mem_nil
  | cons c str ih => exact List.not_mem_cons_of_ne_of_not_mem (Ne.symm h.2.2.1) (ih h.2.2.2)

/-- The cells of a string. -/
theorem iff_cells : ZStr next Ok load p str ↔ 0 ∉ str ∧
    ∀ i c, (str ++ [0])[i]? = some c → Ok (next^[i] p) ∧ load (next^[i] p) = c := by
  induction str generalizing p with
  | nil =>
      refine ⟨fun h => ⟨List.not_mem_nil, fun i c hc => ?_⟩, fun h => h.2 0 0 rfl⟩
      cases i with
      | zero =>
          rw [← Option.some.inj hc]
          exact h
      | succ i => cases hc
  | cons c str ih =>
      constructor
      · intro h
        refine ⟨h.nonzero, fun i c' hc' => ?_⟩
        cases i with
        | zero =>
            rw [← Option.some.inj hc']
            exact ⟨h.1, h.2.1⟩
        | succ i => exact (ih.mp h.2.2.2).2 i c' hc'
      · rintro ⟨hzero, hcells⟩
        rcases hcells 0 c rfl with ⟨hok, hload⟩
        refine ⟨hok, hload, fun h => hzero (h ▸ List.mem_cons_self), ih.mpr ⟨?_, ?_⟩⟩
        · exact fun h => hzero (List.mem_cons_of_mem c h)
        · exact fun i c' hc' => hcells (i + 1) c' hc'

/-- Every cell of a string, its terminator among them. -/
theorem ok (h : ZStr next Ok load p str) {i : Nat} (hi : i ≤ str.length) : Ok (next^[i] p) := by
  have hlt : i < (str ++ [0]).length := by
    rw [List.length_append, List.length_singleton]
    omega
  exact ((iff_cells.mp h).2 i _ (List.getElem?_eq_getElem hlt)).1

theorem char {l : List α} (h : ZStr next Ok load p (l ++ str)) {i : Nat} (hi : i < l.length) :
    load (next^[i] p) = l[i] := by
  have hget : (l ++ str ++ [0])[i]? = some l[i] := by
    rw [List.append_assoc, List.getElem?_append_left hi, List.getElem?_eq_getElem hi]
  exact ((iff_cells.mp h).2 i _ hget).2

theorem terminator (h : ZStr next Ok load p str) : load (next^[str.length] p) = 0 :=
  ((iff_cells.mp h).2 str.length 0 List.getElem?_concat_length).2

theorem right {l : List α} (h : ZStr next Ok load p (l ++ str)) :
    ZStr next Ok load (next^[l.length] p) str := by
  induction l generalizing p with
  | nil => exact h
  | cons c l ih => exact ih h.2.2.2

theorem congr_cells (h : ZStr next Ok load p str)
    (hload : ∀ i, i ≤ str.length → load' (next^[i] p) = load (next^[i] p)) :
    ZStr next Ok load' p str := by
  induction str generalizing p with
  | nil => exact ⟨h.1, (hload 0 (Nat.le_refl 0)).trans h.2⟩
  | cons c str ih =>
      exact ⟨h.1, (hload 0 (Nat.zero_le _)).trans h.2.1, h.2.2.1,
        ih h.2.2.2 fun i hi => hload (i + 1) (Nat.succ_le_succ hi)⟩

/-- A terminator stored into a string ends it there. -/
theorem cut {l : List α} (h : ZStr next Ok load p (l ++ str))
    (hload : ∀ i, i < l.length → load' (next^[i] p) = load (next^[i] p))
    (hzero : load' (next^[l.length] p) = 0) : ZStr next Ok load' p l := by
  induction l generalizing p with
  | nil =>
      refine ⟨?_, hzero⟩
      cases str with
      | nil => exact h.1
      | cons c str => exact h.1
  | cons c l ih =>
      exact ⟨h.1, (hload 0 (Nat.succ_pos _)).trans h.2.1, h.2.2.1,
        ih h.2.2.2 (fun i hi => hload (i + 1) (Nat.succ_lt_succ hi)) hzero⟩

variable (Ok) in
/-- Where there is a terminator there is a string. -/
theorem exists_of_terminator [DecidableEq α] {n : Nat} (hzero : load (next^[n] p) = 0)
    (hok : ∀ i, i ≤ n → Ok (next^[i] p)) : ∃ str, str.length ≤ n ∧ ZStr next Ok load p str := by
  induction n generalizing p with
  | zero => exact ⟨[], Nat.le_refl 0, hok 0 (Nat.le_refl 0), hzero⟩
  | succ n ih =>
      by_cases hfirst : load p = 0
      · exact ⟨[], Nat.zero_le _, hok 0 (Nat.zero_le _), hfirst⟩
      · rcases ih hzero fun i hi => hok (i + 1) (Nat.succ_le_succ hi) with ⟨str, hlen, hstr⟩
        exact ⟨load p :: str, Nat.succ_le_succ hlen, hok 0 (Nat.zero_le _), rfl, hfirst, hstr⟩

end ZStr

end Strings

/-! ## Formats -/

section Formats

variable {α : Type} [DecidableEq α]

/-- No directive is open at the end. -/
def Closed (pct : α) : List α → Bool
  | [] => true
  | c :: fmt =>
    if c = pct then
      match fmt with
      | [] => false
      | _ :: fmt => Closed pct fmt
    else Closed pct fmt

variable {pct : α}

theorem closed_directive (c : α) (fmt : List α) :
    Closed pct (pct :: c :: fmt) = Closed pct fmt := by
  rw [Closed, if_pos rfl]

theorem closed_char {c : α} (hc : c ≠ pct) (fmt : List α) :
    Closed pct (c :: fmt) = Closed pct fmt := by
  rw [Closed.eq_def]
  exact if_neg hc

/-- There is a character behind the `pct` of a directive that is not open. -/
theorem length_pos_of_closed {fmt : List α} (h : Closed pct (pct :: fmt) = true) :
    0 < fmt.length := by
  cases fmt with
  | nil => simp [Closed] at h
  | cons c fmt => exact Nat.succ_pos _

/-- To look for `pct`, and at what is behind it, is to stay within a format with nothing open. -/
theorem ZStr.reads {A : Type} [Zero α] {next : A → A} {Ok : A → Prop} {load : A → α} {p q : A}
    {fmt : List α} {k n : Nat} (h : ZStr next Ok load q fmt) (hpct : pct ≠ 0)
    (hclosed : Closed pct fmt = true) (hq : q = next^[k] p) (hlen : k + fmt.length = n) :
    ∀ a ∈ q :: (if load q = pct then [next q] else []), ∃ i ≤ n, a = next^[i] p := by
  intro a ha
  rcases List.mem_cons.mp ha with rfl | hnext
  · exact ⟨k, by omega, hq⟩
  · split at hnext
    next hpercent =>
      refine ⟨k + 1, ?_, ?_⟩
      · cases fmt with
        | nil => exact absurd (hpercent.symm.trans h.2) hpct
        | cons c fmt =>
            have hc : c = pct := h.2.1.symm.trans hpercent
            have hpos := length_pos_of_closed (hc ▸ hclosed)
            rw [List.length_cons] at hlen
            omega
      · rw [List.mem_singleton.mp hnext, hq, Function.iterate_succ_apply']
    next => exact absurd hnext List.not_mem_nil

variable (pct) in
/-- What stands behind the `pct` of each directive. -/
def directives : List α → List α
  | [] => []
  | c :: fmt =>
    if c = pct then
      match fmt with
      | [] => []
      | c :: fmt => c :: directives fmt
    else directives fmt

theorem directives_directive (c : α) (fmt : List α) :
    directives pct (pct :: c :: fmt) = c :: directives pct fmt := by
  rw [directives, if_pos rfl]

theorem directives_char {c : α} (hc : c ≠ pct) (fmt : List α) :
    directives pct (c :: fmt) = directives pct fmt := by
  rw [directives.eq_def]
  exact if_neg hc

end Formats

/-! ## The loop -/

section Loop

variable {σ ρ α : Type} [DecidableEq α] {pct : α}

/-- The loop gets from one state to the other. -/
def Visits (body : σ → Option (Pass σ ρ)) : σ → σ → Prop :=
  Relation.ReflTransGen fun s t => body s = some (.again t)

/-- With each pass the loop goes over a character or a directive. `At fmt` is what holds before a
pass, with `fmt` still ahead, `Past` what holds behind an open directive. -/
structure Scans (pct : α) (body : σ → Option (Pass σ ρ)) (At : List α → σ → Prop)
    (Past : σ → Prop) (Post : ρ → Prop) : Prop where
  stop : ∀ s, At [] s → ∃ r, body s = some (.done r) ∧ Post r
  char : ∀ s c fmt, At (c :: fmt) s → c ≠ pct → ∃ t, body s = some (.again t) ∧ At fmt t
  directive : ∀ s c fmt, At (pct :: c :: fmt) s → ∃ t, body s = some (.again t) ∧ At fmt t
  lone : ∀ s, At [pct] s → ∃ t, body s = some (.again t) ∧ Past t

namespace Scans

variable {body : σ → Option (Pass σ ρ)} {At : List α → σ → Prop} {Past : σ → Prop}
  {Post : ρ → Prop} {fmt : List α} {s : σ}

theorem returns (h : Scans pct body At Past Post) (hfmt : Closed pct fmt = true) (hs : At fmt s)
    {n : Nat} (hn : fmt.length < n) : ∃ r, iterate body n s = some r ∧ Post r := by
  obtain ⟨n, rfl⟩ : ∃ m, n = m + 1 := ⟨n - 1, by omega⟩
  induction fmt using Closed.induct pct generalizing s n with
  | case1 =>
      rcases h.stop s hs with ⟨r, hdone, hpost⟩
      exact ⟨r, iterate_done hdone n, hpost⟩
  | case2 => simp [Closed] at hfmt
  | case3 c fmt ih =>
      rw [closed_directive] at hfmt
      simp only [List.length_cons] at hn
      obtain ⟨n, rfl⟩ : ∃ m, n = m + 1 := ⟨n - 1, by omega⟩
      rcases h.directive s c fmt hs with ⟨t, hagain, ht⟩
      rw [iterate_again hagain]
      exact ih hfmt ht n (by omega)
  | case4 c fmt hne ih =>
      rw [closed_char hne] at hfmt
      rw [List.length_cons] at hn
      obtain ⟨n, rfl⟩ : ∃ m, n = m + 1 := ⟨n - 1, by omega⟩
      rcases h.char s c fmt hs hne with ⟨t, hagain, ht⟩
      rw [iterate_again hagain]
      exact ih hfmt ht n (by omega)

theorem again (h : Scans pct body At Past Post) (hfmt : Closed pct fmt = true) (hs : At fmt s)
    {t : σ} (ht : body s = some (.again t)) : ∃ fmt', Closed pct fmt' = true ∧ At fmt' t := by
  cases fmt with
  | nil =>
      rcases h.stop s hs with ⟨r, hdone, -⟩
      rw [hdone] at ht
      cases ht
  | cons c fmt =>
      by_cases hc : c = pct
      · subst hc
        cases fmt with
        | nil => simp [Closed] at hfmt
        | cons c' fmt =>
            rcases h.directive s c' fmt hs with ⟨t', hagain, hat⟩
            rw [hagain] at ht
            cases ht
            exact ⟨fmt, (closed_directive c' fmt).symm.trans hfmt, hat⟩
      · rcases h.char s c fmt hs hc with ⟨t', hagain, hat⟩
        rw [hagain] at ht
        cases ht
        exact ⟨fmt, (closed_char hc fmt).symm.trans hfmt, hat⟩

/-- In every state that is visited a closed format is ahead. -/
theorem visits (h : Scans pct body At Past Post) (hfmt : Closed pct fmt = true) (hs : At fmt s)
    {t : σ} (hv : Visits body s t) : ∃ fmt', Closed pct fmt' = true ∧ At fmt' t := by
  induction hv with
  | refl => exact ⟨fmt, hfmt, hs⟩
  | tail _ hnext ih =>
      rcases ih with ⟨fmt', hclosed, hat⟩
      exact h.again hclosed hat hnext

/-- An open directive is gone past. -/
theorem past (h : Scans pct body At Past Post) (hfmt : Closed pct fmt = false) (hs : At fmt s) :
    ∃ t, Visits body s t ∧ Past t := by
  induction fmt using Closed.induct pct generalizing s with
  | case1 => simp [Closed] at hfmt
  | case2 =>
      rcases h.lone s hs with ⟨t, hagain, hpast⟩
      exact ⟨t, .single hagain, hpast⟩
  | case3 c fmt ih =>
      rw [closed_directive] at hfmt
      rcases h.directive s c fmt hs with ⟨t, hagain, hat⟩
      rcases ih hfmt hat with ⟨t', hv, hpast⟩
      exact ⟨t', .head hagain hv, hpast⟩
  | case4 c fmt hne ih =>
      rw [closed_char hne] at hfmt
      rcases h.char s c fmt hs hne with ⟨t, hagain, hat⟩
      rcases ih hfmt hat with ⟨t', hv, hpast⟩
      exact ⟨t', .head hagain hv, hpast⟩

end Scans

end Loop

end StupidOS
