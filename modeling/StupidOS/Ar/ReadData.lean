import StupidOS.Ar.Archive

/-!
# `read_data` and what `read` returns (`archive.c`)

`read_data` adds the value of every `read` to `total`, also the -1 of one that failed. Here its
loop runs on the results themselves, in any order, and keeps a record of what is stored where.
`readCalls_robust_iff` says for which results that is what a caller expects; the loop over a
file is such a run (`readData_calls`).
-/

namespace StupidOS.Ar

/-! ## Results -/

/-- The result of each call of `read`: -1, or the bytes it stores. -/
abbrev Results := Nat → Option (List Byte)

/-- The calls that failed, of the first `k`. -/
def failures (results : Results) : Nat → Nat
  | 0 => 0
  | k + 1 => failures results k + if results k = none then 1 else 0

/-- The bytes that came with the first `k` calls. -/
def delivered (results : Results) : Nat → Nat
  | 0 => 0
  | k + 1 => delivered results k + ((results k).getD []).length

/-- The bytes less the calls that failed. -/
def balance (results : Results) (k : Nat) : Int := delivered results k - failures results k

/-- No call gives more than the third argument of `read`, a `size_t`. -/
def Legal (results : Results) (size : Int) : Prop :=
  ∀ k bytes, results k = some bytes → (bytes.length : Int) ≤ (size - balance results k) % 2 ^ 64

/-! ## The loop -/

/-- The next call, the buffer, `total`, and what was stored at which distance from the start. -/
structure CallState where
  calls : Nat
  buff : Obj
  total : Int
  stores : List (Int × List Byte)

/-- The value that `read` returns. -/
def readValue : Option (List Byte) → Int
  | none => -1
  | some bytes => bytes.length

/-- One pass of the loop. -/
def callPass (results : Results) (off size : Int) (s : CallState) :
    Option (Pass CallState CallState) :=
  let rbytes := readValue (results s.calls)
  if rbytes = 0 then some (.done { s with calls := s.calls + 1 })
  else
    let s : CallState :=
      match results s.calls with
      | none => ⟨s.calls + 1, s.buff, s.total + rbytes, s.stores⟩
      | some bytes => ⟨s.calls + 1, s.buff.store (off + s.total) bytes, s.total + rbytes,
          s.stores ++ [(s.total, bytes)]⟩
    if s.total ≥ size then some (.done s) else some (.again s)

/-- `read_data` with these results. -/
def readCalls (results : Results) (fuel : Nat) (buff : Obj) (off size : Int) : Option CallState :=
  iterate (callPass results off size) fuel ⟨0, buff, 0, []⟩

/-- The value returned, an `int`. -/
def CallState.res (s : CallState) : Int := (BitVec.ofInt 32 s.total).toInt

/-! ## What a caller expects -/

/-- The bytes of some stores. -/
def storedBytes (stores : List (Int × List Byte)) : List Byte := stores.flatMap Prod.snd

/-- Each store begins where the one before ended, the first one `n` bytes from the start. -/
def Contiguous : Nat → List (Int × List Byte) → Prop
  | _, [] => True
  | n, (a, bytes) :: stores => a = n ∧ Contiguous (n + bytes.length) stores

/-- The stores are in the buffer, and the value is an error or the number of bytes, which are
one behind the other from the start of the buffer. -/
structure Robust (size : Int) (r : CallState) : Prop where
  inside : ∀ a bytes, (a, bytes) ∈ r.stores → 0 ≤ a ∧ a + bytes.length ≤ size
  value : r.res < 0 ∨ Contiguous 0 r.stores ∧ r.res = (storedBytes r.stores).length

/-- Stores one behind the other leave all the bytes. -/
theorem Contiguous.load {stores : List (Int × List Byte)} {n : Nat} (h : Contiguous n stores)
    (buff : Obj) (off : Int) :
    stores.foldl (fun o st => o.store (off + st.1) st.2) buff
      = buff.store (off + n) (storedBytes stores) := by
  induction stores generalizing n buff with
  | nil => exact (Obj.store_nil buff _).symm
  | cons st stores ih =>
      rcases st with ⟨a, bytes⟩
      rcases h with ⟨rfl, hrest⟩
      have hbytes : storedBytes ((n, bytes) :: stores) = bytes ++ storedBytes stores :=
        List.flatMap_cons
      rw [List.foldl_cons, ih hrest, hbytes, ← Obj.store_append, Int.natCast_add, Int.add_assoc]

/-! ## The run -/

variable (results : Results)

/-- Whether a call gives bytes. -/
def Delivers (k : Nat) : Prop := results k ≠ none ∧ results k ≠ some []

/-- What the first `k` calls store. -/
def storesTo : Nat → List (Int × List Byte)
  | 0 => []
  | k + 1 =>
    match results k with
    | none => storesTo k
    | some [] => storesTo k
    | some bytes => storesTo k ++ [(balance results k, bytes)]

/-- The loop goes on after each of the first `k` calls. -/
def Running (size : Int) (k : Nat) : Prop :=
  ∀ i, i < k → results i ≠ some [] ∧ balance results (i + 1) < size

/-- The loop ends with call `k`: at the end of the file, or with all the bytes. -/
def LastCall (size : Int) (k : Nat) : Prop :=
  Running results size k ∧ (results k = some [] ∨ size ≤ balance results (k + 1))

/-- The state before call `k`. -/
def stateAt (buff : Obj) (off : Int) (k : Nat) : CallState where
  calls := k
  buff := (storesTo results k).foldl (fun o st => o.store (off + st.1) st.2) buff
  total := balance results k
  stores := storesTo results k

variable {results}

theorem balance_succ (k : Nat) :
    balance results (k + 1) = balance results k + readValue (results k) := by
  rw [balance, balance, delivered, failures]
  cases results k with
  | none =>
      change ((delivered results k + 0 : Nat) : Int) - (failures results k + 1 : Nat) = _ + (-1)
      omega
  | some bytes =>
      rw [if_neg (by simp), readValue, Option.getD_some]
      omega

theorem readValue_eq_zero (r : Option (List Byte)) : readValue r = 0 ↔ r = some [] := by
  cases r with
  | none => decide
  | some bytes =>
      rw [readValue, Int.natCast_eq_zero, List.length_eq_zero_iff, Option.some.injEq]

theorem storesTo_done {k : Nat} (h : results k = some []) :
    storesTo results (k + 1) = storesTo results k := by
  rw [storesTo, h]

variable (results) in
/-- What a pass does to the state before it. -/
theorem callPass_cases (buff : Obj) (off size : Int) (k : Nat) :
    results k = some [] ∧
        callPass results off size (stateAt results buff off k)
          = some (.done (stateAt results buff off (k + 1))) ∨
      results k ≠ some [] ∧
        callPass results off size (stateAt results buff off k)
          = if balance results (k + 1) ≥ size then some (.done (stateAt results buff off (k + 1)))
            else some (.again (stateAt results buff off (k + 1))) := by
  have hbalance := @balance_succ results k
  unfold callPass
  dsimp only [stateAt]
  by_cases hzero : results k = some []
  · left
    rw [if_pos ((readValue_eq_zero _).mpr hzero), storesTo_done hzero, hbalance,
      (readValue_eq_zero _).mpr hzero, Int.add_zero]
    exact ⟨hzero, rfl⟩
  · right
    rw [if_neg (fun h => hzero ((readValue_eq_zero _).mp h)), hbalance, storesTo]
    refine ⟨hzero, ?_⟩
    cases hres : results k with
    | none => rfl
    | some bytes =>
        cases bytes with
        | nil => exact absurd hres hzero
        | cons b bytes =>
            dsimp only
            rw [List.foldl_append]
            rfl

/-- The run up to some call. -/
theorem iterate_stateAt (buff : Obj) (off : Int) {size : Int} {k : Nat}
    (h : Running results size k) (fuel : Nat) :
    iterate (callPass results off size) (k + fuel) (stateAt results buff off 0)
      = iterate (callPass results off size) fuel (stateAt results buff off k) := by
  induction k generalizing fuel with
  | zero => rw [Nat.zero_add]
  | succ k ih =>
      have hk := h k (Nat.lt_succ_self k)
      have hbefore : Running results size k := fun i hi => h i (Nat.lt_succ_of_lt hi)
      have hpass := callPass_cases results buff off size k
      rcases hpass with ⟨hzero, -⟩ | ⟨-, hpass⟩
      · exact absurd hzero hk.1
      · rw [if_neg (by omega)] at hpass
        rw [Nat.succ_add_eq_add_succ, ih hbefore, iterate_again hpass]

/-- The loop ends with the state behind the last call, and not without one. -/
theorem readCalls_iff (buff : Obj) (off size : Int) (r : CallState) :
    (∃ fuel, readCalls results fuel buff off size = some r) ↔
      ∃ k, LastCall results size k ∧ r = stateAt results buff off (k + 1) := by
  have hlast : ∀ k, LastCall results size k →
      readCalls results (k + 1) buff off size = some (stateAt results buff off (k + 1)) := by
    intro k h
    have hrun := iterate_stateAt buff off h.1 1
    have hpass := callPass_cases results buff off size k
    rcases hpass with ⟨-, hpass⟩ | ⟨hzero, hpass⟩
    · exact hrun.trans (iterate_done hpass 0)
    · rw [if_pos (h.2.resolve_left hzero)] at hpass
      exact hrun.trans (iterate_done hpass 0)
  constructor
  · rintro ⟨fuel, hr⟩
    by_contra hnone
    by_cases hany : ∃ k, LastCall results size k
    · rcases hany with ⟨k, hk⟩
      exact hnone ⟨k, hk, iterate_unique hr (hlast k hk)⟩
    · -- no call is the last one, so the loop goes on for ever
      have hdiv : readCalls results fuel buff off size = none := by
        refine iterate_diverges
          (fun s => ∃ k, Running results size k ∧ s = stateAt results buff off k) ?_
          ⟨0, fun i hi => absurd hi (Nat.not_lt_zero i), rfl⟩ fuel
        rintro s ⟨k, hrunning, rfl⟩
        have hmore : ¬ (results k = some [] ∨ size ≤ balance results (k + 1)) :=
          fun h => hany ⟨k, hrunning, h⟩
        rcases not_or.mp hmore with ⟨hzero, hlt⟩
        have hpass := callPass_cases results buff off size k
        rcases hpass with ⟨h, -⟩ | ⟨-, hpass⟩
        · exact absurd h hzero
        · rw [if_neg (by omega)] at hpass
          refine ⟨_, hpass, k + 1, ?_, rfl⟩
          intro i hi
          rcases Nat.lt_succ_iff_lt_or_eq.mp hi with hi | rfl
          · exact hrunning i hi
          · exact ⟨hzero, by omega⟩
      rw [hdiv] at hr
      cases hr
  · rintro ⟨k, hk, rfl⟩
    exact ⟨k + 1, hlast k hk⟩

/-! ## The stores -/

theorem mem_storesTo {k : Nat} {a : Int} {bytes : List Byte} :
    (a, bytes) ∈ storesTo results k ↔
      ∃ i, i < k ∧ results i = some bytes ∧ bytes ≠ [] ∧ a = balance results i := by
  induction k with
  | zero =>
      constructor
      · intro h
        cases h
      · rintro ⟨i, hi, -⟩
        exact absurd hi (Nat.not_lt_zero i)
  | succ k ih =>
      have hlt : ∀ P : Nat → Prop, (∃ i, i < k + 1 ∧ P i) ↔ (∃ i, i < k ∧ P i) ∨ P k :=
        fun P => Nat.exists_lt_succ_right
      rw [hlt, ← ih, storesTo]
      cases hres : results k with
      | none =>
          dsimp only
          simp
      | some bs =>
          cases bs with
          | nil =>
              dsimp only
              rw [iff_self_or]
              rintro ⟨hbytes, hne, -⟩
              exact absurd (Option.some.inj hbytes).symm hne
          | cons b bs =>
              dsimp only
              rw [List.mem_append, List.mem_singleton, Prod.mk.injEq, Option.some.injEq]
              refine or_congr_right ⟨?_, ?_⟩
              · rintro ⟨rfl, rfl⟩
                exact ⟨rfl, List.cons_ne_nil b bs, rfl⟩
              · rintro ⟨rfl, -, ha⟩
                exact ⟨ha, rfl⟩

theorem storedBytes_append (stores : List (Int × List Byte)) (a : Int) (bytes : List Byte) :
    storedBytes (stores ++ [(a, bytes)]) = storedBytes stores ++ bytes := by
  rw [storedBytes, List.flatMap_append, List.flatMap_singleton, storedBytes]

theorem length_storedBytes (k : Nat) :
    (storedBytes (storesTo results k)).length = delivered results k := by
  induction k with
  | zero => rfl
  | succ k ih =>
      rw [storesTo, delivered]
      cases results k with
      | none => exact ih
      | some bs =>
          cases bs with
          | nil => exact ih
          | cons b bs =>
              dsimp only
              rw [storedBytes_append, List.length_append, ih]
              rfl

theorem contiguous_append {n : Nat} (stores : List (Int × List Byte)) (a : Int)
    (bytes : List Byte) : Contiguous n (stores ++ [(a, bytes)]) ↔
      Contiguous n stores ∧ a = (n + (storedBytes stores).length : Nat) := by
  induction stores generalizing n with
  | nil =>
      change a = (n : Int) ∧ True ↔ True ∧ a = (n + 0 : Nat)
      rw [and_comm, Nat.add_zero]
  | cons st stores ih =>
      rcases st with ⟨a', bytes'⟩
      have hbytes : storedBytes ((a', bytes') :: stores) = bytes' ++ storedBytes stores :=
        List.flatMap_cons
      rw [List.cons_append, Contiguous, Contiguous, ih, hbytes, List.length_append, and_assoc,
        Nat.add_assoc]

/-- The bytes are one behind the other if no call failed before some of them. -/
theorem contiguous_storesTo (k : Nat) : Contiguous 0 (storesTo results k) ↔
    ∀ i, i < k → Delivers results i → failures results i = 0 := by
  induction k with
  | zero => exact ⟨fun _ i hi => absurd hi (Nat.not_lt_zero i), fun _ => trivial⟩
  | succ k ih =>
      have hlt : (∀ i, i < k + 1 → Delivers results i → failures results i = 0) ↔
          (∀ i, i < k → Delivers results i → failures results i = 0) ∧
            (Delivers results k → failures results k = 0) := Nat.forall_lt_succ_right
      rw [hlt, ← ih, storesTo, Delivers]
      cases results k with
      | none => simp
      | some bs =>
          cases bs with
          | nil => simp
          | cons b bs =>
              dsimp only
              rw [contiguous_append, length_storedBytes, balance]
              refine and_congr_right fun _ => ⟨fun h _ => by omega, fun h => ?_⟩
              have hzero := h ⟨by simp, by simp⟩
              omega

/-! ## When the value is right -/

/-- The results that `read_data` can deal with. They come to an end, and no call fails before
some bytes, or no bytes come when more calls have failed than bytes have come; and in the first
case the number of bytes is a positive `int`, in the second the bytes less the calls that failed
are a negative one. -/
def Harmless (results : Results) (size : Int) : Prop :=
  ∃ k, LastCall results size k ∧
    ((∀ i, i ≤ k → Delivers results i → failures results i = 0) ∧
        failures results (k + 1) % 2 ^ 32 = 0 ∧ delivered results (k + 1) < 2 ^ 31 ∨
      (∀ i, i ≤ k → Delivers results i → failures results i ≤ delivered results i) ∧
        2 ^ 31 ≤ balance results (k + 1) % 2 ^ 32)

theorem toInt_neg_iff (total : Int) :
    (BitVec.ofInt 32 total).toInt < 0 ↔ 2 ^ 31 ≤ total % 2 ^ 32 := by
  rw [BitVec.toInt_ofInt, Int.bmod_def]
  omega

theorem toInt_eq_iff (d f : Nat) :
    (BitVec.ofInt 32 ((d : Int) - f)).toInt = d ↔ f % 2 ^ 32 = 0 ∧ d < 2 ^ 31 := by
  rw [BitVec.toInt_ofInt, Int.bmod_def]
  omega

/-- The stores are in the buffer if none of them is in front of it. -/
theorem storesTo_inside {size : Int} (hsize : 0 ≤ size) (hlegal : Legal results size) {k : Nat}
    (hrunning : Running results size k) :
    (∀ a bytes, (a, bytes) ∈ storesTo results (k + 1) → 0 ≤ a ∧ a + bytes.length ≤ size) ↔
      ∀ i, i ≤ k → Delivers results i → failures results i ≤ delivered results i := by
  constructor
  · intro h i hi hdelivers
    rcases Option.ne_none_iff_exists'.mp hdelivers.1 with ⟨bytes, hbytes⟩
    have hne : bytes ≠ [] := by
      rintro rfl
      exact hdelivers.2 hbytes
    have hstore := h _ bytes (mem_storesTo.mpr ⟨i, Nat.lt_succ_of_le hi, hbytes, hne, rfl⟩)
    rw [balance] at hstore
    omega
  · rintro h a bytes hmem
    rcases mem_storesTo.mp hmem with ⟨i, hi, hbytes, hne, rfl⟩
    have hfront := h i (Nat.le_of_lt_succ hi) ⟨by simp [hbytes], by simp [hbytes, hne]⟩
    have hcount := hlegal i bytes hbytes
    -- what is left of the buffer before the call
    have hleft : balance results i ≤ size := by
      cases i with
      | zero => exact hsize
      | succ i => exact Int.le_of_lt (hrunning i (Nat.lt_of_succ_lt_succ hi)).2
    have hnonneg : 0 ≤ balance results i := by
      rw [balance]
      omega
    omega

/-- The bytes that are one behind the other are in the buffer. -/
theorem readCalls_buff {buff : Obj} {off size : Int} {fuel : Nat} {r : CallState}
    (hr : readCalls results fuel buff off size = some r) (h : Contiguous 0 r.stores) :
    r.buff = buff.store off (storedBytes r.stores) := by
  rcases (readCalls_iff buff off size r).mp ⟨fuel, hr⟩ with ⟨k, -, rfl⟩
  have hload := Contiguous.load h buff off
  rw [Int.natCast_zero, Int.add_zero] at hload
  exact hload

/-- **`read_data`.** For every size and all results that `read` can give, the loop ends, stores in
the buffer only, and returns the number of bytes that are in it from its start on, or an error,
exactly if the results are harmless. -/
theorem readCalls_robust_iff {size : Int} (hsize : 0 ≤ size) (results : Results)
    (hlegal : Legal results size) (buff : Obj) (off : Int) :
    (∃ fuel r, readCalls results fuel buff off size = some r ∧ Robust size r) ↔
      Harmless results size := by
  have hvalue : ∀ k, (stateAt results buff off (k + 1)).res
      = (BitVec.ofInt 32 ((delivered results (k + 1) : Int) - failures results (k + 1))).toInt :=
    fun _ => rfl
  have hlt : ∀ k, (∀ i, i < k + 1 → Delivers results i → failures results i = 0) ↔
      ∀ i, i ≤ k → Delivers results i → failures results i = 0 := by
    intro k
    simp only [Nat.lt_succ_iff]
  constructor
  · rintro ⟨fuel, r, hr, hrobust⟩
    rcases (readCalls_iff buff off size r).mp ⟨fuel, hr⟩ with ⟨k, hk, rfl⟩
    refine ⟨k, hk, ?_⟩
    rcases hrobust.value with hneg | ⟨hcontiguous, hcount⟩
    · right
      refine ⟨(storesTo_inside hsize hlegal hk.1).mp hrobust.inside, ?_⟩
      exact (toInt_neg_iff _).mp hneg
    · left
      refine ⟨(hlt k).mp ((contiguous_storesTo (k + 1)).mp hcontiguous), ?_⟩
      rw [hvalue] at hcount
      change _ = ((storedBytes (storesTo results (k + 1))).length : Int) at hcount
      rw [length_storedBytes] at hcount
      exact (toInt_eq_iff _ _).mp hcount
  · rintro ⟨k, hk, hcases⟩
    rcases (readCalls_iff buff off size _).mpr ⟨k, hk, rfl⟩ with ⟨fuel, hr⟩
    refine ⟨fuel, _, hr, (storesTo_inside hsize hlegal hk.1).mpr ?_, ?_⟩
    · intro i hi hdelivers
      rcases hcases with ⟨hnone, -⟩ | ⟨hfront, -⟩
      · rw [hnone i hi hdelivers]
        exact Nat.zero_le _
      · exact hfront i hi hdelivers
    · rcases hcases with ⟨hnone, hcount⟩ | ⟨-, hneg⟩
      · right
        refine ⟨(contiguous_storesTo (k + 1)).mpr ((hlt k).mpr hnone), ?_⟩
        change _ = ((storedBytes (storesTo results (k + 1))).length : Int)
        rw [hvalue, length_storedBytes]
        exact (toInt_eq_iff _ _).mpr hcount
      · left
        exact (toInt_neg_iff _).mpr hneg

/-- Three bytes, and the end of the file. -/
def demoResults : Results := fun k => if k = 0 then some [1, 2, 3] else some []

theorem readCalls_robust_iff_demo :
    (∃ fuel r, readCalls demoResults fuel (fun _ => 0) 0 3 = some r ∧ Robust 3 r) ↔
      Harmless demoResults 3 := by
  refine readCalls_robust_iff (by decide) demoResults ?_ (fun _ => 0) 0
  intro k bytes hbytes
  cases k with
  | zero =>
      rw [← Option.some.inj hbytes]
      decide
  | succ k =>
      rw [← Option.some.inj hbytes]
      exact Int.emod_nonneg _ (by decide)

/-- While `read` fails, the loop goes on. -/
theorem readCalls_counterexample :
    ¬ ∀ (size : Int) (results : Results) (buff : Obj) (off : Int), 0 ≤ size →
      Legal results size →
        ∃ fuel r, readCalls results fuel buff off size = some r ∧ Robust size r := by
  intro h
  rcases h sarmag (fun _ => none) (fun _ => 0) 0 (by decide) (fun _ _ hbytes => by cases hbytes) with
    ⟨fuel, r, hr, -⟩
  have hdiv : readCalls (fun _ => none) fuel (fun _ => 0) 0 sarmag = none := by
    refine iterate_diverges (fun s => s.total ≤ 0) ?_ (Int.le_refl 0) fuel
    intro s hs
    have hsar : (sarmag : Int) = 8 := rfl
    refine ⟨⟨s.calls + 1, s.buff, s.total + -1, s.stores⟩, ?_, ?_⟩
    · change (if s.total + -1 ≥ sarmag then _ else _) = _
      rw [if_neg (by omega)]
      rfl
    · dsimp only
      omega
  rw [hdiv] at hr
  cases hr

/-! ## Files -/

variable (sys : Nat → ReadResult) (size : Int)

/-- The file and `total` after a call of `read`. -/
def fdNext (s : Fd × Int) : Fd × Int :=
  let (rbytes, _, fd) := s.1.read sys ((size - s.2) % 2 ^ 64).toNat
  (fd, s.2 + rbytes)

/-- The results of the calls on a file, if they all take place. -/
def fdResults (fd : Fd) : Results := fun k =>
  let s := (fdNext sys size)^[k] (fd, 0)
  let (rbytes, bytes, _) := s.1.read sys ((size - s.2) % 2 ^ 64).toNat
  if rbytes = -1 then none else some bytes

theorem read_cases (fd : Fd) (count : Nat) :
    (∃ fd', fd.read sys count = (-1, [], fd')) ∨
      ∃ (bytes : List Byte) (fd' : Fd), bytes.length ≤ count ∧
        fd.read sys count = ((bytes.length : Int), bytes, fd') := by
  rw [Fd.read]
  cases sys fd.calls with
  | fail => exact Or.inl ⟨_, rfl⟩
  | upTo n =>
      refine Or.inr ⟨_, _, ?_, rfl⟩
      rw [List.length_take]
      omega

/-- What a call gives, and what it leaves. -/
theorem fdResults_cases (fd : Fd) (k : Nat) :
    (∃ fd', ((fdNext sys size)^[k] (fd, 0)).1.read sys
          ((size - ((fdNext sys size)^[k] (fd, 0)).2) % 2 ^ 64).toNat = (-1, [], fd') ∧
        fdResults sys size fd k = none ∧
        (fdNext sys size)^[k + 1] (fd, 0) = (fd', ((fdNext sys size)^[k] (fd, 0)).2 + -1)) ∨
      ∃ (bytes : List Byte) (fd' : Fd), ((fdNext sys size)^[k] (fd, 0)).1.read sys
          ((size - ((fdNext sys size)^[k] (fd, 0)).2) % 2 ^ 64).toNat
            = ((bytes.length : Int), bytes, fd') ∧
        fdResults sys size fd k = some bytes ∧
        (fdNext sys size)^[k + 1] (fd, 0)
          = (fd', ((fdNext sys size)^[k] (fd, 0)).2 + bytes.length) ∧
        (bytes.length : Int) ≤ (size - ((fdNext sys size)^[k] (fd, 0)).2) % 2 ^ 64 := by
  rw [Function.iterate_succ_apply', fdResults, fdNext]
  generalize (fdNext sys size)^[k] (fd, 0) = s
  rcases read_cases sys s.1 ((size - s.2) % 2 ^ 64).toNat with ⟨fd', hread⟩ |
    ⟨bytes, fd', hlen, hread⟩
  · left
    rw [hread]
    exact ⟨fd', rfl, rfl, rfl⟩
  · right
    rw [hread]
    refine ⟨bytes, fd', rfl, if_neg (by omega), rfl, by omega⟩

theorem balance_fdResults (fd : Fd) (k : Nat) :
    balance (fdResults sys size fd) k = ((fdNext sys size)^[k] (fd, 0)).2 := by
  induction k with
  | zero => rfl
  | succ k ih =>
      rw [balance_succ, ih]
      rcases fdResults_cases sys size fd k with ⟨fd', -, hres, hnext⟩ |
        ⟨bytes, fd', -, hres, hnext, -⟩ <;> rw [hres, hnext] <;> rfl

/-- The loop over a file is a run on its results. -/
theorem readData_calls (fd : Fd) : Legal (fdResults sys size fd) size ∧ ∀ fuel buff off,
    (readData sys fuel fd buff off size).map (fun s => (s.buff, s.total))
      = (readCalls (fdResults sys size fd) fuel buff off size).map (fun s => (s.buff, s.total)) := by
  constructor
  · intro k bytes hbytes
    rw [balance_fdResults]
    rcases fdResults_cases sys size fd k with ⟨fd', -, hres, -⟩ | ⟨bytes', fd', -, hres, -, hlen⟩
    · rw [hres] at hbytes
      cases hbytes
    · rw [hbytes, Option.some.injEq] at hres
      rw [hres]
      exact hlen
  · intro fuel buff off
    -- the state before call `k`, with any buffer
    have hrun : ∀ k b stores,
        (iterate (readPass sys off size) fuel
          ⟨((fdNext sys size)^[k] (fd, 0)).1, b, ((fdNext sys size)^[k] (fd, 0)).2⟩).map
            (fun s => (s.buff, s.total))
        = (iterate (callPass (fdResults sys size fd) off size) fuel
          ⟨k, b, ((fdNext sys size)^[k] (fd, 0)).2, stores⟩).map (fun s => (s.buff, s.total)) := by
      induction fuel with
      | zero => exact fun _ _ _ => rfl
      | succ fuel ih =>
          intro k b stores
          rw [iterate, iterate, readPass, callPass]
          dsimp only
          rcases fdResults_cases sys size fd k with ⟨fd', hread, hres, hnext⟩ |
            ⟨bytes, fd', hread, hres, hnext, -⟩
          · have hnext' := ih (k + 1) b stores
            rw [hnext] at hnext'
            dsimp only at hnext'
            have hfail : ¬ readValue none = 0 := by decide
            have hneg : ¬ (-1 : Int) = 0 := by decide
            rw [hread, hres]
            dsimp only
            rw [if_neg hfail, if_neg hneg, Obj.store_nil]
            by_cases hge : ((fdNext sys size)^[k] (fd, 0)).2 + -1 ≥ size
            · rw [if_pos hge, if_pos (show _ + readValue none ≥ size from hge)]
              rfl
            · rw [if_neg hge, if_neg (show ¬ _ + readValue none ≥ size from hge)]
              exact hnext'
          · rw [hread, hres]
            dsimp only
            by_cases hzero : (bytes.length : Int) = 0
            · rw [if_pos hzero, if_pos (show readValue (some bytes) = 0 from hzero)]
              rfl
            · have hnext' := ih (k + 1)
                (b.store (off + ((fdNext sys size)^[k] (fd, 0)).2) bytes)
                (stores ++ [(((fdNext sys size)^[k] (fd, 0)).2, bytes)])
              rw [hnext] at hnext'
              dsimp only at hnext'
              rw [if_neg hzero, if_neg (show ¬ readValue (some bytes) = 0 from hzero)]
              by_cases hge : ((fdNext sys size)^[k] (fd, 0)).2 + bytes.length ≥ size
              · rw [if_pos hge, if_pos (show _ + readValue (some bytes) ≥ size from hge)]
                rfl
              · rw [if_neg hge, if_neg (show ¬ _ + readValue (some bytes) ≥ size from hge)]
                exact hnext'
    exact hrun 0 buff []

end StupidOS.Ar
