import StupidOS.Boot.Bios

/-!
# Selecting the boot partition (`bootsect/mbr.asm`, `common/mbr.inc`)

The search loop of the MBR looks for an active entry of the partition table. The addresses
that it examines are recorded. Its stride is one less than the size of an entry, and the
end test (`test eax, ecx`) is not a comparison with `PT4`: the loop ends at the first
address that shares no bit with it.
-/

namespace StupidOS.Boot

/-! ## The search loop -/

/-- `PT1`: the labels start at `MBR_BASE`, and the table follows the ten letters of `UID`. -/
def pt1 : Word := 0x600 + 0x1A8 + 10

/-- `PT4` -/
def pt4 : Word := pt1 + 48

/-- Offset of `Partition.lba`. -/
def partitionLba : Nat := 8

structure MbrState where
  eax : Word
  ecx : Word
  mem : Bytes
  /-- `disk_packet_lba` -/
  packetLba : Word
  /-- The addresses that the loop has read a status byte from. -/
  examined : List Nat

/-- Where the loop leaves to. -/
inductive MbrExit where
  | found (s : MbrState)
  | errorNoBootable (s : MbrState)

def MbrExit.state : MbrExit → MbrState
  | .found s => s
  | .errorNoBootable s => s

/-- `.found`, up to the read of the partition. -/
def mbrFound (s : MbrState) : MbrState :=
  let s := { s with eax := s.mem.word (s.ecx.toNat + partitionLba) }
  { s with packetLba := s.eax }

/-- `mov al, byte [ecx]` -/
def mbrExamine (s : MbrState) : MbrState :=
  { s with
    eax := setLo s.eax (highByte s.eax ++ s.mem s.ecx.toNat)
    examined := s.examined ++ [s.ecx.toNat] }

/-- One pass of `.loop`. -/
def mbrPass (s : MbrState) : Option (Pass MbrState MbrExit) :=
  let s := mbrExamine s
  -- `bt ax, 7`
  if (lo s.eax).getLsbD 7 then some (.done (.found (mbrFound s)))
  else
    let s := { s with eax := pt4 }
    if s.eax &&& s.ecx = 0 then some (.done (.errorNoBootable s))
    else some (.again { s with ecx := setLo s.ecx (lo s.ecx + 0xF) })

/-- The loop from `lea ecx, [PT1]` on. -/
def mbrSearch (fuel : Nat) (s : MbrState) : Option MbrExit :=
  iterate mbrPass fuel { s with ecx := pt1, examined := [] }

/-! ## The partition table -/

/-- The address of entry `i`, which is that of its status byte. -/
def ptAddr (i : Nat) : Nat := pt1.toNat + 16 * i

/-- Bit 7 of the status byte is set. -/
def ActiveEntry (m : Bytes) (i : Nat) : Prop := (m (ptAddr i)).getLsbD 7 = true

instance (m : Bytes) (i : Nat) : Decidable (ActiveEntry m i) :=
  inferInstanceAs (Decidable (_ = true))

/-- The search does what a boot loader needs. -/
structure MbrSelects (s : MbrState) (e : MbrExit) : Prop where
  first : ∀ i, i < 4 → ActiveEntry s.mem i → (∀ j, j < i → ¬ ActiveEntry s.mem j) →
    ∃ t, e = .found t ∧ t.packetLba = s.mem.word (ptAddr i + partitionLba)
  none : (∃ t, e = .errorNoBootable t) ↔ ∀ i, i < 4 → ¬ ActiveEntry s.mem i
  examined : ∀ a ∈ e.state.examined, ∃ i, i < 4 ∧ a = ptAddr i

/-! ## The addresses of the loop -/

/-- The address of pass `j`. -/
def stepAddr (j : Nat) : Word := pt1 + BitVec.ofNat 32 (15 * j)

theorem stepAddr_next {j : Nat} (hj : j < 6) :
    setLo (stepAddr j) (lo (stepAddr j) + 0xF) = stepAddr (j + 1) := by
  have hall : ∀ i : Fin 6, setLo (stepAddr i) (lo (stepAddr i) + 0xF) = stepAddr (i + 1) := by
    decide
  exact hall ⟨j, hj⟩

/-- The first address that shares no bit with `PT4` is the seventh. -/
theorem stepAddr_stop {j : Nat} (hj : j < 7) : pt4 &&& stepAddr j = 0 ↔ j = 6 := by
  have hall : ∀ i : Fin 7, pt4 &&& stepAddr i = 0 ↔ i = 6 := by decide
  have hi := hall ⟨j, hj⟩
  rw [hi, Fin.ext_iff]
  rfl

/-! ## One pass -/

theorem mbrExamine_bit (s : MbrState) :
    (lo (mbrExamine s).eax).getLsbD 7 = (s.mem s.ecx.toNat).getLsbD 7 := by
  rw [mbrExamine, lo_setLo, BitVec.getLsbD_append]
  rfl

theorem mbrPass_found {s : MbrState} (h : (s.mem s.ecx.toNat).getLsbD 7 = true) :
    mbrPass s = some (.done (.found (mbrFound (mbrExamine s)))) := by
  simp only [mbrPass, mbrExamine_bit, h, if_true]

theorem mbrPass_stop {s : MbrState} (h : ¬ (s.mem s.ecx.toNat).getLsbD 7 = true)
    (hstop : pt4 &&& s.ecx = 0) :
    mbrPass s = some (.done (.errorNoBootable { mbrExamine s with eax := pt4 })) := by
  simp only [mbrPass, mbrExamine_bit, h, Bool.false_eq_true, if_false]
  exact if_pos hstop

theorem mbrPass_again {s : MbrState} (h : ¬ (s.mem s.ecx.toNat).getLsbD 7 = true)
    (hgo : ¬ pt4 &&& s.ecx = 0) :
    mbrPass s = some (.again { mbrExamine s with
      eax := pt4, ecx := setLo s.ecx (lo s.ecx + 0xF) }) := by
  simp only [mbrPass, mbrExamine_bit, h, Bool.false_eq_true, if_false]
  exact if_neg hgo

/-- What has been examined after a pass. -/
def passExamined : Pass MbrState MbrExit → List Nat
  | .again s => s.examined
  | .done e => e.state.examined

/-- Every pass examines one more address. -/
theorem mbrPass_examined {s : MbrState} {p : Pass MbrState MbrExit} (h : mbrPass s = some p) :
    passExamined p = s.examined ++ [s.ecx.toNat] := by
  by_cases hbit : (s.mem s.ecx.toNat).getLsbD 7 = true
  · rw [mbrPass_found hbit] at h
    cases h
    rfl
  · by_cases hstop : pt4 &&& s.ecx = 0
    · rw [mbrPass_stop hbit hstop] at h
      cases h
      rfl
    · rw [mbrPass_again hbit hstop] at h
      cases h
      rfl

/-! ## The whole search -/

/-- The search ends after at most seven passes, whatever the table holds. -/
theorem mbrSearch_terminates (s : MbrState) : ∃ e, mbrSearch 7 s = some e := by
  have hrun : ∃ e, mbrSearch 7 s = some e ∧ True := by
    apply iterate_total (k := 6) (fun m t => ∃ j, j + m = 6 ∧ t.ecx = stepAddr j)
      (fun _ => True) ?_ ⟨0, rfl, rfl⟩ (by omega)
    intro m t hinv
    rcases hinv with ⟨j, hjm, hecx⟩
    by_cases hbit : (t.mem t.ecx.toNat).getLsbD 7 = true
    · exact Or.inl ⟨_, mbrPass_found hbit, trivial⟩
    · have hlast := stepAddr_stop (j := j) (by omega)
      by_cases hj : j = 6
      · have hstop : pt4 &&& t.ecx = 0 := by
          rw [hecx]
          exact hlast.mpr hj
        exact Or.inl ⟨_, mbrPass_stop hbit hstop, trivial⟩
      · have hgo : ¬ pt4 &&& t.ecx = 0 := by
          rw [hecx]
          exact fun h => hj (hlast.mp h)
        refine Or.inr ⟨_, m - 1, mbrPass_again hbit hgo, by omega, j + 1, by omega, ?_⟩
        change setLo t.ecx (lo t.ecx + 0xF) = stepAddr (j + 1)
        rw [hecx]
        exact stepAddr_next (by omega)
  rcases hrun with ⟨e, he, _⟩
  exact ⟨e, he⟩

/-- The address that the loop is at will have been examined. -/
theorem mbr_run_examined {fuel : Nat} {s : MbrState} {e : MbrExit}
    (h : iterate mbrPass fuel s = some e) : s.ecx.toNat ∈ e.state.examined := by
  have hgrow : ∀ t p, (t = s ∨ s.ecx.toNat ∈ t.examined) → mbrPass t = some p →
      s.ecx.toNat ∈ passExamined p := by
    intro t p ht hp
    rw [mbrPass_examined hp]
    rcases ht with heq | hmem
    · rw [heq]
      exact List.mem_append_right _ List.mem_cons_self
    · exact List.mem_append_left _ hmem
  apply iterate_sound (fun t => t = s ∨ s.ecx.toNat ∈ t.examined)
    (fun e => s.ecx.toNat ∈ e.state.examined) ?_ ?_ (Or.inl rfl) h
  · intro t u ht hp
    exact Or.inr (hgrow t _ ht hp)
  · intro t u ht hp
    exact hgrow t _ ht hp

/-- The state in which the loop starts. -/
def mbrStart (s : MbrState) : MbrState := { s with ecx := pt1, examined := [] }

theorem mbrSearch_eq (fuel : Nat) (s : MbrState) :
    mbrSearch fuel s = iterate mbrPass fuel (mbrStart s) := rfl

/-- The loop starts at the first entry. -/
theorem activeEntry_zero (s : MbrState) : ActiveEntry s.mem 0 ↔
    ((mbrStart s).mem (mbrStart s).ecx.toNat).getLsbD 7 = true := by
  rw [ActiveEntry, ptAddr, Nat.mul_zero, Nat.add_zero]
  rfl

/-- An active first entry is selected at once. -/
theorem mbrSearch_first {s : MbrState} (hactive : ActiveEntry s.mem 0) (fuel : Nat) :
    mbrSearch (fuel + 1) s = some (.found (mbrFound (mbrExamine (mbrStart s)))) := by
  rw [mbrSearch_eq]
  exact iterate_done (mbrPass_found ((activeEntry_zero s).mp hactive)) fuel

/-- Otherwise the second byte examined is the last one of the first entry. -/
theorem mbrSearch_second {s : MbrState} (hactive : ¬ ActiveEntry s.mem 0) {fuel : Nat}
    {e : MbrExit} (h : mbrSearch (fuel + 1) s = some e) : ptAddr 0 + 15 ∈ e.state.examined := by
  have hgo : ¬ pt4 &&& (mbrStart s).ecx = 0 := by
    change ¬ pt4 &&& pt1 = 0
    decide
  rw [activeEntry_zero] at hactive
  rw [mbrSearch_eq, iterate_again (mbrPass_again hactive hgo)] at h
  have hsecond : (setLo pt1 (lo pt1 + 0xF)).toNat = ptAddr 0 + 15 := by decide
  rw [← hsecond]
  exact mbr_run_examined h

/-- **Selecting the boot partition.** The search always ends, and it selects the first
active entry, looking at status bytes only, exactly when that is the first of the table. -/
theorem mbrSearch_iff (s : MbrState) :
    ∃ e, mbrSearch 7 s = some e ∧ (MbrSelects s e ↔ ActiveEntry s.mem 0) := by
  rcases mbrSearch_terminates s with ⟨e, he⟩
  refine ⟨e, he, ?_⟩
  constructor
  · intro h
    by_contra hactive
    rcases h.examined _ (mbrSearch_second hactive he) with ⟨i, _, hi⟩
    rw [ptAddr, ptAddr] at hi
    omega
  · intro hactive
    have hfound : e = _ := Option.some.inj (he.symm.trans (mbrSearch_first hactive 6))
    subst hfound
    refine ⟨?_, ?_, ?_⟩
    · intro i hi _ hbefore
      have hzero : i = 0 := by
        by_contra hne
        exact hbefore 0 (by omega) hactive
      subst hzero
      exact ⟨_, rfl, rfl⟩
    · refine iff_of_false ?_ (fun hnone => hnone 0 (by omega) hactive)
      intro h
      rcases h with ⟨t, ht⟩
      cases ht
    · intro a ha
      exact ⟨0, by omega, List.mem_singleton.mp ha⟩

/-- A table whose second entry only is active. -/
def secondActive : MbrState where
  eax := 0
  ecx := 0
  mem := fun a => if a = ptAddr 1 then 0x80 else 0
  packetLba := 0
  examined := []

/-- It is not found, and six of the seven bytes examined are no status bytes. -/
theorem mbrSearch_counterexample :
    ∃ t, mbrSearch 7 secondActive = some (.errorNoBootable t) ∧
      t.examined = [0x7B2, 0x7C1, 0x7D0, 0x7DF, 0x7EE, 0x7FD, 0x80C] ∧
      ¬ MbrSelects secondActive (.errorNoBootable t) := by
  refine ⟨_, rfl, by decide, ?_⟩
  intro h
  exact h.none.mp ⟨_, rfl⟩ 1 (by decide) (by decide)

end StupidOS.Boot
