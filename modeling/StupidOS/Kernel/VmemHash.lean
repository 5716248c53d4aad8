import StupidOS.Lib.Mixing
import StupidOS.Kernel.VmemSearch

/-!
# Addresses and sizes in an arena (`kernel/mm/vmem.inc`)

The hash table slot of an address, and the free list of a size. No address is favoured: the hash
is a bijection, so the 16 buckets get as many addresses each. And of the two roundings of a size
the one down is sound for filing a segment, the one up for taking it without a look at its size.
-/

namespace StupidOS.Kernel

/-! ## The hash table -/

/-- `VMEM_HASHTABLE_N` -/
def vmemHashtableN : Word := 16

/-- `_vmem_hashtable_hash`: EAX on return. Of the products only the low word is used. -/
def vmemHashtableHash (eax : Word) : Word :=
  -- hash ← hash XOR (hash >> 16)
  let ecx := eax >>> 16
  let eax := eax ^^^ ecx
  -- hash ← hash × 0x85ebca6b
  let eax := eax * 0x85ebca6b
  -- hash ← hash XOR (hash >> 13)
  let ecx := eax >>> 13
  let eax := eax ^^^ ecx
  -- hash ← hash × 0xc2b2ae35
  let eax := eax * 0xc2b2ae35
  -- hash ← hash XOR (hash >> 16)
  let ecx := eax >>> 16
  eax ^^^ ecx

/-- The bucket of an address. -/
def vmemBucket (addr : Word) : Word := vmemHashtableHash addr &&& (vmemHashtableN - 1)

/-- `_vmem_hashtable_addr`: the first segment of the bucket (EAX), and its slot (EDX). -/
def vmemHashtableAddr (m : Mem) (eax edx : Word) : Word × Word :=
  let esi := eax
  let eax := vmemBucket edx <<< 2
  let edx := esi + vmHashtable
  let edx := edx + eax
  (m.read32 edx, edx)

theorem vmemHashtableHash_bijective : Function.Bijective vmemHashtableHash := by
  have hfirst : Function.Bijective fun x : Word => x * 0x85ebca6b :=
    mul_bijective (d := 0xa5cb9243) (by decide)
  have hsecond : Function.Bijective fun x : Word => x * 0xc2b2ae35 :=
    mul_bijective (d := 0x7ed1b41d) (by decide)
  have hsixteen : Function.Bijective (xorShift (w := 32) 16) := xorShift_bijective (by decide)
  have hthirteen : Function.Bijective (xorShift (w := 32) 13) := xorShift_bijective (by decide)
  exact hsixteen.comp (hsecond.comp (hthirteen.comp (hfirst.comp hsixteen)))

theorem vmemBucket_toNat (addr : Word) :
    (vmemBucket addr).toNat = (vmemHashtableHash addr).toNat % 2 ^ 4 := by
  rw [vmemBucket, BitVec.toNat_and]
  exact Nat.and_two_pow_sub_one_eq_mod _ 4

/-- The slot is one of the 16 words of the table. -/
theorem vmemHashtableAddr_slot (m : Mem) (eax edx : Word) :
    (vmemHashtableAddr m eax edx).2
      = eax + vmHashtable + BitVec.ofNat 32 (4 * (vmemBucket edx).toNat) := by
  rw [vmemHashtableAddr]
  dsimp only
  congr 1
  apply BitVec.eq_of_toNat_eq
  rw [BitVec.toNat_shiftLeft, BitVec.toNat_ofNat, Nat.shiftLeft_eq]
  omega

/-- **The hash spreads the addresses.** Distinct addresses have distinct hashes, each of the 16
buckets gets 2 ^ 28 of them, and the slot of an address lies in the table of the arena. -/
theorem vmemHashtable_spreads :
    Function.Bijective vmemHashtableHash ∧
    (∀ b : Nat, b < 16 → Nat.card {addr : Word // (vmemBucket addr).toNat = b} = 2 ^ 28) ∧
    ∀ (m : Mem) (vm addr : Word), ∃ k : Nat, k < 16 ∧ k = (vmemBucket addr).toNat ∧
      (vmemHashtableAddr m vm addr).2 = vm + vmHashtable + BitVec.ofNat 32 (4 * k) ∧
      (vmemHashtableAddr m vm addr).1
        = m.read32 (vm + vmHashtable + BitVec.ofNat 32 (4 * k)) := by
  refine ⟨vmemHashtableHash_bijective, ?_, ?_⟩
  · intro b hb
    simp only [vmemBucket_toNat]
    exact card_residue vmemHashtableHash_bijective (by decide) hb
  · intro m vm addr
    have hlt : (vmemBucket addr).toNat < 16 := by
      rw [vmemBucket_toNat]
      exact Nat.mod_lt _ (by decide)
    have hslot := vmemHashtableAddr_slot m vm addr
    refine ⟨_, hlt, rfl, hslot, ?_⟩
    rw [← hslot]
    rfl

/-! ## The free list of a size -/

/-- Free list `i` of the arena at `vm` -/
def freelistAt (vm : Word) (i : Nat) : Word := vm + vmFreelist + BitVec.ofNat 32 (4 * i)

/-- `_vmem_add_to_freelist` puts a segment of size `s` at the head of list `i`. -/
def FilesIn (s : Word) (i : Nat) : Prop :=
  i < 32 ∧ ∀ (m : Mem) (eax edx : Word), m.read32 (edx + segSize) = s →
    vmemAddToFreelist m eax edx = listInsertHead m (freelistAt eax i) (edx + segSeglist)

/-- The search for `n` comes to its first scan of a list at list `i`. -/
def StartsAt (n flags : Word) (i : Nat) : Prop :=
  i ≤ 32 ∧ ∀ (m : Mem) (a : XallocArgs) (s : XallocSearch), a.edi = n → a.flags = flags →
    s.pos = .retryStrat → ∃ s₁ s₂, xallocBody m a s = some (.again s₁) ∧
      xallocBody m a s₁ = some (.again s₂) ∧
      s₂.pos = (if flags &&& vmemVmInstantfit = 0 then .bestFit else .instantFit) ∧
      s₂.local12 = freelistAt a.esi i

theorem class_shift (n : Word) :
    vmemGetListFromSize n <<< 2 = BitVec.ofNat 32 (4 * Nat.log2 n.toNat) := by
  have hlog := @log2_lt n
  rw [vmemGetListFromSize_eq]
  generalize Nat.log2 n.toNat = k at hlog
  apply BitVec.eq_of_toNat_eq
  rw [BitVec.toNat_shiftLeft, BitVec.toNat_ofNat, BitVec.toNat_ofNat, Nat.shiftLeft_eq]
  omega

theorem filesIn_log2 (s : Word) : FilesIn s (Nat.log2 s.toNat) := by
  refine ⟨log2_lt, ?_⟩
  intro m eax edx hsize
  rw [vmemAddToFreelist, hsize, class_shift]
  rfl

theorem freelistAt_succ (vm : Word) (i : Nat) : freelistAt vm i + 4 = freelistAt vm (i + 1) := by
  rw [freelistAt, freelistAt, Nat.mul_add_one, BitVec.ofNat_add, ← BitVec.add_assoc]
  rfl

/-- A best fit rounds down, and an instant fit up. -/
theorem startsAt_startClass (n flags : Word) : StartsAt n flags (startClass n flags) := by
  refine ⟨startClass_le n flags, ?_⟩
  rintro m a s rfl rfl hpos
  have hfirst : xallocBody m a s = some (.again { s with
      pos := .retry, local12 := freelistAt a.esi (Nat.log2 a.edi.toNat) }) := by
    rw [xallocBody, hpos]
    dsimp only
    rw [class_shift]
    rfl
  refine ⟨_, { s with
    pos := if a.flags &&& vmemVmInstantfit = 0 then .bestFit else .instantFit
    local12 := freelistAt a.esi (startClass a.edi a.flags) }, hfirst, ?_, rfl, rfl⟩
  exact xallocBody_retry (freelistAt_succ a.esi) s.local16 s.local20

/-- A number that shares no bit with the one before is a power of two. -/
theorem two_pow_log2 {n : Word} (hn : n ≠ 0) (h : n &&& (n - 1) = 0) :
    n.toNat = 2 ^ Nat.log2 n.toNat := by
  have hne : n.toNat ≠ 0 := fun h0 => hn (BitVec.eq_of_toNat_eq h0)
  have hle := Nat.log2_self_le hne
  have hlt := @Nat.lt_log2_self n.toNat
  by_contra hother
  -- then the one before has the same highest bit
  have hpred : (n - 1).toNat = n.toNat - 1 := by bv_omega
  have hne' : n.toNat - 1 ≠ 0 := by
    have hone := Nat.two_pow_pos (Nat.log2 n.toNat)
    omega
  have hsame : Nat.log2 (n.toNat - 1) = Nat.log2 n.toNat :=
    (Nat.log2_eq_iff hne').mpr ⟨by omega, by omega⟩
  have hbit : (n.toNat &&& (n.toNat - 1)).testBit (Nat.log2 n.toNat) = true := by
    rw [Nat.testBit_and, Nat.testBit_log2 hne, Bool.true_and, ← hsame]
    exact Nat.testBit_log2 hne'
  have hzero : n.toNat &&& (n.toNat - 1) = 0 := by
    rw [← hpred, ← BitVec.toNat_and, h]
    rfl
  rw [hzero, Nat.zero_testBit] at hbit
  cases hbit

/-- **The size classes of `vmem`.** The macro gives the one class of a size. A segment in a list
from the start of an instant fit on is long enough; and a segment that is long enough is in a list
from the start of a best fit on. -/
theorem vmemSizeClass {s : Word} (hs : s ≠ 0) :
    (vmemGetListFromSize s).toNat < 32 ∧
    (∀ i, 2 ^ i ≤ s.toNat ∧ s.toNat < 2 ^ (i + 1) ↔ i = (vmemGetListFromSize s).toNat) ∧
    FilesIn s (vmemGetListFromSize s).toNat ∧
    ∀ n : Word, n ≠ 0 →
      (∀ flags, flags &&& vmemVmInstantfit ≠ 0 → ∃ i, StartsAt n flags i ∧
        i = (vmemGetListFromSize n).toNat + (if n &&& (n - 1) = 0 then 0 else 1) ∧
        (i ≤ (vmemGetListFromSize s).toNat → n.toNat ≤ s.toNat)) ∧
      ∀ flags, flags &&& vmemVmInstantfit = 0 → ∃ i, StartsAt n flags i ∧
        i = (vmemGetListFromSize n).toNat ∧
        (n.toNat ≤ s.toNat → i ≤ (vmemGetListFromSize s).toNat) := by
  have hclass : ∀ x : Word, (vmemGetListFromSize x).toNat = Nat.log2 x.toNat := by
    intro x
    have hlog := @log2_lt x
    rw [vmemGetListFromSize_eq, toNat_ofNat_of_lt (by omega)]
  have hne : s.toNat ≠ 0 := fun h0 => hs (BitVec.eq_of_toNat_eq h0)
  have hle := Nat.log2_self_le hne
  rw [hclass]
  refine ⟨log2_lt, ?_, filesIn_log2 s, ?_⟩
  · intro i
    rw [← Nat.log2_eq_iff hne]
    exact eq_comm
  · intro n hn
    have hne' : n.toNat ≠ 0 := fun h0 => hn (BitVec.eq_of_toNat_eq h0)
    rw [hclass]
    refine ⟨?_, ?_⟩
    · intro flags hflags
      refine ⟨startClass n flags, startsAt_startClass n flags, ?_, ?_⟩
      · by_cases hpow : n &&& (n - 1) = 0
        · rw [startClass, if_pos (Or.inr hpow), if_pos hpow, Nat.add_zero]
        · rw [startClass, if_neg (not_or.mpr ⟨hflags, hpow⟩), if_neg hpow]
      · intro hstart
        by_cases hpow : n &&& (n - 1) = 0
        · rw [startClass, if_pos (Or.inr hpow)] at hstart
          calc n.toNat = 2 ^ Nat.log2 n.toNat := two_pow_log2 hn hpow
            _ ≤ 2 ^ Nat.log2 s.toNat := Nat.pow_le_pow_right (by decide) hstart
            _ ≤ s.toNat := hle
        · rw [startClass, if_neg (not_or.mpr ⟨hflags, hpow⟩)] at hstart
          calc n.toNat ≤ 2 ^ (Nat.log2 n.toNat + 1) := Nat.le_of_lt Nat.lt_log2_self
            _ ≤ 2 ^ Nat.log2 s.toNat := Nat.pow_le_pow_right (by decide) hstart
            _ ≤ s.toNat := hle
    · intro flags hflags
      refine ⟨startClass n flags, startsAt_startClass n flags, startClass_best hflags, ?_⟩
      intro hlong
      rw [startClass_best hflags]
      exact (Nat.le_log2 hne).mpr (Nat.le_trans (Nat.log2_self_le hne') hlong)

/-- A segment of 24 bytes, and requests of 16 and of 24. -/
theorem vmemSizeClass_demo : (vmemGetListFromSize 24).toNat < 32 ∧
    (∀ i, 2 ^ i ≤ (24 : Word).toNat ∧ (24 : Word).toNat < 2 ^ (i + 1) ↔
      i = (vmemGetListFromSize 24).toNat) ∧
    ∃ i, StartsAt 16 vmemVmInstantfit i ∧
      (i ≤ (vmemGetListFromSize 24).toNat → (16 : Word).toNat ≤ (24 : Word).toNat) := by
  rcases vmemSizeClass (s := 24) (by decide) with ⟨hlt, hunique, -, hsearch⟩
  rcases (hsearch 16 (by decide)).1 vmemVmInstantfit (by decide) with ⟨i, hstart, -, hsound⟩
  exact ⟨hlt, hunique, i, hstart, hsound⟩

end StupidOS.Kernel
