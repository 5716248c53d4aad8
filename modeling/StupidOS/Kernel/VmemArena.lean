import StupidOS.Kernel.Vmem

/-!
# An arena and descriptor 63

Every segment of an arena made after `vmem_bootstrap` is descriptor 63 (see
`Kernel.VmemSeg`): the span, its free segment and both halves of every split. So
its base never changes (`ArenaLinked`). This module says what `vmem_create` makes
of the memory of an arena (`vmemCreate_fresh`), and what `vmem_xalloc` does once its
search is over (`xallocFound_spec`, `xallocEnd_spec`).
-/

namespace StupidOS.Kernel

variable (S : VmemStatics)

/-! ## Size classes -/

theorem log2_lt {n : Word} : Nat.log2 n.toNat < 32 := by
  by_cases h0 : n.toNat = 0
  · rw [h0]
    decide
  · exact (Nat.log2_lt h0).mpr n.isLt

/-- The macro computes the floor of the binary logarithm. -/
theorem vmemGetListFromSize_eq (n : Word) :
    vmemGetListFromSize n = BitVec.ofNat 32 (Nat.log2 n.toNat) := by
  have hall : ∀ k : Fin 32,
      -((BitVec.ofNat 32 k.val ^^^ 31#32) + -32#32) - 1#32 = BitVec.ofNat 32 k.val := by decide
  exact hall ⟨Nat.log2 n.toNat, log2_lt⟩

/-! ## An arena object -/

/-- Where a `Vmem` object lies and what `vmem_create` gets for it: no source, and a
span that does not wrap. The object does not straddle the middle of the address
space (its slots are compared as signed numbers), and shares no byte with the
descriptors. -/
structure VmemArena where
  addr : Word
  name : Word
  base : Word
  args : VmemCreateArgs
  source : args.source = 0
  fits : addr.toNat + 248 ≤ 2 ^ 32
  half : addr.toNat + 248 ≤ 2 ^ 31 ∨ 2 ^ 31 ≤ addr.toNat
  apart : addr.toNat + 248 ≤ S.aVmemStaticSegs.toNat ∨
    S.aVmemStaticSegs.toNat + 1800 ≤ addr.toNat
  span : base.toNat + args.size.toNat ≤ 2 ^ 32

namespace VmemArena

variable {S} (A : VmemArena S)

/-- The word at offset `k` of the object. -/
def word (k : Nat) : Word := A.addr + BitVec.ofNat 32 k

/-- Free list `i`. -/
def freelist (i : Nat) : Word := A.word (56 + 4 * i)

theorem word_toNat {k : Nat} (hk : k ≤ 244) : (A.word k).toNat = A.addr.toNat + k := by
  have hfits := A.fits
  unfold word
  bv_omega

theorem offPool {k : Nat} (hk : k ≤ 244) : OffPool S (A.word k) := by
  have hw := A.word_toNat hk
  have hfits := A.fits
  have hapart := A.apart
  exact offPool_of_place S (by omega) (by omega)

theorem sep_words {j k : Nat} (hj : j ≤ 244) (hk : k ≤ 244) (h : j + 4 ≤ k ∨ k + 4 ≤ j) :
    Sep (A.word j) 4 (A.word k) 4 := by
  have hwj := A.word_toNat hj
  have hwk := A.word_toNat hk
  have hfits := A.fits
  exact Sep.of_le (by omega) (by omega) (by omega) (by omega) (by omega)

theorem freelist_ne {i j : Nat} (hi : i < 32) (hj : j < 32) (h : i ≠ j) :
    Sep (A.freelist i) 4 (A.freelist j) 4 :=
  A.sep_words (by omega) (by omega) (by omega)

/-- The slot that the macro and a shift select. -/
theorem slot_eq (n : Word) :
    A.addr + vmFreelist + vmemGetListFromSize n <<< 2 = A.freelist (Nat.log2 n.toNat) := by
  have hlog := @log2_lt n
  rw [vmemGetListFromSize_eq]
  unfold freelist word vmFreelist
  generalize Nat.log2 n.toNat = k at hlog
  have hshift : BitVec.ofNat 32 k <<< 2 = BitVec.ofNat 32 (4 * k) := by
    apply BitVec.eq_of_toNat_eq
    rw [BitVec.toNat_shiftLeft, BitVec.toNat_ofNat, BitVec.toNat_ofNat, Nat.shiftLeft_eq]
    omega
  rw [hshift]
  bv_omega

end VmemArena

/-- The fields of descriptor 63. -/
def VmemStatics.field (k : Word) : Word := S.seg 63 + k

theorem seg63_toNat : (S.seg 63).toNat = S.aVmemStaticSegs.toNat + 1764 := by
  have hS := S.fits
  unfold VmemStatics.seg
  bv_omega

theorem offPool_field {k : Word} (hk : k.toNat ≤ 16) : OffPool S (S.field k) := by
  have hS := S.fits
  have hf : (S.field k).toNat = S.aVmemStaticSegs.toNat + 1764 + k.toNat := by
    have h63 := seg63_toNat S
    unfold VmemStatics.field
    bv_omega
  exact offPool_of_place S (by omega) (by omega)

theorem sep_fields {j k : Word} (hj : j.toNat ≤ 16) (hk : k.toNat ≤ 16)
    (h : j.toNat + 4 ≤ k.toNat ∨ k.toNat + 4 ≤ j.toNat) :
    Sep (S.field j) 4 (S.field k) 4 := by
  have h63 := seg63_toNat S
  have hS := S.fits
  unfold VmemStatics.field Sep
  constructor <;> bv_omega

theorem sep_word_field {A : VmemArena S} {j : Nat} {k : Word} (hj : j ≤ 244) (hk : k.toNat ≤ 16) :
    Sep (A.word j) 4 (S.field k) 4 := by
  have hw := A.word_toNat hj
  have hfits := A.fits
  have hapart := A.apart
  have hS := S.fits
  have hf : (S.field k).toNat = S.aVmemStaticSegs.toNat + 1764 + k.toNat := by
    have h63 := seg63_toNat S
    unfold VmemStatics.field
    bv_omega
  exact Sep.of_le (by omega) (by omega) (by omega) (by omega) (by omega)


/-! ## `vmem_create` -/

/-- Storing zeros over `n` words. -/
theorem repStosd_zero (m : Mem) (edi x : Word) {n : Nat} (hn : 4 * n ≤ 2 ^ 32) :
    repStosd m edi 0 n x = if (x - edi).toNat < 4 * n then 0 else m x := by
  induction n generalizing m edi with
  | zero => simp [repStosd]
  | succ n ih =>
      rw [repStosd, ih (m.write32 edi 0) (edi + 4) (by omega)]
      unfold Mem.write32
      by_cases hlow : (x - edi).toNat < 4
      · rw [if_neg (show ¬ (x - (edi + 4)).toNat < 4 * n by bv_omega), if_pos hlow,
          if_pos (by omega)]
        simp [byteOf]
      · have hsub : (x - (edi + 4)).toNat = (x - edi).toNat - 4 := by bv_omega
        rw [hsub, if_neg hlow]
        by_cases hin : (x - edi).toNat < 4 * (n + 1)
        · rw [if_pos (by omega), if_pos hin]
        · rw [if_neg (by omega), if_neg hin]

/-- The name is written into at most `fuel` bytes. -/
theorem vmemCopyName_frame {m : Mem} {esi edx x : Word} {fuel : Nat}
    (hx : fuel ≤ (x - edx).toNat) : vmemCopyName fuel m esi edx x = m x := by
  induction fuel generalizing m esi edx with
  | zero => rfl
  | succ fuel ih =>
      unfold vmemCopyName
      dsimp only
      split
      · rfl
      · rw [ih (by bv_omega)]
        refine Mem.write8_frame m _ (fun heq => ?_)
        rw [heq] at hx
        simp at hx

theorem repMovsd_frame {m : Mem} {edi x : Word} {ws : List Word}
    (hx : 4 * ws.length ≤ (x - edi).toNat) : repMovsd m edi ws x = m x := by
  induction ws generalizing m edi with
  | nil => rfl
  | cons w ws ih =>
      rw [List.length_cons] at hx
      rw [repMovsd, ih (by bv_omega)]
      exact Mem.write32_frame m _ (by omega)

section Create

variable {S} (A : VmemArena S)

/-- From the free lists on, the fresh object is zero; no byte behind it changes. -/
theorem vmemCreateObject_byte (m : Mem) (name base : Word) (args : VmemCreateArgs) {x : Word}
    (hx : 56 ≤ (x - A.addr).toNat) : vmemCreateObject m A.addr name base args x =
      if (x - A.addr).toNat < 248 then 0 else m x := by
  have hmovs : ∀ m : Mem, repMovsd m (A.addr + vmSize) [args.size, args.quantum,
      args.alloc, args.free, args.source, args.flags, args.above] x = m x := by
    intro m
    refine repMovsd_frame ?_
    simp only [List.length_cons, List.length_nil]
    unfold vmSize
    bv_omega
  rw [vmemCreateObject, Mem.write32_frame _ _ (by unfold vmSegqueue; bv_omega), hmovs,
    Mem.write32_frame _ _ (by unfold vmBase; bv_omega), vmemCopyName_frame (by omega),
    repStosd_zero _ _ _ (by omega)]

/-- All free lists are empty in the fresh object. -/
theorem vmemCreateObject_freelist (m : Mem) (name base : Word) (args : VmemCreateArgs) {i : Nat}
    (hi : i < 32) : (vmemCreateObject m A.addr name base args).read32 (A.freelist i) = 0 := by
  have hw : (A.freelist i).toNat = A.addr.toNat + (56 + 4 * i) := A.word_toNat (by omega)
  have hfits := A.fits
  have hbyte : ∀ x : Word, 56 ≤ (x - A.addr).toNat → (x - A.addr).toNat < 248 →
      vmemCreateObject m A.addr name base args x = 0 := by
    intro x hlo hhi
    rw [vmemCreateObject_byte A m name base args hlo, if_pos hhi]
  unfold Mem.read32
  rw [hbyte _ (by bv_omega) (by bv_omega), hbyte _ (by bv_omega) (by bv_omega),
    hbyte _ (by bv_omega) (by bv_omega), hbyte _ (by bv_omega) (by bv_omega)]
  rfl

/-- The first word that `rep movsd` stores stays. -/
theorem repMovsd_head (m : Mem) (edi w : Word) (ws : List Word) (hlen : ws.length < 2 ^ 29) :
    (repMovsd m edi (w :: ws)).read32 edi = w := by
  have hkeep : ∀ x : Word, (x - edi).toNat < 4 →
      repMovsd (m.write32 edi w) (edi + 4) ws x = m.write32 edi w x :=
    fun x hx => repMovsd_frame (by bv_omega)
  rw [repMovsd, Mem.read32_congr (hkeep _ (by bv_omega)) (hkeep _ (by bv_omega))
    (hkeep _ (by bv_omega)) (hkeep _ (by bv_omega)), Mem.read32_write32]

theorem vmemCreateObject_size (m : Mem) (name base : Word) (args : VmemCreateArgs) :
    (vmemCreateObject m A.addr name base args).read32 (A.addr + vmSize) = args.size := by
  have hfits := A.fits
  unfold vmemCreateObject
  dsimp only
  rw [Mem.read32_write32_of_sep _ _ (by unfold vmSize vmSegqueue Sep; constructor <;> bv_omega)]
  exact repMovsd_head _ _ _ _ (by simp)

/-- A word apart from the object keeps its value. -/
theorem vmemCreateObject_frame (m : Mem) (name base : Word) (args : VmemCreateArgs) {a : Word}
    (ha : a.toNat + 4 ≤ 2 ^ 32)
    (happ : a.toNat + 4 ≤ A.addr.toNat ∨ A.addr.toNat + 248 ≤ a.toNat) :
    (vmemCreateObject m A.addr name base args).read32 a = m.read32 a := by
  have hfits := A.fits
  have hbyte : ∀ x : Word, a.toNat ≤ x.toNat → x.toNat < a.toNat + 4 →
      vmemCreateObject m A.addr name base args x = m x := by
    intro x hxlo hxhi
    rw [vmemCreateObject_byte A m name base args (by bv_omega), if_neg (by bv_omega)]
  exact Mem.read32_congr (hbyte _ (by bv_omega) (by bv_omega))
    (hbyte _ (by bv_omega) (by bv_omega)) (hbyte _ (by bv_omega) (by bv_omega))
    (hbyte _ (by bv_omega) (by bv_omega))

/-- The descriptors and the pool do not lie in the object. -/
theorem vmemCreateObject_stuck {m : Mem} (hm : PoolStuck S m) (name base : Word)
    (args : VmemCreateArgs) : PoolStuck S (vmemCreateObject m A.addr name base args) ∧
      (vmemCreateObject m A.addr name base args).read32 S.top = m.read32 S.top := by
  have hfits := A.fits
  have hapart := A.apart
  have hS := S.fits
  have hread : ∀ a : Word, S.aVmemStaticSegs.toNat ≤ a.toNat →
      a.toNat + 4 ≤ S.aVmemStaticSegs.toNat + 1800 →
      (vmemCreateObject m A.addr name base args).read32 a = m.read32 a := by
    intro a hlo hhi
    exact vmemCreateObject_frame A m name base args (by omega) (by omega)
  have htop : S.top.toNat = S.aVmemStaticSegs.toNat + 28 * 63 + 20 :=
    S.seg_seglist_toNat (by omega)
  have hhead := S.head_toNat
  have hnext := hread S.top (by omega) (by omega)
  refine ⟨⟨?_, ?_, by rw [hnext]; exact hm.next⟩, hnext⟩
  · exact (hread _ (by omega) (by omega)).trans hm.head
  · exact (hread _ (by bv_omega) (by bv_omega)).trans hm.prev

end Create

/-! ## Descriptor 63 on the free lists -/

/-- Inserting descriptor 63 into a list that is empty or starts with it. -/
theorem PoolStuck.insert {m : Mem} (hm : PoolStuck S m) {a : Word} (ha : OffPool S a)
    (hread : m.read32 a = 0 ∨ m.read32 a = S.top) :
    PoolStuck S (listInsertHead m a S.top) ∧
    (listInsertHead m a S.top).read32 S.top = m.read32 a ∧
    (listInsertHead m a S.top).read32 a = S.top ∧
    ∀ b, OffPool S b → Sep b 4 a 4 → (listInsertHead m a S.top).read32 b = m.read32 b := by
  have htop := top_entry S
  have hfirst : m.read32 a ≠ 0 → m.read32 a = S.top := fun hne => hread.resolve_left hne
  obtain ⟨hhead', hnext', hprev'⟩ := listInsertHead_sets m (ha.1 _ htop).symm
    (fun hne => by rw [hfirst hne]; exact ListHeap.sep_next_own S.top)
  refine ⟨⟨?_, hprev', ?_⟩, hnext', hhead', ?_⟩
  · have hsep : Sep S.top 8 S.pVmemFreeSegHead 4 := (poolHeap S).sep_head _ htop
    refine Eq.trans (listInsertHead_frame m ha.2.1.symm (sep_entry_next hsep.symm)
      (sep_entry_prev hsep.symm) (fun hne => ?_)) hm.head
    rw [hfirst hne]
    exact sep_entry_prev hsep.symm
  · rw [hnext']
    rcases hread with h0 | htop'
    · exact Or.inl h0
    · exact Or.inr (by rw [htop']; exact htop)
  · intro b hb hsep
    refine listInsertHead_frame m hsep (sep_entry_next (hb.1 _ htop))
      (sep_entry_prev (hb.1 _ htop)) (fun hne => ?_)
    rw [hfirst hne]
    exact sep_entry_prev (hb.1 _ htop)

/-- Once descriptor 63 is its own predecessor, removing it changes nothing. -/
theorem PoolStuck.remove_self {m : Mem} (hm : PoolStuck S m)
    (hnext : m.read32 S.top = 0 ∨ m.read32 S.top = S.top) : listRemove m S.top = m := by
  refine listRemove_self m hm.prev (fun hne => ?_)
  rw [hnext.resolve_left hne]
  exact hm.prev

section Arena

variable {S} (A : VmemArena S)

/-- Free lists that are empty or start with descriptor 63. -/
structure ArenaLists (m : Mem) : Prop where
  stuck : PoolStuck S m
  next : m.read32 S.top = 0 ∨ m.read32 S.top = S.top
  lists : ∀ i, i < 32 → m.read32 (A.freelist i) = 0 ∨ m.read32 (A.freelist i) = S.top

/-- All segments are descriptor 63: no free list holds a segment, or those that do
start with it and its base is the base of the arena. -/
structure ArenaLinked (m : Mem) : Prop where
  stuck : PoolStuck S m
  segs : ∀ i, i < 32 → m.read32 (A.freelist i) ≠ 0 →
    ArenaLists A m ∧ m.read32 (S.field segBase) = A.base

theorem offPool_freelist {i : Nat} (hi : i < 32) : OffPool S (A.freelist i) :=
  A.offPool (by omega)

theorem sep_freelist_field {i : Nat} (hi : i < 32) {k : Word} (hk : k.toNat ≤ 16) :
    Sep (A.freelist i) 4 (S.field k) 4 :=
  sep_word_field S (by omega) hk

/-- The segment of the whole span is on the list of its size class, and no other
list holds one. -/
structure ArenaFresh (m : Mem) : Prop where
  linked : ArenaLinked A m
  listed : 0 < A.args.size.toNat →
    m.read32 (A.freelist (Nat.log2 A.args.size.toNat)) ≠ 0
  size : ∀ i, i < 32 → m.read32 (A.freelist i) ≠ 0 →
    i = Nat.log2 A.args.size.toNat ∧ m.read32 (S.field segSize) = A.args.size ∧
      0 < A.args.size.toNat

/-- A segment allocated and filled in by `_vmem_add`. -/
def segFilled (S : VmemStatics) (m : Mem) (base size type : Word) : Mem :=
  (((vmemSegalloc S m).2.write32 (S.field segBase) base).write32
    (S.field segSize) size).write32 (S.field segType) type

theorem segFilled_spec {m : Mem} (hm : PoolStuck S m) (base size type : Word) :
    PoolStuck S (segFilled S m base size type) ∧
    (segFilled S m base size type).read32 (S.field segBase) = base ∧
    (segFilled S m base size type).read32 (S.field segSize) = size ∧
    ∀ i, i < 32 →
      (segFilled S m base size type).read32 (A.freelist i) = m.read32 (A.freelist i) := by
  obtain ⟨-, hstuck, -, hoff⟩ := hm.segalloc
  have hb : segBase.toNat ≤ 16 := by decide
  have hs : segSize.toNat ≤ 16 := by decide
  have ht : segType.toNat ≤ 16 := by decide
  have h1 := (hstuck.write S (offPool_field S hb) base).1
  have h2 := (h1.write S (offPool_field S hs) size).1
  have h3 := (h2.write S (offPool_field S ht) type).1
  unfold segFilled
  refine ⟨h3, ?_, ?_, ?_⟩
  · rw [Mem.read32_write32_of_sep _ _ (sep_fields S hb ht (by decide)),
      Mem.read32_write32_of_sep _ _ (sep_fields S hb hs (by decide)), Mem.read32_write32]
  · rw [Mem.read32_write32_of_sep _ _ (sep_fields S hs ht (by decide)), Mem.read32_write32]
  · intro i hi
    rw [Mem.read32_write32_of_sep _ _ (sep_freelist_field A hi ht),
      Mem.read32_write32_of_sep _ _ (sep_freelist_field A hi hs),
      Mem.read32_write32_of_sep _ _ (sep_freelist_field A hi hb), hoff _ (offPool_freelist A hi)]

theorem vmemAddSpan_eq {m : Mem} (base size flags type : Word) (hm : PoolStuck S m)
    (hm' : PoolStuck S (segFilled S m base size type)) :
    (vmemAddSpan S m A.addr base size flags type).2 =
      listInsertHead (segFilled S (segFilled S m base size type) base size vmemSegmentFree)
        (A.freelist (Nat.log2 size.toNat)) S.top := by
  have h : vmemSegalloc S m = (S.seg 63, (vmemSegalloc S m).2) := Prod.ext hm.segalloc.1 rfl
  have h' : vmemSegalloc S (segFilled S m base size type) =
      (S.seg 63, (vmemSegalloc S (segFilled S m base size type)).2) :=
    Prod.ext hm'.segalloc.1 rfl
  unfold segFilled VmemStatics.field at h'
  unfold vmemAddSpan
  rw [h]
  simp only [if_neg (seg_ne_zero S)]
  rw [h']
  simp only [if_neg (seg_ne_zero S), tailqInsertTail, tailqInsertAfter, A.slot_eq]
  rfl

/-- `_vmem_add` puts the span on the list of its size class. -/
theorem vmemAddSpan_fresh {m : Mem} (hm : PoolStuck S m)
    (hempty : ∀ i, i < 32 → m.read32 (A.freelist i) = 0) (hsize : 0 < A.args.size.toNat)
    (flags type : Word) :
    ArenaFresh A (vmemAddSpan S m A.addr A.base A.args.size flags type).2 := by
  obtain ⟨hstuck₁, -, -, hfree₁⟩ := segFilled_spec A hm A.base A.args.size type
  obtain ⟨hstuck₂, hbase₂, hsize₂, hfree₂⟩ :=
    segFilled_spec A hstuck₁ A.base A.args.size vmemSegmentFree
  have hlog := @log2_lt A.args.size
  have hread := hfree₂ _ hlog
  rw [hfree₁ _ hlog, hempty _ hlog] at hread
  obtain ⟨hstuck, hnext, hhead, hoff⟩ :=
    hstuck₂.insert S (offPool_freelist A hlog) (Or.inl hread)
  rw [vmemAddSpan_eq A _ _ _ _ hm hstuck₁]
  have hfield : ∀ {k : Word}, k.toNat ≤ 16 →
      (listInsertHead (segFilled S (segFilled S m A.base A.args.size type) A.base A.args.size
        vmemSegmentFree) (A.freelist (Nat.log2 A.args.size.toNat)) S.top).read32 (S.field k) =
      (segFilled S (segFilled S m A.base A.args.size type) A.base A.args.size
        vmemSegmentFree).read32 (S.field k) :=
    fun hk => hoff _ (offPool_field S hk) (sep_freelist_field A hlog hk).symm
  -- only the list of the class of the size has an entry
  have hlists : ∀ i, i < 32 →
      (listInsertHead (segFilled S (segFilled S m A.base A.args.size type) A.base A.args.size
        vmemSegmentFree) (A.freelist (Nat.log2 A.args.size.toNat)) S.top).read32
        (A.freelist i) ≠ 0 → i = Nat.log2 A.args.size.toNat := by
    intro i hi hne
    by_contra hi'
    refine hne ?_
    rw [hoff _ (offPool_freelist A hi) (A.freelist_ne hi hlog hi'), hfree₂ i hi, hfree₁ i hi,
      hempty i hi]
  refine ⟨⟨hstuck, fun i hi hne => ⟨⟨hstuck, Or.inl (by rw [hnext, hread]), fun j hj => ?_⟩,
    by rw [hfield (by decide), hbase₂]⟩⟩,
    fun _ => by rw [hhead]; exact (poolHeap S).ne_zero _ (top_entry S), fun i hi hne => ?_⟩
  · by_cases hne' : (listInsertHead (segFilled S (segFilled S m A.base A.args.size type) A.base
        A.args.size vmemSegmentFree) (A.freelist (Nat.log2 A.args.size.toNat)) S.top).read32
        (A.freelist j) = 0
    · exact Or.inl hne'
    · rw [hlists j hj hne']
      exact Or.inr hhead
  · exact ⟨hlists i hi hne, by rw [hfield (by decide), hsize₂], hsize⟩

/-- `vmem_create` leaves a fresh arena. -/
theorem vmemCreate_fresh {m : Mem} (hm : PoolStuck S m) :
    ArenaFresh A (vmemCreate S m A.addr A.name A.base A.args) := by
  have hstuck := (vmemCreateObject_stuck A hm A.name A.base A.args).1
  have hempty : ∀ i, i < 32 →
      (vmemCreateObject m A.addr A.name A.base A.args).read32 (A.freelist i) = 0 :=
    fun i hi => vmemCreateObject_freelist A m _ _ _ hi
  unfold vmemCreate vmemAdd
  dsimp only
  rw [if_neg (by rw [A.source]; exact fun h => h rfl), vmemCreateObject_size A m _ _ _]
  split
  · rename_i h0
    refine ⟨⟨hstuck, fun i hi hne => absurd (hempty i hi) hne⟩, fun hpos => ?_,
      fun i hi hne => absurd (hempty i hi) hne⟩
    rw [h0] at hpos
    exact absurd hpos (by decide)
  · rename_i hne
    have hpos : 0 < A.args.size.toNat := by
      rw [Nat.pos_iff_ne_zero]
      intro h0
      exact hne (BitVec.eq_of_toNat_eq h0)
    exact vmemAddSpan_fresh A hstuck hempty hpos _ _

/-! ## `vmem_xalloc` on descriptor 63 -/

theorem ArenaLists.writeField {m : Mem} (h : ArenaLists A m) {k : Word} (hk : k.toNat ≤ 16)
    (w : Word) : ArenaLists A (m.write32 (S.field k) w) := by
  obtain ⟨hstuck, hnext⟩ := h.stuck.write S (offPool_field S hk) w
  refine ⟨hstuck, by rw [hnext]; exact h.next, fun i hi => ?_⟩
  rw [Mem.read32_write32_of_sep _ _ (sep_freelist_field A hi hk)]
  exact h.lists i hi

/-- Descriptor 63 is put at the head of the list of the size it holds. -/
theorem vmemAddToFreelist_eq (m : Mem) : vmemAddToFreelist m A.addr (S.seg 63) =
    listInsertHead m (A.freelist (Nat.log2 (m.read32 (S.field segSize)).toNat)) S.top := by
  unfold vmemAddToFreelist
  simp only [A.slot_eq]
  rfl

/-- Filing descriptor 63 under the size it holds. -/
theorem ArenaLists.addToFreelist {m : Mem} (h : ArenaLists A m) :
    ArenaLists A (vmemAddToFreelist m A.addr (S.seg 63)) ∧
    (∀ k : Word, k.toNat ≤ 16 →
      (vmemAddToFreelist m A.addr (S.seg 63)).read32 (S.field k) = m.read32 (S.field k)) ∧
    ∀ i, i < 32 → m.read32 (A.freelist i) ≠ 0 →
      (vmemAddToFreelist m A.addr (S.seg 63)).read32 (A.freelist i) ≠ 0 := by
  have hlog := @log2_lt (m.read32 (S.field segSize))
  rw [vmemAddToFreelist_eq]
  generalize Nat.log2 (m.read32 (S.field segSize)).toNat = j at hlog
  obtain ⟨hstuck, hnext, hhead, hoff⟩ :=
    h.stuck.insert S (offPool_freelist A hlog) (h.lists j hlog)
  refine ⟨⟨hstuck, by rw [hnext]; exact h.lists j hlog, fun i hi => ?_⟩, fun k hk => ?_,
    fun i hi hne => ?_⟩
  · by_cases hij : i = j
    · rw [hij]
      exact Or.inr hhead
    · rw [hoff _ (offPool_freelist A hi) (A.freelist_ne hi hlog hij)]
      exact h.lists i hi
  · exact hoff _ (offPool_field S hk) (sep_freelist_field A hlog hk).symm
  · by_cases hij : i = j
    · rw [hij, hhead]
      exact (poolHeap S).ne_zero _ (top_entry S)
    · rw [hoff _ (offPool_freelist A hi) (A.freelist_ne hi hlog hij)]
      exact hne

/-- Storing into a field of descriptor 63 leaves the free lists alone. -/
theorem read_freelist_writeField (m : Mem) {i : Nat} (hi : i < 32) {k : Word} (hk : k.toNat ≤ 16)
    (w : Word) : (m.write32 (S.field k) w).read32 (A.freelist i) = m.read32 (A.freelist i) :=
  Mem.read32_write32_of_sep _ _ (sep_freelist_field A hi hk)

/-- What `split right` stores when the remainder and the allocated half are one
descriptor. -/
def splitFields (S : VmemStatics) (m : Mem) (base edi : Word) : Mem :=
  (((m.write32 (S.field segSize) (m.read32 (S.field segSize) - edi)).write32
    (S.field segBase) (base + edi)).write32 (S.field segBase) base).write32 (S.field segSize) edi

/-- The segment found is not split. -/
def TakenWhole (S : VmemStatics) (m : Mem) (esi edi : Word) : Prop :=
  edi = m.read32 (S.field segSize) ∨
    ¬ (m.read32 (esi + vmQuantum) - 1).slt (m.read32 (S.field segSize) - edi)

instance (m : Mem) (esi edi : Word) : Decidable (TakenWhole S m esi edi) :=
  inferInstanceAs (Decidable (_ ∨ _))

/-- Memory after `.found` took descriptor 63. -/
def foundMem (S : VmemStatics) (m : Mem) (esi base edi : Word) : Mem :=
  (if TakenWhole S m esi edi then m
    else vmemAddToFreelist (splitFields S m base edi) esi (S.seg 63)).write32
      (S.field segType) vmemSegmentAllocated

theorem splitFields_lists {m : Mem} (h : ArenaLists A m) (base edi : Word) :
    ArenaLists A (splitFields S m base edi) ∧
      (splitFields S m base edi).read32 (S.field segBase) = base ∧
      (splitFields S m base edi).read32 (S.field segSize) = edi := by
  have hb : segBase.toNat ≤ 16 := by decide
  have hs : segSize.toNat ≤ 16 := by decide
  unfold splitFields
  refine ⟨(((h.writeField A hs _).writeField A hb _).writeField A hb _).writeField A hs _, ?_, ?_⟩
  · rw [Mem.read32_write32_of_sep _ _ (sep_fields S hb hs (by decide)), Mem.read32_write32]
  · rw [Mem.read32_write32]

theorem foundMem_base {m : Mem} (h : ArenaLists A m) (hbase : m.read32 (S.field segBase) = A.base)
    (edi : Word) : (foundMem S m A.addr A.base edi).read32 (S.field segBase) = A.base := by
  have hb : segBase.toNat ≤ 16 := by decide
  have ht : segType.toNat ≤ 16 := by decide
  rw [foundMem, Mem.read32_write32_of_sep _ _ (sep_fields S hb ht (by decide))]
  split
  · exact hbase
  · rcases splitFields_lists A h A.base edi with ⟨h', hbase', -⟩
    rcases h'.addToFreelist A with ⟨-, hfield, -⟩
    rw [hfield segBase hb, hbase']

/-- `vmem_xalloc.found` with descriptor 63 in all three roles: nothing is removed,
both halves of the split are the same descriptor, and the base is handed out. -/
theorem xallocFound_eq {m : Mem} (h : ArenaLists A m)
    (hbase : m.read32 (S.field segBase) = A.base) (edi : Word) :
    xallocFound m A.addr edi (S.seg 63) (S.seg 63) (S.seg 63) A.base =
      (foundMem S m A.addr A.base edi, S.seg 63,
        if TakenWhole S m A.addr edi then S.seg 63 else 0, A.base) := by
  have hb : segBase.toNat ≤ 16 := by decide
  have hs : segSize.toNat ≤ 16 := by decide
  -- descriptor 63 points back at itself, so removing it changes nothing
  have hrem : listRemove m (S.seg 63 + segSeglist) = m := h.stuck.remove_self S h.next
  have hend := foundMem_base A h hbase edi
  change m.read32 (S.seg 63 + segBase) = A.base at hbase
  unfold xallocFound
  rw [hrem]
  simp only [hbase, if_pos, vmemHashtableInsert]
  -- the code splits the segment if a quantum or more is left
  by_cases hwhole : TakenWhole S m A.addr edi
  · rw [foundMem, if_pos hwhole] at hend
    rw [foundMem, if_pos hwhole, if_pos hwhole]
    have hsame : (_, S.seg 63, S.seg 63, _) = (_, S.seg 63, S.seg 63, A.base) :=
      congrArg (fun b => (m.write32 (S.field segType) vmemSegmentAllocated, S.seg 63, S.seg 63, b))
        hend
    split
    · exact hsame
    · split
      · exact hsame
      · rename_i hexact hlarge
        exact absurd hwhole (not_or.mpr ⟨hexact, hlarge⟩)
  · rw [foundMem, if_neg hwhole] at hend
    rw [foundMem, if_neg hwhole, if_neg hwhole]
    rcases not_or.mp hwhole with ⟨hexact, hlarge⟩
    change ¬ edi = m.read32 (S.seg 63 + segSize) at hexact
    change ¬ ¬ (m.read32 (A.addr + vmQuantum) - 1).slt (m.read32 (S.seg 63 + segSize) - edi)
      at hlarge
    have hread : (m.write32 (S.seg 63 + segSize) (m.read32 (S.seg 63 + segSize) - edi)).read32
        (S.seg 63 + segBase) = A.base := by
      rw [← hbase]
      exact Mem.read32_write32_of_sep _ _ (sep_fields S hb hs (by decide))
    simp only [if_neg hexact, if_neg hlarge, hread, vmemInsertSegment, tailqInsertAfter]
    exact congrArg (fun b => (_, S.seg 63, (0 : Word), b)) hend

theorem foundMem_lists {m : Mem} (h : ArenaLists A m) (edi : Word) :
    ArenaLists A (foundMem S m A.addr A.base edi) ∧
      ∀ i, i < 32 → m.read32 (A.freelist i) ≠ 0 →
        (foundMem S m A.addr A.base edi).read32 (A.freelist i) ≠ 0 := by
  have hb : segBase.toNat ≤ 16 := by decide
  have hs : segSize.toNat ≤ 16 := by decide
  have ht : segType.toNat ≤ 16 := by decide
  rw [foundMem]
  split
  · refine ⟨h.writeField A ht _, ?_⟩
    intro i hi hne
    rw [read_freelist_writeField A m hi ht]
    exact hne
  · rcases splitFields_lists A h A.base edi with ⟨h', -, -⟩
    rcases h'.addToFreelist A with ⟨h'', -, hkept⟩
    refine ⟨h''.writeField A ht _, ?_⟩
    intro i hi hne
    rw [read_freelist_writeField A _ hi ht]
    apply hkept i hi
    rw [splitFields, read_freelist_writeField A _ hi hs, read_freelist_writeField A _ hi hb,
      read_freelist_writeField A _ hi hb, read_freelist_writeField A _ hi hs]
    exact hne

theorem xallocFound_spec {m : Mem} (h : ArenaLists A m)
    (hbase : m.read32 (S.field segBase) = A.base) (edi : Word) :
    ∃ m' local4, xallocFound m A.addr edi (S.seg 63) (S.seg 63) (S.seg 63) A.base =
        (m', S.seg 63, local4, A.base) ∧
      ArenaLists A m' ∧ m'.read32 (S.field segBase) = A.base ∧
      (local4 = 0 ∨ local4 = S.seg 63) ∧
      ∀ i, i < 32 → m.read32 (A.freelist i) ≠ 0 → m'.read32 (A.freelist i) ≠ 0 := by
  rcases foundMem_lists A h edi with ⟨hlists, hkept⟩
  refine ⟨_, _, xallocFound_eq A h hbase edi, hlists, foundMem_base A h hbase edi, ?_, hkept⟩
  split
  · exact Or.inr rfl
  · exact Or.inl rfl

/-- On the way out descriptor 63 goes back to the pool once or twice. -/
theorem xallocEnd_spec {m : Mem} (h : ArenaLinked A m) (edi ebx : Word) {local4 : Word}
    (h4 : local4 = 0 ∨ local4 = S.seg 63) :
    ∃ m', xallocEnd S m edi ebx local4 (S.seg 63) = (edi, ebx, m') ∧ ArenaLinked A m' ∧
      m'.read32 S.top = S.top ∧ ∀ a, OffPool S a → m'.read32 a = m.read32 a := by
  have hfree : ∀ m₁, ArenaLinked A m₁ → ArenaLinked A (vmemSegfree S m₁ (S.seg 63)) ∧
      (vmemSegfree S m₁ (S.seg 63)).read32 S.top = S.top ∧
      (∀ a, OffPool S a → (vmemSegfree S m₁ (S.seg 63)).read32 a = m₁.read32 a) := by
    intro m₁ h₁
    obtain ⟨hstuck, hnext, hoff⟩ := h₁.stuck.segfree
    refine ⟨⟨hstuck, fun i hi hne => ?_⟩, hnext, hoff⟩
    rw [hoff _ (offPool_freelist A hi)] at hne
    obtain ⟨hlists, hbase⟩ := h₁.segs i hi hne
    refine ⟨⟨hstuck, Or.inr hnext, fun j hj => ?_⟩, ?_⟩
    · rw [hoff _ (offPool_freelist A hj)]
      exact hlists.lists j hj
    · rw [hoff _ (offPool_field S (by decide)), hbase]
  obtain ⟨h₁, hnext₁, hoff₁⟩ := hfree m h
  unfold xallocEnd
  simp only [if_neg (seg_ne_zero S)]
  rcases h4 with rfl | rfl
  · exact ⟨_, rfl, h₁, hnext₁, hoff₁⟩
  · obtain ⟨h₂, hnext₂, hoff₂⟩ := hfree _ h₁
    simp only [if_neg (seg_ne_zero S)]
    exact ⟨_, rfl, h₂, hnext₂, fun a ha => (hoff₂ a ha).trans (hoff₁ a ha)⟩

end Arena

end StupidOS.Kernel
