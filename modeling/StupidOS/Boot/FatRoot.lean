import StupidOS.Boot.Fat12

/-!
# The root directory of FAT12 (`fat_search_root` in `common/fat12.inc`)

The routine compares the eleven characters of each entry at `DISK_BUFFER` with a name, and
leaves the first cluster and the size of the first entry that has it (`fatSearchRoot_spec`).
An entry counts whatever its attributes are, and whether or not the directory ends before it.
-/

namespace StupidOS.Boot

/-! ## The routine -/

/-- `sizeof.fat_entry` -/
def sizeofFatEntry : Half := 0x20

/-- Offsets of `fat_entry.start` and `fat_entry.size` -/
def fatEntryStart : Half := 26
def fatEntrySize : Half := 28

/-- `rep cmpsb` of the eleven characters at SI with those at ES:DI: whether they are all
equal. -/
def cmpName (name : Nat → Byte) (s : Cpu) (di : Half) : Bool :=
  (List.range 0xB).all fun k => name k == s.mem (linear s.es (di + BitVec.ofNat 16 k))

/-- One pass over an entry, with CX and DI. It leaves with DI at the entry that is found. -/
def fatSearchPass (name : Nat → Byte) (s : Cpu) (t : Half × Half) :
    Option (Pass (Half × Half) (Option Half × Half)) :=
  let (cx, di) := t
  if cmpName name s di then some (.done (some di, cx))
  else
    let di := di + sizeofFatEntry
    let cx := cx - 1
    if cx ≠ 0 then some (.again (cx, di)) else some (.done (none, cx))

/-- `fat_search_root`: the carry flag, and the registers. `loop` makes at most 65536 passes. -/
def fatSearchRoot (v : LoaderData) (name : Nat → Byte) (s : Cpu) : Option (Bool × Cpu) := do
  match ← iterate (fatSearchPass name s) 65536 (v.rootDirEntries, 0) with
  | (none, cx) => return (true, { s with ecx := setLo s.ecx cx })
  | (some di, cx) => return (false, { s with
      eax := setLo s.eax (s.mem.half (linear s.es (di + fatEntryStart)))
      ebx := s.mem.word (linear s.es (di + fatEntrySize))
      ecx := setLo s.ecx cx })

/-! ## Entries -/

/-- The address of entry `i` at `DISK_BUFFER`. -/
def rootEntry (i : Nat) : Nat := diskBuffer + 32 * i

/-- Entry `i` has the name. -/
def EntryNamed (mem : Bytes) (name : Nat → Byte) (i : Nat) : Prop :=
  ∀ k, k < 11 → mem (rootEntry i + k) = name k

instance (mem : Bytes) (name : Nat → Byte) (i : Nat) : Decidable (EntryNamed mem name i) :=
  inferInstanceAs (Decidable (∀ k, k < 11 → _))

/-- The first cluster and the size of entry `i`. -/
def entryStart (mem : Bytes) (i : Nat) : Half := mem.half (rootEntry i + 26)

def entrySize (mem : Bytes) (i : Nat) : Word := mem.word (rootEntry i + 28)

/-- Entry `i` is the first of `n` with the name. -/
structure FirstNamed (mem : Bytes) (name : Nat → Byte) (n i : Nat) : Prop where
  inside : i < n
  named : EntryNamed mem name i
  first : ∀ j, j < i → ¬ EntryNamed mem name j

/-! ## The search -/

variable {v : LoaderData} {name : Nat → Byte} {s : Cpu}

/-- Offsets in the buffer do not wrap. -/
theorem linear_entry (hes : s.es = diskBufferSegment) {i : Nat} (hi : 32 * (i + 1) ≤ 65536)
    {k : Half} (hk : k.toNat < 32) :
    linear s.es (BitVec.ofNat 16 (32 * i) + k) = rootEntry i + k.toNat := by
  have hseg : diskBufferSegment.toNat = 0x800 := rfl
  rw [linear, hes, hseg, rootEntry, diskBuffer, BitVec.toNat_add, BitVec.toNat_ofNat]
  omega

theorem cmpName_iff (hes : s.es = diskBufferSegment) {i : Nat} (hi : 32 * (i + 1) ≤ 65536) :
    cmpName name s (BitVec.ofNat 16 (32 * i)) = true ↔ EntryNamed s.mem name i := by
  rw [cmpName, List.all_eq_true]
  have haddr : ∀ k, k < 11 → linear s.es (BitVec.ofNat 16 (32 * i) + BitVec.ofNat 16 k)
      = rootEntry i + k := by
    intro k hk
    have hnat : (BitVec.ofNat 16 k).toNat = k := by
      rw [BitVec.toNat_ofNat]
      omega
    rw [linear_entry hes hi (by omega), hnat]
  constructor
  · intro h k hk
    have hequal := h k (List.mem_range.mpr hk)
    rw [haddr k hk, beq_iff_eq] at hequal
    exact hequal.symm
  · intro h k hk
    rw [List.mem_range] at hk
    rw [haddr k hk, beq_iff_eq]
    exact (h k hk).symm

/-- The pass over entry `i`. -/
theorem fatSearchPass_eq (name : Nat → Byte) (hes : s.es = diskBufferSegment) {n i : Nat}
    (hi : i < n) (hn : 32 * n ≤ 65536) :
    fatSearchPass name s (BitVec.ofNat 16 (n - i), BitVec.ofNat 16 (32 * i)) =
      if EntryNamed s.mem name i then
        some (.done (some (BitVec.ofNat 16 (32 * i)), BitVec.ofNat 16 (n - i)))
      else if i + 1 < n then
        some (.again (BitVec.ofNat 16 (n - (i + 1)), BitVec.ofNat 16 (32 * (i + 1))))
      else some (.done (none, 0)) := by
  have hdi : BitVec.ofNat 16 (32 * i) + sizeofFatEntry = BitVec.ofNat 16 (32 * (i + 1)) := by
    rw [Nat.mul_add, BitVec.ofNat_add]
    rfl
  have hcx : BitVec.ofNat 16 (n - i) - 1 = (BitVec.ofNat 16 (n - (i + 1)) : Half) := by
    apply BitVec.eq_of_toNat_eq
    rw [BitVec.toNat_sub, BitVec.toNat_ofNat, BitVec.toNat_ofNat]
    have hone : (1 : Half).toNat = 1 := rfl
    rw [hone]
    omega
  have hzero : BitVec.ofNat 16 (n - (i + 1)) ≠ (0 : Half) ↔ i + 1 < n := by
    rw [Ne, ← BitVec.toNat_inj, BitVec.toNat_ofNat]
    have hnil : (0 : Half).toNat = 0 := rfl
    rw [hnil]
    omega
  have hname : cmpName name s (BitVec.ofNat 16 (32 * i)) = true ↔ EntryNamed s.mem name i :=
    cmpName_iff hes (by omega)
  unfold fatSearchPass
  dsimp only
  rw [hdi, hcx]
  by_cases hfound : EntryNamed s.mem name i
  · rw [if_pos (hname.mpr hfound), if_pos hfound]
  · rw [if_neg (fun h => hfound (hname.mp h)), if_neg hfound]
    by_cases hmore : i + 1 < n
    · rw [if_pos (hzero.mpr hmore), if_pos hmore]
    · have hlast : BitVec.ofNat 16 (n - (i + 1)) = (0 : Half) := by
        by_contra hne
        exact hmore (hzero.mp hne)
      rw [if_neg (fun h => hmore (hzero.mp h)), if_neg hmore, hlast]

/-- The search from entry `i` on, when entry `j` is the first that has the name. -/
theorem search_found (hes : s.es = diskBufferSegment) {n i j : Nat} (hn : 32 * n ≤ 65536)
    (hij : i ≤ j) (hj : FirstNamed s.mem name n j) {fuel : Nat} (hfuel : j - i < fuel) :
    iterate (fatSearchPass name s) fuel (BitVec.ofNat 16 (n - i), BitVec.ofNat 16 (32 * i))
      = some (some (BitVec.ofNat 16 (32 * j)), BitVec.ofNat 16 (n - j)) := by
  have hinside := hj.inside
  induction fuel generalizing i with
  | zero => omega
  | succ fuel ih =>
      have hpass := fatSearchPass_eq name hes (i := i) (by omega) hn
      by_cases hhere : i = j
      · rw [hhere, if_pos hj.named] at hpass
        rw [hhere]
        exact iterate_done hpass fuel
      · rw [if_neg (hj.first i (by omega)), if_pos (by omega)] at hpass
        rw [iterate_again hpass]
        exact ih (by omega) (by omega)

/-- The search from entry `i` on, when no entry has the name. -/
theorem search_missing (hes : s.es = diskBufferSegment) {n i : Nat} (hn : 32 * n ≤ 65536)
    (hi : i < n) (hnone : ∀ j, j < n → ¬ EntryNamed s.mem name j) {fuel : Nat}
    (hfuel : n - i ≤ fuel) :
    iterate (fatSearchPass name s) fuel (BitVec.ofNat 16 (n - i), BitVec.ofNat 16 (32 * i))
      = some (none, 0) := by
  induction fuel generalizing i with
  | zero => omega
  | succ fuel ih =>
      have hpass := fatSearchPass_eq name hes hi hn
      rw [if_neg (hnone i hi)] at hpass
      by_cases hmore : i + 1 < n
      · rw [if_pos hmore] at hpass
        rw [iterate_again hpass]
        exact ih hmore (by omega)
      · rw [if_neg hmore] at hpass
        exact iterate_done hpass fuel

/-- **The search.** The carry flag says whether an entry has the name, and AX and EBX are the
first cluster and the size of the first one that does. -/
theorem fatSearchRoot_spec (hes : s.es = diskBufferSegment) (hpos : v.rootDirEntries ≠ 0)
    (hn : 32 * v.rootDirEntries.toNat ≤ 65536) :
    (∀ j, FirstNamed s.mem name v.rootDirEntries.toNat j → ∃ cx,
      fatSearchRoot v name s = some (false, { s with
        eax := setLo s.eax (entryStart s.mem j), ebx := entrySize s.mem j, ecx := cx })) ∧
    ((∀ j, j < v.rootDirEntries.toNat → ¬ EntryNamed s.mem name j) → ∃ cx,
      fatSearchRoot v name s = some (true, { s with ecx := cx })) := by
  have hcount := toNat_pos hpos
  have hlt := v.rootDirEntries.isLt
  have hstart : (v.rootDirEntries, (0 : Half)) =
      (BitVec.ofNat 16 (v.rootDirEntries.toNat - 0), BitVec.ofNat 16 (32 * 0)) := by
    rw [Nat.sub_zero, BitVec.ofNat_toNat, BitVec.setWidth_eq]
    rfl
  constructor
  · intro j hj
    have hinside := hj.inside
    have hfuel : j - 0 < 65536 := by omega
    have hrun := search_found hes hn (Nat.zero_le j) hj hfuel
    rw [← hstart] at hrun
    have h26 : linear s.es (BitVec.ofNat 16 (32 * j) + fatEntryStart) = rootEntry j + 26 :=
      linear_entry hes (by omega) (by decide)
    have h28 : linear s.es (BitVec.ofNat 16 (32 * j) + fatEntrySize) = rootEntry j + 28 :=
      linear_entry hes (by omega) (by decide)
    refine ⟨setLo s.ecx (BitVec.ofNat 16 (v.rootDirEntries.toNat - j)), ?_⟩
    rw [fatSearchRoot, hrun]
    dsimp only [Option.bind_eq_bind, Option.bind_some]
    rw [h26, h28]
    rfl
  · intro hnone
    have hfuel : v.rootDirEntries.toNat - 0 ≤ 65536 := by omega
    have hrun := search_missing hes hn hcount hnone hfuel
    rw [← hstart] at hrun
    refine ⟨setLo s.ecx 0, ?_⟩
    rw [fatSearchRoot, hrun]
    rfl

/-! ## Directories that agree -/

section Agree

variable {mem mem' : Bytes} {n : Nat}
  (hsame : ∀ x, diskBuffer ≤ x → x < diskBuffer + 32 * n → mem' x = mem x)
include hsame

theorem entryNamed_congr {i : Nat} (hi : i < n) :
    EntryNamed mem' name i ↔ EntryNamed mem name i := by
  have hbyte : ∀ k, k < 11 → mem' (rootEntry i + k) = mem (rootEntry i + k) := by
    intro k hk
    apply hsame
    · rw [rootEntry]
      omega
    · rw [rootEntry]
      omega
  constructor
  · intro h k hk
    rw [← hbyte k hk]
    exact h k hk
  · intro h k hk
    rw [hbyte k hk]
    exact h k hk

theorem FirstNamed.congr {i : Nat} (h : FirstNamed mem name n i) : FirstNamed mem' name n i := by
  have hinside := h.inside
  refine ⟨hinside, (entryNamed_congr hsame hinside).mpr h.named, ?_⟩
  intro j hj hnamed
  exact h.first j hj ((entryNamed_congr hsame (Nat.lt_trans hj hinside)).mp hnamed)

theorem entryStart_congr {i : Nat} (hi : i < n) : entryStart mem' i = entryStart mem i := by
  have h0 := hsame (rootEntry i + 26) (by rw [rootEntry]; omega) (by rw [rootEntry]; omega)
  have h1 := hsame (rootEntry i + 26 + 1) (by rw [rootEntry]; omega) (by rw [rootEntry]; omega)
  rw [entryStart, entryStart, Bytes.half, Bytes.half, h0, h1]

theorem entrySize_congr {i : Nat} (hi : i < n) : entrySize mem' i = entrySize mem i := by
  have hbyte : ∀ k, k < 4 → mem' (rootEntry i + 28 + k) = mem (rootEntry i + 28 + k) := by
    intro k hk
    apply hsame
    · rw [rootEntry]
      omega
    · rw [rootEntry]
      omega
  have h0 := hbyte 0 (by decide)
  rw [Nat.add_zero] at h0
  rw [entrySize, entrySize, Bytes.word, Bytes.word, h0, hbyte 1 (by decide),
    hbyte 2 (by decide), hbyte 3 (by decide)]

end Agree

end StupidOS.Boot
