import StupidOS.Boot.StpdFs

/-!
# Looking up a name in StupidFS (`loader/stpdfs.inc`)

`stpdfs_search` goes through the entries of the directory at `DISK_BUFFER` and compares the
name of each live one with the string at SI, character by character (`cmpsb`). The inner
loop is left from the middle in two ways, with SI and ECX still on the stack.
-/

namespace StupidOS.Boot

/-! ## The routine -/

/-- Field offset of `DirEntry`. -/
def dirEntryName : Nat := 4

/-- `sizeof.DirEntry` -/
def sizeofDirEntry : Word := 32

/-- The processor state with EDI, which only the string instructions use. -/
structure SearchCpu extends Cpu where
  edi : Word

/-- `push ecx` and `pop ecx`: a register takes two entries of the stack. -/
def Cpu.pushWord (s : Cpu) (r : Word) : Cpu := (s.push (r.extractLsb' 16 16)).push (lo r)

def Cpu.popWord (s : Cpu) : Option (Word × Cpu) := do
  let (low, s) ← s.pop
  let (high, s) ← s.pop
  return (high ++ low, s)

/-- One pass of `.strcmp`. It leaves with `true` for `.kernel_found`, and with `false` for
`.strcmp_not_equal`. -/
def strcmpPass (s : SearchCpu) : Option (Pass SearchCpu (Bool × SearchCpu)) :=
  let al := s.mem (lo s.esi).toNat
  -- `cmpsb`
  let equal := al = s.mem (linear s.es (lo s.edi))
  let s := { s with
    eax := setLo s.eax (highByte s.eax ++ al)
    esi := setLo s.esi (lo s.esi + 1)
    edi := setLo s.edi (lo s.edi + 1) }
  if ¬ equal then some (.done (false, s))
  else if al = 0 then some (.done (true, s))
  else some (.again s)

variable (v : LoaderData)

/-- `.search_next` -/
def searchNext (s : SearchCpu) : Option SearchCpu := do
  let (ecx, t) ← s.popWord
  return { s with toCpu := { t with ecx := ecx + sizeofDirEntry } }

/-- One pass of `.search_loop`, with at most `chars` passes of the inner loop. It leaves
with the carry flag. -/
def searchPass (chars : Nat) (s : SearchCpu) : Option (Pass SearchCpu (Bool × Option Exit)) :=
  -- `jge .search_end`
  if ¬ s.ecx.slt (v.inodeCache.word inodeSize) then
    some (.done (true, s.ret))
  else do
    let s := { s with toCpu := s.pushWord s.ecx }
    let s := { s with eax := BitVec.ofNat 32 diskBuffer + s.ecx }
    let s := { s with edx := s.mem.word s.eax.toNat }
    if s.edx = 0 then
      let s ← searchNext s
      return .again s
    else
      let s := { s with edi := s.eax + BitVec.ofNat 32 dirEntryName }
      let s := { s with toCpu := s.push (lo s.esi) }
      let (found, s) ← iterate strcmpPass chars s
      let (si, t) ← s.pop
      let s := { s with toCpu := { t with esi := setLo t.esi si } }
      if found then
        -- `.kernel_found`
        let (ecx, t) ← s.popWord
        let s := { s with toCpu := { t with ecx := ecx, eax := t.edx } }
        return .done (false, s.ret)
      else
        let s ← searchNext s
        return .again s

/-- `stpdfs_search`, with at most `entries` passes of the outer loop. -/
def stpdfsSearch (chars entries : Nat) (s : SearchCpu) : Option (Bool × Option Exit) :=
  iterate (searchPass v chars) entries
    { s with toCpu := { s.toCpu with eax := setLo s.eax 0, es := 0, ecx := 0 } }

/-! ## The directory -/

/-- The address of entry `i`. -/
def entryAddr (i : Nat) : Nat := diskBuffer + 32 * i

/-- The inode number of entry `i`. -/
def entryInum (m : Bytes) (i : Nat) : Word := m.word (entryAddr i)

/-- Character `k` of the name of entry `i`. -/
def entryName (m : Bytes) (i k : Nat) : Byte := m (entryAddr i + dirEntryName + k)

/-- Character `k` of the string at `si`. -/
def targetName (m : Bytes) (si : Half) (k : Nat) : Byte := m (si + BitVec.ofNat 16 k).toNat

/-- Two C strings are the same. -/
def CStrEq (a b : Nat → Byte) : Prop := ∃ n, a n = 0 ∧ ∀ k, k ≤ n → a k = b k

/-- Entry `i` is live and has the name at `si`. -/
structure EntryMatches (m : Bytes) (si : Half) (i : Nat) : Prop where
  live : entryInum m i ≠ 0
  name : CStrEq (targetName m si) (entryName m i)

/-- A directory of whole entries, and a name that is not too long for an entry. -/
structure Searchable (v : LoaderData) (s : SearchCpu) : Prop where
  entries : fileSize v % 32 = 0
  size : fileSize v ≤ 0x7000
  target : ∃ n, n ≤ 27 ∧ targetName s.mem (lo s.esi) n = 0

/-- What the search returns to its caller, whose return address was pushed on `stack`. -/
structure SearchResult (v : LoaderData) (s : SearchCpu) (carry : Bool) (s' : Cpu) : Prop where
  stack : s'.stack = s.stack
  mem : s'.mem = s.mem
  si : lo s'.esi = lo s.esi
  missing : carry = true ↔
    ∀ i, i < fileSize v / 32 → ¬ EntryMatches s.mem (lo s.esi) i
  found : carry = false → ∃ i, i < fileSize v / 32 ∧ EntryMatches s.mem (lo s.esi) i ∧
    (∀ j, j < i → ¬ EntryMatches s.mem (lo s.esi) j) ∧ s'.eax = entryInum s.mem i

/-! ## Comparing two names -/

theorem popWord_pushWord {s t : Cpu} {r : Word} (h : t.stack = (s.pushWord r).stack) :
    t.popWord = some (r, { t with stack := s.stack }) := by
  have happend : r.extractLsb' 16 16 ++ lo r = r := by
    have hset := setLo_lo r
    rw [setLo] at hset
    exact hset
  simp only [Cpu.popWord, Cpu.pop, h, Cpu.pushWord, Cpu.push, Option.bind_eq_bind,
    Option.bind_some, Option.pure_def, happend]

/-- What the inner loop leaves of its state. -/
structure Compared (s s' : SearchCpu) : Prop where
  stack : s'.stack = s.stack
  mem : s'.mem = s.mem
  es : s'.es = s.es
  edx : s'.edx = s.edx

/-- `j` characters have been compared, and were equal. -/
structure ComparedAt (a b : Nat → Byte) (si di : Half) (s : SearchCpu) (j : Nat)
    (t : SearchCpu) : Prop where
  kept : Compared s t
  si : lo t.esi = si + BitVec.ofNat 16 j
  di : lo t.edi = di + BitVec.ofNat 16 j
  same : ∀ k, k < j → a k = b k ∧ a k ≠ 0

theorem strcmpPass_step {a b : Nat → Byte} {si di : Half} {s t : SearchCpu} {j : Nat}
    (ha : t.mem (lo t.esi).toNat = a j) (hb : t.mem (linear t.es (lo t.edi)) = b j)
    (h : ComparedAt a b si di s j t) :
    ∃ t', Compared s t' ∧
      (a j ≠ b j ∧ strcmpPass t = some (.done (false, t')) ∨
        a j = b j ∧ a j = 0 ∧ strcmpPass t = some (.done (true, t')) ∨
        ComparedAt a b si di s (j + 1) t' ∧ strcmpPass t = some (.again t')) := by
  let t' : SearchCpu := { t with
    eax := setLo t.eax (highByte t.eax ++ a j)
    esi := setLo t.esi (lo t.esi + 1)
    edi := setLo t.edi (lo t.edi + 1) }
  have hkept : Compared s t' := ⟨h.kept.stack, h.kept.mem, h.kept.es, h.kept.edx⟩
  have hsucc : BitVec.ofNat 16 (j + 1) = BitVec.ofNat 16 j + 1 := ofNat_succ j
  refine ⟨t', hkept, ?_⟩
  by_cases hne : a j = b j
  · by_cases hzero : a j = 0
    · refine Or.inr (Or.inl ⟨hne, hzero, ?_⟩)
      simp only [strcmpPass, ha, hb, hne, not_true, if_false, t']
      rw [if_pos (hne ▸ hzero)]
    · refine Or.inr (Or.inr ⟨⟨hkept, ?_, ?_, ?_⟩, ?_⟩)
      · rw [hsucc, ← BitVec.add_assoc, ← h.si]
        exact lo_setLo _ _
      · rw [hsucc, ← BitVec.add_assoc, ← h.di]
        exact lo_setLo _ _
      · intro k hk
        rcases Nat.lt_succ_iff_lt_or_eq.mp hk with hlt | heq
        · exact h.same k hlt
        · rw [heq]
          exact ⟨hne, hzero⟩
      · simp only [strcmpPass, ha, hb, hne, not_true, if_false, t']
        rw [if_neg (hne ▸ hzero)]
  · refine Or.inl ⟨hne, ?_⟩
    simp only [strcmpPass, ha, hb, hne, not_false_iff, if_true, t']

/-- The comparison ends at the first difference or at the end of the target, which is
within the entry, and it is right. -/
theorem strcmp_run {a b : Nat → Byte} {si di : Half} {s : SearchCpu} {n chars : Nat}
    (hsi : lo s.esi = si) (hdi : lo s.edi = di) (hend : a n = 0) (hchars : n < chars)
    (ha : ∀ k, k ≤ n → s.mem (si + BitVec.ofNat 16 k).toNat = a k)
    (hb : ∀ k, k ≤ n → s.mem (linear s.es (di + BitVec.ofNat 16 k)) = b k) :
    ∃ r, iterate strcmpPass chars s = some r ∧ Compared s r.2 ∧
      (r.1 = true ↔ CStrEq a b) := by
  have hstart : ComparedAt a b si di s 0 s := by
    refine ⟨⟨rfl, rfl, rfl, rfl⟩, ?_, ?_, ?_⟩
    · rw [hsi]
      exact (BitVec.add_zero si).symm
    · rw [hdi]
      exact (BitVec.add_zero di).symm
    · intro k hk
      exact absurd hk (Nat.not_lt_zero k)
  -- the measure is the number of characters up to the end of the target
  apply iterate_total (k := n) (fun m t => ∃ j, j + m = n ∧ ComparedAt a b si di s j t) _ ?_
    ⟨0, by omega, hstart⟩ hchars
  intro m t hinv
  rcases hinv with ⟨j, hjm, hj⟩
  have haj : t.mem (lo t.esi).toNat = a j := by
    rw [hj.kept.mem, hj.si]
    exact ha j (by omega)
  have hbj : t.mem (linear t.es (lo t.edi)) = b j := by
    rw [hj.kept.mem, hj.kept.es, hj.di]
    exact hb j (by omega)
  rcases strcmpPass_step haj hbj hj with ⟨t', hkept, hcases⟩
  rcases hcases with ⟨hne, hpass⟩ | ⟨heq, hzero, hpass⟩ | ⟨hnext, hpass⟩
  · left
    refine ⟨(false, t'), hpass, hkept, iff_of_false Bool.false_ne_true ?_⟩
    intro hsame
    rcases hsame with ⟨l, hl, hall⟩
    rcases Nat.lt_or_ge l j with hlt | hge
    · exact (hj.same l hlt).2 hl
    · exact hne (hall j hge)
  · left
    refine ⟨(true, t'), hpass, hkept, iff_of_true rfl ⟨j, hzero, ?_⟩⟩
    intro k hk
    rcases Nat.lt_or_eq_of_le hk with hlt | hlast
    · exact (hj.same k hlt).1
    · rw [hlast]
      exact heq
  · right
    have hne : j ≠ n := by
      intro heq
      exact (hnext.same j (Nat.lt_succ_self j)).2 (heq ▸ hend)
    exact ⟨t', m - 1, hpass, by omega, j + 1, by omega, hnext⟩

/-! ## Going through the entries -/

/-- The entries below `i` do not match. -/
structure SearchAt (v : LoaderData) (s : SearchCpu) (i : Nat) (t : SearchCpu) : Prop where
  stack : t.stack = s.stack
  mem : t.mem = s.mem
  es : t.es = 0
  si : lo t.esi = lo s.esi
  ecx : t.ecx.toNat = 32 * i
  before : ∀ j, j < i → ¬ EntryMatches s.mem (lo s.esi) j

variable {v}

/-- The address of an entry, and that of its name. -/
theorem entry_addresses {i : Nat} {ecx : Word} (hecx : ecx.toNat = 32 * i) (hi : 32 * i < 0x7000) :
    (BitVec.ofNat 32 diskBuffer + ecx).toNat = entryAddr i ∧
      lo (BitVec.ofNat 32 diskBuffer + ecx + BitVec.ofNat 32 dirEntryName)
        = BitVec.ofNat 16 (entryAddr i + dirEntryName) := by
  have haddr : (BitVec.ofNat 32 diskBuffer + ecx).toNat = entryAddr i := by
    rw [BitVec.toNat_add, BitVec.toNat_ofNat, hecx, entryAddr, diskBuffer]
    omega
  refine ⟨haddr, ?_⟩
  apply lo_of_toNat
  rw [BitVec.toNat_add, haddr, BitVec.toNat_ofNat, entryAddr, diskBuffer, dirEntryName]
  omega

/-- What `.strcmp` compares with is the name of the entry. -/
theorem entryName_eq {m : Bytes} {i k : Nat} (hi : 32 * i < 0x7000) (hk : k ≤ 27) :
    m (linear 0 (BitVec.ofNat 16 (entryAddr i + dirEntryName) + BitVec.ofNat 16 k))
      = entryName m i k := by
  have haddr : linear 0 (BitVec.ofNat 16 (entryAddr i + dirEntryName) + BitVec.ofNat 16 k)
      = entryAddr i + dirEntryName + k := by
    have hes : (0 : Half).toNat = 0 := rfl
    rw [linear, hes, BitVec.toNat_add, BitVec.toNat_ofNat, BitVec.toNat_ofNat, entryAddr,
      diskBuffer, dirEntryName]
    omega
  rw [haddr, entryName]

/-- `.search_next` takes ECX from the stack again. -/
theorem searchNext_eq {s : Cpu} {t : SearchCpu} {r : Word}
    (h : t.stack = (s.pushWord r).stack) :
    searchNext t = some { t with stack := s.stack, ecx := r + sizeofDirEntry } := by
  rw [searchNext, popWord_pushWord h]
  rfl

theorem SearchAt.next {s t t' : SearchCpu} {i : Nat} (h : SearchAt v s i t)
    (hi : 32 * i < 0x7000) (hnot : ¬ EntryMatches s.mem (lo s.esi) i)
    (hstack : t'.stack = t.stack) (hmem : t'.mem = t.mem) (hes : t'.es = t.es)
    (hsi : lo t'.esi = lo t.esi) (hecx : t'.ecx = t.ecx + sizeofDirEntry) :
    SearchAt v s (i + 1) t' := by
  refine ⟨hstack.trans h.stack, hmem.trans h.mem, hes.trans h.es, hsi.trans h.si, ?_, ?_⟩
  · have hsize : sizeofDirEntry.toNat = 32 := rfl
    rw [hecx, BitVec.toNat_add, h.ecx, hsize]
    omega
  · intro j hj
    rcases Nat.lt_succ_iff_lt_or_eq.mp hj with hlt | heq
    · exact h.before j hlt
    · rw [heq]
      exact hnot

/-- The test of `.search_loop`. -/
theorem SearchAt.ecx_slt {i : Nat} {s t : SearchCpu} (hsize : fileSize v ≤ 0x7000)
    (h : SearchAt v s i t) (hi : 32 * i ≤ 0x7000) :
    t.ecx.slt (v.inodeCache.word inodeSize) = decide (32 * i < fileSize v) := by
  have hecx := h.ecx
  rw [fileSize] at hsize ⊢
  rw [slt_of_lt (by omega) (by omega), hecx]

theorem searchPass_end {chars i : Nat} {s t : SearchCpu} (hsize : fileSize v ≤ 0x7000)
    (h : SearchAt v s i t) (hi : fileSize v ≤ 32 * i) (hle : 32 * i ≤ 0x7000) :
    searchPass v chars t = some (.done (true, t.ret)) := by
  have hge : ¬ t.ecx.slt (v.inodeCache.word inodeSize) = true := by
    rw [h.ecx_slt hsize hle, decide_eq_true_iff]
    omega
  rw [searchPass, if_pos hge]

/-- A dead entry is passed over. -/
theorem searchPass_dead (chars : Nat) {i : Nat} {s t : SearchCpu} (hsize : fileSize v ≤ 0x7000)
    (h : SearchAt v s i t) (hi : 32 * i < fileSize v) (hdead : entryInum s.mem i = 0) :
    ∃ t', SearchAt v s (i + 1) t' ∧ searchPass v chars t = some (.again t') := by
  have hgo : t.ecx.slt (v.inodeCache.word inodeSize) = true := by
    rw [h.ecx_slt hsize (by omega)]
    exact decide_eq_true hi
  have hedx : t.mem.word (BitVec.ofNat 32 diskBuffer + t.ecx).toNat = 0 := by
    rw [(entry_addresses h.ecx (by omega)).1, h.mem]
    exact hdead
  let u : SearchCpu := { t with
    toCpu := { t.pushWord t.ecx with eax := BitVec.ofNat 32 diskBuffer + t.ecx, edx := 0 } }
  have hnext : searchNext u = _ := searchNext_eq (s := t.toCpu) (r := t.ecx) rfl
  refine ⟨{ u with stack := t.stack, ecx := t.ecx + sizeofDirEntry },
    h.next (by omega) (fun hm => hm.live hdead) rfl rfl rfl rfl rfl, ?_⟩
  rw [searchPass, if_neg (fun hnot => hnot hgo)]
  simp only [u, Cpu.pushWord, Cpu.push] at hnext
  simp only [Cpu.pushWord, Cpu.push, hedx, if_true]
  rw [hnext]
  rfl

/-- A live entry ends the search or is passed over, as its name says. -/
theorem searchPass_live {chars i : Nat} {s t : SearchCpu} (hs : Searchable v s)
    (hchars : 28 ≤ chars) (h : SearchAt v s i t) (hi : 32 * i < fileSize v)
    (hlive : entryInum s.mem i ≠ 0) :
    EntryMatches s.mem (lo s.esi) i ∧ (∃ t' : SearchCpu, t'.stack = s.stack ∧ t'.mem = s.mem ∧
        lo t'.esi = lo s.esi ∧ t'.eax = entryInum s.mem i ∧
        searchPass v chars t = some (.done (false, t'.ret))) ∨
      ∃ t', SearchAt v s (i + 1) t' ∧ searchPass v chars t = some (.again t') := by
  have hsize := hs.size
  have hgo : t.ecx.slt (v.inodeCache.word inodeSize) = true := by
    rw [h.ecx_slt hsize (by omega)]
    exact decide_eq_true hi
  rcases entry_addresses h.ecx (by omega) with ⟨haddr, hdi⟩
  have hedx : t.mem.word (BitVec.ofNat 32 diskBuffer + t.ecx).toNat = entryInum s.mem i := by
    rw [haddr, h.mem]
    rfl
  -- the state in front of `.strcmp`
  let u : SearchCpu := { t with
    eax := BitVec.ofNat 32 diskBuffer + t.ecx
    edx := entryInum s.mem i
    edi := BitVec.ofNat 32 diskBuffer + t.ecx + BitVec.ofNat 32 dirEntryName
    stack := .half (lo t.esi) :: (t.pushWord t.ecx).stack }
  rcases hs.target with ⟨n, hn, hend⟩
  have hnames : ∀ k, k ≤ n → u.mem (linear u.es
      (BitVec.ofNat 16 (entryAddr i + dirEntryName) + BitVec.ofNat 16 k)) = entryName s.mem i k := by
    intro k hk
    have hes : u.es = 0 := h.es
    have hmem : u.mem = s.mem := h.mem
    rw [hes, hmem]
    exact entryName_eq (by omega) (by omega)
  have htarget : ∀ k, k ≤ n → u.mem (lo s.esi + BitVec.ofNat 16 k).toNat
      = targetName s.mem (lo s.esi) k := by
    intro k _
    have hmem : u.mem = s.mem := h.mem
    rw [hmem, targetName]
  have hfuel : n < chars := by omega
  rcases strcmp_run (s := u) h.si hdi hend hfuel htarget hnames with
    ⟨⟨equal, w⟩, hrun, hkept, hequal⟩
  dsimp only at hkept hequal
  simp only [u, Cpu.pushWord, Cpu.push] at hrun hkept
  have hpop : w.pop = some (lo t.esi, { w.toCpu with stack := (t.pushWord t.ecx).stack }) := by
    rw [Cpu.pop, hkept.stack]
    rfl
  -- the state behind `pop si`
  let x : SearchCpu := { w with
    stack := (t.pushWord t.ecx).stack
    esi := setLo w.esi (lo t.esi) }
  have hsi : lo x.esi = lo s.esi := (lo_setLo _ _).trans h.si
  have hmem : x.mem = s.mem := hkept.mem.trans h.mem
  cases equal with
  | true =>
      have hword := popWord_pushWord (s := t.toCpu) (t := x.toCpu) (r := t.ecx) rfl
      refine Or.inl ⟨⟨hlive, hequal.mp rfl⟩, { x with
        stack := t.stack, ecx := t.ecx, eax := x.edx }, h.stack, hmem, hsi, hkept.edx, ?_⟩
      rw [searchPass, if_neg (fun hnot => hnot hgo)]
      simp only [Cpu.pushWord, Cpu.push, hedx, if_neg hlive]
      rw [hrun]
      simp only [x] at hword
      simp only [Option.bind_eq_bind, Option.bind_some, hpop, if_true, hword]
      rfl
  | false =>
      have hnext := searchNext_eq (s := t.toCpu) (t := x) (r := t.ecx) rfl
      have hnot : ¬ EntryMatches s.mem (lo s.esi) i := by
        intro hm
        exact Bool.false_ne_true (hequal.mpr hm.name)
      refine Or.inr ⟨{ x with stack := t.stack, ecx := t.ecx + sizeofDirEntry },
        h.next (by omega) hnot rfl hkept.mem hkept.es (lo_setLo _ _) rfl, ?_⟩
      rw [searchPass, if_neg (fun hnot => hnot hgo)]
      simp only [Cpu.pushWord, Cpu.push, hedx, if_neg hlive]
      rw [hrun]
      simp only [x] at hnext
      simp only [Option.bind_eq_bind, Option.bind_some, hpop, Bool.false_eq_true, if_false, hnext]
      rfl

/-! ## The whole search -/

/-- The loop leaves with the first entry that matches, or with carry set. -/
theorem search_run {chars entries : Nat} {s t : SearchCpu} (hs : Searchable v s)
    (hchars : 28 ≤ chars) (hentries : fileSize v / 32 < entries) (h : SearchAt v s 0 t) :
    ∃ r, iterate (searchPass v chars) entries t = some r ∧ ∃ t' : SearchCpu, r.2 = t'.ret ∧
      t'.stack = s.stack ∧ t'.mem = s.mem ∧ lo t'.esi = lo s.esi ∧
      (r.1 = true ∧ (∀ i, i < fileSize v / 32 → ¬ EntryMatches s.mem (lo s.esi) i) ∨
        r.1 = false ∧ ∃ i, i < fileSize v / 32 ∧ EntryMatches s.mem (lo s.esi) i ∧
          (∀ j, j < i → ¬ EntryMatches s.mem (lo s.esi) j) ∧ t'.eax = entryInum s.mem i) := by
  have hsize := hs.size
  have hwhole := hs.entries
  -- the measure is the number of entries still to come
  apply iterate_total (k := fileSize v / 32)
    (fun m t => ∃ i, i + m = fileSize v / 32 ∧ SearchAt v s i t) _ ?_ ⟨0, by omega, h⟩ hentries
  intro m t hinv
  rcases hinv with ⟨i, him, hi⟩
  by_cases hend : i = fileSize v / 32
  · left
    refine ⟨(true, t.ret), searchPass_end hsize hi (by omega) (by omega), t, rfl, hi.stack,
      hi.mem, hi.si, Or.inl ⟨rfl, ?_⟩⟩
    rw [← hend]
    exact hi.before
  · have hgoes : ∀ t', SearchAt v s (i + 1) t' → searchPass v chars t = some (.again t') →
        ∃ t' k, searchPass v chars t = some (.again t') ∧ k < m ∧
          ∃ i, i + k = fileSize v / 32 ∧ SearchAt v s i t' := by
      intro t' hnext hpass
      exact ⟨t', m - 1, hpass, by omega, i + 1, by omega, hnext⟩
    by_cases hdead : entryInum s.mem i = 0
    · rcases searchPass_dead chars hsize hi (by omega) hdead with ⟨t', hnext, hpass⟩
      exact Or.inr (hgoes t' hnext hpass)
    · rcases searchPass_live hs hchars hi (by omega) hdead with
        ⟨hmatches, t', hstack, hmem, hsi, heax, hpass⟩ | ⟨t', hnext, hpass⟩
      · exact Or.inl ⟨_, hpass, t', rfl, hstack, hmem, hsi,
          Or.inr ⟨rfl, i, by omega, hmatches, hi.before, heax⟩⟩
      · exact Or.inr (hgoes t' hnext hpass)

/-- **Looking up a name.** The search ends, after at most one pass over the entries and at
most 28 comparisons for each, with the stack balanced and the inode number of the first
live entry that has the name, or with carry set if there is none. -/
theorem stpdfsSearch_spec (s : SearchCpu) (hs : Searchable v s) {chars entries : Nat}
    (hchars : 28 ≤ chars) (hentries : fileSize v / 32 < entries) :
    ∃ carry s', stpdfsSearch v chars entries { s with stack := .ret :: s.stack }
        = some (carry, some (.returned s')) ∧ SearchResult v s carry s' := by
  let s₀ : SearchCpu := { s with stack := .ret :: s.stack }
  have hs₀ : Searchable v s₀ := ⟨hs.entries, hs.size, hs.target⟩
  have hstart : SearchAt v s₀ 0 { s₀ with eax := setLo s.eax 0, es := 0, ecx := 0 } := by
    refine ⟨rfl, rfl, rfl, rfl, rfl, ?_⟩
    intro j hj
    exact absurd hj (Nat.not_lt_zero j)
  rcases search_run hs₀ hchars hentries hstart with
    ⟨⟨carry, e⟩, hrun, t, he, hstack, hmem, hsi, hcases⟩
  dsimp only at he hcases
  have hret : t.ret = some (.returned { t.toCpu with stack := s.stack }) := by
    rw [Cpu.ret, hstack]
  rw [he, hret] at hrun
  refine ⟨carry, { t.toCpu with stack := s.stack }, hrun, rfl, hmem, hsi, ?_, ?_⟩
  · rcases hcases with ⟨hset, hnone⟩ | ⟨hclear, i, hi, hmatches, _⟩
    · exact iff_of_true hset hnone
    · rw [hclear]
      exact iff_of_false Bool.false_ne_true (fun hnone => hnone i hi hmatches)
  · intro hclear
    rcases hcases with ⟨hset, _⟩ | ⟨_, hfound⟩
    · rw [hset] at hclear
      cases hclear
    · exact hfound

/-- A directory with the live entry `a`, number 7, behind a dead one; SI points at `a`. -/
def searchStart : SearchCpu where
  eax := 0
  ebx := 0
  ecx := 0
  edx := 0
  esi := 0x1000
  edi := 0
  es := 0
  stack := []
  mem := fun x => if x = 0x1000 ∨ x = 0x8024 then 97 else if x = 0x8020 then 7 else 0
  calls := 0
  transfers := []
  requests := []

theorem stpdfsSearch_spec_second :
    ∃ carry s', stpdfsSearch (fileData true8 64) 28 3 { searchStart with stack := [.ret] }
        = some (carry, some (.returned s')) ∧
      SearchResult (fileData true8 64) searchStart carry s' := by
  have hs : Searchable (fileData true8 64) searchStart :=
    ⟨by decide, by decide, 1, by decide, by decide⟩
  exact stpdfsSearch_spec searchStart hs (by decide) (by decide)

end StupidOS.Boot
