import StupidOS.Ar.Header
import StupidOS.Lib.Traced

/-!
# What `archive_get_entry_hdr` touches (`archive.c`)

`archive_get_entry_hdr` once more, with a log of the bytes that it stores and of those that it
reads through `tmp`. The length behind `#1/` is used as it comes out of `atoi`, and nothing stops
`tmp` at the start of the name; `getEntryHdr_safe_iff` says for which headers that does no harm.
-/

namespace StupidOS.Ar

/-! ## Accesses -/

/-- A byte stored to `hdr`, `buf` or `*entry_hdr`, or read through `tmp`, which points into the name. -/
inductive HdrAccess where
  | hdr (off : Int)
  | buf (off : Nat)
  | entry (off : Int)
  | tmp (off : Int)
deriving DecidableEq, Repr

/-- The bytes of the fields of `struct archive_entry_hdr`; between them there is padding. -/
def InField (off : Int) : Prop :=
  0 ≤ off ∧ off < 4 ∨ 8 ≤ off ∧ off < 26 ∨ 32 ≤ off ∧ off < 40 + 255

/-- The byte belongs to the object. -/
def HdrAccess.Inside : HdrAccess → Prop
  | .hdr off => 0 ≤ off ∧ off < 60
  | .buf off => off < 13
  | .entry off => InField off
  | .tmp off => 0 ≤ off

/-! ## `archive.c` -/

namespace Watched

variable (sys : Nat → ReadResult)

/-- The loop of `read_data`. -/
def readData (acc : Int → HdrAccess) (off size : Int) :
    Nat → ReadState → Traced HdrAccess ReadState
  | 0, _ => Traced.cut
  | fuel + 1, s => do
    let (rbytes, bytes, fd) := s.fd.read sys ((size - s.total) % 2 ^ 64).toNat
    if rbytes = 0 then pure { s with fd }
    else do
      Traced.note ((List.range bytes.length).map fun i : Nat => acc (off + s.total + i))
      let s := ⟨fd, s.buff.store (off + s.total) bytes, s.total + rbytes⟩
      if s.total ≥ size then pure s else readData acc off size fuel s

/-- The loop that clears the blanks. -/
def trim : Nat → Obj × Int → Traced HdrAccess Obj
  | 0, _ => Traced.cut
  | fuel + 1, s => do
    Traced.note [.tmp (s.2 - entryName)]
    if s.1 s.2 = blank then do
      Traced.note [.entry s.2]
      trim fuel (s.1.store s.2 [0], s.2 - 1)
    else pure s.1

/-- The `n` bytes of a field. -/
def setField (off n : Nat) : Traced HdrAccess Unit :=
  Traced.note ((List.range n).map fun i : Nat => .entry (off + i))

/-- `AR_STR_TO_NUM` of `len` bytes to a field. -/
def arStrToNum (len off n : Nat) : Traced HdrAccess Unit := do
  Traced.note ((List.range (len + 1)).map .buf)
  setField off n

/-- The last part of `archive_get_entry_hdr`, the name. -/
def getEntryName (fuel : Nat) (fd : Fd) (entry hdr : Obj) : Traced HdrAccess (Int × Obj × Fd) :=
  if hdr.load 0 arExtnameSz = arExtname then do
    let res := atoi (hdr.load arExtnameSz 57)
    let r ← readData sys .entry entryName res fuel ⟨fd, entry, 0⟩
    Traced.note [.entry (entryName + res)]
    let entry := r.buff.store (entryName + res) [0]
    setField 32 8
    pure (1, setSize entry (entrySize entry - res), r.fd)
  else do
    Traced.note ((List.range 16).map fun i : Nat => .entry (entryName + i))
    let entry := entry.store entryName (hdr.load 0 16)
    let entry ← trim fuel (entry, entryName + 15)
    pure (1, entry, fd)

/-- `archive_get_entry_hdr` -/
def archiveGetEntryHdr (fuel : Nat) (fd : Fd) (entry hdr : Obj) :
    Traced HdrAccess (Int × Obj × Fd) := do
  setField 0 4
  let entry := setOffset entry fd.pos
  let r ← readData sys .hdr 0 sarHdr fuel ⟨fd, hdr, 0⟩
  if r.res ≠ sarHdr then
    if r.res = 0 then pure (0, entry, r.fd) else pure (-1, entry, r.fd)
  else if r.buff.load 58 2 ≠ arfmag then pure (-1, entry, r.fd)
  else do
    arStrToNum 12 8 8
    arStrToNum 6 20 4
    arStrToNum 6 16 4
    arStrToNum 8 24 2
    arStrToNum 10 32 8
    getEntryName sys fuel r.fd (setNumbers entry r.buff) r.buff

/-! ## Results -/

theorem result_readData (acc : Int → HdrAccess) (off size : Int) (fuel : Nat) (s : ReadState) :
    (readData sys acc off size fuel s).result = iterate (readPass sys off size) fuel s := by
  induction fuel generalizing s with
  | zero => rfl
  | succ fuel ih =>
      rw [readData, iterate, readPass]
      dsimp only
      generalize s.fd.read sys ((size - s.total) % 2 ^ 64).toNat = p
      by_cases hzero : p.1 = 0
      · rw [if_pos hzero, if_pos hzero]
        rfl
      · rw [if_neg hzero, if_neg hzero, Traced.result_bind_eq]
        change (ite _ _ _ : Traced HdrAccess ReadState).result = _
        split
        · rfl
        · exact ih _

theorem result_trim (fuel : Nat) (s : Obj × Int) :
    (trim fuel s).result = iterate trimPass fuel s := by
  induction fuel generalizing s with
  | zero => rfl
  | succ fuel ih =>
      rw [trim, iterate, trimPass, Traced.result_bind_eq]
      change (ite _ _ _ : Traced HdrAccess Obj).result = _
      by_cases hblank : s.1 s.2 = blank
      · rw [if_pos hblank, if_pos hblank, Traced.result_bind_eq]
        exact ih _
      · rw [if_neg hblank, if_neg hblank]
        rfl

theorem result_getEntryName (fuel : Nat) (fd : Fd) (entry hdr : Obj) :
    (getEntryName sys fuel fd entry hdr).result = Ar.getEntryName sys fuel fd entry hdr := by
  rw [getEntryName, Ar.getEntryName]
  split
  · dsimp only
    rw [Traced.result_bind_eq, result_readData, Ar.readData]
    split <;> next hread => rw [hread]; rfl
  · dsimp only
    rw [Traced.result_bind_eq]
    change ((trim fuel _) >>= _).result = _
    rw [Traced.result_bind_eq, result_trim]
    rcases iterate trimPass fuel _ with _ | e <;> rfl

/-- The log changes nothing. -/
theorem result_archiveGetEntryHdr (fuel : Nat) (fd : Fd) (entry hdr : Obj) :
    (archiveGetEntryHdr sys fuel fd entry hdr).result
      = Ar.archiveGetEntryHdr sys fuel fd entry hdr := by
  rw [archiveGetEntryHdr, Ar.archiveGetEntryHdr, Traced.result_bind_eq]
  change ((readData sys .hdr 0 sarHdr fuel ⟨fd, hdr, 0⟩) >>= _).result = _
  rw [Traced.result_bind_eq, result_readData, Ar.readData]
  split
  next hread =>
    rw [hread]
    rfl
  next r hread =>
    rw [hread, Option.bind_some]
    split
    · split <;> rfl
    · split
      · rfl
      · exact result_getEntryName sys fuel _ _ _

end Watched

/-! ## What is promised -/

/-- The size is that of the header less the length of the extended name, as numbers. -/
def Remaining (h : List Byte) (entry : Obj) : Prop :=
  ∃ len : Nat, hdrSize h = entrySize entry + len ∧
    if HasExt h then hdrLen h = len else len = 0

/-- Nothing is touched outside, and if 1 is returned the size is right. -/
structure HeaderSafe (h : List Byte) (x : Traced HdrAccess (Int × Obj × Fd)) : Prop where
  inside : x.Only HdrAccess.Inside
  size : ∀ entry fd, x.result = some (1, entry, fd) → Remaining h entry

/-- The headers that do no harm: the size is not negative, a name is not all blanks, and the
length of an extended name is that of some part of the data for which there is room. -/
structure SoundHeader (h : List Byte) : Prop where
  size : 0 ≤ hdrSize h
  name : ¬ HasExt h → h.take 16 ≠ List.replicate 16 blank
  len : HasExt h → 0 ≤ hdrLen h ∧ hdrLen h ≤ 254 ∧ hdrLen h ≤ hdrSize h

/-! ## The parts -/

theorem setField_only {off n : Nat} (h : ∀ i, i < n → InField (off + i : Nat)) :
    (Watched.setField off n).Only HdrAccess.Inside := by
  rw [Watched.setField, Traced.only_note]
  intro e he
  rcases List.mem_map.mp he with ⟨i, hi, rfl⟩
  have hfield := h i (List.mem_range.mp hi)
  rw [Int.natCast_add] at hfield
  exact hfield

theorem arStrToNum_only {len off n : Nat} (hlen : len < 13)
    (h : ∀ i, i < n → InField (off + i : Nat)) :
    (Watched.arStrToNum len off n).Only HdrAccess.Inside := by
  rw [Watched.arStrToNum, Traced.only_bind]
  refine ⟨?_, fun _ _ => setField_only h⟩
  rw [Traced.only_note]
  intro e he
  rcases List.mem_map.mp he with ⟨i, hi, rfl⟩
  rw [List.mem_range] at hi
  change i < 13
  omega

/-- With a byte of the name that is not a blank, `tmp` stops there at the latest. -/
theorem trim_only (fuel : Nat) {e : Obj} {j : Nat} (hj : j < 16)
    (h : ∃ i : Nat, i ≤ j ∧ e (40 + i) ≠ blank) :
    (Watched.trim fuel (e, 40 + j)).Only HdrAccess.Inside := by
  induction fuel generalizing e j with
  | zero => exact Traced.only_cut
  | succ fuel ih =>
      rcases h with ⟨i, hi, hother⟩
      rw [Watched.trim, Traced.only_bind]
      refine ⟨?_, fun _ _ => ?_⟩
      · rw [Traced.only_note]
        intro a ha
        rw [List.mem_singleton.mp ha]
        change (0 : Int) ≤ 40 + j - 40
        omega
      · dsimp only
        split
        next hblank =>
          have hlt : i < j := by
            rcases Nat.lt_or_eq_of_le hi with hlt | rfl
            · exact hlt
            · exact absurd hblank hother
          have hprev : (40 : Int) + j - 1 = 40 + (j - 1 : Nat) := by omega
          rw [Traced.only_bind]
          refine ⟨?_, fun _ _ => ?_⟩
          · rw [Traced.only_note]
            intro a ha
            rw [List.mem_singleton.mp ha]
            exact Or.inr (Or.inr ⟨by omega, by omega⟩)
          · rw [hprev]
            refine ih (by omega) ⟨i, by omega, ?_⟩
            rw [Obj.store_out e (Or.inl (by omega))]
            exact hother
        next => exact Traced.only_pure _

/-- With blanks only, `tmp` leaves the name. -/
theorem trim_blanks {fuel : Nat} {e : Obj} {j : Nat} (hfuel : j < fuel)
    (h : ∀ i : Nat, i < j → e (40 + i) = blank) :
    ¬ (Watched.trim fuel (e, 39 + j)).Only HdrAccess.Inside := by
  induction j generalizing e fuel with
  | zero =>
      obtain ⟨fuel, rfl⟩ : ∃ k, fuel = k + 1 := ⟨fuel - 1, by omega⟩
      intro honly
      rw [Watched.trim, Traced.only_bind, Traced.only_note] at honly
      have hfront : (0 : Int) ≤ 39 + (0 : Nat) - 40 := honly.1 _ (List.mem_singleton.mpr rfl)
      omega
  | succ j ih =>
      obtain ⟨fuel, rfl⟩ : ∃ k, fuel = k + 1 := ⟨fuel - 1, by omega⟩
      have haddr : (39 : Int) + ((j + 1 : Nat) : Int) = 40 + j := by omega
      have hprev : (40 : Int) + j - 1 = 39 + j := by omega
      intro honly
      rw [haddr, Watched.trim, Traced.only_bind] at honly
      have hrest := honly.2 () rfl
      dsimp only at hrest
      rw [if_pos (h j (Nat.lt_succ_self j)), Traced.only_bind] at hrest
      have hback := hrest.2 () rfl
      rw [hprev] at hback
      refine ih (by omega) ?_ hback
      intro i hi
      rw [Obj.store_out e (Or.inl (by omega))]
      exact h i (Nat.lt_succ_of_lt hi)

section RegularFile

variable {sys : Nat → ReadResult} (hsys : ReadsFile sys)
include hsys

/-- `read_data` stores to the buffer. -/
theorem readData_only {P : HdrAccess → Prop} {acc : Int → HdrAccess} {off : Int} {n : Nat}
    (hn : n < 2 ^ 63) (hP : ∀ i : Nat, i < n → P (acc (off + i))) (fuel : Nat) {s : ReadState}
    (hs : 0 ≤ s.total ∧ s.total ≤ n) : (Watched.readData sys acc off n fuel s).Only P := by
  induction fuel generalizing s with
  | zero => exact Traced.only_cut
  | succ fuel ih =>
      rcases Fd.read_spec hsys s.fd (((n : Int) - s.total) % 2 ^ 64).toNat with
        ⟨k, hk, -, -, hread⟩
      have hlen : (s.fd.rest.take k).length ≤ k := by
        rw [List.length_take]
        omega
      rw [Watched.readData, hread]
      dsimp only
      split
      next => exact Traced.only_pure _
      next =>
        rw [Traced.only_bind]
        refine ⟨?_, fun _ _ => ?_⟩
        · rw [Traced.only_note]
          intro e he
          rcases List.mem_map.mp he with ⟨i, hi, rfl⟩
          rw [List.mem_range] at hi
          have hat := hP (s.total.toNat + i) (by omega)
          have haddr : off + ((s.total.toNat + i : Nat) : Int) = off + s.total + i := by omega
          rw [haddr] at hat
          exact hat
        · split
          next => exact Traced.only_pure _
          next => exact ih ⟨by dsimp only; omega, by dsimp only; omega⟩

variable {fd : Fd} {h tail : List Byte} (hrest : fd.rest = h ++ tail) (hh : IsHeader h)
include hrest hh

/-- Up to the name everything is inside. -/
theorem getEntryHdr_only_iff (entry hdr : Obj) {fuel : Nat} (hfuel : 60 < fuel) : ∃ calls,
    (Watched.archiveGetEntryHdr sys fuel fd entry hdr).Only HdrAccess.Inside ↔
      (Watched.getEntryName sys fuel ⟨fd.data, fd.pos + 60, calls⟩ (numbered entry fd.pos h)
        (hdr.store 0 h)).Only HdrAccess.Inside := by
  rcases readData_header hsys hrest hh hdr hfuel with ⟨calls, hread⟩
  have hresult := (Watched.result_readData sys .hdr 0 sarHdr fuel ⟨fd, hdr, 0⟩).trans hread
  have honly : (Watched.readData sys .hdr 0 sarHdr fuel ⟨fd, hdr, 0⟩).Only HdrAccess.Inside := by
    refine readData_only hsys (by decide) ?_ fuel ⟨Int.le_refl 0, Int.natCast_nonneg sarHdr⟩
    intro i hi
    rw [sarHdr] at hi
    exact ⟨by omega, by omega⟩
  have hsixty : ¬ ((60 : Nat) : Int) ≠ sarHdr := not_not_intro rfl
  refine ⟨calls, ?_⟩
  rw [Watched.archiveGetEntryHdr,
    Traced.only_bind_of (setField_only fun i hi => Or.inl (by omega)) rfl,
    Traced.only_bind_of honly hresult, res_natCast _ _ (by decide), if_neg hsixty]
  dsimp only
  rw [if_neg (not_not_intro (hh.load_mag hdr)), hh.setNumbers_eq,
    Traced.only_bind_of (arStrToNum_only (by decide) fun i hi => Or.inr (Or.inl (by omega))) rfl,
    Traced.only_bind_of (arStrToNum_only (by decide) fun i hi => Or.inr (Or.inl (by omega))) rfl,
    Traced.only_bind_of (arStrToNum_only (by decide) fun i hi => Or.inr (Or.inl (by omega))) rfl,
    Traced.only_bind_of (arStrToNum_only (by decide) fun i hi => Or.inr (Or.inl (by omega))) rfl,
    Traced.only_bind_of (arStrToNum_only (by decide) fun i hi => Or.inr (Or.inr (by omega))) rfl]

/-- What is returned for any header. -/
theorem getEntryHdr_returns (entry hdr : Obj) {fuel : Nat} (hfuel : 2 ^ 31 ≤ fuel) :
    ∃ entry' fd', archiveGetEntryHdr sys fuel fd entry hdr = some (1, entry', fd') ∧
      (¬ HasExt h → (entrySize entry' : Int) = hdrSize h % 2 ^ 64) ∧
      (HasExt h → 0 ≤ hdrLen h →
        (entrySize entry' : Int) = (hdrSize h - hdrLen h) % 2 ^ 64) := by
  have hsize := entrySize_numbered entry fd.pos hh.length
  by_cases hext : HasExt h
  · by_cases hneg : hdrLen h < 0
    · rcases getEntryHdr_neg hsys hrest hh hext hneg entry hdr (show 60 < fuel by omega) with
        ⟨k, calls, -, -, -, hget⟩
      exact ⟨_, _, hget, fun hnot => absurd hext hnot, fun _ hpos => absurd hneg (by omega)⟩
    · obtain ⟨len, hlen⟩ : ∃ len : Nat, hdrLen h = len := ⟨(hdrLen h).toNat, by omega⟩
      have hbound := hdrLen_bound h
      rcases getEntryHdr_ext hsys hrest hh hext hlen entry hdr (show 60 < fuel by omega)
        (show len < fuel by omega) with ⟨calls, hget⟩
      refine ⟨_, _, hget, fun hnot => absurd hext hnot, fun _ _ => ?_⟩
      rw [entrySize_named, hsize, hlen, Int.emod_sub_emod]
  · rcases getEntryHdr_short hsys hrest hh hext entry hdr (show 60 < fuel by omega) with
      ⟨calls, hget⟩
    refine ⟨_, _, hget, fun _ => ?_, fun h' => absurd h' hext⟩
    rw [entrySize_store _ (by decide), hsize]

omit hsys hrest in
/-- A short name stays inside if it is not all blanks. -/
theorem getEntryName_plain_only (hplain : ¬ HasExt h) (fd : Fd) (entry hdr : Obj) (pos : Int)
    {fuel : Nat} (hfuel : 60 < fuel) :
    (Watched.getEntryName sys fuel fd (numbered entry pos h) (hdr.store 0 h)).Only
      HdrAccess.Inside ↔ h.take 16 ≠ List.replicate 16 blank := by
  have hplain' : ¬ (hdr.store 0 h).load 0 arExtnameSz = arExtname := by
    rw [hh.load_ext]
    exact hplain
  have hlen : (h.take 16).length = 16 := by
    rw [List.length_take, hh.length]
    rfl
  have hcopy : (Traced.note ((List.range 16).map fun i : Nat =>
      HdrAccess.entry (entryName + i))).Only HdrAccess.Inside := by
    rw [Traced.only_note]
    intro e he
    rcases List.mem_map.mp he with ⟨i, hi, rfl⟩
    rw [List.mem_range] at hi
    exact Or.inr (Or.inr ⟨by rw [entryName]; omega, by rw [entryName]; omega⟩)
  have hbyte : ∀ i : Nat, i < 16 →
      ((numbered entry pos h).store entryName (h.take 16)) (40 + i) = (h.take 16)[i]! := by
    intro i hi
    have hget : (h.take 16)[i]? = some (h.take 16)[i]! := by
      rw [List.getElem!_eq_getElem?_getD, List.getElem?_eq_getElem (by omega)]
      rfl
    exact Obj.store_in _ entryName hget
  have hname : (Watched.getEntryName sys fuel fd (numbered entry pos h) (hdr.store 0 h)).Only
      HdrAccess.Inside ↔ (Watched.trim fuel ((numbered entry pos h).store entryName (h.take 16),
        entryName + 15)).Only HdrAccess.Inside := by
    rw [Watched.getEntryName, if_neg hplain', Traced.only_bind_of hcopy rfl, hh.load_name,
      Traced.only_bind]
    exact and_iff_left fun _ _ => Traced.only_pure _
  rw [hname]
  constructor
  · intro honly hblanks
    refine trim_blanks (j := 16) (show 16 < fuel by omega) ?_ honly
    intro i hi
    rw [hbyte i hi, hblanks]
    rw [getElem!_pos _ i (by rw [List.length_replicate]; exact hi), List.getElem_replicate]
  · intro hne
    have hother : ∃ i, i < 16 ∧ (h.take 16)[i]! ≠ blank := by
      by_contra hall
      refine hne (List.eq_replicate_iff.mpr ⟨hlen, ?_⟩)
      intro b hb
      rcases List.getElem_of_mem hb with ⟨i, hi, rfl⟩
      by_contra hother
      exact hall ⟨i, by omega, by rw [getElem!_pos _ i hi]; exact hother⟩
    rcases hother with ⟨i, hi, hother⟩
    refine trim_only fuel (j := 15) (by decide) ⟨i, by omega, ?_⟩
    rw [hbyte i hi]
    exact hother

omit hrest in
/-- An extended name stays inside if there is room for it. -/
theorem getEntryName_ext_only (hext : HasExt h) {len : Nat} (hlen : hdrLen h = len) (fd : Fd)
    (entry hdr : Obj) (pos : Int) {fuel : Nat} (hfuel : len < fuel) :
    (Watched.getEntryName sys fuel fd (numbered entry pos h) (hdr.store 0 h)).Only
      HdrAccess.Inside ↔ len ≤ 254 := by
  have hext' : (hdr.store 0 h).load 0 arExtnameSz = arExtname := by
    rw [hh.load_ext]
    exact hext
  have hatoi : atoi ((hdr.store 0 h).load arExtnameSz 57) = len := by
    rw [hh.load_len, ← hlen, hdrLen]
  have hbound := hdrLen_bound h
  rcases readData_spec hsys fd (numbered entry pos h) entryName (show len < 2 ^ 63 by omega) hfuel
    with ⟨calls, hread⟩
  have hresult := (Watched.result_readData sys .entry entryName len fuel
    ⟨fd, numbered entry pos h, 0⟩).trans hread
  rw [Watched.getEntryName, if_pos hext', hatoi]
  dsimp only
  constructor
  · intro honly
    rw [Traced.only_bind] at honly
    have hnote := (Traced.only_bind _ _).mp (honly.2 _ hresult)
    have hinside : InField (entryName + len) :=
      (Traced.only_note _).mp hnote.1 _ (List.mem_singleton.mpr rfl)
    rw [InField, entryName] at hinside
    omega
  · intro hroom
    have honly : (Watched.readData sys .entry entryName len fuel
        ⟨fd, numbered entry pos h, 0⟩).Only HdrAccess.Inside := by
      refine readData_only hsys (by omega) ?_ fuel ⟨Int.le_refl 0, Int.natCast_nonneg len⟩
      intro i hi
      exact Or.inr (Or.inr ⟨by rw [entryName]; omega, by rw [entryName]; omega⟩)
    have hnul : (Traced.note [HdrAccess.entry (entryName + len)]).Only HdrAccess.Inside := by
      rw [Traced.only_note]
      intro e he
      rw [List.mem_singleton.mp he]
      exact Or.inr (Or.inr ⟨by rw [entryName]; omega, by rw [entryName]; omega⟩)
    rw [Traced.only_bind_of honly hresult, Traced.only_bind_of hnul rfl,
      Traced.only_bind_of (setField_only fun i hi => Or.inr (Or.inr (by omega))) rfl]
    exact Traced.only_pure _

/-- **A header.** For every header and all that follows it in the file, `archive_get_entry_hdr`
touches nothing outside, and leaves the size of what is behind the name, if and only if the header
is sound. -/
theorem getEntryHdr_safe_iff (entry hdr : Obj) {fuel : Nat} (hfuel : 2 ^ 31 ≤ fuel) :
    HeaderSafe h (Watched.archiveGetEntryHdr sys fuel fd entry hdr) ↔ SoundHeader h := by
  have hbound := hdrSize_bound h
  have hlenBound := hdrLen_bound h
  rcases getEntryHdr_returns hsys hrest hh entry hdr hfuel with
    ⟨entry', fd', hget, hplain, hext⟩
  have hresult := (Watched.result_archiveGetEntryHdr sys fuel fd entry hdr).trans hget
  rcases getEntryHdr_only_iff hsys hrest hh entry hdr (show 60 < fuel by omega) with
    ⟨calls, honly⟩
  constructor
  · rintro ⟨hinside, hsize⟩
    rcases hsize _ _ hresult with ⟨len, hsum, hlen⟩
    refine ⟨by omega, fun hnot => ?_, fun hhas => ?_⟩
    · exact (getEntryName_plain_only hh hnot _ entry hdr fd.pos (by omega)).mp (honly.mp hinside)
    · rw [if_pos hhas] at hlen
      have hroom := (getEntryName_ext_only hsys hh hhas hlen _ entry hdr fd.pos (by omega)).mp
        (honly.mp hinside)
      omega
  · rintro ⟨hpos, hname, hlen⟩
    constructor
    · rw [honly]
      by_cases hhas : HasExt h
      · rcases hlen hhas with ⟨hnonneg, hroom, -⟩
        exact (getEntryName_ext_only hsys hh hhas (Int.toNat_of_nonneg hnonneg).symm _ entry hdr
          fd.pos (by omega)).mpr (by omega)
      · exact (getEntryName_plain_only hh hhas _ entry hdr fd.pos (by omega)).mpr (hname hhas)
    · intro entry'' fd'' hresult''
      rw [hresult, Option.some.injEq, Prod.mk.injEq, Prod.mk.injEq] at hresult''
      rw [← hresult''.2.1]
      by_cases hhas : HasExt h
      · rcases hlen hhas with ⟨hnonneg, -, hle⟩
        have hsize := hext hhas hnonneg
        refine ⟨(hdrLen h).toNat, by omega, ?_⟩
        rw [if_pos hhas]
        omega
      · have hsize := hplain hhas
        refine ⟨0, by omega, ?_⟩
        rw [if_neg hhas]

end RegularFile

/-! ### A length for which there is room, and one for which there is none -/

/-- `#1/4`, with a size of 10 -/
def soundHeader : List Byte :=
  [0x23, 0x31, 0x2F, 0x34] ++ List.replicate 44 blank ++ [0x31, 0x30] ++ List.replicate 8 blank ++
    arfmag

theorem getEntryHdr_safe_iff_demo :
    HeaderSafe soundHeader (Watched.archiveGetEntryHdr (fun _ => .upTo 60) (2 ^ 31)
      ⟨soundHeader ++ [0x61, 0x2E, 0x6F, 0, 1, 2, 3, 4, 5, 6], 0, 0⟩ (fun _ => 0) (fun _ => 0)) :=
  (getEntryHdr_safe_iff (fun _ => ⟨60, by decide, rfl⟩) rfl ⟨rfl, rfl⟩ (fun _ => 0) (fun _ => 0)
    (Nat.le_refl _)).mpr ⟨by decide, by decide, by decide⟩

/-- `#1/300`, with a size of 400 -/
def longHeader : List Byte :=
  [0x23, 0x31, 0x2F, 0x33, 0x30, 0x30] ++ List.replicate 42 blank ++ [0x34, 0x30, 0x30] ++
    List.replicate 7 blank ++ arfmag

theorem longHeader_isHeader : IsHeader longHeader := ⟨rfl, rfl⟩

theorem longHeader_rest : (⟨longHeader, 0, 0⟩ : Fd).rest = longHeader ++ [] :=
  (List.append_nil longHeader).symm

/-- `name[300]` is behind the name, and behind the entry. -/
theorem getEntryHdr_safe_counterexample :
    ¬ ∀ (sys : Nat → ReadResult) (fd : Fd) (h tail : List Byte) (entry hdr : Obj) (fuel : Nat),
      ReadsFile sys → fd.rest = h ++ tail → IsHeader h → 2 ^ 31 ≤ fuel →
        HeaderSafe h (Watched.archiveGetEntryHdr sys fuel fd entry hdr) := by
  intro h
  have hsys : ReadsFile (fun _ => .upTo 60) := fun _ => ⟨60, by decide, rfl⟩
  have hsafe := h _ _ longHeader [] (fun _ => 0) (fun _ => 0) (2 ^ 31) hsys longHeader_rest
    longHeader_isHeader (Nat.le_refl _)
  rcases getEntryHdr_only_iff hsys longHeader_rest longHeader_isHeader (fun _ => 0) (fun _ => 0)
    (show 60 < 2 ^ 31 by decide) with ⟨calls, honly⟩
  have hlen : hdrLen longHeader = (300 : Nat) := rfl
  have hroom := (getEntryName_ext_only hsys longHeader_isHeader rfl hlen _ (fun _ => 0)
    (fun _ => 0) _ (show 300 < 2 ^ 31 by decide)).mp (honly.mp hsafe.inside)
  exact absurd hroom (by decide)

end StupidOS.Ar
