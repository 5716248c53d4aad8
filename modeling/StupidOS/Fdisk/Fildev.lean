import StupidOS.Lib.Stdio

/-!
# The devices of `fdisk` (`fildev.c`)

A `struct device` says whether it is open, but not through which stream: there is one `fildev_fp`
for all of them, and every `device_open` overwrites it. An ideal device (`Ideal`) has its file to
itself. `devices_independent` says that calls in any order do what they do on ideal devices as
long as the stream in `fildev_fp` is open on the file of the device used.
-/

namespace StupidOS.Fdisk

open Stdio

/-! ## Data -/

/-- `DEV_OPEN` -/
def devOpen : Byte := 1

/-- `DEFAULT_SECSZ` -/
def defaultSecsz : Half := 512

/-- `struct device`, as far as it is used. -/
structure Device (F : Type) where
  path : Option F
  status : Byte
  ph_secsz : Half
  size : BitVec 64
  ph_secnt : BitVec 64

/-- `DEVICE_IS_OPEN` -/
def Device.isOpen {F : Type} (dev : Device F) : Bool := dev.status &&& devOpen ≠ 0

/-- The static variable, the files, and the devices of a program. -/
structure Sys (D F : Type) where
  fildev_fp : Option Nat
  files : Files F
  dev : D → Device F

/-- `count` as a `size_t`. -/
def itemCount (count : Int) : Nat := (count % 2 ^ 64).toNat

section Code

variable {D F : Type} [DecidableEq D] [DecidableEq F]

def Sys.setDev (s : Sys D F) (d : D) (dev : Device F) : Sys D F :=
  { s with dev := Function.update s.dev d dev }

/-! ## `fildev.c` -/

/-- `device_open` -/
def deviceOpen (os : Os) (dev : Option D) (path : Option F) (s : Sys D F) :
    Option (Int × Sys D F) :=
  match dev, path with
  | some d, some path =>
    let s := s.setDev d { s.dev d with path := some path }
    let (fp, files) := fopen os s.files path
    let s := { s with fildev_fp := fp, files := files }
    match fp with
    | none => some (-1, s)
    | some fp =>
      match fseekEnd os s.files fp with
      | none => none
      | some (ret, files) =>
        -- on an error `fildev_fp` keeps the closed stream
        if ret ≠ 0 then (fclose files fp).map fun files => (-1, { s with files := files })
        else
          match ftell os files fp with
          | none => none
          | some sz =>
            if sz < 0 then (fclose files fp).map fun files => (-1, { s with files := files })
            else
              let size := BitVec.ofInt 64 sz
              let dev := { s.dev d with
                size := size, ph_secsz := defaultSecsz,
                ph_secnt := size / defaultSecsz.setWidth 64, status := devOpen }
              some (0, { s with files := files }.setDev d dev)
  | _, _ => some (-1, s)

/-- `device_close` -/
def deviceClose (dev : Option D) (s : Sys D F) : Option (Int × Sys D F) :=
  match dev, s.fildev_fp with
  | some d, some fp =>
    if (s.dev d).isOpen then
      (fclose s.files fp).map fun files =>
        (0, { s with fildev_fp := none, files := files }.setDev d
          { s.dev d with status := (s.dev d).status &&& ~~~devOpen })
    else some (0, s)
  | _, _ => some (-1, s)

/-- The offset passed to `fseek`, a `long`. -/
def Device.offset (dev : Device F) (lba : BitVec 64) : Int := (dev.ph_secsz.setWidth 64 * lba).toInt

/-- `device_read`: what it returns, and what it stores at `buff`. -/
def deviceRead (os : Os) (dev : Option D) (buff : Bool) (lba : BitVec 64) (count : Int)
    (s : Sys D F) : Option (Int × List Byte × Sys D F) :=
  match dev with
  | none => some (-1, [], s)
  | some d =>
    if ¬ buff ∨ count = 0 then some (-1, [], s)
    else if ¬ (s.dev d).isOpen then some (-1, [], s)
    else
      match fseek os s.files s.fildev_fp ((s.dev d).offset lba) with
      | none => none
      | some (ret, files) =>
        if ret ≠ 0 then some (-1, [], { s with files := files })
        else
          (fread os files s.fildev_fp (s.dev d).ph_secsz.toNat (itemCount count)).map
            fun (items, bytes, files) =>
              (if items ≠ itemCount count then -1 else 0, bytes, { s with files := files })

/-- `device_write` of the memory at `buff`. -/
def deviceWrite (os : Os) (dev : Option D) (buff : Option (Nat → Byte)) (lba : BitVec 64)
    (count : Int) (s : Sys D F) : Option (Int × Sys D F) :=
  match dev, buff with
  | some d, some buff =>
    if s.fildev_fp.isNone ∨ count = 0 then some (-1, s)
    else if ¬ (s.dev d).isOpen then some (-1, s)
    else
      match fseek os s.files s.fildev_fp ((s.dev d).offset lba) with
      | none => none
      | some (ret, files) =>
        if ret ≠ 0 then some (-1, { s with files := files })
        else
          (fwrite os files s.fildev_fp buff (s.dev d).ph_secsz.toNat (itemCount count)).map
            fun (items, files) =>
              (if items ≠ itemCount count then -1 else 0, { s with files := files })
  | _, _ => some (-1, s)

/-! ## Runs -/

/-- A call on a device. -/
inductive Call (D : Type) where
  | opens (d : D)
  | closes (d : D)
  | reads (d : D) (lba : BitVec 64) (count : Int)
  | writes (d : D) (buff : Nat → Byte) (lba : BitVec 64) (count : Int)

variable (path : D → F)

/-- A call: what it returns, and the bytes read. -/
def Sys.call (os : Os) (s : Sys D F) : Call D → Option ((Int × List Byte) × Sys D F)
  | .opens d => (deviceOpen os (some d) (some (path d)) s).map fun (ret, s) => ((ret, []), s)
  | .closes d => (deviceClose (some d) s).map fun (ret, s) => ((ret, []), s)
  | .reads d lba count =>
    (deviceRead os (some d) true lba count s).map fun (ret, bytes, s) => ((ret, bytes), s)
  | .writes d buff lba count =>
    (deviceWrite os (some d) (some buff) lba count s).map fun (ret, s) => ((ret, []), s)

/-- Calls one after the other. -/
def Sys.exec (s : Sys D F) : List (Call D × Os) → Option (List (Int × List Byte) × Sys D F)
  | [] => some ([], s)
  | (c, os) :: calls =>
    match s.call path os c with
    | none => none
    | some (r, s) => (s.exec calls).map fun (rs, s) => (r :: rs, s)

end Code

/-! ## Ideal devices -/

/-- A device with a file of its own. -/
structure Ideal where
  isOpen : Bool
  image : Option (List Byte)

/-- Its contents. -/
def Ideal.bytes (x : Ideal) : List Byte := x.image.getD []

/-- It opens if there is a file. -/
def Ideal.opens (os : Os) (x : Ideal) : Int × Ideal :=
  if os.fopen ∧ x.image.isSome ∧ os.fseek ∧ os.ftell then (0, { x with isOpen := true })
  else (-1, x)

/-- Whether sectors from `lba` on can be accessed. -/
def Ideal.Ready (os : Os) (x : Ideal) (lba : Nat) (count : Int) : Prop :=
  x.isOpen ∧ count ≠ 0 ∧ os.fseek ∧ 512 * lba < 2 ^ 63

instance (os : Os) (x : Ideal) (lba : Nat) (count : Int) : Decidable (x.Ready os lba count) :=
  inferInstanceAs (Decidable (_ ∧ _ ∧ _ ∧ _))

/-- Sectors are read. -/
def Ideal.reads (os : Os) (x : Ideal) (lba : Nat) (count : Int) : Int × List Byte :=
  if x.Ready os lba count then
    let bytes := (x.bytes.drop (512 * lba)).take (os.cut (512 * itemCount count))
    (if bytes.length / 512 ≠ itemCount count then -1 else 0, bytes)
  else (-1, [])

/-- Sectors are written. -/
def Ideal.writes (os : Os) (x : Ideal) (buff : Nat → Byte) (lba : Nat) (count : Int) :
    Int × Ideal :=
  if x.Ready os lba count then
    let bytes := (List.range (os.cut (512 * itemCount count))).map buff
    (if bytes.length / 512 ≠ itemCount count then -1 else 0,
      { x with image := some (overlay x.bytes (512 * lba) bytes) })
  else (-1, x)

/-- All sectors of a successful write were transferred. -/
theorem Ideal.writes_all {os : Os} {x : Ideal} {buff : Nat → Byte} {lba : Nat} {count : Int}
    (h : (x.writes os buff lba count).1 = 0) :
    x.Ready os lba count ∧ os.cut (512 * itemCount count) = 512 * itemCount count := by
  have hminus : ¬ (-1 : Int) = 0 := by decide
  unfold writes at h
  split at h
  · rename_i hready
    refine ⟨hready, ?_⟩
    have hle : os.cut (512 * itemCount count) ≤ 512 * itemCount count := by
      unfold Os.cut
      split
      · exact Nat.le_refl _
      · exact Nat.min_le_right _ _
    dsimp only at h
    rw [List.length_map, List.length_range] at h
    by_contra hne
    rw [if_pos (by omega)] at h
    exact absurd h hminus
  · exact absurd h hminus

/-- Sectors written are read back. -/
theorem Ideal.reads_written {os os' : Os} {x : Ideal} {buff : Nat → Byte} {lba : Nat} {count : Int}
    (h : (x.writes os buff lba count).1 = 0) (hseek : os'.fseek) (hlimit : os'.limit = none) :
    (x.writes os buff lba count).2.reads os' lba count
      = (0, (List.range (512 * itemCount count)).map buff) := by
  rcases writes_all h with ⟨hready, hall⟩
  have himage : (x.writes os buff lba count).2 = { x with image := some (overlay x.bytes (512 * lba)
      ((List.range (512 * itemCount count)).map buff)) } := by
    unfold writes
    rw [if_pos hready, hall]
  have hready' : (x.writes os buff lba count).2.Ready os' lba count := by
    rw [himage]
    exact ⟨hready.1, hready.2.1, hseek, hready.2.2.2⟩
  have hbytes : (x.writes os buff lba count).2.bytes
      = overlay x.bytes (512 * lba) ((List.range (512 * itemCount count)).map buff) := by
    rw [himage]
    rfl
  have hcut : os'.cut (512 * itemCount count) = 512 * itemCount count := by
    unfold Os.cut
    rw [hlimit]
  have hback := overlay_written x.bytes (512 * lba) ((List.range (512 * itemCount count)).map buff)
  rw [List.length_map, List.length_range] at hback
  unfold reads
  rw [if_pos hready', hcut, hbytes]
  dsimp only
  rw [hback, List.length_map, List.length_range, if_neg (by omega)]

/-- Other sectors stay. -/
theorem Ideal.writes_kept (os : Os) (x : Ideal) (buff : Nat → Byte) {lba : Nat} {count : Int}
    {i : Nat} (hi : i < x.bytes.length)
    (h : i < 512 * lba ∨ 512 * (lba + itemCount count) ≤ i) :
    (x.writes os buff lba count).2.bytes[i]? = x.bytes[i]? := by
  unfold writes
  split
  · apply overlay_kept _ _ _ hi
    rw [List.length_map, List.length_range]
    have hle : os.cut (512 * itemCount count) ≤ 512 * itemCount count := by
      unfold Os.cut
      split
      · exact Nat.le_refl _
      · exact Nat.min_le_right _ _
    omega
  · rfl

section Independent

variable {D F : Type} (path : D → F)

/-- The devices of a program, with the files that are theirs. -/
def Sys.ideal (s : Sys D F) : D → Ideal := fun d => ⟨(s.dev d).isOpen, s.files.data (path d)⟩

/-- The call returns what it should; on closing a closed device nothing depends. -/
def Agrees (x : D → Ideal) (c : Call D) (r r' : Int × List Byte) : Prop :=
  r = r' ∨ ∃ d, c = .closes d ∧ (x d).isOpen = false

/-- The stream in `fildev_fp` is open on the file of the device. -/
def Sys.Own (s : Sys D F) (d : D) : Prop :=
  ∃ fp, s.fildev_fp = some fp ∧ s.files.fileOf fp = some (path d)

/-- The offset of the sector wraps around to that of another one. -/
def Wraps (lba : BitVec 64) : Prop :=
  2 ^ 64 ≤ 512 * lba.toNat ∧ 512 * lba.toNat % 2 ^ 64 < 2 ^ 63

/-- The condition on a call: a device is opened when it is closed, and used while `fildev_fp` is
its own. -/
def Meets (s : Sys D F) : Call D → Prop
  | .opens d => (s.dev d).isOpen = false
  | .closes d => (s.dev d).isOpen → s.Own path d
  | .reads d lba count => (s.dev d).isOpen → count ≠ 0 → s.Own path d ∧ ¬ Wraps lba
  | .writes d _ lba count => (s.dev d).isOpen → count ≠ 0 → s.Own path d ∧ ¬ Wraps lba

/-- One stream on each file, and only for devices that are open. -/
structure Inv (s : Sys D F) : Prop where
  unique : ∀ i j f, s.files.fileOf i = some f → s.files.fileOf j = some f → i = j
  opened : ∀ i f, s.files.fileOf i = some f → ∃ d, path d = f ∧ (s.dev d).isOpen
  secsz : ∀ d, (s.dev d).isOpen → (s.dev d).ph_secsz = defaultSecsz

variable {path} {s : Sys D F}

theorem Inv.congr {s' : Sys D F} (h : Inv path s)
    (hfile : ∀ i, s'.files.fileOf i = s.files.fileOf i)
    (hopen : ∀ d, (s'.dev d).isOpen = (s.dev d).isOpen)
    (hsecsz : ∀ d, (s'.dev d).ph_secsz = (s.dev d).ph_secsz) : Inv path s' := by
  constructor
  · intro i j f hi hj
    rw [hfile] at hi hj
    exact h.unique i j f hi hj
  · intro i f hi
    rw [hfile] at hi
    rcases h.opened i f hi with ⟨d, hd, hopened⟩
    rw [← hopen] at hopened
    exact ⟨d, hd, hopened⟩
  · intro d hd
    rw [hopen] at hd
    rw [hsecsz]
    exact h.secsz d hd

variable [DecidableEq D]

/-- A call on ideal devices changes no other device. -/
def idealCall (os : Os) (x : D → Ideal) : Call D → (Int × List Byte) × (D → Ideal)
  | .opens d => ((((x d).opens os).1, []), Function.update x d ((x d).opens os).2)
  | .closes d => ((0, []), Function.update x d { x d with isOpen := false })
  | .reads d lba count => ((x d).reads os lba.toNat count, x)
  | .writes d buff lba count =>
    ((((x d).writes os buff lba.toNat count).1, []),
      Function.update x d ((x d).writes os buff lba.toNat count).2)

/-- Calls that return these values do what they do on ideal devices. -/
def Serves : (D → Ideal) → List (Call D × Os) → List (Int × List Byte) → (D → Ideal) → Prop
  | x, [], [], x' => x' = x
  | x, (c, os) :: calls, r :: rs, x' =>
    Agrees x c r (idealCall os x c).1 ∧ Serves (idealCall os x c).2 calls rs x'
  | _, _, _, _ => False

/-! ### Opening -/

/-- What `device_open` stores before it has a stream. -/
def Sys.opening (s : Sys D F) (d : D) (f : F) (files : Files F) (fp : Option Nat) : Sys D F :=
  { s.setDev d { s.dev d with path := some f } with fildev_fp := fp, files := files }

theorem opening_dev (d : D) (f : F) (files : Files F) (fp : Option Nat) (e : D) :
    ((s.opening d f files fp).dev e).isOpen = (s.dev e).isOpen ∧
      ((s.opening d f files fp).dev e).ph_secsz = (s.dev e).ph_secsz := by
  unfold Sys.opening Sys.setDev
  dsimp only
  by_cases he : e = d
  · rw [he, Function.update_self]
    exact ⟨rfl, rfl⟩
  · rw [Function.update_of_ne he]
    exact ⟨rfl, rfl⟩

/-- After an error nothing is open that was not before. -/
theorem open_failed (h : Inv path s) (d : D) {files : Files F} (fp : Option Nat)
    (hfile : ∀ i, files.fileOf i = s.files.fileOf i) (hdata : files.data = s.files.data) :
    Inv path (s.opening d (path d) files fp) ∧
      (s.opening d (path d) files fp).ideal path = s.ideal path := by
  have hdev := opening_dev (s := s) d (path d) files fp
  refine ⟨h.congr hfile (fun e => (hdev e).1) (fun e => (hdev e).2), ?_⟩
  funext e
  unfold Sys.ideal
  rw [(hdev e).1]
  change Ideal.mk _ (files.data (path e)) = _
  rw [hdata]

/-- The device that `device_open` leaves. -/
def openedDevice (f : F) (size : BitVec 64) : Device F :=
  ⟨some f, devOpen, defaultSecsz, size, size / defaultSecsz.setWidth 64⟩

theorem openedDevice_isOpen (f : F) (size : BitVec 64) : (openedDevice f size).isOpen = true := by
  change decide (devOpen &&& devOpen ≠ 0) = true
  decide

/-- One device and the streams change; every stream is on the file of an open device still. -/
theorem Inv.update (h : Inv path s) {d : D} {dev : Device F} {files : Files F} (fp : Option Nat)
    (hunique : ∀ i j f, files.fileOf i = some f → files.fileOf j = some f → i = j)
    (hopened : ∀ i f, files.fileOf i = some f →
      path d = f ∧ dev.isOpen ∨ path d ≠ f ∧ s.files.fileOf i = some f)
    (hsecsz : dev.isOpen → dev.ph_secsz = defaultSecsz) :
    Inv path ⟨fp, files, Function.update s.dev d dev⟩ := by
  constructor
  · exact hunique
  · intro i f hi
    rcases hopened i f hi with ⟨hd, hopen⟩ | ⟨hd, hi'⟩
    · refine ⟨d, hd, ?_⟩
      dsimp only
      rw [Function.update_self]
      exact hopen
    · rcases h.opened i f hi' with ⟨e, he, hopen⟩
      have hed : e ≠ d := by
        rintro rfl
        exact hd he
      refine ⟨e, he, ?_⟩
      dsimp only
      rw [Function.update_of_ne hed]
      exact hopen
  · intro e he
    dsimp only at he ⊢
    by_cases hed : e = d
    · rw [hed, Function.update_self] at he ⊢
      exact hsecsz he
    · rw [Function.update_of_ne hed] at he ⊢
      exact h.secsz e he

variable (path) in
theorem ideal_update (d : D) (dev : Device F) {files : Files F} (fp : Option Nat)
    (hdata : files.data = s.files.data) :
    Sys.ideal path ⟨fp, files, Function.update s.dev d dev⟩
      = Function.update (s.ideal path) d ⟨dev.isOpen, s.files.data (path d)⟩ := by
  funext e
  unfold Sys.ideal
  dsimp only
  by_cases hed : e = d
  · rw [hed, Function.update_self, Function.update_self, hdata]
  · rw [Function.update_of_ne hed, Function.update_of_ne hed, hdata]

/-- After success there is one more stream, on the file of the device. -/
theorem open_done (hpath : Function.Injective path) (h : Inv path s) {d : D}
    (hclosed : (s.dev d).isOpen = false) {files : Files F} (size : BitVec 64) {fp : Nat}
    (hfile : ∀ i, files.fileOf i = if i = fp then some (path d) else s.files.fileOf i)
    (hdata : files.data = s.files.data) :
    Inv path ⟨some fp, files, Function.update s.dev d (openedDevice (path d) size)⟩ ∧
      Sys.ideal path ⟨some fp, files, Function.update s.dev d (openedDevice (path d) size)⟩
        = Function.update (s.ideal path) d ⟨true, s.files.data (path d)⟩ := by
  -- no stream is open on the file of a closed device
  have hnone : ∀ i, s.files.fileOf i ≠ some (path d) := by
    intro i hi
    rcases h.opened i _ hi with ⟨e, he, hopen⟩
    rw [hpath he, hclosed] at hopen
    cases hopen
  have hunique : ∀ i j f, files.fileOf i = some f → files.fileOf j = some f → i = j := by
    intro i j f hi hj
    rw [hfile] at hi hj
    by_cases hifp : i = fp
    · by_cases hjfp : j = fp
      · rw [hifp, hjfp]
      · rw [if_pos hifp] at hi
        rw [if_neg hjfp, ← hi] at hj
        exact absurd hj (hnone j)
    · rw [if_neg hifp] at hi
      by_cases hjfp : j = fp
      · rw [if_pos hjfp] at hj
        rw [← hj] at hi
        exact absurd hi (hnone i)
      · rw [if_neg hjfp] at hj
        exact h.unique i j f hi hj
  have hideal := ideal_update path d (openedDevice (path d) size) (some fp) hdata
  rw [openedDevice_isOpen] at hideal
  refine ⟨h.update _ hunique ?_ (fun _ => rfl), hideal⟩
  intro i f hi
  rw [hfile] at hi
  split at hi
  · exact Or.inl ⟨Option.some.inj hi, openedDevice_isOpen _ _⟩
  · refine Or.inr ⟨?_, hi⟩
    rintro rfl
    exact hnone i hi

/-- `device_open` of a closed device. -/
theorem deviceOpen_spec (hpath : Function.Injective path) (h : Inv path s) (os : Os) {d : D}
    (hclosed : (s.dev d).isOpen = false) :
    ∃ s', deviceOpen os (some d) (some (path d)) s = some (((s.ideal path d).opens os).1, s') ∧
      Inv path s' ∧
      s'.ideal path = Function.update (s.ideal path) d ((s.ideal path d).opens os).2 := by
  have hfails : ¬ (os.fopen ∧ (s.files.data (path d)).isSome ∧ os.fseek ∧ os.ftell) →
      (s.ideal path d).opens os = (-1, s.ideal path d) := fun hnot => if_neg hnot
  have hself := Function.update_eq_self d (s.ideal path)
  simp only [deviceOpen, Sys.setDev]
  rcases fopen_cases os s.files (path d) with ⟨hfound, x, hopen, hdata, hlive, hnew⟩ | ⟨hnot, hopen⟩
  · rw [hopen]
    dsimp only
    -- closing the new stream leaves what was open before
    have hback : ∀ {y z : Files F}, (∀ i, y.fileOf i = x.fileOf i) →
        (∀ i, z.fileOf i = if i = s.files.streams.length then none else y.fileOf i) →
        ∀ i, z.fileOf i = s.files.fileOf i := by
      intro y z hy hz i
      rw [hz, hy, hnew]
      split
      next hi =>
        rw [hi]
        exact (Files.fileOf_fresh s.files).symm
      next => rfl
    rw [fseekEnd_live hlive]
    by_cases hseek : os.fseek
    · rw [if_pos hseek]
      dsimp only
      rw [if_neg (by decide), ftell_live (Files.live_moveTo hlive _)]
      dsimp only
      by_cases htell : os.ftell
      · rw [if_pos htell, if_neg (by omega)]
        have hsucceeds : (s.ideal path d).opens os = (0, ⟨true, s.files.data (path d)⟩) :=
          if_pos ⟨hfound.1, hfound.2, hseek, htell⟩
        rw [hsucceeds, Function.update_self, Function.update_idem]
        refine ⟨_, rfl, open_done hpath h hclosed _ ?_ ?_⟩
        · intro i
          rw [Files.fileOf_moveTo hlive, hnew]
        · exact hdata
      · rw [if_neg htell, if_pos (by decide)]
        rcases fclose_live (Files.live_moveTo hlive _) with ⟨z, hclose, hz, hgone⟩
        rw [hclose, hfails (fun hall => htell hall.2.2.2), hself]
        refine ⟨_, rfl, open_failed h d _ ?_ ?_⟩
        · exact hback (Files.fileOf_moveTo hlive _) hgone
        · exact hz.trans hdata
    · rw [if_neg hseek]
      dsimp only
      rw [if_pos (by decide)]
      rcases fclose_live hlive with ⟨z, hclose, hz, hgone⟩
      rw [hclose, hfails (fun hall => hseek hall.2.2.1), hself]
      exact ⟨_, rfl, open_failed h d _ (hback (fun _ => rfl) hgone) (hz.trans hdata)⟩
  · rw [hopen, hfails (fun hall => hnot ⟨hall.1, hall.2.1⟩), hself]
    exact ⟨_, rfl, open_failed h d none (fun _ => rfl) rfl⟩

/-! ### Closing -/

/-- The device that `device_close` leaves. -/
theorem closed_isOpen (dev : Device F) :
    Device.isOpen { dev with status := dev.status &&& ~~~devOpen } = false := by
  have hzero : dev.status &&& (~~~devOpen &&& devOpen) = 0 := BitVec.and_zero
  unfold Device.isOpen
  dsimp only
  rw [BitVec.and_assoc, hzero]
  rfl

/-- `device_close` of an open device. -/
theorem deviceClose_spec (h : Inv path s) {d : D} (hopen : (s.dev d).isOpen)
    (hown : s.Own path d) :
    ∃ s', deviceClose (some d) s = some (0, s') ∧ Inv path s' ∧
      s'.ideal path = Function.update (s.ideal path) d { s.ideal path d with isOpen := false } := by
  rcases hown with ⟨fp, hfp, hfile⟩
  rcases Files.live_of_fileOf hfile with ⟨st, hlive, -⟩
  rcases fclose_live hlive with ⟨x, hclose, hdata, hgone⟩
  have hkept : ∀ {i f}, x.fileOf i = some f → i ≠ fp ∧ s.files.fileOf i = some f := by
    intro i f hi
    rw [hgone] at hi
    split at hi
    · cases hi
    · rename_i hne
      exact ⟨hne, hi⟩
  have hideal := ideal_update path d
    { s.dev d with status := (s.dev d).status &&& ~~~devOpen } none hdata
  rw [closed_isOpen] at hideal
  unfold deviceClose
  rw [hfp]
  dsimp only
  rw [if_pos hopen, hclose]
  refine ⟨_, rfl, h.update none ?_ ?_ (fun _ => h.secsz d hopen), hideal⟩
  · intro i j f hi hj
    exact h.unique i j f (hkept hi).2 (hkept hj).2
  · intro i f hi
    refine Or.inr ⟨?_, (hkept hi).2⟩
    -- the stream of this device was the one that is closed
    rintro rfl
    exact (hkept hi).1 (h.unique i fp _ (hkept hi).2 hfile)

/-- `device_close` of a closed device changes nothing. -/
theorem deviceClose_closed {d : D} (hclosed : (s.dev d).isOpen = false) :
    ∃ ret, deviceClose (some d) s = some (ret, s) := by
  unfold deviceClose
  dsimp only
  cases s.fildev_fp with
  | none => exact ⟨_, rfl⟩
  | some fp =>
      dsimp only
      rw [if_neg (by rw [hclosed]; decide)]
      exact ⟨_, rfl⟩

/-! ### Reading and writing -/

/-- The offset of a sector that does not wrap around. -/
theorem offset_eq {dev : Device F} (hsecsz : dev.ph_secsz = defaultSecsz) {lba : BitVec 64}
    (hwraps : ¬ Wraps lba) :
    (0 ≤ dev.offset lba ↔ 512 * lba.toNat < 2 ^ 63) ∧
      (0 ≤ dev.offset lba → (dev.offset lba).toNat = 512 * lba.toNat) := by
  have h512 : (defaultSecsz.setWidth 64 : BitVec 64).toNat = 512 := rfl
  unfold Wraps at hwraps
  unfold Device.offset
  rw [hsecsz, BitVec.toInt_eq_toNat_cond, BitVec.toNat_mul, h512]
  constructor
  · split
    · omega
    · omega
  · split
    · omega
    · omega

omit [DecidableEq D] in
/-- The seek of a device that is used with its own stream. -/
theorem fseek_own (h : Inv path s) (os : Os) {d : D} {lba : BitVec 64} {count : Int}
    (hopen : (s.dev d).isOpen) (hcount : count ≠ 0) (hown : s.Own path d) (hwraps : ¬ Wraps lba) :
    ∃ fp st, s.fildev_fp = some fp ∧ s.files.live fp = some st ∧ st.file = path d ∧
      s.files.fileOf fp = some (path d) ∧
      ((s.ideal path d).Ready os lba.toNat count ∧
          fseek os s.files (some fp) ((s.dev d).offset lba)
            = some (0, s.files.moveTo fp st (512 * lba.toNat)) ∨
        ¬ (s.ideal path d).Ready os lba.toNat count ∧
          fseek os s.files (some fp) ((s.dev d).offset lba) = some (-1, s.files)) := by
  rcases hown with ⟨fp, hfp, hfile⟩
  rcases Files.live_of_fileOf hfile with ⟨st, hlive, hst⟩
  rcases offset_eq (h.secsz d hopen) hwraps with ⟨hoff, hnat⟩
  refine ⟨fp, st, hfp, hlive, hst, hfile, ?_⟩
  rw [fseek_live hlive]
  by_cases hready : os.fseek ∧ 0 ≤ (s.dev d).offset lba
  · left
    rw [if_pos hready, hnat hready.2]
    exact ⟨⟨hopen, hcount, hready.1, hoff.mp hready.2⟩, rfl⟩
  · right
    rw [if_neg hready]
    exact ⟨fun hr => hready ⟨hr.2.2.1, hoff.mpr hr.2.2.2⟩, rfl⟩

variable [DecidableEq F]

omit [DecidableEq D] in
/-- `device_read` returns the sectors of the device. -/
theorem deviceRead_spec (h : Inv path s) (os : Os) (d : D) (lba : BitVec 64) (count : Int)
    (hmeets : (s.dev d).isOpen → count ≠ 0 → s.Own path d ∧ ¬ Wraps lba) :
    ∃ s', deviceRead os (some d) true lba count s
        = some (((s.ideal path d).reads os lba.toNat count).1,
          ((s.ideal path d).reads os lba.toNat count).2, s') ∧
      Inv path s' ∧ s'.ideal path = s.ideal path := by
  unfold deviceRead Ideal.reads
  dsimp only
  by_cases hcount : count = 0
  · have hready : ¬ (s.ideal path d).Ready os lba.toNat count := fun hr => hr.2.1 hcount
    rw [if_pos (Or.inr hcount), if_neg hready]
    exact ⟨s, rfl, h, rfl⟩
  rw [if_neg (by simp [hcount])]
  by_cases hopen : (s.dev d).isOpen
  rotate_left
  · have hready : ¬ (s.ideal path d).Ready os lba.toNat count := fun hr => hopen hr.1
    rw [if_pos hopen, if_neg hready]
    exact ⟨s, rfl, h, rfl⟩
  rcases hmeets hopen hcount with ⟨hown, hwraps⟩
  rcases fseek_own h os hopen hcount hown hwraps with
    ⟨fp, st, hfp, hlive, hst, hfile, ⟨hready, hseek⟩ | ⟨hready, hseek⟩⟩
  · rw [if_neg (not_not_intro hopen), hfp, hseek, if_pos hready]
    dsimp only
    have hsecsz : (s.dev d).ph_secsz.toNat = 512 := by
      rw [h.secsz d hopen]
      rfl
    -- no other stream is on the file, so what is read is what was written
    have halone : (s.files.moveTo fp st (512 * lba.toNat)).Alone fp st.file := by
      intro i _ hi
      rw [Files.fileOf_moveTo hlive, hst] at hi
      exact h.unique i fp _ hi hfile
    rcases fread_alone (Files.live_moveTo hlive (512 * lba.toNat)) halone 512 (itemCount count)
      with ⟨x, hread, hdata, hsame⟩
    rw [if_neg (by decide), hsecsz, hread]
    dsimp only
    rw [hst]
    refine ⟨{ s with files := x }, by rw [← hfp]; rfl, ?_, ?_⟩
    · refine h.congr ?_ (fun _ => rfl) (fun _ => rfl)
      intro i
      exact (hsame i).trans (Files.fileOf_moveTo hlive _ i)
    · funext e
      unfold Sys.ideal
      dsimp only
      rw [hdata]
      rfl
  · rw [if_neg (not_not_intro hopen), hfp, hseek, if_neg hready]
    dsimp only
    rw [if_pos (by decide)]
    exact ⟨s, by rw [← hfp], h, rfl⟩

/-- `device_write` changes the sectors of the device, and nothing else. -/
theorem deviceWrite_spec (hpath : Function.Injective path) (h : Inv path s) (os : Os) (d : D)
    (buff : Nat → Byte) (lba : BitVec 64) (count : Int)
    (hmeets : (s.dev d).isOpen → count ≠ 0 → s.Own path d ∧ ¬ Wraps lba) :
    ∃ s', deviceWrite os (some d) (some buff) lba count s
        = some (((s.ideal path d).writes os buff lba.toNat count).1, s') ∧
      Inv path s' ∧
      s'.ideal path
        = Function.update (s.ideal path) d ((s.ideal path d).writes os buff lba.toNat count).2 := by
  have hself := Function.update_eq_self d (s.ideal path)
  unfold deviceWrite Ideal.writes
  dsimp only
  by_cases hcount : count = 0
  · have hready : ¬ (s.ideal path d).Ready os lba.toNat count := fun hr => hr.2.1 hcount
    rw [if_pos (Or.inr hcount), if_neg hready]
    exact ⟨s, rfl, h, hself.symm⟩
  by_cases hopen : (s.dev d).isOpen
  rotate_left
  · have hready : ¬ (s.ideal path d).Ready os lba.toNat count := fun hr => hopen hr.1
    rw [if_neg hready]
    refine ⟨s, ?_, h, hself.symm⟩
    rw [if_pos hopen, ite_self]
  rcases hmeets hopen hcount with ⟨hown, hwraps⟩
  rcases fseek_own h os hopen hcount hown hwraps with
    ⟨fp, st, hfp, hlive, hst, hfile, ⟨hready, hseek⟩ | ⟨hready, hseek⟩⟩
  · rw [hfp, if_neg (by simp [hcount]), if_neg (not_not_intro hopen), hseek, if_pos hready]
    dsimp only
    have hsecsz : (s.dev d).ph_secsz.toNat = 512 := by
      rw [h.secsz d hopen]
      rfl
    rcases fwrite_live (Files.live_moveTo hlive (512 * lba.toNat)) buff 512 (itemCount count)
      with ⟨x, hwrite, hdata, hsame⟩
    rw [if_neg (by decide), hsecsz, hwrite]
    refine ⟨{ s with files := x }, by rw [← hfp]; rfl, ?_, ?_⟩
    · refine h.congr ?_ (fun _ => rfl) (fun _ => rfl)
      intro i
      exact (hsame i).trans (Files.fileOf_moveTo hlive _ i)
    · funext e
      unfold Sys.ideal
      dsimp only
      rw [hdata]
      dsimp only
      rw [hst]
      -- the devices have files of their own
      by_cases hed : e = d
      · rw [hed, Function.update_self, Function.update_self]
        rfl
      · rw [Function.update_of_ne (fun heq => hed (hpath heq)), Function.update_of_ne hed]
        rfl
  · rw [hfp, if_neg (by simp [hcount]), if_neg (not_not_intro hopen), hseek, if_neg hready]
    dsimp only
    rw [if_pos (by decide)]
    exact ⟨s, by rw [← hfp], h, hself.symm⟩

/-! ### Runs -/

variable (path) in
/-- The calls go through, and do what they do on ideal devices. -/
def Independent (s : Sys D F) (calls : List (Call D × Os)) : Prop :=
  ∃ rs s', s.exec path calls = some (rs, s') ∧ Serves (s.ideal path) calls rs (s'.ideal path)

variable (path) in
/-- Every call of a run meets the condition. -/
def MeetsAll (s : Sys D F) : List (Call D × Os) → Prop
  | [] => True
  | (c, os) :: calls =>
    Meets path s c ∧ ∀ r s', s.call path os c = some (r, s') → MeetsAll s' calls

/-- The first call, computed. -/
theorem MeetsAll.step {os : Os} {c : Call D} {calls : List (Call D × Os)}
    (hmeets : Meets path s c) (hcall : (s.call path os c).isSome)
    (h : MeetsAll path ((s.call path os c).get hcall).2 calls) :
    MeetsAll path s ((c, os) :: calls) := by
  refine ⟨hmeets, ?_⟩
  intro r s₁ hs₁
  have hget : (s.call path os c).get hcall = (r, s₁) := Option.get_of_eq_some hcall hs₁
  rw [hget] at h
  exact h

/-- One call. -/
theorem call_refines (hpath : Function.Injective path) (h : Inv path s) (os : Os) {c : Call D}
    (hmeets : Meets path s c) :
    ∃ r s', s.call path os c = some (r, s') ∧ Inv path s' ∧
      Agrees (s.ideal path) c r (idealCall os (s.ideal path) c).1 ∧
      s'.ideal path = (idealCall os (s.ideal path) c).2 := by
  cases c with
  | opens d =>
      rcases deviceOpen_spec hpath h os hmeets with ⟨s', hcall, hinv, hideal⟩
      refine ⟨_, s', ?_, hinv, Or.inl rfl, hideal⟩
      rw [Sys.call, hcall]
      rfl
  | closes d =>
      by_cases hopen : (s.dev d).isOpen
      · rcases deviceClose_spec h hopen (hmeets hopen) with ⟨s', hcall, hinv, hideal⟩
        refine ⟨_, s', ?_, hinv, Or.inl rfl, hideal⟩
        rw [Sys.call, hcall]
        rfl
      · -- what it returns depends on the other devices
        have hclosed : (s.dev d).isOpen = false := Bool.eq_false_iff.mpr hopen
        rcases deviceClose_closed hclosed with ⟨ret, hcall⟩
        refine ⟨(ret, []), s, ?_, h, Or.inr ⟨d, rfl, hclosed⟩, ?_⟩
        · rw [Sys.call, hcall]
          rfl
        · have hsame : { s.ideal path d with isOpen := false } = s.ideal path d := by
            unfold Sys.ideal
            rw [hclosed]
          rw [idealCall, hsame, Function.update_eq_self]
  | reads d lba count =>
      rcases deviceRead_spec h os d lba count hmeets with ⟨s', hcall, hinv, hideal⟩
      refine ⟨_, s', ?_, hinv, Or.inl rfl, hideal⟩
      rw [Sys.call, hcall]
      rfl
  | writes d buff lba count =>
      rcases deviceWrite_spec hpath h os d buff lba count hmeets with ⟨s', hcall, hinv, hideal⟩
      refine ⟨_, s', ?_, hinv, Or.inl rfl, hideal⟩
      rw [Sys.call, hcall]
      rfl

/-- A run whose calls all meet the condition. -/
theorem exec_refines (hpath : Function.Injective path) (h : Inv path s)
    (calls : List (Call D × Os)) (hmeets : MeetsAll path s calls) : Independent path s calls := by
  induction calls generalizing s with
  | nil => exact ⟨[], s, rfl, rfl⟩
  | cons c calls ih =>
      rcases c with ⟨c, os⟩
      rcases call_refines hpath h os hmeets.1 with ⟨r, s₁, hcall, hinv, hagrees, hideal⟩
      rcases ih hinv (hmeets.2 r s₁ hcall) with ⟨rs, s', hexec, hserves⟩
      refine ⟨r :: rs, s', ?_, hagrees, ?_⟩
      · rw [Sys.exec, hcall]
        dsimp only
        rw [hexec]
        rfl
      · rw [← hideal]
        exact hserves

/-- The start of a program: no stream is open, and no device. -/
structure Fresh (s : Sys D F) : Prop where
  streams : s.files.streams = []
  closed : ∀ d, (s.dev d).isOpen = false

/-- **Devices are independent** in every run in which devices are opened when they are closed, and
used only while `fildev_fp` is the stream of their own file. -/
theorem devices_independent (hpath : Function.Injective path) (h : Fresh s)
    (calls : List (Call D × Os)) (hmeets : MeetsAll path s calls) : Independent path s calls := by
  have hnone : ∀ i, s.files.fileOf i = none := by
    intro i
    rw [Files.fileOf, Files.live, h.streams]
    rfl
  apply exec_refines hpath _ calls hmeets
  constructor
  · intro i j f hi
    rw [hnone] at hi
    cases hi
  · intro i f hi
    rw [hnone] at hi
    cases hi
  · intro d hd
    rw [h.closed] at hd
    cases hd

end Independent

/-! ## Two devices -/

/-- No errors. -/
def demoOs : Os := ⟨true, true, true, none, []⟩

/-- Two devices, each with a sector of its own. -/
def demoSys : Sys Bool Bool where
  fildev_fp := none
  files := ⟨[], fun f => some (List.replicate 512 (if f then 0xBB else 0xAA))⟩
  dev := fun _ => ⟨none, 0, 0, 0, 0⟩

theorem demoSys_fresh : Fresh demoSys := by
  refine ⟨rfl, ?_⟩
  intro d
  change decide ((0 : Byte) &&& devOpen ≠ 0) = false
  decide

/-- One device is read, then the other one. -/
def demoCalls : List (Call Bool × Os) :=
  [(.opens false, demoOs), (.reads false 0 1, demoOs), (.closes false, demoOs),
    (.opens true, demoOs), (.reads true 0 1, demoOs)]

theorem demoCalls_meet : MeetsAll id demoSys demoCalls := by
  have hwraps : ¬ Wraps 0 := by
    unfold Wraps
    decide
  refine .step (demoSys_fresh.closed false) (by decide +kernel) ?_
  refine .step (fun _ _ => ⟨⟨0, by decide +kernel, by decide +kernel⟩, hwraps⟩)
    (by decide +kernel) ?_
  refine .step (fun _ => ⟨0, by decide +kernel, by decide +kernel⟩) (by decide +kernel) ?_
  refine .step ?_ (by decide +kernel) ?_
  · change Device.isOpen _ = false
    decide +kernel
  exact .step (fun _ _ => ⟨⟨1, by decide +kernel, by decide +kernel⟩, hwraps⟩)
    (by decide +kernel) trivial

theorem devices_independent_demo : Independent id demoSys demoCalls :=
  devices_independent Function.injective_id demoSys_fresh demoCalls demoCalls_meet

/-- With two devices open, the first one reads the sector of the second; and when it is closed,
the second one reads through the null pointer. -/
theorem devices_independent_counterexample :
    (∃ s', demoSys.exec id
        [(.opens false, demoOs), (.opens true, demoOs), (.reads false 0 1, demoOs)]
      = some ([(0, []), (0, []), (0, List.replicate 512 0xBB)], s')) ∧
    ¬ Independent id demoSys
      [(.opens false, demoOs), (.opens true, demoOs), (.reads false 0 1, demoOs)] ∧
    demoSys.exec id [(.opens false, demoOs), (.opens true, demoOs), (.closes false, demoOs),
      (.reads true 0 1, demoOs)] = none := by
  have hresults : (demoSys.exec id
      [(.opens false, demoOs), (.opens true, demoOs), (.reads false 0 1, demoOs)]).map (·.1)
      = some [(0, []), (0, []), (0, List.replicate 512 0xBB)] := by
    decide +kernel
  have hfault : (demoSys.exec id [(.opens false, demoOs), (.opens true, demoOs),
      (.closes false, demoOs), (.reads true 0 1, demoOs)]).isNone = true := by
    decide +kernel
  rcases Option.map_eq_some_iff.mp hresults with ⟨⟨rs₁, s₁⟩, hs₁, rfl⟩
  refine ⟨⟨s₁, hs₁⟩, ?_, Option.isNone_iff_eq_none.mp hfault⟩
  intro h
  rcases h with ⟨rs, s', hrun, hserves⟩
  rw [hs₁] at hrun
  have hrs := (Prod.ext_iff.mp (Option.some.inj hrun)).1
  dsimp only at hrs
  rw [← hrs] at hserves
  -- the ideal device reads its own sector
  rcases hserves.2.2.1 with hsame | ⟨d, hd, -⟩
  · exact absurd hsame (by decide +kernel)
  · cases hd

end StupidOS.Fdisk
