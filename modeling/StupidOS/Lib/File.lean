import StupidOS.Lib.Word

/-!
# Reading a file

A file descriptor is the contents of the file and a position. What a call of `read` does beyond
that is left open: it may fail or give less than was asked for, as `sys` says call by call.
`ReadsFile` is the behaviour on a regular file: no failure, and 0 bytes at its end only. `ReadsAll`
is a file that is read without a break.
-/

namespace StupidOS

/-- What a call of `read` does: it fails, or gives at most `n` bytes. -/
inductive ReadResult where
  | fail
  | upTo (n : Nat)
deriving DecidableEq, Repr

/-- A file descriptor, and the number of calls of `read` on it. -/
structure Fd where
  data : List Byte
  pos : Nat
  calls : Nat
deriving DecidableEq, Repr

/-- Every call gives all that is asked for, as far as `len` bytes go. -/
def ReadsAll (sys : Nat → ReadResult) (len : Nat) : Prop := ∀ k, ∃ n, len ≤ n ∧ sys k = .upTo n

/-- No call fails, and none gives 0 bytes of its own accord. -/
def ReadsFile (sys : Nat → ReadResult) : Prop := ∀ k, ∃ n, 0 < n ∧ sys k = .upTo n

namespace Fd

/-- What is left of the file. -/
def rest (fd : Fd) : List Byte := fd.data.drop fd.pos

/-- `read`: its value, and the bytes stored. -/
def read (sys : Nat → ReadResult) (fd : Fd) (count : Nat) : Int × List Byte × Fd :=
  match sys fd.calls with
  | .fail => (-1, [], { fd with calls := fd.calls + 1 })
  | .upTo n =>
    let bytes := fd.rest.take (min count n)
    (bytes.length, bytes, { fd with pos := fd.pos + bytes.length, calls := fd.calls + 1 })

/-- `lseek` with `SEEK_CUR` -/
def lseekCur (fd : Fd) (off : Int) : Int × Fd :=
  if fd.pos + off < 0 then (-1, fd)
  else (fd.pos + off, { fd with pos := (fd.pos + off).toNat })

theorem lseekCur_nat (fd : Fd) (n : Nat) :
    fd.lseekCur n = (((fd.pos + n : Nat) : Int), { fd with pos := fd.pos + n }) := by
  have hpos : ((fd.pos : Int) + n).toNat = fd.pos + n := by omega
  rw [lseekCur, if_neg (by omega), hpos, Int.natCast_add]

theorem lseekCur_snd (fd : Fd) (off : Int) : (fd.lseekCur off).2
    = { fd with pos := if fd.pos + off < 0 then fd.pos else (fd.pos + off).toNat } := by
  rw [lseekCur]
  split <;> rfl

/-- `lseek` with `SEEK_SET` -/
def lseekSet (fd : Fd) (off : Int) : Int × Fd :=
  if off < 0 then (-1, fd) else (off, { fd with pos := off.toNat })

theorem lseekSet_nat (fd : Fd) (n : Nat) : fd.lseekSet n = ((n : Int), { fd with pos := n }) := by
  rw [lseekSet, if_neg (by omega), Int.toNat_natCast]

theorem read_data (sys : Nat → ReadResult) (fd : Fd) (count : Nat) :
    (fd.read sys count).2.2.data = fd.data := by
  rw [read]
  cases sys fd.calls <;> rfl

theorem read_upTo {sys : Nat → ReadResult} {fd : Fd} {n : Nat} (hcall : sys fd.calls = .upTo n)
    (count : Nat) {k : Nat} (hk : min (min count n) fd.rest.length = k) : fd.read sys count
      = ((k : Int), fd.rest.take k, ⟨fd.data, fd.pos + k, fd.calls + 1⟩) := by
  have hlen : (fd.rest.take (min count n)).length = k := by
    rw [List.length_take]
    exact hk
  have htake : fd.rest.take (min count n) = fd.rest.take k := by
    rw [← hk]
    exact List.take_eq_take_min
  rw [read, hcall]
  dsimp only
  rw [hlen, htake]

/-- On a regular file `read` gives a prefix of what is left, empty only if it has to be. -/
theorem read_spec {sys : Nat → ReadResult} (hsys : ReadsFile sys) (fd : Fd) (count : Nat) :
    ∃ n, n ≤ count ∧ n ≤ fd.rest.length ∧ (n = 0 → count = 0 ∨ fd.rest = []) ∧
      fd.read sys count = ((n : Int), fd.rest.take n, ⟨fd.data, fd.pos + n, fd.calls + 1⟩) := by
  rcases hsys fd.calls with ⟨k, hk, hcall⟩
  have hlen : (fd.rest.take (min count k)).length = min (min count k) fd.rest.length :=
    List.length_take
  refine ⟨(fd.rest.take (min count k)).length, by omega, by omega, ?_, ?_⟩
  · intro h0
    by_cases hcount : count = 0
    · exact Or.inl hcount
    · exact Or.inr (List.eq_nil_of_length_eq_zero (by omega))
  · have htake : fd.rest.take (fd.rest.take (min count k)).length
        = fd.rest.take (min count k) := by
      rw [hlen, ← List.take_take, List.take_length]
    rw [read, hcall, htake]

/-- All that is asked for, or left. -/
theorem read_all {sys : Nat → ReadResult} {data : List Byte} (hsys : ReadsAll sys data.length)
    (pos calls count : Nat) : (⟨data, pos, calls⟩ : Fd).read sys count
      = (((min count (data.drop pos).length : Nat) : Int), (data.drop pos).take count,
        ⟨data, pos + min count (data.drop pos).length, calls + 1⟩) := by
  rcases hsys calls with ⟨n, hn, hcall⟩
  have hrest : (data.drop pos).length ≤ data.length := by
    rw [List.length_drop]
    exact Nat.sub_le ..
  have hmin : min (min count n) (data.drop pos).length = min count (data.drop pos).length := by
    omega
  have hread : (⟨data, pos, calls⟩ : Fd).read sys count = _ := read_upTo hcall count hmin
  rw [rest, ← List.take_eq_take_min] at hread
  exact hread

end Fd

end StupidOS
