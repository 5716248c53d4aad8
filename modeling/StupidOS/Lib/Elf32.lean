import StupidOS.Lib.Records

/-!
# The ELF32 file format

The file header, section headers and symbols of a little-endian ELF32 file, their bytes, and a
reader for files. What is written is read back (`Elf32Ehdr.ofBytes_bytes` and so on).
-/

namespace StupidOS

/-! ## Structures -/

structure Elf32Ehdr where
  e_ident : List Byte
  e_type : Half
  e_machine : Half
  e_version : Word
  e_entry : Word
  e_phoff : Word
  e_shoff : Word
  e_flags : Word
  e_ehsize : Half
  e_phentsize : Half
  e_phnum : Half
  e_shentsize : Half
  e_shnum : Half
  e_shstrndx : Half
deriving DecidableEq, Repr

structure Elf32Shdr where
  sh_name : Word
  sh_type : Word
  sh_flags : Word
  sh_addr : Word
  sh_offset : Word
  sh_size : Word
  sh_link : Word
  sh_info : Word
  sh_addralign : Word
  sh_entsize : Word
deriving DecidableEq, Repr

structure Elf32Sym where
  st_name : Word
  st_value : Word
  st_size : Word
  st_info : Byte
  st_other : Byte
  st_shndx : Half
deriving DecidableEq, Repr

/-! ## Bytes -/

/-- A 32-bit field. -/
def word32 (w : Word) : List Byte := leBytes 4 w.toNat

/-- A 16-bit field. -/
def half16 (h : Half) : List Byte := leBytes 2 h.toNat

/-- An 8-bit field. -/
def byte8 (b : Byte) : List Byte := leBytes 1 b.toNat

def Elf32Ehdr.bytes (e : Elf32Ehdr) : List Byte :=
  e.e_ident ++ (half16 e.e_type ++ (half16 e.e_machine ++ (word32 e.e_version ++
    (word32 e.e_entry ++ (word32 e.e_phoff ++ (word32 e.e_shoff ++ (word32 e.e_flags ++
      (half16 e.e_ehsize ++ (half16 e.e_phentsize ++ (half16 e.e_phnum ++
        (half16 e.e_shentsize ++ (half16 e.e_shnum ++ half16 e.e_shstrndx))))))))))))

def Elf32Shdr.bytes (s : Elf32Shdr) : List Byte :=
  word32 s.sh_name ++ (word32 s.sh_type ++ (word32 s.sh_flags ++ (word32 s.sh_addr ++
    (word32 s.sh_offset ++ (word32 s.sh_size ++ (word32 s.sh_link ++ (word32 s.sh_info ++
      (word32 s.sh_addralign ++ word32 s.sh_entsize))))))))

def Elf32Sym.bytes (s : Elf32Sym) : List Byte :=
  word32 s.st_name ++ (word32 s.st_value ++ (word32 s.st_size ++
    (byte8 s.st_info ++ (byte8 s.st_other ++ half16 s.st_shndx))))

/-! ## Reading -/

def word32At (bs : List Byte) (off : Nat) : Word := BitVec.ofNat 32 (leAt bs off 4)
def half16At (bs : List Byte) (off : Nat) : Half := BitVec.ofNat 16 (leAt bs off 2)
def byte8At (bs : List Byte) (off : Nat) : Byte := BitVec.ofNat 8 (leAt bs off 1)

def Elf32Ehdr.ofBytes (bs : List Byte) : Elf32Ehdr where
  e_ident := bs.take 16
  e_type := half16At bs 16
  e_machine := half16At bs 18
  e_version := word32At bs 20
  e_entry := word32At bs 24
  e_phoff := word32At bs 28
  e_shoff := word32At bs 32
  e_flags := word32At bs 36
  e_ehsize := half16At bs 40
  e_phentsize := half16At bs 42
  e_phnum := half16At bs 44
  e_shentsize := half16At bs 46
  e_shnum := half16At bs 48
  e_shstrndx := half16At bs 50

def Elf32Shdr.ofBytes (bs : List Byte) : Elf32Shdr where
  sh_name := word32At bs 0
  sh_type := word32At bs 4
  sh_flags := word32At bs 8
  sh_addr := word32At bs 12
  sh_offset := word32At bs 16
  sh_size := word32At bs 20
  sh_link := word32At bs 24
  sh_info := word32At bs 28
  sh_addralign := word32At bs 32
  sh_entsize := word32At bs 36

def Elf32Sym.ofBytes (bs : List Byte) : Elf32Sym where
  st_name := word32At bs 0
  st_value := word32At bs 4
  st_size := word32At bs 8
  st_info := byte8At bs 12
  st_other := byte8At bs 13
  st_shndx := half16At bs 14

/-! ### Reading back -/

@[simp] theorem length_word32 (w : Word) : (word32 w).length = 4 := length_leBytes 4 _
@[simp] theorem length_half16 (h : Half) : (half16 h).length = 2 := length_leBytes 2 _
@[simp] theorem length_byte8 (b : Byte) : (byte8 b).length = 1 := length_leBytes 1 _

@[simp] theorem word32At_head (w : Word) (rest : List Byte) :
    word32At (word32 w ++ rest) 0 = w := by
  rw [word32At, word32, leAt_head, Nat.mod_eq_of_lt (show w.toNat < 256 ^ 4 from w.isLt),
    BitVec.ofNat_toNat, BitVec.setWidth_eq]

@[simp] theorem half16At_head (h : Half) (rest : List Byte) :
    half16At (half16 h ++ rest) 0 = h := by
  rw [half16At, half16, leAt_head, Nat.mod_eq_of_lt (show h.toNat < 256 ^ 2 from h.isLt),
    BitVec.ofNat_toNat, BitVec.setWidth_eq]

@[simp] theorem byte8At_head (b : Byte) (rest : List Byte) :
    byte8At (byte8 b ++ rest) 0 = b := by
  rw [byte8At, byte8, leAt_head, Nat.mod_eq_of_lt (show b.toNat < 256 ^ 1 from b.isLt),
    BitVec.ofNat_toNat, BitVec.setWidth_eq]

theorem word32At_skip {bs rest : List Byte} {off : Nat} (h : bs.length ≤ off) :
    word32At (bs ++ rest) off = word32At rest (off - bs.length) := by
  rw [word32At, leAt_skip 4 h, word32At]

theorem half16At_skip {bs rest : List Byte} {off : Nat} (h : bs.length ≤ off) :
    half16At (bs ++ rest) off = half16At rest (off - bs.length) := by
  rw [half16At, leAt_skip 2 h, half16At]

theorem byte8At_skip {bs rest : List Byte} {off : Nat} (h : bs.length ≤ off) :
    byte8At (bs ++ rest) off = byte8At rest (off - bs.length) := by
  rw [byte8At, leAt_skip 1 h, byte8At]

@[simp] theorem Elf32Shdr.length_bytes (s : Elf32Shdr) : s.bytes.length = 40 := by
  simp [bytes]

@[simp] theorem Elf32Sym.length_bytes (s : Elf32Sym) : s.bytes.length = 16 := by
  simp [bytes]

theorem Elf32Ehdr.length_bytes {e : Elf32Ehdr} (h : e.e_ident.length = 16) :
    e.bytes.length = 52 := by
  simp [bytes, h]

theorem Elf32Sym.ofBytes_bytes (s : Elf32Sym) (rest : List Byte) :
    ofBytes (s.bytes ++ rest) = s := by
  simp [ofBytes, bytes, List.append_assoc, word32At_skip, half16At_skip, byte8At_skip]

/-- A table of symbols reads back. -/
theorem Elf32Sym.recordsAt_bytes (syms : List Elf32Sym) :
    recordsAt ofBytes 16 syms.length (syms.flatMap bytes) = syms := by
  have hback := recordsAt_flatMap length_bytes ofBytes_bytes syms []
  rw [List.append_nil] at hback
  exact hback

theorem Elf32Shdr.ofBytes_bytes (s : Elf32Shdr) (rest : List Byte) :
    ofBytes (s.bytes ++ rest) = s := by
  simp [ofBytes, bytes, List.append_assoc, word32At_skip]

theorem Elf32Ehdr.ofBytes_bytes {e : Elf32Ehdr} (h : e.e_ident.length = 16) (rest : List Byte) :
    ofBytes (e.bytes ++ rest) = e := by
  simp [ofBytes, bytes, List.append_assoc, word32At_skip, half16At_skip, h]

/-! ## Files -/

/-- `EI_MAG0` to `EI_VERSION` of a 32-bit little-endian file. -/
def elf32Ident : List Byte := [0x7F, 0x45, 0x4C, 0x46, 1, 1, 1]

/-- The file header and the section headers of a file. -/
def elf32Parse (file : List Byte) : Option (Elf32Ehdr × List Elf32Shdr) :=
  let e := Elf32Ehdr.ofBytes file
  if 52 ≤ file.length ∧ e.e_ident.take 7 = elf32Ident ∧ e.e_shentsize = 40 ∧
      e.e_shoff.toNat + 40 * e.e_shnum.toNat ≤ file.length then
    some (e, recordsAt Elf32Shdr.ofBytes 40 e.e_shnum.toNat (file.drop e.e_shoff.toNat))
  else none

/-- What a section header points at. -/
def sectionBytes (file : List Byte) (s : Elf32Shdr) : List Byte :=
  (file.drop s.sh_offset.toNat).take s.sh_size.toNat

/-- A file header, anything, and the section headers. -/
theorem elf32Parse_file {e : Elf32Ehdr} {body : List Byte} {shdrs : List Elf32Shdr}
    (hlen : e.e_ident.length = 16) (hident : e.e_ident.take 7 = elf32Ident)
    (hshentsize : e.e_shentsize = 40) (hshoff : e.e_shoff.toNat = 52 + body.length)
    (hshnum : e.e_shnum.toNat = shdrs.length) :
    elf32Parse (e.bytes ++ (body ++ shdrs.flatMap Elf32Shdr.bytes)) = some (e, shdrs) := by
  have hehdr := Elf32Ehdr.length_bytes hlen
  have htable := length_flatMap Elf32Shdr.length_bytes shdrs
  have hdrop : (e.bytes ++ (body ++ shdrs.flatMap Elf32Shdr.bytes)).drop e.e_shoff.toNat
      = shdrs.flatMap Elf32Shdr.bytes ++ [] := by
    rw [← List.append_assoc, List.append_nil,
      List.drop_left' (by rw [List.length_append, hehdr, hshoff])]
  unfold elf32Parse
  dsimp only
  rw [Elf32Ehdr.ofBytes_bytes hlen, if_pos, hdrop, hshnum,
    recordsAt_flatMap Elf32Shdr.length_bytes Elf32Shdr.ofBytes_bytes]
  refine ⟨?_, hident, hshentsize, ?_⟩
  · rw [List.length_append]
    omega
  · rw [List.length_append, List.length_append, htable]
    omega

theorem sectionBytes_at {before data : List Byte} {s : Elf32Shdr} (rest : List Byte)
    (hoffset : s.sh_offset.toNat = before.length) (hsize : s.sh_size.toNat = data.length) :
    sectionBytes (before ++ (data ++ rest)) s = data := by
  rw [sectionBytes, hoffset, hsize, List.drop_left, List.take_left]

/-! ## Symbols -/

/-- A symbol with its name. -/
structure NamedSym where
  name : List Byte
  value : Word
  size : Word
  info : Byte
  shndx : Half
deriving DecidableEq, Repr

def Elf32Sym.named (strtab : List Byte) (sym : Elf32Sym) : NamedSym :=
  ⟨cstr strtab sym.st_name.toNat, sym.st_value, sym.st_size, sym.st_info, sym.st_shndx⟩

/-- The first section of a name. -/
def elf32Section (file : List Byte) (e : Elf32Ehdr) (shdrs : List Elf32Shdr) (name : List Byte) :
    Option Elf32Shdr :=
  match shdrs[e.e_shstrndx.toNat]? with
  | none => none
  | some shstrtab =>
    shdrs.find? (fun s => cstr (sectionBytes file shstrtab) s.sh_name.toNat = name)

/-- The symbols of a file, from the symbol table `name` and the string table that it links. -/
def elf32Symbols (name file : List Byte) : Option (List NamedSym) := do
  let (e, shdrs) ← elf32Parse file
  let symtab ← elf32Section file e shdrs name
  let strtab ← shdrs[symtab.sh_link.toNat]?
  let syms := recordsAt Elf32Sym.ofBytes 16 (symtab.sh_size.toNat / 16) (sectionBytes file symtab)
  return syms.map (Elf32Sym.named (sectionBytes file strtab))

/-- A section inside of the file has the bytes that its header says. -/
theorem length_sectionBytes {file : List Byte} {s : Elf32Shdr}
    (h : s.sh_offset.toNat + s.sh_size.toNat ≤ file.length) :
    (sectionBytes file s).length = s.sh_size.toNat := by
  rw [sectionBytes, List.length_take, List.length_drop]
  omega

end StupidOS
