import LightOS.Foundation.ByteFile
import LightOS.Foundation.Memory
import LightOS.Fs.Format
import LightOS.UserMemory.Machine

/-!
# Loading of programs

`execve.c` up to the byte: `load_elf` reads the headers of a file to the first page of user
programs and loads the segments that it finds described there.  The headers stay where the
segments may be stored over them, and every field is read from memory when it is used.  A
user task is seen by the pages that it has and by what a load from an address gives.
-/

namespace LightOS
namespace Loading

open UserMemory (userExecAddr userMmapAddr userStackBottom userStackTop)

/-! ## User memory -/

/-- The memory of the current task, with the flags of its pages by number, and the fields of
`task_t` that loading sets.  The bytes of a page that the task does not have yet are those of
the page that it will be given. -/
structure UserSpace where
  memory : Memory
  linked : Nat → Bool
  write : Nat → Bool
  readonly : Nat → Bool
  text : Nat
  data : Nat
  end_ : Nat

namespace UserSpace

/-- `link_user_page`. -/
def linkUserPage (s : UserSpace) (vaddr : Nat) : UserSpace :=
  let page := vaddr / pageSize
  if s.linked page then
    s
  else
    { s with
      linked := Function.update s.linked page true
      write := Function.update s.write page true
      readonly := Function.update s.readonly page false }

/-- The kernel accesses a byte of the user.  As CR0.WP is clear, it may write to every page
that the task has.  Outside the stack `page_fault` ends a task that misses a page. -/
def access (s : UserSpace) (vaddr : Nat) : Except Fault UserSpace := do
  bounded (vaddr < kernelVaddrOffset)
  if s.linked (vaddr / pageSize) then
    return s
  else if userStackBottom < vaddr ∧ vaddr ≤ userStackTop then
    return s.linkUserPage vaddr
  else
    throw .wild

/-- The kernel accesses all bytes from an address on. -/
def accesses (s : UserSpace) (vaddr length : Nat) : Except Fault UserSpace :=
  (List.range length).foldlM (fun s k => s.access (vaddr + k)) s

/-- The kernel stores bytes. -/
def store (s : UserSpace) (vaddr length : Nat) (bytes : Nat → UInt8) :
    Except Fault UserSpace := do
  let s ← s.accesses vaddr length
  return { s with memory := s.memory.store vaddr length bytes }

/-- `inode_read`, for a file that has all its blocks. -/
def inodeRead (s : UserSpace) (file : ByteFile) (buf len offset : Nat) :
    Except Fault (Int × UserSpace) := do
  if file.size ≤ offset then
    return (-1, s)
  else if len = 0 then
    return (0, s)
  else
    let left := min len (file.size - offset)
    return (left, ← s.store buf left fun k => file.byte (offset + k))

end UserSpace

/-! ## Headers -/

/-- `ET_EXEC`. -/
abbrev etExec : Nat := 2

/-- `EM_386`. -/
abbrev em386 : Nat := 3

/-- `EV_CURRENT`. -/
abbrev evCurrent : Nat := 1

/-- `PT_LOAD`. -/
abbrev ptLoad : Nat := 1

/-- `PF_X`. -/
abbrev pfX : Nat := 1

/-- `PF_W`. -/
abbrev pfW : Nat := 2

/-- `PF_R`. -/
abbrev pfR : Nat := 4

/-- `sizeof(Elf32_Ehdr)`. -/
abbrev ehdrSize : Nat := 52

/-- `sizeof(Elf32_Phdr)`. -/
abbrev phdrSize : Nat := 32

/-- The structure `Elf32_Ehdr`, with the bytes of `e_ident` that `elf_validate` looks at. -/
structure Ehdr where
  ident : List UInt8
  type : Nat
  machine : Nat
  version : Nat
  entry : Nat
  phoff : Nat
  phentsize : Nat
  phnum : Nat

/-- The structure at an address. -/
def Ehdr.read (memory : Memory) (ptr : Nat) : Ehdr where
  ident := (List.range 7).map fun k => memory (ptr + k)
  type := memory.half (ptr + 16)
  machine := memory.half (ptr + 18)
  version := memory.word (ptr + 20)
  entry := memory.word (ptr + 24)
  phoff := memory.word (ptr + 28)
  phentsize := memory.half (ptr + 42)
  phnum := memory.half (ptr + 44)

/-- `elf_validate`. -/
def elfValidate (ehdr : Ehdr) : Bool :=
  if ehdr.ident ≠ [0x7F, 0x45, 0x4C, 0x46, 1, 1, 1] then
    false
  else if ehdr.type ≠ etExec then
    false
  else if ehdr.machine ≠ em386 then
    false
  else if ehdr.version ≠ evCurrent then
    false
  else if ehdr.phentsize ≠ phdrSize then
    false
  else
    true

/-- The structure `Elf32_Phdr` without `p_paddr`, which nothing reads. -/
structure Phdr where
  type : Nat
  offset : Nat
  vaddr : Nat
  filesz : Nat
  memsz : Nat
  flags : Nat
  align : Nat

/-- The structure at an address. -/
def Phdr.read (memory : Memory) (ptr : Nat) : Phdr where
  type := memory.word ptr
  offset := memory.word (ptr + 4)
  vaddr := memory.word (ptr + 8)
  filesz := memory.word (ptr + 16)
  memsz := memory.word (ptr + 20)
  flags := memory.word (ptr + 24)
  align := memory.word (ptr + 28)

/-! ## The loader -/

namespace UserSpace

/-- A round of the first loop of `load_segment`. -/
def linkSegmentPage (vaddr : Nat) (s : UserSpace) (index : Nat) : Except Fault UserSpace := do
  let addr := (vaddr + index * pageSize) % 2 ^ 32
  check (userExecAddr ≤ addr ∧ addr < userMmapAddr)
  return s.linkUserPage addr

/-- The part of `load_segment` that clears what the file does not hold. -/
def clearSegment (s : UserSpace) (vaddr ptr : Nat) : Except Fault UserSpace :=
  let phdr := Phdr.read s.memory ptr
  if phdr.filesz < phdr.memsz then
    s.store ((vaddr + phdr.filesz) % 2 ^ 32) (phdr.memsz - phdr.filesz) fun _ => 0
  else
    .ok s

/-- A round of the second loop of `load_segment`. -/
def protectPage (vaddr : Nat) (s : UserSpace) (index : Nat) : UserSpace :=
  let page := (vaddr + index * pageSize) % 2 ^ 32 / pageSize
  { s with
    write := Function.update s.write page false
    readonly := Function.update s.readonly page true }

/-- The part of `load_segment` that makes the pages of a segment read-only. -/
def protectSegment (s : UserSpace) (vaddr count ptr : Nat) : UserSpace :=
  if (Phdr.read s.memory ptr).flags &&& pfW = 0 then
    (List.range count).foldl (protectPage vaddr) s
  else
    s

/-- The end of `load_segment`. -/
def noteSegment (s : UserSpace) (vaddr count ptr : Nat) : UserSpace :=
  let flags := (Phdr.read s.memory ptr).flags
  let s :=
    if flags = pfR ||| pfX then { s with text := vaddr }
    else if flags = pfR ||| pfW then { s with data := vaddr }
    else s
  { s with end_ := (vaddr + count * pageSize) % 2 ^ 32 }

/-- `load_segment`.  The segment may be stored over the header that `ptr` points to. -/
def loadSegment (s : UserSpace) (file : ByteFile) (ptr : Nat) : Except Fault UserSpace := do
  let s ← s.accesses ptr phdrSize
  let phdr := Phdr.read s.memory ptr
  check (phdr.align = 0x1000)
  check (phdr.vaddr % pageSize = 0)
  let vaddr := phdr.vaddr
  let count := Fs.divRoundUp (max phdr.memsz phdr.filesz) pageSize
  let s ← (List.range count).foldlM (linkSegmentPage vaddr) s
  let (_, s) ← s.inodeRead file vaddr phdr.filesz phdr.offset
  let s ← s.clearSegment vaddr ptr
  let s := s.protectSegment vaddr count ptr
  return s.noteSegment vaddr count ptr

/-- The loop of `load_elf` from its round `i` on.  `e_phnum` is a 16-bit word, so that there
are no more than `2 ^ 16` rounds. -/
def loadSegments (file : ByteFile) : (left i ptr : Nat) → UserSpace → Except Fault UserSpace
  | 0, _, _, s => .ok s
  | left + 1, i, ptr, s =>
      if i < (Ehdr.read s.memory userExecAddr).phnum then do
        let s ← s.accesses ptr 4
        if (Phdr.read s.memory ptr).type ≠ ptLoad then
          -- `continue` comes before `ptr++`.
          loadSegments file left (i + 1) ptr s
        else
          let s ← s.loadSegment file ptr
          loadSegments file left (i + 1) (ptr + phdrSize) s
      else
        .ok s

/-- `load_elf`. -/
def loadElf (s : UserSpace) (file : ByteFile) : Except Fault (Nat × UserSpace) := do
  let s := s.linkUserPage userExecAddr
  let (n, s) ← s.inodeRead file userExecAddr ehdrSize 0
  check (n = ehdrSize)
  let ehdr := Ehdr.read s.memory userExecAddr
  if elfValidate ehdr = false then
    return (eof, s)
  else
    let phdr := userExecAddr + ehdrSize
    let (_, s) ← s.inodeRead file phdr (ehdr.phnum * ehdr.phentsize) ehdr.phoff
    let s ← loadSegments file (2 ^ 16) 0 phdr s
    return ((Ehdr.read s.memory userExecAddr).entry, s)

end UserSpace

end Loading
end LightOS
