import JacobiXv6.Library.Bytes
import JacobiXv6.Kernel.Trapframe
import JacobiXv6.Kernel.Vm

/-! The system call `exec` on the bytes of the file and with the contents of the pages. What `kfree`
writes into a page is left out, and a page of a page table has no contents but its entries. -/
namespace JacobiXv6.Kernel.Exec
open Library Function

abbrev MAXARG : ℕ := 32
abbrev ELF_MAGIC : Word := 0x464C457F#32
abbrev ELF_PROG_LOAD : Word := 1#32

/-- `struct elfhdr`, as far as `exec` uses it. -/
structure Elfhdr where
  magic : Word
  entry : Word
  phoff : Word
  phnum : Half

namespace Elfhdr

abbrev size : ℕ := 52

def ofBytes (bs : List Byte) : Elfhdr := ⟨wordAt bs 0,wordAt bs 24,wordAt bs 28,shortAt bs 44⟩

end Elfhdr

/-- `struct proghdr`, as far as `exec` uses it. -/
structure Segment where
  type : Word
  off : Word
  vaddr : Word
  filesz : Word
  memsz : Word

namespace Segment

abbrev size : ℕ := 32

def ofBytes (bs : List Byte) : Segment :=
  ⟨wordAt bs 0,wordAt bs 4,wordAt bs 8,wordAt bs 16,wordAt bs 20⟩

end Segment

/-- Where a path leads, and what is in an inode. -/
structure Files where
  namei : List Byte → Option ℕ
  content : ℕ → List Byte

/-- A string that the process passes on; it lies in its memory. -/
structure Arg where
  text : List Byte
  nonzero : 0#8 ∉ text
  short : text.length < KERNBASE

def Arg.bytes (a : Arg) : List Byte := a.text++[0#8]

/-- The process that calls `exec`, the pages, the references of the inodes and what it holds of
the file system. -/
structure Machine where
  free : List Frame
  mem : Frame → Sector
  pgdir : Pgdir
  sz : ℕ
  tf : Trapframe
  name : List Byte
  handler : Word
  ref : ℕ → ℤ
  locked : Option ℕ
  outstanding : ℤ

def onFree {α : Type} (r : Kmem α) : Routine Machine α := fun s =>
  match r s.free with
  | .ok (a,free) => .ok (a,{ s with free := free })
  | .error message => .error message

/-! ### The file system -/

def beginOp : Routine Machine Unit := modify fun s => { s with outstanding := s.outstanding+1 }

def endOp : Routine Machine Unit := modify fun s => { s with outstanding := s.outstanding-1 }

def namei (fs : Files) (path : List Byte) : Routine Machine (Option ℕ) :=
  match fs.namei path with
  | none => return none
  | some ip => do
    modify fun s => { s with ref := update s.ref ip (s.ref ip+1) }
    return some ip

def ilock (ip : ℕ) : Routine Machine Unit := modify fun s => { s with locked := some ip }

def iunlockput (ip : ℕ) : Routine Machine Unit := do
  let s ← get
  if s.locked ≠ some ip then throw "iunlock"
  else modify fun s => { s with locked := none, ref := update s.ref ip (s.ref ip-1) }

/-- The bytes that `readi` copies, or its -1. -/
def readi (content : List Byte) (off : Word) (n : ℕ) : Option (List Byte) :=
  if content.length < off.toNat ∨ 2^32 ≤ off.toNat+n then none
  else some ((content.drop off.toNat).take n)

/-- A structure of `n` bytes, read as a whole. -/
def readStruct (content : List Byte) (off : Word) (n : ℕ) : Option (List Byte) :=
  (readi content off n).filter fun bs => bs.length = n

/-! ### Pages and what is in them -/

/-- `memmove` to a page. -/
def store (f : Frame) (off : ℕ) (bs : List Byte) : Routine Machine Unit :=
  modify fun s => { s with mem := update s.mem f ((s.mem f).paste off bs) }

/-- The `memset` of the new pages. -/
def clearPages (pgdir : Pgdir) : List ℕ → Routine Machine Unit
  | [] => return
  | v::vs => do
    match (pgdir.find v).join with
    | none => clearPages pgdir vs
    | some e =>
      store e.ppn 0 (List.replicate PGSIZE 0#8)
      clearPages pgdir vs

/-- The new pages are cleared when all of them are there. -/
def allocuvm (pgdir : Pgdir) (oldsz newsz : ℕ) : Routine Machine (ℕ×Pgdir) := do
  let (sz,pgdir) ← onFree (Kernel.allocuvm pgdir oldsz newsz)
  if sz = 0 then return (sz,pgdir)
  else
    clearPages pgdir (List.range' (pages oldsz) (pages sz-pages oldsz))
    return (sz,pgdir)

/-- The loop of `loaduvm` for the `n` pages that are left, from byte `i` on. -/
def loadLoop (content : List Byte) (pgdir : Pgdir) (addr offset sz : Word) :
    ℕ → ℕ → Routine Machine Bool
  | 0, _ => return true
  | n+1, i =>
    match pgdir.find ((addr+BitVec.ofNat 32 i).toNat/PGSIZE) with
    | none => throw "loaduvm: address should exist"
    | some e => do
      let m := min (sz.toNat-i) PGSIZE
      match readi content (offset+BitVec.ofNat 32 i) m with
      | none => return false
      | some bs =>
        store ((e.map Pte.ppn).getD 0) 0 bs
        if bs.length = m then loadLoop content pgdir addr offset sz n (i+PGSIZE) else return false

def loaduvm (content : List Byte) (pgdir : Pgdir) (addr offset sz : Word) : Routine Machine Bool :=
  if addr.toNat%PGSIZE ≠ 0 then throw "loaduvm: addr must be page aligned"
  else loadLoop content pgdir addr offset sz (pages sz.toNat) 0

/-- `walkpgdir` may return a null pointer. It is followed, and there the kernel, which is built
with -O2, has a trap. -/
def uva2ka (pgdir : Pgdir) (vpn : ℕ) : Routine Machine (Option Frame) :=
  match pgdir.find vpn with
  | none => throw "trap"
  | some none => return none
  | some (some e) => return if e.user then some e.ppn else none

/-- The loop of `copyout`; there are no more turns than bytes. -/
def copyoutLoop (pgdir : Pgdir) : ℕ → Word → List Byte → Routine Machine Bool
  | 0, _, _ => return true
  | fuel+1, va, buf =>
    if buf = [] then return true
    else do
      match ← uva2ka pgdir (va.toNat/PGSIZE) with
      | none => return false
      | some pa =>
        let n := PGSIZE-va.toNat%PGSIZE
        store pa (va.toNat%PGSIZE) (buf.take n)
        copyoutLoop pgdir fuel (va+BitVec.ofNat 32 n) (buf.drop n)

def copyout (pgdir : Pgdir) (va : Word) (buf : List Byte) : Routine Machine Bool :=
  copyoutLoop pgdir buf.length va buf

/-! ### `exec.c` -/

/-- The label `bad`. -/
def bad (pgdir : Option Pgdir) (ip : Option ℕ) : Routine Machine Unit := do
  match pgdir with
  | none => pure ()
  | some pgdir => onFree (freevm pgdir)
  match ip with
  | none => return
  | some ip =>
    iunlockput ip
    endOp

/-- One program header; no size means `goto bad`. -/
def loadSegment (content : List Byte) (ph : Segment) (sz : ℕ) (pgdir : Pgdir) :
    Routine Machine (Option ℕ×Pgdir) :=
  if ph.memsz < ph.filesz then return (none,pgdir)
  else if ph.vaddr+ph.memsz < ph.vaddr then return (none,pgdir)
  else do
    let (sz,pgdir) ← allocuvm pgdir sz (ph.vaddr+ph.memsz).toNat
    if sz = 0 then return (none,pgdir)
    else if ph.vaddr.toNat%PGSIZE ≠ 0 then return (none,pgdir)
    else
      let ok ← loaduvm content pgdir ph.vaddr ph.off ph.filesz
      return (if ok then some sz else none,pgdir)

/-- The loop over the `n` program headers that are left, from offset `off` on. -/
def loadProgram (content : List Byte) : ℕ → Word → ℕ → Pgdir → Routine Machine (Option ℕ×Pgdir)
  | 0, _, sz, pgdir => return (some sz,pgdir)
  | n+1, off, sz, pgdir =>
    match readStruct content off Segment.size with
    | none => return (none,pgdir)
    | some bs =>
      if (Segment.ofBytes bs).type ≠ ELF_PROG_LOAD then loadProgram content n (off+32#32) sz pgdir
      else do
        match ← loadSegment content (Segment.ofBytes bs) sz pgdir with
        | (none,pgdir) => return (none,pgdir)
        | (some sz,pgdir) => loadProgram content n (off+32#32) sz pgdir

/-- Push the strings; the pointers to them are collected. -/
def pushArgs (pgdir : Pgdir) : List Arg → Word → List Word → Routine Machine (Option (Word×List Word))
  | [], sp, ptrs => return some (sp,ptrs)
  | a::argv, sp, ptrs =>
    if MAXARG ≤ ptrs.length then return none
    else do
      let sp := (sp-BitVec.ofNat 32 (a.text.length+1)) &&& ~~~3#32
      let ok ← copyout pgdir sp a.bytes
      if ok then pushArgs pgdir argv sp (ptrs++[sp]) else return none

/-- The words of `ustack`. -/
def ustack (sp : Word) (ptrs : List Word) : List Word :=
  [0xffffffff#32,BitVec.ofNat 32 ptrs.length,sp-BitVec.ofNat 32 ((ptrs.length+1)*4)]++ptrs++[0#32]

def lastName : List Byte → List Byte → List Byte
  | last, [] => last
  | last, c::s => if c = 47#8 then lastName s s else lastName last s

def commit (path : List Byte) (entry : Word) (pgdir : Pgdir) (sz : ℕ) (sp : Word) :
    Routine Machine ℤ := do
  let s ← get
  modify fun s =>
    { s with name := (lastName path path).take 15
             pgdir := pgdir
             sz := sz
             handler := 0
             tf := { s.tf with eip := entry, esp := sp } }
  onFree (freevm s.pgdir)
  return 0

def stackPages (sz : ℕ) (pgdir : Pgdir) : Routine Machine (Option (ℕ×Pgdir)) := do
  let (sz,pgdir) ← allocuvm pgdir (pages sz*PGSIZE) (pages sz*PGSIZE+2*PGSIZE)
  if sz = 0 then
    bad (some pgdir) none
    return none
  else
    let pgdir ← onFree (clearpteu pgdir ((sz-2*PGSIZE)/PGSIZE))
    return some (sz,pgdir)

/-- From when the file is found and locked until the stack is there: the entry of the program, its
size and its address space, or nothing after `goto bad`. -/
def imageFile (kmap : List Kmap) (ip : ℕ) (content : List Byte) :
    Routine Machine (Option (Word×ℕ×Pgdir)) :=
  match readStruct content 0#32 Elfhdr.size with
  | none => do
    bad none (some ip)
    return none
  | some bs =>
    if (Elfhdr.ofBytes bs).magic ≠ ELF_MAGIC then do
      bad none (some ip)
      return none
    else do
      match ← onFree (setupkvm kmap) with
      | none =>
        bad none (some ip)
        return none
      | some pgdir =>
        match ← loadProgram content (Elfhdr.ofBytes bs).phnum.toNat
          (Elfhdr.ofBytes bs).phoff 0 pgdir with
        | (none,pgdir) =>
          bad (some pgdir) (some ip)
          return none
        | (some sz,pgdir) =>
          iunlockput ip
          endOp
          match ← stackPages sz pgdir with
          | none => return none
          | some (sz,pgdir) => return some ((Elfhdr.ofBytes bs).entry,sz,pgdir)

/-- `exec` until the arguments are pushed. -/
def image (kmap : List Kmap) (fs : Files) (path : List Byte) :
    Routine Machine (Option (Word×ℕ×Pgdir)) := do
  beginOp
  match ← namei fs path with
  | none =>
    endOp
    return none
  | some ip =>
    ilock ip
    imageFile kmap ip (fs.content ip)

/-- The arguments, from when the stack is there. -/
def execArgs (path : List Byte) (argv : List Arg) (entry : Word) (sz : ℕ) (pgdir : Pgdir) :
    Routine Machine ℤ := do
  match ← pushArgs pgdir argv (BitVec.ofNat 32 sz) [] with
  | none =>
    bad (some pgdir) none
    return -1
  | some (sp,ptrs) =>
    let top := sp-BitVec.ofNat 32 ((3+ptrs.length+1)*4)
    let ok ← copyout pgdir top ((ustack sp ptrs).flatMap wordBytes)
    if ok then commit path entry pgdir sz top
    else
      bad (some pgdir) none
      return -1

def exec (kmap : List Kmap) (fs : Files) (path : List Byte) (argv : List Arg) : Routine Machine ℤ := do
  match ← image kmap fs path with
  | none => return -1
  | some (entry,sz,pgdir) => execArgs path argv entry sz pgdir

end JacobiXv6.Kernel.Exec
