import JacobiXv6.Kernel.Proc
import JacobiXv6.Kernel.Vm

/-! The system calls that take and give back pages and open files: `fork`, `exec`, `sbrk`, `exit`,
`wait`, `open`, `pipe`, `dup` and `close`, one call after the other. What `exec` reads from a file
and the inode that `open` finds are given with the call. Where the source would follow a pointer to
nowhere the model panics with a message of its own. -/
namespace JacobiXv6.Kernel
open Library Function

/-- `type` of `struct file`, with what it refers to. -/
inductive FdType
  | none
  | pipe (page : Frame)
  | inode (ip : ℕ)
  deriving DecidableEq

/-- `struct file`; the number of references is bounded by the number of descriptors. -/
structure File where
  type : FdType
  ref : ℕ
  readable : Bool
  writable : Bool

structure PipeEnds where
  readopen : Bool
  writeopen : Bool

/-- The part of `struct proc` that holds pages. -/
structure Process (n : ℕ) where
  state : ProcState
  parent : Option (Fin n)
  kstack : Option Frame
  pgdir : Option Pgdir
  sz : ℕ

/-- The kernel with `n` process slots, `o` descriptors for each and `m` files. `pipe` tells what
is in the pages that are pipes, `kstacks` are the stacks of the other processors, and the last two
fields are the pages that became pipes and those that were freed, in order. -/
structure Sys (n o m : ℕ) where
  proc : Fin n → Process n
  ofile : Fin n → Fin o → Option (Fin m)
  file : Fin m → File
  pipe : Frame → Option PipeEnds
  free : List Frame
  kpgdir : Pgdir
  kstacks : List Frame
  initproc : Fin n
  made : List Frame
  freed : List Frame

namespace Sys
variable {n o m : ℕ}

def onFree {α : Type} (r : Kmem α) : Routine (Sys n o m) α := fun s =>
  match r s.free with
  | .ok (a,free) => .ok (a,{ s with free := free })
  | .error message => .error message

def setFile (f : Fin m) (x : File) : Routine (Sys n o m) Unit :=
  modify fun s => { s with file := update s.file f x }

def setProc (i : Fin n) (x : Process n) : Routine (Sys n o m) Unit :=
  modify fun s => { s with proc := update s.proc i x }

def setFd (i : Fin n) (fd : Fin o) (f : Option (Fin m)) : Routine (Sys n o m) Unit :=
  modify fun s => { s with ofile := update s.ofile i (update (s.ofile i) fd f) }

/-! ### `file.c` and `pipe.c` -/

def filealloc : Routine (Sys n o m) (Option (Fin m)) := do
  let s ← get
  match (List.finRange m).find? fun f => (s.file f).ref = 0 with
  | none => return none
  | some f =>
    setFile f { s.file f with ref := 1 }
    return some f

def filedup (f : Fin m) : Routine (Sys n o m) Unit := do
  let s ← get
  if (s.file f).ref < 1 then throw "filedup"
  else setFile f { s.file f with ref := (s.file f).ref+1 }

/-- A pipe has no page of its own any more when both its ends are closed. -/
def pipeclose (p : Frame) (writable : Bool) : Routine (Sys n o m) Unit := do
  let s ← get
  match s.pipe p with
  | none => throw "pipeclose: not a pipe"
  | some e =>
    let e := if writable then { e with writeopen := false } else { e with readopen := false }
    if e.readopen = false ∧ e.writeopen = false then
      modify fun s => { s with pipe := update s.pipe p none, freed := s.freed++[p] }
      onFree (kfree p)
    else modify fun s => { s with pipe := update s.pipe p (some e) }

/-- The `iput` of an inode is left out. -/
def fileclose (f : Fin m) : Routine (Sys n o m) Unit := do
  let s ← get
  if (s.file f).ref < 1 then throw "fileclose"
  else if 0 < (s.file f).ref-1 then setFile f { s.file f with ref := (s.file f).ref-1 }
  else
    setFile f { s.file f with ref := 0, type := .none }
    match (s.file f).type with
    | .pipe p => pipeclose p (s.file f).writable
    | _ => return

def pipealloc : Routine (Sys n o m) (Option (Fin m×Fin m)) := do
  match ← filealloc with
  | none => return none
  | some f0 =>
    match ← filealloc with
    | none =>
      fileclose f0
      return none
    | some f1 =>
      match ← onFree kalloc with
      | none =>
        fileclose f0
        fileclose f1
        return none
      | some p =>
        let s ← get
        modify fun s => { s with pipe := update s.pipe p (some ⟨true,true⟩), made := s.made++[p] }
        setFile f0 { s.file f0 with type := .pipe p, readable := true, writable := false }
        setFile f1 { s.file f1 with type := .pipe p, readable := false, writable := true }
        return some (f0,f1)

/-! ### `sysfile.c` -/

def fdalloc (i : Fin n) (f : Fin m) : Routine (Sys n o m) (Option (Fin o)) := do
  let s ← get
  match (List.finRange o).find? fun fd => (s.ofile i fd).isNone with
  | none => return none
  | some fd =>
    setFd i fd (some f)
    return some fd

/-- The descriptor of an argument, if it is one. -/
def argfd (i : Fin n) (fd : ℤ) : Routine (Sys n o m) (Option (Fin o×Fin m)) := do
  let s ← get
  if h : 0 ≤ fd ∧ fd.toNat < o then return (s.ofile i ⟨fd.toNat,h.2⟩).map fun f => (⟨fd.toNat,h.2⟩,f)
  else return none

def sysDup (i : Fin n) (fd : ℤ) : Routine (Sys n o m) Bool := do
  match ← argfd i fd with
  | none => return false
  | some (_,f) =>
    match ← fdalloc i f with
    | none => return false
    | some _ =>
      filedup f
      return true

def sysClose (i : Fin n) (fd : ℤ) : Routine (Sys n o m) Bool := do
  match ← argfd i fd with
  | none => return false
  | some (fd,f) =>
    setFd i fd none
    fileclose f
    return true

/-- `ip` is the inode that `namei` or `create` returns, if the mode is allowed for it. -/
def sysOpen (i : Fin n) (ip : Option ℕ) (wronly rdwr : Bool) : Routine (Sys n o m) Bool := do
  match ip with
  | none => return false
  | some ip =>
    match ← filealloc with
    | none => return false
    | some f =>
      match ← fdalloc i f with
      | none =>
        fileclose f
        return false
      | some _ =>
        let s ← get
        setFile f { s.file f with type := .inode ip, readable := !wronly, writable := wronly || rdwr }
        return true

/-- `ok` tells whether `argptr` accepts the address for the two descriptors. -/
def sysPipe (i : Fin n) (ok : Bool) : Routine (Sys n o m) Bool := do
  if ok = false then return false
  else
    match ← pipealloc with
    | none => return false
    | some (rf,wf) =>
      match ← fdalloc i rf with
      | none =>
        fileclose rf
        fileclose wf
        return false
      | some fd0 =>
        match ← fdalloc i wf with
        | none =>
          setFd i fd0 none
          fileclose rf
          fileclose wf
          return false
        | some _ => return true

/-! ### `proc.c` and `exec.c` -/

/-- The slot of a new process with a kernel stack. -/
def allocproc : Routine (Sys n o m) (Option (Fin n)) := do
  let s ← get
  match (List.finRange n).find? fun i => (s.proc i).state = .unused with
  | none => return none
  | some np =>
    match ← onFree kalloc with
    | none =>
      setProc np { s.proc np with kstack := none }
      return none
    | some r =>
      setProc np { s.proc np with state := .embryo, kstack := some r }
      return some np

/-- The loop of `fork` over the open files. -/
def dupFiles (i np : Fin n) : List (Fin o) → Routine (Sys n o m) Unit
  | [] => return
  | fd::fds => do
    let s ← get
    match s.ofile i fd with
    | none => pure ()
    | some f =>
      filedup f
      setFd np fd (some f)
    dupFiles i np fds

def fork (K : KernelMap) (i : Fin n) : Routine (Sys n o m) Bool := do
  match ← allocproc with
  | none => return false
  | some np =>
    let s ← get
    match (s.proc i).pgdir, (s.proc np).kstack with
    | some pgdir, some kstack =>
      match ← onFree (copyuvm K.kmap pgdir (s.proc i).sz) with
      | none =>
        onFree (kfree kstack)
        setProc np { s.proc np with pgdir := none, kstack := none, state := .unused }
        return false
      | some d =>
        setProc np { s.proc np with pgdir := some d, sz := (s.proc i).sz, parent := some i }
        dupFiles i np (List.finRange o)
        let s ← get
        setProc np { s.proc np with state := .runnable }
        return true
    | _, _ => throw "fork: a process without memory"

/-- The loop of `exit` over the open files. -/
def closeFiles (i : Fin n) : List (Fin o) → Routine (Sys n o m) Unit
  | [] => return
  | fd::fds => do
    let s ← get
    match s.ofile i fd with
    | none => pure ()
    | some f =>
      fileclose f
      setFd i fd none
    closeFiles i fds

def exit (i : Fin n) : Routine (Sys n o m) Bool := do
  let s ← get
  if i = s.initproc then throw "init exiting"
  else
    closeFiles i (List.finRange o)
    modify fun s => { s with proc := fun k =>
      if (s.proc k).parent = some i then { s.proc k with parent := some s.initproc } else s.proc k }
    let s ← get
    setProc i { s.proc i with state := .zombie }
    return true

/-- `wait` frees a child that has exited; without one it sleeps or fails. -/
def wait (i : Fin n) : Routine (Sys n o m) Bool := do
  let s ← get
  match (List.finRange n).find? fun p => (s.proc p).parent = some i ∧ (s.proc p).state = .zombie with
  | none => return false
  | some p =>
    match (s.proc p).kstack, (s.proc p).pgdir with
    | some kstack, some pgdir =>
      onFree (kfree kstack)
      onFree (freevm pgdir)
      setProc p { s.proc p with kstack := none, parent := none, state := .unused }
      return true
    | _, _ => throw "wait: a process without memory"

/-- `growproc`, with the arithmetic of `uint`. -/
def sbrk (i : Fin n) (k : BitVec 32) : Routine (Sys n o m) Bool := do
  let s ← get
  let sz := (s.proc i).sz
  match (s.proc i).pgdir with
  | none => throw "sbrk: a process without memory"
  | some pgdir =>
    if 0 < k.toInt then
      let (sz',pgdir) ← onFree (allocuvm pgdir sz ((sz+k.toNat)%2^32))
      if sz' = 0 then
        setProc i { s.proc i with pgdir := some pgdir }
        return false
      else
        setProc i { s.proc i with pgdir := some pgdir, sz := sz' }
        return true
    else if k.toInt < 0 then
      let (sz',pgdir) ← onFree (deallocuvm pgdir sz ((sz+k.toNat)%2^32))
      if sz' = 0 then
        setProc i { s.proc i with pgdir := some pgdir }
        return false
      else
        setProc i { s.proc i with pgdir := some pgdir, sz := sz' }
        return true
    else return true

def exec (K : KernelMap) (i : Fin n) (image : Image) : Routine (Sys n o m) Bool := do
  match ← onFree (loadImage K.kmap image) with
  | none => return false
  | some (pgdir,sz) =>
    let s ← get
    match (s.proc i).pgdir with
    | none => throw "exec: a process without memory"
    | some oldpgdir =>
      setProc i { s.proc i with pgdir := some pgdir, sz := sz }
      onFree (freevm oldpgdir)
      return true

end Sys

inductive Syscall
  | fork
  | exec (image : Image)
  | sbrk (k : BitVec 32)
  | exit
  | wait
  | opens (ip : Option ℕ) (wronly rdwr : Bool)
  | pipe (ok : Bool)
  | dup (fd : ℤ)
  | close (fd : ℤ)

namespace Sys
variable {n o m : ℕ}

/-- A call of process `i`; the answer tells whether it succeeds. -/
def syscall (K : KernelMap) (i : Fin n) : Syscall → Routine (Sys n o m) Bool
  | .fork => fork K i
  | .exec image => exec K i image
  | .sbrk k => sbrk i k
  | .exit => exit i
  | .wait => wait i
  | .opens ip wronly rdwr => sysOpen i ip wronly rdwr
  | .pipe ok => sysPipe i ok
  | .dup fd => sysDup i fd
  | .close fd => sysClose i fd

/-! ### `main.c` -/

def freerange : List Frame → Kmem Unit
  | [] => return
  | r::rs => do
    kfree r
    freerange rs

def kvmalloc (K : KernelMap) : Kmem Pgdir := do
  match ← setupkvm K.kmap with
  | none => throw "kvmalloc: out of memory"
  | some kpgdir => return kpgdir

def startothers : ℕ → Kmem (List Frame)
  | 0 => return []
  | k+1 => do
    match ← kalloc with
    | none => throw "startothers: out of memory"
    | some stack => return stack::(← startothers k)

/-- Without a page for the first program, or for its page table, there is no first process. -/
def inituvm (pgdir : Pgdir) : Kmem Pgdir := do
  match ← kalloc with
  | none => throw "inituvm: out of memory"
  | some mem =>
    let (ok,pgdir) ← mappages true true 1 pgdir 0 mem
    if ok then return pgdir else throw "inituvm: out of memory"

def userinit (K : KernelMap) : Routine (Sys n o m) Unit := do
  match ← allocproc with
  | none => throw "userinit: no process"
  | some p =>
    match ← onFree (setupkvm K.kmap) with
    | none => throw "userinit: out of memory?"
    | some pgdir =>
      let pgdir ← onFree (inituvm pgdir)
      modify fun s => { s with
        initproc := p
        proc := update s.proc p
          { s.proc p with pgdir := some pgdir, sz := PGSIZE, state := .runnable } }

def blank [NeZero n] (kpgdir : Pgdir) (kstacks free : List Frame) : Sys n o m where
  proc _ := ⟨.unused,none,none,none,0⟩
  ofile _ _ := none
  file _ := ⟨.none,0,false,false⟩
  pipe _ := none
  free := free
  kpgdir := kpgdir
  kstacks := kstacks
  initproc := 0
  made := []
  freed := []

/-- The pages that `main` takes for the kernel. -/
def bootMemory (K : KernelMap) (low high : List Frame) (others : ℕ) : Kmem (Pgdir×List Frame) := do
  freerange low
  let kpgdir ← kvmalloc K
  let kstacks ← startothers others
  freerange high
  return (kpgdir,kstacks)

/-- `main` with the pages of `kinit1` and `kinit2`, and the number of other processors. -/
def boot [NeZero n] (K : KernelMap) (low high : List Frame) (others : ℕ) : Except String (Sys n o m) :=
  match bootMemory K low high others [] with
  | .error message => .error message
  | .ok ((kpgdir,kstacks),free) =>
    match userinit K (blank kpgdir kstacks free) with
    | .error message => .error message
    | .ok (_,s) => .ok s

/-- A process that has been started and has not exited makes a call, and the call returns. -/
def Step (K : KernelMap) (s : Sys n o m) (a : Fin n×Syscall) (s' : Sys n o m) : Prop :=
  (s.proc a.1).state = .runnable ∧ ∃ r, syscall K a.1 a.2 s = .ok (r,s')

end Sys
end JacobiXv6.Kernel
