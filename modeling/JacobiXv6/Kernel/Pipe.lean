import JacobiXv6.Library.Memory
import JacobiXv6.Library.Run

/-! One pipe and any number of processes in `pipewrite`, `piperead` and `pipeclose`. A process
that holds `p->lock` moves one byte in one step, so that everything that needs no lock
comes in between; `sleep` gives the lock back and puts the process to sleep in one step,
since a `wakeup` has to wait for `ptable.lock`. -/
namespace JacobiXv6.Kernel
open Library Function

def PIPESIZE : ℕ := 2048

/-- Where a call is: waiting for `p->lock`, in its loop with the lock, or asleep. -/
inductive Place
  | spin
  | loop
  | asleep
  deriving DecidableEq

/-- What a process is doing. A write is numbered and has stored the bytes below `i`; a read
that copies has the lock and has put `addr` into the buffer of its caller. -/
inductive PipePc
  | user
  | write (c : ℕ) (addr : ℕ → Byte) (n : ℤ) (i : ℕ) (l : Place)
  | read (n : ℤ) (l : Place)
  | copy (n : ℤ) (addr : List Byte)
  | close (writable : Bool)

/-- The arguments of a write and how far it is. -/
structure PipeJob where
  c : ℕ
  addr : ℕ → Byte
  n : ℤ
  i : ℕ

/-- The channels are the addresses of the two counters. -/
inductive PipeChan
  | nread
  | nwrite
  deriving DecidableEq

namespace PipePc

def holdsLock : PipePc → Bool
  | write _ _ _ _ .loop | read _ .loop | copy _ _ => true
  | _ => false

def job : PipePc → Option PipeJob
  | write c addr n i _ => some ⟨c,addr,n,i⟩
  | _ => none

/-- The bytes that were taken out of the pipe and not returned yet. -/
def inHand : PipePc → List Byte
  | copy _ addr => addr
  | _ => []

/-- `wakeup1(chan)` for one process. -/
def wake : PipeChan → PipePc → PipePc
  | .nread, read n .asleep => read n .spin
  | .nwrite, write c addr n i .asleep => write c addr n i .spin
  | _, pc => pc

/-- `kill` makes a sleeper runnable, whatever it sleeps on. -/
def rouse (pc : PipePc) : PipePc := (pc.wake .nread).wake .nwrite

end PipePc

/-- What a call gave back: `n` of a write, the bytes of a read (their number is the value),
or -1. -/
inductive PipeRet
  | wrote (c : ℕ) (addr : ℕ → Byte) (n : ℤ)
  | writeFailed (c : ℕ)
  | read (n : ℤ) (addr : List Byte)
  | readFailed

/-- `struct pipe` and the processes that use it. The last three fields are history: the number
of writes begun, every stored byte with the number of its write, and what was returned. -/
structure PipeSys (ι : Type*) where
  data : ℕ → Byte
  nread : BitVec 32
  nwrite : BitVec 32
  readopen : Bool
  writeopen : Bool
  lock : Option ι
  killed : ι → Bool
  pc : ι → PipePc
  calls : ℕ
  stored : List (ℕ×Byte)
  rets : List PipeRet

/-- A process enters one of the calls, is killed, or goes on. -/
inductive PipeAct
  | write (addr : ℕ → Byte) (n : ℤ)
  | read (n : ℤ)
  | close (writable : Bool)
  | kill
  | go

namespace PipeSys
variable {ι : Type*} [DecidableEq ι]

def goto (s : PipeSys ι) (p : ι) (c : PipePc) : PipeSys ι := { s with pc := update s.pc p c }

lemma goto_pc (s : PipeSys ι) (p : ι) (c : PipePc) : (s.goto p c).pc = update s.pc p c := rfl

def wakeup (s : PipeSys ι) (chan : PipeChan) : PipeSys ι := { s with pc := fun q => (s.pc q).wake chan }

/-- The lock is given back and the call returns. -/
def ret (s : PipeSys ι) (p : ι) (r : PipeRet) : PipeSys ι :=
  { s.goto p .user with lock := none, rets := s.rets++[r] }

/-- One round of the loop of `pipewrite`. -/
def pipewrite (s : PipeSys ι) (p : ι) (c : ℕ) (addr : ℕ → Byte) (n : ℤ) (i : ℕ) : PipeSys ι :=
  if i < n then
    if s.nwrite = s.nread+BitVec.ofNat 32 PIPESIZE then
      if s.readopen = false ∨ s.killed p = true then s.ret p (.writeFailed c)
      else { (s.wakeup .nread).goto p (.write c addr n i .asleep) with lock := none }
    else
      { s.goto p (.write c addr n (i+1) .loop) with
        data := update s.data (s.nwrite.toNat%PIPESIZE) (addr i)
        nwrite := s.nwrite+1
        stored := s.stored++[(c,addr i)] }
  else (s.wakeup .nread).ret p (.wrote c addr n)

/-- One round of the first loop of `piperead`. -/
def piperead (s : PipeSys ι) (p : ι) (n : ℤ) : PipeSys ι :=
  if s.nread = s.nwrite ∧ s.writeopen = true then
    if s.killed p = true then s.ret p .readFailed
    else { s.goto p (.read n .asleep) with lock := none }
  else s.goto p (.copy n [])

/-- One round of the second loop of `piperead`; `i` is the number of bytes in `addr`. -/
def pipecopy (s : PipeSys ι) (p : ι) (n : ℤ) (addr : List Byte) : PipeSys ι :=
  if addr.length < n ∧ s.nread ≠ s.nwrite then
    { s.goto p (.copy n (addr++[s.data (s.nread.toNat%PIPESIZE)])) with nread := s.nread+1 }
  else (s.wakeup .nwrite).ret p (.read n addr)

def pipeclose (s : PipeSys ι) (writable : Bool) : PipeSys ι :=
  if writable then { s.wakeup .nread with writeopen := false }
  else { s.wakeup .nwrite with readopen := false }

/-- Once both ends are closed the page is given back, and it is a pipe no more. -/
def freed (s : PipeSys ι) : Bool := !s.readopen && !s.writeopen

/-- One step of process `p`. -/
def next (s : PipeSys ι) (p : ι) : PipeAct → Option (PipeSys ι)
  | .write addr n =>
    match s.pc p with
    | .user => some { s.goto p (.write s.calls addr n 0 .spin) with calls := s.calls+1 }
    | _ => none
  | .read n =>
    match s.pc p with
    | .user => some (s.goto p (.read n .spin))
    | _ => none
  | .close writable =>
    match s.pc p with
    | .user => some (s.goto p (.close writable))
    | _ => none
  | .kill => some { s.goto p (s.pc p).rouse with killed := update s.killed p true }
  | .go =>
    match s.pc p with
    | .write c addr n i .spin =>
      if s.lock = none then some { s.goto p (.write c addr n i .loop) with lock := some p } else none
    | .write c addr n i .loop => some (s.pipewrite p c addr n i)
    | .read n .spin =>
      if s.lock = none then some { s.goto p (.read n .loop) with lock := some p } else none
    | .read n .loop => some (s.piperead p n)
    | .copy n addr => some (s.pipecopy p n addr)
    | .close writable =>
      if s.lock = none then some ((s.pipeclose writable).goto p .user) else none
    | _ => none

/-- A step on the pipe, as long as there is one. -/
def Step (s : PipeSys ι) (a : ι×PipeAct) (s' : PipeSys ι) : Prop :=
  s.next a.1 a.2 = some s' ∧ s.freed = false

/-- The pipe as `pipealloc` makes it, in a page with any contents. -/
def initial (data : ℕ → Byte) (killed : ι → Bool) : PipeSys ι :=
  ⟨data,0,0,true,true,none,killed,fun _ => .user,0,[],[]⟩

/-- The bytes returned by reads, in the order in which the reads returned. -/
def returned (s : PipeSys ι) : List Byte :=
  s.rets.flatMap fun
    | .read _ addr => addr
    | _ => []

/-- The bytes stored by writes, in storing order. -/
def bytes (s : PipeSys ι) : List Byte := s.stored.map Prod.snd

/-- What the write number `c` has stored, in order. -/
def storedBy (s : PipeSys ι) (c : ℕ) : List Byte :=
  (s.stored.filter fun x => x.1 = c).map Prod.snd

/-- What one step can do, with the guards that it has passed. -/
inductive Moves (s : PipeSys ι) (p : ι) : PipeAct → PipeSys ι → Prop
  | enterWrite (addr : ℕ → Byte) (n : ℤ) (hpc : s.pc p = .user) :
      Moves s p (.write addr n)
        { s.goto p (.write s.calls addr n 0 .spin) with calls := s.calls+1 }
  | enterRead (n : ℤ) (hpc : s.pc p = .user) : Moves s p (.read n) (s.goto p (.read n .spin))
  | enterClose (w : Bool) (hpc : s.pc p = .user) : Moves s p (.close w) (s.goto p (.close w))
  | kill : Moves s p .kill
      { s.goto p (s.pc p).rouse with killed := update s.killed p true }
  | lockWrite (c : ℕ) (addr : ℕ → Byte) (n : ℤ) (i : ℕ) (hpc : s.pc p = .write c addr n i .spin)
      (hlock : s.lock = none) :
      Moves s p .go { s.goto p (.write c addr n i .loop) with lock := some p }
  | writeFailed (c : ℕ) (addr : ℕ → Byte) (n : ℤ) (i : ℕ)
      (hpc : s.pc p = .write c addr n i .loop) : Moves s p .go (s.ret p (.writeFailed c))
  | writeSleep (c : ℕ) (addr : ℕ → Byte) (n : ℤ) (i : ℕ) (hpc : s.pc p = .write c addr n i .loop) :
      Moves s p .go { (s.wakeup .nread).goto p (.write c addr n i .asleep) with lock := none }
  | store (c : ℕ) (addr : ℕ → Byte) (n : ℤ) (i : ℕ) (hpc : s.pc p = .write c addr n i .loop)
      (hi : i < n) (hroom : s.nwrite ≠ s.nread+BitVec.ofNat 32 PIPESIZE) :
      Moves s p .go { s.goto p (.write c addr n (i+1) .loop) with
        data := update s.data (s.nwrite.toNat%PIPESIZE) (addr i)
        nwrite := s.nwrite+1
        stored := s.stored++[(c,addr i)] }
  | wrote (c : ℕ) (addr : ℕ → Byte) (n : ℤ) (i : ℕ) (hpc : s.pc p = .write c addr n i .loop)
      (hi : n ≤ i) : Moves s p .go ((s.wakeup .nread).ret p (.wrote c addr n))
  | lockRead (n : ℤ) (hpc : s.pc p = .read n .spin) (hlock : s.lock = none) :
      Moves s p .go { s.goto p (.read n .loop) with lock := some p }
  | readFailed (n : ℤ) (hpc : s.pc p = .read n .loop) : Moves s p .go (s.ret p .readFailed)
  | readSleep (n : ℤ) (hpc : s.pc p = .read n .loop) :
      Moves s p .go { s.goto p (.read n .asleep) with lock := none }
  | readReady (n : ℤ) (hpc : s.pc p = .read n .loop)
      (hready : s.nread = s.nwrite → s.writeopen = false) : Moves s p .go (s.goto p (.copy n []))
  | take (n : ℤ) (addr : List Byte) (hpc : s.pc p = .copy n addr) (hne : s.nread ≠ s.nwrite) :
      Moves s p .go { s.goto p (.copy n (addr++[s.data (s.nread.toNat%PIPESIZE)])) with
        nread := s.nread+1 }
  | gave (n : ℤ) (addr : List Byte) (hpc : s.pc p = .copy n addr)
      (hend : n ≤ addr.length ∨ s.nread = s.nwrite) :
      Moves s p .go ((s.wakeup .nwrite).ret p (.read n addr))
  | close (w : Bool) (hpc : s.pc p = .close w) (hlock : s.lock = none) :
      Moves s p .go ((s.pipeclose w).goto p .user)

lemma moves_of_next {s s' : PipeSys ι} {p : ι} {a : PipeAct} (h : s.next p a = some s') :
    Moves s p a s' := by
  cases a with
  | write addr n =>
    simp only [next] at h
    split at h
    · rename_i hpc
      cases h
      exact .enterWrite addr n hpc
    · exact nomatch h
  | read n =>
    simp only [next] at h
    split at h
    · rename_i hpc
      cases h
      exact .enterRead n hpc
    · exact nomatch h
  | close w =>
    simp only [next] at h
    split at h
    · rename_i hpc
      cases h
      exact .enterClose w hpc
    · exact nomatch h
  | kill =>
    cases h
    exact .kill
  | go =>
    simp only [next] at h
    split at h
    · rename_i c addr n i hpc
      obtain ⟨hlock,⟨⟩⟩ := Option.ite_none_right_eq_some.mp h
      exact .lockWrite c addr n i hpc hlock
    · rename_i c addr n i hpc
      cases h
      unfold pipewrite
      split_ifs with hi hfull hend
      · exact .writeFailed c addr n i hpc
      · exact .writeSleep c addr n i hpc
      · exact .store c addr n i hpc hi hfull
      · exact .wrote c addr n i hpc (not_lt.mp hi)
    · rename_i n hpc
      obtain ⟨hlock,⟨⟩⟩ := Option.ite_none_right_eq_some.mp h
      exact .lockRead n hpc hlock
    · rename_i n hpc
      cases h
      unfold piperead
      split_ifs with hempty hkilled
      · exact .readFailed n hpc
      · exact .readSleep n hpc
      · exact .readReady n hpc fun he => Bool.eq_false_iff.mpr fun ho => hempty ⟨he,ho⟩
    · rename_i n addr hpc
      cases h
      unfold pipecopy
      split_ifs with hmore
      · exact .take n addr hpc hmore.2
      · exact .gave n addr hpc (by rwa [not_and_or,not_lt,not_not] at hmore)
    · rename_i w hpc
      obtain ⟨hlock,⟨⟩⟩ := Option.ite_none_right_eq_some.mp h
      exact .close w hpc hlock
    · exact nomatch h

end PipeSys
end JacobiXv6.Kernel
