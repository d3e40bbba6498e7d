import JacobiXv6.Kernel.Proc
import JacobiXv6.Library.Holders
import JacobiXv6.Library.Run

/-! Messages and signals one statement after the other, with `ptable.lock`. Each process runs on a
CPU of its own unless it sleeps or has yielded; a process that calls `sched` gives the lock to a
scheduler, and takes it from one when it goes on, so between the two the lock is free or with
somebody else. -/
namespace JacobiXv6.Kernel
open Library Function

/-- What a process can sleep on: the mailbox of a slot, its pending signals, or anything else. -/
inductive IpcChan (n : ℕ)
  | recvQueue (j : Fin n)
  | pendingSignals (j : Fin n)
  | other (k : ℕ)
  deriving DecidableEq

/-- What `send_mess` and `send_signal` put into a slot. -/
inductive IpcPost
  | mess (sender : ℤ) (mess : Msg)
  | signal (signum : ℤ)

/-- What a process does next; `back`, `next` is what it does after that. A process `spin`s for the
lock and is `done` with it when it gives it back. `post`, `posted` and `poke` are the loop over the
slots in `send_mess` and `send_signal`: before slot `k`, with the contents stored, and with the tail
advanced. `wake` is the loop of `wakeup1`. `nap` and `doze` are in `sleep`; `sched` is about to
switch, `saved` has, and `woken` is behind it. -/
inductive IpcPc (n : ℕ)
  | user
  | spin (next : IpcPc n)
  | done (next : IpcPc n)
  | yield (back : IpcPc n)
  | nap (chan : IpcChan n) (back : IpcPc n)
  | doze (back : IpcPc n)
  | sched (back : IpcPc n)
  | saved (back : IpcPc n)
  | woken (back : IpcPc n)
  | post (what : IpcPost) (rec : ℤ) (k : ℕ) (back : IpcPc n)
  | posted (what : IpcPost) (rec : ℤ) (k : Fin n) (back : IpcPc n)
  | poke (what : IpcPost) (rec : ℤ) (k : Fin n) (back : IpcPc n)
  | wake (chan : Option (IpcChan n)) (k : ℕ) (back : IpcPc n)
  | recv (k : ℕ)
  | multi (sender rec : ℤ) (recs : List ℤ) (mess : Msg) (k : ℕ)
  | pause
  | kill (pid : ℤ) (k : ℕ)
  | sigret (tf : Trapframe)

/-- The process table with what each process is doing. -/
structure Ipc (n : ℕ) where
  proc : Fin n → Proc
  chan : Fin n → Option (IpcChan n)
  killed : Fin n → Bool
  pc : Fin n → IpcPc n
  lock : Option (Fin n)

/-- The system calls, an interrupt, a return to user mode on which `handle_signals` enters the
handler, and the next statement. -/
inductive IpcAct
  | send (sender rec : ℤ) (mess : Msg)
  | recv
  | sendMulti (sender : ℤ) (recs : List ℤ) (mess : Msg)
  | sigSend (rec signum : ℤ)
  | sigPause
  | sigRet (tf : Trapframe)
  | kill (pid : ℤ)
  | sleep (k : ℕ)
  | wakeup (k : ℕ)
  | interrupt
  | deliver (tf : Trapframe)
  | tick

namespace IpcPc
variable {n : ℕ}

def holds : IpcPc n → Bool
  | user | spin _ | saved _ => false
  | post _ _ _ back | posted _ _ _ back | poke _ _ _ back | wake _ _ back => back.holds
  | _ => true

/-- Interrupts are on: the process has no lock and waits for none. -/
def interruptible : IpcPc n → Bool
  | user => true
  | post _ _ _ back | posted _ _ _ back | poke _ _ _ back | wake _ _ back => back.interruptible
  | _ => false

/-- The next round of the outer loop of `send_multicast`. -/
def sendMulti (sender : ℤ) (mess : Msg) : List ℤ → IpcPc n
  | [] => user
  | rec::recs => spin (multi sender rec recs mess 0)

def call : IpcAct → Option (IpcPc n)
  | .send sender rec mess => some (spin (post (.mess sender mess) rec 0 (done user)))
  | .recv => some (spin (recv 0))
  | .sendMulti sender recs mess => some (sendMulti sender mess recs)
  | .sigSend rec signum => some (post (.signal signum) rec 0 user)
  | .sigPause => some (spin pause)
  | .sigRet tf => some (spin (sigret tf))
  | .kill pid => some (spin (kill pid 0))
  | .sleep k => some (spin (nap (.other k) (done user)))
  | .wakeup k => some (spin (wake (some (.other k)) 0 (done user)))
  | _ => none

end IpcPc

namespace Ipc
variable {n : ℕ}

def goto (s : Ipc n) (i : Fin n) (pc : IpcPc n) : Ipc n := { s with pc := update s.pc i pc }

def put (s : Ipc n) (i : Fin n) (p : Proc) : Ipc n := { s with proc := update s.proc i p }

def setState (s : Ipc n) (i : Fin n) (state : ProcState) : Ipc n :=
  s.put i { s.proc i with state := state }

/-- The contents are stored at the tail; `sender` is the caller of `send_signal`. -/
def stash (what : IpcPost) (sender : ℤ) (p : Proc) : Proc :=
  match what with
  | .mess sender mess =>
    { p with recvQueue := { p.recvQueue with
      data := update p.recvQueue.data p.recvQueue.tail (sender,mess) } }
  | .signal signum =>
    { p with pendingSignals := { p.pendingSignals with
      data := update p.pendingSignals.data p.pendingSignals.tail (signum,sender) } }

def advance (what : IpcPost) (p : Proc) : Proc :=
  match what with
  | .mess _ _ => { p with recvQueue := { p.recvQueue with tail := (p.recvQueue.tail+1)%NUM_MSG } }
  | .signal _ =>
    { p with pendingSignals := { p.pendingSignals with tail := (p.pendingSignals.tail+1)%MAX_SIG } }

/-- One round of `wakeup1`. -/
def rouse (s : Ipc n) (chan : Option (IpcChan n)) (k : Fin n) : Ipc n :=
  if (s.proc k).state = .sleeping ∧ s.chan k = chan then s.setState k .runnable else s

/-- What `kill` does to the slot it finds. -/
def slay (s : Ipc n) (k : Fin n) : Ipc n :=
  { (if (s.proc k).state = .sleeping then s.setState k .runnable else s) with
    killed := update s.killed k true }

/-- One round of the loop of `recv_mess`. -/
def recvRound (s : Ipc n) (i k : Fin n) : Ipc n :=
  if (s.proc k).pid = (s.proc i).pid then
    if (s.proc k).recvQueue.head = (s.proc k).recvQueue.tail
      then s.goto i (.nap (.recvQueue k) (.recv k))
    else (s.put k { s.proc k with recvQueue := (s.proc k).recvQueue.pop NUM_MSG }).goto i (.recv (k+1))
  else s.goto i (.recv (k+1))

/-- The next statement of process `i`. -/
def tick (s : Ipc n) (i : Fin n) : IpcPc n → Option (Ipc n)
  | .user => none
  | .spin next => if s.lock = none then some { s.goto i next with lock := some i } else none
  | .done next => some { s.goto i next with lock := none }
  | .yield back => some ((s.setState i .runnable).goto i (.sched (.done back)))
  | .nap chan back => some ({ s with chan := update s.chan i (some chan) }.goto i (.doze back))
  | .doze back => some ((s.setState i .sleeping).goto i (.sched (.woken back)))
  | .sched back => some { s.goto i (.saved back) with lock := none }
  | .saved back =>
    if (s.proc i).state = .runnable ∧ s.lock = none then
      some { (s.setState i .running).goto i back with lock := some i }
    else none
  | .woken back => some ({ s with chan := update s.chan i none }.goto i back)
  | .post what rec k back =>
    if h : k < n then
      if (s.proc ⟨k,h⟩).pid = rec then
        some ((s.put ⟨k,h⟩ (stash what (s.proc i).pid (s.proc ⟨k,h⟩))).goto i
          (.posted what rec ⟨k,h⟩ back))
      else some (s.goto i (.post what rec (k+1) back))
    else some (s.goto i back)
  | .posted what rec k back => some ((s.put k (advance what (s.proc k))).goto i (.poke what rec k back))
  | .poke what rec k back => some (s.goto i (.wake (s.chan k) 0 (.post what rec (k+1) back)))
  | .wake chan k back =>
    if h : k < n then some ((s.rouse chan ⟨k,h⟩).goto i (.wake chan (k+1) back))
      else some (s.goto i back)
  | .recv k => if h : k < n then some (s.recvRound i ⟨k,h⟩) else some (s.goto i (.done .user))
  | .multi sender rec recs mess k =>
    if h : k < n then
      if (s.proc ⟨k,h⟩).pid = rec then
        some ((s.put ⟨k,h⟩ ((s.proc ⟨k,h⟩).putMulti sender mess)).goto i
          (.post (.signal 1) (s.proc ⟨k,h⟩).pid 0 (.multi sender rec recs mess (k+1))))
      else some (s.goto i (.multi sender rec recs mess (k+1)))
    else some (s.goto i (.done (.sendMulti sender mess recs)))
  | .pause =>
    if (s.proc i).pendingSignals.head = (s.proc i).pendingSignals.tail then
      some (s.goto i (.nap (.pendingSignals i) (.done .user)))
    else some (s.goto i (.done .user))
  | .kill pid k =>
    if h : k < n then
      if (s.proc ⟨k,h⟩).pid = pid then some ((s.slay ⟨k,h⟩).goto i (.done .user))
      else some (s.goto i (.kill pid (k+1)))
    else some (s.goto i (.done .user))
  | .sigret tf => some ((s.put i { s.proc i with tf := tf, handling := false }).goto i (.done .user))

/-- One step of process `i`. -/
def next (s : Ipc n) (i : Fin n) : IpcAct → Option (Ipc n)
  | .tick => s.tick i (s.pc i)
  | .interrupt => if (s.pc i).interruptible = true
    then some (s.goto i (.spin (.yield (s.pc i)))) else none
  | .deliver tf =>
    match s.pc i with
    | .user =>
      if Proc.Delivers { s.proc i with tf := tf }
        then some (s.put i (Proc.enterHandler { s.proc i with tf := tf }))
      else none
    | _ => none
  | a =>
    match s.pc i with
    | .user => (IpcPc.call a).map fun pc => s.goto i pc
    | _ => none

def Step (s : Ipc n) (a : Fin n×IpcAct) (s' : Ipc n) : Prop := s.next a.1 a.2 = some s'

/-- Any table in which nobody sleeps. The processes are about to be scheduled for the first time. -/
def initial (proc : Fin n → Proc) (killed : Fin n → Bool) : Ipc n where
  proc := proc
  chan := fun _ => none
  killed := killed
  pc := fun _ => .saved (.done .user)
  lock := none

end Ipc
end JacobiXv6.Kernel
