import JacobiXv6.Kernel.Proc
import JacobiXv6.Library.Run
import JacobiXv6.Library.Tally

/-! The program `assig1_8` with type 1. The parent forks the children, receives a partial sum from
each, sends the mean to all of them, receives the partial variances and waits. A child that has sent
its sum waits for the mean, which its handler stores. -/
namespace JacobiXv6.Assig

open Function
open Kernel Library

abbrev CHILDS : ℕ := 5

abbrev Who := Option (Fin CHILDS)

/-- The pids, and the numbers of the program as the bytes in which they are sent. -/
structure Job where
  pid : Who → ℤ
  partialSum : Fin CHILDS → Msg
  mean : List Msg → Msg
  partialVariance : Fin CHILDS → Msg → Msg

/-- What the processes sleep on: the mailbox of the parent, the signals of a child, and the parent
itself in `wait`. -/
inductive Chan
  | recvQueue
  | pendingSignals (i : Fin CHILDS)
  | parent
  deriving DecidableEq

/-- What the kernel keeps of a process. -/
structure Task where
  state : ProcState
  chan : Option Chan
  recvQueue : MessageList
  recvMultiQueue : MessageList
  pendingSignals : Signals
  handling : Bool

/-- The statements of the parent; `sendMulti i` is round `i` in the loop of `send_multicast`. -/
inductive ParentPc
  | fork (i : ℕ)
  | recvSum (i : ℕ)
  | sendMulti (i : ℕ)
  | recvVariance (i : ℕ)
  | wait (i : ℕ)
  | exit
  deriving DecidableEq

/-- The statements of a child. The test of `sreceived[this_child_id]` is two loads, as both are
volatile: `test` loads the index and `flag` the element. It is `paused` from when it falls asleep in
`pause_signal`. -/
inductive ChildPc
  | sum
  | sendSum
  | test
  | flag
  | pause
  | paused
  | variance
  | sendVariance
  | exit
  | gone
  deriving DecidableEq

/-- Where a process is: in its program, in the system call that its program is at, about to
return to user mode, or at one of the two statements of `message_handler` or at the end of it. -/
inductive Mode
  | user
  | kernel
  | trapret
  | mean (msg : Msg)
  | received
  | sigret

def Mode.isTrapret : Mode → Bool
  | trapret => true
  | _ => false

/-- The variables of a child, and the register between the two loads of its test. -/
structure Vars where
  meanReceived : Msg
  sreceived : Fin CHILDS → Bool
  partialVariance : Msg
  eax : Fin CHILDS

structure Variance where
  task : Who → Task
  mode : Who → Mode
  parent : ParentPc
  child : Fin CHILDS → ChildPc
  vars : Fin CHILDS → Vars
  recvPsums : List Msg
  recvPvar : List Msg

/-- A process goes on, its timer goes off in user mode, or the parent finds a zombie. -/
inductive Act
  | tick
  | interrupt
  | reap (i : Fin CHILDS)

namespace Task

/-- `handle_signals` goes on to the handler; the frame is always one of user mode here. -/
def Delivers (t : Task) : Prop := t.handling = false ∧ t.pendingSignals.head ≠ t.pendingSignals.tail

instance (t : Task) : Decidable t.Delivers := inferInstanceAs (Decidable (_ ∧ _))

def enterHandler (t : Task) : Task :=
  { t with
    handling := true
    recvMultiQueue := t.recvMultiQueue.pop NUM_MSG
    pendingSignals := t.pendingSignals.pop MAX_SIG }

/-- The end of `allocproc` and of `fork`. -/
def born (t : Task) : Task :=
  { t with
    state := .runnable
    chan := none
    recvQueue := t.recvQueue.reset
    recvMultiQueue := t.recvMultiQueue.reset
    pendingSignals := t.pendingSignals.reset
    handling := false }

end Task

namespace Variance
variable (job : Job) (s : Variance)

def setTask (w : Who) (t : Task) : Variance := { s with task := update s.task w t }

def setMode (w : Who) (mode : Mode) : Variance := { s with mode := update s.mode w mode }

def setChild (i : Fin CHILDS) (pc : ChildPc) : Variance := { s with child := update s.child i pc }

def wakeup1 (chan : Option Chan) : Variance :=
  { s with task := fun w =>
      if (s.task w).state = .sleeping ∧ (s.task w).chan = chan then { s.task w with state := .runnable }
      else s.task w }

/-- `sleep` up to the switch to the scheduler. -/
def sleep (w : Who) (chan : Chan) : Variance :=
  s.setTask w { s.task w with state := .sleeping, chan := some chan }

/-- `send_mess` to the parent. -/
def send (sender : ℤ) (mess : Msg) : Variance :=
  (s.setTask none
    { s.task none with recvQueue := (s.task none).recvQueue.push NUM_MSG (sender,mess) }).wakeup1
    (s.task none).chan

/-- One round of `send_multicast` and `send_signal`. -/
def multicast (sender : ℤ) (i : Fin CHILDS) (mess : Msg) : Variance :=
  (s.setTask (some i) { s.task (some i) with
    recvMultiQueue := (s.task (some i)).recvMultiQueue.push NUM_MSG (sender,mess)
    pendingSignals := (s.task (some i)).pendingSignals.push MAX_SIG (1,sender) }).wakeup1
      (s.task (some i)).chan

/-- `recv_mess`, from the entry or from where it is woken: the message, or it sleeps. -/
def recv (got : Variance → Msg → Variance) : Variance :=
  if (s.task none).recvQueue.head = (s.task none).recvQueue.tail then s.sleep none .recvQueue
  else
    got ((s.setTask none { s.task none with
      chan := none
      recvQueue := (s.task none).recvQueue.pop NUM_MSG }).setMode none .trapret)
      (s.task none).recvQueue.front.2

/-- The variables of a new child are those of the parent. -/
def fork (i : Fin CHILDS) : Variance :=
  { (s.setTask (some i) (s.task (some i)).born).setMode (some i) .trapret with
    child := update s.child i .sum
    vars := update s.vars i ⟨fun _ => 0,fun _ => false,fun _ => 0,0⟩ }

/-- A statement of the parent in user mode: a computation, or it enters the kernel. -/
def parentUser : Variance :=
  match s.parent with
  | .fork i => if i < CHILDS then s.setMode none .kernel else { s with parent := .recvSum 0 }
  | .recvSum i => if i < CHILDS then s.setMode none .kernel else { s with parent := .sendMulti 0 }
  | .sendMulti _ => s.setMode none .kernel
  | .recvVariance i => if i < CHILDS then s.setMode none .kernel else { s with parent := .wait 0 }
  | .wait i => if i < CHILDS then s.setMode none .kernel else { s with parent := .exit }
  | .exit => s.setMode none .kernel

def parentKernel : Option Variance :=
  match s.parent with
  | .fork i =>
    if h : i < CHILDS then some { (s.fork ⟨i,h⟩).setMode none .trapret with parent := .fork (i+1) }
      else none
  | .recvSum i =>
    some (s.recv fun s msg => { s with parent := .recvSum (i+1), recvPsums := s.recvPsums++[msg] })
  | .sendMulti i =>
    if h : i < CHILDS then
      some { s.multicast (job.pid none) ⟨i,h⟩ (job.mean s.recvPsums) with parent := .sendMulti (i+1) }
    else some { s.setMode none .trapret with parent := .recvVariance 0 }
  | .recvVariance i =>
    some (s.recv fun s msg => { s with parent := .recvVariance (i+1), recvPvar := s.recvPvar++[msg] })
  | .wait i =>
    if ∃ j, (s.task (some j)).state = .zombie then none
    else if ∃ j, (s.task (some j)).state ≠ .unused then some (s.sleep none .parent)
    else some { (s.setTask none { s.task none with chan := none }).setMode none .trapret with
      parent := .wait (i+1) }
  | .exit => some (s.setTask none { s.task none with state := .zombie })

/-- A statement of child `i` in user mode. -/
def childUser (i : Fin CHILDS) : Variance :=
  match s.child i with
  | .sum => s.setChild i .sendSum
  | .test => { s.setChild i .flag with vars := update s.vars i { s.vars i with eax := i } }
  | .flag =>
    if (s.vars i).sreceived (s.vars i).eax = false then s.setChild i .pause else s.setChild i .variance
  | .variance =>
    { s.setChild i .sendVariance with
      vars := update s.vars i
        { s.vars i with partialVariance := job.partialVariance i (s.vars i).meanReceived } }
  | _ => s.setMode (some i) .kernel

/-- A system call of child `i`. -/
def childKernel (i : Fin CHILDS) : Option Variance :=
  match s.child i with
  | .sendSum =>
    some (((s.send (job.pid (some i)) (job.partialSum i)).setMode (some i) .trapret).setChild i
    .test)
  | .pause =>
    if (s.task (some i)).pendingSignals.head = (s.task (some i)).pendingSignals.tail then
      some ((s.sleep (some i) (.pendingSignals i)).setChild i .paused)
    else some ((s.setMode (some i) .trapret).setChild i .variance)
  | .paused =>
    some (((s.setTask (some i) { s.task (some i) with chan := none }).setMode
      (some i) .trapret).setChild i .variance)
  | .sendVariance =>
    some (((s.send (job.pid (some i)) (s.vars i).partialVariance).setMode
      (some i) .trapret).setChild i .exit)
  | .exit =>
    some (((s.setTask (some i) { s.task (some i) with state := .zombie }).wakeup1
      (some .parent)).setChild i .gone)
  | _ => none

/-- The way back to user mode through `handle_signals`. -/
def trapret (w : Who) : Variance :=
  if (s.task w).Delivers then
    (s.setTask w (s.task w).enterHandler).setMode w (.mean (s.task w).recvMultiQueue.front.2)
  else s.setMode w .user

/-- `mean_received = *(float*)msg` -/
def storeMean (w : Who) (msg : Msg) : Variance :=
  match w with
  | none => s.setMode none .received
  | some i =>
    { s.setMode (some i) .received with vars := update s.vars i { s.vars i with meanReceived := msg } }

/-- `sreceived[this_child_id] = 1` -/
def storeReceived (w : Who) : Variance :=
  match w with
  | none => s.setMode none .sigret
  | some i =>
    { s.setMode (some i) .sigret with
      vars := update s.vars i
        { s.vars i with sreceived := update (s.vars i).sreceived i true } }

/-- `sig_ret` puts the trap frame back, and `syscall` then its result 0 into `eax`. -/
def sigRet (w : Who) : Variance :=
  let s := (s.setTask w { s.task w with handling := false }).setMode w .trapret
  match w with
  | none => s
  | some i => { s with vars := update s.vars i { s.vars i with eax := 0 } }

def tick (w : Who) : Option Variance :=
  match s.mode w, w with
  | .user, none => some s.parentUser
  | .user, some i => some (s.childUser job i)
  | .kernel, none => s.parentKernel job
  | .kernel, some i => s.childKernel job i
  | .trapret, w => some (s.trapret w)
  | .mean msg, w => some (s.storeMean w msg)
  | .received, w => some (s.storeReceived w)
  | .sigret, w => some (s.sigRet w)

/-- A timer interrupt: on the way back there may be a signal. In the handler there is none, since
one is being handled. -/
def interrupt (w : Who) : Option Variance :=
  match s.mode w with
  | .user => some (s.setMode w .trapret)
  | .kernel | .trapret => none
  | _ => some s

/-- `wait` has found child `i`. -/
def reap (i : Fin CHILDS) : Option Variance :=
  match s.mode none, s.parent with
  | .kernel, .wait k =>
    if (s.task (some i)).state = .zombie then
      some { ((s.setTask (some i) { s.task (some i) with state := .unused }).setTask none
        { s.task none with chan := none }).setMode none .trapret with parent := .wait (k+1) }
    else none
  | _, _ => none

def next (w : Who) (a : Act) : Option Variance :=
  if (s.task w).state = .runnable then
    match a, w with
    | .tick, w => s.tick job w
    | .interrupt, w => s.interrupt w
    | .reap i, none => s.reap i
    | .reap _, some _ => none
  else none

end Variance

namespace Variance

def Step (job : Job) (s : Variance) (a : Who×Act) (s' : Variance) : Prop := s.next job a.1 a.2 = some s'

def newTask (state : ProcState) : Task where
  state := state
  chan := none
  recvQueue := ⟨fun _ => (0,fun _ => 0),0,0⟩
  recvMultiQueue := ⟨fun _ => (0,fun _ => 0),0,0⟩
  pendingSignals := ⟨fun _ => (0,0),0,0⟩
  handling := false

def initial : Variance where
  task w := newTask (if w = none then .runnable else .unused)
  mode _ := .user
  parent := .fork 0
  child _ := .sum
  vars _ := ⟨fun _ => 0,fun _ => false,fun _ => 0,0⟩
  recvPsums := []
  recvPvar := []

/-- The process has ended, or does not exist yet. -/
def Over (s : Variance) (w : Who) : Prop := (s.task w).state = .zombie ∨ (s.task w).state = .unused

/-- No signal is delivered to a child from the first load of its test until it has entered
`pause_signal`. -/
def Prompt (s : Variance) (a : Who×Act) : Prop :=
  match a.1 with
  | none => True
  | some i =>
    s.child i = .flag ∨ s.child i = .pause → (s.mode (some i)).isTrapret = true →
      ¬(s.task (some i)).Delivers

instance (s : Variance) : ∀ a : Who×Act, Decidable (s.Prompt a)
  | (none,_) => isTrue trivial
  | (some _,_) => inferInstanceAs (Decidable (_ ∨ _ → _ → ¬_))

end Variance
end JacobiXv6.Assig
