import JacobiXv6.Library.Ring
import JacobiXv6.Kernel.Trapframe

/-! The part of `struct proc` that messages and signals are about, and what the functions
of `proc.c` do to one process of the table. -/
namespace JacobiXv6.Kernel
open Library

def NUM_MSG : ℕ := 32
def MAX_SIG : ℕ := 5

/-- A message of `MSGSIZE` bytes. -/
abbrev Msg := Fin 8 → Byte

/-- `struct message_list`: the sender and the text of each message. -/
abbrev MessageList := RingBuffer (ℤ×Msg)

/-- `struct signals`: the number and the sender of each signal. -/
abbrev Signals := RingBuffer (ℤ×ℤ)

inductive ProcState
  | unused
  | embryo
  | sleeping
  | runnable
  | running
  | zombie
  deriving DecidableEq

structure Proc where
  state : ProcState
  pid : ℤ
  tf : Trapframe
  recvQueue : MessageList
  recvMultiQueue : MessageList
  handler : Word
  pendingSignals : Signals
  handling : Bool

namespace Proc

/-- The end of `allocproc`: nothing is handled, pending or queued. -/
def resetQueues (p : Proc) : Proc :=
  { p with
    handler := 0
    pendingSignals := p.pendingSignals.reset
    handling := false
    recvQueue := p.recvQueue.reset
    recvMultiQueue := p.recvMultiQueue.reset }

/-- What `send_mess` does to a process with the pid it looks for. -/
def putMessage (sender : ℤ) (mess : Msg) (p : Proc) : Proc :=
  { p with recvQueue := p.recvQueue.push NUM_MSG (sender,mess) }

/-- What `send_multicast` does to its message queue. -/
def putMulti (sender : ℤ) (mess : Msg) (p : Proc) : Proc :=
  { p with recvMultiQueue := p.recvMultiQueue.push NUM_MSG (sender,mess) }

/-- What `send_signal` does to it. -/
def putSignal (sender signum : ℤ) (p : Proc) : Proc :=
  { p with pendingSignals := p.pendingSignals.push MAX_SIG (signum,sender) }

end Proc

/-! ### Signals on the user stack -/

def DPL_USER : Half := 3
def SYS_sig_ret : Word := 31
def T_SYSCALL : Byte := 64

/-- `sigretcode.S`, assembled: `movl $SYS_sig_ret,%eax` and `int $T_SYSCALL`. -/
def sigretCode : List Byte := 0xb8::wordBytes SYS_sig_ret++[0xcd,T_SYSCALL]

def codesize : ℕ := 7

lemma length_sigretCode : sigretCode.length = codesize := rfl

/-- The three tests at the head of `handle_signals` that let a process go on to a handler. -/
def Proc.Delivers (p : Proc) : Prop :=
  p.handling = false ∧ p.tf.cs &&& 3 = DPL_USER ∧ p.pendingSignals.head ≠ p.pendingSignals.tail

instance (p : Proc) : Decidable p.Delivers := inferInstanceAs (Decidable (_ ∧ _ ∧ _))

/-- The user stack that `handle_signals` builds below the old one, from the top: the
trap frame, the code of the return, the message, its address and the return address. -/
def signalStack (tf : Trapframe) (m : Msg) (mem : Mem) : Mem :=
  let frame := tf.esp-BitVec.ofNat 32 Trapframe.size
  let code := frame-BitVec.ofNat 32 codesize
  let msg := code-8
  store (store (store (store (store mem frame tf.bytes) code sigretCode) msg (List.ofFn m))
    (msg-4) (wordBytes msg)) (msg-8) (wordBytes code)

/-- The final value of `sp`. -/
def signalSp (tf : Trapframe) : Word :=
  tf.esp-BitVec.ofNat 32 Trapframe.size-BitVec.ofNat 32 codesize-8-8

/-- What `handle_signals` does to a process that goes on to its handler. -/
def Proc.enterHandler (p : Proc) : Proc :=
  { p with
    handling := true
    recvMultiQueue := p.recvMultiQueue.pop NUM_MSG
    tf := { p.tf with esp := signalSp p.tf, eip := p.handler }
    pendingSignals := p.pendingSignals.pop MAX_SIG }

/-- `handle_signals`, called by `trapret` with the frame of the current process. -/
def handleSignals (p : Proc) (mem : Mem) : Proc×Mem :=
  if p.Delivers then (p.enterHandler,signalStack p.tf p.recvMultiQueue.front.2 mem) else (p,mem)

/-- `ret_signal` takes back the frame that it expects above the message. -/
def retSignal (p : Proc) (mem : Mem) : Proc :=
  { p with
    tf := Trapframe.ofBytes (load mem (p.tf.esp+12+BitVec.ofNat 32 codesize) Trapframe.size)
    handling := false }

/-- `sys_sig_ret` and its return value. -/
def sysSigRet (p : Proc) (mem : Mem) : Proc×Mem×Word := (retSignal p mem,mem,0)

/-- The table `syscalls`; the other entries are given by `others`. -/
def syscalls (others : ℕ → Proc → Mem → Proc×Mem×Word) (num : ℕ) : Proc → Mem → Proc×Mem×Word :=
  if num = SYS_sig_ret.toNat then sysSigRet else others num

/-- The assignment to `eax` of the frame, which is where a call returns its value. -/
def Proc.setEax (p : Proc) (value : Word) : Proc := { p with tf := { p.tf with eax := value } }

/-- `syscall`: the value of the call is assigned to `eax` of the frame after the call. -/
def syscall (others : ℕ → Proc → Mem → Proc×Mem×Word) (p : Proc) (mem : Mem) : Proc×Mem :=
  let num := p.tf.eax.toInt
  if 0 < num ∧ num < 33 then
    let (p,mem,value) := syscalls others num.toNat p mem
    (p.setEax value,mem)
  else (p.setEax (-1),mem)

end JacobiXv6.Kernel
