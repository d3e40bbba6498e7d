import JacobiXv6.Kernel.Proc

/-! The way of a signal: `handle_signals` sends the process to its handler, the handler
returns into the code on the stack, that code traps, and `ret_signal` puts the frame back
through which `trapret` returns. -/
namespace JacobiXv6.Kernel
open Library

/-- The instructions of `sigretcode.S`. -/
inductive Instr
  | movEax (imm : Word)
  | int (n : Byte)

def decode (mem : Mem) (eip : Word) : Option Instr :=
  if mem eip = 0xb8 then some (.movEax (wordAt (load mem (eip+1) 4) 0))
  else if mem eip = 0xcd then some (.int (mem (eip+1)))
  else none

def runToTrap : ℕ → Regs → Mem → Option (Regs×Byte)
  | 0, _, _ => none
  | fuel+1, r, mem =>
    match decode mem r.eip with
    | some (.movEax imm) => runToTrap fuel { r with eax := imm, eip := r.eip+5 } mem
    | some (.int n) => some ({ r with eip := r.eip+2 },n)
    | none => none

/-- From the end of the handler to the next user instruction: the two instructions on the
stack, the trap, `syscall` and `trapret`. -/
def returnFromHandler (others : ℕ → Proc → Mem → Proc×Mem×Word) (p : Proc) (junk : Trapframe)
    (r : Regs) (mem : Mem) : Option Regs := do
  let (r,n) ← runToTrap 2 r mem
  if n = T_SYSCALL then
    let (p,mem) := syscall others { p with tf := r.frame (n.setWidth 32) junk } mem
    some (handleSignals p mem).1.tf.regs
  else none

/-- A handler that was entered with `r` and `mem` has returned with `r'` and `mem'`. It has
popped its return address and left alone what its caller has on the stack above its
argument and the message; the registers may hold anything else. -/
structure HandlerReturns (r : Regs) (mem : Mem) (r' : Regs) (mem' : Mem) : Prop where
  eip : r'.eip = wordAt (load mem r.esp 4) 0
  esp : r'.esp = r.esp+4
  stack : ∀ i < codesize+Trapframe.size,
    mem' (r.esp+BitVec.ofNat 32 (16+i)) = mem (r.esp+BitVec.ofNat 32 (16+i))

/-! ### The stack that the handler runs on -/

section Stack
variable (tf : Trapframe) (m : Msg) (mem : Mem)

lemma signalStack_eq : signalStack tf m mem =
    store (store (store (store (store mem (signalSp tf+BitVec.ofNat 32 23) tf.bytes)
      (signalSp tf+BitVec.ofNat 32 16) sigretCode) (signalSp tf+BitVec.ofNat 32 8) (List.ofFn m))
      (signalSp tf+BitVec.ofNat 32 4) (wordBytes (signalSp tf+BitVec.ofNat 32 8)))
      (signalSp tf+BitVec.ofNat 32 0) (wordBytes (signalSp tf+BitVec.ofNat 32 16)) := by
  have hframe : tf.esp-BitVec.ofNat 32 Trapframe.size = signalSp tf+BitVec.ofNat 32 23 := by
    simp only [signalSp,codesize]
    bv_omega
  have hcode : signalSp tf+BitVec.ofNat 32 23-BitVec.ofNat 32 codesize =
      signalSp tf+BitVec.ofNat 32 16 := by
    simp only [codesize]
    bv_omega
  have hmsg : signalSp tf+BitVec.ofNat 32 16-8 = signalSp tf+BitVec.ofNat 32 8 := by bv_omega
  have harg : signalSp tf+BitVec.ofNat 32 8-4 = signalSp tf+BitVec.ofNat 32 4 := by bv_omega
  have hret : signalSp tf+BitVec.ofNat 32 8-8 = signalSp tf+BitVec.ofNat 32 0 := by bv_omega
  simp only [signalStack,hframe,hcode,hmsg,harg,hret]

lemma load_frame : load (signalStack tf m mem) (signalSp tf+BitVec.ofNat 32 23) Trapframe.size =
    tf.bytes := by
  rw [signalStack_eq,load_store_apart,load_store_apart,load_store_apart,load_store_apart,
    ← tf.length_bytes,load_store]
  all_goals simp [Trapframe.size,length_sigretCode,codesize,wordBytes]

lemma load_code : load (signalStack tf m mem) (signalSp tf+BitVec.ofNat 32 16) codesize =
    sigretCode := by
  rw [signalStack_eq,load_store_apart,load_store_apart,load_store_apart,
    ← length_sigretCode,load_store]
  all_goals simp [length_sigretCode,codesize,wordBytes]

lemma load_return : wordAt (load (signalStack tf m mem) (signalSp tf) 4) 0 =
    signalSp tf+BitVec.ofNat 32 16 := by
  have hload : load (signalStack tf m mem) (signalSp tf+BitVec.ofNat 32 0) 4 =
      wordBytes (signalSp tf+BitVec.ofNat 32 16) := by
    rw [signalStack_eq]
    exact load_store (by simp [wordBytes])
  rw [BitVec.add_zero] at hload
  rw [hload,wordAt_wordBytes]

end Stack

/-- The code on the stack asks for `sig_ret`. -/
lemma runToTrap_sigretCode {mem : Mem} {r : Regs} (h : load mem r.eip codesize = sigretCode) :
    runToTrap 2 r mem = some ({ r with eax := SYS_sig_ret, eip := r.eip+5+2 },T_SYSCALL) := by
  have hbyte : ∀ i < codesize, mem (r.eip+BitVec.ofNat 32 i) = sigretCode.getD i 0 := by
    intro i hi
    rw [← h]
    simp [load,hi]
  have himm : load mem (r.eip+1) 4 = wordBytes SYS_sig_ret := by
    apply List.ext_getElem
    · simp [wordBytes]
    · intro i hi _
      rw [length_load] at hi
      have hadd : r.eip+1+BitVec.ofNat 32 i = r.eip+BitVec.ofNat 32 (i+1) := by bv_omega
      have hcode : i+1 < codesize := by
        simp only [codesize]
        omega
      simp only [load,List.getElem_map,List.getElem_range,hadd,hbyte (i+1) hcode]
      interval_cases i <;> rfl
  have hmov : decode mem r.eip = some (.movEax SYS_sig_ret) := by
    have hopcode : mem r.eip = 0xb8 := by simpa [sigretCode] using hbyte 0 (by decide)
    rw [decode,if_pos hopcode,himm,wordAt_wordBytes]
  have hint : decode mem (r.eip+5) = some (.int T_SYSCALL) := by
    have hopcode : mem (r.eip+5) = 0xcd := hbyte 5 (by decide)
    have hvector : mem (r.eip+5+1) = T_SYSCALL := by
      rw [add_assoc]
      exact hbyte 6 (by decide)
    rw [decode,hopcode,if_neg (by decide),if_pos rfl,hvector]
  simp only [runToTrap,hmov,hint]

variable {p : Proc}

/-- The frame that `ret_signal` finds is the one that was saved. -/
lemma retSignal_frame {q : Proc} {mem mem' : Mem} (m : Msg) (hesp : q.tf.esp = signalSp p.tf+4)
    (hstack : ∀ i < codesize+Trapframe.size, mem' (signalSp p.tf+BitVec.ofNat 32 (16+i)) =
      signalStack p.tf m mem (signalSp p.tf+BitVec.ofNat 32 (16+i))) :
    (retSignal q mem').tf = p.tf := by
  have haddr : q.tf.esp+12+BitVec.ofNat 32 codesize = signalSp p.tf+BitVec.ofNat 32 23 := by
    rw [hesp]
    simp only [codesize]
    bv_omega
  have hload : load mem' (signalSp p.tf+BitVec.ofNat 32 23) Trapframe.size = p.tf.bytes := by
    rw [← load_frame p.tf m mem]
    apply load_congr
    intro i hi
    have hadd : signalSp p.tf+BitVec.ofNat 32 23+BitVec.ofNat 32 i =
        signalSp p.tf+BitVec.ofNat 32 (16+(7+i)) := by bv_omega
    rw [hadd]
    apply hstack
    simp only [codesize]
    omega
  simp only [retSignal,haddr,hload,Trapframe.ofBytes_bytes]

lemma handleSignals_of_empty (mem : Mem)
    (h : p.pendingSignals.head = p.pendingSignals.tail) : handleSignals p mem = (p,mem) := by
  have hd : ¬p.Delivers := fun hd => hd.2.2 h
  rw [handleSignals,if_neg hd]

lemma syscall_sigRet (others : ℕ → Proc → Mem → Proc×Mem×Word) (mem : Mem)
    (h : p.tf.eax = SYS_sig_ret) : syscall others p mem = ((retSignal p mem).setEax 0,mem) := by
  simp only [syscall,h]
  rfl

/-- The registers after a signal: all are those of the interrupted program but `eax`, to
which `syscall` has assigned what `sys_sig_ret` returned. -/
lemma returnFromHandler_eq (others : ℕ → Proc → Mem → Proc×Mem×Word) {q : Proc} {mem mem' : Mem}
    {r : Regs} (junk : Trapframe) (hp : p.Delivers)
    (hret : HandlerReturns (handleSignals p mem).1.tf.regs (handleSignals p mem).2 r mem')
    (hq : q.pendingSignals.head = q.pendingSignals.tail) :
    returnFromHandler others q junk r mem' = some { p.tf.regs with eax := 0 } := by
  rw [handleSignals,if_pos hp] at hret
  have heip : r.eip = signalSp p.tf+BitVec.ofNat 32 16 := hret.eip.trans (load_return _ _ _)
  have hstack : ∀ i < codesize+Trapframe.size, mem' (signalSp p.tf+BitVec.ofNat 32 (16+i)) =
      signalStack p.tf p.recvMultiQueue.front.2 mem (signalSp p.tf+BitVec.ofNat 32 (16+i)) :=
    hret.stack
  have hcode : load mem' r.eip codesize = sigretCode := by
    rw [← load_code p.tf p.recvMultiQueue.front.2 mem,heip]
    apply load_congr
    intro i hi
    have hadd : signalSp p.tf+BitVec.ofNat 32 16+BitVec.ofNat 32 i =
        signalSp p.tf+BitVec.ofNat 32 (16+i) := by rw [BitVec.ofNat_add,add_assoc]
    rw [hadd]
    exact hstack i (by omega)
  let trapped : Regs := { r with eax := SYS_sig_ret, eip := r.eip+5+2 }
  let q' : Proc := { q with tf := trapped.frame (T_SYSCALL.setWidth 32) junk }
  have hframe : (retSignal q' mem').tf = p.tf :=
    retSignal_frame p.recvMultiQueue.front.2 hret.esp hstack
  have htrap : returnFromHandler others q junk r mem' =
      some (handleSignals (syscall others q' mem').1 (syscall others q' mem').2).1.tf.regs := by
    simp only [returnFromHandler,runToTrap_sigretCode hcode,Option.bind_eq_bind,Option.bind_some,
      if_true,q',trapped]
  have hempty := handleSignals_of_empty (p := (retSignal q' mem').setEax 0) mem' hq
  rw [htrap,syscall_sigRet others mem' rfl,hempty,Proc.setEax,hframe]
  rfl

/-- **Signals and the interrupted program.** However the handler leaves the registers and
whatever has changed in the process table meanwhile, the program goes on with the
registers it was interrupted with if and only if its `eax` was 0. -/
theorem signal_transparent_iff (others : ℕ → Proc → Mem → Proc×Mem×Word) (p q : Proc)
    (mem mem' : Mem) (r : Regs) (junk : Trapframe) (hp : p.Delivers)
    (hret : HandlerReturns (handleSignals p mem).1.tf.regs (handleSignals p mem).2 r mem')
    (hq : q.pendingSignals.head = q.pendingSignals.tail) :
    returnFromHandler others q junk r mem' = some p.tf.regs ↔ p.tf.eax = 0 := by
  rw [returnFromHandler_eq others junk hp hret hq]
  constructor
  · intro h
    exact (congrArg Regs.eax (Option.some.inj h)).symm
  · intro h
    rw [← h]
    rfl

/-- A process in user mode with one signal pending. -/
def interrupted (eax : Word) : Proc where
  state := .running
  pid := 3
  tf := { Trapframe.ofWords (fun _ => 0) with
    eax := eax, cs := 0x1b, ds := 0x23, es := 0x23, ss := 0x23, eflags := 0x200, esp := 0x2000
    eip := 0x100 }
  recvQueue := ⟨fun _ => (0,fun _ => 0),0,0⟩
  recvMultiQueue := ⟨fun _ => (4,fun _ => 7),0,1⟩
  handler := 0x500
  pendingSignals := ⟨fun _ => (1,4),0,1⟩
  handling := false

def emptyHandler (p : Proc) : Regs :=
  let entry := (handleSignals p (fun _ => 0)).1.tf.regs
  { entry with
    eip := wordAt (load (handleSignals p (fun _ => 0)).2 entry.esp 4) 0
    esp := entry.esp+4 }

lemma emptyHandler_returns (p : Proc) :
    HandlerReturns (handleSignals p fun _ => 0).1.tf.regs (handleSignals p fun _ => 0).2
      (emptyHandler p) (handleSignals p fun _ => 0).2 :=
  ⟨rfl,rfl,fun _ _ => rfl⟩

theorem signal_transparent_zero :
    returnFromHandler (fun _ p mem => (p,mem,0)) (handleSignals (interrupted 0) fun _ => 0).1
      (interrupted 0).tf (emptyHandler (interrupted 0)) (handleSignals (interrupted 0) fun _ => 0).2 =
        some (interrupted 0).tf.regs :=
  (signal_transparent_iff _ _ _ _ _ _ _ (by decide) (emptyHandler_returns _) (by decide)).mpr rfl

/-- A program that is interrupted with 5 in `eax` goes on with another value. -/
theorem signal_clobbers_eax : (interrupted 5).Delivers ∧
    HandlerReturns (handleSignals (interrupted 5) fun _ => 0).1.tf.regs
      (handleSignals (interrupted 5) fun _ => 0).2 (emptyHandler (interrupted 5))
      (handleSignals (interrupted 5) fun _ => 0).2 ∧
    returnFromHandler (fun _ p mem => (p,mem,0)) (handleSignals (interrupted 5) fun _ => 0).1
      (interrupted 5).tf (emptyHandler (interrupted 5)) (handleSignals (interrupted 5) fun _ => 0).2 ≠
        some (interrupted 5).tf.regs := by
  refine ⟨by decide,emptyHandler_returns _,?_⟩
  rw [returnFromHandler_eq _ _ (by decide) (emptyHandler_returns _) (by decide)]
  decide

end JacobiXv6.Kernel
