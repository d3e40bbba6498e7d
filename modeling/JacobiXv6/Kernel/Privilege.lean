import JacobiXv6.Library.Run
import JacobiXv6.Kernel.Proc

/-! System calls and the privilege of the frames through which processes return. The
machine has every write that the kernel makes to a trap frame: `userinit`, `fork`, `exec`,
`syscall`, `ret_signal` and `handle_signals`. User code is bound by the rules of the
processor for ring 3 only, and messages may change the queues of a process at any time. -/
namespace JacobiXv6.Kernel.Privilege
open Library Function

def SYS_fork : Word := 1
def SYS_exec : Word := 7
def SYS_recv : Word := 27

def KERNBASE : ℕ := 0x80000000
def FL_IF : Word := 0x200
def FL_IOPL : Word := 0x3000

/-- `SEG_UCODE` and `SEG_UDATA` with privilege level `DPL_USER`. -/
def userCode : Half := 0x1b
def userData : Half := 0x23

/-- A data selector that ring 3 can load: a null selector or one of a user segment. -/
def UserSelector (sel : Half) : Prop :=
  sel &&& 0xfffc = 0 ∨ sel &&& 0xfffc = 0x18 ∨ sel &&& 0xfffc = 0x20

instance (sel : Half) : Decidable (UserSelector sel) := inferInstanceAs (Decidable (_ ∨ _ ∨ _))

/-- A frame that returns to user mode with interrupts on and no access to ports. -/
structure UserFrame (tf : Trapframe) : Prop where
  cs : tf.cs &&& 3 = DPL_USER
  ss : tf.ss = userData
  ds : UserSelector tf.ds
  es : UserSelector tf.es
  interrupts : tf.eflags &&& FL_IF = FL_IF
  ports : tf.eflags &&& FL_IOPL = 0

instance (tf : Trapframe) : Decidable (UserFrame tf) :=
  decidable_of_iff (tf.cs &&& 3 = DPL_USER ∧ tf.ss = userData ∧ UserSelector tf.ds ∧
    UserSelector tf.es ∧ tf.eflags &&& FL_IF = FL_IF ∧ tf.eflags &&& FL_IOPL = 0)
    ⟨fun ⟨h1,h2,h3,h4,h5,h6⟩ => ⟨h1,h2,h3,h4,h5,h6⟩,fun h => ⟨h.1,h.2,h.3,h.4,h.5,h.6⟩⟩

/-- What code in ring 3 can do to the segment registers and to the flags `IF` and `IOPL`;
all other registers and flags may change in any way. -/
structure RingThree (r r' : Regs) : Prop where
  cs : r'.cs = r.cs ∨ r'.cs = userCode
  ss : r'.ss = r.ss ∨ r'.ss = userData
  ds : r'.ds = r.ds ∨ UserSelector r'.ds
  es : r'.es = r.es ∨ UserSelector r'.es
  interrupts : r'.eflags &&& FL_IF = r.eflags &&& FL_IF
  ports : r'.eflags &&& FL_IOPL = r.eflags &&& FL_IOPL

section Arguments
variable (mem : Mem) (sz esp : Word)

def fetchint (addr : Word) : Option Word :=
  if sz ≤ addr ∨ sz < addr+4 then none else some (wordAt (load mem addr 4) 0)

def argint (n : Word) : Option Word := fetchint mem sz (esp+4+4*n)

def argptr (n size : Word) : Option Word :=
  (argint mem sz esp n).bind fun i => if size.toInt < 0 ∨ sz ≤ i ∨ sz < i+size then none else some i

end Arguments

/-- A process with its memory, of which `sz` bytes are its own. -/
structure Task where
  proc : Proc
  mem : Mem
  sz : Word

namespace Task

def tf (t : Task) : Trapframe := t.proc.tf

/-- The frame that `ret_signal` would copy. -/
def sigretFrame (t : Task) : Trapframe :=
  Trapframe.ofBytes (load t.mem (t.tf.esp+12+BitVec.ofNat 32 codesize) Trapframe.size)

/-- The part of the stack that `handle_signals` would write lies below the kernel. -/
def StackInUser (t : Task) : Prop :=
  Trapframe.size+codesize+16 ≤ t.tf.esp.toNat ∧ t.tf.esp.toNat ≤ KERNBASE

end Task

/-- What a system call does to the process that makes it, and the child of a `fork`. The
calls that do not write the frame differ in the value they return and in what they do to
the memory and to the queues. -/
inductive Call (t : Task) : Task → Option Task → Prop
  | forkFails (h : t.tf.eax = SYS_fork) : Call t { t with proc := t.proc.setEax (-1) } none
  | fork (h : t.tf.eax = SYS_fork) (pid : Word) (child : Proc)
      (hchild : child.tf = { t.tf with eax := 0 }) :
      Call t { t with proc := t.proc.setEax pid } (some { t with proc := child })
  | execFails (h : t.tf.eax = SYS_exec) : Call t { t with proc := t.proc.setEax (-1) } none
  | exec (h : t.tf.eax = SYS_exec) (entry sp sz : Word) (mem : Mem) :
      Call t ⟨{ t.proc with tf := { t.tf with eip := entry, esp := sp, eax := 0 }, handler := 0 },
        mem,sz⟩ none
  | sigRet (h : t.tf.eax = SYS_sig_ret) :
      Call t { t with proc := (retSignal t.proc t.mem).setEax 0 } none
  | recv (h : t.tf.eax = SYS_recv) (mess : Word) (hptr : argptr t.mem t.sz t.tf.esp 0 8 = some mess)
    (value : Word)
      (m : Msg) (p : Proc) (hp : p.tf = { t.tf with eax := value }) :
      Call t ⟨p,store t.mem mess (List.ofFn m),t.sz⟩ none
  | other (h : t.tf.eax ≠ SYS_fork ∧ t.tf.eax ≠ SYS_exec ∧ t.tf.eax ≠ SYS_sig_ret ∧ t.tf.eax ≠ SYS_recv)
      (value sz : Word) (mem : Mem) (p : Proc) (hp : p.tf = { t.tf with eax := value }) :
      Call t ⟨p,mem,sz⟩ none

/-- Where a process is between two of its steps. -/
inductive Mode
  | user
  | entered
  | returning
  deriving DecidableEq

abbrev System := ℕ → Option (Mode×Task)

inductive Event
  | run (i : ℕ) (t : Task)
  | interrupt (i : ℕ)
  | call (i : ℕ) (t : Task)
  | fork (i j : ℕ) (t child : Task)
  | ret (i : ℕ)
  | gone (i : ℕ)
  | wild (i : ℕ)

/-- `run`: process `i` runs in user mode until it traps. `interrupt`: the trap was not a
system call. `call` and `fork`: it was one. `ret`: `trapret` with its `handle_signals`.
`gone`: the process exits. `wild`: `sys_recv` goes on with a pointer that `argptr` has
refused, or `handle_signals` writes to a stack pointer in the kernel; the write may change
any frame of the system. -/
inductive Step (s : System) : Event → System → Prop
  | run {i : ℕ} {t₀ t : Task} (hi : s i = some (.user,t₀)) (r : Regs) (trapno : Word)
      (junk : Trapframe) (hr : UserFrame t₀.tf → RingThree t₀.tf.regs r)
      (ht : t.tf = r.frame trapno junk) :
      Step s (.run i t) (update s i (some (.entered,t)))
  | interrupt {i : ℕ} {t : Task} (hi : s i = some (.entered,t)) :
      Step s (.interrupt i) (update s i (some (.returning,t)))
  | call {i : ℕ} {t₀ t : Task} (hi : s i = some (.entered,t₀)) (hc : Call t₀ t none) :
      Step s (.call i t) (update s i (some (.returning,t)))
  | fork {i j : ℕ} {t₀ t child : Task} (hi : s i = some (.entered,t₀)) (hj : s j = none)
      (hc : Call t₀ t (some child)) :
      Step s (.fork i j t child) (update (update s j (some (.returning,child))) i
        (some (.returning,t)))
  | ret {i : ℕ} {t : Task} (hi : s i = some (.returning,t)) (hs : t.proc.Delivers → t.StackInUser) :
      Step s (.ret i) (update s i (some (.user,
        ⟨(handleSignals t.proc t.mem).1,(handleSignals t.proc t.mem).2,t.sz⟩)))
  | gone {i : ℕ} {t : Task} (hi : s i = some (.entered,t)) :
      Step s (.gone i) (update s i none)
  | wildRecv {i : ℕ} {t : Task} (hi : s i = some (.entered,t)) (h : t.tf.eax = SYS_recv)
      (hptr : argptr t.mem t.sz t.tf.esp 0 8 = none) (s' : System) : Step s (.wild i) s'
  | wildStack {i : ℕ} {t : Task} (hi : s i = some (.returning,t)) (hd : t.proc.Delivers)
      (hs : ¬t.StackInUser) (s' : System) : Step s (.wild i) s'

/-! ### Runs in which no frame is forged -/

/-- The condition on a step: a `sig_ret` finds a frame of user mode where it looks for one,
and the kernel does not write through an address that it has not checked. -/
def Checked (s : System) : Event → Prop
  | .call i _ => ∀ mode t, s i = some (mode,t) → t.tf.eax = SYS_sig_ret → UserFrame t.sigretFrame
  | .wild _ => False
  | _ => True

/-- The frame that `userinit` makes. -/
def initFrame : Trapframe :=
  { Trapframe.ofWords (fun _ => 0) with
    cs := userCode, ds := userData, es := userData, ss := userData, eflags := FL_IF, esp := 4096
    eip := 0 }

def initTask (mem : Mem) : Task where
  proc :=
    { state := .runnable
      pid := 1
      tf := initFrame
      recvQueue := ⟨fun _ => (0,fun _ => 0),0,0⟩
      recvMultiQueue := ⟨fun _ => (0,fun _ => 0),0,0⟩
      handler := 0
      pendingSignals := ⟨fun _ => (0,0),0,0⟩
      handling := false }
  mem := mem
  sz := 4096

def initial (mem : Mem) : System := fun i => if i = 0 then some (.returning,initTask mem) else none

/-- All frames of the system return to user mode. -/
def Kept (s : System) : Prop := ∀ i mode t, s i = some (mode,t) → UserFrame t.tf

variable {s s' : System} {t t' : Task} {e : Event}

lemma Kept.update {o : Option (Mode×Task)} (h : Kept s) (i : ℕ)
    (ho : ∀ mode t, o = some (mode,t) → UserFrame t.tf) : Kept (update s i o) := by
  intro j mode t hj
  obtain rfl | hne := eq_or_ne j i
  · exact ho mode t (by simpa using hj)
  · exact h j mode t (by simpa [hne] using hj)

lemma UserFrame.run {tf junk : Trapframe} {r : Regs} {trapno : Word} (h : UserFrame tf)
    (hr : RingThree tf.regs r) : UserFrame (r.frame trapno junk) where
  cs := by
    rcases hr.cs with hcs | hcs
    · exact (congrArg (· &&& 3) hcs).trans h.cs
    · exact congrArg (· &&& 3) hcs
  ss := hr.ss.elim (fun hss => hss.trans h.ss) id
  ds := hr.ds.elim (fun hds => (congrArg UserSelector hds).mpr h.ds) id
  es := hr.es.elim (fun hes => (congrArg UserSelector hes).mpr h.es) id
  interrupts := hr.interrupts.trans h.interrupts
  ports := hr.ports.trans h.ports

/-- The assignment of a return value to `eax` does not matter. -/
lemma userFrame_eax (tf : Trapframe) (value : Word) :
    UserFrame { tf with eax := value } ↔ UserFrame tf :=
  ⟨fun h => ⟨h.1,h.2,h.3,h.4,h.5,h.6⟩,fun h => ⟨h.1,h.2,h.3,h.4,h.5,h.6⟩⟩

/-- After `sig_ret` the frame is the one in the memory of the process. -/
lemma Call.sigRet_iff {child : Option Task} (h : t.tf.eax = SYS_sig_ret) (hc : Call t t' child) :
    UserFrame t'.tf ↔ UserFrame t.sigretFrame := by
  cases hc with
  | sigRet _ => exact userFrame_eax t.sigretFrame 0
  | other hn _ _ _ _ _ => exact absurd h hn.2.2.1
  | forkFails hn | fork hn _ _ _ | execFails hn | exec hn _ _ _ _ | recv hn _ _ _ _ _ _ =>
    exact absurd (h.symm.trans hn) (by decide)

/-- No other call touches more than `eax`, `eip` and `esp`. -/
lemma Call.keeps {child : Option Task} (hc : Call t t' child) (h : UserFrame t.tf)
    (hsig : t.tf.eax = SYS_sig_ret → UserFrame t.sigretFrame) :
    UserFrame t'.tf ∧ ∀ c, child = some c → UserFrame c.tf := by
  cases hc with
  | forkFails _ | execFails _ => exact ⟨(userFrame_eax t.tf _).mpr h,by simp⟩
  | fork _ pid child hchild =>
    refine ⟨(userFrame_eax t.tf _).mpr h,?_⟩
    rintro c ⟨⟩
    exact (congrArg UserFrame hchild).mpr ((userFrame_eax t.tf _).mpr h)
  | exec _ entry sp sz mem => exact ⟨⟨h.1,h.2,h.3,h.4,h.5,h.6⟩,by simp⟩
  | sigRet hn => exact ⟨(userFrame_eax t.sigretFrame 0).mpr (hsig hn),by simp⟩
  | recv _ mess _ value m p hp | other _ value sz mem p hp =>
    exact ⟨(congrArg UserFrame hp).mpr ((userFrame_eax t.tf _).mpr h),by simp⟩

/-- `handle_signals` changes `esp` and `eip` only. -/
lemma userFrame_handleSignals {p : Proc} (mem : Mem) (h : UserFrame p.tf) :
    UserFrame (handleSignals p mem).1.tf := by
  unfold handleSignals
  split_ifs
  · exact ⟨h.1,h.2,h.3,h.4,h.5,h.6⟩
  · exact h

lemma Kept.step (h : Kept s) (hs : Step s e s') (hc : Checked s e) : Kept s' := by
  cases hs with
  | run hi r trapno junk hr ht =>
    apply h.update
    rintro mode t ⟨⟩
    rw [ht]
    exact (h _ _ _ hi).run (hr (h _ _ _ hi))
  | interrupt hi =>
    apply h.update
    rintro mode t ⟨⟩
    exact h _ _ _ hi
  | call hi hcall =>
    apply h.update
    rintro mode t ⟨⟩
    exact (hcall.keeps (h _ _ _ hi) (hc _ _ hi)).1
  | fork hi hj hcall =>
    have hsig : ∀ t : Task, t.tf.eax = SYS_fork → t.tf.eax = SYS_sig_ret → UserFrame t.sigretFrame :=
      fun t hf hr => absurd (hf.symm.trans hr) (by decide)
    have hkeeps := hcall.keeps (h _ _ _ hi) (by cases hcall; exact hsig _ ‹_›)
    apply (h.update _ _).update
    · rintro mode t ⟨⟩
      exact hkeeps.1
    · rintro mode t ⟨⟩
      exact hkeeps.2 _ rfl
  | ret hi hstack =>
    apply h.update
    rintro mode t ⟨⟩
    exact userFrame_handleSignals _ (h _ _ _ hi)
  | gone hi =>
    apply h.update
    simp
  | wildRecv hi heax hptr => exact hc.elim
  | wildStack hi hd hstack => exact hc.elim

lemma kept_initial (mem : Mem) : Kept (initial mem) := by
  intro i mode t hi
  obtain rfl | hne := eq_or_ne i 0
  · cases hi
    exact (by decide : UserFrame initFrame)
  · simp [initial,hne] at hi

/-- **Privilege.** In every run in which each `sig_ret` finds a frame of user mode and no
unchecked address is written, every process always returns to user mode, with interrupts
on and without access to ports. Of `sig_ret` nothing less will do. -/
theorem privilege_kept (mem : Mem) (es : List Event) (s : System)
    (h : Run (fun s e s' => Step s e s' ∧ Checked s e) (initial mem) es s) :
    (∀ i mode t, s i = some (mode,t) → UserFrame t.tf) ∧
      ∀ t t' child, t.tf.eax = SYS_sig_ret → Call t t' child →
        (UserFrame t'.tf ↔ UserFrame t.sigretFrame) := by
  refine ⟨?_,fun t t' child heax hc => hc.sigRet_iff heax⟩
  refine h.invariant (fun _ s => Kept s) ?_ (kept_initial mem)
  intro _ s e s' hk hs
  exact hk.step hs.1 hs.2

/-- The first process about to call `sig_ret`, with a frame of its own making on the stack. -/
def forger (f : Trapframe) : Task :=
  { initTask (store (fun _ => 0) (0x800+12+BitVec.ofNat 32 codesize) f.bytes) with
    proc := { (initTask fun _ => 0).proc with
      tf := Regs.frame { initFrame.regs with eax := SYS_sig_ret, esp := 0x800 } 64 initFrame } }

lemma forger_sigretFrame (f : Trapframe) : (forger f).sigretFrame = f := by
  have hload : load (forger f).mem (0x800+12+BitVec.ofNat 32 codesize) f.bytes.length = f.bytes :=
    load_store (by simp [Trapframe.size])
  exact (congrArg Trapframe.ofBytes hload).trans f.ofBytes_bytes

def forged (f : Trapframe) : Task :=
  { forger f with proc := (retSignal (forger f).proc (forger f).mem).setEax 0 }

/-- It gets there from the start of the system and makes the call. -/
def forgery (f : Trapframe) : List Event := [.ret 0,.run 0 (forger f),.call 0 (forged f)]

lemma forgery_run (f : Trapframe) {P : System → Event → Prop} (hret : ∀ s, P s (.ret 0))
    (hrun : ∀ s, P s (.run 0 (forger f)))
    (hcall : ∀ s, s 0 = some (.entered,forger f) → P s (.call 0 (forged f))) :
    ∃ s, Run (fun s e s' => Step s e s' ∧ P s e) (initial fun _ => 0) (forgery f) s ∧
      s 0 = some (.returning,forged f) := by
  let s₁ : System := update (initial fun _ => 0) 0 (some (.user,initTask fun _ => 0))
  let s₂ : System := update s₁ 0 (some (.entered,forger f))
  let s₃ : System := update s₂ 0 (some (.returning,forged f))
  have hempty : ¬(initTask fun _ => 0).proc.Delivers := by decide
  have h₁ : Step (initial fun _ => 0) (.ret 0) s₁ := by
    have hret := Step.ret (s := initial fun _ => 0) (i := 0) rfl fun h => absurd h hempty
    rw [handleSignals,if_neg hempty] at hret
    exact hret
  have hring : RingThree initFrame.regs { initFrame.regs with eax := SYS_sig_ret, esp := 0x800 } :=
    ⟨.inl rfl,.inl rfl,.inl rfl,.inl rfl,rfl,rfl⟩
  have h₂ : Step s₁ (.run 0 (forger f)) s₂ :=
    Step.run (update_self _ _ _) _ 64 initFrame (fun _ => hring) rfl
  have h₃ : Step s₂ (.call 0 (forged f)) s₃ :=
    Step.call (update_self _ _ _) (Call.sigRet rfl)
  refine ⟨s₃,.cons ⟨h₁,hret _⟩ (.cons ⟨h₂,hrun _⟩ (.cons ⟨h₃,hcall _ ?_⟩ (.nil _))),?_⟩
  · exact update_self _ _ _
  · exact update_self _ _ _

theorem privilege_kept_honest : ∃ s, Run (fun s e s' => Step s e s' ∧ Checked s e)
    (initial fun _ => 0) (forgery initFrame) s ∧ ∀ i mode t, s i = some (mode,t) → UserFrame t.tf := by
  obtain ⟨s,hrun,-⟩ := forgery_run initFrame (P := Checked) (fun _ => trivial) (fun _ => trivial) (by
    intro s hs mode t ht _
    obtain ⟨⟩ := hs.symm.trans ht
    rw [forger_sigretFrame]
    decide)
  exact ⟨s,hrun,(privilege_kept _ _ s hrun).1⟩

/-- A process that calls `sig_ret` with a frame for the kernel's code segment is given it. -/
theorem privilege_raised : ∃ s t, Run Step (initial fun _ => 0) (forgery
    { initFrame with cs := 0x08, eflags := 0x3000 }) s ∧
    s 0 = some (.returning,t) ∧ t.tf.cs = 0x08 ∧ t.tf.eflags = 0x3000 ∧ ¬UserFrame t.tf := by
  obtain ⟨s,hrun,hs⟩ := forgery_run { initFrame with cs := 0x08, eflags := 0x3000 }
    (P := fun _ _ => True) (fun _ => trivial) (fun _ => trivial) (fun _ _ => trivial)
  have htf : (forged { initFrame with cs := 0x08, eflags := 0x3000 }).tf =
      { initFrame with cs := 0x08, eflags := 0x3000, eax := 0 } :=
    congrArg (fun f : Trapframe => { f with eax := 0 }) (forger_sigretFrame _)
  refine ⟨s,_,hrun.mono fun _ _ _ h => h.1,hs,?_⟩
  rw [htf]
  decide

end JacobiXv6.Kernel.Privilege
