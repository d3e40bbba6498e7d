import JacobiXv6.Library.Run
import JacobiXv6.Kernel.SignalFrame

/-! The flag `handling` against what a process is doing. A program that is sent to its handler has
a trap frame saved on its stack until `ret_signal` takes it back; `fork` copies the stack and `exec`
throws it away. -/
namespace JacobiXv6.Kernel.Handling
open Library Function

/-- A process and, as history, the addresses at which trap frames were saved for its handlers and
from which they have not been restored, the last one first. They belong to the program in memory. -/
structure Program where
  proc : Proc
  frames : List Word

abbrev System := ℕ → Option Program

/-- `run`: the program runs and traps, and a system call that is none of the others may return a
value. `ret` is `trapret`. `fork` takes a slot and what is left in it. `signal` and
`multicast` are what other processes send. -/
inductive Act
  | run (i : ℕ) (tf : Trapframe)
  | ret (i : ℕ) (mem : Mem)
  | sigRet (i : ℕ) (mem : Mem)
  | fork (i j : ℕ) (old : Proc) (pid : ℤ)
  | exec (i : ℕ) (entry sp : Word)
  | sigSet (i : ℕ) (func : Word)
  | signal (i : ℕ) (sender signum : ℤ)
  | multicast (i : ℕ) (sender : ℤ) (mess : Msg)
  | exit (i : ℕ)

/-- Where `ret_signal` looks for the frame. -/
def sigretAddress (tf : Trapframe) : Word := tf.esp+12+BitVec.ofNat 32 codesize

namespace Program

def handleSignals (x : Program) (mem : Mem) : Program where
  proc := (Kernel.handleSignals x.proc mem).1
  frames :=
    if x.proc.Delivers then (x.proc.tf.esp-BitVec.ofNat 32 Trapframe.size)::x.frames else x.frames

/-- `sys_sig_ret`: the frame that was saved last is restored if this is where it lies. -/
def sigRet (x : Program) (mem : Mem) : Program where
  proc := (retSignal x.proc mem).setEax 0
  frames := if x.frames.head? = some (sigretAddress x.proc.tf) then x.frames.tail else x.frames

/-- The child of `fork`: what `allocproc` makes of the slot, with the frame and the handler of the
parent, and a copy of its stack. -/
def child (x : Program) (old : Proc) (pid : ℤ) : Program where
  proc := { old.resetQueues with
    state := .runnable
    pid := pid
    tf := { x.proc.tf with eax := 0 }
    handler := x.proc.handler }
  frames := x.frames

/-- A successful `exec`. -/
def exec (x : Program) (entry sp : Word) : Program where
  proc := { x.proc with tf := { x.proc.tf with eip := entry, esp := sp, eax := 0 }, handler := 0 }
  frames := []

/-- `set_signal` -/
def sigSet (x : Program) (func : Word) : Program :=
  { x with proc := Proc.setEax { x.proc with handler := func } 0 }

end Program

def next (s : System) : Act → Option System
  | .run i tf => (s i).map fun x => update s i (some { x with proc := { x.proc with tf := tf } })
  | .ret i mem => (s i).map fun x => update s i (some (x.handleSignals mem))
  | .sigRet i mem => (s i).map fun x => update s i (some (x.sigRet mem))
  | .fork i j old pid =>
    if s j = none then
      (s i).map fun x => update (update s j (some (x.child old pid))) i
        (some { x with proc := x.proc.setEax (BitVec.ofInt 32 pid) })
    else none
  | .exec i entry sp => (s i).map fun x => update s i (some (x.exec entry sp))
  | .sigSet i func => (s i).map fun x => update s i (some (x.sigSet func))
  | .signal i sender signum =>
    (s i).map fun x => update s i (some { x with proc := x.proc.putSignal sender signum })
  | .multicast i sender mess => (s i).map fun x => update s i (some
      { x with proc := (x.proc.putMulti sender mess).putSignal sender 1 })
  | .exit i => (s i).map fun _ => update s i none

/-- `userinit`: the first process, in a slot with `old` in it. -/
def initial (old : Proc) (tf : Trapframe) : System := fun i =>
  if i = 0 then some ⟨{ old.resetQueues with state := .runnable, pid := 1, tf := tf },[]⟩ else none

/-- The flag says whether some handler of the program still has its frame on the stack. -/
def Truthful (s : System) : Prop := ∀ i x, s i = some x → (x.proc.handling = true ↔ x.frames ≠ [])

/-- The condition on a step: `fork` and `exec` are called outside of handlers, and a handler calls
`sig_ret` where its frame was saved. -/
def Proper (s : System) : Act → Prop
  | .fork i _ _ _ | .exec i _ _ => ∀ x, s i = some x → x.proc.handling = false
  | .sigRet i _ => ∀ x, s i = some x → x.proc.handling = true →
      x.frames.head? = some (sigretAddress x.proc.tf)
  | _ => True

/-! ### What is kept -/

/-- Outside of a handler, or in one that was entered from the program itself. -/
def Sound (x : Program) : Prop :=
  (x.proc.handling = false ∧ x.frames = []) ∨ (x.proc.handling = true ∧ ∃ a, x.frames = [a])

variable {x : Program}

lemma Sound.truthful (h : Sound x) : x.proc.handling = true ↔ x.frames ≠ [] := by
  rcases h with ⟨hflag,hframes⟩ | ⟨hflag,a,hframes⟩
  · simp [hflag,hframes]
  · simp [hflag,hframes]

lemma Sound.of_eq {y : Program} (h : Sound x) (hflag : y.proc.handling = x.proc.handling)
    (hframes : y.frames = x.frames) : Sound y := by
  unfold Sound
  rw [hflag,hframes]
  exact h

lemma Sound.frames_nil_iff (h : Sound x) : x.frames = [] ↔ x.proc.handling = false := by
  rcases h with ⟨hflag,hframes⟩ | ⟨hflag,a,hframes⟩
  · simp [hflag,hframes]
  · simp [hflag,hframes]

lemma Sound.handleSignals (h : Sound x) (mem : Mem) : Sound (x.handleSignals mem) := by
  unfold Program.handleSignals Kernel.handleSignals
  by_cases hd : x.proc.Delivers
  · have hframes : x.frames = [] := h.frames_nil_iff.mpr hd.1
    simp only [if_pos hd,hframes]
    exact .inr ⟨rfl,_,rfl⟩
  · simp only [if_neg hd]
    exact h

/-- After `sig_ret` the flag is clear, and a frame is left unless it was found. -/
lemma Sound.sigRet_iff (h : Sound x) (mem : Mem) : (x.sigRet mem).proc.handling = false ∧
    ((x.sigRet mem).frames = [] ↔
      (x.proc.handling = true → x.frames.head? = some (sigretAddress x.proc.tf))) := by
  refine ⟨rfl,?_⟩
  unfold Program.sigRet
  rcases h with ⟨hflag,hframes⟩ | ⟨hflag,a,hframes⟩
  · simp [hflag,hframes]
  · simp only [hflag,hframes,List.head?_cons,List.tail_cons,true_implies]
    by_cases ha : some a = some (sigretAddress x.proc.tf)
    · simp [ha]
    · simp [ha]

def AllSound (s : System) : Prop := ∀ i x, s i = some x → Sound x

variable {s s' : System} {a : Act} {i : ℕ}

lemma AllSound.truthful (h : AllSound s) : Truthful s := fun i x hx => (h i x hx).truthful

lemma AllSound.update_iff {P : Program → Prop} (h : ∀ j x, s j = some x → P x) (i : ℕ)
    (o : Option Program) :
    (∀ j x, update s i o j = some x → P x) ↔ ∀ x, o = some x → P x := by
  constructor
  · intro hall x hx
    exact hall i x (by rw [update_self,hx])
  · intro hnew j x hx
    obtain rfl | hne := eq_or_ne j i
    · exact hnew x (by rwa [update_self] at hx)
    · exact h j x (by rwa [update_of_ne hne] at hx)

/-- What a step does, as far as the flag and the frames are concerned: it keeps both of every
process, it delivers a signal, it calls `sig_ret`, `fork` or `exec`, or a process is gone. -/
inductive Effect (s : System) : Act → System → Prop
  | keep {a : Act} {i : ℕ} {x y : Program} (hx : s i = some x)
    (hflag : y.proc.handling = x.proc.handling)
      (hframes : y.frames = x.frames) (ha : ∀ t, Proper t a) : Effect s a (update s i (some y))
  | ret {i : ℕ} {x : Program} {mem : Mem} (hx : s i = some x) :
      Effect s (.ret i mem) (update s i (some (x.handleSignals mem)))
  | sigRet {i : ℕ} {x : Program} {mem : Mem} (hx : s i = some x) :
      Effect s (.sigRet i mem) (update s i (some (x.sigRet mem)))
  | fork {i j : ℕ} {x y : Program} {old : Proc} {pid : ℤ} (hx : s i = some x) (hij : i ≠ j)
      (hflag : y.proc.handling = x.proc.handling) (hframes : y.frames = x.frames) :
      Effect s (.fork i j old pid)
        (update (update s j (some (x.child old pid))) i (some y))
  | exec {i : ℕ} {x : Program} {entry sp : Word} (hx : s i = some x) :
      Effect s (.exec i entry sp) (update s i (some (x.exec entry sp)))
  | gone {i : ℕ} : Effect s (.exit i) (update s i none)

lemma effect_of_next (h : next s a = some s') : Effect s a s' := by
  cases a with
  | run i tf | sigSet i func | signal i sender signum | multicast i sender mess =>
    obtain ⟨x,hx,rfl⟩ := Option.map_eq_some_iff.mp h
    exact .keep hx rfl rfl fun _ => trivial
  | ret i mem =>
    obtain ⟨x,hx,rfl⟩ := Option.map_eq_some_iff.mp h
    exact .ret hx
  | sigRet i mem =>
    obtain ⟨x,hx,rfl⟩ := Option.map_eq_some_iff.mp h
    exact .sigRet hx
  | fork i j old pid =>
    obtain ⟨hj,h⟩ := Option.ite_none_right_eq_some.mp h
    obtain ⟨x,hx,rfl⟩ := Option.map_eq_some_iff.mp h
    refine .fork hx ?_ rfl rfl
    rintro rfl
    exact nomatch hx.symm.trans hj
  | exec i entry sp =>
    obtain ⟨x,hx,rfl⟩ := Option.map_eq_some_iff.mp h
    exact .exec hx
  | exit i =>
    obtain ⟨x,hx,rfl⟩ := Option.map_eq_some_iff.mp h
    exact .gone

lemma child_sound_iff (h : Sound x) (old : Proc) (pid : ℤ) :
    Sound (x.child old pid) ↔ x.proc.handling = false := by
  rw [← h.frames_nil_iff]
  simp [Sound,Program.child,Proc.resetQueues]

lemma exec_sound_iff (x : Program) (entry sp : Word) :
    Sound (x.exec entry sp) ↔ x.proc.handling = false := by
  simp [Sound,Program.exec]

lemma sigRet_sound_iff (h : Sound x) (mem : Mem) : Sound (x.sigRet mem) ↔
    (x.proc.handling = true → x.frames.head? = some (sigretAddress x.proc.tf)) := by
  obtain ⟨hflag,hframes⟩ := h.sigRet_iff mem
  rw [← hframes]
  simp [Sound,hflag]

lemma AllSound.step_iff (h : AllSound s) (hs : Effect s a s') : AllSound s' ↔ Proper s a := by
  cases hs with
  | keep hx hflag hframes ha =>
    refine iff_of_true ((AllSound.update_iff h _ _).mpr ?_) (ha s)
    rintro y ⟨⟩
    exact (h _ _ hx).of_eq hflag hframes
  | ret hx =>
    refine iff_of_true ((AllSound.update_iff h _ _).mpr ?_) trivial
    rintro y ⟨⟩
    exact (h _ _ hx).handleSignals _
  | gone => exact iff_of_true ((AllSound.update_iff h _ _).mpr nofun) trivial
  | sigRet hx =>
    refine (AllSound.update_iff h _ _).trans ?_
    simp only [Proper,hx,Option.some.injEq,forall_eq']
    exact sigRet_sound_iff (h _ _ hx) _
  | exec hx =>
    refine (AllSound.update_iff h _ _).trans ?_
    simp only [Proper,hx,Option.some.injEq,forall_eq']
    exact exec_sound_iff _ _ _
  | @fork i j x y old pid hx hij hflag hframes =>
    simp only [Proper,hx,Option.some.injEq,forall_eq']
    rw [← child_sound_iff (h _ _ hx) old pid]
    constructor
    · intro hall
      apply hall j
      rw [update_of_ne hij.symm,update_self]
    · intro hchild
      have hmid : AllSound (update s j (some (x.child old pid))) :=
        (AllSound.update_iff h _ _).mpr (by rintro z ⟨⟩; exact hchild)
      refine (AllSound.update_iff hmid _ _).mpr ?_
      rintro z ⟨⟩
      exact (h _ _ hx).of_eq hflag hframes

lemma allSound_initial (old : Proc) (tf : Trapframe) : AllSound (initial old tf) := by
  intro i x hx
  obtain rfl | hne := eq_or_ne i 0
  · cases hx
    exact .inl ⟨rfl,rfl⟩
  · simp [initial,hne] at hx

lemma AllSound.of_truthful (h : AllSound s) (hs : Effect s a s') (ht : Truthful s') : AllSound s' := by
  rw [h.step_iff hs]
  cases hs with
  | keep hx hflag hframes ha => exact ha s
  | ret hx => trivial
  | gone => trivial
  | @sigRet i x mem hx =>
    simp only [Proper,hx,Option.some.injEq,forall_eq']
    obtain ⟨hflag,hframes⟩ := (h _ _ hx).sigRet_iff mem
    rw [← hframes]
    have htruth := ht i _ (update_self ..)
    simpa [hflag] using htruth
  | @exec i x entry sp hx =>
    simp only [Proper,hx,Option.some.injEq,forall_eq']
    have htruth := ht i _ (update_self ..)
    simpa [Program.exec] using htruth
  | @fork i j x y old pid hx hij hflag hframes =>
    simp only [Proper,hx,Option.some.injEq,forall_eq']
    have htruth := ht j (x.child old pid) (by rw [update_of_ne hij.symm,update_self])
    rw [← (h _ _ hx).frames_nil_iff]
    simpa [Program.child,Proc.resetQueues] using htruth

/-- **The handling flag.** In every run in which `fork` and `exec` are called outside of handlers
and handlers return through their own frame, the flag of each process is set exactly while a frame
of its program waits to be restored; and the next step keeps this if and only if it is such a step.
-/
theorem handling_truthful (old : Proc) (tf : Trapframe) (as : List Act) (s : System)
    (h : Run (fun s a s' => next s a = some s' ∧ Proper s a) (initial old tf) as s) :
    Truthful s ∧ ∀ a s', next s a = some s' → (Truthful s' ↔ Proper s a) := by
  have hsound : AllSound s := by
    refine h.invariant (fun _ s => AllSound s) ?_ (allSound_initial old tf)
    intro _ s a s' hs hstep
    exact (hs.step_iff (effect_of_next hstep.1)).mpr hstep.2
  refine ⟨hsound.truthful,fun a s' hstep => ?_⟩
  have heffect := effect_of_next hstep
  rw [← hsound.step_iff heffect]
  exact ⟨hsound.of_truthful heffect,AllSound.truthful⟩

/-- The first process, in a slot that was never used. -/
def start : System := initial (interrupted 0) (interrupted 0).tf

/-- A message is sent to it, and it goes to its handler when it returns to user mode. -/
def signalled : List Act := [.multicast 0 4 fun _ => 7,.ret 0 fun _ => 0]

def inHandler : Program :=
  Program.handleSignals ⟨Proc.putSignal 4 1 (Proc.putMulti 4 (fun _ => 7)
    { (interrupted 0).resetQueues with state := .runnable, pid := 1, tf := (interrupted 0).tf }),[]⟩
    fun _ => 0

lemma signalled_run : ∃ s, Run (fun s a s' => next s a = some s' ∧ Proper s a) start signalled s ∧
    s 0 = some inHandler ∧ s 1 = none := by
  refine ⟨_,.cons ⟨rfl,trivial⟩ (.cons ⟨rfl,trivial⟩ (.nil _)),?_,?_⟩
  · rfl
  · rfl

theorem handling_truthful_signalled : ∃ s, Run (fun s a s' => next s a = some s' ∧ Proper s a) start
    signalled s ∧ inHandler.proc.handling = true ∧ Truthful s := by
  obtain ⟨s,hrun,-,-⟩ := signalled_run
  exact ⟨s,hrun,by decide,(handling_truthful _ _ _ s hrun).1⟩

/-- A handler calls `exec`: the new program has the flag set, no frame to restore, and is sent to no
handler any more. A handler calls `fork`: the child runs the handler with the flag clear. -/
theorem flag_survives_exec : (∃ s x, Run (fun s a s' => next s a = some s') start
      (signalled++[.exec 0 0 0x1000]) s ∧ s 0 = some x ∧ x.proc.handling = true ∧ x.frames = [] ∧
      ¬Truthful s ∧ ∀ sender mess mem, Program.handleSignals
        { x with proc := (x.proc.putMulti sender mess).putSignal sender 1 } mem =
        { x with proc := (x.proc.putMulti sender mess).putSignal sender 1 }) ∧
    ∃ s y, Run (fun s a s' => next s a = some s') start (signalled++[.fork 0 1 (interrupted 0) 2]) s ∧
      s 1 = some y ∧ y.proc.handling = false ∧ y.frames ≠ [] ∧ ¬Truthful s := by
  obtain ⟨s,hrun,hzero,hone⟩ := signalled_run
  have hrun := hrun.mono fun _ _ _ h => h.1
  have hflag : inHandler.proc.handling = true := by decide
  have hframes : inHandler.frames ≠ [] := by decide
  constructor
  · have hnext : next s (.exec 0 0 0x1000) =
        some (update s 0 (some (inHandler.exec 0 0x1000))) := by
      rw [next,hzero]
      rfl
    refine ⟨_,_,hrun.snoc hnext,update_self ..,hflag,rfl,?_,?_⟩
    · intro ht
      exact (ht 0 _ (update_self ..)).mp hflag rfl
    · intro sender mess mem
      have hd : ¬Proc.Delivers
          ((((inHandler.exec 0 0x1000).proc.putMulti sender mess)).putSignal sender 1) :=
        fun hd => absurd (hflag.symm.trans hd.1) (by decide)
      simp only [Program.handleSignals,Kernel.handleSignals,if_neg hd]
  · have hnext : next s (.fork 0 1 (interrupted 0) 2) = some (update
        (update s 1 (some (inHandler.child (interrupted 0) 2))) 0
        (some { inHandler with proc := inHandler.proc.setEax (BitVec.ofInt 32 2) })) := by
      rw [next,if_pos hone,hzero]
      rfl
    have hchild : update (update s 1 (some (inHandler.child (interrupted 0) 2))) 0
        (some { inHandler with proc := inHandler.proc.setEax (BitVec.ofInt 32 2) }) 1 =
          some (inHandler.child (interrupted 0) 2) := by
      rw [update_of_ne Nat.one_ne_zero,update_self]
    refine ⟨_,_,hrun.snoc hnext,hchild,rfl,hframes,?_⟩
    intro ht
    cases (ht 1 _ hchild).mpr hframes

end JacobiXv6.Kernel.Handling
