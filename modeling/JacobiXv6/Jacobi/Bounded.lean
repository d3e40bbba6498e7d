import JacobiXv6.Jacobi.Protocol
import JacobiXv6.Kernel.Pipe

/-! The processes of `jacob.c` with pipes that hold `PIPESIZE` bytes and with the descriptors that
each of them has open. A child starts with those of the parent; it closes the ends it does not use
when it starts, and the others before it exits. -/
namespace JacobiXv6.Jacobi
open Library Function

variable {V : Type*}

/-- The descriptor `[0]` or `[1]` of a pipe. -/
inductive End
  | read
  | write
  deriving DecidableEq

/-- What a process is about to do with a pipe. -/
inductive Operation (V : Type*)
  | read (q : Pipe)
  | write (q : Pipe) (m : Msg V)

def Operation.fd : Operation V → Pipe×End
  | read q => (q,.read)
  | write q _ => (q,.write)

/-- The size that is given to `write`. -/
def Msg.bytes (N : ℕ) : Msg V → ℕ
  | order _ | diff _ => 4
  | row _ => 4*N

section
variable (cfg : Config V)

/-- The next operation of child `c`. -/
def childOperation (c : ℕ) (s : State V) : Option (Operation V) :=
  let me := s.child c
  match me.pc with
  | .sendUp => if 0 < c then some (.write (.ccUp (c-1)) (.row (me.u (cfg.lo c)))) else none
  | .sendDown => if c+1 < cfg.children then some (.write (.ccDown c) (.row (me.u (cfg.hi c)))) else none
  | .recvAbove => if 0 < c then some (.read (.ccDown (c-1))) else none
  | .recvBelow => if c+1 < cfg.children then some (.read (.ccUp c)) else none
  | .sendDiff => some (.write (.cp c) (.diff me.diff))
  | .recvOrder => some (.read (.pc c))
  | .sendRow i => if i ≤ cfg.hi c then some (.write (.cp c) (.row (me.u i))) else none
  | _ => none

def parentOperation (s : State V) : Option (Operation V) :=
  match s.parent.pc with
  | .recvDiff i => if i < cfg.children then some (.read (.cp i)) else none
  | .sendCarryon i => if i < cfg.children then some (.write (.pc i) (.order 0)) else none
  | .sendDone i => if i < cfg.children then some (.write (.pc i) (.order 1)) else none
  | .recvRow i j => if i < cfg.children ∧ j ≤ cfg.hi i then some (.read (.cp i)) else none
  | _ => none

def operation (s : State V) : Proc → Option (Operation V)
  | .parent => parentOperation cfg s
  | .child c => childOperation cfg c s

def Room (s : State V) (q : Pipe) (m : Msg V) : Prop :=
  ((s.pipe q).map (Msg.bytes cfg.N)).sum+m.bytes cfg.N ≤ Kernel.PIPESIZE

instance (s : State V) (q : Pipe) (m : Msg V) : Decidable (Room cfg s q m) :=
  inferInstanceAs (Decidable (_ ≤ _))

def Ready (s : State V) (p : Proc) : Prop :=
  match operation cfg s p with
  | some (.write q m) => Room cfg s q m
  | _ => True

instance (s : State V) (p : Proc) : Decidable (Ready cfg s p) := by
  unfold Ready
  split <;> infer_instance

/-- The pipes that `main` makes, with the number of processes from before `P -= unused`. -/
def made : Pipe → Prop
  | .pc i | .cp i => i < cfg.processes
  | .ccUp i | .ccDown i => i+1 < cfg.processes

instance : DecidablePred (made cfg)
  | .pc i | .cp i => inferInstanceAs (Decidable (i < cfg.processes))
  | .ccUp i | .ccDown i => inferInstanceAs (Decidable (i+1 < cfg.processes))

/-- Both ends of `cc_up[i]` and `cc_down[i]`. -/
def ghostEnds (i : ℕ) : List (Pipe×End) :=
  [(.ccUp i,.read),(.ccUp i,.write),(.ccDown i,.read),(.ccDown i,.write)]

/-- The descriptors that child `c` closes at first. -/
def childCloses (c : ℕ) : List (Pipe×End) :=
  (List.range cfg.children).flatMap (fun i =>
    (.pc i,.write)::(.cp i,.read)::if i = c then [] else [(.pc i,.read),(.cp i,.write)])++
  (List.range (cfg.children-1)).flatMap (fun i => if i = c ∨ i+1 = c then [] else ghostEnds i)++
  (if 0 < c then [(.ccUp (c-1),.read),(.ccDown (c-1),.write)] else [])++
  if c+1 < cfg.children then [(.ccUp c,.write),(.ccDown c,.read)] else []

/-- The descriptors that it closes before it exits. -/
def childEnds (c : ℕ) : List (Pipe×End) :=
  [(.pc c,.read),(.cp c,.write)]++
  (if 0 < c then [(.ccUp (c-1),.write),(.ccDown (c-1),.read)] else [])++
  if c+1 < cfg.children then [(.ccUp c,.read),(.ccDown c,.write)] else []

/-- The descriptors that the parent closes after it has forked. -/
def parentCloses : List (Pipe×End) :=
  (List.range (cfg.children-1)).flatMap ghostEnds++
  (List.range (cfg.children-1)).flatMap fun i => [(.pc i,.read),(.cp i,.write)]

/-- The descriptors that it closes when it has printed. -/
def parentEnds : List (Pipe×End) :=
  (List.range (cfg.children-1)).flatMap fun i => [(.pc i,.write),(.cp i,.read)]

end

abbrev Fds := Pipe×End → Bool

def Fds.close (f : Fds) (l : List (Pipe×End)) : Fds := l.foldl (fun f e => update f e false) f

/-- The processes and their descriptors. -/
structure Machine (V : Type*) where
  state : State V
  fd : Proc → Fds

namespace Machine
variable (cfg : Config V)

def fdAfter (x : Machine V) : Proc → Proc → Fds
  | .parent =>
    match x.state.parent.pc with
    | .fork i =>
      if i < cfg.children then update x.fd (.child i) (x.fd .parent)
      else update x.fd .parent ((x.fd .parent).close (parentCloses cfg))
    | .print => update x.fd .parent ((x.fd .parent).close (parentEnds cfg))
    | _ => x.fd
  | .child c =>
    match (x.state.child c).pc with
    | .entry => update x.fd (.child c) ((x.fd (.child c)).close (childCloses cfg c))
    | .sendRow i =>
      if i ≤ cfg.hi c then x.fd else update x.fd (.child c) ((x.fd (.child c)).close (childEnds cfg c))
    | _ => x.fd

variable [LinearOrder V] (o : Ops V)

def next (p : Proc) (x : Machine V) : Option (Machine V) :=
  if Ready cfg x.state p then (step o cfg p x.state).map fun t => ⟨t,x.fdAfter cfg p⟩ else none

def initial : Machine V := ⟨Jacobi.initial o cfg,fun _ e => decide (made cfg e.1)⟩

def Reaches (schedule : List Proc) (x : Machine V) : Prop :=
  Run (fun x p y => next cfg o p x = some y) (initial cfg o) schedule x

end Machine
end JacobiXv6.Jacobi
