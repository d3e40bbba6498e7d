import JacobiXv6.Library.Run
import JacobiXv6.Jacobi.Grid
import JacobiXv6.Jacobi.Partition

/-! The processes of `jacob.c` after the partition: the parent forks the children,
collects their differences, answers each with an order and at the end gathers the
rows; the children exchange ghost rows and sweep. A pipe is a queue of whole
messages: a write appends one, a read blocks until there is one. Memory is private
to a process, so the loops between two pipe operations are single steps. -/
namespace JacobiXv6.Jacobi
open Library Function

/-- The two versions of the program; only `jacob.c` has the line about the memory trap. -/
inductive Program
  | jacob
  | jacoblinux
  deriving DecidableEq

/-- The input file, and what the arrays `u` and `w` hold before they are filled. -/
structure Config (V : Type*) where
  program : Program
  N : ℕ
  E : V
  T : V
  P : ℕ
  L : ℤ
  u : Grid V
  w : Grid V

/-- The four families of pipes. -/
inductive Pipe
  | pc (i : ℕ)
  | cp (i : ℕ)
  | ccUp (i : ℕ)
  | ccDown (i : ℕ)
  deriving DecidableEq

inductive Msg (V : Type*)
  | order (o : ℤ)
  | diff (d : V)
  | row (r : Row V)

inductive ChildPc
  | unborn
  | entry
  | sendUp
  | sendDown
  | recvAbove
  | recvBelow
  | compute
  | sendDiff
  | recvOrder
  | sendRow (i : ℕ)
  | exited
  deriving DecidableEq

/-- A child. The program does not count its sweeps, `sweeps` does. -/
structure Child (V : Type*) where
  pc : ChildPc
  u : Grid V
  w : Grid V
  diff : V
  sweeps : ℕ

inductive ParentPc
  | fork (i : ℕ)
  | recvDiff (i : ℕ)
  | decide
  | sendCarryon (i : ℕ)
  | sendDone (i : ℕ)
  | recvRow (i j : ℕ)
  | print
  | wait (i : ℕ)
  | exited
  deriving DecidableEq

structure Parent (V : Type*) where
  pc : ParentPc
  u : Grid V
  w : Grid V
  recvDiff : ℕ → V
  count : ℕ
  out : Option (List (List V))

structure State (V : Type*) where
  parent : Parent V
  child : ℕ → Child V
  pipe : Pipe → List (Msg V)

variable {V : Type*}

namespace Config
variable (cfg : Config V)

/-- `if(P==8 && N==20) P-=1` -/
def processes : ℕ :=
  match cfg.program with
  | .jacob => if cfg.P = 8 ∧ cfg.N = 20 then cfg.P-1 else cfg.P
  | .jacoblinux => cfg.P

/-- The number of children after `P -= unused`. -/
def children : ℕ := procs cfg.N cfg.processes
def lo (i : ℕ) : ℕ := startIndex cfg.N cfg.processes i
def hi (i : ℕ) : ℕ := endIndex cfg.N cfg.processes i
def grid (o : Ops V) : Grid V := initGrid o cfg.N cfg.T cfg.u

end Config

namespace State

def setChild (s : State V) (c : ℕ) (ch : Child V) : State V :=
  { s with child := update s.child c ch }

def setParent (s : State V) (p : Parent V) : State V := { s with parent := p }

def setPipe (s : State V) (p : Pipe) (ms : List (Msg V)) : State V :=
  { s with pipe := update s.pipe p ms }

def write (s : State V) (p : Pipe) (m : Msg V) : State V := s.setPipe p (s.pipe p++[m])

end State

section Step
variable [LinearOrder V] (o : Ops V) (cfg : Config V)

/-- The next step of child `c`, unless it is blocked, not yet forked or gone. -/
def stepChild (c : ℕ) (s : State V) : Option (State V) :=
  let me := s.child c
  match me.pc with
  | .unborn => none
  | .entry => some (s.setChild c
      { me with pc := if cfg.hi c < cfg.lo c then .exited else .sendUp, diff := o.zero })
  | .sendUp =>
    let t := s.setChild c { me with pc := .sendDown }
    some (if 0 < c then t.write (.ccUp (c-1)) (.row (me.u (cfg.lo c))) else t)
  | .sendDown =>
    let t := s.setChild c { me with pc := .recvAbove }
    some (if c+1 < cfg.children then t.write (.ccDown c) (.row (me.u (cfg.hi c))) else t)
  | .recvAbove =>
    if 0 < c then
      match s.pipe (.ccDown (c-1)) with
      | .row r::rest => some ((s.setPipe (.ccDown (c-1)) rest).setChild c
          { me with pc := .recvBelow, u := setRow me.u (cfg.lo c-1) r })
      | _ => none
    else some (s.setChild c { me with pc := .recvBelow })
  | .recvBelow =>
    if c+1 < cfg.children then
      match s.pipe (.ccUp c) with
      | .row r::rest => some ((s.setPipe (.ccUp c) rest).setChild c
          { me with pc := .compute, u := setRow me.u (cfg.hi c+1) r })
      | _ => none
    else some (s.setChild c { me with pc := .compute })
  | .compute =>
    let (w,diff) := sweep o cfg.N (cfg.lo c) (cfg.hi c) me.u me.w me.diff
    some (s.setChild c
      { pc := .sendDiff, u := copyBack cfg.N (cfg.lo c) (cfg.hi c) w me.u, w := w,
        diff := diff, sweeps := me.sweeps+1 })
  | .sendDiff => some ((s.setChild c { me with pc := .recvOrder }).write (.cp c) (.diff me.diff))
  | .recvOrder =>
    match s.pipe (.pc c) with
    | .order order::rest => some ((s.setPipe (.pc c) rest).setChild c
        (if order = 1 then { me with pc := .sendRow (cfg.lo c) }
         else { me with pc := .sendUp, diff := o.zero }))
    | _ => none
  | .sendRow i =>
    some (if i ≤ cfg.hi c then
      (s.setChild c { me with pc := .sendRow (i+1) }).write (.cp c) (.row (me.u i))
    else s.setChild c { me with pc := .exited })
  | .exited => none

/-- `max_dif` of one round. -/
def maxDif (recv : ℕ → V) : V :=
  (List.range cfg.children).foldl (fun d i => keepMax d (recv i)) o.zero

/-- The children `wait` can still find after `n` of them have been reaped. -/
def exitedChildren (s : State V) : ℕ :=
  (List.range cfg.children).countP fun c => (s.child c).pc = .exited

/-- The next step of the parent, unless it is blocked or gone. -/
def stepParent (s : State V) : Option (State V) :=
  let me := s.parent
  match me.pc with
  | .fork i =>
    some (if i < cfg.children then
      (s.setParent { me with pc := .fork (i+1) }).setChild i
        { pc := .entry, u := me.u, w := me.w, diff := o.zero, sweeps := 0 }
    else s.setParent { me with pc := .recvDiff 0, count := 0 })
  | .recvDiff i =>
    if i < cfg.children then
      match s.pipe (.cp i) with
      | .diff d::rest => some ((s.setPipe (.cp i) rest).setParent
          { me with pc := .recvDiff (i+1), recvDiff := update me.recvDiff i d })
      | _ => none
    else some (s.setParent { me with pc := .decide })
  | .decide =>
    let count := me.count+1
    some (s.setParent
      { me with
        count := count
        pc := if maxDif o cfg me.recvDiff ≤ cfg.E ∨ cfg.L < (count : ℕ)
          then .sendDone 0 else .sendCarryon 0 })
  | .sendCarryon i =>
    some (if i < cfg.children then
      (s.setParent { me with pc := .sendCarryon (i+1) }).write (.pc i) (.order 0)
    else s.setParent { me with pc := .recvDiff 0 })
  | .sendDone i =>
    some (if i < cfg.children then
      (s.setParent { me with pc := .sendDone (i+1) }).write (.pc i) (.order 1)
    else s.setParent { me with pc := .recvRow 0 (cfg.lo 0) })
  | .recvRow i j =>
    if i < cfg.children then
      if j ≤ cfg.hi i then
        match s.pipe (.cp i) with
        | .row r::rest => some ((s.setPipe (.cp i) rest).setParent
            { me with pc := .recvRow i (j+1), u := setRow me.u j r })
        | _ => none
      else some (s.setParent { me with pc := .recvRow (i+1) (cfg.lo (i+1)) })
    else some (s.setParent { me with pc := .print })
  | .print => some (s.setParent { me with pc := .wait 0, out := some (printGrid cfg.N me.u) })
  | .wait i =>
    if i < cfg.children then
      if i < exitedChildren cfg s then some (s.setParent { me with pc := .wait (i+1) }) else none
    else some (s.setParent { me with pc := .exited })
  | .exited => none

/-- Who takes a step. -/
inductive Proc
  | parent
  | child (c : ℕ)
  deriving DecidableEq

def step : Proc → State V → Option (State V)
  | .parent, s => stepParent o cfg s
  | .child c, s => stepChild o cfg c s

/-- All pipes are made and empty, the grid is filled and nothing is forked yet. -/
def initial : State V where
  parent :=
    { pc := .fork 0, u := cfg.grid o, w := cfg.w, recvDiff := fun _ => o.zero, count := 0,
      out := none }
  child := fun _ => { pc := .unborn, u := cfg.u, w := cfg.w, diff := o.zero, sweeps := 0 }
  pipe := fun _ => []

/-- `s` is reached by letting the processes step in the order of the schedule. -/
def Reaches (schedule : List Proc) (s : State V) : Prop :=
  Run (fun s p t => step o cfg p s = some t) (initial o cfg) schedule s

end Step
end JacobiXv6.Jacobi
