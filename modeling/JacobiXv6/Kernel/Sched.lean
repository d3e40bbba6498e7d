import JacobiXv6.Library.Run
import JacobiXv6.Kernel.Proc

/-! The scheduler and the life of processes on any number of CPUs. `ptable.lock` is taken by one
thread of control and given back by another: a process that takes it calls `sched`, which
switches to the scheduler of its CPU, and the scheduler gives the lock to the next process
it switches to. What is done between two such points with the lock held is one step; what
`fork` does without the lock is one step for each assignment. -/
namespace JacobiXv6.Kernel
open Library Function Option

/-- What a process can sleep on: the address of a process, or of anything else. -/
inductive Chan (n : ℕ)
  | proc (i : Fin n)
  | other (k : ℕ)
  deriving DecidableEq

/-- The part of `struct proc` that is about scheduling and the family of a process; of its
memory only whether it has a kernel stack and a page table. -/
structure Task (n : ℕ) where
  state : ProcState
  pid : BitVec 32
  parent : Option (Fin n)
  chan : Option (Chan n)
  killed : Bool
  kstack : Bool
  pgdir : Bool

/-- What a process is doing while it has no lock. `user` is user mode and every system call
that is not one of the others; `forking` and `waiting` are behind the test in `trap`, and the
other stages of `fork` are named after the assignment to come. -/
inductive Job (n : ℕ)
  | user
  | forking
  | forkKstack (np : Fin n)
  | forkCopy (np : Fin n)
  | forkParent (np : Fin n)
  | forkStart (np : Fin n)
  | waiting
  | exiting
  deriving DecidableEq

/-- Where a process goes on when the scheduler switches to it. -/
inductive Resume (n : ℕ)
  | forkret
  | yielded (j : Job n)
  | slept (j : Job n)
  | waitSlept
  | dead
  deriving DecidableEq

/-- The kernel thread of a process: it runs without the lock, it has the lock and is about to
call `swtch`, or its context is saved. -/
inductive Thread (n : ℕ)
  | run (j : Job n)
  | sched (r : Resume n)
  | saved (r : Resume n)
  deriving DecidableEq

/-- What a CPU executes: the scheduler without the lock, with the lock before slot `i`, behind
the `swtch` from process `i`, or the kernel thread of a process. -/
inductive Ctx (n : ℕ)
  | idle
  | scan (i : ℕ)
  | back (i : Fin n)
  | on (i : Fin n)
  deriving DecidableEq

/-- The process table and the CPUs; `proc` is `c->proc`. The last five fields are history: the
number of pids given out, the pids that `fork` returned, each slot that returned from `wait`
with the pid of a child, each that returned with -1, and the pids of killed processes. -/
structure Sched (κ : Type*) (n : ℕ) where
  task : Fin n → Task n
  th : Fin n → Thread n
  ctx : κ → Ctx n
  proc : κ → Option (Fin n)
  lock : Option κ
  nextpid : BitVec 32
  initproc : Fin n
  created : ℕ
  forked : List (BitVec 32)
  reaped : List (Fin n×BitVec 32)
  failed : List (Fin n)
  kills : List (BitVec 32)

/-- What a CPU does next. `scheduler` is the loop of the scheduler, `swtch` the end of `sched`,
`resume` the way on from there; `go` is the next step of the call under way, and tells
whether its allocation succeeds. -/
inductive SchedAct
  | scheduler
  | swtch
  | resume
  | yield
  | sleep (k : ℕ)
  | wakeup (k : ℕ)
  | kill (pid : BitVec 32)
  | fault
  | fork
  | wait
  | exit
  | go (ok : Bool)

section
variable {n : ℕ}

def wakeup1 (chan : Option (Chan n)) (task : Fin n → Task n) : Fin n → Task n := fun i =>
  if (task i).state = .sleeping ∧ (task i).chan = chan then { task i with state := .runnable }
  else task i

/-- One round of the loop of `exit` that passes the children to init. -/
def passToInit (cur init : Fin n) (task : Fin n → Task n) (p : Fin n) : Fin n → Task n :=
  if (task p).parent = some cur then
    if (task p).state = .zombie then
      wakeup1 (some (.proc init)) (update task p { task p with parent := some init })
    else update task p { task p with parent := some init }
  else task

/-- What `exit` does to the table. -/
def exitTasks (cur init : Fin n) (task : Fin n → Task n) : Fin n → Task n :=
  let passed := (List.finRange n).foldl (passToInit cur init)
    (wakeup1 ((task cur).parent.map .proc) task)
  update passed cur { passed cur with state := .zombie }

/-- What the wakeups in `exit` can do to a process: nothing, or wake it. -/
structure Nudged (t t' : Task n) : Prop where
  state : t'.state = t.state ∨ t.state = .sleeping ∧ t'.state = .runnable
  rest : t'.pid = t.pid ∧ t'.chan = t.chan ∧ t'.killed = t.killed ∧ t'.kstack = t.kstack ∧
    t'.pgdir = t.pgdir

namespace Nudged
variable {t t' t'' : Task n}

lemma refl (t : Task n) : Nudged t t := ⟨.inl rfl,rfl,rfl,rfl,rfl,rfl⟩

lemma trans (h : Nudged t t') (h' : Nudged t' t'') : Nudged t t'' := by
  obtain ⟨hs,hp,hc,hk,hm,hg⟩ := h
  obtain ⟨hs',hp',hc',hk',hm',hg'⟩ := h'
  refine ⟨?_,hp'.trans hp,hc'.trans hc,hk'.trans hk,hm'.trans hm,hg'.trans hg⟩
  rcases hs with hs | ⟨hs,hr⟩ <;> rcases hs' with hs' | ⟨hs',hr'⟩
  · exact .inl (hs'.trans hs)
  · exact .inr ⟨hs.symm.trans hs',hr'⟩
  · exact .inr ⟨hs,hs'.trans hr⟩
  · exact nomatch hr.symm.trans hs'

lemma state_eq (h : Nudged t t') (hs : t.state ≠ .sleeping) : t'.state = t.state := by
  rcases h.state with he | ⟨hsleep,-⟩
  · exact he
  · exact absurd hsleep hs

lemma awake (h : Nudged t t') (hs : t.state ≠ .sleeping) : t'.state ≠ .sleeping :=
  h.state_eq hs ▸ hs

end Nudged

lemma nudged_wakeup1 (chan : Option (Chan n)) (task : Fin n → Task n) (k : Fin n) :
    Nudged (task k) (wakeup1 chan task k) := by
  unfold wakeup1
  split_ifs with h
  · exact ⟨.inr ⟨h.1,rfl⟩,rfl,rfl,rfl,rfl,rfl⟩
  · exact .refl _

lemma wakeup1_parent (chan : Option (Chan n)) (task : Fin n → Task n) (k : Fin n) :
    (wakeup1 chan task k).parent = (task k).parent := by
  unfold wakeup1
  split_ifs
  exacts [rfl,rfl]

lemma wakeup1_awake {chan : Option (Chan n)} {task : Fin n → Task n} {k : Fin n}
    (hk : (task k).chan = chan) : (wakeup1 chan task k).state ≠ .sleeping := by
  unfold wakeup1
  split_ifs with h
  · exact nofun
  · exact fun hs => h ⟨hs,hk⟩

section
variable (cur init : Fin n) (task : Fin n → Task n) (p k : Fin n)

lemma nudged_update : Nudged (task k) (update task p { task p with parent := some init } k) := by
  obtain rfl | hne := eq_or_ne k p
  · rw [update_self]
    exact ⟨.inl rfl,rfl,rfl,rfl,rfl,rfl⟩
  · rw [update_of_ne hne]
    exact .refl _

lemma nudged_passToInit : Nudged (task k) (passToInit cur init task p k) := by
  unfold passToInit
  split_ifs
  · exact (nudged_update init task p k).trans (nudged_wakeup1 _ _ k)
  · exact nudged_update init task p k
  · exact .refl _

lemma passToInit_parent : (passToInit cur init task p k).parent =
    if k = p ∧ (task k).parent = some cur then some init else (task k).parent := by
  unfold passToInit
  obtain rfl | hne := eq_or_ne k p
  · split_ifs <;> simp_all [wakeup1_parent]
  · split_ifs <;> simp_all [wakeup1_parent]

end

/-- The children are passed to init, and if one of them is a zombie then init is woken. -/
structure Passed (cur init : Fin n) (l : List (Fin n)) (task task' : Fin n → Task n) : Prop where
  parent : ∀ k, (task' k).parent =
    if k ∈ l ∧ (task k).parent = some cur then some init else (task k).parent
  nudged : ∀ k, Nudged (task k) (task' k)
  woken : ∀ p ∈ l, (task p).parent = some cur → (task p).state = .zombie →
    ∀ k, (task k).chan = some (.proc init) → (task' k).state ≠ .sleeping

lemma passed_foldl (cur init : Fin n) (l : List (Fin n)) (task : Fin n → Task n) :
    Passed cur init l task (l.foldl (passToInit cur init) task) := by
  induction l generalizing task with
  | nil => exact ⟨fun k => by simp,fun k => .refl _,(by simp)⟩
  | cons q l ih =>
    rw [List.foldl_cons]
    obtain ⟨hparent,hnudged,hwoken⟩ := ih (passToInit cur init task q)
    refine ⟨?_,fun k => (nudged_passToInit cur init task q k).trans (hnudged k),?_⟩
    · intro k
      rw [hparent,passToInit_parent]
      simp only [List.mem_cons]
      by_cases hc : (task k).parent = some cur
      · obtain rfl | hq := eq_or_ne k q
        · simp [hc]
        · simp [hc,hq]
      · simp [hc]
    · intro p hp hcur hz k hk
      obtain rfl | hpq := eq_or_ne p q
      · -- the round for this child wakes init, and nothing puts it back to sleep
        apply (hnudged k).awake
        rw [passToInit,if_pos hcur,if_pos hz]
        apply wakeup1_awake
        rw [← hk]
        exact (nudged_update init task p k).rest.2.1
      · have hp' : p ∈ l := (List.mem_cons.mp hp).resolve_left hpq
        refine hwoken p hp' ?_ ?_ k ?_
        · rw [passToInit_parent,if_neg fun h => hpq h.1,hcur]
        · rw [(nudged_passToInit cur init task q p).state_eq (by rw [hz]; decide),hz]
        · rw [(nudged_passToInit cur init task q k).rest.2.1,hk]

lemma exitTasks_related {R : Task n → Task n → Prop} {cur : Fin n} {task : Fin n → Task n}
    (init : Fin n)
    (hnudged : ∀ t t', Nudged t t' → R t t')
    (hself : ∀ t, Nudged (task cur) t → R (task cur) { t with state := .zombie }) (k : Fin n) :
    R (task k) (exitTasks cur init task k) := by
  have hk := (nudged_wakeup1 ((task cur).parent.map .proc) task k).trans
    ((passed_foldl cur init (List.finRange n) _).nudged k)
  obtain rfl | hne := eq_or_ne k cur
  · simp only [exitTasks,update_self]
    exact hself _ hk
  · simp only [exitTasks,update_of_ne hne]
    exact hnudged _ _ hk

/-- The child that the loop of `wait` finds. -/
def zombieChild (cur : Fin n) (task : Fin n → Task n) : Option (Fin n) :=
  (List.finRange n).find? fun p => (task p).parent = some cur ∧ (task p).state = .zombie

def havekids (cur : Fin n) (task : Fin n → Task n) : Bool :=
  (List.finRange n).any fun p => (task p).parent = some cur

/-- What `wait` leaves of a child. -/
def Task.free (p : Task n) : Task n :=
  { p with
    kstack := false, pgdir := false, pid := 0, parent := none, killed := false, state := .unused }

/-- What `kill` does to the slot it finds. -/
def Task.kill (p : Task n) : Task n :=
  { p with killed := true, state := if p.state = .sleeping then .runnable else p.state }

end

namespace Sched
variable {κ : Type*} {n : ℕ}

def goto (s : Sched κ n) (i : Fin n) (x : Thread n) : Sched κ n :=
  { s with th := update s.th i x }

def put (s : Sched κ n) (i : Fin n) (p : Task n) : Sched κ n :=
  { s with task := update s.task i p }

lemma goto_self (s : Sched κ n) (i : Fin n) (x : Thread n) : (s.goto i x).th i = x :=
  update_self ..

variable {s : Sched κ n} {i : Fin n}

lemma goto_ne {k : Fin n} (x : Thread n) (hk : k ≠ i) : (s.goto i x).th k = s.th k :=
  update_of_ne hk _ _

lemma put_self (s : Sched κ n) (i : Fin n) (p : Task n) : (s.put i p).task i = p :=
  update_self ..

lemma put_ne {k : Fin n} (p : Task n) (hk : k ≠ i) : (s.put i p).task k = s.task k :=
  update_of_ne hk _ _

lemma put_related {R : Task n → Task n → Prop} {p : Fin n} {t : Task n} (hrefl : ∀ t, R t t)
    (h : R (s.task p) t) (k : Fin n) : R (s.task k) ((s.put p t).task k) := by
  obtain rfl | hne := eq_or_ne k p
  · rwa [put_self]
  · rw [put_ne _ hne]
    exact hrefl _

def setState (s : Sched κ n) (i : Fin n) (state : ProcState) : Sched κ n :=
  s.put i { s.task i with state := state }

/-- One round of the loop of `wait`, with the lock held; it gives it back unless the process
goes to sleep. -/
def waitRound (s : Sched κ n) (i : Fin n) : Sched κ n :=
  match zombieChild i s.task with
  | some p =>
    { (s.put p (s.task p).free).goto i (.run .user) with
      lock := none, reaped := s.reaped++[(i,(s.task p).pid)] }
  | none =>
    if havekids i s.task = false ∨ (s.task i).killed = true then
      { s.goto i (.run .user) with lock := none, failed := s.failed++[i] }
    else
      (s.put i { s.task i with chan := some (.proc i), state := .sleeping }).goto i (.sched .waitSlept)

/-- What one round of `wait` can do. -/
inductive Round (s : Sched κ n) (i : Fin n) : Sched κ n → Prop
  | reap (p : Fin n) (hparent : (s.task p).parent = some i) (hstate : (s.task p).state = .zombie) :
      Round s i { (s.put p (s.task p).free).goto i (.run .user) with
        lock := none, reaped := s.reaped++[(i,(s.task p).pid)] }
  | fail (hwhy : (∀ p, (s.task p).parent ≠ some i) ∨ (s.task i).killed = true) :
      Round s i { s.goto i (.run .user) with lock := none, failed := s.failed++[i] }
  | sleep (hnone : ∀ p, (s.task p).parent = some i → (s.task p).state ≠ .zombie) :
      Round s i ((s.put i { s.task i with chan := some (.proc i), state := .sleeping }).goto i
        (.sched .waitSlept))

lemma round_waitRound (s : Sched κ n) (i : Fin n) : Round s i (s.waitRound i) := by
  unfold waitRound
  split
  · rename_i p hp
    have hfound := List.find?_some hp
    rw [decide_eq_true_iff] at hfound
    exact .reap p hfound.1 hfound.2
  · rename_i hnone
    split_ifs with hwhy
    · refine .fail (hwhy.imp_left fun hkids p hp => ?_)
      simp only [havekids,List.any_eq_false,List.mem_finRange,true_implies] at hkids
      exact hkids p (by simpa using hp)
    · refine .sleep fun p hp hz => ?_
      simp only [zombieChild,List.find?_eq_none,List.mem_finRange,true_implies] at hnone
      exact hnone p (by simp [hp,hz])

/-- A process goes on behind `sched`, with the lock that the scheduler has taken. -/
def resume (s : Sched κ n) (i : Fin n) : Resume n → Option (Sched κ n)
  | .forkret => some { s.goto i (.run .user) with lock := none }
  | .yielded j => some { s.goto i (.run j) with lock := none }
  | .slept j => some { (s.put i { s.task i with chan := none }).goto i (.run j) with lock := none }
  | .waitSlept => some ((s.put i { s.task i with chan := none }).waitRound i)
  | .dead => none

variable [DecidableEq κ]

def enter (s : Sched κ n) (c : κ) (x : Ctx n) : Sched κ n := { s with ctx := update s.ctx c x }

def scheduler (s : Sched κ n) (c : κ) : Option (Sched κ n) :=
  match s.ctx c with
  | .idle => if s.lock = none then some { s.enter c (.scan 0) with lock := some c } else none
  | .scan i =>
    if h : i < n then
      if (s.task ⟨i,h⟩).state = .runnable then
        some { (s.setState ⟨i,h⟩ .running).enter c (.on ⟨i,h⟩) with
          proc := update s.proc c (some ⟨i,h⟩) }
      else some (s.enter c (.scan (i+1)))
    else some { s.enter c .idle with lock := none }
  | .back i => some { s.enter c (.scan (i+1)) with proc := update s.proc c none }
  | .on _ => none

/-- The next step of a call that has been entered. -/
def go (s : Sched κ n) (c : κ) (i : Fin n) (ok : Bool) : Job n → Option (Sched κ n)
  | .user => none
  | .forking =>
    if s.lock = none then
      match (List.finRange n).find? fun p => (s.task p).state = .unused with
      | some np => some { (s.put np { s.task np with state := .embryo, pid := s.nextpid }).goto i
          (.run (.forkKstack np)) with nextpid := s.nextpid+1, created := s.created+1 }
      | none => some (s.goto i (.run .user))
    else none
  | .forkKstack np =>
    if ok then some (((s.put np { s.task np with kstack := true }).goto np (.saved .forkret)).goto i
      (.run (.forkCopy np)))
    else some ((s.put np { s.task np with kstack := false, state := .unused }).goto i (.run .user))
  | .forkCopy np =>
    if ok then some ((s.put np { s.task np with pgdir := true }).goto i (.run (.forkParent np)))
    else some ((s.put np { s.task np with pgdir := false, kstack := false, state := .unused }).goto i
      (.run .user))
  | .forkParent np =>
    some ((s.put np { s.task np with parent := some i }).goto i (.run (.forkStart np)))
  | .forkStart np =>
    if s.lock = none then
      some { (s.setState np .runnable).goto i (.run .user) with
        forked := s.forked++[(s.task np).pid] }
    else none
  | .waiting => if s.lock = none then some ({ s with lock := some c }.waitRound i) else none
  | .exiting =>
    if s.lock = none then
      some { s.goto i (.sched .dead) with task := exitTasks i s.initproc s.task, lock := some c }
    else none

/-- What process `i` does on CPU `c` while it runs without the lock. -/
def perform (s : Sched κ n) (c : κ) (i : Fin n) (j : Job n) : SchedAct → Option (Sched κ n)
  | .yield =>
    if s.lock = none then
      some { (s.setState i .runnable).goto i (.sched (.yielded j)) with lock := some c }
    else none
  | .sleep k =>
    if s.lock = none then
      some { (s.put i { s.task i with chan := some (.other k), state := .sleeping }).goto i
        (.sched (.slept j)) with lock := some c }
    else none
  | .kill pid =>
    if s.lock = none ∧ j = .user then
      match (List.finRange n).find? fun p => (s.task p).pid = pid with
      | some p => some { s.put p (s.task p).kill with kills := s.kills++[pid] }
      | none => some s
    else none
  | .fault =>
    if j = .user then
      some { s.put i { s.task i with killed := true } with kills := s.kills++[(s.task i).pid] }
    else none
  | .fork => if j = .user ∧ (s.task i).killed = false then some (s.goto i (.run .forking)) else none
  | .wait => if j = .user ∧ (s.task i).killed = false then some (s.goto i (.run .waiting)) else none
  | .exit => if j = .user ∧ i ≠ s.initproc then some (s.goto i (.run .exiting)) else none
  | .go ok => s.go c i ok j
  | _ => none

/-- One step of CPU `c`. An interrupt can call `wakeup` whenever the lock is free. -/
def next (s : Sched κ n) (c : κ) : SchedAct → Option (Sched κ n)
  | .scheduler => s.scheduler c
  | .wakeup k => if s.lock = none then some { s with task := wakeup1 (some (.other k)) s.task }
    else none
  | .swtch =>
    match s.ctx c with
    | .on i =>
      match s.th i with
      | .sched r => some ((s.goto i (.saved r)).enter c (.back i))
      | _ => none
    | _ => none
  | .resume =>
    match s.ctx c with
    | .on i =>
      match s.th i with
      | .saved r => s.resume i r
      | _ => none
    | _ => none
  | a =>
    match s.ctx c with
    | .on i =>
      match s.th i with
      | .run j => s.perform c i j a
      | _ => none
    | _ => none

def Step (s : Sched κ n) (a : κ×SchedAct) (s' : Sched κ n) : Prop := s.next a.1 a.2 = some s'

/-- After `userinit`, when the CPUs enter the scheduler. -/
def boot (init : Fin n) : Sched κ n where
  task := fun i =>
    if i = init then ⟨.runnable,1,none,none,false,true,true⟩
    else ⟨.unused,0,none,none,false,false,false⟩
  th := fun i => if i = init then .saved .forkret else .saved .dead
  ctx := fun _ => .idle
  proc := fun _ => none
  lock := none
  nextpid := 2
  initproc := init
  created := 1
  forked := []
  reaped := []
  failed := []
  kills := []

/-! ### What a step can do -/

/-- What one step of a CPU can do, with the guards that it has passed. A round of `wait` starts
from the state `b`, in which the process has the lock and no channel. -/
inductive Moves (s : Sched κ n) (c : κ) : SchedAct → Sched κ n → Prop
  | acquire (hctx : s.ctx c = .idle) (hlock : s.lock = none) :
      Moves s c .scheduler { s.enter c (.scan 0) with lock := some c }
  | skip (i : ℕ) (hctx : s.ctx c = .scan i) : Moves s c .scheduler (s.enter c (.scan (i+1)))
  | dispatch (i : Fin n) (hctx : s.ctx c = .scan i) (hstate : (s.task i).state = .runnable) :
      Moves s c .scheduler { (s.setState i .running).enter c (.on i) with
        proc := update s.proc c (some i) }
  | release (i : ℕ) (hctx : s.ctx c = .scan i) :
      Moves s c .scheduler { s.enter c .idle with lock := none }
  | back (i : Fin n) (hctx : s.ctx c = .back i) :
      Moves s c .scheduler { s.enter c (.scan (i+1)) with proc := update s.proc c none }
  | wakeup (k : ℕ) (hlock : s.lock = none) :
      Moves s c (.wakeup k) { s with task := wakeup1 (some (.other k)) s.task }
  | swtch (i : Fin n) (r : Resume n) (hctx : s.ctx c = .on i) (hth : s.th i = .sched r) :
      Moves s c .swtch ((s.goto i (.saved r)).enter c (.back i))
  | proceed (i : Fin n) (r : Resume n) (j : Job n) (hctx : s.ctx c = .on i) (hth : s.th i = .saved r)
      (hr : r = .forkret ∧ j = .user ∨ r = .yielded j) :
      Moves s c .resume { s.goto i (.run j) with lock := none }
  | wake (i : Fin n) (j : Job n) (hctx : s.ctx c = .on i) (hth : s.th i = .saved (.slept j)) :
      Moves s c .resume
        { (s.put i { s.task i with chan := none }).goto i (.run j) with lock := none }
  | again (i : Fin n) (s' : Sched κ n) (hctx : s.ctx c = .on i) (hth : s.th i = .saved .waitSlept)
      (hround : Round (s.put i { s.task i with chan := none }) i s') : Moves s c .resume s'
  | yield (i : Fin n) (j : Job n) (hctx : s.ctx c = .on i) (hth : s.th i = .run j)
      (hlock : s.lock = none) :
      Moves s c .yield { (s.setState i .runnable).goto i (.sched (.yielded j)) with lock := some c }
  | sleep (k : ℕ) (i : Fin n) (j : Job n) (hctx : s.ctx c = .on i) (hth : s.th i = .run j)
      (hlock : s.lock = none) :
      Moves s c (.sleep k) { (s.put i { s.task i with
        chan := some (.other k), state := .sleeping }).goto i (.sched (.slept j)) with
          lock := some c }
  | kill (p : Fin n) (hlock : s.lock = none) :
      Moves s c (.kill (s.task p).pid) { s.put p (s.task p).kill with
        kills := s.kills++[(s.task p).pid] }
  | noKill (pid : BitVec 32) : Moves s c (.kill pid) s
  | fault (i : Fin n) (hctx : s.ctx c = .on i) (hth : s.th i = .run .user) :
      Moves s c .fault { s.put i { s.task i with killed := true } with
        kills := s.kills++[(s.task i).pid] }
  | fork (i : Fin n) (hctx : s.ctx c = .on i) (hth : s.th i = .run .user) :
      Moves s c .fork (s.goto i (.run .forking))
  | wait (i : Fin n) (hctx : s.ctx c = .on i) (hth : s.th i = .run .user)
      (hkilled : (s.task i).killed = false) : Moves s c .wait (s.goto i (.run .waiting))
  | exit (i : Fin n) (hctx : s.ctx c = .on i) (hth : s.th i = .run .user) (hinit : i ≠ s.initproc) :
      Moves s c .exit (s.goto i (.run .exiting))
  | alloc (ok : Bool) (i np : Fin n) (hctx : s.ctx c = .on i) (hth : s.th i = .run .forking)
      (hlock : s.lock = none) (hstate : (s.task np).state = .unused) :
      Moves s c (.go ok) { (s.put np { s.task np with state := .embryo, pid := s.nextpid }).goto i
        (.run (.forkKstack np)) with nextpid := s.nextpid+1, created := s.created+1 }
  | full (ok : Bool) (i : Fin n) (hctx : s.ctx c = .on i) (hth : s.th i = .run .forking) :
      Moves s c (.go ok) (s.goto i (.run .user))
  | kstack (i np : Fin n) (hctx : s.ctx c = .on i) (hth : s.th i = .run (.forkKstack np)) :
      Moves s c (.go true) (((s.put np { s.task np with kstack := true }).goto np
        (.saved .forkret)).goto i (.run (.forkCopy np)))
  | noKstack (i np : Fin n) (hctx : s.ctx c = .on i) (hth : s.th i = .run (.forkKstack np)) :
      Moves s c (.go false) ((s.put np { s.task np with kstack := false, state := .unused }).goto i
        (.run .user))
  | copy (i np : Fin n) (hctx : s.ctx c = .on i) (hth : s.th i = .run (.forkCopy np)) :
      Moves s c (.go true) ((s.put np { s.task np with pgdir := true }).goto i
        (.run (.forkParent np)))
  | noCopy (i np : Fin n) (hctx : s.ctx c = .on i) (hth : s.th i = .run (.forkCopy np)) :
      Moves s c (.go false) ((s.put np { s.task np with
        pgdir := false, kstack := false, state := .unused }).goto i (.run .user))
  | parent (ok : Bool) (i np : Fin n) (hctx : s.ctx c = .on i) (hth : s.th i = .run (.forkParent np)) :
      Moves s c (.go ok) ((s.put np { s.task np with parent := some i }).goto i
        (.run (.forkStart np)))
  | start (ok : Bool) (i np : Fin n) (hctx : s.ctx c = .on i) (hth : s.th i = .run (.forkStart np))
      (hlock : s.lock = none) :
      Moves s c (.go ok) { (s.setState np .runnable).goto i (.run .user) with
        forked := s.forked++[(s.task np).pid] }
  | first (ok : Bool) (i : Fin n) (s' : Sched κ n) (hctx : s.ctx c = .on i)
      (hth : s.th i = .run .waiting) (hlock : s.lock = none)
      (hround : Round { s with lock := some c } i s') : Moves s c (.go ok) s'
  | exited (ok : Bool) (i : Fin n) (hctx : s.ctx c = .on i) (hth : s.th i = .run .exiting)
      (hlock : s.lock = none) :
      Moves s c (.go ok) { s.goto i (.sched .dead) with
        task := exitTasks i s.initproc s.task, lock := some c }

variable {s' : Sched κ n} {c : κ}

lemma moves_of_scheduler (h : s.scheduler c = some s') :
    Moves s c .scheduler s' := by
  unfold scheduler at h
  split at h
  · rename_i hctx
    obtain ⟨hlock,⟨⟩⟩ := ite_none_right_eq_some.mp h
    exact .acquire hctx hlock
  · rename_i i hctx
    split_ifs at h with hi hrun
    · cases h
      exact .dispatch ⟨i,hi⟩ hctx hrun
    · cases h
      exact .skip i hctx
    · cases h
      exact .release i hctx
  · rename_i i hctx
    cases h
    exact .back i hctx
  · exact nomatch h

lemma moves_of_resume {r : Resume n} (hctx : s.ctx c = .on i)
    (hth : s.th i = .saved r) (h : s.resume i r = some s') : Moves s c .resume s' := by
  cases r with
  | forkret =>
    cases h
    exact .proceed i _ _ hctx hth (.inl ⟨rfl,rfl⟩)
  | yielded j =>
    cases h
    exact .proceed i _ _ hctx hth (.inr rfl)
  | slept j =>
    cases h
    exact .wake i j hctx hth
  | waitSlept =>
    cases h
    exact .again i _ hctx hth (round_waitRound _ i)
  | dead => exact nomatch h

lemma moves_of_go {j : Job n} {ok : Bool}
    (hctx : s.ctx c = .on i) (hth : s.th i = .run j) (h : s.go c i ok j = some s') :
    Moves s c (.go ok) s' := by
  cases j with
  | user => exact nomatch h
  | forking =>
    obtain ⟨hlock,h⟩ := ite_none_right_eq_some.mp h
    split at h
    · rename_i np hnp
      cases h
      have hstate := List.find?_some hnp
      rw [decide_eq_true_iff] at hstate
      exact .alloc ok i np hctx hth hlock hstate
    · cases h
      exact .full ok i hctx hth
  | forkKstack np =>
    cases ok with
    | true =>
      cases h
      exact .kstack i np hctx hth
    | false =>
      cases h
      exact .noKstack i np hctx hth
  | forkCopy np =>
    cases ok with
    | true =>
      cases h
      exact .copy i np hctx hth
    | false =>
      cases h
      exact .noCopy i np hctx hth
  | forkParent np =>
    cases h
    exact .parent ok i np hctx hth
  | forkStart np =>
    obtain ⟨hlock,⟨⟩⟩ := ite_none_right_eq_some.mp h
    exact .start ok i np hctx hth hlock
  | waiting =>
    obtain ⟨hlock,⟨⟩⟩ := ite_none_right_eq_some.mp h
    exact .first ok i _ hctx hth hlock (round_waitRound _ i)
  | exiting =>
    obtain ⟨hlock,⟨⟩⟩ := ite_none_right_eq_some.mp h
    exact .exited ok i hctx hth hlock

lemma moves_of_perform {j : Job n} {a : SchedAct}
    (hctx : s.ctx c = .on i) (hth : s.th i = .run j) (h : s.perform c i j a = some s') :
    Moves s c a s' := by
  cases a with
  | scheduler | swtch | resume | wakeup => exact nomatch h
  | yield =>
    obtain ⟨hlock,⟨⟩⟩ := ite_none_right_eq_some.mp h
    exact .yield i j hctx hth hlock
  | sleep k =>
    obtain ⟨hlock,⟨⟩⟩ := ite_none_right_eq_some.mp h
    exact .sleep k i j hctx hth hlock
  | kill pid =>
    obtain ⟨⟨hlock,-⟩,hfind⟩ := ite_none_right_eq_some.mp h
    split at hfind
    · rename_i p hp
      have hpid := List.find?_some hp
      rw [decide_eq_true_iff] at hpid
      obtain rfl := hpid
      cases hfind
      exact .kill p hlock
    · cases hfind
      exact .noKill pid
  | fault =>
    obtain ⟨rfl,⟨⟩⟩ := ite_none_right_eq_some.mp h
    exact .fault i hctx hth
  | fork =>
    obtain ⟨⟨rfl,-⟩,⟨⟩⟩ := ite_none_right_eq_some.mp h
    exact .fork i hctx hth
  | wait =>
    obtain ⟨⟨rfl,hkilled⟩,⟨⟩⟩ := ite_none_right_eq_some.mp h
    exact .wait i hctx hth hkilled
  | exit =>
    obtain ⟨⟨rfl,hinit⟩,⟨⟩⟩ := ite_none_right_eq_some.mp h
    exact .exit i hctx hth hinit
  | go ok => exact moves_of_go hctx hth h

lemma moves_of_next {a : SchedAct} (h : s.next c a = some s') :
    Moves s c a s' := by
  have hperform : ∀ (hn : s.next c a = match s.ctx c with
      | .on i => match s.th i with
        | .run j => s.perform c i j a
        | _ => none
      | _ => none), Moves s c a s' := by
    intro hn
    rw [hn] at h
    split at h
    · rename_i i hctx
      split at h
      · rename_i j hth
        exact moves_of_perform hctx hth h
      · exact nomatch h
    · exact nomatch h
  cases a with
  | scheduler => exact moves_of_scheduler h
  | wakeup k =>
    obtain ⟨hlock,⟨⟩⟩ := ite_none_right_eq_some.mp h
    exact .wakeup k hlock
  | swtch =>
    simp only [next] at h
    split at h
    · rename_i i hctx
      split at h
      · rename_i r hth
        cases h
        exact .swtch i r hctx hth
      · exact nomatch h
    · exact nomatch h
  | resume =>
    simp only [next] at h
    split at h
    · rename_i i hctx
      split at h
      · rename_i r hth
        exact moves_of_resume hctx hth h
      · exact nomatch h
    · exact nomatch h
  | _ => exact hperform rfl

end Sched
end JacobiXv6.Kernel
