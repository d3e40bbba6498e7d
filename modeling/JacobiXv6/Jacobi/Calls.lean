import JacobiXv6.Jacobi.Deadlock
import JacobiXv6.Kernel.ExecArgs
import JacobiXv6.Kernel.Supply

/-! `main` of `jacob.c` from its first `pipe` on, with calls that fail. A `pipe` that fails leaves
its pair of descriptors as it was, and `main` prints a message and goes on; so it does, without a
message, when a `fork` fails. What a pair holds that was never filled is taken to be no open
descriptor. A read or write that fails changes no variable; nobody looks at what it returns. The
kernel is followed where `main` asks it for pipes and processes; between these calls other processes
may do to it what they like, except to the descriptors of `main`. -/
namespace JacobiXv6.Jacobi
open Library Kernel Function Option

/-- The order in which `main` makes its pipes. -/
def pipes (P : ℕ) : List Pipe :=
  (List.range P).flatMap (fun i => [.pc i,.cp i])++(List.range (P-1)).flatMap fun i =>
    [.ccUp i,.ccDown i]

def Fds.fill (f : Fds) (q : Pipe) : Fds := update (update f (q,.read) true) (q,.write) true

lemma Fds.fill_apply (f : Fds) (q r : Pipe) (e : End) :
    f.fill q (r,e) = if r = q then true else f (r,e) := by
  rw [Fds.fill]
  split_ifs with h
  · cases e <;> simp [h]
  · rw [update_of_ne (by simp [h]),update_of_ne (by simp [h])]

/-- The program and the kernel it runs on. `left` are the pipes that are not yet asked for, `filled`
the pairs that `pipe` has filled and `order` the variable of that name of each child. The last two
tell whether a call has failed and whether a process has read or written through a pair that is not
filled. -/
structure Execution (V : Type*) (n d m : ℕ) where
  kernel : Sys n d m
  left : List Pipe
  filled : Pipe → Bool
  machine : Jacobi.Machine V
  order : ℕ → ℤ
  failed : Bool
  strayed : Bool

/-- Somebody else changes the kernel, or a process takes a step. -/
inductive Event (n d m : ℕ)
  | others (kernel : Sys n d m)
  | proc (p : Proc)

namespace Execution
variable {V : Type*} {n d m : ℕ}

/-- Child `c` goes on without the data. -/
def skipChild (o : Ops V) (cfg : Config V) (c : ℕ) (x : Execution V n d m) : Child V :=
  let me := x.machine.state.child c
  match me.pc with
  | .sendUp => { me with pc := .sendDown }
  | .sendDown => { me with pc := .recvAbove }
  | .recvAbove => { me with pc := .recvBelow }
  | .recvBelow => { me with pc := .compute }
  | .sendDiff => { me with pc := .recvOrder }
  | .recvOrder =>
    if x.order c = 1 then { me with pc := .sendRow (cfg.lo c) }
      else { me with pc := .sendUp, diff := o.zero }
  | .sendRow i => { me with pc := .sendRow (i+1) }
  | _ => me

def skipParent (me : Parent V) : Parent V :=
  match me.pc with
  | .recvDiff i => { me with pc := .recvDiff (i+1) }
  | .sendCarryon i => { me with pc := .sendCarryon (i+1) }
  | .sendDone i => { me with pc := .sendDone (i+1) }
  | .recvRow i j => { me with pc := .recvRow i (j+1) }
  | _ => me

def setState (x : Execution V n d m) (s : State V) : Execution V n d m :=
  { x with machine := { x.machine with state := s } }

def skip (o : Ops V) (cfg : Config V) (x : Execution V n d m) : Proc → Execution V n d m
  | .parent => x.setState (x.machine.state.setParent (skipParent x.machine.state.parent))
  | .child c => x.setState (x.machine.state.setChild c (x.skipChild o cfg c))

/-- What a child that reads an order then has in its variable. -/
def orderAfter (x : Execution V n d m) : Proc → ℕ → ℤ
  | .parent => x.order
  | .child c =>
    match (x.machine.state.child c).pc, x.machine.state.pipe (.pc c) with
    | .recvOrder, .order v::_ => update x.order c v
    | _, _ => x.order

def Holds (cfg : Config V) (x : Execution V n d m) (e : Pipe×End) : Prop :=
  x.machine.state.parent.pc ≠ .exited ∧ x.machine.fd .parent e = true ∨
    ∃ c < cfg.children, (x.machine.state.child c).pc ≠ .unborn ∧
      (x.machine.state.child c).pc ≠ .exited ∧
      x.machine.fd (.child c) e = true

instance (cfg : Config V) (x : Execution V n d m) (e : Pipe×End) : Decidable (x.Holds cfg e) := by
  unfold Holds
  infer_instance

variable [LinearOrder V] (o : Ops V) (cfg : Config V) (K : KernelMap) (slot : Fin n)

/-- A step of the process for which all goes well. -/
def advance (p : Proc) (x : Execution V n d m) : Option (Execution V n d m) :=
  (step o cfg p x.machine.state).map fun t =>
    { x with machine := ⟨t,x.machine.fdAfter cfg p⟩, order := x.orderAfter p }

/-- A step after the forks. A read waits for data as long as there is a writer. -/
def operate (p : Proc) (x : Execution V n d m) : Option (Execution V n d m) :=
  match operation cfg x.machine.state p with
  | none => x.advance o cfg p
  | some op =>
    if x.machine.fd p op.fd = false then
      some { x.skip o cfg p with strayed := x.strayed || !x.filled op.fd.1 }
    else
      match op with
      | .read q =>
        if x.machine.state.pipe q = [] then
          if x.Holds cfg (q,.write) then none else some (x.skip o cfg p)
        else x.advance o cfg p
      | .write q _ => if x.Holds cfg (q,.read) then x.advance o cfg p else some (x.skip o cfg p)

/-- `if(pipe(q)<0) printf(1, "Error creating pipe\n")` -/
def pipeCall (q : Pipe) (rest : List Pipe) (x : Execution V n d m) : Option (Execution V n d m) :=
  match Sys.sysPipe slot true x.kernel with
  | .error _ => none
  | .ok (true,k) => some { x with
      kernel := k
      left := rest
      filled := update x.filled q true
      machine := { x.machine with fd := update x.machine.fd .parent ((x.machine.fd .parent).fill q) } }
  | .ok (false,k) => some { x with kernel := k, left := rest, failed := true }

/-- `c_ids[i]=fork()` in the parent. -/
def forkCall (i : ℕ) (x : Execution V n d m) : Option (Execution V n d m) :=
  match Sys.fork K slot x.kernel with
  | .error _ => none
  | .ok (true,k) => (x.advance o cfg .parent).map fun y => { y with kernel := k }
  | .ok (false,k) => some { x.setState (x.machine.state.setParent
      { x.machine.state.parent with pc := .fork (i+1) }) with kernel := k, failed := true }

def next : Event n d m → Execution V n d m → Option (Execution V n d m)
  | .others k, x => if k.ofile slot = x.kernel.ofile slot then some { x with kernel := k } else none
  | .proc .parent, x =>
    match x.left with
    | q::rest => x.pipeCall slot q rest
    | [] =>
      match x.machine.state.parent.pc with
      | .fork i => if i < cfg.children then x.forkCall o cfg K slot i else x.operate o cfg .parent
      | _ => x.operate o cfg .parent
  | .proc (.child c), x => x.operate o cfg (.child c)

/-- Before the first `pipe`. The variables `order` and `recv_diff` are not initialised. -/
def start (kernel : Sys n d m) (order : ℕ → ℤ) (recvDiff : ℕ → V) : Execution V n d m where
  kernel := kernel
  left := pipes cfg.processes
  filled := fun _ => false
  machine :=
    { state := (initial o cfg).setParent { (initial o cfg).parent with recvDiff := recvDiff }
      fd := fun _ _ => false }
  order := order
  failed := false
  strayed := false

/-- There is what the call needs that is next in the parent; the `fork` of the last child is free to
fail. -/
def Supplied (x : Execution V n d m) : Event n d m → Prop
  | .proc .parent =>
    match x.left, x.machine.state.parent.pc with
    | _::_, _ => 2 ≤ x.kernel.freeFiles ∧ x.kernel.free ≠ []
    | [], .fork i => i+1 < cfg.children → x.kernel.CanFork slot
    | _, _ => True
  | _ => True

def Step (x : Execution V n d m) (e : Event n d m) (y : Execution V n d m) : Prop :=
  x.next o cfg K slot e = some y

def SuppliedStep (x : Execution V n d m) (e : Event n d m) (y : Execution V n d m) : Prop :=
  x.Supplied cfg slot e ∧ x.next o cfg K slot e = some y

end Execution

lemma length_pipes {P : ℕ} (hP : 1 ≤ P) : (pipes P).length = 4*P-2 := by
  simp [pipes]
  omega

section
variable {V : Type*} {cfg : Config V} {s : State V} {op : Operation V}

lemma mem_pipes {q : Pipe} (h : made cfg q) : q ∈ pipes cfg.processes := by
  cases q with
  | pc i | cp i => simpa [pipes,made] using h
  | ccUp i | ccDown i => simpa [pipes,made,Nat.lt_sub_iff_add_lt] using h

/-- Of the pipes to the parent a child uses its own. -/
lemma childOperation_fd {c : ℕ} (h : childOperation cfg c s = some op) :
    (s.child c).pc ≠ .unborn ∧ ∀ i, op.fd.1 = .cp i → i = c := by
  unfold childOperation at h
  cases hpc : (s.child c).pc <;> simp only [hpc] at h
  case sendUp | sendDown | recvAbove | recvBelow | sendRow =>
    obtain ⟨-,⟨⟩⟩ := ite_none_right_eq_some.mp h
    simp [Operation.fd]
  case sendDiff | recvOrder =>
    cases h
    simp [Operation.fd]
  all_goals cases h

lemma parentOperation_fd (h : parentOperation cfg s = some op) :
    (∀ i m, op ≠ .write (.cp i) m) ∧ ∀ i, (Execution.skipParent s.parent).pc ≠ .fork i := by
  unfold parentOperation at h
  unfold Execution.skipParent
  cases hpc : s.parent.pc <;> simp only [hpc] at h
  case recvDiff | sendCarryon | sendDone | recvRow =>
    obtain ⟨-,⟨⟩⟩ := ite_none_right_eq_some.mp h
    simp
  all_goals exact nomatch h

lemma ParentPc.Goes.ne_fork {p q : ParentPc} (h : p.Goes cfg q) (i : ℕ) : q ≠ .fork i := by
  cases h <;> simp

lemma Operation.apply_of_ne {pipe : Pipe → List (Msg V)} {q : Pipe} (h : op.fd.1 ≠ q) :
    op.apply pipe q = pipe q := by
  cases op with
  | read r | write r m => exact update_of_ne (Ne.symm h) _ _

end

namespace Execution
variable {V : Type*} {n d m : ℕ} [LinearOrder V] {o : Ops V} {cfg : Config V} {K : KernelMap}
  {slot : Fin n}
  {x y : Execution V n d m}

/-- All goes well, except that the last child may be missing; then the parent waits for it for ever,
because it has the pipe open at both ends. -/
structure Inv (cfg : Config V) (slot : Fin n) (x : Execution V n d m) : Prop where
  unstrayed : x.strayed = false
  room : 2*x.left.length ≤ x.kernel.freeFds slot
  made : ∀ q, made cfg q → q ∈ x.left ∨ x.filled q = true
  making : x.left ≠ [] → x.machine.state.parent.pc = .fork 0
  born : ∀ c, (x.machine.state.child c).pc ≠ .unborn → c < cfg.children
  forking : ∀ i, x.machine.state.parent.pc = .fork i → x.machine.state.parent.out = none ∧
    i ≤ cfg.children ∧
    ∀ c, i ≤ c → (x.machine.state.child c).pc = .unborn
  ends : x.filled (.cp (cfg.children-1)) = true →
    ∀ e, x.machine.fd .parent (.cp (cfg.children-1),e) = true
  quiet : (x.machine.state.child (cfg.children-1)).pc = .unborn →
    x.machine.state.pipe (.cp (cfg.children-1)) = []
  stuck : x.failed = true → x.left = [] ∧ (x.machine.state.child (cfg.children-1)).pc = .unborn ∧
    x.machine.state.parent.out = none ∧ (x.machine.state.parent.pc = .fork cfg.children ∨
      ∃ i < cfg.children, x.machine.state.parent.pc = .recvDiff i)

lemma operate_cases {p : Proc}
    (hfilled : ∀ op, operation cfg x.machine.state p = some op → x.filled op.fd.1 = true)
    (h : x.operate o cfg p = some y) :
    x.advance o cfg p = some y ∨ (∃ op, operation cfg x.machine.state p = some op) ∧
      y = x.skip o cfg p := by
  unfold operate at h
  cases hop : operation cfg x.machine.state p with
  | none =>
    rw [hop] at h
    exact .inl h
  | some op =>
    rw [hop] at h
    dsimp only at h
    by_cases hfd : x.machine.fd p op.fd = false
    · rw [if_pos hfd,hfilled op hop] at h
      refine .inr ⟨⟨op,rfl⟩,?_⟩
      rw [← Option.some.inj h]
      cases p <;> simp [skip,setState]
    rw [if_neg hfd] at h
    cases op with
    | read q =>
      dsimp only at h
      split_ifs at h
      · exact .inr ⟨⟨_,rfl⟩,(Option.some.inj h).symm⟩
      · exact .inl h
    | write q m =>
      dsimp only at h
      split_ifs at h
      · exact .inl h
      · exact .inr ⟨⟨_,rfl⟩,(Option.some.inj h).symm⟩

/-- The parts of an execution that only calls change. -/
structure Quiet (x y : Execution V n d m) : Prop where
  kernel : y.kernel = x.kernel
  left : y.left = x.left
  filled : y.filled = x.filled
  failed : y.failed = x.failed
  strayed : y.strayed = x.strayed

lemma advance_eq {p : Proc} (h : x.advance o cfg p = some y) : Quiet x y ∧
    y.machine.fd = x.machine.fdAfter cfg p ∧ step o cfg p x.machine.state = some y.machine.state := by
  obtain ⟨t,ht,rfl⟩ := map_eq_some_iff.mp h
  exact ⟨⟨rfl,rfl,rfl,rfl,rfl⟩,rfl,ht⟩

omit [LinearOrder V] in
lemma skip_quiet (p : Proc) : Quiet x (x.skip o cfg p) ∧ (x.skip o cfg p).machine.fd =
    x.machine.fd := by
  cases p with
  | parent | child c => exact ⟨⟨rfl,rfl,rfl,rfl,rfl⟩,rfl⟩

omit [LinearOrder V] in
lemma skipChild_born {c : ℕ} (h : (x.machine.state.child c).pc ≠ .unborn) :
    (x.skipChild o cfg c).pc ≠ .unborn := by
  unfold skipChild
  cases hpc : (x.machine.state.child c).pc <;> simp_all
  split_ifs <;> simp

/-- What a step of child `c` leaves alone. -/
structure ChildMoves (c : ℕ) (x y : Execution V n d m) : Prop extends Quiet x y where
  born : (x.machine.state.child c).pc ≠ .unborn
  parent : y.machine.state.parent = x.machine.state.parent
  child : ∀ c', c' ≠ c → y.machine.state.child c' = x.machine.state.child c'
  pipe : ∀ i, i ≠ c → y.machine.state.pipe (.cp i) = x.machine.state.pipe (.cp i)
  fd : y.machine.fd .parent = x.machine.fd .parent
  born' : (y.machine.state.child c).pc ≠ .unborn

lemma operate_child {c : ℕ}
    (hfilled : ∀ op, childOperation cfg c x.machine.state = some op → x.filled op.fd.1 = true)
    (h : x.operate o cfg (.child c) = some y) : ChildMoves c x y := by
  obtain hadvance | ⟨⟨op,hop⟩,rfl⟩ := operate_cases hfilled h
  · obtain ⟨hquiet,hfd,hstep⟩ := advance_eq hadvance
    obtain ⟨hparent,hgoes,hothers⟩ := stepChild_goes hstep
    refine { hquiet with
      born := ?_, parent := hparent, child := hothers, pipe := ?_, fd := ?_, born' := hgoes.ne_unborn }
    · intro hun
      rw [hun] at hgoes
      cases hgoes
    · intro i hi
      rw [stepChild_pipe hstep]
      cases hop : childOperation cfg c x.machine.state with
      | none => rfl
      | some op => exact Operation.apply_of_ne fun heq => hi ((childOperation_fd hop).2 i heq)
    · rw [hfd,Machine.fdAfter_child]
      exact update_of_ne (by simp) _ _
  · have hborn := (childOperation_fd hop).1
    refine { (skip_quiet (.child c)).1 with
      born := hborn, parent := rfl, child := fun _ hne => update_of_ne hne _ _, pipe := fun _ _ => rfl
      fd := congrFun (skip_quiet (.child c)).2 .parent, born' := ?_ }
    simpa [skip,setState,State.setChild] using skipChild_born hborn

omit [LinearOrder V] in
lemma last_not_closed (pc : ParentPc) (e : End) :
    ((.cp (cfg.children-1),e) : Pipe×End) ∉ parentClosing cfg pc := by
  unfold parentClosing
  split
  · simp [parentCloses,ghostEnds]
  · simp [parentEnds]
  · simp

/-- What a step of the parent leaves alone after the forks. -/
structure ParentMoves (cfg : Config V) (x y : Execution V n d m) : Prop extends Quiet x y where
  child : y.machine.state.child = x.machine.state.child
  pipe : ∀ i, x.machine.state.pipe (.cp i) = [] → y.machine.state.pipe (.cp i) = []
  fd : ∀ e, x.machine.fd .parent (.cp (cfg.children-1),e) = true →
    y.machine.fd .parent (.cp (cfg.children-1),e) = true
  pc : ∀ i, y.machine.state.parent.pc ≠ .fork i

lemma operate_parent (hfork : ∀ i, x.machine.state.parent.pc = .fork i → ¬i < cfg.children)
    (hfilled : ∀ op, parentOperation cfg x.machine.state = some op → x.filled op.fd.1 = true)
    (h : x.operate o cfg .parent = some y) : ParentMoves cfg x y := by
  obtain hadvance | ⟨⟨op,hop⟩,rfl⟩ := operate_cases hfilled h
  · obtain ⟨hquiet,hfd,hstep⟩ := advance_eq hadvance
    obtain ⟨i,hi,hpc,-⟩ | ⟨hchild,hgoes⟩ := stepParent_goes hstep
    · exact absurd hi (hfork i hpc)
    refine { hquiet with child := hchild, pipe := ?_, fd := ?_, pc := ?_ }
    · intro i hnil
      rw [stepParent_pipe hstep]
      cases hop : parentOperation cfg x.machine.state with
      | none => exact hnil
      | some op =>
        cases op with
        | read q =>
          obtain rfl | hne := eq_or_ne q (.cp i)
          · simp [Operation.apply,hnil]
          · exact (update_of_ne (Ne.symm hne) _ _).trans hnil
        | write q m =>
          obtain rfl | hne := eq_or_ne q (.cp i)
          · exact absurd rfl ((parentOperation_fd hop).1 i m)
          · exact (update_of_ne (Ne.symm hne) _ _).trans hnil
    · intro e he
      rw [hfd,Machine.fdAfter_parent hfork,update_self,Fds.close_iff]
      exact ⟨he,last_not_closed _ e⟩
    · exact hgoes.ne_fork
  · exact { (skip_quiet .parent).1 with
      child := rfl, pipe := fun _ hnil => hnil, fd := fun _ he => he, pc := (parentOperation_fd hop).2 }

lemma operate_forked (hpc : x.machine.state.parent.pc = .fork cfg.children)
    (h : x.operate o cfg .parent = some y) :
    y.machine.state.parent.pc = .recvDiff 0 ∧ y.machine.state.parent.out =
      x.machine.state.parent.out := by
  have hop : operation cfg x.machine.state .parent = none := by rw [operation,parentOperation,hpc]
  rw [operate,hop] at h
  obtain ⟨-,-,hstep⟩ := advance_eq h
  rw [step,stepParent] at hstep
  simp only [hpc,lt_irrefl,if_false] at hstep
  rw [← Option.some.inj hstep]
  exact ⟨rfl,rfl⟩

lemma operate_stuck {i : ℕ} (hi : i < cfg.children) (hpc : x.machine.state.parent.pc = .recvDiff i)
    (hfilled : ∀ op, parentOperation cfg x.machine.state = some op → x.filled op.fd.1 = true)
    (hends : ∀ e, x.machine.fd .parent (.cp (cfg.children-1),e) = true)
    (hquiet : x.machine.state.pipe (.cp (cfg.children-1)) = []) (h : x.operate o cfg .parent = some y) :
    i+1 < cfg.children ∧ y.machine.state.parent.pc = .recvDiff (i+1) ∧
      y.machine.state.parent.out = x.machine.state.parent.out := by
  have hop : operation cfg x.machine.state .parent = some (.read (.cp i)) := by
    rw [operation,parentOperation,hpc]
    exact if_pos hi
  have hlast : i ≠ cfg.children-1 := by
    rintro rfl
    have hholds : x.Holds cfg (.cp (cfg.children-1),.write) := .inl ⟨by simp [hpc],hends .write⟩
    rw [operate,hop] at h
    simp only [Operation.fd,hends,Bool.true_eq_false,if_false,hquiet,if_pos hholds] at h
    exact absurd h.symm (some_ne_none y)
  refine ⟨by omega,?_⟩
  obtain hadvance | ⟨-,rfl⟩ := operate_cases hfilled h
  · obtain ⟨-,-,hstep⟩ := advance_eq hadvance
    rw [step,stepParent] at hstep
    simp only [hpc,if_pos hi] at hstep
    split at hstep
    · rw [← Option.some.inj hstep]
      exact ⟨rfl,rfl⟩
    · exact absurd hstep.symm (some_ne_none _)
  · simp [skip,setState,State.setParent,skipParent,hpc]

lemma next_pipe {q : Pipe} {rest : List Pipe} (hleft : x.left = q::rest) :
    x.next o cfg K slot (.proc .parent) = x.pipeCall slot q rest := by
  rw [next,hleft]

lemma next_fork {i : ℕ} (hleft : x.left = []) (hpc : x.machine.state.parent.pc = .fork i)
    (hi : i < cfg.children) :
    x.next o cfg K slot (.proc .parent) = x.forkCall o cfg K slot i := by
  rw [next,hleft]
  simp only [hpc,if_pos hi]

variable (o cfg K) in
lemma next_others {k : Sys n d m} (hk : k.ofile slot = x.kernel.ofile slot) :
    x.next o cfg K slot (.others k) = some { x with kernel := k } := if_pos hk

namespace Inv

section
omit [LinearOrder V]

lemma filled (h : Inv cfg slot x) (hleft : x.left = []) {q : Pipe} (hq : Jacobi.made cfg q) :
    x.filled q = true := by
  obtain hmem | hfilled := h.made q hq
  · rw [hleft] at hmem
    exact absurd hmem List.not_mem_nil
  · exact hfilled

lemma left_eq_nil (h : Inv cfg slot x) {c : ℕ} (hc : (x.machine.state.child c).pc ≠ .unborn) :
    x.left = [] := by
  by_contra hleft
  exact hc ((h.forking 0 (h.making hleft)).2.2 c (Nat.zero_le c))

lemma others (h : Inv cfg slot x) {k : Sys n d m} (hk : k.ofile slot = x.kernel.ofile slot) :
    Inv cfg slot { x with kernel := k } := by
  have hfds : k.freeFds slot = x.kernel.freeFds slot := by rw [Sys.freeFds,Sys.freeFds,hk]
  exact { h with room := hfds ▸ h.room }

lemma childMoves {c : ℕ} (h : Inv cfg slot x) (hm : ChildMoves c x y) : Inv cfg slot y where
  unstrayed := hm.strayed.trans h.unstrayed
  room := by
    rw [hm.left,hm.kernel]
    exact h.room
  made := by
    rw [hm.left,hm.filled]
    exact h.made
  making := by
    rw [hm.left,hm.parent]
    exact h.making
  born := by
    intro c' hc'
    obtain rfl | hne := eq_or_ne c' c
    · exact h.born c' hm.born
    · rw [hm.child c' hne] at hc'
      exact h.born c' hc'
  forking := by
    intro i hi
    rw [hm.parent] at hi ⊢
    obtain ⟨hout,hle,hun⟩ := h.forking i hi
    refine ⟨hout,hle,?_⟩
    intro c' hc'
    rw [hm.child c' ?_]
    · exact hun c' hc'
    · rintro rfl
      exact hm.born (hun c' hc')
  ends := by
    rw [hm.filled,hm.fd]
    exact h.ends
  quiet := by
    intro hun
    have hne : cfg.children-1 ≠ c := by
      rintro rfl
      exact hm.born' hun
    rw [hm.child _ hne] at hun
    rw [hm.pipe _ hne]
    exact h.quiet hun
  stuck := by
    intro hfailed
    rw [hm.failed] at hfailed
    obtain ⟨hleft,hun,hout,hpc⟩ := h.stuck hfailed
    rw [hm.left,hm.parent,hm.child]
    · exact ⟨hleft,hun,hout,hpc⟩
    · rintro rfl
      exact hm.born hun

end

lemma child (h : Inv cfg slot x) {c : ℕ} (hy : x.operate o cfg (.child c) = some y) :
    Inv cfg slot y := by
  refine h.childMoves (operate_child (fun op hop => ?_) hy)
  have hborn := (childOperation_fd hop).1
  exact h.filled (h.left_eq_nil hborn) (child_fd (h.born c hborn) hop).1

lemma parent (h : Inv cfg slot x) (hpos : 0 < cfg.children) (hleft : x.left = [])
    (hfork : ∀ i, x.machine.state.parent.pc = .fork i → ¬i < cfg.children)
    (hy : x.operate o cfg .parent = some y) :
    Inv cfg slot y := by
  have hfilled : ∀ op, parentOperation cfg x.machine.state = some op → x.filled op.fd.1 = true :=
    fun op hop => h.filled hleft (parent_fd hop).1
  have hlast : x.filled (.cp (cfg.children-1)) = true := by
    have hle := cfg.children_le
    refine h.filled hleft ?_
    simp only [Jacobi.made]
    omega
  have hm := operate_parent hfork hfilled hy
  exact {
    unstrayed := hm.strayed.trans h.unstrayed
    room := by
      rw [hm.left,hm.kernel]
      exact h.room
    made := by
      rw [hm.left,hm.filled]
      exact h.made
    making := fun hne => absurd (hm.left.trans hleft) hne
    born := by
      rw [hm.child]
      exact h.born
    forking := fun i hi => absurd hi (hm.pc i)
    ends := fun _ e => hm.fd e (h.ends hlast e)
    quiet := by
      rw [hm.child]
      exact fun hun => hm.pipe _ (h.quiet hun)
    stuck := by
      intro hfailed
      rw [hm.failed] at hfailed
      obtain ⟨-,hun,hout,hpc⟩ := h.stuck hfailed
      rw [hm.left,hm.child]
      refine ⟨hleft,hun,?_⟩
      obtain hpc | ⟨i,hi,hpc⟩ := hpc
      · obtain ⟨hpc',hout'⟩ := operate_forked hpc hy
        exact ⟨hout'.trans hout,.inr ⟨0,hpos,hpc'⟩⟩
      · obtain ⟨hi',hpc',hout'⟩ := operate_stuck hi hpc hfilled (h.ends hlast) (h.quiet hun) hy
        exact ⟨hout'.trans hout,.inr ⟨i+1,hi',hpc'⟩⟩ }

omit [LinearOrder V] in
lemma pipeCall (h : Inv cfg slot x) {q : Pipe} {rest : List Pipe} (hleft : x.left = q::rest)
    (hfiles : 2 ≤ x.kernel.freeFiles) (hfree : x.kernel.free ≠ [])
    (hy : x.pipeCall slot q rest = some y) :
    Inv cfg slot y := by
  have hroom := h.room
  have hpc := h.making (by simp [hleft])
  rw [hleft,List.length_cons] at hroom
  have hpipe : Meets (fun _ => False) (Sys.sysPipe slot true) x.kernel fun ok s' => ok = true ∧
      s'.freeFds slot+2 = x.kernel.freeFds slot := Sys.sysPipe_some (by omega) hfiles hfree
  obtain ⟨ok,k,hk,rfl,hfds⟩ := hpipe.exists_eq
  rw [Execution.pipeCall,hk] at hy
  obtain rfl := Option.some.inj hy
  exact {
    unstrayed := h.unstrayed
    room := by
      dsimp only
      omega
    made := by
      intro q' hq'
      dsimp only
      obtain rfl | hne := eq_or_ne q' q
      · exact .inr (update_self ..)
      · rw [update_of_ne hne]
        obtain hmem | hfilled := h.made q' hq'
        · rw [hleft,List.mem_cons] at hmem
          exact .inl (hmem.resolve_left hne)
        · exact .inr hfilled
    making := fun _ => hpc
    born := h.born
    forking := h.forking
    ends := by
      intro hfilled e
      dsimp only at hfilled ⊢
      rw [update_self,Fds.fill_apply]
      split_ifs with hq
      · rfl
      · rw [update_of_ne hq] at hfilled
        exact h.ends hfilled e
    quiet := h.quiet
    stuck := by
      intro hfailed
      have hnil := (h.stuck hfailed).1
      rw [hleft] at hnil
      exact absurd hnil (List.cons_ne_nil _ _) }

lemma forked (h : Inv cfg slot x) {i : ℕ} (hleft : x.left = []) (hfine : x.failed = false)
    (hpc : x.machine.state.parent.pc = .fork i) (hi : i < cfg.children)
    (hy : x.advance o cfg .parent = some y)
    (k : Sys n d m) : Inv cfg slot { y with kernel := k } := by
  obtain ⟨hout,-,hun⟩ := h.forking i hpc
  obtain ⟨hquiet,hfd,hstep⟩ := advance_eq hy
  have hfd' : y.machine.fd .parent = x.machine.fd .parent := by
    rw [hfd]
    simp only [Machine.fdAfter,hpc,if_pos hi]
    exact update_of_ne (by simp) _ _
  rw [step,stepParent] at hstep
  simp only [hpc,if_pos hi] at hstep
  have hstate := Option.some.inj hstep
  have hparent : y.machine.state.parent = { x.machine.state.parent with pc := .fork (i+1) } := by
    rw [← hstate]
    rfl
  have hpipe : y.machine.state.pipe = x.machine.state.pipe := by
    rw [← hstate]
    rfl
  have hchild : ∀ c, c ≠ i → y.machine.state.child c = x.machine.state.child c := by
    intro c hc
    rw [← hstate]
    exact update_of_ne hc _ _
  have hborn : (y.machine.state.child i).pc ≠ .unborn := by
    rw [← hstate]
    simp [State.setChild]
  exact {
    unstrayed := hquiet.strayed.trans h.unstrayed
    room := by
      dsimp only
      rw [hquiet.left,hleft]
      exact Nat.zero_le _
    made := by
      dsimp only
      rw [hquiet.left,hquiet.filled]
      exact h.made
    making := fun hne => absurd (hquiet.left.trans hleft) hne
    born := by
      intro c hc
      obtain rfl | hne := eq_or_ne c i
      · exact hi
      · exact h.born c (by rwa [← hchild c hne])
    forking := by
      intro j hj
      dsimp only at hj ⊢
      rw [hparent] at hj ⊢
      cases hj
      refine ⟨hout,hi,?_⟩
      intro c hc
      rw [hchild c (by omega)]
      exact hun c (by omega)
    ends := by
      dsimp only
      rw [hquiet.filled,hfd']
      exact h.ends
    quiet := by
      intro hlast
      dsimp only at hlast ⊢
      have hne : cfg.children-1 ≠ i := by
        rintro rfl
        exact hborn hlast
      rw [hchild _ hne] at hlast
      rw [hpipe]
      exact h.quiet hlast
    stuck := fun hfailed => absurd (hquiet.failed.symm.trans hfailed) (by simp [hfine]) }

omit [LinearOrder V] in
lemma forkFailed (h : Inv cfg slot x) {i : ℕ} (hleft : x.left = [])
    (hpc : x.machine.state.parent.pc = .fork i)
    (hi : i+1 = cfg.children) (k : Sys n d m) :
    Inv cfg slot { x.setState
      (x.machine.state.setParent { x.machine.state.parent with pc := .fork (i+1) }) with
      kernel := k, failed := true } := by
  obtain ⟨hout,-,hun⟩ := h.forking i hpc
  have hlast : (x.machine.state.child (cfg.children-1)).pc = .unborn := hun _ (by omega)
  exact {
    unstrayed := h.unstrayed
    room := by
      change 2*x.left.length ≤ _
      rw [hleft]
      exact Nat.zero_le _
    made := h.made
    making := fun hne => absurd hleft hne
    born := h.born
    forking := by
      intro j hj
      cases hj
      exact ⟨hout,hi.le,fun c hc => hun c (by omega)⟩
    ends := h.ends
    quiet := h.quiet
    stuck := fun _ => ⟨hleft,hlast,hout,.inl (congrArg ParentPc.fork hi)⟩ }

lemma forkCall (h : Inv cfg slot x) (hapart : Apart K.kmap) {i : ℕ} (hleft : x.left = [])
    (hpc : x.machine.state.parent.pc = .fork i) (hi : i < cfg.children)
    (hroom : i+1 < cfg.children → x.kernel.CanFork slot) (hy : x.forkCall o cfg K slot i = some y) :
    Inv cfg slot y := by
  have hfine : x.failed = false := by
    by_contra hfailed
    obtain ⟨-,-,-,hpc' | ⟨j,-,hpc'⟩⟩ := h.stuck (by simpa using hfailed)
    · rw [hpc] at hpc'
      cases hpc'
      exact absurd hi (lt_irrefl _)
    · rw [hpc] at hpc'
      cases hpc'
  rw [Execution.forkCall] at hy
  cases hk : Sys.fork K slot x.kernel with
  | error message =>
    rw [hk] at hy
    exact absurd hy.symm (some_ne_none y)
  | ok r =>
    obtain ⟨ok,k⟩ := r
    rw [hk] at hy
    cases ok with
    | true =>
      obtain ⟨z,hz,rfl⟩ := map_eq_some_iff.mp hy
      exact h.forked hleft hfine hpc hi hz k
    | false =>
      have hlast : i+1 = cfg.children := by
        by_contra hne
        exact absurd ((Sys.fork_some hapart (hroom (by omega))).returns false k hk) Bool.false_ne_true
      obtain rfl := Option.some.inj hy
      exact h.forkFailed hleft hpc hlast k

lemma next (h : Inv cfg slot x) (hapart : Apart K.kmap) (hpos : 0 < cfg.children) {e : Event n d m}
    (hroom : x.Supplied cfg slot e) (hy : x.next o cfg K slot e = some y) : Inv cfg slot y := by
  cases e with
  | others k =>
    rw [Execution.next] at hy
    split_ifs at hy with hk
    obtain rfl := Option.some.inj hy
    exact h.others hk
  | proc p =>
    cases p with
    | child c => exact h.child hy
    | parent =>
      rw [Execution.next] at hy
      rw [Supplied] at hroom
      cases hleft : x.left with
      | cons q rest =>
        rw [hleft] at hy hroom
        exact h.pipeCall hleft hroom.1 hroom.2 hy
      | nil =>
        rw [hleft] at hy hroom
        dsimp only at hy hroom
        split at hy
        · rename_i i hpc
          rw [hpc] at hroom
          dsimp only at hroom
          split_ifs at hy with hi
          · exact h.forkCall hapart hleft hpc hi hroom hy
          · refine h.parent hpos hleft (fun j hj => ?_) hy
            rw [hpc] at hj
            cases hj
            exact hi
        · rename_i hpc
          exact h.parent hpos hleft (fun j hj => absurd hj (hpc j)) hy

end Inv

omit [LinearOrder V] in
lemma inv_start (kernel : Sys n d m) (order : ℕ → ℤ) (recvDiff : ℕ → V)
    (hfds : 2*(pipes cfg.processes).length ≤ kernel.freeFds slot) :
    Inv cfg slot (start o cfg kernel order recvDiff) where
  unstrayed := rfl
  room := hfds
  made := fun _ hq => .inl (mem_pipes hq)
  making := fun _ => rfl
  born := fun _ hc => absurd rfl hc
  forking := by
    intro i hi
    cases hi
    exact ⟨rfl,Nat.zero_le _,fun _ _ => rfl⟩
  ends := fun hfilled => absurd hfilled Bool.false_ne_true
  quiet := fun _ => rfl
  stuck := fun hfailed => absurd hfailed Bool.false_ne_true

end Execution

/-- In every run that begins with enough descriptors for the pipes, and in which each `pipe` finds
the files and the page and each `fork` but that of the last child the process and the pages it
needs, nobody reads or writes through a pair that was not filled, and if a call has failed, no grid
is printed. -/
theorem jacob_never_strays {V : Type*} [LinearOrder V] (o : Ops V) (cfg : Config V) (hN : 3 ≤ cfg.N)
    (hP : 1 ≤ cfg.P)
    (data : ℕ) (h : data ≤ 0xE000) (h' : 0x100 ≤ data) {n d m : ℕ} (slot : Fin n) (kernel : Sys n d m)
    (order : ℕ → ℤ) (recvDiff : ℕ → V) (hfds : 2*(4*cfg.processes-2) ≤ kernel.freeFds slot)
    (events : List (Event n d m)) (x : Execution V n d m)
    (hrun : Run (Execution.SuppliedStep o cfg (kmap data h h') slot)
      (Execution.start o cfg kernel order recvDiff)
      events x) :
    x.strayed = false ∧ (x.failed = true → x.machine.state.parent.out = none) := by
  have hproc := cfg.processes_pos hP
  have hinv : x.Inv cfg slot := by
    refine hrun.invariant (fun _ x => x.Inv cfg slot) ?_ ?_
    · intro _ y e z hy hstep
      exact hy.next (apart_kmap data h h') (procs_pos hN hproc) hstep.1 hstep.2
    · refine Execution.inv_start kernel order recvDiff ?_
      rw [length_pipes hproc]
      exact hfds
  exact ⟨hinv.unstrayed,fun hfailed => (hinv.stuck hfailed).2.2.1⟩

def single : Config ℕ := { sample with N := 3, P := 1, L := 0 }

def onePage : Pgdir :=
  ⟨50,fun i => if i.val = 0 then some ⟨51,fun j => if j.val = 0 then some ⟨52,true,true⟩ else none⟩
    else none⟩

lemma neZero_files : NeZero 100 := ⟨by decide⟩

lemma neZero_procs : NeZero 64 := ⟨by decide⟩

/-- Process 1 runs the program and has the console open three times; but for one all other files
belong to the processes 2 and 3. -/
def busy : Sys 64 70 100 where
  proc j :=
    if j.val = 0 ∨ 3 < j.val then ⟨.unused,none,none,none,0⟩
    else ⟨.running,none,some (40+j.val),some onePage,PGSIZE⟩
  ofile j fd :=
    if j.val = 1 ∧ fd.val < 3 then some (@Fin.ofNat 100 neZero_files 0)
    else if j.val = 2 then some (@Fin.ofNat 100 neZero_files (1+fd.val))
    else if j.val = 3 ∧ fd.val < 28 then some (@Fin.ofNat 100 neZero_files (71+fd.val))
    else none
  file f :=
    if f.val = 0 then ⟨.inode 1,3,true,true⟩
    else if f.val < 99 then ⟨.inode 2,1,true,true⟩
    else ⟨.none,0,false,false⟩
  pipe _ := none
  free := List.range' 10000 1100
  kpgdir := ⟨30,fun _ => none⟩
  kstacks := []
  initproc := @Fin.ofNat 64 neZero_procs 0
  made := []
  freed := []

def jacobSlot : Fin 64 := @Fin.ofNat 64 neZero_procs 1

def lastFile : Fin 100 := @Fin.ofNat 100 neZero_files 99

/-- The kernel's own map, with some end of its code. -/
def kernelMap : KernelMap := kmap 0x200 Exec.data_le Exec.le_data

/-- The kernel when nobody else has a file open and there is no process left. -/
def full (ofile : Fin 64 → Fin 70 → Option (Fin 100)) : Sys 64 70 100 :=
  { busy with
    proc := fun j => ⟨.running,none,some (40+j.val),some onePage,PGSIZE⟩
    ofile := ofile
    file := fun f => if f.val = 0 then ⟨.inode 1,3,true,true⟩ else ⟨.none,0,false,false⟩ }

lemma full_pipe (x : Execution ℕ 64 70 100) {q : Pipe} {r : List Pipe} (hleft : x.left = q::r)
    (hkernel : ∃ ofile, x.kernel = full ofile) (hfds : 2 ≤ x.kernel.freeFds jacobSlot) :
    ∃ y events, Run (Execution.SuppliedStep natOps single kernelMap jacobSlot) x events y ∧ y.left = r ∧
      (∃ ofile, y.kernel = full ofile) ∧ y.kernel.freeFds jacobSlot+2 = x.kernel.freeFds jacobSlot ∧
      y.machine.state = x.machine.state := by
  obtain ⟨ofile,hkernel⟩ := hkernel
  have hfiles : 2 ≤ x.kernel.freeFiles := by
    rw [hkernel]
    change 2 ≤ (full fun _ _ => none).freeFiles
    decide +kernel
  have hfree : x.kernel.free ≠ [] := by simp [hkernel,full,busy]
  have hsupplied : x.Supplied single jacobSlot (.proc .parent) := by
    rw [Execution.Supplied,hleft]
    exact ⟨hfiles,hfree⟩
  obtain ⟨ok,k,hk,rfl,hfds'⟩ := (Sys.sysPipe_some (E := fun _ => False) hfds hfiles hfree).exists_eq
  have hpipe : x.next natOps single kernelMap jacobSlot (.proc .parent) = x.pipeCall jacobSlot q r :=
    Execution.next_pipe hleft
  let y : Execution ℕ 64 70 100 := { x with
    kernel := k
    left := r
    filled := update x.filled q true
    machine := { x.machine with fd := update x.machine.fd .parent ((x.machine.fd .parent).fill q) } }
  have hmade : x.pipeCall jacobSlot q r = some y := by rw [Execution.pipeCall,hk]
  have hothers : y.next natOps single kernelMap jacobSlot (.others (full k.ofile)) =
      some { y with kernel := full k.ofile } :=
    Execution.next_others natOps single kernelMap rfl
  have hany : y.Supplied single jacobSlot (.others (full k.ofile)) := trivial
  exact ⟨_,_,.cons ⟨hsupplied,hpipe.trans hmade⟩ (.cons ⟨hany,hothers⟩ (.nil _)),rfl,⟨_,rfl⟩,hfds',rfl⟩

variable {E : String → Prop} {K : KernelMap}

lemma fork_full (ofile : Fin 64 → Fin 70 → Option (Fin 100)) :
    Meets E (Sys.fork K jacobSlot) (full ofile) fun ok _ => ok = false := by
  have hslot : (List.finRange 64).find? (fun j => ((full ofile).proc j).state = .unused) = none := by
    rw [List.find?_eq_none]
    simp [full]
  refine .bind (.bind (.get ?_))
  rw [hslot]
  exact .pure (.pure rfl)

/-- Both pipes are made, but the only child is missing. -/
theorem jacob_never_strays_full :
    ∃ events x, Run (Execution.SuppliedStep natOps single kernelMap jacobSlot)
      (Execution.start natOps single (full busy.ofile) (fun _ => 0) fun _ => 0) events x ∧
        x.failed = true ∧
    x.strayed = false ∧ x.machine.state.parent.out = none := by
  let x := Execution.start natOps single (full busy.ofile) (fun _ => 0) fun _ => 0
  have hfds : x.kernel.freeFds jacobSlot = 67 := by decide +kernel
  obtain ⟨y,es,hy,hleft,hkernel,hfds',hstate⟩ :=
    full_pipe x (q := .pc 0) (r := [.cp 0]) rfl ⟨_,rfl⟩ (by omega)
  obtain ⟨z,es',hz,hleft',⟨ofile,hkernel'⟩,-,hstate'⟩ := full_pipe y hleft hkernel (by omega)
  obtain ⟨ok,k,hfork,rfl⟩ := (fork_full (E := fun _ => False) (K := kernelMap) ofile).exists_eq
  have hpc : z.machine.state.parent.pc = .fork 0 := by
    rw [hstate',hstate]
    rfl
  have hnext : z.next natOps single kernelMap jacobSlot (.proc .parent) =
    some { z.setState (z.machine.state.setParent
      { z.machine.state.parent with pc := .fork 1 }) with kernel := k, failed := true } := by
    rw [Execution.next_fork hleft' hpc (by decide),Execution.forkCall,hkernel',hfork]
  have hsupplied : z.Supplied single jacobSlot (.proc .parent) := by
    rw [Execution.Supplied,hleft',hpc]
    intro hlt
    exact absurd hlt (by decide)
  have hrun := (hy.append hz).snoc ⟨hsupplied,hnext⟩
  obtain ⟨hstrayed,hout⟩ :=
    jacob_never_strays natOps single (by decide) (by decide) 0x200 Exec.data_le
    Exec.le_data jacobSlot
    (full busy.ofile) (fun _ => 0) (fun _ => 0) (by decide +kernel) _ _ hrun
  exact ⟨_,_,hrun,rfl,hstrayed,hout rfl⟩

variable {n d m : ℕ}

lemma fileclose_unused {s : Sys n d m} {f : Fin m} (href : (s.file f).ref = 1)
    (htype : (s.file f).type = .none) : Meets E (Sys.fileclose f) s fun _ s' =>
      s' = { s with file := update s.file f { s.file f with ref := 0, type := .none } } := by
  refine .bind (.get ?_)
  rw [if_neg (by omega),if_neg (by omega)]
  refine .bind (.update ?_)
  rw [htype]
  exact .pure rfl

lemma pipe_busy : Meets E (Sys.sysPipe jacobSlot true) busy fun ok s => ok = false ∧ s = busy := by
  have hfirst : (List.finRange 100).find? (fun f => (busy.file f).ref = 0) = some lastFile := by
    decide +kernel
  have hsecond : (List.finRange 100).find?
      (fun f => (update busy.file lastFile { busy.file lastFile with ref := 1 } f).ref = 0) = none := by
    decide +kernel
  have hback : update busy.file lastFile (⟨.none,0,false,false⟩ : File) = busy.file :=
    update_eq_self lastFile busy.file
  unfold Sys.sysPipe
  rw [if_neg (by decide)]
  refine .bind (.bind (.bind (.get ?_)))
  rw [hfirst]
  refine .bind (.update (.pure (.bind (.bind (.get ?_)))))
  rw [hsecond]
  refine .pure (.bind ((fileclose_unused ?_ ?_).mono ?_))
  · dsimp only
    rw [update_self]
  · dsimp only
    rw [update_self]
    decide
  rintro _ _ rfl
  refine .pure (.pure ⟨rfl,?_⟩)
  dsimp only
  rw [update_self,update_idem]
  exact congrArg (fun file => { busy with file := file }) hback

lemma copyuvm_onePage {kmap : List Kmap} (hapart : Apart kmap) (free : List Frame)
    (hmany : 1028 ≤ free.length) : Meets E (copyuvm kmap onePage PGSIZE) free fun o _ => o ≠ none := by
  have hfind : onePage.find 0 = some (some ⟨52,true,true⟩) := rfl
  have hpages : pages PGSIZE = 1 := by decide
  refine .bind (((setupkvm_entry hapart).also ((setupkvm_some hapart (by omega)).also
    (setupkvm_meets (fun _ _ => trivial) hapart.kernelMap))).mono ?_)
  rintro (_ | d) free₁ ⟨hspace,hsome,hmade⟩
  · exact absurd rfl hsome
  have hnew := (hspace d rfl).unmapped
  have hfew := card_owned_le fun v hv => hnew v (Nat.zero_le v) hv
  have hlen : free.length = free₁.length+d.owned.card := by
    rw [← card_stock,← Multiset.coe_card]
    exact congrArg Multiset.card hmade.symm
  dsimp only
  rw [hpages,copyLoop,hfind]
  refine .bind (kalloc_meets (fun hfree => ?_) fun r free₂ hfree => ?_)
  · rw [hfree,List.length_nil] at hlen
    omega
  rw [hfree,List.length_cons] at hlen
  refine .bind (((mappages_entry 1 0 r d free₂ (by norm_num) ?_).also
    (mappages_one 0 r d free₂ (by omega))).mono ?_)
  · intro v _ hv
    exact hnew v (Nat.zero_le v) (by omega)
  rintro ⟨ok,d'⟩ free₃ ⟨-,rfl,-⟩
  exact .pure (some_ne_none d')

lemma dupFiles_open {i np : Fin n} (hne : i ≠ np) (fds : List (Fin d)) (s : Sys n d m)
    (href : ∀ fd f, s.ofile i fd = some f → 1 ≤ (s.file f).ref) :
    Meets E (Sys.dupFiles i np fds) s fun _ s' => s'.ofile i = s.ofile i := by
  induction fds generalizing s with
  | nil => exact .pure rfl
  | cons fd fds ih =>
    refine .bind (.get ?_)
    cases hf : s.ofile i fd with
    | none => exact .bind (.pure (ih s href))
    | some f =>
      refine .bind (.bind (.get ?_))
      rw [if_neg (not_lt.mpr (href fd f hf))]
      refine .update (.bind (.update ?_))
      refine (ih _ ?_).mono fun _ s' hs' => hs'.trans (update_of_ne hne _ _)
      intro fd' g hg
      dsimp only at hg ⊢
      rw [update_of_ne hne] at hg
      obtain rfl | hgf := eq_or_ne g f
      · rw [update_self]
        exact Nat.le_add_left 1 _
      · rw [update_of_ne hgf]
        exact href fd' g hg

lemma fork_busy (hapart : Apart K.kmap) :
    Meets E (Sys.fork K jacobSlot) busy fun ok s => ok = true ∧
      s.ofile jacobSlot = busy.ofile jacobSlot := by
  have hslot : (List.finRange 64).find? (fun j => (busy.proc j).state = .unused) =
      some (@Fin.ofNat 64 neZero_procs 0) := by
    decide +kernel
  have hne : jacobSlot ≠ @Fin.ofNat 64 neZero_procs 0 := by decide
  have hproc : busy.proc jacobSlot = ⟨.running,none,some 41,some onePage,PGSIZE⟩ := rfl
  have href : ∀ fd f, busy.ofile jacobSlot fd = some f → 1 ≤ (busy.file f).ref := by
    decide +kernel
  refine .bind (.bind (.get ?_))
  rw [hslot]
  refine .bind (Sys.onFree_meets (kalloc_meets (fun hfree => ?_) fun r free₁ hfree => ?_))
  · exact absurd hfree (by simp [busy])
  have hlen : free₁.length = 1099 := by
    have := congrArg List.length hfree
    simp [busy] at this
    omega
  refine .bind (.update (.pure (.bind (.get ?_))))
  dsimp only
  rw [update_self,update_of_ne hne,hproc]
  dsimp only
  refine .bind (Sys.onFree_meets ((copyuvm_onePage hapart free₁ (by omega)).mono ?_))
  rintro (_ | d) free₂ hsome
  · exact absurd rfl hsome
  · refine .bind (.update (.bind (.mono (dupFiles_open hne _ _ ?_) ?_)))
    · exact href
    intro _ s hs
    exact .bind (.get (.bind (.update (.pure ⟨rfl,hs⟩))))

/-- After both pipes have failed and the child is forked. -/
def unpiped : Execution ℕ 64 70 100 where
  kernel := busy
  left := []
  filled := fun _ => false
  machine :=
    { state := ((initial natOps single).setParent
      { (initial natOps single).parent with pc := .fork 1 }).setChild 0
        { pc := .entry, u := single.grid natOps, w := single.w, diff := 0, sweeps := 0 }
      fd := update (fun _ _ => false) (.child 0) fun _ => false }
  order := fun _ => 0
  failed := true
  strayed := false

lemma Execution.pipeCall_failed {V : Type*} {slot : Fin n} {x : Execution V n d m}
    {k : Sys n d m} (q : Pipe)
    (rest : List Pipe) (hk : Sys.sysPipe slot true x.kernel = .ok (false,k)) :
    x.pipeCall slot q rest = some { x with kernel := k, left := rest, failed := true } := by
  rw [pipeCall,hk]

lemma Execution.forkCall_forked {V : Type*} [LinearOrder V] {o : Ops V} {cfg : Config V}
    {slot : Fin n} {x : Execution V n d m} {k : Sys n d m} {i : ℕ}
    (hk : Sys.fork K slot x.kernel = .ok (true,k)) :
    x.forkCall o cfg K slot i = (x.advance o cfg .parent).map fun y => { y with kernel := k } := by
  rw [forkCall,hk]

lemma reaches_unpiped : ∃ events, Run (Execution.Step natOps single kernelMap jacobSlot)
    (Execution.start natOps single busy (fun _ => 0) fun _ => 0) events unpiped := by
  obtain ⟨ok,s,hpipe,rfl,rfl⟩ := (pipe_busy (E := fun _ => False)).exists_eq
  obtain ⟨ok,k,hfork,rfl,hofile⟩ := (fork_busy (E := fun _ => False) (K := kernelMap)
    (apart_kmap 0x200 Exec.data_le Exec.le_data)).exists_eq
  let x := Execution.start natOps single busy (fun _ => 0) fun _ => 0
  let y : Execution ℕ 64 70 100 := { x with left := [.cp 0], failed := true }
  have hfirst : x.next natOps single kernelMap jacobSlot (.proc .parent) = some y :=
    Execution.pipeCall_failed (x := x) (.pc 0) [.cp 0] hpipe
  have hsecond : y.next natOps single kernelMap jacobSlot (.proc .parent) =
      some { y with left := [] } :=
    Execution.pipeCall_failed (x := y) (.cp 0) [] hpipe
  let z : Execution ℕ 64 70 100 := { y with left := [] }
  have hpos : 0 < single.children := by decide
  have hadvance : z.advance natOps single .parent = some unpiped := by
    have hstep : step natOps single .parent z.machine.state = some unpiped.machine.state :=
      congrArg some (if_pos hpos)
    have hfd : z.machine.fdAfter single .parent = unpiped.machine.fd := by
      have hpc : z.machine.state.parent.pc = .fork 0 := rfl
      simp only [Machine.fdAfter,hpc,if_pos hpos]
      rfl
    rw [Execution.advance,hstep,map_some,hfd]
    rfl
  have hthird : z.next natOps single kernelMap jacobSlot (.proc .parent) =
      some { unpiped with kernel := k } := by
    rw [Execution.next_fork (x := z) rfl rfl hpos,Execution.forkCall_forked (x := z) hfork,
      hadvance,map_some]
  have hlast :=
    Execution.next_others natOps single kernelMap (x := { unpiped with kernel := k }) hofile.symm
  exact ⟨_,.cons hfirst (.cons hsecond (.cons hthird (.cons hlast (.nil _))))⟩

/-- With 99 of the 100 files in use both calls of `pipe` fail. The parent then reads and writes
through the empty pairs all the same, and prints the grid it has begun with. -/
theorem jacob_prints_unpiped : ∃ events x, Run (Execution.Step natOps single kernelMap jacobSlot)
    (Execution.start natOps single busy (fun _ => 0) fun _ => 0) events x ∧ x.failed = true ∧
      x.strayed = true ∧
      x.machine.state.parent.out = some [[100,100,100],[100,66,100],[100,0,0]] ∧
      printGrid 3 (sequential natOps 3 0 0 (single.grid natOps)).1 ≠
      [[100,100,100],[100,66,100],[100,0,0]] := by
  obtain ⟨events,hrun⟩ := reaches_unpiped
  have hexec : (exec (Execution.next natOps single kernelMap jacobSlot)
    (List.replicate 10 (.proc .parent)) unpiped).map
      (fun x => (x.failed,x.strayed,x.machine.state.parent.out)) =
        some (true,true,some [[100,100,100],[100,66,100],[100,0,0]]) := by decide +kernel
  obtain ⟨x,hx,hout⟩ := map_eq_some_iff.mp hexec
  simp only [Prod.mk.injEq] at hout
  obtain ⟨hfailed,hstrayed,hgrid⟩ := hout
  exact ⟨_,x,hrun.append (.of_exec hx),hfailed,hstrayed,hgrid,by decide +kernel⟩

end JacobiXv6.Jacobi
