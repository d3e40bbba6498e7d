import JacobiXv6.Jacobi.Deadlock

/-! The program ends. How many steps a process has taken can be read off its program counter and its
sweeps, so in all runs that cannot be continued it has taken equally many. -/
namespace JacobiXv6.Jacobi
open Library

variable {V : Type*} [LinearOrder V] {o : Ops V} {cfg : Config V} {s t : State V} {c : ℕ}

section
variable (cfg : Config V)

/-- The steps that child `c` has taken. A sweep takes seven. -/
def childSteps (c : ℕ) (ch : Child V) : ℕ :=
  match ch.pc with
  | .unborn | .entry => 0
  | .sendUp => 7*ch.sweeps+1
  | .sendDown => 7*ch.sweeps+2
  | .recvAbove => 7*ch.sweeps+3
  | .recvBelow => 7*ch.sweeps+4
  | .compute => 7*ch.sweeps+5
  | .sendDiff => 7*ch.sweeps-1
  | .recvOrder => 7*ch.sweeps
  | .sendRow i => 7*ch.sweeps+1+(i-cfg.lo c)
  | .exited => 7*ch.sweeps+2+(cfg.hi c+1-cfg.lo c)

/-- The steps that the parent has taken. A round takes two for every child and three more. -/
def parentSteps (p : Parent V) : ℕ :=
  let n := cfg.children
  let rounds := p.count*(2*n+3)
  match p.pc with
  | .fork i => i
  | .recvDiff i => rounds+n+1+min i n
  | .decide => rounds+2*n+2
  | .sendCarryon i | .sendDone i => rounds+min i n
  | .recvRow i j => rounds+n+i+j
  | .print => rounds+2*n+cfg.N
  | .wait i => rounds+2*n+cfg.N+1+min i n
  | .exited => rounds+3*n+cfg.N+2

def steps (s : State V) : Proc → ℕ
  | .parent => parentSteps cfg s.parent
  | .child c => childSteps cfg c (s.child c)

end

lemma stepChild_sweeps (hs : stepChild o cfg c s = some t) :
    (t.child c).sweeps = (s.child c).sweeps+if (s.child c).pc = .compute then 1 else 0 := by
  unfold stepChild at hs
  cases hpc : (s.child c).pc with simp only [hpc] at hs
  | unborn | exited => cases hs
  | entry | compute | sendDiff => cases hs; simp [State.write,State.setPipe,State.setChild]
  | sendUp | sendDown | sendRow =>
    split at hs <;> cases hs <;> simp [State.write,State.setPipe,State.setChild]
  | recvAbove | recvBelow | recvOrder =>
    repeat' split at hs
    all_goals cases hs <;> simp [State.setPipe,State.setChild]

lemma stepChild_steps (h : Lockstep o cfg s) (ht : Lockstep o cfg t)
    (hs : stepChild o cfg c s = some t) :
    childSteps cfg c (t.child c) = childSteps cfg c (s.child c)+1 := by
  have hsweeps := stepChild_sweeps hs
  obtain ⟨-,hgoes,-⟩ := stepChild_goes hs
  have hs := (h.child c).phase
  have ht := (ht.child c).phase
  unfold Phase at hs ht
  unfold childSteps
  generalize (s.child c).pc = p, (t.child c).pc = q at hgoes hs ht hsweeps ⊢
  cases hgoes with simp only [reduceCtorEq,if_true,if_false] at hs ht hsweeps ⊢
  -- nobody leaves before the first sweep
  | none => omega
  | enter | sendUp | sendDown | recvAbove | recvBelow | compute | sendDiff | carryon | done => omega
  -- the row is one of the child's
  | sendRow | exit => omega

lemma stepParent_steps (h : Lockstep o cfg s) (hN : 3 ≤ cfg.N) (hs : stepParent o cfg s = some t) :
    parentSteps cfg t.parent = parentSteps cfg s.parent+1 := by
  have hp := h.parent
  unfold stepParent at hs
  unfold ParentOk at hp
  unfold parentSteps
  cases hpc : s.parent.pc with simp only [hpc] at hs hp
  | fork =>
    split at hs <;> cases hs <;> simp only [State.setParent,State.setChild]
    omega
  | decide => split at hs <;> cases hs <;> simp only [State.setParent,add_mul] <;> omega
  | sendCarryon | sendDone =>
    split at hs <;> cases hs <;>
      simp only [State.setParent,State.write,State.setPipe,Config.lo_zero] <;> omega
  | recvDiff | recvRow | wait =>
    repeat' split at hs
    all_goals cases hs <;> simp only [State.setParent,State.setPipe,Config.lo_succ] <;> omega
  | print =>
    cases hs
    simp only [State.setParent]
    omega
  | exited => cases hs

lemma step_steps {p : Proc} (h : Lockstep o cfg s) (ht : Lockstep o cfg t) (hN : 3 ≤ cfg.N)
    (hs : step o cfg p s = some t) (q : Proc) :
    steps cfg t q = steps cfg s q+if p = q then 1 else 0 := by
  cases p with
  | child c =>
    obtain ⟨hparent,-,hothers⟩ := stepChild_goes hs
    cases q with
    | parent => rw [steps,hparent,steps,if_neg nofun,add_zero]
    | child d =>
      obtain rfl | hne := eq_or_ne d c
      · rw [steps,stepChild_steps h ht hs,steps,if_pos rfl]
      · rw [steps,hothers d hne,steps,if_neg fun hd => hne (Proc.child.inj hd).symm,add_zero]
  | parent =>
    cases q with
    | parent => rw [steps,stepParent_steps h hN hs,steps,if_pos rfl]
    | child d =>
      rw [steps,steps,if_neg nofun,add_zero]
      obtain ⟨i,-,hpc,-,hentry,hothers⟩ | ⟨hchild,-⟩ := stepParent_goes hs
      · obtain rfl | hne := eq_or_ne d i
        · simp only [childSteps,hentry,h.forked d hpc d le_rfl]
        · rw [hothers d hne]
      · rw [hchild]

lemma count_schedule (hN : 3 ≤ cfg.N) (hP : 1 ≤ cfg.P) {schedule : List Proc}
    (h : Reaches o cfg schedule s) (q : Proc) :
    schedule.count q = steps cfg s q := by
  induction h with
  | nil => cases q <;> rfl
  | snoc run hs ih =>
    rw [List.count_append,ih,
      step_steps (.reaches hN hP run) (.reaches hN hP (.snoc run hs)) hN hs,List.count_singleton']

/-- The sweeps of the sequential algorithm. -/
def sweeps (o : Ops V) (cfg : Config V) : ℕ := (sequential o cfg.N cfg.E cfg.L (cfg.grid o)).2

/-- The steps of each process in a run to the end. -/
def totalSteps (o : Ops V) (cfg : Config V) : Proc → ℕ
  | .parent => sweeps o cfg*(2*cfg.children+3)+3*cfg.children+cfg.N+2
  | .child c => if c < cfg.children then 7*sweeps o cfg+2+(cfg.hi c+1-cfg.lo c) else 0

lemma sweeps_eq : sweeps o cfg = cfg.final o+1 := by
  rw [sweeps,sequential_eq]
  rfl

lemma final_le : cfg.final o ≤ cfg.L.toNat := Nat.find_min' _ (.inr (by omega))

namespace Lockstep

/-- `count` is an `int` of `jacob.c`. -/
lemma count_lt (h : Lockstep o cfg s) (hL : cfg.L < 2^31-1) : s.parent.count < 2^31 := by
  have hle : ∀ k, cfg.Going o k → k ≤ cfg.final o := fun k hk => hk.le_lastSweep
  have hlast : cfg.final o ≤ cfg.L.toNat := final_le
  have hp := h.parent
  unfold ParentOk at hp
  have hcount : s.parent.count ≤ cfg.final o+1 := by
    cases hpc : s.parent.pc <;> simp only [hpc] at hp
    case fork => omega
    case recvDiff | decide => exact (hle _ hp.1).trans (Nat.le_succ _)
    case sendCarryon =>
      obtain ⟨k,hk,hgoing,-⟩ := hp
      exact hk ▸ (hle _ hgoing).trans (Nat.le_succ _)
    all_goals exact hp.1.le
  omega

lemma steps_le (h : Lockstep o cfg s) (hN : 3 ≤ cfg.N) (hP : 1 ≤ cfg.P) (q : Proc) :
    steps cfg s q ≤ totalSteps o cfg q := by
  have hle : ∀ k, cfg.Going o k → k ≤ cfg.final o := fun k hk => hk.le_lastSweep
  cases q with
  | parent =>
    have hp := h.parent
    have hrounds := fun k hk => Nat.mul_le_mul_right (2*cfg.children+3) (hle k hk)
    have hhi : ∀ i < cfg.children, cfg.hi i ≤ cfg.N-2 := fun i => Config.hi_le hN hP
    rw [steps,parentSteps,totalSteps,sweeps_eq]
    unfold ParentOk at hp
    cases hpc : s.parent.pc with simp only [hpc] at hp ⊢
    | fork => omega
    | recvDiff | decide =>
      have hle := hrounds _ hp.1
      rw [add_mul]
      omega
    | sendCarryon =>
      obtain ⟨k,hk,hgoing,-⟩ := hp
      have hle := hrounds _ hgoing
      rw [hk,add_mul (cfg.final o)]
      omega
    | recvRow i =>
      rw [hp.1]
      have hle := hhi i
      omega
    | sendDone | print | wait =>
      rw [hp.1]
      omega
    | exited => rw [hp.1]
  | child c =>
    have hph := (h.child c).phase
    have hun := h.unborn c
    rw [steps,childSteps,totalSteps,sweeps_eq]
    unfold Phase at hph
    cases hpc : (s.child c).pc with simp only [hpc,reduceCtorEq,imp_false,not_le] at hph hun ⊢
    | unborn | entry => exact Nat.zero_le _
    | sendUp | sendDown | recvAbove | recvBelow | compute =>
      have hle := hle _ hph.1
      rw [if_pos hun]
      omega
    | sendDiff =>
      obtain ⟨k,hk,hgoing,-⟩ := hph
      have hle := hle k hgoing
      rw [if_pos hun]
      omega
    | recvOrder =>
      obtain ⟨k,hk,hgoing⟩ := hph
      have hle := hle k hgoing
      rw [if_pos hun]
      omega
    | sendRow | exited =>
      rw [if_pos hun]
      omega

section
variable (h : Lockstep o cfg s) (hparent : s.parent.pc = .exited)
  (hchild : ∀ c < cfg.children, (s.child c).pc = .exited)
include h hparent hchild

lemma sweeps_exited : s.parent.count = cfg.final o+1 ∧ ∀ c < cfg.children, (s.child c).sweeps =
    cfg.final o+1 := by
  have hp := h.parent
  simp only [ParentOk,hparent] at hp
  refine ⟨hp.1,fun c hc => ?_⟩
  have hph := (h.child c).phase
  simpa only [Phase,hchild c hc] using hph

lemma steps_exited (q : Proc) : steps cfg s q = totalSteps o cfg q := by
  obtain ⟨hcount,hsweeps⟩ := h.sweeps_exited hparent hchild
  cases q with
  | parent => simp only [steps,parentSteps,hparent,hcount,totalSteps,sweeps_eq]
  | child c =>
    rw [totalSteps,sweeps_eq]
    split_ifs with hc
    · simp only [steps,childSteps,hchild c hc,hsweeps c hc]
    · simp only [steps,childSteps,h.unborn c (not_lt.mp hc)]

/-- What was written to a pipe has been read. -/
lemma pipe_exited (q : Pipe) : s.pipe q = [] := by
  obtain ⟨hcount,hsweeps⟩ := h.sweeps_exited hparent hchild
  have heq : s.read cfg q = s.written cfg q := by
    -- the counts at both ends are those of processes that have exited
    cases q with simp only [State.read,State.written]
    | pc => grind [Parent.ordersSent,Child.ordersRead]
    | cp => grind [Parent.cpRead,Child.cpSent]
    | ccUp => grind [Child.upSent,Child.belowRead]
    | ccDown => grind [Child.downSent,Child.aboveRead]
  rw [(h.tracks q).2,heq,window_self]

end

end Lockstep

lemma count_le (hN : 3 ≤ cfg.N) (hP : 1 ≤ cfg.P) {schedule : List Proc}
    (h : Reaches o cfg schedule s) (q : Proc) :
    schedule.count q ≤ totalSteps o cfg q := by
  rw [count_schedule hN hP h]
  exact (Lockstep.reaches hN hP h).steps_le hN hP q

/-- Under every schedule the program ends: no process takes more than `totalSteps`, and a schedule
cannot be continued if and only if every process has taken so many, in whatever order. Then all of
them have exited, the pipes are empty, and the grid of the sequential algorithm has been printed.
The limit `L` is below the largest `int`, so that `count`, which is an `int`, comes to exceed it. -/
theorem protocol_terminates (o : Ops V) (cfg : Config V) (hN : 3 ≤ cfg.N)
    (hsize : 4*cfg.N ≤ Kernel.PIPESIZE) (hP : 1 ≤ cfg.P) (hL : cfg.L < 2^31-1) (schedule : List Proc)
    (x : Machine V) (h : Machine.Reaches cfg o schedule x) :
    x.state.parent.count < 2^31 ∧
    (∀ q, schedule.count q ≤ totalSteps o cfg q) ∧
    ((∀ p, Machine.next cfg o p x = none) ↔ ∀ q, schedule.count q = totalSteps o cfg q) ∧
    ((∀ p, Machine.next cfg o p x = none) → x.state.parent.pc = .exited ∧
      (∀ c < cfg.children, (x.state.child c).pc = .exited) ∧
      (∀ q, x.state.pipe q = []) ∧
      x.state.parent.out = some (printGrid cfg.N (sequential o cfg.N cfg.E cfg.L (cfg.grid o)).1)) := by
  have hr := reaches_of_machine h
  have hl : Lockstep o cfg x.state := .reaches hN hP hr
  have hu : Unforked cfg x.state :=
    hr.invariant (fun _ s => Unforked cfg s) (fun _ _ _ _ hu hs => hu.step hs) fun d _ _ =>
      ⟨0,Nat.zero_le d,rfl⟩
  have hend : (∀ p, Machine.next cfg o p x = none) →
      x.state.parent.pc = .exited ∧ ∀ c < cfg.children, (x.state.child c).pc = .exited := by
    intro hstuck
    by_contra hlive
    rw [not_and_or] at hlive
    push Not at hlive
    obtain ⟨p,hp⟩ := hl.progress hN hsize (fun d hd hun => (hu d hd hun).imp fun _ hi => hi.2) hlive
    obtain ⟨y,hy⟩ := hp.next
    exact nomatch (hstuck p).symm.trans hy
  refine ⟨hl.count_lt hL,count_le hN hP hr,⟨fun hstuck q => ?_,fun hall p => ?_⟩,fun hstuck => ?_⟩
  · rw [count_schedule hN hP hr]
    exact hl.steps_exited (hend hstuck).1 (hend hstuck).2 q
  · cases hy : Machine.next cfg o p x with
    | none => rfl
    | some y =>
      have hlong := count_le hN hP (reaches_of_machine (.snoc h hy)) p
      rw [List.count_append,hall p,List.count_singleton_self] at hlong
      exact absurd hlong (Nat.not_succ_le_self _)
  · have hp := hl.parent
    simp only [ParentOk,(hend hstuck).1] at hp
    rw [sequential_eq]
    exact ⟨(hend hstuck).1,(hend hstuck).2,hl.pipe_exited (hend hstuck).1 (hend hstuck).2,hp.2⟩

/-- The run of `sample` to its end. -/
def fullSchedule : List Proc := sampleSchedule++List.replicate 4 .parent

theorem protocol_terminates_sample : ∃ x, Machine.Reaches sample natOps fullSchedule x ∧
    (∀ p, Machine.next sample natOps p x = none) ∧ (∀ q, x.state.pipe q = []) ∧
    x.state.parent.out = some (printGrid 4 (sequential natOps 4 0 1 (sample.grid natOps)).1) := by
  have he : (exec (Machine.next sample natOps) fullSchedule
      (Machine.initial sample natOps)).isSome = true := by
    decide +kernel
  obtain ⟨x,hx⟩ := Option.isSome_iff_exists.mp he
  have hr : Machine.Reaches sample natOps fullSchedule x := .of_exec hx
  obtain ⟨-,hle,hiff,hend⟩ :=
    protocol_terminates natOps sample (by decide) (by decide) (by decide) (by decide) _ x hr
  have hstuck : ∀ p, Machine.next sample natOps p x = none := by
    refine hiff.mpr fun q => ?_
    cases q with
    | parent => decide +kernel
    | child c =>
      by_cases hc : c < 2
      · interval_cases c <;> decide +kernel
      · have hzero : totalSteps natOps sample (.child c) = 0 := if_neg hc
        rw [hzero]
        exact Nat.le_zero.mp (hzero ▸ hle (.child c))
  obtain ⟨-,-,hpipe,hout⟩ := hend hstuck
  exact ⟨x,hr,hstuck,hpipe,hout⟩

end JacobiXv6.Jacobi
