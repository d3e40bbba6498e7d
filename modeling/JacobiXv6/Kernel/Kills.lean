import JacobiXv6.Kernel.Births

/-! Whom `kill` reaches. It looks for a pid in all slots, also in those that are not in use: there
it finds the 0 that `wait` left or was there from the beginning, and the pid of a child whose
`fork` failed. `allocproc` does not clear `killed`, so the next process of such a slot is
born killed. -/
namespace JacobiXv6.Kernel
open Library
namespace Sched

variable {κ : Type*} {n : ℕ} {s s' : Sched κ n} {c : κ} {pid : BitVec 32} {a : SchedAct}

/-- What `kill(pid)` returns. -/
def killRet (s : Sched κ n) (pid : BitVec 32) : ℤ :=
  if ((List.finRange n).find? fun p => (s.task p).pid = pid).isSome = true then 0 else -1

/-- No slot with this pid is `UNUSED`. -/
def Addressed (s : Sched κ n) (pid : BitVec 32) : Prop :=
  ∀ p, (s.task p).pid = pid → (s.task p).state ≠ .unused

/-- `kill` is called with the pid of no unused slot, and no `fork` fails whose child has been
killed. -/
def Heeds (s : Sched κ n) (c : κ) : SchedAct → Prop
  | .kill pid => s.Addressed pid
  | .go false => ∀ i np, s.ctx c = .on i → s.th i = .run (.forkKstack np) ∨
    s.th i = .run (.forkCopy np) →
      (s.task np).killed = false
  | _ => True

/-! ### Slots that no process has yet -/

/-- What a step may do to a slot, as far as the ones that are unused or being filled go. -/
def Spares (t t' : Task n) : Prop :=
  t'.state = .unused ∨ t'.state = .embryo → t'.state = t.state ∧ t'.killed = t.killed ∧ t'.pid = t.pid

lemma Spares.refl (t : Task n) : Spares t t := fun _ => ⟨rfl,rfl,rfl⟩

lemma spares_of_nudged {t t' : Task n} (h : Nudged t t') : Spares t t' := by
  intro ht
  refine ⟨?_,h.rest.2.2.1,h.rest.1⟩
  obtain hs | ⟨_,hs⟩ := h.state
  · exact hs
  · rw [hs] at ht
    exact ht.elim nofun nofun

lemma spares_put {p : Fin n} {t : Task n} (h : Spares (s.task p) t) (k : Fin n) :
    Spares (s.task k) ((s.put p t).task k) := put_related .refl h k

/-- No unused slot is marked as killed, and a child that is being made only if its pid was
killed. -/
structure Innocent (as : List (κ×SchedAct)) (s : Sched κ n) : Prop where
  unused : ∀ i, (s.task i).state = .unused → (s.task i).killed = false
  embryo : ∀ i, (s.task i).state = .embryo → (s.task i).killed = true →
    ∃ c, (c,.kill (s.task i).pid) ∈ as

namespace Innocent
variable {as as' : List (κ×SchedAct)}

lemma boot (init : Fin n) : Innocent ([] : List (κ×SchedAct)) (Sched.boot init) := by
  have hkilled : ∀ i, ((Sched.boot init : Sched κ n).task i).killed = false := by
    intro i
    simp only [Sched.boot]
    split_ifs
    exacts [rfl,rfl]
  exact ⟨fun i _ => hkilled i,fun i _ hi => (by cases (hkilled i).symm.trans hi)⟩

lemma spare (h : Innocent as s) (has : as ⊆ as') (hs : ∀ i, Spares (s.task i) (s'.task i)) :
    Innocent as' s' := by
  constructor
  · intro i hi
    obtain ⟨hstate,hkilled,_⟩ := hs i (.inl hi)
    rw [hkilled]
    exact h.unused i (hstate.symm.trans hi)
  · intro i hi hk
    obtain ⟨hstate,hkilled,hpid⟩ := hs i (.inr hi)
    obtain ⟨c,hc⟩ := h.embryo i (hstate.symm.trans hi) (hkilled.symm.trans hk)
    rw [hpid]
    exact ⟨c,has hc⟩

variable {p : Fin n}

lemma put {t : Task n} (h : Innocent as s) (has : as ⊆ as') (htask : s'.task = (s.put p t).task)
    (hunused : t.state = .unused → t.killed = false)
    (hembryo : t.state = .embryo → t.killed = true → ∃ c, (c,.kill t.pid) ∈ as') : Innocent as' s' := by
  constructor
  · intro i hi
    rw [htask] at hi ⊢
    obtain rfl | hne := eq_or_ne i p
    · rw [put_self] at hi ⊢
      exact hunused hi
    · rw [put_ne _ hne] at hi ⊢
      exact h.unused i hi
  · intro i hi hk
    rw [htask] at hi hk ⊢
    obtain rfl | hne := eq_or_ne i p
    · rw [put_self] at hi hk ⊢
      exact hembryo hi hk
    · rw [put_ne _ hne] at hi hk ⊢
      obtain ⟨c,hc⟩ := h.embryo i hi hk
      exact ⟨c,has hc⟩

lemma put_of_killed {t : Task n} (h : Innocent as s) (has : as ⊆ as')
    (htask : s'.task = (s.put p t).task) (ht : t.killed = false) : Innocent as' s' :=
  h.put has htask (fun _ => ht) fun _ hk => (nomatch ht.symm.trans hk)

lemma kill (h : Innocent as s) (hp : (s.task p).state ≠ .unused)
    (htask : s'.task = (s.put p (s.task p).kill).task) :
    Innocent (as++[(c,.kill (s.task p).pid)]) s' := by
  refine h.put (List.subset_append_left _ _) htask ?_ ?_
  · intro hi
    simp only [Task.kill] at hi
    split_ifs at hi
    exact absurd hi hp
  · intro _ _
    exact ⟨c,List.mem_append_right _ (List.mem_singleton_self _)⟩

lemma round {b : Sched κ n} {i : Fin n} (h : Innocent as s) (has : as ⊆ as')
    (hb : ∀ k, Spares (s.task k) (b.task k))
    (hround : Round b i s') : Innocent as' s' := by
  have hbase : Innocent as b := h.spare (List.Subset.refl _) hb
  cases hround with
  | reap p _ _ => exact hbase.put_of_killed has rfl rfl
  | fail _ => exact hbase.spare has fun _ => .refl _
  | sleep _ => exact hbase.spare has (spares_put fun ht => ht.elim nofun nofun)

end Innocent

variable [DecidableEq κ]

lemma Innocent.moves {as : List (κ×SchedAct)} (h : Innocent as s) (hc : Cpus s) (hm : Moves s c a s')
    (hheeds : s.Heeds c a) : Innocent (as++[(c,a)]) s' := by
  have has : as ⊆ as++[(c,a)] := List.subset_append_left _ _
  cases hm with
  | acquire | skip | release | back | swtch | proceed | noKill | fork | wait | exit | full =>
    exact h.spare has fun _ => .refl _
  | dispatch i _ _ | yield i j _ _ _ | sleep k i j _ _ _ | start _ i np _ _ _ =>
    exact h.spare has (spares_put fun ht => by rcases ht with ht | ht <;> cases ht)
  | wakeup k _ => exact h.spare has fun l => spares_of_nudged (nudged_wakeup1 _ _ l)
  | wake i j _ _ | kstack i np _ _ | copy i np _ _ | parent _ i np _ _ =>
    exact h.spare has (spares_put fun _ => ⟨rfl,rfl,rfl⟩)
  | again i _ _ _ hround =>
    refine h.round (b := s.put i { s.task i with chan := none }) has (spares_put ?_) hround
    exact fun _ => ⟨rfl,rfl,rfl⟩
  | kill p _ => exact h.kill (hheeds p rfl) rfl
  | fault i hctx hth =>
    refine h.spare has (spares_put fun ht => ?_)
    change (s.task i).state = .unused ∨ (s.task i).state = .embryo at ht
    rw [hc.running_of_run hctx hth] at ht
    exact by rcases ht with ht | ht <;> cases ht
  | alloc _ i np _ _ _ hstate => exact h.put_of_killed has rfl (h.unused np hstate)
  | noKstack i np hctx hth => exact h.put_of_killed has rfl (hheeds i np hctx (.inl hth))
  | noCopy i np hctx hth => exact h.put_of_killed has rfl (hheeds i np hctx (.inr hth))
  | first _ i _ _ _ _ hround =>
    have hsame : ∀ k, Spares (s.task k) (({ s with lock := some c } : Sched κ n).task k) :=
      fun _ => .refl _
    exact h.round has hsame hround
  | exited _ i _ _ _ =>
    refine h.spare has (exitTasks_related _ (fun _ _ => spares_of_nudged) ?_)
    exact fun _ _ ht => by rcases ht with ht | ht <;> cases ht

/-! ### The calls -/

lemma step_kill (h : Step s (c,.kill pid) s') :
    (∃ p, (List.finRange n).find? (fun p => (s.task p).pid = pid) = some p ∧
      s' = { s.put p (s.task p).kill with kills := s.kills++[pid] }) ∨
    (List.finRange n).find? (fun p => (s.task p).pid = pid) = none ∧ s' = s := by
  obtain ⟨i,j,hperform⟩ : ∃ i j, s.perform c i j (.kill pid) = some s' := by
    simp only [Step,next] at h
    split at h
    · split at h
      · exact ⟨_,_,h⟩
      · cases h
    · cases h
  obtain ⟨-,hfound⟩ := Option.ite_none_right_eq_some.mp hperform
  split at hfound
  · cases hfound
    exact .inl ⟨_,by assumption,rfl⟩
  · cases hfound
    exact .inr ⟨by assumption,rfl⟩

/-- A call of `kill` with the pid of no unused slot does what it should. -/
lemma kill_spec (h : Step s (c,.kill pid) s') (haddr : s.Addressed pid) :
    (s.killRet pid = 0 ↔ ∃ p, (s.task p).state ≠ .unused ∧ (s.task p).pid = pid) ∧
    (s.killRet pid = 0 → ∃ p, (s.task p).state ≠ .unused ∧ (s.task p).pid = pid ∧
      s'.task = Function.update s.task p (s.task p).kill) ∧
    (s.killRet pid ≠ 0 → s.killRet pid = -1 ∧ s' = s) := by
  obtain ⟨p,hfind,rfl⟩ | ⟨hfind,hs⟩ := step_kill h
  · have hpid : (s.task p).pid = pid := by simpa using List.find?_some hfind
    have hret : s.killRet pid = 0 := by
      rw [killRet,hfind]
      rfl
    exact ⟨⟨fun _ => ⟨p,haddr p hpid,hpid⟩,fun _ => hret⟩,fun _ => ⟨p,haddr p hpid,hpid,rfl⟩,
      fun hne => absurd hret hne⟩
  · have hret : s.killRet pid = -1 := by
      rw [killRet,hfind]
      rfl
    have hnone : ∀ p, (s.task p).pid ≠ pid := by
      intro p hp
      have := List.find?_eq_none.mp hfind p (List.mem_finRange p)
      simp [hp] at this
    have hne : s.killRet pid ≠ 0 := by
      rw [hret]
      decide
    refine ⟨⟨fun h0 => absurd h0 hne,?_⟩,fun h0 => absurd h0 hne,fun _ => ⟨hret,hs⟩⟩
    rintro ⟨p,_,hp⟩
    exact absurd hp (hnone p)

/-- `kill` reaches the addressed process only and nothing born later, as long as it is called with
the pid of no unused slot and no `fork` fails whose child has been killed. -/
theorem kill_addresses_living {init : Fin n} {as : List (κ×SchedAct)}
    (h : Run (fun s a s' => Step s a s' ∧ s.Heeds a.1 a.2) (boot init) as s) :
    (∀ c pid s', Step s (c,.kill pid) s' → s.Addressed pid →
      (s.killRet pid = 0 ↔ ∃ p, (s.task p).state ≠ .unused ∧ (s.task p).pid = pid) ∧
      (s.killRet pid = 0 → ∃ p, (s.task p).state ≠ .unused ∧ (s.task p).pid = pid ∧
        s'.task = Function.update s.task p (s.task p).kill) ∧
      (s.killRet pid ≠ 0 → s.killRet pid = -1 ∧ s' = s)) ∧
    ∀ i np, s.th i = .run (.forkStart np) → (s.task np).killed = false ∨
      ∃ c, (c,.kill (s.task np).pid) ∈ as := by
  have hinv : (Cpus s ∧ Births s) ∧ Innocent as s := by
    refine h.invariant (fun as s => (Cpus s ∧ Births s) ∧ Innocent as s) ?_
      ⟨⟨.boot init,.boot init⟩,.boot init⟩
    rintro as s a s' ⟨⟨hc,hb⟩,hi⟩ ⟨hstep,hheeds⟩
    have hm := moves_of_next hstep
    exact ⟨⟨hc.moves hb hm,hb.moves hc hm⟩,hi.moves hc hm hheeds⟩
  refine ⟨fun c pid s' => kill_spec,fun i np hth => ?_⟩
  obtain ⟨⟨_,hb⟩,hi⟩ := hinv
  have hembryo := hb.child i (.forkStart np) np (by rw [hth]; rfl) rfl
  cases hk : (s.task np).killed with
  | false => exact .inl rfl
  | true => exact .inr (hi.embryo np hembryo hk)

instance (s : Sched κ n) (pid : BitVec 32) : Decidable (s.Addressed pid) :=
  inferInstanceAs (Decidable (∀ _, _ → _))

instance (s : Sched κ n) (c : κ) : ∀ a, Decidable (s.Heeds c a)
  | .kill pid => inferInstanceAs (Decidable (s.Addressed pid))
  | .go false => inferInstanceAs (Decidable (∀ i np, s.ctx c = .on i →
      s.th i = .run (.forkKstack np) ∨ s.th i = .run (.forkCopy np) → (s.task np).killed = false))
  | .go true | .scheduler | .swtch | .resume | .yield | .sleep _ | .wakeup _ | .fault | .fork | .wait
  | .exit => isTrue trivial

/-- The first process calls `kill` and forks. -/
def killFork (pid : BitVec 32) : List (Unit×SchedAct) :=
  [((),.scheduler),((),.scheduler),((),.resume),((),.kill pid),((),.fork),((),.go true),
    ((),.go true),((),.go true),
    ((),.go true)]

theorem kill_addresses_living_killFork : ∃ s : Sched Unit 64,
    Run (fun s a s' => Step s a s' ∧ s.Heeds a.1 a.2) (boot 0) (killFork 7) s ∧
      s.th 0 = .run (.forkStart 1) ∧
    ((s.task 1).killed = false ∨ ∃ c, (c,.kill (s.task 1).pid) ∈ killFork 7) := by
  have he : (exec (fun a s => if s.Heeds a.1 a.2 then s.next a.1 a.2 else none) (killFork 7)
      (boot 0 : Sched Unit 64)).map (fun s => decide (s.th 0 = .run (.forkStart 1))) = some true :=
        by decide +kernel
  obtain ⟨s,hs,hd⟩ := Option.map_eq_some_iff.mp he
  have hrun : Run (fun s a s' => Step s a s' ∧ s.Heeds a.1 a.2) (boot 0) (killFork 7) s :=
    .of_exec_if hs
  have hth := of_decide_eq_true hd
  exact ⟨s,hrun,hth,(kill_addresses_living hrun).2 0 1 hth⟩

/-- `kill(0)` returns 0 although no process has pid 0, and the next child is born killed. -/
theorem kill_zero_marks_next_child :
    (boot 0 : Sched Unit 64).killRet 0 = 0 ∧ (∀ p, ((boot 0 : Sched Unit 64).task p).state ≠ .unused →
      ((boot 0 : Sched Unit 64).task p).pid ≠ 0) ∧
    ∃ s : Sched Unit 64, Run Step (boot 0) (killFork 0) s ∧ s.th 0 = .run (.forkStart 1) ∧
      (s.task 1).killed = true ∧ ∀ c, (c,.kill (s.task 1).pid) ∉ killFork 0 := by
  have he : (exec (fun a s => s.next a.1 a.2) (killFork 0) (boot 0 : Sched Unit 64)).map
      (fun s => decide (s.th 0 = .run (.forkStart 1) ∧ (s.task 1).killed = true ∧ (s.task 1).pid = 2)) =
      some true := by decide +kernel
  obtain ⟨s,hs,hd⟩ := Option.map_eq_some_iff.mp he
  obtain ⟨hth,hkilled,hpid⟩ := of_decide_eq_true hd
  refine ⟨by decide +kernel,by decide +kernel,s,.of_exec hs,hth,hkilled,?_⟩
  rw [hpid]
  simp [killFork]

end Sched
end JacobiXv6.Kernel
