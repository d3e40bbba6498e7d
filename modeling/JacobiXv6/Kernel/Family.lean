import JacobiXv6.Kernel.Births

/-! Parents and children: nobody is orphaned, and nobody sleeps in `wait` while a child is a
zombie. -/
namespace JacobiXv6.Kernel
open Library

variable {κ : Type*} {n : ℕ}

/-- The process is asleep in `wait`, or on the way there. -/
def Thread.waits : Thread n → Bool
  | sched .waitSlept | saved .waitSlept => true
  | _ => false

/-- The process is in `wait`. -/
def Thread.inWait (x : Thread n) : Bool := x.waits || x.job = some .waiting

/-- What is left of a thread that has ended, or has not begun. -/
def Thread.quiet : Thread n → Bool
  | sched .dead | saved .dead | saved .forkret => true
  | _ => false

lemma Thread.not_inWait_of_quiet {x : Thread n} (h : x.quiet = true) : x.inWait = false := by
  unfold quiet at h
  split at h <;> first | rfl | exact nomatch h

lemma Thread.job_of_quiet {x : Thread n} (h : x.quiet = true) : x.job = none := by
  unfold quiet at h
  split at h <;> first | rfl | exact nomatch h

namespace ProcState

/-- A process that has been started and has not exited. -/
def alive : ProcState → Bool
  | sleeping | runnable | running => true
  | _ => false

end ProcState

lemma Nudged.alive {t t' : Task n} (h : Nudged t t') : t'.state.alive = t.state.alive := by
  rcases h.state with hs | ⟨hs,hr⟩
  · rw [hs]
  · rw [hs,hr]
    rfl

namespace Sched
variable {s s' : Sched κ n} {c d : κ} {i k np : Fin n} {x : Thread n} {a : SchedAct}

/-! ### Threads of slots that are not alive -/

/-- A slot that is not alive has no thread to speak of. -/
def Quiet (s : Sched κ n) : Prop :=
  ∀ i, (s.task i).state.alive = false → (s.th i).quiet = true

namespace Quiet

lemma boot (init : Fin n) : Quiet (boot init : Sched κ n) := by
  intro i _
  simp only [Sched.boot]
  split_ifs
  exacts [rfl,rfl]

lemma keep (h : Quiet s) (hk : ∀ k, (s'.task k).state.alive = false →
    (s.task k).state.alive = false ∧ s'.th k = s.th k ∨ (s'.th k).quiet = true) : Quiet s' := by
  intro k hdead
  rcases hk k hdead with ⟨hd,hth⟩ | hq
  · rw [hth]
    exact h k hd
  · exact hq

lemma act (h : Quiet s) (hi : (s'.task i).state.alive = true) (hth : ∀ k, k ≠ i → s'.th k = s.th k)
    (hk : ∀ k, k ≠ i → (s'.task k).state.alive = false → (s.task k).state.alive = false) :
    Quiet s' := by
  refine h.keep fun k hdead => .inl ?_
  have hki : k ≠ i := by
    rintro rfl
    exact nomatch hi.symm.trans hdead
  exact ⟨hk k hki hdead,hth k hki⟩

lemma go (h : Quiet s) (hth : s'.th = (s.goto i x).th) (htask : s'.task = s.task)
    (hi : (s.task i).state.alive = true) : Quiet s' := by
  apply h.act (i := i)
  · rw [htask,hi]
  · intro k hk
    rw [hth,goto_ne x hk]
  · intro k _ hk
    rwa [htask] at hk

variable {p : Fin n} {t : Task n}

lemma alive_put (ht : t.state.alive = (s.task p).state.alive) (k : Fin n) :
    ((s.put p t).task k).state.alive = (s.task k).state.alive :=
  put_related (R := fun t t' => t'.state.alive = t.state.alive) (fun _ => rfl) ht k

/-- A live process moves, and a slot that is written stays alive or not alive. -/
lemma go_put (h : Quiet s) (hth : s'.th = (s.goto i x).th)
    (htask : s'.task = (s.put p t).task) (hi : (s.task i).state.alive = true)
    (ht : t.state.alive = (s.task p).state.alive) : Quiet s' := by
  apply h.act (i := i)
  · rw [htask,alive_put ht,hi]
  · intro k hk
    rw [hth,goto_ne x hk]
  · intro k _ hk
    rwa [htask,alive_put ht] at hk

lemma still_put (h : Quiet s) (hth : s'.th = s.th)
    (htask : s'.task = (s.put p t).task) (ht : t.state.alive = (s.task p).state.alive) : Quiet s' := by
  intro k hk
  rw [htask,alive_put ht] at hk
  rw [hth]
  exact h k hk

lemma round (h : Quiet s) (hrun : (s.task i).state = .running) (hround : Round s i s') : Quiet s' := by
  have hi : (s.task i).state.alive = true := by rw [hrun]; rfl
  cases hround with
  | reap p _ hz => exact h.go_put rfl rfl hi (by rw [hz]; rfl)
  | fail _ => exact h.go rfl rfl hi
  | sleep _ => exact h.go_put rfl rfl hi hi.symm

variable [DecidableEq κ]

lemma moves (h : Quiet s) (hc : Cpus s) (hb : Births s) (hm : Moves s c a s') : Quiet s' := by
  have hon : ∀ i j, s.ctx c = .on i → s.th i = .run j → (s.task i).state.alive = true := by
    intro i j hctx hth
    rw [hc.running_of_run hctx hth]
    rfl
  have hback : ∀ i r, s.ctx c = .on i → s.th i = .saved r → (s.task i).state.alive = true := by
    intro i r hctx hth
    rw [hc.running_of_saved hctx hth]
    rfl
  have hchild : ∀ i j np, s.th i = .run j → j.child = some np → (s.task np).state.alive = false := by
    intro i j np hth hj
    rw [hb.child i j np (by rw [hth]; rfl) hj]
    rfl
  cases hm with
  | acquire | skip | release | back | noKill => exact h
  | dispatch i _ hstate => exact h.still_put rfl rfl (by rw [hstate]; rfl)
  | wakeup l _ =>
    refine h.keep fun k hk => .inl ⟨?_,rfl⟩
    rw [← (nudged_wakeup1 (some (.other l)) s.task k).alive]
    exact hk
  | swtch i r hctx hth =>
    refine h.keep fun k hk => ?_
    obtain rfl | hki := eq_or_ne k i
    · have hq := h k hk
      rw [hth] at hq
      refine .inr ?_
      change ((s.goto k (.saved r)).th k).quiet = true
      rw [goto_self]
      cases r <;> first | exact hq | rfl
    · exact .inl ⟨hk,goto_ne _ hki⟩
  | proceed i r j hctx hth _ => exact h.go rfl rfl (hback i r hctx hth)
  | wake i j hctx hth => exact h.go_put rfl rfl (hback i _ hctx hth) rfl
  | again i _ hctx hth hround =>
    have hput : Quiet (s.put i { s.task i with chan := none }) := h.still_put rfl rfl rfl
    apply hput.round ?_ hround
    rw [put_self]
    exact hc.running_of_saved hctx hth
  | yield i j hctx hth _ | sleep l i j hctx hth _ =>
    exact h.go_put rfl rfl (hon i j hctx hth) (hon i j hctx hth).symm
  | kill p _ =>
    refine h.still_put rfl rfl ?_
    unfold Task.kill
    split_ifs with hs
    · rw [hs]
      rfl
    · rfl
  | fault i _ _ => exact h.still_put rfl rfl rfl
  | fork i hctx hth | wait i hctx hth _ | exit i hctx hth _ | full _ i hctx hth =>
    exact h.go rfl rfl (hon i _ hctx hth)
  | alloc _ i np hctx hth _ hstate =>
    exact h.go_put rfl rfl (hon i _ hctx hth) (by rw [hstate]; rfl)
  | kstack i np hctx hth =>
    have hput := alive_put (s := s) (p := np) (t := { s.task np with kstack := true }) rfl
    refine h.keep fun k hk => ?_
    have hki : k ≠ i := by
      rintro rfl
      exact nomatch ((hput k).trans (hon k _ hctx hth)).symm.trans hk
    obtain rfl | hkn := eq_or_ne k np
    · refine .inr ?_
      rw [goto_ne _ hki,goto_self]
      rfl
    · exact .inl ⟨(hput k).symm.trans hk,by rw [goto_ne _ hki,goto_ne _ hkn]; rfl⟩
  | noKstack i np hctx hth | noCopy i np hctx hth =>
    exact h.go_put rfl rfl (hon i _ hctx hth) (hchild i _ np hth rfl).symm
  | copy i np hctx hth | parent _ i np hctx hth => exact h.go_put rfl rfl (hon i _ hctx hth) rfl
  | start _ i np hctx hth _ =>
    have hne := hb.ne_child hc hctx hth rfl
    refine h.act (i := i) ?_ (fun k hk => goto_ne _ hk) fun k _ hk => ?_
    · change ((s.put np _).task i).state.alive = true
      rw [put_ne _ hne]
      exact hon i _ hctx hth
    · change ((s.put np _).task k).state.alive = false at hk
      obtain rfl | hkn := eq_or_ne k np
      · rw [put_self] at hk
        exact nomatch hk
      · rwa [put_ne _ hkn] at hk
  | first _ i _ hctx hth _ hround =>
    have hlock : Quiet { s with lock := some c } := h
    exact hlock.round (hc.running_of_run hctx hth) hround
  | exited _ i hctx hth _ =>
    refine h.keep fun k hk => ?_
    obtain rfl | hki := eq_or_ne k i
    · refine .inr ?_
      change ((s.goto k (.sched .dead)).th k).quiet = true
      rw [goto_self]
      rfl
    · refine .inl ⟨?_,goto_ne _ hki⟩
      simp only [exitTasks,Function.update_of_ne hki] at hk
      rw [((passed_foldl _ _ _ _).nudged k).alive,(nudged_wakeup1 _ _ k).alive] at hk
      exact hk

end Quiet

/-! ### init does not exit -/

/-- A process in `exit` has passed its first test. -/
def Leaving (s : Sched κ n) : Prop := ∀ i, (s.th i).job = some .exiting → i ≠ s.initproc

namespace Leaving

lemma boot (init : Fin n) : Leaving (boot init : Sched κ n) := by
  intro i hi
  simp only [Sched.boot] at hi
  split_ifs at hi <;> cases hi

lemma act (h : Leaving s) (hinit : s'.initproc = s.initproc) (hth : s'.th = (s.goto i x).th)
    (hx : x.job = some .exiting → (s.th i).job = some .exiting ∨ i ≠ s.initproc) : Leaving s' := by
  intro k hk
  rw [hth] at hk
  rw [hinit]
  obtain rfl | hki := eq_or_ne k i
  · rw [goto_self] at hk
    rcases hx hk with hold | hne
    · exact h k hold
    · exact hne
  · rw [goto_ne _ hki] at hk
    exact h k hk

lemma round (h : Leaving s) (hround : Round s i s') : Leaving s' := by
  cases hround with
  | reap | fail | sleep => exact h.act rfl rfl nofun

variable [DecidableEq κ]

lemma moves (h : Leaving s) (hm : Moves s c a s') : Leaving s' := by
  cases hm with
  | acquire | skip | dispatch | release | back | wakeup | kill | noKill | fault => exact h
  | swtch i r _ hth =>
    refine h.act (x := .saved r) rfl rfl fun hj => .inl ?_
    rw [hth]
    cases r <;> exact hj
  | proceed i r j _ hth hr =>
    rcases hr with ⟨rfl,rfl⟩ | rfl
    · exact h.act rfl rfl nofun
    · exact h.act rfl rfl fun hj => .inl (by rw [hth]; exact hj)
  | wake i j _ hth | yield i j _ hth _ | sleep l i j _ hth _ =>
    exact h.act rfl rfl fun hj => .inl (by rw [hth]; exact hj)
  | again i _ _ _ hround =>
    have hput : Leaving (s.put i { s.task i with chan := none }) := h
    exact hput.round hround
  | exit i _ _ hne => exact h.act rfl rfl fun _ => .inr hne
  | kstack i np _ _ =>
    have hnp : Leaving ((s.put np { s.task np with kstack := true }).goto np (.saved .forkret)) :=
      h.act rfl rfl nofun
    exact hnp.act rfl rfl nofun
  | fork | wait | alloc | full | noKstack | copy | noCopy | parent | start | exited =>
    exact h.act rfl rfl nofun
  | first _ i _ _ _ _ hround =>
    have hlock : Leaving { s with lock := some c } := h
    exact hlock.round hround

end Leaving

/-! ### The family -/

/-- The process tree. Every parent is alive; a slot that is being made has a parent only in
the last stage of `fork`, and a process that is asleep in `wait` has no zombie to find. -/
structure Family (s : Sched κ n) : Prop where
  init : (s.task s.initproc).state.alive = true
  root : (s.task s.initproc).parent = none
  proper : ∀ i, (s.task i).parent ≠ some i
  alive : ∀ i p, (s.task i).parent = some p → (s.task p).state.alive = true
  unused : ∀ i, (s.task i).state = .unused → (s.task i).parent = none
  embryo : ∀ i p, (s.task i).state = .embryo → (s.task i).parent = some p →
    (s.th p).job = some (.forkStart i)
  orphan : ∀ i, i ≠ s.initproc → (s.task i).state ≠ .unused → (s.task i).state ≠ .embryo →
    (s.task i).parent ≠ none
  starting : ∀ p i, (s.th p).job = some (.forkStart i) → (s.task i).parent = some p
  asleep : ∀ i, (s.th i).waits = true → (s.task i).state = .sleeping →
    (s.task i).chan = some (.proc i) ∧ ∀ j, (s.task j).parent = some i → (s.task j).state ≠ .zombie

/-- The place of a process in the family is the same as before. -/
structure SameKin (t t' : Task n) : Prop where
  parent : t'.parent = t.parent
  state : t'.state = t.state ∨ t.state.alive = true ∧ t'.state.alive = true

namespace SameKin
variable {t t' : Task n}

lemma refl (t : Task n) : SameKin t t := ⟨rfl,.inl rfl⟩

lemma alive (h : SameKin t t') (ht : t.state.alive = true) : t'.state.alive = true := by
  rcases h.state with hs | hs
  · rwa [hs]
  · exact hs.2

lemma state_iff {y : ProcState} (h : SameKin t t') (hy : y.alive = false) :
    t'.state = y ↔ t.state = y := by
  rcases h.state with hs | ⟨hs,hs'⟩
  · rw [hs]
  · constructor
    · rintro rfl
      exact nomatch hy.symm.trans hs'
    · rintro rfl
      exact nomatch hy.symm.trans hs

lemma of_nudged (h : Nudged t t') (hp : t'.parent = t.parent) : SameKin t t' := by
  refine ⟨hp,h.state.imp_right ?_⟩
  rintro ⟨hs,hr⟩
  rw [hs,hr]
  exact ⟨rfl,rfl⟩

lemma put (h : SameKin (s.task np) t) (k : Fin n) :
    SameKin (s.task k) ((s.put np t).task k) := put_related .refl h k

end SameKin

namespace Family

lemma boot (init : Fin n) : Family (boot init : Sched κ n) := by
  have hparent : ∀ i, ((Sched.boot init : Sched κ n).task i).parent = none := by
    intro i
    simp only [Sched.boot]
    split_ifs
    exacts [rfl,rfl]
  have hjob : ∀ i, ((Sched.boot init : Sched κ n).th i).job = none ∧
      ((Sched.boot init : Sched κ n).th i).waits = false := by
    intro i
    simp only [Sched.boot]
    split_ifs
    exacts [⟨rfl,rfl⟩,⟨rfl,rfl⟩]
  refine ⟨by simp [Sched.boot,ProcState.alive],hparent init,?_,?_,fun i _ => hparent i,?_,?_,?_,?_⟩
  · intro i hi
    cases (hparent i).symm.trans hi
  · intro i p hp
    cases (hparent i).symm.trans hp
  · intro i p _ hp
    cases (hparent i).symm.trans hp
  · intro i hi hu
    change i ≠ init at hi
    simp [Sched.boot,hi] at hu
  · intro p i hp
    cases (hjob p).1.symm.trans hp
  · intro i hi
    cases (hjob i).2.symm.trans hi

section

variable (h : Family s) (hinit : s'.initproc = s.initproc)
include h hinit

lemma keep
    (hk : ∀ k, SameKin (s.task k) (s'.task k))
    (hjob : ∀ p i, (s'.th p).job = some (.forkStart i) ↔ (s.th p).job = some (.forkStart i))
    (hwait : ∀ k, (s'.th k).waits = true → (s'.task k).state = .sleeping →
      ((s.th k).waits = true ∧ (s.task k).state = .sleeping ∧ (s'.task k).chan = (s.task k).chan) ∨
      (s'.task k).chan = some (.proc k) ∧
        ∀ j, (s.task j).parent = some k → (s.task j).state ≠ .zombie) : Family s' := by
  refine ⟨?_,?_,?_,?_,?_,?_,?_,?_,?_⟩
  · rw [hinit]
    exact (hk _).alive h.init
  · rw [hinit,(hk _).parent]
    exact h.root
  · intro i
    rw [(hk i).parent]
    exact h.proper i
  · intro i p hp
    rw [(hk i).parent] at hp
    exact (hk p).alive (h.alive i p hp)
  · intro i hi
    rw [(hk i).parent]
    exact h.unused i (((hk i).state_iff rfl).mp hi)
  · intro i p hi hp
    rw [(hk i).parent] at hp
    exact (hjob p i).mpr (h.embryo i p (((hk i).state_iff rfl).mp hi) hp)
  · intro i hi hu he
    rw [(hk i).parent]
    exact h.orphan i (hinit ▸ hi) (fun hs => hu (((hk i).state_iff rfl).mpr hs))
      fun hs => he (((hk i).state_iff rfl).mpr hs)
  · intro p i hp
    rw [(hk i).parent]
    exact h.starting p i ((hjob p i).mp hp)
  · intro i hi hs
    have hold : (s'.task i).chan = some (.proc i) ∧
        ∀ j, (s.task j).parent = some i → (s.task j).state ≠ .zombie := by
      rcases hwait i hi hs with ⟨hw,hsl,hchan⟩ | hnew
      · rw [hchan]
        exact h.asleep i hw hsl
      · exact hnew
    refine ⟨hold.1,fun j hj hjz => ?_⟩
    rw [(hk j).parent] at hj
    exact hold.2 j hj (((hk j).state_iff rfl).mp hjz)

/-- One thread moves; it does not start anyone, and it is not asleep in `wait`. -/
lemma act
    (hk : ∀ k, SameKin (s.task k) (s'.task k)) (hx : s'.th i = x)
    (hth : ∀ k, k ≠ i → s'.th k = s.th k ∧ ((s'.task k).state = .sleeping →
      (s.task k).state = .sleeping ∧ (s'.task k).chan = (s.task k).chan))
    (hjob : ∀ l, x.job = some (.forkStart l) ↔ (s.th i).job = some (.forkStart l))
    (hwait : x.waits = true → (s'.task i).state ≠ .sleeping) : Family s' := by
  refine h.keep hinit hk ?_ ?_
  · intro p l
    obtain rfl | hne := eq_or_ne p i
    · rw [hx]
      exact hjob l
    · rw [(hth p hne).1]
  · intro k hw hs
    have hki : k ≠ i := by
      rintro rfl
      rw [hx] at hw
      exact hwait hw hs
    obtain ⟨hsame,hsleep⟩ := hth k hki
    exact .inl ⟨hsame ▸ hw,hsleep hs⟩

lemma still (hth : s'.th = s.th)
    (hk : ∀ k, SameKin (s.task k) (s'.task k)) (hs : ∀ k, (s'.task k).state = .sleeping →
      (s.task k).state = .sleeping ∧ (s'.task k).chan = (s.task k).chan) : Family s' := by
  refine h.keep hinit hk (fun p i => by rw [hth]) fun k hw hsleep => .inl ⟨?_,hs k hsleep⟩
  rwa [hth] at hw

lemma go (hth : s'.th = (s.goto i x).th)
    (hk : ∀ k, SameKin (s.task k) (s'.task k)) (hs : ∀ k, k ≠ i → (s'.task k).state = .sleeping →
      (s.task k).state = .sleeping ∧ (s'.task k).chan = (s.task k).chan)
    (hjob : ∀ l, x.job = some (.forkStart l) ↔ (s.th i).job = some (.forkStart l))
    (hwait : x.waits = true → (s'.task i).state ≠ .sleeping) : Family s' := by
  refine h.act hinit hk (hth ▸ goto_self ..) (fun k hki => ⟨?_,hs k hki⟩) hjob hwait
  rw [hth,goto_ne _ hki]

/-- A thread goes on; it started nobody, and does not start anybody now. -/
lemma calls (hth : s'.th = (s.goto i x).th)
    (htask : s'.task = s.task) (hjob : ∀ l, (s.th i).job ≠ some (.forkStart l))
    (hx : ∀ l, x.job ≠ some (.forkStart l)) (hw : x.waits = false) : Family s' := by
  apply h.go hinit hth
  · intro k
    rw [htask]
    exact .refl _
  · intro k _ hs
    rw [htask] at hs ⊢
    exact ⟨hs,rfl⟩
  · exact fun l => ⟨fun hl => absurd hl (hx l),fun hl => absurd hl (hjob l)⟩
  · exact fun hw' => nomatch hw.symm.trans hw'

end

variable {t : Task n}

lemma sleeping_put (ht : t.state ≠ .sleeping ∨ t.state = (s.task np).state ∧
    t.chan = (s.task np).chan) (k : Fin n) (hs : ((s.put np t).task k).state = .sleeping) :
    (s.task k).state = .sleeping ∧ ((s.put np t).task k).chan = (s.task k).chan := by
  obtain rfl | hk := eq_or_ne k np
  · rw [put_self] at hs ⊢
    rcases ht with ht | ⟨ht,hc⟩
    · exact absurd hs ht
    · exact ⟨ht.symm.trans hs,hc⟩
  · rw [put_ne _ hk] at hs ⊢
    exact ⟨hs,rfl⟩

/-- The slot that a `fork` is filling has no parent before the last stage. -/
lemma no_parent {j : Job n} (h : Family s) (hb : Births s) (hnp : (s.task np).state = .embryo)
    (hi : (s.th i).job = some j) (hj : j.child = some np) (hlast : j ≠ .forkStart np) :
    (s.task np).parent = none := by
  rw [Option.eq_none_iff_forall_ne_some]
  intro p hp
  have hstart := h.embryo np p hnp hp
  obtain rfl := hb.single p _ i j np hstart rfl hi hj
  exact hlast (Option.some.inj (hi.symm.trans hstart))

section

variable (h : Family s) (hinit : s'.initproc = s.initproc) (htask : s'.task = (s.put np t).task)
  (hth : s'.th = (s.goto i x).th) (hnp : (s.task np).state.alive = false)
include h hinit htask hth hnp

/-- A slot that is not alive is written by a thread that makes it, starts it or frees it. Nobody
else is starting it, and the thread starts nobody else. -/
lemma replace (hzombie : t.state ≠ .zombie) (hsleep : t.state ≠ .sleeping)
    (hnone : t.state = .unused → t.parent = none)
    (hsome : t.state ≠ .unused → t.state ≠ .embryo → t.parent ≠ none)
    (hparent : ∀ p, t.parent = some p → (s.task p).state.alive = true ∧
      (t.state = .embryo → p = i ∧ x.job = some (.forkStart np)))
    (hothers : ∀ p, p ≠ i → (s.th p).job ≠ some (.forkStart np))
    (hmine : ∀ l, (s.th i).job = some (.forkStart l) → l = np)
    (hx : ∀ l, x.job = some (.forkStart l) → l = np ∧ t.parent = some i) (hw : x.waits = false) :
    Family s' := by
  have hself : s'.task np = t := by rw [htask,put_self]
  have hne : ∀ k, k ≠ np → s'.task k = s.task k := by
    intro k hk
    rw [htask,put_ne _ hk]
  have hthi : s'.th i = x := by rw [hth,goto_self]
  have hthne : ∀ k, k ≠ i → s'.th k = s.th k := by
    intro k hk
    rw [hth,goto_ne _ hk]
  have hlive : ∀ p, (s.task p).state.alive = true → p ≠ np := by
    rintro p hp rfl
    exact nomatch hp.symm.trans hnp
  have hpar : ∀ k p, (s'.task k).parent = some p → (s.task p).state.alive = true := by
    intro k p hp
    obtain rfl | hk := eq_or_ne k np
    · rw [hself] at hp
      exact (hparent p hp).1
    · rw [hne k hk] at hp
      exact h.alive k p hp
  refine ⟨?_,?_,?_,?_,?_,?_,?_,?_,?_⟩
  · rw [hinit,hne _ (hlive _ h.init)]
    exact h.init
  · rw [hinit,hne _ (hlive _ h.init)]
    exact h.root
  · intro k hk
    rw [hne k (hlive k (hpar k k hk))] at hk
    exact h.proper k hk
  · intro k p hp
    rw [hne p (hlive p (hpar k p hp))]
    exact hpar k p hp
  · intro k hk
    obtain rfl | hkn := eq_or_ne k np
    · rw [hself] at hk ⊢
      exact hnone hk
    · rw [hne k hkn] at hk ⊢
      exact h.unused k hk
  · intro k p hk hp
    obtain rfl | hkn := eq_or_ne k np
    · rw [hself] at hk hp
      obtain ⟨rfl,hjob⟩ := (hparent p hp).2 hk
      rw [hthi,hjob]
    · rw [hne k hkn] at hk hp
      have hjob := h.embryo k p hk hp
      have hpi : p ≠ i := by
        rintro rfl
        exact hkn (hmine k hjob)
      rw [hthne p hpi]
      exact hjob
  · intro k hk hu he
    obtain rfl | hkn := eq_or_ne k np
    · rw [hself] at hu he ⊢
      exact hsome hu he
    · rw [hne k hkn] at hu he ⊢
      exact h.orphan k (hinit ▸ hk) hu he
  · intro p k hp
    obtain rfl | hpi := eq_or_ne p i
    · rw [hthi] at hp
      obtain ⟨rfl,hmade⟩ := hx k hp
      rw [hself,hmade]
    · rw [hthne p hpi] at hp
      have hkn : k ≠ np := by
        rintro rfl
        exact hothers p hpi hp
      rw [hne k hkn]
      exact h.starting p k hp
  · intro k hk hs
    have hki : k ≠ i := by
      rintro rfl
      rw [hthi] at hk
      exact nomatch hw.symm.trans hk
    have hkn : k ≠ np := by
      rintro rfl
      rw [hself] at hs
      exact hsleep hs
    rw [hthne k hki] at hk
    rw [hne k hkn] at hs ⊢
    obtain ⟨hchan,hz⟩ := h.asleep k hk hs
    refine ⟨hchan,fun j hj => ?_⟩
    obtain rfl | hjn := eq_or_ne j np
    · rwa [hself]
    · rw [hne j hjn] at hj ⊢
      exact hz j hj

/-- The slot has no parent afterwards. -/
lemma vacate (ht : t.state = .unused ∨ t.state = .embryo)
    (hnone : t.parent = none) (hstart : ∀ p, (s.th p).job ≠ some (.forkStart np))
    (hmine : ∀ l, (s.th i).job ≠ some (.forkStart l)) (hx : ∀ l, x.job ≠ some (.forkStart l))
    (hw : x.waits = false) : Family s' := by
  apply h.replace hinit htask hth hnp
  · rcases ht with ht | ht <;> rw [ht] <;> exact nofun
  · rcases ht with ht | ht <;> rw [ht] <;> exact nofun
  · exact fun _ => hnone
  · intro hu he
    exact absurd ht (not_or.mpr ⟨hu,he⟩)
  · intro p hp
    exact nomatch hnone.symm.trans hp
  · exact fun p _ => hstart p
  · exact fun l hl => absurd hl (hmine l)
  · exact fun l hl => absurd hl (hx l)
  · exact hw

end

/-- A `fork` that fails gives its slot back. -/
lemma giveUp {j : Job n} (h : Family s) (hb : Births s) (hinit : s'.initproc = s.initproc)
    (htask : s'.task = (s.put np t).task) (hto : s'.th = (s.goto i (.run .user)).th)
    (hth : s.th i = .run j)
    (hj : j.child = some np) (hlast : j ≠ .forkStart np) (ht : t.state = .unused)
    (hparent : t.parent = (s.task np).parent) : Family s' := by
  have hjob : (s.th i).job = some j := by rw [hth]; rfl
  have hstate := hb.child i j np hjob hj
  have hnone := h.no_parent hb hstate hjob hj hlast
  apply h.vacate hinit htask hto (by rw [hstate]; rfl) (.inl ht) (hparent.trans hnone)
  · exact fun p hp => nomatch hnone.symm.trans (h.starting p np hp)
  · intro l hl
    obtain rfl := Option.some.inj (hjob.symm.trans hl)
    cases hj
    exact hlast rfl
  · exact fun _ => nofun
  · rfl

/-- One round of `wait`. The thread was not starting anyone. -/
lemma round (h : Family s) (hb : Births s) (hrun : (s.task i).state = .running)
    (hjob : ∀ l, (s.th i).job ≠ some (.forkStart l)) (hround : Round s i s') : Family s' := by
  cases hround with
  | reap p _ hz =>
    refine h.vacate rfl rfl rfl (by rw [hz]; rfl) (.inl rfl) rfl ?_ hjob (fun _ => nofun) rfl
    intro q hq
    exact nomatch (hb.child q _ p hq rfl).symm.trans hz
  | fail _ => exact h.calls rfl rfl rfl hjob (fun _ => nofun) rfl
  | sleep hnone =>
    refine h.keep rfl (SameKin.put ⟨rfl,.inr ⟨by rw [hrun]; rfl,rfl⟩⟩) ?_ ?_
    · intro p l
      obtain rfl | hp := eq_or_ne p i
      · rw [goto_self]
        exact ⟨nofun,fun hl => absurd hl (hjob l)⟩
      · rw [goto_ne _ hp]
        rfl
    · intro k hw hs
      obtain rfl | hk := eq_or_ne k i
      · refine .inr ⟨?_,hnone⟩
        change ((s.put k _).task k).chan = _
        rw [put_self]
      · rw [goto_ne _ hk] at hw
        change ((s.put i _).task k).state = _ at hs
        rw [put_ne _ hk] at hs
        refine .inl ⟨hw,hs,?_⟩
        change ((s.put i _).task k).chan = _
        rw [put_ne _ hk]

/-- `exit`. The parent is woken before there is a zombie to find, and init is woken if it
inherits one; both are asleep on their own address. -/
lemma exited (h : Family s) (hi : (s.task i).state = .running) (hth : s.th i = .run .exiting)
    (hne : i ≠ s.initproc) (lock : Option κ) :
    Family { s.goto i (.sched .dead) with
      task := exitTasks i s.initproc s.task, lock := lock } := by
  obtain ⟨hparent,hnudged,hwoken⟩ := passed_foldl i s.initproc (List.finRange n)
    (wakeup1 ((s.task i).parent.map .proc) s.task)
  have htask : ∀ k, k ≠ i → exitTasks i s.initproc s.task k = (List.finRange n).foldl
      (passToInit i s.initproc) (wakeup1 ((s.task i).parent.map .proc) s.task) k :=
    fun k hk => Function.update_of_ne hk _ _
  have hself : (exitTasks i s.initproc s.task i).state = .zombie := by simp [exitTasks]
  have hpar : ∀ k, (exitTasks i s.initproc s.task k).parent =
      if (s.task k).parent = some i then some s.initproc else (s.task k).parent := by
    intro k
    have hk := hparent k
    rw [wakeup1_parent] at hk
    simp only [List.mem_finRange,true_and] at hk
    obtain rfl | hki := eq_or_ne k i
    · rw [← hk]
      simp [exitTasks]
    · rw [htask k hki,hk]
  have hnud : ∀ k, k ≠ i → Nudged (s.task k) (exitTasks i s.initproc s.task k) := by
    intro k hk
    rw [htask k hk]
    exact (nudged_wakeup1 _ _ k).trans (hnudged k)
  have hstate : ∀ k y, y ≠ .sleeping → y ≠ .runnable → y ≠ .zombie →
      (exitTasks i s.initproc s.task k).state = y → k ≠ i ∧ (s.task k).state = y := by
    intro k y hys hyr hyz hk
    have hki : k ≠ i := by
      rintro rfl
      exact hyz (hk.symm.trans hself)
    rcases (hnud k hki).state with hs | ⟨-,hr⟩
    · exact ⟨hki,hs.symm.trans hk⟩
    · exact absurd (hk.symm.trans hr) hyr
  have hlive : ∀ p, p ≠ i → (s.task p).state.alive = true →
      (exitTasks i s.initproc s.task p).state.alive = true := by
    intro p hp hpl
    rw [(hnud p hp).alive]
    exact hpl
  have hjob : ∀ p k, ((s.goto i (.sched .dead)).th p).job = some (.forkStart k) →
      p ≠ i ∧ (s.th p).job = some (.forkStart k) := by
    intro p k hp
    have hpi : p ≠ i := by
      rintro rfl
      rw [goto_self] at hp
      cases hp
    rw [goto_ne _ hpi] at hp
    exact ⟨hpi,hp⟩
  refine ⟨hlive _ hne.symm h.init,?_,?_,?_,?_,?_,?_,?_,?_⟩
  · change (exitTasks i s.initproc s.task s.initproc).parent = none
    rw [hpar,h.root]
    rfl
  · intro k hk
    change (exitTasks i s.initproc s.task k).parent = some k at hk
    rw [hpar] at hk
    split_ifs at hk with hc
    · obtain rfl := Option.some.inj hk
      cases h.root.symm.trans hc
    · exact h.proper k hk
  · intro k p hp
    change (exitTasks i s.initproc s.task k).parent = some p at hp
    rw [hpar] at hp
    split_ifs at hp with hc
    · cases hp
      exact hlive _ hne.symm h.init
    · exact hlive p (fun hpi => hc (hpi ▸ hp)) (h.alive k p hp)
  · intro k hk
    obtain ⟨-,hk⟩ := hstate k .unused (by decide) (by decide) (by decide) hk
    change (exitTasks i s.initproc s.task k).parent = none
    rw [hpar,h.unused k hk]
    rfl
  · intro k p hk hp
    obtain ⟨-,hk⟩ := hstate k .embryo (by decide) (by decide) (by decide) hk
    change (exitTasks i s.initproc s.task k).parent = some p at hp
    rw [hpar] at hp
    have hexit : (s.task k).parent ≠ some i := by
      intro hc
      have hstart := h.embryo k i hk hc
      rw [hth] at hstart
      cases hstart
    rw [if_neg hexit] at hp
    have hpi : p ≠ i := fun hpi => hexit (hpi ▸ hp)
    change ((s.goto i (.sched .dead)).th p).job = _
    rw [goto_ne _ hpi]
    exact h.embryo k p hk hp
  · intro k hk hu he
    change (exitTasks i s.initproc s.task k).parent ≠ none
    rw [hpar]
    split_ifs with hc
    · exact Option.some_ne_none _
    · obtain rfl | hki := eq_or_ne k i
      · exact h.orphan k hk (by rw [hi]; decide) (by rw [hi]; decide)
      · apply h.orphan k hk
        · exact fun hs => hu ((hnud k hki).state_eq (by rw [hs]; decide) |>.trans hs)
        · exact fun hs => he ((hnud k hki).state_eq (by rw [hs]; decide) |>.trans hs)
  · intro p k hp
    obtain ⟨hpi,hp⟩ := hjob p k hp
    have hk := h.starting p k hp
    change (exitTasks i s.initproc s.task k).parent = some p
    rw [hpar,if_neg,hk]
    rw [hk]
    exact fun he => hpi (Option.some.inj he)
  · intro k hk hs
    change ((s.goto i (.sched .dead)).th k).waits = true at hk
    change (exitTasks i s.initproc s.task k).state = .sleeping at hs
    have hki : k ≠ i := by
      rintro rfl
      rw [goto_self] at hk
      cases hk
    rw [goto_ne _ hki] at hk
    have hsleep : (s.task k).state = .sleeping := by
      rcases (hnud k hki).state with he | ⟨he,-⟩
      · exact he.symm.trans hs
      · exact he
    obtain ⟨hchan,hnone⟩ := h.asleep k hk hsleep
    refine ⟨(hnud k hki).rest.2.1.trans hchan,fun j hj hjz => ?_⟩
    change (exitTasks i s.initproc s.task j).parent = some k at hj
    change (exitTasks i s.initproc s.task j).state = .zombie at hjz
    rw [htask k hki] at hs
    obtain rfl | hji := eq_or_ne j i
    · -- the process that exits has woken its parent
      rw [hpar,if_neg (h.proper j)] at hj
      refine (hnudged k).awake ?_ hs
      apply wakeup1_awake
      rw [hchan,hj]
      rfl
    · have hjz' : (s.task j).state = .zombie := by
        rcases (hnud j hji).state with he | ⟨-,he⟩
        · exact he.symm.trans hjz
        · cases he.symm.trans hjz
      rw [hpar] at hj
      split_ifs at hj with hc
      · -- a zombie is passed on to init, which is woken
        cases hj
        have hw := nudged_wakeup1 ((s.task i).parent.map .proc) s.task
        refine hwoken j (List.mem_finRange j) ?_ ?_ s.initproc ?_ hs
        · rw [wakeup1_parent]
          exact hc
        · rw [(hw j).state_eq (by rw [hjz']; decide),hjz']
        · rw [(hw s.initproc).rest.2.1,hchan]
      · exact hnone j hj hjz'

variable [DecidableEq κ]

lemma moves (h : Family s) (hc : Cpus s) (hb : Births s) (hq : Quiet s) (hl : Leaving s)
    (hm : Moves s c a s') : Family s' := by
  have hon : ∀ i j, s.ctx c = .on i → s.th i = .run j → (s.task i).state.alive = true := by
    intro i j hctx hth
    rw [hc.running_of_run hctx hth]
    rfl
  have hmaker : ∀ i j np, s.th i = .run j → j.child = some np → ∀ p, p ≠ i →
      (s.th p).job ≠ some (.forkStart np) := by
    intro i j np hth hj p hpi hp
    exact hpi (hb.single p _ i j np hp rfl (by rw [hth]; rfl) hj)
  cases hm with
  | acquire | skip | release | back => exact h.still rfl rfl (fun k => .refl _) fun k hs => ⟨hs,rfl⟩
  | noKill => exact h
  | dispatch i _ hstate =>
    exact h.still rfl rfl (SameKin.put ⟨rfl,.inr ⟨by rw [hstate]; rfl,rfl⟩⟩)
      (sleeping_put (.inl nofun))
  | wakeup l _ =>
    refine h.still rfl rfl (fun k => .of_nudged (nudged_wakeup1 _ _ k) (wakeup1_parent _ _ k)) ?_
    intro k hs
    have hk := nudged_wakeup1 (some (.other l)) s.task k
    rcases hk.state with he | ⟨-,he⟩
    · exact ⟨he.symm.trans hs,hk.rest.2.1⟩
    · exact nomatch he.symm.trans hs
  | swtch i r hctx hth =>
    refine h.keep rfl (fun k => .refl _) ?_ ?_
    · intro p l
      change ((s.goto i (.saved r)).th p).job = _ ↔ _
      obtain rfl | hp := eq_or_ne p i
      · rw [goto_self,hth]
        cases r <;> rfl
      · rw [goto_ne _ hp]
    · intro k hw hs
      change ((s.goto i (.saved r)).th k).waits = true at hw
      refine .inl ⟨?_,hs,rfl⟩
      obtain rfl | hk := eq_or_ne k i
      · rw [goto_self] at hw
        rw [hth]
        cases r <;> exact hw
      · rwa [goto_ne _ hk] at hw
  | proceed i r j hctx hth hr =>
    change Family { s.goto i (.run j) with lock := none }
    refine h.go rfl rfl (fun k => .refl _)
      (fun k _ hs => ⟨hs,rfl⟩) ?_ fun hw => nomatch hw
    intro l
    rw [hth]
    rcases hr with ⟨rfl,rfl⟩ | rfl
    · exact ⟨nofun,nofun⟩
    · exact .rfl
  | wake i j hctx hth =>
    refine h.go rfl rfl (SameKin.put ⟨rfl,.inl rfl⟩) ?_ (fun l => by rw [hth]; rfl) fun hw => nomatch hw
    intro k hk hs
    change ((s.put i _).task k).state = _ at hs
    change _ ∧ ((s.put i _).task k).chan = _
    rw [put_ne _ hk] at hs ⊢
    exact ⟨hs,rfl⟩
  | again i _ hctx hth hround =>
    have hrun := hc.running_of_saved hctx hth
    have hput : Family (s.put i { s.task i with chan := none }) :=
      h.still rfl rfl (SameKin.put ⟨rfl,.inl rfl⟩) (sleeping_put (.inl (by rw [hrun]; exact nofun)))
    refine hput.round (hb.still rfl (Births.embryo_put id)) ?_ ?_ hround
    · rw [put_self]
      exact hrun
    · intro l
      change (s.th i).job ≠ _
      rw [hth]
      exact nofun
  | yield i j hctx hth _ =>
    refine h.go rfl rfl (SameKin.put ⟨rfl,.inr ⟨hon i j hctx hth,rfl⟩⟩) ?_ (fun l => by rw [hth]; rfl)
      fun hw => nomatch hw
    intro k _
    apply sleeping_put
    exact .inl nofun
  | sleep l i j hctx hth _ =>
    refine h.go rfl rfl (SameKin.put ⟨rfl,.inr ⟨hon i j hctx hth,rfl⟩⟩) ?_ (fun l => by rw [hth]; rfl)
      fun hw => nomatch hw
    intro k hk hs
    change ((s.put i _).task k).state = _ at hs
    change _ ∧ ((s.put i _).task k).chan = _
    rw [put_ne _ hk] at hs ⊢
    exact ⟨hs,rfl⟩
  | kill p _ =>
    refine h.still rfl rfl (SameKin.put ⟨rfl,?_⟩) (sleeping_put ?_)
    · unfold Task.kill
      split_ifs with hs
      · rw [hs]
        exact .inr ⟨rfl,rfl⟩
      · exact .inl rfl
    · unfold Task.kill
      split_ifs with hs
      · exact .inl nofun
      · exact .inl hs
  | fault i _ _ =>
    exact h.still rfl rfl (SameKin.put ⟨rfl,.inl rfl⟩) (sleeping_put (.inr ⟨rfl,rfl⟩))
  | fork i hctx hth | wait i hctx hth _ | exit i hctx hth _ | full _ i hctx hth =>
    exact h.calls rfl rfl rfl (by rw [hth]; exact fun _ => nofun) (fun _ => nofun) rfl
  | alloc _ i np hctx hth _ hstate =>
    refine h.vacate rfl rfl rfl (by rw [hstate]; rfl) (.inr rfl) (h.unused np hstate) ?_
      (by rw [hth]; exact fun _ => nofun) (fun _ => nofun) rfl
    exact fun p hp => nomatch (h.unused np hstate).symm.trans (h.starting p np hp)
  | kstack i np hctx hth =>
    have hnp : (s.task np).state.alive = false := by
      rw [hb.child i _ np (by rw [hth]; rfl) rfl]
      rfl
    have hmade : Family ((s.put np { s.task np with kstack := true }).goto np (.saved .forkret)) := by
      refine h.go rfl rfl (SameKin.put ⟨rfl,.inl rfl⟩) ?_ ?_ fun hw => nomatch hw
      · intro k _
        apply sleeping_put
        exact .inr ⟨rfl,rfl⟩
      intro l
      rw [Thread.job_of_quiet (hq np hnp)]
      exact ⟨nofun,nofun⟩
    refine hmade.go rfl rfl (fun k => .refl _) (fun k _ hs => ⟨hs,rfl⟩) ?_ fun hw => nomatch hw
    intro l
    rw [goto_ne _ (hb.ne_child hc hctx hth rfl)]
    change _ ↔ (s.th i).job = _
    rw [hth]
    exact ⟨nofun,nofun⟩
  | noKstack i np hctx hth | noCopy i np hctx hth =>
    exact h.giveUp hb rfl rfl rfl hth rfl nofun rfl rfl
  | copy i np hctx hth =>
    refine h.go rfl rfl (SameKin.put ⟨rfl,.inl rfl⟩) ?_ ?_ fun hw => nomatch hw
    · intro k _
      apply sleeping_put
      exact .inr ⟨rfl,rfl⟩
    intro l
    rw [hth]
    exact ⟨nofun,nofun⟩
  | parent _ i np hctx hth =>
    have hstate := hb.child i _ np (by rw [hth]; rfl) rfl
    refine h.replace rfl rfl rfl (by rw [hstate]; rfl) ?_ ?_ ?_ ?_ ?_ (hmaker i _ np hth rfl) ?_ ?_ rfl
    · change (s.task np).state ≠ _
      rw [hstate]
      exact nofun
    · change (s.task np).state ≠ _
      rw [hstate]
      exact nofun
    · intro hu
      exact nomatch hstate.symm.trans hu
    · exact fun _ _ => nofun
    · rintro p ⟨⟩
      exact ⟨hon i _ hctx hth,fun _ => ⟨rfl,rfl⟩⟩
    · rw [hth]
      exact fun _ => nofun
    · rintro l ⟨⟩
      exact ⟨rfl,rfl⟩
  | start _ i np hctx hth _ =>
    have hstate := hb.child i _ np (by rw [hth]; rfl) rfl
    have hparent := h.starting i np (by rw [hth]; rfl)
    refine h.replace rfl rfl rfl (by rw [hstate]; rfl) nofun nofun nofun ?_ ?_
      (hmaker i _ np hth rfl) ?_
      (fun _ => nofun) rfl
    · intro _ _
      rw [hparent]
      exact nofun
    · intro p hp
      obtain rfl : i = p := Option.some.inj (hparent.symm.trans hp)
      exact ⟨hon i _ hctx hth,nofun⟩
    · intro l hl
      rw [hth] at hl
      cases hl
      rfl
  | first _ i _ hctx hth _ hround =>
    have hlock : Family { s with lock := some c } :=
      h.still rfl rfl (fun k => .refl _) fun k hs => ⟨hs,rfl⟩
    refine hlock.round (hb.still rfl fun _ => id) (hc.running_of_run hctx hth) ?_ hround
    intro l
    change (s.th i).job ≠ _
    rw [hth]
    exact nofun
  | exited _ i hctx hth _ =>
    exact h.exited (hc.running_of_run hctx hth) hth (hl i (by rw [hth]; rfl)) _

end Family

end Sched
end JacobiXv6.Kernel
