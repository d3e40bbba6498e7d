import JacobiXv6.Kernel.Cpus

/-! The slots that `fork` is filling, and the theorem about the CPUs that rests on both. -/
namespace JacobiXv6.Kernel
open Library
namespace Sched

variable {κ : Type*} {n : ℕ} {s s' : Sched κ n} {c d : κ} {i k np : Fin n} {x : Thread n} {a : SchedAct}

namespace Births

lemma boot (init : Fin n) : Births (Sched.boot init : Sched κ n) := by
  have hjob : ∀ i, ((Sched.boot init : Sched κ n).th i).job = none := by
    intro i
    simp only [Sched.boot]
    split_ifs
    exacts [rfl,rfl]
  refine ⟨?_,?_,?_⟩
  · intro i j np hi
    cases (hjob i).symm.trans hi
  · intro i j np hi
    cases (hjob i).symm.trans hi
  · intro i j i' j' np hi
    cases (hjob i).symm.trans hi

/-- One thread moves. A slot that is being made is not the thread's own, unless it is set up to
return from `fork`. -/
lemma act (h : Births s) (hth : s'.th = (s.goto i x).th)
    (hi : (s.task i).state ≠ .embryo ∨ x = .saved .forkret)
    (hmine : ∀ j np, x.job = some j → j.child = some np → (s'.task np).state = .embryo ∧
      (j.grown = some np → s'.th np = .saved .forkret) ∧
      ∀ k l, k ≠ i → (s.th k).job = some l → l.child ≠ some np)
    (hothers : ∀ k j np, k ≠ i → (s.th k).job = some j → j.child = some np →
      (s'.task np).state = .embryo) : Births s' := by
  have hgrown_child : ∀ (j : Job n) np, j.grown = some np → j.child = some np := by
    intro j np hj
    cases j <;> first | exact hj | exact nomatch hj
  have hx : s'.th i = x := by rw [hth,goto_self]
  have hne : ∀ k, k ≠ i → s'.th k = s.th k := by
    intro k hk
    rw [hth,goto_ne x hk]
  refine ⟨?_,?_,?_⟩
  · intro k j np hk hj
    obtain rfl | hki := eq_or_ne k i
    · rw [hx] at hk
      exact (hmine j np hk hj).1
    · rw [hne k hki] at hk
      exact hothers k j np hki hk hj
  · intro k j np hk hj
    obtain rfl | hki := eq_or_ne k i
    · rw [hx] at hk
      exact (hmine j np hk (hgrown_child j np hj)).2.1 hj
    · rw [hne k hki] at hk
      obtain rfl | hnp := eq_or_ne np i
      · rcases hi with hi | hi
        · exact absurd (h.child k j np hk (hgrown_child j np hj)) hi
        · rw [hx,hi]
      · rw [hne np hnp]
        exact h.grown k j np hk hj
  · intro k j k' j' np hk hj hk' hj'
    obtain rfl | hki := eq_or_ne k i <;> obtain rfl | hki' := eq_or_ne k' k
    · rfl
    · rw [hx] at hk
      rw [hne k' hki'] at hk'
      exact absurd hj' ((hmine j np hk hj).2.2 k' j' hki' hk')
    · rfl
    · rw [hne k hki] at hk
      obtain rfl | hki'' := eq_or_ne k' i
      · rw [hx] at hk'
        exact absurd hj ((hmine j' np hk' hj').2.2 k j hki hk)
      · rw [hne k' hki''] at hk'
        exact h.single k j k' j' np hk hj hk' hj'

variable {j : Job n}

lemma sole (h : Births s) (hi : (s.th i).job = some j) (hj : j.child = some np) :
    ∀ k l, k ≠ i → (s.th k).job = some l → l.child ≠ some np :=
  fun k l hk hl hc => hk (h.single k l i j np hl hc hi hj)

lemma keep (h : Births s) (hth : s'.th = (s.goto i x).th) (hi : (s.task i).state ≠ .embryo)
    (hjob : x.job = (s.th i).job ∨ ∀ j, x.job = some j → j.child = none)
    (hemb : ∀ k, (s.task k).state = .embryo → (s'.task k).state = .embryo) : Births s' := by
  refine h.act hth (.inl hi) ?_ fun k j np _ hk hj => hemb np (h.child k j np hk hj)
  intro j np hj hc
  rcases hjob with hjob | hjob
  · rw [hjob] at hj
    have hnp := h.child i j np hj hc
    refine ⟨hemb np hnp,fun hg => ?_,h.sole hj hc⟩
    have hne : np ≠ i := by
      rintro rfl
      exact hi hnp
    rw [hth,goto_ne x hne]
    exact h.grown i j np hj hg
  · exact nomatch (hjob j hj).symm.trans hc

lemma still (h : Births s) (ht : s'.th = s.th)
    (hemb : ∀ k, (s.task k).state = .embryo → (s'.task k).state = .embryo) : Births s' := by
  refine ⟨?_,?_,?_⟩
  · intro k j np hk hj
    exact hemb np (h.child k j np (ht ▸ hk) hj)
  · rw [ht]
    exact h.grown
  · rw [ht]
    exact h.single

variable {t : Task n}

lemma embryo_put {p : Fin n} (ht : (s.task p).state = .embryo → t.state = .embryo) (k : Fin n) :
    (s.task k).state = .embryo → ((s.put p t).task k).state = .embryo :=
  put_related (R := fun t t' => t.state = .embryo → t'.state = .embryo) (fun _ => id) ht k

lemma embryo_nudged {t' : Task n} (h : Nudged t t') (ht : t.state = .embryo) :
    t'.state = .embryo := by
  rw [h.state_eq (by rw [ht]; exact nofun),ht]

lemma round (h : Births s) (hi : (s.task i).state = .running) (hround : Round s i s') : Births s' := by
  have hne : (s.task i).state ≠ .embryo := by rw [hi]; exact nofun
  have huser : ∀ j, (Thread.run (.user : Job n)).job = some j → j.child = none := by
    rintro j ⟨⟩
    rfl
  cases hround with
  | reap p _ hz =>
    exact h.keep rfl hne (.inr huser) (embryo_put fun hp => nomatch hz.symm.trans hp)
  | fail _ => exact h.keep rfl hne (.inr huser) fun _ => id
  | sleep _ => exact h.keep rfl hne (.inr nofun) (embryo_put fun hp => absurd hp hne)

/-- The child of a `fork` that is not over is an embryo, so it is not the process that forks. -/
lemma ne_child (h : Births s) (hc : Cpus s) (hctx : s.ctx c = .on i)
    (hth : s.th i = .run j) (hj : j.child = some np) : i ≠ np := by
  rintro rfl
  have hstate := h.child i j i (by rw [hth]; rfl) hj
  exact nomatch (hc.running_of_run hctx hth).symm.trans hstate

section

variable (h : Births s) (hi : (s.task i).state ≠ .embryo)
include h hi

/-- A `fork` gives its slot up, or starts it: nobody else was making it. -/
lemma drop
    (hth : s.th i = .run j) (hj : j.child = some np) (hto : s'.th = (s.goto i (.run .user)).th)
    (htask : s'.task = (s.put np t).task) : Births s' := by
  apply h.act hto (.inl hi)
  · rintro j' np' ⟨⟩ hj'
    exact nomatch hj'
  · intro k j' np' hk hkj hj'
    have hnp : np' ≠ np := by
      rintro rfl
      exact h.sole (by rw [hth]; rfl) hj k j' hk hkj hj'
    rw [htask,put_ne _ hnp]
    exact h.child k j' np' hkj hj'

/-- A `fork` goes on with a slot that nobody else is making. -/
lemma advance
    (hto : s'.th = (s.goto i (.run j)).th) (htask : s'.task = (s.put np t).task)
    (hj : j.child = some np)
    (ht : t.state = .embryo) (hgrown : j.grown = some np → s'.th np = .saved .forkret)
    (hsole : ∀ k l, k ≠ i → (s.th k).job = some l → l.child ≠ some np) : Births s' := by
  have hemb : ∀ k, (s.task k).state = .embryo → (s'.task k).state = .embryo := by
    rw [htask]
    exact embryo_put fun _ => ht
  apply h.act hto (.inl hi)
  · rintro l np' ⟨⟩ hl
    obtain rfl : np = np' := Option.some.inj (hj.symm.trans hl)
    refine ⟨?_,hgrown,hsole⟩
    rw [htask,put_self,ht]
  · intro k l np' _ hk hl
    exact hemb np' (h.child k l np' hk hl)

lemma kstack (hth : s.th i = .run (.forkKstack np)) :
    Births (((s.put np { s.task np with kstack := true }).goto np (.saved .forkret)).goto i
      (.run (.forkCopy np))) := by
  have hmine : (s.th i).job = some (.forkKstack np) := by rw [hth]; rfl
  have hnp := h.child i _ np hmine rfl
  have hne : np ≠ i := by
    rintro rfl
    exact hi hnp
  have hemb := embryo_put (s := s) (p := np) (t := { s.task np with kstack := true }) id
  have hready : Births ((s.put np { s.task np with kstack := true }).goto np (.saved .forkret)) := by
    refine h.act rfl (.inr rfl) nofun fun k j np' _ hk hj => ?_
    exact hemb np' (h.child k j np' hk hj)
  refine hready.advance (t := { s.task np with kstack := true }) ?_ rfl ?_ rfl hnp ?_ ?_
  · change ((s.put np _).task i).state ≠ _
    rwa [put_ne _ hne.symm]
  · simp [Sched.goto,Sched.put]
  · intro _
    rw [goto_ne _ hne,goto_self]
  · refine hready.sole (j := .forkKstack np) ?_ rfl
    rw [goto_ne _ hne.symm]
    exact hmine

lemma goto (hj : j.child = none) :
    Births (s.goto i (.run j)) := by
  apply h.keep rfl hi (.inr ?_) fun _ => id
  rintro l ⟨⟩
  exact hj

end

variable [DecidableEq κ]

lemma moves (h : Births s) (hc : Cpus s) (hm : Moves s c a s') : Births s' := by
  have hon : ∀ i, s.ctx c = .on i → (s.task i).state ≠ .embryo :=
    fun i hctx => (hc.used c i (by rw [hctx]; rfl)).2
  have hgo : ∀ i j j' np (t : Task n), s.ctx c = .on i → s.th i = .run j → j.child = some np →
      j.grown = some np → j'.child = some np → t.state = (s.task np).state →
      Births ((s.put np t).goto i (.run j')) := by
    intro i j j' np t hctx hth hj hgrown hj' ht
    have hmine : (s.th i).job = some j := by rw [hth]; rfl
    have hnp := h.child i j np hmine hj
    have hne : np ≠ i := by
      rintro rfl
      exact hon np hctx hnp
    refine h.advance (hon i hctx) rfl rfl hj' (ht.trans hnp) (fun _ => ?_) (h.sole hmine hj)
    rw [goto_ne _ hne]
    exact h.grown i j np hmine hgrown
  cases hm with
  | acquire | skip | release | back => exact h.still rfl fun _ hk => hk
  | dispatch i hctx hstate =>
    exact h.still rfl (embryo_put fun hi => nomatch hstate.symm.trans hi)
  | wakeup k _ => exact h.still rfl fun l hl => embryo_nudged (nudged_wakeup1 _ _ l) hl
  | swtch i r hctx hth =>
    refine h.keep (x := .saved r) rfl (hon i hctx) (.inl ?_) fun _ hk => hk
    rw [hth]
    cases r <;> rfl
  | proceed i r j hctx hth hr =>
    refine h.keep (x := .run j) rfl (hon i hctx) ?_ fun _ hk => hk
    rcases hr with ⟨rfl,rfl⟩ | rfl
    · refine .inr ?_
      rintro j ⟨⟩
      rfl
    · exact .inl (by rw [hth]; rfl)
  | wake i j hctx hth => exact h.keep rfl (hon i hctx) (.inl (by rw [hth]; rfl)) (embryo_put id)
  | again i _ hctx hth hround =>
    have hput : Births (s.put i { s.task i with chan := none }) := h.still rfl (embryo_put id)
    apply hput.round ?_ hround
    rw [put_self]
    exact hc.running_of_saved hctx hth
  | yield i j hctx hth _ | sleep k i j hctx hth _ =>
    exact h.keep rfl (hon i hctx) (.inl (by rw [hth]; rfl))
      (embryo_put fun he => absurd he (hon i hctx))
  | kill p _ =>
    refine h.still rfl (embryo_put fun hp => ?_)
    simp [Task.kill,hp]
  | noKill => exact h
  | fault i _ _ => exact h.still rfl (embryo_put id)
  | fork i hctx hth | wait i hctx hth _ | exit i hctx hth _ | full _ i hctx hth =>
    exact h.goto (hon i hctx) rfl
  | alloc _ i np hctx hth _ hstate =>
    refine h.advance (hon i hctx) rfl rfl rfl rfl nofun ?_
    exact fun k l _ hk hl => nomatch hstate.symm.trans (h.child k l np hk hl)
  | kstack i np hctx hth => exact h.kstack (hon i hctx) hth
  | noKstack i np hctx hth | noCopy i np hctx hth | start _ i np hctx hth _ =>
    exact h.drop (hon i hctx) hth rfl rfl rfl
  | copy i np hctx hth | parent _ i np hctx hth => exact hgo i _ _ np _ hctx hth rfl rfl rfl rfl
  | first _ i _ hctx hth _ hround =>
    have hlock : Births { s with lock := some c } := h.still rfl fun _ => id
    exact hlock.round (hc.running_of_run hctx hth) hround
  | exited _ i hctx hth _ =>
    refine h.keep (x := .sched .dead) rfl (hon i hctx) (.inr nofun) ?_
    exact exitTasks_related _ (fun _ _ => embryo_nudged) fun _ _ he => absurd he (hon i hctx)

end Births

/-! ### What a process has on its CPU stays its own -/

/-- The slot is not freed, and neither are its kernel stack and its page table. -/
structure Kept (t t' : Task n) : Prop where
  slot : t.state = .zombie → t'.state ≠ .unused
  kstack : t.kstack = true → t'.kstack = true
  pgdir : t.pgdir = true → t'.pgdir = true

lemma Kept.refl (t : Task n) : Kept t t := ⟨fun h => by rw [h]; exact nofun,id,id⟩

variable {t : Task n}

lemma kept_of_nudged {t' : Task n} (h : Nudged t t') : Kept t t' := by
  refine ⟨fun hz => ?_,fun hk => h.rest.2.2.2.1.trans hk,fun hp => h.rest.2.2.2.2.trans hp⟩
  rw [h.state_eq (by rw [hz]; exact nofun),hz]
  exact nofun

lemma kept_put (h : Kept (s.task np) t) (k : Fin n) :
    Kept (s.task k) ((s.put np t).task k) := put_related .refl h k

lemma kept_put_of_ne (hk : k ≠ np) : Kept (s.task k) ((s.put np t).task k) := by
  rw [put_ne _ hk]
  exact .refl _

lemma kept_round {b : Sched κ n} (hc : Cpus s) (hctx : s.ctx c = .on i)
    (hrun : (s.task i).state = .running) (hfree : s.lock = none ∨ s.lock = some c)
    (hb : ∀ k, (b.task k).state = (s.task k).state ∧ Kept (s.task k) (b.task k))
    (hround : Round b i s') (hd : (s.ctx d).proc = some k) : Kept (s.task k) (s'.task k) := by
  cases hround with
  | reap p _ hz =>
    rw [(hb p).1] at hz
    have hkp : k ≠ p := by
      rintro rfl
      exact hc.off_of_lock hctx hrun hfree (by rw [hz]; exact nofun) d hd
    change Kept (s.task k) ((b.put p (b.task p).free).task k)
    rw [put_ne _ hkp]
    exact (hb k).2
  | fail _ => exact (hb k).2
  | sleep _ =>
    change Kept (s.task k) ((b.put i _).task k)
    obtain rfl | hki := eq_or_ne k i
    · rw [put_self]
      exact ⟨fun _ => nofun,(hb k).2.kstack,(hb k).2.pgdir⟩
    · rw [put_ne _ hki]
      exact (hb k).2

lemma kept [DecidableEq κ] (hc : Cpus s) (hb : Births s) (hm : Moves s c a s')
    (hd : (s.ctx d).proc = some k) : Kept (s.task k) (s'.task k) := by
  cases hm with
  | acquire | skip | release | back | swtch | proceed | noKill | fork | wait | exit | full =>
    exact .refl _
  | dispatch i _ hstate | yield i j _ _ _ | sleep l i j _ _ _ | start _ i np _ _ _ =>
    refine kept_put ?_ k
    exact ⟨fun _ hu => (by cases hu),id,id⟩
  | wakeup l _ => exact kept_of_nudged (nudged_wakeup1 _ _ k)
  | wake i j _ _ | fault i _ _ | parent _ i np _ _ =>
    refine kept_put ?_ k
    exact ⟨fun hz => by rw [hz]; decide,id,id⟩
  | again i _ hctx hth hround =>
    have hlock := hc.lock.eq_some (p := c) (by rw [Cpus.holds_on hctx,hth]; rfl)
    refine kept_round (b := s.put i { s.task i with chan := none }) hc hctx
      (hc.running_of_saved hctx hth) (.inr hlock) ?_ hround hd
    intro l
    constructor
    · obtain rfl | hl := eq_or_ne l i
      · rw [put_self]
      · rw [put_ne _ hl]
    · refine kept_put ?_ l
      exact ⟨fun hz => by rw [hz]; decide,id,id⟩
  | kill p _ =>
    refine kept_put ?_ k
    exact ⟨fun hz => by simp [Task.kill,hz],id,id⟩
  | alloc _ i np _ _ _ hstate =>
    refine kept_put ?_ k
    exact ⟨fun hz => (by cases hstate.symm.trans hz),id,id⟩
  | kstack i np _ _ =>
    refine kept_put ?_ k
    exact ⟨fun hz => by rw [hz]; decide,fun _ => rfl,id⟩
  | noKstack i np hctx hth | noCopy i np hctx hth =>
    refine kept_put_of_ne ?_
    rintro rfl
    exact hc.off_of_embryo (hb.child i _ k (by rw [hth]; rfl) rfl) d hd
  | copy i np _ _ =>
    refine kept_put ?_ k
    exact ⟨fun hz => by rw [hz]; decide,id,fun _ => rfl⟩
  | first _ i _ hctx hth hl hround =>
    exact kept_round (b := { s with lock := some c }) hc hctx (hc.running_of_run hctx hth) (.inl hl)
      (fun _ => ⟨rfl,.refl _⟩) hround hd
  | exited _ i _ _ _ =>
    refine exitTasks_related s.initproc (fun _ _ => kept_of_nudged) (fun t ht => ?_) k
    exact ⟨fun _ hu => (by cases hu),(kept_of_nudged ht).kstack,(kept_of_nudged ht).pgdir⟩

variable [DecidableEq κ]

lemma reaches {init : Fin n} {as : List (κ×SchedAct)} (h : Run Step (boot init) as s) :
    Cpus s ∧ Births s := by
  refine h.invariant (fun _ s => Cpus s ∧ Births s) ?_ ⟨.boot init,.boot init⟩
  intro _ s a t hs hstep
  have hm := moves_of_next hstep
  exact ⟨hs.1.moves hs.2 hm,hs.2.moves hs.1 hm⟩

/-- On any number of CPUs, whenever `ptable.lock` is free a process is `RUNNING` if and only if
exactly one CPU has it, and no CPU has another; at any time, a step leaves the slot, the
kernel stack and the page table of a process that a CPU has to it. -/
theorem process_on_one_cpu (init : Fin n) (as : List (κ×SchedAct)) (s : Sched κ n)
    (h : Run Step (boot init) as s) :
    (s.lock = none → ∀ i, (s.task i).state = .running ↔ ∃! c, s.proc c = some i) ∧
    (s.lock = none → ∀ c i, s.proc c = some i → (s.task i).state = .running) ∧
    ∀ a t c i, Step s a t → s.proc c = some i → Kept (s.task i) (t.task i) := by
  obtain ⟨hc,hb⟩ := reaches h
  have hrun : s.lock = none → ∀ c i, s.proc c = some i → (s.task i).state = .running := by
    intro hl c i hp
    rw [hc.proc] at hp
    by_contra hne
    exact nomatch hl.symm.trans (hc.lock_of_proc hp hne)
  refine ⟨?_,hrun,?_⟩
  · intro hl i
    constructor
    · intro hi
      obtain ⟨c,hctx⟩ := hc.running i hi
      have hp : s.proc c = some i := by rw [hc.proc,hctx]; rfl
      refine ⟨c,hp,fun d hd => ?_⟩
      rw [hc.proc] at hp
      exact hc.apart d c i ((hc.proc d).symm.trans hd) hp
    · rintro ⟨c,hp,-⟩
      exact hrun hl c i hp
  · intro a t c i hstep hp
    rw [hc.proc] at hp
    exact kept hc hb (moves_of_next hstep) hp

/-- The first process forks, the child exits on the other CPU, and the parent waits for it. -/
def forkExitWait : List (Bool×SchedAct) :=
  [(true,.scheduler),(true,.scheduler),(true,.resume),(true,.fork),(true,.go true),(true,.go true),
    (true,.go true),(true,.go true),(true,.go true),
    (false,.scheduler),(false,.scheduler),(false,.scheduler),(false,.resume),(false,.exit),
    (false,.go true),(false,.swtch),(false,.scheduler),(false,.scheduler),(true,.wait)]

theorem process_on_one_cpu_forkExitWait : ∃ s : Sched Bool 2, Run Step (boot 0) forkExitWait s ∧
    s.lock = none ∧ (s.task 1).state = .zombie ∧ (∀ c, s.proc c ≠ some 1) ∧
    ∃! c, s.proc c = some 0 := by
  have he : (exec (fun a s => s.next a.1 a.2) forkExitWait (boot 0 : Sched Bool 2)).map
      (fun s => decide (s.lock = none ∧ (s.task 0).state = .running ∧ (s.task 1).state = .zombie)) =
      some true := by decide +kernel
  obtain ⟨s,hs,hd⟩ := Option.map_eq_some_iff.mp he
  obtain ⟨hl,h0,h1⟩ := of_decide_eq_true hd
  have hrun : Run Step (boot 0) forkExitWait s := .of_exec hs
  obtain ⟨hiff,hone,-⟩ := process_on_one_cpu 0 forkExitWait s hrun
  refine ⟨s,hrun,hl,h1,fun c hc => ?_,(hiff hl 0).mp h0⟩
  exact nomatch h1.symm.trans (hone hl c 1 hc)

end Sched
end JacobiXv6.Kernel
