import JacobiXv6.Kernel.Family

/-! A pid is returned by `wait` at most once, and `wait` fails only for a process that has no
children or has been killed. -/
namespace JacobiXv6.Kernel
open Library List
namespace Sched

variable {κ : Type*} {n : ℕ} {s s' : Sched κ n} {c d : κ} {i k np : Fin n} {x : Thread n} {a : SchedAct}

/-! ### Pids -/

/-- A pid in the table or returned by `wait` is not given again. -/
structure Pids (s : Sched κ n) : Prop where
  next : s.nextpid.toNat = s.created+1
  le : ∀ i, (s.task i).pid.toNat ≤ s.created
  live : ∀ i, (s.task i).state ≠ .unused → (s.task i).pid ≠ 0
  inj : ∀ i j, (s.task i).pid = (s.task j).pid → (s.task i).pid ≠ 0 → i = j
  gone : ∀ x ∈ s.reaped, x.2.toNat ≤ s.created ∧ x.2 ≠ 0 ∧ ∀ i, (s.task i).pid ≠ x.2
  nodup : (s.reaped.map Prod.snd).Nodup

namespace Pids

lemma boot (init : Fin n) : Pids (boot init : Sched κ n) := by
  have hpid : ∀ i, ((Sched.boot init : Sched κ n).task i).pid = if i = init then 1 else 0 := by
    intro i
    simp only [Sched.boot]
    split_ifs
    exacts [rfl,rfl]
  refine ⟨rfl,?_,?_,?_,(by simp [Sched.boot]),nodup_nil⟩
  · intro i
    rw [hpid]
    split_ifs
    exacts [le_rfl,Nat.zero_le _]
  · intro i hi
    have hii : i = init := by
      by_contra hne
      simp [Sched.boot,hne] at hi
    rw [hpid,if_pos hii]
    decide
  · intro i j hij hi
    rw [hpid] at hij hi
    rw [hpid] at hij
    split_ifs at hij hi with h1 h2
    · exact h1.trans h2.symm
    · cases hij
    · exact absurd rfl hi
    · exact absurd rfl hi

lemma keep (h : Pids s) (hnext : s'.nextpid = s.nextpid) (hcreated : s'.created = s.created)
    (hreaped : s'.reaped = s.reaped) (hk : ∀ k, (s'.task k).pid = (s.task k).pid ∧
      ((s'.task k).state ≠ .unused → (s.task k).state ≠ .unused)) : Pids s' := by
  refine ⟨?_,?_,?_,?_,?_,?_⟩
  · rw [hnext,hcreated]
    exact h.next
  · intro i
    rw [(hk i).1,hcreated]
    exact h.le i
  · intro i hi
    rw [(hk i).1]
    exact h.live i ((hk i).2 hi)
  · intro i j
    rw [(hk i).1,(hk j).1]
    exact h.inj i j
  · intro x hx
    rw [hreaped] at hx
    obtain ⟨hle,hz,hne⟩ := h.gone x hx
    rw [hcreated]
    exact ⟨hle,hz,fun i => by rw [(hk i).1]; exact hne i⟩
  · rw [hreaped]
    exact h.nodup

lemma keep_put {t : Task n} (ht : t.pid = (s.task np).pid)
    (hs : t.state ≠ .unused → (s.task np).state ≠ .unused) (k : Fin n) :
    ((s.put np t).task k).pid = (s.task k).pid ∧
      (((s.put np t).task k).state ≠ .unused → (s.task k).state ≠ .unused) :=
  put_related (R := fun t t' => t'.pid = t.pid ∧ (t'.state ≠ .unused → t.state ≠ .unused))
    (fun _ => ⟨rfl,id⟩)
    ⟨ht,hs⟩ k

lemma keep_nudged {t t' : Task n} (h : Nudged t t') :
    t'.pid = t.pid ∧ (t'.state ≠ .unused → t.state ≠ .unused) := by
  refine ⟨h.rest.1,fun hu hs => hu ?_⟩
  rw [h.state_eq (by rw [hs]; exact nofun),hs]

/-- The number that `allocproc` gives was never given before. -/
lemma alloc (h : Pids s) (np : Fin n) (hlt : s.created+1 < 2^31) (hnext : s'.nextpid = s.nextpid+1)
    (hcreated : s'.created = s.created+1) (hreaped : s'.reaped = s.reaped)
    (hnp : (s'.task np).pid = s.nextpid) (hk : ∀ k, k ≠ np → s'.task k = s.task k) : Pids s' := by
  have hpos : s.nextpid ≠ 0 := by
    intro h0
    have hz := h.next
    rw [h0] at hz
    exact nomatch hz
  have hold : ∀ i, (s.task i).pid ≠ s.nextpid := by
    intro i hi
    have hle := h.le i
    rw [hi,h.next] at hle
    exact Nat.not_succ_le_self _ hle
  refine ⟨?_,?_,?_,?_,?_,?_⟩
  · have hone : (1 : BitVec 32).toNat = 1 := rfl
    rw [hnext,hcreated,BitVec.toNat_add,h.next,hone,Nat.mod_eq_of_lt (by omega)]
  · intro i
    rw [hcreated]
    obtain rfl | hi := eq_or_ne i np
    · rw [hnp,h.next]
    · rw [hk i hi]
      exact (h.le i).trans (Nat.le_succ _)
  · intro i hi
    obtain rfl | hne := eq_or_ne i np
    · rwa [hnp]
    · rw [hk i hne] at hi ⊢
      exact h.live i hi
  · intro i j hij hi
    obtain rfl | hin := eq_or_ne i np <;> obtain rfl | hjn := eq_or_ne j i
    · rfl
    · rw [hnp,hk j hjn] at hij
      exact absurd hij.symm (hold j)
    · rfl
    · obtain rfl | hjn := eq_or_ne j np
      · rw [hnp,hk i hin] at hij
        exact absurd hij (hold i)
      · rw [hk i hin] at hij hi
        rw [hk j hjn] at hij
        exact h.inj i j hij hi
  · intro x hx
    rw [hreaped] at hx
    obtain ⟨hle,hz,hne⟩ := h.gone x hx
    refine ⟨by omega,hz,fun i hi => ?_⟩
    obtain rfl | hin := eq_or_ne i np
    · rw [hnp] at hi
      rw [← hi,h.next] at hle
      omega
    · rw [hk i hin] at hi
      exact hne i hi
  · rw [hreaped]
    exact h.nodup

/-- `wait` returns a pid and takes it out of the table. -/
lemma reap {p : Fin n} {w : Fin n} (h : Pids s) (hp : (s.task p).state = .zombie)
    (hnext : s'.nextpid = s.nextpid) (hcreated : s'.created = s.created)
    (hreaped : s'.reaped = s.reaped++[(w,(s.task p).pid)]) (hself : (s'.task p).pid = 0)
    (hfree : (s'.task p).state = .unused)
    (hk : ∀ k, k ≠ p → (s'.task k).pid = (s.task k).pid ∧ (s'.task k).state = (s.task k).state) :
    Pids s' := by
  have hpos := h.live p (by rw [hp]; exact nofun)
  refine ⟨?_,?_,?_,?_,?_,?_⟩
  · rw [hnext,hcreated]
    exact h.next
  · intro i
    rw [hcreated]
    obtain rfl | hi := eq_or_ne i p
    · rw [hself]
      exact Nat.zero_le _
    · rw [(hk i hi).1]
      exact h.le i
  · intro i hi
    have hip : i ≠ p := by
      rintro rfl
      exact hi hfree
    rw [(hk i hip).1]
    rw [(hk i hip).2] at hi
    exact h.live i hi
  · intro i j hij hi
    have hip : i ≠ p := by
      rintro rfl
      exact hi hself
    have hjp : j ≠ p := by
      rintro rfl
      exact hi (hij.trans hself)
    rw [(hk i hip).1] at hij hi
    rw [(hk j hjp).1] at hij
    exact h.inj i j hij hi
  · intro x hx
    rw [hreaped] at hx
    rw [hcreated]
    obtain hx | hx := mem_append.mp hx
    · obtain ⟨hle,hz,hne⟩ := h.gone x hx
      refine ⟨hle,hz,fun i hi => ?_⟩
      obtain rfl | hip := eq_or_ne i p
      · exact hz (hi.symm.trans hself)
      · exact hne i ((hk i hip).1.symm.trans hi)
    · obtain rfl := mem_singleton.mp hx
      refine ⟨h.le p,hpos,fun i hi => ?_⟩
      obtain rfl | hip := eq_or_ne i p
      · exact hpos (hi.symm.trans hself)
      · rw [(hk i hip).1] at hi
        exact hip (h.inj i p hi (hi ▸ hpos))
  · rw [hreaped,map_append,nodup_append]
    refine ⟨h.nodup,nodup_singleton _,?_⟩
    intro x hx y hy hxy
    obtain ⟨z,hz,rfl⟩ := mem_map.mp hx
    obtain rfl := mem_singleton.mp hy
    exact (h.gone z hz).2.2 p hxy.symm

lemma round (h : Pids s) (hrun : (s.task i).state = .running) (hround : Round s i s') : Pids s' := by
  cases hround with
  | reap p _ hz =>
    refine h.reap (p := p) (w := i) hz rfl rfl rfl ?_ ?_ fun k hk => ?_
    · change ((s.put p _).task p).pid = 0
      rw [put_self]
      rfl
    · change ((s.put p _).task p).state = .unused
      rw [put_self]
      rfl
    · change ((s.put p _).task k).pid = _ ∧ ((s.put p _).task k).state = _
      rw [put_ne _ hk]
      exact ⟨rfl,rfl⟩
  | fail _ => exact h.keep rfl rfl rfl fun k => ⟨rfl,id⟩
  | sleep _ => exact h.keep rfl rfl rfl (keep_put rfl fun _ => by rw [hrun]; exact nofun)

variable [DecidableEq κ]

lemma moves (h : Pids s) (hc : Cpus s) (hb : Births s) (hlt : s'.created < 2^31)
    (hm : Moves s c a s') : Pids s' := by
  have hon : ∀ i j, s.ctx c = .on i → s.th i = .run j → (s.task i).state ≠ .unused := by
    intro i j hctx hth
    rw [hc.running_of_run hctx hth]
    decide
  cases hm with
  | acquire | skip | release | back | swtch | proceed | fork | wait | exit | full =>
    exact h.keep rfl rfl rfl fun k => ⟨rfl,id⟩
  | noKill => exact h
  | dispatch i _ hstate =>
    refine h.keep rfl rfl rfl (keep_put rfl fun _ => ?_)
    rw [hstate]
    decide
  | wakeup l _ => exact h.keep rfl rfl rfl fun k => keep_nudged (nudged_wakeup1 _ _ k)
  | wake i j _ _ | fault i _ _ | kstack i np _ _ | copy i np _ _ | parent _ i np _ _ =>
    exact h.keep rfl rfl rfl (keep_put rfl id)
  | again i _ hctx hth hround =>
    have hput : Pids (s.put i { s.task i with chan := none }) := h.keep rfl rfl rfl (keep_put rfl id)
    apply hput.round ?_ hround
    rw [put_self]
    exact hc.running_of_saved hctx hth
  | yield i j hctx hth _ | sleep l i j hctx hth _ =>
    exact h.keep rfl rfl rfl (keep_put rfl fun _ => hon i j hctx hth)
  | kill p _ =>
    refine h.keep rfl rfl rfl (keep_put rfl fun hu hs => hu ?_)
    simp [Task.kill,hs]
  | alloc _ i np _ _ _ _ =>
    refine h.alloc np hlt rfl rfl rfl ?_ ?_
    · change ((s.put np _).task np).pid = _
      rw [put_self]
    · intro k hk
      exact put_ne _ hk
  | noKstack i np _ _ | noCopy i np _ _ =>
    exact h.keep rfl rfl rfl (keep_put rfl fun hu => absurd rfl hu)
  | start _ i np _ hth _ =>
    refine h.keep rfl rfl rfl (keep_put rfl fun _ => ?_)
    rw [hb.child i _ np (by rw [hth]; rfl) rfl]
    decide
  | first _ i _ hctx hth _ hround =>
    have hlock : Pids { s with lock := some c } := h.keep rfl rfl rfl fun k => ⟨rfl,id⟩
    exact hlock.round (hc.running_of_run hctx hth) hround
  | exited _ i hctx hth _ =>
    refine h.keep rfl rfl rfl ?_
    refine exitTasks_related
      (R := fun t t' => t'.pid = t.pid ∧ (t'.state ≠ .unused → t.state ≠ .unused)) _
      (fun _ _ => keep_nudged) fun t ht => ?_
    exact ⟨(keep_nudged ht).1,fun _ => hon i _ hctx hth⟩

end Pids

/-! ### Who has been killed -/

/-- Who is in `wait` and marked as killed has been killed since it was created: `trap` lets
nobody into a system call who is marked already. -/
def Struck (s : Sched κ n) : Prop :=
  ∀ i, (s.th i).inWait = true → (s.task i).killed = true → (s.task i).pid ∈ s.kills

namespace Struck

lemma boot (init : Fin n) : Struck (boot init : Sched κ n) := by
  intro i _ hkilled
  simp only [Sched.boot] at hkilled
  split_ifs at hkilled

/-- One thread moves, and does not come into `wait` with a mark. -/
lemma act (h : Struck s) (hkills : s'.kills = s.kills) (hth : s'.th = (s.goto i x).th)
    (hx : x.inWait = true → (s.th i).inWait = true ∨ (s'.task i).killed = false)
    (hk : ∀ k, (s'.task k).killed = true → (s.task k).killed = true ∧
      (s'.task k).pid = (s.task k).pid) :
    Struck s' := by
  intro k hin hkilled
  obtain ⟨hold,hpid⟩ := hk k hkilled
  rw [hkills,hpid]
  rw [hth] at hin
  obtain rfl | hki := eq_or_ne k i
  · rw [goto_self] at hin
    rcases hx hin with hin | hnot
    · exact h k hin hold
    · exact nomatch hnot.symm.trans hkilled
  · rw [goto_ne x hki] at hin
    exact h k hin hold

lemma still (h : Struck s) (hkills : s'.kills = s.kills) (hth : s'.th = s.th)
    (hk : ∀ k, (s'.task k).killed = true → (s.task k).killed = true ∧
      (s'.task k).pid = (s.task k).pid) :
    Struck s' := by
  intro k hin hkilled
  obtain ⟨hold,hpid⟩ := hk k hkilled
  rw [hkills,hpid]
  exact h k (hth ▸ hin) hold

lemma same_put {p : Fin n} {t : Task n}
    (ht : t.killed = true → (s.task p).killed = true ∧ t.pid = (s.task p).pid) (k : Fin n) :
    ((s.put p t).task k).killed = true →
      (s.task k).killed = true ∧ ((s.put p t).task k).pid = (s.task k).pid :=
  put_related (R := fun t t' => t'.killed = true → t.killed = true ∧ t'.pid = t.pid)
    (fun _ hk => ⟨hk,rfl⟩) ht k

lemma mark {t : Task n} (h : Struck s) (htask : s'.task = (s.put k t).task) (hth : s'.th = s.th)
    (hpid : t.pid = (s.task k).pid) (hkills : s'.kills = s.kills++[(s.task k).pid]) : Struck s' := by
  intro i hin hkilled
  rw [hkills]
  rw [htask] at hkilled ⊢
  rw [hth] at hin
  obtain rfl | hik := eq_or_ne i k
  · rw [put_self,hpid]
    exact mem_append_right _ mem_cons_self
  · rw [put_ne _ hik] at hkilled ⊢
    exact mem_append_left _ (h i hin hkilled)

lemma round (h : Struck s) (hin : (s.th i).inWait = true) (hround : Round s i s') : Struck s' := by
  cases hround with
  | reap p _ _ => exact h.act (x := .run .user) rfl rfl nofun (same_put nofun)
  | fail _ => exact h.act (x := .run .user) rfl rfl nofun fun k hk => ⟨hk,rfl⟩
  | sleep _ => exact h.act rfl rfl (fun _ => .inl hin) (same_put fun hkilled => ⟨hkilled,rfl⟩)

variable [DecidableEq κ]

lemma moves (h : Struck s) (hq : Quiet s) (hm : Moves s c a s') : Struck s' := by
  have hsame : ∀ {t : Task n} {p : Fin n}, t.killed = (s.task p).killed → t.pid = (s.task p).pid →
      ∀ k, ((s.put p t).task k).killed = true →
        (s.task k).killed = true ∧ ((s.put p t).task k).pid = (s.task k).pid :=
    fun ht hpid => same_put fun hkilled => ⟨ht ▸ hkilled,hpid⟩
  cases hm with
  | acquire | skip | release | back | noKill => exact h.still rfl rfl fun k hk => ⟨hk,rfl⟩
  | dispatch i _ _ => exact h.still rfl rfl (hsame rfl rfl)
  | wakeup l _ =>
    refine h.still rfl rfl fun k hk => ?_
    have hrest := (nudged_wakeup1 (some (.other l)) s.task k).rest
    exact ⟨hrest.2.2.1 ▸ hk,hrest.1⟩
  | swtch i r _ hth =>
    refine h.act rfl rfl (fun hin => .inl ?_) fun k hk => ⟨hk,rfl⟩
    rw [hth]
    cases r <;> exact hin
  | proceed i r j _ hth hr =>
    refine h.act rfl rfl (fun hin => .inl ?_) fun k hk => ⟨hk,rfl⟩
    rw [hth]
    rcases hr with ⟨-,rfl⟩ | rfl
    · exact nomatch hin
    · exact hin
  | wake i j _ hth =>
    refine h.act rfl rfl (fun hin => .inl ?_) (hsame rfl rfl)
    rw [hth]
    exact hin
  | again i _ _ hth hround =>
    have hput : Struck (s.put i { s.task i with chan := none }) := h.still rfl rfl (hsame rfl rfl)
    apply hput.round ?_ hround
    change (s.th i).inWait = true
    rw [hth]
    rfl
  | yield i j _ hth _ | sleep _ i j _ hth _ =>
    refine h.act rfl rfl (fun hin => .inl ?_) (hsame rfl rfl)
    rw [hth]
    exact hin
  | kill p _ => exact h.mark (k := p) rfl rfl rfl rfl
  | fault i _ _ => exact h.mark (k := i) rfl rfl rfl rfl
  | fork i _ _ => exact h.act (x := .run .forking) rfl rfl nofun fun k hk => ⟨hk,rfl⟩
  | wait i _ _ hkilled => exact h.act rfl rfl (fun _ => .inr hkilled) fun k hk => ⟨hk,rfl⟩
  | exit i _ _ _ => exact h.act (x := .run .exiting) rfl rfl nofun fun k hk => ⟨hk,rfl⟩
  | full _ i _ _ => exact h.act (x := .run .user) rfl rfl nofun fun k hk => ⟨hk,rfl⟩
  | alloc _ i np hctx hth _ hstate =>
    -- the slot gets a new pid, but nobody waits in it
    intro k hin hkilled
    obtain rfl | hki := eq_or_ne k i
    · change ((s.goto k _).th k).inWait = true at hin
      rw [goto_self] at hin
      exact nomatch hin
    · change ((s.goto i _).th k).inWait = true at hin
      rw [goto_ne _ hki] at hin
      have hknp : k ≠ np := by
        rintro rfl
        have hquiet := hq k (by rw [hstate]; rfl)
        exact nomatch (Thread.not_inWait_of_quiet hquiet).symm.trans hin
      change ((s.put np _).task k).killed = true at hkilled
      change ((s.put np _).task k).pid ∈ s.kills
      rw [put_ne _ hknp] at hkilled ⊢
      exact h k hin hkilled
  | kstack i np hctx hth =>
    have hmid : Struck ((s.put np { s.task np with kstack := true }).goto np (.saved .forkret)) :=
      h.act (x := .saved .forkret) rfl rfl nofun (hsame rfl rfl)
    exact hmid.act (x := .run (.forkCopy np)) rfl rfl nofun fun k hk => ⟨hk,rfl⟩
  | noKstack i np _ _ | noCopy i np _ _ | start _ i np _ _ _ =>
    exact h.act (x := .run .user) rfl rfl nofun (hsame rfl rfl)
  | copy i np _ _ => exact h.act (x := .run (.forkParent np)) rfl rfl nofun (hsame rfl rfl)
  | parent _ i np _ _ => exact h.act (x := .run (.forkStart np)) rfl rfl nofun (hsame rfl rfl)
  | first _ i _ _ hth _ hround =>
    have hlock : Struck { s with lock := some c } := h.still rfl rfl fun k hk => ⟨hk,rfl⟩
    apply hlock.round ?_ hround
    change (s.th i).inWait = true
    rw [hth]
    rfl
  | exited _ i _ _ _ =>
    refine h.act (x := .sched .dead) rfl rfl nofun ?_
    refine exitTasks_related (R := fun t t' => t'.killed = true → t.killed = true ∧
      t'.pid = t.pid) _ ?_ ?_
    · exact fun _ _ hn hk => ⟨hn.rest.2.2.1 ▸ hk,hn.rest.1⟩
    · exact fun _ hn hk => ⟨hn.rest.2.2.1 ▸ hk,hn.rest.1⟩

end Struck

/-! ### What holds whenever the machine runs -/

variable [DecidableEq κ]

/-- What holds in every state that is reached. -/
structure Reached (s : Sched κ n) : Prop where
  cpus : Cpus s
  births : Births s
  quiet : Quiet s
  leaving : Leaving s
  family : Family s
  struck : Struck s

variable {as : List (κ×SchedAct)}

lemma reached {init : Fin n} (h : Run Step (boot init) as s) : Reached s := by
  refine h.invariant (fun _ s => Reached s) ?_ ⟨.boot init,.boot init,.boot init,.boot init,
    .boot init,.boot init⟩
  rintro _ s a t ⟨hc,hb,hq,hl,hf,hs⟩ hstep
  have hm := moves_of_next hstep
  exact ⟨hc.moves hb hm,hb.moves hc hm,hq.moves hc hb hm,hl.moves hm,hf.moves hc hb hq hl hm,
    hs.moves hq hm⟩

lemma created_le (hm : Moves s c a s') : s.created ≤ s'.created := by
  cases hm with
  | alloc => exact Nat.le_succ _
  | again _ _ _ _ hround | first _ _ _ _ _ _ hround =>
    cases hround <;> exact le_rfl
  | _ => exact le_rfl

lemma pids {init : Fin n} (h : Run Step (boot init) as s)
    (hlt : s.created < 2^31) : Pids s := by
  induction h with
  | nil => exact Pids.boot init
  | snoc hrun hstep ih =>
    have hm := moves_of_next hstep
    have hr := reached hrun
    exact (ih ((created_le hm).trans_lt hlt)).moves hr.cpus hr.births hlt hm

lemma reaped_step (hm : Moves s c a s') : s'.reaped = s.reaped ∨ ∃ w i, s.ctx c = .on w ∧
    (s.task i).parent = some w ∧ (s.task i).state = .zombie ∧
    s'.reaped = s.reaped++[(w,(s.task i).pid)] := by
  cases hm with
  | again i _ hctx _ hround =>
    cases hround with
    | reap p hparent hz =>
      refine .inr ⟨i,p,hctx,?_⟩
      obtain rfl | hp := eq_or_ne p i
      · rw [put_self] at hparent hz ⊢
        exact ⟨hparent,hz,rfl⟩
      · rw [put_ne _ hp] at hparent hz ⊢
        exact ⟨hparent,hz,rfl⟩
    | fail _ => exact .inl rfl
    | sleep _ => exact .inl rfl
  | first _ i _ hctx _ _ hround =>
    cases hround with
    | reap p hparent hz => exact .inr ⟨i,p,hctx,hparent,hz,rfl⟩
    | fail _ => exact .inl rfl
    | sleep _ => exact .inl rfl
  | _ => exact .inl rfl

lemma failed_step (hm : Moves s c a s') : s'.failed = s.failed ∨ ∃ w, s.ctx c = .on w ∧
    (s.th w).inWait = true ∧ ((∀ p, (s.task p).parent ≠ some w) ∨ (s.task w).killed = true) ∧
    s'.failed = s.failed++[w] := by
  cases hm with
  | again i _ hctx hth hround =>
    cases hround with
    | reap _ _ _ => exact .inl rfl
    | fail hwhy =>
      refine .inr ⟨i,hctx,by rw [hth]; rfl,hwhy.imp ?_ ?_,rfl⟩
      · intro hkids p
        obtain rfl | hp := eq_or_ne p i
        · have hp := hkids p
          rwa [put_self] at hp
        · have hp' := hkids p
          rwa [put_ne _ hp] at hp'
      · rw [put_self]
        exact id
    | sleep _ => exact .inl rfl
  | first _ i _ hctx hth _ hround =>
    cases hround with
    | reap _ _ _ => exact .inl rfl
    | fail hwhy => exact .inr ⟨i,hctx,by rw [hth]; rfl,hwhy,rfl⟩
    | sleep _ => exact .inl rfl
  | _ => exact .inl rfl

/-- Every child that exits is reaped by its parent or by init, and by one of them only. A call
of `wait` that fails is one of a process without children, or of one whose pid was killed. -/
theorem exited_child_reaped_once (init : Fin n) (as : List (κ×SchedAct)) (s : Sched κ n)
    (h : Run Step (boot init) as s) (hlt : s.created < 2^31) :
    (s.lock = none → ∀ i, i ≠ s.initproc → (s.task i).state ≠ .unused → (s.task i).state ≠ .embryo →
      ∃ p, (s.task i).parent = some p ∧ (s.task p).state ≠ .unused ∧ (s.task p).state ≠ .zombie) ∧
    (s.lock = none → ∀ i, (s.th i).waits = true → (s.task i).state = .sleeping →
      ∀ k, (s.task k).parent = some i → (s.task k).state ≠ .zombie) ∧
    (∀ pid ∈ s.forked, (s.reaped.map Prod.snd).count pid ≤ 1) ∧
    ∀ a s', Step s a s' →
      (s'.reaped = s.reaped ∨ ∃ w i, s.ctx a.1 = .on w ∧ (s.task i).parent = some w ∧
        s'.reaped = s.reaped++[(w,(s.task i).pid)]) ∧
      (s'.failed = s.failed ∨ ∃ w, s.ctx a.1 = .on w ∧ s'.failed = s.failed++[w] ∧
        ((∀ p, (s.task p).parent ≠ some w) ∨ (s.task w).pid ∈ s.kills)) := by
  have hr := reached h
  refine ⟨?_,?_,?_,?_⟩
  · intro _ i hi hu he
    obtain ⟨p,hp⟩ := Option.ne_none_iff_exists'.mp (hr.family.orphan i hi hu he)
    have halive := hr.family.alive i p hp
    refine ⟨p,hp,fun hs => ?_,fun hs => ?_⟩
    · rw [hs] at halive
      exact nomatch halive
    · rw [hs] at halive
      exact nomatch halive
  · intro _ i hw hs
    exact (hr.family.asleep i hw hs).2
  · intro pid _
    exact nodup_iff_count_le_one.mp (pids h hlt).nodup pid
  · intro a s' hstep
    have hm := moves_of_next hstep
    constructor
    · rcases reaped_step hm with hsame | ⟨w,i,hctx,hparent,-,hnew⟩
      · exact .inl hsame
      · exact .inr ⟨w,i,hctx,hparent,hnew⟩
    · rcases failed_step hm with hsame | ⟨w,hctx,hin,hwhy,hnew⟩
      · exact .inl hsame
      · exact .inr ⟨w,hctx,hnew,hwhy.imp_right (hr.struck w hin)⟩

/-- The wait at the end of `forkExitWait` finds the child. -/
theorem exited_child_reaped_once_forkExitWait : ∃ s : Sched Bool 2,
    Run Step (boot 0) (forkExitWait++[(true,.go true)]) s ∧ s.forked = [2] ∧ s.reaped = [(0,2)] ∧
    (s.reaped.map Prod.snd).count 2 ≤ 1 := by
  have he : (exec (fun a s => s.next a.1 a.2) (forkExitWait++[(true,.go true)])
      (boot 0 : Sched Bool 2)).map
      (fun s => decide (s.created < 2^31 ∧ s.forked = [2] ∧ s.reaped = [(0,2)])) = some true := by
    decide +kernel
  obtain ⟨s,hs,hd⟩ := Option.map_eq_some_iff.mp he
  obtain ⟨hlt,hf,hreap⟩ := of_decide_eq_true hd
  have hrun : Run Step (boot 0) (forkExitWait++[(true,.go true)]) s := .of_exec hs
  obtain ⟨-,-,hone,-⟩ := exited_child_reaped_once 0 _ s hrun hlt
  exact ⟨s,hrun,hf,hreap,hone 2 (by rw [hf]; exact mem_cons_self)⟩

/-- A pid names one process for ever: no two slots in use have the same one, no slot has one that
`wait` has returned, and the next one is new. -/
theorem pids_never_reused (init : Fin n) (as : List (κ×SchedAct)) (s : Sched κ n)
    (h : Run Step (boot init) as s)
    (hlt : s.created < 2^31) :
    (∀ i j, (s.task i).state ≠ .unused → (s.task i).pid = (s.task j).pid → i = j) ∧
    (∀ x ∈ s.reaped, ∀ i, (s.task i).pid ≠ x.2) ∧
    (∀ i, (s.task i).pid ≠ s.nextpid) ∧ ∀ x ∈ s.reaped, x.2 ≠ s.nextpid := by
  have hp := pids h hlt
  have hnew : ∀ pid : BitVec 32, pid.toNat ≤ s.created → pid ≠ s.nextpid := by
    rintro pid hle rfl
    rw [hp.next] at hle
    exact Nat.not_succ_le_self _ hle
  refine ⟨?_,?_,?_,?_⟩
  · intro i j hi hij
    exact hp.inj i j hij (hp.live i hi)
  · intro x hx
    exact (hp.gone x hx).2.2
  · intro i
    exact hnew _ (hp.le i)
  · intro x hx
    exact hnew _ (hp.gone x hx).1

/-- The child that has been waited for had pid 2. -/
theorem pids_never_reused_forkExitWait : ∃ s : Sched Bool 2,
    Run Step (boot 0) (forkExitWait++[(true,.go true)]) s ∧ s.reaped = [(0,2)] ∧
      ∀ i, (s.task i).pid ≠ 2 := by
  have he : (exec (fun a s => s.next a.1 a.2) (forkExitWait++[(true,.go true)])
    (boot 0 : Sched Bool 2)).any
      (fun s => s.created < 2^31 ∧ s.reaped = [(0,2)]) = true := by decide +kernel
  obtain ⟨s,hs,hd⟩ := (Option.any_eq_true _ _).mp he
  obtain ⟨hlt,hreap⟩ := of_decide_eq_true hd
  have hrun : Run Step (boot 0) (forkExitWait++[(true,.go true)]) s := .of_exec hs
  have hgone := (pids_never_reused 0 _ s hrun hlt).2.1
  rw [hreap] at hgone
  exact ⟨s,hrun,hreap,hgone (0,2) mem_cons_self⟩

end Sched
end JacobiXv6.Kernel
