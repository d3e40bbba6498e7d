import JacobiXv6.Library.Holders
import JacobiXv6.Kernel.Sched

/-! Who has `ptable.lock` at each point, and why a process never runs on two CPUs. -/
namespace JacobiXv6.Kernel
open Library
open Function (update update_self update_of_ne update_eq_self)

variable {κ : Type*} {n : ℕ}

/-- The process that a CPU has, by what it executes. -/
def Ctx.proc : Ctx n → Option (Fin n)
  | idle | scan _ => none
  | back i | on i => some i

/-- A thread that is behind an `acquire` of the lock or behind a switch to it has the lock. -/
def Thread.held : Thread n → Bool
  | run _ => false
  | _ => true

def Thread.job : Thread n → Option (Job n)
  | run j | sched (.yielded j) | sched (.slept j) | saved (.yielded j) | saved (.slept j) => some j
  | _ => none

/-- The slot that a `fork` under way has taken. -/
def Job.child : Job n → Option (Fin n)
  | forkKstack np | forkCopy np | forkParent np | forkStart np => some np
  | _ => none

def Job.grown : Job n → Option (Fin n)
  | forkCopy np | forkParent np | forkStart np => some np
  | _ => none

namespace Sched
variable {s s' : Sched κ n} {c d : κ} {i k np : Fin n} {x : Thread n} {a : SchedAct}

/-- The CPU has `ptable.lock`. -/
def holds (s : Sched κ n) (c : κ) : Bool :=
  match s.ctx c with
  | .idle => false
  | .scan _ | .back _ => true
  | .on i => (s.th i).held

/-- The CPUs, their processes and the lock. A process on a CPU is `RUNNING` until it is about to
switch; one that is not on a CPU and may get there has a saved context. -/
structure Cpus (s : Sched κ n) : Prop where
  proc : ∀ c, s.proc c = (s.ctx c).proc
  lock : Owns s.holds s.lock
  apart : ∀ c d i, (s.ctx c).proc = some i → (s.ctx d).proc = some i → c = d
  used : ∀ c i, (s.ctx c).proc = some i →
    (s.task i).state ≠ .unused ∧ (s.task i).state ≠ .embryo
  on : ∀ c i, s.ctx c = .on i → ((s.task i).state = .running ↔ ∀ r, s.th i ≠ .sched r)
  running : ∀ i, (s.task i).state = .running → ∃ c, s.ctx c = .on i
  parked : ∀ i, (s.task i).state = .runnable ∨ (s.task i).state = .sleeping →
    (∀ c, s.ctx c ≠ .on i) → ∃ r, s.th i = .saved r

/-- The slots that are being made: each has one maker, and it alone touches them. -/
structure Births (s : Sched κ n) : Prop where
  child : ∀ i j np, (s.th i).job = some j → j.child = some np → (s.task np).state = .embryo
  grown : ∀ i j np, (s.th i).job = some j → j.grown = some np → s.th np = .saved .forkret
  single : ∀ i j i' j' np, (s.th i).job = some j → j.child = some np → (s.th i').job = some j' →
    j'.child = some np → i = i'

/-- What can happen to the state of a process that does nothing itself. -/
inductive Shift (s : Sched κ n) (k : Fin n) : ProcState → Prop
  | same : Shift s k (s.task k).state
  | woken (h : (s.task k).state = .sleeping) : Shift s k .runnable
  | started (h : (s.task k).state = .embryo) (hth : ∃ r, s.th k = .saved r) : Shift s k .runnable
  | off (x : ProcState) (hoff : ∀ d, (s.ctx d).proc ≠ some k) (hx : x = .unused ∨ x = .embryo) :
      Shift s k x

namespace Cpus

lemma boot (init : Fin n) : Cpus (boot init : Sched κ n) := by
  refine ⟨fun _ => rfl,fun _ => ⟨nofun,nofun⟩,nofun,nofun,nofun,?_,?_⟩
  · intro i hi
    simp only [Sched.boot] at hi
    split_ifs at hi
  · intro i _ _
    simp only [Sched.boot]
    split_ifs
    exacts [⟨_,rfl⟩,⟨_,rfl⟩]

variable {j : Job n}

/-- A process whose thread runs is `RUNNING`. -/
lemma running_of_run (h : Cpus s) (hctx : s.ctx c = .on i) (hth : s.th i = .run j) :
    (s.task i).state = .running := by
  rw [h.on c i hctx,hth]
  exact fun _ => nofun

variable {r : Resume n}

lemma running_of_saved (h : Cpus s) (hctx : s.ctx c = .on i)
    (hth : s.th i = .saved r) : (s.task i).state = .running := by
  rw [h.on c i hctx,hth]
  exact fun _ => nofun

lemma off_of_unused (h : Cpus s) (hk : (s.task k).state = .unused) (d : κ) :
    (s.ctx d).proc ≠ some k := fun hd => (h.used d k hd).1 hk

lemma off_of_embryo (h : Cpus s) (hk : (s.task k).state = .embryo) (d : κ) :
    (s.ctx d).proc ≠ some k := fun hd => (h.used d k hd).2 hk

/-- A CPU whose process is not `RUNNING` has the lock. -/
lemma lock_of_proc (h : Cpus s) (hd : (s.ctx d).proc = some k) (hk : (s.task k).state ≠ .running) :
    s.lock = some d := by
  apply h.lock.eq_some
  cases hctx : s.ctx d with
  | idle | scan => exact nomatch (congrArg Ctx.proc hctx).symm.trans hd
  | back l => rw [holds,hctx]
  | on l =>
    rw [hctx] at hd
    obtain rfl : l = k := Option.some.inj hd
    have hsched : ¬∀ r, s.th l ≠ .sched r := fun hr => hk ((h.on d l hctx).mpr hr)
    push Not at hsched
    obtain ⟨r,hr⟩ := hsched
    simp only [holds,hctx,hr]
    rfl

/-- The holder of the lock, if it is on a process that runs, is the only one that could have
another process which does not. -/
lemma off_of_lock (h : Cpus s) (hctx : s.ctx c = .on i) (hi : (s.task i).state = .running)
    (hfree : s.lock = none ∨ s.lock = some c) (hk : (s.task k).state ≠ .running) (d : κ) :
    (s.ctx d).proc ≠ some k := by
  intro hd
  have hlock := h.lock_of_proc hd hk
  rcases hfree with hfree | hfree
  · exact nomatch hlock.symm.trans hfree
  · obtain rfl : d = c := Option.some.inj (hlock.symm.trans hfree)
    rw [hctx] at hd
    obtain rfl : i = k := Option.some.inj hd
    exact hk hi

/-! What a process does not do itself keeps it where it is. -/

variable {y : ProcState}

lemma shift_running (h : Cpus s) (hy : Shift s k y) :
    y = .running ↔ (s.task k).state = .running := by
  cases hy with
  | same => rfl
  | woken hs => simp [hs]
  | started hs => simp [hs]
  | off _ hoff hx =>
    constructor
    · rintro rfl
      simp at hx
    · intro hr
      obtain ⟨d,hd⟩ := h.running k hr
      exact absurd (congrArg Ctx.proc hd) (hoff d)

lemma shift_used (h : Cpus s) (hd : (s.ctx d).proc = some k) (hy : Shift s k y) :
    y ≠ .unused ∧ y ≠ .embryo := by
  cases hy with
  | same => exact h.used d k hd
  | woken | started => exact ⟨nofun,nofun⟩
  | off _ hoff => exact absurd hd (hoff d)

lemma shift_parked (h : Cpus s) (hy : Shift s k y)
    (hwait : y = .runnable ∨ y = .sleeping) (hoff : ∀ c, s.ctx c ≠ .on k) :
    ∃ r, s.th k = .saved r := by
  cases hy with
  | same => exact h.parked k hwait hoff
  | woken hs => exact h.parked k (.inr hs) hoff
  | started _ hth => exact hth
  | off _ _ hx => rcases hx with rfl | rfl <;> simp at hwait

lemma shift (h : Cpus s) (hc : s'.ctx = s.ctx) (hp : s'.proc = s.proc) (ht : s'.th = s.th)
    (hl : s'.lock = s.lock) (hk : ∀ k, Shift s k (s'.task k).state) : Cpus s' := by
  refine ⟨?_,?_,?_,?_,?_,?_,?_⟩
  · rw [hp,hc]
    exact h.proc
  · have hholds : s'.holds = s.holds := by
      funext d
      simp only [holds,hc,ht]
    rw [hholds,hl]
    exact h.lock
  · rw [hc]
    exact h.apart
  · intro d l hd
    exact h.shift_used (hc ▸ hd) (hk l)
  · intro d l hd
    rw [h.shift_running (hk l),ht]
    exact h.on d l (hc ▸ hd)
  · intro l hr
    rw [hc]
    exact h.running l ((h.shift_running (hk l)).mp hr)
  · intro l hwait hoff
    rw [ht]
    exact h.shift_parked (hk l) hwait (hc ▸ hoff)

variable {t : Task n}

lemma shift_of_nudged (h : Nudged (s.task k) t) : Shift s k t.state := by
  rcases h.state with hs | ⟨hs,hr⟩
  · rw [hs]
    exact .same
  · rw [hr]
    exact .woken hs

lemma shift_of_eq (h : y = (s.task k).state) : Shift s k y := h ▸ .same

lemma shift_put (h : Shift s np t.state) (k : Fin n) :
    Shift s k ((s.put np t).task k).state := by
  obtain rfl | hne := eq_or_ne k np
  · rwa [put_self]
  · rw [put_ne _ hne]
    exact .same

lemma shift_put_self (k : Fin n) (hk : k ≠ i) : Shift s k ((s.put i t).task k).state := by
  rw [put_ne _ hk]
  exact .same

lemma holds_on (hctx : s.ctx c = .on i) : s.holds c = (s.th i).held := by rw [holds,hctx]

variable [DecidableEq κ]

section

variable (h : Cpus s) (hctx : s.ctx c = .on i) (hc : s'.ctx = s.ctx)
include h hctx hc

lemma holds_act (hx : s'.th i = x)
    (hth : ∀ k, k ≠ i → s'.th k = s.th k ∨ (∀ d, (s.ctx d).proc ≠ some k) ∧ ∃ r, s'.th k = .saved r) :
    s'.holds = update s.holds c x.held := by
  funext d
  obtain rfl | hne := eq_or_ne d c
  · simp only [holds,hc,hctx,hx,update_self]
  · rw [update_of_ne hne]
    cases hd : s.ctx d with
    | idle | scan | back => simp only [holds,hc,hd]
    | on l =>
      have hl : l ≠ i := by
        rintro rfl
        exact hne (h.apart d c l (congrArg Ctx.proc hd) (congrArg Ctx.proc hctx))
      rcases hth l hl with hl' | ⟨hoff,-⟩
      · simp only [holds,hc,hd,hl']
      · exact absurd (congrArg Ctx.proc hd) (hoff d)

/-- The thread of process `i` moves on CPU `c`. -/
lemma act (hp : s'.proc = s.proc)
    (hx : s'.th i = x)
    (hth : ∀ k, k ≠ i → s'.th k = s.th k ∨ (∀ d, (s.ctx d).proc ≠ some k) ∧ ∃ r, s'.th k = .saved r)
    (hi : (s'.task i).state = .running ↔ ∀ r, x ≠ .sched r)
    (hu : (s'.task i).state ≠ .unused ∧ (s'.task i).state ≠ .embryo)
    (hk : ∀ k, k ≠ i → Shift s k (s'.task k).state)
    (hl : Owns (update s.holds c x.held) s'.lock) : Cpus s' := by
  refine ⟨?_,?_,?_,?_,?_,?_,?_⟩
  · rw [hp,hc]
    exact h.proc
  · rw [h.holds_act hctx hc hx hth]
    exact hl
  · rw [hc]
    exact h.apart
  · intro d l hd
    rw [hc] at hd
    obtain rfl | hli := eq_or_ne l i
    · exact hu
    · exact h.shift_used hd (hk l hli)
  · intro d l hd
    rw [hc] at hd
    obtain rfl | hli := eq_or_ne l i
    · rw [hx]
      exact hi
    · rw [h.shift_running (hk l hli)]
      rcases hth l hli with hl' | ⟨hoff,-⟩
      · rw [hl']
        exact h.on d l hd
      · exact absurd (congrArg Ctx.proc hd) (hoff d)
  · intro l hr
    rw [hc]
    obtain rfl | hli := eq_or_ne l i
    · exact ⟨c,hctx⟩
    · exact h.running l ((h.shift_running (hk l hli)).mp hr)
  · intro l hwait hoff
    rw [hc] at hoff
    have hli : l ≠ i := by
      rintro rfl
      exact hoff c hctx
    rcases hth l hli with hsame | ⟨-,hsaved⟩
    · rw [hsame]
      exact h.shift_parked (hk l hli) hwait hoff
    · exact hsaved

/-- The thread goes on, and its process stays `RUNNING`. -/
lemma runs (hp : s'.proc = s.proc)
    (hth : s'.th = (s.goto i (.run j)).th) (hrun : (s'.task i).state = .running)
    (hk : ∀ k, k ≠ i → Shift s k (s'.task k).state)
    (hl : Owns (update s.holds c false) s'.lock) : Cpus s' := by
  refine h.act (x := .run j) hctx hc hp ?_ ?_ ⟨fun _ _ => nofun,fun _ => hrun⟩ ?_ hk hl
  · rw [hth,goto_self]
  · intro k hk
    rw [hth,goto_ne _ hk]
    exact .inl rfl
  · rw [hrun]
    exact ⟨nofun,nofun⟩

/-- The thread is on its way to the scheduler. -/
lemma rests (hp : s'.proc = s.proc)
    (hth : s'.th = (s.goto i (.sched r)).th)
    (hi : (s'.task i).state = .runnable ∨ (s'.task i).state = .sleeping ∨ (s'.task i).state = .zombie)
    (hk : ∀ k, k ≠ i → Shift s k (s'.task k).state)
    (hl : Owns (update s.holds c true) s'.lock) : Cpus s' := by
  refine h.act (x := .sched r) hctx hc hp ?_ ?_ ⟨?_,fun hall => absurd rfl (hall r)⟩ ?_ hk hl
  · rw [hth,goto_self]
  · intro k hk
    rw [hth,goto_ne _ hk]
    exact .inl rfl
  · intro hr
    rw [hr] at hi
    simp at hi
  · rcases hi with hi | hi | hi <;> rw [hi] <;> exact ⟨nofun,nofun⟩

end

/-! ### The lock -/

lemma keepLock (h : Cpus s) (hctx : s.ctx c = .on i) (hx : x.held = (s.th i).held) :
    Owns (update s.holds c x.held) s.lock :=
  h.lock.keep (hx.trans (holds_on hctx).symm)

lemma takeLock (h : Cpus s) (hl : s.lock = none) (hx : x.held = true) :
    Owns (update s.holds c x.held) (some c) := by
  have hfree : Owns s.holds none := hl ▸ h.lock
  rw [hx]
  exact hfree.acquire

lemma giveLock (h : Cpus s) (hctx : s.ctx c = .on i) (hheld : (s.th i).held = true)
    (hx : x.held = false) : Owns (update s.holds c x.held) none := by
  rw [hx]
  exact h.lock.release ((holds_on hctx).trans hheld)

/-! ### The scheduler -/

lemma proc_none (h : Cpus s) (hc : (s.ctx c).proc = none) : s.proc = update s.proc c none := by
  have hp := h.proc c
  rw [hc] at hp
  rw [← hp,update_eq_self]

/-- CPU `c` lets go of the process that it had, or gets one that no other CPU has. -/
lemma switch {y : Ctx n} (h : Cpus s) (hc : s'.ctx = update s.ctx c y)
    (hp : s'.proc = update s.proc c y.proc)
    (hsame : ∀ l, (s.ctx c).proc ≠ some l → y.proc ≠ some l → s'.task l = s.task l ∧ s'.th l = s.th l)
    (hapart : ∀ d l, d ≠ c → (s.ctx d).proc = some l → y.proc ≠ some l)
    (hused : ∀ l, y.proc = some l → (s'.task l).state ≠ .unused ∧ (s'.task l).state ≠ .embryo)
    (hrunning : ∀ l, (s.ctx c).proc = some l ∨ y.proc = some l →
      ((s'.task l).state = .running ↔ y = .on l))
    (hsaved : ∀ l, (s.ctx c).proc = some l ∨ y.proc = some l → y = .on l ∨
      (s'.task l).state = .runnable ∨ (s'.task l).state = .sleeping → ∃ r, s'.th l = .saved r)
    (hl : Owns (update s.holds c (s'.holds c)) s'.lock) : Cpus s' := by
  have hself : s'.ctx c = y := by rw [hc,update_self]
  have hne : ∀ d, d ≠ c → s'.ctx d = s.ctx d := by
    intro d hd
    rw [hc,update_of_ne hd]
  have hother : ∀ d l, d ≠ c → (s.ctx d).proc = some l → s'.task l = s.task l ∧ s'.th l = s.th l :=
    fun d l hd hl => hsame l (fun hcl => hd (h.apart d c l hl hcl)) (hapart d l hd hl)
  have hon : ∀ d l, ¬((s.ctx c).proc = some l ∨ y.proc = some l) → s.ctx d = .on l →
      s'.ctx d = .on l := by
    intro d l hm hd
    rw [hne d,hd]
    rintro rfl
    exact hm (.inl (congrArg Ctx.proc hd))
  refine ⟨?_,?_,?_,?_,?_,?_,?_⟩
  · intro d
    rw [hp]
    obtain rfl | hd := eq_or_ne d c
    · rw [update_self,hself]
    · rw [update_of_ne hd,hne d hd,h.proc d]
  · have hholds : s'.holds = update s.holds c (s'.holds c) := by
      funext d
      obtain rfl | hd := eq_or_ne d c
      · rw [update_self]
      · rw [update_of_ne hd]
        cases hctx : s.ctx d with
        | idle | scan | back => simp only [holds,hne d hd,hctx]
        | on l => simp only [holds,hne d hd,hctx,(hother d l hd (congrArg Ctx.proc hctx)).2]
    rw [hholds]
    exact hl
  · intro d e l hd he
    obtain rfl | hec := eq_or_ne e c
    · by_contra hde
      rw [hself] at he
      rw [hne d hde] at hd
      exact hapart d l hde hd he
    · rw [hne e hec] at he
      obtain rfl | hdc := eq_or_ne d c
      · rw [hself] at hd
        exact absurd hd (hapart e l hec he)
      · rw [hne d hdc] at hd
        exact h.apart d e l hd he
  · intro d l hd
    obtain rfl | hdc := eq_or_ne d c
    · rw [hself] at hd
      exact hused l hd
    · rw [hne d hdc] at hd
      rw [(hother d l hdc hd).1]
      exact h.used d l hd
  · intro d l hd
    obtain rfl | hdc := eq_or_ne d c
    · rw [hself] at hd
      have hmine : (s.ctx d).proc = some l ∨ y.proc = some l := .inr (congrArg Ctx.proc hd)
      obtain ⟨r,hr⟩ := hsaved l hmine (.inl hd)
      rw [hrunning l hmine,hr]
      exact ⟨fun _ _ => nofun,fun _ => hd⟩
    · rw [hne d hdc] at hd
      obtain ⟨htask,hth⟩ := hother d l hdc (congrArg Ctx.proc hd)
      rw [htask,hth]
      exact h.on d l hd
  · intro l hrun
    by_cases hm : (s.ctx c).proc = some l ∨ y.proc = some l
    · exact ⟨c,hself.trans ((hrunning l hm).mp hrun)⟩
    · obtain ⟨hcl,hyl⟩ := not_or.mp hm
      rw [(hsame l hcl hyl).1] at hrun
      obtain ⟨d,hd⟩ := h.running l hrun
      exact ⟨d,hon d l hm hd⟩
  · intro l hwait hoff
    by_cases hm : (s.ctx c).proc = some l ∨ y.proc = some l
    · exact hsaved l hm (.inr hwait)
    · obtain ⟨hcl,hyl⟩ := not_or.mp hm
      rw [(hsame l hcl hyl).1] at hwait
      rw [(hsame l hcl hyl).2]
      exact h.parked l hwait fun d hd => hoff d (hon d l hm hd)

/-- The scheduler has no process afterwards. -/
lemma scan {y : Ctx n} (h : Cpus s) (hold : ∀ i, s.ctx c ≠ .on i) (hy : y.proc = none)
    (hc : s'.ctx = update s.ctx c y) (hp : s'.proc = update s.proc c none)
    (ht : s'.th = s.th) (hk : s'.task = s.task)
    (hl : Owns (update s.holds c (decide (y ≠ .idle))) s'.lock) : Cpus s' := by
  have hon : ∀ l, y ≠ .on l := by
    rintro l rfl
    exact nomatch hy
  have hmine : ∀ l, (s.ctx c).proc = some l ∨ y.proc = some l → ∀ d, s.ctx d ≠ .on l := by
    rintro l (hcl | hyl) d hd
    · obtain rfl := h.apart d c l (congrArg Ctx.proc hd) hcl
      exact hold l hd
    · exact nomatch hy.symm.trans hyl
  have hholds : s'.holds c = decide (y ≠ .idle) := by
    cases y with
    | on l => exact absurd rfl (hon l)
    | _ => simp [holds,hc]
  refine h.switch hc (by rw [hy,hp]) (fun l _ _ => by rw [hk,ht]; exact ⟨rfl,rfl⟩) ?_ ?_ ?_ ?_ ?_
  · rw [hy]
    exact fun _ _ _ _ => nofun
  · rw [hy]
    exact fun _ => nofun
  · intro l hm
    rw [hk]
    refine ⟨fun hrun => ?_,fun hyl => absurd hyl (hon l)⟩
    obtain ⟨d,hd⟩ := h.running l hrun
    exact absurd hd (hmine l hm d)
  · rintro l hm (hyl | hwait)
    · exact absurd hyl (hon l)
    · rw [hk] at hwait
      rw [ht]
      exact h.parked l hwait (hmine l hm)
  · rw [hholds]
    exact hl

/-- The scheduler switches to a process. Since the lock is held here, no other CPU can have
the process: its thread would be on the way to the scheduler, with the lock. -/
lemma dispatch (h : Cpus s) (hctx : s.ctx c = .scan i) (hstate : (s.task i).state = .runnable) :
    Cpus { (s.setState i .running).enter c (.on i) with
      proc := update s.proc c (some i) } := by
  have hlock : s.lock = some c := h.lock.eq_some (by rw [holds,hctx])
  have hoff : ∀ d, (s.ctx d).proc ≠ some i := by
    intro d hd
    have hd' := h.lock_of_proc hd (by rw [hstate]; exact nofun)
    obtain rfl : c = d := Option.some.inj (hlock.symm.trans hd')
    rw [hctx] at hd
    exact nomatch hd
  obtain ⟨r,hr⟩ := h.parked i (.inl hstate) fun d hd => hoff d (congrArg Ctx.proc hd)
  have hself : ((s.setState i .running).task i).state = .running := by simp [setState,put]
  have hmine : ∀ l, (s.ctx c).proc = some l ∨ (Ctx.on i).proc = some l → i = l := by
    rintro l (hcl | hl)
    · rw [hctx] at hcl
      exact nomatch hcl
    · exact Option.some.inj hl
  refine h.switch (y := .on i) rfl rfl ?_ ?_ ?_ ?_ ?_ ?_
  · intro l _ hl
    have hli : l ≠ i := by
      rintro rfl
      exact hl rfl
    exact ⟨put_ne _ hli,rfl⟩
  · rintro d l _ hd ⟨⟩
    exact hoff d hd
  · rintro l ⟨⟩
    change ((s.setState i .running).task i).state ≠ _ ∧ ((s.setState i .running).task i).state ≠ _
    rw [hself]
    exact ⟨nofun,nofun⟩
  · intro l hl
    obtain rfl := hmine l hl
    exact ⟨fun _ => rfl,fun _ => hself⟩
  · intro l hl _
    obtain rfl := hmine l hl
    exact ⟨r,hr⟩
  · apply h.lock.keep
    simp [holds,enter,setState,put,hctx,hr,Thread.held]

/-- `swtch` to the scheduler, with the lock. -/
lemma swtch (h : Cpus s) (hctx : s.ctx c = .on i) (hth : s.th i = .sched r) :
    Cpus ((s.goto i (.saved r)).enter c (.back i)) := by
  have hproc : (s.ctx c).proc = some i := congrArg Ctx.proc hctx
  have hmine : ∀ l, (s.ctx c).proc = some l ∨ (Ctx.back i).proc = some l → i = l := by
    rintro l (hcl | hl)
    · exact Option.some.inj (hproc.symm.trans hcl)
    · exact Option.some.inj hl
  refine h.switch (y := .back i) rfl ?_ ?_ ?_ ?_ ?_ ?_ ?_
  · change s.proc = update s.proc c (some i)
    rw [← hproc,← h.proc c,update_eq_self]
  · intro l hl _
    have hli : l ≠ i := by
      rintro rfl
      exact hl hproc
    exact ⟨rfl,goto_ne _ hli⟩
  · rintro d l hd hl ⟨⟩
    exact hd (h.apart d c i hl hproc)
  · rintro l ⟨⟩
    exact h.used c i hproc
  · intro l hl
    obtain rfl := hmine l hl
    exact ⟨fun hrun => absurd hth ((h.on c i hctx).mp hrun r),nofun⟩
  · intro l hl _
    obtain rfl := hmine l hl
    exact ⟨r,goto_self ..⟩
  · apply h.lock.keep
    rw [holds_on hctx,hth]
    simp [holds,enter,Thread.held]

/-! ### The threads -/

section

variable (h : Cpus s) (hctx : s.ctx c = .on i)
include h hctx

/-- A thread goes from one point without the lock to another, and may do something to another
process on the way. -/
lemma work {q : Job n} (hth : s.th i = .run j)
    (hne : i ≠ np) (hc : s'.ctx = s.ctx) (hp : s'.proc = s.proc) (hl : s'.lock = s.lock)
    (hto : s'.th = (s.goto i (.run q)).th) (htask : s'.task = (s.put np t).task)
    (ht : Shift s np t.state) : Cpus s' := by
  apply h.runs hctx hc hp hto
  · rw [htask,put_ne _ hne]
    exact h.running_of_run hctx hth
  · intro k _
    rw [htask]
    exact shift_put ht k
  · rw [hl]
    exact h.keepLock (x := .run q) hctx (by rw [hth]; rfl)

lemma goto {j' : Job n} (hth : s.th i = .run j) :
    Cpus (s.goto i (.run j')) :=
  h.runs hctx rfl rfl rfl (h.running_of_run hctx hth) (fun k _ => .same)
    (h.keepLock (x := .run j') hctx (by rw [hth]; rfl))

lemma leave (hl : s.lock = none)
    (ht : t.state = .runnable ∨ t.state = .sleeping) :
    Cpus { (s.put i t).goto i (.sched r) with lock := some c } := by
  refine h.rests hctx rfl rfl rfl ?_ shift_put_self (h.takeLock (x := .sched r) hl rfl)
  change ((s.put i t).task i).state = _ ∨ ((s.put i t).task i).state = _ ∨
    ((s.put i t).task i).state = _
  rw [put_self]
  exact ht.imp_right .inl

lemma proceed
    (hth : s.th i = .saved r) (ht : t.state = (s.task i).state) :
    Cpus { (s.put i t).goto i (.run j) with lock := none } := by
  refine h.runs hctx rfl rfl rfl ?_ shift_put_self
    (h.giveLock (x := .run j) hctx (by rw [hth]; rfl) rfl)
  change ((s.put i t).task i).state = .running
  rw [put_self,ht]
  exact h.running_of_saved hctx hth

/-- One round of `wait`, from a state that differs in the lock and the channel only. -/
lemma round {b : Sched κ n}
    (hrun : (s.task i).state = .running) (hfree : s.lock = none ∨ s.lock = some c)
    (hbctx : b.ctx = s.ctx) (hbproc : b.proc = s.proc) (hbth : b.th = s.th)
    (hbstate : ∀ k, (b.task k).state = (s.task k).state) (hblock : b.lock = some c)
    (hgive : Owns (update s.holds c false) none)
    (hkeep : Owns (update s.holds c true) (some c)) (hround : Round b i s') : Cpus s' := by
  have hgo : ∀ x, (b.goto i x).th = (s.goto i x).th := by
    intro x
    change update b.th i x = _
    rw [hbth]
    rfl
  cases hround with
  | reap p _ hz =>
    rw [hbstate] at hz
    have hpi : p ≠ i := by
      rintro rfl
      exact nomatch hrun.symm.trans hz
    refine h.runs hctx hbctx hbproc (hgo _) ?_ ?_ hgive
    · change ((b.put p (b.task p).free).task i).state = _
      rw [put_ne _ hpi.symm,hbstate,hrun]
    · intro k _
      obtain rfl | hkp := eq_or_ne k p
      · change Shift s k ((b.put k (b.task k).free).task k).state
        rw [put_self]
        exact .off _ (h.off_of_lock hctx hrun hfree (by rw [hz]; exact nofun)) (.inl rfl)
      · change Shift s k ((b.put p (b.task p).free).task k).state
        rw [put_ne _ hkp]
        exact shift_of_eq (hbstate k)
  | fail _ =>
    exact h.runs hctx hbctx hbproc (hgo _) ((hbstate i).trans hrun)
      (fun k _ => shift_of_eq (hbstate k)) hgive
  | sleep _ =>
    refine h.rests hctx hbctx hbproc (hgo _) ?_ ?_ (hblock ▸ hkeep)
    · simp [Sched.goto,put]
    · intro k hk
      apply shift_of_eq
      simpa [Sched.goto,put,update_of_ne hk] using hbstate k

/-- `exit`: what it does to others is to wake them. -/
lemma exited
    (hl : s.lock = none) : Cpus { s.goto i (.sched .dead) with
      task := exitTasks i s.initproc s.task, lock := some c } := by
  refine h.rests hctx rfl rfl rfl ?_ ?_ (h.takeLock (x := .sched .dead) hl rfl)
  · simp [exitTasks]
  · intro k hk
    simp only [exitTasks,update_of_ne hk]
    exact shift_of_nudged ((nudged_wakeup1 _ _ k).trans ((passed_foldl _ _ _ _).nudged k))

end

lemma moves (h : Cpus s) (hb : Births s) (hm : Moves s c a s') : Cpus s' := by
  have hchild : ∀ i j np, s.ctx c = .on i → s.th i = .run j → j.child = some np →
      (s.task np).state = .embryo ∧ i ≠ np := by
    intro i j np hctx hth hj
    have hstate := hb.child i j np (by rw [hth]; rfl) hj
    refine ⟨hstate,?_⟩
    rintro rfl
    exact nomatch (h.running_of_run hctx hth).symm.trans hstate
  cases hm with
  | acquire hctx hl =>
    have hfree : Owns s.holds none := hl ▸ h.lock
    exact h.scan (y := .scan 0) (by rw [hctx]; exact fun _ => nofun) rfl rfl
      (h.proc_none (by rw [hctx]; rfl)) rfl rfl hfree.acquire
  | skip l hctx =>
    exact h.scan (y := .scan (l+1)) (by rw [hctx]; exact fun _ => nofun) rfl rfl
      (h.proc_none (by rw [hctx]; rfl)) rfl rfl (h.lock.keep (by rw [holds,hctx]; rfl))
  | dispatch i hctx hstate => exact h.dispatch hctx hstate
  | release l hctx =>
    exact h.scan (y := .idle) (by rw [hctx]; exact fun _ => nofun) rfl rfl
      (h.proc_none (by rw [hctx]; rfl)) rfl rfl (h.lock.release (p := c) (by rw [holds,hctx]))
  | back i hctx =>
    exact h.scan (y := .scan (i+1)) (by rw [hctx]; exact fun _ => nofun) rfl rfl rfl rfl rfl
      (h.lock.keep (by rw [holds,hctx]; rfl))
  | wakeup k _ => exact h.shift rfl rfl rfl rfl fun l => shift_of_nudged (nudged_wakeup1 _ _ l)
  | swtch i r hctx hth => exact h.swtch hctx hth
  | proceed i r j hctx hth _ =>
    have hgo := h.proceed (j := j) (t := s.task i) hctx hth rfl
    rwa [put,update_eq_self] at hgo
  | wake i j hctx hth => exact h.proceed hctx hth rfl
  | again i _ hctx hth hround =>
    have hheld : s.holds c = true := by rw [holds_on hctx,hth]; rfl
    have hlock := h.lock.eq_some hheld
    refine h.round (b := s.put i { s.task i with chan := none }) hctx
      (h.running_of_saved hctx hth) (.inr hlock) rfl rfl rfl ?_ hlock (h.lock.release hheld)
      (hlock ▸ h.lock.keep hheld.symm) hround
    intro k
    obtain rfl | hk := eq_or_ne k i
    · simp [put]
    · simp [put,update_of_ne hk]
  | yield i j hctx _ hl => exact h.leave hctx hl (.inl rfl)
  | sleep k i j hctx _ hl => exact h.leave hctx hl (.inr rfl)
  | kill p _ =>
    refine h.shift rfl rfl rfl rfl (shift_put ?_)
    unfold Task.kill
    split_ifs with hs
    · exact .woken hs
    · exact .same
  | noKill => exact h
  | fault i hctx _ => exact h.shift rfl rfl rfl rfl (shift_put .same)
  | fork i hctx hth | wait i hctx hth _ | exit i hctx hth _ | full _ i hctx hth =>
    exact h.goto hctx hth
  | alloc _ i np hctx hth _ hstate =>
    have hne : i ≠ np := by
      rintro rfl
      exact nomatch (h.running_of_run hctx hth).symm.trans hstate
    exact h.work hctx hth hne rfl rfl rfl rfl rfl (.off _ (h.off_of_unused hstate) (.inr rfl))
  | kstack i np hctx hth =>
    obtain ⟨hstate,hne⟩ := hchild i _ np hctx hth rfl
    have hi : ((s.put np { s.task np with kstack := true }).task i).state = .running := by
      rw [put_ne _ hne]
      exact h.running_of_run hctx hth
    refine h.act hctx rfl rfl (update_self ..) ?_ ?_ ?_
      (fun k _ => shift_put (t := { s.task np with kstack := true }) .same k)
        (h.keepLock hctx (by rw [hth]; rfl))
    · intro k hk
      obtain rfl | hknp := eq_or_ne k np
      · exact .inr ⟨h.off_of_embryo hstate,.forkret,by simp [Sched.goto,update_of_ne hk]⟩
      · exact .inl (by simp [Sched.goto,put,update_of_ne hk,update_of_ne hknp])
    · exact ⟨fun _ _ => nofun,fun _ => hi⟩
    · change ((s.put np _).task i).state ≠ _ ∧ ((s.put np _).task i).state ≠ _
      rw [hi]
      exact ⟨nofun,nofun⟩
  | noKstack i np hctx hth | noCopy i np hctx hth =>
    obtain ⟨hstate,hne⟩ := hchild i _ np hctx hth rfl
    exact h.work hctx hth hne rfl rfl rfl rfl rfl (.off _ (h.off_of_embryo hstate) (.inl rfl))
  | copy i np hctx hth | parent _ i np hctx hth =>
    exact h.work hctx hth (hchild i _ np hctx hth rfl).2 rfl rfl rfl rfl rfl .same
  | start _ i np hctx hth _ =>
    obtain ⟨hstate,hne⟩ := hchild i _ np hctx hth rfl
    exact h.work hctx hth hne rfl rfl rfl rfl rfl
      (.started hstate ⟨_,hb.grown i (.forkStart np) np (by rw [hth]; rfl) rfl⟩)
  | first _ i _ hctx hth hl hround =>
    have hfree : Owns s.holds none := hl ▸ h.lock
    have hheld : s.holds c = false := by rw [holds_on hctx,hth]; rfl
    exact h.round (b := { s with lock := some c }) hctx (h.running_of_run hctx hth) (.inl hl)
      rfl rfl rfl (fun _ => rfl) rfl (hfree.keep hheld.symm) hfree.acquire hround
  | exited _ i hctx _ hl => exact h.exited hctx hl

end Cpus

end Sched
end JacobiXv6.Kernel
