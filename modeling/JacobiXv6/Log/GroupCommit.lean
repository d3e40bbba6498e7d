import JacobiXv6.Library.Holders
import JacobiXv6.Log.Group

/-! The invariants of group commit, for any interleaving of any number of processes. -/
namespace JacobiXv6.Log
open Library Function
namespace OpLog

variable {ι : Type*} {size : ℕ} {s s' : OpLog ι} {p q : ι} {c d : OpPc} {a : OpAct}

/-! ### The flag, the counter and the sleepers -/

section
variable [Fintype ι]

/-- What `log.outstanding` counts. -/
def activeCount (pc : ι → OpPc) : ℤ := total (OpPc.active ∘ pc) fun _ => 1

/-- The locks, the counter, the flag and the sleepers. -/
structure Inv (s : OpLog ι) : Prop where
  lock : Owns (OpPc.holdsLog ∘ s.pc) s.logLock
  table : Owns (OpPc.holdsTable ∘ s.pc) s.ptLock
  out : s.outstanding = activeCount s.pc
  comm : ∃ o, Owns (OpPc.committer ∘ s.pc) o ∧ s.committing = o.isSome
  quiet : s.committing = true → s.outstanding = 0
  empty : s.committing = false → s.outstanding = 0 → s.lh = []
  cleared : ∀ q, s.pc q = .finish → s.lh = []
  awake : (∃ q, (s.pc q).drowsy = true) →
    s.committing = true ∨ s.outstanding ≠ 0 ∨ ∃ q, s.pc q = .finishWake
  calm : s.panic ≠ some .committing ∧ s.panic ≠ some .outside

lemma activeCount_nonneg (pc : ι → OpPc) : 0 ≤ activeCount pc := total_nonneg fun _ _ => zero_le_one

namespace Inv

lemma out_nonneg (h : Inv s) : 0 ≤ s.outstanding := h.out ▸ activeCount_nonneg s.pc

lemma out_pos (h : Inv s) (hact : (s.pc p).active = true) : 0 < s.outstanding := by
  apply lt_of_le_of_ne h.out_nonneg
  intro h0
  have hnone := holders_eq_zero_iff.mp (h.out.symm.trans h0.symm) p
  exact absurd hact (Bool.eq_false_iff.mp hnone)

lemma committing_of (h : Inv s) (hc : (s.pc p).committer = true) : s.committing = true := by
  obtain ⟨o,ho,hflag⟩ := h.comm
  exact hflag.trans (ho.isSome_iff.mpr ⟨p,hc⟩)

lemma free_of_active (h : Inv s) (hact : (s.pc p).active = true) : s.committing = false := by
  rw [Bool.eq_false_iff]
  intro hc
  exact (h.out_pos hact).ne' (h.quiet hc)

lemma idle_of_committer (h : Inv s) (hc : (s.pc p).committer = true) (q : ι) :
    (s.pc q).active = false := by
  rw [Bool.eq_false_iff]
  intro hact
  exact absurd (h.committing_of hc) (by simp [h.free_of_active hact])

lemma no_committer (h : Inv s) (hfree : s.committing = false) (q : ι) :
    (s.pc q).committer = false := by
  rw [Bool.eq_false_iff]
  intro hc
  exact absurd (h.committing_of hc) (by simp [hfree])

lemma halt (h : Inv s) : Inv { s with panic := some .tooBig } :=
  ⟨h.lock,h.table,h.out,h.comm,h.quiet,h.empty,h.cleared,h.awake,nofun,nofun⟩

lemma initial : Inv (initial : OpLog ι) :=
  ⟨fun _ => ⟨nofun,nofun⟩,fun _ => ⟨nofun,nofun⟩,(total_eq_zero _ fun _ => rfl).symm,
    ⟨none,fun _ => ⟨nofun,nofun⟩,rfl⟩,nofun,fun _ _ => rfl,nofun,nofun,nofun,nofun⟩

end Inv
end

lemma comp_wake {β : Type*} (f : OpPc → β) (hf : f .woken = f .sleeping) (s : OpLog ι) :
    f ∘ s.wake.pc = f ∘ s.pc := by
  ext q
  simp only [wake,comp_apply]
  split_ifs with hq
  · rw [hf,hq]
  · rfl

lemma of_wake (hq : s.wake.pc q = c) (hc : c ≠ .woken) : s.pc q = c := by
  simp only [wake] at hq
  split_ifs at hq
  · exact absurd hq.symm hc
  · exact hq

/-! ### One process moves -/

section
variable [DecidableEq ι]

lemma comp_goto {β : Type*} (f : OpPc → β) (s : OpLog ι) (p : ι) (c : OpPc) :
    f ∘ (s.goto p c).pc = update (f ∘ s.pc) p (f c) :=
  comp_update f s.pc p c

lemma of_goto (hq : (s.goto p c).pc q = d) (hne : c ≠ d) : s.pc q = d := by
  obtain rfl | hqp := eq_or_ne q p
  · exact absurd (by simpa [goto] using hq) hne
  · simpa [goto,hqp] using hq

lemma goto_of (hq : s.pc q = d) (hne : s.pc p ≠ d) : (s.goto p c).pc q = d := by
  have hqp : q ≠ p := by
    rintro rfl
    exact hne hq
  simpa [goto,hqp] using hq

lemma idle_goto (h : ∀ q, (s.pc q).active = false) (hc : c.active = false) (q : ι) :
    ((s.goto p c).pc q).active ≠ true := by
  obtain rfl | hqp := eq_or_ne q p
  · simp [goto,hc]
  · simp [goto,hqp,h q]

variable {f : OpPc → Bool} {o : Option ι}

lemma owns_goto (h : Owns (f ∘ s.pc) o) (hpc : s.pc p = d)
    (hf : f c = f d) : Owns (f ∘ (s.goto p c).pc) o := by
  rw [comp_goto]
  exact h.keep (hf.trans (congrArg f hpc).symm)

lemma owns_acquire (h : Owns (f ∘ s.pc) o) (ho : o = none)
    (hf : f c = true) : Owns (f ∘ (s.goto p c).pc) (some p) := by
  subst ho
  rw [comp_goto,hf]
  exact h.acquire

lemma owns_release (h : Owns (f ∘ s.pc) o) (hpc : s.pc p = d)
    (hd : f d = true) (hf : f c = false) : Owns (f ∘ (s.goto p c).pc) none := by
  rw [comp_goto,hf]
  exact h.release ((congrArg f hpc).trans hd)

end

/-! ### Every step keeps the invariant -/

section
variable [DecidableEq ι] [Fintype ι]

lemma activeCount_goto (hpc : s.pc p = d) :
    activeCount (s.goto p c).pc =
      activeCount s.pc-(if d.active then 1 else 0)+(if c.active then 1 else 0) := by
  rw [activeCount,comp_goto,total_update_self,comp_apply,hpc,activeCount]

namespace Inv

lemma out_goto (h : Inv s) (hpc : s.pc p = d) (hact : c.active = d.active) :
    s.outstanding = activeCount (s.goto p c).pc := by
  rw [h.out,activeCount_goto hpc,hact,sub_add_cancel]

lemma out_enter (h : Inv s) (hpc : s.pc p = d) (hd : d.active = false) (hc : c.active = true) :
    s.outstanding+1 = activeCount (s.goto p c).pc := by
  rw [h.out,activeCount_goto hpc]
  simp [hd,hc]

lemma out_leave (h : Inv s) (hpc : s.pc p = d) (hd : d.active = true) (hc : c.active = false) :
    s.outstanding-1 = activeCount (s.goto p c).pc := by
  rw [h.out,activeCount_goto hpc]
  simp [hd,hc]

lemma comm_goto (h : Inv s) (hpc : s.pc p = d) (hc : c.committer = d.committer) :
    ∃ o, Owns (OpPc.committer ∘ (s.goto p c).pc) o ∧ s.committing = o.isSome := by
  obtain ⟨o,ho,hflag⟩ := h.comm
  exact ⟨o,owns_goto ho hpc hc,hflag⟩

section

variable (h : Inv s)
include h

lemma cleared_goto (hc : c ≠ .finish) (q : ι) (hq : (s.goto p c).pc q = .finish) :
    s.lh = [] :=
  h.cleared q (of_goto hq hc)

lemma awake_goto (hd : ∃ q, (s.pc q).drowsy = true) (hp : s.pc p ≠ .finishWake) :
    s.committing = true ∨ s.outstanding ≠ 0 ∨ ∃ q, (s.goto p c).pc q = .finishWake := by
  refine (h.awake hd).imp_right (.imp_right ?_)
  rintro ⟨r,hr⟩
  exact ⟨r,goto_of hr hp⟩

lemma goto (hpc : s.pc p = d) (hact : c.active = d.active)
    (hcomm : c.committer = d.committer) (hlock : c.holdsLog = d.holdsLog)
    (htable : c.holdsTable = d.holdsTable) (hdrowsy : c.drowsy = false) (hfinish : c ≠ .finish)
    (hwake : d ≠ .finishWake) : Inv (s.goto p c) := by
  refine ⟨owns_goto h.lock hpc hlock,owns_goto h.table hpc htable,h.out_goto hpc hact,
    h.comm_goto hpc hcomm,h.quiet,h.empty,h.cleared_goto hfinish,?_,h.calm⟩
  · rintro ⟨q,hq⟩
    have hqp : q ≠ p := by
      rintro rfl
      simp [OpLog.goto,hdrowsy] at hq
    exact h.awake_goto ⟨q,by simpa [OpLog.goto,hqp] using hq⟩ (hpc ▸ hwake)

lemma wait (hpc : s.pc p = .begin) (hl : s.logLock = none)
    (hfull : s.committing = true ∨ (LOGSIZE : ℤ) < s.lh.length+(s.outstanding+1)*MAXOPBLOCKS) :
    Inv { s.goto p .sleepAcquire with logLock := some p } := by
  refine ⟨owns_acquire h.lock hl rfl,owns_goto h.table hpc rfl,h.out_goto hpc rfl,
    h.comm_goto hpc rfl,h.quiet,h.empty,h.cleared_goto nofun,?_,h.calm⟩
  · -- an empty log with no operation has room for one
    intro _
    cases hc : s.committing with
    | true => exact .inl hc
    | false =>
      refine .inr (.inl fun h0 => ?_)
      have h0' : s.outstanding = 0 := h0
      simp [hc,h0',h.empty hc h0',LOGSIZE,MAXOPBLOCKS] at hfull

lemma enter (hpc : s.pc p = .begin) (hfree : s.committing = false) (epoch : ι → ℕ)
    (wrote : ι → List Word) :
    Inv { s.goto p .inOp with outstanding := s.outstanding+1, epoch := epoch, wrote := wrote } := by
  have hpos : 0 < s.outstanding+1 := Int.lt_add_one_of_le h.out_nonneg
  refine ⟨owns_goto h.lock hpc rfl,owns_goto h.table hpc rfl,h.out_enter hpc rfl rfl,
    h.comm_goto hpc rfl,?_,?_,h.cleared_goto nofun,fun _ => .inr (.inl hpos.ne'),h.calm⟩
  · intro hc
    exact absurd (hfree.symm.trans hc) Bool.false_ne_true
  · intro _ h0
    exact absurd h0 hpos.ne'

lemma fallAsleep (hpc : s.pc p = .sleepAcquire) (ht : s.ptLock = none) :
    Inv { s.goto p .sleepSched with logLock := none, ptLock := some p } := by
  exact ⟨owns_release h.lock hpc rfl rfl,owns_acquire h.table ht rfl,h.out_goto hpc rfl,
    h.comm_goto hpc rfl,h.quiet,h.empty,h.cleared_goto nofun,
    fun _ => h.awake_goto ⟨p,hpc ▸ rfl⟩ (hpc ▸ nofun),h.calm⟩

lemma sched (hpc : s.pc p = .sleepSched) :
    Inv { s.goto p .sleeping with ptLock := none } := by
  exact ⟨owns_goto h.lock hpc rfl,owns_release h.table hpc rfl rfl,h.out_goto hpc rfl,
    h.comm_goto hpc rfl,h.quiet,h.empty,h.cleared_goto nofun,
    fun _ => h.awake_goto ⟨p,hpc ▸ rfl⟩ (hpc ▸ nofun),h.calm⟩

lemma record {b : Word} (hpc : s.pc p = .write b) (lh : List Word)
    (wrote : ι → List Word) : Inv { s.goto p .inOp with lh := lh, wrote := wrote } := by
  have hact : (s.pc p).active = true := by rw [hpc]; rfl
  refine ⟨owns_goto h.lock hpc rfl,owns_goto h.table hpc rfl,h.out_goto hpc rfl,
    h.comm_goto hpc rfl,h.quiet,?_,?_,fun _ => .inr (.inl (h.out_pos hact).ne'),h.calm⟩
  · intro _ h0
    exact absurd h0 (h.out_pos hact).ne'
  · intro q hq
    have hcomm := h.committing_of (p := q) (by rw [of_goto hq nofun]; rfl)
    exact absurd (h.free_of_active hact) (by simp [hcomm])

lemma last (hpc : s.pc p = .ending) (hfree : s.committing = false)
    (hout : s.outstanding-1 = 0) (ended : List (ℕ×List Word)) :
    Inv { s.goto p .commitLog with
      outstanding := s.outstanding-1, committing := true, ended := ended } := by
  obtain ⟨o,ho,hflag⟩ := h.comm
  have hnone : o = none := by simpa [hfree] using hflag
  refine ⟨owns_goto h.lock hpc rfl,owns_goto h.table hpc rfl,h.out_leave hpc rfl rfl,
    ⟨some p,owns_acquire ho hnone rfl,rfl⟩,fun _ => hout,nofun,?_,fun _ => .inl rfl,h.calm⟩
  · intro q hq
    have hcomm := h.committing_of (p := q) (by rw [of_goto hq nofun]; rfl)
    exact absurd hfree (by simp [hcomm])

lemma leave (hpc : s.pc p = .ending) (hl : s.logLock = none)
    (hfree : s.committing = false) (hout : s.outstanding-1 ≠ 0) (ended : List (ℕ×List Word)) :
    Inv { s.goto p .endWake with
      outstanding := s.outstanding-1, logLock := some p, ended := ended } := by
  refine ⟨owns_acquire h.lock hl rfl,owns_goto h.table hpc rfl,h.out_leave hpc rfl rfl,
    h.comm_goto hpc rfl,?_,?_,h.cleared_goto nofun,fun _ => .inr (.inl hout),h.calm⟩
  · intro hc
    exact absurd (hfree.symm.trans hc) Bool.false_ne_true
  · intro _ h0
    exact absurd h0 hout

/-- After a `wakeup` nobody sleeps on `&log` or is about to: it takes `ptable.lock` while the
caller holds `log.lock`, and a process on its way to sleep holds one of the two. -/
lemma wakeup (hpc : s.pc p = .endWake ∨ s.pc p = .finishWake) (ht : s.ptLock = none) :
    Inv { s.wake.goto p .idle with logLock := none } := by
  obtain ⟨hlock,hact,hcomm⟩ : (s.pc p).holdsLog = true ∧ (s.pc p).active = false ∧
      (s.pc p).committer = false := by
    rcases hpc with hpc | hpc <;> rw [hpc] <;> exact ⟨rfl,rfl,rfl⟩
  have htable : Owns (OpPc.holdsTable ∘ s.pc) none := ht ▸ h.table
  have hcount : activeCount (s.wake.goto p .idle).pc = activeCount s.pc := by
    have hidle : OpPc.idle.active = false := rfl
    rw [activeCount,comp_goto,comp_wake _ rfl,total_update_self]
    simp [hidle,hact,activeCount]
  obtain ⟨o,ho,hflag⟩ := h.comm
  refine ⟨?_,?_,h.out.trans hcount.symm,⟨o,?_,hflag⟩,h.quiet,h.empty,?_,?_,h.calm⟩
  · rw [comp_goto,comp_wake _ rfl]
    exact h.lock.release hlock
  · rw [comp_goto,comp_wake _ rfl]
    exact ht ▸ htable.keep (htable.eq_false p).symm
  · rw [comp_goto,comp_wake _ rfl]
    exact ho.keep hcomm.symm
  · intro q hq
    exact h.cleared q (of_wake (of_goto hq nofun) nofun)
  · rintro ⟨q,hq⟩
    have hqp : q ≠ p := by
      rintro rfl
      simp [OpLog.goto,OpPc.drowsy] at hq
    have hq' : (s.wake.pc q).drowsy = true := by simpa [OpLog.goto,hqp] using hq
    cases hs : s.pc q with
    | sleepAcquire => exact absurd (h.lock.unique (by simp [hs,OpPc.holdsLog]) hlock) hqp
    | sleepSched => exact absurd (htable.eq_false q) (by simp [hs,OpPc.holdsTable])
    | _ => simp [OpLog.wake,hs,OpPc.drowsy] at hq'

lemma commit (hpc : s.pc p = .commitLog) (commits : List (List Word)) :
    Inv { s.goto p .commitClear with commits := commits } := by
  have h' : Inv (s.goto p .commitClear) := h.goto hpc rfl rfl rfl rfl rfl nofun nofun
  exact ⟨h'.lock,h'.table,h'.out,h'.comm,h'.quiet,h'.empty,h'.cleared,h'.awake,h'.calm⟩

lemma clear (hpc : s.pc p = .commitClear) : Inv { s.goto p .finish with lh := [] } := by
  have hcomm : s.committing = true := h.committing_of (p := p) (by rw [hpc]; rfl)
  exact ⟨owns_goto h.lock hpc rfl,owns_goto h.table hpc rfl,h.out_goto hpc rfl,h.comm_goto hpc rfl,
    h.quiet,fun _ _ => rfl,fun _ _ => rfl,fun _ => .inl hcomm,h.calm⟩

lemma finish (hpc : s.pc p = .finish) (hl : s.logLock = none) :
    Inv { s.goto p .finishWake with committing := false, logLock := some p } := by
  obtain ⟨o,ho,-⟩ := h.comm
  refine ⟨owns_acquire h.lock hl rfl,owns_goto h.table hpc rfl,h.out_goto hpc rfl,
    ⟨none,owns_release ho hpc rfl rfl,rfl⟩,nofun,fun _ _ => h.cleared p hpc,
    fun _ _ => h.cleared p hpc,?_,h.calm⟩
  exact fun _ => .inr (.inr ⟨p,update_self p _ _⟩)

lemma moves (hm : Moves size s p a s') : Inv s' := by
  cases hm with
  | beginOp hpc | poke hpc | resume hpc | logWrite b hpc | testOp b hpc | endOp hpc =>
    exact h.goto hpc rfl rfl rfl rfl rfl nofun nofun
  | wait hpc hl hfull => exact h.wait hpc hl hfull
  | enter hpc _ hfree _ => exact h.enter hpc hfree _ _
  | fallAsleep hpc ht => exact h.fallAsleep hpc ht
  | sched hpc => exact h.sched hpc
  | tooBig b => exact h.halt
  | outside b hpc hout =>
    have hpos := h.out_pos (p := p) (by rw [hpc]; rfl)
    exact absurd hout (not_lt.mpr hpos)
  | record b hpc => exact h.record hpc _ _
  | clash hpc hcomm =>
    have hfree := h.free_of_active (p := p) (by rw [hpc]; rfl)
    exact absurd hcomm (by simp [hfree])
  | last hpc hfree hout => exact h.last hpc hfree hout _
  | leave hpc hl hfree hout => exact h.leave hpc hl hfree hout _
  | wakeup hpc ht => exact h.wakeup hpc ht
  | commit hpc => exact h.commit hpc _
  | clear hpc => exact h.clear hpc
  | finish hpc hl => exact h.finish hpc hl

end

end Inv
end

/-! ### Whole operations -/

/-- The operation that began after `r.1` commits and logged `r.2` is in the next commit, or
will be: then all that it logged is in the header. -/
def Covered (s : OpLog ι) (r : ℕ×List Word) : Prop :=
  (∃ c, s.commits[r.1]? = some c ∧ r.2 ⊆ c) ∨ (r.1 = s.commits.length ∧ r.2 ⊆ s.lh)

/-- An operation under way has all that it logged in the header of the next commit. Between
the commit and the end of the committer there is no operation left to commit. -/
structure Whole (s : OpLog ι) : Prop where
  current : ∀ q, (s.pc q).active = true → s.epoch q = s.commits.length ∧ s.wrote q ⊆ s.lh
  covered : ∀ r ∈ s.ended, s.Covered r
  sealed : ∀ q, s.pc q = .commitClear ∨ s.pc q = .finish → ∀ r ∈ s.ended, r.1 < s.commits.length

namespace Whole

lemma initial : Whole (initial : OpLog ι) := ⟨nofun,nofun,nofun⟩

lemma flags {l t : Option ι} {o : ℤ} {f : Bool} {e : Option LogPanic} (h : Whole s) :
    Whole { s with logLock := l, ptLock := t, outstanding := o, committing := f, panic := e } :=
  ⟨h.current,h.covered,h.sealed⟩

lemma wake (h : Whole s) : Whole s.wake := by
  refine ⟨?_,h.covered,?_⟩
  · intro q hq
    exact h.current q ((congrFun (comp_wake OpPc.active rfl s) q).symm.trans hq)
  · intro q hq
    exact h.sealed q (hq.imp (of_wake · nofun) (of_wake · nofun))

variable [DecidableEq ι]

lemma sealed_goto (h : Whole s) (hc : c ≠ .commitClear ∧ c ≠ .finish) (q : ι)
    (hq : (s.goto p c).pc q = .commitClear ∨ (s.goto p c).pc q = .finish) :
    ∀ r ∈ s.ended, r.1 < s.commits.length :=
  h.sealed q (hq.imp (of_goto · hc.1) (of_goto · hc.2))

lemma goto (h : Whole s) (hpc : s.pc p = d) (hact : c.active = true → d.active = true)
    (hc : c ≠ .commitClear ∧ c ≠ .finish) : Whole (s.goto p c) := by
  refine ⟨?_,h.covered,h.sealed_goto hc⟩
  intro q hq
  apply h.current q
  obtain rfl | hqp := eq_or_ne q p
  · rw [hpc]
    exact hact (by simpa [OpLog.goto] using hq)
  · simpa [OpLog.goto,hqp] using hq

lemma enter (h : Whole s) : Whole { s.goto p .inOp with
    outstanding := s.outstanding+1
    epoch := update s.epoch p s.commits.length
    wrote := update s.wrote p [] } := by
  refine ⟨?_,h.covered,h.sealed_goto ⟨nofun,nofun⟩⟩
  intro q hq
  obtain rfl | hqp := eq_or_ne q p
  · simp [OpLog.goto]
  · simpa [OpLog.goto,hqp] using h.current q (by simpa [OpLog.goto,hqp] using hq)

lemma record {b : Word} (h : Whole s) (hpc : s.pc p = .write b) : Whole { s.goto p .inOp with
    lh := absorb s.lh b
    wrote := update s.wrote p (s.wrote p++[b]) } := by
  have hgrow : s.lh ⊆ absorb s.lh b := fun x hx => mem_absorb.mpr (.inl hx)
  refine ⟨?_,?_,h.sealed_goto ⟨nofun,nofun⟩⟩
  · intro q hq
    obtain rfl | hqp := eq_or_ne q p
    · obtain ⟨hepoch,hwrote⟩ := h.current q (by rw [hpc]; rfl)
      refine ⟨hepoch,?_⟩
      simp only [update_self]
      intro x hx
      rw [List.mem_append,List.mem_singleton] at hx
      exact mem_absorb.mpr (hx.imp (hwrote ·) id)
    · obtain ⟨hepoch,hwrote⟩ := h.current q (by simpa [OpLog.goto,hqp] using hq)
      refine ⟨hepoch,?_⟩
      simp only [update_of_ne hqp]
      exact List.Subset.trans hwrote hgrow
  · intro r hr
    exact (h.covered r hr).imp_right (.imp_right (List.Subset.trans · hgrow))

lemma leave (h : Whole s) (hpc : s.pc p = .ending) (hfree : ∀ q, (s.pc q).committer = false)
    (hact : c.active = false) (hc : c ≠ .commitClear ∧ c ≠ .finish) :
    Whole { s.goto p c with ended := s.ended++[(s.epoch p,s.wrote p)] } := by
  refine ⟨(h.goto hpc (by simp [hact]) hc).current,?_,?_⟩
  · intro r hr
    rcases List.mem_append.mp hr with hr | hr
    · exact h.covered r hr
    · rw [List.mem_singleton.mp hr]
      exact .inr (h.current p (by rw [hpc]; rfl))
  · intro q hq
    have hold := hq.imp (of_goto · hc.1) (of_goto · hc.2)
    have hnot := hfree q
    rcases hold with hold | hold <;> rw [hold] at hnot <;> exact nomatch hnot

lemma commit (h : Whole s) (hidle : ∀ q, (s.pc q).active = false) :
    Whole { s.goto p .commitClear with commits := s.commits++[s.lh] } := by
  have htaken : ∀ r ∈ s.ended, ∃ c, (s.commits++[s.lh])[r.1]? = some c ∧ r.2 ⊆ c := by
    intro r hr
    rcases h.covered r hr with ⟨c,hc,hsub⟩ | ⟨hlen,hsub⟩
    · refine ⟨c,?_,hsub⟩
      rw [List.getElem?_append_left (List.getElem?_eq_some_iff.mp hc).1]
      exact hc
    · refine ⟨s.lh,?_,hsub⟩
      rw [hlen,List.getElem?_concat_length]
  refine ⟨?_,fun r hr => .inl (htaken r hr),?_⟩
  · intro q hq
    exact absurd hq (idle_goto hidle rfl q)
  · intro _ _ r hr
    obtain ⟨c,hc,-⟩ := htaken r hr
    exact (List.getElem?_eq_some_iff.mp hc).1

lemma clear (h : Whole s) (hpc : s.pc p = .commitClear) (hidle : ∀ q, (s.pc q).active = false) :
    Whole { s.goto p .finish with lh := [] } := by
  have hdone := h.sealed p (.inl hpc)
  refine ⟨?_,?_,fun _ _ => hdone⟩
  · intro q hq
    exact absurd hq (idle_goto hidle rfl q)
  · intro r hr
    rcases h.covered r hr with hc | ⟨hlen,-⟩
    · exact .inl hc
    · exact absurd hlen (hdone r hr).ne

lemma moves [Fintype ι] (hi : Inv s) (h : Whole s) (hm : Moves size s p a s') : Whole s' := by
  cases hm with
  | beginOp hpc | poke hpc | resume hpc => exact h.goto hpc nofun ⟨nofun,nofun⟩
  | wait hpc => exact (h.goto (c := .sleepAcquire) hpc nofun ⟨nofun,nofun⟩).flags
  | enter => exact h.enter
  | fallAsleep hpc => exact (h.goto (c := .sleepSched) hpc nofun ⟨nofun,nofun⟩).flags
  | sched hpc => exact (h.goto (c := .sleeping) hpc nofun ⟨nofun,nofun⟩).flags
  | tooBig | outside | clash => exact h.flags
  | logWrite b hpc | testOp b hpc | endOp hpc => exact h.goto hpc id ⟨nofun,nofun⟩
  | record b hpc => exact h.record hpc
  | last hpc hfree =>
    exact (h.leave (c := .commitLog) hpc (hi.no_committer hfree) rfl ⟨nofun,nofun⟩).flags
  | leave hpc _ hfree =>
    exact (h.leave (c := .endWake) hpc (hi.no_committer hfree) rfl ⟨nofun,nofun⟩).flags
  | wakeup => exact (h.wake.goto (c := .idle) rfl nofun ⟨nofun,nofun⟩).flags
  | commit hpc => exact h.commit (hi.idle_of_committer (p := p) (by rw [hpc]; rfl))
  | clear hpc => exact h.clear hpc (hi.idle_of_committer (p := p) (by rw [hpc]; rfl))
  | finish hpc => exact (h.goto (c := .finishWake) hpc nofun ⟨nofun,nofun⟩).flags

end Whole

/-! ### Every run -/

variable [DecidableEq ι]

/-- The header changes when a process of an operation records a block, and when the
committer clears it. -/
lemma lh_changes (hm : Moves size s p a s') (hne : s'.lh ≠ s.lh) :
    (s.pc p).active = true ∨ (s.pc p).committer = true := by
  cases hm with
  | record b hpc => exact .inl (by rw [hpc]; rfl)
  | clear hpc => exact .inr (by rw [hpc]; rfl)
  | _ => exact absurd rfl hne

variable [Fintype ι]

lemma inv_run {as : List (ι×OpAct)} (h : Run (Step size) initial as s) : Inv s ∧ Whole s := by
  refine h.invariant (fun _ s => Inv s ∧ Whole s) ?_ ⟨.initial,Whole.initial⟩
  rintro _ s a t ⟨hi,hw⟩ ⟨hnext,-⟩
  have hm := moves_of_next hnext
  exact ⟨hi.moves hm,hw.moves hi hm⟩

/-- **Group commit.** In every run of any number of processes: while one commits there is no
operation and the header is changed by nobody else, so that no `end_op` finds a commit
going on; what an operation has logged is in the header up to the next commit and then,
with no block missing, in that commit; and a process that sleeps on `&log` while the lock is
free waits for a commit or for an operation. -/
theorem group_commit_whole (size : ℕ) (as : List (ι×OpAct)) (s : OpLog ι)
    (h : Run (Step size) initial as s) :
    (s.committing = true → s.outstanding = 0 ∧
        ∀ p a s', Step size s (p,a) s' → s'.lh ≠ s.lh → (s.pc p).committer = true) ∧
      s.panic ≠ some .committing ∧
      (∀ p, (s.pc p).active = true → s.epoch p = s.commits.length ∧ s.wrote p ⊆ s.lh) ∧
      (∀ r ∈ s.ended, s.Covered r) ∧
      (s.logLock = none → ∀ p, s.pc p = .sleepSched ∨ s.pc p = .sleeping →
        ¬(s.committing = false ∧ s.outstanding = 0)) := by
  obtain ⟨hi,hw⟩ := inv_run h
  refine ⟨fun hc => ⟨hi.quiet hc,?_⟩,hi.calm.1,hw.current,hw.covered,?_⟩
  · intro p a s' hs hne
    rcases lh_changes (moves_of_next hs.1) hne with hact | hcomm
    · exact absurd hc (by simp [hi.free_of_active hact])
    · exact hcomm
  · rintro hl p hp ⟨hfree,h0⟩
    have hdrowsy : (s.pc p).drowsy = true := by
      rcases hp with hp | hp <;> rw [hp] <;> rfl
    rcases hi.awake ⟨p,hdrowsy⟩ with hc | hne | ⟨q,hq⟩
    · exact absurd hc (by simp [hfree])
    · exact hne h0
    · have hnone : Owns (OpPc.holdsLog ∘ s.pc) none := hl ▸ hi.lock
      have hq' := hnone.eq_false q
      simp only [comp_apply,hq] at hq'
      exact nomatch hq'

/-- Two operations; the process of the first begins the next one while the other commits. -/
def crossed {n : ℕ} (p q : Fin n) : List (Fin n×OpAct) :=
  [(p,.beginOp),(p,.test),(q,.beginOp),(q,.test),(p,.logWrite 5),(q,.logWrite 6),(p,.testOp),
    (q,.testOp),(q,.record 6),(p,.record 5),(p,.logWrite 6),(p,.testOp),(p,.record 6),(p,.endOp),
    (p,.leave),(p,.wakeup),(q,.endOp),(q,.leave),(p,.beginOp),(p,.test),(p,.fallAsleep),(q,.commit),
    (p,.sched)]

def twoOperations : List (Fin 2×OpAct) := crossed ⟨0,Nat.zero_lt_two⟩ ⟨1,Nat.one_lt_two⟩

theorem group_commit_whole_two : ∃ s, Run (Step LOGSIZE) initial twoOperations s ∧
    s.committing = true ∧ s.pc 0 = .sleeping ∧ s.ended = [(0,[5,6]),(0,[6])] ∧
    s.commits = [[6,5]] ∧ s.outstanding = 0 ∧ ∀ r ∈ s.ended, s.Covered r := by
  have he : (exec (fun a s => if s.panic = none then s.next LOGSIZE a.1 a.2 else none) twoOperations
      initial).map (fun s => decide (s.committing = true ∧ s.pc 0 = .sleeping ∧
        s.ended = [(0,[5,6]),(0,[6])] ∧ s.commits = [[6,5]])) = some true := by decide +kernel
  obtain ⟨s,hs,hval⟩ := Option.map_eq_some_iff.mp he
  obtain ⟨hc,hpc,hended,hcommits⟩ := of_decide_eq_true hval
  have hrun : Run (Step LOGSIZE) initial twoOperations s := .of_exec_if hs
  obtain ⟨hquiet,-,-,hcovered,-⟩ := group_commit_whole LOGSIZE _ s hrun
  exact ⟨s,hrun,hc,hpc,hended,hcommits,(hquiet hc).1,hcovered⟩

end OpLog
end JacobiXv6.Log
