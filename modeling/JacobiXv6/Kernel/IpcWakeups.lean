import JacobiXv6.Kernel.Ipc

/-! Wakeups between senders and receivers. Whoever puts something into a queue with the lock held
wakes those that sleep on the queue before the lock is given back. Only `sys_sig_send` puts
a signal into a queue without the lock. -/
namespace JacobiXv6.Kernel
open Library Function Option

/-- The queues of a slot that a process sleeps on. -/
inductive IpcBox
  | recv
  | pending

namespace IpcBox
variable {n : ℕ}

def chan : IpcBox → Fin n → IpcChan n
  | recv, j => .recvQueue j
  | pending, j => .pendingSignals j

/-- The queues that are written with the lock held; `strict` says that the signals are, too. -/
def Covered (strict : Bool) : IpcBox → Prop
  | recv => True
  | pending => strict = true

end IpcBox

def IpcPost.box : IpcPost → IpcBox
  | mess _ _ => .recv
  | signal _ => .pending

def Proc.Empty (q : Proc) : IpcBox → Prop
  | .recv => q.recvQueue.head = q.recvQueue.tail
  | .pending => q.pendingSignals.head = q.pendingSignals.tail

namespace Ipc
variable {n : ℕ} {s s' : Ipc n} {strict : Bool} {i j p : Fin n} {pc pc₁ : IpcPc n} {b : IpcBox}

def Empty (s : Ipc n) (b : IpcBox) (j : Fin n) : Prop := (s.proc j).Empty b

/-- The queue is one that process `i` takes from. -/
def Mine (s : Ipc n) (i : Fin n) : IpcBox → Fin n → Prop
  | .recv, j => (s.proc i).pid = (s.proc j).pid
  | .pending, j => i = j

def Sleeping (s : Ipc n) (i : Fin n) : Prop := (s.proc i).state = .sleeping

/-- A process at `pc` is going to wake `i`, unless somebody else does. -/
def Owes (s : Ipc n) (i : Fin n) : IpcPc n → Prop
  | .post _ rec k _ => (s.proc i).pid = rec ∧ k ≤ i
  | .posted _ rec k _ | .poke _ rec k _ => (s.proc i).pid = rec ∧ k ≤ i
  | .wake chan k back => chan = s.chan i ∧ k ≤ i ∨ s.Owes i back
  | _ => False

/-- What the process at `pc` relies on when it has the lock: it sleeps on an empty queue, and has
woken the processes that it has passed in its loop. -/
def Ready (strict : Bool) (s : Ipc n) (p : Fin n) : IpcPc n → Prop
  | .nap chan _ => ∀ b j, chan = b.chan j → b.Covered strict → s.Mine p b j ∧ s.Empty b j
  | .doze _ => ∀ b j, s.chan p = some (b.chan j) → b.Covered strict → s.Mine p b j ∧ s.Empty b j
  | .post _ rec k _ => ∀ i : Fin n, i < k → (s.proc i).pid = rec → ¬s.Sleeping i
  | .posted _ rec k _ => (s.proc k).pid = rec ∧ ∀ i : Fin n, i < k →
    (s.proc i).pid = rec → ¬s.Sleeping i
  | .poke _ rec k _ => ∀ i : Fin n, i < k → (s.proc i).pid = rec → ¬s.Sleeping i
  | .wake chan k (.post _ rec m _) =>
    ∀ i : Fin n, i < m → (s.proc i).pid = rec → s.Sleeping i → chan = s.chan i ∧ k ≤ i
  | _ => True

def Calm (strict : Bool) (pc : IpcPc n) : Prop := ∀ s p, Ready strict s p pc

/-- The places that a process can be at: what has the lock, what gives it back, and what can be
interrupted. -/
def Wf (strict : Bool) : IpcPc n → Prop
  | .spin next => next.holds = true ∧ Calm strict next ∧ Wf strict next
  | .done next | .yield next => next.holds = false ∧ Wf strict next
  | .nap _ back | .doze back | .sched back | .saved back | .woken back =>
    back.holds = true ∧ Calm strict back ∧ Wf strict back
  | .post what _ _ back | .posted what _ _ back | .poke what _ _ back =>
    (what.box.Covered strict → back.holds = true) ∧ Calm strict back ∧ Wf strict back
  | .wake _ _ back =>
    (strict = true → back.holds = true) ∧
      (Calm strict back ∨ ∃ what rec k b, back = .post what rec k b) ∧ Wf strict back
  | _ => True

structure Inv (strict : Bool) (s : Ipc n) : Prop where
  lock : Owns (IpcPc.holds ∘ s.pc) s.lock
  wf : ∀ i, Wf strict (s.pc i)
  asleep : ∀ i, s.Sleeping i → ∃ back, s.pc i = .sched back ∨ s.pc i = .saved back
  ready : ∀ p, s.lock = some p → Ready strict s p (s.pc p)
  boxes : ∀ i b j, s.Sleeping i → s.chan i = some (b.chan j) → b.Covered strict →
    s.Mine i b j ∧ (s.Empty b j ∨ ∃ p, s.lock = some p ∧ s.Owes i (s.pc p))

/-- Nobody falls asleep, and nothing is put into a queue without being owed. -/
structure Tame (strict : Bool) (s s' : Ipc n) : Prop where
  pid : ∀ i, (s'.proc i).pid = (s.proc i).pid
  sleeping : ∀ i, s'.Sleeping i → s.Sleeping i
  chan : ∀ i, s'.Sleeping i → s'.chan i = s.chan i
  empty : ∀ b j, b.Covered strict → s.Empty b j → s'.Empty b j

lemma Tame.refl (s : Ipc n) : Tame strict s s :=
  ⟨fun _ => rfl,fun _ => id,fun _ _ => rfl,fun _ _ _ => id⟩

lemma Tame.mine (h : Tame strict s s') (hm : s.Mine i b j) : s'.Mine i b j := by
  cases b with
  | recv =>
    change (s'.proc i).pid = (s'.proc j).pid
    rw [h.pid,h.pid]
    exact hm
  | pending => exact hm

lemma Tame.owes (h : Tame strict s s') (hi : s'.Sleeping i) : s'.Owes i pc ↔ s.Owes i pc := by
  induction pc with
  | post what rec k back | posted what rec k back | poke what rec k back => simp only [Owes,h.pid]
  | wake chan k back ih => simp only [Owes,h.chan i hi,ih]
  | _ => exact .rfl

lemma Tame.ready (h : Tame strict s s') (hchan : s'.chan p = s.chan p) (hr : Ready strict s p pc) :
    Ready strict s' p pc := by
  cases pc with
  | nap chan back =>
    intro b j hb hc
    obtain ⟨hm,he⟩ := hr b j hb hc
    exact ⟨h.mine hm,h.empty b j hc he⟩
  | doze back =>
    intro b j hb hc
    rw [hchan] at hb
    obtain ⟨hm,he⟩ := hr b j hb hc
    exact ⟨h.mine hm,h.empty b j hc he⟩
  | post what rec k back | poke what rec k back =>
    intro i hi hpid hs
    rw [h.pid] at hpid
    exact hr i hi hpid (h.sleeping i hs)
  | posted what rec k back =>
    refine ⟨(h.pid k).trans hr.1,?_⟩
    intro i hi hpid hs
    rw [h.pid] at hpid
    exact hr.2 i hi hpid (h.sleeping i hs)
  | wake chan k back =>
    cases back with
    | post what rec m back =>
      intro i hi hpid hs
      rw [h.pid] at hpid
      rw [h.chan i hs]
      exact hr i hi hpid (h.sleeping i hs)
    | _ => exact trivial
  | _ => exact trivial

namespace Inv

section

variable (h : Inv strict s)
include h

lemma awake (hp : s.pc p = pc) (hsched : ∀ back, pc ≠ .sched back) (hsaved : ∀ back, pc ≠ .saved back) :
    ¬s.Sleeping p := by
  intro hs
  obtain ⟨back,hb | hb⟩ := h.asleep p hs
  · exact hsched back (hp.symm.trans hb)
  · exact hsaved back (hp.symm.trans hb)

lemma wf_update (hpc : s'.pc = update s.pc p pc₁) (hwf : Wf strict pc₁) (i : Fin n) :
    Wf strict (s'.pc i) := by
  rw [hpc]
  obtain rfl | hne := eq_or_ne i p
  · rwa [update_self]
  · rw [update_of_ne hne]
    exact h.wf i

lemma asleep_update (ht : Tame strict s s') (hpc : s'.pc = update s.pc p pc₁)
    (hp : s'.Sleeping p → ∃ back, pc₁ = .sched back ∨ pc₁ = .saved back) (i : Fin n)
    (hi : s'.Sleeping i) :
    ∃ back, s'.pc i = .sched back ∨ s'.pc i = .saved back := by
  rw [hpc]
  obtain rfl | hne := eq_or_ne i p
  · rw [update_self]
    exact hp hi
  · rw [update_of_ne hne]
    exact h.asleep i (ht.sleeping i hi)

/-- What is asleep stays owed if the process with the lock still owes it. -/
lemma boxes_of (ht : Tame strict s s')
    (howed : ∀ i q, s'.Sleeping i → s.lock = some q → s.Owes i (s.pc q) → ∃ q, s'.lock = some q ∧
      s'.Owes i (s'.pc q))
    (i : Fin n) (b : IpcBox) (j : Fin n) (hi : s'.Sleeping i) (hb : s'.chan i = some (b.chan j))
    (hc : b.Covered strict) :
    s'.Mine i b j ∧ (s'.Empty b j ∨ ∃ p, s'.lock = some p ∧ s'.Owes i (s'.pc p)) := by
  rw [ht.chan i hi] at hb
  obtain ⟨hm,he | ⟨q,hq,ho⟩⟩ := h.boxes i b j (ht.sleeping i hi) hb hc
  · exact ⟨ht.mine hm,.inl (ht.empty b j hc he)⟩
  · exact ⟨ht.mine hm,.inr (howed i q hi hq ho)⟩

lemma quiet (hp : (s.pc p).holds = false) (ht : Tame strict s s')
    (hpc : s'.pc = update s.pc p pc₁) (hchan : s'.chan = s.chan) (hlock : s'.lock = s.lock)
    (hholds : pc₁.holds = false) (hwf : Wf strict pc₁)
    (hasleep : s'.Sleeping p → ∃ back, pc₁ = .sched back ∨ pc₁ = .saved back) : Inv strict s' := by
  have hother : ∀ q, s.lock = some q → s'.pc q = s.pc q := by
    intro q hq
    rw [hpc,update_of_ne]
    rintro rfl
    exact nomatch hp.symm.trans ((h.lock q).mpr hq)
  refine ⟨?_,h.wf_update hpc hwf,h.asleep_update ht hpc hasleep,?_,h.boxes_of ht ?_⟩
  · rw [hpc,hlock,comp_update]
    exact h.lock.keep (hholds.trans hp.symm)
  · intro q hq
    rw [hlock] at hq
    rw [hother q hq]
    exact ht.ready (by rw [hchan]) (h.ready q hq)
  · intro i q hi hq ho
    refine ⟨q,hlock.trans hq,?_⟩
    rw [hother q hq]
    exact (ht.owes hi).mpr ho

lemma acquire (hfree : s.lock = none) (ht : Tame strict s s')
    (hpc : s'.pc = update s.pc p pc₁) (hlock : s'.lock = some p) (hholds : pc₁.holds = true)
    (hcalm : Calm strict pc₁) (hwf : Wf strict pc₁) (hasleep : ¬s'.Sleeping p) : Inv strict s' := by
  refine ⟨?_,h.wf_update hpc hwf,h.asleep_update ht hpc fun hs => absurd hs hasleep,?_,h.boxes_of ht ?_⟩
  · rw [hpc,hlock,comp_update,hholds]
    have hl := h.lock
    rw [hfree] at hl
    exact hl.acquire
  · intro q hq
    obtain rfl := Option.some.inj (hlock.symm.trans hq)
    rw [hpc,update_self]
    exact hcalm s' p
  · exact fun i q _ hq _ => nomatch hfree.symm.trans hq

lemma release (hp : (s.pc p).holds = true) (howes : ∀ i, ¬s.Owes i (s.pc p)) (ht : Tame strict s s')
    (hpc : s'.pc = update s.pc p pc₁) (hlock : s'.lock = none) (hholds : pc₁.holds = false)
    (hwf : Wf strict pc₁) (hasleep : s'.Sleeping p → ∃ back, pc₁ = .sched back ∨ pc₁ = .saved back) :
    Inv strict s' := by
  have hmine : s.lock = some p := h.lock.eq_some hp
  refine ⟨?_,h.wf_update hpc hwf,h.asleep_update ht hpc hasleep,
    fun q hq => (nomatch hlock.symm.trans hq),
    h.boxes_of ht ?_⟩
  · rw [hpc,hlock,comp_update,hholds]
    exact h.lock.release hp
  · intro i q _ hq ho
    obtain rfl := Option.some.inj (hmine.symm.trans hq)
    exact absurd ho (howes i)

lemma proceed (hp : (s.pc p).holds = true) (ht : Tame strict s s')
    (hpc : s'.pc = update s.pc p pc₁) (hlock : s'.lock = s.lock) (hholds : pc₁.holds = true)
    (hwf : Wf strict pc₁) (hasleep : s'.Sleeping p → ∃ back, pc₁ = .sched back ∨ pc₁ = .saved back)
    (hready : Ready strict s' p pc₁) (howes : ∀ i, s'.Sleeping i → s.Owes i (s.pc p) → s'.Owes i pc₁) :
    Inv strict s' := by
  have hmine : s.lock = some p := h.lock.eq_some hp
  refine ⟨?_,h.wf_update hpc hwf,h.asleep_update ht hpc hasleep,?_,h.boxes_of ht ?_⟩
  · rw [hpc,hlock,comp_update]
    exact h.lock.keep (hholds.trans hp.symm)
  · intro q hq
    obtain rfl := Option.some.inj (hmine.symm.trans (hlock.symm.trans hq))
    rwa [hpc,update_self]
  · intro i q hi hq ho
    obtain rfl := Option.some.inj (hmine.symm.trans hq)
    refine ⟨p,hlock.trans hmine,?_⟩
    rw [hpc,update_self]
    exact howes i hi ho

lemma onward (hp : s.pc p = pc) (ht : Tame strict s s') (hpc : s'.pc = update s.pc p pc₁)
    (hchan : s'.chan = s.chan) (hlock : s'.lock = s.lock) (hholds : pc₁.holds = pc.holds)
    (hwf : Wf strict pc₁)
    (hawake : ¬s.Sleeping p) (hready : pc.holds = true → Ready strict s' p pc₁)
    (howes : ∀ i, s'.Sleeping i → s.Owes i pc → s'.Owes i pc₁) : Inv strict s' := by
  subst hp
  have hawake' : s'.Sleeping p → ∃ back, pc₁ = .sched back ∨ pc₁ = .saved back :=
    fun hs => absurd (ht.sleeping p hs) hawake
  cases hh : (s.pc p).holds with
  | true => exact h.proceed hh ht hpc hlock (hholds.trans hh) hwf hawake' (hready hh) howes
  | false => exact h.quiet hh ht hpc hchan hlock (hholds.trans hh) hwf hawake'

lemma deposit {what : IpcPost} {rec : ℤ} {k : Fin n} {back : IpcPc n}
    (hp : s.pc p = .posted what rec k back) (hback : back.holds = true)
    (hpid : ∀ i, (s'.proc i).pid = (s.proc i).pid)
    (hstate : ∀ i, (s'.proc i).state = (s.proc i).state)
    (hempty : ∀ b j, b = what.box ∧ j = k ∨ (s.Empty b j → s'.Empty b j))
    (hpc : s'.pc = update s.pc p (.poke what rec k back)) (hchan : s'.chan = s.chan)
    (hlock : s'.lock = s.lock) :
    Inv strict s' := by
  have hholds : (s.pc p).holds = true := by
    rw [hp]
    exact hback
  have hmine : s.lock = some p := h.lock.eq_some hholds
  have hsleeping : ∀ i, s'.Sleeping i → s.Sleeping i := fun i hi => (hstate i).symm.trans hi
  have hready := h.ready p hmine
  have hwf := h.wf p
  rw [hp] at hready hwf
  refine ⟨?_,h.wf_update hpc hwf,?_,?_,?_⟩
  · rw [hpc,hlock,comp_update]
    exact h.lock.keep (hback.trans hholds.symm)
  · intro i hi
    obtain rfl | hne := eq_or_ne i p
    · exact absurd (hsleeping i hi) (h.awake hp nofun nofun)
    · rw [hpc,update_of_ne hne]
      exact h.asleep i (hsleeping i hi)
  · intro q hq
    obtain rfl := Option.some.inj (hmine.symm.trans (hlock.symm.trans hq))
    rw [hpc,update_self]
    intro i hi hrec hs
    rw [hpid] at hrec
    exact hready.2 i hi hrec (hsleeping i hs)
  · intro i b j hi hb hc
    rw [hchan] at hb
    have hpoke : s.Owes i (.posted what rec k back) → ∃ q, s'.lock = some q ∧ s'.Owes i (s'.pc q) := by
      rintro ⟨hrec,hk⟩
      refine ⟨p,hlock.trans hmine,?_⟩
      rw [hpc,update_self]
      exact ⟨(hpid i).trans hrec,hk⟩
    obtain ⟨hm,ho⟩ := h.boxes i b j (hsleeping i hi) hb hc
    have hm' : s'.Mine i b j := by
      cases b with
      | recv => exact (hpid i).trans (hm.trans (hpid j).symm)
      | pending => exact hm
    refine ⟨hm',?_⟩
    obtain he | ⟨q,hq,ho⟩ := ho
    · obtain ⟨rfl,rfl⟩ | hkeep := hempty b j
      · -- the loop has not passed the sleeper: those it has passed are awake
        have hrec : (s.proc i).pid = rec := by
          cases hw : what.box with
          | recv =>
            rw [hw] at hm
            exact hm.trans hready.1
          | pending =>
            rw [hw] at hm
            rw [(hm : i = j)]
            exact hready.1
        exact .inr (hpoke ⟨hrec,not_lt.mp fun hlt => hready.2 i hlt hrec (hsleeping i hi)⟩)
      · exact .inl (hkeep he)
    · obtain rfl := Option.some.inj (hmine.symm.trans hq)
      rw [hp] at ho
      exact .inr (hpoke ho)

lemma dozes {back : IpcPc n} (hp : s.pc p = .doze back) (hpid : ∀ i, (s'.proc i).pid = (s.proc i).pid)
    (hstate : ∀ i, i ≠ p → s'.Sleeping i → s.Sleeping i) (hempty : ∀ b j, s.Empty b j → s'.Empty b j)
    (hpc : s'.pc = update s.pc p (.sched (.woken back))) (hchan : s'.chan = s.chan)
    (hlock : s'.lock = s.lock) :
    Inv strict s' := by
  have hholds : (s.pc p).holds = true := by
    rw [hp]
    rfl
  have hmine : s.lock = some p := h.lock.eq_some hholds
  have hready := h.ready p hmine
  have hwf := h.wf p
  rw [hp] at hready hwf
  have hm' : ∀ i b j, s.Mine i b j → s'.Mine i b j := by
    intro i b j hm
    cases b with
    | recv => exact (hpid i).trans (hm.trans (hpid j).symm)
    | pending => exact hm
  refine ⟨?_,h.wf_update hpc ⟨rfl,fun _ _ => trivial,hwf⟩,?_,?_,?_⟩
  · rw [hpc,hlock,comp_update]
    exact h.lock.keep hholds.symm
  · intro i hi
    rw [hpc]
    obtain rfl | hne := eq_or_ne i p
    · exact ⟨_,.inl (update_self ..)⟩
    · rw [update_of_ne hne]
      exact h.asleep i (hstate i hne hi)
  · intro q hq
    obtain rfl := Option.some.inj (hmine.symm.trans (hlock.symm.trans hq))
    rw [hpc,update_self]
    exact trivial
  · intro i b j hi hb hc
    rw [hchan] at hb
    obtain rfl | hne := eq_or_ne i p
    · obtain ⟨hm,he⟩ := hready b j hb hc
      exact ⟨hm' i b j hm,.inl (hempty b j he)⟩
    · obtain ⟨hm,he | ⟨q,hq,ho⟩⟩ := h.boxes i b j (hstate i hne hi) hb hc
      · exact ⟨hm' i b j hm,.inl (hempty b j he)⟩
      · obtain rfl := Option.some.inj (hmine.symm.trans hq)
        rw [hp] at ho
        exact ho.elim

end

end Inv
/-! ### Steps -/

lemma Tame.same (hproc : s'.proc = s.proc) (hchan : s'.chan = s.chan) : Tame strict s s' where
  pid i := by rw [hproc]
  sleeping i hi := by
    rw [Sleeping,hproc] at hi
    exact hi
  chan i _ := by rw [hchan]
  empty b j _ he := by
    rw [Empty,hproc]
    exact he

variable {k : Fin n}

lemma Tame.put {q : Proc} (hproc : s'.proc = update s.proc k q) (hchan : s'.chan = s.chan)
    (hpid : q.pid = (s.proc k).pid) (hstate : q.state = .sleeping → s.Sleeping k)
    (hempty : ∀ b : IpcBox, b.Covered strict → (s.proc k).Empty b → q.Empty b) : Tame strict s s' where
  pid i := by
    rw [hproc]
    obtain rfl | hne := eq_or_ne i k
    · rw [update_self,hpid]
    · rw [update_of_ne hne]
  sleeping i hi := by
    rw [Sleeping,hproc] at hi
    obtain rfl | hne := eq_or_ne i k
    · rw [update_self] at hi
      exact hstate hi
    · rw [update_of_ne hne] at hi
      exact hi
  chan i _ := by rw [hchan]
  empty b j hc he := by
    rw [Empty,hproc]
    obtain rfl | hne := eq_or_ne j k
    · rw [update_self]
      exact hempty b hc he
    · rw [update_of_ne hne]
      exact he

lemma Tame.trans {s₁ : Ipc n} (h : Tame strict s s₁) (hproc : s'.proc = s₁.proc)
    (hchan : s'.chan = s₁.chan) :
    Tame strict s s' := by
  have h' : Tame strict s₁ s' := .same hproc hchan
  refine ⟨fun i => (h'.pid i).trans (h.pid i),fun i hi => h.sleeping i (h'.sleeping i hi),?_,
    fun b j hc he => h'.empty b j hc (h.empty b j hc he)⟩
  intro i hi
  exact (h'.chan i hi).trans (h.chan i (h'.sleeping i hi))

lemma Tame.setState {state : ProcState} (hstate : state ≠ .sleeping) :
    Tame strict s (s.setState k state) := by
  refine .put (k := k) (q := { s.proc k with state := state }) rfl rfl rfl (fun h => absurd h hstate) ?_
  intro b _ he
  cases b <;> exact he

lemma Tame.rouse {chan : Option (IpcChan n)} : Tame strict s (s.rouse chan k) := by
  rw [Ipc.rouse]
  split_ifs with hk
  · exact .setState nofun
  · exact .refl s

lemma Tame.slay : Tame strict s (s.slay k) := by
  rw [Ipc.slay]
  split_ifs with hk
  · have ht : Tame strict s (s.setState k .runnable) := .setState nofun
    exact ht.trans rfl rfl
  · exact .same rfl rfl

lemma Tame.stash {what : IpcPost} {sender : ℤ} :
    Tame strict s (s.put k (stash what sender (s.proc k))) := by
  refine .put rfl rfl ?_ ?_ ?_
  · cases what <;> rfl
  · intro h
    cases what <;> exact h
  · intro b _ he
    cases what <;> cases b <;> exact he

lemma rouse_rest (s : Ipc n) (chan : Option (IpcChan n)) (k : Fin n) :
    (s.rouse chan k).chan = s.chan ∧ (s.rouse chan k).pc = s.pc ∧ (s.rouse chan k).lock = s.lock := by
  rw [rouse]
  split_ifs
  · exact ⟨rfl,rfl,rfl⟩
  · exact ⟨rfl,rfl,rfl⟩

/-- A round of `wakeup1` leaves nobody asleep on the channel in the slot it looks at. -/
lemma rouse_awake : ¬((s.rouse (s.chan k) k).Sleeping k) := by
  rw [rouse]
  split_ifs with hk
  · intro hs
    simp only [Sleeping,setState,put,update_self] at hs
    exact nomatch hs
  · exact fun hs => hk ⟨hs,rfl⟩

namespace Inv

lemma ready_of (h : Inv strict s) (hp : s.pc p = pc) (hh : pc.holds = true) : Ready strict s p pc := by
  subst hp
  exact h.ready p (h.lock.eq_some hh)

lemma wf_of (h : Inv strict s) (hp : s.pc p = pc) : Wf strict pc := by
  rw [← hp]
  exact h.wf p

section
variable {what : IpcPost} {rec : ℤ} {back : IpcPc n}

lemma tick_post {k : ℕ} (h : Inv strict s) (hp : s.pc p = .post what rec k back)
    (hs : s.tick p (.post what rec k back) = some s') : Inv strict s' := by
  have hwf := h.wf_of hp
  have hawake : ¬s.Sleeping p := h.awake hp nofun nofun
  rw [tick] at hs
  split_ifs at hs with hk hrec
  · cases hs
    have ht : Tame strict s ((s.put ⟨k,hk⟩ (stash what (s.proc p).pid (s.proc ⟨k,hk⟩))).goto p
        (.posted what rec ⟨k,hk⟩ back)) := Tame.stash.trans rfl rfl
    refine h.onward hp ht rfl rfl rfl rfl hwf hawake ?_ ?_
    · intro hh
      have hr : Ready strict s p (.posted what rec ⟨k,hk⟩ back) := ⟨hrec,h.ready_of hp hh⟩
      exact ht.ready rfl hr
    · intro i hi ho
      exact (ht.owes hi).mpr ho
  · cases hs
    refine h.onward hp (Tame.same rfl rfl) rfl rfl rfl rfl hwf hawake ?_ ?_
    · intro hh i hi hpid
      obtain hlt | rfl := Nat.lt_succ_iff_lt_or_eq.mp hi
      · exact h.ready_of hp hh i hlt hpid
      · exact absurd hpid hrec
    · rintro i-⟨hpid,hle⟩
      refine ⟨hpid,Nat.lt_of_le_of_ne hle ?_⟩
      rintro rfl
      exact hrec hpid
  · cases hs
    obtain ⟨-,hcalm,hback⟩ := hwf
    refine h.onward hp (Tame.same rfl rfl) rfl rfl rfl rfl hback hawake (fun _ => hcalm _ p) ?_
    rintro i-⟨-,hle⟩
    exact absurd (hle.trans_lt i.isLt) hk

lemma tick_posted {k : Fin n} (h : Inv strict s) (hp : s.pc p = .posted what rec k back) :
    Inv strict ((s.put k (advance what (s.proc k))).goto p (.poke what rec k back)) := by
  have hwf := h.wf_of hp
  have hpid : (advance what (s.proc k)).pid = (s.proc k).pid := by cases what <;> rfl
  have hstate : (advance what (s.proc k)).state = (s.proc k).state := by cases what <;> rfl
  have hempty : ∀ b, b ≠ what.box → (s.proc k).Empty b → (advance what (s.proc k)).Empty b := by
    intro b hb he
    cases what <;> cases b
    · exact absurd rfl hb
    · exact he
    · exact he
    · exact absurd rfl hb
  cases hback : back.holds with
  | true =>
    refine h.deposit hp hback ?_ ?_ ?_ rfl rfl rfl
    · intro i
      obtain rfl | hne := eq_or_ne i k
      · simpa only [goto,put,update_self] using hpid
      · simp only [goto,put,update_of_ne hne]
    · intro i
      obtain rfl | hne := eq_or_ne i k
      · simpa only [goto,put,update_self] using hstate
      · simp only [goto,put,update_of_ne hne]
    · intro b j
      obtain rfl | hne := eq_or_ne j k
      · by_cases hb : b = what.box
        · exact .inl ⟨hb,rfl⟩
        · refine .inr fun he => ?_
          simpa only [Empty,goto,put,update_self] using hempty b hb he
      · refine .inr fun he => ?_
        simpa only [Empty,goto,put,update_of_ne hne] using he
  | false =>
    -- without the lock only a queue is written that is not covered
    have hcov : ¬what.box.Covered strict := fun hc => nomatch hback.symm.trans (hwf.1 hc)
    have ht : Tame strict s ((s.put k (advance what (s.proc k))).goto p (.poke what rec k back)) := by
      refine Tame.put rfl rfl hpid (fun hsl => hstate.symm.trans hsl) ?_
      intro b hc he
      refine hempty b ?_ he
      rintro rfl
      exact hcov hc
    refine h.onward hp ht rfl rfl rfl rfl hwf (h.awake hp nofun nofun) ?_ ?_
    · intro hh
      exact nomatch hback.symm.trans hh
    · intro i hi ho
      exact (ht.owes hi).mpr ho

lemma tick_poke {k : Fin n} (h : Inv strict s) (hp : s.pc p = .poke what rec k back) :
    Inv strict (s.goto p (.wake (s.chan k) 0 (.post what rec (k+1) back))) := by
  have hwf := h.wf_of hp
  refine h.onward hp (Tame.same rfl rfl) rfl rfl rfl rfl ⟨?_,.inr ⟨_,_,_,_,rfl⟩,hwf⟩
    (h.awake hp nofun nofun) ?_ ?_
  · rintro rfl
    refine hwf.1 ?_
    cases what.box <;> trivial
  · intro hh i hi hpid hsl
    obtain hlt | heq := Nat.lt_succ_iff_lt_or_eq.mp hi
    · exact absurd hsl (h.ready_of hp hh i hlt hpid)
    · obtain rfl := Fin.ext heq
      exact ⟨rfl,Nat.zero_le _⟩
  · rintro i-⟨hpid,hle⟩
    obtain rfl | hlt := hle.eq_or_lt
    · exact .inl ⟨rfl,Nat.zero_le _⟩
    · exact .inr ⟨hpid,hlt⟩

end

variable {k : ℕ}

lemma tick_wake {chan : Option (IpcChan n)} {back : IpcPc n} (h : Inv strict s)
    (hp : s.pc p = .wake chan k back) (hs : s.tick p (.wake chan k back) = some s') :
    Inv strict s' := by
  have hwf := h.wf_of hp
  have hawake : ¬s.Sleeping p := h.awake hp nofun nofun
  rw [tick] at hs
  split_ifs at hs with hk
  · cases hs
    have ht : Tame strict s ((s.rouse chan ⟨k,hk⟩).goto p (.wake chan (k+1) back)) :=
      Tame.rouse.trans rfl rfl
    -- the slot of this round does not sleep on the channel afterwards
    have hpast : ∀ i, ((s.rouse chan ⟨k,hk⟩).goto p (.wake chan (k+1) back)).Sleeping i →
      chan = s.chan i → k ≤ i →
        k+1 ≤ i := by
      intro i hi hc hle
      refine Nat.lt_of_le_of_ne hle ?_
      rintro rfl
      subst hc
      exact rouse_awake hi
    obtain ⟨hchan,hpc,hlock⟩ := s.rouse_rest chan ⟨k,hk⟩
    have hgoto : ((s.rouse chan ⟨k,hk⟩).goto p (.wake chan (k+1) back)).pc =
        update s.pc p (.wake chan (k+1) back) := by rw [goto,hpc]
    refine h.onward hp ht hgoto hchan hlock rfl hwf hawake ?_ ?_
    · intro hh
      have hr := h.ready_of hp hh
      cases back with
      | post what rec m back =>
        intro i hi hpid hsl
        rw [ht.pid] at hpid
        rw [ht.chan i hsl]
        obtain ⟨hc,hle⟩ := hr i hi hpid (ht.sleeping i hsl)
        exact ⟨hc,hpast i hsl hc hle⟩
      | _ => exact trivial
    · intro i hi ho
      rw [ht.owes hi]
      obtain ⟨hc,hle⟩ | ho := ho
      · exact .inl ⟨hc,hpast i hi hc hle⟩
      · exact .inr ho
  · cases hs
    obtain ⟨-,hback,hwf⟩ := hwf
    have ht : Tame strict s (s.goto p back) := Tame.same rfl rfl
    refine h.onward hp ht rfl rfl rfl rfl hwf hawake ?_ ?_
    · intro hh
      obtain hcalm | ⟨what,rec,m,b,rfl⟩ := hback
      · exact hcalm _ p
      · intro i hi hpid hsl
        obtain ⟨-,hle⟩ := h.ready_of hp hh i hi hpid hsl
        exact hk (hle.trans_lt i.isLt)
    · rintro i hi (⟨-,hle⟩ | ho)
      · exact absurd (hle.trans_lt i.isLt) hk
      · exact (ht.owes hi).mpr ho

lemma calmly (h : Inv strict s) (hp : s.pc p = pc) (ht : Tame strict s s')
    (hpc : s'.pc = update s.pc p pc₁)
    (hlock : s'.lock = s.lock) (hpre : pc.holds = true) (hholds : pc₁.holds = true)
    (hwf : Wf strict pc₁)
    (hready : Ready strict s' p pc₁)
    (hawake : s'.Sleeping p → ∃ back, pc₁ = .sched back ∨ pc₁ = .saved back)
    (howes : ∀ i, ¬s.Owes i pc) : Inv strict s' := by
  subst hp
  exact h.proceed hpre ht hpc hlock hholds hwf hawake hready fun i _ ho => absurd ho (howes i)

/-- A process that has the lock goes on without doing anything. -/
lemma plain (h : Inv strict s) (hp : s.pc p = pc) (hawake : ¬s.Sleeping p) (hpre : pc.holds = true)
    (hholds : pc₁.holds = true) (hwf : Wf strict pc₁) (hready : Ready strict (s.goto p pc₁) p pc₁)
    (howes : ∀ i, ¬s.Owes i pc) : Inv strict (s.goto p pc₁) :=
  h.calmly hp (Tame.same rfl rfl) rfl rfl hpre hholds hwf hready (fun hsl => absurd hsl hawake) howes

lemma tick_recv (h : Inv strict s) (hp : s.pc p = .recv k) (hs : s.tick p (.recv k) = some s') :
    Inv strict s' := by
  have hawake : ¬s.Sleeping p := h.awake hp nofun nofun
  rw [tick] at hs
  split_ifs at hs with hk
  · cases hs
    rw [recvRound]
    split_ifs with hpid hempty
    · refine h.plain hp hawake rfl rfl ⟨rfl,fun _ _ => trivial,trivial⟩ ?_ fun _ => id
      rintro b j hb -
      cases b with
      | recv =>
        obtain rfl := IpcChan.recvQueue.inj hb
        exact ⟨hpid.symm,hempty⟩
      | pending => exact nomatch hb
    · have ht : Tame strict s ((s.put ⟨k,hk⟩ { s.proc ⟨k,hk⟩ with
          recvQueue := (s.proc ⟨k,hk⟩).recvQueue.pop NUM_MSG }).goto p (.recv (k+1))) := by
        refine Tame.put rfl rfl rfl id ?_
        intro b _ he
        cases b with
        | recv => exact absurd he hempty
        | pending => exact he
      exact h.calmly hp ht rfl rfl rfl rfl trivial trivial
        (fun hsl => absurd (ht.sleeping p hsl) hawake) fun _ => id
    · exact h.plain hp hawake rfl rfl trivial trivial fun _ => id
  · cases hs
    exact h.plain hp hawake rfl rfl ⟨rfl,trivial⟩ trivial fun _ => id

lemma wf_sendMulti (sender : ℤ) (mess : Msg) (recs : List ℤ) :
    Wf strict (IpcPc.sendMulti (n := n) sender mess recs) := by
  cases recs with
  | nil => trivial
  | cons rec recs => exact ⟨rfl,fun _ _ => trivial,trivial⟩

lemma holds_sendMulti (sender : ℤ) (mess : Msg) (recs : List ℤ) :
    (IpcPc.sendMulti (n := n) sender mess recs).holds = false := by
  cases recs <;> rfl

lemma tick_multi {sender rec : ℤ} {recs : List ℤ} {mess : Msg} (h : Inv strict s)
    (hp : s.pc p = .multi sender rec recs mess k)
    (hs : s.tick p (.multi sender rec recs mess k) = some s') :
    Inv strict s' := by
  have hawake : ¬s.Sleeping p := h.awake hp nofun nofun
  rw [tick] at hs
  split_ifs at hs with hk hrec
  · cases hs
    have ht : Tame strict s ((s.put ⟨k,hk⟩ ((s.proc ⟨k,hk⟩).putMulti sender mess)).goto p
        (.post (.signal 1) (s.proc ⟨k,hk⟩).pid 0 (.multi sender rec recs mess (k+1)))) := by
      refine Tame.put rfl rfl rfl id ?_
      intro b _ he
      cases b <;> exact he
    refine h.calmly hp ht rfl rfl rfl rfl ⟨fun _ => rfl,fun _ _ => trivial,trivial⟩ ?_
      (fun hsl => absurd (ht.sleeping p hsl) hawake) fun _ => id
    intro i hi
    exact absurd hi (Nat.not_lt_zero _)
  · cases hs
    exact h.plain hp hawake rfl rfl trivial trivial fun _ => id
  · cases hs
    exact h.plain hp hawake rfl rfl
      ⟨holds_sendMulti sender mess recs,wf_sendMulti sender mess recs⟩ trivial
      fun _ => id

lemma tick_pause (h : Inv strict s) (hp : s.pc p = .pause) (hs : s.tick p .pause = some s') :
    Inv strict s' := by
  have hawake : ¬s.Sleeping p := h.awake hp nofun nofun
  rw [tick] at hs
  split_ifs at hs with hempty
  · cases hs
    refine h.plain hp hawake rfl rfl ⟨rfl,fun _ _ => trivial,rfl,trivial⟩ ?_ fun _ => id
    rintro b j hb -
    cases b with
    | recv => exact nomatch hb
    | pending =>
      obtain rfl := IpcChan.pendingSignals.inj hb
      exact ⟨rfl,hempty⟩
  · cases hs
    exact h.plain hp hawake rfl rfl ⟨rfl,trivial⟩ trivial fun _ => id

lemma slay_rest (s : Ipc n) (k : Fin n) : (s.slay k).pc = s.pc ∧ (s.slay k).lock = s.lock := by
  rw [slay]
  split_ifs
  · exact ⟨rfl,rfl⟩
  · exact ⟨rfl,rfl⟩

lemma tick_kill {pid : ℤ} (h : Inv strict s) (hp : s.pc p = .kill pid k)
    (hs : s.tick p (.kill pid k) = some s') : Inv strict s' := by
  have hawake : ¬s.Sleeping p := h.awake hp nofun nofun
  rw [tick] at hs
  split_ifs at hs with hk hpid
  · cases hs
    have ht : Tame strict s ((s.slay ⟨k,hk⟩).goto p (.done .user)) := Tame.slay.trans rfl rfl
    obtain ⟨hpc,hlock⟩ := slay_rest s ⟨k,hk⟩
    have hgoto : ((s.slay ⟨k,hk⟩).goto p (.done .user)).pc = update s.pc p (.done .user) := by
      rw [goto,hpc]
    exact h.calmly hp ht hgoto hlock rfl rfl ⟨rfl,trivial⟩ trivial
      (fun hsl => absurd (ht.sleeping p hsl) hawake) fun _ => id
  · cases hs
    exact h.plain hp hawake rfl rfl trivial trivial fun _ => id
  · cases hs
    exact h.plain hp hawake rfl rfl ⟨rfl,trivial⟩ trivial fun _ => id

lemma tick (h : Inv strict s) (hp : s.pc p = pc) (hs : s.tick p pc = some s') : Inv strict s' := by
  have hwf := h.wf_of hp
  cases pc with
  | user => exact nomatch hs
  | spin next =>
    obtain ⟨hfree,⟨⟩⟩ := ite_none_right_eq_some.mp hs
    exact h.acquire hfree (Tame.same rfl rfl) rfl rfl hwf.1 hwf.2.1 hwf.2.2 (h.awake hp nofun nofun)
  | done next =>
    cases hs
    refine h.release (p := p) ?_ ?_ (Tame.same rfl rfl) rfl rfl hwf.1 hwf.2 fun hsl =>
      absurd hsl (h.awake hp nofun nofun)
    · rw [hp]
      rfl
    · intro i
      rw [hp]
      exact id
  | yield back =>
    cases hs
    have ht : Tame strict s (s.setState p .runnable) := Tame.setState nofun
    exact h.calmly hp (ht.trans rfl rfl) rfl rfl rfl rfl ⟨rfl,fun _ _ => trivial,hwf⟩ trivial
      (fun _ => ⟨_,.inl rfl⟩) fun _ => id
  | nap chan back =>
    cases hs
    have hawake : ¬s.Sleeping p := h.awake hp nofun nofun
    have ht : Tame strict s ({ s with chan := update s.chan p (some chan) }.goto p (.doze back)) := by
      refine ⟨fun _ => rfl,fun _ => id,?_,fun _ _ _ => id⟩
      intro i hi
      refine update_of_ne ?_ _ _
      rintro rfl
      exact hawake hi
    refine h.calmly hp ht rfl rfl rfl rfl hwf ?_ (fun hsl => absurd hsl hawake) fun _ => id
    intro b j hb hc
    change update s.chan p (some chan) p = some (b.chan j) at hb
    rw [update_self] at hb
    obtain ⟨hm,he⟩ := h.ready_of hp rfl b j (Option.some.inj hb) hc
    exact ⟨ht.mine hm,he⟩
  | doze back =>
    cases hs
    refine h.dozes hp ?_ ?_ ?_ rfl rfl rfl
    · intro i
      obtain rfl | hne := eq_or_ne i p
      · simp only [goto,setState,put,update_self]
      · simp only [goto,setState,put,update_of_ne hne]
    · intro i hne hi
      simpa only [Sleeping,goto,setState,put,update_of_ne hne] using hi
    · intro b j he
      obtain rfl | hne := eq_or_ne j p
      · simp only [Empty,goto,setState,put,update_self]
        cases b <;> exact he
      · simpa only [Empty,goto,setState,put,update_of_ne hne] using he
  | sched back =>
    cases hs
    refine h.release (p := p) ?_ ?_ (Tame.same rfl rfl) rfl rfl rfl hwf fun _ => ⟨_,.inr rfl⟩
    · rw [hp]
      rfl
    · intro i
      rw [hp]
      exact id
  | saved back =>
    obtain ⟨⟨-,hfree⟩,⟨⟩⟩ := ite_none_right_eq_some.mp hs
    have ht : Tame strict s (s.setState p .running) := Tame.setState nofun
    refine h.acquire hfree (ht.trans rfl rfl) rfl rfl hwf.1 hwf.2.1 hwf.2.2 ?_
    intro hsl
    simp only [Sleeping,goto,setState,put,update_self] at hsl
    exact nomatch hsl
  | woken back =>
    cases hs
    have hawake : ¬s.Sleeping p := h.awake hp nofun nofun
    have ht : Tame strict s ({ s with chan := update s.chan p none }.goto p back) := by
      refine ⟨fun _ => rfl,fun _ => id,?_,fun _ _ _ => id⟩
      intro i hi
      refine update_of_ne ?_ _ _
      rintro rfl
      exact hawake hi
    exact h.calmly hp ht rfl rfl rfl hwf.1 hwf.2.2 (hwf.2.1 _ p)
      (fun hsl => absurd hsl hawake) fun _ => id
  | post what rec k back => exact h.tick_post hp hs
  | posted what rec k back =>
    cases hs
    exact h.tick_posted hp
  | poke what rec k back =>
    cases hs
    exact h.tick_poke hp
  | wake chan k back => exact h.tick_wake hp hs
  | recv k => exact h.tick_recv hp hs
  | multi sender rec recs mess k => exact h.tick_multi hp hs
  | pause => exact h.tick_pause hp hs
  | kill pid k => exact h.tick_kill hp hs
  | sigret tf =>
    cases hs
    have ht : Tame strict s
        ((s.put p { s.proc p with tf := tf, handling := false }).goto p (.done .user)) := by
      refine Tame.put rfl rfl rfl id ?_
      intro b _ he
      cases b <;> exact he
    exact h.calmly hp ht rfl rfl rfl rfl ⟨rfl,trivial⟩ trivial
      (fun hsl => absurd (ht.sleeping p hsl) (h.awake hp nofun nofun)) fun _ => id

end Inv

lemma interruptible_holds : pc.interruptible = true → pc.holds = false := by
  induction pc with
  | user => exact fun _ => rfl
  | post what rec k back ih | posted what rec k back ih | poke what rec k back ih
  | wake chan k back ih => exact ih
  | _ => exact nofun

/-- The action is not `sys_sig_send`. -/
def Locking : IpcAct → Prop
  | .sigSend _ _ => False
  | _ => True

instance : DecidablePred Locking := fun a => by
  cases a <;> unfold Locking <;> infer_instance

/-- A call starts without the lock, and only `sys_sig_send` writes without it. -/
lemma call_wf {a : IpcAct} (ha : strict = true → Locking a) (hcall : IpcPc.call a = some pc) :
    pc.holds = false ∧ Wf strict pc := by
  have hpost : ∀ what rec, Calm strict (IpcPc.post (n := n) what rec 0 (.done .user)) :=
    fun _ _ _ _ i hi => absurd hi (Nat.not_lt_zero i)
  cases a with
  | send sender rec mess =>
    cases hcall
    exact ⟨rfl,rfl,hpost _ rec,fun _ => rfl,fun _ _ => trivial,rfl,trivial⟩
  | sendMulti sender recs mess =>
    cases hcall
    exact ⟨Inv.holds_sendMulti sender mess recs,Inv.wf_sendMulti sender mess recs⟩
  | sigSend rec signum =>
    cases hcall
    exact ⟨rfl,fun hc => (ha hc).elim,fun _ _ => trivial,trivial⟩
  | sleep k =>
    cases hcall
    refine ⟨rfl,rfl,?_,rfl,fun _ _ => trivial,rfl,trivial⟩
    intro s p b j hb
    cases b <;> exact nomatch hb
  | wakeup k =>
    cases hcall
    exact ⟨rfl,rfl,fun _ _ => trivial,fun _ => rfl,.inl fun _ _ => trivial,rfl,trivial⟩
  | recv | sigPause | sigRet | kill =>
    cases hcall
    exact ⟨rfl,rfl,fun _ _ => trivial,trivial⟩
  | interrupt | deliver | tick => exact nomatch hcall

namespace Inv

lemma call {a : IpcAct} (h : Inv strict s) (ha : strict = true → Locking a) (hp : s.pc p = .user)
    (hcall : IpcPc.call a = some pc) : Inv strict (s.goto p pc) := by
  obtain ⟨hholds,hwf⟩ := call_wf ha hcall
  have hfree : (s.pc p).holds = false := by
    rw [hp]
    rfl
  exact h.quiet hfree (Tame.same rfl rfl) rfl rfl rfl hholds hwf fun hs =>
    absurd hs (h.awake hp nofun nofun)

lemma deliver {tf : Trapframe} (h : Inv strict s) (hp : s.pc p = .user)
    (hd : Proc.Delivers { s.proc p with tf := tf }) :
    Inv strict (s.put p (Proc.enterHandler { s.proc p with tf := tf })) := by
  have hawake : ¬s.Sleeping p := h.awake hp nofun nofun
  have ht : Tame strict s (s.put p (Proc.enterHandler { s.proc p with tf := tf })) := by
    refine Tame.put rfl rfl rfl id ?_
    intro b _ he
    cases b with
    | recv => exact he
    | pending => exact absurd he hd.2.2
  have hfree : (s.pc p).holds = false := by
    rw [hp]
    rfl
  exact h.quiet hfree ht (update_eq_self p s.pc).symm rfl rfl hfree (h.wf p)
    fun hs => absurd (ht.sleeping p hs) hawake

lemma next {a : IpcAct} (h : Inv strict s) (ha : strict = true → Locking a)
    (hs : s.next p a = some s') :
    Inv strict s' := by
  cases a with
  | tick => exact h.tick rfl hs
  | interrupt =>
    obtain ⟨hint,⟨⟩⟩ := ite_none_right_eq_some.mp hs
    have hfree := interruptible_holds hint
    refine h.quiet hfree (Tame.same rfl rfl) rfl rfl rfl rfl ⟨rfl,fun _ _ => trivial,hfree,h.wf p⟩ ?_
    intro hsl
    obtain ⟨back,hb | hb⟩ := h.asleep p hsl
    · rw [hb] at hint
      exact nomatch hint
    · rw [hb] at hint
      exact nomatch hint
  | deliver tf =>
    simp only [Ipc.next] at hs
    split at hs
    case h_1 hp =>
      obtain ⟨hd,⟨⟩⟩ := ite_none_right_eq_some.mp hs
      exact h.deliver hp hd
    case h_2 => exact nomatch hs
  | _ =>
    simp only [Ipc.next] at hs
    split at hs
    case h_1 hp =>
      obtain ⟨pc,hc,rfl⟩ := map_eq_some_iff.mp hs
      exact h.call ha hp hc
    case h_2 => exact nomatch hs

lemma start (proc : Fin n → Proc) (killed : Fin n → Bool) : Inv strict (initial proc killed) where
  lock _ := ⟨nofun,nofun⟩
  wf _ := ⟨rfl,fun _ _ => trivial,rfl,trivial⟩
  asleep _ _ := ⟨_,.inr rfl⟩
  ready _ := nofun
  boxes _ _ _ _ := nofun

/-- The invariant holds along a run; for the signals, if `sys_sig_send` is not called in it. -/
theorem run {proc : Fin n → Proc} {killed : Fin n → Bool} {as : List (Fin n×IpcAct)}
    (h : Run (fun s a t => Step s a t ∧ (strict = true → Locking a.2)) (initial proc killed) as s) :
    Inv strict s :=
  Run.invariant (fun _ s => Inv strict s) (fun _ _ _ _ hi hs => hi.next hs.2 hs.1) h (start proc killed)

/-- Between the critical sections nobody sleeps on a queue that is not empty. -/
theorem empty_of_free (h : Inv strict s) (hlock : s.lock = none) (hi : s.Sleeping i)
    (hb : s.chan i = some (b.chan j))
    (hc : b.Covered strict) : s.Mine i b j ∧ s.Empty b j := by
  obtain ⟨hm,he | ⟨q,hq,_⟩⟩ := h.boxes i b j hi hb hc
  · exact ⟨hm,he⟩
  · exact nomatch hlock.symm.trans hq

end Inv

/-- No wakeup is lost between `send_mess` and `recv_mess`: when the lock is free, a process that
sleeps on a mailbox sleeps on one that is its own and empty. -/
theorem recv_never_misses {proc : Fin n → Proc} {killed : Fin n → Bool} {as : List (Fin n×IpcAct)}
    (h : Run Step (initial proc killed) as s) (hlock : s.lock = none)
    (hi : (s.proc i).state = .sleeping)
    (hc : s.chan i = some (.recvQueue j)) :
    (s.proc j).pid = (s.proc i).pid ∧ (s.proc j).recvQueue.head = (s.proc j).recvQueue.tail := by
  have hinv : Inv false s := .run (h.mono fun _ _ _ hs => ⟨hs,nofun⟩)
  obtain ⟨hm,he⟩ := hinv.empty_of_free (b := .recv) hlock hi hc trivial
  exact ⟨hm.symm,he⟩

/-! ### Runs -/

/-- A process as `allocproc` leaves it, made runnable. -/
def fresh (pid : ℤ) : Proc where
  state := .runnable
  pid := pid
  tf := Trapframe.ofWords fun _ => 0
  recvQueue := ⟨fun _ => (0,fun _ => 0),0,0⟩
  recvMultiQueue := ⟨fun _ => (0,fun _ => 0),0,0⟩
  handler := 0
  pendingSignals := ⟨fun _ => (0,0),0,0⟩
  handling := false

def pair : Ipc 2 := initial (fun i => fresh (i+1)) fun _ => false

/-- The process is scheduled, makes the call and goes `k` statements further. -/
def calls (i : Fin 2) (a : IpcAct) (k : ℕ) : List (Fin 2×IpcAct) :=
  (i,.tick)::(i,.tick)::(i,a)::List.replicate k (i,.tick)

/-- The first process sleeps in the call `a` until the second has made the call `b`, which takes `k`
statements. Then it returns, and calls again. -/
def answered (a b : IpcAct) (k l : ℕ) (between : List (Fin 2×IpcAct)) : List (Fin 2×IpcAct) :=
  calls 0 a 5++calls 1 b k++List.replicate l (0,.tick)++between++(0,a)::List.replicate 5 (0,.tick)

/-- A message has been received, and the process sleeps for the next one. -/
theorem recv_never_misses_asleep :
    ∃ s, Run Step pair (answered .recv (.send 2 1 fun _ => 9) 10 6 []) s ∧
    s.lock = none ∧ (s.proc 0).state = .sleeping ∧ s.chan 0 = some (.recvQueue 0) ∧
      (s.proc 0).recvQueue.tail = 1 ∧
    (s.proc 0).recvQueue.head = (s.proc 0).recvQueue.tail := by
  have he : (exec (fun a s => next s a.1 a.2) (answered .recv (.send 2 1 fun _ => 9) 10 6 [])
      pair).isSome = true := by
    decide +kernel
  obtain ⟨s,hs⟩ := isSome_iff_exists.mp he
  have hrun : Run Step pair (answered .recv (.send 2 1 fun _ => 9) 10 6 []) s := .of_exec hs
  cases hs
  exact ⟨_,hrun,rfl,rfl,rfl,rfl,(recv_never_misses hrun rfl (i := 0) rfl rfl).2⟩

/-- No wakeup is lost between `send_multicast` and `pause_signal`, as long as nobody calls
`sys_sig_send`: `wakeup1` runs with the lock held, and when the lock is free, a process that sleeps
on signals has none. -/
theorem pause_never_misses {proc : Fin n → Proc} {killed : Fin n → Bool} {as : List (Fin n×IpcAct)}
    (h : Run (fun s a t => Step s a t ∧ Locking a.2) (initial proc killed) as s) :
    (∀ i chan k back, s.pc i = .wake chan k back → s.lock = some i) ∧
    (s.lock = none → ∀ i j, (s.proc i).state = .sleeping → s.chan i = some (.pendingSignals j) →
      i = j ∧ (s.proc j).pendingSignals.head = (s.proc j).pendingSignals.tail) := by
  have hinv : Inv true s := .run (h.mono fun _ _ _ hs => ⟨hs.1,fun _ => hs.2⟩)
  constructor
  · intro i chan k back hp
    obtain ⟨hh,-⟩ := hinv.wf_of hp
    refine hinv.lock.eq_some ?_
    rw [comp_apply,hp]
    exact hh rfl
  · intro hlock i j hi hc
    exact hinv.empty_of_free (b := .pending) hlock hi hc rfl

/-- A multicast has ended the first pause, its signal has been delivered, and the process pauses
again. -/
def multicast : List (Fin 2×IpcAct) :=
  answered .sigPause (.sendMulti 2 [1] fun _ => 9) 13 3 [(0,.deliver (Trapframe.ofWords fun _ => 0x1b))]

theorem pause_never_misses_asleep : ∃ s, Run (fun s a t => Step s a t ∧ Locking a.2) pair multicast s ∧
    s.lock = none ∧ (s.proc 0).state = .sleeping ∧ s.chan 0 = some (.pendingSignals 0) ∧
    (s.proc 0).pendingSignals.tail = 1 ∧ (s.proc 0).pendingSignals.head =
      (s.proc 0).pendingSignals.tail := by
  have he : (exec (fun a s => if Locking a.2 then next s a.1 a.2 else none) multicast pair).isSome =
      true := by
    decide +kernel
  obtain ⟨s,hs⟩ := isSome_iff_exists.mp he
  have hrun : Run (fun s a t => Step s a t ∧ Locking a.2) pair multicast s :=
    .of_exec_if (P := fun (_ : Ipc 2) (a : Fin 2×IpcAct) => Locking a.2) hs
  cases hs
  exact ⟨_,hrun,rfl,rfl,rfl,rfl,((pause_never_misses hrun).2 rfl 0 0 rfl rfl).2⟩

/-- The first process calls `pause_signal` and has found no signal when the second calls
`sys_sig_send` and goes `k` statements further. -/
def crossing (k : ℕ) : List (Fin 2×IpcAct) :=
  (1,.tick)::(1,.tick)::calls 0 .sigPause 2++(1,.sigSend 1 7)::List.replicate k (1,.tick)

/-- `pause_signal` has found no signal and is about to sleep. `sys_sig_send` puts one into the queue
and wakes nobody, with `wakeup1` running while the other process has the lock. -/
theorem sig_send_wakes_nobody : (∃ s, Run Step pair (crossing 3) s ∧
      s.pc 1 = .wake none 0 (.post (.signal 7) 1 1 .user) ∧ s.lock = some 0) ∧
    ∃ s, Run Step pair (crossing 8++List.replicate 3 (0,.tick)) s ∧
      s.lock = none ∧ s.pc 1 = .user ∧ (s.proc 0).state = .sleeping ∧
        s.chan 0 = some (.pendingSignals 0) ∧
      (s.proc 0).pendingSignals.head ≠ (s.proc 0).pendingSignals.tail := by
  constructor
  · have he : (exec (fun a s => next s a.1 a.2) (crossing 3) pair).isSome = true := by
      decide +kernel
    obtain ⟨s,hs⟩ := isSome_iff_exists.mp he
    have hrun := Run.of_exec hs
    cases hs
    exact ⟨_,hrun,rfl,rfl⟩
  · have he : (exec (fun a s => next s a.1 a.2)
        (crossing 8++List.replicate 3 (0,.tick)) pair).isSome = true := by
      decide +kernel
    obtain ⟨s,hs⟩ := isSome_iff_exists.mp he
    have hrun := Run.of_exec hs
    cases hs
    exact ⟨_,hrun,rfl,rfl,rfl,rfl,by decide⟩

end Ipc
end JacobiXv6.Kernel
