import JacobiXv6.Kernel.Mailbox

/-! Multicast: each message is accompanied by a signal, and `handle_signals` takes one of
each. The two rings have different sizes, and `sig_send` pushes a signal alone. -/
namespace JacobiXv6.Kernel
open Library Ptable

variable {n : ℕ}

/-- The payloads in `recv_multi_queue`. -/
def multibox : Queue n where
  ring p := p.recvMultiQueue.map Prod.snd
  put
    | .multicast _ _ rec mess => some (rec,mess)
    | _ => none
  take
    | .deliver _ pid _ mess => some (pid,mess)
    | _ => none
  ring_state _ _ := rfl
  ring_reset _ := rfl
  step_put := by
    intro t t' m q mess hs hput i
    cases m with
    | multicast caller sender rec mess' =>
      obtain ⟨rfl,rfl⟩ := Prod.mk.inj (Option.some.inj hput)
      cases hs
      simp only [onPid,putSignals_eq]
      split_ifs
      · exact RingBuffer.map_push _
      · rfl
    | _ => cases hput
  step_take := by
    intro t t' m q mess hs htake
    cases m with
    | deliver i pid tf mess' =>
      obtain ⟨rfl,rfl⟩ := Prod.mk.inj (Option.some.inj htake)
      obtain ⟨⟨hrun,hpid,-,hfront⟩,⟨⟩⟩ := Option.ite_none_right_eq_some.mp hs
      refine ⟨i,hrun,hpid,hfront,fun j => ?_⟩
      split_ifs with hj
      · subst hj
        rw [put_self]
        rfl
      · rw [put_of_ne hj]
    | _ => cases htake
  step_other := by
    intro t t' m hs hput htake i
    cases m with
    | multicast caller sender rec mess => cases hput
    | deliver j pid tf mess => cases htake
    | send sender rec mess ret =>
      obtain ⟨-,⟨⟩⟩ := Option.ite_none_right_eq_some.mp hs
      apply view_onPid fun p => p.recvMultiQueue.map Prod.snd
      exact fun _ => rfl
    | signal caller rec signum =>
      cases hs
      apply view_onPid fun p => p.recvMultiQueue.map Prod.snd
      exact fun _ => rfl
    | recv j pid mess | sigret j tf =>
      obtain ⟨-,⟨⟩⟩ := Option.ite_none_right_eq_some.mp hs
      apply view_put fun p => p.recvMultiQueue.map Prod.snd
      rfl
    | pause j =>
      obtain ⟨-,⟨⟩⟩ := Option.ite_none_right_eq_some.mp hs
      rfl
  not_both := by
    intro m
    cases m with
    | deliver i pid tf mess => exact .inl rfl
    | _ => exact .inr rfl

variable {ops : List (Op n)} {t t' : Ptable n} {op : Op n}

/-- The condition on a delivery: there is a message to go with the signal. -/
def Backed (t : Ptable n) : Op n → Prop
  | .mess (.deliver i _ _ _) => (t.proc i).recvMultiQueue.head ≠ (t.proc i).recvMultiQueue.tail
  | _ => True

lemma Backed.guarded (hp : Pids t) (hs : t.step op = some t') (h : Backed t op) :
    multibox.Guarded t op := by
  cases op with
  | life l => trivial
  | mess m =>
    intro q mess htake i hrun hpid
    cases m with
    | deliver j pid tf mess' =>
      obtain ⟨rfl,-⟩ := Prod.mk.inj (Option.some.inj htake)
      obtain ⟨⟨-,hj,-,-⟩,-⟩ := Option.ite_none_right_eq_some.mp hs
      obtain rfl := hp.eq_of_live (i := i) (by simp [hrun]) (hj.trans hpid.symm)
      exact h
    | _ => cases htake

lemma multibox_sound (h : Run (fun t op t' => t.step op = some t' ∧ Backed t op) (boot n) ops t) :
    multibox.Sound ops t := by
  refine h.invariant (fun ops t => multibox.Sound ops t) ?_ Queue.Sound.boot
  intro _ _ _ _ hsound hs
  exact hsound.step hs.1 (hs.2.guarded hsound.life.pids hs.1)

variable {i : Fin n}

lemma multibox_indices (h : multibox.Sound ops t) (hi : t.Grown i) :
    (t.proc i).recvMultiQueue.head = (multibox.got (t.proc i).pid ops).length%NUM_MSG ∧
      (t.proc i).recvMultiQueue.tail = (multibox.sent (t.proc i).pid ops).length%NUM_MSG ∧
      (multibox.got (t.proc i).pid ops).length ≤ (multibox.sent (t.proc i).pid ops).length :=
  have hfollows := h.life.grown i hi
  ⟨hfollows.head,hfollows.tail,hfollows.le⟩

/-- **Handlers are given what was multicast.** In every run whose deliveries find a message
in `recv_multi_queue`, the messages handed to the handler of a process are a subsequence
of those multicast to it, and the head of its queue never passes the tail. -/
theorem handed_sublist_multicast (ops : List (Op n)) (t : Ptable n)
    (h : Run (fun t op t' => t.step op = some t' ∧ Backed t op) (boot n) ops t) :
    (∀ q, (multibox.got q ops).Sublist (multibox.sent q ops)) ∧
      ∀ i, t.Grown i →
        (t.proc i).recvMultiQueue.head = (multibox.got (t.proc i).pid ops).length%NUM_MSG ∧
        (t.proc i).recvMultiQueue.tail = (multibox.sent (t.proc i).pid ops).length%NUM_MSG ∧
        (multibox.got (t.proc i).pid ops).length ≤ (multibox.sent (t.proc i).pid ops).length := by
  have hsound := multibox_sound h
  exact ⟨hsound.sub,fun i hi => multibox_indices hsound hi⟩

instance (t : Ptable n) (op : Op n) : Decidable (Backed t op) :=
  match op with
  | .life _ | .mess (.send ..) | .mess (.recv ..) | .mess (.multicast ..) | .mess (.signal ..)
  | .mess (.sigret ..) | .mess (.pause ..) => isTrue trivial
  | .mess (.deliver ..) => inferInstanceAs (Decidable (_ ≠ _))

def userTf : Trapframe :=
  { Trapframe.ofWords (fun _ => 0) with cs := 0x1b, ds := 0x23, es := 0x23, ss := 0x23, esp := 0x2000 }

def multicasts (k : ℕ) : List (Op 1) :=
  (List.range k).map fun i => .mess (.multicast 0 0 1 (numbered (i+1)))

def delivery (k : ℕ) : Op 1 := .mess (.deliver ⟨0,Nat.one_pos⟩ 1 userTf (numbered k))

theorem handed_sublist_multicast_two : ∃ t,
    Run (fun t op t' => t.step op = some t' ∧ Backed t op) (boot 1)
      (birth++multicasts 2++[delivery 1]) t ∧
      (multibox.got 1 (birth++multicasts 2++[delivery 1])).Sublist
        (multibox.sent 1 (birth++multicasts 2++[delivery 1])) := by
  have he : (exec (fun op t => if Backed t op then step t op else none)
      (birth++multicasts 2++[delivery 1]) (boot 1)).isSome = true := by decide +kernel
  obtain ⟨t,ht⟩ := Option.isSome_iff_exists.mp he
  have hr := Run.of_exec_if ht
  exact ⟨t,hr,(handed_sublist_multicast _ t hr).1 1⟩

/-- After a `sig_send` the handler is given a message that nobody sent, and the head of the
queue is past the tail. -/
theorem phantom_message : ∃ t, Reaches (birth++[.mess (.signal 0 1 1),delivery 0]) t ∧
    multibox.sent 1 (birth++[.mess (.signal 0 1 1),delivery 0]) = [] ∧
    multibox.got 1 (birth++[.mess (.signal 0 1 1),delivery 0]) = [numbered 0] ∧
    (t.proc 0).recvMultiQueue.head = 1 ∧ (t.proc 0).recvMultiQueue.tail = 0 := by
  have he : (exec (fun op t => step t op) (birth++[.mess (.signal 0 1 1),delivery 0]) (boot 1)).map
      (fun t => ((t.proc 0).recvMultiQueue.head,(t.proc 0).recvMultiQueue.tail)) = some (1,0) := by
    decide +kernel
  obtain ⟨t,ht,hp⟩ := Option.map_eq_some_iff.mp he
  obtain ⟨hhead,htail⟩ := Prod.mk.inj hp
  exact ⟨t,.of_exec ht,by decide,by decide,hhead,htail⟩

/-! ### Messages and their signals -/

/-- The condition on a multicast: the queues of the receiver have been reset, and one more signal
does not make its queue of signals look empty. -/
def SignalRoom (t : Ptable n) : Op n → Prop
  | .mess (.multicast _ _ rec _) => ∀ i, (t.proc i).pid = rec →
      t.published i = false ∧ (t.Grown i → (t.proc i).pendingSignals.Room MAX_SIG)
  | _ => True

def NoSigSend : Op n → Prop
  | .mess (.signal ..) => False
  | _ => True

/-- The ring of signals has seen as many pushes and pops as the ring of messages. -/
def Paired (p : Proc) (ops : List (Op n)) : Prop :=
  RingBuffer.Follows MAX_SIG (p.pendingSignals.map fun _ => ())
    (List.replicate (multibox.sent p.pid ops).length ())
    (List.replicate (multibox.got p.pid ops).length ()) ∧
    (multibox.sent p.pid ops).length < (multibox.got p.pid ops).length+MAX_SIG

lemma paired_stages : Stages (n := n) (fun q ops => multibox.got q ops = []) Paired where
  nil := fun _ => rfl
  unborn := fun q ops l h => (Queue.got_life l q).trans h
  grown := fun p ops l hl h => by
    rw [Paired,Queue.got_life,Queue.sent_life hl]
    exact h
  state := fun p ops state h => h
  reset := fun p ops i h => by
    have hsent : multibox.sent p.pid (ops++[.life (.reset i p.pid)]) = [] := by
      rw [Queue.sent_reset,if_pos rfl]
    have hgot : multibox.got p.pid (ops++[.life (.reset i p.pid)]) = [] :=
      (Queue.got_life _ _).trans h
    change RingBuffer.Follows MAX_SIG _ (List.replicate (multibox.sent p.pid _).length ())
      (List.replicate (multibox.got p.pid _).length ()) ∧ (multibox.sent p.pid _).length <
        (multibox.got p.pid _).length+MAX_SIG
    rw [hsent,hgot]
    exact ⟨RingBuffer.Follows.reset (p.pendingSignals.map fun _ => ()),by decide⟩

lemma count_eq_one (hp : Pids t) (hi : t.Grown i) : t.count (t.proc i).pid = 1 := by
  rw [count,Finset.card_eq_one]
  refine ⟨i,?_⟩
  ext j
  simp only [Finset.mem_filter,Finset.mem_univ,true_and,Finset.mem_singleton]
  constructor
  · exact hp.eq_of_live hi.1
  · rintro rfl
    rfl

/-- With less than `MAX_SIG` messages outstanding, the ring of signals is empty exactly if
there are none. -/
lemma Paired.pending_iff {p : Proc} (h : Paired p ops) :
    p.pendingSignals.head ≠ p.pendingSignals.tail ↔
      (multibox.got p.pid ops).length < (multibox.sent p.pid ops).length := by
  have hle := h.1.le
  have hhead := h.1.head
  have htail := h.1.tail
  simp only [List.length_replicate,RingBuffer.map_head,RingBuffer.map_tail] at hle hhead htail
  rw [hhead,htail]
  constructor
  · intro hne
    exact lt_of_le_of_ne hle fun he => hne (he ▸ rfl)
  · intro hlt
    exact RingBuffer.mod_ne_mod hlt h.2

lemma paired_multicast {caller sender q : ℤ} {mess : Msg} (hp : Pids t)
    (hs : t.stepMess (.multicast caller sender q mess) = some t')
    (hroom : SignalRoom t (.mess (.multicast caller sender q mess))) (hi : t.Grown i)
    (h : Paired (t.proc i) ops) :
    Paired (t'.proc i) (ops++[.mess (.multicast caller sender q mess)]) := by
  have hput : multibox.put (Mess.multicast (n := n) caller sender q mess) = some (q,mess) := rfl
  rw [Paired,(SameSlots.stepMess hs).pid,Queue.sent_put hput,Queue.got_of_none rfl]
  cases hs
  obtain hq | hq := eq_or_ne q (t.proc i).pid
  · have hlen := (h.1.room_iff (by simpa using h.2)).mp ((hroom i hq.symm).2 hi)
    rw [if_pos hq,List.length_append,List.length_singleton,List.replicate_succ']
    refine ⟨?_,by simpa using hlen⟩
    simp only [onPid,hq,count_eq_one hp hi,Function.iterate_one]
    change RingBuffer.Follows MAX_SIG (((t.proc i).pendingSignals.push MAX_SIG (1,caller)).map _) _ _
    rw [RingBuffer.map_push]
    exact h.1.push
  · rw [if_neg hq]
    simp only [onPid,if_neg hq.symm]
    exact h

lemma paired_deliver {q : ℤ} {tf : Trapframe} {mess : Msg} {j : Fin n} (hp : Pids t)
    (hs : t.stepMess (.deliver j q tf mess) = some t') (h : Paired (t.proc i) ops) :
    Paired (t'.proc i) (ops++[.mess (.deliver j q tf mess)]) := by
  have htake : multibox.take (Mess.deliver j q tf mess) = some (q,mess) := rfl
  rw [Paired,(SameSlots.stepMess hs).pid,Queue.got_take htake,Queue.sent_of_none rfl]
  obtain ⟨⟨hrun,rfl,hdeliver,-⟩,⟨⟩⟩ := Option.ite_none_right_eq_some.mp hs
  obtain rfl | hne := eq_or_ne i j
  · rw [if_pos rfl,put_self,List.length_append,List.length_singleton,List.replicate_succ']
    exact ⟨h.1.pop (by decide) hdeliver.2.2,h.2.trans (by omega)⟩
  · rw [if_neg fun he => hne (hp.eq_of_live (by simp [hrun]) he.symm),put_of_ne hne]
    exact h

lemma paired_other {m : Mess n} (hs : t.stepMess m = some t')
    (hput : multibox.put m = none) (htake : multibox.take m = none) (hsig : NoSigSend (.mess m))
    (h : Paired (t.proc i) ops) : Paired (t'.proc i) (ops++[.mess m]) := by
  have hpending : (t'.proc i).pendingSignals = (t.proc i).pendingSignals := by
    cases m with
    | multicast caller sender rec mess => cases hput
    | deliver j pid tf mess => cases htake
    | signal caller rec signum => exact hsig.elim
    | send sender rec mess ret =>
      obtain ⟨-,⟨⟩⟩ := Option.ite_none_right_eq_some.mp hs
      apply view_onPid Proc.pendingSignals
      exact fun _ => rfl
    | recv j pid mess | sigret j tf =>
      obtain ⟨-,⟨⟩⟩ := Option.ite_none_right_eq_some.mp hs
      apply view_put Proc.pendingSignals
      rfl
    | pause j =>
      obtain ⟨-,⟨⟩⟩ := Option.ite_none_right_eq_some.mp hs
      rfl
  rw [Paired,(SameSlots.stepMess hs).pid,Queue.sent_of_none hput,Queue.got_of_none htake,hpending]
  exact h

lemma Paired.backed (hm : multibox.Sound ops t)
    (h : Lifelong (fun q ops => multibox.got q ops = []) Paired ops t) (hs : t.step op = some t') :
    Backed t op := by
  cases op with
  | life l => trivial
  | mess m =>
    cases m with
    | deliver i pid tf mess =>
      obtain ⟨⟨hrun,-,hdeliver,-⟩,-⟩ := Option.ite_none_right_eq_some.mp hs
      have hgrown := h.pids.grown_of_runnable hrun
      obtain ⟨hhead,htail,-⟩ := multibox_indices hm hgrown
      have hpaired := h.grown i hgrown
      have hlt := hpaired.pending_iff.mp hdeliver.2.2
      change (t.proc i).recvMultiQueue.head ≠ (t.proc i).recvMultiQueue.tail
      rw [hhead,htail]
      refine RingBuffer.mod_ne_mod hlt (hpaired.2.trans ?_)
      exact Nat.add_lt_add_left (by decide) _
    | _ => trivial

/-- The runs of multicasts, deliveries and returns from handlers in which the signals fit. -/
abbrev SignalsFit (t : Ptable n) (op : Op n) : Prop := NoSigSend op ∧ SignalRoom t op

lemma paired_run (h : Run (fun t op t' => t.step op = some t' ∧ SignalsFit t op) (boot n) ops t) :
    multibox.Sound ops t ∧ Lifelong (fun q ops => multibox.got q ops = []) Paired ops t := by
  refine h.invariant (fun ops t => multibox.Sound ops t ∧ Lifelong _ Paired ops t) ?_
    ⟨Queue.Sound.boot,Lifelong.boot paired_stages⟩
  rintro ops t op t' ⟨hm,hl⟩ ⟨hs,hsig,hroom⟩
  have hm' := hm.step hs ((Paired.backed hm hl hs).guarded hm.life.pids hs)
  refine ⟨hm',?_⟩
  cases op with
  | life l => exact hl.life paired_stages hs
  | mess m =>
    have hunborn : ∀ q, t.Unborn q → multibox.got q (ops++[.mess m]) = [] := fun q hq =>
      hm'.life.unborn q (((SameSlots.stepMess hs).unborn_iff q).mpr hq)
    refine hl.mess hs (fun q hq _ => hunborn q hq) fun i hi hp => ?_
    cases m with
    | multicast caller sender q mess => exact paired_multicast hl.pids hs hroom hi hp
    | deliver j q tf mess => exact paired_deliver hl.pids hs hp
    | _ => exact paired_other hs rfl rfl hsig hp

/-- **No multicast message is stranded** in a run whose multicasts find room for their
signal: a process whose queue holds a message, or to which a message was multicast that
its handler has not been given, has a signal pending. -/
theorem multicast_not_stranded (ops : List (Op n)) (t : Ptable n)
    (h : Run (fun t op t' => t.step op = some t' ∧ SignalsFit t op) (boot n) ops t) (i : Fin n)
    (hi : t.Grown i) (hm : (t.proc i).recvMultiQueue.head ≠ (t.proc i).recvMultiQueue.tail ∨
      (multibox.got (t.proc i).pid ops).length < (multibox.sent (t.proc i).pid ops).length) :
    (t.proc i).pendingSignals.head ≠ (t.proc i).pendingSignals.tail := by
  obtain ⟨hsound,hl⟩ := paired_run h
  obtain ⟨hhead,htail,hle⟩ := multibox_indices hsound hi
  apply (hl.grown i hi).pending_iff.mpr
  rcases hm with hne | hlt
  · rw [hhead,htail] at hne
    exact lt_of_le_of_ne hle fun he => hne (he ▸ rfl)
  · exact hlt

instance (op : Op n) : Decidable (NoSigSend op) :=
  match op with
  | .life _ | .mess (.send ..) | .mess (.recv ..) | .mess (.multicast ..) | .mess (.deliver ..)
  | .mess (.sigret ..) | .mess (.pause ..) => isTrue trivial
  | .mess (.signal ..) => isFalse id

instance (t : Ptable n) (i : Fin n) : Decidable (t.Grown i) := inferInstanceAs (Decidable (_ ∧ _))

instance (t : Ptable n) (op : Op n) : Decidable (SignalRoom t op) :=
  match op with
  | .life _ | .mess (.send ..) | .mess (.recv ..) | .mess (.signal ..) | .mess (.deliver ..)
  | .mess (.sigret ..) | .mess (.pause ..) => isTrue trivial
  | .mess (.multicast ..) => inferInstanceAs (Decidable (∀ _, _ → _ ∧ (_ → _)))

theorem multicast_not_stranded_two : ∃ t,
    Run (fun t op t' => t.step op = some t' ∧ SignalsFit t op) (boot 1) (birth++multicasts 2) t ∧
      (t.proc 0).pendingSignals.head ≠ (t.proc 0).pendingSignals.tail := by
  have he : (exec (fun op t => if SignalsFit t op then step t op else none) (birth++multicasts 2)
      (boot 1)).map (fun t => (decide (t.Grown 0),(t.proc 0).recvMultiQueue.head,
        (t.proc 0).recvMultiQueue.tail)) = some (true,0,2) := by decide +kernel
  obtain ⟨t,ht,hp⟩ := Option.map_eq_some_iff.mp he
  simp only [Prod.mk.injEq,decide_eq_true_eq] at hp
  have hr := Run.of_exec_if ht
  exact ⟨t,hr,multicast_not_stranded _ t hr 0 hp.1 (.inl (by omega))⟩

/-- Five multicasts before the first delivery leave five messages and no signal. -/
theorem multicast_stranded : ∃ t, Reaches (birth++multicasts 5) t ∧
    (t.proc 0).recvMultiQueue.head = 0 ∧ (t.proc 0).recvMultiQueue.tail = 5 ∧
    (t.proc 0).pendingSignals.head = (t.proc 0).pendingSignals.tail := by
  have he : (exec (fun op t => step t op) (birth++multicasts 5) (boot 1)).map
      (fun t => ((t.proc 0).recvMultiQueue.head,(t.proc 0).recvMultiQueue.tail,
        (t.proc 0).pendingSignals.head,(t.proc 0).pendingSignals.tail)) = some (0,5,0,0) := by
    decide +kernel
  obtain ⟨t,ht,hp⟩ := Option.map_eq_some_iff.mp he
  simp only [Prod.mk.injEq] at hp
  exact ⟨t,.of_exec ht,hp.1,hp.2.1,hp.2.2.1.trans hp.2.2.2.symm⟩

end JacobiXv6.Kernel
