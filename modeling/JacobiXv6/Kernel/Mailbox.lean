import JacobiXv6.Kernel.Queue

/-! Unicast: `send_mess` and `recv_mess`. The mailbox has no notion of being full. -/
namespace JacobiXv6.Kernel
open Library Ptable

variable {n : ℕ}

/-- The payloads in `recv_queue`. -/
def mailbox : Queue n where
  ring p := p.recvQueue.map Prod.snd
  put
    | .send _ rec mess _ => some (rec,mess)
    | _ => none
  take
    | .recv _ pid mess => some (pid,mess)
    | _ => none
  ring_state _ _ := rfl
  ring_reset _ := rfl
  step_put := by
    intro t t' m q mess hs hput i
    cases m with
    | send sender rec mess' ret =>
      obtain ⟨rfl,rfl⟩ := Prod.mk.inj (Option.some.inj hput)
      obtain ⟨-,⟨⟩⟩ := Option.ite_none_right_eq_some.mp hs
      simp only [onPid]
      split_ifs
      · exact RingBuffer.map_push _
      · rfl
    | _ => cases hput
  step_take := by
    intro t t' m q mess hs htake
    cases m with
    | recv i pid mess' =>
      obtain ⟨rfl,rfl⟩ := Prod.mk.inj (Option.some.inj htake)
      obtain ⟨⟨hrun,hpid,-,hfront⟩,⟨⟩⟩ := Option.ite_none_right_eq_some.mp hs
      refine ⟨i,hrun,hpid,hfront,fun j => ?_⟩
      split_ifs with hj
      · subst hj
        rw [put_self]
        rfl
      · rw [put_of_ne hj]
    | _ => cases htake
  step_other := by
    intro t t' m hs hput htake i
    cases m with
    | send sender rec mess ret => cases hput
    | recv i pid mess => cases htake
    | multicast caller sender rec mess =>
      cases hs
      simp only [putSignals_eq]
      apply view_onPid fun p => p.recvQueue.map Prod.snd
      exact fun _ => rfl
    | signal caller rec signum =>
      cases hs
      apply view_onPid fun p => p.recvQueue.map Prod.snd
      exact fun _ => rfl
    | deliver j pid tf mess | sigret j tf =>
      obtain ⟨-,⟨⟩⟩ := Option.ite_none_right_eq_some.mp hs
      apply view_put fun p => p.recvQueue.map Prod.snd
      rfl
    | pause j =>
      obtain ⟨-,⟨⟩⟩ := Option.ite_none_right_eq_some.mp hs
      rfl
  not_both := by
    intro m
    cases m with
    | recv i pid mess => exact .inl rfl
    | _ => exact .inr rfl

variable {ops : List (Op n)} {t t' : Ptable n} {op : Op n}

/-- `recv_mess` sleeps while the mailbox looks empty. -/
lemma mailbox_guarded (hp : Pids t) (h : t.step op = some t') : mailbox.Guarded t op := by
  cases op with
  | life l => trivial
  | mess m =>
    intro q mess htake i hrun hpid
    cases m with
    | recv j pid mess' =>
      obtain ⟨rfl,-⟩ := Prod.mk.inj (Option.some.inj htake)
      obtain ⟨⟨-,hj,hne,-⟩,-⟩ := Option.ite_none_right_eq_some.mp h
      obtain rfl := hp.eq_of_live (i := i) (by simp [hrun]) (hj.trans hpid.symm)
      exact hne
    | _ => cases htake

lemma mailbox_sound (h : Reaches ops t) : mailbox.Sound ops t := by
  refine h.invariant (fun ops t => mailbox.Sound ops t) ?_ Queue.Sound.boot
  intro _ _ _ _ hsound hs
  exact hsound.step hs (mailbox_guarded hsound.life.pids hs)

/-- **Unicast neither reorders nor duplicates nor invents messages.** However often the
mailbox overflows, what the process with pid `q` has received is a subsequence of what
was sent to `q` since its mailbox was set up. -/
theorem received_sublist_sent (ops : List (Op n)) (t : Ptable n) (h : Reaches ops t) (q : ℤ) :
    (mailbox.got q ops).Sublist (mailbox.sent q ops) :=
  (mailbox_sound h).sub q

def birth : List (Op 1) := [.life (.alloc 0),.life (.reset 0 1),.life (.start 0)]

/-- A message with the number `k`. -/
def numbered (k : ℕ) : Msg := fun _ => BitVec.ofNat 8 k

/-- Messages with the numbers from 0 on, sent to the first process. -/
def sends (k : ℕ) : List (Op 1) := (List.range k).map fun i => .mess (.send 0 1 (numbered i) 0)

theorem received_sublist_sent_overflow :
    ∃ t, Reaches (birth++sends 34++[.mess (.recv 0 1 (numbered 32))]) t ∧
    (mailbox.got 1 (birth++sends 34++[.mess (.recv 0 1 (numbered 32))])).Sublist
      (mailbox.sent 1 (birth++sends 34++[.mess (.recv 0 1 (numbered 32))])) := by
  have he : (exec (fun op t => step t op) (birth++sends 34++[.mess (.recv 0 1 (numbered 32))])
      (boot 1)).isSome = true := by decide +kernel
  obtain ⟨t,ht⟩ := Option.isSome_iff_exists.mp he
  have hr : Reaches (birth++sends 34++[.mess (.recv 0 1 (numbered 32))]) t := .of_exec ht
  exact ⟨t,hr,received_sublist_sent _ t hr 1⟩

/-! ### What is lost -/

/-- The messages to a pid whose `send_mess` returned 0. -/
def acknowledged (q : ℤ) (ops : List (Op n)) : List Msg :=
  ops.filterMap fun op =>
    match op with
    | .mess (.send _ rec mess ret) => if rec = q ∧ ret = 0 then some mess else none
    | _ => none

/-- What calls of `recv_mess` would return before the next one sleeps. -/
def receivable (p : Proc) : List Msg := (p.recvQueue.map Prod.snd).contents NUM_MSG

/-- The condition on a `send_mess`: the receiver has been given its mailbox, and one more
message does not make the mailbox look empty. -/
def Roomy (t : Ptable n) : Op n → Prop
  | .mess (.send _ rec _ _) => ∀ i, (t.proc i).state ≠ .unused → (t.proc i).pid = rec →
      t.published i = false ∧ (t.proc i).recvQueue.Room NUM_MSG
  | _ => True

instance (t : Ptable n) (op : Op n) : Decidable (Roomy t op) :=
  match op with
  | .life _ | .mess (.recv ..) | .mess (.multicast ..) | .mess (.signal ..) | .mess (.deliver ..)
  | .mess (.sigret ..) | .mess (.pause ..) => isTrue trivial
  | .mess (.send ..) => inferInstanceAs (Decidable (∀ _, _ → _ → _ ∧ _))

/-- Everything acknowledged is in the mailbox or was received. -/
def Unlost (p : Proc) (ops : List (Op n)) : Prop :=
  acknowledged p.pid ops = mailbox.sent p.pid ops ∧
    (mailbox.sent p.pid ops).length < (mailbox.got p.pid ops).length+NUM_MSG

lemma acknowledged_life (l : Life n) (q : ℤ) :
    acknowledged q (ops++[.life l]) = acknowledged q ops := by
  simp [acknowledged]

lemma unlost_stages : Stages (n := n) (fun q ops => acknowledged q ops = []) Unlost where
  nil := fun _ => rfl
  unborn := fun q ops l h => (acknowledged_life l q).trans h
  grown := fun p ops l hl h => by
    rw [Unlost,acknowledged_life,Queue.sent_life hl,Queue.got_life]
    exact h
  state := fun p ops state h => h
  reset := fun p ops i h => by
    have hsent : mailbox.sent p.pid (ops++[.life (.reset i p.pid)]) = [] := by
      rw [Queue.sent_reset,if_pos rfl]
    change acknowledged p.pid _ = mailbox.sent p.pid _ ∧ (mailbox.sent p.pid _).length < _
    rw [acknowledged_life,hsent]
    exact ⟨h,Nat.add_pos_right _ Queue.NUM_MSG_pos⟩

/-- A `send_mess` that meets the condition. -/
lemma unlost_send {sender q ret : ℤ} {mess : Msg} (hm : mailbox.Sound ops t)
    (h : Lifelong (fun q ops => acknowledged q ops = []) Unlost ops t)
    (hs : t.stepMess (.send sender q mess ret) = some t')
    (hroom : Roomy t (.mess (.send sender q mess ret))) :
    Lifelong (fun q ops => acknowledged q ops = []) Unlost
      (ops++[.mess (.send sender q mess ret)]) t' := by
  have hsame := SameSlots.stepMess hs
  obtain ⟨hret,-⟩ := Option.ite_none_right_eq_some.mp hs
  refine h.mess hs (fun r hr hempty => ?_) fun i hi hu => ?_
  · have hnot : ¬(q = r ∧ ret = 0) := by
      rintro ⟨rfl,hz⟩
      obtain ⟨i,hi⟩ : ∃ i, (t.proc i).pid = q := by
        by_contra hno
        rw [hret,sendValue,if_neg hno] at hz
        cases hz
      rcases hr with hle | ⟨j,hj,hpid⟩
      · exact absurd (h.pids.lt i) (by omega)
      · have hpub := (hroom j (by simp [h.pids.embryo j hj]) hpid).1
        simp [hj] at hpub
    simp only [acknowledged,List.filterMap_append,List.append_eq_nil_iff]
    exact ⟨hempty,by simp [hnot]⟩
  · have hput : mailbox.put (Mess.send (n := n) sender q mess ret) = some (q,mess) := rfl
    rw [Unlost,hsame.pid,Queue.sent_put hput,Queue.got_of_none rfl]
    obtain hq | hq := eq_or_ne q (t.proc i).pid
    · have hz : ret = 0 := by rw [hret,sendValue,if_pos ⟨i,hq.symm⟩]
      have hfollows := hm.life.grown i hi
      have hlen := (hfollows.room_iff hu.2).mp (hroom i hi.1 hq.symm).2
      rw [if_pos hq,← hu.1]
      constructor
      · simp [acknowledged,hq,hz]
      · rw [hu.1]
        simpa using hlen
    · rw [if_neg hq]
      refine ⟨?_,hu.2⟩
      rw [← hu.1]
      simp [acknowledged,hq]

lemma unlost_mess {m : Mess n} (hm : mailbox.Sound ops t)
    (h : Lifelong (fun q ops => acknowledged q ops = []) Unlost ops t)
    (hs : t.stepMess m = some t') (hroom : Roomy t (.mess m)) :
    Lifelong (fun q ops => acknowledged q ops = []) Unlost (ops++[.mess m]) t' := by
  by_cases hsend : ∃ sender q mess ret, m = .send sender q mess ret
  · obtain ⟨sender,q,mess,ret,rfl⟩ := hsend
    exact unlost_send hm h hs hroom
  · have hsame := SameSlots.stepMess hs
    have hput : mailbox.put m = none := by
      cases m with
      | send sender q mess ret => exact absurd ⟨sender,q,mess,ret,rfl⟩ hsend
      | _ => rfl
    have hack : ∀ q, acknowledged q (ops++[.mess m]) = acknowledged q ops := by
      intro q
      cases m with
      | send sender q mess ret => exact absurd ⟨sender,q,mess,ret,rfl⟩ hsend
      | _ => simp [acknowledged]
    refine h.mess hs (fun q _ hq => (hack q).trans hq) fun i hi hu => ?_
    rw [Unlost,hack,hsame.pid,Queue.sent_of_none hput]
    refine ⟨hu.1,hu.2.trans_le (Nat.add_le_add_right ?_ _)⟩
    simp [Queue.got,List.filterMap_append]

lemma unlost_run (h : Run (fun t op t' => t.step op = some t' ∧ Roomy t op) (boot n) ops t) :
    mailbox.Sound ops t ∧ Lifelong (fun q ops => acknowledged q ops = []) Unlost ops t := by
  refine h.invariant (fun ops t => mailbox.Sound ops t ∧ Lifelong _ Unlost ops t) ?_
    ⟨Queue.Sound.boot,Lifelong.boot unlost_stages⟩
  rintro ops t op t' ⟨hm,hl⟩ ⟨hs,hroom⟩
  refine ⟨hm.step hs (mailbox_guarded hm.life.pids hs),?_⟩
  cases op with
  | life l => exact hl.life unlost_stages hs
  | mess m => exact unlost_mess hm hl hs hroom

/-- **Acknowledged messages.** In every run whose sends find the mailbox set up and with
room, a process can receive exactly the acknowledged messages that it has not received
yet. In every state of such a run a further send keeps the queued messages and adds its
own if and only if there is room; otherwise the mailbox is empty after it. -/
theorem acknowledged_receivable (ops : List (Op n)) (t : Ptable n)
    (h : Run (fun t op t' => t.step op = some t' ∧ Roomy t op) (boot n) ops t) :
    (∀ i, t.Grown i → receivable (t.proc i) =
        (acknowledged (t.proc i).pid ops).drop (mailbox.got (t.proc i).pid ops).length) ∧
      ∀ i sender mess t', t.Grown i →
        t.step (.mess (.send sender (t.proc i).pid mess 0)) = some t' →
        (receivable (t'.proc i) = receivable (t.proc i)++[mess] ↔
          (t.proc i).recvQueue.Room NUM_MSG) := by
  obtain ⟨hm,hl⟩ := unlost_run h
  refine ⟨fun i hi => ?_,fun i sender mess t' hi hs => ?_⟩
  · obtain ⟨hack,hlen⟩ := hl.grown i hi
    rw [hack]
    exact RingBuffer.Follows.contents_eq (hm.life.grown i hi) hlen
  · have hmess : t.stepMess (.send sender (t.proc i).pid mess 0) = some t' := hs
    have hring : (t'.proc i).recvQueue.map Prod.snd =
        ((t.proc i).recvQueue.map Prod.snd).push NUM_MSG mess :=
      (mailbox.step_put hmess rfl i).trans (if_pos rfl)
    rw [receivable,hring]
    exact RingBuffer.Follows.contents_push_iff (hm.life.grown i hi) (hl.grown i hi).2

theorem acknowledged_receivable_two : ∃ t,
    Run (fun t op t' => t.step op = some t' ∧ Roomy t op) (boot 1) (birth++sends 2) t ∧
      ∀ i, t.Grown i → receivable (t.proc i) =
        (acknowledged (t.proc i).pid (birth++sends 2)).drop
          (mailbox.got (t.proc i).pid (birth++sends 2)).length := by
  have he : (exec (fun op t => if Roomy t op then step t op else none) (birth++sends 2)
      (boot 1)).isSome = true := by decide +kernel
  obtain ⟨t,ht⟩ := Option.isSome_iff_exists.mp he
  have hr := Run.of_exec_if ht
  exact ⟨t,hr,(acknowledged_receivable _ t hr).1⟩

/-- Thirty-two acknowledged messages without a receive are all lost, and so is a message
that is acknowledged before `allocproc` resets the mailbox. -/
theorem acknowledged_lost :
    (∃ t, Reaches (birth++sends 32) t ∧ (acknowledged 1 (birth++sends 32)).length = 32 ∧
      mailbox.got 1 (birth++sends 32) = [] ∧ receivable (t.proc 0) = []) ∧
    ∃ t, Reaches [.life (.alloc 0),.mess (.send 0 1 (numbered 7) 0),.life (.reset 0 1),
      .life (.start 0)] t ∧ receivable (t.proc (0 : Fin 1)) = [] := by
  have h1 : (exec (fun op t => step t op) (birth++sends 32) (boot 1)).map
      (fun t => receivable (t.proc 0)) = some [] := by decide +kernel
  have h2 : (exec (fun op t => step t op) [.life (.alloc 0),.mess (.send 0 1 (numbered 7) 0),
      .life (.reset 0 1),.life (.start 0)] (boot 1)).map
      (fun t => receivable (t.proc 0)) = some [] := by decide +kernel
  obtain ⟨t,ht,hempty⟩ := Option.map_eq_some_iff.mp h1
  obtain ⟨u,hu,hnone⟩ := Option.map_eq_some_iff.mp h2
  exact ⟨⟨t,.of_exec ht,by decide,by decide,hempty⟩,u,.of_exec hu,hnone⟩

end JacobiXv6.Kernel
