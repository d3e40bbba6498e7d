import JacobiXv6.Library.Run
import JacobiXv6.Kernel.Proc

/-! The process table with messages and signals. Each step is what one process does while
it holds `ptable.lock`. Without it there is one assignment in a step, apart from `reset`, the
assignments of `allocproc` to the queues of the slot it has taken, and `deliver`, those of
`handle_signals` to its own process. The scheduler is left out, so that a process that has been
started is always `runnable`. Steps that read something carry what they have read, so that the
labels of a run are its history. -/
namespace JacobiXv6.Kernel
open Library Function Option

/-- `ptable`. A slot is `published` while `allocproc` has given it a pid and has not yet
reset its queues. `pid` and `nextpid` are the C integers as long as there are fewer than `2^31-1`
creations: see `nextpid_eq`. -/
structure Ptable (n : ℕ) where
  proc : Fin n → Proc
  published : Fin n → Bool
  nextpid : ℤ

/-- The steps in the life of a process. -/
inductive Life (n : ℕ)
  | alloc (i : Fin n)
  | allocFails (i : Fin n)
  | reset (i : Fin n) (pid : ℤ)
  | forkFails (i : Fin n)
  | start (i : Fin n)
  | exit (i : Fin n)
  | free (i : Fin n)

/-- The steps about messages and signals. -/
inductive Mess (n : ℕ)
  | send (sender rec : ℤ) (mess : Msg) (ret : ℤ)
  | recv (i : Fin n) (pid : ℤ) (mess : Msg)
  | multicast (caller sender rec : ℤ) (mess : Msg)
  | signal (caller rec signum : ℤ)
  | deliver (i : Fin n) (pid : ℤ) (tf : Trapframe) (mess : Msg)
  | sigret (i : Fin n) (tf : Trapframe)
  | pause (i : Fin n)

inductive Op (n : ℕ)
  | life (l : Life n)
  | mess (m : Mess n)

namespace Ptable
variable {n : ℕ}

def put (t : Ptable n) (i : Fin n) (p : Proc) : Ptable n :=
  { t with proc := update t.proc i p }

def setState (t : Ptable n) (i : Fin n) (state : ProcState) : Ptable n :=
  t.put i { t.proc i with state := state }

/-- A loop over the table that does something to the processes with a given pid. -/
def onPid (t : Ptable n) (pid : ℤ) (f : Proc → Proc) : Ptable n :=
  { t with proc := fun i => if (t.proc i).pid = pid then f (t.proc i) else t.proc i }

def count (t : Ptable n) (pid : ℤ) : ℕ := (Finset.univ.filter fun i => (t.proc i).pid = pid).card

/-- The value of `send_mess`: whether some slot has the pid. -/
def sendValue (t : Ptable n) (pid : ℤ) : ℤ := if ∃ i, (t.proc i).pid = pid then 0 else -1

/-- `allocproc`, the parts of `fork`, `exit` and `wait` that change the state of a slot.
`alloc` takes the first `UNUSED` slot. -/
def stepLife (t : Ptable n) : Life n → Option (Ptable n)
  | .alloc i =>
    if (t.proc i).state = .unused ∧ ∀ j < i, (t.proc j).state ≠ .unused then
      some { t.put i { t.proc i with state := .embryo, pid := t.nextpid } with
        published := update t.published i true, nextpid := t.nextpid+1 }
    else none
  | .allocFails i =>
    if t.published i then
      some { t.setState i .unused with published := update t.published i false }
    else none
  | .reset i pid =>
    if t.published i ∧ (t.proc i).pid = pid then
      some { t.put i (t.proc i).resetQueues with published := update t.published i false }
    else none
  | .forkFails i =>
    if (t.proc i).state = .embryo ∧ t.published i = false then some (t.setState i .unused) else none
  | .start i =>
    if (t.proc i).state = .embryo ∧ t.published i = false then some (t.setState i .runnable) else none
  | .exit i => if (t.proc i).state = .runnable then some (t.setState i .zombie) else none
  | .free i =>
    if (t.proc i).state = .zombie then some (t.put i { t.proc i with state := .unused, pid := 0 })
    else none

/-- `send_mess`, `recv_mess`, `send_multicast`, `send_signal`, `handle_signals`, `ret_signal`
and `pause_signal`. `multicast` is one round of the loop of `send_multicast`; for each slot
it finds it calls `send_signal`, which looks through the table again. `deliver` is a return
to user mode on which `handle_signals` enters the handler; it and `sigret` are given the
trap frame. -/
def stepMess (t : Ptable n) : Mess n → Option (Ptable n)
  | .send sender rec mess ret =>
    if ret = t.sendValue rec then some (t.onPid rec (Proc.putMessage sender mess)) else none
  | .recv i pid mess =>
    if (t.proc i).state = .runnable ∧ (t.proc i).pid = pid ∧
        (t.proc i).recvQueue.head ≠ (t.proc i).recvQueue.tail ∧ (t.proc i).recvQueue.front.2 = mess then
      some (t.put i { t.proc i with recvQueue := (t.proc i).recvQueue.pop NUM_MSG })
    else none
  | .multicast caller sender rec mess =>
    some (t.onPid rec fun p => (Proc.putSignal caller 1)^[t.count rec] (p.putMulti sender mess))
  | .signal caller rec signum => some (t.onPid rec (Proc.putSignal caller signum))
  | .deliver i pid tf mess =>
    if (t.proc i).state = .runnable ∧ (t.proc i).pid = pid ∧ Proc.Delivers { t.proc i with tf := tf } ∧
        (t.proc i).recvMultiQueue.front.2 = mess then
      some (t.put i (Proc.enterHandler { t.proc i with tf := tf }))
    else none
  | .sigret i tf =>
    if (t.proc i).state = .runnable then some (t.put i { t.proc i with tf := tf, handling := false })
    else none
  | .pause i =>
    if (t.proc i).state = .runnable ∧
        (t.proc i).pendingSignals.head ≠ (t.proc i).pendingSignals.tail then some t
    else none

def step (t : Ptable n) : Op n → Option (Ptable n)
  | .life l => t.stepLife l
  | .mess m => t.stepMess m

def unusedProc : Proc where
  state := .unused
  pid := 0
  tf := Trapframe.ofWords fun _ => 0
  recvQueue := ⟨fun _ => (0,fun _ => 0),0,0⟩
  recvMultiQueue := ⟨fun _ => (0,fun _ => 0),0,0⟩
  handler := 0
  pendingSignals := ⟨fun _ => (0,0),0,0⟩
  handling := false

def boot (n : ℕ) : Ptable n := ⟨fun _ => unusedProc,fun _ => false,1⟩

abbrev Reaches (ops : List (Op n)) (t : Ptable n) : Prop :=
  Run (fun t op t' => step t op = some t') (boot n) ops t

/-- Pids are given once. -/
structure Pids (t : Ptable n) : Prop where
  pos : 0 < t.nextpid
  lt : ∀ i, (t.proc i).pid < t.nextpid
  live : ∀ i, (t.proc i).state ≠ .unused → 0 < (t.proc i).pid
  inj : ∀ i j, (t.proc i).pid = (t.proc j).pid → (t.proc i).pid ≠ 0 → i = j
  embryo : ∀ i, t.published i = true → (t.proc i).state = .embryo

variable {t t' : Ptable n} {op : Op n} {i : Fin n} {pid : ℤ} {f : Proc → Proc} {p : Proc}

/-- Nothing has changed but the contents of the processes. -/
structure SameSlots (t t' : Ptable n) : Prop where
  published : t'.published = t.published
  nextpid : t'.nextpid = t.nextpid
  pid : ∀ i, (t'.proc i).pid = (t.proc i).pid
  state : ∀ i, (t'.proc i).state = (t.proc i).state

lemma SameSlots.pids (h : SameSlots t t') (hp : Pids t) : Pids t' where
  pos := by simpa only [h.nextpid] using hp.pos
  lt := by simpa only [h.nextpid,h.pid] using hp.lt
  live := by simpa only [h.state,h.pid] using hp.live
  inj := by simpa only [h.pid] using hp.inj
  embryo := by simpa only [h.published,h.state] using hp.embryo

@[simp] lemma put_self : (t.put i p).proc i = p := by simp [put]

@[simp] lemma put_of_ne {j : Fin n} (h : j ≠ i) : (t.put i p).proc j = t.proc j := by simp [put,h]

lemma view_put {β : Type*} (g : Proc → β) (hg : g p = g (t.proc i)) (j : Fin n) :
    g ((t.put i p).proc j) = g (t.proc j) := by
  obtain rfl | hne := eq_or_ne j i
  · rw [put_self,hg]
  · rw [put_of_ne hne]

lemma view_onPid {β : Type*} (g : Proc → β) (hg : ∀ p, g (f p) = g p) (j : Fin n) :
    g ((t.onPid pid f).proc j) = g (t.proc j) := by
  simp only [onPid]
  split_ifs
  exacts [hg _,rfl]

lemma SameSlots.put (hpid : p.pid = (t.proc i).pid) (hstate : p.state = (t.proc i).state) :
    SameSlots t (t.put i p) :=
  ⟨rfl,rfl,view_put Proc.pid hpid,view_put Proc.state hstate⟩

lemma SameSlots.onPid (hpid : ∀ p, (f p).pid = p.pid) (hstate : ∀ p, (f p).state = p.state) :
    SameSlots t (t.onPid pid f) :=
  ⟨rfl,rfl,view_onPid Proc.pid hpid,view_onPid Proc.state hstate⟩

lemma putSignals_eq (caller : ℤ) (k : ℕ) (p : Proc) : (Proc.putSignal caller 1)^[k] p =
    { p with pendingSignals := (fun r => r.push MAX_SIG (1,caller))^[k] p.pendingSignals } := by
  induction k generalizing p with
  | zero => rfl
  | succ k ih => exact ih (p.putSignal caller 1)

lemma SameSlots.stepMess {m : Mess n} (h : t.stepMess m = some t') : SameSlots t t' := by
  cases m with
  | send sender rec mess ret =>
    obtain ⟨-,⟨⟩⟩ := ite_none_right_eq_some.mp h
    exact .onPid (fun _ => rfl) fun _ => rfl
  | recv i pid mess | deliver i pid tf mess | sigret i tf =>
    obtain ⟨-,⟨⟩⟩ := ite_none_right_eq_some.mp h
    exact .put rfl rfl
  | multicast caller sender rec mess =>
    cases h
    simp only [putSignals_eq]
    exact .onPid (fun _ => rfl) fun _ => rfl
  | signal caller rec signum =>
    cases h
    exact .onPid (fun _ => rfl) fun _ => rfl
  | pause i =>
    obtain ⟨-,⟨⟩⟩ := ite_none_right_eq_some.mp h
    exact ⟨rfl,rfl,fun _ => rfl,fun _ => rfl⟩

/-- The pids after slot `i` was given a new state, or a pid that no slot has. -/
lemma Pids.put {published : Fin n → Bool} {nextpid : ℤ} (h : Pids t) (hnext : t.nextpid ≤ nextpid)
    (hpid : p.pid = (t.proc i).pid ∨ p.pid = 0 ∨ p.pid = t.nextpid) (hlt : p.pid < nextpid)
    (hlive : p.state ≠ .unused → 0 < p.pid) (hi : published i = true → p.state = .embryo)
    (hpub : ∀ j, j ≠ i → published j = t.published j) :
    Pids { t.put i p with published := published, nextpid := nextpid } where
  pos := h.pos.trans_le hnext
  lt := by
    intro j
    obtain rfl | hne := eq_or_ne j i
    · simpa using hlt
    · simpa [hne] using (h.lt j).trans_le hnext
  live := by
    intro j
    obtain rfl | hne := eq_or_ne j i
    · simpa using hlive
    · simpa [hne] using h.live j
  inj := by
    have hother : ∀ j, j ≠ i → p.pid = (t.proc j).pid → p.pid = 0 := by
      intro j hj he
      rcases hpid with hp | hp | hp
      · by_contra hz
        exact hj (h.inj j i (he.symm.trans hp) (he ▸ hz))
      · exact hp
      · have hlt := h.lt j
        omega
    intro j k he hz
    obtain rfl | hj := eq_or_ne j i
    · obtain rfl | hk := eq_or_ne k j
      · rfl
      · simp only [put_self,put_of_ne hk] at he hz
        exact absurd (hother k hk he) hz
    · obtain rfl | hk := eq_or_ne k i
      · simp only [put_self,put_of_ne hj] at he hz
        exact absurd (hother j hj he.symm) (he ▸ hz)
      · simp only [put_of_ne hj,put_of_ne hk] at he hz
        exact h.inj j k he hz
  embryo := by
    intro j
    obtain rfl | hne := eq_or_ne j i
    · simpa using hi
    · simpa [hne,hpub j hne] using h.embryo j

lemma Pids.stepLife {l : Life n} (h : Pids t) (hs : t.stepLife l = some t') : Pids t' := by
  cases l with
  | alloc i =>
    obtain ⟨-,⟨⟩⟩ := ite_none_right_eq_some.mp hs
    exact h.put (by omega) (.inr (.inr rfl)) (Int.lt_succ _) (fun _ => h.pos) (fun _ => rfl)
      fun j hj => update_of_ne hj _ _
  | allocFails i =>
    obtain ⟨-,⟨⟩⟩ := ite_none_right_eq_some.mp hs
    exact h.put le_rfl (.inl rfl) (h.lt i) (by simp) (by simp)
      fun j hj => update_of_ne hj _ _
  | reset i pid =>
    obtain ⟨⟨hpub,-⟩,⟨⟩⟩ := ite_none_right_eq_some.mp hs
    exact h.put le_rfl (.inl rfl) (h.lt i) (h.live i) (by simp)
      fun j hj => update_of_ne hj _ _
  | forkFails i =>
    obtain ⟨⟨-,hpub⟩,⟨⟩⟩ := ite_none_right_eq_some.mp hs
    exact h.put le_rfl (.inl rfl) (h.lt i) (by simp) (by simp [hpub]) fun _ _ => rfl
  | start i =>
    obtain ⟨⟨hstate,hpub⟩,⟨⟩⟩ := ite_none_right_eq_some.mp hs
    exact h.put le_rfl (.inl rfl) (h.lt i) (fun _ => h.live i (by simp [hstate])) (by simp [hpub])
      fun _ _ => rfl
  | exit i =>
    obtain ⟨hstate,⟨⟩⟩ := ite_none_right_eq_some.mp hs
    refine h.put le_rfl (.inl rfl) (h.lt i) (fun _ => h.live i (by simp [hstate])) ?_ fun _ _ => rfl
    intro hpub
    simp [h.embryo i hpub] at hstate
  | free i =>
    obtain ⟨hstate,⟨⟩⟩ := ite_none_right_eq_some.mp hs
    refine h.put le_rfl (.inr (.inl rfl)) h.pos (by simp) ?_ fun _ _ => rfl
    intro hpub
    simp [h.embryo i hpub] at hstate

def creates : Op n → Bool
  | .life (.alloc _) => true
  | _ => false

lemma nextpid_step (h : t.step op = some t') : t'.nextpid = t.nextpid+if creates op then 1 else 0 := by
  cases op with
  | life l =>
    cases l with
    | alloc i =>
      obtain ⟨-,⟨⟩⟩ := ite_none_right_eq_some.mp h
      rfl
    | _ =>
      obtain ⟨-,⟨⟩⟩ := ite_none_right_eq_some.mp h
      exact (add_zero _).symm
  | mess m => exact (SameSlots.stepMess h).nextpid.trans (add_zero _).symm

lemma nextpid_eq {ops : List (Op n)} (h : Reaches ops t) : t.nextpid = 1+ops.countP creates := by
  refine h.invariant (fun ops (t : Ptable n) => t.nextpid = 1+ops.countP creates) ?_ rfl
  intro ops t op t' ht hs
  rw [nextpid_step hs,ht,List.countP_append,List.countP_singleton]
  split_ifs <;> omega

lemma Pids.boot : Pids (boot n) where
  pos := Int.one_pos
  lt := fun _ => Int.one_pos
  live := fun _ h => absurd rfl h
  inj := fun _ _ _ h => absurd rfl h
  embryo := fun _ h => nomatch h

lemma Pids.eq_of_live (h : Pids t) {j : Fin n} (hi : (t.proc i).state ≠ .unused)
    (hj : (t.proc j).pid = (t.proc i).pid) : j = i := by
  apply h.inj j i hj
  rw [hj]
  exact (h.live i hi).ne'

end Ptable
end JacobiXv6.Kernel
