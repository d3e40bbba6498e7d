import JacobiXv6.Kernel.Ipc
import JacobiXv6.Kernel.Ptable

/-! `send_mess` and one round of `send_multicast` on a process table: both look through all slots
for a pid, whatever the state of a slot, and report success if they find one. -/
namespace JacobiXv6.Kernel
open Library Function List

/-- The process table with what each process sleeps on. -/
structure Slots (n : ℕ) where
  proc : Fin n → Proc
  chan : Fin n → Option (IpcChan n)

namespace Slots
variable {n : ℕ}

def put (t : Slots n) (k : Fin n) (p : Proc) : Slots n := { t with proc := update t.proc k p }

def wakeup1 (chan : Option (IpcChan n)) (t : Slots n) : Slots n :=
  { t with proc := fun i =>
      if (t.proc i).state = .sleeping ∧ t.chan i = chan then { t.proc i with state := .runnable }
      else t.proc i }

/-- One round of a loop over the table for the slots with a pid; the second component is
whether one was found. -/
def round (rec : ℤ) (body : Slots n → Fin n → Slots n) (st : Slots n×Bool) (k : Fin n) : Slots n×Bool :=
  if (st.1.proc k).pid = rec then (body st.1 k,true) else st

/-- `for(p = ptable.proc; p < &ptable.proc[NPROC]; p++) if(p->pid == rec)` -/
def loop (rec : ℤ) (body : Slots n → Fin n → Slots n) (t : Slots n) : Slots n×Bool :=
  (List.finRange n).foldl (round rec body) (t,false)

/-- The body of the loop of `send_mess`. -/
def postMessage (sender : ℤ) (mess : Msg) (t : Slots n) (k : Fin n) : Slots n :=
  (t.put k ((t.proc k).putMessage sender mess)).wakeup1 (t.chan k)

/-- `send_mess` and its value. -/
def sendMess (sender rec : ℤ) (mess : Msg) (t : Slots n) : Slots n×ℤ :=
  ((loop rec (postMessage sender mess) t).1,if (loop rec (postMessage sender mess) t).2 then 0 else -1)

/-- The body of the loop of `send_signal`, called by the process with pid `caller`. -/
def postSignal (caller signum : ℤ) (t : Slots n) (k : Fin n) : Slots n :=
  (t.put k ((t.proc k).putSignal caller signum)).wakeup1 (t.chan k)

def sendSignal (caller rec signum : ℤ) (t : Slots n) : Slots n :=
  (loop rec (postSignal caller signum) t).1

/-- The body of the inner loop of `send_multicast`. -/
def postMulti (caller sender : ℤ) (mess : Msg) (t : Slots n) (k : Fin n) : Slots n :=
  sendSignal caller (t.proc k).pid 1 (t.put k ((t.proc k).putMulti sender mess))

/-- One round of the outer loop of `send_multicast`, and whether it sets `success`. -/
def sendRecipient (caller sender rec : ℤ) (mess : Msg) (t : Slots n) : Slots n×Bool :=
  loop rec (postMulti caller sender mess) t

/-! ### What a send is to report -/

/-- Nothing has changed but that some sleeping processes were woken. -/
structure Stirred (t t' : Slots n) : Prop where
  chan : t'.chan = t.chan
  proc : ∀ i, t'.proc i = t.proc i ∨
    ((t.proc i).state = .sleeping ∧ t'.proc i = { t.proc i with state := .runnable })

/-- A send to `rec` that leaves `t'` and has found a receiver if `ok`: success means that exactly
one process has the pid, and then only its slot has changed, by `f`; otherwise nothing has. -/
structure Reports (rec : ℤ) (f : Proc → Proc) (t t' : Slots n) (ok : Prop) : Prop where
  success : ok ↔ ∃! i, (t.proc i).state ≠ .unused ∧ (t.proc i).pid = rec
  change : ∀ i, ok → (t.proc i).state ≠ .unused → (t.proc i).pid = rec →
    Stirred (t.put i (f (t.proc i))) t'
  failure : ¬ok → t' = t

/-- No `UNUSED` slot has the pid, and no two slots have it. -/
def Addressable (t : Slots n) (rec : ℤ) : Prop :=
  (∀ i, (t.proc i).pid = rec → (t.proc i).state ≠ .unused) ∧
    ∀ i j, (t.proc i).pid = rec → (t.proc j).pid = rec → i = j

/-! ### Loops over the table -/

variable {rec : ℤ} {body : Slots n → Fin n → Slots n} {t : Slots n} {k : Fin n} {l : List (Fin n)}

/-- The body changes some part of the processes in the slot it is called for only. -/
def Local {β : Type*} (g : Proc → β) (h : β → β) (body : Slots n → Fin n → Slots n) : Prop :=
  ∀ t k j, g ((body t k).proc j) = if j = k then h (g (t.proc j)) else g (t.proc j)

lemma put_self (t : Slots n) (k : Fin n) (p : Proc) : (t.put k p).proc k = p := update_self ..

lemma put_of_ne {j : Fin n} (p : Proc) (h : j ≠ k) : (t.put k p).proc j = t.proc j :=
  update_of_ne h _ _

variable {β : Type*}

lemma put_view (g : Proc → β) (h : β → β) {p : Proc} (hp : g p = h (g (t.proc k))) (j : Fin n) :
    g ((t.put k p).proc j) = if j = k then h (g (t.proc j)) else g (t.proc j) := by
  obtain rfl | hne := eq_or_ne j k
  · rw [put_self,if_pos rfl,hp]
  · rw [put_of_ne _ hne,if_neg hne]

lemma wakeup1_view (g : Proc → β) (hg : ∀ p s, g { p with state := s } = g p)
    (chan : Option (IpcChan n)) (t : Slots n) (j : Fin n) :
      g ((wakeup1 chan t).proc j) = g (t.proc j) := by
  unfold wakeup1
  dsimp only
  split_ifs
  · exact hg _ _
  · rfl

lemma foldl_round_of_not_mem {st : Slots n×Bool} (h : ∀ i ∈ l, (st.1.proc i).pid ≠ rec) :
    l.foldl (round rec body) st = st := by
  induction l with
  | nil => rfl
  | cons i l ih =>
    obtain ⟨hi,hl⟩ := forall_mem_cons.mp h
    rw [foldl_cons,round,if_neg hi]
    exact ih hl

variable {g : Proc → β} {h : β → β}

lemma foldl_round_view (hpid : Local Proc.pid id body)
    (hlocal : Local g h body) (hl : l.Nodup) (st : Slots n×Bool) (j : Fin n) :
    g ((l.foldl (round rec body) st).1.proc j) =
      if j ∈ l ∧ (st.1.proc j).pid = rec then h (g (st.1.proc j)) else g (st.1.proc j) := by
  induction l generalizing st with
  | nil => simp
  | cons i l ih =>
    obtain ⟨hi,hl⟩ := nodup_cons.mp hl
    rw [foldl_cons,ih hl]
    by_cases hrec : (st.1.proc i).pid = rec
    · have hsame : ((body st.1 i).proc j).pid = (st.1.proc j).pid := by
        rw [hpid]
        split_ifs
        · rfl
        · rfl
      simp only [round,if_pos hrec,hsame,hlocal st.1 i j,mem_cons]
      obtain rfl | hne := eq_or_ne j i
      · simp [hi,hrec]
      · simp [hne]
    · simp only [round,if_neg hrec,mem_cons]
      obtain rfl | hne := eq_or_ne j i
      · simp [hrec]
      · simp [hne]

lemma foldl_round_found (st : Slots n×Bool) :
    (l.foldl (round rec body) st).2 = true ↔ st.2 = true ∨ ∃ i ∈ l, (st.1.proc i).pid = rec := by
  induction l generalizing st with
  | nil => simp
  | cons i l ih =>
    rw [foldl_cons,ih]
    by_cases hrec : (st.1.proc i).pid = rec
    · simp [round,hrec]
    · simp [round,hrec]

lemma loop_view (hpid : Local Proc.pid id body)
    (hlocal : Local g h body) (t : Slots n) (j : Fin n) :
    g ((loop rec body t).1.proc j) = if (t.proc j).pid = rec then h (g (t.proc j))
      else g (t.proc j) := by
  rw [loop,foldl_round_view hpid hlocal (nodup_finRange n)]
  simp

lemma loop_found : (loop rec body t).2 = true ↔ ∃ i, (t.proc i).pid = rec := by
  rw [loop,foldl_round_found]
  simp

variable {sender : ℤ} {mess : Msg}

lemma sendMess_found (h : ∃ i, (t.proc i).pid = rec) :
    (sendMess sender rec mess t).2 = 0 := by
  simp only [sendMess,loop_found.mpr h,if_true]

lemma loop_of_absent (h : ∀ i, (t.proc i).pid ≠ rec) : loop rec body t = (t,false) :=
  foldl_round_of_not_mem fun i _ => h i

lemma loop_of_unique (hpid : Local Proc.pid id body) (hk : (t.proc k).pid = rec)
    (hunique : ∀ i, (t.proc i).pid = rec → i = k) : loop rec body t = (body t k,true) := by
  obtain ⟨l₁,l₂,hsplit⟩ := append_of_mem (mem_finRange k)
  have hnodup := nodup_finRange n
  rw [hsplit,nodup_append,nodup_cons] at hnodup
  obtain ⟨-,⟨hk₂,-⟩,hdisj⟩ := hnodup
  have hother : ∀ i, i ≠ k → (t.proc i).pid ≠ rec := fun i hne hi => hne (hunique i hi)
  have hbefore : l₁.foldl (round rec body) (t,false) = (t,false) :=
    foldl_round_of_not_mem fun i hi => hother i (hdisj i hi k (mem_cons_self ..))
  rw [loop,hsplit,foldl_append,hbefore,foldl_cons,round,if_pos hk]
  apply foldl_round_of_not_mem
  intro i hi
  have hne : i ≠ k := fun he => hk₂ (he ▸ hi)
  rw [hpid,if_neg hne]
  exact hother i hne

/-! ### The bodies -/

lemma local_post (f : Proc → Proc)
    (hg : ∀ p s, g { p with state := s } = g p) (hf : ∀ p, g (f p) = h (g p)) :
    Local g h fun (t : Slots n) k => (t.put k (f (t.proc k))).wakeup1 (t.chan k) := by
  intro t k j
  rw [wakeup1_view g hg]
  exact put_view g h (hf _) j

lemma local_postMessage
    (hg : ∀ p s, g { p with state := s } = g p) (hf : ∀ p, g (p.putMessage sender mess) = h (g p)) :
    Local g h (postMessage (n := n) sender mess) :=
  local_post (Proc.putMessage sender mess) hg hf

variable {caller : ℤ}

lemma local_postSignal {signum : ℤ}
    (hg : ∀ p s, g { p with state := s } = g p) (hf : ∀ p, g (p.putSignal caller signum) = g p) :
    Local g id (postSignal (n := n) caller signum) :=
  local_post (Proc.putSignal caller signum) hg hf

lemma sendSignal_view {signum : ℤ}
    (hg : ∀ p s, g { p with state := s } = g p) (hf : ∀ p, g (p.putSignal caller signum) = g p)
    (rec : ℤ) (t : Slots n) (j : Fin n) : g ((sendSignal caller rec signum t).proc j) =
      g (t.proc j) := by
  have hpid : Local Proc.pid id (postSignal (n := n) caller signum) :=
    local_postSignal (fun _ _ => rfl) fun _ => rfl
  rw [sendSignal,loop_view hpid (local_postSignal hg hf) t j]
  split_ifs
  · rfl
  · rfl

lemma local_postMulti
    (hg : ∀ p s, g { p with state := s } = g p) (hs : ∀ p, g (p.putSignal caller 1) = g p)
    (hf : ∀ p, g (p.putMulti sender mess) = h (g p)) :
    Local g h (postMulti (n := n) caller sender mess) := by
  intro t k j
  rw [postMulti,sendSignal_view hg hs]
  exact put_view g h (hf _) j

lemma stirred_wakeup1 (chan : Option (IpcChan n)) (t : Slots n) : Stirred t (wakeup1 chan t) where
  chan := rfl
  proc := by
    intro i
    simp only [wakeup1]
    split_ifs with h
    · exact .inr ⟨h.1,rfl⟩
    · exact .inl rfl

/-- For the only process with its pid, a round of `send_multicast` queues the message and one
signal. -/
lemma postMulti_of_unique (hk : ∀ i, (t.proc i).pid = (t.proc k).pid → i = k) :
    postMulti caller sender mess t k =
      (t.put k (((t.proc k).putMulti sender mess).putSignal caller 1)).wakeup1 (t.chan k) := by
  have hpid : ∀ i, ((t.put k ((t.proc k).putMulti sender mess)).proc i).pid = (t.proc i).pid := by
    intro i
    obtain rfl | hne := eq_or_ne i k
    · rw [put_self]
      rfl
    · rw [put_of_ne _ hne]
  rw [postMulti,sendSignal,loop_of_unique (k := k) (local_postSignal (fun _ _ => rfl) fun _ => rfl)
    (hpid k) fun i hi => hk i ((hpid i).symm.trans hi)]
  simp only [postSignal,put,update_self,update_idem]

/-! ### The report -/

lemma push_ne {α : Type*} {m : ℕ} (hm : 2 ≤ m) (r : RingBuffer α) (a : α) : r.push m a ≠ r := by
  intro h
  have htail : (r.tail+1)%m = r.tail := congrArg RingBuffer.tail h
  have hlt : r.tail < m := by
    rw [← htail]
    exact Nat.mod_lt _ (by omega)
  rcases Nat.lt_or_ge (r.tail+1) m with hroom | hfull
  · rw [Nat.mod_eq_of_lt hroom] at htail
    omega
  · rw [show r.tail+1 = m by omega,Nat.mod_self] at htail
    omega

/-- A loop whose body marks the slot it is called for reports truthfully exactly when the pid is
addressable. -/
lemma reports_loop_iff {f : Proc → Proc}
    (hpid : Local Proc.pid id body) (hlocal : Local g h body) (hmark : ∀ p : Proc, h (g p) ≠ g p)
    (hstate : ∀ p s, g { p with state := s } = g p)
    (hbody : ∀ k, (t.proc k).pid = rec → (∀ i, (t.proc i).pid = rec → i = k) →
      Stirred (t.put k (f (t.proc k))) (body t k)) :
    Reports rec f t (loop rec body t).1 ((loop rec body t).2 = true) ↔ Addressable t rec := by
  rw [loop_found]
  constructor
  · intro hr
    have hlive : ∀ i, (t.proc i).pid = rec → (t.proc i).state ≠ .unused := by
      intro i hi hunused
      -- the send has found slot `i`, so it reports success for some other slot
      obtain ⟨j,⟨hj,hjrec⟩,-⟩ := hr.success.mp ⟨i,hi⟩
      have hij : i ≠ j := by
        rintro rfl
        exact hj hunused
      have hview := (loop_view hpid hlocal t i).trans (if_pos hi)
      apply hmark (t.proc i)
      rw [← hview]
      have hkept := (hr.change j ⟨i,hi⟩ hj hjrec).proc i
      rw [put_of_ne _ hij] at hkept
      rcases hkept with he | ⟨-,he⟩
      · rw [he]
      · rw [he,hstate]
    refine ⟨hlive,fun i j hi hj => ?_⟩
    obtain ⟨k,-,hk⟩ := hr.success.mp ⟨i,hi⟩
    exact (hk i ⟨hlive i hi,hi⟩).trans (hk j ⟨hlive j hj,hj⟩).symm
  · rintro ⟨hlive,hinj⟩
    refine ⟨?_,?_,?_⟩
    · constructor
      · rintro ⟨i,hi⟩
        exact ⟨i,⟨hlive i hi,hi⟩,fun j hj => hinj j i hj.2 hi⟩
      · rintro ⟨i,⟨-,hi⟩,-⟩
        exact ⟨i,hi⟩
    · intro i _ _ hi
      rw [loop_of_unique hpid hi fun j hj => hinj j i hj hi]
      exact hbody i hi fun j hj => hinj j i hj hi
    · intro hnone
      rw [loop_of_absent fun i hi => hnone ⟨i,hi⟩]

/-! ### Tables that the system reaches -/

lemma pids_of_reaches {ops : List (Op n)} {pt : Ptable n} (h : Ptable.Reaches ops pt) :
    Ptable.Pids pt := by
  refine h.invariant (fun _ pt => Ptable.Pids pt) ?_ .boot
  intro _ pt op pt' hp hs
  cases op with
  | life l => exact hp.stepLife hs
  | mess m => exact (Ptable.SameSlots.stepMess hs).pids hp

/-- The table has the pids of `pt` and the same slots in use; what the processes in them are doing
may be anything. -/
def SlotsOf (t : Slots n) (pt : Ptable n) : Prop :=
  ∀ i, (t.proc i).pid = (pt.proc i).pid ∧ ((t.proc i).state = .unused ↔ (pt.proc i).state = .unused)

/-- In a table that the system reaches the pids of processes are unique, and only stale pids matter.
-/
lemma addressable_iff {pt : Ptable n} (hp : Ptable.Pids pt) (ht : SlotsOf t pt) :
    Addressable t rec ↔ ∀ i, (t.proc i).pid = rec → (t.proc i).state ≠ .unused := by
  constructor
  · exact fun h => h.1
  · intro h
    refine ⟨h,fun i j hi hj => ?_⟩
    have hused : (pt.proc i).state ≠ .unused := fun hu => h i hi ((ht i).2.mpr hu)
    apply hp.inj i j
    · rw [← (ht i).1,← (ht j).1,hi,hj]
    · exact (hp.live i hused).ne'

end Slots

open Slots

/-- **Reports of sends.** On every process table, `send_mess` reports success exactly if one process
has the pid, and then changes its queue and the states of sleeping processes only, and otherwise
returns -1 and changes nothing, if and only if no `UNUSED` slot has the pid and no two slots share
it. For each recipient of `send_multicast` it is the same. In a table that the system reaches, no
two slots in use share a pid. -/
theorem send_reports_iff {n : ℕ} (t : Slots n) (caller sender rec : ℤ) (mess : Msg) :
    (Reports rec (Proc.putMessage sender mess) t (sendMess sender rec mess t).1
        ((sendMess sender rec mess t).2 = 0) ∧
      ((sendMess sender rec mess t).2 ≠ 0 → (sendMess sender rec mess t).2 = -1) ↔ Addressable t rec) ∧
    (Reports rec (fun p => (p.putMulti sender mess).putSignal caller 1) t
        (sendRecipient caller sender rec mess t).1 ((sendRecipient caller sender rec mess t).2 = true) ↔
      Addressable t rec) ∧
    ∀ ops pt, Ptable.Reaches ops pt → SlotsOf t pt →
      (Addressable t rec ↔ ∀ i, (t.proc i).pid = rec → (t.proc i).state ≠ .unused) := by
  refine ⟨?_,?_,fun ops pt hr ht => addressable_iff (pids_of_reaches hr) ht⟩
  · have hvalue : (sendMess sender rec mess t).2 = 0 ↔
        (loop rec (postMessage sender mess) t).2 = true := by
      unfold sendMess
      dsimp only
      split_ifs with h
      · simp [h]
      · simp [h]
    have hother : (sendMess sender rec mess t).2 ≠ 0 → (sendMess sender rec mess t).2 = -1 := by
      unfold sendMess
      dsimp only
      split_ifs
      · exact fun h => absurd rfl h
      · exact fun _ => rfl
    rw [and_iff_left hother,hvalue]
    refine reports_loop_iff (g := Proc.recvQueue) (h := fun r => r.push NUM_MSG (sender,mess))
      ?_ ?_ ?_ ?_ ?_
    · exact local_postMessage (fun _ _ => rfl) fun _ => rfl
    · exact local_postMessage (fun _ _ => rfl) fun _ => rfl
    · exact fun p => push_ne (by decide) _ _
    · exact fun _ _ => rfl
    · exact fun k _ _ => stirred_wakeup1 _ _
  · refine reports_loop_iff (g := Proc.recvMultiQueue) (h := fun r => r.push NUM_MSG (sender,mess))
      ?_ ?_ ?_ ?_ ?_
    · exact local_postMulti (fun _ _ => rfl) (fun _ => rfl) fun _ => rfl
    · exact local_postMulti (fun _ _ => rfl) (fun _ => rfl) fun _ => rfl
    · exact fun p => push_ne (by decide) _ _
    · exact fun _ _ => rfl
    · intro k hk hunique
      rw [postMulti_of_unique fun i hi => hunique i (hi.trans hk)]
      exact stirred_wakeup1 _ _

/-- The first process starts; then it forks and there is no memory for the child's page table. -/
def failedFork : List (Op 64) :=
  [.life (.alloc 0),.life (.reset 0 1),.life (.start 0),.life (.alloc 1),.life (.reset 1 2),
    .life (.forkFails 1)]

/-- A message to the pid that the child would have had, and one to pid 0, are reported as sent. -/
theorem sent_to_nobody : ∃ pt : Ptable 64, Ptable.Reaches failedFork pt ∧
    (∀ i, (pt.proc i).pid = 2 ∨ (pt.proc i).pid = 0 → (pt.proc i).state = .unused) ∧
    ∀ rec, rec = 2 ∨ rec = 0 → (sendMess 1 rec (fun _ => 7) ⟨pt.proc,fun _ => none⟩).2 = 0 ∧
      ¬Reports rec (Proc.putMessage 1 fun _ => 7) ⟨pt.proc,fun _ => none⟩
        (sendMess 1 rec (fun _ => 7) ⟨pt.proc,fun _ => none⟩).1
        ((sendMess 1 rec (fun _ => 7) ⟨pt.proc,fun _ => none⟩).2 = 0) := by
  have he : (exec (fun op t => Ptable.step t op) failedFork (Ptable.boot 64)).map (fun pt => decide
      ((∀ i, (pt.proc i).pid = 2 ∨ (pt.proc i).pid = 0 → (pt.proc i).state = .unused) ∧
        (pt.proc 1).pid = 2 ∧ (pt.proc 2).pid = 0)) = some true := by decide +kernel
  obtain ⟨pt,hrun,hp⟩ := Option.map_eq_some_iff.mp he
  obtain ⟨hunused,h2,h0⟩ := of_decide_eq_true hp
  refine ⟨pt,.of_exec hrun,hunused,fun rec hrec => ?_⟩
  have hfound : (sendMess 1 rec (fun _ => 7) ⟨pt.proc,fun _ => none⟩).2 = 0 := by
    apply sendMess_found
    rcases hrec with rfl | rfl
    · exact ⟨1,h2⟩
    · exact ⟨2,h0⟩
  refine ⟨hfound,fun hr => ?_⟩
  obtain ⟨i,⟨hused,hi⟩,-⟩ := hr.success.mp hfound
  refine hused (hunused i ?_)
  rcases hrec with rfl | rfl
  · exact .inl hi
  · exact .inr hi

end JacobiXv6.Kernel
