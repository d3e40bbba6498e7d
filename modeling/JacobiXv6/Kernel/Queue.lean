import JacobiXv6.Kernel.Lifetime

/-! What the two message queues of a process have in common: pushes come from others, pops
from the process itself, and `allocproc` resets the queue before the process runs. -/
namespace JacobiXv6.Kernel
open Library Ptable

variable {n : ℕ}

/-- One of the two queues: where it is, which steps push a message to which pid, and which
steps pop one. -/
structure Queue (n : ℕ) where
  ring : Proc → RingBuffer Msg
  put : Mess n → Option (ℤ×Msg)
  take : Mess n → Option (ℤ×Msg)
  ring_state : ∀ p state, ring { p with state := state } = ring p
  ring_reset : ∀ p : Proc, ring p.resetQueues = (ring p).reset
  step_put : ∀ {t t' : Ptable n} {m q mess}, t.stepMess m = some t' → put m = some (q,mess) →
    ∀ i, ring (t'.proc i) =
      if (t.proc i).pid = q then (ring (t.proc i)).push NUM_MSG mess else ring (t.proc i)
  step_take : ∀ {t t' : Ptable n} {m q mess}, t.stepMess m = some t' → take m = some (q,mess) →
    ∃ i, (t.proc i).state = .runnable ∧ (t.proc i).pid = q ∧ (ring (t.proc i)).front = mess ∧
      ∀ j, ring (t'.proc j) = if j = i then (ring (t.proc i)).pop NUM_MSG else ring (t.proc j)
  step_other : ∀ {t t' : Ptable n} {m}, t.stepMess m = some t' → put m = none → take m = none →
    ∀ i, ring (t'.proc i) = ring (t.proc i)
  not_both : ∀ m, put m = none ∨ take m = none

namespace Queue
variable (v : Queue n)

/-- The messages sent to a pid since the queue of its process was reset. -/
def sent (q : ℤ) (ops : List (Op n)) : List Msg :=
  ops.foldl (fun acc op =>
    match op with
    | .life (.reset _ pid) => if pid = q then [] else acc
    | .life _ => acc
    | .mess m =>
      match v.put m with
      | some (pid,mess) => if pid = q then acc++[mess] else acc
      | none => acc) []

/-- The messages that the process with a pid has taken. -/
def got (q : ℤ) (ops : List (Op n)) : List Msg :=
  ops.filterMap fun op =>
    match op with
    | .life _ => none
    | .mess m =>
      match v.take m with
      | some (pid,mess) => if pid = q then some mess else none
      | none => none

variable {v} {ops : List (Op n)} {t t' : Ptable n} {q : ℤ} {mess : Msg} {m : Mess n}

lemma sent_put (h : v.put m = some (q,mess)) (r : ℤ) :
    v.sent r (ops++[.mess m]) = if q = r then v.sent r ops++[mess] else v.sent r ops := by
  simp [sent,h]

lemma sent_of_none (h : v.put m = none) (r : ℤ) : v.sent r (ops++[.mess m]) = v.sent r ops := by
  simp [sent,h]

lemma sent_reset (i : Fin n) (r : ℤ) :
    v.sent r (ops++[.life (.reset i q)]) = if q = r then [] else v.sent r ops := by
  simp [sent]

lemma got_take (h : v.take m = some (q,mess)) (r : ℤ) :
    v.got r (ops++[.mess m]) = if q = r then v.got r ops++[mess] else v.got r ops := by
  by_cases hq : q = r <;> simp [got,h,hq]

lemma got_of_none (h : v.take m = none) (r : ℤ) : v.got r (ops++[.mess m]) = v.got r ops := by
  simp [got,h]

lemma got_life (l : Life n) (r : ℤ) : v.got r (ops++[.life l]) = v.got r ops := by
  simp [got]

lemma sent_life {l : Life n} (h : ∀ i, l ≠ .reset i q) :
    v.sent q (ops++[.life l]) = v.sent q ops := by
  cases l with
  | reset i pid =>
    have hne : pid ≠ q := fun he => h i (he ▸ rfl)
    simp [sent,hne]
  | _ => simp [sent]

variable (v) in
/-- The ring of a process follows the history of its pid. -/
def Follows (p : Proc) (ops : List (Op n)) : Prop :=
  RingBuffer.Follows NUM_MSG (v.ring p) (v.sent p.pid ops) (v.got p.pid ops)

variable (v) in
/-- The invariant of a queue: a process has a subsequence of what was sent to it, and as
long as it lives its ring follows the history. -/
structure Sound (ops : List (Op n)) (t : Ptable n) : Prop where
  sub : ∀ q, (v.got q ops).Sublist (v.sent q ops)
  life : Lifelong (fun q ops => v.got q ops = []) v.Follows ops t

lemma stages : Stages (fun q ops => v.got q ops = []) v.Follows where
  nil := fun _ => rfl
  unborn := fun q ops l h => (got_life l q).trans h
  grown := fun p ops l hl h => by
    rw [Follows,got_life,sent_life hl]
    exact h
  state := fun p ops state h => by
    rw [Follows,v.ring_state]
    exact h
  reset := fun p ops i h => by
    rw [Follows,v.ring_reset,got_life,sent_reset]
    change RingBuffer.Follows NUM_MSG _ (if p.pid = p.pid then [] else _) (v.got p.pid ops)
    rw [if_pos rfl,h]
    exact RingBuffer.Follows.reset _

lemma NUM_MSG_pos : 0 < NUM_MSG := by decide

section

variable (h : v.Sound ops t) (hs : t.stepMess m = some t')
include h hs

/-- A push by `send_mess` or `send_multicast`. -/
lemma Sound.put (hput : v.put m = some (q,mess)) :
    v.Sound (ops++[.mess m]) t' := by
  have hsame := SameSlots.stepMess hs
  have htake : v.take m = none := (v.not_both m).resolve_left (by simp [hput])
  refine ⟨fun r => ?_,h.life.mess hs (fun r _ hr => (got_of_none htake r).trans hr) fun i hi hf => ?_⟩
  · rw [got_of_none htake,sent_put hput]
    split_ifs
    · exact (h.sub r).trans (List.sublist_append_left _ _)
    · exact h.sub r
  · rw [Follows,got_of_none htake,hsame.pid,sent_put hput,v.step_put hs hput]
    obtain hq | hq := eq_or_ne q (t.proc i).pid
    · rw [if_pos hq.symm,if_pos hq]
      exact hf.push
    · rw [if_neg hq.symm,if_neg hq]
      exact hf

lemma Sound.take (htake : v.take m = some (q,mess))
    (hne : ∀ i, (t.proc i).state = .runnable → (t.proc i).pid = q →
      (v.ring (t.proc i)).head ≠ (v.ring (t.proc i)).tail) : v.Sound (ops++[.mess m]) t' := by
  have hsame := SameSlots.stepMess hs
  have hput : v.put m = none := (v.not_both m).resolve_right (by simp [htake])
  obtain ⟨i,hrun,rfl,hfront,hring⟩ := v.step_take hs htake
  have hgrown := h.life.pids.grown_of_runnable hrun
  have hpop := RingBuffer.Follows.pop (h.life.grown i hgrown) NUM_MSG_pos (hne i hrun rfl)
  rw [hfront] at hpop
  refine ⟨fun r => ?_,h.life.mess hs (fun r hr hempty => ?_) fun j hj hf => ?_⟩
  · rw [got_take htake,sent_of_none hput]
    split_ifs with hr
    · exact hr ▸ hpop.sublist
    · exact h.sub r
  · rw [got_take htake,if_neg]
    · exact hempty
    · rintro rfl
      exact h.life.pids.not_unborn hgrown hr
  · rw [Follows,got_take htake,hsame.pid,sent_of_none hput,hring]
    obtain rfl | hji := eq_or_ne j i
    · rw [if_pos rfl,if_pos rfl]
      exact hpop
    · rw [if_neg hji,if_neg fun he => hji (h.life.pids.eq_of_live hgrown.1 he.symm)]
      exact hf

lemma Sound.other (hput : v.put m = none)
    (htake : v.take m = none) : v.Sound (ops++[.mess m]) t' := by
  have hsame := SameSlots.stepMess hs
  refine ⟨fun r => ?_,h.life.mess hs (fun r _ hr => (got_of_none htake r).trans hr) fun i hi hf => ?_⟩
  · rw [got_of_none htake,sent_of_none hput]
    exact h.sub r
  · rw [Follows,got_of_none htake,hsame.pid,sent_of_none hput,v.step_other hs hput htake]
    exact hf

end

/-- No step in the life of a process makes it lose its place; a reset comes before the
first message is taken. -/
lemma Sound.lifeStep {l : Life n} (h : v.Sound ops t) (hs : t.stepLife l = some t') :
    v.Sound (ops++[.life l]) t' := by
  refine ⟨fun r => ?_,h.life.life stages hs⟩
  rw [got_life]
  by_cases hr : ∃ i, l = .reset i r
  · obtain ⟨i,rfl⟩ := hr
    obtain ⟨⟨hpub,rfl⟩,-⟩ := Option.ite_none_right_eq_some.mp hs
    rw [h.life.unborn _ (Or.inr ⟨i,hpub,rfl⟩)]
    exact List.nil_sublist _
  · rw [sent_life fun i hi => hr ⟨i,hi⟩]
    exact h.sub r

lemma Sound.boot : v.Sound [] (boot n) :=
  ⟨fun _ => List.Sublist.slnil,Lifelong.boot stages⟩

variable (v) in
/-- The steps that pop the queue only when it does not look empty. -/
def Guarded (t : Ptable n) : Op n → Prop
  | .life _ => True
  | .mess m => ∀ q mess, v.take m = some (q,mess) → ∀ i, (t.proc i).state = .runnable →
      (t.proc i).pid = q → (v.ring (t.proc i)).head ≠ (v.ring (t.proc i)).tail

lemma Sound.step {op : Op n} (h : v.Sound ops t) (hs : t.step op = some t') (hg : v.Guarded t op) :
    v.Sound (ops++[op]) t' := by
  cases op with
  | life l => exact h.lifeStep hs
  | mess m =>
    cases hput : v.put m with
    | some qm => exact h.put hs hput
    | none =>
      cases htake : v.take m with
      | some qm => exact h.take hs htake (hg _ _ htake)
      | none => exact h.other hs hput htake

end Queue
end JacobiXv6.Kernel
