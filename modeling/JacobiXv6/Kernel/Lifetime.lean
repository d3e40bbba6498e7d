import JacobiXv6.Kernel.Ptable

/-! Invariants over the life of a process. A pid is first not given, then that of a slot
whose queues `allocproc` has yet to reset, then that of a process; the rule here goes
through these stages once for all invariants about messages and signals. -/
namespace JacobiXv6.Kernel.Ptable
open Library Function

variable {n : ℕ} {A : ℤ → List (Op n) → Prop} {B : Proc → List (Op n) → Prop}
  {ops : List (Op n)} {t t' : Ptable n} {i : Fin n} {p : Proc}

/-- A pid that is not yet that of a process with queues of its own. -/
def Unborn (t : Ptable n) (q : ℤ) : Prop :=
  t.nextpid ≤ q ∨ ∃ i, t.published i = true ∧ (t.proc i).pid = q

def Grown (t : Ptable n) (i : Fin n) : Prop :=
  (t.proc i).state ≠ .unused ∧ t.published i = false

/-- The history of every unborn pid satisfies `A`, every grown process satisfies `B`. -/
structure Lifelong (A : ℤ → List (Op n) → Prop) (B : Proc → List (Op n) → Prop)
    (ops : List (Op n)) (t : Ptable n) : Prop where
  pids : Pids t
  unborn : ∀ q, t.Unborn q → A q ops
  grown : ∀ i, t.Grown i → B (t.proc i) ops

lemma Pids.not_unborn (h : Pids t) (hi : t.Grown i) : ¬t.Unborn (t.proc i).pid := by
  rintro (hle | ⟨j,hj,hpid⟩)
  · exact absurd (h.lt i) (not_lt.mpr hle)
  · obtain rfl := h.eq_of_live hi.1 hpid
    simp [hi.2] at hj

lemma Pids.grown_of_runnable (h : Pids t) (hi : (t.proc i).state = .runnable) : t.Grown i := by
  refine ⟨by simp [hi],?_⟩
  rw [← Bool.not_eq_true]
  intro hpub
  simp [h.embryo i hpub] at hi

lemma SameSlots.unborn_iff (h : SameSlots t t') (q : ℤ) : t'.Unborn q ↔ t.Unborn q := by
  simp only [Unborn,h.nextpid,h.published,h.pid]

lemma SameSlots.grown_iff (h : SameSlots t t') (i : Fin n) : t'.Grown i ↔ t.Grown i := by
  simp only [Grown,h.state,h.published]

lemma Lifelong.mess {m : Mess n} (h : Lifelong A B ops t) (hs : t.stepMess m = some t')
    (hA : ∀ q, t.Unborn q → A q ops → A q (ops++[.mess m]))
    (hB : ∀ i, t.Grown i → B (t.proc i) ops → B (t'.proc i) (ops++[.mess m])) :
    Lifelong A B (ops++[.mess m]) t' := by
  have hsame := SameSlots.stepMess hs
  refine ⟨hsame.pids h.pids,fun q hq => ?_,fun i hi => ?_⟩
  · rw [hsame.unborn_iff] at hq
    exact hA q hq (h.unborn q hq)
  · rw [hsame.grown_iff] at hi
    exact hB i hi (h.grown i hi)

/-- A new state of slot `i`, or a new pid. -/
lemma Lifelong.slot {l : Life n} {published : Fin n → Bool} {nextpid : ℤ} (h : Lifelong A B ops t)
    (hpids : Pids { t.put i p with published := published, nextpid := nextpid })
    (hA : ∀ q, A q ops → A q (ops++[.life l]))
    (hB : ∀ j, t.Grown j → B (t.proc j) ops → B (t.proc j) (ops++[.life l]))
    (hnext : t.nextpid ≤ nextpid) (hpub : ∀ j, j ≠ i → published j = t.published j)
    (hnew : published i = true → t.Unborn p.pid)
    (hp : p.state ≠ .unused → published i = false → B p (ops++[.life l])) :
    Lifelong A B (ops++[.life l]) { t.put i p with published := published, nextpid := nextpid } := by
  refine ⟨hpids,fun q hq => ?_,fun j hj => ?_⟩
  · apply hA
    apply h.unborn
    rcases hq with hle | ⟨j,hj,hpid⟩
    · exact .inl (hnext.trans hle)
    · obtain rfl | hne := eq_or_ne j i
      · simp only [put_self] at hpid
        exact hpid ▸ hnew hj
      · simp only [put_of_ne hne] at hpid
        exact .inr ⟨j,hpub j hne ▸ hj,hpid⟩
  · obtain rfl | hne := eq_or_ne j i
    · simp only [Grown,put_self] at hj ⊢
      exact hp hj.1 hj.2
    · simp only [Grown,put_of_ne hne,hpub j hne] at hj ⊢
      exact hB j hj (h.grown j hj)

/-- What an invariant has to satisfy over the life of a process: no step of it but the
reset matters to the histories, and the reset makes `B` out of `A`. -/
structure Stages (A : ℤ → List (Op n) → Prop) (B : Proc → List (Op n) → Prop) : Prop where
  nil : ∀ q, A q []
  unborn : ∀ q ops l, A q ops → A q (ops++[.life l])
  grown : ∀ p ops l, (∀ i, l ≠ .reset i p.pid) → B p ops → B p (ops++[.life l])
  state : ∀ p ops state, B p ops → B { p with state := state } ops
  reset : ∀ (p : Proc) ops i, A p.pid ops → B p.resetQueues (ops++[.life (.reset i p.pid)])

lemma Lifelong.life {l : Life n} (hst : Stages A B) (h : Lifelong A B ops t)
    (hs : t.stepLife l = some t') : Lifelong A B (ops++[.life l]) t' := by
  have hpids := h.pids.stepLife hs
  have hA : ∀ q, A q ops → A q (ops++[.life l]) := fun q => hst.unborn q ops l
  cases l with
  | alloc i =>
    obtain ⟨-,⟨⟩⟩ := Option.ite_none_right_eq_some.mp hs
    exact h.slot hpids hA (fun j _ => hst.grown _ _ _ (by simp)) (by omega)
      (fun j hj => update_of_ne hj _ _) (fun _ => .inl le_rfl) (by simp)
  | allocFails i =>
    obtain ⟨-,⟨⟩⟩ := Option.ite_none_right_eq_some.mp hs
    exact h.slot hpids hA (fun j _ => hst.grown _ _ _ (by simp)) le_rfl
      (fun j hj => update_of_ne hj _ _) (by simp) (by simp)
  | reset i pid =>
    obtain ⟨⟨hpub,rfl⟩,⟨⟩⟩ := Option.ite_none_right_eq_some.mp hs
    have hunborn : t.Unborn (t.proc i).pid := .inr ⟨i,hpub,rfl⟩
    refine h.slot hpids hA (fun j hj => hst.grown _ _ _ ?_) le_rfl
      (fun j hj => update_of_ne hj _ _) (by simp) fun _ _ => hst.reset _ _ _ (h.unborn _ hunborn)
    intro k he
    injection he with _ hpid
    exact h.pids.not_unborn hj (hpid ▸ hunborn)
  | forkFails i =>
    obtain ⟨⟨-,hpub⟩,⟨⟩⟩ := Option.ite_none_right_eq_some.mp hs
    exact h.slot hpids hA (fun j _ => hst.grown _ _ _ (by simp)) le_rfl (fun _ _ => rfl)
      (by simp [hpub]) (by simp)
  | start i =>
    obtain ⟨⟨hstate,hpub⟩,⟨⟩⟩ := Option.ite_none_right_eq_some.mp hs
    exact h.slot hpids hA (fun j _ => hst.grown _ _ _ (by simp)) le_rfl (fun _ _ => rfl)
      (by simp [hpub]) fun _ _ =>
        hst.state _ _ _ (hst.grown _ _ _ (by simp) (h.grown i ⟨by simp [hstate],hpub⟩))
  | exit i =>
    obtain ⟨hstate,⟨⟩⟩ := Option.ite_none_right_eq_some.mp hs
    have hgrown := h.pids.grown_of_runnable hstate
    exact h.slot hpids hA (fun j _ => hst.grown _ _ _ (by simp)) le_rfl (fun _ _ => rfl)
      (by simp [hgrown.2]) fun _ _ => hst.state _ _ _ (hst.grown _ _ _ (by simp) (h.grown i hgrown))
  | free i =>
    obtain ⟨hstate,⟨⟩⟩ := Option.ite_none_right_eq_some.mp hs
    refine h.slot hpids hA (fun j _ => hst.grown _ _ _ (by simp)) le_rfl (fun _ _ => rfl) ?_ (by simp)
    intro hpub
    simp [h.pids.embryo i hpub] at hstate

lemma Lifelong.boot (hst : Stages A B) : Lifelong A B [] (boot n) :=
  ⟨Pids.boot,fun q _ => hst.nil q,fun _ hi => absurd rfl hi.1⟩

end JacobiXv6.Kernel.Ptable
