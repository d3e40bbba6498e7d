import Mathlib.Tactic

/-! Runs of labelled transition systems and their invariants. -/
namespace JacobiXv6.Library

variable {σ α : Type*}

/-- A finite run of a labelled step relation together with its labels, oldest first. -/
inductive Run (step : σ → α → σ → Prop) : σ → List α → σ → Prop
  | nil (s : σ) : Run step s [] s
  | snoc {s t u : σ} {as : List α} {a : α} (run : Run step s as t) (last : step t a u) :
      Run step s (as++[a]) u

namespace Run
variable {step : σ → α → σ → Prop} {s t u : σ} {as bs : List α} {a : α}

/-- An invariant of the labels so far and the state holds along every run. -/
theorem invariant (I : List α → σ → Prop) (hstep : ∀ as s a t, I as s → step s a t → I (as++[a]) t)
    (h : Run step s as t) (h0 : I [] s) : I as t := by
  induction h with
  | nil => exact h0
  | snoc _ hs ih => exact hstep _ _ _ _ ih hs

theorem mono {step' : σ → α → σ → Prop} (h : Run step s as t)
    (himp : ∀ s a t, step s a t → step' s a t) : Run step' s as t := by
  induction h with
  | nil => exact nil s
  | snoc _ hs ih => exact snoc ih (himp _ _ _ hs)

theorem of_snoc (h : Run step s (as++[a]) u) : ∃ t, Run step s as t ∧ step t a u := by
  generalize hbs : as++[a] = bs at h
  cases h with
  | nil => simp at hbs
  | snoc run last =>
    obtain ⟨rfl,rfl⟩ := List.append_singleton_inj.mp hbs
    exact ⟨_,run,last⟩

theorem cons (hs : step s a t) (h : Run step t as u) : Run step s (a::as) u := by
  induction h with
  | nil => exact snoc (nil s) hs
  | snoc _ hl ih => exact snoc ih hl

theorem append (h : Run step s as t) (h' : Run step t bs u) : Run step s (as++bs) u := by
  induction h' with
  | nil =>
    rw [List.append_nil]
    exact h
  | snoc _ hl ih =>
    rw [← List.append_assoc]
    exact snoc ih hl

end Run

/-- Execute a list of labels on a machine whose steps are determined by their label. -/
def exec (next : α → σ → Option σ) : List α → σ → Option σ
  | [], s => some s
  | a::as, s => (next a s).bind (exec next as)

variable {next : α → σ → Option σ}

theorem Run.of_exec {s t : σ} {as : List α}
    (h : exec next as s = some t) : Run (fun s a t => next a s = some t) s as t := by
  induction as generalizing s with
  | nil =>
    cases h
    exact .nil t
  | cons a as ih =>
    obtain ⟨r,hr,ht⟩ := Option.bind_eq_some_iff.mp h
    exact .cons hr (ih ht)

/-- Execution that stops at the first step that does not meet a condition. -/
theorem Run.of_exec_if {P : σ → α → Prop} [∀ s a, Decidable (P s a)]
    {s t : σ} {as : List α} (h : exec (fun a s => if P s a then next a s else none) as s = some t) :
    Run (fun s a t => next a s = some t ∧ P s a) s as t :=
  (Run.of_exec h).mono fun _ _ _ hs => (Option.ite_none_right_eq_some.mp hs).symm

/-- What a step leaves that changes one place of a state. -/
lemma update_apply_eq {ι β : Type*} [DecidableEq ι] {f : ι → β} {i j : ι} {a b : β} :
    Function.update f i a j = b ↔ j = i ∧ a = b ∨ j ≠ i ∧ f j = b := by
  grind

end JacobiXv6.Library
