import Mathlib.Tactic

/-! Routines that work on a state one after the other. A routine returns or panics; what it may
panic with and what it ensures when it returns are stated together. -/
namespace JacobiXv6.Library

/-- A routine on a state `σ`; a panic ends it with a message. -/
abbrev Routine (σ α : Type) := StateT σ (Except String) α

variable {σ τ α β : Type} {E : String → Prop} {s : σ} {m : Routine σ α} {f : α → Routine σ β}

lemma bind_of_ok {a : α} {t : σ} (h : m s = .ok (a,t)) :
    (m >>= f) s = f a t := by
  have hbind : (m >>= f) s = (m s).bind fun x => f x.1 x.2 := rfl
  rw [hbind,h]
  rfl

lemma bind_of_error {message : String} (h : m s = .error message) :
    (m >>= f) s = .error message := by
  have hbind : (m >>= f) s = (m s).bind fun x => f x.1 x.2 := rfl
  rw [hbind,h]
  rfl

/-- What a routine panics with. -/
def panicOf (m : Routine σ α) (s : σ) : Option String :=
  match m s with
  | .ok _ => none
  | .error message => some message

lemma eq_error {message : String} (h : panicOf m s = some message) : m s = .error message := by
  unfold panicOf at h
  cases hm : m s with
  | ok x =>
    rw [hm] at h
    cases h
  | error message' =>
    rw [hm] at h
    exact congrArg _ (Option.some.inj h)

lemma exists_ok {p : α×σ → Bool} (h : (m s).toOption.any p = true) :
    ∃ a s', m s = .ok (a,s') ∧ p (a,s') = true := by
  cases hm : m s with
  | ok x =>
    rw [hm] at h
    exact ⟨x.1,x.2,rfl,h⟩
  | error message =>
    rw [hm] at h
    cases h

/-- From `s` the routine returns as `Q` says, or panics with a message of `E`. -/
structure Meets (E : String → Prop) (m : Routine σ α) (s : σ) (Q : α → σ → Prop) : Prop where
  returns : ∀ a s', m s = .ok (a,s') → Q a s'
  panics : ∀ message, m s = .error message → E message

namespace Meets
variable {m : Routine σ α} {Q Q' : α → σ → Prop}

lemma of_eq {a : α} {t : σ} (hm : m s = .ok (a,t)) (h : Q a t) : Meets E m s Q := by
  constructor
  · intro b u hb
    obtain ⟨rfl,rfl⟩ := Prod.mk.inj (Except.ok.inj (hm.symm.trans hb))
    exact h
  · intro message hmessage
    exact nomatch hm.symm.trans hmessage

lemma pure {a : α} (h : Q a s) : Meets E (Pure.pure a) s Q := of_eq rfl h

lemma bind {f : α → Routine σ β} {Q : β → σ → Prop} (h : Meets E m s fun a s' => Meets E (f a) s' Q) :
    Meets E (m >>= f) s Q := by
  have hbind : (m >>= f) s = (m s).bind fun x => f x.1 x.2 := rfl
  cases hm : m s with
  | ok x =>
    obtain ⟨hreturns,hpanics⟩ := h.returns x.1 x.2 hm
    rw [hm] at hbind
    exact ⟨fun b t hb => hreturns b t (hbind.symm.trans hb),
      fun message hmessage => hpanics message (hbind.symm.trans hmessage)⟩
  | error message =>
    rw [hm] at hbind
    refine ⟨fun b t hb => (nomatch hbind.symm.trans hb),fun message' hmessage => ?_⟩
    cases hbind.symm.trans hmessage
    exact h.panics message hm

lemma mono (h : Meets E m s Q) (hQ : ∀ a s, Q a s → Q' a s) : Meets E m s Q' :=
  ⟨fun a s' hm => hQ a s' (h.returns a s' hm),h.panics⟩

lemma also (h : Meets E m s Q) (h' : Meets (fun _ => True) m s Q') :
    Meets E m s fun a s' => Q a s' ∧ Q' a s' :=
  ⟨fun a s' hm => ⟨h.returns a s' hm,h'.returns a s' hm⟩,h.panics⟩

lemma any (h : ∀ a s', Q a s') : Meets (fun _ => True) m s Q :=
  ⟨fun a s' _ => h a s',fun _ _ => trivial⟩

lemma exists_eq (h : Meets (fun _ => False) m s Q) : ∃ a s', m s = .ok (a,s') ∧ Q a s' := by
  cases hm : m s with
  | ok x => exact ⟨x.1,x.2,rfl,h.returns x.1 x.2 hm⟩
  | error message => exact absurd hm fun hm => h.panics message hm

lemma eq_error {message : String} (h : Meets (· = message) m s fun _ _ => False) :
    m s = .error message := by
  cases hm : m s with
  | ok x => exact (h.returns x.1 x.2 hm).elim
  | error message' => rw [h.panics message' hm]

/-- A routine that may panic unless `P` and returns only with `P`. -/
lemma returns_iff {P : Prop} (h : ∀ E, (∀ message, E message) ∨ P → Meets E m s fun _ _ => P) :
    (∃ x, m s = .ok x) ↔ P := by
  constructor
  · rintro ⟨x,hm⟩
    exact (h (fun _ => True) (.inl fun _ => trivial)).returns x.1 x.2 hm
  · intro hP
    obtain ⟨a,s',hm,-⟩ := (h (fun _ => False) (.inr hP)).exists_eq
    exact ⟨_,hm⟩

lemma throw {message : String} (h : E message) :
    Meets E (MonadExcept.throw message : Routine σ α) s Q := by
  refine ⟨fun a s' hm => (nomatch hm),fun message' hm => ?_⟩
  cases hm
  exact h

lemma get {Q : σ → σ → Prop} (h : Q s s) : Meets E (MonadState.get : Routine σ σ) s Q := of_eq rfl h

lemma update {f : σ → σ} {Q : Unit → σ → Prop} (h : Q () (f s)) :
    Meets E (modify f : Routine σ Unit) s Q := of_eq rfl h

end Meets
end JacobiXv6.Library
