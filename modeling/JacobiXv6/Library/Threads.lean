import JacobiXv6.Library.Run

/-! Threads that share a machine. A program asks for one operation at a time and goes on with
the answer; the operations of different threads are interleaved. To reason about one
thread at a time, each has a resource: an operation demands something of the resource of its
thread and changes it, and an invariant ties the resources of all threads to the machine. -/
namespace JacobiXv6.Library
open Function

/-- A program over the operations `Op` with answers `Ans`. -/
inductive Prog (Op : Type) (Ans : Op → Type) (α : Type)
  | pure (a : α)
  | op (o : Op) (k : Ans o → Prog Op Ans α)

namespace Prog
variable {Op : Type} {Ans : Op → Type} {α β : Type}

def bind : Prog Op Ans α → (α → Prog Op Ans β) → Prog Op Ans β
  | pure a, f => f a
  | op o k, f => op o fun x => (k x).bind f

instance : Monad (Prog Op Ans) where
  pure := pure
  bind := bind

def ask (o : Op) : Prog Op Ans (Ans o) := op o pure

end Prog

/-! ### Rules -/

/-- What an operation demands of the resource of its thread, and what it can leave. -/
structure Rules (Op : Type) (Ans : Op → Type) (R : Type*) where
  pre : R → Op → Prop
  post : R → (o : Op) → Ans o → R → Prop

section
variable {Op : Type} {Ans : Op → Type} {α β : Type} {R : Type*} {L : Rules Op Ans R} {r : R}

/-- From the resource `r` the program never makes a demand that is not met, and ends as `Q`
says. -/
def Wp (L : Rules Op Ans R) : Prog Op Ans α → (α → R → Prop) → R → Prop
  | .pure a, Q, r => Q a r
  | .op o k, Q, r => L.pre r o ∧ ∀ x r', L.post r o x r' → Wp L (k x) Q r'

variable {Q : α → R → Prop}

lemma Wp.pure {a : α} (h : Q a r) : Wp L (Pure.pure a) Q r := h

lemma Wp.ask {o : Op} {Q : Ans o → R → Prop} (hpre : L.pre r o)
    (hpost : ∀ x r', L.post r o x r' → Q x r') : Wp L (Prog.ask o) Q r :=
  ⟨hpre,hpost⟩

lemma Wp.bind {m : Prog Op Ans α} {f : α → Prog Op Ans β} {Q : β → R → Prop}
    (h : Wp L m (fun a => Wp L (f a) Q) r) : Wp L (m >>= f) Q r := by
  induction m generalizing r with
  | pure a => exact h
  | op o k ih => exact ⟨h.1,fun x r' hx => ih x (h.2 x r' hx)⟩

lemma Wp.mono {m : Prog Op Ans α} {Q' : α → R → Prop} (h : Wp L m Q r)
    (hQ : ∀ a r, Q a r → Q' a r) : Wp L m Q' r := by
  induction m generalizing r with
  | pure a => exact hQ a r h
  | op o k ih => exact ⟨h.1,fun x r' hx => ih x (h.2 x r' hx)⟩

end

/-! ### Threads -/

/-- What the machine does with an operation: the thread has to wait, the machine stops with a
message, or it goes on with an answer. -/
inductive Reply (σ α : Type*)
  | blocked
  | panic (message : String)
  | done (s : σ) (x : α)

def Reply.andThen {σ α β : Type*} (r : Reply σ α) (f : σ → α → Reply σ β) : Reply σ β :=
  match r with
  | blocked => blocked
  | panic message => panic message
  | done s x => f s x

lemma Reply.andThen_eq_done {σ α β : Type*} {r : Reply σ α} {f : σ → α → Reply σ β} {s : σ} {y : β}
    (h : r.andThen f = done s y) : ∃ s' x, r = done s' x ∧ f s' x = done s y := by
  cases r with
  | blocked => exact nomatch h
  | panic message => exact nomatch h
  | done s' x => exact ⟨s',x,rfl,h⟩

/-- A thread enters a call, or makes the next step of the one it is in. -/
inductive ThreadAct (C : Type*)
  | call (c : C)
  | tick

/-- The machine and what is left of the call of each thread; between two calls that is
nothing. -/
structure Threads (ι σ : Type*) (Op : Type) (Ans : Op → Type) where
  prog : ι → Prog Op Ans Unit
  state : σ

namespace Threads
variable {ι σ C R : Type*} {Op : Type} {Ans : Op → Type} [DecidableEq ι]

def next (handle : σ → ι → (o : Op) → Reply σ (Ans o)) (code : C → Prog Op Ans Unit)
    (t : Threads ι σ Op Ans) (p : ι) : ThreadAct C → Option (Threads ι σ Op Ans)
  | .call c =>
    match t.prog p with
    | .pure _ => some { t with prog := update t.prog p (code c) }
    | .op _ _ => none
  | .tick =>
    match t.prog p with
    | .pure _ => none
    | .op o k =>
      match handle t.state p o with
      | .done s x => some ⟨update t.prog p (k x),s⟩
      | _ => none

variable {handle : σ → ι → (o : Op) → Reply σ (Ans o)} {code : C → Prog Op Ans Unit}

def Step (handle : σ → ι → (o : Op) → Reply σ (Ans o)) (code : C → Prog Op Ans Unit)
    (t : Threads ι σ Op Ans) (a : ι×ThreadAct C) (t' : Threads ι σ Op Ans) : Prop :=
  t.next handle code a.1 a.2 = some t'

def start (s : σ) : Threads ι σ Op Ans := ⟨fun _ => .pure (),s⟩

variable {t t' : Threads ι σ Op Ans} {a : ι×ThreadAct C}

lemma step_cases (h : Step handle code t a t') :
    (∃ c, t.prog a.1 = .pure () ∧ t' = ⟨update t.prog a.1 (code c),t.state⟩) ∨
    ∃ o k s x, t.prog a.1 = .op o k ∧ handle t.state a.1 o = .done s x ∧
      t' = ⟨update t.prog a.1 (k x),s⟩ := by
  obtain ⟨p,act⟩ := a
  cases act with
  | call c =>
    simp only [Step,next] at h
    split at h
    · rename_i hp
      cases h
      exact .inl ⟨c,hp,rfl⟩
    · exact nomatch h
  | tick =>
    simp only [Step,next] at h
    split at h
    · exact nomatch h
    · rename_i o k hp
      split at h
      · rename_i s x hx
        cases h
        exact .inr ⟨o,k,s,x,hp,hx,rfl⟩
      · exact nomatch h

/-- What holds between any two steps: the resources of the threads are tied to the machine,
and what is left of each call meets every demand and ends with a resource to rest on. -/
def Sound (L : Rules Op Ans R) (rest : R → Prop) (I : σ → (ι → R) → Prop)
    (t : Threads ι σ Op Ans) (res : ι → R) : Prop :=
  I t.state res ∧ ∀ p, Wp L (t.prog p) (fun _ => rest) (res p)

variable {L : Rules Op Ans R} {rest : R → Prop} {I : σ → (ι → R) → Prop}

/-- It is enough to look at one operation at a time, and at each call by itself. -/
theorem Sound.step {res : ι → R}
    (hcode : ∀ c r, rest r → Wp L (code c) (fun _ => rest) r)
    (hop : ∀ s res p o s' x, I s res → L.pre (res p) o → handle s p o = .done s' x →
      ∃ r', L.post (res p) o x r' ∧ I s' (update res p r'))
    (h : Sound L rest I t res) (hs : Step handle code t a t') : ∃ res', Sound L rest I t' res' := by
  rcases step_cases hs with ⟨c,hp,rfl⟩ | ⟨o,k,s,x,hp,hx,rfl⟩
  · refine ⟨res,h.1,fun q => ?_⟩
    change Wp L (update t.prog a.1 (code c) q) _ _
    obtain rfl | hq := eq_or_ne q a.1
    · have hrest := h.2 a.1
      rw [hp] at hrest
      rw [update_self]
      exact hcode c _ hrest
    · rw [update_of_ne hq]
      exact h.2 q
  · have hwp := h.2 a.1
    rw [hp] at hwp
    obtain ⟨r',hpost,hI⟩ := hop _ _ _ _ _ _ h.1 hwp.1 hx
    refine ⟨update res a.1 r',hI,fun q => ?_⟩
    change Wp L (update t.prog a.1 (k x) q) _ _
    obtain rfl | hq := eq_or_ne q a.1
    · rw [update_self,update_self]
      exact hwp.2 x r' hpost
    · rw [update_of_ne hq,update_of_ne hq]
      exact h.2 q

theorem Sound.run {s : σ} {as : List (ι×ThreadAct C)} {res : ι → R}
    (hcode : ∀ c r, rest r → Wp L (code c) (fun _ => rest) r)
    (hop : ∀ s res p o s' x, I s res → L.pre (res p) o → handle s p o = .done s' x →
      ∃ r', L.post (res p) o x r' ∧ I s' (update res p r'))
    (h0 : I s res) (hrest : ∀ p, rest (res p)) (h : Run (Step handle code) (start s) as t) :
    ∃ res, Sound L rest I t res := by
  refine h.invariant (fun _ t => ∃ res, Sound L rest I t res) ?_ ⟨res,h0,hrest⟩
  rintro _ t a t' ⟨res,hsound⟩ hs
  exact hsound.step hcode hop hs

end Threads
end JacobiXv6.Library
