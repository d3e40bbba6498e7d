import JacobiXv6.Library.Holders
import JacobiXv6.Library.Run

/-! Monitors: code that runs with a lock, sleeps on a channel and wakes others. Going to sleep
hands the lock over to a second one, the lock of the table of processes, under which all
wakeups happen. Which channels may have sleepers is followed statement by statement; when
the lock is free, those that sleep have a reason to. -/
namespace JacobiXv6.Library
open Function

/-- What a process does next while it has the lock of the monitor. -/
inductive Stmt (σ χ L : Type*)
  | go (s : σ) (l : L)
  | wakeup (chan : χ) (l : L)
  | sleep (chan : χ) (l : L)
  | release (l : L)

namespace Stmt
variable {σ χ L : Type*}

def pc : Stmt σ χ L → L
  | go _ l | wakeup _ l | sleep _ l | release l => l

def shared (s : σ) : Stmt σ χ L → σ
  | go s' _ => s'
  | _ => s

end Stmt

/-- Where a process is: `enter` waits for the lock, `hold` has it. `waking` waits for the table and
`rousing` has it as well. The way to sleep is `falling`, which waits for the table, `handing`,
which has both, `drowsy`, which has the table only, `switching`, where it is marked as
sleeping, and `asleep`; the way back is `awake` and `resumed`, which has the table. -/
inductive Phase (χ L : Type*)
  | out (l : L)
  | enter (l : L)
  | hold (l : L)
  | waking (chan : χ) (l : L)
  | rousing (chan : χ) (l : L)
  | falling (chan : χ) (l : L)
  | handing (chan : χ) (l : L)
  | drowsy (chan : χ) (l : L)
  | switching (chan : χ) (l : L)
  | asleep (chan : χ) (l : L)
  | awake (chan : χ) (l : L)
  | resumed (l : L)

namespace Phase
variable {χ L : Type*}

def holdsLock : Phase χ L → Bool
  | hold _ | waking _ _ | rousing _ _ | falling _ _ | handing _ _ => true
  | _ => false

def holdsTable : Phase χ L → Bool
  | rousing _ _ | handing _ _ | drowsy _ _ | switching _ _ | resumed _ => true
  | _ => false

def pc : Phase χ L → L
  | out l | enter l | hold l | waking _ l | rousing _ l | falling _ l | handing _ l | drowsy _ l
  | switching _ l | asleep _ l | awake _ l | resumed l => l

/-- The process sleeps, or has given the lock back in order to. -/
def bed : Phase χ L → Option χ
  | drowsy c _ | switching c _ | asleep c _ => some c
  | _ => none

/-- The process takes the lock next, or will when it is woken. -/
def returning : Phase χ L → Bool
  | enter _ | falling _ _ | handing _ _ | drowsy _ _ | switching _ _ | asleep _ _ | awake _ _
  | resumed _ => true
  | _ => false

/-- What is said about the next statement, if the process is at one. -/
def Holding (Q : L → Prop) : Phase χ L → Prop
  | hold l => Q l
  | _ => True

instance {Q : L → Prop} [DecidablePred Q] : ∀ ph : Phase χ L, Decidable (ph.Holding Q)
  | hold l => inferInstanceAs (Decidable (Q l))
  | out _ | enter _ | waking _ _ | rousing _ _ | falling _ _ | handing _ _ | drowsy _ _ | switching _ _
  | asleep _ _ | awake _ _ | resumed _ => isTrue trivial

/-- `kill` and other wakeups make a sleeper runnable. -/
def rouse : Phase χ L → Phase χ L
  | asleep c l => awake c l
  | ph => ph

/-- `wakeup1(chan)` for one process. -/
def wake [DecidableEq χ] (chan : χ) : Phase χ L → Phase χ L
  | asleep c l => if c = chan then awake c l else asleep c l
  | ph => ph

lemma rouse_eq {β : Type*} (g : Phase χ L → β) (hg : ∀ c l, g (.awake c l) = g (.asleep c l))
    (ph : Phase χ L) : g ph.rouse = g ph := by
  cases ph with
  | asleep c l => exact hg c l
  | _ => rfl

lemma wake_eq [DecidableEq χ] {β : Type*} (g : Phase χ L → β)
    (hg : ∀ c l, g (.awake c l) = g (.asleep c l)) (c : χ) (ph : Phase χ L) : g (ph.wake c) = g ph := by
  cases ph with
  | asleep d l =>
    simp only [wake]
    split_ifs
    exacts [hg d l,rfl]
  | _ => rfl

end Phase

/-! ### The two locks -/

/-- Both locks are held by those that have taken them. -/
structure Locked {ι χ L : Type*} (phase : ι → Phase χ L) (lock table : Option ι) : Prop where
  lock : Owns (Phase.holdsLock ∘ phase) lock
  table : Owns (Phase.holdsTable ∘ phase) table

namespace Locked
variable {ι χ L : Type*} {phase : ι → Phase χ L} {lock table : Option ι} {ph : Phase χ L} {p : ι}

lemma wakeup1 [DecidableEq χ] (h : Locked phase lock table) (c : χ) :
    Locked (fun q => (phase q).wake c) lock table := by
  constructor
  · have hsame : Phase.holdsLock ∘ (fun q => (phase q).wake c) = Phase.holdsLock ∘ phase := by
      funext q
      exact Phase.wake_eq Phase.holdsLock (fun _ _ => rfl) c (phase q)
    rw [hsame]
    exact h.lock
  · have hsame : Phase.holdsTable ∘ (fun q => (phase q).wake c) = Phase.holdsTable ∘ phase := by
      funext q
      exact Phase.wake_eq Phase.holdsTable (fun _ _ => rfl) c (phase q)
    rw [hsame]
    exact h.table

variable [DecidableEq ι]

lemma keep (h : Locked phase lock table) (hl : ph.holdsLock = (phase p).holdsLock)
    (ht : ph.holdsTable = (phase p).holdsTable) : Locked (update phase p ph) lock table := by
  constructor
  · rw [comp_update]
    exact h.lock.keep hl
  · rw [comp_update]
    exact h.table.keep ht

lemma acquire (h : Locked phase none table) (hl : ph.holdsLock = true)
    (ht : ph.holdsTable = (phase p).holdsTable) : Locked (update phase p ph) (some p) table := by
  constructor
  · rw [comp_update,hl]
    exact h.lock.acquire
  · rw [comp_update]
    exact h.table.keep ht

lemma release (h : Locked phase lock table) (hp : (phase p).holdsLock = true)
    (hl : ph.holdsLock = false)
    (ht : ph.holdsTable = (phase p).holdsTable) : Locked (update phase p ph) none table := by
  constructor
  · rw [comp_update,hl]
    exact h.lock.release hp
  · rw [comp_update]
    exact h.table.keep ht

lemma acquireTable (h : Locked phase lock none) (hl : ph.holdsLock = (phase p).holdsLock)
    (ht : ph.holdsTable = true) : Locked (update phase p ph) lock (some p) := by
  constructor
  · rw [comp_update]
    exact h.lock.keep hl
  · rw [comp_update,ht]
    exact h.table.acquire

lemma releaseTable (h : Locked phase lock table) (hp : (phase p).holdsTable = true)
    (hl : ph.holdsLock = (phase p).holdsLock) (ht : ph.holdsTable = false) :
    Locked (update phase p ph) lock none := by
  constructor
  · rw [comp_update]
    exact h.lock.keep hl
  · rw [comp_update,ht]
    exact h.table.release hp

lemma rouse (h : Locked phase lock table) : Locked (update phase p (phase p).rouse) lock table :=
  h.keep (Phase.rouse_eq Phase.holdsLock (fun _ _ => rfl) _)
    (Phase.rouse_eq Phase.holdsTable (fun _ _ => rfl) _)

end Locked

/-- The code of a monitor: how a process enters it from outside, what it does with the lock,
where its first argument is the process and the second whether it was killed, and what can happen
to the shared state without the lock. -/
structure Monitor (ι σ χ L A B : Type*) where
  call : ι → A → L → σ → Option (σ×L)
  code : ι → Bool → L → σ → Stmt σ χ L
  env : B → σ → Option σ

/-- The processes and what they share. -/
structure Shared (ι σ χ L : Type*) where
  shared : σ
  phase : ι → Phase χ L
  killed : ι → Bool
  lock : Option ι
  table : Option ι

inductive MonAct (A B : Type*)
  | call (a : A)
  | env (b : B)
  | tick
  | kill
  | poke

namespace Shared
variable {ι σ χ L A B : Type*} [DecidableEq ι] [DecidableEq χ]

def goto (t : Shared ι σ χ L) (p : ι) (ph : Phase χ L) : Shared ι σ χ L :=
  { t with phase := update t.phase p ph }

def wakeup1 (t : Shared ι σ χ L) (chan : χ) : Shared ι σ χ L :=
  { t with phase := fun q => (t.phase q).wake chan }

/-- The next statement of a process that has the lock. -/
def perform (t : Shared ι σ χ L) (p : ι) : Stmt σ χ L → Shared ι σ χ L
  | .go s l => { t.goto p (.hold l) with shared := s }
  | .wakeup c l => t.goto p (.waking c l)
  | .sleep c l => t.goto p (.falling c l)
  | .release l => { t.goto p (.out l) with lock := none }

/-- One step of process `p`. `kill` and `poke` (a wakeup from elsewhere) take the table for
themselves. -/
def next (M : Monitor ι σ χ L A B) (t : Shared ι σ χ L) (p : ι) : MonAct A B → Option (Shared ι σ χ L)
  | .call a =>
    match t.phase p with
    | .out l => (M.call p a l t.shared).map fun x => { t.goto p (.enter x.2) with shared := x.1 }
    | _ => none
  | .env b => (M.env b t.shared).map fun s => { t with shared := s }
  | .kill =>
    if t.table = none then
      some { t.goto p (t.phase p).rouse with killed := update t.killed p true }
    else none
  | .poke => if t.table = none then some (t.goto p (t.phase p).rouse) else none
  | .tick =>
    match t.phase p with
    | .out _ => none
    | .enter l => if t.lock = none then some { t.goto p (.hold l) with lock := some p } else none
    | .hold l => some (t.perform p (M.code p (t.killed p) l t.shared))
    | .waking c l => if t.table = none then some { t.goto p (.rousing c l) with table := some p }
      else none
    | .rousing c l => some { (t.wakeup1 c).goto p (.hold l) with table := none }
    | .falling c l => if t.table = none then some { t.goto p (.handing c l) with table := some p }
      else none
    | .handing c l => some { t.goto p (.drowsy c l) with lock := none }
    | .drowsy c l => some (t.goto p (.switching c l))
    | .switching c l => some { t.goto p (.asleep c l) with table := none }
    | .asleep _ _ => none
    | .awake _ l => if t.table = none then some { t.goto p (.resumed l) with table := some p } else none
    | .resumed l => some { t.goto p (.enter l) with table := none }

def Step (M : Monitor ι σ χ L A B) (t : Shared ι σ χ L) (a : ι×MonAct A B)
    (t' : Shared ι σ χ L) : Prop :=
  t.next M a.1 a.2 = some t'

/-- The statements that `P` allows; whatever else happens is allowed. -/
def Allowed (P : ι → Bool → L → σ → Prop) (t : Shared ι σ χ L) (p : ι) : MonAct A B → Prop
  | .tick => (t.phase p).Holding fun l => P p (t.killed p) l t.shared
  | _ => True

instance {P : ι → Bool → L → σ → Prop} [∀ p killed l s, Decidable (P p killed l s)]
    (t : Shared ι σ χ L) (p : ι) :
    ∀ a : MonAct A B, Decidable (t.Allowed P p a)
  | .tick => inferInstanceAs (Decidable ((t.phase p).Holding fun l => P p (t.killed p) l t.shared))
  | .call _ | .env _ | .kill | .poke => isTrue trivial

/-- All processes are outside and both locks are free. -/
def start (s : σ) (l : ι → L) (killed : ι → Bool) : Shared ι σ χ L :=
  ⟨s,fun p => .out (l p),killed,none,none⟩

/-- What one step can do, with the guards that it has passed. -/
inductive Moves (M : Monitor ι σ χ L A B) (t : Shared ι σ χ L) (p : ι) :
    MonAct A B → Shared ι σ χ L → Prop
  | call (a : A) (l l' : L) (s : σ) (hph : t.phase p = .out l)
    (hcall : M.call p a l t.shared = some (s,l')) :
      Moves M t p (.call a) { t.goto p (.enter l') with shared := s }
  | env (b : B) (s : σ) (henv : M.env b t.shared = some s) : Moves M t p (.env b) { t with shared := s }
  | kill (htable : t.table = none) :
      Moves M t p .kill { t.goto p (t.phase p).rouse with killed := update t.killed p true }
  | poke (htable : t.table = none) : Moves M t p .poke (t.goto p (t.phase p).rouse)
  | enter (l : L) (hph : t.phase p = .enter l) (hlock : t.lock = none) :
      Moves M t p .tick { t.goto p (.hold l) with lock := some p }
  | perform (l : L) (hph : t.phase p = .hold l) :
      Moves M t p .tick (t.perform p (M.code p (t.killed p) l t.shared))
  | waking (c : χ) (l : L) (hph : t.phase p = .waking c l) (htable : t.table = none) :
      Moves M t p .tick { t.goto p (.rousing c l) with table := some p }
  | rousing (c : χ) (l : L) (hph : t.phase p = .rousing c l) :
      Moves M t p .tick { (t.wakeup1 c).goto p (.hold l) with table := none }
  | falling (c : χ) (l : L) (hph : t.phase p = .falling c l) (htable : t.table = none) :
      Moves M t p .tick { t.goto p (.handing c l) with table := some p }
  | handing (c : χ) (l : L) (hph : t.phase p = .handing c l) :
      Moves M t p .tick { t.goto p (.drowsy c l) with lock := none }
  | drowsy (c : χ) (l : L) (hph : t.phase p = .drowsy c l) :
    Moves M t p .tick (t.goto p (.switching c l))
  | switching (c : χ) (l : L) (hph : t.phase p = .switching c l) :
      Moves M t p .tick { t.goto p (.asleep c l) with table := none }
  | awake (c : χ) (l : L) (hph : t.phase p = .awake c l) (htable : t.table = none) :
      Moves M t p .tick { t.goto p (.resumed l) with table := some p }
  | resumed (l : L) (hph : t.phase p = .resumed l) :
      Moves M t p .tick { t.goto p (.enter l) with table := none }

variable {M : Monitor ι σ χ L A B} {t t' : Shared ι σ χ L} {p q : ι} {a : MonAct A B}

lemma next_of_hold {l : L} (hp : t.phase p = .hold l) :
    t.next M p .tick = some (t.perform p (M.code p (t.killed p) l t.shared)) := by
  rw [next,hp]

lemma moves_of_next (h : t.next M p a = some t') : Moves M t p a t' := by
  cases a with
  | call a =>
    simp only [next] at h
    split at h
    · rename_i l hph
      obtain ⟨⟨s,l'⟩,hcall,rfl⟩ := Option.map_eq_some_iff.mp h
      exact .call a l l' s hph hcall
    · exact nomatch h
  | env b =>
    obtain ⟨s,henv,rfl⟩ := Option.map_eq_some_iff.mp h
    exact .env b s henv
  | kill =>
    obtain ⟨htable,⟨⟩⟩ := Option.ite_none_right_eq_some.mp h
    exact .kill htable
  | poke =>
    obtain ⟨htable,⟨⟩⟩ := Option.ite_none_right_eq_some.mp h
    exact .poke htable
  | tick =>
    simp only [next] at h
    split at h
    · exact nomatch h
    · rename_i l hph
      obtain ⟨hlock,⟨⟩⟩ := Option.ite_none_right_eq_some.mp h
      exact .enter l hph hlock
    · rename_i l hph
      cases h
      exact .perform l hph
    · rename_i c l hph
      obtain ⟨htable,⟨⟩⟩ := Option.ite_none_right_eq_some.mp h
      exact .waking c l hph htable
    · rename_i c l hph
      cases h
      exact .rousing c l hph
    · rename_i c l hph
      obtain ⟨htable,⟨⟩⟩ := Option.ite_none_right_eq_some.mp h
      exact .falling c l hph htable
    · rename_i c l hph
      cases h
      exact .handing c l hph
    · rename_i c l hph
      cases h
      exact .drowsy c l hph
    · rename_i c l hph
      cases h
      exact .switching c l hph
    · exact nomatch h
    · rename_i c l hph
      obtain ⟨htable,⟨⟩⟩ := Option.ite_none_right_eq_some.mp h
      exact .awake c l hph htable
    · rename_i l hph
      cases h
      exact .resumed l hph

lemma locked_step (h : Locked t.phase t.lock t.table) (hm : Moves M t p a t') :
    Locked t'.phase t'.lock t'.table := by
  cases hm with
  | call a l l' s hph hcall | drowsy c l hph => exact h.keep (by rw [hph]; rfl) (by rw [hph]; rfl)
  | env b s henv => exact h
  | kill htable => exact h.rouse
  | poke htable => exact h.rouse
  | enter l hph hlock =>
    rw [hlock] at h
    exact h.acquire rfl (by rw [hph]; rfl)
  | perform l hph =>
    cases M.code p (t.killed p) l t.shared with
    | go s l' | wakeup c l' | sleep c l' => exact h.keep (by rw [hph]; rfl) (by rw [hph]; rfl)
    | release l' => exact h.release (by rw [hph]; rfl) rfl (by rw [hph]; rfl)
  | waking c l hph htable | falling c l hph htable | awake c l hph htable =>
    rw [htable] at h
    exact h.acquireTable (by rw [hph]; rfl) rfl
  | rousing c l hph =>
    have hp : (t.phase p).wake c = .rousing c l := by rw [hph]; rfl
    exact (h.wakeup1 c).releaseTable (by rw [hp]; rfl) (by rw [hp]; rfl) rfl
  | handing c l hph => exact h.release (by rw [hph]; rfl) rfl (by rw [hph]; rfl)
  | switching c l hph | resumed l hph =>
    exact h.releaseTable (by rw [hph]; rfl) (by rw [hph]; rfl) rfl

def pcs (t : Shared ι σ χ L) : ι → L := Phase.pc ∘ t.phase

/-- At most the channels of `S` have somebody in bed. -/
def Covers (t : Shared ι σ χ L) (S : χ → Prop) : Prop := ∀ q c, (t.phase q).bed = some c → S c

variable {ph : Phase χ L}

omit [DecidableEq χ] in
lemma pcs_update {phase : ι → Phase χ L} (hph : ph.pc = (phase p).pc) :
    Phase.pc ∘ update phase p ph = Phase.pc ∘ phase := by
  rw [comp_update,hph]
  exact update_eq_self p (Phase.pc ∘ phase)

omit [DecidableEq ι] in
lemma pcs_wakeup1 (t : Shared ι σ χ L) (c : χ) : (t.wakeup1 c).pcs = t.pcs := by
  funext q
  exact Phase.wake_eq Phase.pc (fun _ _ => rfl) c (t.phase q)

omit [DecidableEq ι] [DecidableEq χ] in
lemma pcs_of (hph : t.phase p = ph) : t.pcs p = ph.pc := by
  rw [pcs,comp_apply,hph]

omit [DecidableEq χ] in
lemma Covers.move {S : χ → Prop} (h : t.Covers S) (hphase : t'.phase = update t.phase p ph)
    (hbed : ∀ c, ph.bed = some c → S c) : t'.Covers S := by
  intro q c hq
  rw [hphase] at hq
  obtain rfl | hne := eq_or_ne q p
  · rw [update_self] at hq
    exact hbed c hq
  · rw [update_of_ne hne] at hq
    exact h q c hq

omit [DecidableEq ι] in
/-- After `wakeup1(c)` nobody is left in bed for `c`: who is not asleep yet has the table. -/
lemma Covers.wakeup1 {S : χ → Prop} {c : χ} {l : L} (h : t.Covers S)
    (hlocked : Locked t.phase t.lock t.table)
    (hp : t.phase p = .rousing c l) : (t.wakeup1 c).Covers fun d => S d ∧ d ≠ c := by
  have htable : ∀ r, (t.phase r).holdsTable = true → r = p := fun r hr =>
    hlocked.table.unique hr (by rw [comp_apply,hp]; rfl)
  intro q d hq
  change ((t.phase q).wake c).bed = some d at hq
  cases hph : t.phase q with
  | asleep e l' =>
    rw [hph] at hq
    simp only [Phase.wake] at hq
    split_ifs at hq with he
    · exact nomatch hq
    · cases hq
      exact ⟨h q _ (by rw [hph]; rfl),he⟩
  | drowsy e l' | switching e l' =>
    obtain rfl := htable q (by rw [hph]; rfl)
    exact nomatch hph.symm.trans hp
  | _ =>
    rw [hph] at hq
    exact nomatch hq

end Shared

/-! ### Invariants of a monitor -/

/-- An invariant of a monitor: what holds when the lock is free, and what its holder relies on,
about where the processes are, the channels that may have sleepers and the shared state. `entry`
tells where the code takes the lock. -/
structure Regime (ι σ χ L : Type*) where
  entry : L → Prop
  free : (ι → L) → (χ → Prop) → σ → Prop
  held : ι → (ι → L) → (χ → Prop) → σ → Prop

namespace Regime
variable {ι σ χ L A B : Type*} [DecidableEq ι] (R : Regime ι σ χ L)

def After (p : ι) (f : ι → L) (S : χ → Prop) (s : σ) : Stmt σ χ L → Prop
  | .go s' l => R.held p (update f p l) S s'
  | .wakeup d l => R.held p (update f p l) (fun c => S c ∧ c ≠ d) s
  | .sleep d l => R.entry l ∧ R.free (update f p l) (fun c => S c ∨ c = d) s
  | .release l => R.free (update f p l) S s

/-- The rules for a whole monitor, of which only the statements that `P` allows are executed. -/
structure Keeper (M : Monitor ι σ χ L A B) (P : ι → Bool → L → σ → Prop) : Prop where
  call : ∀ f s p a s' l', M.call p a (f p) s = some (s',l') → R.entry l' ∧
    (∀ S, R.free f S s → R.free (update f p l') S s') ∧
    ∀ q S, q ≠ p → R.held q f S s → R.held q (update f p l') S s'
  env : ∀ f s b s', M.env b s = some s' →
    (∀ S, R.free f S s → R.free f S s') ∧ ∀ q S, R.held q f S s → R.held q f S s'
  enter : ∀ f s p S, R.entry (f p) → R.free f S s → R.held p f S s
  code : ∀ f s p killed S, P p killed (f p) s → R.held p f S s →
    R.After p f S s (M.code p killed (f p) s)

/-- What is known while `p` has the lock and is in some phase. -/
def Relies (p : ι) (f : ι → L) (S : χ → Prop) (s : σ) : Phase χ L → Prop
  | .hold _ => R.held p f S s
  | .waking d _ | .rousing d _ => R.held p f (fun c => S c ∧ c ≠ d) s
  | .falling d _ | .handing d _ => R.free f (fun c => S c ∨ c = d) s
  | _ => False

structure Holds (t : Shared ι σ χ L) : Prop where
  locked : Locked t.phase t.lock t.table
  entry : ∀ q, (t.phase q).returning = true → R.entry (t.phase q).pc
  free : t.lock = none → ∃ S, t.Covers S ∧ R.free t.pcs S t.shared
  held : ∀ p, t.lock = some p → ∃ S, t.Covers S ∧ R.Relies p t.pcs S t.shared (t.phase p)

variable {R}

omit [DecidableEq ι] in
lemma Relies.mono {p : ι} {f f' : ι → L} {s s' : σ} (hfree : ∀ S, R.free f S s → R.free f' S s')
    (hheld : ∀ S, R.held p f S s → R.held p f' S s') {S : χ → Prop} {ph : Phase χ L}
    (h : R.Relies p f S s ph) :
    R.Relies p f' S s' ph := by
  cases ph with
  | hold l | waking d l | rousing d l => exact hheld _ h
  | falling d l => exact hfree _ h
  | handing d l => exact hfree _ h
  | _ => exact h

namespace Holds
variable {M : Monitor ι σ χ L A B} {P : ι → Bool → L → σ → Prop} {t t' : Shared ι σ χ L} {p : ι}
  {ph : Phase χ L}
  {a : MonAct A B}

section
omit [DecidableEq ι]

lemma start {s : σ} {l : ι → L} {killed : ι → Bool} (h : R.free l (fun _ => False) s) :
    R.Holds (.start s l killed) :=
  ⟨⟨fun _ => ⟨nofun,nofun⟩,fun _ => ⟨nofun,nofun⟩⟩,nofun,fun _ => ⟨_,nofun,h⟩,nofun⟩

lemma entry_of {l : L} (h : R.Holds t) (hph : t.phase p = ph) (hret : ph.returning = true)
    (hl : ph.pc = l) :
    R.entry l := by
  have he := h.entry p (by rw [hph]; exact hret)
  rwa [hph,hl] at he

lemma relies_of (h : R.Holds t) (hph : t.phase p = ph) (hl : ph.holdsLock = true) :
    t.lock = some p ∧ ∃ S, t.Covers S ∧ R.Relies p t.pcs S t.shared ph := by
  have hlock : t.lock = some p := h.locked.lock.eq_some (by rw [comp_apply,hph]; exact hl)
  obtain ⟨S,hS,hrelies⟩ := h.held p hlock
  rw [hph] at hrelies
  exact ⟨hlock,S,hS,hrelies⟩

end

lemma entry_update (h : R.Holds t) (hphase : t'.phase = update t.phase p ph)
    (hentry : ph.returning = true → R.entry ph.pc) (q : ι) (hq : (t'.phase q).returning = true) :
    R.entry (t'.phase q).pc := by
  rw [hphase] at hq ⊢
  obtain rfl | hne := eq_or_ne q p
  · rw [update_self] at hq ⊢
    exact hentry hq
  · rw [update_of_ne hne] at hq ⊢
    exact h.entry q hq

section

variable (h : R.Holds t) (hlocked : Locked t'.phase t'.lock t'.table)
include h hlocked

lemma move (hlock : t'.lock = t.lock)
    (hphase : t'.phase = update t.phase p ph) (hentry : ph.returning = true → R.entry ph.pc)
    (hbed : ∀ c, ph.bed = some c → (t.phase p).bed = some c) (hholder : (t.phase p).holdsLock = false)
    (hfree : ∀ S, R.free t.pcs S t.shared → R.free t'.pcs S t'.shared)
    (hheld : ∀ q S, q ≠ p → R.held q t.pcs S t.shared → R.held q t'.pcs S t'.shared) : R.Holds t' := by
  refine ⟨hlocked,h.entry_update hphase hentry,?_,?_⟩
  · intro hnone
    obtain ⟨S,hS,hf⟩ := h.free (hlock.symm.trans hnone)
    exact ⟨S,hS.move hphase fun c hc => hS p c (hbed c hc),hfree S hf⟩
  · intro q hq
    obtain ⟨S,hS,hrelies⟩ := h.held q (hlock.symm.trans hq)
    have hne : q ≠ p := by
      rintro rfl
      exact nomatch hholder.symm.trans ((h.locked.lock q).mpr (hlock.symm.trans hq))
    refine ⟨S,hS.move hphase fun c hc => hS p c (hbed c hc),?_⟩
    rw [hphase,update_of_ne hne]
    exact hrelies.mono hfree fun S => hheld q S hne

lemma stay (hlock : t'.lock = t.lock)
    (hphase : t'.phase = update t.phase p ph) (hshared : t'.shared = t.shared)
    (hpc : ph.pc = (t.phase p).pc) (hret : ph.returning = true → (t.phase p).returning = true)
    (hbed : ∀ c, ph.bed = some c → (t.phase p).bed = some c) (hholder : (t.phase p).holdsLock = false) :
    R.Holds t' := by
  have hpcs : t'.pcs = t.pcs := by
    rw [Shared.pcs,hphase,Shared.pcs_update hpc]
    rfl
  refine h.move hlocked hlock hphase ?_ hbed hholder ?_ ?_
  · intro hr
    rw [hpc]
    exact h.entry p (hret hr)
  · intro S hf
    rwa [hpcs,hshared]
  · intro q S _ hq
    rwa [hpcs,hshared]

lemma keep {S : χ → Prop} (hlock : t'.lock = some p)
    (hphase : t'.phase = update t.phase p ph) (hbed : ph.bed = none)
    (hentry : ph.returning = true → R.entry ph.pc) (hS : t.Covers S)
    (hrelies : R.Relies p t'.pcs S t'.shared ph) :
    R.Holds t' := by
  refine ⟨hlocked,h.entry_update hphase hentry,fun hnone => (nomatch hlock.symm.trans hnone),?_⟩
  intro q hq
  obtain rfl := Option.some.inj (hq.symm.trans hlock)
  refine ⟨S,hS.move hphase fun c hc => (nomatch hbed.symm.trans hc),?_⟩
  rwa [hphase,update_self]

lemma leave {S : χ → Prop} (hlock : t'.lock = none)
    (hphase : t'.phase = update t.phase p ph) (hentry : ph.returning = true → R.entry ph.pc)
    (hS : t'.Covers S) (hfree : R.free t'.pcs S t'.shared) : R.Holds t' :=
  ⟨hlocked,h.entry_update hphase hentry,fun _ => ⟨S,hS,hfree⟩,fun _ hq => (nomatch hq.symm.trans hlock)⟩

end

omit [DecidableEq ι] in
lemma same (h : R.Holds t) (hlocked : Locked t'.phase t'.lock t'.table) (hlock : t'.lock = t.lock)
    (hphase : t'.phase = t.phase) (hshared : t'.shared = t.shared) : R.Holds t' := by
  have hpcs : t'.pcs = t.pcs := congrArg (Phase.pc ∘ ·) hphase
  have hcovers : ∀ S, t.Covers S → t'.Covers S := by
    intro S hS q c hq
    rw [hphase] at hq
    exact hS q c hq
  refine ⟨hlocked,?_,?_,?_⟩
  · rw [hphase]
    exact h.entry
  · intro hnone
    obtain ⟨S,hS,hf⟩ := h.free (hlock.symm.trans hnone)
    exact ⟨S,hcovers S hS,by rwa [hpcs,hshared]⟩
  · intro q hq
    obtain ⟨S,hS,hrelies⟩ := h.held q (hlock.symm.trans hq)
    exact ⟨S,hcovers S hS,by rwa [hpcs,hshared,hphase]⟩

lemma rouse (h : R.Holds t) (hlocked : Locked t'.phase t'.lock t'.table) (hlock : t'.lock = t.lock)
    (hshared : t'.shared = t.shared) (hphase : t'.phase = update t.phase p (t.phase p).rouse) :
    R.Holds t' := by
  cases hph : t.phase p with
  | asleep c l =>
    rw [hph] at hphase
    refine h.stay hlocked hlock hphase hshared (by rw [hph]; rfl) (fun _ => by rw [hph]; rfl) nofun
      (by rw [hph]; rfl)
  | _ =>
    refine h.same hlocked hlock ?_ hshared
    rw [hphase]
    exact update_eq_self_iff.mpr (by rw [hph]; rfl)

lemma perform (hR : R.Keeper M P) (h : R.Holds t) {l : L} (hph : t.phase p = .hold l)
    (hP : P p (t.killed p) l t.shared)
    (hlocked : Locked (t.perform p (M.code p (t.killed p) l t.shared)).phase
      (t.perform p (M.code p (t.killed p) l t.shared)).lock
      (t.perform p (M.code p (t.killed p) l t.shared)).table) :
    R.Holds (t.perform p (M.code p (t.killed p) l t.shared)) := by
  obtain ⟨hlock,S,hS,hheld⟩ := h.relies_of hph rfl
  have hpc : t.pcs p = l := Shared.pcs_of hph
  have hafter := hR.code t.pcs t.shared p (t.killed p) S (by rwa [hpc]) hheld
  rw [hpc] at hafter
  have hpcs : ∀ ph : Phase χ L, Phase.pc ∘ update t.phase p ph = update t.pcs p ph.pc :=
    fun ph => comp_update _ _ _ _
  cases hcode : M.code p (t.killed p) l t.shared with
  | go s l' =>
    rw [hcode] at hafter hlocked
    refine h.keep hlocked hlock rfl rfl nofun hS ?_
    change R.held p (Phase.pc ∘ update t.phase p (.hold l')) S s
    rw [hpcs]
    exact hafter
  | wakeup d l' =>
    rw [hcode] at hafter hlocked
    refine h.keep hlocked hlock rfl rfl nofun hS ?_
    change R.held p (Phase.pc ∘ update t.phase p (.waking d l')) _ t.shared
    rw [hpcs]
    exact hafter
  | sleep d l' =>
    rw [hcode] at hafter hlocked
    refine h.keep hlocked hlock rfl rfl (fun _ => hafter.1) hS ?_
    change R.free (Phase.pc ∘ update t.phase p (.falling d l')) _ t.shared
    rw [hpcs]
    exact hafter.2
  | release l' =>
    rw [hcode] at hafter hlocked
    refine h.leave hlocked rfl rfl nofun (hS.move rfl nofun) ?_
    change R.free (Phase.pc ∘ update t.phase p (.out l')) S t.shared
    rw [hpcs]
    exact hafter

lemma env (hR : R.Keeper M P) (h : R.Holds t) {b : B} {s : σ} (henv : M.env b t.shared = some s) :
    R.Holds { t with shared := s } := by
  obtain ⟨hfree,hheld⟩ := hR.env t.pcs t.shared b s henv
  refine ⟨h.locked,h.entry,?_,?_⟩
  · intro hnone
    obtain ⟨S,hS,hf⟩ := h.free hnone
    exact ⟨S,hS,hfree S hf⟩
  · intro q hq
    obtain ⟨S,hS,hrelies⟩ := h.held q hq
    exact ⟨S,hS,hrelies.mono hfree (hheld q)⟩

variable [DecidableEq χ]

lemma wakeup1 {c : χ} {l : L} (h : R.Holds t) (hph : t.phase p = .rousing c l)
    (hlocked : Locked (update (t.wakeup1 c).phase p (.hold l)) t.lock none) :
    R.Holds { (t.wakeup1 c).goto p (.hold l) with table := none } := by
  obtain ⟨hlock,S,hS,hrelies⟩ := h.relies_of hph rfl
  have hp : (t.phase p).wake c = .rousing c l := by rw [hph]; rfl
  have hpcs : Phase.pc ∘ update (t.wakeup1 c).phase p (.hold l) = t.pcs := by
    rw [Shared.pcs_update]
    · exact t.pcs_wakeup1 c
    · change l = ((t.phase p).wake c).pc
      rw [hp]
      rfl
  refine ⟨hlocked,?_,fun hnone => (nomatch hlock.symm.trans hnone),?_⟩
  · intro q hq
    change (update (t.wakeup1 c).phase p (.hold l) q).returning = true at hq
    change R.entry ((Phase.pc ∘ update (t.wakeup1 c).phase p (.hold l)) q)
    rw [hpcs]
    obtain rfl | hne := eq_or_ne q p
    · rw [update_self] at hq
      exact nomatch hq
    · rw [update_of_ne hne] at hq
      change ((t.phase q).wake c).returning = true at hq
      rw [Phase.wake_eq Phase.returning fun _ _ => rfl] at hq
      exact h.entry q hq
  · intro q hq
    obtain rfl := Option.some.inj (hq.symm.trans hlock)
    refine ⟨_,(hS.wakeup1 h.locked hph).move rfl nofun,?_⟩
    change R.Relies q (Phase.pc ∘ update (t.wakeup1 c).phase q (.hold l)) _ t.shared
      (update (t.wakeup1 c).phase q (.hold l) q)
    rw [hpcs,update_self]
    exact hrelies

lemma step (hR : R.Keeper M P) (h : R.Holds t) (hm : Shared.Moves M t p a t') (hP : t.Allowed P p a) :
    R.Holds t' := by
  have hlocked := Shared.locked_step h.locked hm
  have hsame : ∀ {ph : Phase χ L}, ph.pc = (t.phase p).pc → Phase.pc ∘ update t.phase p ph = t.pcs :=
    Shared.pcs_update
  cases hm with
  | call a l l' s hph hcall =>
    have hpc : t.pcs p = l := Shared.pcs_of hph
    have hpcs : Phase.pc ∘ update t.phase p (.enter l') = update t.pcs p l' :=
      comp_update _ _ _ _
    rw [← hpc] at hcall
    obtain ⟨hentry,hfree,hheld⟩ := hR.call t.pcs t.shared p a s l' hcall
    rw [← hpcs] at hfree hheld
    exact h.move hlocked rfl rfl (fun _ => hentry) nofun (by rw [hph]; rfl) hfree hheld
  | env b s henv => exact h.env hR henv
  | kill htable | poke htable => exact h.rouse hlocked rfl rfl rfl
  | enter l hph hlock =>
    obtain ⟨S,hS,hfree⟩ := h.free hlock
    refine h.keep hlocked rfl rfl rfl nofun hS ?_
    change R.held p (Phase.pc ∘ update t.phase p (.hold l)) S t.shared
    rw [hsame (by rw [hph]; rfl)]
    refine hR.enter t.pcs t.shared p S ?_ hfree
    rw [Shared.pcs_of hph]
    exact h.entry_of hph rfl rfl
  | perform l hph =>
    have hl : (t.phase p).Holding fun l => P p (t.killed p) l t.shared := hP
    rw [hph] at hl
    exact h.perform hR hph hl hlocked
  | waking c l hph htable =>
    obtain ⟨hlock,S,hS,hrelies⟩ := h.relies_of hph rfl
    refine h.keep hlocked hlock rfl rfl nofun hS ?_
    change R.Relies p (Phase.pc ∘ update t.phase p (.rousing c l)) S t.shared _
    rw [hsame (by rw [hph]; rfl)]
    exact hrelies
  | rousing c l hph => exact h.wakeup1 hph hlocked
  | falling c l hph htable =>
    obtain ⟨hlock,S,hS,hrelies⟩ := h.relies_of hph rfl
    refine h.keep hlocked hlock rfl rfl (fun _ => h.entry_of hph rfl rfl) hS ?_
    change R.Relies p (Phase.pc ∘ update t.phase p (.handing c l)) S t.shared _
    rw [hsame (by rw [hph]; rfl)]
    exact hrelies
  | handing c l hph =>
    obtain ⟨hlock,S,hS,hrelies⟩ := h.relies_of hph rfl
    have hcover : t.Covers fun d => S d ∨ d = c := fun q d hq => .inl (hS q d hq)
    refine h.leave hlocked rfl rfl (fun _ => h.entry_of hph rfl rfl) (hcover.move rfl ?_) ?_
    · intro d hd
      exact .inr (Option.some.inj hd).symm
    · change R.free (Phase.pc ∘ update t.phase p (.drowsy c l)) _ t.shared
      rw [hsame (by rw [hph]; rfl)]
      exact hrelies
  | drowsy c l hph | switching c l hph =>
    exact h.stay hlocked rfl rfl rfl (by rw [hph]; rfl) (fun _ => by rw [hph]; rfl)
      (by rw [hph]; exact fun _ => id)
      (by rw [hph]; rfl)
  | awake c l hph htable | resumed l hph =>
    exact h.stay hlocked rfl rfl rfl (by rw [hph]; rfl) (fun _ => by rw [hph]; rfl) nofun
      (by rw [hph]; rfl)

end Holds

variable [DecidableEq χ] {M : Monitor ι σ χ L A B} {P : ι → Bool → L → σ → Prop} {s : σ} {l : ι → L}
  {killed : ι → Bool} {t : Shared ι σ χ L} {as : List (ι×MonAct A B)}

theorem run_if (hR : R.Keeper M P) (h0 : R.free l (fun _ => False) s)
    (h : Run (fun t a t' => Shared.Step M t a t' ∧ t.Allowed P a.1 a.2) (.start s l killed) as t) :
    R.Holds t := by
  refine h.invariant (fun _ t => R.Holds t) ?_ (.start h0)
  rintro _ t a t' ht ⟨hs,hP⟩
  exact ht.step hR (Shared.moves_of_next hs) hP

theorem run (hR : R.Keeper M fun _ _ _ _ => True) (h0 : R.free l (fun _ => False) s)
    (h : Run (Shared.Step M) (.start s l killed) as t) : R.Holds t := by
  refine run_if hR h0 (h.mono ?_)
  intro t a t' hs
  refine ⟨hs,?_⟩
  cases a.2 with
  | tick =>
    change (t.phase a.1).Holding fun _ => True
    cases t.phase a.1 with
    | _ => exact trivial
  | _ => exact trivial

omit [DecidableEq ι] [DecidableEq χ] in
lemma Holds.everywhere {I : (ι → L) → σ → Prop} (h : R.Holds t) (hfree : ∀ f S s, R.free f S s → I f s)
    (hheld : ∀ p f S s, R.held p f S s → I f s) : I t.pcs t.shared := by
  cases hlock : t.lock with
  | none =>
    obtain ⟨S,_,hf⟩ := h.free hlock
    exact hfree _ S _ hf
  | some p =>
    obtain ⟨S,_,hrelies⟩ := h.held p hlock
    cases hph : t.phase p with
    | hold l | waking d l | rousing d l =>
      rw [hph] at hrelies
      exact hheld p _ _ _ hrelies
    | falling d l | handing d l =>
      rw [hph] at hrelies
      exact hfree _ _ _ hrelies
    | _ =>
      rw [hph] at hrelies
      exact hrelies.elim

end Regime

/-! ### Invariants that need no lock -/

/-- A relation between the shared state and where the processes are, which every call, every
statement and every change from outside keeps. -/
structure Shared.Kept {ι σ χ L A B : Type*} [DecidableEq ι] (M : Monitor ι σ χ L A B)
    (I : (ι → L) → σ → Prop) :
    Prop where
  call : ∀ f s p a s' l', I f s → M.call p a (f p) s = some (s',l') → I (update f p l') s'
  code : ∀ f s p killed, I f s →
    I (update f p (M.code p killed (f p) s).pc) ((M.code p killed (f p) s).shared s)
  env : ∀ f s b s', I f s → M.env b s = some s' → I f s'

namespace Shared.Kept
variable {ι σ χ L A B : Type*} [DecidableEq ι] {M : Monitor ι σ χ L A B} {I : (ι → L) → σ → Prop}

lemma keeper (hI : Kept M I) : Regime.Keeper ⟨fun _ => True,fun f _ s => I f s,fun _ f _ s => I f s⟩ M
    fun _ _ _ _ => True where
  call f s p a s' l' hcall :=
    ⟨trivial,fun _ h => hI.call f s p a s' l' h hcall,fun _ _ _ h => hI.call f s p a s' l' h hcall⟩
  env f s b s' henv := ⟨fun _ h => hI.env f s b s' h henv,fun _ _ h => hI.env f s b s' h henv⟩
  enter _ _ _ _ _ h := h
  code := by
    intro f s p killed S _ h
    have hcode := hI.code f s p killed h
    cases hstmt : M.code p killed (f p) s with
    | sleep d l =>
      rw [hstmt] at hcode
      exact ⟨trivial,hcode⟩
    | _ =>
      rw [hstmt] at hcode
      exact hcode

theorem run [DecidableEq χ] (hI : Kept M I) {s : σ} {l : ι → L} {killed : ι → Bool} {t : Shared ι σ χ L}
    {as : List (ι×MonAct A B)} (h0 : I l s) (h : Run (Step M) (start s l killed) as t) :
    I t.pcs t.shared :=
  (Regime.run hI.keeper h0 h).everywhere (fun _ _ _ => id) fun _ _ _ _ => id

end Shared.Kept

/-! ### Sleepers -/

/-- How the code of a monitor keeps track of sleepers: `reason c s` is a reason to sleep on `c` that
holds whenever the lock is free and somebody does, `entry` tells where the code takes the lock, and
`good l s S` is what it relies on at `l` when at most the channels of `S` have sleepers. -/
structure Vigil (σ χ L : Type*) where
  reason : χ → σ → Prop
  entry : L → Prop
  good : L → σ → (χ → Prop) → Prop

namespace Vigil
variable {ι σ χ L A B : Type*} (V : Vigil σ χ L)

def regime (ι : Type*) : Regime ι σ χ L where
  entry := V.entry
  free _ S s := ∀ c, S c → V.reason c s
  held p f S s := V.good (f p) s S

/-- A change from outside that the code does not notice. -/
def Stable (s s' : σ) : Prop :=
  (∀ c, V.reason c s → V.reason c s') ∧ ∀ l S, V.good l s S → V.good l s' S

def Keeps (s : σ) (S : χ → Prop) : Stmt σ χ L → Prop
  | .go s' l => V.good l s' S
  | .wakeup d l => V.good l s fun c => S c ∧ c ≠ d
  | .sleep d l => V.entry l ∧ V.reason d s ∧ ∀ c, S c → V.reason c s
  | .release _ => ∀ c, S c → V.reason c s

/-- The rules for a whole monitor, of which only the statements that `P` allows are executed. -/
structure Keeper (M : Monitor ι σ χ L A B) (P : ι → Bool → L → σ → Prop) : Prop where
  call : ∀ p a l s s' l', M.call p a l s = some (s',l') → V.entry l' ∧ V.Stable s s'
  env : ∀ b s s', M.env b s = some s' → V.Stable s s'
  enter : ∀ l s S, V.entry l → (∀ c, S c → V.reason c s) → V.good l s S
  code : ∀ p killed l s S, P p killed l s → V.good l s S → V.Keeps s S (M.code p killed l s)

variable {V} [DecidableEq ι] {M : Monitor ι σ χ L A B} {P : ι → Bool → L → σ → Prop}

lemma Keeper.regime (hV : V.Keeper M P) : (V.regime ι).Keeper M P where
  call := by
    intro f s p a s' l' hcall
    obtain ⟨hentry,hreason,hgood⟩ := hV.call p a (f p) s s' l' hcall
    refine ⟨hentry,fun S h c hc => hreason c (h c hc),fun q S hne h => ?_⟩
    change V.good (update f p l' q) s' S
    rw [update_of_ne hne]
    exact hgood _ S h
  env := by
    intro f s b s' henv
    obtain ⟨hreason,hgood⟩ := hV.env b s s' henv
    exact ⟨fun S h c hc => hreason c (h c hc),fun q S h => hgood _ S h⟩
  enter f s p S hentry h := hV.enter (f p) s S hentry h
  code := by
    intro f s p killed S hP h
    have hkeeps := hV.code p killed (f p) s S hP h
    cases hstmt : M.code p killed (f p) s with
    | go s' l =>
      rw [hstmt] at hkeeps
      change V.good (update f p l p) s' S
      rw [update_self]
      exact hkeeps
    | wakeup d l =>
      rw [hstmt] at hkeeps
      change V.good (update f p l p) s fun c => S c ∧ c ≠ d
      rw [update_self]
      exact hkeeps
    | sleep d l =>
      rw [hstmt] at hkeeps
      refine ⟨hkeeps.1,?_⟩
      rintro c (hc | rfl)
      · exact hkeeps.2.2 c hc
      · exact hkeeps.2.1
    | release l =>
      rw [hstmt] at hkeeps
      exact hkeeps

omit [DecidableEq ι] in
lemma reason_of_asleep {t : Shared ι σ χ L} (h : (V.regime ι).Holds t) (hlock : t.lock = none)
    {q : ι} {c : χ}
    {l : L} (hq : t.phase q = .asleep c l) : V.reason c t.shared := by
  obtain ⟨S,hS,hreason⟩ := h.free hlock
  exact hreason c (hS q c (by rw [hq]; rfl))

variable [DecidableEq χ] {s : σ} {l : ι → L} {killed : ι → Bool} {t : Shared ι σ χ L}
  {as : List (ι×MonAct A B)}

/-- When the lock is free, whoever sleeps has a reason to. -/
theorem no_lost_wakeup_if (hV : V.Keeper M P)
    (h : Run (fun t a t' => Shared.Step M t a t' ∧ t.Allowed P a.1 a.2) (.start s l killed) as t)
    (hlock : t.lock = none) {q : ι} {c : χ} {pc : L} (hq : t.phase q = .asleep c pc) :
    V.reason c t.shared :=
  reason_of_asleep (Regime.run_if hV.regime (fun _ => False.elim) h) hlock hq

theorem no_lost_wakeup (hV : V.Keeper M fun _ _ _ _ => True)
    (h : Run (Shared.Step M) (.start s l killed) as t) (hlock : t.lock = none) {q : ι} {c : χ} {pc : L}
    (hq : t.phase q = .asleep c pc) : V.reason c t.shared :=
  reason_of_asleep (Regime.run hV.regime (fun _ => False.elim) h) hlock hq

end Vigil
end JacobiXv6.Library
