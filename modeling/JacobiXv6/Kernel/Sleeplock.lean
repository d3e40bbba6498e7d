import JacobiXv6.Library.Monitors

/-! Sleep locks: `acquiresleep`, `releasesleep` and `holdingsleep`, one statement after the other,
for any number of processes. -/
namespace JacobiXv6.Kernel
open Library Function

/-- `struct sleeplock` without its spin lock; `pid` is the process that has it. -/
structure Sleeplock (ι : Type*) where
  locked : Bool
  pid : Option ι

/-- Where a process is, named after the statement to come. `critical` is between the return of
`acquiresleep` and the call of `releasesleep`; a process that calls `acquiresleep` there once
more, or asks whether it has the lock, is told apart by `own`. -/
inductive SleeplockPc
  | idle
  | test (own : Bool)
  | setPid
  | got
  | critical
  | drop
  | clearPid
  | wake
  | done
  | query (own : Bool)
  | reply (own r : Bool)
  deriving DecidableEq

namespace SleeplockPc

/-- The process has the lock, from the store to `locked` in `acquiresleep` to the one in
`releasesleep`. -/
def owns : SleeplockPc → Bool
  | setPid | got | critical | drop => true
  | test own | query own | reply own _ => own
  | _ => false

/-- The first statement after `acquire(&lk->lk)`. -/
def entry : SleeplockPc → Bool
  | test _ | drop | query _ => true
  | _ => false

end SleeplockPc

inductive SleeplockCall
  | acquiresleep
  | releasesleep
  | holdingsleep

namespace Sleeplock
variable {ι : Type*} [DecidableEq ι]

/-- The calls that a process can make; it releases what it has acquired. -/
def call : SleeplockCall → SleeplockPc → Option SleeplockPc
  | .acquiresleep, .idle => some (.test false)
  | .acquiresleep, .critical => some (.test true)
  | .releasesleep, .critical => some .drop
  | .holdingsleep, .idle => some (.query false)
  | .holdingsleep, .critical => some (.query true)
  | _, _ => none

/-- The statements between `acquire(&lk->lk)` and `release(&lk->lk)`. The channel is the address of
the lock. -/
def code (p : ι) (s : Sleeplock ι) : SleeplockPc → Stmt (Sleeplock ι) Unit SleeplockPc
  | .test own => if s.locked = true then .sleep () (.test own)
    else .go { s with locked := true } .setPid
  | .setPid => .go { s with pid := some p } .got
  | .got => .release .critical
  | .drop => .go { s with locked := false } .clearPid
  | .clearPid => .go { s with pid := none } .wake
  | .wake => .wakeup () .done
  | .done => .release .idle
  | .query own => .go s (.reply own (s.locked && s.pid = some p))
  | .reply own _ => .release (if own then .critical else .idle)
  | pc => .release pc

def monitor (ι : Type*) [DecidableEq ι] :
    Monitor ι (Sleeplock ι) Unit SleeplockPc SleeplockCall Empty where
  call _ a pc s := (call a pc).map fun pc' => (s,pc')
  code p _ pc s := code p s pc
  env b _ := b.elim

/-- `initsleeplock`, with any number of processes outside. -/
def initial (killed : ι → Bool) : Shared ι (Sleeplock ι) Unit SleeplockPc :=
  .start ⟨false,none⟩ (fun _ => .idle) killed

/-! ### At most one owner -/

/-- The lock is taken if and only if some process owns it, and then only one does. -/
structure Exclusive (f : ι → SleeplockPc) (s : Sleeplock ι) : Prop where
  locked : ∀ p, (f p).owns = true → s.locked = true
  unique : ∀ p q, (f p).owns = true → (f q).owns = true → p = q
  taken : s.locked = true → ∃ p, (f p).owns = true

namespace Exclusive
variable {f : ι → SleeplockPc} {s s' : Sleeplock ι} {p : ι} {pc : SleeplockPc}

lemma keep (h : Exclusive f s) (hpc : pc.owns = (f p).owns) (hlocked : s'.locked = s.locked) :
    Exclusive (update f p pc) s' := by
  have howns : ∀ q, (update f p pc q).owns = (f q).owns := by
    intro q
    obtain rfl | hq := eq_or_ne q p
    · rw [update_self,hpc]
    · rw [update_of_ne hq]
  constructor
  · intro q hq
    rw [howns] at hq
    rw [hlocked]
    exact h.locked q hq
  · intro q r hq hr
    rw [howns] at hq hr
    exact h.unique q r hq hr
  · intro ht
    rw [hlocked] at ht
    obtain ⟨q,hq⟩ := h.taken ht
    exact ⟨q,by rw [howns,hq]⟩

lemma take (h : Exclusive f s) (hfree : s.locked = false) (hpc : pc.owns = true)
    (hlocked : s'.locked = true) :
    Exclusive (update f p pc) s' := by
  have hnone : ∀ q, (f q).owns = false := by
    intro q
    rw [Bool.eq_false_iff]
    intro hq
    exact nomatch hfree.symm.trans (h.locked q hq)
  have hself : ∀ q, (update f p pc q).owns = true → q = p := by
    intro q hq
    by_contra hne
    rw [update_of_ne hne,hnone] at hq
    exact nomatch hq
  refine ⟨fun _ _ => hlocked,fun q r hq hr => (hself q hq).trans (hself r hr).symm,fun _ => ⟨p,?_⟩⟩
  rw [update_self,hpc]

lemma give (h : Exclusive f s) (hp : (f p).owns = true) (hpc : pc.owns = false)
    (hlocked : s'.locked = false) :
    Exclusive (update f p pc) s' := by
  have hnone : ∀ q, (update f p pc q).owns = false := by
    intro q
    obtain rfl | hq := eq_or_ne q p
    · rw [update_self,hpc]
    · rw [update_of_ne hq,Bool.eq_false_iff]
      intro hown
      exact hq (h.unique q p hown hp)
  refine ⟨fun q hq => ?_,fun q r hq => ?_,fun ht => ?_⟩
  · exact nomatch (hnone q).symm.trans hq
  · exact nomatch (hnone q).symm.trans hq
  · exact nomatch hlocked.symm.trans ht

end Exclusive

lemma call_spec {a : SleeplockCall} {pc pc' : SleeplockPc} (h : call a pc = some pc') :
    pc'.owns = pc.owns ∧ pc'.entry = true := by
  cases a with
  | releasesleep =>
    cases pc with
    | critical =>
      cases h
      exact ⟨rfl,rfl⟩
    | _ => exact nomatch h
  | _ =>
    cases pc with
    | idle | critical =>
      cases h
      exact ⟨rfl,rfl⟩
    | _ => exact nomatch h

lemma exclusive_kept : Shared.Kept (monitor ι) (Exclusive (ι := ι)) where
  call := by
    intro f s p a s' pc' h hcall
    obtain ⟨pc,hpc,he⟩ := Option.map_eq_some_iff.mp hcall
    cases he
    exact h.keep (call_spec hpc).1 rfl
  code := by
    intro f s p killed h
    change Exclusive (update f p (code p s (f p)).pc) ((code p s (f p)).shared s)
    cases hpc : f p with
    | test own =>
      simp only [code]
      split_ifs with hl
      · exact h.keep (by rw [hpc]; rfl) rfl
      · exact h.take (Bool.eq_false_iff.mpr hl) rfl rfl
    | drop => exact h.give (by rw [hpc]; rfl) rfl rfl
    | reply own r =>
      refine h.keep ?_ rfl
      rw [hpc]
      cases own <;> rfl
    | _ => exact h.keep (by rw [hpc]; rfl) rfl
  env := by
    intro f s b
    exact b.elim

/-! ### Waiters -/

/-- A process sleeps while the lock is taken. Between the store that frees the lock and the wakeup
the code relies on nothing. -/
def vigil : Vigil (Sleeplock ι) Unit SleeplockPc where
  reason _ s := s.locked = true
  entry pc := pc.entry = true
  good pc s S :=
    match pc with
    | .clearPid | .wake => True
    | .done => ¬S ()
    | _ => S () → s.locked = true

lemma vigil_keeps (p : ι) (pc : SleeplockPc) (s : Sleeplock ι) (S : Unit → Prop)
    (h : vigil.good pc s S) :
    vigil.Keeps s S (code p s pc) := by
  cases pc with
  | test own =>
    simp only [code]
    split_ifs with hl
    · exact ⟨rfl,hl,fun _ => h⟩
    · exact fun _ => rfl
  | setPid => exact h
  | drop => exact trivial
  | clearPid => exact trivial
  | wake => exact fun hS => hS.2 rfl
  | done => exact fun _ hS => absurd hS h
  | query own => exact h
  | _ => exact fun _ => h

lemma vigil_keeper : vigil.Keeper (monitor ι) fun _ _ _ _ => True where
  call := by
    intro p a pc s s' pc' hcall
    obtain ⟨pc'',hpc,he⟩ := Option.map_eq_some_iff.mp hcall
    cases he
    exact ⟨(call_spec hpc).2,fun _ => id,fun _ _ => id⟩
  env b := b.elim
  enter := by
    intro pc s S hpc hreason
    cases pc with
    | test own | drop | query own => exact hreason ()
    | _ => exact nomatch hpc
  code p _ pc s S _ h := vigil_keeps p pc s S h

/-- At most one process is between the return of `acquiresleep` and its `releasesleep`, and nobody
sleeps on a lock that is free. -/
theorem exclusive_and_never_stranded {killed : ι → Bool} {as : List (ι×MonAct SleeplockCall Empty)}
    {t : Shared ι (Sleeplock ι) Unit SleeplockPc}
    (h : Run (Shared.Step (monitor ι)) (initial killed) as t) :
    (∀ p q, (t.phase p).pc.owns = true → (t.phase q).pc.owns = true → p = q) ∧
      (t.lock = none → t.table = none → ∀ p c pc, t.phase p = .asleep c pc →
        t.shared.locked = true) := by
  constructor
  · have hinit : Exclusive (fun _ : ι => .idle) ⟨false,none⟩ := ⟨nofun,nofun,nofun⟩
    exact (exclusive_kept.run hinit h).unique
  · intro hlock _ p c pc hp
    exact Vigil.no_lost_wakeup vigil_keeper h hlock hp

/-- One process has the lock and another one sleeps on it. -/
def contended : List (Bool×MonAct SleeplockCall Empty) :=
  (false,.call .acquiresleep)::List.replicate 4 (false,.tick) ++
    (true,.call .acquiresleep)::List.replicate 6 (true,.tick)

theorem exclusive_and_never_stranded_contended :
    ∃ t, Run (Shared.Step (monitor Bool)) (initial fun _ => false) contended t ∧
    t.phase false = .out .critical ∧ t.phase true = .asleep () (.test false) ∧ t.lock = none ∧
      t.table = none ∧
    t.shared.locked = true := by
  have he : (exec (fun a t => Shared.next (monitor Bool) t a.1 a.2) contended
      (initial fun _ => false)).isSome = true := by
    decide +kernel
  obtain ⟨t,ht⟩ := Option.isSome_iff_exists.mp he
  have hrun : Run (Shared.Step (monitor Bool)) (initial fun _ => false) contended t := Run.of_exec ht
  cases ht
  exact ⟨_,hrun,rfl,rfl,rfl,rfl,(exclusive_and_never_stranded hrun).2 rfl rfl true () (.test false) rfl⟩

end Sleeplock
end JacobiXv6.Kernel
