import JacobiXv6.Library.Run
import JacobiXv6.Log.Header

/-! Group commit: any number of processes in `begin_op`, `log_write` and `end_op`. What a
process does between taking `log.lock` and giving it back is one step, unless it has to
wait for `ptable.lock` in between, as it does in `sleep` and `wakeup`. `commit` runs without
a lock and is interleaved with all the rest. -/
namespace JacobiXv6.Log
open Library Function Option

/-- Where a process is. `logTest` and `write` are in `log_write` and hold its block. -/
inductive OpPc
  | idle
  | begin
  | sleepAcquire
  | sleepSched
  | sleeping
  | woken
  | inOp
  | logTest (b : Word)
  | write (b : Word)
  | ending
  | endWake
  | commitLog
  | commitClear
  | finish
  | finishWake
  deriving DecidableEq

namespace OpPc

/-- The process is counted in `log.outstanding`. -/
def active : OpPc → Bool
  | inOp | logTest _ | write _ | ending => true
  | _ => false

/-- The process has set `log.committing`. -/
def committer : OpPc → Bool
  | commitLog | commitClear | finish => true
  | _ => false

/-- The process waits for `ptable.lock` and holds `log.lock`. -/
def holdsLog : OpPc → Bool
  | sleepAcquire | endWake | finishWake => true
  | _ => false

/-- The process holds `ptable.lock` from one step to the next. -/
def holdsTable : OpPc → Bool
  | sleepSched => true
  | _ => false

/-- The process sleeps on `&log` or is on the way to it. -/
def drowsy : OpPc → Bool
  | sleepAcquire | sleepSched | sleeping => true
  | _ => false

end OpPc

inductive LogPanic
  | tooBig
  | outside
  | committing
  deriving DecidableEq

/-- `struct log` with the two locks. The last four fields are history: the headers that
were committed, for each operation under way the number of commits before it and the
blocks it has logged, and the same of the operations that have ended. -/
structure OpLog (ι : Type*) where
  pc : ι → OpPc
  logLock : Option ι
  ptLock : Option ι
  outstanding : ℤ
  committing : Bool
  lh : List Word
  panic : Option LogPanic
  commits : List (List Word)
  epoch : ι → ℕ
  wrote : ι → List Word
  ended : List (ℕ×List Word)

inductive OpAct
  | beginOp
  | test
  | fallAsleep
  | sched
  | poke
  | resume
  | logWrite (b : Word)
  | testOp
  | record (b : Word)
  | endOp
  | leave
  | wakeup
  | commit
  | clear
  | finish
  deriving DecidableEq

namespace OpLog
variable {ι : Type*} [DecidableEq ι]

def goto (s : OpLog ι) (p : ι) (c : OpPc) : OpLog ι := { s with pc := update s.pc p c }

/-- `wakeup1(&log)` -/
def wake (s : OpLog ι) : OpLog ι :=
  { s with pc := fun q => if s.pc q = .sleeping then .woken else s.pc q }

/-- One step of process `p`. `test` is a round of the loop of `begin_op`, `fallAsleep` and
`sched` are `sleep` up to the switch, `poke` is a wakeup from elsewhere (`kill`, or a
message), `resume` the way back to the loop. `logWrite` and `testOp` are the two tests of
`log_write`, which hold no lock, and `record` is the rest of it. `leave` is `end_op` up to the
release of the lock or the call of `wakeup`. -/
def next (size : ℕ) (s : OpLog ι) (p : ι) : OpAct → Option (OpLog ι)
  | .beginOp => if s.pc p = .idle then some (s.goto p .begin) else none
  | .test =>
    if s.pc p = .begin ∧ s.logLock = none then
      some (if s.committing = true ∨ (LOGSIZE : ℤ) < s.lh.length+(s.outstanding+1)*MAXOPBLOCKS then
        { s.goto p .sleepAcquire with logLock := some p }
      else
        { s.goto p .inOp with
          outstanding := s.outstanding+1
          epoch := update s.epoch p s.commits.length
          wrote := update s.wrote p [] })
    else none
  | .fallAsleep =>
    if s.pc p = .sleepAcquire ∧ s.ptLock = none then
      some { s.goto p .sleepSched with logLock := none, ptLock := some p }
    else none
  | .sched =>
    if s.pc p = .sleepSched then some { s.goto p .sleeping with ptLock := none } else none
  | .poke => if s.pc p = .sleeping ∧ s.ptLock = none then some (s.goto p .woken) else none
  | .resume => if s.pc p = .woken ∧ s.ptLock = none then some (s.goto p .begin) else none
  | .logWrite b =>
    if s.pc p = .inOp then
      some (if LOGSIZE ≤ s.lh.length ∨ size-1 ≤ s.lh.length then { s with panic := some .tooBig }
      else s.goto p (.logTest b))
    else none
  | .testOp =>
    match s.pc p with
    | .logTest b =>
      some (if s.outstanding < 1 then { s with panic := some .outside } else s.goto p (.write b))
    | _ => none
  | .record b =>
    if s.pc p = .write b ∧ s.logLock = none then
      some { s.goto p .inOp with
        lh := absorb s.lh b
        wrote := update s.wrote p (s.wrote p++[b]) }
    else none
  | .endOp => if s.pc p = .inOp then some (s.goto p .ending) else none
  | .leave =>
    if s.pc p = .ending ∧ s.logLock = none then
      some (if s.committing = true then
        { s with outstanding := s.outstanding-1, panic := some .committing }
      else if s.outstanding-1 = 0 then
        { s.goto p .commitLog with
          outstanding := s.outstanding-1, committing := true
          ended := s.ended++[(s.epoch p,s.wrote p)] }
      else
        { s.goto p .endWake with
          outstanding := s.outstanding-1, logLock := some p
          ended := s.ended++[(s.epoch p,s.wrote p)] })
    else none
  | .wakeup =>
    if (s.pc p = .endWake ∨ s.pc p = .finishWake) ∧ s.ptLock = none then
      some { s.wake.goto p .idle with logLock := none }
    else none
  | .commit =>
    if s.pc p = .commitLog then
      some { s.goto p .commitClear with commits := s.commits++[s.lh] }
    else none
  | .clear => if s.pc p = .commitClear then some { s.goto p .finish with lh := [] } else none
  | .finish =>
    if s.pc p = .finish ∧ s.logLock = none then
      some { s.goto p .finishWake with committing := false, logLock := some p }
    else none

/-- What one step can do, with the guards that it has passed. -/
inductive Moves (size : ℕ) (s : OpLog ι) (p : ι) : OpAct → OpLog ι → Prop
  | beginOp (hpc : s.pc p = .idle) : Moves size s p .beginOp (s.goto p .begin)
  | wait (hpc : s.pc p = .begin) (hlock : s.logLock = none)
      (hfull : s.committing = true ∨ (LOGSIZE : ℤ) < s.lh.length+(s.outstanding+1)*MAXOPBLOCKS) :
      Moves size s p .test { s.goto p .sleepAcquire with logLock := some p }
  | enter (hpc : s.pc p = .begin) (hlock : s.logLock = none) (hfree : s.committing = false)
      (hroom : s.lh.length+(s.outstanding+1)*MAXOPBLOCKS ≤ (LOGSIZE : ℤ)) :
      Moves size s p .test { s.goto p .inOp with
        outstanding := s.outstanding+1
        epoch := update s.epoch p s.commits.length
        wrote := update s.wrote p [] }
  | fallAsleep (hpc : s.pc p = .sleepAcquire) (htable : s.ptLock = none) :
      Moves size s p .fallAsleep { s.goto p .sleepSched with logLock := none, ptLock := some p }
  | sched (hpc : s.pc p = .sleepSched) :
      Moves size s p .sched { s.goto p .sleeping with ptLock := none }
  | poke (hpc : s.pc p = .sleeping) : Moves size s p .poke (s.goto p .woken)
  | resume (hpc : s.pc p = .woken) : Moves size s p .resume (s.goto p .begin)
  | tooBig (b : Word) (hpc : s.pc p = .inOp) (hbig : LOGSIZE ≤ s.lh.length ∨ size-1 ≤ s.lh.length) :
      Moves size s p (.logWrite b) { s with panic := some .tooBig }
  | logWrite (b : Word) (hpc : s.pc p = .inOp)
      (hroom : ¬(LOGSIZE ≤ s.lh.length ∨ size-1 ≤ s.lh.length)) :
      Moves size s p (.logWrite b) (s.goto p (.logTest b))
  | outside (b : Word) (hpc : s.pc p = .logTest b) (hout : s.outstanding < 1) :
      Moves size s p .testOp { s with panic := some .outside }
  | testOp (b : Word) (hpc : s.pc p = .logTest b) :
      Moves size s p .testOp (s.goto p (.write b))
  | record (b : Word) (hpc : s.pc p = .write b) :
      Moves size s p (.record b) { s.goto p .inOp with
        lh := absorb s.lh b
        wrote := update s.wrote p (s.wrote p++[b]) }
  | endOp (hpc : s.pc p = .inOp) : Moves size s p .endOp (s.goto p .ending)
  | clash (hpc : s.pc p = .ending) (hcomm : s.committing = true) :
      Moves size s p .leave { s with outstanding := s.outstanding-1, panic := some .committing }
  | last (hpc : s.pc p = .ending) (hfree : s.committing = false) (hout : s.outstanding-1 = 0) :
      Moves size s p .leave { s.goto p .commitLog with
        outstanding := s.outstanding-1, committing := true
        ended := s.ended++[(s.epoch p,s.wrote p)] }
  | leave (hpc : s.pc p = .ending) (hlock : s.logLock = none) (hfree : s.committing = false)
      (hout : s.outstanding-1 ≠ 0) :
      Moves size s p .leave { s.goto p .endWake with
        outstanding := s.outstanding-1, logLock := some p
        ended := s.ended++[(s.epoch p,s.wrote p)] }
  | wakeup (hpc : s.pc p = .endWake ∨ s.pc p = .finishWake) (htable : s.ptLock = none) :
      Moves size s p .wakeup { s.wake.goto p .idle with logLock := none }
  | commit (hpc : s.pc p = .commitLog) :
      Moves size s p .commit { s.goto p .commitClear with commits := s.commits++[s.lh] }
  | clear (hpc : s.pc p = .commitClear) : Moves size s p .clear { s.goto p .finish with lh := [] }
  | finish (hpc : s.pc p = .finish) (hlock : s.logLock = none) :
      Moves size s p .finish { s.goto p .finishWake with committing := false, logLock := some p }

lemma moves_of_next {size : ℕ} {s s' : OpLog ι} {p : ι} {a : OpAct} (h : s.next size p a = some s') :
    Moves size s p a s' := by
  cases a with
  | beginOp | sched | endOp | commit | clear =>
    obtain ⟨hpc,⟨⟩⟩ := ite_none_right_eq_some.mp h
    constructor
    exact hpc
  | test =>
    obtain ⟨⟨hpc,hlock⟩,⟨⟩⟩ := ite_none_right_eq_some.mp h
    split_ifs with hfull
    · exact .wait hpc hlock hfull
    · obtain ⟨hfree,hroom⟩ := not_or.mp hfull
      exact .enter hpc hlock (Bool.eq_false_iff.mpr hfree) (not_lt.mp hroom)
  | fallAsleep =>
    obtain ⟨⟨hpc,htable⟩,⟨⟩⟩ := ite_none_right_eq_some.mp h
    exact .fallAsleep hpc htable
  | poke | resume =>
    obtain ⟨⟨hpc,-⟩,⟨⟩⟩ := ite_none_right_eq_some.mp h
    constructor
    exact hpc
  | logWrite b =>
    obtain ⟨hpc,⟨⟩⟩ := ite_none_right_eq_some.mp h
    split_ifs with hbig
    · exact .tooBig b hpc hbig
    · exact .logWrite b hpc hbig
  | testOp =>
    simp only [next] at h
    split at h
    · rename_i b hpc
      cases h
      split_ifs with hout
      · exact .outside b hpc hout
      · exact .testOp b hpc
    · exact nomatch h
  | record b =>
    obtain ⟨⟨hpc,-⟩,⟨⟩⟩ := ite_none_right_eq_some.mp h
    exact .record b hpc
  | leave =>
    obtain ⟨⟨hpc,hlock⟩,⟨⟩⟩ := ite_none_right_eq_some.mp h
    split_ifs with hcomm hout
    · exact .clash hpc hcomm
    · exact .last hpc (Bool.eq_false_iff.mpr hcomm) hout
    · exact .leave hpc hlock (Bool.eq_false_iff.mpr hcomm) hout
  | wakeup =>
    obtain ⟨⟨hpc,htable⟩,⟨⟩⟩ := ite_none_right_eq_some.mp h
    exact .wakeup hpc htable
  | finish =>
    obtain ⟨⟨hpc,hlock⟩,⟨⟩⟩ := ite_none_right_eq_some.mp h
    exact .finish hpc hlock

/-- A step of the system; a panic is the end of it. -/
def Step (size : ℕ) (s : OpLog ι) (a : ι×OpAct) (s' : OpLog ι) : Prop :=
  s.next size a.1 a.2 = some s' ∧ s.panic = none

/-- After recovery the log is empty and no operation has begun. -/
def initial : OpLog ι :=
  ⟨fun _ => .idle,none,none,0,false,[],none,[],fun _ => 0,fun _ => [],[]⟩

end OpLog
end JacobiXv6.Log
