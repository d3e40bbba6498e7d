import JacobiXv6.Assig.Variance

/-! When `assig1_8` can hang. A child that tests its flag and then pauses sleeps forever if the
signal comes in between, also between the two loads of the test; if it never does, every process
that has not ended can go on or waits for one that can. -/
namespace JacobiXv6.Assig
open Kernel Library Function Finset Option

namespace ParentPc

def Forked : ParentPc → Fin CHILDS → Prop
  | fork k, i => i < k
  | _, _ => True

def Told : ParentPc → Fin CHILDS → Prop
  | fork _, _ | recvSum _, _ => False
  | sendMulti k, i => i < k
  | _, _ => True

def got : ParentPc → ℕ
  | fork _ => 0
  | recvSum k => k
  | sendMulti _ => CHILDS
  | recvVariance k => CHILDS+k
  | wait _ | exit => 2*CHILDS

/-- The number of messages that each child has sent at least. -/
def least : ParentPc → ℕ
  | fork _ | recvSum _ => 0
  | sendMulti _ | recvVariance _ => 1
  | wait _ | exit => 2

/-- The number of children that `wait` has found. -/
def reaped : ParentPc → ℕ
  | wait k => k
  | exit => CHILDS
  | _ => 0

def Bounded : ParentPc → Prop
  | fork k | recvSum k | sendMulti k | recvVariance k | wait k => k ≤ CHILDS
  | exit => True

def Calls : ParentPc → Prop
  | fork k | recvSum k | recvVariance k | wait k => k < CHILDS
  | sendMulti _ | exit => True

def Receives : ParentPc → Prop
  | recvSum k | recvVariance k => k < CHILDS
  | _ => False

def Waits : ParentPc → Prop
  | wait k => k < CHILDS
  | _ => False

end ParentPc

namespace ChildPc

def sent : ChildPc → ℕ
  | sum | sendSum => 0
  | exit | gone => 2
  | _ => 1

/-- What the statement does next to it in `mode` is defined, and no signal is being handled. -/
def Fits (pc : ChildPc) : Mode → Prop
  | .user | .trapret => True
  | .kernel => pc = sendSum ∨ pc = pause ∨ pc = sendVariance ∨ pc = exit
  | _ => False

lemma sent_le (pc : ChildPc) : pc.sent ≤ 2 := by
  cases pc <;> decide

end ChildPc

/-- The signals of a child: whether one is handled, how many were taken and how many were sent. -/
def Task.Signals (t : Task) (handling : Bool) (head tail : ℕ) : Prop :=
  t.handling = handling ∧ t.pendingSignals.head = head ∧ t.pendingSignals.tail = tail

/-- What has become of the mean that a child is to get: it has not been sent, it is pending, the
handler has it, or the handler is done. -/
inductive News
  | waiting
  | pending
  | handling
  | handled

namespace News

/-- The news of child `i`, as the parent, the signals of the child and its flag show it. -/
def At (i : Fin CHILDS) (parent : ParentPc) (t : Task) (received : Bool) : News → Prop
  | waiting => parent.Forked i ∧ ¬parent.Told i ∧ t.Signals false 0 0 ∧ received = false
  | pending => parent.Told i ∧ t.Signals false 0 1 ∧ received = false
  | handling => parent.Told i ∧ t.Signals true 1 1
  | handled => parent.Told i ∧ t.Signals false 1 1 ∧ received = true

/-- Where a child can be in its program. -/
def places : News → List ChildPc
  | waiting => [.sum,.sendSum,.test,.flag,.pause]
  | pending => [.test,.flag,.pause]
  | handling => []
  | handled => [.test,.flag,.variance,.sendVariance,.exit]

variable {n : News} {i : Fin CHILDS} {parent parent' : ParentPc} {t : Task} {received : Bool}

/-- The statements that compute apart, a child is at a system call. -/
lemma fits_kernel {pc : ChildPc} (h : pc ∈ n.places) (h1 : pc ≠ .sum) (h2 : pc ≠ .test)
    (h3 : pc ≠ .flag)
    (h4 : pc ≠ .variance) : pc.Fits .kernel := by
  cases pc <;> cases n <;> simp_all [places,ChildPc.Fits]

lemma At.transfer (h : n.At i parent t received) (hf : parent'.Forked i ↔ parent.Forked i)
    (ht : parent'.Told i ↔ parent.Told i) : n.At i parent' t received := by
  cases n <;> simpa only [At,hf,ht] using h

lemma At.delivers_iff (h : n.At i parent t received) : t.Delivers ↔ n = pending := by
  cases n <;> simp_all [At,Task.Signals,Task.Delivers]

lemma At.received_iff (h : n.At i parent t received) (hn : n ≠ handling) : received = true ↔
    n = handled := by
  cases n <;> simp_all [At]

lemma At.told_iff (h : n.At i parent t received) : parent.Told i ↔ n ≠ waiting := by
  cases n <;> simp_all [At]

end News

/-- What belongs to one child. -/
structure Seat where
  pc : ChildPc
  mode : Mode
  task : Task
  vars : Vars

/-- `wait` has found the child. -/
def Seat.Reaped (x : Seat) : Prop := x.pc = .gone ∧ x.task.state = .unused

instance : DecidablePred Seat.Reaped := fun _ => inferInstanceAs (Decidable (_ ∧ _))

section
variable (i : Fin CHILDS) (x : Seat) (parent : ParentPc)

abbrev Seat.Has (n : News) : Prop := n.At i parent x.task (x.vars.sreceived i)

/-- A child in its program. Between the two loads of the test the register holds its index. -/
structure Working (n : News) : Prop where
  news : x.Has i parent n
  place : x.pc ∈ n.places
  eax : x.pc = .flag → x.vars.eax = i
  chan : n = .waiting → x.task.chan = none

/-- A child as it can be when the parent is at `parent`. -/
inductive Kid : Prop
  | unborn (hforked : ¬parent.Forked i) (hstate : x.task.state = .unused) (hpc : x.pc = .sum)
  | working (hstate : x.task.state = .runnable) (n : News) (h : Working i x parent n)
    (hfits : x.pc.Fits x.mode)
  | asleep (hstate : x.task.state = .sleeping) (h : x.Has i parent .waiting)
      (hchan : x.task.chan = some (.pendingSignals i)) (hmode : x.mode = .kernel) (hpc : x.pc = .paused)
  | woken (hstate : x.task.state = .runnable) (h : x.Has i parent .pending)
      (hplace : x.mode = .kernel ∧ x.pc = .paused ∨ x.mode = .trapret ∧ x.pc = .variance)
  | handling (hstate : x.task.state = .runnable) (h : x.Has i parent .handling)
      (hmode : (∃ msg, x.mode = .mean msg) ∨ x.mode = .received ∨ x.mode = .sigret ∧
        x.vars.sreceived i = true)
      (hpc : x.pc = .test ∨ x.pc = .variance)
  | gone (hstate : x.task.state = .zombie ∨ x.task.state = .unused) (h : x.Has i parent .handled)
    (hpc : x.pc = .gone)

end

namespace Kid
variable {i : Fin CHILDS} {x : Seat} {parent parent' : ParentPc}

section

variable (h : Kid i x parent)
include h

lemma transfer (hf : parent'.Forked i ↔ parent.Forked i) (ht : parent'.Told i ↔ parent.Told i) :
    Kid i x parent' := by
  cases h with
  | unborn hforked hstate hpc => exact .unborn (hf.not.mpr hforked) hstate hpc
  | working hstate n h hfits =>
    exact .working hstate n ⟨h.news.transfer hf ht,h.place,h.eax,h.chan⟩ hfits
  | asleep hstate h hchan hmode hpc => exact .asleep hstate (h.transfer hf ht) hchan hmode hpc
  | woken hstate h hplace => exact .woken hstate (h.transfer hf ht) hplace
  | handling hstate h hmode hpc => exact .handling hstate (h.transfer hf ht) hmode hpc
  | gone hstate h hpc => exact .gone hstate (h.transfer hf ht) hpc

/-- A child that can run is in its program, comes from `pause_signal` with its signal, or is in its
handler. -/
lemma of_runnable (hrun : x.task.state = .runnable) :
    (x.pc.Fits x.mode ∧ ∃ n, Working i x parent n) ∨
    (x.Has i parent .pending ∧
      (x.mode = .kernel ∧ x.pc = .paused ∨ x.mode = .trapret ∧ x.pc = .variance)) ∨
    (x.Has i parent .handling ∧ (x.pc = .test ∨ x.pc = .variance) ∧
      ((∃ msg, x.mode = .mean msg) ∨ x.mode = .received ∨ x.mode = .sigret ∧
        x.vars.sreceived i = true)) := by
  cases h with
  | unborn _ hstate | asleep hstate => cases hrun.symm.trans hstate
  | working _ n h hfits => exact .inl ⟨hfits,n,h⟩
  | woken _ h hplace => exact .inr (.inl ⟨h,hplace⟩)
  | handling _ h hmode hpc => exact .inr (.inr ⟨h,hpc,hmode⟩)
  | gone hstate => simp [hrun] at hstate

/-- A child that the mean was not sent to is at the beginning of its program or sleeps in
`pause_signal`. -/
lemma of_untold (hnot : ¬parent.Told i) : (¬parent.Forked i ∧ x.pc = .sum) ∨
    (x.task.state = .runnable ∧ x.pc.Fits x.mode ∧ Working i x parent .waiting) ∨
    (x.task.state = .sleeping ∧ x.Has i parent .waiting ∧ x.task.chan = some (.pendingSignals i) ∧
      x.mode = .kernel ∧
      x.pc = .paused) := by
  cases h with
  | unborn hforked _ hpc => exact .inl ⟨hforked,hpc⟩
  | working hstate n h hfits =>
    obtain rfl := not_not.mp (h.news.told_iff.not.mp hnot)
    exact .inr (.inl ⟨hstate,hfits,h⟩)
  | asleep hstate h hchan hmode hpc => exact .inr (.inr ⟨hstate,h,hchan,hmode,hpc⟩)
  | woken _ h | handling _ h | gone _ h => exact absurd h.1 hnot

lemma sent_le (hnot : ¬parent.Told i) : x.pc.sent ≤ 1 := by
  obtain ⟨-,hpc⟩ | ⟨-,-,hw⟩ | ⟨-,-,-,-,hpc⟩ := h.of_untold hnot
  · simp [hpc,ChildPc.sent]
  · have hplace := hw.place
    cases hpc : x.pc <;> simp_all [News.places,ChildPc.sent]
  · simp [hpc,ChildPc.sent]

/-- The mean is sent to a child that has sent its sum. -/
lemma told {t : Task} (hnot : ¬parent.Told i) (htold : parent'.Told i) (hsent : 1 ≤ x.pc.sent)
    (hsig : x.task.Signals false 0 0 → t.Signals false 0 1)
    (hstate : t.state = if x.task.state = .sleeping then .runnable else x.task.state) :
    Kid i { x with task := t } parent' := by
  obtain ⟨-,hpc⟩ | ⟨hrun,hfits,hw⟩ | ⟨hsleep,hnews,-,hmode,hpc⟩ := h.of_untold hnot
  · simp [hpc,ChildPc.sent] at hsent
  · obtain ⟨-,-,hsignals,hrec⟩ := hw.news
    refine .working (by simpa [hrun] using hstate) .pending
      ⟨⟨htold,hsig hsignals,hrec⟩,?_,hw.eax,nofun⟩ hfits
    have hplace := hw.place
    cases hpc : x.pc <;> simp_all [News.places,ChildPc.sent]
  · obtain ⟨-,-,hsignals,hrec⟩ := hnews
    exact .woken (by simpa [hsleep] using hstate) ⟨htold,hsig hsignals,hrec⟩ (.inl ⟨hmode,hpc⟩)

lemma of_sleeping (hs : x.task.state = .sleeping) :
    x.task.chan = some (.pendingSignals i) ∧ x.vars.sreceived i = false := by
  cases h with
  | asleep _ h hchan => exact ⟨hchan,h.2.2.2⟩
  | gone hstate => simp [hs] at hstate
  | unborn _ hstate | working hstate | woken hstate | handling hstate => cases hs.symm.trans hstate

end

section

variable (h : Kid i x parent) (hrun : x.task.state = .runnable)
include h hrun

lemma of_user (hm : x.mode = .user) : ∃ n, Working i x parent n := by
  obtain ⟨-,hw⟩ | ⟨-,hplace⟩ | ⟨-,-,hmode⟩ := h.of_runnable hrun
  · exact hw
  · simp [hm] at hplace
  · simp [hm] at hmode

lemma of_trapret (hm : x.mode = .trapret) :
    (∃ n, Working i x parent n) ∨ (x.Has i parent .pending ∧ x.pc = .variance) := by
  obtain ⟨-,hw⟩ | ⟨hnews,hplace⟩ | ⟨-,-,hmode⟩ := h.of_runnable hrun
  · exact .inl hw
  · exact .inr ⟨hnews,by simpa [hm] using hplace⟩
  · simp [hm] at hmode

lemma of_kernel (hm : x.mode = .kernel) :
    ((x.pc = .sendSum ∨ x.pc = .pause ∨ x.pc = .sendVariance ∨ x.pc = .exit) ∧
      ∃ n, Working i x parent n) ∨
      (x.Has i parent .pending ∧ x.pc = .paused) := by
  obtain ⟨hfits,hw⟩ | ⟨hnews,hplace⟩ | ⟨-,-,hmode⟩ := h.of_runnable hrun
  · rw [hm] at hfits
    exact .inl ⟨hfits,hw⟩
  · exact .inr ⟨hnews,by simpa [hm] using hplace⟩
  · simp [hm] at hmode

lemma of_handler
    (hm : (∃ msg, x.mode = .mean msg) ∨ x.mode = .received ∨ x.mode = .sigret) :
    x.Has i parent .handling ∧ (x.pc = .test ∨ x.pc = .variance) ∧
      (x.mode = .sigret → x.vars.sreceived i = true) := by
  obtain ⟨hfits,-⟩ | ⟨-,hplace⟩ | ⟨hnews,hpc,hmode⟩ := h.of_runnable hrun
  · obtain ⟨msg,hm⟩ | hm | hm := hm
    all_goals simp [hm,ChildPc.Fits] at hfits
  · obtain ⟨msg,hm⟩ | hm | hm := hm
    all_goals simp [hm] at hplace
  · exact ⟨hnews,hpc,fun hs => by simpa [hs] using hmode⟩

end

end Kid

namespace Variance
variable {job : Job} {s s' : Variance} {i j : Fin CHILDS} {x : Seat}

def seat (s : Variance) (i : Fin CHILDS) : Seat := ⟨s.child i,s.mode (some i),s.task (some i),s.vars i⟩

/-- The seats after one child has changed. -/
lemma seat_eq (hself : s'.seat i = x) (hothers : ∀ j, j ≠ i → s'.seat j = s.seat j) :
    s'.seat = update s.seat i x := by
  funext j
  obtain rfl | hj := eq_or_ne j i
  · rw [update_self,hself]
  · rw [update_of_ne hj,hothers j hj]

/-- The messages in the mailbox of the parent are those sent and not received. -/
def Box (s : Variance) : Prop := ∃ sent got, (s.task none).recvQueue.Follows NUM_MSG sent got ∧
  sent.length = ∑ i, (s.seat i).pc.sent ∧ got.length = s.parent.got

/-- The parent sleeps on its empty mailbox, or with no zombie to find. -/
def Blocked (s : Variance) : Prop :=
  (s.task none).state = .sleeping ∧ s.mode none = .kernel ∧
    (((s.task none).chan = some .recvQueue ∧ s.parent.Receives ∧
        (s.task none).recvQueue.head = (s.task none).recvQueue.tail) ∨
      ((s.task none).chan = some .parent ∧ s.parent.Waits ∧ ∀ i, (s.seat i).task.state ≠ .zombie))

structure Parent (s : Variance) : Prop where
  quiet : (s.task none).pendingSignals.head = (s.task none).pendingSignals.tail
  mode : s.mode none = .user ∨ s.mode none = .trapret ∨ (s.mode none = .kernel ∧ s.parent.Calls)
  chan : ∀ i, (s.task none).chan ≠ some (.pendingSignals i)
  state : (s.task none).state = .runnable ∨ s.Blocked ∨
    ((s.task none).state = .zombie ∧ s.parent = .exit)

structure Inv (s : Variance) : Prop where
  kids : ∀ i, Kid i (s.seat i) s.parent
  box : s.Box
  least : ∀ i, s.parent.least ≤ (s.seat i).pc.sent
  bounded : s.parent.Bounded
  reaped : (Finset.univ.filter fun i => (s.seat i).Reaped).card = s.parent.reaped
  par : Parent s

/-! ### Progress -/

lemma exists_sent_lt (m : ℕ) (h : ∑ i, (s.seat i).pc.sent < CHILDS*m) :
    ∃ i, (s.seat i).pc.sent < m := by
  by_contra hall
  push Not at hall
  have hs : ∑ _i : Fin CHILDS, m ≤ ∑ i, (s.seat i).pc.sent := sum_le_sum fun i _ => hall i
  rw [sum_const,card_univ,Fintype.card_fin,smul_eq_mul] at hs
  omega

lemma Box.empty_iff (h : s.Box) :
    (s.task none).recvQueue.head = (s.task none).recvQueue.tail ↔ ∑ i,
      (s.seat i).pc.sent = s.parent.got := by
  obtain ⟨sent,got,hf,hsent,hgot⟩ := h
  have hle := hf.le
  have hmax : ∑ i, (s.seat i).pc.sent ≤ 10 := sum_le_sum fun i _ => ChildPc.sent_le _
  rw [hf.head,hf.tail]
  rw [Nat.mod_eq_of_lt (by simp only [NUM_MSG]; omega),
    Nat.mod_eq_of_lt (by simp only [NUM_MSG]; omega)]
  rw [hsent,hgot]
  exact eq_comm

lemma child_ticks (job : Job) (h : Kid i (s.seat i) s.parent)
    (hrun : (s.task (some i)).state = .runnable) :
    ∃ s', s.next job (some i) .tick = some s' := by
  rw [← isSome_iff_exists,next,if_pos hrun]
  cases hm : s.mode (some i) with
  | kernel =>
    simp only [tick,hm]
    obtain ⟨hp | hp | hp | hp,-⟩ | ⟨-,hp⟩ := h.of_kernel hrun hm
    all_goals simp only [childKernel,show s.child i = _ from hp]
    · rfl
    · split_ifs <;> rfl
    · rfl
    · rfl
    · rfl
  | _ => simp only [tick,hm,isSome_some]

/-- The parent has one when it is not blocked; in `wait` it may be that a zombie is found. -/
lemma parent_ticks (job : Job) (h : Parent s) (hrun : (s.task none).state = .runnable) :
    ∃ a s', a ≠ Act.interrupt ∧ s.next job none a = some s' := by
  by_cases hreap : ∃ i k, s.mode none = .kernel ∧ s.parent = .wait k ∧ (s.task (some i)).state = .zombie
  · obtain ⟨i,k,hm,hp,hz⟩ := hreap
    have hs : (s.next job none (.reap i)).isSome = true := by
      simp only [next,if_pos hrun,reap,hm,hp,if_pos hz,isSome_some]
    obtain ⟨s',hs'⟩ := isSome_iff_exists.mp hs
    exact ⟨.reap i,s',nofun,hs'⟩
  · have htick : (s.next job none .tick).isSome = true := by
      rw [next,if_pos hrun]
      obtain hm | hm | ⟨hm,hcalls⟩ := h.mode
      · simp only [tick,hm,isSome_some]
      · simp only [tick,hm,isSome_some]
      · simp only [tick,hm]
        cases hp : s.parent with
        | fork k =>
          rw [hp] at hcalls
          rw [parentKernel,hp]
          simp only [dif_pos (show k < CHILDS from hcalls),isSome_some]
        | sendMulti k =>
          rw [parentKernel,hp]
          dsimp only
          split_ifs <;> rfl
        | wait k =>
          have hnone : ¬∃ j, (s.task (some j)).state = .zombie := fun ⟨j,hz⟩ => hreap ⟨j,k,hm,hp,hz⟩
          rw [parentKernel,hp]
          simp only [if_neg hnone]
          split_ifs <;> rfl
        | recvSum k | recvVariance k | exit =>
          rw [parentKernel,hp]
          rfl
    obtain ⟨s',hs'⟩ := isSome_iff_exists.mp htick
    exact ⟨.tick,s',nofun,hs'⟩

namespace Inv

lemma kid_blocked (h : Inv s) (hrun : (s.seat i).task.state ≠ .runnable) :
    ¬s.parent.Forked i ∨ (¬s.parent.Told i ∧ (s.seat i).pc = .paused) ∨
      ((s.seat i).pc = .gone ∧ s.Over (some i)) := by
  cases h.kids i with
  | unborn hforked => exact .inl hforked
  | asleep _ h _ _ hp => exact .inr (.inl ⟨h.2.1,hp⟩)
  | gone hover _ hp => exact .inr (.inr ⟨hp,hover⟩)
  | working hstate | woken hstate | handling hstate => exact absurd hstate hrun

lemma card_reaped (hall : ∀ i, (s.seat i).Reaped) :
    (Finset.univ.filter fun i => (s.seat i).Reaped).card = CHILDS := by
  rw [filter_true_of_mem fun i _ => hall i,card_univ,Fintype.card_fin]

/-- When the parent waits, the children that cannot run have ended. -/
lemma gone_of_wait {k : ℕ} (h : Inv s) (hp : s.parent = .wait k)
    (hrun : (s.seat i).task.state ≠ .runnable) :
    (s.seat i).pc = .gone ∧ s.Over (some i) := by
  obtain hforked | ⟨htold,-⟩ | hgone := h.kid_blocked hrun
  · rw [hp] at hforked
    exact absurd trivial hforked
  · rw [hp] at htold
    exact absurd trivial htold
  · exact hgone

/-- Somebody can go on as long as there is a process. -/
theorem progress (h : Inv s) (hlive : ∃ w, ¬s.Over w) : ∃ w a s', a ≠ Act.interrupt ∧
    s.next job w a = some s' := by
  by_contra hstuck
  have hkids : ∀ i, (s.seat i).task.state ≠ .runnable := by
    intro i hrun
    obtain ⟨s',hs'⟩ := child_ticks job (h.kids i) hrun
    exact hstuck ⟨some i,.tick,s',nofun,hs'⟩
  have hparent : (s.task none).state ≠ .runnable := by
    intro hrun
    obtain ⟨a,s',ha,hs'⟩ := parent_ticks job h.par hrun
    exact hstuck ⟨none,a,s',ha,hs'⟩
  obtain hrun | ⟨-,-,⟨-,hrecv,hempty⟩ | ⟨-,hwait,hnone⟩⟩ | ⟨hz,hexit⟩ := h.par.state
  · exact hparent hrun
  · have hsum := h.box.empty_iff.mp hempty
    cases hp : s.parent with
    | recvSum k =>
      -- a message is missing: its sender is not blocked
      rw [hp] at hsum hrecv
      have hk : k < CHILDS := hrecv
      obtain ⟨i,hi⟩ := exists_sent_lt 1 (by rw [hsum,mul_one]; exact hk)
      obtain hforked | ⟨-,hpc⟩ | ⟨hpc,-⟩ := h.kid_blocked (hkids i)
      · rw [hp] at hforked
        exact hforked trivial
      all_goals
        rw [hpc] at hi
        exact absurd hi (by decide)
    | recvVariance k =>
      rw [hp] at hsum hrecv
      have hk : k < CHILDS := hrecv
      obtain ⟨i,hi⟩ := exists_sent_lt 2 (by rw [hsum,ParentPc.got]; omega)
      obtain hforked | ⟨htold,-⟩ | ⟨hpc,-⟩ := h.kid_blocked (hkids i)
      · rw [hp] at hforked
        exact hforked trivial
      · rw [hp] at htold
        exact htold trivial
      · rw [hpc] at hi
        exact absurd hi (by decide)
    | _ =>
      rw [hp] at hrecv
      exact hrecv.elim
  · cases hp : s.parent with
    | wait k =>
      rw [hp] at hwait
      have hk : k < CHILDS := hwait
      have hcard := h.reaped
      rw [card_reaped,hp] at hcard
      · exact hk.ne' hcard
      · intro i
        obtain ⟨hpc,hover⟩ := h.gone_of_wait hp (hkids i)
        exact ⟨hpc,hover.resolve_left (hnone i)⟩
    | _ =>
      rw [hp] at hwait
      exact hwait.elim
  · have hcard := h.reaped
    rw [hexit] at hcard
    have hall := filter_card_eq (s := Finset.univ) (p := fun i => (s.seat i).Reaped) (by
      rw [hcard,card_univ,Fintype.card_fin]
      rfl)
    obtain ⟨w,hw⟩ := hlive
    cases w with
    | none => exact hw (.inl hz)
    | some i => exact hw (.inr (hall i (mem_univ i)).2)

/-! ### One child changes -/

/-- A step that changes one child and what the parent has done. -/
lemma evolve (h : Inv s) (hseat : s'.seat = update s.seat i x) (hkid : Kid i x s'.parent)
    (hforked : ∀ j, j ≠ i → (s'.parent.Forked j ↔ s.parent.Forked j))
    (htold : ∀ j, j ≠ i → (s'.parent.Told j ↔ s.parent.Told j)) (hbox : s'.Box)
    (hleast : ∀ j, s'.parent.least ≤ (s'.seat j).pc.sent) (hbounded : s'.parent.Bounded)
    (hreaped : s.parent.reaped+(if x.Reaped then 1 else 0) = s'.parent.reaped+if (s.seat i).Reaped
      then 1 else 0)
    (hpar : Parent s') : Inv s' := by
  refine ⟨fun j => ?_,hbox,hleast,hbounded,?_,hpar⟩
  · rw [hseat]
    obtain rfl | hj := eq_or_ne j i
    · rwa [update_self]
    · rw [update_of_ne hj]
      exact (h.kids j).transfer (hforked j hj) (htold j hj)
  · have hsum := sum_update_comp (fun _ (y : Seat) => if y.Reaped then 1 else 0) s.seat i x
    rw [← hseat,← card_filter,← card_filter,h.reaped] at hsum
    omega

end Inv

lemma sum_sent (hseat : s'.seat = update s.seat i x) :
    ∑ j, (s'.seat j).pc.sent+(s.seat i).pc.sent = ∑ j, (s.seat j).pc.sent+x.pc.sent := by
  rw [hseat]
  exact sum_update_comp (fun _ y => y.pc.sent) s.seat i x

/-- The parent is as it was, and has not missed a zombie. -/
lemma Parent.keep (h : Parent s) (htask : s'.task none = s.task none)
    (hmode : s'.mode none = s.mode none)
    (hparent : s'.parent = s.parent)
    (hz : ∀ i, (s'.seat i).task.state = .zombie → (s.seat i).task.state = .zombie) : Parent s' := by
  refine ⟨by rw [htask]; exact h.quiet,by rw [hmode,hparent]; exact h.mode,by rw [htask]; exact h.chan,?_⟩
  rw [Blocked,htask,hmode,hparent]
  refine h.state.imp_right (Or.imp_left ?_)
  rintro ⟨hs,hk,hb⟩
  refine ⟨hs,hk,hb.imp_right ?_⟩
  rintro ⟨hc,hw,hnone⟩
  exact ⟨hc,hw,fun i hi => hnone i (hz i hi)⟩

lemma least_of_le (h : Inv s) (hparent : s'.parent = s.parent) (hseat : s'.seat = update s.seat i x)
    (hsent : (s.seat i).pc.sent ≤ x.pc.sent) (j : Fin CHILDS) :
    s'.parent.least ≤ (s'.seat j).pc.sent := by
  rw [hparent,hseat]
  obtain rfl | hj := eq_or_ne j i
  · rw [update_self]
    exact (h.least j).trans hsent
  · rw [update_of_ne hj]
    exact h.least j

namespace Inv
section
variable (h : Inv s) (hrun : (s.seat i).task.state = .runnable)
include h hrun

/-- A step of a child in which the parent does not take part, or is sent a message. -/
lemma child (hseat : s'.seat = update s.seat i x) (hparent : s'.parent = s.parent)
    (hkid : Kid i x s.parent)
    (hsent : (s.seat i).pc.sent ≤ x.pc.sent) (hx : x.task.state ≠ .unused) (hbox : s'.Box)
    (hpar : Parent s') : Inv s' := by
  refine h.evolve hseat (by rwa [hparent]) ?_ ?_ hbox (least_of_le h hparent hseat hsent) ?_ ?_ hpar
  · exact fun j _ => by rw [hparent]
  · exact fun j _ => by rw [hparent]
  · rw [hparent]
    exact h.bounded
  · rw [hparent,if_neg fun hr => hx hr.2,if_neg fun hr => ?_]
    cases hrun.symm.trans hr.2

/-- A step of a child that is nobody else's business. -/
lemma child_moves (hchild : s'.child = update s.child i x.pc)
    (hmode : s'.mode = update s.mode (some i) x.mode)
    (htask : s'.task = update s.task (some i) x.task) (hvars : s'.vars = update s.vars i x.vars)
    (hparent : s'.parent = s.parent) (hkid : Kid i x s.parent)
    (hx : x.task.state = .runnable ∨ x.task.state = .sleeping)
    (hsent : x.pc.sent = (s.seat i).pc.sent) : Inv s' := by
  have hnone : s'.task none = s.task none := by rw [htask,update_of_ne (some_ne_none i).symm]
  have hseat : s'.seat = update s.seat i x := by
    refine seat_eq ?_ fun j hj => ?_
    · simp [seat,hchild,hmode,htask,hvars]
    · simp [seat,hchild,hmode,htask,hvars,hj]
  refine h.child hrun hseat hparent hkid hsent.ge ?_ ?_ (h.par.keep hnone ?_ hparent fun j hj => ?_)
  · intro hu
    simp [hu] at hx
  · obtain ⟨sent,got,hf,hs,hg⟩ := h.box
    have hsum := sum_sent hseat
    rw [Box,hnone,hparent]
    exact ⟨sent,got,hf,by omega,hg⟩
  · rw [hmode,update_of_ne (some_ne_none i).symm]
  · rw [hseat] at hj
    obtain rfl | hne := eq_or_ne j i
    · rw [update_self] at hj
      simp [hj] at hx
    · rwa [update_of_ne hne] at hj

end
end Inv

/-! ### A child on its own -/

namespace Inv
section
variable (h : Inv s) (hrun : (s.seat i).task.state = .runnable)
include h hrun

lemma child_setMode {mode : Mode} (hkid : Kid i { s.seat i with mode := mode } s.parent) :
    Inv (s.setMode (some i) mode) :=
  h.child_moves hrun (update_eq_self ..).symm rfl (update_eq_self ..).symm
    (update_eq_self ..).symm rfl hkid (.inl hrun) rfl

lemma child_interrupt (hmode : s.mode (some i) = .user) : Inv (s.setMode (some i) .trapret) := by
  obtain ⟨n,hw⟩ := (h.kids i).of_user hrun hmode
  exact h.child_setMode hrun (.working hrun n ⟨hw.news,hw.place,hw.eax,hw.chan⟩ trivial)

/-- A child goes on in its program, in user mode. -/
lemma child_goes {n : News} {pc : ChildPc} {v : Vars} (hmode : s.mode (some i) = .user)
    (hw : Working i (s.seat i) s.parent n) (hpc : pc ∈ n.places) (heax : pc = .flag → v.eax = i)
    (hrec : v.sreceived = (s.vars i).sreceived) (hsent : pc.sent = (s.seat i).pc.sent) :
    Inv { s.setChild i pc with vars := update s.vars i v } := by
  refine h.child_moves (x := ⟨pc,.user,s.task (some i),v⟩) hrun rfl ?_ (update_eq_self ..).symm rfl
    rfl ?_ (.inl hrun) hsent
  · rw [← hmode]
    exact (update_eq_self ..).symm
  · refine .working hrun n ⟨?_,hpc,heax,hw.chan⟩ trivial
    rw [Seat.Has,hrec]
    exact hw.news

lemma childUser (hmode : s.mode (some i) = .user) : Inv (s.childUser job i) := by
  obtain ⟨n,hw⟩ := (h.kids i).of_user hrun hmode
  have hplace : s.child i ∈ n.places := hw.place
  have hstay : ∀ pc, pc ∈ n.places → pc ≠ .flag → pc.sent = (s.child i).sent →
      Inv (s.setChild i pc) := by
    intro pc hpc hflag hsent
    have hgoes := h.child_goes hrun hmode hw hpc (fun hp => absurd hp hflag) rfl hsent
    rwa [update_eq_self] at hgoes
  rw [Variance.childUser]
  split
  case h_1 hp =>
    rw [hp] at hplace hstay
    refine hstay _ ?_ nofun rfl
    cases n <;> simp_all [News.places]
  case h_2 hp =>
    rw [hp] at hplace
    refine h.child_goes hrun hmode hw ?_ (fun _ => rfl) rfl (by rw [seat,hp]; rfl)
    cases n <;> simp_all [News.places]
  case h_3 hp =>
    have hnews := hw.news.received_iff (by rintro rfl; simp [News.places] at hplace)
    rw [hp] at hplace hstay
    rw [show (s.vars i).eax = i from hw.eax hp]
    change (s.vars i).sreceived i = true ↔ _ at hnews
    split_ifs with hflag
    · refine hstay _ ?_ nofun rfl
      cases n <;> simp_all [News.places]
    · refine hstay _ ?_ nofun rfl
      rw [hnews.mp (by simpa using hflag)]
      decide
  case h_4 hp =>
    rw [hp] at hplace
    refine h.child_goes hrun hmode hw ?_ nofun rfl (by rw [seat,hp]; rfl)
    cases n <;> simp_all [News.places]
  case h_5 h1 h2 h3 h4 =>
    exact h.child_setMode hrun
      (.working hrun n ⟨hw.news,hw.place,hw.eax,hw.chan⟩ (News.fits_kernel hplace h1 h2 h3 h4))

/-- The way back to user mode. A signal is not taken between the test and `pause_signal`. -/
lemma child_trapret (hmode : s.mode (some i) = .trapret)
    (hprompt : s.child i = .flag ∨ s.child i = .pause → ¬(s.task (some i)).Delivers) :
    Inv (s.trapret (some i)) := by
  have hkid := (h.kids i).of_trapret hrun hmode
  rw [trapret]
  split_ifs with hd
  · have hnews : (s.seat i).Has i s.parent .pending ∧ (s.child i = .test ∨ s.child i = .variance) := by
      obtain ⟨n,hw⟩ | ⟨hnews,hp⟩ := hkid
      · obtain rfl := hw.news.delivers_iff.mp hd
        have hplace := hw.place
        refine ⟨hw.news,.inl ?_⟩
        by_contra hp
        refine hprompt ?_ hd
        simpa [News.places,seat,hp] using hplace
      · exact ⟨hnews,.inr hp⟩
    obtain ⟨⟨htold,⟨-,hhead,htail⟩,-⟩,hpc⟩ := hnews
    change (s.task (some i)).pendingSignals.head = 0 at hhead
    have hnext : ((s.task (some i)).pendingSignals.head+1)%MAX_SIG = 1 := by rw [hhead]; rfl
    exact h.child_moves (x := ⟨_,_,(s.task (some i)).enterHandler,_⟩) hrun
      (update_eq_self ..).symm rfl rfl
      (update_eq_self ..).symm rfl (.handling hrun ⟨htold,rfl,hnext,htail⟩ (.inl ⟨_,rfl⟩) hpc)
        (.inl hrun) rfl
  · refine h.child_setMode hrun ?_
    obtain ⟨n,hw⟩ | ⟨hnews,-⟩ := hkid
    · exact .working hrun n ⟨hw.news,hw.place,hw.eax,hw.chan⟩ trivial
    · exact absurd (hnews.delivers_iff.mpr rfl) hd

lemma storeMean {msg : Msg} (hmode : s.mode (some i) = .mean msg) : Inv (s.storeMean (some i) msg) := by
  obtain ⟨hnews,hpc,-⟩ := (h.kids i).of_handler hrun (.inl ⟨msg,hmode⟩)
  exact h.child_moves (x := ⟨_,_,_,{ s.vars i with meanReceived := msg }⟩) hrun
    (update_eq_self ..).symm rfl
    (update_eq_self ..).symm rfl rfl (.handling hrun hnews (.inr (.inl rfl)) hpc) (.inl hrun) rfl

lemma storeReceived (hmode : s.mode (some i) = .received) : Inv (s.storeReceived (some i)) := by
  obtain ⟨hnews,hpc,-⟩ := (h.kids i).of_handler hrun (.inr (.inl hmode))
  exact h.child_moves
    (x := ⟨_,_,_,{ s.vars i with sreceived := update (s.vars i).sreceived i true }⟩) hrun
    (update_eq_self ..).symm rfl (update_eq_self ..).symm rfl rfl
    (.handling hrun hnews (.inr (.inr ⟨rfl,update_self ..⟩)) hpc) (.inl hrun) rfl

lemma sigRet (hmode : s.mode (some i) = .sigret) : Inv (s.sigRet (some i)) := by
  obtain ⟨⟨htold,-,hhead,htail⟩,hpc,hrec⟩ := (h.kids i).of_handler hrun (.inr (.inr hmode))
  refine h.child_moves
    (x := ⟨s.child i,.trapret,{ s.task (some i) with handling := false },
    { s.vars i with eax := 0 }⟩)
    hrun (update_eq_self ..).symm rfl rfl rfl rfl
    (.working hrun .handled ⟨⟨htold,⟨rfl,hhead,htail⟩,hrec hmode⟩,?_,?_,nofun⟩ trivial) (.inl hrun) rfl
  · obtain hp | hp := hpc
    all_goals simp [show s.child i = _ from hp,News.places]
  · intro hp
    obtain hp' | hp' := hpc
    all_goals cases hp.symm.trans hp'

end
end Inv

/-! ### System calls of a child -/

lemma Inv.not_woken (h : Inv s) {c : Option Chan} (hc : c ≠ some (.pendingSignals j)) :
    ¬((s.task (some j)).state = .sleeping ∧ (s.task (some j)).chan = c) := by
  rintro ⟨hs,rfl⟩
  exact hc ((h.kids j).of_sleeping hs).1

lemma send_task_none (sender : ℤ) (mess : Msg) : (s.send sender mess).task none =
    { s.task none with
      recvQueue := (s.task none).recvQueue.push NUM_MSG (sender,mess)
      state := if (s.task none).state = .sleeping then .runnable else (s.task none).state } := by
  simp only [send,wakeup1,setTask,update_self,and_true]
  split_ifs with hs
  · rfl
  · rfl

lemma Inv.send_task_some (h : Inv s) (sender : ℤ) (mess : Msg) (j : Fin CHILDS) :
    (s.send sender mess).task (some j) = s.task (some j) := by
  have hne : (some j : Who) ≠ none := nofun
  simp only [send,wakeup1,setTask,update_of_ne hne]
  exact if_neg (h.not_woken (h.par.chan j))

namespace Inv
section
variable (h : Inv s) (hrun : (s.seat i).task.state = .runnable)
include h hrun

lemma child_send {sender : ℤ} {mess : Msg} {pc : ChildPc} {n : News}
    (hsent : pc.sent = (s.seat i).pc.sent+1)
    (hw : Working i (s.seat i) s.parent n) (hpc : pc ∈ n.places) (hflag : pc ≠ .flag) :
    Inv (((s.send sender mess).setMode (some i) .trapret).setChild i pc) := by
  set s₁ := ((s.send sender mess).setMode (some i) .trapret).setChild i pc
  have htask : ∀ j, s₁.task (some j) = s.task (some j) := h.send_task_some sender mess
  have hnone : s₁.task none = _ := send_task_none sender mess
  have hseat : s₁.seat = update s.seat i { s.seat i with pc := pc, mode := .trapret } := by
    refine seat_eq ?_ fun j hj => ?_
    all_goals rw [seat,htask]
    · simp [s₁,setMode,setChild,seat,send,wakeup1,setTask]
    · simp [s₁,setMode,setChild,seat,send,wakeup1,setTask,hj]
  refine h.child hrun hseat rfl
    (.working hrun n ⟨hw.news,hpc,fun hp => absurd hp hflag,hw.chan⟩ trivial) ?_ ?_ ?_ ?_
  · exact hsent.ge.trans' (Nat.le_succ _)
  · rw [hrun]
    decide
  · obtain ⟨sent,got,hf,hs,hg⟩ := h.box
    have hsum := sum_sent hseat
    rw [Box,hnone]
    refine ⟨sent++[(sender,mess)],got,hf.push,?_,hg⟩
    rw [List.length_append,List.length_singleton]
    dsimp only at hsum
    omega
  · refine ⟨?_,h.par.mode,?_,?_⟩
    · rw [hnone]
      exact h.par.quiet
    · rw [hnone]
      exact h.par.chan
    · rw [hnone]
      obtain hr | ⟨hs,-⟩ | ⟨hz,he⟩ := h.par.state
      · simp [hr]
      · simp [hs]
      · exact .inr (.inr ⟨by simp [hz],he⟩)

lemma child_exit (hpc : s.child i = .exit) (hnews : (s.seat i).Has i s.parent .handled) :
    Inv (((s.setTask (some i) { s.task (some i) with state := .zombie }).wakeup1
      (some .parent)).setChild i .gone) := by
  set s₁ := ((s.setTask (some i) { s.task (some i) with state := .zombie }).wakeup1
    (some .parent)).setChild i .gone
  have hnone : s₁.task none = if (s.task none).state = .sleeping ∧ (s.task none).chan = some .parent
    then
      { s.task none with state := .runnable } else s.task none := rfl
  have hseat : s₁.seat =
      update s.seat i
      { s.seat i with pc := .gone, task := { s.task (some i) with state := .zombie } } := by
    refine seat_eq ?_ fun j hj => ?_
    · simp [seat,s₁,setChild,wakeup1,setTask]
    · have hc : some Chan.parent ≠ some (.pendingSignals j) := nofun
      simp [seat,s₁,setChild,wakeup1,setTask,hj,h.not_woken hc]
  have hsent : (s.seat i).pc.sent = 2 := by rw [seat,hpc]; rfl
  refine h.child hrun hseat rfl (.gone (.inl rfl) hnews rfl) hsent.le nofun ?_ ?_
  · obtain ⟨sent,got,hf,hs,hg⟩ := h.box
    have hsum := sum_sent hseat
    rw [hsent] at hsum
    refine ⟨sent,got,?_,hs.trans (Nat.add_right_cancel hsum).symm,hg⟩
    rw [hnone]
    split_ifs <;> exact hf
  · by_cases hsleep : (s.task none).state = .sleeping ∧ (s.task none).chan = some .parent
    · rw [if_pos hsleep] at hnone
      refine ⟨?_,h.par.mode,?_,?_⟩
      all_goals rw [hnone]
      · exact h.par.quiet
      · exact h.par.chan
      · exact .inl rfl
    · rw [if_neg hsleep] at hnone
      refine ⟨?_,h.par.mode,?_,?_⟩
      all_goals rw [hnone]
      · exact h.par.quiet
      · exact h.par.chan
      · rw [Blocked,hnone]
        obtain hr | ⟨hs,hk,hrecv | ⟨hc,-⟩⟩ | hz := h.par.state
        · exact .inl hr
        · exact .inr (.inl ⟨hs,hk,.inl hrecv⟩)
        · exact absurd ⟨hs,hc⟩ hsleep
        · exact .inr (.inr hz)

/-- A child comes back from `pause_signal` with a signal. -/
lemma child_returns {t : Task} (hnews : News.pending.At i s.parent t ((s.vars i).sreceived i))
    (hpc : (s.seat i).pc.sent = 1)
    (ht : t.state = .runnable) (htask : s'.task = update s.task (some i) t)
    (hparent : s'.parent = s.parent)
    (hchild : s'.child = update s.child i .variance) (hmode : s'.mode = update s.mode (some i) .trapret)
    (hvars : s'.vars = s.vars) : Inv s' :=
  h.child_moves (x := ⟨.variance,.trapret,t,s.vars i⟩) hrun hchild hmode htask
    (hvars.trans (update_eq_self ..).symm) hparent
    (.woken ht hnews (.inr ⟨rfl,rfl⟩)) (.inl ht) hpc.symm

lemma childKernel (hmode : s.mode (some i) = .kernel)
    (hs : s.childKernel job i = some s') : Inv s' := by
  obtain ⟨hp,n,hw⟩ | ⟨hnews,hp⟩ := (h.kids i).of_kernel hrun hmode
  · have hplace : s.child i ∈ n.places := hw.place
    have hsent : ∀ pc, s.child i = pc → (s.seat i).pc.sent = pc.sent :=
      fun pc hp => congrArg ChildPc.sent hp
    change s.child i = .sendSum ∨ s.child i = .pause ∨ s.child i = .sendVariance ∨
      s.child i = .exit at hp
    obtain hp | hp | hp | hp := hp
    all_goals
      simp only [Variance.childKernel,hp] at hs
      rw [hp] at hplace
    · cases hs
      refine h.child_send hrun (by rw [hsent _ hp]; rfl) hw ?_ nofun
      cases n <;> simp_all [News.places]
    · split_ifs at hs with hempty
      · cases hs
        have hn : n = .waiting := by
          have hd := hw.news.delivers_iff
          have hnot : ¬(s.seat i).task.Delivers := fun hd => hd.2 hempty
          cases n <;> simp_all [News.places]
        subst hn
        refine h.child_moves
          (x := ⟨.paused,.kernel,
          { s.task (some i) with state := .sleeping, chan := some (.pendingSignals i) },_⟩)
          hrun rfl ?_ rfl (update_eq_self ..).symm rfl (.asleep rfl hw.news rfl rfl rfl) (.inr rfl)
            (hsent _ hp).symm
        rw [← hmode]
        exact (update_eq_self ..).symm
      · cases hs
        have hn : n = .pending := by
          have hnews := hw.news
          cases n <;> simp_all [News.places,News.At,Task.Signals,seat]
        subst hn
        exact h.child_returns hrun hw.news (hsent _ hp) hrun (update_eq_self ..).symm rfl rfl rfl rfl
    · cases hs
      refine h.child_send hrun (by rw [hsent _ hp]; rfl) hw ?_ nofun
      cases n <;> simp_all [News.places]
    · cases hs
      have hn : n = .handled := by cases n <;> simp_all [News.places]
      subst hn
      exact h.child_exit hrun hp hw.news
  · have hp' : s.child i = .paused := hp
    simp only [Variance.childKernel,hp'] at hs
    cases hs
    exact h.child_returns (t := { s.task (some i) with chan := none }) hrun hnews
      (by rw [hp]; rfl) hrun rfl rfl rfl rfl rfl

end
end Inv

/-! ### The parent -/

namespace Inv

/-- A step of the parent that leaves the children as they are. -/
lemma parent (h : Inv s) (hseat : s'.seat = s.seat)
    (hforked : ∀ i, s'.parent.Forked i ↔ s.parent.Forked i)
    (htold : ∀ i, s'.parent.Told i ↔ s.parent.Told i) (hbox : s'.Box)
    (hleast : ∀ i, s'.parent.least ≤ (s.seat i).pc.sent)
    (hbounded : s'.parent.Bounded) (hreaped : s'.parent.reaped = s.parent.reaped)
    (hpar : Parent s') : Inv s' := by
  refine h.evolve (i := 0) (hseat.trans (update_eq_self 0 s.seat).symm)
    ((h.kids 0).transfer (hforked 0) (htold 0))
    (fun j _ => hforked j) (fun j _ => htold j) hbox ?_ hbounded (by rw [hreaped]) hpar
  rw [hseat]
  exact hleast

lemma all_sent {m : ℕ} (h : Inv s) (hgot : s.parent.got = CHILDS*m)
    (hmax : ∀ i, (s.seat i).pc.sent ≤ m) (i : Fin CHILDS) :
    m ≤ (s.seat i).pc.sent := by
  obtain ⟨sent,got,hf,hs,hg⟩ := h.box
  have hle := hf.le
  by_contra hlt
  have hsum : ∑ j, (s.seat j).pc.sent < ∑ _j : Fin CHILDS, m :=
    sum_lt_sum (fun j _ => hmax j) ⟨i,mem_univ i,not_le.mp hlt⟩
  rw [sum_const,card_univ,Fintype.card_fin,smul_eq_mul] at hsum
  omega

section
variable (h : Inv s) (hrun : (s.task none).state = .runnable)
include h hrun

lemma parent_setMode {mode : Mode}
    (hmode : mode = .user ∨ mode = .trapret ∨ (mode = .kernel ∧ s.parent.Calls)) :
    Inv (s.setMode none mode) :=
  h.parent rfl (fun _ => .rfl) (fun _ => .rfl) h.box h.least h.bounded rfl
    ⟨h.par.quiet,hmode,h.par.chan,.inl hrun⟩

lemma parent_leaves {p q : ParentPc} (hmode : s.mode none = .user) (hq : s.parent = q)
    (hforked : ∀ i, p.Forked i ↔ q.Forked i) (htold : ∀ i, p.Told i ↔ q.Told i) (hgot : q.got = p.got)
    (hleast : ∀ i, p.least ≤ (s.seat i).pc.sent) (hbounded : p.Bounded)
    (hreaped : p.reaped = q.reaped) :
    Inv { s with parent := p } := by
  subst hq
  refine h.parent rfl hforked htold ?_ hleast hbounded hreaped
    ⟨h.par.quiet,.inl hmode,h.par.chan,.inl hrun⟩
  obtain ⟨sent,got,hf,hs,hg⟩ := h.box
  exact ⟨sent,got,hf,hs,hg.trans hgot⟩

lemma parentUser (hmode : s.mode none = .user) : Inv s.parentUser := by
  have hb := h.bounded
  have hcall : s.parent.Calls → Inv (s.setMode none .kernel) :=
    fun hc => h.parent_setMode hrun (.inr (.inr ⟨rfl,hc⟩))
  rw [Variance.parentUser]
  cases hp : s.parent with
  | fork k =>
    rw [hp] at hb hcall
    dsimp only
    split_ifs with hk
    · exact hcall hk
    · exact h.parent_leaves hrun hmode hp
        (fun i => iff_of_true trivial (i.isLt.trans_le (not_lt.mp hk))) (fun _ => .rfl) rfl
        (fun _ => Nat.zero_le _) (Nat.zero_le _) rfl
  | recvSum k =>
    rw [hp] at hb hcall
    dsimp only
    split_ifs with hk
    · exact hcall hk
    · have heq : k = CHILDS := le_antisymm hb (not_lt.mp hk)
      have hsent : ∀ i, 1 ≤ (s.seat i).pc.sent := by
        refine h.all_sent ?_ fun i => (h.kids i).sent_le ?_
        · rw [hp]
          exact heq.trans (mul_one _).symm
        · rw [hp]
          exact id
      exact h.parent_leaves hrun hmode hp (fun _ => .rfl)
        (fun i => iff_of_false (Nat.not_lt_zero i) id) heq hsent
        (Nat.zero_le _) rfl
  | sendMulti k | exit =>
    rw [hp] at hcall
    exact hcall trivial
  | recvVariance k =>
    rw [hp] at hb hcall
    dsimp only
    split_ifs with hk
    · exact hcall hk
    · obtain rfl : k = CHILDS := le_antisymm hb (not_lt.mp hk)
      have hsent : ∀ i, 2 ≤ (s.seat i).pc.sent :=
        h.all_sent (by rw [hp]; rfl) fun i => ChildPc.sent_le _
      exact h.parent_leaves hrun hmode hp (fun _ => .rfl) (fun _ => .rfl) rfl hsent (Nat.zero_le _) rfl
  | wait k =>
    rw [hp] at hb hcall
    dsimp only
    split_ifs with hk
    · exact hcall hk
    · have hleast := h.least
      rw [hp] at hleast
      exact h.parent_leaves hrun hmode hp (fun _ => .rfl) (fun _ => .rfl) rfl hleast trivial
        (le_antisymm (not_lt.mp hk) hb)

/-- `fork` makes child `k`. -/
lemma fork {k : ℕ} (hp : s.parent = .fork k) (hk : k < CHILDS) :
    Inv { (s.fork ⟨k,hk⟩).setMode none .trapret with parent := .fork (k+1) } := by
  have hunborn : (s.seat ⟨k,hk⟩).pc = .sum := by
    have hkid := h.kids ⟨k,hk⟩
    rw [hp] at hkid
    obtain ⟨-,hpc⟩ | ⟨-,-,hw⟩ | ⟨-,hnews,-⟩ := hkid.of_untold id
    · exact hpc
    · exact absurd hw.news.1 (lt_irrefl k)
    · exact absurd hnews.1 (lt_irrefl k)
  set s₁ : Variance := { (s.fork ⟨k,hk⟩).setMode none .trapret with parent := .fork (k+1) }
  have hseat : s₁.seat = update s.seat ⟨k,hk⟩
      ⟨.sum,.trapret,(s.task (some ⟨k,hk⟩)).born,⟨fun _ => 0,fun _ => false,fun _ => 0,0⟩⟩ := by
    refine seat_eq ?_ fun j hj => ?_
    · simp [s₁,seat,Variance.fork,setMode,setTask]
    · simp [s₁,seat,Variance.fork,setMode,setTask,hj]
  refine h.evolve hseat ?_ ?_ ?_ ?_ (fun _ => Nat.zero_le _) hk ?_
    ⟨h.par.quiet,.inr (.inl rfl),h.par.chan,.inl hrun⟩
  · exact .working rfl .waiting
      ⟨⟨Nat.lt_succ_self k,id,⟨rfl,rfl,rfl⟩,rfl⟩,by simp [News.places],nofun,fun _ => rfl⟩ trivial
  · intro j hj
    rw [hp]
    have hjk : (j : ℕ) ≠ k := fun he => hj (Fin.ext he)
    change (j : ℕ) < k+1 ↔ (j : ℕ) < k
    omega
  · rw [hp]
    exact fun _ _ => .rfl
  · obtain ⟨sent,got,hf,hs,hg⟩ := h.box
    have hsum := sum_sent hseat
    rw [hunborn] at hsum
    rw [hp] at hg
    exact ⟨sent,got,hf,hs.trans (Nat.add_right_cancel hsum).symm,hg⟩
  · rw [hp]
    simp [Seat.Reaped,hunborn,s₁,ParentPc.reaped]

/-- `recv_mess`: the parent sleeps on its empty mailbox, or takes a message. -/
lemma recv {got : Variance → Msg → Variance} {p q : ParentPc} (hmode : s.mode none = .kernel)
    (hq : s.parent = q)
    (hrecv : q.Receives)
    (hgot : ∀ s msg, (got s msg).task = s.task ∧ (got s msg).mode = s.mode ∧ (got s msg).seat = s.seat ∧
      (got s msg).parent = p)
    (hp : p.got = q.got+1) (hforked : ∀ i, p.Forked i ↔ q.Forked i) (htold : ∀ i, p.Told i ↔ q.Told i)
    (hleast : p.least = q.least) (hbounded : p.Bounded) (hreaped : p.reaped = q.reaped) :
    Inv (s.recv got) := by
  subst hq
  rw [Variance.recv]
  split_ifs with hempty
  · exact h.parent rfl (fun _ => .rfl) (fun _ => .rfl) h.box h.least h.bounded rfl
      ⟨h.par.quiet,h.par.mode,nofun,.inr (.inl ⟨rfl,hmode,.inl ⟨rfl,hrecv,hempty⟩⟩)⟩
  · obtain ⟨htask,hmode',hseat,rfl⟩ := hgot ((s.setTask none { s.task none with
      chan := none
      recvQueue := (s.task none).recvQueue.pop NUM_MSG }).setMode none .trapret)
        (s.task none).recvQueue.front.2
    refine h.parent hseat hforked htold ?_ (by rw [hleast]; exact h.least) hbounded
      hreaped ⟨?_,?_,?_,?_⟩
    · rw [Box,htask,hseat]
      obtain ⟨sent,got,hf,hs,hg⟩ := h.box
      refine ⟨sent,got++[(s.task none).recvQueue.front],hf.pop (by decide) hempty,hs,?_⟩
      rw [List.length_append,List.length_singleton,hg,hp]
    · rw [htask]
      exact h.par.quiet
    · rw [hmode']
      exact .inr (.inl rfl)
    · rw [htask]
      nofun
    · rw [htask]
      exact .inl hrun

/-- The round of `send_multicast` for child `k`. -/
lemma multicast {k : ℕ} {sender : ℤ} {mess : Msg} (hmode : s.mode none = .kernel)
    (hp : s.parent = .sendMulti k)
    (hk : k < CHILDS) : Inv { s.multicast sender ⟨k,hk⟩ mess with parent := .sendMulti (k+1) } := by
  have hnot : ¬s.parent.Told ⟨k,hk⟩ := by
    rw [hp]
    exact lt_irrefl k
  have hleast := h.least
  have hchan : ∀ j, j ≠ ⟨k,hk⟩ → (s.task (some ⟨k,hk⟩)).chan ≠ some (.pendingSignals j) := by
    intro j hj hc
    obtain ⟨hforked,-⟩ | ⟨-,-,hw⟩ | ⟨-,-,hself,-⟩ := (h.kids ⟨k,hk⟩).of_untold hnot
    · rw [hp] at hforked
      exact hforked trivial
    · exact nomatch (hw.chan rfl).symm.trans hc
    · exact hj (Chan.pendingSignals.inj (Option.some.inj (hself.symm.trans hc))).symm
  set s₁ : Variance := { s.multicast sender ⟨k,hk⟩ mess with parent := .sendMulti (k+1) }
  have hnone : s₁.task none = s.task none := by
    have hne : (none : Who) ≠ some ⟨k,hk⟩ := nofun
    simp [s₁,Variance.multicast,wakeup1,setTask,hne,hrun]
  have hseat : s₁.seat = update s.seat ⟨k,hk⟩ { s.seat ⟨k,hk⟩ with task := s₁.task (some ⟨k,hk⟩) } := by
    refine seat_eq rfl fun j hj => ?_
    simp [s₁,seat,Variance.multicast,wakeup1,setTask,hj,h.not_woken (hchan j hj)]
  have hself : s₁.task (some ⟨k,hk⟩) = { s.task (some ⟨k,hk⟩) with
      recvMultiQueue := (s.task (some ⟨k,hk⟩)).recvMultiQueue.push NUM_MSG (sender,mess)
      pendingSignals := (s.task (some ⟨k,hk⟩)).pendingSignals.push MAX_SIG (1,sender)
      state := if (s.task (some ⟨k,hk⟩)).state = .sleeping then .runnable
        else (s.task (some ⟨k,hk⟩)).state } := by
    simp only [s₁,Variance.multicast,wakeup1,setTask,update_self,and_true]
    split_ifs <;> rfl
  rw [hp] at hleast
  refine h.evolve hseat ((h.kids ⟨k,hk⟩).told hnot (Nat.lt_succ_self k) (hleast _) ?_ ?_) ?_ ?_
    ?_ ?_ hk ?_ ?_
  · rw [hself]
    rintro ⟨hh,hhead,htail⟩
    refine ⟨hh,hhead,?_⟩
    change ((s.seat ⟨k,hk⟩).task.pendingSignals.tail+1)%MAX_SIG = 1
    rw [htail]
    rfl
  · rw [hself]
    rfl
  · rw [hp]
    exact fun _ _ => .rfl
  · intro j hj
    rw [hp]
    have hjk : (j : ℕ) ≠ k := fun he => hj (Fin.ext he)
    change (j : ℕ) < k+1 ↔ (j : ℕ) < k
    omega
  · obtain ⟨sent,got,hf,hs,hg⟩ := h.box
    have hsum := sum_sent hseat
    rw [hp] at hg
    rw [Box,hnone]
    exact ⟨sent,got,hf,hs.trans (Nat.add_right_cancel hsum).symm,hg⟩
  · exact hleast
  · have hsent := (h.kids ⟨k,hk⟩).sent_le hnot
    have hgone : (s.seat ⟨k,hk⟩).pc ≠ .gone := fun hg => absurd hsent (by rw [hg]; decide)
    simp [Seat.Reaped,hgone,hp,s₁,ParentPc.reaped]
  · refine ⟨?_,.inr (.inr ⟨hmode,trivial⟩),?_,.inl ?_⟩
    all_goals rw [hnone]
    · exact h.par.quiet
    · exact h.par.chan
    · exact hrun

end

/-- `wait` without a zombie. -/
lemma wait_sleep {k : ℕ} (h : Inv s) (hmode : s.mode none = .kernel) (hp : s.parent = .wait k)
    (hk : k < CHILDS)
    (hnone : ¬∃ j, (s.task (some j)).state = .zombie) : Inv (s.sleep none .parent) := by
  refine h.parent rfl (fun _ => .rfl) (fun _ => .rfl) h.box h.least h.bounded rfl
    ⟨h.par.quiet,h.par.mode,nofun,.inr (.inl ⟨rfl,hmode,.inr ⟨rfl,?_,fun i hz => hnone ⟨i,hz⟩⟩⟩)⟩
  change s.parent.Waits
  rw [hp]
  exact hk

/-- There is a child as long as `wait` has not found all of them. -/
lemma exists_kid {k : ℕ} (h : Inv s) (hp : s.parent = .wait k) (hk : k < CHILDS) :
    ∃ j, (s.task (some j)).state ≠ .unused := by
  by_contra hall
  push Not at hall
  have hcard := h.reaped
  rw [card_reaped,hp] at hcard
  · exact hk.ne' hcard
  · intro i
    refine ⟨(h.gone_of_wait hp fun hr => ?_).1,hall i⟩
    cases hr.symm.trans (hall i)

/-- `wait` finds child `i`. -/
lemma reap {k : ℕ} (h : Inv s) (hrun : (s.task none).state = .runnable) (hp : s.parent = .wait k)
    (hk : k < CHILDS)
    (hz : (s.task (some i)).state = .zombie) :
    Inv { ((s.setTask (some i) { s.task (some i) with state := .unused }).setTask none
        { s.task none with chan := none }).setMode none .trapret with parent := .wait (k+1) } := by
  have hgone : (s.seat i).pc = .gone ∧ (s.seat i).Has i s.parent .handled := by
    cases h.kids i with
    | gone _ hnews hpc => exact ⟨hpc,hnews⟩
    | unborn _ hstate | working hstate | asleep hstate | woken hstate | handling hstate =>
      cases hz.symm.trans hstate
  obtain ⟨hpc,hnews⟩ := hgone
  set s₁ : Variance := { ((s.setTask (some i) { s.task (some i) with state := .unused }).setTask none
    { s.task none with chan := none }).setMode none .trapret with parent := .wait (k+1) }
  have hseat : s₁.seat =
      update s.seat i { s.seat i with task := { s.task (some i) with state := .unused } } := by
    refine seat_eq ?_ fun j hj => ?_
    · simp [s₁,seat,setTask,setMode]
    · simp [s₁,seat,setTask,setMode,hj]
  have hleast := h.least
  rw [hp] at hleast hnews
  refine h.evolve hseat (.gone (.inr rfl) hnews hpc) ?_ ?_ ?_ ?_ hk ?_
    ⟨h.par.quiet,.inr (.inl rfl),nofun,.inl hrun⟩
  · rw [hp]
    exact fun _ _ => .rfl
  · rw [hp]
    exact fun _ _ => .rfl
  · obtain ⟨sent,got,hf,hs,hg⟩ := h.box
    have hsum := sum_sent hseat
    rw [hp] at hg
    exact ⟨sent,got,hf,hs.trans (Nat.add_right_cancel hsum).symm,hg⟩
  · exact hleast
  · have hz' : (s.seat i).task.state ≠ .unused := fun hu => nomatch hz.symm.trans hu
    simp [Seat.Reaped,hpc,hz',hp,s₁,ParentPc.reaped]

end Inv

/-! ### Runs -/

lemma Parent.calls (h : Parent s) (hmode : s.mode none = .kernel) : s.parent.Calls := by
  obtain hm | hm | ⟨-,hc⟩ := h.mode
  · cases hmode.symm.trans hm
  · cases hmode.symm.trans hm
  · exact hc

namespace Inv

lemma parentKernel (h : Inv s) (hrun : (s.task none).state = .runnable) (hmode : s.mode none = .kernel)
    (hs : s.parentKernel job = some s') : Inv s' := by
  have hcalls := h.par.calls hmode
  have hb := h.bounded
  rw [Variance.parentKernel] at hs
  cases hp : s.parent with
  | fork k =>
    rw [hp] at hs hcalls
    dsimp only at hs
    rw [dif_pos (show k < CHILDS from hcalls)] at hs
    cases hs
    exact h.fork hrun hp hcalls
  | recvSum k | recvVariance k =>
    rw [hp] at hs hcalls
    cases hs
    exact h.recv hrun hmode hp hcalls (fun _ _ => ⟨rfl,rfl,rfl,rfl⟩) rfl (fun _ => .rfl)
      (fun _ => .rfl) rfl hcalls rfl
  | sendMulti k =>
    rw [hp] at hs hb
    dsimp only at hs
    split_ifs at hs with hk
    · cases hs
      exact h.multicast hrun hmode hp hk
    · cases hs
      have heq : k = CHILDS := le_antisymm hb (not_lt.mp hk)
      have hleast := h.least
      obtain ⟨sent,got,hf,hs,hg⟩ := h.box
      rw [hp] at hleast hg
      refine h.parent rfl ?_ ?_ ⟨sent,got,hf,hs,hg⟩ hleast (Nat.zero_le _) ?_
        ⟨h.par.quiet,.inr (.inl rfl),h.par.chan,.inl hrun⟩
      · rw [hp]
        exact fun _ => .rfl
      · rw [hp,heq]
        exact fun i => iff_of_true trivial i.isLt
      · rw [hp]
        rfl
  | wait k =>
    rw [hp] at hs hcalls
    dsimp only at hs
    split_ifs at hs with hz hkids
    · cases hs
      exact h.wait_sleep hmode hp hcalls hz
    · exact absurd (h.exists_kid hp hcalls) hkids
  | exit =>
    rw [hp] at hs
    cases hs
    exact h.parent rfl (fun _ => .rfl) (fun _ => .rfl) h.box h.least h.bounded rfl
      ⟨h.par.quiet,h.par.mode,h.par.chan,.inr (.inr ⟨rfl,hp⟩)⟩

lemma tick {w : Who} (h : Inv s) (hrun : (s.task w).state = .runnable) (hprompt : s.Prompt (w,.tick))
    (hs : s.tick job w = some s') : Inv s' := by
  cases w with
  | none =>
    obtain hm | hm | ⟨hm,-⟩ := h.par.mode
    all_goals simp only [Variance.tick,hm] at hs
    · cases hs
      exact h.parentUser hrun hm
    · cases hs
      rw [trapret,if_neg fun hd => hd.2 h.par.quiet]
      exact h.parent_setMode hrun (.inl rfl)
    · exact h.parentKernel hrun hm hs
  | some i =>
    cases hm : s.mode (some i) with
    | kernel =>
      simp only [Variance.tick,hm] at hs
      exact h.childKernel hrun hm hs
    | user =>
      simp only [Variance.tick,hm] at hs
      cases hs
      exact h.childUser hrun hm
    | trapret =>
      simp only [Variance.tick,hm] at hs
      cases hs
      exact h.child_trapret hrun hm fun hp => hprompt hp (by rw [hm]; rfl)
    | mean msg =>
      simp only [Variance.tick,hm] at hs
      cases hs
      exact h.storeMean hrun hm
    | received =>
      simp only [Variance.tick,hm] at hs
      cases hs
      exact h.storeReceived hrun hm
    | sigret =>
      simp only [Variance.tick,hm] at hs
      cases hs
      exact h.sigRet hrun hm

lemma interrupt {w : Who} (h : Inv s) (hrun : (s.task w).state = .runnable)
    (hs : s.interrupt w = some s') : Inv s' := by
  cases hm : s.mode w with
  | user =>
    simp only [Variance.interrupt,hm] at hs
    cases hs
    cases w with
    | none => exact h.parent_setMode hrun (.inr (.inl rfl))
    | some i => exact h.child_interrupt hrun hm
  | kernel | trapret =>
    simp only [Variance.interrupt,hm] at hs
    exact nomatch hs
  | mean | received | sigret =>
    simp only [Variance.interrupt,hm] at hs
    cases hs
    exact h

lemma step {a : Who×Act} (h : Inv s) (hprompt : s.Prompt a) (hs : Step job s a s') : Inv s' := by
  obtain ⟨w,a⟩ := a
  obtain ⟨hrun,hs⟩ := ite_none_right_eq_some.mp hs
  cases a with
  | tick => exact h.tick hrun hprompt hs
  | interrupt => exact h.interrupt hrun hs
  | reap i =>
    cases w with
    | none =>
      simp only [Variance.reap] at hs
      split at hs
      case h_1 k hm hp =>
        obtain ⟨hz,⟨⟩⟩ := ite_none_right_eq_some.mp hs
        have hcalls := h.par.calls hm
        rw [hp] at hcalls
        exact h.reap hrun hp hcalls hz
      case h_2 => exact nomatch hs
    | some j => exact nomatch hs

lemma initial : Inv Variance.initial where
  kids _ := .unborn (Nat.not_lt_zero _) rfl rfl
  box := ⟨[],[],RingBuffer.Follows.reset (Variance.initial.task none).recvQueue,rfl,rfl⟩
  least _ := Nat.zero_le _
  bounded := Nat.zero_le _
  reaped := by decide
  par := ⟨rfl,.inl rfl,nofun,.inl rfl⟩

end Inv

/-- As long as no signal is delivered to a child from the first load of its test until it has
entered `pause_signal`, no child sleeps after its handler has run, and some process can go on until
all have ended. -/
theorem variance_never_hangs {as : List (Who×Act)}
    (h : Run (fun s a t => Step job s a t ∧ s.Prompt a) initial as s) :
    (∀ i, (s.task (some i)).state = .sleeping → (s.vars i).sreceived i = false) ∧
    ((∃ w, ¬s.Over w) → ∃ w a s', a ≠ Act.interrupt ∧ Step job s (w,a) s') := by
  have hinv : Inv s :=
    Run.invariant (fun _ s => Inv s) (fun _ _ _ _ hi hs => hi.step hs.2 hs.1) h Inv.initial
  exact ⟨fun i hs => ((hinv.kids i).of_sleeping hs).2,hinv.progress⟩

/-! ### A run that hangs -/

def blank : Job := ⟨fun _ => 0,fun _ _ => 0,fun _ _ => 0,fun _ _ _ => 0⟩

def ticks (w : Who) (k : ℕ) : List (Who×Act) := List.replicate k (w,.tick)

/-- All children are there and the parent is in `recv_mess`. -/
def forks : List (Who×Act) := ticks none 17

theorem variance_never_hangs_paused : ∃ s,
    Run (fun s a t => Step blank s a t ∧ s.Prompt a) initial (forks++ticks (some 0) 9) s ∧
    (s.task (some 0)).state = .sleeping ∧ (s.vars 0).sreceived 0 = false ∧
    ∃ w a s', a ≠ Act.interrupt ∧ Step blank s (w,a) s' := by
  have he : (exec (fun a s => if s.Prompt a then next blank s a.1 a.2 else none)
    (forks++ticks (some 0) 9)
      initial).isSome = true := by decide +kernel
  obtain ⟨s,hs⟩ := isSome_iff_exists.mp he
  have hrun : Run (fun s a t => Step blank s a t ∧ s.Prompt a) initial
    (forks++ticks (some 0) 9) s := .of_exec_if hs
  have hsome : (exec (fun a s => if s.Prompt a then next blank s a.1 a.2 else none)
    (forks++ticks (some 0) 9)
      initial).map (fun s => decide ((s.task (some 0)).state = .sleeping)) = some true :=
        by decide +kernel
  rw [hs,map_some,some_inj,decide_eq_true_eq] at hsome
  obtain ⟨hflag,hgo⟩ := variance_never_hangs hrun
  refine ⟨s,hrun,hsome,hflag 0 hsome,hgo ⟨some 0,?_⟩⟩
  rw [Over,hsome]
  decide

/-- All children have sent their sums. The timer goes off in child `i` when it has tested its flag,
and the signal comes before it is back in user mode. It goes through its handler and into
`pause_signal`. -/
def crossing (i : Fin CHILDS) : List (Who×Act) :=
  forks++(List.finRange CHILDS).flatMap (fun j => ticks (some j) 5)++ticks (some i) 2++
    [(some i,.interrupt)]++ticks none 24++ticks (some i) 7

/-- The other children end, and the parent receives their variances. -/
def hang (i : Fin CHILDS) : List (Who×Act) :=
  crossing i++((List.finRange CHILDS).filter (· ≠ i)).flatMap
    (fun j => ticks (some j) 15)++ticks none 13

/-- The first child sleeps although its handler has run, the parent waits for its variance, and
nobody can go on. -/
theorem variance_hangs : ∃ s, Run (Step blank) initial (hang 0) s ∧
    (s.task (some 0)).state = .sleeping ∧ (s.vars 0).sreceived 0 = true ∧ ¬s.Over (some 0) ∧
      ¬s.Over none ∧
    ∀ w a s', ¬Step blank s (w,a) s' := by
  have he : (exec (fun a s => next blank s a.1 a.2) (hang 0) initial).map (fun s => decide
      ((s.task (some 0)).state = .sleeping ∧ (s.vars 0).sreceived 0 = true ∧
        (s.task none).state = .sleeping ∧
        ∀ w, (s.task w).state ≠ .runnable)) = some true := by decide +kernel
  obtain ⟨s,hs,hd⟩ := map_eq_some_iff.mp he
  obtain ⟨hchild,hflag,hparent,hnone⟩ := of_decide_eq_true hd
  refine ⟨s,.of_exec hs,hchild,hflag,?_,?_,?_⟩
  · rw [Over,hchild]
    decide
  · rw [Over,hparent]
    decide
  · intro w a s' hstep
    exact hnone w (ite_none_right_eq_some.mp hstep).1

end Variance
end JacobiXv6.Assig
