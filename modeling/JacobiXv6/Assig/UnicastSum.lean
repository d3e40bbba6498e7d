import JacobiXv6.Assig.Variance
import JacobiXv6.Library.Bytes

/-! The program `assig1_8` with type 0. A message has 8 bytes, a partial sum 4: every message brings
the word that stands after `partial_sum` along, and `recv` stores it over the next element of
`recv_psums`, which has not been received yet. -/
namespace JacobiXv6.Assig.UnicastSum
open Kernel Library Function Finset

/-- What the processes have before the first `fork`: the elements of `arr`, which are digits, the
pids of the children to be, and the word that a child finds after its `partial_sum`. -/
structure Job where
  digit : ℕ → Fin 10
  pid : Fin CHILDS → ℤ
  after : Fin CHILDS → BitVec 32

/-- The statements of the parent with type 0 from the first `fork` on; it is done at `recv CHILDS`.
With type 1 the additions are left to `Job.mean`. -/
inductive SumPc
  | fork (i : ℕ)
  | recv (i : ℕ)
  | add (i : ℕ)
  deriving DecidableEq

/-- The statements of a child with type 0; at `sum k` its index is `k`. -/
inductive PartPc
  | unborn
  | sum (k : ℕ)
  | send
  | exit
  deriving DecidableEq

/-- The bytes from `recv_psums` on, with those past the array, are in the memory `recvPsums`. -/
structure Sum where
  parent : SumPc
  sleeping : Bool
  recvQueue : MessageList
  recvPsums : Sector
  totSum : BitVec 32
  child : Fin CHILDS → PartPc
  partialSum : Fin CHILDS → BitVec 32

section Program
variable (size : ℕ)

def startIndex (i : ℕ) : ℕ := size/CHILDS*i

def endIndex (i : ℕ) : ℕ := if i = CHILDS-1 then size else startIndex size i+size/CHILDS

/-- `arr[i]`, a `short`. -/
def Job.arr (job : Job) (i : ℕ) : BitVec 16 := BitVec.ofNat 16 (job.digit i)

/-- The 8 bytes from `partial_sum` on. -/
def Job.message (job : Job) (i : Fin CHILDS) (partialSum : BitVec 32) : Msg := fun k =>
  (wordBytes partialSum++wordBytes (job.after i)).getD k 0

namespace Sum
variable (job : Job) (s : Sum)

def fork (i : Fin CHILDS) : Sum :=
  { s with child := update s.child i (.sum (startIndex size i))
           partialSum := update s.partialSum i 0#32 }

/-- `recv_mess` to `recv_psums[i]`: the message, or it sleeps. -/
def recv (i : ℕ) : Sum :=
  if s.recvQueue.head = s.recvQueue.tail then { s with sleeping := true }
  else
    { s with recvPsums := s.recvPsums.paste (4*i) (List.ofFn s.recvQueue.front.2)
             recvQueue := s.recvQueue.pop NUM_MSG
             parent := .add i }

/-- `recv_psums[i]` -/
def cell (i : ℕ) : BitVec 32 := wordAt (s.recvPsums.slice (4*i) 4) 0

def parentTick : Option Sum :=
  match s.parent with
  | .fork i =>
    if h : i < CHILDS then some { s.fork size ⟨i,h⟩ with parent := .fork (i+1) }
    else some { s with parent := .recv 0 }
  | .recv i => if i < CHILDS ∧ s.sleeping = false then some (s.recv i) else none
  | .add i => some { s with totSum := s.totSum+s.cell i, parent := .recv (i+1) }

/-- `send_mess` to the parent, which it wakes up. -/
def send (i : Fin CHILDS) : Sum :=
  { s with recvQueue := s.recvQueue.push NUM_MSG (job.pid i,job.message i (s.partialSum i))
           sleeping := false }

def setChild (i : Fin CHILDS) (pc : PartPc) : Sum := { s with child := update s.child i pc }

def childTick (i : Fin CHILDS) : Option Sum :=
  match s.child i with
  | .unborn => none
  | .sum k =>
    if k < endIndex size i then
      some { s.setChild i (.sum (k+1)) with
        partialSum := update s.partialSum i (s.partialSum i+(job.arr k).signExtend 32) }
    else some (s.setChild i .send)
  | .send => some ((s.send job i).setChild i .exit)
  | .exit => none

def tick : Who → Sum → Option Sum
  | none, s => s.parentTick size
  | some i, s => s.childTick size job i

/-- Before the first `fork`. -/
structure Starts (s : Sum) : Prop where
  parent : s.parent = .fork 0
  child : ∀ i, s.child i = .unborn
  box : ∃ r : MessageList, s.recvQueue = r.reset
  totSum : s.totSum = 0

end Sum
end Program

/-! ### The ledger -/

section Ledger
variable {size : ℕ} {job : Job}

/-- What the loop of a child adds up from `a` to `b`. -/
def Job.sumIco (job : Job) (a b : ℕ) : BitVec 32 := ∑ k ∈ Finset.Ico a b, (job.arr k).signExtend 32

def Job.share (job : Job) (size : ℕ) (i : Fin CHILDS) : BitVec 32 :=
  job.sumIco (startIndex size i) (endIndex size i)

def low (m : ℤ×Msg) : BitVec 32 := wordAt (List.ofFn m.2) 0

lemma low_message (i : Fin CHILDS) (p : ℤ) (v : BitVec 32) : low (p,job.message i v) = v := by
  have hbytes : List.ofFn (job.message i v) = wordBytes v++wordBytes (job.after i) := by
    simp [Job.message,wordBytes,List.ofFn_succ]
  rw [low,hbytes,wordAt_wordBytes_append]

def SumPc.received : SumPc → ℕ
  | fork _ => 0
  | recv i => i
  | add i => i+1

def PartPc.sent : PartPc → ℕ
  | exit => 1
  | _ => 0

def Job.given (job : Job) (size : ℕ) (i : Fin CHILDS) : PartPc → BitVec 32
  | .exit => job.share size i
  | _ => 0

def Sum.pending (s : Sum) : BitVec 32 :=
  match s.parent with
  | .add i => s.cell i
  | _ => 0

/-- A child at its statement, with its `partial_sum`. -/
def Kid (size : ℕ) (job : Job) (i : Fin CHILDS) (v : BitVec 32) : PartPc → Prop
  | .sum k => startIndex size i ≤ k ∧ k ≤ endIndex size i ∧ v = job.sumIco (startIndex size i) k
  | .send => v = job.share size i
  | _ => True

def SumPc.Forked : SumPc → Fin CHILDS → Prop
  | fork i, j => j < i
  | _, _ => True

structure Inv (size : ℕ) (job : Job) (s : Sum) (sent got : List (ℤ×Msg)) : Prop where
  kids : ∀ i, Kid size job i (s.partialSum i) (s.child i)
  unborn : ∀ i, ¬s.parent.Forked i → s.child i = .unborn
  box : s.recvQueue.Follows NUM_MSG sent got
  sentLength : sent.length = ∑ i, (s.child i).sent
  sentSum : (sent.map low).sum = ∑ i, job.given size i (s.child i)
  gotLength : got.length = s.parent.received
  total : s.totSum+s.pending = (got.map low).sum

variable {s s' : Sum} {sent got : List (ℤ×Msg)} {i : Fin CHILDS}

lemma startIndex_le_endIndex (size : ℕ) (i : Fin CHILDS) : startIndex size i ≤ endIndex size i := by
  rw [endIndex]
  split_ifs with hi
  · rw [startIndex,hi]
    exact (Nat.mul_le_mul_left _ (by decide)).trans (Nat.div_mul_le_self size CHILDS)
  · exact Nat.le_add_right _ _

lemma sum_share (job : Job) (size : ℕ) : ∑ i, job.share size i = job.sumIco 0 size := by
  have hjoin : ∀ {a b c : ℕ}, a ≤ b → b ≤ c → job.sumIco a b+job.sumIco b c = job.sumIco a c :=
    fun hab hbc => sum_Ico_consecutive _ hab hbc
  have hsplit : ∀ i < CHILDS-1, endIndex size i = startIndex size (i+1) := by
    intro i hi
    rw [endIndex,if_neg hi.ne,startIndex,startIndex,Nat.mul_succ]
  have hle : ∀ i < CHILDS, startIndex size i ≤ endIndex size i :=
    fun i hi => startIndex_le_endIndex size ⟨i,hi⟩
  have hupto : ∀ i < CHILDS-1, job.sumIco 0 (startIndex size i)+
      job.sumIco (startIndex size i) (endIndex size i) = job.sumIco 0 (startIndex size (i+1)) := by
    intro i hi
    rw [hjoin (Nat.zero_le _) (hle i (by omega)),hsplit i hi]
  have hlast : job.sumIco 0 (startIndex size 4)+job.sumIco (startIndex size 4) (endIndex size 4) =
      job.sumIco 0 size := hjoin (Nat.zero_le _) (hle 4 (by decide))
  have hzero : job.sumIco 0 (startIndex size 0) = 0 := by simp [startIndex,Job.sumIco]
  rw [← hlast,← hupto 3 (by decide),← hupto 2 (by decide),← hupto 1 (by decide),
    ← hupto 0 (by decide),hzero,zero_add,Fin.sum_univ_five]
  rfl

lemma Inv.start (h : s.Starts) : Inv size job s [] [] where
  kids := by
    intro i
    rw [h.child i]
    trivial
  unborn := fun i _ => h.child i
  box := by
    obtain ⟨r,hr⟩ := h.box
    rw [hr]
    exact .reset r
  sentLength := by simp [h.child,PartPc.sent]
  sentSum := by simp [h.child,Job.given]
  gotLength := by simp [h.parent,SumPc.received]
  total := by simp [h.parent,h.totSum,Sum.pending]

variable {pc : PartPc}

lemma given_of_sent (h : pc.sent = 0) : job.given size i pc = 0 := by
  cases pc with
  | exit => exact absurd h one_ne_zero
  | _ => rfl

section

variable (h : Inv size job s sent got)
include h

lemma Inv.child
    (hchild : s'.child = update s.child i pc) (hsum : ∀ j ≠ i, s'.partialSum j = s.partialSum j)
    (hkid : Kid size job i (s'.partialSum i) pc)
    (hborn : ∀ j, ¬s'.parent.Forked j → ¬s.parent.Forked j ∧ j ≠ i)
    (hbox : s'.recvQueue = s.recvQueue) (hold : (s.child i).sent = 0) (hnew : pc.sent = 0)
    (hgot : s'.parent.received = s.parent.received)
    (htotal : s'.totSum+s'.pending = s.totSum+s.pending) : Inv size job s' sent got where
  kids := by
    intro j
    rw [hchild]
    obtain rfl | hj := eq_or_ne j i
    · rwa [update_self]
    · rw [update_of_ne hj,hsum j hj]
      exact h.kids j
  unborn := by
    intro j hj
    obtain ⟨hj,hne⟩ := hborn j hj
    rw [hchild,update_of_ne hne]
    exact h.unborn j hj
  box := hbox ▸ h.box
  sentLength := by
    have hs := sum_update_comp (fun _ => PartPc.sent) s.child i pc
    rw [hold,hnew] at hs
    rw [hchild,h.sentLength]
    exact hs.symm
  sentSum := by
    have hs := sum_update_comp (job.given size) s.child i pc
    rw [given_of_sent hold,given_of_sent hnew,add_zero,add_zero] at hs
    rw [hchild,h.sentSum]
    exact hs.symm
  gotLength := hgot ▸ h.gotLength
  total := htotal ▸ h.total

lemma Inv.forked (hc : s.child i ≠ .unborn) : s.parent.Forked i := by
  by_contra hf
  exact hc (h.unborn i hf)

lemma Inv.setChild (v : BitVec 32)
    (hkid : Kid size job i v pc) (hc : s.child i ≠ .unborn) (hold : (s.child i).sent = 0)
    (hnew : pc.sent = 0) :
    Inv size job { s.setChild i pc with partialSum := update s.partialSum i v } sent got := by
  apply h.child rfl (fun j hj => update_of_ne hj v s.partialSum) (by simpa using hkid)
  · intro j hj
    refine ⟨hj,?_⟩
    rintro rfl
    exact hj (h.forked hc)
  · rfl
  · exact hold
  · exact hnew
  · rfl
  · rfl

lemma Inv.send (hc : s.child i = .send) :
    Inv size job ((s.send job i).setChild i .exit)
      (sent++[(job.pid i,job.message i (s.partialSum i))]) got where
  kids := by
    intro j
    obtain rfl | hj := eq_or_ne j i
    · simp [Sum.setChild,Kid]
    · simpa [Sum.setChild,Sum.send,hj] using h.kids j
  unborn := by
    intro j hj
    obtain rfl | hne := eq_or_ne j i
    · exact absurd (h.forked (by simp [hc])) hj
    · simpa [Sum.setChild,Sum.send,hne] using h.unborn j hj
  box := h.box.push
  sentLength := by
    have hs := sum_update_comp (fun _ => PartPc.sent) s.child i .exit
    rw [hc] at hs
    rw [List.length_append,h.sentLength]
    exact hs.symm
  sentSum := by
    have hs := sum_update_comp (job.given size) s.child i .exit
    have hk := h.kids i
    simp only [hc,Job.given,Kid,add_zero] at hs hk
    simp only [List.map_append,List.sum_append,List.map_singleton,List.sum_singleton,h.sentSum,
      low_message,hk,Sum.setChild,Sum.send]
    exact hs.symm
  gotLength := h.gotLength
  total := h.total

lemma Inv.childTick (ht : s.childTick size job i = some s') :
    ∃ sent', Inv size job s' sent' got := by
  have hk := h.kids i
  rw [Sum.childTick] at ht
  cases hc : s.child i with
  | unborn => simp [hc] at ht
  | exit => simp [hc] at ht
  | send =>
    simp only [hc,Option.some.injEq] at ht
    exact ⟨_,ht ▸ h.send hc⟩
  | sum k =>
    simp only [hc,Kid] at ht hk
    split_ifs at ht with hlt
    · refine ⟨sent,Option.some.inj ht ▸ h.setChild _ ?_ (by simp [hc]) (by simp [hc,PartPc.sent]) rfl⟩
      refine ⟨by omega,by omega,?_⟩
      rw [hk.2.2,Job.sumIco,Job.sumIco,sum_Ico_succ_top hk.1]
    · have hend : k = endIndex size i := by omega
      have hkid : Kid size job i (s.partialSum i) .send := by
        rw [Kid,Job.share,← hend]
        exact hk.2.2
      refine ⟨sent,?_⟩
      have hs := h.setChild (s.partialSum i) hkid (by simp [hc]) (by simp [hc,PartPc.sent]) rfl
      rw [update_eq_self] at hs
      exact Option.some.inj ht ▸ hs

lemma Inv.recv {i : ℕ} (hp : s.parent = .recv i)
    (hne : s.recvQueue.head ≠ s.recvQueue.tail) :
    Inv size job (s.recv i) sent (got++[s.recvQueue.front]) := by
  rw [Sum.recv,if_neg hne]
  exact {
    kids := h.kids
    unborn := fun _ hj => absurd trivial hj
    box := h.box.pop (by decide) hne
    sentLength := h.sentLength
    sentSum := h.sentSum
    gotLength := by simp [h.gotLength,hp,SumPc.received]
    total := by
      have ht := h.total
      simp only [Sum.pending,hp,add_zero] at ht
      simp only [Sum.pending,Sum.cell,List.map_append,List.sum_append,List.map_singleton,
        List.sum_singleton,ht]
      rw [s.recvPsums.slice_paste_take (by simp),wordAt_take]
      rfl }

lemma Inv.parentTick (ht : s.parentTick size = some s') :
    ∃ got', Inv size job s' sent got' := by
  rw [Sum.parentTick] at ht
  cases hp : s.parent with
  | fork i =>
    simp only [hp] at ht
    split_ifs at ht with hi
    · refine ⟨got,Option.some.inj ht ▸ ?_⟩
      have hun : s.child ⟨i,hi⟩ = .unborn := by
        apply h.unborn
        simp [hp,SumPc.Forked]
      apply h.child (i := ⟨i,hi⟩) rfl (fun j hj => update_of_ne hj _ _)
      · simpa [Sum.fork,Kid,Job.sumIco] using startIndex_le_endIndex size ⟨i,hi⟩
      · intro j hj
        simp only [SumPc.Forked,hp] at hj ⊢
        refine ⟨by omega,?_⟩
        rintro rfl
        exact hj (Nat.lt_succ_self i)
      · rfl
      · rw [hun]; rfl
      · rfl
      · rw [hp]; rfl
      · simp [Sum.pending,hp,Sum.fork]
    · refine ⟨got,Option.some.inj ht ▸ ?_⟩
      exact {
        kids := h.kids
        unborn := fun _ hj => absurd trivial hj
        box := h.box
        sentLength := h.sentLength
        sentSum := h.sentSum
        gotLength := by simp [h.gotLength,hp,SumPc.received]
        total := by
          have ht := h.total
          simpa [Sum.pending,hp] using ht }
  | recv i =>
    simp only [hp] at ht
    split_ifs at ht with hi
    by_cases he : s.recvQueue.head = s.recvQueue.tail
    · refine ⟨got,Option.some.inj ht ▸ ?_⟩
      rw [Sum.recv,if_pos he]
      exact { h with }
    · exact ⟨_,Option.some.inj ht ▸ h.recv hp he⟩
  | add i =>
    simp only [hp,Option.some.injEq] at ht
    refine ⟨got,ht ▸ ?_⟩
    exact {
      kids := h.kids
      unborn := fun _ hj => absurd trivial hj
      box := h.box
      sentLength := h.sentLength
      sentSum := h.sentSum
      gotLength := by simp [h.gotLength,hp,SumPc.received]
      total := by
        have ht := h.total
        simpa [Sum.pending,hp] using ht }

lemma Inv.tick {w : Who} (ht : s.tick size job w = some s') :
    ∃ sent' got', Inv size job s' sent' got' := by
  cases w with
  | none =>
    obtain ⟨got',h'⟩ := h.parentTick ht
    exact ⟨sent,got',h'⟩
  | some i =>
    obtain ⟨sent',h'⟩ := h.childTick ht
    exact ⟨sent',got,h'⟩

lemma Inv.finished (hp : s.parent = .recv CHILDS) :
    s.totSum = job.sumIco 0 size := by
  have hone : ∀ i ∈ Finset.univ, (s.child i).sent ≤ 1 := by
    intro i _
    cases s.child i <;> simp [PartPc.sent]
  have hle := h.box.le
  have hgot := h.gotLength
  have hsent := h.sentLength
  have hmost : ∑ i, (s.child i).sent ≤ ∑ _i : Fin CHILDS, 1 := sum_le_sum hone
  have hcount : ∑ _i : Fin CHILDS, 1 = CHILDS := by simp
  rw [hp,SumPc.received] at hgot
  have hall := (sum_eq_sum_iff_of_le hone).mp (by omega)
  have hgiven : ∀ i, job.given size i (s.child i) = job.share size i := by
    intro i
    have hi := hall i (mem_univ i)
    cases hc : s.child i with
    | exit => rfl
    | _ => simp [hc,PartPc.sent] at hi
  have heq : got = sent := h.box.sublist.eq_of_length (by omega)
  have htotal := h.total
  rw [Sum.pending,hp,add_zero,heq,h.sentSum,sum_congr rfl fun i _ => hgiven i] at htotal
  rw [htotal,sum_share]

end

end Ledger

lemma sumIco_eq (job : Job) (n : ℕ) :
    job.sumIco 0 n = BitVec.ofNat 32 (∑ k ∈ Finset.range n, (job.digit k : ℕ)) := by
  have hdigit : ∀ d : Fin 10, (BitVec.ofNat 16 d).signExtend 32 = BitVec.ofNat 32 d := by decide
  induction n with
  | zero => simp [Job.sumIco]
  | succ n ih =>
    rw [Job.sumIco] at ih ⊢
    rw [sum_Ico_succ_top (Nat.zero_le n),ih,sum_range_succ,BitVec.ofNat_add,
      Job.arr,hdigit]

/-- Whatever the order in which the partial sums arrive, the parent adds them up to the sum of the
array. -/
theorem totSum_eq_sum (size : ℕ) (hsize : 9*size < 2^31) (job : Job) (start s : Sum) (ws : List Who)
    (hstart : start.Starts) (h : Run (fun s w s' => Sum.tick size job w s = some s') start ws s)
    (hdone : s.parent = .recv CHILDS) :
    s.totSum.toInt = ∑ k ∈ Finset.range size, (job.digit k : ℤ) := by
  have hinv : ∃ sent got, Inv size job s sent got := by
    refine h.invariant (fun _ s => ∃ sent got, Inv size job s sent got) ?_ ⟨[],[],Inv.start hstart⟩
    rintro _ _ w _ ⟨sent,got,hi⟩ hs
    exact hi.tick hs
  obtain ⟨sent,got,hinv⟩ := hinv
  have hbound : ∑ k ∈ Finset.range size, (job.digit k : ℕ) ≤ size*9 := by
    simpa using sum_le_card_nsmul (Finset.range size) (fun k => (job.digit k : ℕ)) 9
      (fun k _ => Nat.le_of_lt_succ (job.digit k).isLt)
  rw [hinv.finished hdone,sumIco_eq,BitVec.toInt_eq_toNat_of_lt (by rw [BitVec.toNat_ofNat]; omega),
    BitVec.toNat_ofNat,Nat.mod_eq_of_lt (by omega),Nat.cast_sum]

/-- Five elements, `0` to `4`. -/
def five : Job := ⟨fun k => Fin.ofNat 10 k,fun i => 4+i,fun _ => 7#32⟩

def fiveStart : Sum :=
  ⟨.fork 0,false,⟨fun _ => (0,fun _ => 0),0,0⟩,fun _ => 0,0,fun _ => .unborn,fun _ => 0⟩

/-- The parent waits for the first message, and the children are done in another order than they
were forked. -/
def fiveRun (a b c d e : Who) : List Who :=
  List.replicate 7 none++[c,c,c]++[none,none]++[e,e,e]++[b,b,b]++[none,none]++[a,d,a,d,a,d]++
    List.replicate 6 none

theorem totSum_eq_sum_five : ∃ ws s, Run (fun s w s' => Sum.tick 5 five w s = some s') fiveStart ws s ∧
    s.parent = .recv CHILDS ∧ s.totSum.toInt = ∑ k ∈ Finset.range 5, (five.digit k : ℤ) := by
  have hexec : (exec (Sum.tick 5 five) (fiveRun (some 0) (some 1) (some 2) (some 3) (some 4))
    fiveStart).map
      (fun s => decide (s.parent = .recv CHILDS)) = some true := by decide +kernel
  obtain ⟨s,hs,hdone⟩ := Option.map_eq_some_iff.mp hexec
  have hrun := Run.of_exec hs
  exact ⟨_,s,hrun,of_decide_eq_true hdone,totSum_eq_sum 5 (by norm_num) five fiveStart s _
    ⟨rfl,fun _ => rfl,⟨fiveStart.recvQueue,rfl⟩,rfl⟩ hrun (of_decide_eq_true hdone)⟩

end JacobiXv6.Assig.UnicastSum
