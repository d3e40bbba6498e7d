import JacobiXv6.Library.Counters
import JacobiXv6.Library.Holders
import JacobiXv6.Kernel.Pipe

/-! A pipe is a byte stream: what the reads return is what the writes have stored, in the same
order, and the counters may wrap around as often as they like. -/
namespace JacobiXv6.Kernel
open Library Function List
namespace PipeSys

variable {ι : Type*} {s s' : PipeSys ι} {p q : ι} {c d : PipePc} {a : PipeAct}

/-- The bytes that the holder of the lock has taken and not returned. -/
def hand (s : PipeSys ι) : List Byte := s.lock.elim [] fun p => (s.pc p).inHand

def taken (s : PipeSys ι) : List Byte := s.returned++s.hand

lemma wakeup_pc (s : PipeSys ι) (chan : PipeChan) (q : ι) :
    (s.wakeup chan).pc q = (s.pc q).wake chan := rfl

lemma job_wake (chan : PipeChan) (c : PipePc) : (c.wake chan).job = c.job := by
  unfold PipePc.wake
  split <;> rfl

lemma holdsLock_wake (chan : PipeChan) (c : PipePc) : (c.wake chan).holdsLock = c.holdsLock := by
  unfold PipePc.wake
  split <;> rfl

lemma inHand_wake (chan : PipeChan) (c : PipePc) : (c.wake chan).inHand = c.inHand := by
  unfold PipePc.wake
  split <;> rfl

lemma of_wake_copy {chan : PipeChan} {n : ℤ} {addr : List Byte} (h : c.wake chan = .copy n addr) :
    c = .copy n addr := by
  unfold PipePc.wake at h
  split at h
  · exact nomatch h
  · exact nomatch h
  · exact h

@[simp] lemma hand_wakeup (s : PipeSys ι) (chan : PipeChan) : (s.wakeup chan).hand = s.hand := by
  simp only [hand,wakeup,inHand_wake]

lemma hand_eq_nil (h : s.lock = none) : s.hand = [] := by rw [hand,h,Option.elim_none]

lemma hand_eq (h : s.lock = some p) : s.hand = (s.pc p).inHand := by rw [hand,h,Option.elim_some]

lemma taken_eq (hl : s.lock = none) : s.taken = s.returned := by
  rw [taken,hand_eq_nil hl,append_nil]

/-! ### The writes and their bytes -/

/-- The writes under way and those that are done have stored what they should have, and no
two of them have the same number. -/
structure Calls (s : PipeSys ι) : Prop where
  fresh : ∀ q j, (s.pc q).job = some j → j.c < s.calls
  tagged : ∀ x ∈ s.stored, x.1 < s.calls
  apart : ∀ q r j k, (s.pc q).job = some j → (s.pc r).job = some k → j.c = k.c → q = r
  progress : ∀ q j, (s.pc q).job = some j →
    j.i ≤ j.n.toNat ∧ s.storedBy j.c = (List.range j.i).map j.addr
  done : ∀ c addr n, .wrote c addr n ∈ s.rets → c < s.calls ∧
    (∀ q j, (s.pc q).job = some j → j.c ≠ c) ∧ s.storedBy c = (List.range n.toNat).map addr

namespace Calls

lemma initial (data : ℕ → Byte) (killed : ι → Bool) : Calls (initial data killed) :=
  ⟨nofun,nofun,nofun,nofun,nofun⟩

lemma keep (h : Calls s) (hjob : ∀ q j, (s'.pc q).job = some j → (s.pc q).job = some j)
    (hcalls : s'.calls = s.calls) (hstored : s'.stored = s.stored)
    (hrets : ∀ c addr n, .wrote c addr n ∈ s'.rets → .wrote c addr n ∈ s.rets) : Calls s' := by
  have hby : s'.storedBy = s.storedBy := by
    funext c
    simp only [storedBy,hstored]
  refine ⟨?_,?_,?_,?_,?_⟩
  · intro q j hq
    exact hcalls ▸ h.fresh q j (hjob q j hq)
  · rw [hstored,hcalls]
    exact h.tagged
  · intro q r j k hq hr
    exact h.apart q r j k (hjob q j hq) (hjob r k hr)
  · intro q j hq
    rw [hby]
    exact h.progress q j (hjob q j hq)
  · intro c addr n hc
    obtain ⟨hlt,hother,hsum⟩ := h.done c addr n (hrets c addr n hc)
    rw [hby,hcalls]
    exact ⟨hlt,fun q j hq => hother q j (hjob q j hq),hsum⟩

lemma wakeup (h : Calls s) (chan : PipeChan) : Calls (s.wakeup chan) :=
  h.keep (fun _ _ hq => (job_wake chan _).symm.trans hq) rfl rfl fun _ _ _ => id

variable [DecidableEq ι]

lemma job_goto {j : PipeJob} (hc : c.job = none ∨ c.job = (s.pc p).job)
    (hq : ((s.goto p c).pc q).job = some j) : (s.pc q).job = some j := by
  obtain rfl | hne := eq_or_ne q p
  · rw [goto_pc,update_self] at hq
    rcases hc with hc | hc
    · exact nomatch hc.symm.trans hq
    · exact hc.symm.trans hq
  · rwa [goto_pc,update_of_ne hne] at hq

lemma goto (h : Calls s) (hc : c.job = none ∨ c.job = (s.pc p).job) : Calls (s.goto p c) :=
  h.keep (fun _ _ => job_goto hc) rfl rfl fun _ _ _ => id

lemma ret {r : PipeRet} (h : Calls s) (hr : ∀ c addr n, r ≠ .wrote c addr n) :
    Calls (s.ret p r) := by
  refine h.keep (fun _ _ => job_goto (.inl rfl)) rfl rfl ?_
  intro c addr n hc
  obtain hc | hc := mem_append.mp hc
  · exact hc
  · exact absurd (mem_singleton.mp hc).symm (hr c addr n)

lemma enter (h : Calls s) (addr : ℕ → Byte) (n : ℤ) :
    Calls { s.goto p (.write s.calls addr n 0 .spin) with calls := s.calls+1 } := by
  have hnone : s.storedBy s.calls = [] := by
    rw [storedBy,map_eq_nil_iff,filter_eq_nil_iff]
    intro x hx
    simpa using (h.tagged x hx).ne
  have hcase : ∀ q j, ((s.goto p (.write s.calls addr n 0 .spin)).pc q).job = some j →
      (q = p ∧ j = ⟨s.calls,addr,n,0⟩) ∨ (s.pc q).job = some j := by
    intro q j hq
    obtain rfl | hne := eq_or_ne q p
    · rw [goto_pc,update_self] at hq
      exact .inl ⟨rfl,(Option.some.inj hq).symm⟩
    · rw [goto_pc,update_of_ne hne] at hq
      exact .inr hq
  refine ⟨?_,?_,?_,?_,?_⟩
  · intro q j hq
    rcases hcase q j hq with ⟨-,rfl⟩ | hq
    · exact Nat.lt_succ_self _
    · exact (h.fresh q j hq).trans (Nat.lt_succ_self _)
  · intro x hx
    exact (h.tagged x hx).trans (Nat.lt_succ_self _)
  · intro q r j k hq hr hjk
    rcases hcase q j hq with ⟨rfl,rfl⟩ | hq' <;> rcases hcase r k hr with ⟨rfl,rfl⟩ | hr'
    · rfl
    · exact absurd hjk (h.fresh r k hr').ne'
    · exact absurd hjk (h.fresh q j hq').ne
    · exact h.apart q r j k hq' hr' hjk
  · intro q j hq
    rcases hcase q j hq with ⟨-,rfl⟩ | hq
    · exact ⟨Nat.zero_le _,hnone⟩
    · exact h.progress q j hq
  · intro c addr' n' hc
    obtain ⟨hlt,hother,hsum⟩ := h.done c addr' n' hc
    refine ⟨hlt.trans (Nat.lt_succ_self _),?_,hsum⟩
    intro q j hq
    rcases hcase q j hq with ⟨-,rfl⟩ | hq
    · exact hlt.ne'
    · exact hother q j hq

lemma store {c i : ℕ} {addr : ℕ → Byte} {n : ℤ} (h : Calls s)
    (hpc : s.pc p = .write c addr n i .loop) (hi : i < n) (data : ℕ → Byte) (nwrite : BitVec 32) :
    Calls { s.goto p (.write c addr n (i+1) .loop) with
      data := data, nwrite := nwrite, stored := s.stored++[(c,addr i)] } := by
  have hp : (s.pc p).job = some ⟨c,addr,n,i⟩ := by rw [hpc]; rfl
  have hcase : ∀ q j, ((s.goto p (.write c addr n (i+1) .loop)).pc q).job = some j →
      (q = p ∧ j = ⟨c,addr,n,i+1⟩) ∨ (q ≠ p ∧ (s.pc q).job = some j) := by
    intro q j hq
    obtain rfl | hne := eq_or_ne q p
    · rw [goto_pc,update_self] at hq
      exact .inl ⟨rfl,(Option.some.inj hq).symm⟩
    · rw [goto_pc,update_of_ne hne] at hq
      exact .inr ⟨hne,hq⟩
  have hsame : ∀ b : Byte, ((s.stored++[(c,b)]).filter fun x => x.1 = c).map Prod.snd =
      s.storedBy c++[b] := by
    intro b
    simp [storedBy,filter_append]
  have hother : ∀ k, k ≠ c → ∀ b : Byte,
      ((s.stored++[(c,b)]).filter fun x => x.1 = k).map Prod.snd = s.storedBy k := by
    intro k hk b
    simp [storedBy,filter_append,hk.symm]
  refine ⟨?_,?_,?_,?_,?_⟩
  · intro q j hq
    rcases hcase q j hq with ⟨-,rfl⟩ | ⟨-,hq⟩
    · exact h.fresh p ⟨c,addr,n,i⟩ hp
    · exact h.fresh q j hq
  · intro x hx
    obtain hx | hx := mem_append.mp hx
    · exact h.tagged x hx
    · rw [mem_singleton.mp hx]
      exact h.fresh p ⟨c,addr,n,i⟩ hp
  · intro q r j k hq hr hjk
    rcases hcase q j hq with ⟨rfl,rfl⟩ | ⟨-,hq'⟩ <;> rcases hcase r k hr with ⟨rfl,rfl⟩ | ⟨-,hr'⟩
    · rfl
    · exact h.apart _ r _ k hp hr' hjk
    · exact h.apart q _ j _ hq' hp hjk
    · exact h.apart q r j k hq' hr' hjk
  · intro q j hq
    rcases hcase q j hq with ⟨-,rfl⟩ | ⟨hne,hq⟩
    · refine ⟨by simp only; omega,?_⟩
      rw [storedBy,hsame,(h.progress p _ hp).2,range_succ,map_append]
      rfl
    · have hk : j.c ≠ c := fun hk => hne (h.apart q p j _ hq hp hk)
      exact ⟨(h.progress q j hq).1,(hother _ hk _).trans (h.progress q j hq).2⟩
  · intro k addr' n' hk
    obtain ⟨hlt,hno,hsum⟩ := h.done k addr' n' hk
    have hck : k ≠ c := (hno p _ hp).symm
    refine ⟨hlt,?_,(hother _ hck _).trans hsum⟩
    intro q j hq
    rcases hcase q j hq with ⟨-,rfl⟩ | ⟨-,hq⟩
    · exact hck.symm
    · exact hno q j hq

/-- A write that returns `n` has stored all its bytes. -/
lemma wrote {c i : ℕ} {addr : ℕ → Byte} {n : ℤ} (h : Calls s)
    (hpc : s.pc p = .write c addr n i .loop) (hi : n ≤ i) :
    Calls (s.ret p (.wrote c addr n)) := by
  have hp : (s.pc p).job = some ⟨c,addr,n,i⟩ := by rw [hpc]; rfl
  have hgone := h.goto (p := p) (c := .user) (.inl rfl)
  refine ⟨hgone.fresh,hgone.tagged,hgone.apart,hgone.progress,?_⟩
  intro k addr' n' hk
  obtain hk | hk := mem_append.mp hk
  · exact hgone.done k addr' n' hk
  · cases mem_singleton.mp hk
    obtain ⟨hle,hsum⟩ := h.progress p _ hp
    have hin : i = n.toNat := by simp only at hle; omega
    refine ⟨h.fresh p _ hp,?_,hin ▸ hsum⟩
    intro q j hq hj
    have hqp : q ≠ p := by
      rintro rfl
      simp [PipeSys.ret,PipeSys.goto,PipePc.job] at hq
    exact hqp (h.apart q p j _ (job_goto (.inl rfl) hq) hp hj)

lemma moves (h : Calls s) (hm : Moves s p a s') : Calls s' := by
  cases hm with
  | enterWrite addr n _ => exact h.enter addr n
  | enterRead n _ | enterClose w _ | readReady n _ _ => exact h.goto (.inl rfl)
  | kill =>
    have hjob : (s.pc p).rouse.job = (s.pc p).job := by
      rw [PipePc.rouse,job_wake,job_wake]
    exact h.keep (fun _ _ => job_goto (.inr hjob)) rfl rfl fun _ _ _ => id
  | lockWrite c addr n i hpc _ =>
    exact h.keep (fun _ _ => job_goto (.inr (by rw [hpc]; rfl))) rfl rfl fun _ _ _ => id
  | writeFailed c _ _ _ _ => exact h.ret nofun
  | writeSleep c addr n i hpc =>
    have hw := h.wakeup .nread
    have hjob : (PipePc.write c addr n i .asleep).job = ((s.wakeup .nread).pc p).job := by
      rw [wakeup_pc,job_wake,hpc]
      rfl
    exact hw.keep (fun _ _ => job_goto (.inr hjob)) rfl rfl fun _ _ _ => id
  | store c addr n i hpc hi _ => exact h.store hpc hi _ _
  | wrote c addr n i hpc hi => exact (h.wakeup .nread).wrote (i := i) (by rw [wakeup_pc,hpc]; rfl) hi
  | lockRead n _ _ | readSleep n _ | take n addr _ _ =>
    exact h.keep (fun _ _ => job_goto (.inl rfl)) rfl rfl fun _ _ _ => id
  | readFailed n _ => exact h.ret nofun
  | gave n addr _ _ => exact (h.wakeup .nwrite).ret nofun
  | close w _ _ =>
    have hclose : Calls (s.pipeclose w) := by
      unfold pipeclose
      split_ifs
      · exact (h.wakeup .nread).keep (fun _ _ => id) rfl rfl fun _ _ _ => id
      · exact (h.wakeup .nwrite).keep (fun _ _ => id) rfl rfl fun _ _ _ => id
    exact hclose.goto (.inl rfl)

end Calls

/-! ### The bytes and the counters -/

/-- The lock, the counters with the cells, and the order of the bytes. A reader that has taken
nothing yet finds the pipe empty only when the write end is closed. -/
structure Stream (s : PipeSys ι) : Prop where
  lock : Owns (PipePc.holdsLock ∘ s.pc) s.lock
  ring : Counted PIPESIZE s.data s.nread s.nwrite s.bytes s.taken.length
  order : s.taken <+: s.bytes
  eof : ∀ q n, s.pc q = .copy n [] → s.nread = s.nwrite → s.writeopen = false

namespace Stream

lemma initial (data : ℕ → Byte) (killed : ι → Bool) : Stream (initial data killed) :=
  ⟨fun _ => ⟨nofun,nofun⟩,Counted.empty _ _,prefix_rfl,nofun⟩

lemma keep (h : Stream s) (hlock : Owns (PipePc.holdsLock ∘ s'.pc) s'.lock)
    (hdata : s'.data = s.data) (hread : s'.nread = s.nread) (hwrite : s'.nwrite = s.nwrite)
    (hstored : s'.stored = s.stored) (htaken : s'.taken = s.taken)
    (heof : ∀ q n, s'.pc q = .copy n [] → s'.nread = s'.nwrite → s'.writeopen = false) :
    Stream s' := by
  have hbytes : s'.bytes = s.bytes := congrArg (List.map Prod.snd) hstored
  refine ⟨hlock,?_,?_,heof⟩
  · rw [hdata,hread,hwrite,hbytes,htaken]
    exact h.ring
  · rw [hbytes,htaken]
    exact h.order

lemma owns_wakeup (h : Stream s) (chan : PipeChan) :
    Owns (PipePc.holdsLock ∘ (s.wakeup chan).pc) s.lock := by
  intro q
  rw [comp_apply,wakeup_pc,holdsLock_wake]
  exact h.lock q

lemma wakeup (h : Stream s) (chan : PipeChan) : Stream (s.wakeup chan) :=
  h.keep (h.owns_wakeup chan) rfl rfl rfl rfl (congrArg (s.returned++·) (hand_wakeup s chan))
    fun q n hq => h.eof q n (of_wake_copy hq)

lemma close (h : Stream s) (w : Bool) : Stream (s.pipeclose w) := by
  unfold pipeclose
  split_ifs
  · have hw := h.wakeup .nread
    exact ⟨hw.lock,hw.ring,hw.order,fun _ _ _ _ => rfl⟩
  · have hw := h.wakeup .nwrite
    exact ⟨hw.lock,hw.ring,hw.order,hw.eof⟩

lemma returned_snoc (s : PipeSys ι) (r : PipeRet) (hr : ∀ n addr, r ≠ .read n addr) :
    ({ s with rets := s.rets++[r] } : PipeSys ι).returned = s.returned++[] := by
  cases r with
  | read n addr => exact absurd rfl (hr n addr)
  | _ => simp [returned]

variable [DecidableEq ι]

lemma comp_goto {β : Type*} (f : PipePc → β) (s : PipeSys ι) (p : ι) (c : PipePc) :
    f ∘ (s.goto p c).pc = update (f ∘ s.pc) p (f c) :=
  comp_update f s.pc p c

lemma hand_goto (hc : c.inHand = (s.pc p).inHand) : (s.goto p c).hand = s.hand := by
  unfold hand
  congr 1
  funext q
  obtain rfl | hne := eq_or_ne q p
  · rw [goto_pc,update_self,hc]
  · rw [goto_pc,update_of_ne hne]

section

variable (h : Stream s)
include h

lemma eof_goto (hc : ∀ n, c ≠ .copy n []) (q : ι) (n : ℤ)
    (hq : (s.goto p c).pc q = .copy n []) : s.nread = s.nwrite → s.writeopen = false := by
  obtain rfl | hne := eq_or_ne q p
  · rw [goto_pc,update_self] at hq
    exact absurd hq (hc n)
  · rw [goto_pc,update_of_ne hne] at hq
    exact h.eof q n hq

lemma goto (hheld : c.holdsLock = (s.pc p).holdsLock)
    (hhand : c.inHand = (s.pc p).inHand) (hc : ∀ n, c ≠ .copy n []) : Stream (s.goto p c) := by
  refine h.keep ?_ rfl rfl rfl rfl (congrArg (s.returned++·) (hand_goto hhand)) (h.eof_goto hc)
  rw [comp_goto]
  exact h.lock.keep hheld

lemma acquire (hl : s.lock = none) (hheld : c.holdsLock = true)
    (hhand : c.inHand = []) (hc : ∀ n, c ≠ .copy n []) :
    Stream { s.goto p c with lock := some p } := by
  refine h.keep ?_ rfl rfl rfl rfl ?_ (h.eof_goto hc)
  · have hnone : Owns (PipePc.holdsLock ∘ s.pc) none := hl ▸ h.lock
    change Owns (PipePc.holdsLock ∘ (s.goto p c).pc) (some p)
    rw [comp_goto,hheld]
    exact hnone.acquire
  · apply congrArg (s.returned++·)
    rw [hand_eq_nil hl,hand_eq rfl,goto_pc,update_self,hhand]

lemma release (hheld : (s.pc p).holdsLock = true) (hc : c.holdsLock = false)
    (rets : List PipeRet)
    (hgive : ({ s with rets := rets } : PipeSys ι).returned = s.returned++(s.pc p).inHand) :
    Stream { s.goto p c with lock := none, rets := rets } := by
  have hlock : s.lock = some p := h.lock.eq_some hheld
  refine h.keep ?_ rfl rfl rfl rfl ?_ (h.eof_goto ?_)
  · change Owns (PipePc.holdsLock ∘ (s.goto p c).pc) none
    rw [comp_goto,hc]
    exact h.lock.release hheld
  · rw [taken,taken,hand_eq hlock,hand_eq_nil rfl,append_nil]
    exact hgive
  · rintro n rfl
    exact nomatch hc

lemma store {k i : ℕ} {addr : ℕ → Byte} {n : ℤ}
    (hpc : s.pc p = .write k addr n i .loop)
    (hroom : s.nwrite ≠ s.nread+BitVec.ofNat 32 PIPESIZE) (b : Byte) :
    Stream { s.goto p (.write k addr n (i+1) .loop) with
      data := update s.data (s.nwrite.toNat%PIPESIZE) b
      nwrite := s.nwrite+1
      stored := s.stored++[(k,b)] } := by
  have hgo : Stream (s.goto p (.write k addr n (i+1) .loop)) :=
    h.goto (by rw [hpc]; rfl) (by rw [hpc]; rfl) nofun
  have hheld : s.lock = some p := h.lock.eq_some (by rw [comp_apply,hpc]; rfl)
  have hlt : s.bytes.length < s.taken.length+PIPESIZE := by
    apply lt_of_le_of_ne h.ring.room
    exact fun hfull => hroom ((h.ring.isFull_iff (by decide)).mpr hfull)
  have htaken : (s.goto p (.write k addr n (i+1) .loop)).taken = s.taken := by
    rw [taken,hand_goto (by rw [hpc]; rfl)]
    rfl
  have hput := h.ring.put (by decide) b hlt
  refine ⟨hgo.lock,?_,?_,?_⟩
  · have hbytes : s.bytes++[b] = (s.stored++[(k,b)]).map Prod.snd := by simp [bytes]
    rw [hbytes,← htaken] at hput
    exact hput
  · change (s.goto p (.write k addr n (i+1) .loop)).taken <+: (s.stored++[(k,b)]).map Prod.snd
    rw [htaken,map_append]
    exact h.order.trans (prefix_append _ _)
  · -- a reader that copies would hold the lock too
    intro q m hq
    have hq' := hgo.lock.eq_some (p := q) (by rw [comp_apply,hq]; rfl)
    obtain rfl : p = q := Option.some.inj (hheld.symm.trans hq')
    simp [PipeSys.goto] at hq

lemma take {n : ℤ} {addr : List Byte} (hpc : s.pc p = .copy n addr)
    (hne : s.nread ≠ s.nwrite) :
    Stream { s.goto p (.copy n (addr++[s.data (s.nread.toNat%PIPESIZE)])) with
      nread := s.nread+1 } := by
  have hheld : s.lock = some p := h.lock.eq_some (by rw [comp_apply,hpc]; rfl)
  have hlt : s.taken.length < s.bytes.length := by
    apply lt_of_le_of_ne h.ring.le
    exact fun he => hne ((h.ring.isEmpty_iff (by decide)).mpr he)
  obtain ⟨hbyte,hring⟩ := h.ring.take (by decide) hlt
  have htaken : ∀ b, (s.goto p (.copy n (addr++[b]))).taken = s.taken++[b] := by
    intro b
    have hhand : (s.goto p (.copy n (addr++[b]))).hand = addr++[b] := by
      rw [hand_eq (s := s.goto p _) (p := p) hheld,goto_pc,update_self]
      rfl
    rw [taken,taken,hhand,hand_eq hheld,hpc,append_assoc]
    rfl
  have hown : Owns
    (PipePc.holdsLock ∘ (s.goto p (.copy n (addr++[s.data (s.nread.toNat%PIPESIZE)]))).pc)
      s.lock := by
    rw [comp_goto]
    exact h.lock.keep (by rw [comp_apply,hpc]; rfl)
  refine ⟨hown,?_,?_,?_⟩
  · change Counted PIPESIZE s.data (s.nread+1) s.nwrite s.bytes
      (s.goto p (.copy n (addr++[s.data (s.nread.toNat%PIPESIZE)]))).taken.length
    rw [htaken,length_append,length_singleton]
    exact hring
  · change (s.goto p (.copy n (addr++[s.data (s.nread.toNat%PIPESIZE)]))).taken <+: s.bytes
    rw [htaken,hbyte]
    obtain ⟨rest,hrest⟩ := h.order
    have hget : s.bytes[s.taken.length]? = rest[0]? := by
      rw [← hrest,getElem?_append_right le_rfl,Nat.sub_self]
    cases rest with
    | nil => simp [← hrest] at hlt
    | cons b rest =>
      rw [getElem?_eq_getElem hlt] at hget
      rw [Option.some.inj hget]
      exact ⟨rest,by rw [← hrest,append_assoc]; rfl⟩
  · intro q m hq
    have hq' := hown.eq_some (p := q) (by rw [comp_apply,hq]; rfl)
    obtain rfl : p = q := Option.some.inj (hheld.symm.trans hq')
    simp [PipeSys.goto] at hq

lemma moves (hm : Moves s p a s') : Stream s' := by
  cases hm with
  | enterWrite addr n hpc =>
    have hgo := h.goto (p := p) (c := .write s.calls addr n 0 .spin)
      (by rw [hpc]; rfl) (by rw [hpc]; rfl) nofun
    exact ⟨hgo.lock,hgo.ring,hgo.order,hgo.eof⟩
  | enterRead n hpc | enterClose w hpc => exact h.goto (by rw [hpc]; rfl) (by rw [hpc]; rfl) nofun
  | kill =>
    have hheld : (s.pc p).rouse.holdsLock = (s.pc p).holdsLock := by
      rw [PipePc.rouse,holdsLock_wake,holdsLock_wake]
    have hhand : (s.pc p).rouse.inHand = (s.pc p).inHand := by
      rw [PipePc.rouse,inHand_wake,inHand_wake]
    refine h.keep ?_ rfl rfl rfl rfl (congrArg (s.returned++·) (hand_goto hhand)) ?_
    · change Owns (PipePc.holdsLock ∘ (s.goto p (s.pc p).rouse).pc) s.lock
      rw [comp_goto]
      exact h.lock.keep hheld
    · intro q n hq
      obtain rfl | hne := eq_or_ne q p
      · exact h.eof q n (of_wake_copy (of_wake_copy (by simpa [PipeSys.goto,PipePc.rouse] using hq)))
      · exact h.eof q n (by simpa [PipeSys.goto,hne] using hq)
  | lockWrite k addr n i _ hl | lockRead n _ hl => exact h.acquire hl rfl rfl nofun
  | writeFailed k addr n i hpc | readFailed n hpc =>
    refine h.release (by rw [hpc]; rfl) rfl _ ?_
    rw [hpc]
    exact returned_snoc s _ nofun
  | writeSleep k addr n i hpc =>
    have hpc' : (s.wakeup .nread).pc p = .write k addr n i .loop := by rw [wakeup_pc,hpc]; rfl
    refine (h.wakeup .nread).release (by rw [hpc']; rfl) rfl s.rets ?_
    rw [hpc']
    exact (append_nil _).symm
  | store k addr n i hpc _ hroom => exact h.store hpc hroom _
  | wrote k addr n i hpc _ =>
    have hpc' : (s.wakeup .nread).pc p = .write k addr n i .loop := by rw [wakeup_pc,hpc]; rfl
    refine (h.wakeup .nread).release (by rw [hpc']; rfl) rfl _ ?_
    rw [hpc']
    exact returned_snoc (s.wakeup .nread) _ nofun
  | readSleep n hpc =>
    refine h.release (by rw [hpc]; rfl) rfl s.rets ?_
    rw [hpc]
    exact (append_nil _).symm
  | readReady n hpc hready =>
    refine h.keep ?_ rfl rfl rfl rfl (congrArg (s.returned++·) (hand_goto (by rw [hpc]; rfl))) ?_
    · rw [comp_goto]
      exact h.lock.keep (by rw [comp_apply,hpc]; rfl)
    · intro q m hq
      obtain rfl | hne := eq_or_ne q p
      · exact hready
      · exact h.eof q m (by simpa [PipeSys.goto,hne] using hq)
  | take n addr hpc hne => exact h.take hpc hne
  | gave n addr hpc _ =>
    have hpc' : (s.wakeup .nwrite).pc p = .copy n addr := by rw [wakeup_pc,hpc]; rfl
    refine (h.wakeup .nwrite).release (by rw [hpc']; rfl) rfl _ ?_
    rw [hpc']
    simp [returned,PipePc.inHand,PipeSys.wakeup]
  | close w hpc _ =>
    have hpc' : (s.pipeclose w).pc p = .close w := by
      cases w <;> simp [pipeclose,PipeSys.wakeup,hpc,PipePc.wake]
    exact (h.close w).goto (by rw [hpc']; rfl) (by rw [hpc']; rfl) nofun

lemma end_of_file {n : ℤ} (hm : Moves s p a s')
    (hrets : s'.rets = s.rets++[.read n []]) (hn : 0 < n) :
    s'.writeopen = false ∧ s'.returned = s'.bytes := by
  have hafter := h.moves hm
  cases hm with
  | gave m addr hpc hend =>
    cases (append_singleton_inj.mp hrets).2
    have hempty : s.nread = s.nwrite := by
      rcases hend with hend | hempty
      · exact absurd hend (by simpa using hn)
      · exact hempty
    refine ⟨h.eof p n hpc hempty,?_⟩
    rw [← taken_eq (s := (s.wakeup .nwrite).ret p (.read n [])) rfl]
    exact hafter.order.eq_of_length ((hafter.ring.isEmpty_iff (by decide)).mp hempty)
  | writeFailed | wrote | readFailed => exact nomatch (append_singleton_inj.mp hrets).2
  | close w _ _ =>
    have hlen := congrArg List.length hrets
    cases w <;> simp [pipeclose,PipeSys.wakeup,PipeSys.goto] at hlen
  | _ =>
    have hlen := congrArg List.length hrets
    simp [PipeSys.goto,PipeSys.wakeup] at hlen

end

end Stream

variable [DecidableEq ι]

/-- In every run of any number of processes on a pipe the bytes returned are a prefix of the
bytes stored, at most `PIPESIZE` bytes are in the pipe, a write that returns `n` has stored
its `n` bytes in order, and a read of at least one byte returns none only when the write
end is closed and everything was read. -/
theorem pipe_is_stream (data : ℕ → Byte) (killed : ι → Bool) (as : List (ι×PipeAct))
    (s : PipeSys ι) (h : Run Step (initial data killed) as s) :
    s.returned <+: s.bytes ∧ (s.nwrite-s.nread).toNat ≤ PIPESIZE ∧
    (∀ c addr n, .wrote c addr n ∈ s.rets → s.storedBy c = (List.range n.toNat).map addr) ∧
    ∀ p a t n, Step s (p,a) t → t.rets = s.rets++[.read n []] → 0 < n →
      t.writeopen = false ∧ t.returned = t.bytes := by
  have hstream : Stream s := h.invariant (fun _ s => Stream s)
    (fun _ _ _ _ hs hstep => hs.moves (moves_of_next hstep.1)) (Stream.initial data killed)
  have hcalls : Calls s := h.invariant (fun _ s => Calls s)
    (fun _ _ _ _ hs hstep => hs.moves (moves_of_next hstep.1)) (Calls.initial data killed)
  refine ⟨(prefix_append _ _).trans hstream.order,?_,?_,?_⟩
  · rw [hstream.ring.toNat_sub (by decide)]
    have hroom := hstream.ring.room
    omega
  · intro c addr n hc
    exact (hcalls.done c addr n hc).2.2
  · intro p a t n hstep hrets hn
    exact hstream.end_of_file (moves_of_next hstep.1) hrets hn

/-- A writer of three bytes and a reader that takes two, then one, then finds the end. -/
def threeBytes : List (Bool×PipeAct) :=
  [(true,.write (fun i => BitVec.ofNat 8 (65+i)) 3),(true,.go),(false,.read 2),(true,.go),(true,.go),
    (true,.go),(true,.go),(false,.go),(false,.go),(false,.go),(false,.go),(false,.go),
    (false,.read 2),(false,.go),(false,.go),(false,.go),(false,.go),
    (true,.close true),(true,.go),(false,.read 1),(false,.go),(false,.go)]

theorem pipe_is_stream_threeBytes : ∃ s t, Run Step (initial (fun _ => 1) fun _ => false) threeBytes s ∧
    Step s (false,.go) t ∧ t.rets = s.rets++[.read 1 []] ∧ t.returned = t.bytes ∧
    t.bytes = [65,66,67] := by
  have he : (exec (fun a s => if s.freed = false then s.next a.1 a.2 else none) threeBytes
      (initial (fun _ => 1) fun _ => false)).isSome = true := by decide +kernel
  obtain ⟨s,hs⟩ := Option.isSome_iff_exists.mp he
  have hrun : Run Step (initial (fun _ => 1) fun _ => false) threeBytes s := .of_exec_if hs
  cases hs
  have hend := (pipe_is_stream _ _ _ _ hrun).2.2.2 false .go _ 1 ⟨rfl,rfl⟩ rfl (by decide)
  exact ⟨_,_,hrun,⟨rfl,rfl⟩,rfl,hend.2,by decide +kernel⟩

end PipeSys
end JacobiXv6.Kernel
