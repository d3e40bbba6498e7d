import JacobiXv6.Log.GroupCommit

/-! The space that `begin_op` reserves, `MAXOPBLOCKS` blocks for an operation out of `LOGSIZE`,
against the space that `log_write` accepts, one block less than the log area has. -/
namespace JacobiXv6.Log
open Library Function List
namespace OpLog

variable {ι : Type*} {size k : ℕ} {s s' : OpLog ι} {p q : ι} {c d : OpPc} {a : OpAct}

/-- A call of `log_write` by an operation that logs at most `k` distinct blocks. -/
def Within (k : ℕ) (s : OpLog ι) (a : ι×OpAct) : Prop :=
  match a.2 with
  | .logWrite b => (insert b (s.wrote a.1).toFinset).card ≤ k
  | _ => True

instance (k : ℕ) (s : OpLog ι) (a : ι×OpAct) : Decidable (Within k s a) := by
  unfold Within
  split <;> infer_instance

/-! ### The reservation -/

/-- What is left of `k` blocks for the operation of process `q`. -/
def spare (k : ℕ) (wrote : ι → List Word) (q : ι) : ℤ := k-(wrote q).toFinset.card

/-- No operation has logged more than `k` blocks, or is about to. The blocks logged and
those that the operations under way may still log fit into the log. -/
structure Reserved [Fintype ι] (k : ℕ) (s : OpLog ι) : Prop where
  used : ∀ q, (s.pc q).active = true → (s.wrote q).toFinset.card ≤ k
  pending : ∀ q b, s.pc q = .logTest b ∨ s.pc q = .write b →
    (insert b (s.wrote q).toFinset).card ≤ k
  room : s.lh.length+total (OpPc.active ∘ s.pc) (spare k s.wrote) ≤ LOGSIZE-2*(MAXOPBLOCKS-k : ℤ)

lemma spare_le (wrote : ι → List Word) (q : ι) : spare k wrote q ≤ k := by
  simp [spare]

lemma length_absorb (lh : List Word) (b : Word) :
    (absorb lh b).length = if b ∈ lh then lh.length else lh.length+1 := by
  rw [absorb_eq]
  split_ifs
  · rfl
  · exact length_append

namespace Reserved
variable [Fintype ι]

lemma initial : Reserved k (initial : OpLog ι) := by
  refine ⟨nofun,nofun,?_⟩
  have hnone : total (OpPc.active ∘ (OpLog.initial : OpLog ι).pc) (spare k OpLog.initial.wrote) = 0 :=
    total_eq_zero _ fun _ => rfl
  rw [hnone,LOGSIZE_eq]
  simp only [OpLog.initial,MAXOPBLOCKS,length_nil]
  omega

lemma flags {l t : Option ι} {o : ℤ} {f : Bool} {e : Option LogPanic} {cs : List (List Word)}
    {es : List (ℕ×List Word)} (h : Reserved k s) :
    Reserved k { s with
      logLock := l, ptLock := t, outstanding := o, committing := f, panic := e
      commits := cs, ended := es } :=
  ⟨h.used,h.pending,h.room⟩

lemma length_le (h : Reserved k s) : s.lh.length+2*(MAXOPBLOCKS-k : ℤ) ≤ LOGSIZE := by
  have hspare : 0 ≤ total (OpPc.active ∘ s.pc) (spare k s.wrote) := by
    apply total_nonneg
    intro q hq
    exact sub_nonneg.mpr (Int.ofNat_le.mpr (h.used q hq))
  have hroom := h.room
  omega

lemma wake (h : Reserved k s) : Reserved k s.wake := by
  refine ⟨?_,?_,?_⟩
  · intro q hq
    exact h.used q ((congrFun (comp_wake OpPc.active rfl s) q).symm.trans hq)
  · intro q b hq
    exact h.pending q b (hq.imp (of_wake · nofun) (of_wake · nofun))
  · rw [comp_wake _ rfl]
    exact h.room

end Reserved

/-- The space for `o` operations and one more, of which each takes at most `k` blocks. -/
lemma fits {n o t : ℤ} (hk : k ≤ MAXOPBLOCKS) (hroom : n+(o+1)*MAXOPBLOCKS ≤ (LOGSIZE : ℤ))
    (ht : t ≤ o*k) (ho : o = 0 ∧ n = 0 ∨ 0 < o) : n+(t+k) ≤ LOGSIZE-2*(MAXOPBLOCKS-k : ℤ) := by
  rw [LOGSIZE_eq] at *
  simp only [MAXOPBLOCKS] at *
  push_cast at *
  rcases ho with ⟨rfl,rfl⟩ | hpos
  · omega
  · -- two operations or more give back what they do not need
    have hback : 0 ≤ (o-1)*(10-k) := mul_nonneg (by omega) (by omega)
    linarith [hback]

section
variable [DecidableEq ι]

lemma spare_update (wrote : ι → List Word) (p : ι) (bs : List Word) :
    spare k (update wrote p bs) =
      update (spare k wrote) p (k-bs.toFinset.card : ℤ) := by
  ext q
  obtain rfl | hqp := eq_or_ne q p
  · simp [spare]
  · simp [spare,hqp]

variable [Fintype ι]

namespace Reserved

lemma goto (h : Reserved k s) (hpc : s.pc p = d) (hact : c.active = d.active)
    (hc : ∀ b, c = .logTest b ∨ c = .write b → (insert b (s.wrote p).toFinset).card ≤ k) :
    Reserved k (s.goto p c) := by
  refine ⟨?_,?_,?_⟩
  · intro q hq
    apply h.used q
    obtain rfl | hqp := eq_or_ne q p
    · simpa [OpLog.goto,hpc,← hact] using hq
    · simpa [OpLog.goto,hqp] using hq
  · intro q b hq
    obtain rfl | hqp := eq_or_ne q p
    · exact hc b (by simpa [OpLog.goto] using hq)
    · exact h.pending q b (by simpa [OpLog.goto,hqp] using hq)
  · have hsame : OpPc.active ∘ (s.goto p c).pc = OpPc.active ∘ s.pc := by
      rw [comp_goto,hact,← hpc]
      exact update_eq_self p _
    rw [hsame]
    exact h.room

/-- An operation is admitted if `MAXOPBLOCKS` blocks are left for it and for each of those
under way. With `k` blocks less are used of each reservation, and if there is no other
operation the log is empty. -/
lemma enter (hi : Inv s) (h : Reserved k s) (hk : k ≤ MAXOPBLOCKS) (hpc : s.pc p = .begin)
    (hfree : s.committing = false)
    (hroom : s.lh.length+(s.outstanding+1)*MAXOPBLOCKS ≤ (LOGSIZE : ℤ)) :
    Reserved k { s.goto p .inOp with
      outstanding := s.outstanding+1
      epoch := update s.epoch p s.commits.length
      wrote := update s.wrote p [] } := by
  refine ⟨?_,?_,?_⟩
  · intro q hq
    obtain rfl | hqp := eq_or_ne q p
    · simp
    · simpa [hqp] using h.used q (by simpa [OpLog.goto,hqp] using hq)
  · intro q b hq
    obtain rfl | hqp := eq_or_ne q p
    · simp [OpLog.goto] at hq
    · simpa [hqp] using h.pending q b (by simpa [OpLog.goto,hqp] using hq)
  · have hin : OpPc.active .inOp = true := rfl
    have hout : (OpPc.active ∘ s.pc) p = false := by rw [comp_apply,hpc]; rfl
    have hle : total (OpPc.active ∘ s.pc) (spare k s.wrote) ≤ s.outstanding*k := by
      rw [hi.out,activeCount,← total_const]
      exact total_le_total (spare_le s.wrote)
    rw [comp_goto,spare_update,total_update,hin,hout]
    simp only [OpLog.goto,toFinset_nil,Finset.card_empty,if_true,Bool.false_eq_true,if_false]
    rw [sub_zero,Nat.cast_zero,sub_zero]
    apply fits hk hroom hle
    refine hi.out_nonneg.eq_or_lt.imp_left fun h0 => ⟨h0.symm,?_⟩
    simp [hi.empty hfree h0.symm]

lemma record {b : Word} (hw : Whole s) (h : Reserved k s) (hpc : s.pc p = .write b) :
    Reserved k { s.goto p .inOp with
      lh := absorb s.lh b
      wrote := update s.wrote p (s.wrote p++[b]) } := by
  have hpend := h.pending p b (.inr hpc)
  have hact : (s.pc p).active = true := by rw [hpc]; rfl
  have hset : (s.wrote p++[b]).toFinset = insert b (s.wrote p).toFinset := by
    ext x
    simp
  refine ⟨?_,?_,?_⟩
  · intro q hq
    obtain rfl | hqp := eq_or_ne q p
    · simpa [hset] using hpend
    · simpa [hqp] using h.used q (by simpa [OpLog.goto,hqp] using hq)
  · intro q b hq
    obtain rfl | hqp := eq_or_ne q p
    · simp [OpLog.goto] at hq
    · simpa [hqp] using h.pending q b (by simpa [OpLog.goto,hqp] using hq)
  · have hin : OpPc.active .inOp = true := rfl
    have hroom := h.room
    rw [comp_goto,spare_update,total_update,hin,comp_apply,hact,hset,length_absorb]
    simp only [if_true,spare]
    split_ifs with hb
    · have hle := Finset.card_le_card (Finset.subset_insert b (s.wrote p).toFinset)
      omega
    · have hnew : b ∉ (s.wrote p).toFinset := by
        rw [mem_toFinset]
        exact fun hx => hb ((hw.current p hact).2 hx)
      rw [Finset.card_insert_of_notMem hnew]
      push_cast
      omega

lemma leave (h : Reserved k s) (hpc : s.pc p = .ending) (hact : c.active = false)
    (hc : ∀ b, c ≠ .logTest b ∧ c ≠ .write b) : Reserved k (s.goto p c) := by
  have hend : (s.pc p).active = true := by rw [hpc]; rfl
  refine ⟨?_,?_,?_⟩
  · intro q hq
    apply h.used q
    obtain rfl | hqp := eq_or_ne q p
    · exact hend
    · simpa [OpLog.goto,hqp] using hq
  · intro q b hq
    exact h.pending q b (hq.imp (of_goto · (hc b).1) (of_goto · (hc b).2))
  · have hroom := h.room
    have hused := h.used p hend
    rw [comp_goto,total_update_self,comp_apply,hend,hact]
    simp only [OpLog.goto,if_true,Bool.false_eq_true,if_false,spare]
    omega

lemma moves (hi : Inv s) (hw : Whole s) (h : Reserved k s) (hk : k ≤ MAXOPBLOCKS)
    (hm : Moves size s p a s') (hin : Within k s (p,a)) : Reserved k s' := by
  cases hm with
  | beginOp hpc | poke hpc | resume hpc | endOp hpc => exact h.goto hpc rfl nofun
  | wait hpc => exact (h.goto (c := .sleepAcquire) hpc rfl nofun).flags
  | enter hpc _ hfree hroom => exact h.enter hi hk hpc hfree hroom
  | fallAsleep hpc => exact (h.goto (c := .sleepSched) hpc rfl nofun).flags
  | sched hpc => exact (h.goto (c := .sleeping) hpc rfl nofun).flags
  | tooBig | outside | clash => exact h.flags
  | logWrite b hpc =>
    refine h.goto hpc rfl ?_
    rintro b' (hb | hb)
    · rw [← OpPc.logTest.inj hb]
      exact hin
    · exact nomatch hb
  | testOp b hpc =>
    refine h.goto hpc rfl ?_
    rintro b' (hb | hb)
    · exact nomatch hb
    · rw [← OpPc.write.inj hb]
      exact h.pending p b (.inl hpc)
  | record b hpc => exact h.record hw hpc
  | last hpc => exact (h.leave (c := .commitLog) hpc rfl fun _ => ⟨nofun,nofun⟩).flags
  | leave hpc => exact (h.leave (c := .endWake) hpc rfl fun _ => ⟨nofun,nofun⟩).flags
  | wakeup hpc =>
    have hidle : (s.wake.pc p).active = false := by
      rw [← comp_apply (f := OpPc.active),comp_wake _ rfl,comp_apply]
      rcases hpc with hpc | hpc <;> rw [hpc] <;> rfl
    exact (h.wake.goto (c := .idle) rfl hidle.symm nofun).flags
  | commit hpc => exact (h.goto (c := .commitClear) hpc rfl nofun).flags
  | clear hpc =>
    have h' : Reserved k (s.goto p .finish) := h.goto hpc rfl nofun
    refine ⟨h'.used,h'.pending,?_⟩
    have hroom := h'.room
    simp only [length_nil]
    omega
  | finish hpc => exact (h.goto (c := .finishWake) hpc rfl nofun).flags

/-- **The reservation.** If no operation logs more than `k` distinct blocks, the log never
holds more than `LOGSIZE` less what two operations leave of their reservations. -/
theorem run {as : List (ι×OpAct)} (hk : k ≤ MAXOPBLOCKS)
    (h : Run (fun s a s' => Step size s a s' ∧ Within k s a) OpLog.initial as s) :
    s.lh.length+2*(MAXOPBLOCKS-k) ≤ LOGSIZE := by
  have hall : Inv s ∧ Whole s ∧ Reserved k s := by
    refine h.invariant (fun _ s => Inv s ∧ Whole s ∧ Reserved k s) ?_
      ⟨.initial,Whole.initial,Reserved.initial⟩
    rintro _ s a t ⟨hi,hw,hr⟩ ⟨⟨hnext,-⟩,hin⟩
    have hm := moves_of_next hnext
    exact ⟨hi.moves hm,hw.moves hi hm,hr.moves hi hw hk hm hin⟩
  have hle := hall.2.2.length_le
  omega

end Reserved
end

/-! ### The panic of `log_write` -/

/-- The distinct blocks that were logged since the header was cleared. -/
def logged : List (ι×OpAct) → Finset Word :=
  List.foldl (fun g a => match a.2 with
    | .record b => insert b g
    | .clear => ∅
    | _ => g) ∅

variable [DecidableEq ι]

lemma header_logged {as : List (ι×OpAct)} (h : Run (Step size) initial as s) :
    s.lh.Nodup ∧ s.lh.toFinset = logged as := by
  refine h.invariant (fun as s => s.lh.Nodup ∧ s.lh.toFinset = logged as) ?_ ⟨nodup_nil,rfl⟩
  rintro as s ⟨p,a⟩ t ⟨hnodup,hset⟩ ⟨hnext,-⟩
  rw [logged,foldl_append,← logged]
  have hm := moves_of_next hnext
  cases hm with
  | record b =>
    have hset' : (absorb s.lh b).toFinset = insert b (logged as) := by
      ext x
      simp [← hset,or_comm]
    refine ⟨?_,hset'⟩
    simp only [absorb_eq]
    split_ifs with hb
    · exact hnodup
    · rw [← concat_eq_append]
      exact hnodup.concat hb
  | clear => exact ⟨nodup_nil,rfl⟩
  | _ => exact ⟨hnodup,hset⟩

lemma tooBig_iff (h : Step LOGSIZE s (p,a) s') :
    s'.panic = some .tooBig ↔ ∃ b, a = .logWrite b ∧ LOGSIZE-1 ≤ s.lh.length := by
  obtain ⟨hnext,hcalm⟩ := h
  have hm := moves_of_next hnext
  cases hm with
  | tooBig b _ hbig =>
    refine ⟨fun _ => ⟨b,rfl,?_⟩,fun _ => rfl⟩
    omega
  | logWrite b _ hroom =>
    simp only [OpLog.goto,hcalm,reduceCtorEq,false_iff,not_exists,not_and]
    omega
  | _ => simp [OpLog.goto,OpLog.wake,hcalm]

/-- **The space of the log.** On a log area of `LOGSIZE` blocks, which is what `mkfs` lays out, a
run ends in the panic of `log_write` if and only if its last step is a call of `log_write` at
a time when the current group has logged all but one of `LOGSIZE` blocks, or all. This cannot
happen if every operation logs fewer than `MAXOPBLOCKS` distinct blocks. -/
theorem log_space [Fintype ι] (as : List (ι×OpAct)) (s : OpLog ι)
    (h : Run (Step LOGSIZE) initial as s) :
    (s.panic = some .tooBig ↔
        ∃ bs p b, as = bs++[(p,.logWrite b)] ∧ LOGSIZE-1 ≤ (logged bs).card) ∧
      (Run (fun s a s' => Step LOGSIZE s a s' ∧ Within (MAXOPBLOCKS-1) s a) initial as s →
        s.panic ≠ some .tooBig) := by
  have hiff : s.panic = some .tooBig ↔
      ∃ bs p b, as = bs++[(p,.logWrite b)] ∧ LOGSIZE-1 ≤ (logged bs).card := by
    cases h with
    | nil => simp [initial]
    | snoc run last =>
      obtain ⟨hnodup,hset⟩ := header_logged run
      rw [tooBig_iff last,← toFinset_card_of_nodup hnodup,hset]
      simp only [append_singleton_inj]
      constructor
      · rintro ⟨b,ha,hcard⟩
        exact ⟨_,_,b,⟨rfl,Prod.ext rfl ha⟩,hcard⟩
      · rintro ⟨_,p,b,⟨rfl,rfl⟩,hcard⟩
        exact ⟨b,rfl,hcard⟩
  refine ⟨hiff,fun hwithin hbig => ?_⟩
  obtain ⟨bs,p,b,rfl,hcard⟩ := hiff.mp hbig
  obtain ⟨t,hrun,-⟩ := hwithin.of_snoc
  obtain ⟨hnodup,hset⟩ := header_logged (hrun.mono fun _ _ _ hs => hs.1)
  have hlen := Reserved.run (Nat.sub_le MAXOPBLOCKS 1) hrun
  rw [← hset,toFinset_card_of_nodup hnodup] at hcard
  rw [LOGSIZE_eq] at *
  simp only [MAXOPBLOCKS] at hlen
  omega

/-- `log_write` of one block. -/
def logBlock (p : ι) (b : Word) : List (ι×OpAct) := [(p,.logWrite b),(p,.testOp),(p,.record b)]

/-- Three operations begin, and log `n` blocks, ten each if `n` is thirty. -/
def threeOperations (n : ℕ) : List (Fin 3×OpAct) :=
  [(0,.beginOp),(0,.test),(1,.beginOp),(1,.test),(2,.beginOp),(2,.test)]++
    (List.range n).flatMap fun i => logBlock (Fin.ofNat 3 (i/10)) (BitVec.ofNat 32 (500+i))

theorem log_space_nine : ∃ s, Run (Step LOGSIZE) initial (threeOperations 9) s ∧
    s.panic ≠ some .tooBig := by
  have he : (exec (fun a s => if s.panic = none ∧ Within (MAXOPBLOCKS-1) s a then
      s.next LOGSIZE a.1 a.2 else none) (threeOperations 9) initial).isSome = true := by
    decide +kernel
  obtain ⟨s,hs⟩ := Option.isSome_iff_exists.mp he
  have hrun := Run.of_exec_if hs
  have hstep : Run (Step LOGSIZE) initial (threeOperations 9) s :=
    hrun.mono fun _ _ _ h => ⟨h.1,h.2.1⟩
  exact ⟨s,hstep,(log_space _ s hstep).2 (hrun.mono fun _ _ _ h => ⟨⟨h.1,h.2.1⟩,h.2.2⟩)⟩

/-- Three operations of `MAXOPBLOCKS` blocks each are admitted together, and the last block
of the third is one too many. -/
theorem reservation_overrun : ∃ s,
    Run (fun s a s' => Step LOGSIZE s a s' ∧ Within MAXOPBLOCKS s a) initial
      (threeOperations 29++[(2,.logWrite 529)]) s ∧ s.panic = some .tooBig := by
  have he : (exec (fun a s => if s.panic = none ∧ Within MAXOPBLOCKS s a then
      s.next LOGSIZE a.1 a.2 else none) (threeOperations 29++[(2,.logWrite 529)]) initial).map
      (fun s => s.panic) = some (some .tooBig) := by decide +kernel
  obtain ⟨s,hs,hpanic⟩ := Option.map_eq_some_iff.mp he
  exact ⟨s,(Run.of_exec_if hs).mono fun _ _ _ h => ⟨⟨h.1,h.2.1⟩,h.2.2⟩,hpanic⟩

end OpLog
end JacobiXv6.Log
