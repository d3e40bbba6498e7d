import JacobiXv6.Jacobi.Refinement

/-! The iteration in exact arithmetic: the values stay between those of the border, and the
largest change of a sweep never grows. -/
namespace JacobiXv6.Jacobi
open Library Function

/-! ## The rows that the processes hold -/

section Rows
variable {V : Type*} [LinearOrder V] {o : Ops V} {cfg : Config V} {s t : State V} {c : ℕ}

variable (o cfg) in
/-- Every row of the array is what it was after some number of sweeps. -/
def Dated (u : Grid V) : Prop := ∀ a < cfg.N, ∃ k, u a = cfg.gridAt o k a

variable (o cfg) in
/-- This holds of the parent and of every child that has been forked. -/
structure RowsDated (s : State V) : Prop where
  parent : Dated o cfg s.parent.u
  child : ∀ c, (s.child c).pc ≠ .unborn → Dated o cfg (s.child c).u

/-- The rows that a step of child `c` can change. -/
def Touches (cfg : Config V) (c : ℕ) (ch : Child V) (a : ℕ) : Prop :=
  (ch.pc = .recvBelow ∧ a = cfg.lo c-1) ∨ (ch.pc = .compute ∧ a = cfg.hi c+1) ∨
    (cfg.lo c ≤ a ∧ a ≤ cfg.hi c)

/-- A step of child `c` changes nothing of the others, and of its own array the ghost row
that it reads or the rows that it sweeps. -/
structure ChildFrame (cfg : Config V) (c : ℕ) (s t : State V) : Prop where
  born : (s.child c).pc ≠ .unborn
  parent : t.parent = s.parent
  others : ∀ d, d ≠ c → t.child d = s.child d
  rows : ∀ a, (t.child c).u a = (s.child c).u a ∨ Touches cfg c (t.child c) a

section
omit [LinearOrder V]

lemma ChildFrame.of_set {ch : Child V} {pipe : Pipe → List (Msg V)} (hborn : (s.child c).pc ≠ .unborn)
    (hrows : ∀ a, ch.u a = (s.child c).u a ∨ Touches cfg c ch a) :
    ChildFrame cfg c s { s with child := update s.child c ch, pipe := pipe } where
  born := hborn
  parent := rfl
  others _ hd := update_of_ne hd _ _
  rows := by
    intro a
    simp only [update_self]
    exact hrows a

lemma setRow_rows (u : Grid V) (b : ℕ) (r : Row V) (a : ℕ) : setRow u b r a = u a ∨ a = b := by
  obtain rfl | hne := eq_or_ne a b
  · exact .inr rfl
  · exact .inl (setRow_of_ne u r hne)

lemma copyBack_rows (N lo hi : ℕ) (w u : Grid V) (a : ℕ) :
    copyBack N lo hi w u a = u a ∨ (lo ≤ a ∧ a ≤ hi) := by
  by_cases ha : lo ≤ a ∧ a ≤ hi
  · exact .inr ha
  · left
    funext b
    rw [copyBack_apply,if_neg fun h => ha h.1]

end

lemma childFrame (h : Jacobi.stepChild o cfg c s = some t) : ChildFrame cfg c s t := by
  have keep : ∀ {pc : ChildPc} {d : V} {pipe : Pipe → List (Msg V)}, (s.child c).pc ≠ .unborn →
      ChildFrame cfg c s { s with
        child := update s.child c { s.child c with pc := pc, diff := d }, pipe := pipe } :=
    fun hb => .of_set hb fun a => .inl rfl
  cases hpc : (s.child c).pc with
  | unborn | exited => simp [stepChild,hpc] at h
  | entry | sendDiff =>
    simp only [stepChild,hpc] at h
    cases h
    exact keep (by simp [hpc])
  | sendUp | sendDown | sendRow i =>
    simp only [stepChild,hpc] at h
    split_ifs at h <;> cases h <;> exact keep (by simp [hpc])
  | recvAbove =>
    simp only [stepChild,hpc] at h
    split_ifs at h
    · split at h
      · cases h
        refine .of_set (by simp [hpc]) fun a => ?_
        exact (setRow_rows _ _ _ a).imp_right fun ha => .inl ⟨rfl,ha⟩
      · cases h
    · cases h
      exact keep (by simp [hpc])
  | recvBelow =>
    simp only [stepChild,hpc] at h
    split_ifs at h
    · split at h
      · cases h
        refine .of_set (by simp [hpc]) fun a => ?_
        exact (setRow_rows _ _ _ a).imp_right fun ha => .inr (.inl ⟨rfl,ha⟩)
      · cases h
    · cases h
      exact keep (by simp [hpc])
  | compute =>
    simp only [stepChild,hpc] at h
    cases h
    refine .of_set (by simp [hpc]) fun a => ?_
    exact (copyBack_rows _ _ _ _ _ a).imp_right fun ha => .inr (.inr ha)
  | recvOrder =>
    simp only [stepChild,hpc] at h
    split at h
    · cases h
      split_ifs <;> exact keep (by simp [hpc])
    · cases h

/-- What `Lockstep` knows of the rows that a child may just have changed. -/
lemma Lockstep.touched (h : Lockstep o cfg s) (hb : (s.child c).pc ≠ .unborn) {a : ℕ}
    (ha : Touches cfg c (s.child c) a) : ∃ k, (s.child c).u a = cfg.gridAt o k a := by
  refine ⟨(s.child c).sweeps,?_⟩
  have hphase := (h.child c).phase
  unfold Phase at hphase
  rcases ha with ⟨hpc,rfl⟩ | ⟨hpc,rfl⟩ | ⟨hlo,hhi⟩
  · rw [hpc] at hphase
    exact hphase.2.2
  · rw [hpc] at hphase
    exact hphase.2.2.2
  · exact (h.child c).rows hb a hlo hhi

lemma RowsDated.stepChild (h : RowsDated o cfg s) (ht : Lockstep o cfg t)
    (hs : Jacobi.stepChild o cfg c s = some t) : RowsDated o cfg t := by
  obtain ⟨hborn,hparent,hothers,hrows⟩ := childFrame hs
  refine ⟨by rw [hparent]; exact h.parent,?_⟩
  intro d hd a ha
  obtain rfl | hne := eq_or_ne d c
  · rcases hrows a with he | htouch
    · rw [he]
      exact h.child d hborn a ha
    · exact ht.touched hd htouch
  · rw [hothers d hne] at hd ⊢
    exact h.child d hd a ha

/-- A step of the parent leaves its array alone, except that it reads rows at the end; a child
that it forks gets a copy. -/
structure ParentFrame (s t : State V) : Prop where
  rows : t.parent.u = s.parent.u ∨ ∃ i j, t.parent.pc = .recvRow i j
  child : ∀ c, t.child c = s.child c ∨ (t.child c).u = s.parent.u

lemma parentFrame (h : Jacobi.stepParent o cfg s = some t) : ParentFrame s t := by
  cases hpc : s.parent.pc with
  | fork i =>
    simp only [stepParent,hpc] at h
    split_ifs at h <;> cases h
    · refine ⟨.inl rfl,fun c => ?_⟩
      obtain rfl | hne := eq_or_ne c i
      · right
        simp [State.setChild]
      · left
        simp [State.setChild,State.setParent,hne]
    · exact ⟨.inl rfl,fun c => .inl rfl⟩
  | recvDiff i =>
    simp only [stepParent,hpc] at h
    split_ifs at h
    · split at h <;> cases h
      exact ⟨.inl rfl,fun c => .inl rfl⟩
    · cases h
      exact ⟨.inl rfl,fun c => .inl rfl⟩
  | decide | print =>
    simp only [stepParent,hpc] at h
    cases h
    exact ⟨.inl rfl,fun c => .inl rfl⟩
  | sendCarryon i | sendDone i | wait i =>
    simp only [stepParent,hpc] at h
    split_ifs at h <;> cases h <;> exact ⟨.inl rfl,fun c => .inl rfl⟩
  | recvRow i j =>
    simp only [stepParent,hpc] at h
    split_ifs at h
    · split at h <;> cases h
      exact ⟨.inr ⟨_,_,rfl⟩,fun c => .inl rfl⟩
    · cases h
      exact ⟨.inl rfl,fun c => .inl rfl⟩
    · cases h
      exact ⟨.inl rfl,fun c => .inl rfl⟩
  | exited => simp [stepParent,hpc] at h

lemma RowsDated.stepParent (h : RowsDated o cfg s) (ht : Lockstep o cfg t)
    (hs : Jacobi.stepParent o cfg s = some t) : RowsDated o cfg t := by
  obtain ⟨hrows,hchild⟩ := parentFrame hs
  constructor
  · rcases hrows with he | ⟨i,j,hpc⟩
    · rw [he]
      exact h.parent
    · intro a _
      have hp := ht.parent
      simp only [ParentOk,hpc] at hp
      rw [hp.2.2.2.2.2 a]
      split_ifs
      · exact ⟨_,rfl⟩
      · exact ⟨0,rfl⟩
  · intro c hc
    rcases hchild c with he | he
    · rw [he] at hc ⊢
      exact h.child c hc
    · rw [he]
      exact h.parent

lemma RowsDated.reaches (hN : 3 ≤ cfg.N) (hP : 1 ≤ cfg.P) {schedule : List Proc}
    (h : Reaches o cfg schedule s) : RowsDated o cfg s := by
  have hboth : Lockstep o cfg s ∧ RowsDated o cfg s := by
    refine h.invariant (fun _ s => Lockstep o cfg s ∧ RowsDated o cfg s) ?_
      ⟨.initial o cfg,fun a _ => ⟨0,rfl⟩,fun c hc => absurd rfl hc⟩
    rintro _ s p t ⟨hl,hr⟩ hs
    cases p with
    | parent =>
      have ht := hl.stepParent hN hP hs
      exact ⟨ht,hr.stepParent ht hs⟩
    | child c =>
      have ht := hl.stepChild hN hP hs
      exact ⟨ht,hr.stepChild ht hs⟩
  exact hboth.2

/-- The parent's maximum in round `k` is the difference of sweep `k`. -/
lemma Lockstep.maxDif_decide (h : Lockstep o cfg s) (hN : 3 ≤ cfg.N) (hP : 1 ≤ cfg.P)
    (hpc : s.parent.pc = .decide) :
    maxDif o cfg s.parent.recvDiff = seqDiff o cfg.N (cfg.gridAt o s.parent.count) := by
  have hp := h.parent
  simp only [ParentOk,hpc] at hp
  exact Config.maxDif_eq o hN hP hp.2.2

end Rows

/-! ## Exact arithmetic -/

def fabsm (a : ℚ) : ℚ := if a < 0 then -1*a else a

/-- The operations of `main` on rational numbers. -/
def ratOps : Ops ℚ where
  zero := 0
  add := (· + ·)
  divCount x n := x/(4*n)
  average a b c d := (a+b+c+d)/4
  dist a b := fabsm (a-b)

lemma fabsm_eq_abs (a : ℚ) : fabsm a = |a| := by
  unfold fabsm
  split_ifs with h
  · rw [abs_of_neg h,neg_one_mul]
  · rw [abs_of_nonneg (not_lt.mp h)]

def Border (N i j : ℕ) : Prop := i = 0 ∨ i = N-1 ∨ j = 0 ∨ j = N-1

/-- All cells of the array lie between 0 and `T`. -/
def InRange (N : ℕ) (T : ℚ) (u : Grid ℚ) : Prop := ∀ i < N, ∀ j < N, 0 ≤ u i j ∧ u i j ≤ T

section Init
variable {N : ℕ} {T : ℚ}

/-- The border cells filled by `n` turns are in range, and the sum is one of `4*n` such cells. -/
lemma initBorder_range (hT : 0 ≤ T) (u : Grid ℚ) (n : ℕ) :
    (∀ a b, Touched N n a b → 0 ≤ ((List.range n).foldl (initBorder ratOps N T) (u,0)).1 a b ∧
      ((List.range n).foldl (initBorder ratOps N T) (u,0)).1 a b ≤ T) ∧
    0 ≤ ((List.range n).foldl (initBorder ratOps N T) (u,0)).2 ∧
    ((List.range n).foldl (initBorder ratOps N T) (u,0)).2 ≤ 4*n*T := by
  induction n with
  | zero =>
    refine ⟨fun a b h => ?_,le_rfl,by simp⟩
    unfold Touched at h
    omega
  | succ n ih =>
    rw [List.range_succ,List.foldl_append,List.foldl_cons,List.foldl_nil]
    obtain ⟨hcells,hlo,hhi⟩ := ih
    generalize (List.range n).foldl (initBorder ratOps N T) (u,0) = st at *
    have hnew : ∀ a b, Touched N (n+1) a b → 0 ≤ (initBorder ratOps N T st n).1 a b ∧
        (initBorder ratOps N T st n).1 a b ≤ T := by
      intro a b hab
      simp only [initBorder,setCell_apply]
      split_ifs
      · exact ⟨le_rfl,hT⟩
      · exact ⟨hT,le_rfl⟩
      · exact ⟨hT,le_rfl⟩
      · exact ⟨hT,le_rfl⟩
      · apply hcells
        unfold Touched at hab ⊢
        omega
    have h1 := hnew n 0 (by unfold Touched; omega)
    have h2 := hnew n (N-1) (by unfold Touched; omega)
    have h3 := hnew 0 n (by unfold Touched; omega)
    have h4 := hnew (N-1) n (by unfold Touched; omega)
    have hsum : (initBorder ratOps N T st n).2 = st.2+((initBorder ratOps N T st n).1 n 0+
      (initBorder ratOps N T st n).1 n (N-1)+(initBorder ratOps N T st n).1 0 n+
      (initBorder ratOps N T st n).1 (N-1) n) := rfl
    refine ⟨hnew,?_,?_⟩
    · rw [hsum]
      linarith
    · rw [hsum]
      push_cast
      linarith

lemma initGrid_range (hT : 0 ≤ T) (u : Grid ℚ) : InRange N T (initGrid ratOps N T u) := by
  obtain ⟨hcells,hlo,hhi⟩ := initBorder_range (N := N) hT u N
  intro i hi j hj
  have hN : (0 : ℚ) < 4*N := by
    have : 0 < N := by omega
    positivity
  change 0 ≤ copyBack N 1 (N-2) (fun _ _ => ratOps.divCount _ N) _ i j ∧
    copyBack N 1 (N-2) (fun _ _ => ratOps.divCount _ N) _ i j ≤ T
  rw [copyBack_apply]
  split_ifs with hin
  · exact ⟨div_nonneg hlo hN.le,(div_le_iff₀ hN).mpr (hhi.trans_eq (mul_comm _ _))⟩
  · apply hcells
    unfold Touched
    omega

end Init

section Sweeps
variable {N : ℕ} {T : ℚ} {u : Grid ℚ}

lemma InRange.seqSweep (h : InRange N T u) : InRange N T (seqSweep ratOps N u) := by
  intro i hi j hj
  unfold Jacobi.seqSweep
  split_ifs with hin
  · have h1 := h (i-1) (by omega) j hj
    have h2 := h (i+1) (by omega) j hj
    have h3 := h i hi (j-1) (by omega)
    have h4 := h i hi (j+1) (by omega)
    change 0 ≤ (u (i-1) j+u (i+1) j+u i (j-1)+u i (j+1))/4 ∧
      (u (i-1) j+u (i+1) j+u i (j-1)+u i (j+1))/4 ≤ T
    constructor <;> linarith
  · exact h i hi j hj

lemma InRange.seqGrid (h : InRange N T u) (k : ℕ) : InRange N T (seqGrid ratOps N u k) := by
  induction k with
  | zero => exact h
  | succ k ih =>
    rw [seqGrid_succ]
    exact ih.seqSweep

lemma seqGrid_of_border {i j : ℕ} (h : Border N i j) (k : ℕ) : seqGrid ratOps N u k i j = u i j := by
  induction k with
  | zero => rfl
  | succ k ih =>
    rw [seqGrid_succ,seqSweep,if_neg ?_,ih]
    unfold Border at h
    omega

lemma change_seqSweep (u : Grid ℚ) {i j : ℕ} (hi : 1 ≤ i ∧ i ≤ N-2) (hj : 1 ≤ j ∧ j ≤ N-2) :
    change ratOps (seqSweep ratOps N u) i j = |((seqSweep ratOps N u (i-1) j-u (i-1) j)+
      (seqSweep ratOps N u (i+1) j-u (i+1) j)+(seqSweep ratOps N u i (j-1)-u i (j-1))+
      (seqSweep ratOps N u i (j+1)-u i (j+1)))/4| := by
  have hcell : seqSweep ratOps N u i j = (u (i-1) j+u (i+1) j+u i (j-1)+u i (j+1))/4 :=
    if_pos ⟨hi,hj⟩
  change fabsm ((_+_+_+_)/4-seqSweep ratOps N u i j) = _
  rw [fabsm_eq_abs,hcell]
  congr 1
  ring

lemma abs_seqSweep_sub_le (u : Grid ℚ) (i j : ℕ) :
    |seqSweep ratOps N u i j-u i j| ≤ seqDiff ratOps N u := by
  obtain ⟨hzero,hle⟩ := (seqDiff_le_iff ratOps N u _).mp le_rfl
  unfold seqSweep
  split_ifs with hin
  · rw [← fabsm_eq_abs]
    exact hle i hin.1.1 hin.1.2 j hin.2.1 hin.2.2
  · rw [sub_self,abs_zero]
    exact hzero

lemma seqDiff_seqSweep_le (u : Grid ℚ) :
    seqDiff ratOps N (seqSweep ratOps N u) ≤ seqDiff ratOps N u := by
  rw [seqDiff_le_iff]
  refine ⟨((seqDiff_le_iff ratOps N u _).mp le_rfl).1,fun i hi hi' j hj hj' => ?_⟩
  rw [change_seqSweep u ⟨hi,hi'⟩ ⟨hj,hj'⟩,abs_le]
  obtain ⟨a1,b1⟩ := abs_le.mp (abs_seqSweep_sub_le (N := N) u (i-1) j)
  obtain ⟨a2,b2⟩ := abs_le.mp (abs_seqSweep_sub_le (N := N) u (i+1) j)
  obtain ⟨a3,b3⟩ := abs_le.mp (abs_seqSweep_sub_le (N := N) u i (j-1))
  obtain ⟨a4,b4⟩ := abs_le.mp (abs_seqSweep_sub_le (N := N) u i (j+1))
  constructor <;> linarith

lemma seqDiff_antitone (u : Grid ℚ) : Antitone fun k => seqDiff ratOps N (seqGrid ratOps N u k) := by
  apply antitone_nat_of_succ_le
  intro k
  rw [seqGrid_succ]
  exact seqDiff_seqSweep_le _

end Sweeps

lemma Dated.cells {cfg : Config ℚ} {u : Grid ℚ} (h : Dated ratOps cfg u) (hT : 0 ≤ cfg.T) :
    InRange cfg.N cfg.T u ∧ ∀ i < cfg.N, ∀ j < cfg.N, Border cfg.N i j →
      u i j = cfg.grid ratOps i j := by
  have hrange := initGrid_range (N := cfg.N) hT cfg.u
  constructor
  · intro i hi j hj
    obtain ⟨k,hk⟩ := h i hi
    rw [hk]
    exact hrange.seqGrid k i hi j hj
  · intro i hi j _ hb
    obtain ⟨k,hk⟩ := h i hi
    rw [hk]
    exact seqGrid_of_border hb k

/-- **The iteration in exact arithmetic.** After every number of sweeps the cells lie in `[0,T]`
and the border is what it was; the differences of the sweeps never grow. Under every
schedule this holds of the array of each process, and `max_dif` is the difference of the sweep. -/
theorem sweep_maximum_principle (cfg : Config ℚ) (hN : 3 ≤ cfg.N) (hP : 1 ≤ cfg.P) (hT : 0 ≤ cfg.T) :
    (∀ k, InRange cfg.N cfg.T (cfg.gridAt ratOps k) ∧
      ∀ i j, Border cfg.N i j → cfg.gridAt ratOps k i j = cfg.grid ratOps i j) ∧
    (Antitone fun k => seqDiff ratOps cfg.N (cfg.gridAt ratOps k)) ∧
    (∀ E k m, k ≤ m → seqDiff ratOps cfg.N (cfg.gridAt ratOps k) ≤ E →
      seqDiff ratOps cfg.N (cfg.gridAt ratOps m) ≤ E) ∧
    ∀ schedule s, Reaches ratOps cfg schedule s →
      (InRange cfg.N cfg.T s.parent.u ∧ ∀ i < cfg.N, ∀ j < cfg.N, Border cfg.N i j →
        s.parent.u i j = cfg.grid ratOps i j) ∧
      (∀ c, (s.child c).pc ≠ .unborn → InRange cfg.N cfg.T (s.child c).u ∧
        ∀ i < cfg.N, ∀ j < cfg.N, Border cfg.N i j → (s.child c).u i j = cfg.grid ratOps i j) ∧
      (s.parent.pc = .decide →
        maxDif ratOps cfg s.parent.recvDiff =
          seqDiff ratOps cfg.N (cfg.gridAt ratOps s.parent.count)) := by
  have hanti := seqDiff_antitone (N := cfg.N) (cfg.grid ratOps)
  refine ⟨fun k => ⟨(initGrid_range hT cfg.u).seqGrid k,fun i j hb => seqGrid_of_border hb k⟩,hanti,
    fun E k m hkm hk => (hanti hkm).trans hk,fun schedule s hs => ?_⟩
  have hrows := RowsDated.reaches hN hP hs
  exact ⟨hrows.parent.cells hT,fun c hc => (hrows.child c hc).cells hT,
    (Lockstep.reaches hN hP hs).maxDif_decide hN hP⟩

/-- Four interior cells, two processes, two sweeps. -/
def ratSample : Config ℚ :=
  { program := .jacob, N := 4, E := 0, T := 8, P := 2, L := 1, u := fun _ _ => 7, w := fun _ _ => 7 }

/-- The parent has the differences of the second sweep. -/
theorem sweep_maximum_principle_sample : ∃ s, Reaches ratOps ratSample
    (startSchedule++sweepSchedule++orderSchedule++sweepSchedule) s ∧ s.parent.count = 1 ∧
    (∀ c < 2, InRange 4 8 (s.child c).u) ∧
    maxDif ratOps ratSample s.parent.recvDiff = seqDiff ratOps 4 (ratSample.gridAt ratOps 1) ∧
    seqDiff ratOps 4 (ratSample.gridAt ratOps 1) ≤ seqDiff ratOps 4 (ratSample.gridAt ratOps 0) := by
  have he : (exec (step ratOps ratSample)
    (startSchedule++sweepSchedule++orderSchedule++sweepSchedule)
      (initial ratOps ratSample)).map (fun s => decide (s.parent.pc = .decide ∧ s.parent.count = 1 ∧
        (s.child 0).pc = .recvOrder ∧ (s.child 1).pc = .recvOrder)) = some true := by decide +kernel
  obtain ⟨s,hs,hd⟩ := Option.map_eq_some_iff.mp he
  obtain ⟨hpc,hcount,hzero,hone⟩ := of_decide_eq_true hd
  have hborn : ∀ c < 2, (s.child c).pc ≠ .unborn := by
    intro c hc
    interval_cases c
    · simp [hzero]
    · simp [hone]
  obtain ⟨-,hanti,-,hrun⟩ := sweep_maximum_principle ratSample (by decide) (by decide) (by decide)
  obtain ⟨-,hchild,hdecide⟩ := hrun _ s (.of_exec hs)
  exact ⟨s,.of_exec hs,hcount,fun c hc => (hchild c (hborn c hc)).1,hcount ▸ hdecide hpc,
    hanti (Nat.zero_le 1)⟩

end JacobiXv6.Jacobi
