import JacobiXv6.Jacobi.Lockstep

/-! The parent's side of the lockstep invariant: the barrier rounds, the gathering of
the rows, and with them the invariant for every reachable state. -/
namespace JacobiXv6.Jacobi
open Library

variable {V : Type*} [LinearOrder V] {o : Ops V} {cfg : Config V} {s t : State V}

namespace Lockstep

lemma update_parent (h : Lockstep o cfg s) {p : Parent V} {pipe : Pipe → List (Msg V)}
    (hok : ParentOk o cfg p) (hf : ∀ i, p.pc = .fork i → ∀ c, i ≤ c → (s.child c).pc = .unborn)
    (ht : Tracks (cfg.stream o) ((s.setParent p).read cfg) ((s.setParent p).written cfg) pipe) :
    Lockstep o cfg { s.setParent p with pipe := pipe } where
  parent := hok
  child := h.child
  unborn := h.unborn
  forked := hf
  tracks := ht.congr (fun q => by cases q <;> rfl) (fun q => by cases q <;> rfl)

/-- The step of the parent that takes nothing from a pipe and gives nothing to one. -/
lemma silent_parent (h : Lockstep o cfg s) (hpos : 0 < cfg.children) {p : Parent V}
    (hok : ParentOk o cfg p)
    (hf : ∀ i, p.pc = .fork i → ∀ c, i ≤ c → (s.child c).pc = .unborn)
    (hr : ∀ d < cfg.children, p.cpRead cfg d = s.parent.cpRead cfg d)
    (hw : ∀ d < cfg.children, p.ordersSent d = s.parent.ordersSent d) :
    Lockstep o cfg (s.setParent p) := by
  refine h.update_parent hok hf (h.tracks.congr (fun q => ?_) (fun q => ?_))
  · simpa using read_setParent (k := 0) (by simpa using hr) hpos q
  · simpa using written_setParent (k := 0) (by simpa using hw) hpos q

lemma parent_knows (h : Lockstep o cfg s) {pc : ParentPc} (hpc : s.parent.pc = pc) :
    ParentOk o cfg { s.parent with pc := pc } := by
  have hparent := h.parent
  simp only [ParentOk,hpc] at hparent
  exact hparent

attribute [local simp] Parent.cpRead Parent.ordersSent

variable {i : ℕ}

section

variable (h : Lockstep o cfg s) (hN : 3 ≤ cfg.N) (hP : 1 ≤ cfg.P)
include h hN hP

lemma parent_fork
    (hpc : s.parent.pc = .fork i) (hs : stepParent o cfg s = some t) : Lockstep o cfg t := by
  have hpos := Config.children_pos hN hP
  obtain ⟨hcount,hu,hi⟩ : s.parent.count = 0 ∧ s.parent.u = cfg.grid o ∧ i ≤ cfg.children :=
    h.parent_knows hpc
  simp only [stepParent,hpc] at hs
  cases hs
  split_ifs with hlt
  · have h₁ : Lockstep o cfg (s.setParent { s.parent with pc := .fork (i+1) }) := by
      refine h.silent_parent hpos ⟨hcount,hu,hlt⟩ ?_ (by simp [hpc]) (by simp [hpc])
      rintro j hj c hc
      cases hj
      exact h.forked i hpc c (by omega)
    have hun : (s.child i).pc = .unborn := h.forked i hpc i le_rfl
    have hk : (s.child i).sweeps = 0 := h.knows hun
    have hr : ReadStep (s.child i) ⟨.entry,s.parent.u,s.parent.w,o.zero,0⟩ 0 0 0 := by
      simp [ReadStep,Child.ordersRead,Child.aboveRead,Child.belowRead,hun,hk]
    have hw : WriteStep (cfg.lo i) (cfg.hi i) (s.child i)
        ⟨.entry,s.parent.u,s.parent.w,o.zero,0⟩ 0 0 0 := by
      simp [WriteStep,Child.cpSent,Child.upSent,Child.downSent,hun,hk]
    refine h₁.set_child hlt ?_ ⟨?_,?_,?_,rfl⟩ (h₁.tracks.congr ?_ ?_)
    · rintro j hj
      cases hj
      omega
    · intro _ a _ _
      exact congrFun hu a
    · intro _ _
      exact congrFun hu 0
    · intro _ _
      exact congrFun hu _
    · simpa using read_setChild (s := s.setParent { s.parent with pc := .fork (i+1) }) hlt hr
    · simpa using written_setChild (s := s.setParent { s.parent with pc := .fork (i+1) }) hlt hw
  · exact h.silent_parent hpos ⟨running_zero,hu,by simp⟩ (by simp) (by simp [hpc,hcount])
      (by simp [hpc,hcount])

lemma parent_recvDiff
    (hpc : s.parent.pc = .recvDiff i) (hs : stepParent o cfg s = some t) : Lockstep o cfg t := by
  obtain ⟨hgo,hu,hrecv⟩ : cfg.Going o s.parent.count ∧ s.parent.u = cfg.grid o ∧
      ∀ j < i, s.parent.recvDiff j = cfg.childDiff o j s.parent.count := h.parent_knows hpc
  have hle : s.parent.count ≤ cfg.final o := hgo.le_lastSweep
  simp only [stepParent,hpc] at hs
  split_ifs at hs with hlt
  · split at hs
    · rename_i d rest hq
      cases hs
      obtain ⟨hm,-⟩ := h.tracks.head hq
      have hd : d = cfg.childDiff o i s.parent.count := by
        simpa [Config.stream,State.read,hlt,Parent.cpRead,hpc,hle] using hm
      refine h.update_parent ⟨hgo,hu,fun j hj => ?_⟩ (by simp) (h.tracks.recv hq ?_ ?_)
      · by_cases hji : j = i
        · subst j; simpa using hd
        · simpa [hji] using hrecv j (by omega)
      · refine read_setParent (fun e _ => ?_) hlt
        simp only [Parent.cpRead,hpc]
        split_ifs <;> omega
      · simpa using written_setParent (k := 0) (by simp [hpc]) hlt
    · cases hs
  · cases hs
    refine h.silent_parent (Config.children_pos hN hP) ⟨hgo,hu,fun j hj => hrecv j (by omega)⟩ (by simp)
      (fun d hd => ?_) (by simp [hpc])
    simp only [Parent.cpRead,hpc]
    rw [if_pos (by omega)]

lemma parent_decide
    (hpc : s.parent.pc = .decide) (hs : stepParent o cfg s = some t) : Lockstep o cfg t := by
  have hpos := Config.children_pos hN hP
  obtain ⟨hgo,hu,hrecv⟩ : cfg.Going o s.parent.count ∧ s.parent.u = cfg.grid o ∧
      ∀ j < cfg.children, s.parent.recvDiff j = cfg.childDiff o j s.parent.count := h.parent_knows hpc
  have hiff : maxDif o cfg s.parent.recvDiff ≤ cfg.E ∨ cfg.L < (s.parent.count+1 : ℕ) ↔
      cfg.StopsAt o s.parent.count := by
    rw [Config.maxDif_eq o hN hP hrecv]
    rfl
  simp only [stepParent,hpc] at hs
  cases hs
  by_cases hstop : cfg.StopsAt o s.parent.count
  · rw [if_pos (hiff.mpr hstop)]
    have hlast : s.parent.count = cfg.final o := hgo.eq_lastSweep hstop
    exact h.silent_parent hpos ⟨by rw [hlast],hlast ▸ hstop,hu⟩ (by simp) (by simp [hpc])
      (by simp [hpc])
  · rw [if_neg (fun hh => hstop (hiff.mp hh))]
    exact h.silent_parent hpos ⟨_,rfl,hgo.succ hstop,hu⟩ (by simp) (by simp [hpc]) (by simp [hpc])

lemma parent_sendCarryon
    (hpc : s.parent.pc = .sendCarryon i) (hs : stepParent o cfg s = some t) :
    Lockstep o cfg t := by
  obtain ⟨k,hk,hgo,hu⟩ : ∃ k, s.parent.count = k+1 ∧ cfg.Going o (k+1) ∧
      s.parent.u = cfg.grid o := h.parent_knows hpc
  simp only [stepParent,hpc] at hs
  cases hs
  split_ifs with hlt
  · refine h.update_parent ⟨k,hk,hgo,hu⟩ (by simp) (h.tracks.send (.pc i) ?_ ?_ ?_)
    · have hn : ¬ cfg.StopsAt o k := hgo k (by omega)
      simp [Config.stream,State.written,hlt,Parent.ordersSent,hpc,hk,hn]
    · simpa using read_setParent (k := 0) (by simp [hpc]) hlt
    · refine written_setParent (fun e _ => ?_) hlt
      simp only [Parent.ordersSent,hpc]
      split_ifs <;> omega
  · refine h.silent_parent (Config.children_pos hN hP) ⟨by rw [hk]; exact hgo,hu,by simp⟩ (by simp)
      (by simp [hpc])
      (fun d hd => ?_)
    simp only [Parent.ordersSent,hpc]
    rw [if_pos (by omega)]
    omega

lemma parent_sendDone
    (hpc : s.parent.pc = .sendDone i) (hs : stepParent o cfg s = some t) : Lockstep o cfg t := by
  have hpos := Config.children_pos hN hP
  obtain ⟨hk,hstop,hu⟩ : s.parent.count = cfg.final o+1 ∧ cfg.StopsAt o (cfg.final o) ∧
      s.parent.u = cfg.grid o := h.parent_knows hpc
  simp only [stepParent,hpc] at hs
  cases hs
  split_ifs with hlt
  · refine h.update_parent ⟨hk,hstop,hu⟩ (by simp) (h.tracks.send (.pc i) ?_ ?_ ?_)
    · simp [Config.stream,State.written,hlt,Parent.ordersSent,hpc,hk,hstop]
    · simpa using read_setParent (k := 0) (by simp [hpc]) hlt
    · refine written_setParent (fun e _ => ?_) hlt
      simp only [Parent.ordersSent,hpc]
      split_ifs <;> omega
  · have hle := Config.lo_le_hi hN hpos
    refine h.silent_parent hpos ⟨hk,hpos.le,le_rfl,by omega,by omega,fun a => ?_⟩ (by simp)
      (fun d hd => ?_)
      (fun d hd => ?_)
    · have hn : ¬ (1 ≤ a ∧ a < cfg.lo 0) := by simp; omega
      rw [if_neg hn,← hu]
    · simp only [Parent.cpRead,hpc]
      split_ifs with h0
      · omega
      · subst d; omega
      · rfl
    · simp only [Parent.ordersSent,hpc]
      rw [if_pos (by omega)]
      omega

lemma parent_recvRow {j : ℕ}
    (hpc : s.parent.pc = .recvRow i j) (hs : stepParent o cfg s = some t) :
    Lockstep o cfg t := by
  have hpos := Config.children_pos hN hP
  obtain ⟨hk,hi,hlo,hhi,hend,hu⟩ : s.parent.count = cfg.final o+1 ∧ i ≤ cfg.children ∧
      cfg.lo i ≤ j ∧ j ≤ cfg.hi i+1 ∧ (i = cfg.children → j = cfg.N-1) ∧ ∀ a, s.parent.u a =
        if 1 ≤ a ∧ a < j then cfg.gridAt o (cfg.final o+1) a else cfg.grid o a := h.parent_knows hpc
  have hlo1 := cfg.lo_pos i
  simp only [stepParent,hpc] at hs
  split_ifs at hs with hlt hj
  · split at hs
    · rename_i r rest hq
      cases hs
      obtain ⟨hm,-⟩ := h.tracks.head hq
      have hrow : r = cfg.gridAt o (cfg.final o+1) j := by
        have he : cfg.lo i+(j-cfg.lo i) = j := by omega
        have hgt : ¬ cfg.final o+1+(j-cfg.lo i) ≤ cfg.final o := by omega
        simpa [Config.stream,State.read,hlt,Parent.cpRead,hpc,hk,he,hgt] using hm
      refine h.update_parent ⟨hk,hi,by omega,by omega,by omega,fun a => ?_⟩ (by simp)
        (h.tracks.recv hq ?_ ?_)
      · by_cases haj : a = j
        · subst a
          rw [if_pos (by omega),← hrow]
          exact setRow_self _ _ _
        · refine (setRow_of_ne _ _ haj).trans ((hu a).trans ?_)
          have : a < j ↔ a < j+1 := by omega
          simp only [this]
      · refine read_setParent (fun e _ => ?_) hlt
        simp only [Parent.cpRead,hpc]
        split_ifs <;> first | omega | (subst e; omega)
      · simpa using written_setParent (k := 0) (by simp [hpc]) hlt
    · cases hs
  · cases hs
    have hj' : j = cfg.lo (i+1) := by rw [cfg.lo_succ]; omega
    have hnext : cfg.lo (i+1) ≤ cfg.hi (i+1)+1 := by
      have := endIndex_add_one cfg.N cfg.processes (i+1)
      change startIndex _ _ _ ≤ endIndex _ _ _+1
      omega
    refine h.silent_parent hpos ⟨hk,hlt,le_rfl,hnext,fun he => ?_,by rw [← hj']; exact hu⟩ (by simp)
      (fun d hd => ?_) (by simp [hpc])
    · have := Config.hi_last hN hP he
      rw [cfg.lo_succ]
      omega
    · simp only [Parent.cpRead,hpc]
      by_cases hd1 : d < i
      · simp [hd1,Nat.lt_succ_of_lt hd1]
      · by_cases hd2 : d = i
        · subst d; simp; omega
        · have : ¬ d < i+1 := by omega
          by_cases hd3 : d = i+1
          · subst d; simp
          · simp [hd1,hd2,hd3,this]
  · cases hs
    have hie : i = cfg.children := by omega
    refine h.silent_parent hpos ⟨hk,fun a ha => ?_⟩ (by simp) (fun d hd => ?_) (by simp [hpc])
    · rw [hu a,hend hie]
      by_cases h0 : a = 0
      · subst a
        rw [if_neg (by omega),Config.gridAt_top]
      · by_cases hl : a = cfg.N-1
        · rw [if_neg (by omega),hl,Config.gridAt_bottom o hN]
        · rw [if_pos (by omega)]
    · have : d < i := by omega
      simp [hpc,this]

/-- Every step of the parent keeps the invariant. -/
theorem stepParent
    (hs : Jacobi.stepParent o cfg s = some t) : Lockstep o cfg t := by
  have hpos := Config.children_pos hN hP
  cases hpc : s.parent.pc with
  | fork i => exact h.parent_fork hN hP hpc hs
  | recvDiff i => exact h.parent_recvDiff hN hP hpc hs
  | decide => exact h.parent_decide hN hP hpc hs
  | sendCarryon i => exact h.parent_sendCarryon hN hP hpc hs
  | sendDone i => exact h.parent_sendDone hN hP hpc hs
  | recvRow i j => exact h.parent_recvRow hN hP hpc hs
  | print =>
    obtain ⟨hk,hu⟩ : s.parent.count = cfg.final o+1 ∧
        ∀ a < cfg.N, s.parent.u a = cfg.gridAt o (cfg.final o+1) a := h.parent_knows hpc
    simp only [Jacobi.stepParent,hpc] at hs
    cases hs
    have hprint := printGrid_congr fun i hi j _ => congrFun (hu i hi) j
    exact h.silent_parent hpos ⟨hk,congrArg some hprint⟩ (by simp) (by simp [hpc]) (by simp [hpc])
  | wait i =>
    have hp := h.parent_knows hpc
    simp only [Jacobi.stepParent,hpc] at hs
    split_ifs at hs with hlt hex <;> cases hs
    · exact h.silent_parent hpos hp (by simp) (by simp [hpc]) (by simp [hpc])
    · exact h.silent_parent hpos hp (by simp) (by simp [hpc]) (by simp [hpc])
  | exited => simp [Jacobi.stepParent,hpc] at hs

end

lemma initial (o : Ops V) (cfg : Config V) : Lockstep o cfg (initial o cfg) where
  parent := ⟨rfl,rfl,Nat.zero_le _⟩
  child c := ⟨fun h => absurd rfl h,fun h => absurd rfl h,fun h => absurd rfl h,rfl⟩
  unborn _ _ := rfl
  forked _ _ _ _ := rfl
  tracks := by
    refine .empty _ _ (fun _ => rfl) (fun q => ?_) (fun q => ?_)
    · cases q <;> simp [State.read,Jacobi.initial,Parent.cpRead,Child.ordersRead,
        Child.belowRead,Child.aboveRead]
    · cases q <;> simp [State.written,Jacobi.initial,Parent.ordersSent,Child.cpSent,
        Child.upSent,Child.downSent]

/-- The invariant holds in every state that some schedule reaches. -/
theorem reaches (hN : 3 ≤ cfg.N) (hP : 1 ≤ cfg.P) {schedule : List Proc}
    (h : Reaches o cfg schedule s) : Lockstep o cfg s := by
  refine Run.invariant (fun _ s => Lockstep o cfg s) (fun _ s p t hs hst => ?_) h (initial o cfg)
  cases p with
  | parent => exact hs.stepParent hN hP hst
  | child c => exact hs.stepChild hN hP hst

end Lockstep
end JacobiXv6.Jacobi
