import JacobiXv6.Jacobi.Refinement
import JacobiXv6.Jacobi.Bounded

/-! The protocol never deadlocks. The counts of the traffic say what each process waits for: two
neighbours are at most one sweep apart, so a ghost row always fits, and whoever holds the parent up
can go on. -/
namespace JacobiXv6.Jacobi
open Library Function List Option

variable {V : Type*} [LinearOrder V] {o : Ops V} {cfg : Config V} {s t : State V} {c d : ℕ}

/-! ## Counts -/

namespace Lockstep

lemma pipe_eq_nil (h : Lockstep o cfg s) {q : Pipe} (hle : s.written cfg q ≤ s.read cfg q) :
    s.pipe q = [] := by
  have hz : s.written cfg q-s.read cfg q = 0 := by omega
  rw [(h.tracks q).2,window,hz]
  rfl

lemma length_pipe (h : Lockstep o cfg s) (q : Pipe) :
    (s.pipe q).length = s.written cfg q-s.read cfg q := by
  rw [(h.tracks q).2,window,length_map,length_range']

lemma pipe_eq_cons (h : Lockstep o cfg s) {q : Pipe} (hlt : s.read cfg q < s.written cfg q) :
    ∃ rest, s.pipe q = cfg.stream o q (s.read cfg q)::rest := by
  have hlen := h.length_pipe q
  cases hq : s.pipe q with
  | nil =>
    rw [hq,length_nil] at hlen
    omega
  | cons m rest =>
    obtain ⟨hm,-⟩ := h.tracks.head hq
    exact ⟨rest,by rw [hm]⟩

lemma count_le (h : Lockstep o cfg s) : s.parent.count ≤ cfg.final o+1 := by
  have hp := h.parent
  unfold ParentOk at hp
  cases hpc : s.parent.pc with
  | fork i =>
    simp only [hpc] at hp
    omega
  | recvDiff i | decide =>
    simp only [hpc] at hp
    have hle : s.parent.count ≤ cfg.final o := hp.1.le_lastSweep
    omega
  | sendCarryon i =>
    simp only [hpc] at hp
    obtain ⟨k,hk,hgo,-⟩ := hp
    have hle : k+1 ≤ cfg.final o := hgo.le_lastSweep
    omega
  | sendDone i | recvRow i j | print | wait i | exited =>
    simp only [hpc] at hp
    omega

lemma ordersSent_le (h : Lockstep o cfg s) (i : ℕ) : s.parent.ordersSent i ≤ s.parent.count := by
  have hp := h.parent
  unfold ParentOk at hp
  unfold Parent.ordersSent
  cases hpc : s.parent.pc with
  | sendCarryon j =>
    simp only [hpc] at hp ⊢
    obtain ⟨k,hk,-⟩ := hp
    split_ifs <;> omega
  | sendDone j =>
    simp only [hpc] at hp ⊢
    split_ifs <;> omega
  | _ => simp

omit [LinearOrder V] in
lemma le_cpRead (cfg : Config V) (s : State V) (i : ℕ) : s.parent.count ≤ s.parent.cpRead cfg i := by
  unfold Parent.cpRead
  cases s.parent.pc <;> simp

lemma traffic (h : Lockstep o cfg s) (hc : c < cfg.children) :
    (s.child c).ordersRead ≤ s.parent.ordersSent c ∧
      s.parent.cpRead cfg c ≤ (s.child c).cpSent (cfg.lo c) (cfg.hi c) := by
  have ho := (h.tracks (.pc c)).1
  have hd := (h.tracks (.cp c)).1
  simp only [State.read,State.written,hc,if_true] at ho hd
  exact ⟨ho,hd⟩

lemma sweeps_bounds (h : Lockstep o cfg s) (hc : c < cfg.children) :
    s.parent.count ≤ (s.child c).sweeps ∧ (s.child c).sweeps ≤ s.parent.count+1 := by
  obtain ⟨ho,hd⟩ := h.traffic hc
  have hsent := h.ordersSent_le c
  have hread := le_cpRead cfg s c
  have hcount := h.count_le
  have hph := (h.child c).phase
  unfold Phase at hph
  unfold Child.ordersRead at ho
  unfold Child.cpSent at hd
  cases hpc : (s.child c).pc <;> simp only [hpc] at hph ho hd
  all_goals omega

lemma sent_le (h : Lockstep o cfg s) (hc : c < cfg.children) :
    (s.child c).upSent ≤ s.parent.count+1 ∧ (s.child c).downSent ≤ s.parent.count+1 := by
  obtain ⟨ho,-⟩ := h.traffic hc
  have hsent := h.ordersSent_le c
  obtain ⟨-,hle⟩ := h.sweeps_bounds hc
  unfold Child.ordersRead at ho
  unfold Child.upSent Child.downSent
  cases hpc : (s.child c).pc <;> simp only [hpc] at ho ⊢
  all_goals omega

omit [LinearOrder V] in
lemma sweeps_le_read (ch : Child V) : ch.sweeps ≤ ch.aboveRead ∧ ch.sweeps ≤ ch.belowRead := by
  unfold Child.aboveRead Child.belowRead
  cases ch.pc <;> simp

lemma length_ghost_le (h : Lockstep o cfg s) (i : ℕ) :
    (s.pipe (.ccUp i)).length ≤ 1 ∧ (s.pipe (.ccDown i)).length ≤ 1 := by
  rw [h.length_pipe,h.length_pipe]
  simp only [State.read,State.written]
  by_cases hi : i+1 < cfg.children
  · have hup := (h.sent_le hi).1
    have hdown := (h.sent_le (Nat.lt_of_succ_lt hi)).2
    obtain ⟨hlo,-⟩ := h.sweeps_bounds (Nat.lt_of_succ_lt hi)
    obtain ⟨hlo',-⟩ := h.sweeps_bounds hi
    have hbelow := (sweeps_le_read (s.child i)).2
    have habove := (sweeps_le_read (s.child (i+1))).1
    simp only [hi,if_true]
    omega
  · simp only [hi,if_false]
    omega

end Lockstep

/-! ## Progress -/

def CanStep (o : Ops V) (cfg : Config V) (s : State V) (p : Proc) : Prop :=
  Ready cfg s p ∧ (step o cfg p s).isSome = true

omit [LinearOrder V] in
lemma room_of_empty {q : Pipe} {m : Msg V} (hq : s.pipe q = []) (hsize : 4*cfg.N ≤ Kernel.PIPESIZE) :
    Room cfg s q m := by
  rw [Room,hq]
  cases m with
  | row r => simpa [Msg.bytes] using hsize
  | order _ | diff _ =>
    simp only [map_nil,sum_nil,Msg.bytes,Kernel.PIPESIZE]
    omega

namespace Lockstep

lemma sendUp_steps (h : Lockstep o cfg s) (hsize : 4*cfg.N ≤ Kernel.PIPESIZE) (hc : c < cfg.children)
    (hpc : (s.child c).pc = .sendUp) : CanStep o cfg s (.child c) := by
  constructor
  · simp only [Ready,operation,childOperation,hpc]
    by_cases h0 : 0 < c
    · rw [if_pos h0]
      refine room_of_empty (h.pipe_eq_nil ?_) hsize
      have hidx : c-1+1 = c := by omega
      obtain ⟨hlo,-⟩ := h.sweeps_bounds (c := c-1) (by omega)
      have hread := (sweeps_le_read (s.child (c-1))).2
      obtain ⟨ho,-⟩ := h.traffic hc
      have hsent := h.ordersSent_le c
      simp only [Child.ordersRead,hpc] at ho
      simp only [State.read,State.written,hidx,hc,if_true,Child.upSent,hpc]
      omega
    · rw [if_neg h0]
      trivial
  · simp [step,Jacobi.stepChild,hpc]

lemma sendDown_steps (h : Lockstep o cfg s) (hsize : 4*cfg.N ≤ Kernel.PIPESIZE) (hc : c < cfg.children)
    (hpc : (s.child c).pc = .sendDown) : CanStep o cfg s (.child c) := by
  constructor
  · simp only [Ready,operation,childOperation,hpc]
    by_cases hlast : c+1 < cfg.children
    · rw [if_pos hlast]
      refine room_of_empty (h.pipe_eq_nil ?_) hsize
      obtain ⟨hlo,-⟩ := h.sweeps_bounds hlast
      have hread := (sweeps_le_read (s.child (c+1))).1
      obtain ⟨ho,-⟩ := h.traffic hc
      have hsent := h.ordersSent_le c
      simp only [Child.ordersRead,hpc] at ho
      simp only [State.read,State.written,hlast,if_true,Child.downSent,hpc]
      omega
    · rw [if_neg hlast]
      trivial
  · simp [step,Jacobi.stepChild,hpc]

lemma recvOrder_steps (h : Lockstep o cfg s) (hc : c < cfg.children) (hpc : (s.child c).pc = .recvOrder)
    (hlt : (s.child c).ordersRead < s.parent.ordersSent c) : CanStep o cfg s (.child c) := by
  constructor
  · simp only [Ready,operation,childOperation,hpc]
  · obtain ⟨rest,hq⟩ :=
      h.pipe_eq_cons (q := .pc c) (by simpa only [State.read,State.written,hc,if_true] using hlt)
    simp only [step,Jacobi.stepChild,hpc,hq,Config.stream,isSome_some]

section

variable (h : Lockstep o cfg s) (hsize : 4*cfg.N ≤ Kernel.PIPESIZE)
include h hsize

lemma cp_steps (hc : c < cfg.children)
    (hpc : (s.child c).pc = .sendDiff ∨ ∃ i, (s.child c).pc = .sendRow i)
    (hle : (s.child c).cpSent (cfg.lo c) (cfg.hi c) ≤ s.parent.cpRead cfg c) :
    CanStep o cfg s (.child c) := by
  have hq : s.pipe (.cp c) = [] := by
    apply h.pipe_eq_nil
    simpa only [State.read,State.written,hc,if_true] using hle
  obtain hpc | ⟨i,hpc⟩ := hpc
  · constructor
    · simp only [Ready,operation,childOperation,hpc]
      exact room_of_empty hq hsize
    · simp [step,Jacobi.stepChild,hpc]
  · constructor
    · simp only [Ready,operation,childOperation,hpc]
      split_ifs
      · exact room_of_empty hq hsize
      · trivial
    · simp [step,Jacobi.stepChild,hpc]

lemma neighbour_steps (hd : d < cfg.children)
    (hborn : (s.child d).pc ≠ .unborn) (hsent : s.parent.ordersSent d = s.parent.count)
    (hgo : s.parent.count ≤ cfg.final o)
    (hrow : (s.child d).downSent ≤ s.parent.count ∨ (s.child d).upSent ≤ s.parent.count) :
    CanStep o cfg s (.child d) := by
  obtain ⟨ho,hr⟩ := h.traffic hd
  obtain ⟨hlo,hhi⟩ := h.sweeps_bounds hd
  have hread := le_cpRead cfg s d
  have hph := (h.child d).phase
  unfold Phase at hph
  cases hpc : (s.child d).pc with
  | unborn => exact absurd hpc hborn
  | entry =>
    refine ⟨?_,?_⟩
    · simp only [Ready,operation,childOperation,hpc]
    · simp [step,Jacobi.stepChild,hpc]
  | sendUp => exact h.sendUp_steps hsize hd hpc
  | sendDown => exact h.sendDown_steps hsize hd hpc
  | recvAbove | recvBelow | compute =>
    simp only [Child.downSent,Child.upSent,hpc] at hrow
    omega
  | sendDiff =>
    simp only [Child.cpSent,hpc] at hr
    simp only [Child.downSent,Child.upSent,hpc] at hrow
    simp only [hpc] at hph
    omega
  | recvOrder =>
    refine h.recvOrder_steps hd hpc ?_
    simp only [Child.downSent,Child.upSent,hpc] at hrow
    simp only [hpc] at hph
    simp only [Child.ordersRead,hpc]
    omega
  | sendRow i | exited =>
    simp only [Child.downSent,Child.upSent,hpc] at hrow
    simp only [hpc] at hph
    omega

lemma diff_steps (hc : c < cfg.children)
    (hborn : ∀ d < cfg.children, (s.child d).pc ≠ .unborn)
    (hsent : ∀ d, s.parent.ordersSent d = s.parent.count) (hgo : s.parent.count ≤ cfg.final o)
    (hwait : (s.child c).cpSent (cfg.lo c) (cfg.hi c) ≤ s.parent.cpRead cfg c)
    (hread : s.parent.cpRead cfg c = s.parent.count) :
    ∃ p, CanStep o cfg s p := by
  obtain ⟨ho,-⟩ := h.traffic hc
  obtain ⟨hlo,-⟩ := h.sweeps_bounds hc
  have hph := (h.child c).phase
  unfold Phase at hph
  cases hpc : (s.child c).pc with
  | unborn => exact absurd hpc (hborn c hc)
  | entry | compute =>
    refine ⟨.child c,?_,?_⟩
    · simp only [Ready,operation,childOperation,hpc]
    · simp [step,Jacobi.stepChild,hpc]
  | sendUp => exact ⟨_,h.sendUp_steps hsize hc hpc⟩
  | sendDown => exact ⟨_,h.sendDown_steps hsize hc hpc⟩
  | recvAbove =>
    simp only [Child.cpSent,hpc] at hwait
    by_cases hrow : 0 < c ∧ (s.child (c-1)).downSent ≤ s.parent.count
    · have hd : c-1 < cfg.children := by omega
      exact ⟨_,h.neighbour_steps hsize hd (hborn _ hd) (hsent _) hgo (.inl hrow.2)⟩
    · refine ⟨.child c,?_,?_⟩
      · simp only [Ready,operation,childOperation,hpc]
        split_ifs <;> trivial
      · by_cases h0 : 0 < c
        · have hidx : c-1+1 = c := by omega
          obtain ⟨rest,hq⟩ := h.pipe_eq_cons (q := .ccDown (c-1)) (by
            simp only [State.read,State.written,hidx,hc,if_true,Child.aboveRead,hpc]
            omega)
          simp only [step,Jacobi.stepChild,hpc,if_pos h0,hq,Config.stream,isSome_some]
        · simp only [step,Jacobi.stepChild,hpc,if_neg h0,isSome_some]
  | recvBelow =>
    simp only [Child.cpSent,hpc] at hwait
    by_cases hrow : c+1 < cfg.children ∧ (s.child (c+1)).upSent ≤ s.parent.count
    · exact ⟨_,h.neighbour_steps hsize hrow.1 (hborn _ hrow.1) (hsent _) hgo (.inr hrow.2)⟩
    · refine ⟨.child c,?_,?_⟩
      · simp only [Ready,operation,childOperation,hpc]
        split_ifs <;> trivial
      · by_cases hlast : c+1 < cfg.children
        · obtain ⟨rest,hq⟩ := h.pipe_eq_cons (q := .ccUp c) (by
            simp only [State.read,State.written,hlast,if_true,Child.belowRead,hpc]
            omega)
          simp only [step,Jacobi.stepChild,hpc,if_pos hlast,hq,Config.stream,isSome_some]
        · simp only [step,Jacobi.stepChild,hpc,if_neg hlast,isSome_some]
  | sendDiff => exact ⟨_,h.cp_steps hsize hc (.inl hpc) hwait⟩
  | recvOrder =>
    refine ⟨_,h.recvOrder_steps hc hpc ?_⟩
    simp only [Child.cpSent,hpc] at hwait
    simp only [hpc] at hph
    rw [hsent]
    simp only [Child.ordersRead,hpc]
    omega
  | sendRow i | exited =>
    simp only [Child.cpSent,hpc] at hwait
    simp only [hpc] at hph
    omega

lemma row_steps {j : ℕ} (hc : c < cfg.children)
    (hcount : s.parent.count = cfg.final o+1) (hsent : s.parent.ordersSent c = s.parent.count)
    (hj : j ≤ cfg.hi c)
    (hread : s.parent.cpRead cfg c = s.parent.count+(j-cfg.lo c)) (hlo : cfg.lo c ≤ j)
    (hwait : (s.child c).cpSent (cfg.lo c) (cfg.hi c) ≤ s.parent.cpRead cfg c) :
    CanStep o cfg s (.child c) := by
  obtain ⟨ho,hr⟩ := h.traffic hc
  obtain ⟨hswlo,-⟩ := h.sweeps_bounds hc
  have hph := (h.child c).phase
  unfold Phase at hph
  cases hpc : (s.child c).pc with
  | unborn | entry =>
    simp only [hpc] at hph
    omega
  | sendUp | sendDown | recvAbove | recvBelow | compute =>
    simp only [hpc] at hph
    have hle : (s.child c).sweeps ≤ cfg.final o := hph.1.le_lastSweep
    omega
  | sendDiff => exact h.cp_steps hsize hc (.inl hpc) hwait
  | recvOrder =>
    refine h.recvOrder_steps hc hpc ?_
    simp only [hpc] at hph
    obtain ⟨k,hk,hgo⟩ := hph
    have hle : k ≤ cfg.final o := hgo.le_lastSweep
    simp only [Child.ordersRead,hpc]
    omega
  | sendRow i => exact h.cp_steps hsize hc (.inr ⟨i,hpc⟩) hwait
  | exited =>
    simp only [Child.cpSent,hpc] at hwait
    simp only [hpc] at hph
    omega

end

lemma last_steps (h : Lockstep o cfg s) (hN : 3 ≤ cfg.N) (hc : c < cfg.children)
    (hcount : s.parent.count = cfg.final o+1)
    (hread : s.parent.cpRead cfg c = s.parent.count+(cfg.hi c+1-cfg.lo c))
    (hpc : (s.child c).pc ≠ .exited) :
    CanStep o cfg s (.child c) := by
  obtain ⟨-,hr⟩ := h.traffic hc
  have hlo := Config.lo_le_hi hN hc
  have hph := (h.child c).phase
  unfold Phase at hph
  unfold Child.cpSent at hr
  cases hp : (s.child c).pc with
  | unborn | entry =>
    simp only [hp] at hph hr
    omega
  | sendUp | sendDown | recvAbove | recvBelow | compute =>
    simp only [hp] at hph hr
    have hle : (s.child c).sweeps ≤ cfg.final o := hph.1.le_lastSweep
    omega
  | sendDiff =>
    simp only [hp] at hph hr
    obtain ⟨k,hk,hgo,-⟩ := hph
    have hle : k ≤ cfg.final o := hgo.le_lastSweep
    omega
  | recvOrder =>
    simp only [hp] at hph hr
    obtain ⟨k,hk,hgo⟩ := hph
    have hle : k ≤ cfg.final o := hgo.le_lastSweep
    omega
  | sendRow i =>
    simp only [hp] at hph hr
    have hi : ¬i ≤ cfg.hi c := by omega
    constructor
    · simp only [Ready,operation,childOperation,hp,if_neg hi]
    · simp [step,Jacobi.stepChild,hp]
  | exited => exact absurd hp hpc

lemma order_room {m : Msg V} (h : Lockstep o cfg s) (hsize : 4*cfg.N ≤ Kernel.PIPESIZE)
    (hc : c < cfg.children)
    (hsent : s.parent.ordersSent c = s.parent.count-1) : Room cfg s (.pc c) m := by
  refine room_of_empty (h.pipe_eq_nil ?_) hsize
  obtain ⟨hlo,-⟩ := h.sweeps_bounds hc
  simp only [State.read,State.written,hc,if_true,hsent,Child.ordersRead]
  cases (s.child c).pc <;> simp only <;> omega

omit [LinearOrder V] in
lemma exists_not_exited {i : ℕ} (hi : i < cfg.children) (hle : exitedChildren cfg s ≤ i) :
    ∃ d < cfg.children, (s.child d).pc ≠ .exited := by
  by_contra hall
  push Not at hall
  have hcount : exitedChildren cfg s = cfg.children := by
    rw [exitedChildren,countP_eq_length.mpr,length_range]
    intro d hd
    exact decide_eq_true (hall d (mem_range.mp hd))
  omega

/-- Somebody can go on until all processes have exited. -/
theorem progress (h : Lockstep o cfg s) (hN : 3 ≤ cfg.N) (hsize : 4*cfg.N ≤ Kernel.PIPESIZE)
    (hborn : ∀ d < cfg.children, (s.child d).pc = .unborn → ∃ i, s.parent.pc = .fork i)
    (hlive : s.parent.pc ≠ .exited ∨ ∃ d < cfg.children, (s.child d).pc ≠ .exited) :
    ∃ p, CanStep o cfg s p := by
  have hp := h.parent
  unfold ParentOk at hp
  have hall : (∀ i, s.parent.pc ≠ .fork i) → ∀ d < cfg.children, (s.child d).pc ≠ .unborn := by
    intro hfork d hd hun
    obtain ⟨i,hi⟩ := hborn d hd hun
    exact hfork i hi
  cases hpc : s.parent.pc with
  | fork i | decide | print =>
    refine ⟨.parent,?_,?_⟩
    · simp only [Ready,operation,parentOperation,hpc]
    · simp [step,Jacobi.stepParent,hpc]
  | recvDiff i =>
    simp only [hpc] at hp
    have hgo : s.parent.count ≤ cfg.final o := hp.1.le_lastSweep
    by_cases hi : i < cfg.children
    · have hread : s.parent.cpRead cfg i = s.parent.count := by simp [Parent.cpRead,hpc]
      by_cases hwait : (s.child i).cpSent (cfg.lo i) (cfg.hi i) ≤ s.parent.cpRead cfg i
      · refine h.diff_steps hsize hi (hall (by simp [hpc])) ?_ hgo hwait hread
        intro d
        simp [Parent.ordersSent,hpc]
      · obtain ⟨rest,hq⟩ := h.pipe_eq_cons (q := .cp i) (by
          simpa only [State.read,State.written,hi,if_true,not_le] using hwait)
        refine ⟨.parent,?_,?_⟩
        · simp only [Ready,operation,parentOperation,hpc,if_pos hi]
        · simp only [State.read,hi,if_true,hread,Config.stream,if_pos hgo] at hq
          simp only [step,Jacobi.stepParent,hpc,if_pos hi,hq,isSome_some]
    · refine ⟨.parent,?_,?_⟩
      · simp only [Ready,operation,parentOperation,hpc,if_neg hi]
      · simp only [step,Jacobi.stepParent,hpc,if_neg hi,isSome_some]
  | sendCarryon i | sendDone i =>
    refine ⟨.parent,?_,?_⟩
    · simp only [Ready,operation,parentOperation,hpc]
      by_cases hi : i < cfg.children
      · rw [if_pos hi]
        refine h.order_room hsize hi ?_
        simp [Parent.ordersSent,hpc]
      · rw [if_neg hi]
        trivial
    · simp [step,Jacobi.stepParent,hpc]
  | recvRow i j =>
    simp only [hpc] at hp
    obtain ⟨hcount,-,hlo,-⟩ := hp
    by_cases hi : i < cfg.children
    · by_cases hj : j ≤ cfg.hi i
      · have hread : s.parent.cpRead cfg i = s.parent.count+(j-cfg.lo i) := by simp [Parent.cpRead,hpc]
        by_cases hwait : (s.child i).cpSent (cfg.lo i) (cfg.hi i) ≤ s.parent.cpRead cfg i
        · refine ⟨_,h.row_steps hsize hi hcount ?_ hj hread hlo hwait⟩
          simp [Parent.ordersSent,hpc]
        · obtain ⟨rest,hq⟩ := h.pipe_eq_cons (q := .cp i) (by
            simpa only [State.read,State.written,hi,if_true,not_le] using hwait)
          have hgt : ¬s.parent.count+(j-cfg.lo i) ≤ cfg.final o := by omega
          refine ⟨.parent,?_,?_⟩
          · simp only [Ready,operation,parentOperation,hpc,if_pos (And.intro hi hj)]
          · simp only [State.read,hi,if_true,hread,Config.stream,if_neg hgt] at hq
            simp only [step,Jacobi.stepParent,hpc,if_pos hi,if_pos hj,hq,isSome_some]
      · refine ⟨.parent,?_,?_⟩
        · simp only [Ready,operation,parentOperation,hpc,
            if_neg (fun hh : i < cfg.children ∧ _ => hj hh.2)]
        · simp only [step,Jacobi.stepParent,hpc,if_pos hi,if_neg hj,isSome_some]
    · refine ⟨.parent,?_,?_⟩
      · simp only [Ready,operation,parentOperation,hpc,
          if_neg (fun hh : _ ∧ j ≤ cfg.hi i => hi hh.1)]
      · simp only [step,Jacobi.stepParent,hpc,if_neg hi,isSome_some]
  | wait i =>
    simp only [hpc] at hp
    by_cases hi : i < cfg.children ∧ exitedChildren cfg s ≤ i
    · obtain ⟨d,hd,hne⟩ := exists_not_exited hi.1 hi.2
      refine ⟨_,h.last_steps hN hd hp.1 ?_ hne⟩
      simp [Parent.cpRead,hpc]
    · refine ⟨.parent,?_,?_⟩
      · simp only [Ready,operation,parentOperation,hpc]
      · simp only [step,Jacobi.stepParent,hpc]
        split_ifs with hlt hex
        · rfl
        · exact absurd ⟨hlt,not_lt.mp hex⟩ hi
        · rfl
  | exited =>
    simp only [hpc] at hp
    obtain hne | ⟨d,hd,hne⟩ := hlive
    · exact absurd hpc hne
    · refine ⟨_,h.last_steps hN hd hp.1 ?_ hne⟩
      simp [Parent.cpRead,hpc]

end Lockstep

/-! ## Control flow -/

section
variable (cfg : Config V)

/-- Where a child goes from one statement. -/
inductive ChildPc.Goes (c : ℕ) : ChildPc → ChildPc → Prop
  | none : Goes c .entry .exited
  | enter : Goes c .entry .sendUp
  | sendUp : Goes c .sendUp .sendDown
  | sendDown : Goes c .sendDown .recvAbove
  | recvAbove : Goes c .recvAbove .recvBelow
  | recvBelow : Goes c .recvBelow .compute
  | compute : Goes c .compute .sendDiff
  | sendDiff : Goes c .sendDiff .recvOrder
  | carryon : Goes c .recvOrder .sendUp
  | done : Goes c .recvOrder (.sendRow (cfg.lo c))
  | sendRow {i : ℕ} (hi : i ≤ cfg.hi c) : Goes c (.sendRow i) (.sendRow (i+1))
  | exit {i : ℕ} (hi : ¬i ≤ cfg.hi c) : Goes c (.sendRow i) .exited

/-- Where the parent goes from one statement after its forks. -/
inductive ParentPc.Goes : ParentPc → ParentPc → Prop
  | forked {i : ℕ} (hi : ¬i < cfg.children) : Goes (.fork i) (.recvDiff 0)
  | recvDiff (i : ℕ) : Goes (.recvDiff i) (.recvDiff (i+1))
  | decide (i : ℕ) : Goes (.recvDiff i) .decide
  | carryon : Goes .decide (.sendCarryon 0)
  | done : Goes .decide (.sendDone 0)
  | sendCarryon (i : ℕ) : Goes (.sendCarryon i) (.sendCarryon (i+1))
  | again (i : ℕ) : Goes (.sendCarryon i) (.recvDiff 0)
  | sendDone (i : ℕ) : Goes (.sendDone i) (.sendDone (i+1))
  | rows (i : ℕ) : Goes (.sendDone i) (.recvRow 0 (cfg.lo 0))
  | recvRow (i j : ℕ) : Goes (.recvRow i j) (.recvRow i (j+1))
  | nextChild (i j : ℕ) : Goes (.recvRow i j) (.recvRow (i+1) (cfg.lo (i+1)))
  | print (i j : ℕ) : Goes (.recvRow i j) .print
  | printed : Goes .print (.wait 0)
  | wait (i : ℕ) : Goes (.wait i) (.wait (i+1))
  | exit (i : ℕ) : Goes (.wait i) .exited

end

section
omit [LinearOrder V]

lemma ChildPc.Goes.ne_unborn {p q : ChildPc} (h : p.Goes cfg c q) : q ≠ .unborn := by
  cases h <;> nofun

lemma ParentPc.Goes.of_fork {i : ℕ} {q : ParentPc} (h : (ParentPc.fork i).Goes cfg q) :
    ¬i < cfg.children := by
  cases h with
  | forked hi => exact hi

lemma setChild_goes {pc : ChildPc} {ch : Child V} (h : pc.Goes cfg c ch.pc)
    (pipe : Pipe → List (Msg V)) :
    ({ s.setChild c ch with pipe := pipe }).parent = s.parent ∧
      pc.Goes cfg c ({ s.setChild c ch with pipe := pipe }.child c).pc ∧
      ∀ d, d ≠ c → { s.setChild c ch with pipe := pipe }.child d = s.child d := by
  refine ⟨rfl,?_,fun d hd => update_of_ne hd _ _⟩
  change pc.Goes cfg c (update s.child c ch c).pc
  rwa [update_self]

end

lemma stepChild_goes (hs : stepChild o cfg c s = some t) :
    t.parent = s.parent ∧ (s.child c).pc.Goes cfg c (t.child c).pc ∧ ∀ d, d ≠ c →
      t.child d = s.child d := by
  unfold stepChild at hs
  cases hpc : (s.child c).pc <;> simp only [hpc] at hs
  case unborn | exited => exact nomatch hs
  case entry =>
    cases hs
    refine setChild_goes ?_ s.pipe
    dsimp only
    split_ifs
    · exact .none
    · exact .enter
  case sendUp | sendDown =>
    cases hs
    split_ifs
    · exact setChild_goes (by constructor) _
    · exact setChild_goes (by constructor) _
  case recvAbove | recvBelow =>
    split_ifs at hs
    · split at hs
      · cases hs
        exact setChild_goes (by constructor) _
      · exact nomatch hs
    · cases hs
      exact setChild_goes (by constructor) _
  case compute | sendDiff =>
    cases hs
    exact setChild_goes (by constructor) _
  case recvOrder =>
    split at hs
    · cases hs
      refine setChild_goes ?_ _
      split_ifs
      · exact .done
      · exact .carryon
    · exact nomatch hs
  case sendRow i =>
    cases hs
    split_ifs with hi
    · exact setChild_goes (.sendRow hi) _
    · exact setChild_goes (.exit hi) _

lemma stepParent_goes (hs : stepParent o cfg s = some t) :
    (∃ i < cfg.children, s.parent.pc = .fork i ∧ t.parent.pc = .fork (i+1) ∧ (t.child i).pc = .entry ∧
      ∀ d, d ≠ i → t.child d = s.child d) ∨
    (t.child = s.child ∧ s.parent.pc.Goes cfg t.parent.pc) := by
  unfold stepParent at hs
  cases hpc : s.parent.pc <;> simp only [hpc] at hs
  case fork i =>
    cases hs
    split_ifs with hi
    · refine .inl ⟨i,hi,rfl,rfl,?_,fun d hd => update_of_ne hd _ _⟩
      change (update s.child i _ i).pc = .entry
      rw [update_self]
    · exact .inr ⟨rfl,.forked hi⟩
  case recvDiff i =>
    split_ifs at hs
    · split at hs
      · cases hs
        exact .inr ⟨rfl,.recvDiff i⟩
      · exact nomatch hs
    · cases hs
      exact .inr ⟨rfl,.decide i⟩
  case decide =>
    cases hs
    refine .inr ⟨rfl,?_⟩
    dsimp only [State.setParent]
    split_ifs
    · exact .done
    · exact .carryon
  case sendCarryon i =>
    cases hs
    split_ifs
    · exact .inr ⟨rfl,.sendCarryon i⟩
    · exact .inr ⟨rfl,.again i⟩
  case sendDone i =>
    cases hs
    split_ifs
    · exact .inr ⟨rfl,.sendDone i⟩
    · exact .inr ⟨rfl,.rows i⟩
  case recvRow i j =>
    split_ifs at hs
    · split at hs
      · cases hs
        exact .inr ⟨rfl,.recvRow i j⟩
      · exact nomatch hs
    · cases hs
      exact .inr ⟨rfl,.nextChild i j⟩
    · cases hs
      exact .inr ⟨rfl,.print i j⟩
  case print =>
    cases hs
    exact .inr ⟨rfl,.printed⟩
  case wait i =>
    split_ifs at hs
    · cases hs
      exact .inr ⟨rfl,.wait i⟩
    · cases hs
      exact .inr ⟨rfl,.exit i⟩
  case exited => exact nomatch hs

/-- A child that is not there yet is still to be forked. -/
def Unforked (cfg : Config V) (s : State V) : Prop :=
  ∀ d < cfg.children, (s.child d).pc = .unborn → ∃ i ≤ d, s.parent.pc = .fork i

lemma Unforked.step {p : Proc} (h : Unforked cfg s) (hs : step o cfg p s = some t) :
    Unforked cfg t := by
  intro d hd hun
  cases p with
  | child c =>
    obtain ⟨hparent,hgoes,hothers⟩ := stepChild_goes hs
    rw [hparent]
    obtain rfl | hne := eq_or_ne d c
    · exact absurd hun hgoes.ne_unborn
    · rw [hothers d hne] at hun
      exact h d hd hun
  | parent =>
    obtain ⟨i,-,hpc,hnext,hentry,hothers⟩ | ⟨hchild,hgoes⟩ := stepParent_goes hs
    · obtain rfl | hne := eq_or_ne d i
      · exact nomatch hentry.symm.trans hun
      · rw [hothers d hne] at hun
        obtain ⟨j,hj,hpc'⟩ := h d hd hun
        obtain rfl : j = i := by simpa [hpc'] using hpc
        exact ⟨j+1,by omega,hnext⟩
    · rw [hchild] at hun
      obtain ⟨i,hi,hpc⟩ := h d hd hun
      rw [hpc] at hgoes
      have hlt := hgoes.of_fork
      omega

/-! ## Operations -/

def Operation.apply (pipe : Pipe → List (Msg V)) : Operation V → Pipe → List (Msg V)
  | read q => update pipe q (pipe q).tail
  | write q m => update pipe q (pipe q++[m])

lemma stepChild_pipe (hs : stepChild o cfg c s = some t) :
    t.pipe = (childOperation cfg c s).elim s.pipe (Operation.apply s.pipe) := by
  unfold stepChild at hs
  unfold childOperation
  cases hpc : (s.child c).pc <;> simp only [hpc] at hs ⊢
  case unborn | exited => exact nomatch hs
  case sendUp | sendDown | sendRow =>
    cases hs
    split_ifs <;> rfl
  case recvAbove | recvBelow =>
    split_ifs at hs ⊢
    · split at hs
      · rename_i r rest hq
        cases hs
        simp only [elim_some,Operation.apply,hq]
        rfl
      · exact nomatch hs
    · cases hs
      rfl
  case recvOrder =>
    split at hs
    · rename_i order rest hq
      cases hs
      simp only [elim_some,Operation.apply,hq]
      rfl
    · exact nomatch hs
  all_goals
    cases hs
    rfl

lemma stepParent_pipe (hs : stepParent o cfg s = some t) :
    t.pipe = (parentOperation cfg s).elim s.pipe (Operation.apply s.pipe) := by
  unfold stepParent at hs
  unfold parentOperation
  cases hpc : s.parent.pc <;> simp only [hpc] at hs ⊢
  case fork | sendCarryon | sendDone =>
    cases hs
    split_ifs <;> rfl
  case recvDiff i =>
    split_ifs at hs ⊢
    · split at hs
      · rename_i d rest hq
        cases hs
        simp only [elim_some,Operation.apply,hq]
        rfl
      · exact nomatch hs
    · cases hs
      rfl
  case recvRow i j =>
    by_cases hi : i < cfg.children
    · by_cases hj : j ≤ cfg.hi i
      · rw [if_pos hi,if_pos hj] at hs
        rw [if_pos ⟨hi,hj⟩]
        split at hs
        · rename_i r rest hq
          cases hs
          simp only [elim_some,Operation.apply,hq]
          rfl
        · exact nomatch hs
      · rw [if_pos hi,if_neg hj] at hs
        rw [if_neg fun h => hj h.2]
        cases hs
        rfl
    · rw [if_neg hi] at hs
      rw [if_neg fun h => hi h.1]
      cases hs
      rfl
  case wait i =>
    split_ifs at hs <;> cases hs <;> rfl
  case exited => exact nomatch hs
  all_goals
    cases hs
    rfl

/-- The pipes hold at most `PIPESIZE` bytes. -/
def Fits (cfg : Config V) (s : State V) : Prop :=
  ∀ q, ((s.pipe q).map (Msg.bytes cfg.N)).sum ≤ Kernel.PIPESIZE

lemma Fits.step {p : Proc} (h : Fits cfg s) (hready : Ready cfg s p)
    (hs : step o cfg p s = some t) : Fits cfg t := by
  have hpipe : t.pipe = (operation cfg s p).elim s.pipe (Operation.apply s.pipe) := by
    cases p with
    | parent => exact stepParent_pipe hs
    | child c => exact stepChild_pipe hs
  intro q
  rw [hpipe]
  cases hop : operation cfg s p with
  | none => exact h q
  | some op =>
    cases op with
    | read q' =>
      obtain rfl | hne := eq_or_ne q q'
      · rw [elim_some,Operation.apply,update_self]
        refine le_trans ?_ (h q)
        cases s.pipe q with
        | nil => exact le_rfl
        | cons m rest => simp
      · rw [elim_some,Operation.apply,update_of_ne hne]
        exact h q
    | write q' m =>
      simp only [Ready,hop] at hready
      obtain rfl | hne := eq_or_ne q q'
      · rw [elim_some,Operation.apply,update_self,map_append,sum_append]
        simpa [Room] using hready
      · rw [elim_some,Operation.apply,update_of_ne hne]
        exact h q

/-! ## Descriptors -/

lemma Fds.close_iff (f : Fds) (l : List (Pipe×End)) (e : Pipe×End) : f.close l e = true ↔
    f e = true ∧ e ∉ l := by
  induction l generalizing f with
  | nil => simp [Fds.close]
  | cons a l ih =>
    change Fds.close (update f a false) l e = true ↔ _
    rw [ih]
    obtain rfl | hne := eq_or_ne e a
    · simp
    · simp [hne]

section
variable (cfg : Config V)

def parentClosed : ParentPc → List (Pipe×End)
  | .fork _ => []
  | .wait _ | .exited => parentCloses cfg++parentEnds cfg
  | _ => parentCloses cfg

def parentClosing : ParentPc → List (Pipe×End)
  | .fork i => if i < cfg.children then [] else parentCloses cfg
  | .print => parentEnds cfg
  | _ => []

/-- What child `c` has closed. -/
def childClosed (c : ℕ) : ChildPc → List (Pipe×End)
  | .unborn | .entry => []
  | .exited => childCloses cfg c++childEnds cfg c
  | _ => childCloses cfg c

def childClosing (c : ℕ) : ChildPc → List (Pipe×End)
  | .entry => childCloses cfg c
  | .sendRow i => if i ≤ cfg.hi c then [] else childEnds cfg c
  | _ => []

/-- Nothing else is closed. -/
structure Open (x : Machine V) : Prop where
  parent : ∀ e, made cfg e.1 → e ∉ parentClosed cfg x.state.parent.pc → x.fd .parent e = true
  child : ∀ c e, made cfg e.1 → e ∉ childClosed cfg c (x.state.child c).pc → x.fd (.child c) e = true

end

section
variable (cfg : Config V)

def Foreign (c i : ℕ) : Prop := i < cfg.children-1 ∧ i ≠ c ∧ i+1 ≠ c

/-- The descriptors of a child that are closed at first, one family of pipes after the other. -/
def Closes (c : ℕ) : Pipe → End → Prop
  | .pc i, .write | .cp i, .read => i < cfg.children
  | .pc i, .read | .cp i, .write => i < cfg.children ∧ i ≠ c
  | .ccUp i, .read | .ccDown i, .write => Foreign cfg c i ∨ (0 < c ∧ i = c-1)
  | .ccUp i, .write | .ccDown i, .read => Foreign cfg c i ∨ (c+1 < cfg.children ∧ i = c)

omit [LinearOrder V] in
lemma mem_childCloses (q : Pipe) (e : End) : (q,e) ∈ childCloses cfg c ↔ Closes cfg c q e := by
  cases q <;> cases e <;> simp [childCloses,ghostEnds,Closes,Foreign]

end

section
omit [LinearOrder V]

lemma child_fd {op : Operation V} (hc : c < cfg.children) (hop : childOperation cfg c s = some op) :
    made cfg op.fd.1 ∧ op.fd ∉ childClosed cfg c (s.child c).pc := by
  have hle := cfg.children_le
  unfold childOperation at hop
  cases hpc : (s.child c).pc <;> simp only [hpc] at hop
  case sendUp | sendDown | recvAbove | recvBelow =>
    obtain ⟨hc',⟨⟩⟩ := ite_none_right_eq_some.mp hop
    change _ ∧ _ ∉ childCloses cfg c
    rw [Operation.fd,mem_childCloses,Closes,Foreign,made]
    omega
  case sendDiff | recvOrder =>
    cases hop
    refine ⟨hc.trans_le hle,?_⟩
    change _ ∉ childCloses cfg c
    rw [Operation.fd,mem_childCloses,Closes]
    exact fun hcl => hcl.2 rfl
  case sendRow i =>
    obtain ⟨-,⟨⟩⟩ := ite_none_right_eq_some.mp hop
    refine ⟨hc.trans_le hle,?_⟩
    change _ ∉ childCloses cfg c
    rw [Operation.fd,mem_childCloses,Closes]
    exact fun hcl => hcl.2 rfl
  all_goals exact nomatch hop

lemma parent_fd {op : Operation V} (hop : parentOperation cfg s = some op) :
    made cfg op.fd.1 ∧ op.fd ∉ parentClosed cfg s.parent.pc := by
  have hle := cfg.children_le
  unfold parentOperation at hop
  cases hpc : s.parent.pc <;> simp only [hpc] at hop
  case recvDiff i | sendCarryon i | sendDone i =>
    obtain ⟨hi,⟨⟩⟩ := ite_none_right_eq_some.mp hop
    refine ⟨hi.trans_le hle,?_⟩
    simp [Operation.fd,parentClosed,parentCloses,ghostEnds]
  case recvRow i j =>
    obtain ⟨⟨hi,-⟩,⟨⟩⟩ := ite_none_right_eq_some.mp hop
    refine ⟨show i < cfg.processes by omega,?_⟩
    simp [Operation.fd,parentClosed,parentCloses,ghostEnds]
  all_goals exact nomatch hop

lemma close_true {f : Fds} {l l' m : List (Pipe×End)} {e : Pipe×End} (hf : e ∉ l → f e = true)
    (hl : ∀ a, a ∈ l ∨ a ∈ m → a ∈ l') (he : e ∉ l') : f.close m e = true :=
  (f.close_iff m e).mpr ⟨hf fun h => he (hl e (.inl h)),fun h => he (hl e (.inr h))⟩

lemma ChildPc.Goes.closed {p q : ChildPc} {a : Pipe×End} (h : p.Goes cfg c q)
    (ha : a ∈ childClosed cfg c p ∨ a ∈ childClosing cfg c p) : a ∈ childClosed cfg c q := by
  cases h with
  | none =>
    obtain ha | ha := ha
    · exact nomatch ha
    · exact mem_append_left _ ha
  | enter =>
    obtain ha | ha := ha
    · exact nomatch ha
    · exact ha
  | sendRow hi =>
    rw [childClosing,if_pos hi] at ha
    exact ha.resolve_right (not_mem_nil)
  | exit hi =>
    rw [childClosing,if_neg hi] at ha
    exact mem_append.mpr ha
  | _ => exact ha.resolve_right (not_mem_nil)

lemma ParentPc.Goes.closed {p q : ParentPc} {a : Pipe×End} (h : p.Goes cfg q)
    (ha : a ∈ parentClosed cfg p ∨ a ∈ parentClosing cfg p) : a ∈ parentClosed cfg q := by
  cases h with
  | forked hi =>
    rw [parentClosing,if_neg hi] at ha
    exact ha.resolve_left (not_mem_nil)
  | printed => exact mem_append.mpr ha
  | _ => exact ha.resolve_right (not_mem_nil)

end

namespace Machine
variable {x y : Machine V}

omit [LinearOrder V] in
lemma fdAfter_child : x.fdAfter cfg (.child c) =
    update x.fd (.child c) ((x.fd (.child c)).close (childClosing cfg c (x.state.child c).pc)) := by
  have hnil : x.fd = update x.fd (.child c) ((x.fd (.child c)).close []) :=
    (update_eq_self (.child c) x.fd).symm
  unfold fdAfter
  cases hpc : (x.state.child c).pc with
  | entry => simp only [hpc,childClosing]
  | sendRow i =>
    simp only [hpc,childClosing]
    split_ifs
    · exact hnil
    · rfl
  | _ =>
    simp only [hpc,childClosing]
    exact hnil

omit [LinearOrder V] in
lemma fdAfter_parent (hfork : ∀ i, x.state.parent.pc = .fork i → ¬i < cfg.children) :
    x.fdAfter cfg .parent =
    update x.fd .parent ((x.fd .parent).close (parentClosing cfg x.state.parent.pc)) := by
  have hnil : x.fd = update x.fd .parent ((x.fd .parent).close []) :=
    (update_eq_self .parent x.fd).symm
  unfold fdAfter
  cases hpc : x.state.parent.pc with
  | fork i => simp only [parentClosing,if_neg (hfork i hpc)]
  | print => simp only [parentClosing]
  | _ =>
    simp only [parentClosing]
    exact hnil

end Machine

namespace Open
variable {x y : Machine V}

omit [LinearOrder V] in
lemma initial (o : Ops V) : Open cfg (Machine.initial cfg o) where
  parent _ hm _ := decide_eq_true hm
  child _ _ hm _ := decide_eq_true hm

lemma child_step (h : Open cfg x) (hs : stepChild o cfg c x.state = some t) :
    Open cfg ⟨t,x.fdAfter cfg (.child c)⟩ := by
  obtain ⟨hparent,hgoes,hothers⟩ := stepChild_goes hs
  rw [Machine.fdAfter_child]
  constructor
  · intro e hm he
    dsimp only at he ⊢
    rw [hparent] at he
    rw [update_of_ne (by nofun : Proc.parent ≠ .child c)]
    exact h.parent e hm he
  · intro d e hm he
    dsimp only at he ⊢
    obtain rfl | hne := eq_or_ne d c
    · rw [update_self]
      exact close_true (h.child d e hm) (fun _ => hgoes.closed) he
    · rw [update_of_ne fun heq => hne (Proc.child.inj heq)]
      rw [hothers d hne] at he
      exact h.child d e hm he

lemma parent_step (h : Open cfg x) (hs : stepParent o cfg x.state = some t) :
    Open cfg ⟨t,x.fdAfter cfg .parent⟩ := by
  obtain ⟨i,hi,hpc,hnext,hentry,hothers⟩ | ⟨hchild,hgoes⟩ := stepParent_goes hs
  · have hfd : x.fdAfter cfg .parent = update x.fd (.child i) (x.fd .parent) := by
      simp only [Machine.fdAfter,hpc,if_pos hi]
    have hall : ∀ e, made cfg e.1 → x.fd .parent e = true := by
      intro e hm
      refine h.parent e hm ?_
      rw [hpc]
      exact not_mem_nil
    rw [hfd]
    constructor
    · intro e hm he
      dsimp only
      rw [update_of_ne (by nofun : Proc.parent ≠ .child i)]
      exact hall e hm
    · intro d e hm he
      dsimp only at he ⊢
      obtain rfl | hne := eq_or_ne d i
      · rw [update_self]
        exact hall e hm
      · rw [update_of_ne fun heq => hne (Proc.child.inj heq)]
        rw [hothers d hne] at he
        exact h.child d e hm he
  · have hfork : ∀ i, x.state.parent.pc = .fork i → ¬i < cfg.children := by
      intro i hpc
      rw [hpc] at hgoes
      exact hgoes.of_fork
    rw [Machine.fdAfter_parent hfork]
    constructor
    · intro e hm he
      dsimp only at he ⊢
      rw [update_self]
      exact close_true (h.parent e hm) (fun _ => hgoes.closed) he
    · intro d e hm he
      dsimp only at he ⊢
      rw [update_of_ne (by nofun : Proc.child d ≠ .parent)]
      rw [hchild] at he
      exact h.child d e hm he

lemma next {p : Proc} (h : Open cfg x) (hs : Machine.next cfg o p x = some y) : Open cfg y := by
  obtain ⟨-,hs⟩ := ite_none_right_eq_some.mp hs
  obtain ⟨t,ht,rfl⟩ := map_eq_some_iff.mp hs
  cases p with
  | parent => exact h.parent_step ht
  | child c => exact h.child_step ht

end Open

/-! ## Runs -/

lemma reaches_of_machine {x : Machine V} {schedule : List Proc} (h : Machine.Reaches cfg o schedule x) :
    Reaches o cfg schedule x.state := by
  induction h with
  | nil => exact .nil _
  | snoc _ hs ih =>
    obtain ⟨-,hs⟩ := ite_none_right_eq_some.mp hs
    obtain ⟨t,ht,rfl⟩ := map_eq_some_iff.mp hs
    exact .snoc ih ht

lemma CanStep.next {x : Machine V} {p : Proc} (h : CanStep o cfg x.state p) :
    ∃ y, Machine.next cfg o p x = some y := by
  obtain ⟨hready,hs⟩ := h
  obtain ⟨t,ht⟩ := isSome_iff_exists.mp hs
  exact ⟨_,by rw [Machine.next,if_pos hready,ht,map_some]⟩

/-- Under every schedule, with pipes of `PIPESIZE` bytes: as long as a process has not exited, some
process can go on; no two children are more than one sweep apart; a ghost pipe holds at most one
row; every pipe is read and written through a descriptor that is open; and no pipe ever holds more
than it can. -/
theorem protocol_never_deadlocks (o : Ops V) (cfg : Config V) (hN : 3 ≤ cfg.N)
    (hsize : 4*cfg.N ≤ Kernel.PIPESIZE)
    (hP : 1 ≤ cfg.P) (schedule : List Proc) (x : Machine V) (h : Machine.Reaches cfg o schedule x) :
    ((x.state.parent.pc ≠ .exited ∨ ∃ c < cfg.children, (x.state.child c).pc ≠ .exited) →
      ∃ p y, Machine.next cfg o p x = some y) ∧
    (∀ c < cfg.children, ∀ d < cfg.children, (x.state.child c).sweeps ≤ (x.state.child d).sweeps+1) ∧
    (∀ i, (x.state.pipe (.ccUp i)).length ≤ 1 ∧ (x.state.pipe (.ccDown i)).length ≤ 1) ∧
    (∀ p op, operation cfg x.state p = some op → x.fd p op.fd = true) ∧ Fits cfg x.state := by
  have hl : Lockstep o cfg x.state := Lockstep.reaches hN hP (reaches_of_machine h)
  have hu : Unforked cfg x.state := by
    refine Run.invariant (fun _ x => Unforked cfg x.state) ?_ h ?_
    · intro _ y p z hy hs
      obtain ⟨-,hs⟩ := ite_none_right_eq_some.mp hs
      obtain ⟨t,ht,rfl⟩ := map_eq_some_iff.mp hs
      exact hy.step ht
    · intro d _ _
      exact ⟨0,Nat.zero_le d,rfl⟩
  have ho : Open cfg x :=
    Run.invariant (fun _ x => Open cfg x) (fun _ _ _ _ hy hs => hy.next hs) h (Open.initial o)
  have hf : Fits cfg x.state := by
    refine Run.invariant (fun _ x => Fits cfg x.state) ?_ h ?_
    · intro _ y p z hy hs
      obtain ⟨hready,hs⟩ := ite_none_right_eq_some.mp hs
      obtain ⟨t,ht,rfl⟩ := map_eq_some_iff.mp hs
      exact hy.step hready ht
    · intro q
      exact Nat.zero_le _
  refine ⟨?_,?_,hl.length_ghost_le,?_,hf⟩
  · intro hlive
    obtain ⟨p,hp⟩ := hl.progress hN hsize (fun d hd hun => (hu d hd hun).imp fun _ hi => hi.2) hlive
    obtain ⟨y,hy⟩ := hp.next
    exact ⟨p,y,hy⟩
  · intro c hc d hd
    have hle := (hl.sweeps_bounds hc).2
    have hge := (hl.sweeps_bounds hd).1
    omega
  · intro p op hop
    cases p with
    | parent =>
      obtain ⟨hm,he⟩ := parent_fd hop
      exact ho.parent _ hm he
    | child c =>
      have hc : c < cfg.children := by
        refine hl.lt_children ?_
        intro hun
        simp [operation,childOperation,hun] at hop
      obtain ⟨hm,he⟩ := child_fd hc hop
      exact ho.child c _ hm he

/-- Both children are forked, and the first one has sent its ghost row. -/
def ghostSent : List Proc := List.replicate 3 .parent++List.replicate 3 (.child 0)

theorem protocol_never_deadlocks_ghost : ∃ x, Machine.Reaches sample natOps ghostSent x ∧
    (x.state.pipe (.ccDown 0)).length = 1 ∧ (∃ p y, Machine.next sample natOps p x = some y) ∧
    ∀ p op, operation sample x.state p = some op → x.fd p op.fd = true := by
  have he : (exec (Machine.next sample natOps) ghostSent (Machine.initial sample natOps)).map
      (fun x => decide ((x.state.pipe (.ccDown 0)).length = 1 ∧ x.state.parent.pc ≠ .exited)) =
        some true := by
    decide +kernel
  obtain ⟨x,hx,hd⟩ := map_eq_some_iff.mp he
  obtain ⟨hlen,hlive⟩ := of_decide_eq_true hd
  have hr : Machine.Reaches sample natOps ghostSent x := .of_exec hx
  obtain ⟨hgo,-,-,hfd,-⟩ :=
    protocol_never_deadlocks natOps sample (by decide) (by decide) (by decide) ghostSent x hr
  exact ⟨x,hr,hlen,hgo (.inl hlive),hfd⟩

end JacobiXv6.Jacobi
