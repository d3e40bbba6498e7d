import JacobiXv6.Jacobi.Traffic

/-! The lockstep invariant: under every schedule each process holds rows of one and
the same sequential iteration, and each pipe holds the window of its stream. -/
namespace JacobiXv6.Jacobi
open Library

variable {V : Type*} [LinearOrder V] (o : Ops V) (cfg : Config V)

/-! ## Sweeping a block of rows -/

omit [LinearOrder V] in
lemma stencil_congr {u v : Grid V} {i : ℕ} (ha : u (i-1) = v (i-1)) (h : u i = v i)
    (hb : u (i+1) = v (i+1)) (j : ℕ) : stencil o u i j = stencil o v i j := by
  simp [stencil,ha,h,hb]

lemma sweep_snd_congr {N lo hi : ℕ} {u v : Grid V} (w w' : Grid V) (d : V) (hlo : 1 ≤ lo)
    (h : ∀ a, lo-1 ≤ a → a ≤ hi+1 → u a = v a) :
    (sweep o N lo hi u w d).2 = (sweep o N lo hi v w' d).2 := by
  refine eq_of_forall_ge_iff fun y => ?_
  rw [sweep_snd_le_iff,sweep_snd_le_iff]
  refine and_congr_right fun _ => forall_congr' fun i => ?_
  refine forall_congr' fun hi => forall_congr' fun hi' => ?_
  have he : ∀ j, change o u i j = change o v i j := by
    intro j
    rw [change,change,stencil_congr o (h _ (by omega) (by omega)) (h _ (by omega) (by omega))
      (h _ (by omega) (by omega)),h i (by omega) (by omega)]
  simp only [he]

namespace Config
variable {cfg}

/-- A child that holds its rows and both ghost rows of round `k` computes its rows of
round `k+1`. -/
lemma block_sweep (hN : 3 ≤ cfg.N) (hP : 1 ≤ cfg.P) {c k : ℕ} (hc : c < cfg.children)
    {u : Grid V} (w : Grid V) (d : V)
    (h : ∀ a, cfg.lo c-1 ≤ a → a ≤ cfg.hi c+1 → u a = cfg.gridAt o k a)
    {a : ℕ} (hlo : cfg.lo c ≤ a) (hhi : a ≤ cfg.hi c) :
    copyBack cfg.N (cfg.lo c) (cfg.hi c) (sweep o cfg.N (cfg.lo c) (cfg.hi c) u w d).1 u a =
      cfg.gridAt o (k+1) a := by
  have h1 := cfg.lo_pos c
  have h2 := hi_le hN hP hc
  funext b
  rw [copyBack_apply,sweep_fst,gridAt,seqGrid_succ,seqSweep]
  change _ = if _ then stencil o (cfg.gridAt o k) a b else cfg.gridAt o k a b
  have hin : 1 ≤ a ∧ a ≤ cfg.N-2 := by omega
  by_cases hb : 1 ≤ b ∧ b ≤ cfg.N-2
  · simp only [hlo,hhi,hb,hin,and_self,if_true]
    exact stencil_congr o (h _ (by omega) (by omega)) (h _ (by omega) (by omega))
      (h _ (by omega) (by omega)) b
  · simp only [hb,and_false,if_false]
    rw [h a (by omega) (by omega)]

omit [LinearOrder V] in
lemma gridAt_top (k : ℕ) : cfg.gridAt o k 0 = cfg.grid o 0 :=
  seqGrid_border o cfg.N _ (.inl rfl) k

omit [LinearOrder V] in
lemma gridAt_bottom (hN : 3 ≤ cfg.N) (k : ℕ) :
    cfg.gridAt o k (cfg.N-1) = cfg.grid o (cfg.N-1) :=
  seqGrid_border o cfg.N _ (.inr (by omega)) k

lemma maxDif_eq (hN : 3 ≤ cfg.N) (hP : 1 ≤ cfg.P) {k : ℕ} {recv : ℕ → V}
    (h : ∀ i < cfg.children, recv i = cfg.childDiff o i k) :
    maxDif o cfg recv = seqDiff o cfg.N (cfg.gridAt o k) := by
  refine eq_of_forall_ge_iff fun y => ?_
  rw [maxDif,foldl_keepMax_le_iff,seqDiff_le_iff]
  refine and_congr_right fun hz => ?_
  constructor
  · intro hm i hi hi' j hj hj'
    obtain ⟨c,hc,hlo,hhi⟩ := row_owner (P := cfg.processes) hN (cfg.processes_pos hP) hi hi'
    have hle := hm c (List.mem_range.mpr hc)
    rw [h c hc,childDiff,sweep_snd_le_iff] at hle
    exact hle.2 i hlo hhi j hj hj'
  · intro hm c hc
    have hc := List.mem_range.mp hc
    have h1 := cfg.lo_pos c
    have h2 := hi_le hN hP hc
    rw [h c hc,childDiff,sweep_snd_le_iff]
    exact ⟨hz,fun i hlo hhi => hm i (by omega) (by omega)⟩

end Config

/-! ## The invariant -/

/-- What a child knows at each point of its program. -/
def Phase (c : ℕ) (ch : Child V) : Prop :=
  match ch.pc with
  | .unborn | .entry => ch.sweeps = 0
  | .sendUp | .sendDown | .recvAbove => cfg.Going o ch.sweeps ∧ ch.diff = o.zero
  | .recvBelow => cfg.Going o ch.sweeps ∧ ch.diff = o.zero ∧
      ch.u (cfg.lo c-1) = cfg.gridAt o ch.sweeps (cfg.lo c-1)
  | .compute => cfg.Going o ch.sweeps ∧ ch.diff = o.zero ∧
      ch.u (cfg.lo c-1) = cfg.gridAt o ch.sweeps (cfg.lo c-1) ∧
      ch.u (cfg.hi c+1) = cfg.gridAt o ch.sweeps (cfg.hi c+1)
  | .sendDiff => ∃ k, ch.sweeps = k+1 ∧ cfg.Going o k ∧ ch.diff = cfg.childDiff o c k
  | .recvOrder => ∃ k, ch.sweeps = k+1 ∧ cfg.Going o k
  | .sendRow i => ch.sweeps = cfg.final o+1 ∧ cfg.lo c ≤ i ∧ i ≤ cfg.hi c+1
  | .exited => ch.sweeps = cfg.final o+1

/-- Child `c` holds its rows of the iteration its own sweep count names. -/
structure ChildOk (c : ℕ) (ch : Child V) : Prop where
  rows : ch.pc ≠ .unborn → ∀ a, cfg.lo c ≤ a → a ≤ cfg.hi c → ch.u a = cfg.gridAt o ch.sweeps a
  top : ch.pc ≠ .unborn → c = 0 → ch.u 0 = cfg.grid o 0
  bottom : ch.pc ≠ .unborn → c+1 = cfg.children → ch.u (cfg.N-1) = cfg.grid o (cfg.N-1)
  phase : Phase o cfg c ch

variable {o cfg} in
lemma ChildOk.move {c : ℕ} {ch : Child V} (h : ChildOk o cfg c ch) (hb : ch.pc ≠ .unborn)
    {pc : ChildPc} {d : V} (hp : Phase o cfg c { ch with pc := pc, diff := d }) :
    ChildOk o cfg c { ch with pc := pc, diff := d } :=
  ⟨fun _ => h.rows hb,fun _ => h.top hb,fun _ => h.bottom hb,hp⟩

/-- What the parent knows at each point of its program. -/
def ParentOk (p : Parent V) : Prop :=
  match p.pc with
  | .fork i => p.count = 0 ∧ p.u = cfg.grid o ∧ i ≤ cfg.children
  | .recvDiff i => cfg.Going o p.count ∧ p.u = cfg.grid o ∧
      ∀ j < i, p.recvDiff j = cfg.childDiff o j p.count
  | .decide => cfg.Going o p.count ∧ p.u = cfg.grid o ∧
      ∀ j < cfg.children, p.recvDiff j = cfg.childDiff o j p.count
  | .sendCarryon _ => ∃ k, p.count = k+1 ∧ cfg.Going o (k+1) ∧ p.u = cfg.grid o
  | .sendDone _ => p.count = cfg.final o+1 ∧ cfg.StopsAt o (cfg.final o) ∧ p.u = cfg.grid o
  | .recvRow i j => p.count = cfg.final o+1 ∧ i ≤ cfg.children ∧ cfg.lo i ≤ j ∧
      j ≤ cfg.hi i+1 ∧ (i = cfg.children → j = cfg.N-1) ∧
      ∀ a, p.u a = if 1 ≤ a ∧ a < j then cfg.gridAt o (cfg.final o+1) a else cfg.grid o a
  | .print => p.count = cfg.final o+1 ∧ ∀ a < cfg.N, p.u a = cfg.gridAt o (cfg.final o+1) a
  | .wait _ | .exited => p.count = cfg.final o+1 ∧
      p.out = some (printGrid cfg.N (cfg.gridAt o (cfg.final o+1)))

structure Lockstep (s : State V) : Prop where
  parent : ParentOk o cfg s.parent
  child : ∀ c, ChildOk o cfg c (s.child c)
  unborn : ∀ c, cfg.children ≤ c → (s.child c).pc = .unborn
  forked : ∀ i, s.parent.pc = .fork i → ∀ c, i ≤ c → (s.child c).pc = .unborn
  tracks : Tracks (cfg.stream o) (s.read cfg) (s.written cfg) s.pipe

/-! ## Steps of a child -/

namespace Lockstep
variable {o cfg} {s t : State V} {c : ℕ}

lemma lt_children (h : Lockstep o cfg s) (hb : (s.child c).pc ≠ .unborn) : c < cfg.children := by
  by_contra hge
  exact hb (h.unborn c (by omega))

variable {ch : Child V} {pipe : Pipe → List (Msg V)}

lemma set_child (h : Lockstep o cfg s) (hc : c < cfg.children)
    (hf : ∀ i, s.parent.pc = .fork i → c < i)
    (hok : ChildOk o cfg c ch)
    (ht : Tracks (cfg.stream o) ((s.setChild c ch).read cfg) ((s.setChild c ch).written cfg) pipe) :
    Lockstep o cfg { s.setChild c ch with pipe := pipe } where
  parent := h.parent
  child d := by
    by_cases hd : d = c
    · subst d; simpa [State.setChild] using hok
    · simpa [State.setChild,hd] using h.child d
  unborn d hd := by
    have : d ≠ c := by omega
    simpa [State.setChild,this] using h.unborn d hd
  forked i hi d hd := by
    have : d ≠ c := by have := hf i hi; omega
    simpa [State.setChild,this] using h.forked i hi d hd
  tracks := ht.congr (fun q => by cases q <;> rfl) (fun q => by cases q <;> rfl)

lemma update_child (h : Lockstep o cfg s) (hb : (s.child c).pc ≠ .unborn)
    (hok : ChildOk o cfg c ch)
    (ht : Tracks (cfg.stream o) ((s.setChild c ch).read cfg) ((s.setChild c ch).written cfg) pipe) :
    Lockstep o cfg { s.setChild c ch with pipe := pipe } := by
  refine h.set_child (h.lt_children hb) (fun i hi => ?_) hok ht
  by_contra hge
  exact hb (h.forked i hi c (by omega))

/-- The step of a child that takes nothing from a pipe and gives nothing to one. -/
lemma silent_child (h : Lockstep o cfg s) (hb : (s.child c).pc ≠ .unborn) (hok : ChildOk o cfg c ch)
    (hr : ReadStep (s.child c) ch 0 0 0) (hw : WriteStep (cfg.lo c) (cfg.hi c) (s.child c) ch 0 0 0) :
    Lockstep o cfg (s.setChild c ch) := by
  have hc := h.lt_children hb
  refine h.update_child hb hok (h.tracks.congr ?_ ?_)
  · simpa using read_setChild hc hr
  · simpa using written_setChild hc hw

lemma born (h : Lockstep o cfg s) {pc : ChildPc} (hpc : (s.child c).pc = pc) (hpc' : pc ≠ .unborn) :
    (s.child c).pc ≠ .unborn ∧ c < cfg.children := by
  rw [← hpc] at hpc'
  exact ⟨hpc',h.lt_children hpc'⟩

lemma knows (h : Lockstep o cfg s) {pc : ChildPc} (hpc : (s.child c).pc = pc) :
    Phase o cfg c { s.child c with pc := pc } := by
  have hphase := (h.child c).phase
  simp only [Phase,hpc] at hphase
  exact hphase

attribute [local simp] ReadStep WriteStep Child.ordersRead Child.aboveRead Child.belowRead Child.cpSent
  Child.upSent Child.downSent

section

variable (h : Lockstep o cfg s) (hN : 3 ≤ cfg.N) (hs : stepChild o cfg c s = some t)
include h hN hs

lemma child_entry (hpc : (s.child c).pc = .entry) : Lockstep o cfg t := by
  obtain ⟨hb,hc⟩ := h.born hpc nofun
  have hk : (s.child c).sweeps = 0 := h.knows hpc
  have hlt : ¬ cfg.hi c < cfg.lo c := by have := Config.lo_le_hi hN hc; omega
  simp only [stepChild,hpc,hlt,if_false] at hs
  cases hs
  exact h.silent_child hb ((h.child c).move hb ⟨hk ▸ running_zero,rfl⟩) (by simp [hpc]) (by simp [hpc])

lemma child_sendUp (hpc : (s.child c).pc = .sendUp) : Lockstep o cfg t := by
  obtain ⟨hb,hc⟩ := h.born hpc nofun
  have hp : cfg.Going o (s.child c).sweeps ∧ (s.child c).diff = o.zero := h.knows hpc
  have hok : ChildOk o cfg c { s.child c with pc := .sendDown } := (h.child c).move hb hp
  have hr : ReadStep (s.child c) { s.child c with pc := .sendDown } 0 0 0 := by simp [hpc]
  have hw : WriteStep (cfg.lo c) (cfg.hi c) (s.child c) { s.child c with pc := .sendDown } 0 1 0 :=
      by
    simp [hpc]
  have hr := read_setChild hc hr
  have hw := written_setChild hc hw
  simp only [stepChild,hpc] at hs
  cases hs
  split_ifs with h0
  · refine h.update_child hb hok (h.tracks.send (.ccUp (c-1)) ?_ (by simpa using hr) ?_)
    · have he : c-1+1 = c := by omega
      simp [Config.stream,State.written,he,hc,Child.upSent,hpc,
        (h.child c).rows hb _ le_rfl (Config.lo_le_hi hN hc)]
    · simpa [h0] using hw
  · exact h.update_child hb hok (h.tracks.congr (by simpa using hr) (by simpa [h0] using hw))

lemma child_sendDown (hpc : (s.child c).pc = .sendDown) : Lockstep o cfg t := by
  obtain ⟨hb,hc⟩ := h.born hpc nofun
  have hp : cfg.Going o (s.child c).sweeps ∧ (s.child c).diff = o.zero := h.knows hpc
  have hok : ChildOk o cfg c { s.child c with pc := .recvAbove } := (h.child c).move hb hp
  have hr : ReadStep (s.child c) { s.child c with pc := .recvAbove } 0 0 0 := by simp [hpc]
  have hw : WriteStep (cfg.lo c) (cfg.hi c) (s.child c) { s.child c with pc := .recvAbove } 0 0 1 :=
      by
    simp [hpc]
  have hr := read_setChild hc hr
  have hw := written_setChild hc hw
  simp only [stepChild,hpc] at hs
  cases hs
  split_ifs with h0
  · refine h.update_child hb hok (h.tracks.send (.ccDown c) ?_ (by simpa using hr) ?_)
    · simp [Config.stream,State.written,h0,Child.downSent,hpc,
        (h.child c).rows hb _ (Config.lo_le_hi hN hc) le_rfl]
    · simpa [h0] using hw
  · exact h.update_child hb hok (h.tracks.congr (by simpa using hr) (by simpa [h0] using hw))

lemma child_recvAbove (hP : 1 ≤ cfg.P) (hpc : (s.child c).pc = .recvAbove) : Lockstep o cfg t := by
  obtain ⟨hb,hc⟩ := h.born hpc nofun
  have hok := h.child c
  obtain ⟨hgo,hd⟩ : cfg.Going o (s.child c).sweeps ∧ (s.child c).diff = o.zero := h.knows hpc
  have hlo := cfg.lo_pos c
  have hhi := Config.hi_le hN hP hc
  have hle := Config.lo_le_hi hN hc
  have hr : ∀ u, ReadStep (s.child c) { s.child c with pc := .recvBelow, u := u } 0 1 0 := by simp [hpc]
  have hw : ∀ u, WriteStep (cfg.lo c) (cfg.hi c) (s.child c)
      { s.child c with pc := .recvBelow, u := u } 0 0 0 := by
    simp [hpc]
  simp only [stepChild,hpc] at hs
  split_ifs at hs with h0
  · split at hs
    · rename_i r rest hq
      cases hs
      obtain ⟨hm,-⟩ := h.tracks.head hq
      have he : c-1+1 = c := by omega
      have hl : cfg.hi (c-1)+1 = cfg.lo c := by rw [← cfg.lo_succ,he]
      have hrow : r = cfg.gridAt o (s.child c).sweeps (cfg.lo c-1) := by
        have hi : cfg.hi (c-1) = cfg.lo c-1 := by omega
        simpa [Config.stream,State.read,he,hc,Child.aboveRead,hpc,hi] using hm
      refine h.update_child hb ⟨fun _ a ha ha' => ?_,fun _ h0' => ?_,fun _ hlast => ?_,?_⟩
        (h.tracks.recv hq ?_ (by simpa using written_setChild hc (hw _)))
      · exact (setRow_of_ne _ _ (by omega)).trans (hok.rows hb a ha ha')
      · omega
      · exact (setRow_of_ne _ _ (by omega)).trans (hok.bottom hb hlast)
      · exact ⟨hgo,hd,by simpa using hrow⟩
      · simpa [h0] using read_setChild hc (hr _)
    · cases hs
  · cases hs
    have hz : c = 0 := by omega
    refine h.update_child hb ⟨fun _ => hok.rows hb,fun _ => hok.top hb,fun _ => hok.bottom hb,?_⟩
      (h.tracks.congr (by simpa [h0] using read_setChild hc (hr _))
        (by simpa using written_setChild hc (hw _)))
    refine ⟨hgo,hd,?_⟩
    subst c
    change (s.child 0).u 0 = cfg.gridAt o _ 0
    rw [hok.top hb rfl,Config.gridAt_top]

lemma child_recvBelow (hP : 1 ≤ cfg.P) (hpc : (s.child c).pc = .recvBelow) : Lockstep o cfg t := by
  obtain ⟨hb,hc⟩ := h.born hpc nofun
  have hok := h.child c
  obtain ⟨hgo,hd,hab⟩ : cfg.Going o (s.child c).sweeps ∧ (s.child c).diff = o.zero ∧
      (s.child c).u (cfg.lo c-1) = cfg.gridAt o (s.child c).sweeps (cfg.lo c-1) := h.knows hpc
  have hlo := cfg.lo_pos c
  have hhi := Config.hi_le hN hP hc
  have hle := Config.lo_le_hi hN hc
  have hr : ∀ u, ReadStep (s.child c) { s.child c with pc := .compute, u := u } 0 0 1 := by simp [hpc]
  have hw : ∀ u, WriteStep (cfg.lo c) (cfg.hi c) (s.child c)
      { s.child c with pc := .compute, u := u } 0 0 0 := by
    simp [hpc]
  simp only [stepChild,hpc] at hs
  split_ifs at hs with h0
  · split at hs
    · rename_i r rest hq
      cases hs
      obtain ⟨hm,-⟩ := h.tracks.head hq
      have hrow : r = cfg.gridAt o (s.child c).sweeps (cfg.hi c+1) := by
        simpa [Config.stream,State.read,h0,Child.belowRead,hpc] using hm
      refine h.update_child hb ⟨fun _ a ha ha' => ?_,fun _ hz => ?_,fun _ hlast => ?_,?_⟩
        (h.tracks.recv hq ?_ (by simpa using written_setChild hc (hw _)))
      · exact (setRow_of_ne _ _ (by omega)).trans (hok.rows hb a ha ha')
      · change setRow (s.child c).u (cfg.hi c+1) r 0 = _
        rw [setRow_of_ne _ _ (by omega),hok.top hb hz]
      · omega
      · refine ⟨hgo,hd,?_,by simpa using hrow⟩
        exact (setRow_of_ne _ _ (by omega)).trans hab
      · simpa [h0] using read_setChild hc (hr _)
    · cases hs
  · cases hs
    have hlast : c+1 = cfg.children := by omega
    refine h.update_child hb ⟨fun _ => hok.rows hb,fun _ => hok.top hb,fun _ => hok.bottom hb,?_⟩
      (h.tracks.congr (by simpa [h0] using read_setChild hc (hr _))
        (by simpa using written_setChild hc (hw _)))
    refine ⟨hgo,hd,hab,?_⟩
    have he : cfg.hi c+1 = cfg.N-1 := by have := Config.hi_last hN hP hlast; omega
    rw [he,hok.bottom hb hlast,Config.gridAt_bottom o hN]

lemma child_compute (hP : 1 ≤ cfg.P) (hpc : (s.child c).pc = .compute) : Lockstep o cfg t := by
  obtain ⟨hb,hc⟩ := h.born hpc nofun
  have hok := h.child c
  obtain ⟨hgo,hd,hab,hbe⟩ : cfg.Going o (s.child c).sweeps ∧ (s.child c).diff = o.zero ∧
      (s.child c).u (cfg.lo c-1) = cfg.gridAt o (s.child c).sweeps (cfg.lo c-1) ∧
      (s.child c).u (cfg.hi c+1) = cfg.gridAt o (s.child c).sweeps (cfg.hi c+1) := h.knows hpc
  have hlo := cfg.lo_pos c
  have hhi := Config.hi_le hN hP hc
  have hblock : ∀ a, cfg.lo c-1 ≤ a → a ≤ cfg.hi c+1 →
      (s.child c).u a = cfg.gridAt o (s.child c).sweeps a := by
    intro a ha ha'
    by_cases h1 : a = cfg.lo c-1
    · rw [h1,hab]
    · by_cases h2 : a = cfg.hi c+1
      · rw [h2,hbe]
      · exact hok.rows hb a (by omega) (by omega)
  simp only [stepChild,hpc] at hs
  cases hs
  refine h.silent_child hb ⟨fun _ a ha ha' => ?_,fun _ hz => ?_,fun _ hlast => ?_,?_⟩
    (by simp [hpc]) (by simp [hpc])
  · exact Config.block_sweep o hN hP hc _ _ hblock ha ha'
  · funext b
    refine (copyBack_apply _ _ _ _ _ _ _).trans ?_
    rw [if_neg (by omega),hok.top hb hz]
  · funext b
    refine (copyBack_apply _ _ _ _ _ _ _).trans ?_
    rw [if_neg (by omega),hok.bottom hb hlast]
  · refine ⟨_,rfl,hgo,?_⟩
    rw [Config.childDiff,← hd]
    exact sweep_snd_congr o _ _ _ hlo hblock

end

lemma child_sendDiff (h : Lockstep o cfg s) (hpc : (s.child c).pc = .sendDiff)
    (hs : stepChild o cfg c s = some t) : Lockstep o cfg t := by
  obtain ⟨hb,hc⟩ := h.born hpc nofun
  obtain ⟨k,hk,hgo,hd⟩ : ∃ k, (s.child c).sweeps = k+1 ∧ cfg.Going o k ∧
      (s.child c).diff = cfg.childDiff o c k := h.knows hpc
  have hr : ReadStep (s.child c) { s.child c with pc := .recvOrder } 0 0 0 := by simp [hpc]
  have hw : WriteStep (cfg.lo c) (cfg.hi c) (s.child c) { s.child c with pc := .recvOrder } 1 0 0 := by
    simp [hpc,hk]
  simp only [stepChild,hpc] at hs
  cases hs
  refine h.update_child hb ((h.child c).move hb ⟨k,hk,hgo⟩) (h.tracks.send (.cp c) ?_
    (by simpa using read_setChild hc hr) (by simpa using written_setChild hc hw))
  have hle : k ≤ cfg.final o := hgo.le_lastSweep
  simp [Config.stream,State.written,hc,Child.cpSent,hpc,hk,hle,hd]

lemma child_recvOrder (h : Lockstep o cfg s) (hN : 3 ≤ cfg.N) (hpc : (s.child c).pc = .recvOrder)
    (hs : stepChild o cfg c s = some t) : Lockstep o cfg t := by
  obtain ⟨hb,hc⟩ := h.born hpc nofun
  obtain ⟨k,hk,hgo⟩ : ∃ k, (s.child c).sweeps = k+1 ∧ cfg.Going o k := h.knows hpc
  have hle := Config.lo_le_hi hN hc
  simp only [stepChild,hpc] at hs
  split at hs
  · rename_i order rest hq
    cases hs
    obtain ⟨hm,-⟩ := h.tracks.head hq
    have horder : order = if cfg.StopsAt o k then 1 else 0 := by
      simpa [Config.stream,State.read,hc,Child.ordersRead,hpc,hk] using hm
    by_cases hstop : cfg.StopsAt o k
    · have hlast : k = cfg.final o := hgo.eq_lastSweep hstop
      have hr : ReadStep (s.child c) { s.child c with pc := .sendRow (cfg.lo c) } 1 0 0 := by
        simp [hpc,hk]
      have hw : WriteStep (cfg.lo c) (cfg.hi c) (s.child c)
          { s.child c with pc := .sendRow (cfg.lo c) } 0 0 0 := by
        simp [hpc]
      rw [if_pos (by simp [horder,hstop])]
      refine h.update_child hb ((h.child c).move hb ?_) (h.tracks.recv hq
        (by simpa using read_setChild hc hr) (by simpa using written_setChild hc hw))
      exact ⟨by rw [← hlast]; exact hk,le_rfl,by omega⟩
    · have hr : ReadStep (s.child c) { s.child c with pc := .sendUp, diff := o.zero } 1 0 0 := by
        simp [hpc,hk]
      have hw : WriteStep (cfg.lo c) (cfg.hi c) (s.child c)
          { s.child c with pc := .sendUp, diff := o.zero } 0 0 0 := by
        simp [hpc]
      rw [if_neg (by simp [horder,hstop])]
      refine h.update_child hb ((h.child c).move hb ?_) (h.tracks.recv hq
        (by simpa using read_setChild hc hr) (by simpa using written_setChild hc hw))
      exact ⟨by rw [hk]; exact hgo.succ hstop,rfl⟩
  · cases hs

lemma child_sendRow (h : Lockstep o cfg s) {i : ℕ} (hpc : (s.child c).pc = .sendRow i)
    (hs : stepChild o cfg c s = some t) : Lockstep o cfg t := by
  obtain ⟨hb,hc⟩ := h.born hpc nofun
  obtain ⟨hk,hlo,hhi⟩ : (s.child c).sweeps = cfg.final o+1 ∧ cfg.lo c ≤ i ∧
      i ≤ cfg.hi c+1 := h.knows hpc
  simp only [stepChild,hpc] at hs
  cases hs
  split_ifs with hi
  · have hr : ReadStep (s.child c) { s.child c with pc := .sendRow (i+1) } 0 0 0 := by simp [hpc]
    have hw : WriteStep (cfg.lo c) (cfg.hi c) (s.child c)
        { s.child c with pc := .sendRow (i+1) } 1 0 0 := by
      simp only [WriteStep,Child.cpSent,Child.upSent,Child.downSent,hpc]
      omega
    refine h.update_child hb ((h.child c).move hb ⟨hk,by omega,by omega⟩) (h.tracks.send (.cp c) ?_
      (by simpa using read_setChild hc hr) (by simpa using written_setChild hc hw))
    have hrow := (h.child c).rows hb i hlo hi
    have he : cfg.lo c+(i-cfg.lo c) = i := by omega
    have hgt : ¬ cfg.final o+1+(i-cfg.lo c) ≤ cfg.final o := by omega
    simp [Config.stream,State.written,hc,Child.cpSent,hpc,hk,hrow,he,hgt]
  · refine h.silent_child hb ((h.child c).move hb hk) (by simp [hpc]) ?_
    simp only [WriteStep,Child.cpSent,Child.upSent,Child.downSent,hpc]
    omega

/-- Every step of a child keeps the invariant. -/
theorem stepChild (h : Lockstep o cfg s) (hN : 3 ≤ cfg.N) (hP : 1 ≤ cfg.P)
    (hs : Jacobi.stepChild o cfg c s = some t) : Lockstep o cfg t := by
  cases hpc : (s.child c).pc with
  | unborn | exited => simp [Jacobi.stepChild,hpc] at hs
  | entry => exact h.child_entry hN hs hpc
  | sendUp => exact h.child_sendUp hN hs hpc
  | sendDown => exact h.child_sendDown hN hs hpc
  | recvAbove => exact h.child_recvAbove hN hs hP hpc
  | recvBelow => exact h.child_recvBelow hN hs hP hpc
  | compute => exact h.child_compute hN hs hP hpc
  | sendDiff => exact h.child_sendDiff hpc hs
  | recvOrder => exact h.child_recvOrder hN hpc hs
  | sendRow i => exact h.child_sendRow hpc hs

end Lockstep
end JacobiXv6.Jacobi
