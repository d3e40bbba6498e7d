import JacobiXv6.Jacobi.Barrier

/-! The parallel program refines the sequential algorithm. -/
namespace JacobiXv6.Jacobi
open Library

variable {V : Type*} [LinearOrder V] {o : Ops V} {cfg : Config V} {s : State V}

def Child.Stopped (ch : Child V) : Prop :=
  match ch.pc with
  | .sendRow _ | .exited => True
  | _ => False

/-- Two inputs that may differ in the version of the program, in `P` and in what the
arrays hold before they are filled. -/
def Config.SameProblem (cfg cfg' : Config V) : Prop :=
  cfg.N = cfg'.N ∧ cfg.E = cfg'.E ∧ cfg.T = cfg'.T ∧ cfg.L = cfg'.L

lemma Lockstep.print_agree (h : Lockstep o cfg s) (hprint : s.parent.pc = .print) :
    Agree cfg.N s.parent.u (sequential o cfg.N cfg.E cfg.L (cfg.grid o)).1 := by
  have hp := h.parent
  simp only [ParentOk,hprint] at hp
  intro i hi j _
  rw [sequential_eq,hp.2 i hi]
  rfl

lemma Lockstep.print_stopped (h : Lockstep o cfg s) (hN : 3 ≤ cfg.N)
    (hprint : s.parent.pc = .print) {c : ℕ} (hc : c < cfg.children) :
    (s.child c).Stopped ∧ (s.child c).sweeps = cfg.final o+1 := by
  have hp := h.parent
  simp only [ParentOk,hprint] at hp
  have hle := (h.tracks (.cp c)).1
  have hlo := Config.lo_le_hi hN hc
  have hph := (h.child c).phase
  simp only [State.read,State.written,hc,if_true,Parent.cpRead,hprint,hp.1] at hle
  unfold Phase at hph
  unfold Child.cpSent at hle
  unfold Child.Stopped
  cases hpc : (s.child c).pc <;> simp only [hpc] at hph hle ⊢
  case sendRow => exact ⟨trivial,hph.1⟩
  case exited => exact ⟨trivial,hph⟩
  case sendDiff =>
    obtain ⟨k,hk,hgo,-⟩ := hph
    have : k ≤ cfg.final o := hgo.le_lastSweep
    omega
  case recvOrder =>
    obtain ⟨k,hk,hgo⟩ := hph
    have : k ≤ cfg.final o := hgo.le_lastSweep
    omega
  case unborn => omega
  case entry => omega
  all_goals
    have : (s.child c).sweeps ≤ cfg.final o := hph.1.le_lastSweep
    omega

/-- Under every schedule of the parent and the children, a parent that reaches its print
loop holds the grid of the sequential algorithm and every child has stopped after the
same number of sweeps. Another number of processes and another schedule print the same. -/
theorem parallel_eq_sequential (o : Ops V) (cfg : Config V) (hN : 3 ≤ cfg.N) (hP : 1 ≤ cfg.P)
    (schedule : List Proc) (s : State V) (h : Reaches o cfg schedule s)
    (hprint : s.parent.pc = .print) :
    printGrid cfg.N s.parent.u =
        printGrid cfg.N (sequential o cfg.N cfg.E cfg.L (cfg.grid o)).1 ∧
      (∀ c < cfg.children, (s.child c).Stopped ∧
        (s.child c).sweeps = (sequential o cfg.N cfg.E cfg.L (cfg.grid o)).2) ∧
      ∀ (cfg' : Config V) (schedule' : List Proc) (s' : State V), cfg.SameProblem cfg' →
        1 ≤ cfg'.P → Reaches o cfg' schedule' s' → s'.parent.pc = .print →
        printGrid cfg.N s'.parent.u = printGrid cfg.N s.parent.u := by
  have hl := Lockstep.reaches hN hP h
  have ha := hl.print_agree hprint
  refine ⟨printGrid_congr ha,fun c hc => ?_,?_⟩
  · rw [sequential_eq]
    exact hl.print_stopped hN hprint hc
  · rintro cfg' schedule' s' ⟨heN,heE,heT,heL⟩ hP' h' hprint'
    have hl' := Lockstep.reaches (heN ▸ hN) hP' h'
    have ha' := hl'.print_agree hprint'
    rw [← heN,← heE,← heL] at ha'
    have hg : Agree cfg.N (cfg'.grid o) (cfg.grid o) := by
      unfold Config.grid
      rw [← heN,← heT]
      exact initGrid_agree o cfg.N cfg.T cfg'.u cfg.u
    have hq := seqLoop_agree o cfg.N cfg.E cfg.L _ _ 0 hg
    refine printGrid_congr fun i hi j hj => ?_
    rw [ha' i hi j hj,ha i hi j hj]
    exact hq i hi j hj

/-- Whole numbers in place of `float`. -/
def natOps : Ops ℕ where
  zero := 0
  add := (· + ·)
  divCount x n := x/(4*n)
  average a b c d := (a+b+c+d)/4
  dist a b := (a-b)+(b-a)

/-- Two rows of two interior cells for two processes, and two sweeps. -/
def sample : Config ℕ :=
  { program := .jacob, N := 4, E := 0, T := 100, P := 2, L := 1, u := fun _ _ => 7,
    w := fun _ _ => 7 }

/-- Both children are forked. -/
def startSchedule : List Proc := List.replicate 3 .parent++[.child 0,.child 1]

/-- The children exchange their ghost rows and sweep, and the parent collects the differences. -/
def sweepSchedule : List Proc :=
  List.replicate 2 (.child 0)++List.replicate 6 (.child 1)++List.replicate 4 (.child 0) ++
    List.replicate 3 .parent

/-- The parent decides, and the children receive their orders. -/
def orderSchedule : List Proc := List.replicate 4 .parent++[.child 0,.child 1]

def sampleSchedule : List Proc :=
  startSchedule++sweepSchedule++orderSchedule++sweepSchedule++orderSchedule ++
    List.replicate 2 (.child 0)++List.replicate 2 (.child 1)++List.replicate 5 .parent

theorem parallel_eq_sequential_sample : ∃ s, Reaches natOps sample sampleSchedule s ∧
    s.parent.pc = .print ∧ printGrid 4 s.parent.u =
      printGrid 4 (sequential natOps 4 0 1 (sample.grid natOps)).1 := by
  have he : (exec (step natOps sample) sampleSchedule (initial natOps sample)).map
      (fun s => s.parent.pc) = some .print := by decide +kernel
  obtain ⟨s,hs,hp⟩ := Option.map_eq_some_iff.mp he
  have hr : Reaches natOps sample sampleSchedule s := .of_exec hs
  exact ⟨s,hr,hp,(parallel_eq_sequential natOps sample (by decide) (by decide) _ s hr hp).1⟩

end JacobiXv6.Jacobi
