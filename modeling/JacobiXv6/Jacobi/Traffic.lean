import JacobiXv6.Library.Channels
import JacobiXv6.Jacobi.Protocol
import JacobiXv6.Jacobi.Sequential

/-! What the pipes carry. The `k`-th message on a pipe is fixed by the sequential
iteration, and how many messages a pipe has been given and how many have been taken
from it can be read off the program counters at its two ends. -/
namespace JacobiXv6.Jacobi
open Library

variable {V : Type*}

namespace Child

def upSent (ch : Child V) : ℕ :=
  match ch.pc with
  | .sendDown | .recvAbove | .recvBelow | .compute => ch.sweeps+1
  | _ => ch.sweeps

def downSent (ch : Child V) : ℕ :=
  match ch.pc with
  | .recvAbove | .recvBelow | .compute => ch.sweeps+1
  | _ => ch.sweeps

def aboveRead (ch : Child V) : ℕ :=
  match ch.pc with
  | .recvBelow | .compute => ch.sweeps+1
  | _ => ch.sweeps

def belowRead (ch : Child V) : ℕ :=
  match ch.pc with
  | .compute => ch.sweeps+1
  | _ => ch.sweeps

/-- Differences and final rows written to the parent. -/
def cpSent (lo hi : ℕ) (ch : Child V) : ℕ :=
  match ch.pc with
  | .sendDiff => ch.sweeps-1
  | .sendRow i => ch.sweeps+(i-lo)
  | .exited => ch.sweeps+(hi+1-lo)
  | _ => ch.sweeps

def ordersRead (ch : Child V) : ℕ :=
  match ch.pc with
  | .sendDiff | .recvOrder => ch.sweeps-1
  | _ => ch.sweeps

end Child

namespace Parent

def ordersSent (p : Parent V) (i : ℕ) : ℕ :=
  match p.pc with
  | .sendCarryon j | .sendDone j => p.count-1+if i < j then 1 else 0
  | _ => p.count

/-- Differences and final rows read from child `i`. -/
def cpRead (cfg : Config V) (p : Parent V) (i : ℕ) : ℕ :=
  match p.pc with
  | .recvDiff j => p.count+if i < j then 1 else 0
  | .decide => p.count+1
  | .recvRow k j => p.count+if i < k then cfg.hi i+1-cfg.lo i
      else if i = k then j-cfg.lo i else 0
  | .print | .wait _ | .exited => p.count+(cfg.hi i+1-cfg.lo i)
  | _ => p.count

end Parent

namespace State
variable (cfg : Config V)

def written (s : State V) : Pipe → ℕ
  | .pc i => if i < cfg.children then s.parent.ordersSent i else 0
  | .cp i => if i < cfg.children then (s.child i).cpSent (cfg.lo i) (cfg.hi i) else 0
  | .ccUp i => if i+1 < cfg.children then (s.child (i+1)).upSent else 0
  | .ccDown i => if i+1 < cfg.children then (s.child i).downSent else 0

/-- How many messages have been taken from each pipe. -/
def read (s : State V) : Pipe → ℕ
  | .pc i => if i < cfg.children then (s.child i).ordersRead else 0
  | .cp i => if i < cfg.children then s.parent.cpRead cfg i else 0
  | .ccUp i => if i+1 < cfg.children then (s.child i).belowRead else 0
  | .ccDown i => if i+1 < cfg.children then (s.child (i+1)).aboveRead else 0

end State

/-- From `a` to `b` the three read counts of a child grow by the given amounts. -/
def ReadStep (a b : Child V) (i j k : ℕ) : Prop :=
  b.ordersRead = a.ordersRead+i ∧ b.aboveRead = a.aboveRead+j ∧ b.belowRead = a.belowRead+k

/-- From `a` to `b` the three write counts of a child grow by the given amounts. -/
def WriteStep (lo hi : ℕ) (a b : Child V) (i j k : ℕ) : Prop :=
  b.cpSent lo hi = a.cpSent lo hi+i ∧ b.upSent = a.upSent+j ∧ b.downSent = a.downSent+k

section Counts
variable {cfg : Config V} {s : State V} {c : ℕ} {ch : Child V} (hc : c < cfg.children)
include hc

variable {i k : ℕ}

lemma read_setChild {j : ℕ} (h : ReadStep (s.child c) ch i j k) (q : Pipe) :
    (s.setChild c ch).read cfg q = s.read cfg q+(if q = .pc c then i else 0) +
      (if q = .ccDown (c-1) ∧ 0 < c then j else 0) +
      (if q = .ccUp c ∧ c+1 < cfg.children then k else 0) := by
  obtain ⟨ho,ha,hb⟩ := h
  cases q with
  | pc d =>
    by_cases h : d = c
    · subst d; simp [State.read,State.setChild,hc,ho]
    · simp [State.read,State.setChild,h]
  | cp d => simp [State.read,State.setChild]
  | ccUp d =>
    by_cases h : d = c
    · subst d
      by_cases hl : c+1 < cfg.children
      · simp [State.read,State.setChild,hl,hb]
      · simp [State.read,hl]
    · simp [State.read,State.setChild,h]
  | ccDown d =>
    by_cases h : d+1 = c
    · subst c; simp [State.read,State.setChild,hc,ha]
    · have : ¬ (d = c-1 ∧ 0 < c) := by omega
      simp [State.read,State.setChild,h,this]

lemma written_setChild {j : ℕ}
    (h : WriteStep (cfg.lo c) (cfg.hi c) (s.child c) ch i j k) (q : Pipe) :
    (s.setChild c ch).written cfg q = s.written cfg q+(if q = .cp c then i else 0) +
      (if q = .ccUp (c-1) ∧ 0 < c then j else 0) +
      (if q = .ccDown c ∧ c+1 < cfg.children then k else 0) := by
  obtain ⟨hd,hu,hb⟩ := h
  cases q with
  | pc d => simp [State.written,State.setChild]
  | cp d =>
    by_cases h : d = c
    · subst d; simp [State.written,State.setChild,hc,hd]
    · simp [State.written,State.setChild,h]
  | ccUp d =>
    by_cases h : d+1 = c
    · subst c; simp [State.written,State.setChild,hc,hu]
    · have : ¬ (d = c-1 ∧ 0 < c) := by omega
      simp [State.written,State.setChild,h,this]
  | ccDown d =>
    by_cases h : d = c
    · subst d
      by_cases hl : c+1 < cfg.children
      · simp [State.written,State.setChild,hl,hb]
      · simp [State.written,hl]
    · simp [State.written,State.setChild,h]

omit hc

/-- The parent reads from the pipes `cp` only. -/
lemma read_setParent {p : Parent V}
    (h : ∀ d < cfg.children, p.cpRead cfg d = s.parent.cpRead cfg d+if d = i then k else 0)
    (hi : i < cfg.children) (q : Pipe) :
    (s.setParent p).read cfg q = s.read cfg q+if q = .cp i then k else 0 := by
  cases q with
  | cp d =>
    by_cases hd : d < cfg.children
    · simp [State.read,State.setParent,hd,h d hd]
    · have : d ≠ i := by omega
      simp [State.read,hd,this]
  | pc d | ccUp d | ccDown d => simp [State.read,State.setParent]

/-- The parent writes to the pipes `pc` only. -/
lemma written_setParent {p : Parent V}
    (h : ∀ d < cfg.children, p.ordersSent d = s.parent.ordersSent d+if d = i then k else 0)
    (hi : i < cfg.children) (q : Pipe) :
    (s.setParent p).written cfg q = s.written cfg q+if q = .pc i then k else 0 := by
  cases q with
  | pc d =>
    by_cases hd : d < cfg.children
    · simp [State.written,State.setParent,hd,h d hd]
    · have : d ≠ i := by omega
      simp [State.written,hd,this]
  | cp d | ccUp d | ccDown d => simp [State.written,State.setParent]

end Counts

section Stream
variable [LinearOrder V] (o : Ops V) (cfg : Config V)

namespace Config

/-- The grid after `k` sequential sweeps. -/
def gridAt (k : ℕ) : Grid V := seqGrid o cfg.N (cfg.grid o) k

def StopsAt (k : ℕ) : Prop := Stops o cfg.N cfg.E cfg.L (cfg.grid o) k

instance (k : ℕ) : Decidable (cfg.StopsAt o k) :=
  inferInstanceAs (Decidable (Stops o cfg.N cfg.E cfg.L (cfg.grid o) k))

/-- No round before number `k` is the last one. -/
def Going (k : ℕ) : Prop := Running o cfg.N cfg.E cfg.L (cfg.grid o) k

def final : ℕ := lastSweep o cfg.N cfg.E cfg.L (cfg.grid o)

/-- The difference child `c` finds in round `k`. -/
def childDiff (c k : ℕ) : V :=
  (sweep o cfg.N (cfg.lo c) (cfg.hi c) (cfg.gridAt o k) (cfg.gridAt o k) o.zero).2

/-- Message number `m` of each pipe. -/
def stream : Pipe → ℕ → Msg V
  | .pc _, m => .order (if cfg.StopsAt o m then 1 else 0)
  | .cp i, m =>
    if m ≤ cfg.final o then .diff (cfg.childDiff o i m)
    else .row (cfg.gridAt o (cfg.final o+1) (cfg.lo i+(m-(cfg.final o+1))))
  | .ccUp i, m => .row (cfg.gridAt o m (cfg.lo (i+1)))
  | .ccDown i, m => .row (cfg.gridAt o m (cfg.hi i))

end Config
end Stream

/-! ## The intervals of the children -/

namespace Config
variable (cfg : Config V)

lemma processes_pos (hP : 1 ≤ cfg.P) : 1 ≤ cfg.processes := by
  unfold processes
  split
  · split_ifs <;> omega
  · exact hP

lemma children_le : cfg.children ≤ cfg.processes := Nat.sub_le _ _

@[simp] lemma lo_zero : cfg.lo 0 = 1 := rfl
@[simp] lemma lo_succ (c : ℕ) : cfg.lo (c+1) = cfg.hi c+1 := rfl

lemma lo_pos (c : ℕ) : 1 ≤ cfg.lo c := startIndex_pos _ _ c

variable {cfg} (hN : 3 ≤ cfg.N)
include hN

lemma lo_le_hi {c : ℕ} (hc : c < cfg.children) : cfg.lo c ≤ cfg.hi c := start_le_end hN hc

lemma children_pos (hP : 1 ≤ cfg.P) : 0 < cfg.children := procs_pos hN (cfg.processes_pos hP)

lemma hi_le (hP : 1 ≤ cfg.P) {c : ℕ} (hc : c < cfg.children) : cfg.hi c ≤ cfg.N-2 :=
  endIndex_le hN (cfg.processes_pos hP) hc

lemma hi_last (hP : 1 ≤ cfg.P) {c : ℕ} (hc : c+1 = cfg.children) : cfg.hi c = cfg.N-2 := by
  have h := endIndex_last hN (cfg.processes_pos hP)
  rwa [show procs cfg.N cfg.processes-1 = c from by rw [show procs _ _ = _ from hc.symm]; omega]
    at h

end Config
end JacobiXv6.Jacobi
