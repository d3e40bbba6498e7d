import JacobiXv6.Jacobi.Grid

/-! The sequential algorithm: sweep the whole interior until the largest change is
at most `E` or more than `L` sweeps have been made. -/
namespace JacobiXv6.Jacobi
open Library

variable {V : Type*} [LinearOrder V] (o : Ops V) (N : ℕ)

/-- Every interior cell becomes the average of its four neighbours. -/
def seqSweep (u : Grid V) : Grid V := fun i j =>
  if (1 ≤ i ∧ i ≤ N-2) ∧ 1 ≤ j ∧ j ≤ N-2 then stencil o u i j else u i j

def interior : List (ℕ×ℕ) := indices 1 (N-2) ×ˢ indices 1 (N-2)

/-- The maximum of zero and the changes of the interior cells. -/
def seqDiff (u : Grid V) : V :=
  (interior N).foldl (fun d c => max d (o.dist (seqSweep o N u c.1 c.2) (u c.1 c.2))) o.zero

/-- The loop from a grid on which `count` sweeps have been made. -/
def seqLoop (E : V) (L : ℤ) (u : Grid V) (count : ℕ) : Grid V×ℕ :=
  if seqDiff o N u ≤ E ∨ L < (count+1 : ℕ) then (seqSweep o N u,count+1)
  else seqLoop E L (seqSweep o N u) (count+1)
termination_by (L-count).toNat
decreasing_by omega

def sequential (E : V) (L : ℤ) (u : Grid V) : Grid V×ℕ := seqLoop o N E L u 0

lemma foldl_max_le_iff {ι : Type*} (f : ι → V) (l : List ι) (d y : V) :
    l.foldl (fun d i => max d (f i)) d ≤ y ↔ d ≤ y ∧ ∀ i ∈ l, f i ≤ y := by
  have he : (fun d i => max d (f i)) = fun d i => keepMax d (f i) := by
    funext d i
    rw [keepMax,max_def_lt]
  rw [he,foldl_keepMax_le_iff]

theorem seqDiff_le_iff (u : Grid V) (y : V) :
    seqDiff o N u ≤ y ↔ o.zero ≤ y ∧
      ∀ i, 1 ≤ i → i ≤ N-2 → ∀ j, 1 ≤ j → j ≤ N-2 → change o u i j ≤ y := by
  rw [seqDiff,foldl_max_le_iff]
  refine and_congr_right fun _ => ?_
  have hm : ∀ i j, (i,j) ∈ interior N ↔ (1 ≤ i ∧ i ≤ N-2) ∧ 1 ≤ j ∧ j ≤ N-2 := by
    intro i j
    rw [interior,List.mem_product,mem_indices,mem_indices]
  constructor
  · intro h i hi hi' j hj hj'
    simpa [seqSweep,hi,hi',hj,hj',change] using h (i,j) ((hm i j).mpr ⟨⟨hi,hi'⟩,hj,hj'⟩)
  · rintro h ⟨i,j⟩ hc
    obtain ⟨⟨hi,hi'⟩,hj,hj'⟩ := (hm i j).mp hc
    simpa [seqSweep,hi,hi',hj,hj',change] using h i hi hi' j hj hj'

/-! ## Only the cells of the array matter -/

variable {u v : Grid V}

omit [LinearOrder V] in
lemma stencil_agree (h : Agree N u v) {i j : ℕ} (hi : 1 ≤ i) (hi' : i ≤ N-2)
    (hj : 1 ≤ j) (hj' : j ≤ N-2) : stencil o u i j = stencil o v i j := by
  simp only [stencil]
  rw [h _ (by omega) _ (by omega),h (i+1) (by omega) _ (by omega),h i (by omega) (j-1) (by omega),
    h i (by omega) (j+1) (by omega)]

omit [LinearOrder V] in
lemma seqSweep_agree (h : Agree N u v) :
    Agree N (seqSweep o N u) (seqSweep o N v) := by
  intro i hi j hj
  simp only [seqSweep]
  split_ifs with hin
  · exact stencil_agree o N h hin.1.1 hin.1.2 hin.2.1 hin.2.2
  · exact h i hi j hj

lemma seqDiff_agree (h : Agree N u v) : seqDiff o N u = seqDiff o N v := by
  refine eq_of_forall_ge_iff fun y => ?_
  rw [seqDiff_le_iff,seqDiff_le_iff]
  refine and_congr_right fun _ => forall_congr' fun i => ?_
  refine forall_congr' fun hi => forall_congr' fun hi' => forall_congr' fun j => ?_
  refine forall_congr' fun hj => forall_congr' fun hj' => ?_
  rw [change,change,stencil_agree o N h hi hi' hj hj',h i (by omega) j (by omega)]

lemma seqLoop_agree (E : V) (L : ℤ) (u v : Grid V) (count : ℕ) (h : Agree N u v) :
    Agree N (seqLoop o N E L u count).1 (seqLoop o N E L v count).1 := by
  fun_induction seqLoop o N E L u count generalizing v with
  | case1 u count hs =>
    rw [seqLoop,if_pos (by rwa [← seqDiff_agree o N h])]
    exact seqSweep_agree o N h
  | case2 u count hs ih =>
    have hv : seqLoop o N E L v count = seqLoop o N E L (seqSweep o N v) (count+1) := by
      rw [seqLoop,if_neg (by rwa [← seqDiff_agree o N h])]
    rw [hv]
    exact ih _ (seqSweep_agree o N h)

section Iteration
variable (E : V) (L : ℤ) (u : Grid V)

/-- The grid after `k` sweeps. -/
def seqGrid (k : ℕ) : Grid V := (seqSweep o N)^[k] u

/-- Sweep number `k`, counted from zero, is the last one. -/
def Stops (k : ℕ) : Prop := seqDiff o N (seqGrid o N u k) ≤ E ∨ L < (k+1 : ℕ)

instance (k : ℕ) : Decidable (Stops o N E L u k) := by unfold Stops; infer_instance

/-- No sweep before number `k` is the last one. -/
def Running (k : ℕ) : Prop := ∀ m < k, ¬ Stops o N E L u m

omit [LinearOrder V] in
lemma seqGrid_succ (k : ℕ) : seqGrid o N u (k+1) = seqSweep o N (seqGrid o N u k) :=
  Function.iterate_succ_apply' _ _ _

omit [LinearOrder V] in
lemma seqGrid_border {a : ℕ} (ha : a = 0 ∨ N-2 < a) (k : ℕ) : seqGrid o N u k a = u a := by
  induction k with
  | zero => rfl
  | succ k ih =>
    rw [← ih,seqGrid_succ]
    funext b
    rw [seqSweep,if_neg (by omega)]

lemma exists_stop : ∃ k, Stops o N E L u k := ⟨L.toNat,.inr (by omega)⟩

def lastSweep : ℕ := Nat.find (exists_stop o N E L u)

variable {o N E L u} {k : ℕ}

lemma Running.le_lastSweep (h : Running o N E L u k) : k ≤ lastSweep o N E L u := by
  by_contra hlt
  exact h _ (Nat.lt_of_not_le hlt) (Nat.find_spec (exists_stop o N E L u))

lemma Running.eq_lastSweep (h : Running o N E L u k) (hs : Stops o N E L u k) :
    k = lastSweep o N E L u :=
  le_antisymm h.le_lastSweep (Nat.find_min' _ hs)

lemma Running.succ (h : Running o N E L u k) (hs : ¬ Stops o N E L u k) :
    Running o N E L u (k+1) := by
  intro m hm
  by_cases he : m = k
  · subst m; exact hs
  · exact h m (by omega)

lemma running_zero : Running o N E L u 0 := fun m hm => absurd hm (Nat.not_lt_zero m)

lemma seqLoop_eq (h : Running o N E L u k) :
    seqLoop o N E L (seqGrid o N u k) k =
      (seqGrid o N u (lastSweep o N E L u+1),lastSweep o N E L u+1) := by
  obtain ⟨n,hn⟩ : ∃ n, lastSweep o N E L u-k = n := ⟨_,rfl⟩
  induction n generalizing k with
  | zero =>
    have he : k = lastSweep o N E L u := by have := h.le_lastSweep; omega
    have hs : Stops o N E L u k := he ▸ Nat.find_spec (exists_stop o N E L u)
    rw [seqLoop,if_pos (by exact hs),← seqGrid_succ,he]
  | succ n ih =>
    have hs : ¬ Stops o N E L u k := fun hs => by have := h.eq_lastSweep hs; omega
    rw [seqLoop,if_neg (by exact hs),← seqGrid_succ]
    exact ih (h.succ hs) (by omega)

variable (o N E L u)

/-- The sequential algorithm stops after its last sweep. -/
theorem sequential_eq : sequential o N E L u =
    (seqGrid o N u (lastSweep o N E L u+1),lastSweep o N E L u+1) :=
  seqLoop_eq (k := 0) running_zero

end Iteration
end JacobiXv6.Jacobi
