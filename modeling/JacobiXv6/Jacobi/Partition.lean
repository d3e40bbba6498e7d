import JacobiXv6.Library.Loops
import Mathlib.Data.Int.CardIntervalMod

/-! The row partition of `main`: work is dealt out round robin and turned into
consecutive intervals by a running sum. -/
namespace JacobiXv6.Jacobi
open Library Finset
open scoped BigOperators

/-- `for(i=0;i<n;i++) works[i%P]++` on a cleared array. -/
def deal (P n : ℕ) : ℕ → ℕ :=
  (List.range n).foldl (fun works i => Function.update works (i%P) (works (i%P)+1)) fun _ => 0

def works (N P : ℕ) : ℕ → ℕ := deal P (N-2)

def endIndex (N P : ℕ) : ℕ → ℕ
  | 0 => works N P 0
  | i+1 => (endIndex N P i+1)+works N P (i+1)-1

def startIndex (N P : ℕ) : ℕ → ℕ
  | 0 => 1
  | i+1 => endIndex N P i+1

/-- The number of children beyond the first that get an empty interval. -/
def unused (N P : ℕ) : ℕ :=
  (indices 1 (P-1)).foldl
    (fun n i => if endIndex N P i < startIndex N P i then n+1 else n) 0

lemma deal_succ (P n i : ℕ) :
    deal P (n+1) i = deal P n i+if n%P = i then 1 else 0 := by
  simp only [deal,List.range_succ,List.foldl_append,List.foldl_cons,List.foldl_nil]
  by_cases h : n%P = i
  · subst h; simp
  · simp [h,Function.update_of_ne (Ne.symm h)]

/-- Each child is dealt the rows whose number is its own modulo `P`. -/
lemma deal_eq_count (P n i : ℕ) : deal P n i = n.count (fun k => k%P = i) := by
  induction n with
  | zero => simp [deal]
  | succ n ih => rw [deal_succ,ih,Nat.count_succ]

variable {P : ℕ}

lemma sum_deal (hP : 0 < P) (n : ℕ) : ∑ i ∈ Finset.range P, deal P n i = n := by
  induction n with
  | zero => simp [deal]
  | succ n ih =>
    simp only [deal_succ,sum_add_distrib,ih,sum_ite_eq,mem_range,
      Nat.mod_lt n hP,if_true]

variable {i : ℕ}

lemma deal_pos_iff {n : ℕ} (hi : i < P) : 0 < deal P n i ↔ i < n := by
  rw [deal_eq_count,Nat.count_eq_card_filter_range,card_pos]
  constructor
  · rintro ⟨k,hk⟩
    obtain ⟨hn,he⟩ := mem_filter.mp hk
    have hle := Nat.mod_le k P
    have := mem_range.mp hn
    omega
  · intro h
    exact ⟨i,by simp [h,Nat.mod_eq_of_lt hi]⟩

variable {N : ℕ}

lemma works_pos_iff (hi : i < P) : 0 < works N P i ↔ i < N-2 := deal_pos_iff hi

lemma endIndex_eq_sum (N P i : ℕ) : endIndex N P i = ∑ j ∈ Finset.range (i+1), works N P j := by
  induction i with
  | zero => simp [endIndex]
  | succ i ih => rw [sum_range_succ,← ih,endIndex]; omega

@[simp] lemma startIndex_succ (N P i : ℕ) : startIndex N P (i+1) = endIndex N P i+1 := rfl

lemma startIndex_pos (N P i : ℕ) : 1 ≤ startIndex N P i := by
  cases i <;> simp [startIndex]

lemma endIndex_add_one (N P i : ℕ) : endIndex N P i+1 = startIndex N P i+works N P i := by
  cases i with
  | zero => simp [endIndex,startIndex,Nat.add_comm]
  | succ i => simp only [endIndex,startIndex]; omega

lemma interval_nonempty_iff (hi : i < P) :
    startIndex N P i ≤ endIndex N P i ↔ i < N-2 := by
  rw [← works_pos_iff hi]
  have := endIndex_add_one N P i
  omega

lemma foldl_count (p : ℕ → Prop) [DecidablePred p] (l : List ℕ) (n : ℕ) :
    l.foldl (fun n i => if p i then n+1 else n) n = n+l.countP (fun i => p i) := by
  induction l generalizing n with
  | nil => simp
  | cons i l ih =>
    rw [List.foldl_cons,ih,List.countP_cons]
    by_cases h : p i <;> simp [h]; omega

/-- The children dropped by `P -= unused` are the ones without a row. -/
theorem unused_eq (hN : 3 ≤ N) : unused N P = P-(N-2) := by
  have hc : ∀ m, m ≤ P-1 → (List.range' 1 m).countP
      (fun i => decide (endIndex N P i < startIndex N P i)) = m+1-(N-2) := by
    intro m hm
    induction m with
    | zero => simp; omega
    | succ m ih =>
      rw [List.range'_concat,List.countP_append,ih (by omega)]
      have hi := interval_nonempty_iff (N := N) (P := P) (i := 1+m) (by omega)
      by_cases h : 1+m < N-2
      · have := hi.mpr h
        simp only [one_mul,List.countP_singleton,decide_eq_true_eq]
        rw [if_neg (by omega)]
        omega
      · have : endIndex N P (1+m) < startIndex N P (1+m) := by
          by_contra hge
          exact h (hi.mp (by omega))
        simp only [one_mul,List.countP_singleton,decide_eq_true_eq]
        rw [if_pos this]
        omega
  rw [unused,foldl_count,indices,hc _ (by omega)]
  omega

/-- The number of children `main` forks. -/
def procs (N P : ℕ) : ℕ := P-unused N P

lemma procs_eq (hN : 3 ≤ N) : procs N P = min P (N-2) := by
  rw [procs,unused_eq hN]
  omega

lemma procs_pos (hN : 3 ≤ N) (hP : 1 ≤ P) : 0 < procs N P := by
  rw [procs_eq hN]
  omega

lemma start_le_end (hN : 3 ≤ N) (hi : i < procs N P) :
    startIndex N P i ≤ endIndex N P i := by
  rw [procs_eq hN] at hi
  exact (interval_nonempty_iff (by omega)).mpr (by omega)

/-- The last forked child ends at the last interior row. -/
theorem endIndex_last (hN : 3 ≤ N) (hP : 1 ≤ P) :
    endIndex N P (procs N P-1) = N-2 := by
  have hp := procs_eq (P := P) hN
  have hsub : Finset.range (procs N P-1+1) ⊆ Finset.range P := by
    intro i hi
    simp only [mem_range] at hi ⊢
    omega
  rw [endIndex_eq_sum]
  calc ∑ j ∈ Finset.range (procs N P-1+1), works N P j
      = ∑ j ∈ Finset.range P, works N P j := by
        refine sum_subset hsub fun j hj hn => ?_
        simp only [mem_range] at hj hn
        have := mt (works_pos_iff (N := N) hj).mp (by omega)
        omega
    _ = N-2 := sum_deal hP (N-2)

lemma endIndex_mono (N P : ℕ) : Monotone (endIndex N P) := by
  refine monotone_nat_of_le_succ fun i => ?_
  rw [endIndex]
  omega

lemma endIndex_le (hN : 3 ≤ N) (hP : 1 ≤ P) (hi : i < procs N P) :
    endIndex N P i ≤ N-2 := by
  rw [← endIndex_last hN hP]
  exact endIndex_mono N P (by omega)

/-- Every interior row belongs to some child. -/
theorem row_owner {a : ℕ} (hN : 3 ≤ N) (hP : 1 ≤ P) (ha : 1 ≤ a) (haN : a ≤ N-2) :
    ∃ i < procs N P, startIndex N P i ≤ a ∧ a ≤ endIndex N P i := by
  have hex : ∃ i, a ≤ endIndex N P i := ⟨procs N P-1,by rw [endIndex_last hN hP]; exact haN⟩
  have hp := procs_pos hN hP
  refine ⟨Nat.find hex,?_,?_,Nat.find_spec hex⟩
  · have := Nat.find_min' hex (m := procs N P-1) (by rw [endIndex_last hN hP]; exact haN)
    omega
  · cases hf : Nat.find hex with
    | zero => simpa [startIndex] using ha
    | succ i =>
      have := Nat.find_min hex (m := i) (by omega)
      simp only [startIndex_succ]
      omega

/-! ## The intervals of the children -/

/-- The rows from `start_indices[i]` to `end_indices[i]`. -/
def block (N P i : ℕ) : Finset ℕ := Finset.Icc (startIndex N P i) (endIndex N P i)

lemma card_block (N P i : ℕ) : (block N P i).card = works N P i := by
  rw [block,Nat.card_Icc,endIndex_add_one,Nat.add_sub_cancel_left]

lemma works_eq (hi : i < P) :
    works N P i = (N-2)/P+if i < (N-2)%P then 1 else 0 := by
  have hmod : (fun k => k%P = i) = fun k => k ≡ i [MOD P] := by
    funext k
    rw [Nat.ModEq,Nat.mod_eq_of_lt hi]
  rw [works,deal_eq_count]
  simp only [hmod]
  rw [Nat.count_modEq_card _ (Nat.zero_lt_of_lt hi),Nat.mod_eq_of_lt hi]

lemma works_le_succ {j : ℕ} (hi : i < P) (hj : j < P) : works N P i ≤ works N P j+1 := by
  rw [works_eq hi,works_eq hj]
  split_ifs <;> omega

lemma endIndex_lt_startIndex {j : ℕ} (h : i < j) : endIndex N P i < startIndex N P j := by
  cases j with
  | zero => omega
  | succ j =>
    rw [startIndex_succ]
    exact Nat.lt_succ_of_le (endIndex_mono N P (by omega))

lemma block_disjoint {j : ℕ} (h : i ≠ j) : Disjoint (block N P i) (block N P j) := by
  rw [disjoint_left]
  intro a hi hj
  simp only [block,mem_Icc] at hi hj
  rcases Nat.lt_or_gt_of_ne h with hlt | hlt
  · have := endIndex_lt_startIndex (N := N) (P := P) hlt
    omega
  · have := endIndex_lt_startIndex (N := N) (P := P) hlt
    omega

lemma biUnion_block (hN : 3 ≤ N) (hP : 1 ≤ P) :
    (Finset.range (procs N P)).biUnion (block N P) = Finset.Icc 1 (N-2) := by
  ext a
  simp only [mem_biUnion,mem_range,block,mem_Icc]
  constructor
  · rintro ⟨i,hi,hs,he⟩
    exact ⟨(startIndex_pos N P i).trans hs,he.trans (endIndex_le hN hP hi)⟩
  · rintro ⟨ha,haN⟩
    exact row_owner hN hP ha haN

/-- **Row partition.** The children that are kept have consecutive blocks that are not empty,
do not meet and make up the interior; two of them differ by at most one row. Dropped are as
many children as there are too many, and they are the ones without a row. -/
theorem row_partition (N P : ℕ) (hN : 3 ≤ N) (hP : 1 ≤ P) :
    (∀ i < P-unused N P, startIndex N P i ≤ endIndex N P i) ∧
      startIndex N P 0 = 1 ∧
      (∀ i, i+1 < P-unused N P → startIndex N P (i+1) = endIndex N P i+1) ∧
      (Set.univ : Set ℕ).PairwiseDisjoint (block N P) ∧
      (Finset.range (P-unused N P)).biUnion (block N P) = Finset.Icc 1 (N-2) ∧
      (∀ i < P-unused N P, ∀ j < P-unused N P, (block N P i).card ≤ (block N P j).card+1) ∧
      (unused N P : ℤ) = max 0 ((P : ℤ)-((N : ℤ)-2)) ∧
      ∀ i < P, P-unused N P ≤ i ↔ endIndex N P i < startIndex N P i := by
  have hunused := unused_eq (P := P) hN
  refine ⟨fun i hi => start_le_end hN hi,rfl,fun i _ => rfl,fun i _ j _ h => block_disjoint h,
    biUnion_block hN hP,?_,?_,?_⟩
  · intro i hi j hj
    rw [card_block,card_block]
    exact works_le_succ (by omega) (by omega)
  · omega
  · intro i hi
    have hne := interval_nonempty_iff (N := N) hi
    omega

theorem row_partition_uneven : unused 7 3 = 0 ∧ block 7 3 0 = {1,2} ∧
    (∀ i < 3-unused 7 3, startIndex 7 3 i ≤ endIndex 7 3 i) :=
  ⟨by decide,by decide,(row_partition 7 3 (by decide) (by decide)).1⟩

end JacobiXv6.Jacobi
