import Mathlib.Tactic

/-! Counting loops as folds: the index range of a loop and loops that keep a
running maximum. -/
namespace JacobiXv6.Library

variable {ι V : Type*}

/-- The indices visited by `for(i=lo;i<=hi;i++)`, in order. -/
def indices (lo hi : ℕ) : List ℕ := List.range' lo (hi+1-lo)

@[simp] theorem mem_indices {lo hi i : ℕ} : i ∈ indices lo hi ↔ lo ≤ i ∧ i ≤ hi := by
  simp only [indices,List.mem_range'_1]
  omega

section RunningMax
variable [LinearOrder V]

/-- `if(x>d) d=x`. -/
def keepMax (d x : V) : V := if d < x then x else d

theorem keepMax_le_iff {d x y : V} : keepMax d x ≤ y ↔ d ≤ y ∧ x ≤ y := by
  rw [keepMax,← max_def_lt,max_le_iff]

theorem foldl_keepMax_le_iff (f : ι → V) (l : List ι) (d y : V) :
    l.foldl (fun d i => keepMax d (f i)) d ≤ y ↔ d ≤ y ∧ ∀ i ∈ l, f i ≤ y := by
  induction l generalizing d with
  | nil => simp
  | cons i l ih => simp [ih,keepMax_le_iff,and_assoc]

end RunningMax

end JacobiXv6.Library
