import Mathlib.Tactic

/-! Sums over finitely many places, of which a step changes one. -/
namespace JacobiXv6.Library
open Function

variable {ι M : Type*} [Fintype ι] [DecidableEq ι] [AddCommMonoid M]

lemma sum_update (f : ι → M) (i : ι) (x : M) : ∑ j, update f i x j+f i = ∑ j, f j+x := by
  rw [Finset.sum_update_of_mem (Finset.mem_univ i),
    ← Finset.add_sum_erase Finset.univ f (Finset.mem_univ i),
    Finset.sdiff_singleton_eq_erase]
  abel

lemma sum_update_comp {α : Type*} (g : ι → α → M) (f : ι → α) (i : ι) (x : α) :
    ∑ j, g j (update f i x j)+g i (f i) = ∑ j, g j (f j)+g i x := by
  have hcomp : (fun j => g j (update f i x j)) =
      update (fun j => g j (f j)) i (g i x) := by
    ext1 j
    obtain rfl | hj := eq_or_ne j i
    · rw [update_self,update_self]
    · rw [update_of_ne hj,update_of_ne hj]
  rw [hcomp]
  exact sum_update (fun j => g j (f j)) i (g i x)

end JacobiXv6.Library
