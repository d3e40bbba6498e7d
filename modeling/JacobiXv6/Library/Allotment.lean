import Mathlib.Tactic

/-! Places that hold the numbers of blocks, and marks for the blocks that are taken. A place that
holds 0 is empty. -/
namespace JacobiXv6.Library
open Function

/-- The places refer to blocks of `D` only, no two of them to the same, and the blocks of `D` that
are taken are those that some place refers to. -/
structure Allotted {ι : Type*} (D : ℕ → Prop) (ref : ι → ℕ) (taken : ℕ → Prop) : Prop where
  zero : ¬ D 0
  inside : ∀ p, ref p ≠ 0 → D (ref p)
  once : ∀ p q, ref p ≠ 0 → ref p = ref q → p = q
  taken_iff : ∀ b, D b → (taken b ↔ ∃ p, ref p = b)

namespace Allotted
variable {ι : Type*} {D : ℕ → Prop} {ref : ι → ℕ} {taken taken' : ℕ → Prop} {p : ι} {b : ℕ}

lemma congr (h : Allotted D ref taken) (htaken : ∀ b, D b → (taken' b ↔ taken b)) :
    Allotted D ref taken' :=
  ⟨h.zero,h.inside,h.once,fun b hb => (htaken b hb).trans (h.taken_iff b hb)⟩

lemma taken_ref (h : Allotted D ref taken) (hp : ref p ≠ 0) : taken (ref p) :=
  (h.taken_iff _ (h.inside p hp)).mpr ⟨p,rfl⟩

lemma ref_ne (h : Allotted D ref taken) (hb : D b) (hfree : ¬ taken b) (q : ι) : ref q ≠ b :=
  fun hq => hfree ((h.taken_iff b hb).mpr ⟨q,hq⟩)

variable [DecidableEq ι]

lemma take (h : Allotted D ref taken) (hp : ref p = 0) (hb : D b) (hfree : ¬ taken b) :
    Allotted D (update ref p b) fun c => c = b ∨ taken c := by
  have hne := h.ref_ne hb hfree
  refine ⟨h.zero,fun q hq => ?_,fun q r hq hqr => ?_,fun c hc => ?_⟩
  · obtain rfl | hqp := eq_or_ne q p
    · rwa [update_self]
    · rw [update_of_ne hqp] at hq ⊢
      exact h.inside q hq
  · by_cases hqp : q = p <;> by_cases hrp : r = p
    · exact hqp.trans hrp.symm
    · rw [hqp,update_self,update_of_ne hrp] at hqr
      exact absurd hqr.symm (hne r)
    · rw [hrp,update_self,update_of_ne hqp] at hqr
      exact absurd hqr (hne q)
    · rw [update_of_ne hqp] at hq
      rw [update_of_ne hqp,update_of_ne hrp] at hqr
      exact h.once q r hq hqr
  constructor
  · rintro (rfl | htaken)
    · exact ⟨p,update_self ..⟩
    · obtain ⟨q,rfl⟩ := (h.taken_iff c hc).mp htaken
      have hqp : q ≠ p := by
        rintro rfl
        exact h.zero (hp ▸ hc)
      exact ⟨q,update_of_ne hqp ..⟩
  · rintro ⟨q,hq⟩
    obtain rfl | hqp := eq_or_ne q p
    · exact .inl (hq.symm.trans (update_self ..))
    · exact .inr ((h.taken_iff c hc).mpr ⟨q,(update_of_ne hqp ..).symm.trans hq⟩)

end Allotted
end JacobiXv6.Library
