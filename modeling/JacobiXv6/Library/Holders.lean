import Mathlib.Tactic

/-! Processes that hold something: a lock has at most one holder, a counter counts its
holders. Who holds it is a Boolean of the process, and a step changes it at one place. -/
namespace JacobiXv6.Library
open Function Finset

variable {ι : Type*} {held held' : ι → Bool} {o : Option ι} {p q : ι} {b : Bool}

/-! ### Locks -/

/-- The lock whose owner is `o` is held by exactly the processes that `held` marks. -/
def Owns (held : ι → Bool) (o : Option ι) : Prop := ∀ q, held q = true ↔ o = some q

namespace Owns

lemma eq_some (h : Owns held o) (hp : held p = true) : o = some p := (h p).mp hp

lemma eq_false (h : Owns held none) (p : ι) : held p = false := by
  rw [Bool.eq_false_iff]
  intro hp
  exact nomatch h.eq_some hp

lemma unique (h : Owns held o) (hp : held p = true) (hq : held q = true) : p = q :=
  Option.some.inj ((h.eq_some hp).symm.trans (h.eq_some hq))

lemma isSome_iff (h : Owns held o) : o.isSome = true ↔ ∃ p, held p = true := by
  rw [Option.isSome_iff_exists]
  exact exists_congr fun p => (h p).symm

variable [DecidableEq ι]

lemma keep (h : Owns held o) (hb : b = held p) : Owns (update held p b) o := by
  rwa [hb,update_eq_self]

lemma acquire (h : Owns held none) : Owns (update held p true) (some p) := by
  intro q
  obtain rfl | hne := eq_or_ne q p
  · simp
  · simp [hne,hne.symm,h.eq_false q]

lemma release (h : Owns held o) (hp : held p = true) :
    Owns (update held p false) none := by
  intro q
  obtain rfl | hne := eq_or_ne q p
  · simp
  · have hq : held q ≠ true := fun hq => hne (h.unique hq hp)
    simpa [hne] using hq

end Owns

/-! ### Counters -/

variable [Fintype ι]

def total (held : ι → Bool) (f : ι → ℤ) : ℤ := ∑ q, if held q then f q else 0

lemma total_nonneg {f : ι → ℤ} (hf : ∀ q, held q = true → 0 ≤ f q) : 0 ≤ total held f := by
  apply sum_nonneg
  intro q _
  split_ifs with hq
  exacts [hf q hq,le_rfl]

lemma total_eq_zero (f : ι → ℤ) (h : ∀ q, held q = false) : total held f = 0 := by
  simp [total,h]

lemma total_le_total {f g : ι → ℤ} (h : ∀ q, f q ≤ g q) : total held f ≤ total held g := by
  apply sum_le_sum
  intro q _
  split_ifs
  exacts [h q,le_rfl]

lemma total_const (k : ℤ) : total held (fun _ => k) = total held (fun _ => 1)*k := by
  simp only [total,sum_mul,ite_mul,one_mul,zero_mul]

lemma holders_eq_zero_iff : total held (fun _ => 1) = 0 ↔ ∀ q, held q = false := by
  rw [total,sum_eq_zero_iff_of_nonneg]
  · simp
  · intro q _
    split_ifs <;> decide

variable [DecidableEq ι]

lemma total_update (held : ι → Bool) (f : ι → ℤ) (p : ι) (b : Bool) (y : ℤ) :
    total (update held p b) (update f p y) =
      total held f-(if held p then f p else 0)+(if b then y else 0) := by
  have hcomp : (fun q => if update held p b q then update f p y q else 0) =
      update (fun q => if held q then f q else 0) p (if b then y else 0) := by
    ext q
    obtain rfl | hne := eq_or_ne q p
    · simp
    · simp [hne]
  rw [total,hcomp,sum_update_of_mem (mem_univ p),total,
    ← add_sum_erase Finset.univ _ (mem_univ p),sdiff_singleton_eq_erase]
  ring

lemma total_update_self (held : ι → Bool) (f : ι → ℤ) (p : ι) (b : Bool) :
    total (update held p b) f =
      total held f-(if held p then f p else 0)+(if b then f p else 0) := by
  simpa using total_update held f p b (f p)

end JacobiXv6.Library
