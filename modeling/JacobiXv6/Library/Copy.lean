import Mathlib.Tactic

/-! Copying cells one by one, upwards or downwards, when the two ranges may overlap. -/
namespace JacobiXv6.Library
open Function

variable {A β : Type*} [AddGroupWithOne A]

/-- No two of the first `n` offsets lead to the same cell. -/
def Distinct (A : Type*) [AddGroupWithOne A] (n : ℕ) : Prop := ∀ i < n, ∀ j < n, (i : A) = j → i = j

lemma add_one_add (a : A) (i : ℕ) : a+1+(i : A) = a+((i+1 : ℕ) : A) := by
  rw [add_assoc,Nat.cast_succ,← Nat.cast_one,← Nat.cast_add,← Nat.cast_add,Nat.add_comm]

lemma Distinct.mono {n k : ℕ} (h : Distinct A n) (hk : k ≤ n) : Distinct A k :=
  fun i hi j hj => h i (hi.trans_le hk) j (hj.trans_le hk)

lemma Distinct.ne {n i j : ℕ} (h : Distinct A n) (d : A) (hi : i < n) (hj : j < n) (hne : i ≠ j) :
    d+(i : A) ≠ d+j :=
  fun he => hne (h i hi j hj (add_left_cancel he))

lemma add_cast_succ_sub_one (a : A) (n : ℕ) : a+((n+1 : ℕ) : A)-1 = a+n := by
  rw [Nat.cast_succ,← add_assoc,add_sub_cancel_right]

variable [DecidableEq A]

/-- `while(n-- > 0) *d++ = *s++` -/
def copyUp : ℕ → (A → β) → A → A → A → β
  | 0,m,_,_ => m
  | n+1,m,d,s => copyUp n (update m d (m s)) (d+1) (s+1)

/-- `while(n-- > 0) *--d = *--s` -/
def copyDown : ℕ → (A → β) → A → A → A → β
  | 0,m,_,_ => m
  | n+1,m,d,s => copyDown n (update m (d-1) (m (s-1))) (d-1) (s-1)

/-- The `n` cells from `d` on hold what those from `s` on held, and the others are as before. -/
structure Moved (m : A → β) (d s : A) (n : ℕ) (m' : A → β) : Prop where
  copied : ∀ i < n, m' (d+i) = m (s+i)
  others : ∀ a, (∀ i < n, a ≠ d+i) → m' a = m a

variable {m : A → β} {d s : A} {n : ℕ}

lemma copyUp_others (n : ℕ) (m : A → β) (d s a : A) (ha : ∀ i < n, a ≠ d+i) :
    copyUp n m d s a = m a := by
  induction n generalizing m d s with
  | zero => rfl
  | succ n ih =>
    have hfirst := ha 0 (Nat.succ_pos n)
    rw [Nat.cast_zero,add_zero] at hfirst
    rw [copyUp,ih,update_of_ne hfirst]
    intro i hi
    rw [add_one_add]
    exact ha (i+1) (Nat.succ_lt_succ hi)

/-- Upwards, the copy is right if no cell is overwritten before it is read. -/
lemma copyUp_moved (hn : Distinct A n) (h : ∀ i j, i < j → j < n → s+(j : A) ≠ d+i) :
    Moved m d s n (copyUp n m d s) := by
  refine ⟨?_,copyUp_others n m d s⟩
  induction n generalizing m d s with
  | zero => exact fun i hi => absurd hi (Nat.not_lt_zero i)
  | succ n ih =>
    intro i hi
    rw [copyUp]
    cases i with
    | zero =>
      rw [Nat.cast_zero,add_zero,add_zero,copyUp_others,update_self]
      intro j hj
      have hne := hn.ne d (Nat.succ_pos n) (Nat.succ_lt_succ hj) (Nat.succ_ne_zero j).symm
      rwa [Nat.cast_zero,add_zero,← add_one_add] at hne
    | succ i =>
      have hread := h 0 (i+1) (Nat.succ_pos i) hi
      rw [Nat.cast_zero,add_zero] at hread
      rw [← add_one_add,← add_one_add,ih (hn.mono n.le_succ) ?_ i (Nat.lt_of_succ_lt_succ hi),
        add_one_add,
        update_of_ne hread]
      intro j k hjk hk
      rw [add_one_add,add_one_add]
      exact h (j+1) (k+1) (Nat.succ_lt_succ hjk) (Nat.succ_lt_succ hk)

/-- Upwards, a cell that is not written at or after the time when it is read ends up equal to its
copy. -/
lemma copyUp_repeats (hn : Distinct A n) (h : ∀ i j, j ≤ i → i < n → s+(j : A) ≠ d+i) :
    ∀ i < n, copyUp n m d s (d+i) = copyUp n m d s (s+i) := by
  induction n generalizing m d s with
  | zero => exact fun i hi => absurd hi (Nat.not_lt_zero i)
  | succ n ih =>
    intro i hi
    rw [copyUp]
    cases i with
    | zero =>
      have hwritten := h 0 0 le_rfl (Nat.succ_pos n)
      rw [Nat.cast_zero,add_zero,add_zero] at hwritten ⊢
      rw [copyUp_others,copyUp_others,update_self,update_of_ne hwritten]
      · intro j hj
        have hlater := h (j+1) 0 (Nat.zero_le _) (Nat.succ_lt_succ hj)
        rwa [Nat.cast_zero,add_zero,← add_one_add] at hlater
      · intro j hj
        have hne := hn.ne d (Nat.succ_pos n) (Nat.succ_lt_succ hj) (Nat.succ_ne_zero j).symm
        rwa [Nat.cast_zero,add_zero,← add_one_add] at hne
    | succ i =>
      rw [← add_one_add,← add_one_add]
      refine ih (hn.mono n.le_succ) (fun j k hjk hj => ?_) i (Nat.lt_of_succ_lt_succ hi)
      rw [add_one_add,add_one_add]
      exact h (j+1) (k+1) (Nat.succ_le_succ hjk) (Nat.succ_lt_succ hj)

/-- Downwards, it is right if no cell is overwritten by one above it before it is read. -/
lemma copyDown_moved (hn : Distinct A n) (h : ∀ i j, j < i → i < n → s+(j : A) ≠ d+i) :
    Moved m d s n (copyDown n m (d+n) (s+n)) := by
  induction n generalizing m with
  | zero => exact ⟨fun i hi => absurd hi (Nat.not_lt_zero i),fun _ _ => rfl⟩
  | succ n ih =>
    rw [copyDown,add_cast_succ_sub_one,add_cast_succ_sub_one]
    obtain ⟨hcopied,hothers⟩ := ih (m := update m (d+n) (m (s+n))) (hn.mono n.le_succ)
      fun i j hji hi => h i j hji (hi.trans n.lt_succ_self)
    refine ⟨fun i hi => ?_,fun a ha => ?_⟩
    · obtain hlt | rfl := Nat.lt_succ_iff_lt_or_eq.mp hi
      · rw [hcopied i hlt,update_of_ne (h n i hlt n.lt_succ_self)]
      · rw [hothers _ fun j hj => hn.ne d i.lt_succ_self (hj.trans i.lt_succ_self) hj.ne',update_self]
    · rw [hothers a fun i hi => ha i (hi.trans n.lt_succ_self),update_of_ne (ha n n.lt_succ_self)]

end JacobiXv6.Library
