import JacobiXv6.FileSystem.Layout
import JacobiXv6.Library.Allotment

/-! The block numbers in all the inodes of a table, and how they change with an inode or with a
block. -/
namespace JacobiXv6.FileSystem
open Library Function

variable {disk : ℕ → Sector} {T : ℕ → Dinode} {i k : ℕ} {a : BitVec 32} {b : Sector} {d : Dinode}

namespace Dinode

lemma ref_zero (p : Place) : zero.ref disk p = 0 := by cases p <;> rfl

lemma ref_congr {disk' : ℕ → Sector}
    (h : d.indirect ≠ 0 → disk' d.indirect.toNat = disk d.indirect.toNat)
    (p : Place) : d.ref disk' p = d.ref disk p := by
  cases p with
  | direct i => rfl
  | indirect => rfl
  | entry j =>
    by_cases hzero : d.indirect = 0
    · simp [ref,hzero]
    · simp [ref,h hzero]

lemma block_congr {disk' : ℕ → Sector} {d' : Dinode} (h : ∀ p, d'.ref disk' p = d.ref disk p) (k : ℕ) :
    d'.block disk' k = d.block disk k := by
  unfold block
  cases Place.ofIndex k with
  | none => rfl
  | some p => exact h p

end Dinode

lemma Place.ofIndex_of_lt (h : k < NDIRECT) : ofIndex k = some (.direct ⟨k,h⟩) := dif_pos h

lemma Place.ofIndex_of_le (h : NDIRECT ≤ k) (hk : k-NDIRECT < NINDIRECT) :
    ofIndex k = some (.entry ⟨k-NDIRECT,hk⟩) := by
  rw [ofIndex,dif_neg (Nat.not_lt.mpr h),dif_pos hk]

lemma Place.ofIndex_inj {l : ℕ} {p : Place} (hk : ofIndex k = some p)
    (hl : ofIndex l = some p) : k = l := by
  unfold ofIndex at hk hl
  split_ifs at hk hl <;> cases hk <;> simp at hl <;> omega

lemma Place.ofIndex_ne_indirect (k : ℕ) : ofIndex k ≠ some .indirect := by
  unfold ofIndex
  split_ifs <;> simp

def refs (disk : ℕ → Sector) (T : ℕ → Dinode) (q : ℕ×Place) : ℕ := (T q.1).ref disk q.2

lemma block_eq_ref {p : Place} (hk : Place.ofIndex k = some p) :
    (T i).block disk k = refs disk T (i,p) := by
  rw [Dinode.block,hk]
  rfl

lemma block_congr_ref {disk' : ℕ → Sector} {T' : ℕ → Dinode}
    (h : ∀ p, Place.ofIndex k = some p → refs disk' T' (i,p) = refs disk T (i,p)) :
    (T' i).block disk' k = (T i).block disk k := by
  cases hk : Place.ofIndex k with
  | none => simp [Dinode.block,hk]
  | some p => rw [block_eq_ref hk,block_eq_ref hk,h p hk]

lemma refs_update_of_ref_eq (h : ∀ p, d.ref disk p = (T i).ref disk p) :
    refs disk (update T i d) = refs disk T := by
  funext q
  obtain ⟨j,p⟩ := q
  obtain rfl | hj := eq_or_ne j i
  · simp [refs,h]
  · simp [refs,update_of_ne hj]

lemma refs_update_disk {x : ℕ} (h : ∀ j, (T j).indirect ≠ 0 → (T j).indirect.toNat ≠ x) :
    refs (update disk x b) T = refs disk T := by
  funext q
  obtain ⟨j,p⟩ := q
  exact (T j).ref_congr (fun hzero => update_of_ne (h j hzero) ..) p

lemma refs_direct (l : Fin NDIRECT) :
    refs disk (update T i { T i with direct := update (T i).direct l a }) =
      update (refs disk T) (i,.direct l) a.toNat := by
  funext q
  obtain ⟨j,p⟩ := q
  by_cases hj : j = i
  · subst hj
    cases p with
    | direct m =>
      obtain rfl | hm := eq_or_ne m l
      · simp [refs,Dinode.ref]
      · simp [refs,Dinode.ref,hm]
    | indirect | entry m => simp [refs,Dinode.ref]
  · simp [refs,hj]

lemma refs_indirect (h : (T i).indirect = 0) (hempty : ∀ j, word (disk a.toNat) j = 0) :
    refs disk (update T i { T i with indirect := a }) =
      update (refs disk T) (i,.indirect) a.toNat := by
  funext q
  obtain ⟨j,p⟩ := q
  by_cases hj : j = i
  · subst hj
    cases p with
    | direct m | indirect => simp [refs,Dinode.ref]
    | entry m => simp [refs,Dinode.ref,h,hempty]
  · simp [refs,hj]

lemma refs_entry (h : (T i).indirect ≠ 0) (hother : ∀ j, j ≠ i → (T j).indirect ≠ (T i).indirect)
    (l : Fin NINDIRECT) :
    refs (update disk (T i).indirect.toNat (setWord (disk (T i).indirect.toNat) l a)) T =
      update (refs disk T) (i,.entry l) a.toNat := by
  funext q
  obtain ⟨j,p⟩ := q
  by_cases hj : j = i
  · subst hj
    cases p with
    | direct m | indirect => simp [refs,Dinode.ref]
    | entry m =>
      simp only [refs,Dinode.ref,if_neg h,update_self]
      obtain rfl | hm := eq_or_ne m l
      · rw [word_setWord,update_self]
      · rw [word_setWord_of_ne (Fin.val_ne_of_ne hm),update_of_ne (by simp [hm]),refs,Dinode.ref,
          if_neg h]
  · have hne : (T j).indirect.toNat ≠ (T i).indirect.toNat :=
      fun heq => hother j hj (BitVec.eq_of_toNat_eq heq)
    rw [update_of_ne (by simp [hj])]
    exact (T j).ref_congr (fun _ => update_of_ne hne ..) p

end JacobiXv6.FileSystem
