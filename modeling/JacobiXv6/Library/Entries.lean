import Mathlib.Tactic

/-! A table of slots, each of which is empty or holds a key with a value. It is a finite map as long
as no key is held twice; a slot that has become empty may be used again. -/
namespace JacobiXv6.Library
open Function List
variable {κ ν : Type*}

abbrev Entries (κ ν : Type*) := List (Option (κ×ν))

namespace Entries

def Distinct (l : Entries κ ν) : Prop :=
  ∀ (i j : ℕ) (k : κ) (v w : ν), l[i]? = some (some (k,v)) → l[j]? = some (some (k,w)) → i = j

def lookup [DecidableEq κ] (l : Entries κ ν) (k : κ) : Option ν :=
  l.findSome? fun e => e.bind fun x => if x.1 = k then some x.2 else none

/-- Slot `i` is filled or emptied; the slot after the last one is a new one. -/
def put (l : Entries κ ν) (i : ℕ) (e : Option (κ×ν)) : Entries κ ν :=
  if i < l.length then l.set i e else l++[e]

variable {l : Entries κ ν} {i : ℕ} {k : κ} {v : ν} {e : Option (κ×ν)}

lemma getElem?_put (hi : i ≤ l.length) (j : ℕ) : (put l i e)[j]? = if j = i then some e else l[j]? := by
  unfold put
  split_ifs with hlt hji hji
  · rw [hji,getElem?_set_self hlt]
  · rw [getElem?_set_ne (Ne.symm hji)]
  · obtain rfl : i = l.length := by omega
    rw [hji,getElem?_concat_length]
  · obtain rfl : i = l.length := by omega
    by_cases hj : j < l.length
    · rw [getElem?_append_left hj]
    · rw [getElem?_eq_none (by rw [length_append,length_singleton]; omega),
        getElem?_eq_none (by omega)]

lemma getElem?_put_none (hi : i ≤ l.length) {j : ℕ} {x : κ×ν} :
    (put l i none)[j]? = some (some x) ↔ j ≠ i ∧ l[j]? = some (some x) := by
  rw [getElem?_put hi]
  split_ifs with hji
  · simp [hji]
  · simp [hji]

section
variable [DecidableEq κ]

lemma lookup_eq_none : lookup l k = none ↔ ∀ v, some (k,v) ∉ l := by
  unfold lookup
  rw [findSome?_eq_none_iff]
  constructor
  · intro h v hv
    simpa using h _ hv
  · intro h e he
    cases e with
    | none => rfl
    | some x =>
      obtain ⟨k',v⟩ := x
      refine if_neg ?_
      rintro rfl
      exact h v he

lemma lookup_of_first (hi : l[i]? = some (some (k,v)))
    (hfirst : ∀ j < i, ∀ w, l[j]? ≠ some (some (k,w))) :
    lookup l k = some v := by
  induction l generalizing i with
  | nil => simp at hi
  | cons e l ih =>
    rw [lookup,findSome?_cons]
    cases i with
    | zero =>
      obtain rfl : e = some (k,v) := by simpa using hi
      simp
    | succ i =>
      have he : (e.bind fun x => if x.1 = k then some x.2 else none) = none := by
        cases e with
        | none => rfl
        | some x =>
          refine if_neg ?_
          rintro rfl
          exact hfirst 0 (Nat.succ_pos i) x.2 rfl
      rw [he]
      refine ih (i := i) (by simpa using hi) fun j hj w hw => ?_
      exact hfirst (j+1) (Nat.succ_lt_succ hj) w (by simpa using hw)

lemma mem_of_lookup (h : lookup l k = some v) : some (k,v) ∈ l := by
  obtain ⟨e,he,hx⟩ := exists_of_findSome?_eq_some h
  cases e with
  | none => cases hx
  | some x =>
    obtain ⟨k',w⟩ := x
    by_cases hk : k' = k
    · subst hk
      have hw : w = v := by simpa using hx
      rwa [hw] at he
    · simp [hk] at hx

lemma lookup_eq_some (hl : Distinct l) : lookup l k = some v ↔ some (k,v) ∈ l := by
  refine ⟨mem_of_lookup,fun hmem => ?_⟩
  cases hfound : lookup l k with
  | none => exact absurd hmem (lookup_eq_none.mp hfound v)
  | some w =>
    obtain ⟨i,hi⟩ := mem_iff_getElem?.mp hmem
    obtain ⟨j,hj⟩ := mem_iff_getElem?.mp (mem_of_lookup hfound)
    obtain rfl := hl i j k v w hi hj
    rw [hi] at hj
    simpa using hj.symm

lemma lookup_eq_of_getElem? (hl : Distinct l) {l' : Entries κ ν} (hl' : Distinct l') {k' : κ}
    (h : ∀ w, some (k',w) ∈ l' ↔ some (k',w) ∈ l) : lookup l' k' = lookup l k' := by
  apply Option.ext
  intro w
  rw [lookup_eq_some hl',lookup_eq_some hl,h w]

end

lemma Distinct.empty (hl : Distinct l) (hi : i ≤ l.length) : Distinct (put l i none) := by
  intro a b k v w ha hb
  rw [getElem?_put_none hi] at ha hb
  exact hl a b k v w ha.2 hb.2

lemma Distinct.fill (hl : Distinct l) (hi : i ≤ l.length) (hk : ∀ w, some (k,w) ∉ l) :
    Distinct (put l i (some (k,v))) := by
  intro a b k' x y ha hb
  rw [getElem?_put hi] at ha hb
  split_ifs at ha hb with hai hbi hbi
  · rw [hai,hbi]
  · obtain ⟨rfl,rfl⟩ : k = k' ∧ v = x := by simpa using ha
    exact absurd (mem_of_getElem? hb) (hk y)
  · obtain ⟨rfl,rfl⟩ : k = k' ∧ v = y := by simpa using hb
    exact absurd (mem_of_getElem? ha) (hk x)
  · exact hl a b k' x y ha hb

section
variable [DecidableEq κ]

lemma lookup_fill (hl : Distinct l) (hi : i ≤ l.length) (hempty : ∀ e, l[i]? = some e → e = none)
    (hk : lookup l k = none) :
    lookup (put l i (some (k,v))) = update (lookup l) k (some v) := by
  have hnot := lookup_eq_none.mp hk
  have hl' := hl.fill (v := v) hi hnot
  funext k'
  obtain rfl | hne := eq_or_ne k' k
  · rw [update_self,lookup_eq_some hl']
    refine mem_of_getElem? (i := i) ?_
    rw [getElem?_put hi,if_pos rfl]
  · rw [update_of_ne hne]
    refine lookup_eq_of_getElem? hl hl' fun w => ?_
    rw [mem_iff_getElem?,mem_iff_getElem?]
    constructor
    · rintro ⟨j,hj⟩
      rw [getElem?_put hi] at hj
      split_ifs at hj with hji
      · simp [hne.symm] at hj
      · exact ⟨j,hj⟩
    · rintro ⟨j,hj⟩
      refine ⟨j,?_⟩
      rw [getElem?_put hi,if_neg,hj]
      rintro rfl
      exact absurd (hempty _ hj) (Option.some_ne_none _)

lemma lookup_empty (hl : Distinct l) (hi : l[i]? = some (some (k,v))) :
    lookup (put l i none) = update (lookup l) k none := by
  have hlt : i ≤ l.length := by
    by_contra hge
    rw [getElem?_eq_none (by omega)] at hi
    cases hi
  have hl' := hl.empty hlt
  funext k'
  obtain rfl | hne := eq_or_ne k' k
  · rw [update_self,lookup_eq_none]
    intro w hmem
    obtain ⟨j,hj⟩ := mem_iff_getElem?.mp hmem
    rw [getElem?_put_none hlt] at hj
    exact hj.1 (hl j i k' w v hj.2 hi)
  · rw [update_of_ne hne]
    refine lookup_eq_of_getElem? hl hl' fun w => ?_
    rw [mem_iff_getElem?,mem_iff_getElem?]
    constructor
    · rintro ⟨j,hj⟩
      exact ⟨j,((getElem?_put_none hlt).mp hj).2⟩
    · rintro ⟨j,hj⟩
      refine ⟨j,(getElem?_put_none hlt).mpr ⟨?_,hj⟩⟩
      rintro rfl
      rw [hi] at hj
      simp [hne.symm] at hj

end
end Entries
end JacobiXv6.Library
