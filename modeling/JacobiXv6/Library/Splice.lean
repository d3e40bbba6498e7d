import Mathlib.Tactic

/-! A list in which a part is replaced, or which is made longer at its end. -/
namespace JacobiXv6.Library
variable {α : Type*}

/-- The list with `src` from `off` on. -/
def splice (l : List α) (off : ℕ) (src : List α) : List α := l.take off++src++l.drop (off+src.length)

variable {l src : List α} {off k : ℕ}

lemma length_splice (h : off ≤ l.length) :
    (splice l off src).length = max l.length (off+src.length) := by
  simp only [splice,List.length_append,List.length_take,List.length_drop]
  omega

lemma getElem?_splice (h : off ≤ l.length) : (splice l off src)[k]? =
    if off ≤ k ∧ k < off+src.length then src[k-off]? else l[k]? := by
  have htake : (l.take off).length = off := List.length_take_of_le h
  rw [splice,List.append_assoc]
  by_cases hk : k < off
  · rw [List.getElem?_append_left (by omega),List.getElem?_take_of_lt hk,if_neg (by omega)]
  rw [List.getElem?_append_right (by omega),htake]
  by_cases hk' : k < off+src.length
  · rw [List.getElem?_append_left (by omega),if_pos ⟨by omega,hk'⟩]
  · rw [List.getElem?_append_right (by omega),List.getElem?_drop,if_neg (by omega)]
    congr 1
    omega

lemma splice_length (l src : List α) : splice l l.length src = l++src := by simp [splice]

end JacobiXv6.Library
