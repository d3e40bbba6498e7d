import Mathlib.Tactic

/-! Ring buffers that have two indices and no count. A push never fails: it overwrites the
oldest element when there is no room, and one more than `n-1` unread elements make the
ring look empty. What the reader gets is nevertheless a subsequence of what was pushed,
since the number of whole turns by which the writer is ahead never decreases. -/
namespace JacobiXv6.Library

open Function List

/-- The cells and the two indices; the number of cells is a parameter of the operations. -/
structure RingBuffer (α : Type*) where
  data : ℕ → α
  head : ℕ
  tail : ℕ

namespace RingBuffer
variable {α : Type*} (n : ℕ)

def push (r : RingBuffer α) (a : α) : RingBuffer α :=
  { r with data := update r.data r.tail a, tail := (r.tail+1)%n }

def front (r : RingBuffer α) : α := r.data r.head

def pop (r : RingBuffer α) : RingBuffer α := { r with head := (r.head+1)%n }

def reset (r : RingBuffer α) : RingBuffer α := { r with head := 0, tail := 0 }

def contents (r : RingBuffer α) : List α :=
  (List.range ((r.tail+n-r.head)%n)).map fun i => r.data ((r.head+i)%n)

def map {β : Type*} (f : α → β) (r : RingBuffer α) : RingBuffer β := ⟨f ∘ r.data,r.head,r.tail⟩

/-- A push that does not make the ring look empty. -/
def Room (r : RingBuffer α) : Prop := (r.tail+1)%n ≠ r.head

instance (r : RingBuffer α) : Decidable (r.Room n) := inferInstanceAs (Decidable (_ ≠ _))

/-- The ring after the elements of `sent` were pushed and those of `got` popped, each
when the indices were different. The elements popped so far come from before the turn in
which the writer now is. -/
structure Follows (r : RingBuffer α) (sent got : List α) : Prop where
  head : r.head = got.length%n
  tail : r.tail = sent.length%n
  le : got.length ≤ sent.length
  cells : ∀ i (hi : i < sent.length), sent.length ≤ i+n → r.data (i%n) = sent[i]
  sub : got.Sublist (sent.take (got.length+n*((sent.length-got.length)/n)))

variable {n} {r : RingBuffer α} {sent got : List α} {a : α} {β : Type*}

@[simp] lemma map_head (f : α → β) : (r.map f).head = r.head := rfl

@[simp] lemma map_tail (f : α → β) : (r.map f).tail = r.tail := rfl

lemma map_push (f : α → β) : (r.push n a).map f = (r.map f).push n (f a) := by
  simp [map,push,comp_update]

lemma mod_ne_mod {i j : ℕ} (hij : i < j) (hj : j < i+n) : i%n ≠ j%n := by
  intro h
  have hz := Nat.sub_mod_eq_zero_of_mod_eq h.symm
  rw [Nat.mod_eq_of_lt (by omega)] at hz
  omega

namespace Follows

lemma reset (r : RingBuffer α) : Follows n r.reset [] [] where
  head := by simp [RingBuffer.reset]
  tail := by simp [RingBuffer.reset]
  le := le_rfl
  cells := fun _ hi => absurd hi (by simp)
  sub := nil_sublist _

lemma push (h : Follows n r sent got) : Follows n (r.push n a) (sent++[a]) got where
  head := h.head
  tail := by simp [RingBuffer.push,h.tail]
  le := by simpa using h.le.trans (Nat.le_succ _)
  cells := by
    intro i hi hn
    rw [length_append,length_singleton] at hi hn
    simp only [RingBuffer.push,h.tail]
    obtain hlt | rfl := Nat.lt_succ_iff_lt_or_eq.mp hi
    · rw [update_of_ne (mod_ne_mod hlt (by omega)),h.cells i hlt (by omega),
        getElem_append_left hlt]
    · simp
  sub := by
    have hmono : got.length+n*((sent.length-got.length)/n) ≤
        got.length+n*(((sent++[a]).length-got.length)/n) := by
      gcongr
      simp
    exact h.sub.trans (((prefix_append sent [a]).take _).sublist.trans
      (take_sublist_take_left hmono))

lemma front_eq (h : Follows n r sent got) (hn : 0 < n) (hne : r.head ≠ r.tail) :
    ∃ hi : got.length+n*((sent.length-got.length)/n) < sent.length,
      r.front = sent[got.length+n*((sent.length-got.length)/n)] ∧
      (sent.length-(got.length+1))/n = (sent.length-got.length)/n := by
  have hle := h.le
  have hdiv := Nat.div_add_mod (sent.length-got.length) n
  have hlt := Nat.mod_lt (sent.length-got.length) hn
  have hmod : (sent.length-got.length)%n ≠ 0 := by
    intro hz
    apply hne
    rw [h.head,h.tail]
    have hlen : sent.length = got.length+n*((sent.length-got.length)/n) := by omega
    rw [hlen,Nat.add_mul_mod_self_left]
  have hi : got.length+n*((sent.length-got.length)/n) < sent.length := by omega
  refine ⟨hi,?_,?_⟩
  · rw [← h.cells _ hi (by omega),Nat.add_mul_mod_self_left,← h.head,front]
  · rw [Nat.div_eq_iff hn]
    rw [Nat.mul_comm] at hdiv
    omega

lemma pop (h : Follows n r sent got) (hn : 0 < n) (hne : r.head ≠ r.tail) :
    Follows n (r.pop n) sent (got++[r.front]) := by
  obtain ⟨hi,hfront,hdiv⟩ := h.front_eq hn hne
  refine ⟨by simp [RingBuffer.pop,h.head],h.tail,?_,h.cells,?_⟩
  · rw [length_append,length_singleton]
    omega
  · have hnext : got.length+1+n*((sent.length-(got.length+1))/n) =
        got.length+n*((sent.length-got.length)/n)+1 := by
      rw [hdiv]
      omega
    rw [length_append,length_singleton,hnext,take_add_one,
      getElem?_eq_getElem hi,Option.toList_some,hfront]
    exact h.sub.append_right _

/-- The reader gets a subsequence of what was pushed. -/
theorem sublist (h : Follows n r sent got) : got.Sublist sent :=
  h.sub.trans (take_sublist _ _)

section

variable (h : Follows n r sent got) (hlt : sent.length < got.length+n)
include h hlt

lemma contents_eq :
    r.contents n = sent.drop got.length := by
  have hle := h.le
  have hcount : (r.tail+n-r.head)%n = sent.length-got.length := by
    have hsum : sent.length%n = (got.length%n+(sent.length-got.length))%n := by
      rw [Nat.mod_add_mod,Nat.add_sub_cancel' hle]
    rw [h.head,h.tail,hsum]
    rcases lt_or_ge (got.length%n+(sent.length-got.length)) n with hin | hout
    · rw [Nat.mod_eq_of_lt hin,Nat.add_assoc,Nat.add_sub_cancel_left,Nat.add_mod_right]
      exact Nat.mod_eq_of_lt (by omega)
    · have hhead := Nat.mod_lt got.length (show 0 < n by omega)
      have hin : got.length%n+(sent.length-got.length)-n < n := by omega
      have hcancel : got.length%n+(sent.length-got.length)-n+n-got.length%n =
          sent.length-got.length := by omega
      rw [Nat.mod_eq_sub_mod hout,Nat.mod_eq_of_lt hin,hcancel]
      exact Nat.mod_eq_of_lt (by omega)
  apply ext_getElem
  · simp [contents,hcount]
  · intro i h1 h2
    rw [length_drop] at h2
    have hcell := h.cells (got.length+i) (by omega) (by omega)
    simp only [contents,getElem_map,getElem_range,getElem_drop,h.head,
      Nat.mod_add_mod,hcell]

lemma room_iff :
    r.Room n ↔ sent.length+1 < got.length+n := by
  have hle := h.le
  rw [Room,h.head,h.tail,Nat.mod_add_mod]
  constructor
  · intro hne
    by_contra hge
    have hturn : sent.length+1 = got.length+n := by omega
    rw [hturn,Nat.add_mod_right] at hne
    exact hne rfl
  · intro hroom
    exact (mod_ne_mod (by omega) hroom).symm

lemma contents_push_iff :
    (r.push n a).contents n = r.contents n++[a] ↔ r.Room n := by
  constructor
  · intro hc hfull
    have hempty : (r.push n a).contents n = [] := by
      simp [contents,RingBuffer.push,hfull]
    simp [hempty] at hc
  · intro hroom
    have hlen := (h.room_iff hlt).mp hroom
    rw [h.contents_eq hlt,h.push.contents_eq (by simpa using hlen),
      drop_append_of_le_length h.le]

end

end Follows
end RingBuffer
end JacobiXv6.Library
