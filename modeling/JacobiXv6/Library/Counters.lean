import JacobiXv6.Library.Ring

/-! Ring buffers with two counters of machine words that are never reduced: a cell is found
by the counter modulo the number of cells, and the counters themselves wrap around. When
the number of cells divides the number of machine words, the wrap cannot be seen. -/
namespace JacobiXv6.Library

variable {α : Type*} {w N : ℕ} {data : ℕ → α} {nread nwrite : BitVec w} {sent : List α}
  {taken : ℕ}

/-- The ring of `N` cells after `sent` was put into it and the first `taken` elements were
taken out. -/
structure Counted (N : ℕ) (data : ℕ → α) (nread nwrite : BitVec w) (sent : List α)
    (taken : ℕ) : Prop where
  nread : nread = BitVec.ofNat w taken
  nwrite : nwrite = BitVec.ofNat w sent.length
  le : taken ≤ sent.length
  room : sent.length ≤ taken+N
  cells : ∀ i (hi : i < sent.length), taken ≤ i → data (i%N) = sent[i]

namespace Counted

lemma empty (N : ℕ) (data : ℕ → α) : Counted N data (0 : BitVec w) 0 [] 0 where
  nread := rfl
  nwrite := rfl
  le := le_rfl
  room := Nat.zero_le _
  cells := fun _ hi => absurd hi (by simp)

lemma ofNat_inj {m n : ℕ} (hmn : m ≤ n) (hn : n < m+2^w) :
    BitVec.ofNat w m = BitVec.ofNat w n ↔ m = n := by
  constructor
  · intro h
    by_contra hne
    apply RingBuffer.mod_ne_mod (show m < n by omega) hn
    simpa using congrArg BitVec.toNat h
  · exact congrArg _

lemma isEmpty_iff (h : Counted N data nread nwrite sent taken) (hN : N < 2^w) :
    nread = nwrite ↔ taken = sent.length := by
  rw [h.nread,h.nwrite]
  exact ofNat_inj h.le (h.room.trans_lt (by omega))

lemma isFull_iff (h : Counted N data nread nwrite sent taken) (hN : N < 2^w) :
    nwrite = nread+BitVec.ofNat w N ↔ sent.length = taken+N := by
  have hle := h.le
  have hroom := h.room
  rw [h.nread,h.nwrite,← BitVec.ofNat_add]
  exact ofNat_inj h.room (by omega)

lemma toNat_ofNat_sub (m : ℕ) {k : ℕ} (hk : k < 2^w) :
    (BitVec.ofNat w (m+k)-BitVec.ofNat w m).toNat = k := by
  rw [BitVec.ofNat_add,BitVec.add_comm,BitVec.add_sub_cancel,BitVec.toNat_ofNat,Nat.mod_eq_of_lt hk]

lemma toNat_sub (h : Counted N data nread nwrite sent taken) (hN : N < 2^w) :
    (nwrite-nread).toNat = sent.length-taken := by
  have hroom := h.room
  obtain ⟨k,hk⟩ := Nat.exists_eq_add_of_le h.le
  rw [h.nread,h.nwrite,hk,toNat_ofNat_sub taken (by omega)]
  omega

lemma toNat_mod (hN : N ∣ 2^w) (n : ℕ) : (BitVec.ofNat w n).toNat%N = n%N := by
  rw [BitVec.toNat_ofNat,Nat.mod_mod_of_dvd _ hN]

lemma put (h : Counted N data nread nwrite sent taken) (hdvd : N ∣ 2^w) (a : α)
    (hlt : sent.length < taken+N) :
    Counted N (Function.update data (nwrite.toNat%N) a) nread (nwrite+1) (sent++[a]) taken where
  nread := h.nread
  nwrite := by simp [h.nwrite,BitVec.ofNat_add]
  le := by simpa using h.le.trans (Nat.le_succ _)
  room := by simpa using hlt
  cells := by
    intro i hi htaken
    rw [List.length_append,List.length_singleton] at hi
    rw [h.nwrite,toNat_mod hdvd]
    obtain hlast | rfl := Nat.lt_succ_iff_lt_or_eq.mp hi
    · rw [Function.update_of_ne (RingBuffer.mod_ne_mod hlast (by omega)),h.cells i hlast htaken,
        List.getElem_append_left hlast]
    · simp

lemma take (h : Counted N data nread nwrite sent taken) (hdvd : N ∣ 2^w)
    (hlt : taken < sent.length) :
    data (nread.toNat%N) = sent[taken] ∧
      Counted N data (nread+1) nwrite sent (taken+1) := by
  have hroom := h.room
  refine ⟨?_,⟨by simp [h.nread,BitVec.ofNat_add],h.nwrite,hlt,by omega,?_⟩⟩
  · rw [h.nread,toNat_mod hdvd,h.cells taken hlt le_rfl]
  · intro i hi htaken
    exact h.cells i hi (by omega)

lemma unput {a : α} (h : Counted N data nread nwrite (sent++[a]) taken) (hdvd : N ∣ 2^w)
    (hle : taken ≤ sent.length) :
    data ((nwrite-1).toNat%N) = a ∧ Counted N data nread (nwrite-1) sent taken := by
  have hroom := h.room
  rw [List.length_append,List.length_singleton] at hroom
  have hlast : nwrite-1 = BitVec.ofNat w sent.length := by
    rw [h.nwrite,List.length_append,List.length_singleton,BitVec.ofNat_add]
    exact BitVec.add_sub_cancel _ _
  refine ⟨?_,⟨h.nread,hlast,hle,by omega,?_⟩⟩
  · rw [hlast,toNat_mod hdvd,h.cells sent.length (by simp) hle]
    simp
  · intro i hi htaken
    rw [h.cells i (by simp; omega) htaken,List.getElem_append_left hi]

lemma of_append {sent' : List α} (h : Counted N data nread nwrite (sent++sent') taken)
    (hle : taken ≤ sent.length) :
    Counted N data nread (BitVec.ofNat w sent.length) sent taken where
  nread := h.nread
  nwrite := rfl
  le := hle
  room := by
    have hroom := h.room
    rw [List.length_append] at hroom
    omega
  cells := by
    intro i hi htaken
    rw [h.cells i (by simp; omega) htaken,List.getElem_append_left hi]

end Counted
end JacobiXv6.Library
