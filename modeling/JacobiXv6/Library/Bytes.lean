import JacobiXv6.Library.Memory

/-! Blocks of bytes: short numbers next to the words, and what a store of some bytes leaves of a
block. -/
namespace JacobiXv6.Library

/-! ### Short numbers -/

/-- The two bytes of a short number, least significant first. -/
def shortBytes (v : BitVec 16) : List Byte := [BitVec.ofNat 8 v.toNat,BitVec.ofNat 8 (v.toNat/2^8)]

def shortAt (bs : List Byte) (i : ℕ) : BitVec 16 :=
  BitVec.ofNat 16 ((bs.getD i 0).toNat+2^8*(bs.getD (i+1) 0).toNat)

@[simp] lemma shortAt_shortBytes (v : BitVec 16) (bs : List Byte) :
    shortAt (shortBytes v++bs) 0 = v := by
  apply BitVec.eq_of_toNat_eq
  simp [shortAt,shortBytes]
  omega

lemma shortAt_append (v : BitVec 16) (bs : List Byte) (i : ℕ) :
    shortAt (shortBytes v++bs) (i+2) = shortAt bs i := rfl

lemma wordAt_take (bs : List Byte) : wordAt (bs.take 4) 0 = wordAt bs 0 := by
  simp [wordAt]

/-! ### Blocks -/

/-- The contents of a block by position; nothing is stored past its end. -/
abbrev Sector := ℕ → Byte

namespace Sector
variable (b : Sector)

/-- The `n` bytes from `off` on. -/
def slice (off n : ℕ) : List Byte := (List.range n).map fun k => b (off+k)

/-- The block with `bs` stored from `off` on. -/
def paste (off : ℕ) (bs : List Byte) : Sector := fun k =>
  if k < off then b k else bs[k-off]?.getD (b k)

lemma getElem?_slice (off n k : ℕ) : (b.slice off n)[k]? = if k < n then some (b (off+k))
    else none := by
  split_ifs with hk <;> simp [slice,hk]

variable {off : ℕ} {bs : List Byte}

lemma paste_of_disjoint {k : ℕ} (h : k < off ∨ off+bs.length ≤ k) :
    b.paste off bs k = b k := by
  unfold paste
  split_ifs with hk
  · rfl
  · rw [List.getElem?_eq_none (by omega),Option.getD_none]

lemma paste_add {k : ℕ} (h : k < bs.length) : b.paste off bs (off+k) = bs[k] := by
  simp [paste,h]

lemma slice_paste_take {n : ℕ} (h : n ≤ bs.length) :
    (b.paste off bs).slice off n = bs.take n := by
  apply List.ext_getElem?
  intro k
  rw [getElem?_slice]
  split_ifs with hk
  · rw [paste_add b (by omega),List.getElem?_take_of_lt hk,List.getElem?_eq_getElem]
  · rw [List.getElem?_eq_none (by rw [List.length_take]; omega)]

lemma slice_paste {n : ℕ} (h : bs.length = n) : (b.paste off bs).slice off n = bs := by
  rw [b.slice_paste_take h.ge,← h,List.take_length]

lemma slice_paste_of_disjoint {off' n : ℕ} (h : off'+n ≤ off ∨ off+bs.length ≤ off') :
    (b.paste off bs).slice off' n = b.slice off' n := by
  apply List.map_congr_left
  intro k hk
  have hlt := List.mem_range.mp hk
  exact paste_of_disjoint b (by omega)

end Sector
end JacobiXv6.Library
