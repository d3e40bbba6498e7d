import Mathlib.Data.BitVec
import Mathlib.Tactic

/-! Byte strings in a memory whose addresses wrap around, and little-endian numbers. -/
namespace JacobiXv6.Library

section Strings
variable {w : ℕ} {β : Type*}

/-- Copy a string to the cells from `a` on. -/
def store (m : BitVec w → β) (a : BitVec w) (bs : List β) : BitVec w → β := fun x =>
  (bs[(x-a).toNat]?).getD (m x)

/-- The `n` cells from `a` on. -/
def load (m : BitVec w → β) (a : BitVec w) (n : ℕ) : List β :=
  (List.range n).map fun i => m (a+BitVec.ofNat w i)

variable {m m' : BitVec w → β} {a : BitVec w} {bs : List β} {i j k n : ℕ}

@[simp] lemma length_load : (load m a n).length = n := by simp [load]

lemma load_congr (h : ∀ i < n, m (a+BitVec.ofNat w i) = m' (a+BitVec.ofNat w i)) :
    load m a n = load m' a n := by
  apply List.map_congr_left
  intro i hi
  exact h i (List.mem_range.mp hi)

lemma toNat_offset (hi : i < 2^w) : (a+BitVec.ofNat w i-a).toNat = i := by
  rw [add_sub_cancel_left,BitVec.toNat_ofNat,Nat.mod_eq_of_lt hi]

lemma load_store (h : bs.length ≤ 2^w) : load (store m a bs) a bs.length = bs := by
  apply List.ext_getElem
  · simp
  · intro i _ hi
    simp only [load,store,List.getElem_map,List.getElem_range,toNat_offset (hi.trans_le h),
      List.getElem?_eq_getElem hi,Option.getD_some]

lemma load_store_of_length (h : bs.length = n) (hn : n ≤ 2^w) : load (store m a bs) a n = bs := by
  subst h
  exact load_store hn

lemma store_apart (hk : k+bs.length ≤ i ∨ i < k) (hi : i < 2^w) (hend : k+bs.length ≤ 2^w) :
    store m (a+BitVec.ofNat w k) bs (a+BitVec.ofNat w i) = m (a+BitVec.ofNat w i) := by
  have hsub : a+BitVec.ofNat w i-(a+BitVec.ofNat w k) = BitVec.ofNat w i-BitVec.ofNat w k :=
    add_sub_add_left_eq_sub _ _ _
  have hlen : bs.length ≤ (BitVec.ofNat w i-BitVec.ofNat w k).toNat := by
    rw [BitVec.toNat_sub,BitVec.toNat_ofNat,BitVec.toNat_ofNat,Nat.mod_eq_of_lt hi]
    rcases Nat.eq_zero_or_pos bs.length with hz | hpos
    · simp [hz]
    rw [Nat.mod_eq_of_lt (show k < 2^w by omega)]
    rcases hk with hle | hlt
    · rw [show 2^w-k+i = i-k+2^w by omega,Nat.add_mod_right,Nat.mod_eq_of_lt (by omega)]
      omega
    · rw [Nat.mod_eq_of_lt (by omega)]
      omega
  rw [store,hsub,List.getElem?_eq_none hlen,Option.getD_none]

lemma load_store_apart (h : k+bs.length ≤ j ∨ j+n ≤ k) (hj : j+n ≤ 2^w) (hk : k+bs.length ≤ 2^w) :
    load (store m (a+BitVec.ofNat w k) bs) (a+BitVec.ofNat w j) n = load m (a+BitVec.ofNat w j) n := by
  apply load_congr
  intro i hi
  have hadd : a+BitVec.ofNat w j+BitVec.ofNat w i = a+BitVec.ofNat w (j+i) := by
    rw [BitVec.ofNat_add,add_assoc]
  rw [hadd]
  exact store_apart (by omega) (by omega) hk

end Strings

section Numbers

abbrev Byte := BitVec 8

instance Byte.lawful : LawfulBEq Byte := inferInstance

/-- The four bytes of a word, least significant first. -/
def wordBytes (v : BitVec 32) : List Byte :=
  [BitVec.ofNat 8 v.toNat,BitVec.ofNat 8 (v.toNat/2^8),BitVec.ofNat 8 (v.toNat/2^16),
    BitVec.ofNat 8 (v.toNat/2^24)]

def wordAt (bs : List Byte) (i : ℕ) : BitVec 32 :=
  BitVec.ofNat 32 ((bs.getD i 0).toNat+2^8*(bs.getD (i+1) 0).toNat+
    2^16*(bs.getD (i+2) 0).toNat+2^24*(bs.getD (i+3) 0).toNat)

lemma wordAt_wordBytes_append (v : BitVec 32) (bs : List Byte) :
    wordAt (wordBytes v++bs) 0 = v := by
  apply BitVec.eq_of_toNat_eq
  simp [wordAt,wordBytes]
  omega

lemma wordAt_wordBytes (v : BitVec 32) : wordAt (wordBytes v) 0 = v := by
  simpa using wordAt_wordBytes_append v []

lemma wordAt_flatMap (vs : List (BitVec 32)) (i : ℕ) :
    wordAt (vs.flatMap wordBytes) (4*i) = vs.getD i 0 := by
  induction vs generalizing i with
  | nil => simp [wordAt]
  | cons v vs ih =>
    cases i with
    | zero => exact wordAt_wordBytes_append v _
    | succ i => exact ih i

end Numbers

end JacobiXv6.Library
