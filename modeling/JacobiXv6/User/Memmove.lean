import JacobiXv6.Library.Copy
import JacobiXv6.Kernel.Trapframe

/-! `memmove` of `string.c`, which looks at the overlap, and `memmove` of `ulib.c`, which does not.
-/
namespace JacobiXv6
open Library Kernel

/-- The memory afterwards and the pointer that is returned. -/
def Kernel.memmove (m : Mem) (dst src n : Word) : Mem×Word :=
  if src < dst ∧ dst < src+n then (copyDown n.toNat m (dst+n) (src+n),dst)
    else (copyUp n.toNat m dst src,dst)

/-- Here `n` is an `int`. -/
def User.memmove (m : Mem) (vdst vsrc n : Word) : Mem×Word := (copyUp n.toInt.toNat m vdst vsrc,vdst)

namespace Memmove

/-- What lies behind the source repeats it, as far as it is copied: byte by byte, at the distance of
the two ranges. -/
def Repeats (m : Mem) (dst src : Word) (n : ℕ) : Prop :=
  src < dst → ∀ i : ℕ, i+(dst.toNat-src.toNat) < n → m (dst+i) = m (src+i)

section
variable {m : Mem} {dst src a b : Word} {n i j : ℕ}

lemma toNat_add (h : a.toNat+i < 2^32) : (a+(i : Word)).toNat = a.toNat+i := by
  have hcast : (i : Word).toNat = i%2^32 := BitVec.toNat_ofNat ..
  rw [BitVec.toNat_add,hcast]
  omega

lemma distinct (h : n ≤ 2^32) : Distinct Word n := by
  intro i hi j hj hij
  have hval := congrArg BitVec.toNat hij
  have hi' : (i : Word).toNat = i%2^32 := BitVec.toNat_ofNat ..
  have hj' : (j : Word).toNat = j%2^32 := BitVec.toNat_ofNat ..
  omega

lemma add_ne_add (ha : a.toNat+i < 2^32) (hb : b.toNat+j < 2^32) (h : a.toNat+i ≠ b.toNat+j) :
    a+(i : Word) ≠ b+(j : Word) := by
  intro he
  have hval := congrArg BitVec.toNat he
  rw [toNat_add ha,toNat_add hb] at hval
  exact h hval

end

section
variable {m : Mem} {dst src : Word} {n : ℕ}

/-- Upwards is right if the destination does not begin inside the source. -/
lemma copyUp_apart (hsrc : src.toNat+n ≤ 2^32) (hdst : dst.toNat+n ≤ 2^32)
    (h : dst.toNat ≤ src.toNat ∨ src.toNat+n ≤ dst.toNat) : Moved m dst src n (copyUp n m dst src) := by
  apply copyUp_moved (distinct (by omega))
  intro i j hij hj
  exact add_ne_add (by omega) (by omega) (by omega)

lemma kernel_moved {n : Word} (hsrc : src.toNat+n.toNat ≤ 2^32) (hdst : dst.toNat+n.toNat ≤ 2^32) :
    Moved m dst src n.toNat (Kernel.memmove m dst src n).1 := by
  rw [Kernel.memmove]
  split_ifs with h
  · obtain ⟨hlt,-⟩ := h
    have hlt := BitVec.lt_def.mp hlt
    have hcast : ((n.toNat : ℕ) : Word) = n := by simp
    have hdown : Moved m dst src n.toNat
        (copyDown n.toNat m (dst+(n.toNat : Word)) (src+(n.toNat : Word))) := by
      apply copyDown_moved (distinct (by omega))
      intro i j hji hi
      exact add_ne_add (by omega) (by omega) (by omega)
    rwa [hcast] at hdown
  · apply copyUp_apart hsrc hdst
    -- if the source begins below the destination, its end does not wrap: numbers are compared
    by_contra hover
    have hend : (src+n).toNat = src.toNat+n.toNat := by
      rw [BitVec.toNat_add]
      omega
    exact h ⟨BitVec.lt_def.mpr (by omega),BitVec.lt_def.mpr (by omega)⟩

/-- Upwards inside the source: right if and only if the source repeats itself. -/
lemma copyUp_iff (hsrc : src.toNat+n ≤ 2^32) (hdst : dst.toNat+n ≤ 2^32) :
    Moved m dst src n (copyUp n m dst src) ↔ Repeats m dst src n := by
  by_cases hlt : src < dst
  · have hlt' := BitVec.lt_def.mp hlt
    obtain ⟨k,hk⟩ : ∃ k, dst.toNat = src.toNat+k := ⟨dst.toNat-src.toNat,by omega⟩
    have hshift : ∀ i : ℕ, src+((i+k : ℕ) : Word) = dst+(i : Word) := by
      intro i
      have hcast : dst = src+(k : Word) := by
        apply BitVec.eq_of_toNat_eq
        rw [toNat_add (by omega),hk]
      rw [hcast,Nat.cast_add,add_assoc,add_comm (k : Word)]
    have hsame : ∀ i < n, copyUp n m dst src (dst+i) = copyUp n m dst src (src+i) := by
      apply copyUp_repeats (distinct (by omega))
      intro i j hji hi
      exact add_ne_add (by omega) (by omega) (by omega)
    have hdist : dst.toNat-src.toNat = k := by omega
    rw [Repeats,hdist]
    constructor
    · intro h _ i hi
      rw [← hshift,← h.copied (i+k) hi,hsame (i+k) hi,hshift]
      exact h.copied i (by omega)
    · intro h
      refine ⟨fun i => ?_,copyUp_others n m dst src⟩
      induction i using Nat.strong_induction_on with
      | _ i ih =>
        intro hi
        rw [hsame i hi]
        by_cases hik : i < k
        · apply copyUp_others
          intro j hj
          exact add_ne_add (by omega) (by omega) (by omega)
        · obtain ⟨j,rfl⟩ := Nat.exists_eq_add_of_le' (not_lt.mp hik)
          rw [hshift,ih j (by omega) (by omega),← h hlt j hi]
  · have hle : dst.toNat ≤ src.toNat := BitVec.le_def.mp (BitVec.not_lt.mp hlt)
    exact iff_of_true (copyUp_apart hsrc hdst (.inl hle)) fun h => absurd h hlt

end

/-- The kernel's version is right for all ranges; the library's is right if and only if the source
range repeats itself whenever the destination begins inside it. -/
theorem memmove_iff (m : Mem) (dst src n : Word) (hsrc : src.toNat+n.toNat ≤ 2^32)
    (hdst : dst.toNat+n.toNat ≤ 2^32) :
    Moved m dst src n.toNat (Kernel.memmove m dst src n).1 ∧
      (0 ≤ n.toInt →
        (Moved m dst src n.toNat (User.memmove m dst src n).1 ↔ Repeats m dst src n.toNat)) := by
  refine ⟨kernel_moved hsrc hdst,fun hn => ?_⟩
  have hcount : n.toInt.toNat = n.toNat := by
    rw [BitVec.toInt_eq_toNat_cond] at hn ⊢
    split_ifs at hn ⊢
    · exact Int.toNat_natCast _
    · have := n.isLt
      omega
  rw [User.memmove,hcount]
  exact copyUp_iff hsrc hdst

def numbered : Mem := fun a => BitVec.ofNat 8 a.toNat

/-- Two bytes, moved to the address below. -/
theorem memmove_iff_below :
    Moved numbered 0 1 2 (Kernel.memmove numbered 0 1 2).1 ∧
      Moved numbered 0 1 2 (User.memmove numbered 0 1 2).1 := by
  obtain ⟨hkernel,huser⟩ := memmove_iff numbered 0 1 2 (by decide) (by decide)
  exact ⟨hkernel,(huser (by decide)).mpr fun hlt => absurd hlt (by decide)⟩

/-- The bytes 0 and 1, moved to the address above: the library copies the 0 twice. -/
theorem memmove_above : (Kernel.memmove numbered 1 0 2).1 2 = 1 ∧
    (User.memmove numbered 1 0 2).1 2 = 0 ∧
    ¬Moved numbered 1 0 2 (User.memmove numbered 1 0 2).1 := by
  refine ⟨by decide,by decide,fun h => ?_⟩
  have hlast := h.copied 1 (by decide)
  exact absurd hlast (by decide)

end Memmove
end JacobiXv6
