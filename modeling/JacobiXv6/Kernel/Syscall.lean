import JacobiXv6.Kernel.SysIpc

/-! The arguments of system calls: what `argint`, `argptr` and `argstr` accept lies in the memory of
the process. -/
namespace JacobiXv6.Kernel.SysIpc
open Library

namespace Caller
variable (c : Caller)

/-- The loop of `fetchstr`, for at most `k` turns: the address of the first zero from `s` on. -/
def findNul : ℕ → Word → Option Word
  | 0,_ => none
  | k+1,s => if s < c.sz then if c.mem s = 0 then some s else findNul k (s+1) else none

/-- `fetchstr`: the pointer that it stores and the length that it returns. -/
def fetchstr (addr : Word) : Option (Word×Word) :=
  if c.sz ≤ addr then none else (c.findNul c.sz.toNat addr).map fun s => (addr,s-addr)

def argstr (n : Word) : Option (Word×Word) := (c.argint n).1.bind c.fetchstr

end Caller

/-- The `k` bytes at `a` have the addresses from `a` on, which do not wrap, and all lie below `sz`.
-/
def Within (sz a : Word) (k : ℕ) : Prop := ∀ i < k, (a+BitVec.ofNat 32 i).toNat = a.toNat+i ∧
    a.toNat+i < sz.toNat

/-- There is a string of this length: the byte behind it is the first zero. -/
structure IsString (m : Mem) (p : Word) (len : ℕ) : Prop where
  nul : m (p+BitVec.ofNat 32 len) = 0
  nonzero : ∀ i < len, m (p+BitVec.ofNat 32 i) ≠ 0

section
variable {c : Caller} {n size addr p s : Word} {k len : ℕ}

lemma within_of_le {sz a : Word} (h : a.toNat+k ≤ sz.toNat) : Within sz a k := by
  intro i hi
  rw [BitVec.toNat_add,BitVec.toNat_ofNat]
  omega

lemma fetchint_within {v : Word} (h : (c.fetchint addr).1 = some v) : Within c.sz addr 4 := by
  have hsz := c.sz_le
  rw [Privilege.KERNBASE] at hsz
  unfold Caller.fetchint Privilege.fetchint at h
  split_ifs at h with hout
  rw [not_or,BitVec.not_le,BitVec.not_lt,BitVec.lt_def,BitVec.le_def,BitVec.toNat_add] at hout
  have hfour : (4 : Word).toNat = 4 := rfl
  apply within_of_le
  omega

lemma argptr_within (h : (c.argptr n size).1 = some p) : 0 ≤ size.toInt ∧
    Within c.sz p size.toInt.toNat := by
  obtain ⟨hsize,-,hle⟩ := argptr_some h
  have hint : size.toInt = size.toNat := by
    rw [BitVec.toInt_eq_toNat_cond,if_pos (by omega)]
  rw [hint]
  exact ⟨Int.natCast_nonneg _,within_of_le hle⟩

/-- The loop ends at the first zero below `sz`, and only there. -/
lemma findNul_eq_some (hk : c.sz.toNat ≤ addr.toNat+k) :
    c.findNul k addr = some s ↔ ∃ len, s = addr+BitVec.ofNat 32 len ∧ addr.toNat+len < c.sz.toNat ∧
      IsString c.mem addr len := by
  have hsz := c.sz_le
  rw [Privilege.KERNBASE] at hsz
  induction k generalizing addr with
  | zero =>
    refine iff_of_false (Option.some_ne_none s).symm ?_
    rintro ⟨len,-,hlt,-⟩
    omega
  | succ k ih =>
    have hzero : addr+BitVec.ofNat 32 0 = addr := BitVec.add_zero addr
    rw [Caller.findNul]
    split_ifs with hin hnul
    · rw [Option.some_inj]
      constructor
      · rintro rfl
        refine ⟨0,hzero.symm,BitVec.lt_def.mp hin,?_,fun i hi => absurd hi (Nat.not_lt_zero i)⟩
        rw [hzero]
        exact hnul
      · rintro ⟨len,rfl,-,hstring⟩
        obtain rfl : len = 0 := by
          by_contra hpos
          refine hstring.nonzero 0 (Nat.pos_of_ne_zero hpos) ?_
          rw [hzero]
          exact hnul
        exact hzero.symm
    · have hin := BitVec.lt_def.mp hin
      have hnext : (addr+1).toNat = addr.toNat+1 := by
        rw [BitVec.toNat_add]
        change (addr.toNat+1)%2^32 = addr.toNat+1
        omega
      have hoffset : ∀ i, addr+1+BitVec.ofNat 32 i = addr+BitVec.ofNat 32 (i+1) := by
        intro i
        rw [add_assoc,BitVec.ofNat_add,add_comm (BitVec.ofNat 32 i)]
        rfl
      have hrest : c.findNul k (addr+1) = some s ↔ _ := ih (by omega)
      rw [hrest]
      constructor
      · rintro ⟨len,rfl,hlt,hstring⟩
        refine ⟨len+1,hoffset len,by omega,?_,fun i hi => ?_⟩
        · rw [← hoffset]
          exact hstring.nul
        · cases i with
          | zero =>
            rw [hzero]
            exact hnul
          | succ i =>
            rw [← hoffset]
            exact hstring.nonzero i (Nat.lt_of_succ_lt_succ hi)
      · rintro ⟨len,rfl,hlt,hstring⟩
        cases len with
        | zero =>
          have hfirst := hstring.nul
          rw [hzero] at hfirst
          exact absurd hfirst hnul
        | succ len =>
          refine ⟨len,(hoffset len).symm,by omega,?_,fun i hi => ?_⟩
          · rw [hoffset]
            exact hstring.nul
          · rw [hoffset]
            exact hstring.nonzero (i+1) (Nat.succ_lt_succ hi)
    · refine iff_of_false id ?_
      rintro ⟨len,-,hlt,-⟩
      have hout := BitVec.le_def.mp (BitVec.not_lt.mp hin)
      omega

/-- `fetchstr` succeeds if and only if there is a string that ends below `sz`. -/
lemma fetchstr_eq_some {l : Word} : c.fetchstr addr = some (p,l) ↔
    p = addr ∧ addr.toNat+l.toNat < c.sz.toNat ∧ IsString c.mem addr l.toNat := by
  have hsz := c.sz_le
  rw [Privilege.KERNBASE] at hsz
  unfold Caller.fetchstr
  split_ifs with hout
  · refine iff_of_false id ?_
    rintro ⟨-,hlt,-⟩
    have hout := BitVec.le_def.mp hout
    omega
  · rw [Option.map_eq_some_iff]
    constructor
    · rintro ⟨s,hs,heq⟩
      obtain ⟨rfl,rfl⟩ := Prod.mk.inj heq
      obtain ⟨len,rfl,hlt,hstring⟩ := (findNul_eq_some (by omega)).mp hs
      rw [toNat_offset (by omega)]
      exact ⟨rfl,hlt,hstring⟩
    · rintro ⟨rfl,hlt,hstring⟩
      refine ⟨p+l,(findNul_eq_some (by omega)).mpr ⟨l.toNat,?_,hlt,hstring⟩,?_⟩
      · rw [BitVec.ofNat_toNat,BitVec.setWidth_eq]
      · rw [add_sub_cancel_left]

lemma fetchstr_within {l : Word} (h : c.fetchstr addr = some (p,l)) :
    0 ≤ l.toInt ∧ IsString c.mem p l.toNat ∧ Within c.sz p (l.toNat+1) := by
  obtain ⟨rfl,hlt,hstring⟩ := fetchstr_eq_some.mp h
  have hsz := c.sz_le
  rw [Privilege.KERNBASE] at hsz
  have hint : l.toInt = l.toNat := by
    rw [BitVec.toInt_eq_toNat_cond,if_pos (by omega)]
  rw [hint]
  exact ⟨Int.natCast_nonneg _,hstring,within_of_le hlt⟩

end

/-- What the argument functions accept lies in the memory of the process, for every stack pointer,
memory and size of it. -/
theorem arguments_within (c : Caller) (n size addr : Word) :
    (∀ v, (c.argint n).1 = some v → Within c.sz (c.esp+4+4*n) 4) ∧
    (∀ p, (c.argptr n size).1 = some p → 0 ≤ size.toInt ∧ Within c.sz p size.toInt.toNat) ∧
    (∀ p len, c.fetchstr addr = some (p,len) → 0 ≤ len.toInt ∧ IsString c.mem p len.toNat ∧
      Within c.sz p (len.toNat+1)) ∧
    ∀ p len, c.argstr n = some (p,len) → Within c.sz (c.esp+4+4*n) 4 ∧
      0 ≤ len.toInt ∧ IsString c.mem p len.toNat ∧ Within c.sz p (len.toNat+1) := by
  refine ⟨fun v h => fetchint_within h,fun p h => argptr_within h,fun p len h => fetchstr_within h,
    fun p len h => ?_⟩
  obtain ⟨v,hv,hstr⟩ := Option.bind_eq_some_iff.mp h
  exact ⟨fetchint_within hv,fetchstr_within hstr⟩

/-- A process of 64 bytes whose stack holds the argument 12 and, from there on, the string `a`. -/
def small : Caller where
  self := firstSlot
  pid := 1
  esp := 0
  mem := fun a => if a = 4 then 12 else if a = 12 then 97 else 0
  sz := 64
  sz_le := by decide

theorem arguments_within_small : (small.argint 0).1 = some 12 ∧ Within small.sz 4 4 ∧
    (small.argptr 0 52).1 = some 12 ∧ Within small.sz 12 52 ∧ small.argstr 0 = some (12,1) ∧
      Within small.sz 12 2 := by
  obtain ⟨hint,hptr,-,hstr⟩ := arguments_within small 0 52 0
  have h₁ : (small.argint 0).1 = some 12 := by decide
  have h₂ : (small.argptr 0 52).1 = some 12 := by decide
  have h₃ : small.argstr 0 = some (12,1) := by decide
  exact ⟨h₁,hint 12 h₁,h₂,(hptr 12 h₂).2,h₃,(hstr 12 1 h₃).2.2.2⟩

end JacobiXv6.Kernel.SysIpc
