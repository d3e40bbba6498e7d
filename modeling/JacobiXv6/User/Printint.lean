import Mathlib.Data.List.GetD
import JacobiXv6.Kernel.Trapframe

/-! `printint` of `printf.c` and of `console.c`, and `atoi` of `ulib.c`. -/
namespace JacobiXv6
open Library Kernel List

namespace Printint

/-- The size of `buf`. -/
abbrev SIZE : ℕ := 16

/-- `buf[i++] = c`; outside the buffer there is no result. -/
def put (buf : List Byte) (c : Byte) : Option (List Byte) :=
  if buf.length < SIZE then some (buf++[c]) else none

/-- `do { buf[i++] = digits[x % base]; } while((x /= base) != 0)`, for at most `k` turns. -/
def digitLoop (digits : ℕ → Byte) (base : Word) : ℕ → Word → List Byte → Option (List Byte)
  | 0,_,_ => none
  | k+1,x,buf => do
    let buf ← put buf (digits (x%base).toNat)
    if x/base ≠ 0 then digitLoop digits base k (x/base) buf else return buf

/-- `while(--i >= 0) putc(buf[i])` -/
def emit (buf : List Byte) : ℕ → List Byte
  | 0 => []
  | i+1 => buf.getD i 0::emit buf i

/-- `0123456789` and six letters from `a` on. -/
def digitByte (a : ℕ) (d : ℕ) : Byte := BitVec.ofNat 8 (if d < 10 then 48+d else a+(d-10))

def minus : Byte := 45

/-- What both functions do with the number and its sign; the result is what is printed. -/
def print (digits : ℕ → Byte) (base x : Word) (neg : Bool) : Option (List Byte) := do
  let buf ← digitLoop digits base SIZE x []
  let buf ← if neg then put buf minus else some buf
  return emit buf buf.length

end Printint
open Printint

def User.printint (xx base : Word) (sgn : Bool) : Option (List Byte) :=
  if sgn ∧ xx.toInt < 0 then print (digitByte 65) base (-xx) true
    else print (digitByte 65) base xx false

/-- Here `sign` is assigned to inside the condition. -/
def Kernel.printint (xx base : Word) (sign : Bool) : Option (List Byte) :=
  let sign := sign && decide (xx.toInt < 0)
  print (digitByte 97) base (if sign then -xx else xx) sign

/-- `while('0' <= *s && *s <= '9') n = n*10 + *s++ - '0'` -/
def User.atoiLoop : List Byte → Word → Word
  | [],n => n
  | c::s,n => if 48 ≤ c.toNat ∧ c.toNat ≤ 57 then User.atoiLoop s (n*10+BitVec.ofNat 32 c.toNat-48)
    else n

/-- On the bytes of the string; the arithmetic of an `int` wraps. -/
def User.atoi (s : List Byte) : Word := User.atoiLoop s 0

namespace Printint

/-- The digits of a number, most significant first, without leading zeros. -/
def numeral (base n : ℕ) : List ℕ := if n = 0 then [0] else (Nat.digits base n).reverse

def value (xx : Word) (sign : Bool) : ℤ := if sign then xx.toInt else xx.toNat

/-- The standard numeral of an integer, in digits and the letters from `a` on. -/
def text (a base : ℕ) (v : ℤ) : List Byte :=
  (if v < 0 then [minus] else [])++(numeral base v.natAbs).map (digitByte a)

lemma emit_eq (buf : List Byte) (i : ℕ) (hi : i ≤ buf.length) : emit buf i = (buf.take i).reverse := by
  induction i with
  | zero => rfl
  | succ i ih =>
    rw [emit,ih (by omega),getD_eq_getElem buf 0 hi,take_succ_eq_append_getElem hi,reverse_append,
      reverse_singleton,singleton_append]

def lowest (base n : ℕ) : List ℕ := (numeral base n).reverse

variable {base n : ℕ}

lemma lowest_eq (hbase : 1 < base) :
    lowest base n = n%base::(if n/base = 0 then [] else lowest base (n/base)) := by
  unfold lowest numeral
  obtain rfl | hn := Nat.eq_zero_or_pos n
  · simp
  · rw [if_neg hn.ne',reverse_reverse,Nat.digits_def' hbase hn]
    split_ifs with hz
    · rw [hz,Nat.digits_zero]
    · rw [reverse_reverse]

lemma length_lowest (hbase : 1 < base) (k : ℕ) (hn : n < base^(k+1)) :
    (lowest base n).length ≤ k+1 := by
  induction k generalizing n with
  | zero =>
    rw [zero_add,pow_one] at hn
    rw [lowest_eq hbase,if_pos (Nat.div_eq_of_lt hn)]
    rfl
  | succ k ih =>
    rw [lowest_eq hbase,length_cons]
    split_ifs
    · exact Nat.succ_le_succ (Nat.zero_le _)
    · rw [pow_succ] at hn
      exact Nat.succ_le_succ (ih (Nat.div_lt_of_lt_mul (by rwa [mul_comm])))

/-- The loop writes the digits, if there is room for them. -/
lemma digitLoop_eq (digits : ℕ → Byte) {base : Word} (hbase : 1 < base.toNat) (k : ℕ) (x : Word)
    (buf : List Byte)
    (hk : (lowest base.toNat x.toNat).length ≤ k)
    (hroom : buf.length+(lowest base.toNat x.toNat).length ≤ SIZE) :
    digitLoop digits base k x buf = some (buf++(lowest base.toNat x.toNat).map digits) := by
  induction k generalizing x buf with
  | zero =>
    rw [lowest_eq hbase] at hk
    exact absurd hk (Nat.not_succ_le_zero _)
  | succ k ih =>
    have hzero : x/base ≠ 0 ↔ ¬x.toNat/base.toNat = 0 := by
      rw [ne_eq,← BitVec.toNat_inj,BitVec.toNat_udiv]
      rfl
    rw [lowest_eq hbase,length_cons] at hk hroom
    rw [digitLoop,put,if_pos (by omega),lowest_eq hbase,← BitVec.toNat_umod]
    dsimp only [Option.bind_eq_bind,Option.bind_some]
    by_cases hdiv : x.toNat/base.toNat = 0
    · rw [if_neg (by rw [hzero,not_not]; exact hdiv),if_pos hdiv]
      rfl
    · rw [if_neg hdiv,← BitVec.toNat_udiv] at hk hroom ⊢
      rw [if_pos (hzero.mpr hdiv),
        ih _ _ (by omega) (by simp only [length_append,length_singleton]; omega),
        append_assoc]
      rfl

section
variable {base x xx : Word} {sign : Bool} {a : ℕ}

lemma base_bounds (hbase : base = 10 ∨ base = 16) : 10 ≤ base.toNat ∧ base.toNat ≤ 16 := by
  obtain rfl | rfl := hbase <;> decide

/-- The sign is written behind the digits, and all is printed backwards. -/
lemma print_eq (hbase : 10 ≤ base.toNat) (neg : Bool) : print (digitByte a) base x neg =
    some ((if neg then [minus] else [])++(numeral base.toNat x.toNat).map (digitByte a)) := by
  have hone : 1 < base.toNat := by omega
  have hfits : x.toNat < base.toNat^10 := by
    have hpow : 10^10 ≤ base.toNat^10 := Nat.pow_le_pow_left hbase 10
    omega
  have hlength := length_lowest hone 9 hfits
  have hloop := digitLoop_eq (digitByte a) hone SIZE x [] (by rw [SIZE]; omega)
    (by rw [length_nil,SIZE]; omega)
  have hreverse : ((lowest base.toNat x.toNat).map (digitByte a)).reverse =
      (numeral base.toNat x.toNat).map (digitByte a) := by
    rw [← map_reverse,lowest,reverse_reverse]
  rw [nil_append] at hloop
  rw [print,hloop]
  dsimp only [Option.bind_eq_bind,Option.bind_some]
  cases neg with
  | false =>
    change some (emit _ _) = _
    rw [emit_eq _ _ le_rfl,take_length,hreverse]
    rfl
  | true =>
    rw [if_pos rfl,put,length_map,if_pos (by rw [SIZE]; omega),Option.bind_some,
      emit_eq _ _ le_rfl,take_length,
      reverse_append,hreverse]
    rfl

/-- The number without its sign. -/
lemma value_natAbs (xx : Word) (sign : Bool) :
    ((if sign = true ∧ xx.toInt < 0 then -xx else xx).toNat = (value xx sign).natAbs) ∧
      (value xx sign < 0 ↔ sign = true ∧ xx.toInt < 0) := by
  have hlt := xx.isLt
  cases sign with
  | false => simp [value]
  | true =>
    simp only [value,true_and,if_true,iff_self,and_true]
    rw [BitVec.toInt_eq_toNat_cond]
    split_ifs with hsmall hneg hneg
    · omega
    · rfl
    · rw [BitVec.toNat_neg]
      omega
    · omega

lemma user_printint (hbase : 10 ≤ base.toNat) :
    User.printint xx base sign = some (text 65 base.toNat (value xx sign)) := by
  obtain ⟨habs,hneg⟩ := value_natAbs xx sign
  unfold User.printint text
  by_cases h : sign = true ∧ xx.toInt < 0
  · rw [if_pos h] at habs ⊢
    rw [if_pos (hneg.mpr h),← habs]
    exact print_eq hbase true
  · rw [if_neg h] at habs ⊢
    rw [if_neg (hneg.not.mpr h),← habs]
    exact print_eq hbase false

lemma kernel_printint (hbase : 10 ≤ base.toNat) :
    Kernel.printint xx base sign = some (text 97 base.toNat (value xx sign)) := by
  obtain ⟨habs,hneg⟩ := value_natAbs xx sign
  unfold Kernel.printint text
  by_cases h : sign = true ∧ xx.toInt < 0
  · have hsign : (sign && decide (xx.toInt < 0)) = true := by simpa using h
    rw [if_pos h] at habs
    rw [hsign,if_pos (hneg.mpr h),← habs]
    exact print_eq hbase true
  · have hsign : (sign && decide (xx.toInt < 0)) = false := by simpa using h
    rw [if_neg h] at habs
    rw [hsign,if_neg (hneg.not.mpr h),← habs]
    exact print_eq hbase false

end

/-! ### Reading it back -/

def lower (c : Byte) : Byte := if 65 ≤ c.toNat ∧ c.toNat ≤ 90 then c+32 else c

lemma lt_of_mem_numeral {d : ℕ} (hbase : 1 < base) (hd : d ∈ numeral base n) : d < base := by
  unfold numeral at hd
  split_ifs at hd with hn
  · obtain rfl := mem_singleton.mp hd
    omega
  · exact Nat.digits_lt_base hbase (mem_reverse.mp hd)

lemma lower_text (hbase : 10 ≤ base ∧ base ≤ 16) (v : ℤ) :
    (text 65 base v).map lower = text 97 base v := by
  have hdigit : ∀ d < 16, lower (digitByte 65 d) = digitByte 97 d := by decide
  have hminus : lower minus = minus := by decide
  unfold text
  rw [map_append,map_map]
  congr 1
  · split_ifs
    · rw [map_singleton,hminus]
    · rfl
  · apply map_congr_left
    intro d hd
    exact hdigit d ((lt_of_mem_numeral (by omega) hd).trans_le hbase.2)

lemma head_numeral (h : (numeral base n).head? = some 0) : n = 0 := by
  by_contra hn
  have hne : Nat.digits base n ≠ [] := Nat.digits_ne_nil_iff_ne_zero.mpr hn
  rw [numeral,if_neg hn,head?_reverse,getLast?_eq_some_getLast hne] at h
  exact Nat.getLast_digit_ne_zero base hn (Option.some.inj h)

lemma ofDigits_numeral (base n : ℕ) : Nat.ofDigits base (numeral base n).reverse = n := by
  unfold numeral
  split_ifs with hn
  · simp [hn]
  · rw [reverse_reverse,Nat.ofDigits_digits]

/-- `atoi` reads the digits up to the first byte that is none. -/
lemma atoiLoop_eq (a : ℕ) (ds : List ℕ) (hds : ∀ d ∈ ds, d < 10) (rest : List Byte) (n : ℕ) :
    User.atoiLoop (ds.map (digitByte a)++0::rest)
    (n : Word) = ((ds.foldl (fun n d => n*10+d) n : ℕ) : Word) := by
  induction ds generalizing n with
  | nil => rfl
  | cons d ds ih =>
    obtain ⟨hd,hds⟩ := forall_mem_cons.mp hds
    have hbyte : (digitByte a d).toNat = 48+d := by
      rw [digitByte,if_pos hd,BitVec.toNat_ofNat]
      omega
    have hstep : (n : Word)*10+BitVec.ofNat 32 (48+d)-48 = ((n*10+d : ℕ) : Word) := by
      rw [← BitVec.natCast_eq_ofNat]
      push_cast
      ring
    rw [map_cons,cons_append,User.atoiLoop,hbyte,if_pos (by omega),hstep,ih hds,foldl_cons]

lemma atoi_text (a : ℕ) (rest : List Byte) (n : ℕ) : User.atoi (text a 10 n++0::rest) = (n : Word) := by
  have hsign : ¬(n : ℤ) < 0 := by omega
  have hvalue : (numeral 10 n).foldl (fun n d => n*10+d) 0 = n := by
    conv_rhs => rw [← ofDigits_numeral 10 n,Nat.ofDigits_eq_foldr,foldr_reverse]
    simp only [Nat.cast_id,add_comm,mul_comm]
  have hloop := atoiLoop_eq a (numeral 10 n) (fun d hd => lt_of_mem_numeral (by decide) hd) rest 0
  rw [hvalue] at hloop
  rw [User.atoi,text,if_neg hsign,nil_append,Int.natAbs_natCast]
  exact hloop

/-- Both print the standard numeral of the number, in capital and in small letters, and the buffer
does not overflow; `atoi` reads the decimal numeral of an `int` that is not negative back. -/
theorem printint_exact (xx base : Word) (sign : Bool) (hbase : base = 10 ∨ base = 16) :
    User.printint xx base sign = some (text 65 base.toNat (value xx sign)) ∧
    Kernel.printint xx base sign = some (text 97 base.toNat (value xx sign)) ∧
    (text 65 base.toNat (value xx sign)).map lower = text 97 base.toNat (value xx sign) ∧
    ((numeral base.toNat (value xx sign).natAbs).head? = some 0 → value xx sign = 0) ∧
    Nat.ofDigits base.toNat (numeral base.toNat (value xx sign).natAbs).reverse =
      (value xx sign).natAbs ∧
    (base = 10 → 0 ≤ xx.toInt → ∀ rest, User.atoi (text 65 10 (value xx sign)++0::rest) = xx ∧
      User.atoi (text 97 10 (value xx sign)++0::rest) = xx) := by
  have hbounds := base_bounds hbase
  refine ⟨user_printint hbounds.1,kernel_printint hbounds.1,lower_text hbounds _,?_,
    ofDigits_numeral _ _,?_⟩
  · intro hhead
    exact Int.natAbs_eq_zero.mp (head_numeral hhead)
  · intro _ hpos rest
    have hvalue : value xx sign = xx.toNat := by
      rw [BitVec.toInt_eq_toNat_cond] at hpos
      unfold value
      split_ifs
      · rw [BitVec.toInt_eq_toNat_cond]
        split_ifs at hpos ⊢
        · rfl
        · omega
      · rfl
    have hcast : ((xx.toNat : ℕ) : Word) = xx := by simp
    rw [hvalue,atoi_text,atoi_text,hcast]
    exact ⟨rfl,rfl⟩

/-- The least `int`, which is its own negation. -/
theorem printint_exact_min :
    User.printint 0x80000000 10 true = some [45,50,49,52,55,52,56,51,54,52,56] ∧
    text 65 10 (-2147483648) = [45,50,49,52,55,52,56,51,54,52,56] := by
  have hprint : User.printint 0x80000000 10 true = some [45,50,49,52,55,52,56,51,54,52,56] := by
    decide +kernel
  have hexact := (printint_exact 0x80000000 10 true (.inl rfl)).1
  exact ⟨hprint,Option.some.inj (hexact.symm.trans hprint)⟩

end Printint
end JacobiXv6
