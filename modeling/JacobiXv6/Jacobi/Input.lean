import JacobiXv6.Library.Memory

/-! Reading the input of `jacob.c`. The five values stand on a line each; `readINT` leaves its
loop when `read` has nothing more to give, `readFLOAT` does not look at what `read` returns
and goes on with the character it had before. -/
namespace JacobiXv6.Jacobi
open Library

/-- What the descriptor of `main` stands for: the bytes of the file that are still to be read,
or nothing if `open` failed. -/
abbrev Input := Option (List Byte)

def Input.rest (fd : Input) : List Byte := fd.getD []

/-- `read(fd, &c, 1)`: what it returns, what `c` is afterwards, and what is left to be read. -/
def read : Input → Byte → ℤ×Byte×Input
  | none, c => (-1,c,none)
  | some [], c => (0,c,some [])
  | some (b::bs), _ => (1,b,some bs)

abbrev newline : Byte := 10#8
abbrev point : Byte := 46#8

/-- `c-'0'`; a `char` is signed. -/
def digit (c : Byte) : BitVec 32 := c.signExtend 32-48#32

/-- The `float` operations of `readFLOAT`. -/
structure Decimal (V : Type) where
  ofInt : BitVec 32 → V
  add : V → V → V
  mul : V → V → V
  div : V → V → V

variable {V : Type} (o : Decimal V)

/-- At most `fuel` turns of the loop of `readINT`. -/
def readINTLoop : ℕ → Byte → BitVec 32 → Input → Option (BitVec 32×Input)
  | 0, _, _, _ => none
  | fuel+1, c, num, fd =>
    let (n,c,fd) := read fd c
    if n ≤ 0 then some (num,fd)
    else if c = newline then some (num,fd)
    else readINTLoop fuel c (num*10#32+digit c) fd

/-- The byte `c` is the one the uninitialised variable holds. -/
def readINT (fuel : ℕ) (c : Byte) (fd : Input) : Option (BitVec 32×Input) :=
  readINTLoop fuel c 0#32 fd

/-- The variables `num`, `deci` and `swtch` of `readFLOAT`. -/
structure Reading (V : Type) where
  num : V
  deci : V
  swtch : Bool

/-- What one character other than the newline does. -/
def Reading.push (x : Reading V) (c : Byte) : Reading V :=
  if c = point then { x with swtch := true }
  else if x.swtch then
    { x with num := o.add x.num (o.div (o.ofInt (digit c)) x.deci)
             deci := o.mul x.deci (o.ofInt 10#32) }
  else { x with num := o.add (o.mul x.num (o.ofInt 10#32)) (o.ofInt (digit c)) }

/-- At most `fuel` turns of the loop of `readFLOAT`. -/
def readFLOATLoop : ℕ → Byte → Reading V → Input → Option (V×Input)
  | 0, _, _, _ => none
  | fuel+1, c, x, fd =>
    let (_,c,fd) := read fd c
    if c = newline then some (x.num,fd) else readFLOATLoop fuel c (x.push o c) fd

def readFLOAT (fuel : ℕ) (c : Byte) (fd : Input) : Option (V×Input) :=
  readFLOATLoop o fuel c ⟨o.ofInt 0#32,o.ofInt 10#32,false⟩ fd

/-- What `main` reads. -/
structure Parameters (V : Type) where
  N : BitVec 32
  E : V
  T : V
  P : BitVec 32
  L : BitVec 32

/-- The five calls of `main`, each loop for at most `fuel` turns; `c k` is what the `k`-th call
finds in its uninitialised `c`. -/
def readInput (fuel : ℕ) (c : ℕ → Byte) (fd : Input) : Option (Parameters V) := do
  let (N,fd) ← readINT fuel (c 0) fd
  let (E,fd) ← readFLOAT o fuel (c 1) fd
  let (T,fd) ← readFLOAT o fuel (c 2) fd
  let (P,fd) ← readINT fuel (c 3) fd
  let (L,_) ← readINT fuel (c 4) fd
  return ⟨N,E,T,P,L⟩

variable {o}

lemma Input.rest_cases (fd : Input) : fd.rest = [] ∨ ∃ b bs, fd = some (b::bs) := by
  cases fd with
  | none => exact .inl rfl
  | some bs =>
    cases bs with
    | nil => exact .inl rfl
    | cons b bs => exact .inr ⟨b,bs,rfl⟩

/-- At the end of the file, and without a file, `read` leaves everything as it is. -/
lemma read_of_rest_nil {fd : Input} (h : fd.rest = []) (c : Byte) :
    (read fd c).1 ≤ 0 ∧ (read fd c).2 = (c,fd) := by
  obtain _ | _ | ⟨b,bs⟩ := fd
  · simp [read]
  · simp [read]
  · simp [Input.rest] at h

def afterLine : List Byte → List Byte
  | [] => []
  | b::bs => if b = newline then bs else afterLine bs

lemma length_afterLine_le (bs : List Byte) : (afterLine bs).length ≤ bs.length := by
  induction bs with
  | nil => simp [afterLine]
  | cons b bs ih =>
    rw [afterLine]
    split_ifs with hb
    · simp
    · simp only [List.length_cons]
      omega

section Turns
variable {fuel : ℕ} {c : Byte} {fd fd' : Input}

lemma readINTLoop_nil (num : BitVec 32) (h : fd.rest = []) :
    readINTLoop (fuel+1) c num fd = some (num,fd) := by
  obtain ⟨hn,hr⟩ := read_of_rest_nil h c
  simp only [readINTLoop,hr,if_pos hn]

lemma readINTLoop_cons (num : BitVec 32) (b : Byte) (bs : List Byte) :
    readINTLoop (fuel+1) c num (some (b::bs)) =
      if b = newline then some (num,some bs)
      else readINTLoop fuel b (num*10#32+digit b) (some bs) := by
  rw [readINTLoop,read]
  exact if_neg (by decide)

lemma readFLOATLoop_nil (x : Reading V) (h : fd.rest = []) :
    readFLOATLoop o (fuel+1) c x fd =
      if c = newline then some (x.num,fd) else readFLOATLoop o fuel c (x.push o c) fd := by
  obtain ⟨-,hr⟩ := read_of_rest_nil h c
  simp only [readFLOATLoop,hr]

lemma readFLOATLoop_cons (x : Reading V) (b : Byte) (bs : List Byte) :
    readFLOATLoop o (fuel+1) c x (some (b::bs)) =
      if b = newline then some (x.num,some bs)
      else readFLOATLoop o fuel b (x.push o b) (some bs) := rfl

/-- `readINT` returns at the latest when the file ends. -/
lemma readINTLoop_returns (num : BitVec 32) (h : fd.rest.length < fuel) :
    ∃ n fd', readINTLoop fuel c num fd = some (n,fd') := by
  induction fuel generalizing c num fd with
  | zero => omega
  | succ fuel ih =>
    obtain hnil | ⟨b,bs,rfl⟩ := fd.rest_cases
    · exact ⟨num,fd,readINTLoop_nil num hnil⟩
    · rw [readINTLoop_cons]
      split_ifs with hb
      · exact ⟨num,some bs,rfl⟩
      · apply ih
        simpa [Input.rest] using h

lemma readINTLoop_rest {num n : BitVec 32} (h : readINTLoop fuel c num fd = some (n,fd')) :
    fd'.rest = afterLine fd.rest := by
  induction fuel generalizing c num fd with
  | zero => simp [readINTLoop] at h
  | succ fuel ih =>
    obtain hnil | ⟨b,bs,rfl⟩ := fd.rest_cases
    · rw [readINTLoop_nil num hnil] at h
      obtain ⟨-,rfl⟩ := Prod.mk.inj (Option.some.inj h)
      rw [hnil,afterLine]
    · rw [readINTLoop_cons] at h
      change _ = afterLine (b::bs)
      rw [afterLine]
      split_ifs at h ⊢ with hb
      · obtain ⟨-,rfl⟩ := Prod.mk.inj (Option.some.inj h)
        rfl
      · exact ih h

/-- The text ends with a newline, or there is no text and the uninitialised variable of the
reader holds a newline. -/
def Terminated (c : Byte) (bs : List Byte) : Prop := newline ∈ bs ∨ bs = [] ∧ c = newline

instance (c : Byte) (bs : List Byte) : Decidable (Terminated c bs) :=
  inferInstanceAs (Decidable (_ ∨ _ ∧ _))

lemma terminated_cons {b : Byte} {bs : List Byte} :
    Terminated c (b::bs) ↔ b = newline ∨ Terminated b bs ∧ b ≠ newline := by
  by_cases hb : b = newline
  · simp [Terminated,hb]
  · simp [Terminated,hb,Ne.symm hb]

/-- At the end of the file `readFLOAT` goes round for ever unless its character is a newline. -/
lemma readFLOATLoop_stuck (x : Reading V) (h : fd.rest = []) (hc : c ≠ newline) :
    readFLOATLoop o fuel c x fd = none := by
  induction fuel generalizing x with
  | zero => rfl
  | succ fuel ih => rw [readFLOATLoop_nil x h,if_neg hc,ih]

lemma readFLOATLoop_returns (x : Reading V) (h : fd.rest.length < fuel)
    (ht : Terminated c fd.rest) : ∃ n fd', readFLOATLoop o fuel c x fd = some (n,fd') := by
  induction fuel generalizing c x fd with
  | zero => omega
  | succ fuel ih =>
    obtain hnil | ⟨b,bs,rfl⟩ := fd.rest_cases
    · rw [readFLOATLoop_nil x hnil]
      obtain hmem | ⟨-,hc⟩ := ht
      · simp [hnil] at hmem
      · exact ⟨x.num,fd,if_pos hc⟩
    · rw [readFLOATLoop_cons]
      obtain hb | ⟨ht,hb⟩ := terminated_cons.mp ht
      · exact ⟨x.num,some bs,if_pos hb⟩
      · rw [if_neg hb]
        exact ih _ (by simpa [Input.rest] using h) ht

lemma readFLOATLoop_rest {x : Reading V} {n : V}
    (h : readFLOATLoop o fuel c x fd = some (n,fd')) :
    Terminated c fd.rest ∧ fd'.rest = afterLine fd.rest := by
  induction fuel generalizing c x fd with
  | zero => simp [readFLOATLoop] at h
  | succ fuel ih =>
    obtain hnil | ⟨b,bs,rfl⟩ := fd.rest_cases
    · by_cases hc : c = newline
      · rw [readFLOATLoop_nil x hnil,if_pos hc] at h
        obtain ⟨-,rfl⟩ := Prod.mk.inj (Option.some.inj h)
        exact ⟨.inr ⟨hnil,hc⟩,by rw [hnil,afterLine]⟩
      · rw [readFLOATLoop_stuck x hnil hc] at h
        contradiction
    · rw [readFLOATLoop_cons] at h
      change Terminated c (b::bs) ∧ _ = afterLine (b::bs)
      rw [afterLine,terminated_cons]
      split_ifs at h ⊢ with hb
      · obtain ⟨-,rfl⟩ := Prod.mk.inj (Option.some.inj h)
        exact ⟨.inl hb,rfl⟩
      · obtain ⟨ht,hr⟩ := ih h
        exact ⟨.inr ⟨ht,hb⟩,hr⟩

/-- With a turn for every byte and one more `readINT` returns, and what it leaves is no longer
than what it found. -/
lemma readINT_returns (c : Byte) (h : fd.rest.length < fuel) :
    ∃ n fd', readINT fuel c fd = some (n,fd') ∧ fd'.rest = afterLine fd.rest ∧
      fd'.rest.length < fuel := by
  obtain ⟨n,fd',hr⟩ := readINTLoop_returns (c := c) 0#32 h
  have hrest := readINTLoop_rest hr
  exact ⟨n,fd',hr,hrest,hrest ▸ (length_afterLine_le fd.rest).trans_lt h⟩

lemma readFLOAT_returns (o : Decimal V) (h : fd.rest.length < fuel) (ht : Terminated c fd.rest) :
    ∃ n fd', readFLOAT o fuel c fd = some (n,fd') ∧ fd'.rest = afterLine fd.rest ∧
      fd'.rest.length < fuel := by
  obtain ⟨n,fd',hr⟩ := readFLOATLoop_returns (o := o) ⟨o.ofInt 0#32,o.ofInt 10#32,false⟩ h ht
  have hrest := (readFLOATLoop_rest hr).2
  exact ⟨n,fd',hr,hrest,hrest ▸ (length_afterLine_le fd.rest).trans_lt h⟩

end Turns

/-- Both numbers with a fraction, on the second and the third line, are terminated. -/
def FloatsTerminated (c : ℕ → Byte) (fd : Input) : Prop :=
  Terminated (c 1) (afterLine fd.rest) ∧ Terminated (c 2) (afterLine (afterLine fd.rest))

instance (c : ℕ → Byte) (fd : Input) : Decidable (FloatsTerminated c fd) :=
  inferInstanceAs (Decidable (_ ∧ _))

lemma floatsTerminated_of_readInput {fuel : ℕ} {c : ℕ → Byte} {fd : Input} {p : Parameters V}
    (h : readInput o fuel c fd = some p) : FloatsTerminated c fd := by
  simp only [readInput,Option.bind_eq_bind,Option.bind_eq_some_iff,Prod.exists] at h
  obtain ⟨N,fd₁,h₁,E,fd₂,h₂,T,fd₃,h₃,-⟩ := h
  have hr₁ := readINTLoop_rest h₁
  obtain ⟨ht₁,hr₂⟩ := readFLOATLoop_rest h₂
  obtain ⟨ht₂,-⟩ := readFLOATLoop_rest h₃
  rw [hr₁] at ht₁ hr₂
  rw [hr₂] at ht₂
  exact ⟨ht₁,ht₂⟩

/-- Reading the input comes to an end exactly if the second and the third line end with a
newline, up to what the stack happens to hold when there is no such line. -/
theorem readInput_returns_iff (o : Decimal V) (c : ℕ → Byte) (fd : Input) :
    (∃ fuel p, readInput o fuel c fd = some p) ↔ FloatsTerminated c fd := by
  constructor
  · rintro ⟨fuel,p,h⟩
    exact floatsTerminated_of_readInput h
  · rintro ⟨ht₁,ht₂⟩
    -- what is left only gets shorter, so the length of the file is enough for every call
    obtain ⟨N,fd₁,h₁,hr₁,hl₁⟩ := readINT_returns (c 0) (Nat.lt_succ_self fd.rest.length)
    rw [← hr₁] at ht₁ ht₂
    obtain ⟨E,fd₂,h₂,hr₂,hl₂⟩ := readFLOAT_returns o hl₁ ht₁
    rw [← hr₂] at ht₂
    obtain ⟨T,fd₃,h₃,-,hl₃⟩ := readFLOAT_returns o hl₂ ht₂
    obtain ⟨P,fd₄,h₄,-,hl₄⟩ := readINT_returns (c 3) hl₃
    obtain ⟨L,fd₅,h₅,-,-⟩ := readINT_returns (c 4) hl₄
    exact ⟨fd.rest.length.succ,⟨N,E,T,P,L⟩,by simp [readInput,h₁,h₂,h₃,h₄,h₅]⟩

/-- The operations of `readFLOAT` without rounding. -/
def Decimal.rational : Decimal ℚ where
  ofInt n := n.toInt
  add := (· + ·)
  mul := (· * ·)
  div := (· / ·)

/-- The input `19\n0.5`, which ends in the middle of the second line, is never read to its end. -/
theorem readInput_truncated :
    ¬ ∃ fuel p, readInput Decimal.rational fuel (fun _ => 0#8)
      (some [49#8,57#8,newline,48#8,point,53#8]) = some p := by
  rintro ⟨fuel,p,h⟩
  exact absurd (floatsTerminated_of_readInput h) (by decide)

end JacobiXv6.Jacobi
