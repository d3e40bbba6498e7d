import Mathlib.Data.List.GetD
import JacobiXv6.Library.Memory
import JacobiXv6.Library.Routine

/-! The tokens of a command line, as `gettoken` and `peek` of `sh.c` find them. The line has no zero
in it; its terminator stands at `line.length`, where `es` points. -/
namespace JacobiXv6.User.Sh
open Library List

def whitespace : List Byte := [32,9,13,10,11]
/-- The bytes of `<|>&;()`. -/
def symbols : List Byte := [60,124,62,38,59,40,41]

/-- What `gettoken` returns, but for the zero at the end of the line: `append` is its `'+'` and
`word` its `'a'`. -/
inductive Kind
  | bar | lparen | rparen | semi | amp | lt | gt | append | word
  deriving DecidableEq, Repr

/-! ### The source -/

/-- Reading `*s`. -/
def fetch (line : List Byte) (s : ℕ) : Routine ℕ Byte :=
  if s ≤ line.length then pure (line.getD s 0) else throw "read past the terminator"

/-- The loop `while(s < es && accept(*s)) s++`, with the bytes that are left up to `es`. -/
def scan (accept : Byte → Bool) (line : List Byte) : ℕ → ℕ → ℕ
  | 0, s => s
  | n+1, s => if accept (line.getD s 0) then scan accept line n (s+1) else s

def isSpace (c : Byte) : Bool := c ∈ whitespace
def isWord (c : Byte) : Bool := c ∉ whitespace ∧ c ∉ symbols

def skipSpace (line : List Byte) (s : ℕ) : ℕ := scan isSpace line (line.length-s) s
def skipWord (line : List Byte) (s : ℕ) : ℕ := scan isWord line (line.length-s) s

/-- The tokens of one byte that no longer token begins with. -/
def symbol (c : Byte) : Option Kind :=
  if c = 124 then some .bar
  else if c = 40 then some .lparen
  else if c = 41 then some .rparen
  else if c = 59 then some .semi
  else if c = 38 then some .amp
  else if c = 60 then some .lt
  else none

/-- The switch of `gettoken` at a byte `c`. -/
def recognise (line : List Byte) (s : ℕ) (c : Byte) : Routine ℕ (Option Kind×ℕ) :=
  if c = 0 then pure (none,s)
  else if c = 62 then do
    let d ← fetch line (s+1)
    if d = 62 then pure (some .append,s+2) else pure (some .gt,s+1)
  else
    match symbol c with
    | some kind => pure (some kind,s+1)
    | none => pure (some .word,skipWord line s)

/-- `gettoken`, on `*ps`: the token, `*q` and `*eq`. -/
def gettoken (line : List Byte) : Routine ℕ (Option Kind×ℕ×ℕ) := do
  let s := skipSpace line (← get)
  let c ← fetch line s
  let token ← recognise line s c
  set (skipSpace line token.2)
  return (token.1,s,token.2)

def peek (line toks : List Byte) : Routine ℕ Bool := do
  let s := skipSpace line (← get)
  set s
  let c ← fetch line s
  return c ≠ 0 && c ∈ toks

/-! ### The token sequence -/

/-- A token stands in the line from `start` up to `stop`. -/
structure Token where
  kind : Kind
  start : ℕ
  stop : ℕ
  deriving DecidableEq, Repr

/-- The token at the start of a text that begins with `c`, and its width. -/
def first (c : Byte) (rest : List Byte) : Kind×ℕ :=
  if c = 62 then if rest.head? = some 62 then (.append,2) else (.gt,1)
  else
    match symbol c with
    | some kind => (kind,1)
    | none => (.word,((c::rest).takeWhile isWord).length)

/-- The first token from `s` on, behind the blanks. -/
def next (line : List Byte) (s : ℕ) : Option Token :=
  let start := s+((line.drop s).takeWhile isSpace).length
  match line.drop start with
  | [] => none
  | c::rest => some ⟨(first c rest).1,start,start+(first c rest).2⟩

variable {c : Byte}

/-- What `gettoken` takes for a word begins with a byte of a word. -/
lemma isWord_of_symbol (hspace : isSpace c = false) (hgt : c ≠ 62) (hsymbol : symbol c = none) :
    isWord c = true := by
  have hmem : c ∉ symbols := by
    unfold symbol at hsymbol
    split_ifs at hsymbol
    simp only [symbols,mem_cons,not_mem_nil]
    tauto
  have hblank : c ∉ whitespace := by simpa [isSpace] using hspace
  simp [isWord,hblank,hmem]

lemma first_width (rest : List Byte) (hspace : isSpace c = false) :
    1 ≤ (first c rest).2 ∧ (first c rest).2 ≤ rest.length+1 := by
  unfold first
  split_ifs with hgt happend
  · cases rest with
    | nil => simp at happend
    | cons d rest => simp
  · simp
  · cases hsymbol : symbol c with
    | some kind => simp
    | none =>
      have hword := isWord_of_symbol hspace hgt hsymbol
      have hle := (takeWhile_sublist isWord (l := rest)).length_le
      simp only [takeWhile_cons,hword,if_true,length_cons]
      omega

/-- Behind the blanks from `s` on. -/
lemma drop_spaces (line : List Byte) (s : ℕ) :
    line.drop (s+((line.drop s).takeWhile isSpace).length) = (line.drop s).dropWhile isSpace := by
  rw [← drop_drop]
  nth_rewrite 2 [← takeWhile_append_dropWhile (p := isSpace) (l := line.drop s)]
  exact drop_left

variable {rest : List Byte}

lemma isSpace_of_dropWhile {l : List Byte} (h : l.dropWhile isSpace = c::rest) : isSpace c = false := by
  have hhead := head?_dropWhile_not isSpace l
  rw [h] at hhead
  exact hhead

variable {s : ℕ} {line : List Byte} {t : Token}

lemma next_bounds (h : next line s = some t) :
    s ≤ t.start ∧ t.start < t.stop ∧ t.stop ≤ line.length := by
  unfold next at h
  cases hdrop : line.drop (s+((line.drop s).takeWhile isSpace).length) with
  | nil => simp [hdrop] at h
  | cons c rest =>
    have hspace := isSpace_of_dropWhile ((drop_spaces line s).symm.trans hdrop)
    have hlen := congrArg List.length hdrop
    obtain ⟨hpos,hle⟩ := first_width rest hspace
    simp only [hdrop,Option.some.injEq] at h
    rw [← h]
    simp only [length_drop,length_cons] at hlen ⊢
    omega

/-- The tokens from `s` on. -/
def tokens (line : List Byte) (s : ℕ) : List Token :=
  match _h : next line s with
  | none => []
  | some t => t::tokens line t.stop
termination_by line.length-s
decreasing_by
  have hbounds := next_bounds ‹_›
  omega

lemma tokens_none (h : next line s = none) : tokens line s = [] := by
  rw [tokens]
  split
  · rfl
  · simp_all

lemma tokens_some (h : next line s = some t) :
    tokens line s = t::tokens line t.stop := by
  rw [tokens]
  split
  · simp_all
  · simp_all

lemma tokens_length_le (line : List Byte) (s : ℕ) : (tokens line s).length ≤ line.length-s := by
  induction s using tokens.induct line with
  | case1 s h => simp [tokens_none h]
  | case2 s t h ih =>
    have hbounds := next_bounds h
    rw [tokens_some h,length_cons]
    omega

/-! ### The helpers find the tokens -/

lemma scan_eq (accept : Byte → Bool) (line : List Byte) (n s : ℕ) (h : n = line.length-s) :
    scan accept line n s = s+((line.drop s).takeWhile accept).length := by
  induction n generalizing s with
  | zero => simp [scan,drop_eq_nil_of_le (show line.length ≤ s by omega)]
  | succ n ih =>
    have hs : s < line.length := by omega
    rw [scan,drop_eq_getElem_cons hs,getD_eq_getElem _ _ hs,takeWhile_cons]
    split_ifs with haccept
    · rw [ih (s+1) (by omega),length_cons]
      omega
    · rfl

lemma skipSpace_eq (line : List Byte) (s : ℕ) :
    skipSpace line s = s+((line.drop s).takeWhile isSpace).length :=
  scan_eq isSpace line _ s rfl

lemma skipWord_eq (line : List Byte) (s : ℕ) :
    skipWord line s = s+((line.drop s).takeWhile isWord).length :=
  scan_eq isWord line _ s rfl

lemma skipSpace_le (h : s ≤ line.length) : skipSpace line s ≤ line.length := by
  have hle := (takeWhile_sublist isSpace (l := line.drop s)).length_le
  rw [length_drop] at hle
  rw [skipSpace_eq]
  omega

lemma next_skipSpace (line : List Byte) (s : ℕ) : next line (skipSpace line s) = next line s := by
  have htwice : (line.drop (skipSpace line s)).takeWhile isSpace = [] := by
    rw [skipSpace_eq,drop_spaces]
    cases hdrop : (line.drop s).dropWhile isSpace with
    | nil => rfl
    | cons c rest => simp [isSpace_of_dropWhile hdrop]
  unfold next
  rw [htwice,length_nil,Nat.add_zero,skipSpace_eq]

lemma tokens_skipSpace (line : List Byte) (s : ℕ) : tokens line (skipSpace line s) = tokens line s := by
  cases h : next line s with
  | none => rw [tokens_none h,tokens_none ((next_skipSpace line s).trans h)]
  | some t => rw [tokens_some h,tokens_some ((next_skipSpace line s).trans h)]

/-- `*ps` stands inside the line, and these tokens are left. -/
def At (line : List Byte) (ts : List Token) (s : ℕ) : Prop := s ≤ line.length ∧ tokens line s = ts

variable {ts : List Token}

lemma At.skipSpace (h : At line ts s) :
    At line ts (skipSpace line s) := ⟨skipSpace_le h.1,(tokens_skipSpace line s).trans h.2⟩

lemma fetch_eq {p : ℕ} (h : s ≤ line.length) : fetch line s p = .ok (line.getD s 0,p) := by
  rw [fetch,if_pos h]
  rfl

lemma next_eq_none (hs : s ≤ line.length) (h : next line s = none) :
    skipSpace line s = line.length := by
  have hle := skipSpace_le hs
  unfold next at h
  rw [← skipSpace_eq] at h
  cases hdrop : line.drop (skipSpace line s) with
  | nil =>
    have hge := drop_eq_nil_iff.mp hdrop
    omega
  | cons c rest => simp [hdrop] at h

lemma next_eq_some (h : next line s = some t) :
    ∃ c rest, line.drop (skipSpace line s) = c::rest ∧ isSpace c = false ∧
      t = ⟨(first c rest).1,skipSpace line s,skipSpace line s+(first c rest).2⟩ := by
  unfold next at h
  rw [← skipSpace_eq] at h
  cases hdrop : line.drop (skipSpace line s) with
  | nil => simp [hdrop] at h
  | cons c rest =>
    simp only [hdrop,Option.some.injEq] at h
    refine ⟨c,rest,rfl,?_,h.symm⟩
    rw [skipSpace_eq,drop_spaces] at hdrop
    exact isSpace_of_dropWhile hdrop

/-- The byte that a token other than a word begins with. -/
def Kind.initial : Kind → Option Byte
  | .bar => some 124
  | .lparen => some 40
  | .rparen => some 41
  | .semi => some 59
  | .amp => some 38
  | .lt => some 60
  | .gt | .append => some 62
  | .word => none

def Kind.opens (toks : List Byte) (kind : Kind) : Bool := kind.initial.any (· ∈ toks)

/-- What `peek` says of the tokens that are left. -/
def peeked (toks : List Byte) : List Token → Bool
  | [] => false
  | t::_ => t.kind.opens toks

lemma symbol_eq_some {kind : Kind} (h : symbol c = some kind) : kind.initial = some c ∧
    c ∈ symbols := by
  unfold symbol at h
  split_ifs at h with hc hc hc hc hc hc <;> cases h <;> rw [hc] <;> exact ⟨rfl,by decide⟩

lemma initial_first (rest : List Byte) (hspace : isSpace c = false) :
    (first c rest).1.initial = if c ∈ symbols then some c else none := by
  by_cases hgt : c = 62
  · have hmem : c ∈ symbols := by
      rw [hgt]
      decide
    rw [first,if_pos hgt,if_pos hmem,hgt]
    split_ifs <;> rfl
  · rw [first,if_neg hgt]
    cases hsymbol : symbol c with
    | none =>
      have hmem : c ∉ symbols := by
        have hword := isWord_of_symbol hspace hgt hsymbol
        simp_all [isWord]
      rw [if_neg hmem]
      rfl
    | some kind =>
      obtain ⟨hinitial,hmem⟩ := symbol_eq_some hsymbol
      rw [if_pos hmem]
      exact hinitial

lemma getD_of_drop {text : List Byte} (h : text.drop s = c::rest) : text.getD s 0 = c := by
  have hget : text[s]? = some c := by
    rw [← head?_drop,h]
    rfl
  rw [getD_eq_getElem?_getD,hget]
  rfl

lemma peek_eq {toks : List Byte} (hz : 0 ∉ line) (htoks : ∀ c ∈ toks, c ∈ symbols)
    (h : At line ts s) : peek line toks s = .ok (peeked toks ts,skipSpace line s) := by
  have hpeek : peek line toks s =
      (fetch line (skipSpace line s) >>= fun c => pure (c ≠ 0 && c ∈ toks)) (skipSpace line s) :=
    rfl
  obtain ⟨hs,rfl⟩ := h
  rw [hpeek,bind_of_ok (fetch_eq (skipSpace_le hs))]
  cases hnext : next line s with
  | none =>
    rw [tokens_none hnext,next_eq_none hs hnext,getD_eq_default _ _ le_rfl]
    rfl
  | some t =>
    obtain ⟨c,rest,hdrop,hspace,rfl⟩ := next_eq_some hnext
    have hc : c ≠ 0 := by
      rintro rfl
      exact hz (mem_of_mem_drop (hdrop ▸ mem_cons_self))
    rw [tokens_some hnext,getD_of_drop hdrop,peeked,Kind.opens,initial_first rest hspace]
    by_cases hmem : c ∈ symbols
    · rw [if_pos hmem,decide_eq_true hc]
      rfl
    · have hnot : c ∉ toks := fun h => hmem (htoks c h)
      rw [if_neg hmem,decide_eq_false hnot,Bool.and_false]
      rfl

lemma recognise_eq (p : ℕ) (hdrop : line.drop s = c::rest) (hc : c ≠ 0) :
    recognise line s c p = .ok ((some (first c rest).1,s+(first c rest).2),p) := by
  have hs : s < line.length := by
    have hlen := congrArg List.length hdrop
    simp only [length_drop,length_cons] at hlen
    omega
  rw [recognise,if_neg hc,first]
  by_cases hgt : c = 62
  · rw [if_pos hgt,if_pos hgt,bind_of_ok (fetch_eq hs)]
    have hrest : line.drop (s+1) = rest := by rw [← drop_drop,hdrop,drop_one,tail_cons]
    cases rest with
    | nil =>
      rw [getD_eq_default _ _ (drop_eq_nil_iff.mp hrest)]
      rfl
    | cons d rest =>
      rw [getD_of_drop hrest]
      by_cases hd : d = 62
      · rw [if_pos hd,if_pos (show (d::rest).head? = some 62 from congrArg some hd)]
        rfl
      · have hhead : ¬(d::rest).head? = some 62 := fun h => hd (Option.some.inj h)
        rw [if_neg hd,if_neg hhead]
        rfl
  · rw [if_neg hgt,if_neg hgt]
    cases hsymbol : symbol c with
    | none =>
      rw [skipWord_eq,hdrop]
      rfl
    | some kind => rfl

/-- `gettoken` from the byte behind the blanks on. -/
lemma gettoken_eq (hs : s ≤ line.length) :
    gettoken line s =
      (recognise line (skipSpace line s) (line.getD (skipSpace line s) 0) >>= fun token => do
      set (skipSpace line token.2)
      return (token.1,skipSpace line s,token.2)) s := by
  have hget : gettoken line s = (fetch line (skipSpace line s) >>= fun c =>
      recognise line (skipSpace line s) c >>= fun token => do
        set (skipSpace line token.2)
        return (token.1,skipSpace line s,token.2)) s := rfl
  rw [hget,bind_of_ok (fetch_eq (skipSpace_le hs))]

/-- `gettoken` takes the first of the tokens that are left. -/
lemma gettoken_cons (hz : 0 ∉ line) (h : At line (t::ts) s) :
    gettoken line s = .ok ((some t.kind,t.start,t.stop),skipSpace line t.stop) ∧
      At line ts (skipSpace line t.stop) := by
  obtain ⟨hs,hts⟩ := h
  cases hnext : next line s with
  | none => simp [tokens_none hnext] at hts
  | some t' =>
    rw [tokens_some hnext] at hts
    obtain ⟨rfl,rfl⟩ := List.cons.inj hts
    have hstop : At line (tokens line t'.stop) t'.stop := ⟨(next_bounds hnext).2.2,rfl⟩
    refine ⟨?_,hstop.skipSpace⟩
    obtain ⟨c,rest,hdrop,-,rfl⟩ := next_eq_some hnext
    have hc : c ≠ 0 := by
      rintro rfl
      exact hz (mem_of_mem_drop (hdrop ▸ mem_cons_self))
    rw [gettoken_eq hs,getD_of_drop hdrop,bind_of_ok (recognise_eq s hdrop hc)]
    rfl

lemma gettoken_nil (h : At line [] s) :
    ∃ q s', gettoken line s = .ok ((none,q),s') ∧ At line [] s' := by
  obtain ⟨hs,hts⟩ := h
  cases hnext : next line s with
  | some t => simp [tokens_some hnext] at hts
  | none =>
    have hend := next_eq_none hs hnext
    have hat : At line [] line.length := by
      have hlen := tokens_length_le line line.length
      rw [Nat.sub_self,Nat.le_zero,length_eq_zero_iff] at hlen
      exact ⟨le_rfl,hlen⟩
    refine ⟨(line.length,line.length),skipSpace line line.length,?_,hat.skipSpace⟩
    rw [gettoken_eq hs,hend,getD_eq_default _ _ le_rfl]
    rfl

/-! ### Words -/

/-- The bytes of a word are not blank and no symbols, and the byte behind it, if the line goes on,
is one of them. -/
structure Token.IsWord (line : List Byte) (t : Token) : Prop where
  bounds : t.start < t.stop ∧ t.stop ≤ line.length
  inside : ∀ i, t.start ≤ i → i < t.stop → isWord (line.getD i 0) = true
  outside : t.stop < line.length → isWord (line.getD t.stop 0) = false

lemma getD_drop (text : List Byte) (s i : ℕ) : (text.drop s).getD i 0 = text.getD (s+i) 0 := by
  rw [getD_eq_getElem?_getD,getElem?_drop,getD_eq_getElem?_getD]

lemma takeWhile_getD (accept : Byte → Bool) (text : List Byte) :
    (∀ i < (text.takeWhile accept).length, accept (text.getD i 0) = true) ∧
      ((text.takeWhile accept).length < text.length →
        accept (text.getD (text.takeWhile accept).length 0) = false) := by
  induction text with
  | nil => simp
  | cons c text ih =>
    by_cases hc : accept c = true
    · rw [takeWhile_cons_of_pos hc,length_cons,length_cons,getD_cons_succ]
      refine ⟨fun i hi => ?_,fun h => ih.2 (by omega)⟩
      cases i with
      | zero => exact hc
      | succ i => exact ih.1 i (by omega)
    · rw [takeWhile_cons_of_neg hc]
      simpa using hc

lemma next_isWord (h : next line s = some t) (hword : t.kind = .word) :
    t.IsWord line := by
  have hbounds := next_bounds h
  obtain ⟨c,rest,hdrop,hspace,rfl⟩ := next_eq_some h
  have hwidth : (first c rest).2 = ((line.drop (skipSpace line s)).takeWhile isWord).length := by
    rw [hdrop]
    simp only [first] at hword ⊢
    split_ifs at hword ⊢ with hgt happend
    cases hsymbol : symbol c with
    | none => rfl
    | some kind =>
      rw [hsymbol] at hword
      have hinitial := (symbol_eq_some hsymbol).1
      rw [show kind = .word from hword] at hinitial
      exact absurd hinitial.symm (Option.some_ne_none c)
  obtain ⟨hinside,houtside⟩ := takeWhile_getD isWord (line.drop (skipSpace line s))
  rw [← hwidth] at hinside houtside
  constructor
  · exact ⟨hbounds.2.1,hbounds.2.2⟩
  · intro i hi hstop
    have h := hinside (i-skipSpace line s) (by simp only at hi hstop; omega)
    rwa [getD_drop,Nat.add_sub_cancel' hi] at h
  · intro hstop
    have h := houtside (by simp only [length_drop] at hstop ⊢; omega)
    rwa [getD_drop] at h

lemma tokens_isWord (line : List Byte) (s : ℕ) : ∀ t ∈ tokens line s, t.kind = .word →
    t.IsWord line := by
  induction s using tokens.induct line with
  | case1 s h => simp [tokens_none h]
  | case2 s t h ih =>
    rw [tokens_some h]
    exact forall_mem_cons.mpr ⟨next_isWord h,ih⟩

end JacobiXv6.User.Sh
