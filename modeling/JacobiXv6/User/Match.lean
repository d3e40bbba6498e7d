import Mathlib.Computability.RegularExpressions
import JacobiXv6.Library.Memory

/-! The matcher of `grep.c`. A pattern and a text are strings: they end with their last byte, or
with a zero. -/
namespace JacobiXv6.User.Grep
open Library List

def caret : Byte := 94
def dollar : Byte := 36
def star : Byte := 42
def dot : Byte := 46

/-! ### The source -/

/-- The loop of `matchstar`; `here` is `matchhere` with the rest of the pattern. -/
def matchstar (here : List Byte → Bool) (c : Byte) : List Byte → Bool
  | [] => here []
  | x::text => here (x::text) || x ≠ 0 && (x = c || c = dot) && matchstar here c text

/-- One character of the text; `here` is `matchhere` with the rest of the pattern. -/
def matchone (here : List Byte → Bool) (c : Byte) : List Byte → Bool
  | [] => false
  | x::text => x ≠ 0 && (c = dot || c = x) && here text

def matchhere : List Byte → List Byte → Bool
  | [], _ => true
  | [c], text =>
    if c = 0 then true
    else if c = dollar then text.headD 0 = 0
    else matchone (matchhere []) c text
  | c::d::re, text =>
    if c = 0 then true
    else if d = star then matchstar (matchhere re) c text
    else if c = dollar ∧ d = 0 then text.headD 0 = 0
    else matchone (matchhere (d::re)) c text

/-- The loop of `match`. -/
def matchFrom (here : List Byte → Bool) : List Byte → Bool
  | [] => here []
  | x::text => here (x::text) || x ≠ 0 && matchFrom here text

/-- `match`. -/
def matchRe (re text : List Byte) : Bool :=
  if re.headD 0 = caret then matchhere re.tail text else matchFrom (matchhere re) text

/-! ### Regular expressions -/

/-- Any byte. -/
def any : RegularExpression Byte := (List.finRange 256).foldr (fun c r => .char (.ofFin c)+r) 0

/-- A character of a pattern. -/
def item (c : Byte) : RegularExpression Byte := if c = dot then any else .char c

/-- The regular expression of a pattern, and whether its match has to end with the text. -/
def regexp : List Byte → RegularExpression Byte×Bool
  | [] => (1,false)
  | [c] => if c = dollar then (1,true) else (item c,false)
  | c::d::re =>
    if d = star then ((item c).star*(regexp re).1,(regexp re).2)
    else (item c*(regexp (d::re)).1,(regexp (d::re)).2)

@[simp] lemma mem_char (c : Byte) (w : List Byte) : w ∈ (RegularExpression.char c).matches' ↔
    w = [c] := .rfl

lemma mem_any (w : List Byte) : w ∈ any.matches' ↔ ∃ x, w = [x] := by
  have hfold : ∀ l : List (Fin 256), w ∈
    (l.foldr (fun c r => .char (.ofFin c)+r) 0 : RegularExpression Byte).matches' ↔
      ∃ c ∈ l, w = [.ofFin c] := by
    intro l
    induction l with
    | nil => simp
    | cons c l ih =>
      rw [foldr_cons,RegularExpression.matches'_add,Language.mem_add,mem_char,ih]
      simp only [mem_cons,exists_eq_or_imp]
  rw [any,hfold]
  constructor
  · rintro ⟨c,-,hw⟩
    exact ⟨_,hw⟩
  · rintro ⟨x,hw⟩
    exact ⟨x.toFin,mem_finRange _,hw⟩

lemma mem_item (c : Byte) (w : List Byte) : w ∈ (item c).matches' ↔ ∃ x, w = [x] ∧
    (c = dot ∨ c = x) := by
  by_cases hc : c = dot
  · rw [item,if_pos hc,mem_any]
    simp only [hc,true_or,and_true]
  · rw [item,if_neg hc,mem_char]
    simp only [hc,false_or]
    constructor
    · intro hw
      exact ⟨c,hw,rfl⟩
    · rintro ⟨x,hw,rfl⟩
      exact hw

lemma mem_star_item (c : Byte) (w : List Byte) : w ∈ (item c).star.matches' ↔
    ∀ x ∈ w, c = dot ∨ c = x := by
  rw [RegularExpression.matches'_star,Language.mem_kstar]
  constructor
  · rintro ⟨words,rfl,hwords⟩ x hx
    obtain ⟨word,hword,hx⟩ := mem_flatten.mp hx
    obtain ⟨y,rfl,hy⟩ := (mem_item c word).mp (hwords word hword)
    rwa [mem_singleton.mp hx]
  · intro hw
    refine ⟨w.map fun x => [x],(flatMap_singleton' w).symm,fun word hword => ?_⟩
    obtain ⟨x,hx,rfl⟩ := mem_map.mp hword
    exact (mem_item c [x]).mpr ⟨x,rfl,hw x hx⟩

/-! ### The matcher and the regular expression -/

/-- The start of a text is in the language of the pattern, and is all of it where the pattern says
so. -/
def Begins (re text : List Byte) : Prop :=
  ∃ found after, text = found++after ∧ found ∈ (regexp re).1.matches' ∧
    ((regexp re).2 = true → after = [])

lemma matchstar_iff (here : List Byte → Bool) (c : Byte) (text : List Byte) (hz : 0 ∉ text) :
    matchstar here c text = true ↔ ∃ run rest, text = run++rest ∧ (∀ x ∈ run, c = dot ∨ c = x) ∧
      here rest = true := by
  induction text with
  | nil =>
    simp only [matchstar,nil_eq_append_iff]
    constructor
    · intro h
      exact ⟨[],[],⟨rfl,rfl⟩,by simp,h⟩
    · rintro ⟨run,rest,⟨rfl,rfl⟩,-,h⟩
      exact h
  | cons x text ih =>
    simp only [mem_cons,not_or] at hz
    simp only [matchstar,Bool.or_eq_true,Bool.and_eq_true,decide_eq_true_eq,ih hz.2]
    constructor
    · rintro (h | ⟨⟨-,hx⟩,run,rest,rfl,hrun,h⟩)
      · exact ⟨[],x::text,rfl,by simp,h⟩
      · refine ⟨x::run,rest,rfl,?_,h⟩
        simp only [mem_cons,forall_eq_or_imp]
        exact ⟨hx.symm.imp_right Eq.symm,hrun⟩
    · rintro ⟨run,rest,htext,hrun,h⟩
      cases run with
      | nil => exact .inl (by rwa [htext])
      | cons y run =>
        obtain ⟨rfl,rfl⟩ := List.cons.inj htext
        simp only [mem_cons,forall_eq_or_imp] at hrun
        exact .inr ⟨⟨Ne.symm hz.1,hrun.1.symm.imp_left Eq.symm⟩,run,rest,rfl,hrun.2,h⟩

lemma matchone_iff (here : List Byte → Bool) (c : Byte) (text : List Byte) (hz : 0 ∉ text) :
    matchone here c text = true ↔ ∃ x rest, text = x::rest ∧ (c = dot ∨ c = x) ∧ here rest = true := by
  cases text with
  | nil => simp [matchone]
  | cons x text =>
    simp only [mem_cons,not_or] at hz
    have hx : x ≠ 0 := Ne.symm hz.1
    simp only [matchone,Bool.and_eq_true,Bool.or_eq_true,decide_eq_true_eq,List.cons.injEq]
    constructor
    · rintro ⟨⟨-,hc⟩,h⟩
      exact ⟨x,text,⟨rfl,rfl⟩,hc,h⟩
    · rintro ⟨y,rest,⟨rfl,rfl⟩,hc,h⟩
      exact ⟨⟨hx,hc⟩,h⟩

lemma begins_nil (text : List Byte) : Begins [] text :=
  ⟨[],text,rfl,Language.nil_mem_one,by simp [regexp]⟩

/-- A final `$` is the end of the text. -/
lemma begins_dollar (text : List Byte) : Begins [dollar] text ↔ text = [] := by
  simp only [Begins,regexp,if_pos,RegularExpression.matches'_epsilon,Language.mem_one,forall_const]
  constructor
  · rintro ⟨found,after,rfl,rfl,rfl⟩
    rfl
  · rintro rfl
    exact ⟨[],[],rfl,rfl,rfl⟩

lemma begins_item {c : Byte} {re text : List Byte}
    (hexp : (regexp (c::re)).1.matches' = (item c).matches'*(regexp re).1.matches')
    (hend : (regexp (c::re)).2 = (regexp re).2) :
    Begins (c::re) text ↔ ∃ x rest, text = x::rest ∧ (c = dot ∨ c = x) ∧ Begins re rest := by
  simp only [Begins,hexp,hend,Language.mem_mul,mem_item]
  constructor
  · rintro ⟨_,after,rfl,⟨_,⟨x,rfl,hx⟩,found,hfound,rfl⟩,hafter⟩
    exact ⟨x,found++after,rfl,hx,found,after,rfl,hfound,hafter⟩
  · rintro ⟨x,_,rfl,hx,found,after,rfl,hfound,hafter⟩
    exact ⟨x::found,after,rfl,⟨[x],⟨x,rfl,hx⟩,found,hfound,rfl⟩,hafter⟩

lemma begins_star (c : Byte) (re text : List Byte) :
    Begins (c::star::re) text ↔ ∃ run rest, text = run++rest ∧ (∀ x ∈ run, c = dot ∨ c = x) ∧
      Begins re rest := by
  simp only [Begins,regexp,if_pos,RegularExpression.matches'_mul,Language.mem_mul,mem_star_item]
  constructor
  · rintro ⟨_,after,rfl,⟨run,hrun,found,hfound,rfl⟩,hafter⟩
    exact ⟨run,found++after,append_assoc _ _ _,hrun,found,after,rfl,hfound,hafter⟩
  · rintro ⟨run,_,rfl,hrun,found,after,rfl,hfound,hafter⟩
    exact ⟨run++found,after,(append_assoc _ _ _).symm,⟨run,hrun,found,hfound,rfl⟩,hafter⟩

lemma headD_eq_zero {text : List Byte} (hz : 0 ∉ text) : text.headD 0 = 0 ↔ text = [] := by
  cases text with
  | nil => simp
  | cons x text =>
    simp only [mem_cons,not_or] at hz
    simpa using Ne.symm hz.1

/-- The search at the start of a text, by recursion on the pattern as `matchhere` takes it apart. -/
lemma matchhere_iff (re : List Byte) (hre : 0 ∉ re) : ∀ text, 0 ∉ text →
    (matchhere re text = true ↔ Begins re text) := by
  induction re using regexp.induct with
  | case1 =>
    intro text _
    simp only [matchhere,begins_nil]
  | case2 =>
    intro text hz
    have hc : dollar ≠ 0 := by decide
    simp only [matchhere,if_neg hc,if_pos,decide_eq_true_eq,headD_eq_zero hz,begins_dollar]
  | case3 c hdollar =>
    intro text hz
    have hc : c ≠ 0 := Ne.symm (ne_of_not_mem_cons hre)
    have hexp : (regexp [c]).1.matches' = (item c).matches'*(regexp []).1.matches' := by
      simp [regexp,hdollar]
    have hend : (regexp [c]).2 = (regexp []).2 := by simp [regexp,hdollar]
    rw [matchhere,if_neg hc,if_neg hdollar,matchone_iff _ _ _ hz,begins_item hexp hend]
    simp only [matchhere,begins_nil]
  | case4 c re ih =>
    intro text hz
    simp only [mem_cons,not_or] at hre
    rw [matchhere,if_neg (Ne.symm hre.1),if_pos rfl,matchstar_iff _ _ _ hz,begins_star]
    refine exists_congr fun run => exists_congr fun rest => and_congr_right fun htext =>
      and_congr_right fun _ => ?_
    exact ih hre.2.2 rest fun h => hz (htext ▸ mem_append_right run h)
  | case5 c d re hd ih =>
    intro text hz
    have hc : c ≠ 0 := Ne.symm (ne_of_not_mem_cons hre)
    have hre' : 0 ∉ d::re := not_mem_of_not_mem_cons hre
    have hend : ¬(c = dollar ∧ d = 0) := fun h => ne_of_not_mem_cons hre' h.2.symm
    have hexp : (regexp (c::d::re)).1.matches' = (item c).matches'*(regexp (d::re)).1.matches' := by
      rw [regexp,if_neg hd,RegularExpression.matches'_mul]
    have hflag : (regexp (c::d::re)).2 = (regexp (d::re)).2 := by rw [regexp,if_neg hd]
    rw [matchhere,if_neg hc,if_neg hd,if_neg hend,matchone_iff _ _ _ hz,begins_item hexp hflag]
    refine exists_congr fun x => exists_congr fun rest => and_congr_right fun htext =>
      and_congr_right fun _ => ?_
    exact ih hre' rest fun h => hz (htext ▸ mem_cons_of_mem x h)

lemma matchFrom_iff (here : List Byte → Bool) (text : List Byte) (hz : 0 ∉ text) :
    matchFrom here text = true ↔ ∃ before rest, text = before++rest ∧ here rest = true := by
  induction text with
  | nil => simp [matchFrom]
  | cons x text ih =>
    simp only [mem_cons,not_or] at hz
    simp only [matchFrom,Bool.or_eq_true,Bool.and_eq_true,decide_eq_true_eq,ih hz.2]
    constructor
    · rintro (h | ⟨-,before,rest,rfl,h⟩)
      · exact ⟨[],x::text,rfl,h⟩
      · exact ⟨x::before,rest,rfl,h⟩
    · rintro ⟨before,rest,htext,h⟩
      cases before with
      | nil => exact .inl (by rwa [htext])
      | cons y before =>
        obtain ⟨rfl,rfl⟩ := List.cons.inj htext
        exact .inr ⟨Ne.symm hz.1,before,rest,rfl,h⟩

/-- A text matches if a substring of it is in the language of the pattern: the start of it after a
`^`, the end of it before a final `$`. -/
theorem matchRe_iff (re text : List Byte) (hre : 0 ∉ re) (hz : 0 ∉ text) :
    matchRe re text = true ↔ ∃ before found after, text = before++found++after ∧
      (re.headD 0 = caret → before = []) ∧
      found ∈ (regexp (if re.headD 0 = caret then re.tail else re)).1.matches' ∧
      ((regexp (if re.headD 0 = caret then re.tail else re)).2 = true → after = []) := by
  by_cases hcaret : re.headD 0 = caret
  · have htail : 0 ∉ re.tail := fun h => hre (mem_of_mem_tail h)
    rw [matchRe,if_pos hcaret,if_pos hcaret,matchhere_iff _ htail _ hz]
    constructor
    · rintro ⟨found,after,rfl,hfound,hafter⟩
      exact ⟨[],found,after,rfl,fun _ => rfl,hfound,hafter⟩
    · rintro ⟨before,found,after,rfl,hbefore,hfound,hafter⟩
      rw [hbefore hcaret]
      exact ⟨found,after,rfl,hfound,hafter⟩
  · rw [matchRe,if_neg hcaret,if_neg hcaret,matchFrom_iff _ _ hz]
    constructor
    · rintro ⟨before,rest,rfl,h⟩
      have hrest : 0 ∉ rest := fun h => hz (mem_append_right before h)
      obtain ⟨found,after,rfl,hfound,hafter⟩ := (matchhere_iff re hre rest hrest).mp h
      exact ⟨before,found,after,(append_assoc _ _ _).symm,fun h => absurd h hcaret,hfound,hafter⟩
    · rintro ⟨before,found,after,rfl,-,hfound,hafter⟩
      rw [append_assoc] at hz ⊢
      have hrest : 0 ∉ found++after := fun h => hz (mem_append_right before h)
      exact ⟨before,found++after,rfl,(matchhere_iff re hre _ hrest).mpr ⟨found,after,rfl,hfound,hafter⟩⟩

/-- The pattern `b*c$` finds the end of the text `abbc`. -/
theorem matchRe_iff_abbc : ∃ before found after, [97,98,98,99] = before++found++after ∧
    ([98,42,99,36].headD 0 = caret → before = []) ∧
    found ∈ (regexp
      (if [98,42,99,36].headD 0 = caret then [98,42,99,36].tail else [98,42,99,36])).1.matches' ∧
    ((regexp (if [98,42,99,36].headD 0 = caret then [98,42,99,36].tail else [98,42,99,36])).2 =
      true → after = []) :=
  (matchRe_iff [98,42,99,36] [97,98,98,99] (by decide) (by decide)).mp (by decide)

end JacobiXv6.User.Grep
