import JacobiXv6.User.Match

/-! The loop of `grep.c` over the chunks that `read` delivers. The part of a line that ends a chunk
stays in the buffer, but only if the chunk completed a line: otherwise `p == buf` after the inner
loop, and the buffer is emptied. -/
namespace JacobiXv6.User.Grep
open Library List

def newline : Byte := 10

/-! ### The source -/

/-- What `strchr(p, '\n')` finds: the text before the newline and the text behind it. -/
def strchr : List Byte → Option (List Byte×List Byte)
  | [] => none
  | x::p =>
    if x = 0 then none
    else if x = newline then some ([],p)
    else (strchr p).map fun (line,q) => (x::line,q)

variable {p line q : List Byte}

lemma strchr_eq_some (h : strchr p = some (line,q)) :
    p = line++newline::q ∧ newline ∉ line ∧ 0 ∉ line := by
  induction p generalizing line with
  | nil => simp [strchr] at h
  | cons x p ih =>
    simp only [strchr] at h
    split_ifs at h with hx hnew
    · cases h
      simp [hnew]
    · obtain ⟨⟨line,q⟩,hp,heq⟩ := Option.map_eq_some_iff.mp h
      cases heq
      obtain ⟨rfl,hline,hzero⟩ := ih hp
      simp only [mem_cons,not_or]
      exact ⟨rfl,⟨Ne.symm hnew,hline⟩,Ne.symm hx,hzero⟩

lemma strchr_length (h : strchr p = some (line,q)) : q.length < p.length := by
  obtain ⟨rfl,-⟩ := strchr_eq_some h
  simp only [length_append,length_cons]
  omega

/-- The inner loop: what it writes. -/
def written (re p : List Byte) : List Byte :=
  match _h : strchr p with
  | none => []
  | some (line,q) => (if matchRe re line then line++[newline] else [])++written re q
termination_by p.length
decreasing_by exact strchr_length ‹_›

/-- The inner loop: where it leaves `p`. -/
def rest (p : List Byte) : List Byte :=
  match _h : strchr p with
  | none => p
  | some (_,q) => rest q
termination_by p.length
decreasing_by exact strchr_length ‹_›

/-- The buffer that the next read extends: nothing if `p == buf`. -/
def kept (buf : List Byte) : List Byte := if (rest buf).length = buf.length then [] else rest buf

/-- The loop of `grep`, with what is in the buffer and the chunks that `read` will deliver. -/
def grep (re : List Byte) : List Byte → List (List Byte) → List Byte
  | _, [] => []
  | buf, chunk::chunks => written re (buf++chunk)++grep re (kept (buf++chunk)) chunks

/-- What `read` can deliver: something, as long as the buffer has room for it. -/
def Delivered : List Byte → List (List Byte) → Prop
  | _, [] => True
  | buf, chunk::chunks => chunk ≠ [] ∧ buf.length+chunk.length ≤ 1023 ∧
    Delivered (kept (buf++chunk)) chunks

/-! ### Lines -/

/-- A text with these lines. -/
def text (lines : List (List Byte)) : List Byte := lines.flatMap (·++[newline])

@[simp] lemma text_cons (line : List Byte) (lines : List (List Byte)) :
    text (line::lines) = line++newline::text lines := by simp [text]

lemma written_none {re : List Byte} (h : strchr p = none) : written re p = [] := by
  rw [written]
  split
  · rfl
  · simp_all

lemma written_some {re : List Byte} (h : strchr p = some (line,q)) :
    written re p = (if matchRe re line then line++[newline] else [])++written re q := by
  rw [written]
  split
  · simp_all
  · simp_all

lemma rest_none (h : strchr p = none) : rest p = p := by
  rw [rest]
  split
  · rfl
  · simp_all

lemma rest_some (h : strchr p = some (line,q)) : rest p = rest q := by
  rw [rest]
  split
  · simp_all
  · simp_all

lemma strchr_eq_none (hz : 0 ∉ p) : strchr p = none ↔ newline ∉ p := by
  induction p with
  | nil => simp [strchr]
  | cons x p ih =>
    simp only [mem_cons,not_or] at hz
    rw [strchr,if_neg (Ne.symm hz.1)]
    by_cases hx : x = newline
    · simp [hx]
    · simp [hx,ih hz.2,Ne.symm hx]

lemma newline_notMem_rest (hz : 0 ∉ p) : newline ∉ rest p := by
  induction p using rest.induct with
  | case1 p hp => rwa [rest_none hp,← strchr_eq_none hz]
  | case2 p line q hp ih =>
    rw [rest_some hp]
    obtain ⟨rfl,-⟩ := strchr_eq_some hp
    exact ih fun h => hz (mem_append_right line (mem_cons_of_mem _ h))

lemma line_unique {line' p' : List Byte} (hline : newline ∉ line) (hline' : newline ∉ line')
    (h : line++newline::p = line'++newline::p') : line = line' ∧ p = p' := by
  induction line generalizing line' with
  | nil =>
    cases line' with
    | nil => simpa using h
    | cons x line' =>
      obtain ⟨rfl,-⟩ := List.cons.inj h
      simp at hline'
  | cons x line ih =>
    cases line' with
    | nil =>
      obtain ⟨rfl,-⟩ := List.cons.inj h
      simp at hline
    | cons y line' =>
      obtain ⟨rfl,htail⟩ := List.cons.inj h
      obtain ⟨rfl,rfl⟩ := ih (not_mem_of_not_mem_cons hline) (not_mem_of_not_mem_cons hline') htail
      exact ⟨rfl,rfl⟩

lemma written_rest (re p behind : List Byte) (lines : List (List Byte)) (hz : 0 ∉ p)
    (hlines : ∀ line ∈ lines, newline ∉ line) (hp : p++behind = text lines) :
    ∃ first last, lines = first++last ∧ written re p = text (first.filter (matchRe re)) ∧
      rest p++behind = text last := by
  induction lines generalizing p with
  | nil =>
    obtain ⟨rfl,rfl⟩ := append_eq_nil_iff.mp hp
    exact ⟨[],[],rfl,written_none rfl,by rw [rest_none rfl]; rfl⟩
  | cons line lines ih =>
    cases hfound : strchr p with
    | none => exact ⟨[],line::lines,rfl,written_none hfound,by rwa [rest_none hfound]⟩
    | some found =>
      obtain ⟨line',q⟩ := found
      obtain ⟨rfl,hline',-⟩ := strchr_eq_some hfound
      obtain ⟨hhead,htail⟩ := forall_mem_cons.mp hlines
      rw [text_cons,append_assoc,cons_append] at hp
      obtain ⟨rfl,hq⟩ := line_unique hline' hhead hp
      have hzq : 0 ∉ q := fun h => hz (mem_append_right line' (mem_cons_of_mem _ h))
      obtain ⟨first,last,rfl,hwritten,hrest⟩ := ih q hzq htail hq
      refine ⟨line'::first,last,rfl,?_,by rwa [rest_some hfound]⟩
      rw [written_some hfound,hwritten]
      by_cases hmatch : matchRe re line' = true
      · simp [hmatch]
      · simp [hmatch]

lemma rest_length_le (p : List Byte) : (rest p).length ≤ p.length := by
  induction p using rest.induct with
  | case1 p hp => rw [rest_none hp]
  | case2 p line q hp ih =>
    rw [rest_some hp]
    exact le_trans ih (strchr_length hp).le

lemma rest_subset (p : List Byte) : rest p ⊆ p := by
  induction p using rest.induct with
  | case1 p hp => rw [rest_none hp]; exact List.Subset.refl p
  | case2 p line q hp ih =>
    rw [rest_some hp]
    obtain ⟨rfl,-⟩ := strchr_eq_some hp
    exact fun x hx => mem_append_right line (mem_cons_of_mem _ (ih hx))

lemma kept_none {buf : List Byte} (h : strchr buf = none) : kept buf = [] := by
  rw [kept,rest_none h,if_pos rfl]

lemma kept_some {buf : List Byte} (h : strchr buf = some (line,q)) : kept buf = rest buf := by
  have hlt : (rest buf).length < buf.length := by
    rw [rest_some h]
    exact lt_of_le_of_lt (rest_length_le q) (strchr_length h)
  rw [kept,if_neg hlt.ne]

/-! ### What `grep` loses -/

lemma grep_eq (re buf : List Byte) (chunks lines : List (List Byte))
    (hlines : ∀ line ∈ lines, newline ∉ line)
    (hinput : buf++chunks.flatten = text lines) (hz : 0 ∉ text lines) (hbuf : newline ∉ buf)
    (hchunks : ∀ chunk ∈ chunks, newline ∈ chunk) :
    grep re buf chunks = text (lines.filter (matchRe re)) := by
  induction chunks generalizing buf lines with
  | nil =>
    cases lines with
    | nil => rfl
    | cons line lines =>
      rw [flatten_nil,append_nil] at hinput
      simp [hinput] at hbuf
  | cons chunk chunks ih =>
    obtain ⟨hchunk,hchunks⟩ := forall_mem_cons.mp hchunks
    rw [flatten_cons,← append_assoc] at hinput
    have hzb : 0 ∉ buf++chunk := fun h => hz (hinput ▸ mem_append_left _ h)
    obtain ⟨first,last,rfl,hwritten,hrest⟩ :=
      written_rest re (buf++chunk) chunks.flatten lines hzb hlines hinput
    cases hfound : strchr (buf++chunk) with
    | none => exact absurd (mem_append_right buf hchunk) ((strchr_eq_none hzb).mp hfound)
    | some found =>
      have hkept := kept_some hfound
      have hzlast : 0 ∉ text last :=
        fun h => hz (by rw [text,flatMap_append]; exact mem_append_right _ h)
      have hlast :=
        ih (rest (buf++chunk)) last (fun line h => hlines line (mem_append_right _ h)) hrest hzlast
        (newline_notMem_rest hzb) hchunks
      rw [grep,hkept,hlast,hwritten,filter_append]
      exact flatMap_append.symm

lemma zero_notMem_written (re p : List Byte) : 0 ∉ written re p := by
  induction p using rest.induct with
  | case1 p hp => simp [written_none hp]
  | case2 p line q hp ih =>
    obtain ⟨rfl,-,hzero⟩ := strchr_eq_some hp
    have hnew : (0 : Byte) ≠ newline := by decide
    rw [written_some hp]
    split_ifs
    · simp only [mem_append,mem_singleton,not_or]
      exact ⟨⟨hzero,hnew⟩,ih⟩
    · exact ih

lemma zero_notMem_grep (re buf : List Byte) (chunks : List (List Byte)) : 0 ∉ grep re buf chunks := by
  induction chunks generalizing buf with
  | nil => simp [grep]
  | cons chunk chunks ih =>
    rw [grep,mem_append,not_or]
    exact ⟨zero_notMem_written re _,ih _⟩

lemma matchRe_nil (line : List Byte) : matchRe [] line = true := by
  cases line with
  | nil => rfl
  | cons x line => simp [matchRe,matchFrom,matchhere,caret]

lemma written_nil_length (p : List Byte) : (written [] p).length+(rest p).length = p.length := by
  induction p using rest.induct with
  | case1 p hp => simp [written_none hp,rest_none hp]
  | case2 p line q hp ih =>
    rw [written_some hp,rest_some hp,if_pos (matchRe_nil line)]
    obtain ⟨rfl,-⟩ := strchr_eq_some hp
    simp only [length_append,length_cons,length_nil]
    omega

lemma grep_nil_length_le (buf : List Byte) (chunks : List (List Byte)) :
    (grep [] buf chunks).length ≤ buf.length+chunks.flatten.length := by
  induction chunks generalizing buf with
  | nil => simp [grep]
  | cons chunk chunks ih =>
    have hlen := written_nil_length (buf++chunk)
    have hkept : (kept (buf++chunk)).length ≤ (rest (buf++chunk)).length := by
      unfold kept
      split_ifs
      · exact Nat.zero_le _
      · exact le_rfl
    have hrec := ih (kept (buf++chunk))
    simp only [grep,length_append,flatten_cons] at hlen ⊢
    omega

lemma newline_mem_of_length (buf : List Byte) (chunks : List (List Byte)) (hz : 0 ∉ buf++chunks.flatten)
    (hdelivered : Delivered buf chunks) (hbuf : newline ∉ buf)
    (hlen : (grep [] buf chunks).length = buf.length+chunks.flatten.length) :
    ∀ chunk ∈ chunks, newline ∈ chunk := by
  induction chunks generalizing buf with
  | nil => simp
  | cons chunk chunks ih =>
    obtain ⟨hne,-,hdelivered⟩ := hdelivered
    rw [flatten_cons,← append_assoc,mem_append,not_or] at hz
    have hwritten := written_nil_length (buf++chunk)
    have hpos := length_pos_iff.mpr hne
    simp only [grep,length_append,flatten_cons] at hlen hwritten
    cases hfound : strchr (buf++chunk) with
    | none =>
      have hrec := grep_nil_length_le [] chunks
      rw [written_none hfound,kept_none hfound] at hlen
      simp only [length_nil] at hlen hrec
      omega
    | some found =>
      have hnew : newline ∈ chunk := by
        have hmem : newline ∈ buf++chunk := by
          by_contra h
          rw [(strchr_eq_none hz.1).mpr h] at hfound
          exact absurd hfound.symm (Option.some_ne_none _)
        exact (mem_append.mp hmem).resolve_left hbuf
      have hkept := kept_some hfound
      rw [hkept] at hlen hdelivered
      have hzrest : 0 ∉ rest (buf++chunk)++chunks.flatten := by
        rw [mem_append,not_or]
        exact ⟨fun h => hz.1 (rest_subset _ h),hz.2⟩
      have hrest := ih (rest (buf++chunk)) hzrest hdelivered (newline_notMem_rest hz.1) (by omega)
      exact forall_mem_cons.mpr ⟨hnew,hrest⟩

/-- The lines that match are written, whatever the pattern, exactly if every read completes a line
and no line has a zero in it. -/
theorem grep_iff (lines chunks : List (List Byte)) (hlines : ∀ line ∈ lines, newline ∉ line)
    (hinput : chunks.flatten = text lines) (hdelivered : Delivered [] chunks) :
    (∀ re, grep re [] chunks = text (lines.filter (matchRe re))) ↔
      (∀ chunk ∈ chunks, newline ∈ chunk) ∧ ∀ line ∈ lines, 0 ∉ line := by
  constructor
  · intro h
    have hall := h []
    rw [filter_eq_self.mpr fun line _ => matchRe_nil line] at hall
    have hz : 0 ∉ text lines := hall ▸ zero_notMem_grep [] [] chunks
    refine ⟨newline_mem_of_length [] chunks (by rwa [nil_append,hinput]) hdelivered (by simp) ?_,?_⟩
    · rw [hall,hinput]
      simp
    · intro line hline hzero
      exact hz (mem_flatMap.mpr ⟨line,hline,mem_append_left _ hzero⟩)
  · rintro ⟨hchunks,hzero⟩ re
    have hz : 0 ∉ text lines := by
      intro h
      obtain ⟨line,hline,hmem⟩ := mem_flatMap.mp h
      rcases mem_append.mp hmem with hmem | hmem
      · exact hzero line hline hmem
      · exact absurd (mem_singleton.mp hmem) (by decide)
    exact grep_eq re [] chunks lines hlines (by rwa [nil_append]) hz (by simp) hchunks

/-- The line `bc` comes in two pieces, the first of them together with the line `a`. -/
theorem grep_iff_line :
    grep [98] [] [[97,10,98],[99,10]] = text ([[97],[98,99]].filter (matchRe [98])) := by
  refine (grep_iff [[97],[98,99]] [[97,10,98],[99,10]] (by decide) (by decide) ?_).mpr (by decide) [98]
  exact ⟨by decide,by decide,by decide,by decide +kernel,trivial⟩

/-- The line `ab` is found if it comes in one piece, and lost if the `a` comes first: then the
buffer `a` has no newline and is emptied, and the line `b` does not match. -/
theorem grep_short_read : Delivered [] [[97,98,10]] ∧ Delivered [] [[97],[98,10]] ∧
    [[97,98,10]].flatten = text [[97,98]] ∧ [[97],[98,10]].flatten = text [[97,98]] ∧
    text ([[97,98]].filter (matchRe [97])) = [97,98,10] ∧
    grep [97] [] [[97,98,10]] = [97,98,10] ∧ grep [97] [] [[97],[98,10]] = [] := by
  have hwhole : strchr [97,98,10] = some ([97,98],[]) := by decide
  have hfirst : kept [97] = [] := kept_none (by decide)
  have hempty : written [97] [] = [] := written_none rfl
  have hsecond : strchr [98,10] = some ([98],[]) := by decide
  have hmatch : matchRe [97] [97,98] = true := by decide
  have hmiss : matchRe [97] [98] = false := by decide
  refine ⟨⟨by decide,by decide,trivial⟩,⟨by decide,by decide,?_⟩,rfl,rfl,by decide,?_,?_⟩
  · rw [nil_append,hfirst]
    exact ⟨by decide,by decide,trivial⟩
  · rw [grep,grep,nil_append,written_some hwhole,hempty,if_pos hmatch]
    rfl
  · rw [grep,grep,grep,nil_append,hfirst,nil_append,written_none (by decide),
      written_some hsecond,
      hempty,hmiss]
    rfl

end JacobiXv6.User.Grep
