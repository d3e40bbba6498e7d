import JacobiXv6.User.Sh

/-! The parser of `sh.c` accepts the lines of its grammar. -/
namespace JacobiXv6.User.Sh
open Library List

section Parser
variable {line : List Byte} {ts : List Token} {s : ℕ}

/-! ### What is derived is accepted -/

/-- The tokens behind a part of a line: one of these, or the end. -/
def Follows (toks : List Byte) (rest : List Token) : Prop := rest = [] ∨ peeked toks rest = true

variable {rest : List Token} {toks others : List Byte}

lemma Follows.not_peeked (h : Follows toks rest)
    (hkinds : ∀ kind : Kind, kind.opens toks = true → ¬kind.opens others = true) :
    ¬peeked others rest = true := by
  rcases h with rfl | h
  · exact Bool.false_ne_true
  · obtain ⟨t,us,rfl,ht⟩ := peeked_eq_true h
    exact hkinds t.kind ht

lemma Follows.mono (h : Follows toks rest)
    (hkinds : ∀ kind : Kind, kind.opens toks = true → kind.opens others = true) :
    Follows others rest := by
  rcases h with rfl | h
  · exact .inl rfl
  · obtain ⟨t,us,rfl,ht⟩ := peeked_eq_true h
    exact .inr (hkinds t.kind ht)

lemma Args.not_peeked {argv : List (ℕ×ℕ)} {rs : List Redir}
    (hts : Args ts argv rs) (hrest : Follows toks rest) (hword : ¬Kind.word.opens others = true)
    (hkinds : ∀ kind : Kind, kind.opens toks = true → ¬kind.opens others = true) :
    ¬peeked others (ts++rest) = true := by
  cases hts with
  | nil => exact hrest.not_peeked hkinds
  | cons hkind _ _ =>
    rw [cons_append,cons_append,peeked,hkind]
    exact hword

variable {n : ℕ} {us : List Token}

lemma parseredirs_complete (hz : 0 ∉ line) {rs : List Redir} (hus : Redirs us rs)
    (hat : At line (us++rest) s) (hn : us.length < n)
    (hrest : ¬peeked [60,62] rest = true) (cmd : Cmd) :
    ∃ s', parseredirs line n cmd s = .ok (wrap rs cmd,s') ∧ At line rest s' := by
  induction n generalizing us rs s cmd with
  | zero => exact absurd hn (Nat.not_lt_zero _)
  | succ n ih =>
    cases hus with
    | nil =>
      refine ⟨skipSpace line s,?_,hat.skipSpace⟩
      rw [parseredirs,bind_of_ok (peek_eq hz (by decide) hat),nil_append,if_neg hrest]
      rfl
    | @cons op file ts rs hop hfile hts =>
      obtain ⟨hget,hat'⟩ := gettoken_cons hz hat.skipSpace
      obtain ⟨hget',hat'⟩ := gettoken_cons hz hat'
      simp only [length_cons] at hn
      obtain ⟨s',hparse,hs'⟩ :=
        ih hts hat' (by omega) (redirected (some op.kind) cmd file.start file.stop)
      refine ⟨s',?_,hs'⟩
      have hpeek : peeked [60,62] (op::file::ts++rest) = true := (opens_redir _).mpr hop
      rw [parseredirs,bind_of_ok (peek_eq hz (by decide) hat),if_pos hpeek,bind_of_ok hget,
        bind_of_ok hget',
        if_pos (congrArg some hfile)]
      exact hparse

lemma parseargs_complete (hz : 0 ∉ line) {rs' : List Redir} {argv' : List (ℕ×ℕ)}
    (hus : Args us argv' rs') (hat : At line (us++rest) s) (hn : us.length < n)
    (hrest : Follows [124,41,38,59] rest) (rs : List Redir) (argv : List (ℕ×ℕ))
    (hargv : (argv++argv').length < MAXARGS) :
    ∃ s', parseargs line n argv.length (wrap rs (.exec argv)) s =
      .ok (wrap (rs++rs') (.exec (argv++argv')),s') ∧
      At line rest s' := by
  induction n generalizing us rs' argv' s rs argv with
  | zero => exact absurd hn (Nat.not_lt_zero _)
  | succ n ih =>
    cases hus with
    | nil =>
      rw [nil_append] at hat
      rw [append_nil,append_nil,parseargs,bind_of_ok (peek_eq hz (by decide) hat)]
      rcases hrest with rfl | hrest
      · obtain ⟨q,s',hget,hat'⟩ := gettoken_nil hat.skipSpace
        refine ⟨s',?_,hat'⟩
        rw [if_neg (show ¬peeked [124,41,38,59] [] = true from Bool.false_ne_true),bind_of_ok hget]
        rfl
      · refine ⟨skipSpace line s,?_,hat.skipSpace⟩
        rw [if_pos hrest]
        rfl
    | @cons word us ts rs₁ rs' argv' hword hus hts =>
      rw [cons_append,cons_append,append_assoc] at hat
      obtain ⟨hget,hat'⟩ := gettoken_cons hz hat.skipSpace
      have hlen : (argv++[(word.start,word.stop)]).length = argv.length+1 := by simp
      have hpeek : ¬peeked [124,41,38,59] (word::(us++(ts++rest))) = true := by
        rw [peeked,hword]
        decide
      have hnext : ¬peeked [60,62] (ts++rest) = true := hts.not_peeked hrest (by decide) fun kind => by
        cases kind <;> decide
      simp only [length_cons,length_append] at hn hargv
      obtain ⟨s₁,hredirs,hs₁⟩ := parseredirs_complete hz hus hat' (show us.length < n+1 by omega) hnext
        (wrap rs (.exec (argv++[(word.start,word.stop)])))
      obtain ⟨s',hargs,hs'⟩ := ih hts hs₁ (by omega) (rs++rs₁) (argv++[(word.start,word.stop)])
        (by simp only [length_append,length_cons,length_nil]; omega)
      refine ⟨s',?_,hs'⟩
      rw [hlen,wrap_append] at hargs
      rw [parseargs,bind_of_ok (peek_eq hz (by decide) hat),if_neg hpeek,bind_of_ok hget,
        if_neg (Option.some_ne_none _),
        if_neg (not_not_intro (congrArg some hword)),
          if_neg (show ¬argv.length+1 ≥ MAXARGS by omega),addArg_wrap,
        bind_of_ok hredirs,hargs,append_assoc,append_assoc,singleton_append]

/-- What `parseline` has to do for the parentheses, from at most `m` tokens on. -/
def CompleteLines (line : List Byte) (m : ℕ) (pl : Routine ℕ Cmd) : Prop :=
  ∀ us rest cmd s, (us++rest).length < m → At line (us++rest) s → Derives .line us cmd →
    Follows [41] rest →
    ∃ s', pl s = .ok (cmd,s') ∧ At line rest s'

variable {cmd : Cmd}

lemma parseexec_complete (hz : 0 ∉ line) (hus : Derives .exec us cmd)
    {pl : Routine ℕ Cmd} (hat : At line (us++rest) s) (hn : (us++rest).length < n)
    (hrest : Follows [124,41,38,59] rest)
    (hpl : CompleteLines line (us++rest).length pl) :
    ∃ s', parseexec line n pl s = .ok (cmd,s') ∧ At line rest s' := by
  have hredir : ¬peeked [60,62] rest = true := hrest.not_peeked fun kind => by cases kind <;> decide
  cases hus with
  | @block l r ts us cmd rs hl hts hr hus =>
    have htokens : l::ts++r::us++rest = l::(ts++r::(us++rest)) := by simp
    rw [htokens] at hat hn hpl
    have hpeek : peeked [40] (l::(ts++r::(us++rest))) = true := (opens_lparen _).mpr hl
    have hclose : peeked [41] (r::(us++rest)) = true := (opens_rparen _).mpr hr
    obtain ⟨hget,hat'⟩ := gettoken_cons hz hat.skipSpace.skipSpace
    obtain ⟨s₁,hline,hs₁⟩ := hpl ts (r::(us++rest)) cmd _ (by simp) hat' hts (.inr hclose)
    obtain ⟨hget',hat'⟩ := gettoken_cons hz hs₁.skipSpace
    simp only [length_cons,length_append] at hn
    obtain ⟨s',hredirs,hs'⟩ := parseredirs_complete hz hus hat' (show us.length < n by omega) hredir cmd
    refine ⟨s',?_,hs'⟩
    rw [parseexec,bind_of_ok (peek_eq hz (by decide) hat),if_pos hpeek,parseblock,
      bind_of_ok (peek_eq hz (by decide) hat.skipSpace),if_pos hpeek,bind_of_ok hget,
        bind_of_ok hline,
      bind_of_ok (peek_eq hz (by decide) hs₁),if_pos hclose,bind_of_ok hget',hredirs]
  | @exec us ts rs rs' argv hus hts hargv =>
    rw [append_assoc] at hat hn
    have hnext : ¬peeked [60,62] (ts++rest) = true := hts.not_peeked hrest (by decide) fun kind => by
      cases kind <;> decide
    have hpeek : ¬peeked [40] (us++(ts++rest)) = true := by
      cases hus with
      | nil => exact hts.not_peeked hrest (by decide) fun kind => by cases kind <;> decide
      | cons hop _ _ =>
        rw [cons_append,peeked,opens_lparen]
        rintro hkind
        simp [hkind] at hop
    simp only [length_append] at hn
    obtain ⟨s₁,hredirs,hs₁⟩ :=
      parseredirs_complete hz hus hat.skipSpace (show us.length < n by omega) hnext (.exec [])
    obtain ⟨s',hargs,hs'⟩ :=
      parseargs_complete hz hts hs₁ (show ts.length < n by omega) hrest rs [] hargv
    refine ⟨s',?_,hs'⟩
    rw [parseexec,bind_of_ok (peek_eq hz (by decide) hat),if_neg hpeek,bind_of_ok hredirs]
    exact hargs

lemma parsepipe_complete (hz : 0 ∉ line) (hus : Derives .pipe us cmd) {m : ℕ}
    {pl : Routine ℕ Cmd} (hat : At line (us++rest) s) (hn : (us++rest).length < n)
    (hm : (us++rest).length ≤ m)
    (hrest : Follows [41,38,59] rest) (hpl : CompleteLines line m pl) :
    ∃ s', parsepipe line pl n s = .ok (cmd,s') ∧ At line rest s' := by
  induction n generalizing us cmd s with
  | zero => exact absurd hn (Nat.not_lt_zero _)
  | succ n ih =>
    have hlines : CompleteLines line (us++rest).length pl :=
      fun vs rest cmd s hvs => hpl vs rest cmd s (by omega)
    cases hus with
    | single hexec =>
      have hpeek : ¬peeked [124] rest = true := hrest.not_peeked fun kind => by cases kind <;> decide
      obtain ⟨s₁,hparse,hs₁⟩ :=
        parseexec_complete hz hexec hat hn (hrest.mono fun kind => by cases kind <;> decide) hlines
      refine ⟨skipSpace line s₁,?_,hs₁.skipSpace⟩
      rw [parsepipe,bind_of_ok hparse,bind_of_ok (peek_eq hz (by decide) hs₁),if_neg hpeek]
      rfl
    | @pipe t ts us left right hleft ht hright =>
      rw [append_assoc,cons_append] at hat hn hm hlines
      have hpeek : peeked [124] (t::(us++rest)) = true := (opens_bar _).mpr ht
      have hbar : peeked [124,41,38,59] (t::(us++rest)) = true := by
        rw [peeked,ht]
        decide
      obtain ⟨s₁,hparse,hs₁⟩ := parseexec_complete hz hleft hat hn (.inr hbar) hlines
      obtain ⟨hget,hat'⟩ := gettoken_cons hz hs₁.skipSpace
      rw [length_append,length_cons] at hn hm
      obtain ⟨s',hpipe,hs'⟩ := ih hright hat' (by omega) (by omega)
      refine ⟨s',?_,hs'⟩
      rw [parsepipe,bind_of_ok hparse,bind_of_ok (peek_eq hz (by decide) hs₁),if_pos hpeek,
        bind_of_ok hget,
        bind_of_ok hpipe]
      rfl

lemma parseback_complete (hz : 0 ∉ line) {cmd' : Cmd} (hus : Backs us cmd cmd')
    (hat : At line (us++rest) s) (hn : us.length < n) (hrest : ¬peeked [38] rest = true) :
    ∃ s', parseback line n cmd s = .ok (cmd',s') ∧ At line rest s' := by
  induction n generalizing us cmd s with
  | zero => exact absurd hn (Nat.not_lt_zero _)
  | succ n ih =>
    cases hus with
    | nil =>
      refine ⟨skipSpace line s,?_,hat.skipSpace⟩
      rw [parseback,bind_of_ok (peek_eq hz (by decide) hat),nil_append,if_neg hrest]
      rfl
    | @cons t ts _ _ ht hts =>
      have hpeek : peeked [38] (t::ts++rest) = true := (opens_amp _).mpr ht
      obtain ⟨hget,hat'⟩ := gettoken_cons hz hat.skipSpace
      obtain ⟨s',hback,hs'⟩ := ih hts hat' (Nat.lt_of_succ_lt_succ hn)
      refine ⟨s',?_,hs'⟩
      rw [parseback,bind_of_ok (peek_eq hz (by decide) hat),if_pos hpeek,bind_of_ok hget]
      exact hback

lemma Backs.follows {cmd' : Cmd} (hus : Backs us cmd cmd') (hrest : Follows [41,38,59] rest) :
    Follows [41,38,59] (us++rest) := by
  cases hus with
  | nil => exact hrest
  | cons ht _ =>
    right
    rw [cons_append,peeked,ht]
    decide

lemma parseline_complete (hz : 0 ∉ line) (n : ℕ) : CompleteLines line n (parseline line n) := by
  induction n with
  | zero => exact fun us rest cmd s hus => absurd hus (Nat.not_lt_zero _)
  | succ n ih =>
    intro us rest cmd s hn hat hus hrest
    cases hus with
    | @last ts us cmd₀ cmd hpipe hback =>
      have hfollow : Follows [41,38,59] rest := hrest.mono fun kind => by cases kind <;> decide
      have hamp : ¬peeked [38] rest = true := hrest.not_peeked fun kind => by cases kind <;> decide
      have hsemi : ¬peeked [59] rest = true := hrest.not_peeked fun kind => by cases kind <;> decide
      rw [append_assoc] at hat hn
      obtain ⟨s₁,hparse,hs₁⟩ :=
        parsepipe_complete hz hpipe hat hn (Nat.le_of_lt_succ hn) (hback.follows hfollow) ih
      simp only [length_append] at hn
      obtain ⟨s₂,hparse₂,hs₂⟩ := parseback_complete hz hback hs₁ (show us.length < n+1 by omega) hamp
      refine ⟨skipSpace line s₂,?_,hs₂.skipSpace⟩
      rw [parseline,bind_of_ok hparse,bind_of_ok hparse₂,
        bind_of_ok (peek_eq hz (by decide) hs₂),if_neg hsemi]
      rfl
    | @list t ts us vs cmd₀ cmd right hpipe hback ht hright =>
      have hpeek : peeked [59] (t::(vs++rest)) = true := (opens_semi _).mpr ht
      have hfollow : Follows [41,38,59] (t::(vs++rest)) := by
        right
        rw [peeked,ht]
        decide
      have hamp : ¬peeked [38] (t::(vs++rest)) = true := by
        rw [peeked,ht]
        decide
      rw [append_assoc,append_assoc,cons_append] at hat hn
      obtain ⟨s₁,hparse,hs₁⟩ :=
        parsepipe_complete hz hpipe hat hn (Nat.le_of_lt_succ hn) (hback.follows hfollow) ih
      simp only [length_append,length_cons] at hn
      obtain ⟨s₂,hparse₂,hs₂⟩ := parseback_complete hz hback hs₁ (show us.length < n+1 by omega) hamp
      obtain ⟨hget,hat'⟩ := gettoken_cons hz hs₂.skipSpace
      obtain ⟨s',hlist,hs'⟩ := ih vs rest right _ (by rw [length_append]; omega) hat' hright hrest
      refine ⟨s',?_,hs'⟩
      rw [parseline,bind_of_ok hparse,bind_of_ok hparse₂,
        bind_of_ok (peek_eq hz (by decide) hs₂),if_pos hpeek,
        bind_of_ok hget,bind_of_ok hlist]
      rfl

lemma skipSpace_eq_length (hat : At line ts s) : skipSpace line s = line.length ↔ ts = [] := by
  constructor
  · intro hend
    have hlen := tokens_length_le line line.length
    have htokens := hat.skipSpace.2
    rw [hend] at htokens
    rwa [htokens,Nat.sub_self,Nat.le_zero,length_eq_zero_iff] at hlen
  · rintro rfl
    cases hnext : next line s with
    | none => exact next_eq_none hat.1 hnext
    | some t => exact absurd ((tokens_some hnext).symm.trans hat.2) (cons_ne_nil _ _)

lemma at_start (line : List Byte) : At line (tokens line 0) 0 := ⟨Nat.zero_le _,rfl⟩

lemma parsetop_meets (hz : 0 ∉ line) (hn : line.length < n) :
    Meets (· ∈ shPanics) (parsetop line n) 0 fun cmd _ => Derives .line (tokens line 0) cmd := by
  have hlen := tokens_length_le line 0
  refine .bind ((parseline_meets hz n _ 0 (by omega) (at_start line)).mono ?_)
  rintro cmd s ⟨us,rest,htokens,hat,hcmd⟩
  refine .bind (.of_eq (peek_eq hz (by decide) hat) (.bind (.get ?_)))
  by_cases hend : skipSpace line s = line.length
  · rw [if_neg (not_not_intro hend)]
    rw [(skipSpace_eq_length hat).mp hend,append_nil] at htokens
    exact .pure (htokens ▸ hcmd)
  · rw [if_pos hend]
    exact .throw (by decide)

lemma parsetop_complete (hz : 0 ∉ line) (hn : line.length < n)
    (hcmd : Derives .line (tokens line 0) cmd) :
    ∃ s, parsetop line n 0 = .ok (cmd,s) := by
  have hlen := tokens_length_le line 0
  have hstart : At line (tokens line 0++[]) 0 := by
    rw [append_nil]
    exact at_start line
  obtain ⟨s,hparse,hat⟩ :=
    parseline_complete hz n (tokens line 0) [] cmd 0 (by rw [append_nil]; omega) hstart hcmd
    (.inl rfl)
  refine ⟨skipSpace line s,?_⟩
  have hget : (MonadState.get : Routine ℕ ℕ) (skipSpace line s) =
    .ok (skipSpace line s,skipSpace line s) := rfl
  rw [parsetop,bind_of_ok hparse,bind_of_ok (peek_eq hz (by decide) hat),bind_of_ok hget,
    if_neg (not_not_intro ((skipSpace_eq_length hat).mpr rfl))]
  rfl

end Parser

/-- A line is accepted exactly with the tree that the grammar derives for its tokens, and every
other line ends in one of the panics of the parser: a byte past the terminator is not read, and as
many turns as the line has bytes are enough. -/
theorem parsecmd_iff (line : List Byte) (hz : 0 ∉ line) (n : ℕ) (hn : line.length < n) :
    (∀ cmd, (∃ buf, parsecmd line n = .ok (cmd,buf)) ↔ Derives .line (tokens line 0) cmd) ∧
    ((¬∃ cmd, Derives .line (tokens line 0) cmd) →
      ∃ message ∈ shPanics, parsecmd line n = .error message) := by
  have hmeets := parsetop_meets hz hn
  unfold parsecmd
  cases htop : parsetop line n 0 with
  | ok result =>
    have hderives := hmeets.returns result.1 result.2 htop
    refine ⟨fun cmd => ?_,fun h => absurd ⟨_,hderives⟩ h⟩
    constructor
    · rintro ⟨buf,hbuf⟩
      cases hbuf
      exact hderives
    · intro hcmd
      obtain ⟨s,hs⟩ := parsetop_complete hz hn hcmd
      cases htop.symm.trans hs
      exact ⟨_,rfl⟩
  | error message =>
    refine ⟨fun cmd => ?_,fun _ => ⟨message,hmeets.panics message htop,rfl⟩⟩
    constructor
    · rintro ⟨buf,hbuf⟩
      cases hbuf
    · intro hcmd
      obtain ⟨s,hs⟩ := parsetop_complete hz hn hcmd
      cases htop.symm.trans hs

/-- The line `(a;b)>c &`. -/
theorem parsecmd_iff_block : Derives .line (tokens [40,97,59,98,41,62,99,32,38] 0)
    (.back (.redir (.list (.exec [(1,2)]) (.exec [(3,4)])) 6 7 0x201 1)) :=
  ((parsecmd_iff [40,97,59,98,41,62,99,32,38] (by decide) 10 (by decide)).1 _).mp
    ⟨[40,97,0,98,0,62,99,0,38,0],by rfl⟩

end JacobiXv6.User.Sh
