import JacobiXv6.User.Tokens

/-! The parser of `sh.c` and its grammar. The routines work on `*ps`; a loop or a recursion of the
source gets a bound on its turns, and panics as "still running" when they are used up. -/
namespace JacobiXv6.User.Sh
open Library List

def MAXARGS : ℕ := 10
def O_RDONLY : ℕ := 0
def O_WRONLY : ℕ := 1
def O_CREATE : ℕ := 0x200

/-- The pointers of a command point into the line. -/
inductive Cmd
  | exec (argv : List (ℕ×ℕ))
  | redir (cmd : Cmd) (file efile mode fd : ℕ)
  | pipe (left right : Cmd)
  | list (left right : Cmd)
  | back (cmd : Cmd)
  deriving DecidableEq, Repr

/-! ### The source -/

/-- `cmd->argv[argc] = q; cmd->eargv[argc] = eq`, for the `execcmd` inside the redirections of
`ret`. -/
def Cmd.addArg (q eq : ℕ) : Cmd → Cmd
  | .exec argv => .exec (argv++[(q,eq)])
  | .redir cmd file efile mode fd => .redir (cmd.addArg q eq) file efile mode fd
  | cmd => cmd

/-- The switch of `parseredirs`. -/
def redirected (tok : Option Kind) (cmd : Cmd) (q eq : ℕ) : Cmd :=
  match tok with
  | some .lt => .redir cmd q eq O_RDONLY 0
  | some .gt => .redir cmd q eq (O_WRONLY ||| O_CREATE) 1
  | some .append => .redir cmd q eq (O_WRONLY ||| O_CREATE) 1
  | _ => cmd

def stillRunning : String := "still running"

def parseredirs (line : List Byte) : ℕ → Cmd → Routine ℕ Cmd
  | 0, _ => throw stillRunning
  | n+1, cmd => do
    if ← peek line [60,62] then
      let op ← gettoken line
      let file ← gettoken line
      if file.1 = some .word then parseredirs line n (redirected op.1 cmd file.2.1 file.2.2)
      else throw "missing file for redirection"
    else return cmd

def parseblock (line : List Byte) (n : ℕ) (parseline : Routine ℕ Cmd) : Routine ℕ Cmd := do
  if ← peek line [40] then
    let _ ← gettoken line
    let cmd ← parseline
    if ← peek line [41] then
      let _ ← gettoken line
      parseredirs line n cmd
    else throw "syntax - missing )"
  else throw "parseblock"

/-- The loop of `parseexec`. -/
def parseargs (line : List Byte) : ℕ → ℕ → Cmd → Routine ℕ Cmd
  | 0, _, _ => throw stillRunning
  | n+1, argc, ret => do
    if ← peek line [124,41,38,59] then return ret
    else
      let token ← gettoken line
      if token.1 = none then return ret
      else if token.1 ≠ some .word then throw "syntax"
      else if argc+1 ≥ MAXARGS then throw "too many args"
      else
        let ret ← parseredirs line (n+1) (ret.addArg token.2.1 token.2.2)
        parseargs line n (argc+1) ret

def parseexec (line : List Byte) (n : ℕ) (parseline : Routine ℕ Cmd) : Routine ℕ Cmd := do
  if ← peek line [40] then parseblock line n parseline
  else
    let ret ← parseredirs line n (.exec [])
    parseargs line n 0 ret

def parsepipe (line : List Byte) (parseline : Routine ℕ Cmd) : ℕ → Routine ℕ Cmd
  | 0 => throw stillRunning
  | n+1 => do
    let cmd ← parseexec line (n+1) parseline
    if ← peek line [124] then
      let _ ← gettoken line
      let right ← parsepipe line parseline n
      return .pipe cmd right
    else return cmd

/-- The loop of `parseline`. -/
def parseback (line : List Byte) : ℕ → Cmd → Routine ℕ Cmd
  | 0, _ => throw stillRunning
  | n+1, cmd => do
    if ← peek line [38] then
      let _ ← gettoken line
      parseback line n (.back cmd)
    else return cmd

def parseline (line : List Byte) : ℕ → Routine ℕ Cmd
  | 0 => throw stillRunning
  | n+1 => do
    let cmd ← parsepipe line (parseline line n) (n+1)
    let cmd ← parseback line (n+1) cmd
    if ← peek line [59] then
      let _ ← gettoken line
      let right ← parseline line n
      return .list cmd right
    else return cmd

/-- `nulterminate`, on the bytes of the line with its terminator. -/
def nulterminate : Cmd → List Byte → List Byte
  | .exec argv, buf => argv.foldl (fun buf arg => buf.set arg.2 0) buf
  | .redir cmd _ efile _ _, buf => (nulterminate cmd buf).set efile 0
  | .pipe left right, buf => nulterminate right (nulterminate left buf)
  | .list left right, buf => nulterminate right (nulterminate left buf)
  | .back cmd, buf => nulterminate cmd buf

/-- `parsecmd`, before the strings are terminated. -/
def parsetop (line : List Byte) (n : ℕ) : Routine ℕ Cmd := do
  let cmd ← parseline line n
  let _ ← peek line []
  let s ← get
  if s ≠ line.length then throw "syntax" else return cmd

/-- The tree of a line, and what becomes of the bytes of the line. -/
def parsecmd (line : List Byte) (n : ℕ) : Except String (Cmd×List Byte) :=
  match parsetop line n 0 with
  | .ok (cmd,_) => .ok (cmd,nulterminate cmd (line++[0]))
  | .error message => .error message

/-! ### The grammar -/

abbrev Redir := Kind×Token

/-- Redirections are wrapped around a command from left to right. -/
def wrap (rs : List Redir) (cmd : Cmd) : Cmd :=
  rs.foldl (fun cmd r => redirected (some r.1) cmd r.2.start r.2.stop) cmd

/-- `redir*` -/
inductive Redirs : List Token → List Redir → Prop
  | nil : Redirs [] []
  | cons {op file : Token} {ts : List Token} {rs : List Redir} : op.kind = .lt ∨ op.kind = .gt ∨
    op.kind = .append →
      file.kind = .word → Redirs ts rs → Redirs (op::file::ts) ((op.kind,file)::rs)

/-- `(word redir*)*` -/
inductive Args : List Token → List (ℕ×ℕ) → List Redir → Prop
  | nil : Args [] [] []
  | cons {word : Token} {us ts : List Token} {rs rs' : List Redir} {argv : List (ℕ×ℕ)} :
    word.kind = .word →
      Redirs us rs → Args ts argv rs' → Args (word::us++ts) ((word.start,word.stop)::argv) (rs++rs')

/-- `'&'*` -/
inductive Backs : List Token → Cmd → Cmd → Prop
  | nil (cmd : Cmd) : Backs [] cmd cmd
  | cons {t : Token} {ts : List Token} {cmd cmd' : Cmd} : t.kind = .amp →
    Backs ts (.back cmd) cmd' → Backs (t::ts) cmd cmd'

inductive Part
  | exec | pipe | line

/-- The trees of `exec`, `pipe` and `line`. -/
inductive Derives : Part → List Token → Cmd → Prop
  | block {l r : Token} {ts us : List Token} {cmd : Cmd} {rs : List Redir} : l.kind = .lparen →
    Derives .line ts cmd →
      r.kind = .rparen → Redirs us rs → Derives .exec (l::ts++r::us) (wrap rs cmd)
  | exec {us ts : List Token} {rs rs' : List Redir} {argv : List (ℕ×ℕ)} : Redirs us rs →
    Args ts argv rs' →
      argv.length < MAXARGS → Derives .exec (us++ts) (wrap (rs++rs') (.exec argv))
  | single {ts : List Token} {cmd : Cmd} : Derives .exec ts cmd → Derives .pipe ts cmd
  | pipe {t : Token} {ts us : List Token} {left right : Cmd} : Derives .exec ts left → t.kind = .bar →
      Derives .pipe us right → Derives .pipe (ts++t::us) (.pipe left right)
  | last {ts us : List Token} {cmd cmd' : Cmd} : Derives .pipe ts cmd → Backs us cmd cmd' →
    Derives .line (ts++us) cmd'
  | list {t : Token} {ts us vs : List Token} {cmd cmd' right : Cmd} : Derives .pipe ts cmd →
    Backs us cmd cmd' →
      t.kind = .semi → Derives .line vs right → Derives .line (ts++us++t::vs) (.list cmd' right)

/-! ### What is accepted is derived -/

def shPanics : List String :=
  ["missing file for redirection","parseblock","syntax - missing )","too many args","syntax"]

section Parser
variable {line : List Byte} {ts : List Token} {s : ℕ}

lemma opens_redir (kind : Kind) : kind.opens [60,62] = true ↔ kind = .lt ∨ kind = .gt ∨
    kind = .append := by
  cases kind <;> decide

lemma opens_lparen (kind : Kind) : kind.opens [40] = true ↔ kind = .lparen := by cases kind <;> decide
lemma opens_rparen (kind : Kind) : kind.opens [41] = true ↔ kind = .rparen := by cases kind <;> decide
lemma opens_bar (kind : Kind) : kind.opens [124] = true ↔ kind = .bar := by cases kind <;> decide
lemma opens_amp (kind : Kind) : kind.opens [38] = true ↔ kind = .amp := by cases kind <;> decide
lemma opens_semi (kind : Kind) : kind.opens [59] = true ↔ kind = .semi := by cases kind <;> decide

lemma peeked_eq_true {toks : List Byte} (h : peeked toks ts = true) : ∃ t us, ts = t::us ∧
    t.kind.opens toks = true := by
  cases ts with
  | nil => exact absurd h Bool.false_ne_true
  | cons t us => exact ⟨t,us,rfl,h⟩

lemma wrap_append (rs rs' : List Redir) (cmd : Cmd) :
    wrap (rs++rs') cmd = wrap rs' (wrap rs cmd) := foldl_append

/-- A word goes to the `execcmd` inside the redirections. -/
lemma addArg_wrap (rs : List Redir) (argv : List (ℕ×ℕ)) (q eq : ℕ) :
    (wrap rs (.exec argv)).addArg q eq = wrap rs (.exec (argv++[(q,eq)])) := by
  have hredirected : ∀ tok cmd file efile, (redirected tok cmd file efile).addArg q eq =
      redirected tok (cmd.addArg q eq) file efile := by
    intro tok cmd file efile
    unfold redirected
    split <;> rfl
  have hwrap : ∀ cmd, (wrap rs cmd).addArg q eq = wrap rs (cmd.addArg q eq) := by
    induction rs with
    | nil => exact fun cmd => rfl
    | cons r rs ih =>
      intro cmd
      have h := ih (redirected (some r.1) cmd r.2.start r.2.stop)
      rwa [hredirected] at h
  exact hwrap _

variable {n : ℕ}

lemma parseredirs_meets (hz : 0 ∉ line) (hat : At line ts s) (hn : ts.length < n) (cmd : Cmd) :
    Meets (· ∈ shPanics) (parseredirs line n cmd) s fun cmd' s' => ∃ us rest rs, ts = us++rest ∧
      At line rest s' ∧
      Redirs us rs ∧ cmd' = wrap rs cmd := by
  induction n generalizing ts s cmd with
  | zero => exact absurd hn (Nat.not_lt_zero _)
  | succ n ih =>
    refine .bind (.of_eq (peek_eq hz (by decide) hat) ?_)
    have hat := hat.skipSpace
    by_cases hpeek : peeked [60,62] ts = true
    · rw [if_pos hpeek]
      obtain ⟨op,us,rfl,hop⟩ := peeked_eq_true hpeek
      obtain ⟨hget,hat⟩ := gettoken_cons hz hat
      refine .bind (.of_eq hget ?_)
      cases us with
      | nil =>
        obtain ⟨q,s',hget,hat⟩ := gettoken_nil hat
        refine .bind (.of_eq hget ?_)
        exact .throw (by decide)
      | cons file us =>
        obtain ⟨hget,hat⟩ := gettoken_cons hz hat
        refine .bind (.of_eq hget ?_)
        by_cases hword : file.kind = .word
        · rw [if_pos (congrArg some hword)]
          simp only [length_cons] at hn
          refine (ih hat (by omega) _).mono ?_
          rintro cmd' s' ⟨vs,rest,rs,rfl,hrest,hvs,rfl⟩
          exact ⟨op::file::vs,rest,(op.kind,file)::rs,rfl,hrest,
            .cons ((opens_redir _).mp hop) hword hvs,rfl⟩
        · rw [if_neg fun h => hword (Option.some.inj h)]
          exact .throw (by decide)
    · rw [if_neg hpeek]
      exact .pure ⟨[],ts,[],rfl,hat,.nil,rfl⟩

lemma parseargs_meets (hz : 0 ∉ line) (hat : At line ts s) (hn : ts.length < n) (rs : List Redir)
    (argv : List (ℕ×ℕ)) (hargv : argv.length < MAXARGS) :
    Meets (· ∈ shPanics) (parseargs line n argv.length (wrap rs (.exec argv))) s fun cmd s' =>
      ∃ us rest argv' rs',
      ts = us++rest ∧ At line rest s' ∧ Args us argv' rs' ∧ (argv++argv').length < MAXARGS ∧
      cmd = wrap (rs++rs') (.exec (argv++argv')) := by
  induction n generalizing ts s rs argv with
  | zero => exact absurd hn (Nat.not_lt_zero _)
  | succ n ih =>
    have hdone : ∀ {ts s}, At line ts s → ∃ us rest argv' rs', ts = us++rest ∧ At line rest s ∧
      Args us argv' rs' ∧
        (argv++argv').length < MAXARGS ∧
          wrap rs (.exec argv) = wrap (rs++rs') (.exec (argv++argv')) := by
      intro ts s hat
      exact ⟨[],ts,[],[],rfl,hat,.nil,by rwa [append_nil],by rw [append_nil,append_nil]⟩
    refine .bind (.of_eq (peek_eq hz (by decide) hat) ?_)
    have hat := hat.skipSpace
    by_cases hpeek : peeked [124,41,38,59] ts = true
    · rw [if_pos hpeek]
      exact .pure (hdone hat)
    · rw [if_neg hpeek]
      cases ts with
      | nil =>
        obtain ⟨q,s',hget,hat⟩ := gettoken_nil hat
        refine .bind (.of_eq hget ?_)
        exact .pure (hdone hat)
      | cons word us =>
        obtain ⟨hget,hat⟩ := gettoken_cons hz hat
        refine .bind (.of_eq hget ?_)
        rw [if_neg (Option.some_ne_none _)]
        by_cases hword : word.kind = .word
        · rw [if_neg (not_not_intro (congrArg some hword))]
          by_cases hmax : argv.length+1 ≥ MAXARGS
          · rw [if_pos hmax]
            exact .throw (by decide)
          · rw [if_neg hmax,addArg_wrap]
            simp only [length_cons] at hn
            refine .bind ((parseredirs_meets hz hat (by omega) _).mono ?_)
            rintro ret s' ⟨vs,rest,rs₁,rfl,hrest,hvs,rfl⟩
            have hlen : (argv++[(word.start,word.stop)]).length = argv.length+1 := by simp
            have hrec := ih hrest (by simp only [length_append] at hn; omega) (rs++rs₁)
              (argv++[(word.start,word.stop)]) (by omega)
            rw [hlen,wrap_append] at hrec
            refine hrec.mono ?_
            rintro cmd s'' ⟨ws,rest',argv',rs',rfl,hrest',hargs,hlt,rfl⟩
            refine ⟨word::vs++ws,rest',(word.start,word.stop)::argv',rs₁++rs',
              by simp,hrest',.cons hword hvs hargs,?_,?_⟩
            · simpa using hlt
            · rw [append_assoc,append_assoc,singleton_append]
        · rw [if_pos fun h => hword (Option.some.inj h)]
          exact .throw (by decide)

/-- What `parseline` has to do for the parentheses, from at most `m` tokens on. -/
def Lines (line : List Byte) (m : ℕ) (pl : Routine ℕ Cmd) : Prop :=
  ∀ us s, us.length < m → At line us s → Meets (· ∈ shPanics) pl s fun cmd s' => ∃ vs rest,
    us = vs++rest ∧ At line rest s' ∧ Derives .line vs cmd

variable {pl : Routine ℕ Cmd}

section

variable (hz : 0 ∉ line) (hat : At line ts s) (hn : ts.length < n)
include hz hat hn

lemma parseblock_meets
    (hpl : Lines line ts.length pl) :
    Meets (· ∈ shPanics) (parseblock line n pl) s fun cmd s' => ∃ us rest, ts = us++rest ∧
      At line rest s' ∧
      Derives .exec us cmd := by
  refine .bind (.of_eq (peek_eq hz (by decide) hat) ?_)
  have hat := hat.skipSpace
  by_cases hpeek : peeked [40] ts = true
  · rw [if_pos hpeek]
    obtain ⟨l,us,rfl,hl⟩ := peeked_eq_true hpeek
    obtain ⟨hget,hat⟩ := gettoken_cons hz hat
    refine .bind (.of_eq hget ?_)
    refine .bind ((hpl us _ (by simp) hat).mono ?_)
    rintro cmd s' ⟨vs,rest,rfl,hat,hcmd⟩
    refine .bind (.of_eq (peek_eq hz (by decide) hat) ?_)
    have hat := hat.skipSpace
    by_cases hpeek : peeked [41] rest = true
    · rw [if_pos hpeek]
      obtain ⟨r,ws,rfl,hr⟩ := peeked_eq_true hpeek
      obtain ⟨hget,hat⟩ := gettoken_cons hz hat
      refine .bind (.of_eq hget ?_)
      simp only [length_cons,length_append] at hn
      refine (parseredirs_meets hz hat (by omega) cmd).mono ?_
      rintro cmd' s'' ⟨xs,rest,rs,rfl,hat,hxs,rfl⟩
      refine ⟨l::vs++r::xs,rest,by simp,hat,?_⟩
      exact .block ((opens_lparen _).mp hl) hcmd ((opens_rparen _).mp hr) hxs
    · rw [if_neg hpeek]
      exact .throw (by decide)
  · rw [if_neg hpeek]
    exact .throw (by decide)

lemma parseexec_meets
    (hpl : Lines line ts.length pl) :
    Meets (· ∈ shPanics) (parseexec line n pl) s fun cmd s' => ∃ us rest, ts = us++rest ∧
      At line rest s' ∧
      Derives .exec us cmd := by
  refine .bind (.of_eq (peek_eq hz (by decide) hat) ?_)
  have hat := hat.skipSpace
  by_cases hpeek : peeked [40] ts = true
  · rw [if_pos hpeek]
    exact parseblock_meets hz hat hn hpl
  · rw [if_neg hpeek]
    refine .bind ((parseredirs_meets hz hat hn _).mono ?_)
    rintro ret s' ⟨us,rest,rs,rfl,hat,hus,rfl⟩
    simp only [length_append] at hn
    refine (parseargs_meets hz hat (by omega) rs [] (by decide)).mono ?_
    rintro cmd s'' ⟨vs,rest',argv,rs',rfl,hat,hargs,hlt,rfl⟩
    refine ⟨us++vs,rest',(append_assoc _ _ _).symm,hat,?_⟩
    rw [nil_append] at hlt ⊢
    exact .exec hus hargs hlt

lemma parsepipe_meets {m : ℕ}
    (hm : ts.length ≤ m) (hpl : Lines line m pl) :
    Meets (· ∈ shPanics) (parsepipe line pl n) s fun cmd s' => ∃ us rest, ts = us++rest ∧
      At line rest s' ∧
      Derives .pipe us cmd := by
  induction n generalizing ts s with
  | zero => exact absurd hn (Nat.not_lt_zero _)
  | succ n ih =>
    refine .bind ((parseexec_meets hz hat hn fun us s' hus => hpl us s' (by omega)).mono ?_)
    rintro left s' ⟨us,rest,rfl,hat,hleft⟩
    refine .bind (.of_eq (peek_eq hz (by decide) hat) ?_)
    have hat := hat.skipSpace
    by_cases hpeek : peeked [124] rest = true
    · rw [if_pos hpeek]
      obtain ⟨t,vs,rfl,ht⟩ := peeked_eq_true hpeek
      obtain ⟨hget,hat⟩ := gettoken_cons hz hat
      refine .bind (.of_eq hget ?_)
      simp only [length_append,length_cons] at hn hm
      refine .bind ((ih hat (by omega) (by omega)).mono ?_)
      rintro right s'' ⟨ws,rest,rfl,hat,hright⟩
      exact .pure ⟨us++t::ws,rest,by simp,hat,.pipe hleft ((opens_bar _).mp ht) hright⟩
    · rw [if_neg hpeek]
      exact .pure ⟨us,rest,rfl,hat,.single hleft⟩

lemma parseback_meets (cmd : Cmd) :
    Meets (· ∈ shPanics) (parseback line n cmd) s fun cmd' s' => ∃ us rest, ts = us++rest ∧
      At line rest s' ∧
      Backs us cmd cmd' := by
  induction n generalizing ts s cmd with
  | zero => exact absurd hn (Nat.not_lt_zero _)
  | succ n ih =>
    refine .bind (.of_eq (peek_eq hz (by decide) hat) ?_)
    have hat := hat.skipSpace
    by_cases hpeek : peeked [38] ts = true
    · rw [if_pos hpeek]
      obtain ⟨t,us,rfl,ht⟩ := peeked_eq_true hpeek
      obtain ⟨hget,hat⟩ := gettoken_cons hz hat
      refine .bind (.of_eq hget ?_)
      simp only [length_cons] at hn
      refine (ih hat (by omega) _).mono ?_
      rintro cmd' s' ⟨vs,rest,rfl,hat,hvs⟩
      exact ⟨t::vs,rest,rfl,hat,.cons ((opens_amp _).mp ht) hvs⟩
    · rw [if_neg hpeek]
      exact .pure ⟨[],ts,rfl,hat,.nil cmd⟩

end

lemma parseline_meets (hz : 0 ∉ line) (n : ℕ) : Lines line n (parseline line n) := by
  induction n with
  | zero => exact fun us s hus => absurd hus (Nat.not_lt_zero _)
  | succ n ih =>
    intro ts s hn hat
    refine .bind ((parsepipe_meets hz hat hn (Nat.le_of_lt_succ hn) ih).mono ?_)
    rintro cmd s' ⟨us,rest,rfl,hat,hcmd⟩
    simp only [length_append] at hn
    refine .bind ((parseback_meets hz hat (by omega) cmd).mono ?_)
    rintro cmd' s'' ⟨vs,rest,rfl,hat,hback⟩
    refine .bind (.of_eq (peek_eq hz (by decide) hat) ?_)
    have hat := hat.skipSpace
    by_cases hpeek : peeked [59] rest = true
    · rw [if_pos hpeek]
      obtain ⟨t,ws,rfl,ht⟩ := peeked_eq_true hpeek
      obtain ⟨hget,hat⟩ := gettoken_cons hz hat
      refine .bind (.of_eq hget ?_)
      simp only [length_append,length_cons] at hn
      refine .bind ((ih _ _ (by omega) hat).mono ?_)
      rintro right _ ⟨xs,rest,rfl,hat,hright⟩
      exact .pure ⟨us++vs++t::xs,rest,by simp,hat,.list hcmd hback ((opens_semi _).mp ht) hright⟩
    · rw [if_neg hpeek]
      exact .pure ⟨us++vs,rest,by simp,hat,.last hcmd hback⟩

end Parser
end JacobiXv6.User.Sh
