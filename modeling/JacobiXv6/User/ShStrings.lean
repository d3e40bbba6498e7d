import JacobiXv6.User.ShGrammar

/-! The strings of a command after `nulterminate`: pieces of the line, each ended by a zero that
stands on no byte of another piece. -/
namespace JacobiXv6.User.Sh
open Library List

/-- The strings of a command: the words of its `EXEC` nodes and the file names of its `REDIR` nodes.
-/
def Cmd.strings : Cmd → List (ℕ×ℕ)
  | .exec argv => argv
  | .redir cmd file efile _ _ => cmd.strings++[(file,efile)]
  | .pipe left right => left.strings++right.strings
  | .list left right => left.strings++right.strings
  | .back cmd => cmd.strings

def cstring (buf : List Byte) (p : ℕ) : List Byte := (buf.drop p).takeWhile (· ≠ 0)

/-! ### The strings are words of the line -/

/-- The token was recognised as a word, and the string points to it. -/
def Recognised (ts : List Token) (p : ℕ×ℕ) : Prop := ∃ t ∈ ts, t.kind = .word ∧ p = (t.start,t.stop)

variable {ts : List Token} {rs : List Redir}

lemma Redirs.recognised (h : Redirs ts rs) :
    ∀ r ∈ rs, r.2 ∈ ts ∧ r.2.kind = .word := by
  induction h with
  | nil => simp
  | @cons op file ts rs _ hfile _ ih =>
    refine forall_mem_cons.mpr ⟨⟨by simp,hfile⟩,fun r hr => ?_⟩
    obtain ⟨hmem,hword⟩ := ih r hr
    exact ⟨mem_cons_of_mem _ (mem_cons_of_mem _ hmem),hword⟩

lemma strings_redirected (tok : Option Kind) (cmd : Cmd) (q eq : ℕ) :
    ∀ p ∈ (redirected tok cmd q eq).strings, p ∈ cmd.strings ∨ p = (q,eq) := by
  intro p hp
  unfold redirected at hp
  split at hp
  all_goals simp_all [Cmd.strings]

lemma strings_wrap (rs : List Redir) (cmd : Cmd) :
    ∀ p ∈ (wrap rs cmd).strings, p ∈ cmd.strings ∨ ∃ r ∈ rs, p = (r.2.start,r.2.stop) := by
  induction rs generalizing cmd with
  | nil => exact fun p hp => .inl hp
  | cons r rs ih =>
    intro p hp
    rcases ih _ p hp with hp | ⟨r',hr',rfl⟩
    · rcases strings_redirected _ _ _ _ p hp with hp | rfl
      · exact .inl hp
      · exact .inr ⟨r,by simp,rfl⟩
    · exact .inr ⟨r',mem_cons_of_mem _ hr',rfl⟩

variable {us : List Token}

lemma Recognised.mono {p : ℕ×ℕ} (h : Recognised ts p) (hsub : ts ⊆ us) : Recognised us p := by
  obtain ⟨t,ht,hword,rfl⟩ := h
  exact ⟨t,hsub ht,hword,rfl⟩

lemma Redirs.wrap_recognised {cmd : Cmd} (hus : Redirs us rs) (hsub : us ⊆ ts)
    (hcmd : ∀ p ∈ cmd.strings, Recognised ts p) : ∀ p ∈ (wrap rs cmd).strings, Recognised ts p := by
  intro p hp
  rcases strings_wrap rs cmd p hp with hp | ⟨r,hr,rfl⟩
  · exact hcmd p hp
  · obtain ⟨hmem,hword⟩ := hus.recognised r hr
    exact ⟨r.2,hsub hmem,hword,rfl⟩

lemma Args.recognised {argv : List (ℕ×ℕ)} (h : Args ts argv rs) (hsub : ts ⊆ us) :
    (∀ p ∈ argv, Recognised us p) ∧ ∀ cmd : Cmd, (∀ p ∈ cmd.strings, Recognised us p) →
      ∀ p ∈ (wrap rs cmd).strings, Recognised us p := by
  induction h with
  | nil => exact ⟨by simp,fun cmd hcmd => hcmd⟩
  | @cons word vs ws rs rs' argv hword hvs _ ih =>
    obtain ⟨hhead,htail⟩ := cons_subset.mp hsub
    obtain ⟨hvs',hws⟩ := append_subset.mp htail
    obtain ⟨hargv,hwrap⟩ := ih hws
    refine ⟨forall_mem_cons.mpr ⟨⟨word,hhead,hword,rfl⟩,hargv⟩,fun cmd hcmd => ?_⟩
    rw [wrap_append]
    exact hwrap _ (hvs.wrap_recognised hvs' hcmd)

lemma Backs.strings_eq {cmd cmd' : Cmd} (h : Backs us cmd cmd') : cmd'.strings = cmd.strings := by
  induction h with
  | nil => rfl
  | cons _ _ ih => exact ih

lemma Derives.recognised {part : Part} {cmd : Cmd} (h : Derives part ts cmd) :
    ∀ p ∈ cmd.strings, Recognised ts p := by
  induction h with
  | @block l r ts us cmd rs _ _ _ hus ih =>
    refine hus.wrap_recognised (fun t ht => by simp [ht]) fun p hp =>
      (ih p hp).mono fun t ht => by simp [ht]
  | @exec us ts rs rs' argv hus hts _ =>
    have hargs := hts.recognised (subset_append_right us ts)
    rw [wrap_append]
    exact hargs.2 _ (hus.wrap_recognised (subset_append_left us ts) hargs.1)
  | single _ ih => exact ih
  | @pipe t ts us left right _ _ _ ihleft ihright =>
    intro p hp
    rcases mem_append.mp hp with hp | hp
    · exact (ihleft p hp).mono fun t ht => by simp [ht]
    · exact (ihright p hp).mono fun t ht => by simp [ht]
  | @last ts us cmd cmd' _ hback ih =>
    intro p hp
    rw [hback.strings_eq] at hp
    exact (ih p hp).mono (subset_append_left ts us)
  | @list t ts us vs cmd cmd' right _ hback _ _ ihleft ihright =>
    intro p hp
    rcases mem_append.mp hp with hp | hp
    · rw [hback.strings_eq] at hp
      exact (ihleft p hp).mono fun t ht => by simp [ht]
    · exact (ihright p hp).mono fun t ht => by simp [ht]

/-! ### The bytes that `nulterminate` clears -/

def terminate (strings : List (ℕ×ℕ)) (buf : List Byte) : List Byte :=
  strings.foldl (fun buf p => buf.set p.2 0) buf

lemma nulterminate_eq (cmd : Cmd) (buf : List Byte) :
    nulterminate cmd buf = terminate cmd.strings buf := by
  induction cmd generalizing buf with
  | exec argv => rfl
  | redir cmd file efile mode fd ih =>
    rw [nulterminate,ih,Cmd.strings,terminate,terminate,foldl_append]; rfl
  | pipe left right ihleft ihright | list left right ihleft ihright =>
    rw [nulterminate,ihleft,ihright,Cmd.strings,terminate,terminate,terminate,foldl_append]
  | back cmd ih => exact ih buf

@[simp] lemma terminate_length (strings : List (ℕ×ℕ)) (buf : List Byte) :
    (terminate strings buf).length = buf.length := by
  induction strings generalizing buf with
  | nil => rfl
  | cons p strings ih => exact (ih _).trans length_set

lemma terminate_getD (strings : List (ℕ×ℕ)) (buf : List Byte) (i : ℕ) :
    (terminate strings buf).getD i 0 = if i ∈ strings.map Prod.snd then 0 else buf.getD i 0 := by
  induction strings generalizing buf with
  | nil => simp [terminate]
  | cons p strings ih =>
    have hset : (buf.set p.2 0).getD i 0 = if i = p.2 then 0 else buf.getD i 0 := by
      rw [getD_eq_getElem?_getD,getD_eq_getElem?_getD,getElem?_set]
      by_cases hp : p.2 = i
      · by_cases hi : p.2 < buf.length
        · rw [if_pos hp,if_pos hi,if_pos hp.symm,Option.getD_some]
        · rw [if_pos hp,if_neg hi,if_pos hp.symm,Option.getD_none]
      · rw [if_neg hp,if_neg (Ne.symm hp)]
    have hmem : i ∈ (p::strings).map Prod.snd ↔ i = p.2 ∨ i ∈ strings.map Prod.snd := mem_cons
    rw [show terminate (p::strings) buf = terminate strings (buf.set p.2 0) from rfl,ih,hset]
    simp only [hmem]
    by_cases hp : i = p.2
    · rw [if_pos hp,if_pos (Or.inl hp),ite_self]
    · simp only [hp,false_or,if_false]

/-- A string of `k` bytes. -/
lemma takeWhile_eq_take {buf : List Byte} {k : ℕ} (hinside : ∀ i < k, buf.getD i 0 ≠ 0)
    (hend : buf.getD k 0 = 0) :
    buf.takeWhile (· ≠ 0) = buf.take k := by
  induction k generalizing buf with
  | zero =>
    cases buf with
    | nil => rfl
    | cons c buf =>
      rw [getD_cons_zero] at hend
      rw [takeWhile_cons_of_neg (by simpa using hend),take_zero]
  | succ k ih =>
    cases buf with
    | nil => rfl
    | cons c buf =>
      have hc : c ≠ 0 := hinside 0 (Nat.succ_pos k)
      rw [takeWhile_cons_of_pos (by simpa using hc),take_succ_cons]
      rw [getD_cons_succ] at hend
      rw [ih (fun i hi => hinside (i+1) (Nat.succ_lt_succ hi)) hend]

/-- The strings of the tree of an accepted line are the texts of the words that they were set to. -/
theorem nulterminate_strings (line : List Byte) (hz : 0 ∉ line) (n : ℕ)
    (hn : line.length < n) (cmd : Cmd)
    (buf : List Byte) (h : parsecmd line n = .ok (cmd,buf)) : ∀ p ∈ cmd.strings, ∃ t ∈ tokens line 0,
      t.kind = .word ∧ p = (t.start,t.stop) ∧
        cstring buf p.1 = (line.drop t.start).take (t.stop-t.start) := by
  obtain ⟨hderives,rfl⟩ : Derives .line (tokens line 0) cmd ∧
      buf = terminate cmd.strings (line++[0]) := by
    unfold parsecmd at h
    cases htop : parsetop line n 0 with
    | error message => simp [htop] at h
    | ok result =>
      rw [htop] at h
      cases h
      exact ⟨(parsetop_meets hz hn).returns result.1 result.2 htop,nulterminate_eq _ _⟩
  intro p hp
  obtain ⟨t,ht,hkind,rfl⟩ := hderives.recognised p hp
  refine ⟨t,ht,hkind,rfl,?_⟩
  have hword := tokens_isWord line 0 t ht hkind
  have hbounds := hword.bounds
  -- no string ends inside the word
  have hkeep : ∀ i, t.start ≤ i → i < t.stop → (terminate cmd.strings (line++[0])).getD i 0 =
      line.getD i 0 := by
    intro i hi hstop
    rw [terminate_getD,if_neg,getD_append _ _ _ _ (by omega)]
    intro hmem
    obtain ⟨q,hq,rfl⟩ := mem_map.mp hmem
    obtain ⟨t',ht',hkind',rfl⟩ := hderives.recognised q hq
    have hword' := tokens_isWord line 0 t' ht' hkind'
    have hin := hword.inside t'.stop hi hstop
    rw [hword'.outside (by simp only at hstop; omega)] at hin
    exact Bool.false_ne_true hin
  have hne : ∀ i, i < line.length → line.getD i 0 ≠ 0 := by
    intro i hi hzero
    rw [getD_eq_getElem _ _ hi] at hzero
    exact hz (hzero ▸ getElem_mem hi)
  have hstring : cstring (terminate cmd.strings (line++[0])) t.start =
      ((terminate cmd.strings (line++[0])).drop t.start).take (t.stop-t.start) := by
    apply takeWhile_eq_take
    · intro i hi
      rw [getD_drop,hkeep (t.start+i) (by omega) (by omega)]
      exact hne _ (by omega)
    · rw [getD_drop,Nat.add_sub_cancel' hbounds.1.le,terminate_getD,if_pos (mem_map.mpr ⟨_,hp,rfl⟩)]
  rw [hstring]
  apply ext_getElem
  · simp only [length_take,length_drop,terminate_length,length_append,length_singleton]
    omega
  · intro i hi hi'
    simp only [length_take,length_drop] at hi hi'
    have h := hkeep (t.start+i) (by omega) (by omega)
    rw [getD_eq_getElem _ _ (by omega),getD_eq_getElem _ _ (by omega)] at h
    simpa only [getElem_take,getElem_drop] using h

/-- The line `a>b`: the zero behind `a` stands on the symbol, and the file's name is read up to its
own. -/
theorem nulterminate_strings_redirection :
    parsecmd [97,62,98] 4 = .ok (.redir (.exec [(0,1)]) 2 3 0x201 1,[97,0,98,0]) ∧
    ∃ t ∈ tokens [97,62,98] 0, t.kind = .word ∧ (2,3) = (t.start,t.stop) ∧
      cstring [97,0,98,0] 2 = ([97,62,98].drop t.start).take (t.stop-t.start) :=
  ⟨rfl,nulterminate_strings [97,62,98] (by decide) 4 (by decide)
    (.redir (.exec [(0,1)]) 2 3 0x201 1) [97,0,98,0] rfl (2,3)
    (by decide)⟩

end JacobiXv6.User.Sh
