import JacobiXv6.Fs.Coherence

/-! The buffer cache is transparent: whatever the processes do and whichever buffers are
recycled, `bread` returns what was stored last. -/
namespace JacobiXv6.Fs
open Library Log Function

variable {ι : Type*} {n : ℕ}

/-! ### The functions of the cache and of the log keep to the rules -/

section
variable {r : Grips n} {i : Fin n} {g : Grip}

def Idle (r : Grips n) : Prop := ∀ i, r i = none

/-- A process is not in the middle of `bread` or `brelse`. -/
def Settled (r : Grips n) : Prop := ∀ i g, r i = some g → g.stage ≠ .ref

lemma Settled.update (h : Settled r) (hg : g.stage ≠ .ref) :
    Settled (update r i (some g)) := by
  intro j g' hj
  obtain ⟨rfl,⟨⟩⟩ | ⟨-,hj⟩ := update_apply_eq.mp hj
  · exact hg
  · exact h j g' hj

lemma bread_wp {dev b : Word} {Q : Fin n → Grips n → Prop} (hr : Settled r)
    (h : ∀ i, r i = none → Q i (update r i (some ⟨.clean,dev,b⟩))) :
    Wp (bioRules n) (bread dev b) Q r := by
  refine .bind (.ask hr ?_)
  rintro i r' rfl
  split_ifs with hi
  · have hsome : update r i (some ⟨.ref,dev,b⟩) i ≠ none := by
      rw [update_self]
      exact nofun
    refine .bind (.ask hsome ?_)
    rintro _ r' ⟨-,rfl⟩
    rw [Grips.stage,update_self,update_idem]
    refine .bind (.ask (update_self ..) ?_)
    rintro _ r' rfl
    rw [Grips.stage,update_self,update_idem]
    exact h i hi
  · -- it waits for a lock that it holds
    refine .bind (.ask hi ?_)
    rintro _ r' ⟨⟨g,hg,hs⟩,-⟩
    exact absurd hs (hr i g hg)

variable {Q : Unit → Grips n → Prop}

lemma brelse_wp (hg : r i = some g) (hs : g.stage = .clean)
    (h : Q () (update r i none)) : Wp (bioRules n) (brelse i) Q r := by
  refine .bind (.ask ⟨g,hg,hs⟩ ?_)
  rintro _ r' rfl
  rw [Grips.stage,hg]
  refine .ask ⟨_,update_self ..,rfl⟩ ?_
  rintro _ r' rfl
  rw [update_idem]
  exact h

section

variable (hg : r i = some g) (hf : g.stage.filled = true)
include hg hf

lemma bwrite_wp
    (h : Q () (update r i (some { g with stage := .clean }))) :
    Wp (bioRules n) (bwrite i) Q r := by
  refine .ask ⟨g,hg,hf⟩ ?_
  rintro _ r' rfl
  rw [Grips.stage,hg]
  exact h

lemma logWrite_wp
    (h : Q () (update r i (some { g with stage := .clean }))) :
    Wp (bioRules n) (logWrite i) Q r := by
  refine .bind (.ask trivial ?_)
  rintro _ r' rfl
  refine .bind (.ask trivial ?_)
  rintro _ r' rfl
  refine .ask ⟨g,hg,hf⟩ ?_
  rintro _ r'' rfl
  rw [Grips.stage,hg]
  exact h

lemma modify_wp {v : Block}
    (h : Q () (update r i (some { g with stage := .changed }))) :
    Wp (bioRules n) (bio (.modify i v)) Q r := by
  refine .ask ⟨g,hg,hf⟩ ?_
  rintro _ r' rfl
  rw [Grips.stage,hg]
  exact h

lemma data_wp {Q : Block → Grips n → Prop}
    (h : ∀ v, Q v r) : Wp (bioRules n) (bio (.data i)) Q r := by
  refine .ask ⟨g,hg,hf⟩ ?_
  rintro v r' rfl
  exact h v

end

/-- A block gets the data of another and is written, and both are given back: the second half
of the body of both loops of a commit. -/
lemma transfer_wp {dst src : Fin n} {k : Grip} {m : Bio n Unit}
    (hdst : r dst = some g) (hsrc : r src = some k) (hs : g.stage = .clean) (hs' : k.stage = .clean)
    (hne : dst ≠ src) (hm : Wp (bioRules n) m Q (update (update r src none) dst none)) :
    Wp (bioRules n) (do copy dst src; bwrite dst; brelse src; brelse dst; m) Q r := by
  refine .bind (.bind (data_wp hsrc (by rw [hs']; rfl) fun v => ?_))
  refine modify_wp hdst (by rw [hs]; rfl) (.bind (bwrite_wp (update_self ..) rfl ?_))
  rw [update_idem]
  have hsrc' : update r dst (some { g with stage := .clean }) src = some k := by
    rw [update_of_ne hne.symm,hsrc]
  refine .bind (brelse_wp hsrc' hs' (.bind (brelse_wp (g := { g with stage := .clean }) ?_ rfl ?_)))
  · rw [update_of_ne hne,update_self]
  · rw [update_comm hne,update_idem,update_comm hne.symm]
    rwa [update_comm hne.symm] at hm

lemma restore {j : Fin n} {o o' : Option Grip} (hi : r i = none) (hj : r j = none) :
    update (update (update (update r i o) j o') j none) i none = r := by
  ext1 k
  obtain rfl | hki := eq_or_ne k i
  · rw [update_self,hi]
  · obtain rfl | hkj := eq_or_ne k j
    · rw [update_of_ne hki,update_self,hj]
    · rw [update_of_ne hki,update_of_ne hkj,update_of_ne hkj,
        update_of_ne hki]

lemma two_breads {b c : Word} {f : Fin n → Fin n → Bio n Unit} (hr : Settled r)
    (h : ∀ i j, i ≠ j → r i = none → r j = none → Wp (bioRules n) (f i j) Q
      (update (update r i (some ⟨.clean,ROOTDEV,b⟩)) j (some ⟨.clean,ROOTDEV,c⟩))) :
    Wp (bioRules n) (bread ROOTDEV b >>= fun i => bread ROOTDEV c >>= f i) Q r := by
  refine .bind (bread_wp hr fun i hi => .bind (bread_wp (hr.update nofun) fun j hj => ?_))
  have hij : i ≠ j := by
    rintro rfl
    rw [update_self] at hj
    exact nomatch hj
  rw [update_of_ne hij.symm] at hj
  exact h i j hij hi hj

lemma writeLog_wp (L : Layout) (tail : ℕ) (lh : List Word) (hr : Settled r) :
    Wp (bioRules n) (writeLog L tail lh) (fun _ r' => r' = r) r := by
  induction lh generalizing tail with
  | nil => exact .pure rfl
  | cons b bs ih =>
    refine two_breads hr fun i j hij hi hj => transfer_wp (g := ⟨.clean,ROOTDEV,L.slot tail⟩)
      (k := ⟨.clean,ROOTDEV,b⟩) ?_ ?_ rfl rfl hij ?_
    · rw [update_of_ne hij,update_self]
    · rw [update_self]
    · rw [restore hi hj]
      exact ih (tail+1)

lemma installTrans_wp (L : Layout) (tail : ℕ) (lh : List Word) (hr : Settled r) :
    Wp (bioRules n) (installTrans L tail lh) (fun _ r' => r' = r) r := by
  induction lh generalizing tail with
  | nil => exact .pure rfl
  | cons b bs ih =>
    refine two_breads hr fun i j hij hi hj => transfer_wp (k := ⟨.clean,ROOTDEV,L.slot tail⟩)
      (g := ⟨.clean,ROOTDEV,b⟩) ?_ ?_ rfl rfl hij.symm ?_
    · rw [update_self]
    · rw [update_of_ne hij,update_self]
    · rw [update_comm hij,restore hi hj]
      exact ih (tail+1)

lemma writeHead_wp (L : Layout) (hr : Settled r) :
    Wp (bioRules n) (writeHead L) (fun _ r' => r' = r) r := by
  refine .bind (bread_wp hr fun i hi => .bind (.ask trivial ?_))
  rintro lh r' rfl
  refine .bind (data_wp (update_self ..) rfl fun v => ?_)
  refine .bind (modify_wp (update_self ..) rfl ?_)
  rw [update_idem]
  refine .bind (bwrite_wp (update_self ..) rfl ?_)
  rw [update_idem]
  refine brelse_wp (update_self ..) rfl ?_
  rw [update_idem,← hi,update_eq_self]

lemma commit_wp (L : Layout) (hr : Settled r) :
    Wp (bioRules n) (commit L) (fun _ r' => r' = r) r := by
  refine .bind (.ask trivial ?_)
  rintro lh r' rfl
  split_ifs
  · refine .bind ((writeLog_wp L 0 lh hr).mono ?_)
    rintro _ r' rfl
    refine .bind ((writeHead_wp L hr).mono ?_)
    rintro _ r' rfl
    refine .bind (.ask trivial ?_)
    rintro lh' r' rfl
    refine .bind ((installTrans_wp L 0 lh' hr).mono ?_)
    rintro _ r' rfl
    refine .bind (.ask trivial ?_)
    rintro _ r' rfl
    exact writeHead_wp L hr
  · exact .pure rfl

lemma endOp_wp (L : Layout) (hr : Settled r) :
    Wp (bioRules n) (endOp L) (fun _ r' => r' = r) r := by
  refine .bind (.ask trivial ?_)
  rintro doCommit r' rfl
  split_ifs
  · refine .bind ((commit_wp L hr).mono ?_)
    rintro _ r' rfl
    refine .ask trivial ?_
    rintro _ r' rfl
    rfl
  · exact .pure rfl

end

/-! ### The cache is transparent -/

section
variable {d : Disk} {s s' : Bcache ι n} {res : ι → Grips n} {p : ι} {i : Fin n}

lemma key_put {x : Buffer ι} (j : Fin n) (hdev : x.dev = (s.buf j).dev)
    (hblock : x.blockno = (s.buf j).blockno) :
    ((s.put j x).buf i).dev = (s.buf i).dev ∧ ((s.put j x).buf i).blockno = (s.buf i).blockno := by
  obtain rfl | hij := eq_or_ne i j
  · rw [Bcache.put_self]
    exact ⟨hdev,hblock⟩
  · rw [Bcache.put_ne _ hij]
    exact ⟨rfl,rfl⟩

variable [DecidableEq ι]

lemma key_iderw {disksize : ℕ} {j : Fin n} {u : Unit} (hj : s.iderw disksize p j = .done s' u) :
    (s'.buf i).dev = (s.buf i).dev ∧ (s'.buf i).blockno = (s.buf i).blockno := by
  obtain ⟨-,-,⟨-,rfl⟩ | ⟨-,-,rfl⟩⟩ := Coherent.iderw_cases hj
  · exact key_put _ rfl rfl
  · exact key_put _ rfl rfl

lemma Coherent.not_recycled {L : Layout} {disksize : ℕ} {o : BioOp n} {y : o.Ans}
    (h : Coherent d s res) (ho : s.handle L disksize p o = .done s' y)
    (huse : 0 < (s.buf i).refcnt ∨ (s.buf i).dirty = true) :
    (s'.buf i).dev = (s.buf i).dev ∧ (s'.buf i).blockno = (s.buf i).blockno := by
  cases o with
  | bget dev b =>
    rcases h.bget_cases ho with ⟨-,-,rfl⟩ | ⟨-,hz,hclean,rfl⟩
    · exact key_put _ rfl rfl
    · have hij : i ≠ y := by
        rintro rfl
        rcases huse with hpos | hd
        · omega
        · exact nomatch hclean.symm.trans hd
      rw [Bcache.put_ne _ hij]
      exact ⟨rfl,rfl⟩
  | acquiresleep j | releasesleep j =>
    simp only [Bcache.handle] at ho
    split_ifs at ho
    cases ho
    exact key_put _ rfl rfl
  | ready dev b j =>
    simp only [Bcache.handle,Bcache.ready] at ho
    split_ifs at ho
    · cases ho
      exact ⟨rfl,rfl⟩
    · obtain ⟨s₁,_,hi,⟨⟩⟩ := Reply.andThen_eq_done ho
      have hkey := key_iderw (i := i) hi
      exact hkey
  | bwrite j =>
    simp only [Bcache.handle,Bcache.bwrite] at ho
    split_ifs at ho
    obtain ⟨s₁,_,hi,⟨⟩⟩ := Reply.andThen_eq_done ho
    have hmark := key_put (s := s) (i := i) (x := { s.buf j with dirty := true }) j rfl rfl
    obtain ⟨hdev,hblock⟩ := key_iderw (i := i) hi
    exact ⟨hdev.trans hmark.1,hblock.trans hmark.2⟩
  | unref j =>
    simp only [Bcache.handle,Bcache.unref] at ho
    split_ifs at ho
    · cases ho
      exact key_put _ rfl rfl
    · cases ho
      exact key_put _ rfl rfl
  | modify j v | logRecord j =>
    cases ho
    exact key_put _ rfl rfl
  | logRoom | logActive | beginOp =>
    simp only [Bcache.handle] at ho
    split_ifs at ho
    cases ho
    exact ⟨rfl,rfl⟩
  | endOp =>
    simp only [Bcache.handle] at ho
    split_ifs at ho
    · cases ho
      exact ⟨rfl,rfl⟩
    · cases ho
      exact ⟨rfl,rfl⟩
  | data | endCommit | header | clear =>
    cases ho
    exact ⟨rfl,rfl⟩

def withCommit {C : Type*} (L : Layout) (code : C → Bio n Unit) : Option C → Bio n Unit
  | some c => code c
  | none => commit L

/-- Processes make any calls that keep to the rules, and commits. Then `bread` returns what was
stored last; no block of a device has two buffers; a buffer that is in use or dirty is not
recycled; and the links are one cycle through the head and all the buffers. -/
theorem bcache_transparent {C : Type*} (L : Layout) (disksize : ℕ) (d : Disk) (code : C → Bio n Unit)
    (hcode : ∀ c r, Idle r → Wp (bioRules n) (code c) (fun _ => Idle) r)
    (as : List (ι×ThreadAct (Option C))) (t : Threads ι (Bcache ι n) (BioOp n) BioOp.Ans)
    (h : Run (Threads.Step (Bcache.handle L disksize) (withCommit L code)) (.start (.binit d)) as t) :
    Transparent d t.state.hist ∧
    (∀ i j, (t.state.buf i).dev ≠ 0 → (t.state.buf i).dev = (t.state.buf j).dev →
      (t.state.buf i).blockno = (t.state.buf j).blockno → i = j) ∧
    (∀ a t', Threads.Step (Bcache.handle L disksize) (withCommit L code) t a t' →
      ∀ i, 0 < (t.state.buf i).refcnt ∨ (t.state.buf i).dirty = true →
        (t'.state.buf i).dev = (t.state.buf i).dev ∧ (t'.state.buf i).blockno =
          (t.state.buf i).blockno) ∧
    ∃ l, t.state.links.Cycle l ∧ ∀ i, i ∈ l := by
  have hcalls : ∀ c r, Idle r → Wp (bioRules n) (withCommit L code c) (fun _ => Idle) r := by
    rintro (_ | c) r hr
    · refine (commit_wp L fun i g hg => nomatch (hr i).symm.trans hg).mono ?_
      rintro _ r' rfl
      exact hr
    · exact hcode c r hr
  obtain ⟨res,hco,-⟩ := Threads.Sound.run (I := Coherent d) hcalls
    (fun _ _ _ _ _ _ hI hpre ho => hI.step hpre ho) (Coherent.binit d) (fun _ _ => rfl) h
  refine ⟨hco.hist,hco.unique,?_,hco.cycle⟩
  intro a t' hs i huse
  rcases Threads.step_cases hs with ⟨c,-,rfl⟩ | ⟨o,k,s',x,-,ho,rfl⟩
  · exact ⟨rfl,rfl⟩
  · exact hco.not_recycled ho huse

/-- A call that logs a new value of block 5 and commits, and one that reads two other blocks and
then block 5. -/
def rewriteAndRead (L : Layout) : Bool → Bio 2 Unit
  | true => do
    beginOp
    let i ← bread ROOTDEV 5
    bio (.modify i fun _ => 7)
    logWrite i
    brelse i
    endOp L
  | false => do
    let i ← bread ROOTDEV 8
    let j ← bread ROOTDEV 9
    brelse i
    brelse j
    let k ← bread ROOTDEV 5
    brelse k

lemma rewriteAndRead_wp (L : Layout) (c : Bool) (r : Grips 2) (hr : Idle r) :
    Wp (bioRules 2) (rewriteAndRead L c) (fun _ => Idle) r := by
  have hs : Settled r := fun i g hg => nomatch (hr i).symm.trans hg
  cases c with
  | true =>
    refine .bind (.ask trivial ?_)
    rintro _ r' rfl
    refine .bind (bread_wp hs fun i hi => .bind (modify_wp (update_self ..) rfl ?_))
    rw [update_idem]
    refine .bind (logWrite_wp (update_self ..) rfl ?_)
    rw [update_idem]
    refine .bind (brelse_wp (update_self ..) rfl ?_)
    rw [update_idem,← hi,update_eq_self]
    refine (endOp_wp L hs).mono ?_
    rintro _ r'' rfl
    exact hr
  | false =>
    refine two_breads hs fun i j hij hi hj => .bind (brelse_wp (g := ⟨.clean,ROOTDEV,8⟩) ?_ rfl ?_)
    · rw [update_of_ne hij,update_self]
    refine .bind (brelse_wp (g := ⟨.clean,ROOTDEV,9⟩) ?_ rfl ?_)
    · rw [update_of_ne hij.symm,update_self]
    rw [update_comm hij,restore hi hj]
    refine .bind (bread_wp hs fun k hk => brelse_wp (update_self ..) rfl ?_)
    rw [update_idem,← hk,update_eq_self]
    exact hr

/-- The log from block 2 on, and the two calls one after the other. -/
def smallLog : Layout := ⟨2,4,by decide⟩

def rewriteThenRead : List (Bool×ThreadAct (Option Bool)) :=
  (true,.call (some true))::(List.replicate 59 (true,.tick)++
    (false,.call (some false))::List.replicate 13 (false,.tick))

/-- The event is the end of a `bread` of block 5 that got a 7 in word `k`. -/
def gotSeven (k : Fin 128) : Option BioEvent → Bool
  | some (.returned dev b v) => dev = 1 ∧ b = 5 ∧ v k = 7
  | _ => false

theorem bcache_transparent_rewriteThenRead :
    ∃ t, Run (Threads.Step (Bcache.handle smallLog 10) (withCommit smallLog (rewriteAndRead smallLog)))
      (.start (.binit fun _ _ => 0)) rewriteThenRead t ∧
    ∃ l v, t.state.hist = l++[.returned 1 5 v] ∧ v = contents (fun _ _ => 0) l 5 ∧ v 0 = 7 := by
  have he : (exec (fun a t => Threads.next (Bcache.handle smallLog 10)
      (withCommit smallLog (rewriteAndRead smallLog)) t a.1 a.2) rewriteThenRead
      (.start (.binit fun _ _ => 0))).map (fun t => gotSeven 0 t.state.hist.getLast?) = some true := by
    decide +kernel
  obtain ⟨t,ht,hlast⟩ := Option.map_eq_some_iff.mp he
  have hrun := Run.of_exec ht
  obtain ⟨htrans,-⟩ := bcache_transparent smallLog 10 (fun _ _ => 0) (rewriteAndRead smallLog)
    (rewriteAndRead_wp smallLog) rewriteThenRead t hrun
  refine ⟨t,hrun,?_⟩
  unfold gotSeven at hlast
  split at hlast
  · rename_i dev b v hv
    obtain ⟨rfl,rfl,hseven⟩ := of_decide_eq_true hlast
    obtain ⟨l,hl⟩ := List.getLast?_eq_some_iff.mp hv
    exact ⟨l,v,hl,htrans l 1 5 v [] hl (by simp),hseven⟩
  · cases hlast

end
end JacobiXv6.Fs
