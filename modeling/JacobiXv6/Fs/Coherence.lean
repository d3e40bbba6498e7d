import JacobiXv6.Fs.Bcache

/-! The rules for users of the buffer cache, and the invariant that every step by the rules
keeps. -/
namespace JacobiXv6.Fs
open Library Log Function List

/-! ### What has been stored -/

def BioEvent.store : BioEvent → Option (Word×Block)
  | stored b v => some (b,v)
  | returned _ _ _ => none

/-- The contents of the blocks as the callers know them: what was stored last, or what the
disk held in the beginning. -/
def contents (d : Disk) (es : List BioEvent) : Disk := writes d (es.filterMap BioEvent.store)

lemma contents_stored (d : Disk) (es : List BioEvent) (b : Word) (v : Block) :
    contents d (es++[.stored b v]) = update (contents d es) b v := by
  rw [contents,filterMap_append]
  exact writes_concat d _ (b,v)

lemma contents_returned (d : Disk) (es : List BioEvent) (dev b : Word) (v : Block) :
    contents d (es++[.returned dev b v]) = contents d es := by
  rw [contents,filterMap_append]
  exact congrArg (writes d) (append_nil _)

/-- Every `bread` from a device returned what had been stored last before it. -/
def Transparent (d : Disk) (es : List BioEvent) : Prop :=
  ∀ l dev b v r, es = l++.returned dev b v::r → dev ≠ 0 → v = contents d l b

namespace Transparent
variable {d : Disk} {es : List BioEvent} {dev b : Word} {v : Block}

lemma nil : Transparent d [] := by
  intro l dev b v r h
  simp at h

lemma concat (h : Transparent d es) {e : BioEvent}
    (he : ∀ dev b v, e = .returned dev b v → dev ≠ 0 → v = contents d es b) :
    Transparent d (es++[e]) := by
  intro l dev b v r heq hdev
  obtain rfl | ⟨r,y,rfl⟩ := r.eq_nil_or_concat'
  · obtain ⟨rfl,rfl⟩ := append_singleton_inj.mp heq
    exact he dev b v rfl hdev
  · rw [← cons_append,← append_assoc] at heq
    obtain ⟨rfl,rfl⟩ := append_singleton_inj.mp heq
    exact h l dev b v r rfl hdev

lemma stored (h : Transparent d es) (b : Word) (v : Block) : Transparent d (es++[.stored b v]) :=
  h.concat nofun

lemma returned (h : Transparent d es) (hv : v = contents d es b) :
    Transparent d (es++[.returned dev b v]) := by
  refine h.concat ?_
  rintro _ _ _ ⟨⟩ -
  exact hv

end Transparent

/-! ### What a process holds -/

/-- How far a process is with a buffer: it is counted in `refcnt`, it has the sleep-lock, `bread`
has returned, it has changed the data and not yet stored it. -/
inductive Stage
  | ref
  | locked
  | clean
  | changed
  deriving DecidableEq

def Stage.filled : Stage → Bool
  | clean | changed => true
  | _ => false

/-- What a process holds of a buffer, and for which block it asked. -/
structure Grip where
  stage : Stage
  dev : Word
  blockno : Word
  deriving DecidableEq

abbrev Grips (n : ℕ) := Fin n → Option Grip

def Grips.stage {n : ℕ} (r : Grips n) (i : Fin n) (st : Stage) : Grips n :=
  update r i ((r i).map fun g => { g with stage := st })

/-- The rules for users of the cache. A buffer is used between `bread` and `brelse` only, and after
a change it is stored before it is given back. A process that asks for a block it has locked
already waits forever. -/
def bioRules (n : ℕ) : Rules (BioOp n) BioOp.Ans (Grips n) where
  pre r
    | .bget _ _ => ∀ i g, r i = some g → g.stage ≠ .ref
    | .acquiresleep i => r i ≠ none
    | .ready dev blockno i => r i = some ⟨.locked,dev,blockno⟩
    | .data i | .modify i _ | .bwrite i | .logRecord i => ∃ g, r i = some g ∧ g.stage.filled = true
    | .releasesleep i => ∃ g, r i = some g ∧ g.stage = .clean
    | .unref i => ∃ g, r i = some g ∧ g.stage = .ref
    | _ => True
  post r
    | .bget dev blockno, i, r' =>
      r' = if r i = none then update r i (some ⟨.ref,dev,blockno⟩) else r
    | .acquiresleep i, _, r' => (∃ g, r i = some g ∧ g.stage = .ref) ∧ r' = r.stage i .locked
    | .ready _ _ i, _, r' | .bwrite i, _, r' | .logRecord i, _, r' => r' = r.stage i .clean
    | .modify i _, _, r' => r' = r.stage i .changed
    | .releasesleep i, _, r' => r' = r.stage i .ref
    | .unref i, _, r' => r' = update r i none
    | _, _, r' => r' = r

variable {ι : Type*} {n : ℕ}

/-! ### The invariant -/

/-- A buffer, what is stored in its block and what the processes hold of it fit together. -/
structure Fits (now : Disk) (x : Buffer ι) (r : ι → Option Grip) : Prop where
  refs : ∃ h : Finset ι, h.card ≤ x.refcnt ∧ ∀ p, r p ≠ none → p ∈ h
  key : ∀ p g, r p = some g → g.dev = x.dev ∧ g.blockno = x.blockno
  lock : ∀ p, x.lock = some p ↔ ∃ g, r p = some g ∧ g.stage ≠ .ref
  filled : ∀ p g, r p = some g → g.stage.filled = true → x.valid = true
  device : x.valid = true → x.dev = 1
  dirty : x.dirty = true → x.valid = true
  data : x.valid = true → (∀ p g, r p = some g → g.stage ≠ .changed) → x.data = now x.blockno

namespace Fits
variable {now now' : Disk} {x x' : Buffer ι} {r : ι → Option Grip} {p q : ι} {g g' : Grip}

lemma none_of_refcnt (h : Fits now x r) (hz : x.refcnt = 0) (p : ι) : r p = none := by
  obtain ⟨hs,hcard,hmem⟩ := h.refs
  by_contra hp
  have hpos := Finset.card_pos.mpr ⟨p,hmem p hp⟩
  omega

lemma stage_of_ne (h : Fits now x r) (hp : x.lock = some p) (hq : q ≠ p) (hg : r q = some g) :
    g.stage = .ref := by
  by_contra hs
  have hq' := (h.lock q).mpr ⟨g,hg,hs⟩
  exact hq (Option.some.inj (hq'.symm.trans hp))

lemma unchanged (h : Fits now x r) (hg : r p = some g) (hs : g.stage ≠ .ref) (hc : g.stage ≠ .changed)
    (q : ι) (g' : Grip) (hq : r q = some g') : g'.stage ≠ .changed := by
  by_cases hne : q = p
  · obtain rfl := Option.some.inj (hg.symm.trans (hne ▸ hq))
    exact hc
  · rw [h.stage_of_ne ((h.lock p).mpr ⟨g,hg,hs⟩) hne hq]
    exact nofun

lemma congr (h : Fits now x r) (hnow : x.valid = true → now' x.blockno = now x.blockno) :
    Fits now' x r :=
  { h with data := fun hv hc => (h.data hv hc).trans (hnow hv).symm }

lemma again (h : Fits now x r) : Fits now { x with refcnt := x.refcnt+1 } r := by
  obtain ⟨hs,hcard,hmem⟩ := h.refs
  exact { h with refs := ⟨hs,hcard.trans (Nat.le_succ _),hmem⟩ }

variable [DecidableEq ι]

section

variable (h : Fits now x r)
include h

lemma refs_update (hg : r p = some g) (o : Option Grip) :
    ∃ h : Finset ι, h.card ≤ x.refcnt ∧ ∀ q, update r p o q ≠ none → q ∈ h := by
  obtain ⟨hs,hcard,hmem⟩ := h.refs
  refine ⟨hs,hcard,fun q hq => ?_⟩
  obtain rfl | hne := eq_or_ne q p
  · exact hmem q (by rw [hg]; exact nofun)
  · rw [update_of_ne hne] at hq
    exact hmem q hq

lemma key_update (hdev : g.dev = x.dev) (hblock : g.blockno = x.blockno) (q : ι)
    (g' : Grip) (hq : update r p (some g) q = some g') :
    g'.dev = x.dev ∧ g'.blockno = x.blockno := by
  obtain ⟨rfl,⟨⟩⟩ | ⟨-,hq⟩ := update_apply_eq.mp hq
  · exact ⟨hdev,hblock⟩
  · exact h.key q g' hq

lemma holder {st : Stage} (hg : r p = some g) (hs : g.stage ≠ .ref)
    (hdev : x'.dev = x.dev) (hblock : x'.blockno = x.blockno) (hlock : x'.lock = x.lock)
    (href : x'.refcnt = x.refcnt) (hst : st ≠ .ref) (hfilled : st.filled = true → x'.valid = true)
    (hdevice : x'.valid = true → x'.dev = 1) (hdirty : x'.dirty = true → x'.valid = true)
    (hdata : st ≠ .changed → x'.valid = true → x'.data = now' x'.blockno) :
    Fits now' x' (update r p (some { g with stage := st })) := by
  have hown : x.lock = some p := (h.lock p).mpr ⟨g,hg,hs⟩
  obtain ⟨hgdev,hgblock⟩ := h.key p g hg
  refine ⟨?_,?_,?_,?_,hdevice,hdirty,?_⟩
  · rw [href]
    exact h.refs_update hg _
  · rw [hdev,hblock]
    exact h.key_update hgdev hgblock
  · intro q
    rw [hlock]
    obtain rfl | hne := eq_or_ne q p
    · rw [update_self]
      exact ⟨fun _ => ⟨_,rfl,hst⟩,fun _ => hown⟩
    · rw [update_of_ne hne]
      exact h.lock q
  · intro q g' hq hf
    obtain ⟨rfl,⟨⟩⟩ | ⟨hne,hq⟩ := update_apply_eq.mp hq
    · exact hfilled hf
    · rw [h.stage_of_ne hown hne hq] at hf
      exact nomatch hf
  · intro hv hc
    exact hdata (hc p _ (update_self ..)) hv

lemma acquire (hg : r p = some g) (hfree : x.lock = none) :
    Fits now { x with lock := some p } (update r p (some { g with stage := .locked })) := by
  have hothers : ∀ q g', r q = some g' → g'.stage = .ref := by
    intro q g' hq
    by_contra hs
    exact nomatch hfree.symm.trans ((h.lock q).mpr ⟨g',hq,hs⟩)
  obtain ⟨hgdev,hgblock⟩ := h.key p g hg
  refine ⟨h.refs_update hg _,h.key_update hgdev hgblock,?_,?_,h.device,h.dirty,?_⟩
  · intro q
    obtain rfl | hne := eq_or_ne q p
    · rw [update_self]
      exact ⟨fun _ => ⟨_,rfl,nofun⟩,fun _ => rfl⟩
    · rw [update_of_ne hne]
      refine ⟨fun hq => absurd (Option.some.inj hq).symm hne,?_⟩
      rintro ⟨g',hq,hs⟩
      exact absurd (hothers q g' hq) hs
  · intro q g' hq hf
    obtain ⟨rfl,⟨⟩⟩ | ⟨-,hq⟩ := update_apply_eq.mp hq
    · exact nomatch hf
    · rw [hothers q g' hq] at hf
      exact nomatch hf
  · intro hv _
    refine h.data hv fun q g' hq => ?_
    rw [hothers q g' hq]
    exact nofun

lemma release (hg : r p = some g) (hs : g.stage = .clean) :
    Fits now { x with lock := none } (update r p (some { g with stage := .ref })) := by
  have hown : x.lock = some p := (h.lock p).mpr ⟨g,hg,by rw [hs]; exact nofun⟩
  obtain ⟨hgdev,hgblock⟩ := h.key p g hg
  refine ⟨h.refs_update hg _,h.key_update hgdev hgblock,?_,?_,h.device,h.dirty,?_⟩
  · intro q
    refine ⟨nofun,?_⟩
    rintro ⟨g',hq,hs'⟩
    obtain ⟨rfl,⟨⟩⟩ | ⟨hne,hq⟩ := update_apply_eq.mp hq
    · exact absurd rfl hs'
    · exact absurd (h.stage_of_ne hown hne hq) hs'
  · intro q g' hq hf
    obtain ⟨rfl,⟨⟩⟩ | ⟨-,hq⟩ := update_apply_eq.mp hq
    · exact nomatch hf
    · exact h.filled q g' hq hf
  · intro hv _
    exact h.data hv (h.unchanged hg (by rw [hs]; exact nofun) (by rw [hs]; exact nofun))

lemma drop (hg : r p = some g) (hs : g.stage = .ref) :
    Fits now { x with refcnt := x.refcnt-1 } (update r p none) := by
  have hold : ∀ q g', update r p none q = some g' → r q = some g' := by
    intro q g' hq
    obtain ⟨rfl,⟨⟩⟩ | ⟨-,hq⟩ := update_apply_eq.mp hq
    exact hq
  obtain ⟨hs',hcard,hmem⟩ := h.refs
  refine ⟨⟨hs'.erase p,?_,?_⟩,fun q g' hq => h.key q g' (hold q g' hq),?_,
    fun q g' hq => h.filled q g' (hold q g' hq),h.device,h.dirty,?_⟩
  · rw [Finset.card_erase_of_mem (hmem p (by rw [hg]; exact nofun))]
    exact Nat.sub_le_sub_right hcard 1
  · intro q hq
    obtain ⟨g',hg'⟩ := Option.ne_none_iff_exists'.mp hq
    refine Finset.mem_erase.mpr ⟨?_,hmem q (by rw [hold q g' hg']; exact nofun)⟩
    rintro rfl
    rw [update_self] at hg'
    exact nomatch hg'
  · intro q
    obtain rfl | hne := eq_or_ne q p
    · rw [update_self]
      refine (h.lock q).trans ⟨?_,nofun⟩
      rintro ⟨g',hg',hs'⟩
      obtain rfl := Option.some.inj (hg.symm.trans hg')
      exact absurd hs hs'
    · rw [update_of_ne hne]
      exact h.lock q
  · intro hv hc
    refine h.data hv fun q g' hq => ?_
    obtain rfl | hne := eq_or_ne q p
    · obtain rfl := Option.some.inj (hg.symm.trans hq)
      rw [hs]
      exact nofun
    · exact hc q g' (by rwa [update_of_ne hne])

lemma take (hp : r p = none) (hdev : g.dev = x.dev) (hblock : g.blockno = x.blockno)
    (hs : g.stage = .ref) :
    Fits now { x with refcnt := x.refcnt+1 } (update r p (some g)) := by
  obtain ⟨hs',hcard,hmem⟩ := h.refs
  refine ⟨⟨insert p hs',?_,?_⟩,h.key_update hdev hblock,?_,?_,h.device,h.dirty,?_⟩
  · exact (Finset.card_insert_le p hs').trans (Nat.add_le_add_right hcard 1)
  · intro q hq
    obtain rfl | hne := eq_or_ne q p
    · exact Finset.mem_insert_self ..
    · rw [update_of_ne hne] at hq
      exact Finset.mem_insert_of_mem (hmem q hq)
  · intro q
    obtain rfl | hne := eq_or_ne q p
    · rw [update_self]
      refine (h.lock q).trans ⟨?_,?_⟩
      · rintro ⟨g',hg',-⟩
        exact nomatch hp.symm.trans hg'
      · rintro ⟨g',⟨⟩,hs'⟩
        exact absurd hs hs'
    · rw [update_of_ne hne]
      exact h.lock q
  · intro q g' hq hf
    obtain ⟨rfl,⟨⟩⟩ | ⟨-,hq⟩ := update_apply_eq.mp hq
    · rw [hs] at hf
      exact nomatch hf
    · exact h.filled q g' hq hf
  · intro hv hc
    refine h.data hv fun q g' hq => ?_
    have hne : q ≠ p := by
      rintro rfl
      exact nomatch hp.symm.trans hq
    exact hc q g' (by rwa [update_of_ne hne])

lemma recycle (hz : x.refcnt = 0) (hs : g.stage = .ref) :
    Fits now' { x with dev := g.dev, blockno := g.blockno, valid := false, dirty := false, refcnt := 1 }
      (update r p (some g)) := by
  have hnone := h.none_of_refcnt hz
  have honly : ∀ q g', update r p (some g) q = some g' → q = p ∧ g' = g := by
    intro q g' hq
    obtain rfl | hne := eq_or_ne q p
    · rw [update_self] at hq
      cases hq
      exact ⟨rfl,rfl⟩
    · rw [update_of_ne hne,hnone q] at hq
      exact nomatch hq
  refine ⟨⟨{p},le_rfl,?_⟩,?_,?_,?_,nofun,nofun,nofun⟩
  · intro q hq
    obtain ⟨g',hg'⟩ := Option.ne_none_iff_exists'.mp hq
    exact Finset.mem_singleton.mpr (honly q g' hg').1
  · intro q g' hq
    obtain ⟨-,rfl⟩ := honly q g' hq
    exact ⟨rfl,rfl⟩
  · intro q
    refine (h.lock q).trans ⟨?_,?_⟩
    · rintro ⟨g',hq,-⟩
      exact nomatch (hnone q).symm.trans hq
    · rintro ⟨g',hq,hs'⟩
      obtain ⟨-,rfl⟩ := honly q g' hq
      exact absurd hs hs'
  · intro q g' hq hf
    obtain ⟨-,rfl⟩ := honly q g' hq
    rw [hs] at hf
    exact nomatch hf

end

end Fits

/-- The invariant of the cache: the buffers form one list, no block has two of them, every buffer
fits what is held of it, and a block without a dirty buffer is on the disk. -/
structure Coherent (d : Disk) (s : Bcache ι n) (res : ι → Grips n) : Prop where
  cycle : ∃ l, s.links.Cycle l ∧ ∀ i, i ∈ l
  unique : ∀ i j, (s.buf i).dev ≠ 0 → (s.buf i).dev = (s.buf j).dev →
    (s.buf i).blockno = (s.buf j).blockno → i = j
  fits : ∀ i, Fits (contents d s.hist) (s.buf i) (fun q => res q i)
  disk : ∀ b, (∀ i, (s.buf i).dev = 1 → (s.buf i).blockno = b → (s.buf i).dirty = false) →
    s.disk b = contents d s.hist b
  hist : Transparent d s.hist

namespace Coherent
variable {d : Disk} {s s' : Bcache ι n} {res : ι → Grips n} {p : ι} {i : Fin n} {g : Grip}

/-- `binit` -/
lemma binit (d : Disk) : Coherent d (Bcache.binit d : Bcache ι n) fun _ _ => none := by
  have hcycle := Links.cycle_empty.pushAll (List.finRange n) (by simpa using nodup_finRange n)
  refine ⟨⟨_,hcycle,fun i => by simp⟩,?_,?_,?_,.nil⟩
  · intro i j h
    exact absurd rfl h
  · intro i
    exact ⟨⟨∅,le_rfl,fun _ h => absurd rfl h⟩,nofun,fun p => ⟨nofun,nofun⟩,nofun,nofun,nofun,nofun⟩
  · intro b _
    rfl

lemma disk_of_clean (h : Coherent d s res) (hi : (s.buf i).dev = 1) (hd : (s.buf i).dirty = false) :
    s.disk (s.buf i).blockno = contents d s.hist (s.buf i).blockno := by
  refine h.disk _ fun j hj hb => ?_
  rw [h.unique j i (by rw [hj]; exact nofun) (hj.trans hi.symm) hb]
  exact hd

lemma holding (h : Coherent d s res) (hg : res p i = some g) (hs : g.stage ≠ .ref) :
    (s.buf i).lock = some p :=
  ((h.fits i).lock p).mpr ⟨g,hg,hs⟩

lemma stage_eq (hg : res p i = some g) (st : Stage) :
    (res p).stage i st = update (res p) i (some { g with stage := st }) := by
  rw [Grips.stage,hg]
  rfl

variable {dev b : Word}

/-- `bread` returns. -/
lemma returned (h : Coherent d s res) (hg : res p i = some g) (hs : g.stage = .clean)
    (hb : b = (s.buf i).blockno) :
    Coherent d (s.log (.returned dev b (s.buf i).data)) res := by
  have hv := (h.fits i).filled p g hg (by rw [hs]; rfl)
  have hdata : (s.buf i).data = contents d s.hist b := by
    rw [hb]
    exact (h.fits i).data hv
      ((h.fits i).unchanged hg (by rw [hs]; exact nofun) (by rw [hs]; exact nofun))
  have hnow := contents_returned d s.hist dev b (s.buf i).data
  refine ⟨h.cycle,h.unique,fun j => ?_,fun c hc => ?_,h.hist.returned hdata⟩
  · change Fits (contents d (s.hist++_)) _ _
    rw [hnow]
    exact h.fits j
  · change s.disk c = contents d (s.hist++_) c
    rw [hnow]
    exact h.disk c hc

/-- What `bget` can find. -/
lemma bget_cases (h : Coherent d s res) (hb : s.bget dev b = .done s' i) :
    ((s.buf i).dev = dev ∧ (s.buf i).blockno = b ∧
      s' = s.put i { s.buf i with refcnt := (s.buf i).refcnt+1 }) ∨
    ((∀ j, ¬((s.buf j).dev = dev ∧ (s.buf j).blockno = b)) ∧ (s.buf i).refcnt = 0 ∧
      (s.buf i).dirty = false ∧ s' = s.put i { s.buf i with
        dev := dev, blockno := b, valid := false, dirty := false, refcnt := 1 }) := by
  obtain ⟨l,hl,hmem⟩ := h.cycle
  have hlen : l.length = n := by
    have huniv : l.toFinset = Finset.univ :=
      Finset.eq_univ_of_forall fun i => mem_toFinset.mpr (hmem i)
    rw [← toFinset_card_of_nodup hl.nodup,huniv,Finset.card_univ,Fintype.card_fin]
  have hcached : s.cached dev b = l.find? _ := hlen ▸ hl.scan_next _
  have hunused : s.unused = l.reverse.find? _ := hlen ▸ hl.scan_prev _
  unfold Bcache.bget at hb
  split at hb
  · rename_i j hj
    cases hb
    have hfound := find?_some (hcached.symm.trans hj)
    rw [decide_eq_true_iff] at hfound
    exact .inl ⟨hfound.1,hfound.2,rfl⟩
  · rename_i hnone
    have hall := find?_eq_none.mp (hcached.symm.trans hnone)
    split at hb
    · rename_i j hj
      cases hb
      have hfound := find?_some (hunused.symm.trans hj)
      rw [decide_eq_true_iff] at hfound
      exact .inr ⟨fun k hk => hall k (hmem k) (decide_eq_true hk),hfound.1,hfound.2,rfl⟩
    · exact nomatch hb

variable [DecidableEq ι]

lemma column_self (o : Option Grip) :
    (fun q => update res p (update (res p) i o) q i) =
      update (fun q => res q i) p o := by
  ext1 q
  obtain rfl | hq := eq_or_ne q p
  · rw [update_self,update_self,update_self]
  · rw [update_of_ne hq,update_of_ne hq]

lemma column_ne {j : Fin n} (o : Option Grip) (hj : j ≠ i) :
    (fun q => update res p (update (res p) i o) q j) = fun q => res q j := by
  ext1 q
  obtain rfl | hq := eq_or_ne q p
  · rw [update_self,update_of_ne hj]
  · rw [update_of_ne hq]

variable {x : Buffer ι}

/-- One buffer changes and keeps its block. What is stored changes at most in this block, and
then it is in the buffer or on the disk. -/
lemma change {o : Option Grip} (h : Coherent d s res)
    (hcycle : ∃ l, s'.links.Cycle l ∧ ∀ i, i ∈ l) (hbuf : s'.buf = update s.buf i x)
    (hdev : x.dev = (s.buf i).dev) (hblock : x.blockno = (s.buf i).blockno)
    (hfits : Fits (contents d s'.hist) x (update (fun q => res q i) p o))
    (hnow : ∀ b, ((s.buf i).dev = 1 → b ≠ (s.buf i).blockno) →
      contents d s'.hist b = contents d s.hist b ∧ s'.disk b = s.disk b)
    (hdisk : (s.buf i).dev = 1 → x.dirty = false →
      s'.disk (s.buf i).blockno = contents d s'.hist (s.buf i).blockno)
    (hhist : Transparent d s'.hist) :
    Coherent d s' (update res p (update (res p) i o)) := by
  have hkey : ∀ j, (s'.buf j).dev = (s.buf j).dev ∧ (s'.buf j).blockno = (s.buf j).blockno := by
    intro j
    rw [hbuf]
    obtain rfl | hj := eq_or_ne j i
    · rw [update_self]
      exact ⟨hdev,hblock⟩
    · rw [update_of_ne hj]
      exact ⟨rfl,rfl⟩
  refine ⟨hcycle,?_,?_,?_,hhist⟩
  · intro j k
    rw [(hkey j).1,(hkey j).2,(hkey k).1,(hkey k).2]
    exact h.unique j k
  · intro j
    obtain rfl | hj := eq_or_ne j i
    · rw [column_self,hbuf,update_self]
      exact hfits
    · rw [column_ne o hj,hbuf,update_of_ne hj]
      refine (h.fits j).congr fun hv => (hnow _ fun hi hb => hj ?_).1
      have hone := (h.fits j).device hv
      exact h.unique j i (by rw [hone]; exact nofun) (hone.trans hi.symm) hb
  · intro b hclean
    by_cases hb : (s.buf i).dev = 1 ∧ b = (s.buf i).blockno
    · obtain ⟨hi,rfl⟩ := hb
      have hx := hclean i ((hkey i).1.trans hi) (hkey i).2
      rw [hbuf,update_self] at hx
      exact hdisk hi hx
    · obtain ⟨hc,hd⟩ := hnow b fun hi hbi => hb ⟨hi,hbi⟩
      rw [hc,hd]
      refine h.disk b fun j hj hjb => ?_
      have hji : j ≠ i := by
        rintro rfl
        exact hb ⟨hj,hjb.symm⟩
      have hx := hclean j ((hkey j).1.trans hj) ((hkey j).2.trans hjb)
      rwa [hbuf,update_of_ne hji] at hx

lemma quiet {o : Option Grip} (h : Coherent d s res)
    (hcycle : ∃ l, s'.links.Cycle l ∧ ∀ i, i ∈ l) (hbuf : s'.buf = update s.buf i x)
    (hdev : x.dev = (s.buf i).dev) (hblock : x.blockno = (s.buf i).blockno)
    (hdirty : x.dirty = (s.buf i).dirty) (hdisk : s'.disk = s.disk) (hhist : s'.hist = s.hist)
    (hfits : Fits (contents d s.hist) x (update (fun q => res q i) p o)) :
    Coherent d s' (update res p (update (res p) i o)) := by
  refine h.change hcycle hbuf hdev hblock (hhist ▸ hfits) ?_ ?_ (hhist ▸ h.hist)
  · intro b _
    rw [hhist,hdisk]
    exact ⟨rfl,rfl⟩
  · intro hi hx
    rw [hhist,hdisk]
    exact h.disk_of_clean hi (hdirty.symm.trans hx)

/-! ### One step -/

section

variable (h : Coherent d s res) (hg : res p i = some g)
include h hg

lemma acquiresleep (hfree : (s.buf i).lock = none) :
    Coherent d (s.put i { s.buf i with lock := some p })
      (update res p ((res p).stage i .locked)) := by
  rw [stage_eq hg]
  exact h.quiet h.cycle rfl rfl rfl rfl rfl rfl ((h.fits i).acquire hg hfree)

lemma releasesleep (hs : g.stage = .clean) :
    Coherent d (s.put i { s.buf i with lock := none })
      (update res p ((res p).stage i .ref)) := by
  rw [stage_eq hg]
  exact h.quiet h.cycle rfl rfl rfl rfl rfl rfl ((h.fits i).release hg hs)

lemma modify (hf : g.stage.filled = true) (v : Block) :
    Coherent d (s.put i { s.buf i with data := v })
      (update res p ((res p).stage i .changed)) := by
  have hs : g.stage ≠ .ref := by
    intro hs
    rw [hs] at hf
    exact nomatch hf
  rw [stage_eq hg]
  refine h.quiet h.cycle rfl rfl rfl rfl rfl rfl ?_
  exact (h.fits i).holder hg hs rfl rfl rfl rfl nofun (fun _ => (h.fits i).filled p g hg hf)
    (h.fits i).device (h.fits i).dirty fun hst => absurd rfl hst

lemma unref (hs : g.stage = .ref) :
    Coherent d (s.unref i) (update res p (update (res p) i none)) := by
  obtain ⟨l,hl,hmem⟩ := h.cycle
  unfold Bcache.unref
  split_ifs
  · refine h.quiet ⟨_,hl.toFront (hmem i),fun j => ?_⟩ rfl rfl rfl rfl rfl rfl ((h.fits i).drop hg hs)
    rw [mem_cons]
    obtain rfl | hj := eq_or_ne j i
    · exact .inl rfl
    · exact .inr ((mem_erase_of_ne hj).mpr (hmem j))
  · exact h.quiet h.cycle rfl rfl rfl rfl rfl rfl ((h.fits i).drop hg hs)

/-- The data of a locked buffer is stored, on the disk or by `log_write` in the cache only. -/
lemma store (hf : g.stage.filled = true)
    (hbuf : s'.buf = update s.buf i x) (hlinks : s'.links = s.links)
    (hx : x = { s.buf i with dirty := x.dirty })
    (hhist : s'.hist = s.hist++[.stored (s.buf i).blockno (s.buf i).data])
    (hdisk : ∀ b, b ≠ (s.buf i).blockno → s'.disk b = s.disk b)
    (hclean : x.dirty = false → s'.disk (s.buf i).blockno = (s.buf i).data) :
    Coherent d s' (update res p ((res p).stage i .clean)) := by
  have hs : g.stage ≠ .ref := by
    intro hs
    rw [hs] at hf
    exact nomatch hf
  have hv := (h.fits i).filled p g hg hf
  have hone := (h.fits i).device hv
  have hnow := contents_stored d s.hist (s.buf i).blockno (s.buf i).data
  rw [stage_eq hg]
  refine h.change (hlinks ▸ h.cycle) hbuf (by rw [hx]) (by rw [hx]) ?_ ?_ ?_ (hhist ▸ h.hist.stored _ _)
  · rw [hhist,hnow]
    refine (h.fits i).holder hg hs (by rw [hx]) (by rw [hx]) (by rw [hx]) (by rw [hx]) nofun ?_ ?_ ?_ ?_
    · intro _
      rw [hx]
      exact hv
    · intro _
      rw [hx]
      exact hone
    · intro _
      rw [hx]
      exact hv
    · intro _ _
      rw [hx]
      dsimp only
      rw [update_self]
  · intro b hb
    rw [hhist,hnow]
    exact ⟨update_of_ne (hb hone) _ _,hdisk b (hb hone)⟩
  · intro _ hd
    rw [hhist,hnow,update_self]
    exact hclean hd

lemma fill (hs : g.stage = .locked)
    (hinvalid : (s.buf i).valid = false) (hone : (s.buf i).dev = 1) :
    Coherent d (s.put i { s.buf i with valid := true, data := s.disk (s.buf i).blockno })
      (update res p ((res p).stage i .clean)) := by
  have hclean : (s.buf i).dirty = false := by
    by_contra hd
    rw [Bool.not_eq_false] at hd
    exact nomatch hinvalid.symm.trans ((h.fits i).dirty hd)
  rw [stage_eq hg]
  refine h.quiet h.cycle rfl rfl rfl rfl rfl rfl ?_
  refine (h.fits i).holder hg (by rw [hs]; exact nofun) rfl rfl rfl rfl nofun (fun _ => rfl)
    (fun _ => hone) (fun _ => rfl) fun _ _ => ?_
  exact h.disk_of_clean hone hclean

end

/-- The first locked part of `bget` finds the block. -/
lemma hit (h : Coherent d s res) (hdev : (s.buf i).dev = dev) (hb : (s.buf i).blockno = b) :
    Coherent d (s.put i { s.buf i with refcnt := (s.buf i).refcnt+1 })
      (update res p (if res p i = none then update (res p) i (some ⟨.ref,dev,b⟩)
        else res p)) := by
  split_ifs with hp
  · exact h.quiet h.cycle rfl rfl rfl rfl rfl rfl ((h.fits i).take hp hdev.symm hb.symm rfl)
  · have hquiet : Coherent d (s.put i { s.buf i with refcnt := (s.buf i).refcnt+1 })
        (update res p (update (res p) i (res p i))) := by
      refine h.quiet h.cycle rfl rfl rfl rfl rfl rfl ?_
      rw [update_eq_self]
      exact (h.fits i).again
    rwa [update_eq_self] at hquiet

lemma recycle (h : Coherent d s res)
    (hnone : ∀ j, ¬((s.buf j).dev = dev ∧ (s.buf j).blockno = b)) (hz : (s.buf i).refcnt = 0)
    (hclean : (s.buf i).dirty = false) :
    Coherent d (s.put i { s.buf i with
        dev := dev, blockno := b, valid := false, dirty := false, refcnt := 1 })
      (update res p (if res p i = none then update (res p) i (some ⟨.ref,dev,b⟩)
        else res p)) := by
  rw [if_pos ((h.fits i).none_of_refcnt hz p)]
  refine ⟨h.cycle,?_,?_,?_,h.hist⟩
  · intro j k hj hdev hb
    obtain rfl | hji := eq_or_ne j i <;> obtain rfl | hki := eq_or_ne k j
    · rfl
    · rw [Bcache.put_self,Bcache.put_ne _ hki] at hdev hb
      exact absurd ⟨hdev.symm,hb.symm⟩ (hnone k)
    · rfl
    · obtain rfl | hki := eq_or_ne k i
      · rw [Bcache.put_self,Bcache.put_ne _ hji] at hdev hb
        exact absurd ⟨hdev,hb⟩ (hnone j)
      · rw [Bcache.put_ne _ hji] at hj hdev hb
        rw [Bcache.put_ne _ hki] at hdev hb
        exact h.unique j k hj hdev hb
  · intro j
    obtain rfl | hj := eq_or_ne j i
    · rw [column_self,Bcache.put_self]
      exact (h.fits j).recycle (g := ⟨.ref,dev,b⟩) hz rfl
    · rw [column_ne _ hj,Bcache.put_ne _ hj]
      exact h.fits j
  · intro c hc
    refine h.disk c fun j hdev hb => ?_
    obtain rfl | hj := eq_or_ne j i
    · exact hclean
    · have hj' := hc j
      rw [Bcache.put_ne _ hj] at hj'
      exact hj' hdev hb

/-- `iderw` of a buffer that is not dirty reads it, and of a dirty one writes it. -/
lemma iderw_cases {disksize : ℕ} {u : Unit} (hi : s.iderw disksize p i = .done s' u) :
    (s.buf i).lock = some p ∧ (s.buf i).dev = 1 ∧
    ((s.buf i).dirty = true ∧ s' = { s.put i { s.buf i with valid := true, dirty := false } with
        disk := update s.disk (s.buf i).blockno (s.buf i).data } ∨
      (s.buf i).dirty = false ∧ (s.buf i).valid = false ∧
        s' = s.put i { s.buf i with valid := true, data := s.disk (s.buf i).blockno }) := by
  simp only [Bcache.iderw] at hi
  split_ifs at hi with h1 h2 h3 h4 h5
  · cases hi
    exact ⟨not_not.mp h1,not_not.mp h3,.inl ⟨h5,rfl⟩⟩
  · cases hi
    rw [Bool.not_eq_true] at h5
    have hv : (s.buf i).valid = false := by
      by_contra hv
      exact h2 ⟨Bool.not_eq_false _ ▸ hv,h5⟩
    exact ⟨not_not.mp h1,not_not.mp h3,.inr ⟨h5,hv,rfl⟩⟩

lemma bwrite {disksize : ℕ} {u : Unit} (h : Coherent d s res) (hg : res p i = some g)
    (hf : g.stage.filled = true) (hw : s.bwrite disksize p i = .done s' u) :
    Coherent d s' (update res p ((res p).stage i .clean)) := by
  unfold Bcache.bwrite at hw
  split_ifs at hw
  obtain ⟨s₁,_,hi,⟨⟩⟩ := Reply.andThen_eq_done hw
  obtain ⟨-,-,⟨-,rfl⟩ | ⟨hd,-⟩⟩ := iderw_cases hi
  · have hv := (h.fits i).filled p g hg hf
    refine h.store hg hf (x := { s.buf i with dirty := false }) ?_ rfl rfl rfl ?_ ?_
    · change update (update s.buf i _) i _ = _
      rw [Bcache.put_self,update_idem,← hv]
    · intro b hb
      change update s.disk ((s.put i _).buf i).blockno _ b = _
      rw [Bcache.put_self]
      exact update_of_ne hb _ _
    · intro _
      change update s.disk ((s.put i _).buf i).blockno ((s.put i _).buf i).data _ = _
      rw [Bcache.put_self]
      exact update_self ..
  · rw [Bcache.put_self] at hd
    exact nomatch hd

lemma ready {disksize : ℕ} {u : Unit} (h : Coherent d s res)
    (hg : res p i = some ⟨.locked,dev,b⟩) (hr : s.ready disksize p dev b i = .done s' u) :
    Coherent d s' (update res p ((res p).stage i .clean)) := by
  have hkey := ((h.fits i).key p _ hg).2
  have hres : ∀ r, update res p (update (res p) i (some r)) p i = some r := by
    intro r
    rw [update_self,update_self]
  unfold Bcache.ready at hr
  split_ifs at hr with hv
  · cases hr
    have hsame : Coherent d s (update res p ((res p).stage i .clean)) := by
      rw [stage_eq hg]
      refine h.quiet h.cycle (update_eq_self i s.buf).symm rfl rfl rfl rfl rfl ?_
      refine (h.fits i).holder hg nofun rfl rfl rfl rfl nofun (fun _ => hv) (h.fits i).device
        (h.fits i).dirty fun _ _ => (h.fits i).data hv ((h.fits i).unchanged hg nofun nofun)
    exact hsame.returned (p := p) (by rw [stage_eq hg]; exact hres _) rfl hkey
  · obtain ⟨s₁,_,hi,⟨⟩⟩ := Reply.andThen_eq_done hr
    rw [Bool.not_eq_true] at hv
    obtain ⟨-,hone,⟨hd,-⟩ | ⟨hd,-,rfl⟩⟩ := iderw_cases hi
    · exact nomatch hv.symm.trans ((h.fits i).dirty hd)
    · refine (h.fill hg rfl hv hone).returned (p := p) (g := ⟨.clean,dev,b⟩) ?_ rfl ?_
      · rw [stage_eq hg]
        exact hres _
      · rw [Bcache.put_self]
        exact hkey

lemma step {L : Layout} {disksize : ℕ} {o : BioOp n} {y : o.Ans} (h : Coherent d s res)
    (hpre : (bioRules n).pre (res p) o) (ho : s.handle L disksize p o = .done s' y) :
    ∃ r', (bioRules n).post (res p) o y r' ∧ Coherent d s' (update res p r') := by
  have hlog : ∀ lh k c, Coherent d { s with lh := lh, outstanding := k, committing := c }
      (update res p (res p)) := by
    intro lh k c
    rw [update_eq_self]
    exact { h with }
  cases o with
  | bget dev b =>
    refine ⟨_,rfl,?_⟩
    rcases h.bget_cases ho with ⟨hdev,hb,rfl⟩ | ⟨hnone,hz,hclean,rfl⟩
    · exact h.hit hdev hb
    · exact h.recycle hnone hz hclean
  | acquiresleep i =>
    simp only [Bcache.handle] at ho
    split_ifs at ho with hfree
    cases ho
    obtain ⟨g,hg⟩ := Option.ne_none_iff_exists'.mp hpre
    refine ⟨_,⟨⟨g,hg,?_⟩,rfl⟩,h.acquiresleep hg hfree⟩
    by_contra hs
    exact nomatch hfree.symm.trans (h.holding hg hs)
  | ready dev b i => exact ⟨_,rfl,h.ready hpre ho⟩
  | data i =>
    cases ho
    exact ⟨_,rfl,hlog _ _ _⟩
  | modify i v =>
    cases ho
    obtain ⟨g,hg,hf⟩ := hpre
    exact ⟨_,rfl,h.modify hg hf v⟩
  | bwrite i =>
    obtain ⟨g,hg,hf⟩ := hpre
    exact ⟨_,rfl,h.bwrite hg hf ho⟩
  | releasesleep i =>
    obtain ⟨g,hg,hs⟩ := hpre
    simp only [Bcache.handle] at ho
    split_ifs at ho
    cases ho
    exact ⟨_,rfl,h.releasesleep hg hs⟩
  | unref i =>
    cases ho
    obtain ⟨g,hg,hs⟩ := hpre
    exact ⟨_,rfl,h.unref hg hs⟩
  | logRecord i =>
    cases ho
    obtain ⟨g,hg,hf⟩ := hpre
    exact ⟨_,rfl,h.store hg hf rfl rfl rfl rfl (fun _ _ => rfl) nofun⟩
  | logRoom | logActive | beginOp =>
    simp only [Bcache.handle] at ho
    split_ifs at ho
    cases ho
    exact ⟨_,rfl,hlog _ _ _⟩
  | endOp =>
    simp only [Bcache.handle] at ho
    split_ifs at ho
    · cases ho
      exact ⟨_,rfl,hlog _ _ _⟩
    · cases ho
      exact ⟨_,rfl,hlog _ _ _⟩
  | endCommit | header | clear =>
    cases ho
    exact ⟨_,rfl,hlog _ _ _⟩

end Coherent

end JacobiXv6.Fs
