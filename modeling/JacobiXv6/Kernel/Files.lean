import JacobiXv6.Kernel.Sys
import JacobiXv6.Kernel.VmPages

/-! The table of open files: its reference counts, the ends of the pipes, and the pages of the
pipes. -/
namespace JacobiXv6.Kernel
open Library Function

variable {n o m : ℕ}

/-! ### The ends of pipes -/

/-- The pipe of which a file is an end; the flag tells the write end. -/
def File.side (x : File) : Option (Frame×Bool) :=
  match x.type with
  | .pipe p => some (p,x.writable)
  | _ => none

def PipeEnds.isOpen (e : PipeEnds) (write : Bool) : Bool := if write then e.writeopen else e.readopen

/-- What `pipeclose` does to the flags. -/
def PipeEnds.shut (e : PipeEnds) (write : Bool) : PipeEnds :=
  if write then { e with writeopen := false } else { e with readopen := false }

lemma PipeEnds.shut_isOpen (e : PipeEnds) (w v : Bool) :
    (e.shut w).isOpen v = if v = w then false else e.isOpen v := by
  cases w <;> cases v <;> rfl

/-- Each pipe is there as long as it has an end, each end is one file, and the flags of a pipe
tell which ends it has. -/
structure Sides (side : Fin m → Option (Frame×Bool)) (pipe : Frame → Option PipeEnds) : Prop where
  unique : ∀ f g y, side f = some y → side g = some y → f = g
  exists_pipe : ∀ f p w, side f = some (p,w) → (pipe p).isSome = true
  isOpen : ∀ p e, pipe p = some e → ∀ w, e.isOpen w = true ↔ ∃ f, side f = some (p,w)
  in_use : ∀ p e, pipe p = some e → ∃ w, e.isOpen w = true

namespace Sides
variable {side : Fin m → Option (Frame×Bool)} {pipe : Frame → Option PipeEnds} {f g : Fin m}
  {p : Frame} {w : Bool} {e : PipeEnds}

lemma isSome_iff (h : Sides side pipe) : (pipe p).isSome = true ↔ ∃ f w, side f = some (p,w) := by
  constructor
  · intro hp
    obtain ⟨e,he⟩ := Option.isSome_iff_exists.mp hp
    obtain ⟨w,hw⟩ := h.in_use p e he
    obtain ⟨f,hf⟩ := (h.isOpen p e he w).mp hw
    exact ⟨f,w,hf⟩
  · rintro ⟨f,w,hf⟩
    exact h.exists_pipe f p w hf

lemma close (h : Sides side pipe) (hf : side f = some (p,w)) (he : pipe p = some e) :
    Sides (update side f none) (update pipe p
      (if (e.shut w).readopen = false ∧ (e.shut w).writeopen = false then none
        else some (e.shut w))) := by
  have hside : ∀ g y, update side f none g = some y ↔ side g = some y ∧ y ≠ (p,w) := by
    intro g y
    obtain rfl | hg := eq_or_ne g f
    · rw [update_self,hf]
      refine ⟨nofun,?_⟩
      rintro ⟨⟨⟩,hy⟩
      exact absurd rfl hy
    · rw [update_of_ne hg]
      refine ⟨fun hy => ⟨hy,?_⟩,And.left⟩
      rintro rfl
      exact hg (h.unique g f (p,w) hy hf)
  have hshut : (¬∃ v, (e.shut w).isOpen v = true) ↔
      (e.shut w).readopen = false ∧ (e.shut w).writeopen = false := by
    rw [Bool.exists_bool]
    simp only [PipeEnds.isOpen,not_or,Bool.not_eq_true,if_true,Bool.false_eq_true,if_false]
  have hopen : ∀ v, (e.shut w).isOpen v = true ↔ ∃ g, update side f none g = some (p,v) := by
    intro v
    rw [PipeEnds.shut_isOpen]
    by_cases hv : v = w
    · rw [if_pos hv]
      refine ⟨nofun,?_⟩
      rintro ⟨g,hg⟩
      exact absurd (by rw [hv]) ((hside g _).mp hg).2
    · rw [if_neg hv,h.isOpen p e he v]
      refine exists_congr fun g => ?_
      rw [hside]
      exact ⟨fun hg => ⟨hg,by rintro ⟨⟩; exact hv rfl⟩,And.left⟩
  refine ⟨?_,?_,?_,?_⟩
  · intro g k y hg hk
    exact h.unique g k y ((hside g y).mp hg).1 ((hside k y).mp hk).1
  · intro g q v hg
    obtain rfl | hq := eq_or_ne q p
    · rw [update_self,if_neg]
      · rfl
      · rw [← hshut,not_not]
        exact ⟨v,(hopen v).mpr ⟨g,hg⟩⟩
    · rw [update_of_ne hq]
      exact h.exists_pipe g q v ((hside g _).mp hg).1
  · intro q e' hq v
    obtain rfl | hne := eq_or_ne q p
    · rw [update_self] at hq
      obtain ⟨-,⟨⟩⟩ := Option.ite_none_left_eq_some.mp hq
      exact hopen v
    · rw [update_of_ne hne] at hq
      rw [h.isOpen q e' hq v]
      refine exists_congr fun g => ?_
      rw [hside]
      exact ⟨fun hg => ⟨hg,by rintro ⟨⟩; exact hne rfl⟩,And.left⟩
  · intro q e' hq
    obtain rfl | hne := eq_or_ne q p
    · rw [update_self] at hq
      obtain ⟨hnot,⟨⟩⟩ := Option.ite_none_left_eq_some.mp hq
      rwa [← hshut,not_not] at hnot
    · rw [update_of_ne hne] at hq
      exact h.in_use q e' hq

lemma make (h : Sides side pipe) (hf : side f = none) (hg : side g = none) (hfg : f ≠ g)
    (hp : pipe p = none) : Sides (update (update side f (some (p,false))) g (some (p,true)))
      (update pipe p (some ⟨true,true⟩)) := by
  have hold : ∀ k w, side k ≠ some (p,w) := by
    intro k w hk
    have hsome := h.exists_pipe k p w hk
    rw [hp] at hsome
    exact nomatch hsome
  have hside : ∀ k y, update (update side f (some (p,false))) g (some (p,true)) k =
      some y ↔ k = g ∧ y = (p,true) ∨ k = f ∧ y = (p,false) ∨ side k = some y := by
    intro k y
    obtain rfl | hkg := eq_or_ne k g
    · rw [update_self,hg]
      simp [hfg.symm,eq_comm]
    · rw [update_of_ne hkg]
      obtain rfl | hkf := eq_or_ne k f
      · rw [update_self,hf]
        simp [hkg,eq_comm]
      · rw [update_of_ne hkf]
        simp [hkg,hkf]
  refine ⟨?_,?_,?_,?_⟩
  · intro k l y hk hl
    rcases (hside k y).mp hk with ⟨rfl,rfl⟩ | ⟨rfl,rfl⟩ | hk' <;>
      rcases (hside l _).mp hl with ⟨rfl,hy⟩ | ⟨rfl,hy⟩ | hl'
    · rfl
    · exact nomatch hy
    · exact absurd hl' (hold l _)
    · exact nomatch hy
    · rfl
    · exact absurd hl' (hold l _)
    · exact absurd (hy ▸ hk') (hold k _)
    · exact absurd (hy ▸ hk') (hold k _)
    · exact h.unique k l y hk' hl'
  · intro k q w hk
    obtain rfl | hq := eq_or_ne q p
    · rw [update_self]
      rfl
    · rw [update_of_ne hq]
      rcases (hside k _).mp hk with ⟨-,⟨⟩⟩ | ⟨-,⟨⟩⟩ | hk
      · exact absurd rfl hq
      · exact absurd rfl hq
      · exact h.exists_pipe k q w hk
  · intro q e hq w
    obtain rfl | hne := eq_or_ne q p
    · rw [update_self] at hq
      cases hq
      refine ⟨fun _ => ?_,fun _ => by cases w <;> rfl⟩
      cases w with
      | true => exact ⟨g,(hside g _).mpr (.inl ⟨rfl,rfl⟩)⟩
      | false => exact ⟨f,(hside f _).mpr (.inr (.inl ⟨rfl,rfl⟩))⟩
    · rw [update_of_ne hne] at hq
      rw [h.isOpen q e hq w]
      refine exists_congr fun k => ?_
      rw [hside]
      refine ⟨fun hk => .inr (.inr hk),?_⟩
      rintro (⟨-,⟨⟩⟩ | ⟨-,⟨⟩⟩ | hk)
      · exact absurd rfl hne
      · exact absurd rfl hne
      · exact hk
  · intro q e hq
    obtain rfl | hne := eq_or_ne q p
    · rw [update_self] at hq
      cases hq
      exact ⟨true,rfl⟩
    · rw [update_of_ne hne] at hq
      exact h.in_use q e hq

end Sides

/-! ### The file table in the middle of a call -/

def pipePage (pipe : Frame → Option PipeEnds) (p : Frame) : ℕ := if (pipe p).isSome then 1 else 0

lemma pipePage_update (pipe : Frame → Option PipeEnds) (p : Frame) (e : Option PipeEnds) (q : Frame) :
    pipePage (update pipe p e) q =
      if q = p then (if e.isSome then 1 else 0) else pipePage pipe q := by
  unfold pipePage
  obtain rfl | hq := eq_or_ne q p
  · rw [update_self,if_pos rfl]
  · rw [update_of_ne hq,if_neg hq]

namespace Sys

/-- `held` counts the references to each file, `rest` are the pages elsewhere and `total` tells
how often each page is somewhere. -/
structure Held (held : Fin m → ℕ) (rest : Multiset Frame) (total : Frame → ℕ)
    (s : Sys n o m) : Prop where
  ref : ∀ f, (s.file f).ref = held f
  closed : ∀ f, held f = 0 → (s.file f).type = .none
  sides : Sides (fun f => (s.file f).side) s.pipe
  pages : ∀ p, s.free.count p+pipePage s.pipe p+rest.count p = total p
  history : ∀ p, s.made.count p = s.freed.count p+pipePage s.pipe p

/-- What the functions on files leave alone. -/
structure SameProcs (s s' : Sys n o m) : Prop where
  proc : s'.proc = s.proc
  kpgdir : s'.kpgdir = s.kpgdir
  kstacks : s'.kstacks = s.kstacks
  initproc : s'.initproc = s.initproc

lemma SameProcs.trans {s t u : Sys n o m} (h : SameProcs s t) (h' : SameProcs t u) : SameProcs s u :=
  ⟨h'.proc.trans h.proc,h'.kpgdir.trans h.kpgdir,h'.kstacks.trans h.kstacks,
    h'.initproc.trans h.initproc⟩

/-- Nothing changes but pages, pipes and the files of `F`. -/
structure Aside (F : Fin m → Prop) (s s' : Sys n o m) : Prop extends SameProcs s s' where
  ofile : s'.ofile = s.ofile
  file : ∀ f, ¬F f → s'.file f = s.file f

namespace Aside
variable {F G : Fin m → Prop} {s t u : Sys n o m}

lemma refl (s : Sys n o m) : Aside F s s := ⟨⟨rfl,rfl,rfl,rfl⟩,rfl,fun _ _ => rfl⟩

lemma trans (h : Aside F s t) (h' : Aside F t u) : Aside F s u :=
  ⟨h.toSameProcs.trans h'.toSameProcs,h'.ofile.trans h.ofile,
    fun f hf => (h'.file f hf).trans (h.file f hf)⟩

lemma mono (h : Aside F s t) (hFG : ∀ f, F f → G f) : Aside G s t :=
  ⟨h.toSameProcs,h.ofile,fun f hf => h.file f fun hF => hf (hFG f hF)⟩

lemma setFile (f : Fin m) (x : File) : Aside (· = f) s { s with file := update s.file f x } :=
  ⟨⟨rfl,rfl,rfl,rfl⟩,rfl,fun _ hg => update_of_ne hg _ _⟩

end Aside

variable {E : String → Prop} {s : Sys n o m} {held : Fin m → ℕ} {rest : Multiset Frame}
  {total : Frame → ℕ} {f : Fin m}

lemma onFree_meets {α : Type} {r : Kmem α} {Q : α → Sys n o m → Prop}
    (h : Meets E r s.free fun a free => Q a { s with free := free }) : Meets E (onFree r) s Q := by
  cases hr : r s.free with
  | ok x =>
    refine .of_eq (a := x.1) (t := { s with free := x.2 }) ?_ (h.returns x.1 x.2 hr)
    rw [onFree,hr]
  | error message =>
    have herror : onFree r s = .error message := by rw [onFree,hr]
    refine ⟨fun a s' hm => (nomatch herror.symm.trans hm),fun message' hm => ?_⟩
    cases herror.symm.trans hm
    exact h.panics message hr

namespace Held

lemma of_ofile (h : Held held rest total s) (ofile : Fin n → Fin o → Option (Fin m)) :
    Held held rest total { s with ofile := ofile } := ⟨h.ref,h.closed,h.sides,h.pages,h.history⟩

lemma setFile (h : Held held rest total s) {x : File} {r : ℕ} (href : x.ref = r)
    (hside : x.side = (s.file f).side) (hclosed : r = 0 → x.type = .none) :
    Held (update held f r) rest total { s with file := update s.file f x } := by
  have hsides : (fun g => (update s.file f x g).side) = fun g => (s.file g).side := by
    ext1 g
    obtain rfl | hg := eq_or_ne g f
    · rw [update_self,hside]
    · rw [update_of_ne hg]
  refine ⟨fun g => ?_,fun g hg => ?_,hsides ▸ h.sides,h.pages,h.history⟩
  · change (update s.file f x g).ref = _
    obtain rfl | hgf := eq_or_ne g f
    · rw [update_self,update_self,href]
    · rw [update_of_ne hgf,update_of_ne hgf,h.ref]
  · change (update s.file f x g).type = _
    obtain rfl | hgf := eq_or_ne g f
    · rw [update_self] at hg ⊢
      exact hclosed hg
    · rw [update_of_ne hgf] at hg ⊢
      exact h.closed g hg

variable {p : Frame} {free : List Frame}

lemma close (h : Held held rest total s) {w : Bool} {e : PipeEnds} {freed : List Frame}
    {e' : Option PipeEnds} (hside : (s.file f).side = some (p,w)) (he : s.pipe p = some e)
    (he' : e' = if (e.shut w).readopen = false ∧ (e.shut w).writeopen = false then none
      else some (e.shut w))
    (hfree : ∀ q, free.count q+pipePage (update s.pipe p e') q = s.free.count q+pipePage s.pipe q)
    (hfreed : ∀ q, freed.count q+pipePage (update s.pipe p e') q =
      s.freed.count q+pipePage s.pipe q) :
    Held (update held f 0) rest total { s with
      file := update s.file f { s.file f with ref := 0, type := .none }
      pipe := update s.pipe p e', free := free, freed := freed } := by
  have hsides : (fun g => (update s.file f { s.file f with ref := 0, type := .none } g).side) =
      update (fun g => (s.file g).side) f none := by
    ext1 g
    obtain rfl | hg := eq_or_ne g f
    · rw [update_self,update_self]
      rfl
    · rw [update_of_ne hg,update_of_ne hg]
  refine ⟨fun g => ?_,fun g hg => ?_,?_,fun q => ?_,fun q => ?_⟩
  · change (update s.file f _ g).ref = _
    obtain rfl | hgf := eq_or_ne g f
    · rw [update_self,update_self]
    · rw [update_of_ne hgf,update_of_ne hgf,h.ref]
  · change (update s.file f _ g).type = _
    obtain rfl | hgf := eq_or_ne g f
    · rw [update_self]
    · rw [update_of_ne hgf] at hg ⊢
      exact h.closed g hg
  · change Sides (fun g => (update s.file f _ g).side) (update s.pipe p e')
    rw [hsides,he']
    exact h.sides.close hside he
  · have hpages := h.pages q
    have hq := hfree q
    change free.count q+pipePage (update s.pipe p e') q+rest.count q = total q
    omega
  · have hhistory := h.history q
    have hq := hfreed q
    change s.made.count q = freed.count q+pipePage (update s.pipe p e') q
    omega

lemma make (h : Held held rest total s) {g : Fin m} (hfg : f ≠ g)
    (hf : (s.file f).type = .none) (hg : (s.file g).type = .none) (hf0 : held f ≠ 0) (hg0 : held g ≠ 0)
    (hp : s.pipe p = none) (hfree : s.free = p::free) :
    Held held rest total { s with
      pipe := update s.pipe p (some ⟨true,true⟩), made := s.made++[p], free := free
      file := update (update s.file f
        { s.file f with type := .pipe p, readable := true, writable := false }) g
        { s.file g with type := .pipe p, readable := false, writable := true } } := by
  have hzero : pipePage s.pipe p = 0 := by rw [pipePage,hp]; rfl
  have hsides : (fun k => (update (update s.file f
        { s.file f with type := .pipe p, readable := true, writable := false }) g
        { s.file g with type := .pipe p, readable := false, writable := true } k).side) =
      update (update (fun k => (s.file k).side) f (some (p,false))) g
        (some (p,true)) := by
    ext1 k
    obtain rfl | hkg := eq_or_ne k g
    · rw [update_self,update_self]
      rfl
    · rw [update_of_ne hkg,update_of_ne hkg]
      obtain rfl | hkf := eq_or_ne k f
      · rw [update_self,update_self]
        rfl
      · rw [update_of_ne hkf,update_of_ne hkf]
  refine ⟨fun k => ?_,fun k hk => ?_,?_,fun q => ?_,fun q => ?_⟩
  · rw [← h.ref k]
    change (update (update s.file f _) g _ k).ref = _
    obtain rfl | hkg := eq_or_ne k g
    · rw [update_self]
    · rw [update_of_ne hkg]
      obtain rfl | hkf := eq_or_ne k f
      · rw [update_self]
      · rw [update_of_ne hkf]
  · have hkg : k ≠ g := fun e => hg0 (e ▸ hk)
    have hkf : k ≠ f := fun e => hf0 (e ▸ hk)
    change (update (update s.file f _) g _ k).type = _
    rw [update_of_ne hkg,update_of_ne hkf]
    exact h.closed k hk
  · change Sides (fun k => (update (update s.file f _) g _ k).side) _
    rw [hsides]
    refine h.sides.make ?_ ?_ hfg hp
    · rw [File.side,hf]
    · rw [File.side,hg]
  · have hpages := h.pages q
    rw [hfree,List.count_cons] at hpages
    change free.count q+pipePage (update s.pipe p _) q+rest.count q = total q
    rw [pipePage_update,← hpages]
    by_cases hq : q = p
    · simp [hq,hzero]
    · simp [hq,Ne.symm hq]
  · have hhistory := h.history q
    change (s.made++[p]).count q = s.freed.count q+pipePage (update s.pipe p _) q
    rw [pipePage_update,List.count_append,List.count_singleton,hhistory]
    by_cases hq : q = p
    · simp [hq,hzero]
    · simp [hq,Ne.symm hq]

lemma pipe_eq_none (h : Held held rest total s) (hle : ∀ q, total q ≤ 1)
    (hfree : s.free = p::free) : s.pipe p = none := by
  have hpages := h.pages p
  rw [hfree,List.count_cons_self] at hpages
  have hp := hle p
  have hzero : pipePage s.pipe p = 0 := by omega
  unfold pipePage at hzero
  cases hpipe : s.pipe p with
  | none => rfl
  | some e =>
    rw [hpipe] at hzero
    exact nomatch hzero

end Held

/-! ### `file.c` and `pipe.c` -/

lemma filealloc_meets (h : Held held rest total s) : Meets E filealloc s fun r s' =>
    match r with
    | none => s' = s
    | some f => held f = 0 ∧ (s'.file f).type = .none ∧ Held (update held f 1) rest total s' ∧
      Aside (· = f) s s' := by
  refine .bind (.get ?_)
  split
  · exact .pure rfl
  · rename_i f hf
    have href : (s.file f).ref = 0 := by simpa using List.find?_some hf
    have hzero : held f = 0 := (h.ref f).symm.trans href
    refine .bind (.update (.pure ⟨hzero,?_,?_,Aside.setFile f _⟩))
    · change (update s.file f _ f).type = _
      rw [update_self]
      exact h.closed f hzero
    · exact h.setFile rfl rfl nofun

lemma filedup_meets (h : Held held rest total s) (hf : held f ≠ 0) : Meets E (filedup f) s fun _ s' =>
    Held (update held f (held f+1)) rest total s' ∧ Aside (· = f) s s' := by
  refine .bind (.get ?_)
  rw [h.ref,if_neg (by omega)]
  exact .update ⟨h.setFile rfl rfl nofun,Aside.setFile f _⟩

/-- The first of the two steps that `fileclose` takes for the last reference. -/
lemma pipeclose_meets {p : Frame} {w : Bool} {e : PipeEnds} {Q : Unit → Sys n o m → Prop}
    (he : s.pipe p = some e)
    (hlast : (e.shut w).readopen = false ∧ (e.shut w).writeopen = false →
      Q () { s with pipe := update s.pipe p none, freed := s.freed++[p], free := p::s.free })
    (hopen : ¬((e.shut w).readopen = false ∧ (e.shut w).writeopen = false) →
      Q () { s with pipe := update s.pipe p (some (e.shut w)) }) :
    Meets E (pipeclose p w) s Q := by
  refine .bind (.get ?_)
  rw [he]
  change Meets E (if (e.shut w).readopen = false ∧ (e.shut w).writeopen = false then _ else _) s Q
  by_cases hc : (e.shut w).readopen = false ∧ (e.shut w).writeopen = false
  · rw [if_pos hc]
    exact .bind (.update (onFree_meets (kfree_meets (hlast hc))))
  · rw [if_neg hc]
    exact .update (hopen hc)

/-- One reference less; with the last one goes the end of the pipe, and with the last end the
page of the pipe. -/
lemma fileclose_meets (h : Held held rest total s) (hf : held f ≠ 0) :
    Meets E (fileclose f) s fun _ s' =>
    Held (update held f (held f-1)) rest total s' ∧ Aside (· = f) s s' := by
  refine .bind (.get ?_)
  rw [h.ref,if_neg (by omega)]
  split_ifs with hmore
  · exact .update ⟨h.setFile rfl rfl fun hz => absurd hz hmore.ne',Aside.setFile f _⟩
  rw [show held f-1 = 0 by omega]
  refine .bind (.update ?_)
  cases htype : (s.file f).type with
  | none | inode ip =>
    refine .pure ⟨h.setFile rfl ?_ fun _ => rfl,Aside.setFile f _⟩
    rw [File.side,File.side,htype]
  | pipe p =>
    have hside : (s.file f).side = some (p,(s.file f).writable) := by rw [File.side,htype]
    obtain ⟨e,he⟩ := Option.isSome_iff_exists.mp (h.sides.exists_pipe f p _ hside)
    have hone : pipePage s.pipe p = 1 := by rw [pipePage,he]; rfl
    refine pipeclose_meets (s := { s with file := _ }) he (fun hc => ⟨?_,?_⟩) fun hc => ⟨?_,?_⟩
    · refine h.close hside he (if_pos hc).symm (fun q => ?_) fun q => ?_
      · rw [pipePage_update,List.count_cons]
        by_cases hq : q = p
        · simp [hq,hone]
        · simp [hq,Ne.symm hq]
      · rw [pipePage_update,List.count_append,List.count_singleton]
        by_cases hq : q = p
        · simp [hq,hone]
        · simp [hq,Ne.symm hq]
    · exact ⟨⟨rfl,rfl,rfl,rfl⟩,rfl,fun _ hg => update_of_ne hg _ _⟩
    · have hsame : ∀ q, pipePage (update s.pipe p (some (e.shut (s.file f).writable))) q =
          pipePage s.pipe q := by
        intro q
        rw [pipePage_update]
        by_cases hq : q = p
        · rw [if_pos hq,hq,hone]
          rfl
        · rw [if_neg hq]
      exact h.close hside he (if_neg hc).symm (fun q => by rw [hsame]) fun q => by rw [hsame]
    · exact ⟨⟨rfl,rfl,rfl,rfl⟩,rfl,fun _ hg => update_of_ne hg _ _⟩

lemma onFree_kalloc_meets {Q : Option Frame → Sys n o m → Prop} (hnone : s.free = [] → Q none s)
    (hsome : ∀ r free, s.free = r::free → Q (some r) { s with free := free }) :
    Meets E (onFree kalloc) s Q := by
  refine onFree_meets (kalloc_meets (fun hfree => ?_) hsome)
  rw [← hfree]
  exact hnone hfree

lemma fileclose_new {F : Fin m → Prop} (h : Held (update held f 1) rest total s) (hf : held f = 0)
    (hF : F f) : Meets E (fileclose f) s fun _ s' => Held held rest total s' ∧ Aside F s s' := by
  refine (fileclose_meets h ?_).mono ?_
  · rw [update_self]
    exact one_ne_zero
  · intro _ s' ⟨h',hs'⟩
    rw [update_self,update_idem,Nat.sub_self,← hf,update_eq_self] at h'
    exact ⟨h',hs'.mono fun _ e => e ▸ hF⟩

lemma pipealloc_meets (h : Held held rest total s) (hle : ∀ q, total q ≤ 1) :
    Meets E pipealloc s fun r s' => Aside (held · = 0) s s' ∧
      match r with
      | none => Held held rest total s'
      | some (f,g) => f ≠ g ∧ held f = 0 ∧ held g = 0 ∧
        Held (update (update held f 1) g 1) rest total s' := by
  refine .bind ((filealloc_meets h).mono ?_)
  rintro (_ | f) s₁ h₁
  · obtain rfl := h₁
    exact .pure ⟨Aside.refl s₁,h⟩
  obtain ⟨hf,hftype,h₁,hs₁⟩ := h₁
  have hs₁ : Aside (held · = 0) s s₁ := hs₁.mono fun _ e => e ▸ hf
  refine .bind ((filealloc_meets h₁).mono ?_)
  rintro (_ | g) s₂ h₂
  · obtain rfl := h₂
    refine .bind ((fileclose_new (F := (held · = 0)) h₁ hf hf).mono ?_)
    intro _ s₃ ⟨h₃,hs₃⟩
    exact .pure ⟨hs₁.trans hs₃,h₃⟩
  obtain ⟨hg,hgtype,h₂,hs₂⟩ := h₂
  have hgf : g ≠ f := by
    rintro rfl
    rw [update_self] at hg
    exact nomatch hg
  rw [update_of_ne hgf] at hg
  have hftype : (s₂.file f).type = .none := by rw [hs₂.file f hgf.symm,hftype]
  have hs₂ : Aside (held · = 0) s s₂ := hs₁.trans (hs₂.mono fun _ e => e ▸ hg)
  refine .bind (onFree_kalloc_meets (fun hfree => ?_) fun p free hfree => ?_)
  · -- both files are given back, in the order in which they were taken
    rw [update_comm hgf.symm] at h₂
    refine .bind ((fileclose_new (F := (held · = 0)) h₂ ?_ hf).mono ?_)
    · rw [update_of_ne hgf.symm,hf]
    intro _ s₃ ⟨h₃,hs₃⟩
    refine .bind ((fileclose_new (F := (held · = 0)) h₃ hg hg).mono ?_)
    intro _ s₄ ⟨h₄,hs₄⟩
    exact .pure ⟨hs₂.trans (hs₃.trans hs₄),h₄⟩
  · refine .bind (.get (.bind (.update (.bind (.update (.bind
      (.update (.pure ⟨?_,hgf.symm,hf,hg,?_⟩))))))))
    · refine hs₂.trans ⟨⟨rfl,rfl,rfl,rfl⟩,rfl,fun k hk => ?_⟩
      have hkf : k ≠ f := fun e => hk (e ▸ hf)
      have hkg : k ≠ g := fun e => hk (e ▸ hg)
      exact (update_of_ne hkg _ _).trans (update_of_ne hkf _ _)
    · refine h₂.make hgf.symm hftype hgtype ?_ ?_ (h₂.pipe_eq_none hle hfree) hfree
      · rw [update_of_ne hgf.symm,update_self]
        exact one_ne_zero
      · rw [update_self]
        exact one_ne_zero

end Sys
end JacobiXv6.Kernel
