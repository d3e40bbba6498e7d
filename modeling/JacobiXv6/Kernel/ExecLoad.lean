import JacobiXv6.Kernel.Exec
import JacobiXv6.Kernel.VmShape

/-! What `exec` does to the machine until it pushes the arguments. Whatever the file holds, the
pages that are loaded lie below the size of the program and are there; all that is written are pages
that were free when `exec` began. -/
namespace JacobiXv6.Kernel.Exec
open Library Function Option

/-- Only the free pages and the contents of the pages in `F` may have changed. -/
structure Same (F : Frame → Prop) (s s' : Machine) : Prop where
  mem : ∀ f, ¬F f → s'.mem f = s.mem f
  pgdir : s'.pgdir = s.pgdir
  sz : s'.sz = s.sz
  tf : s'.tf = s.tf
  name : s'.name = s.name
  handler : s'.handler = s.handler
  ref : s'.ref = s.ref
  locked : s'.locked = s.locked
  outstanding : s'.outstanding = s.outstanding

section
variable {α : Type} {E : String → Prop} {F : Frame → Prop} {s s' s'' : Machine} {pgdir : Pgdir}

lemma Same.refl (F : Frame → Prop) (s : Machine) : Same F s s :=
  ⟨fun _ _ => rfl,rfl,rfl,rfl,rfl,rfl,rfl,rfl,rfl⟩

lemma Same.trans (h : Same F s s') (h' : Same F s' s'') : Same F s s'' where
  mem := fun f hf => (h'.mem f hf).trans (h.mem f hf)
  pgdir := h'.pgdir.trans h.pgdir
  sz := h'.sz.trans h.sz
  tf := h'.tf.trans h.tf
  name := h'.name.trans h.name
  handler := h'.handler.trans h.handler
  ref := h'.ref.trans h.ref
  locked := h'.locked.trans h.locked
  outstanding := h'.outstanding.trans h.outstanding

lemma onFree_meets {r : Kmem α} {Q : α → Machine → Prop}
    (h : Meets E r s.free fun a free => Q a { s with free := free }) : Meets E (onFree r) s Q := by
  cases hr : r s.free with
  | ok x =>
    have honFree : onFree r s = .ok (x.1,{ s with free := x.2 }) := by rw [onFree,hr]
    exact .of_eq honFree (h.returns x.1 x.2 hr)
  | error message =>
    have honFree : onFree r s = .error message := by rw [onFree,hr]
    refine ⟨fun a t ht => ?_,fun message' hm => ?_⟩
    · exact absurd (honFree.symm.trans ht) (by simp)
    · cases honFree.symm.trans hm
      exact h.panics message hr

/-- A store to a page of `F`. -/
lemma store_meets {f : Frame} {off : ℕ} {bs : List Byte} (hf : F f) :
    Meets E (store f off bs) s fun _ s' => s'.free = s.free ∧ Same F s s' := by
  refine .update ⟨rfl,?_,rfl,rfl,rfl,rfl,rfl,rfl,rfl,rfl⟩
  intro g hg
  have hne : g ≠ f := by
    rintro rfl
    exact hg hf
  exact update_of_ne hne _ _

lemma clearPages_meets (vs : List ℕ) (s : Machine)
    (hvs : ∀ v ∈ vs, ∀ e, pgdir.entry v = some e → F e.ppn) :
    Meets E (clearPages pgdir vs) s fun _ s' => s'.free = s.free ∧ Same F s s' := by
  induction vs generalizing s with
  | nil => exact .pure ⟨rfl,.refl F s⟩
  | cons v vs ih =>
    have hrest := fun s => ih s fun w hw => hvs w (List.mem_cons_of_mem v hw)
    unfold clearPages
    cases he : (pgdir.find v).join with
    | none => exact hrest s
    | some e =>
      refine .bind ((store_meets (hvs v List.mem_cons_self e he)).mono ?_)
      rintro _ s₁ ⟨hfree,hsame⟩
      refine (hrest s₁).mono ?_
      rintro _ s₂ ⟨hfree',hsame'⟩
      exact ⟨hfree'.trans hfree,hsame.trans hsame'⟩

end

/-- What `exec` relies on when it begins: no page is free twice, page 0 is neither free nor the
user's, and the pages of the process are not free. -/
structure Machine.Sound (s : Machine) : Prop where
  nodup : s.free.Nodup
  zero : 0 ∉ s.free
  unlocked : s.locked = none
  clean : s.pgdir.Clean
  own : ∀ v < 512*1024, ∀ e, s.pgdir.entry v = some e → e.ppn ∉ s.free

/-- While the address space is made it can be given back, and then all the pages are free again. -/
structure Going (free₀ : List Frame) (s s' : Machine) (pgdir : Pgdir) : Prop where
  same : Same (· ∈ free₀) s s'
  clean : pgdir.Clean
  stock : stock s'.free pgdir = ↑free₀

lemma toNat_add_of_le {a b : Word} (h : ¬a+b < a) : (a+b).toNat = a.toNat+b.toNat := by
  rw [BitVec.lt_def,BitVec.toNat_add] at h
  rw [BitVec.toNat_add]
  omega

section Loading
variable {E : String → Prop} {kmap : List Kmap} {free₀ : List Frame} {s : Machine} {pgdir : Pgdir}
variable (hapart : Apart kmap) (hnodup : free₀.Nodup) (hzero : 0 ∉ free₀)
include hapart hnodup hzero

lemma allocuvm_meets {oldsz newsz : ℕ} (hold : oldsz < KERNBASE ∨ oldsz ≤ newsz)
    (hspace : Space kmap free₀ s.free (pages oldsz) pgdir) (hstock : stock s.free pgdir = ↑free₀) :
    Meets E (allocuvm pgdir oldsz newsz) s fun x s' => Going free₀ s s' x.2 ∧
      (x.1 ≠ 0 → x.1 = max oldsz newsz ∧ newsz < KERNBASE ∧
        Space kmap free₀ s'.free (pages x.1) x.2) := by
  refine .bind (onFree_meets (((allocuvm_entry hapart hnodup hzero hspace).also
    (Kernel.allocuvm_meets (fun _ _ => trivial) fun hlt => by omega)).mono ?_))
  rintro ⟨sz,pgdir'⟩ free' ⟨⟨hclean,hnew⟩,hstock',-⟩
  have hsame : Same (· ∈ free₀) s { s with free := free' } := { Same.refl (· ∈ free₀) s with }
  dsimp only at hclean hnew hstock' ⊢
  split_ifs with hz
  · exact .pure ⟨⟨hsame,hclean,hstock'.trans hstock⟩,fun h => absurd hz h⟩
  · obtain ⟨hsz,hlt,hspace'⟩ := hnew hz
    refine .bind ((clearPages_meets (F := (· ∈ free₀)) _ _ ?_).mono ?_)
    · intro v hv e he
      have hvn : v < pages sz := by
        rw [List.mem_range'_1] at hv
        omega
      obtain ⟨e',he',-,hmem,-⟩ := hspace'.mapped v hvn
      obtain rfl := Option.some.inj (he.symm.trans he')
      exact hmem
    · rintro _ s' ⟨hfree,hsame'⟩
      refine .pure ⟨⟨hsame.trans hsame',hclean,?_⟩,fun _ => ⟨hsz,hlt,?_⟩⟩
      · rw [hfree]
        exact hstock'.trans hstock
      · rw [hfree]
        exact hspace'

omit hapart hnodup hzero in
lemma loadLoop_meets (content : List Byte) (addr offset sz : Word) {n : ℕ} (hn : n ≤ 512*1024)
    (hspace : Space kmap free₀ s.free n pgdir)
    (hend : addr.toNat+sz.toNat ≤ n*PGSIZE) (k i : ℕ) (hk : pages sz.toNat*PGSIZE = i+k*PGSIZE)
    (s' : Machine) (hfree : s'.free = s.free) (hsame : Same (· ∈ free₀) s s') :
    Meets E (loadLoop content pgdir addr offset sz k i) s' fun _ s'' =>
      s''.free = s.free ∧ Same (· ∈ free₀) s s'' := by
  induction k generalizing i s' with
  | zero => exact .pure ⟨hfree,hsame⟩
  | succ k ih =>
    have hi : addr.toNat+i < n*PGSIZE := by
      rw [pages] at hk
      simp only [PGSIZE] at hk hend ⊢
      omega
    have hvpn : (addr+BitVec.ofNat 32 i).toNat/PGSIZE < n := by
      rw [BitVec.toNat_add,BitVec.toNat_ofNat]
      simp only [PGSIZE] at hi ⊢
      omega
    obtain ⟨e,he,-,hmem,-⟩ := hspace.mapped _ hvpn
    simp only [loadLoop,Pgdir.find_of_entry he]
    split
    · exact .pure ⟨hfree,hsame⟩
    · refine .bind ((store_meets (F := (· ∈ free₀)) hmem).mono ?_)
      rintro _ s₁ ⟨hfree₁,hsame₁⟩
      split_ifs
      · refine ih (i+PGSIZE) ?_ s₁ (hfree₁.trans hfree) (hsame.trans hsame₁)
        rw [hk]
        ring
      · exact .pure ⟨hfree₁.trans hfree,hsame.trans hsame₁⟩

lemma loadSegment_meets (content : List Byte) (ph : Segment) {sz : ℕ} (hsz : sz < KERNBASE)
    (hspace : Space kmap free₀ s.free (pages sz) pgdir) (hstock : stock s.free pgdir = ↑free₀) :
    Meets E (loadSegment content ph sz pgdir) s fun x s' => Going free₀ s s' x.2 ∧
      ∀ sz', x.1 = some sz' →
      sz' < KERNBASE ∧ Space kmap free₀ s'.free (pages sz') x.2 := by
  have hstay : Going free₀ s s pgdir := ⟨.refl _ s,hspace.clean hzero,hstock⟩
  unfold loadSegment
  by_cases hmem : ph.memsz < ph.filesz
  · rw [if_pos hmem]
    exact .pure ⟨hstay,fun _ h => absurd h.symm (some_ne_none _)⟩
  by_cases hwrap : ph.vaddr+ph.memsz < ph.vaddr
  · rw [if_neg hmem,if_pos hwrap]
    exact .pure ⟨hstay,fun _ h => absurd h.symm (some_ne_none _)⟩
  rw [if_neg hmem,if_neg hwrap]
  refine .bind ((allocuvm_meets hapart hnodup hzero (.inl hsz) hspace hstock).mono ?_)
  rintro ⟨sz',pgdir'⟩ s₁ ⟨hgoing,hnew⟩
  dsimp only at hgoing hnew ⊢
  by_cases hz : sz' = 0
  · rw [if_pos hz]
    exact .pure ⟨hgoing,fun _ h => absurd h.symm (some_ne_none _)⟩
  rw [if_neg hz]
  by_cases halign : ph.vaddr.toNat%PGSIZE ≠ 0
  · rw [if_pos halign]
    exact .pure ⟨hgoing,fun _ h => absurd h.symm (some_ne_none _)⟩
  rw [if_neg halign]
  obtain ⟨hmax,hlt,hspace'⟩ := hnew hz
  have hsz' : sz' < KERNBASE := by
    rw [hmax]
    exact max_lt hsz hlt
  have hend : ph.vaddr.toNat+ph.filesz.toNat ≤ pages sz'*PGSIZE := by
    have hsum := toNat_add_of_le hwrap
    have hle : (ph.vaddr+ph.memsz).toNat ≤ sz' := hmax ▸ le_max_right _ _
    rw [BitVec.lt_def] at hmem
    rw [pages]
    simp only [PGSIZE]
    omega
  rw [loaduvm,if_neg halign]
  refine .bind ((loadLoop_meets content ph.vaddr ph.off ph.filesz (pages_le hsz'.le) hspace' hend _ 0
    (by rw [Nat.zero_add]) s₁ rfl (.refl _ s₁)).mono ?_)
  rintro ok s₂ ⟨hfree,hsame⟩
  refine .pure ⟨⟨hgoing.same.trans hsame,hgoing.clean,by rw [hfree]; exact hgoing.stock⟩,?_⟩
  intro sz'' h
  cases ok with
  | false => exact absurd h.symm (some_ne_none _)
  | true =>
    obtain rfl := Option.some.inj h
    rw [hfree]
    exact ⟨hsz',hspace'⟩

lemma loadProgram_meets (content : List Byte) (n : ℕ) (off : Word) {sz : ℕ} (hsz : sz < KERNBASE)
    (pgdir : Pgdir) (s : Machine) (hspace : Space kmap free₀ s.free (pages sz) pgdir)
    (hstock : stock s.free pgdir = ↑free₀) :
    Meets E (loadProgram content n off sz pgdir) s fun x s' => Going free₀ s s' x.2 ∧
      ∀ sz', x.1 = some sz' →
      sz' < KERNBASE ∧ Space kmap free₀ s'.free (pages sz') x.2 := by
  induction n generalizing off sz pgdir s with
  | zero =>
    refine .pure ⟨⟨.refl _ s,hspace.clean hzero,hstock⟩,?_⟩
    rintro sz' ⟨⟩
    exact ⟨hsz,hspace⟩
  | succ n ih =>
    unfold loadProgram
    cases readStruct content off Segment.size with
    | none =>
      exact .pure ⟨⟨.refl _ s,hspace.clean hzero,hstock⟩,fun _ h => absurd h.symm (some_ne_none _)⟩
    | some bs =>
      dsimp only
      split_ifs
      · exact ih _ hsz pgdir s hspace hstock
      refine .bind ((loadSegment_meets hapart hnodup hzero content _ hsz hspace hstock).mono ?_)
      rintro ⟨_ | sz',pgdir'⟩ s₁ ⟨hgoing,hnew⟩
      · exact .pure ⟨hgoing,fun _ h => absurd h.symm (some_ne_none _)⟩
      obtain ⟨hsz',hspace'⟩ := hnew sz' rfl
      refine (ih _ hsz' pgdir' s₁ hspace' hgoing.stock).mono ?_
      rintro x s₂ ⟨hgoing',hnew'⟩
      exact ⟨⟨hgoing.same.trans hgoing'.same,hgoing'.clean,hgoing'.stock⟩,hnew'⟩

end Loading
/-! ### Until the arguments are pushed -/

/-- Nothing of the process has changed, and what was free is free. -/
structure Unchanged (s s' : Machine) : Prop where
  same : Same (· ∈ s.free) s s'
  free : (s'.free : Multiset Frame) = ↑s.free

/-- The program is loaded and the stack is there. -/
structure Ready (kmap : List Kmap) (s s' : Machine) (sz : ℕ) (pgdir : Pgdir) : Prop where
  going : Going s.free s s' pgdir
  size : ∃ n, sz = (n+2)*PGSIZE ∧ Stacked kmap s.free (n+2) pgdir
  bound : sz < KERNBASE

section Image
variable {E : String → Prop} {kmap : List Kmap} {s s₁ s₂ : Machine} {pgdir : Pgdir} {ip : ℕ}

/-- The machine while `exec` holds the inode. -/
def holding (s : Machine) (ip : ℕ) : Machine :=
  { s with ref := update s.ref ip (s.ref ip+1), locked := some ip, outstanding := s.outstanding+1 }

def released (s : Machine) (ip : ℕ) : Machine :=
  { s with ref := update s.ref ip (s.ref ip-1), locked := none, outstanding := s.outstanding-1 }

variable {Q : Unit → Machine → Prop}

lemma release_meets (hlocked : s₁.locked = some ip) (h : Q () (released s₁ ip)) :
    Meets E (do iunlockput ip; endOp) s₁ Q := by
  refine .bind ?_
  refine .bind (.get ?_)
  rw [if_neg (fun hne => hne hlocked)]
  exact .update (.update h)

lemma Same.released {F : Frame → Prop} (hunlocked : s.locked = none) (h : Same F (holding s ip) s₁) :
    Same F s (released s₁ ip) where
  mem := h.mem
  pgdir := h.pgdir
  sz := h.sz
  tf := h.tf
  name := h.name
  handler := h.handler
  ref := by
    have href := h.ref
    simp only [holding] at href
    simp only [Exec.released,href,update_self,update_idem,add_sub_cancel_right,
      update_eq_self]
  locked := hunlocked.symm
  outstanding := by
    have hout := h.outstanding
    simp only [holding] at hout
    simp only [Exec.released,hout,add_sub_cancel_right]

lemma freevm_going {free₀ : List Frame} (h : Going free₀ s s₁ pgdir)
    (hQ : ∀ s₂, Same (· ∈ free₀) s s₂ → (s₂.free : Multiset Frame) = ↑free₀ →
      s₂.locked = s₁.locked → Q () s₂) :
    Meets E (onFree (freevm pgdir)) s₁ Q := by
  refine onFree_meets (((freevm_returns h.clean).also (freevm_meets fun _ _ => trivial)).mono ?_)
  rintro _ free' ⟨-,hfree⟩
  exact hQ _ (h.same.trans { Same.refl _ s₁ with }) (hfree.trans h.stock) rfl

lemma pages_mul (n : ℕ) : pages (n*PGSIZE) = n := by
  rw [pages]
  simp only [PGSIZE]
  omega

lemma stackPages_meets (hapart : Apart kmap) {free₀ : List Frame} (hnodup : free₀.Nodup)
    (hzero : 0 ∉ free₀)
    {sz : ℕ} (hspace : Space kmap free₀ s.free (pages sz) pgdir)
    (hstock : stock s.free pgdir = ↑free₀) :
    Meets E (stackPages sz pgdir) s fun o s' =>
      (o = none → Same (· ∈ free₀) s s' ∧ (s'.free : Multiset Frame) = ↑free₀) ∧
      ∀ sz' pgdir', o = some (sz',pgdir') → Going free₀ s s' pgdir' ∧ sz' = (pages sz+2)*PGSIZE ∧
        sz' < KERNBASE ∧ Stacked kmap free₀ (pages sz+2) pgdir' := by
  refine .bind ((allocuvm_meets hapart hnodup hzero (.inr (Nat.le_add_right _ _))
    (by rwa [pages_mul]) hstock).mono ?_)
  rintro ⟨sz',pgdir'⟩ s₁ ⟨hgoing,hnew⟩
  dsimp only at hgoing hnew ⊢
  by_cases hz : sz' = 0
  · rw [if_pos hz]
    refine .bind (.bind (freevm_going hgoing fun s₂ hsame hfree _ => ?_))
    exact .pure (.pure ⟨fun _ => ⟨hsame,hfree⟩,fun _ _ h => absurd h.symm (some_ne_none _)⟩)
  · rw [if_neg hz]
    obtain ⟨hmax,hlt,hspace'⟩ := hnew hz
    have hsz : sz' = (pages sz+2)*PGSIZE := by
      rw [hmax,max_eq_right (Nat.le_add_right _ _)]
      ring
    have hguard : (sz'-2*PGSIZE)/PGSIZE = pages sz := by
      rw [hsz]
      simp only [PGSIZE]
      omega
    have hbound : sz' < KERNBASE := by
      rw [hmax,max_eq_right (Nat.le_add_right _ _)]
      exact hlt
    have hn : pages sz+2 ≤ 512*1024 := by
      rw [← pages_mul (pages sz+2),← hsz]
      exact pages_le hbound.le
    rw [hsz,pages_mul] at hspace'
    rw [hguard]
    have hlow : (PDX (pages sz)).val < 512 := by
      rw [PDX_val]
      omega
    refine .bind (onFree_meets (((clearpteu_entry hapart hzero hspace' hn).also
      (clearpteu_meets (fun _ _ => trivial) hlow)).mono ?_))
    rintro pgdir₂ free' ⟨⟨-,hstacked⟩,hstock'⟩
    refine .pure ⟨fun h => absurd h (some_ne_none _),?_⟩
    rintro _ _ ⟨⟩
    exact ⟨⟨hgoing.same.trans { Same.refl _ s₁ with },hstacked.clean,hstock'.trans hgoing.stock⟩,
      hsz,hbound,hstacked⟩

lemma readStruct_zero {content bs : List Byte} {n : ℕ} (h : readStruct content 0#32 n = some bs) :
    bs = content.take n := by
  obtain ⟨hread,-⟩ := filter_eq_some_iff.mp h
  rw [readi] at hread
  split_ifs at hread
  exact (Option.some.inj hread).symm

lemma imageFile_meets (hapart : Apart kmap) (hs : s.Sound) (content : List Byte) :
    Meets E (imageFile kmap ip content) (holding s ip) fun o s' => (o = none → Unchanged s s') ∧
      ∀ entry sz pgdir, o = some (entry,sz,pgdir) → Ready kmap s s' sz pgdir := by
  have hnone : ∀ s₁, Same (· ∈ s.free) (holding s ip) s₁ → (s₁.free : Multiset Frame) = ↑s.free →
      s₁.locked = some ip → Meets E (do iunlockput ip; endOp) s₁ fun _ s' => Unchanged s s' := by
    intro s₁ hsame hfree hlocked
    exact release_meets hlocked ⟨hsame.released hs.unlocked,hfree⟩
  have hbad : Meets E (do bad none (some ip); return (none : Option (Word×ℕ×Pgdir)))
    (holding s ip) fun o s' =>
      (o = none → Unchanged s s') ∧
      ∀ entry sz pgdir, o = some (entry,sz,pgdir) → Ready kmap s s' sz pgdir := by
    refine .bind ((hnone _ (.refl _ _) rfl rfl).mono fun _ s' h => ?_)
    exact .pure ⟨fun _ => h,fun _ _ _ h => absurd h.symm (some_ne_none _)⟩
  unfold imageFile
  cases hread : readStruct content 0#32 Elfhdr.size with
  | none => exact hbad
  | some bs =>
    dsimp only
    obtain rfl := readStruct_zero hread
    by_cases hmagic : (Elfhdr.ofBytes (content.take Elfhdr.size)).magic ≠ ELF_MAGIC
    · rw [if_pos hmagic]
      exact hbad
    rw [if_neg hmagic]
    refine .bind (onFree_meets (((setupkvm_entry hapart).also
      (setupkvm_meets (fun _ _ => trivial) hapart.kernelMap)).mono ?_))
    rintro (_ | pgdir) free₁ ⟨hspace,hmade⟩
    · refine .bind ((hnone { holding s ip with free := free₁ } { Same.refl _ (holding s ip) with }
        hmade rfl).mono fun _ s' h => ?_)
      exact .pure ⟨fun _ => h,fun _ _ _ h => absurd h.symm (some_ne_none _)⟩
    have hstart : Same (· ∈ s.free) (holding s ip) { holding s ip with free := free₁ } :=
      { Same.refl _ (holding s ip) with }
    have hspace : Space kmap s.free free₁ (pages 0) pgdir := by
      rw [pages_zero]
      exact hspace pgdir rfl
    refine .bind ((loadProgram_meets hapart hs.nodup hs.zero content _ _ KERNBASE_pos pgdir
      { holding s ip with free := free₁ } hspace hmade).mono ?_)
    rintro ⟨_ | sz,pgdir₁⟩ s₁ ⟨hgoing,hnew⟩
    · have hgoing' : Going s.free (holding s ip) s₁ pgdir₁ :=
        { hgoing with same := hstart.trans hgoing.same }
      refine .bind (.bind (freevm_going hgoing' fun s₂ hsame hfree hlocked => ?_))
      refine (hnone s₂ hsame hfree hsame.locked).mono fun _ s' h => ?_
      exact .pure ⟨fun _ => h,fun _ _ _ h => absurd h.symm (some_ne_none _)⟩
    · obtain ⟨-,hspace'⟩ := hnew sz rfl
      have hsame₁ := hstart.trans hgoing.same
      have hback := hsame₁.released hs.unlocked
      refine .bind ?_
      refine .bind (.get ?_)
      rw [if_neg (fun hne => hne hsame₁.locked)]
      refine .update (.bind (.update (.bind ?_)))
      refine (stackPages_meets (s := released s₁ ip) hapart hs.nodup hs.zero hspace'
        hgoing.stock).mono ?_
      rintro (_ | ⟨sz',pgdir'⟩) s₂ ⟨hnone',hsome⟩
      · obtain ⟨hsame,hfree⟩ := hnone' rfl
        exact .pure ⟨fun _ => ⟨hback.trans hsame,hfree⟩,fun _ _ _ h => absurd h.symm (some_ne_none _)⟩
      · obtain ⟨hgoing',hsz',hbound,hstacked⟩ := hsome sz' pgdir' rfl
        refine .pure ⟨fun h => absurd h (some_ne_none _),?_⟩
        rintro _ _ _ ⟨⟩
        exact ⟨{ hgoing' with same := hback.trans hgoing'.same },⟨pages sz,hsz',hstacked⟩,hbound⟩

lemma image_meets (hapart : Apart kmap) (hs : s.Sound) (fs : Files) (path : List Byte) :
    Meets E (image kmap fs path) s fun o s' => (o = none → Unchanged s s') ∧
      ∀ entry sz pgdir, o = some (entry,sz,pgdir) → Ready kmap s s' sz pgdir := by
  refine .bind (.update (.bind ?_))
  unfold namei
  cases fs.namei path with
  | none =>
    refine .pure (.bind (.update (.pure ⟨fun _ => ⟨?_,rfl⟩,?_⟩)))
    · exact { Same.refl _ s with outstanding := by simp }
    · exact fun _ _ _ h => absurd h.symm (some_ne_none _)
  | some ip =>
    refine .bind (.update (.pure (.bind (.update ?_))))
    exact imageFile_meets hapart hs (fs.content ip)

end Image
def emptyProgram : List Byte := wordBytes ELF_MAGIC++List.replicate 48 0#8

section Enough
variable {kmap : List Kmap} {s : Machine} {pgdir : Pgdir}

lemma allocuvm_some {newsz : ℕ} (hnew : newsz < KERNBASE) (hpos : newsz ≠ 0)
    (hmany : 2*pages newsz ≤ s.free.length) :
    Meets (fun _ => True) (allocuvm pgdir 0 newsz) s fun x _ => x.1 = newsz := by
  have hloop : Meets (fun _ => True) (Kernel.allocuvm pgdir 0 newsz) s.free fun x _ => x.1 = newsz := by
    rw [Kernel.allocuvm,if_neg (not_le.mpr hnew),if_neg (Nat.not_lt_zero _)]
    exact allocLoop_some _ _ pgdir s.free (by rw [pages_zero]; omega)
  refine .bind (onFree_meets (hloop.mono ?_))
  rintro ⟨sz,pgdir'⟩ free' rfl
  dsimp only
  rw [if_neg hpos]
  exact .bind (.any fun _ _ => .pure rfl)

lemma image_some (hapart : Apart kmap) (fs : Files) (path : List Byte) {ip : ℕ}
    (hpath : fs.namei path = some ip)
    (hcontent : fs.content ip = emptyProgram) (hmany : 1100 ≤ s.free.length) :
    Meets (fun _ => True) (image kmap fs path) s fun o _ =>
      ∃ entry pgdir, o = some (entry,2*PGSIZE,pgdir) := by
  have hmany' : 1025 < s.free.length := by omega
  have hread : readStruct emptyProgram 0#32 Elfhdr.size = some emptyProgram := by decide +kernel
  have hmagic : ¬(Elfhdr.ofBytes emptyProgram).magic ≠ ELF_MAGIC := by decide +kernel
  have hphnum : (Elfhdr.ofBytes emptyProgram).phnum.toNat = 0 := by decide +kernel
  refine .bind (.update (.bind ?_))
  unfold namei
  rw [hpath]
  refine .bind (.update (.pure (.bind (.update ?_))))
  rw [hcontent]
  unfold imageFile
  rw [hread]
  dsimp only
  rw [if_neg hmagic,hphnum]
  refine .bind (onFree_meets ((((setupkvm_some hapart hmany').also (setupkvm_entry hapart)).also
    (setupkvm_meets (fun _ _ => trivial) hapart.kernelMap)).mono ?_))
  rintro (_ | pgdir) free₁ ⟨⟨hsome,hspace⟩,hmade⟩
  · exact absurd rfl hsome
  have hfew := card_owned_le fun v hv => (hspace pgdir rfl).unmapped v (Nat.zero_le v) hv
  have hlen : s.free.length = free₁.length+pgdir.owned.card := by
    rw [← card_stock,← Multiset.coe_card]
    exact congrArg Multiset.card hmade.symm
  refine .bind (.pure ?_)
  dsimp only
  refine .bind (.bind (.get ?_))
  rw [if_neg (fun hne => hne rfl)]
  refine .update (.bind (.update (.bind ?_)))
  unfold stackPages
  rw [pages_zero,Nat.zero_mul,Nat.zero_add]
  refine .bind ((allocuvm_some (by norm_num [KERNBASE,PGSIZE]) (by norm_num [PGSIZE]) ?_).mono ?_)
  · rw [pages_mul]
    dsimp only
    omega
  rintro ⟨sz,pgdir'⟩ s₁ rfl
  dsimp only
  rw [if_neg (by norm_num [PGSIZE])]
  exact .bind (.any fun _ _ => .pure (.pure ⟨_,_,rfl⟩))

end Enough
end JacobiXv6.Kernel.Exec
