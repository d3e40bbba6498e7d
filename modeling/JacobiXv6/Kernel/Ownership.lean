import JacobiXv6.Library.Run
import JacobiXv6.Kernel.Descriptors

/-! Every page that is handed to the allocator stays in one place, and every open file is counted
right, from call to call. -/
namespace JacobiXv6.Kernel
open Library Function

variable {n o m : ℕ}

/-- The pages of a process: its kernel stack and, once it has been set up, its address space. -/
def Process.pages (x : Process n) : Multiset Frame :=
  (if x.state = .unused then 0 else (x.kstack.map fun r => {r}).getD 0)+
  (if x.state = .unused ∨ x.state = .embryo then 0 else (x.pgdir.map Pgdir.owned).getD 0)

namespace Process
variable {x : Process n}

lemma pages_unused (hx : x.state = .unused) : x.pages = 0 := by
  rw [pages,if_pos hx,if_pos (Or.inl hx),add_zero]

lemma pages_embryo {r : Frame} (hx : x.state = .embryo) (hr : x.kstack = some r) : x.pages = {r} := by
  rw [pages,if_neg (by rw [hx]; nofun),if_pos (.inr hx),add_zero,hr]
  rfl

lemma pages_live {r : Frame} {pgdir : Pgdir} (hu : x.state ≠ .unused) (he : x.state ≠ .embryo)
    (hr : x.kstack = some r) (hpgdir : x.pgdir = some pgdir) : x.pages = {r}+pgdir.owned := by
  rw [pages,if_neg hu,if_neg (not_or.mpr ⟨hu,he⟩),hr,hpgdir]
  rfl

lemma pages_congr {y : Process n} (hr : x.kstack = y.kstack) (hpgdir : x.pgdir = y.pgdir)
    (hu : x.state = .unused ↔ y.state = .unused) (he : x.state = .embryo ↔ y.state = .embryo) :
    x.pages = y.pages := by
  simp only [pages,hr,hpgdir,hu,he]

end Process

namespace Sys
variable {E : String → Prop} {s s' : Sys n o m} {total : Frame → ℕ} {i : Fin n}

def elsewhere (s : Sys n o m) : Multiset Frame := ∑ i, (s.proc i).pages+s.kpgdir.owned+↑s.kstacks

lemma SameProcs.elsewhere (h : SameProcs s s') : s'.elsewhere = s.elsewhere := by
  rw [Sys.elsewhere,Sys.elsewhere,h.proc,h.kpgdir,h.kstacks]

lemma elsewhere_update (s : Sys n o m) (i : Fin n) (x : Process n) (free : List Frame) :
    elsewhere { s with proc := update s.proc i x, free := free }+(s.proc i).pages =
      s.elsewhere+x.pages := by
  have hsum := sum_update_comp (fun _ (x : Process n) => x.pages) s.proc i x
  unfold elsewhere
  rw [add_right_comm,add_right_comm _ _ (s.proc i).pages,hsum]
  abel

/-- Between calls. -/
structure Sound (total : Frame → ℕ) (s : Sys n o m) : Prop where
  held : Held (handles s.ofile) s.elsewhere total s
  stack : ∀ i, (s.proc i).state ≠ .unused → ∃ r, (s.proc i).kstack = some r
  space : ∀ i, (s.proc i).state ≠ .unused → (s.proc i).state ≠ .embryo →
    (∃ pgdir, (s.proc i).pgdir = some pgdir) ∧ (s.proc i).sz < KERNBASE
  shut : ∀ i, (s.proc i).state ≠ .runnable → ∀ fd, s.ofile i fd = none

variable {free : List Frame}

lemma Held.move {held : Fin m → ℕ} {rest rest' : Multiset Frame} {proc : Fin n → Process n}
    (h : Held held rest total s)
    (hpages : (free : Multiset Frame)+rest' = ↑s.free+rest) :
    Held held rest' total { s with proc := proc, free := free } := by
  refine ⟨h.ref,h.closed,h.sides,fun p => ?_,h.history⟩
  have hp := h.pages p
  have hcount := congrArg (Multiset.count p) hpages
  rw [Multiset.count_add,Multiset.count_add,Multiset.coe_count,Multiset.coe_count] at hcount
  change free.count p+pipePage s.pipe p+rest'.count p = total p
  omega

namespace Sound

lemma setProc (h : Sound total s) {x : Process n} {free : List Frame}
    (hpages : (free : Multiset Frame)+x.pages = ↑s.free+(s.proc i).pages)
    (hstack : x.state ≠ .unused → ∃ r, x.kstack = some r)
    (hspace : x.state ≠ .unused → x.state ≠ .embryo → (∃ pgdir, x.pgdir = some pgdir) ∧ x.sz < KERNBASE)
    (hshut : x.state ≠ .runnable → (s.proc i).state ≠ .runnable) :
    Sound total { s with proc := update s.proc i x, free := free } := by
  have hsplit := elsewhere_update s i x free
  refine ⟨h.held.move ?_,fun k => ?_,fun k => ?_,fun k hk => ?_⟩
  · refine add_right_cancel (b := (s.proc i).pages) ?_
    rw [add_assoc,hsplit,add_left_comm,hpages]
    abel
  · change (update s.proc i x k).state ≠ _ → ∃ r, (update s.proc i x k).kstack = some r
    obtain rfl | hki := eq_or_ne k i
    · rw [update_self]
      exact hstack
    · rw [update_of_ne hki]
      exact h.stack k
  · change (update s.proc i x k).state ≠ _ → (update s.proc i x k).state ≠ _ →
      (∃ pgdir, (update s.proc i x k).pgdir = some pgdir) ∧
      (update s.proc i x k).sz < KERNBASE
    obtain rfl | hki := eq_or_ne k i
    · rw [update_self]
      exact hspace
    · rw [update_of_ne hki]
      exact h.space k
  · change (update s.proc i x k).state ≠ _ at hk
    obtain rfl | hki := eq_or_ne k i
    · rw [update_self] at hk
      exact h.shut k (hshut hk)
    · rw [update_of_ne hki] at hk
      exact h.shut k hk

lemma called {ok : Bool} (h : Sound total s) (hi : (s.proc i).state = .runnable)
    (h' : Called i s.elsewhere total s ok s') : Sound total s' := by
  refine ⟨?_,fun k => ?_,fun k => ?_,fun k hk => ?_⟩
  · rw [h'.toSameProcs.elsewhere]
    exact h'.held
  · rw [h'.proc]
    exact h.stack k
  · rw [h'.proc]
    exact h.space k
  · rw [h'.proc] at hk
    obtain rfl | hki := eq_or_ne k i
    · exact absurd hi hk
    · rw [h'.others k hki]
      exact h.shut k hk

end Sound

/-! ### Calls that take and give back pages -/

lemma allocproc_meets (h : Sound total s) : Meets E allocproc s fun r s' =>
    Sound total s' ∧ s'.ofile = s.ofile ∧
    ∀ np, r = some np → (s.proc np).state = .unused ∧ (s'.proc np).state = .embryo ∧
      ∀ k, k ≠ np → s'.proc k = s.proc k := by
  refine .bind (.get ?_)
  split
  · exact .pure ⟨h,rfl,nofun⟩
  rename_i np hnp
  have hunused : (s.proc np).state = .unused := by simpa using List.find?_some hnp
  refine .bind (onFree_kalloc_meets (fun hfree => ?_) fun r free hfree => ?_)
  · refine .bind (.update (.pure ⟨?_,rfl,nofun⟩))
    refine h.setProc ?_ (absurd hunused) (fun hu => absurd hunused hu) id
    rw [Process.pages_unused hunused]
    exact congrArg _ (Process.pages_unused hunused)
  · refine .bind (.update (.pure ⟨?_,rfl,?_⟩))
    · refine h.setProc ?_ (fun _ => ⟨r,rfl⟩) (fun _ he => absurd rfl he) fun _ => by rw [hunused]; nofun
      rw [Process.pages_unused hunused,Process.pages_embryo rfl rfl,hfree,coe_cons,add_zero]
    · rintro _ ⟨⟩
      refine ⟨hunused,?_,fun k hk => update_of_ne hk _ _⟩
      change (update s.proc np _ np).state = _
      rw [update_self]

lemma Sound.setPgdir (h : Sound total s) (hi : (s.proc i).state = .runnable)
    {pgdir pgdir' : Pgdir} {sz : ℕ}
    (hpgdir : (s.proc i).pgdir = some pgdir) (hstock : stock free pgdir' = stock s.free pgdir)
    (hsz : sz < KERNBASE) : Sound total { s with
      proc := update s.proc i { s.proc i with pgdir := some pgdir', sz := sz }, free := free } := by
  have hu : (s.proc i).state ≠ .unused := by rw [hi]; nofun
  have he : (s.proc i).state ≠ .embryo := by rw [hi]; nofun
  obtain ⟨r,hr⟩ := h.stack i hu
  have hpages : Process.pages { s.proc i with pgdir := some pgdir', sz := sz } = {r}+pgdir'.owned :=
    Process.pages_live hu he hr rfl
  refine h.setProc ?_ (fun _ => ⟨r,hr⟩) (fun _ _ => ⟨⟨pgdir',rfl⟩,hsz⟩) id
  rw [hpages,Process.pages_live hu he hr hpgdir,add_left_comm,← stock,hstock,stock,add_left_comm]

lemma Sound.forked (h : Sound total s) {np : Fin n} {kstack : Frame} {d : Pgdir} {sz : ℕ}
    (hembryo : (s.proc np).state = .embryo) (hkstack : (s.proc np).kstack = some kstack)
    (hsz : sz < KERNBASE)
    (hs' : SameProcs { s with
      free := free
      proc := update s.proc np { s.proc np with pgdir := some d, sz := sz, parent := some i } } s')
    (h' : Held (handles s'.ofile) (s.elsewhere+d.owned) total s')
    (hofile : ∀ k, k ≠ np → s'.ofile k = s.ofile k) :
    Sound total { s' with proc := update s'.proc np { s'.proc np with state := .runnable } } := by
  have hproc : update s'.proc np { s'.proc np with state := .runnable } =
      update s.proc np ⟨.runnable,some i,some kstack,some d,sz⟩ := by
    rw [hs'.proc]
    dsimp only
    rw [update_self,update_idem]
    dsimp only
    rw [hkstack]
  rw [hproc]
  have hlive : Process.pages (n := n) ⟨.runnable,some i,some kstack,some d,sz⟩ = {kstack}+d.owned :=
    Process.pages_live (by nofun) (by nofun) rfl rfl
  have hpages := elsewhere_update s np ⟨.runnable,some i,some kstack,some d,sz⟩ free
  rw [Process.pages_embryo hembryo hkstack,hlive,add_left_comm,add_comm] at hpages
  have helsewhere : elsewhere { s' with
      proc := update s.proc np ⟨.runnable,some i,some kstack,some d,sz⟩ } =
      s.elsewhere+d.owned := by
    rw [← add_left_cancel hpages,elsewhere,elsewhere,hs'.kpgdir,hs'.kstacks]
  refine ⟨?_,fun k => ?_,fun k => ?_,fun k hk => ?_⟩
  · rw [helsewhere]
    exact ⟨h'.ref,h'.closed,h'.sides,h'.pages,h'.history⟩
  · change (update s.proc np _ k).state ≠ _ → ∃ r, (update s.proc np _ k).kstack = some r
    obtain rfl | hk := eq_or_ne k np
    · rw [update_self]
      exact fun _ => ⟨kstack,rfl⟩
    · rw [update_of_ne hk]
      exact h.stack k
  · change (update s.proc np _ k).state ≠ _ → (update s.proc np _ k).state ≠ _ →
      (∃ pgdir, (update s.proc np _ k).pgdir = some pgdir) ∧
      (update s.proc np _ k).sz < KERNBASE
    obtain rfl | hk := eq_or_ne k np
    · rw [update_self]
      exact fun _ _ => ⟨⟨d,rfl⟩,hsz⟩
    · rw [update_of_ne hk]
      exact h.space k
  · change (update s.proc np _ k).state ≠ _ at hk
    obtain rfl | hne := eq_or_ne k np
    · rw [update_self] at hk
      exact absurd rfl hk
    · rw [update_of_ne hne] at hk
      exact fun fd => (congrFun (hofile k hne) fd).trans (h.shut k hk fd)

lemma Sound.exited (h : Sound total s) (hi : (s.proc i).state = .runnable)
    (h' : Held (handles s'.ofile) s.elsewhere total s') (hkpgdir : s'.kpgdir = s.kpgdir)
    (hkstacks : s'.kstacks = s.kstacks)
    (hproc : ∀ k, ∃ parent, s'.proc k =
      { s.proc k with state := if k = i then .zombie else (s.proc k).state, parent := parent })
    (hothers : ∀ k, k ≠ i → s'.ofile k = s.ofile k) (hclosed : ∀ fd, s'.ofile i fd = none) :
    Sound total s' := by
  have hstate : ∀ st, st ≠ .runnable → st ≠ .zombie → ∀ k,
      (s'.proc k).state = st ↔ (s.proc k).state = st := by
    intro st hr hz k
    obtain ⟨parent,hk⟩ := hproc k
    rw [hk]
    dsimp only
    split_ifs with hki
    · rw [hki,hi]
      exact ⟨fun e => absurd e.symm hz,fun e => absurd e.symm hr⟩
    · rfl
  have hunused := hstate .unused nofun nofun
  have hembryo := hstate .embryo nofun nofun
  have helsewhere : s'.elsewhere = s.elsewhere := by
    have hsum : ∑ k, (s'.proc k).pages = ∑ k, (s.proc k).pages := by
      refine Finset.sum_congr rfl fun k _ => ?_
      obtain ⟨parent,hk⟩ := hproc k
      exact Process.pages_congr (by rw [hk]) (by rw [hk]) (hunused k) (hembryo k)
    rw [elsewhere,elsewhere,hkpgdir,hkstacks,hsum]
  refine ⟨?_,fun k hk => ?_,fun k hu he => ?_,fun k hk => ?_⟩
  · rw [helsewhere]
    exact h'
  · obtain ⟨r,hr⟩ := h.stack k ((hunused k).not.mp hk)
    obtain ⟨parent,hk⟩ := hproc k
    rw [hk]
    exact ⟨r,hr⟩
  · have hspace := h.space k ((hunused k).not.mp hu) ((hembryo k).not.mp he)
    obtain ⟨parent,hk⟩ := hproc k
    rw [hk]
    exact hspace
  · obtain rfl | hki := eq_or_ne k i
    · exact hclosed
    · obtain ⟨parent,hp⟩ := hproc k
      rw [hp] at hk
      dsimp only at hk
      rw [if_neg hki] at hk
      rw [hothers k hki]
      exact h.shut k hk

lemma exit_meets (h : Sound total s) (hi : (s.proc i).state = .runnable) (hexit : E "init exiting") :
    Meets E (exit i) s fun _ s' => Sound total s' := by
  refine .bind (.get ?_)
  split_ifs with hinit
  · exact .throw hexit
  refine .bind ((closeFiles_meets (List.finRange o) s h.held).mono ?_)
  intro _ s₁ ⟨hs₁,h₁,hothers,hclosed⟩
  refine .bind (.update (.bind (.get (.bind (.update (.pure ?_))))))
  -- only the state of the process itself and the parents of others are new
  have hproc : ∀ k, ∃ parent, update (fun k => if (s₁.proc k).parent = some i then
        { s₁.proc k with parent := some s₁.initproc } else s₁.proc k) i
      { (if (s₁.proc i).parent = some i then { s₁.proc i with parent := some s₁.initproc }
        else s₁.proc i) with state := .zombie } k =
      { s.proc k with state := if k = i then .zombie else (s.proc k).state, parent := parent } := by
    intro k
    rw [hs₁.proc]
    obtain rfl | hk := eq_or_ne k i
    · rw [update_self,if_pos rfl]
      split_ifs
      exacts [⟨_,rfl⟩,⟨_,rfl⟩]
    · rw [update_of_ne hk,if_neg hk]
      split_ifs
      exacts [⟨_,rfl⟩,⟨_,rfl⟩]
  exact h.exited hi (h₁.move rfl) hs₁.kpgdir hs₁.kstacks hproc hothers
    fun fd => hclosed fd (.inl (List.mem_finRange fd))

variable (hE : ∀ m ∈ vmPanics, E m)
include hE

lemma sbrk_meets (h : Sound total s) (hi : (s.proc i).state = .runnable) (k : BitVec 32) :
    Meets E (sbrk i k) s fun _ s' => Sound total s' := by
  obtain ⟨⟨pgdir,hpgdir⟩,hsz⟩ := h.space i (by rw [hi]; nofun) (by rw [hi]; nofun)
  refine .bind (.get ?_)
  rw [hpgdir]
  dsimp only
  split_ifs with hgrow hshrink
  · refine .bind (onFree_meets ((allocuvm_meets hE fun _ => hsz).mono ?_))
    intro ⟨sz,pgdir'⟩ free ⟨hstock,hsz'⟩
    dsimp only at hsz' ⊢
    split_ifs
    · exact .bind (.update (.pure (h.setPgdir hi hpgdir hstock hsz)))
    · exact .bind (.update (.pure (h.setPgdir hi hpgdir hstock hsz')))
  · refine .bind (onFree_meets ((deallocuvm_meets hE hsz.le).mono ?_))
    intro ⟨sz,pgdir'⟩ free ⟨hstock,hsz',_⟩
    dsimp only at hsz' ⊢
    split_ifs
    · exact .bind (.update (.pure (h.setPgdir hi hpgdir hstock hsz)))
    · exact .bind (.update (.pure (h.setPgdir hi hpgdir hstock (hsz'.trans_lt hsz))))
  · exact .pure h

lemma exec_meets (K : KernelMap) (h : Sound total s) (hi : (s.proc i).state = .runnable)
    (image : Image) :
    Meets E (exec K i image) s fun _ s' => Sound total s' := by
  obtain ⟨⟨pgdir,hpgdir⟩,hsz⟩ := h.space i (by rw [hi]; nofun) (by rw [hi]; nofun)
  refine .bind (onFree_meets ((loadImage_meets hE K image).mono ?_))
  rintro (_ | ⟨pgdir',sz⟩) free ⟨hmade,hsz'⟩
  · refine .pure ⟨h.held.move ?_,h.stack,h.space,h.shut⟩
    rw [show (free : Multiset Frame) = ↑s.free from hmade]
    rfl
  · refine .bind (.get ?_)
    dsimp only
    rw [hpgdir]
    refine .bind (.update (.bind (onFree_meets ((freevm_meets hE).mono ?_))))
    intro _ free' hfree'
    refine .pure (h.setPgdir hi hpgdir ?_ (hsz' _ rfl))
    have hmade : stock free pgdir' = ↑s.free := hmade
    rw [stock,hfree',stock,add_right_comm,← stock,hmade,stock]

lemma wait_meets (h : Sound total s) : Meets E (wait i) s fun _ s' => Sound total s' := by
  refine .bind (.get ?_)
  split
  · exact .pure h
  rename_i p hp
  have hfound := List.find?_some hp
  have hzombie : (s.proc p).state = .zombie := (of_decide_eq_true hfound).2
  have hu : (s.proc p).state ≠ .unused := by rw [hzombie]; decide
  have he : (s.proc p).state ≠ .embryo := by rw [hzombie]; decide
  obtain ⟨kstack,hkstack⟩ := h.stack p hu
  obtain ⟨⟨pgdir,hpgdir⟩,-⟩ := h.space p hu he
  rw [hkstack,hpgdir]
  refine .bind (onFree_meets (kfree_meets (.bind (onFree_meets ((freevm_meets hE).mono ?_)))))
  intro _ free hfree
  refine .bind (.update (.pure (h.setProc ?_ (absurd rfl) (fun hx => absurd rfl hx) ?_)))
  · rw [Process.pages_live hu he hkstack hpgdir,hfree,Process.pages_unused rfl,add_zero,stock_cons,
      stock,add_assoc,add_comm pgdir.owned]
  · intro _
    rw [hzombie]
    decide

/-- `fork` gives back the kernel stack when there is no memory for the address space. -/
lemma fork_meets (K : KernelMap) (h : Sound total s) (hi : (s.proc i).state = .runnable) :
    Meets E (fork K i) s fun _ s' => Sound total s' := by
  obtain ⟨⟨pgdir,hpgdir⟩,hsz⟩ := h.space i (by rw [hi]; decide) (by rw [hi]; decide)
  refine .bind ((allocproc_meets h).mono ?_)
  rintro (_ | np) s₁ ⟨h₁,hofile,hnew⟩
  · exact .pure h₁
  obtain ⟨hunused,hembryo,hothers⟩ := hnew np rfl
  have hne : i ≠ np := by
    rintro rfl
    rw [hi] at hunused
    cases hunused
  obtain ⟨kstack,hkstack⟩ := h₁.stack np (by rw [hembryo]; decide)
  refine .bind (.get ?_)
  rw [hothers i hne,hpgdir,hkstack]
  refine .bind (onFree_meets ((copyuvm_meets hE K hsz.le).mono ?_))
  rintro (_ | d) free hmade
  · have hmade : (free : Multiset Frame) = ↑s₁.free := hmade
    refine .bind (onFree_meets (kfree_meets (.bind (.update (.pure
      (h₁.setProc ?_ (absurd rfl) (fun hx => absurd rfl hx) ?_))))))
    · rw [Process.pages_unused rfl,Process.pages_embryo hembryo hkstack,add_zero,coe_cons,hmade]
    · intro _
      rw [hembryo]
      decide
  · have hmade : stock free d = ↑s₁.free := hmade
    have hpages : (free : Multiset Frame)+(s₁.elsewhere+d.owned) = ↑s₁.free+s₁.elsewhere := by
      rw [add_left_comm,← stock,hmade,add_comm]
    refine .bind (.update (.bind (.mono (dupFiles_meets (List.finRange o)
      (List.nodup_finRange o) _ (h₁.held.move hpages) fun fd _ => ?_) ?_)))
    · exact h₁.shut np (by rw [hembryo]; decide) fd
    · rintro _ s₃ ⟨hs₃,h₃,hfds⟩
      refine .bind (.get (.bind (.update (.pure ?_))))
      exact h₁.forked hembryo hkstack hsz hs₃ h₃ hfds

/-- Every call keeps the pages and the counts, and panics with the messages of `vm.c` or when
init exits. -/
lemma syscall_meets (K : KernelMap) (hexit : E "init exiting") (hle : ∀ p, total p ≤ 1)
    (h : Sound total s)
    (hi : (s.proc i).state = .runnable) (call : Syscall) :
    Meets E (syscall K i call) s fun _ s' => Sound total s' := by
  cases call with
  | fork => exact fork_meets hE K h hi
  | exec image => exact exec_meets hE K h hi image
  | sbrk k => exact sbrk_meets hE h hi k
  | exit => exact exit_meets h hi hexit
  | wait => exact wait_meets hE h
  | opens ip wronly rdwr => exact (sysOpen_meets h.held ip wronly rdwr).mono fun _ _ => h.called hi
  | pipe ok => exact (sysPipe_meets h.held hle ok).mono fun _ _ => h.called hi
  | dup fd => exact (sysDup_meets h.held fd).mono fun _ _ => h.called hi
  | close fd => exact (sysClose_meets h.held fd).mono fun _ _ => h.called hi

end Sys
end JacobiXv6.Kernel
