import JacobiXv6.Kernel.Files

/-! The descriptors of the processes: the count of a file is the number of descriptors that
refer to it, also when a call fails or gives up in the middle. -/
namespace JacobiXv6.Kernel
open Library Function

variable {n o m : ℕ}

/-! ### Counting descriptors -/

/-- The number of descriptors, of all processes, that refer to a file. -/
def handles (ofile : Fin n → Fin o → Option (Fin m)) (f : Fin m) : ℕ :=
  (Finset.univ.filter fun x : Fin n×Fin o => ofile x.1 x.2 = some f).card

/-- A descriptor of process `i` is written. -/
def putFd (ofile : Fin n → Fin o → Option (Fin m)) (i : Fin n) (fd : Fin o) (f : Option (Fin m)) :
    Fin n → Fin o → Option (Fin m) := update ofile i (update (ofile i) fd f)

variable {ofile : Fin n → Fin o → Option (Fin m)} {i k : Fin n} {fd : Fin o} {f g : Fin m}

lemma putFd_of_ne (hk : k ≠ i) (x : Option (Fin m)) : putFd ofile i fd x k = ofile k :=
  update_of_ne hk _ _

lemma putFd_self (x : Option (Fin m)) (fd' : Fin o) :
    putFd ofile i fd x i fd' = if fd' = fd then x else ofile i fd' := by
  unfold putFd
  rw [update_self,update_apply]

lemma putFd_undo (hfd : ofile i fd = none) (x : Option (Fin m)) :
    putFd (putFd ofile i fd x) i fd none = ofile := by
  ext1 k
  obtain rfl | hk := eq_or_ne k i
  · ext1 fd'
    rw [putFd_self,putFd_self]
    split_ifs with hfd'
    · rw [hfd',hfd]
    · rfl
  · rw [putFd_of_ne hk,putFd_of_ne hk]

lemma handles_putFd (ofile : Fin n → Fin o → Option (Fin m)) (i : Fin n) (fd : Fin o)
    (x : Option (Fin m)) (f : Fin m) :
    handles (putFd ofile i fd x) f+(if ofile i fd = some f then 1 else 0) =
      handles ofile f+(if x = some f then 1 else 0) := by
  have hput : ∀ y : Fin n×Fin o, putFd ofile i fd x y.1 y.2 =
      update (fun y : Fin n×Fin o => ofile y.1 y.2) (i,fd) x y := by
    rintro ⟨k,fd'⟩
    obtain rfl | hk := eq_or_ne k i
    · rw [putFd_self,update_apply]
      simp only [Prod.mk.injEq,true_and]
    · rw [putFd_of_ne hk,update_of_ne fun e => hk (congrArg Prod.fst e)]
  simp only [handles,Finset.card_filter,hput]
  exact sum_update_comp (fun _ (y : Option (Fin m)) => if y = some f then 1 else 0)
    (fun y : Fin n×Fin o => ofile y.1 y.2) (i,fd) x

lemma handles_open (hfd : ofile i fd = none) (f : Fin m) :
    handles (putFd ofile i fd (some f)) = update (handles ofile) f (handles ofile f+1) := by
  ext g
  have hg := handles_putFd ofile i fd (some f) g
  rw [hfd,if_neg nofun,add_zero] at hg
  rw [hg,update_apply]
  by_cases hgf : g = f
  · rw [hgf,if_pos rfl,if_pos rfl]
  · rw [if_neg hgf,if_neg fun e => hgf (Option.some.inj e).symm,add_zero]

lemma handles_close (hfd : ofile i fd = some f) :
    handles (putFd ofile i fd none) = update (handles ofile) f (handles ofile f-1) := by
  ext g
  have hg := handles_putFd ofile i fd none g
  rw [hfd,if_neg (Option.some_ne_none g).symm,add_zero] at hg
  rw [update_apply]
  by_cases hgf : g = f
  · rw [if_pos hgf,← hgf,← hg,if_pos (congrArg some hgf.symm),Nat.add_sub_cancel]
  · rw [if_neg hgf,← hg,if_neg fun e => hgf (Option.some.inj e).symm,add_zero]

lemma handles_ne_zero (hfd : ofile i fd = some f) : handles ofile f ≠ 0 := by
  refine Finset.card_ne_zero_of_mem (a := (i,fd)) ?_
  rw [Finset.mem_filter]
  exact ⟨Finset.mem_univ _,hfd⟩

namespace Sys
variable {E : String → Prop} {s s' : Sys n o m} {rest : Multiset Frame} {total : Frame → ℕ}

/-! ### Calls on descriptors -/

/-- After a call of process `i` on its descriptors. When the call fails, nothing has changed but
records of files that nobody refers to. -/
structure Called (i : Fin n) (rest : Multiset Frame) (total : Frame → ℕ) (s : Sys n o m) (ok : Bool)
    (s' : Sys n o m) : Prop extends SameProcs s s' where
  held : Held (handles s'.ofile) rest total s'
  others : ∀ k, k ≠ i → s'.ofile k = s.ofile k
  undone : ok = false → Aside (handles s.ofile · = 0) s s'

lemma Called.failed (h : Held (handles s.ofile) rest total s')
    (hs' : Aside (handles s.ofile · = 0) s s') : Called i rest total s false s' :=
  ⟨hs'.toSameProcs,by rwa [hs'.ofile],fun k _ => by rw [hs'.ofile],fun _ => hs'⟩

lemma fdalloc_meets {Q : Option (Fin o) → Sys n o m → Prop} (hnone : Q none s)
    (hsome : ∀ fd, s.ofile i fd = none → Q (some fd) { s with ofile := putFd s.ofile i fd (some f) }) :
    Meets E (fdalloc i f) s Q := by
  refine .bind (.get ?_)
  split
  · exact .pure hnone
  · rename_i fd hfd
    refine .bind (.update (.pure (hsome fd ?_)))
    simpa using List.find?_some hfd

lemma argfd_meets {fd : ℤ} {Q : Option (Fin o×Fin m) → Sys n o m → Prop} (hnone : Q none s)
    (hsome : ∀ fd f, s.ofile i fd = some f → Q (some (fd,f)) s) : Meets E (argfd i fd) s Q := by
  refine .bind (.get ?_)
  split_ifs with hfd
  · refine .pure ?_
    cases hf : s.ofile i ⟨fd.toNat,hfd.2⟩ with
    | none => exact hnone
    | some f => exact hsome _ f hf
  · exact .pure hnone

section

variable (h : Held (handles s.ofile) rest total s)
include h

lemma sysDup_meets (fd : ℤ) :
    Meets E (sysDup i fd) s (Called i rest total s) := by
  refine .bind (argfd_meets (.pure (Called.failed h (Aside.refl s))) fun fd f hfd => ?_)
  refine .bind (fdalloc_meets (.pure (Called.failed h (Aside.refl s))) fun fd' hfd' => ?_)
  refine .bind ((filedup_meets (h.of_ofile _) (handles_ne_zero hfd)).mono ?_)
  intro _ s' ⟨h',hs'⟩
  refine .pure ⟨⟨hs'.proc,hs'.kpgdir,hs'.kstacks,hs'.initproc⟩,?_,fun k hk => ?_,nofun⟩
  · rw [hs'.ofile,handles_open hfd']
    exact h'
  · rw [hs'.ofile]
    exact putFd_of_ne hk _

lemma sysClose_meets (fd : ℤ) :
    Meets E (sysClose i fd) s (Called i rest total s) := by
  refine .bind (argfd_meets (.pure (Called.failed h (Aside.refl s))) fun fd f hfd => ?_)
  refine .bind (.update (.bind
    ((fileclose_meets (h.of_ofile _) (handles_ne_zero hfd)).mono ?_)))
  intro _ s' ⟨h',hs'⟩
  refine .pure ⟨⟨hs'.proc,hs'.kpgdir,hs'.kstacks,hs'.initproc⟩,?_,fun k hk => ?_,nofun⟩
  · rw [hs'.ofile]
    exact handles_close hfd ▸ h'
  · rw [hs'.ofile]
    exact putFd_of_ne hk none

lemma sysOpen_meets (ip : Option ℕ) (wronly rdwr : Bool) :
    Meets E (sysOpen i ip wronly rdwr) s (Called i rest total s) := by
  cases ip with
  | none => exact .pure (Called.failed h (Aside.refl s))
  | some ip =>
    refine .bind ((filealloc_meets h).mono ?_)
    rintro (_ | f) s₁ h₁
    · obtain rfl := h₁
      exact .pure (Called.failed h (Aside.refl s₁))
    obtain ⟨hf,htype,h₁,hs₁⟩ := h₁
    refine .bind (fdalloc_meets ?_ fun fd hfd => ?_)
    · refine .bind ((fileclose_new (F := (handles s.ofile · = 0)) h₁ hf hf).mono ?_)
      intro _ s₂ ⟨h₂,hs₂⟩
      exact .pure (Called.failed h₂ ((hs₁.mono fun _ e => e ▸ hf).trans hs₂))
    · refine .bind (.get (.bind (.update (.pure
        ⟨⟨hs₁.proc,hs₁.kpgdir,hs₁.kstacks,hs₁.initproc⟩,?_,fun k hk => ?_,nofun⟩))))
      · rw [hs₁.ofile] at hfd
        have hhandles : handles (putFd s₁.ofile i fd (some f)) =
            update (handles s.ofile) f 1 := by rw [hs₁.ofile,handles_open hfd,hf]
        have h₂ := (h₁.of_ofile (putFd s₁.ofile i fd (some f))).setFile (f := f)
          (x := { s₁.file f with type := .inode ip, readable := !wronly, writable := wronly || rdwr })
          (r := 1) ?_ ?_ nofun
        · rw [update_idem] at h₂
          change Held (handles (putFd s₁.ofile i fd (some f))) rest total _
          rw [hhandles]
          exact h₂
        · exact (h₁.ref f).trans (update_self f 1 _)
        · change none = (s₁.file f).side
          rw [File.side,htype]
      · exact (putFd_of_ne hk _).trans (by rw [hs₁.ofile])

/-- Whatever `pipe` has done before it fails is undone. -/
lemma sysPipe_meets (hle : ∀ q, total q ≤ 1) (ok : Bool) :
    Meets E (sysPipe i ok) s (Called i rest total s) := by
  unfold sysPipe
  split_ifs
  · exact .pure (Called.failed h (Aside.refl s))
  refine .bind ((pipealloc_meets h hle).mono ?_)
  rintro (_ | ⟨rf,wf⟩) s₁ ⟨hs₁,h₁⟩
  · exact .pure (Called.failed h₁ hs₁)
  obtain ⟨hne,hrf,hwf,h₁⟩ := h₁
  -- the two new files are closed again, whichever descriptors have been written meanwhile
  have hundo : ∀ (ofile : Fin n → Fin o → Option (Fin m)), ofile = s₁.ofile →
      Meets E (do fileclose rf; fileclose wf; return false) { s₁ with ofile := ofile }
        (Called i rest total s) := by
    rintro _ rfl
    have h₁ := h₁
    rw [update_comm hne] at h₁
    refine .bind ((fileclose_new (F := (handles s.ofile · = 0)) h₁ ?_ hrf).mono ?_)
    · rw [update_of_ne hne,hrf]
    intro _ s₂ ⟨h₂,hs₂⟩
    refine .bind ((fileclose_new (F := (handles s.ofile · = 0)) h₂ hwf hwf).mono ?_)
    intro _ s₃ ⟨h₃,hs₃⟩
    exact .pure (Called.failed h₃ (hs₁.trans (hs₂.trans hs₃)))
  refine .bind (fdalloc_meets (hundo _ rfl) fun fd₀ hfd₀ => ?_)
  refine .bind (fdalloc_meets (.bind (.update (hundo _ ?_))) fun fd₁ hfd₁ => ?_)
  · exact putFd_undo hfd₀ _
  · rw [hs₁.ofile] at hfd₀
    have hhandles : handles (putFd (putFd s₁.ofile i fd₀ (some rf)) i fd₁ (some wf)) =
        update (update (handles s.ofile) rf 1) wf 1 := by
      rw [handles_open hfd₁,hs₁.ofile,handles_open hfd₀,update_of_ne hne.symm,hrf,hwf]
    refine .pure ⟨⟨hs₁.proc,hs₁.kpgdir,hs₁.kstacks,hs₁.initproc⟩,?_,fun k hk => ?_,nofun⟩
    · change Held (handles (putFd (putFd s₁.ofile i fd₀ (some rf)) i fd₁ (some wf))) rest total _
      rw [hhandles]
      exact h₁.of_ofile _
    · exact (putFd_of_ne hk _).trans ((putFd_of_ne hk _).trans (by rw [hs₁.ofile]))

end

/-! ### The loops of `fork` and `exit` -/

lemma dupFiles_meets {np : Fin n} (fds : List (Fin o)) (hfds : fds.Nodup) (s : Sys n o m)
    (h : Held (handles s.ofile) rest total s) (hnone : ∀ fd ∈ fds, s.ofile np fd = none) :
    Meets E (dupFiles i np fds) s fun _ s' => SameProcs s s' ∧
      Held (handles s'.ofile) rest total s' ∧ ∀ k, k ≠ np → s'.ofile k = s.ofile k := by
  induction fds generalizing s with
  | nil => exact .pure ⟨⟨rfl,rfl,rfl,rfl⟩,h,fun _ _ => rfl⟩
  | cons fd fds ih =>
    obtain ⟨hfd,hfds⟩ := List.nodup_cons.mp hfds
    refine .bind (.get ?_)
    cases hf : s.ofile i fd with
    | none => exact ih hfds s h fun fd' hfd' => hnone fd' (List.mem_cons_of_mem _ hfd')
    | some f =>
      refine .bind ((filedup_meets h (handles_ne_zero hf)).mono ?_)
      intro _ s₁ ⟨h₁,hs₁⟩
      have hnp₁ := hnone fd List.mem_cons_self
      refine .bind (.update
        ((ih hfds { s₁ with ofile := putFd s₁.ofile np fd (some f) } ?_ ?_).mono ?_))
      · change Held (handles (putFd s₁.ofile np fd (some f))) rest total _
        rw [hs₁.ofile,handles_open hnp₁,← hs₁.ofile]
        exact (hs₁.ofile ▸ h₁).of_ofile _
      · intro fd' hfd'
        refine (putFd_self _ fd').trans ?_
        rw [if_neg fun e : fd' = fd => hfd (e ▸ hfd'),hs₁.ofile]
        exact hnone fd' (List.mem_cons_of_mem _ hfd')
      · intro _ s₂ ⟨hs₂,h₂,hothers⟩
        refine ⟨hs₁.toSameProcs.trans ⟨hs₂.proc,hs₂.kpgdir,hs₂.kstacks,hs₂.initproc⟩,h₂,fun k hk => ?_⟩
        rw [hothers k hk,← hs₁.ofile]
        exact putFd_of_ne hk _

lemma closeFiles_meets (fds : List (Fin o)) (s : Sys n o m) (h : Held (handles s.ofile) rest total s) :
    Meets E (closeFiles i fds) s fun _ s' => SameProcs s s' ∧
      Held (handles s'.ofile) rest total s' ∧ (∀ k, k ≠ i → s'.ofile k = s.ofile k) ∧
      ∀ fd, fd ∈ fds ∨ s.ofile i fd = none → s'.ofile i fd = none := by
  induction fds generalizing s with
  | nil =>
    exact .pure ⟨⟨rfl,rfl,rfl,rfl⟩,h,fun _ _ => rfl,fun fd hfd => hfd.resolve_left List.not_mem_nil⟩
  | cons fd fds ih =>
    refine .bind (.get ?_)
    cases hf : s.ofile i fd with
    | none =>
      refine (ih s h).mono ?_
      intro _ s₁ ⟨hs₁,h₁,hothers,hclosed⟩
      refine ⟨hs₁,h₁,hothers,fun fd' hfd' => hclosed fd' ?_⟩
      rcases hfd' with hfd' | hfd'
      · rcases List.mem_cons.mp hfd' with rfl | hfd'
        · exact .inr hf
        · exact .inl hfd'
      · exact .inr hfd'
    | some f =>
      refine .bind ((fileclose_meets h (handles_ne_zero hf)).mono ?_)
      intro _ s₁ ⟨h₁,hs₁⟩
      refine .bind (.update ((ih { s₁ with ofile := putFd s₁.ofile i fd none } ?_).mono ?_))
      · change Held (handles (putFd s₁.ofile i fd none)) rest total _
        rw [hs₁.ofile,handles_close hf,← hs₁.ofile]
        exact (hs₁.ofile ▸ h₁).of_ofile _
      · intro _ s₂ ⟨hs₂,h₂,hothers,hclosed⟩
        refine ⟨hs₁.toSameProcs.trans ⟨hs₂.proc,hs₂.kpgdir,hs₂.kstacks,hs₂.initproc⟩,h₂,fun k hk => ?_,
          fun fd' hfd' => hclosed fd' ?_⟩
        · rw [hothers k hk,← hs₁.ofile]
          exact putFd_of_ne hk _
        · rcases hfd' with hfd' | hfd'
          · rcases List.mem_cons.mp hfd' with rfl | hfd'
            · exact .inr ((putFd_self _ _).trans (if_pos rfl))
            · exact .inl hfd'
          · refine .inr ((putFd_self _ _).trans ?_)
            rw [hs₁.ofile,hfd',ite_self]

end Sys
end JacobiXv6.Kernel
