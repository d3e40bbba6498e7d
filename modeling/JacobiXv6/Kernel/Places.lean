import JacobiXv6.Kernel.Ownership

/-! From the first process on: where the pages are and who refers to the open files. -/
namespace JacobiXv6.Kernel
open Library Finset
namespace Sys

variable {n o m : ℕ}

/-! ### The first process -/

section
variable {E : String → Prop}

lemma freerange_meets (rs free : List Frame) : Meets E (freerange rs) free fun _ free' =>
    (free' : Multiset Frame) = ↑rs+↑free := by
  induction rs generalizing free with
  | nil => exact .pure (zero_add _).symm
  | cons r rs ih =>
    refine .bind (kfree_meets ((ih (r::free)).mono ?_))
    intro _ free' hfree'
    rw [hfree',coe_cons,coe_cons,add_right_comm,add_assoc]

variable (hE : ∀ message, E message)
include hE

lemma kvmalloc_meets (K : KernelMap) (free : List Frame) :
    Meets E (kvmalloc K) free fun kpgdir free' => stock free' kpgdir = ↑free := by
  refine .bind ((setupkvm_meets (fun message _ => hE message) K).mono ?_)
  rintro (_ | kpgdir) free' hmade
  · exact .throw (hE _)
  · exact .pure hmade

lemma startothers_meets (k : ℕ) (free : List Frame) :
    Meets E (startothers k) free fun kstacks free' => (free' : Multiset Frame)+↑kstacks = ↑free := by
  induction k generalizing free with
  | zero => exact .pure (add_zero _)
  | succ k ih =>
    refine .bind (kalloc_meets (fun _ => .throw (hE _)) fun stack free' hfree => ?_)
    refine .bind ((ih free').mono ?_)
    intro kstacks free₂ hfree₂
    refine .pure ?_
    rw [hfree,coe_cons,coe_cons,← hfree₂,add_assoc]

lemma inituvm_meets (pgdir : Pgdir) (free : List Frame) :
    Meets E (inituvm pgdir) free fun pgdir' free' => stock free' pgdir' = stock free pgdir := by
  refine .bind (kalloc_meets (fun _ => .throw (hE _)) fun mem free' hfree => ?_)
  refine .bind ((mappages_user (fun message _ => hE message) (by decide) mem).mono ?_)
  rintro ⟨ok,pgdir'⟩ free₁ hmap
  dsimp only at hmap ⊢
  split_ifs with hok
  · refine .pure ?_
    rw [hmap,hok,if_pos rfl,hfree,stock_cons]
  · exact .throw (hE _)

lemma userinit_meets (K : KernelMap) {s : Sys n o m} {total : Frame → ℕ} (h : Sound total s) :
    Meets E (userinit K) s fun _ s' => Sound total s' := by
  refine .bind ((allocproc_meets h).mono ?_)
  rintro (_ | p) s₁ ⟨h₁,-,hnew⟩
  · exact .throw (hE _)
  obtain ⟨-,hembryo,-⟩ := hnew p rfl
  obtain ⟨kstack,hkstack⟩ := h₁.stack p (by rw [hembryo]; nofun)
  refine .bind (onFree_meets ((setupkvm_meets (fun message _ => hE message) K).mono ?_))
  rintro (_ | pgdir) free hmade
  · exact .throw (hE _)
  have hmade : stock free pgdir = ↑s₁.free := hmade
  refine .bind (onFree_meets ((inituvm_meets hE pgdir free).mono ?_))
  intro pgdir' free' hstock
  have hpages :
    Process.pages { s₁.proc p with pgdir := some pgdir', sz := PGSIZE, state := .runnable } =
      {kstack}+pgdir'.owned := Process.pages_live (by nofun) (by nofun) hkstack rfl
  have hsz : PGSIZE < KERNBASE := by decide
  have h₂ : Sound total { s₁ with
      free := free'
      proc := Function.update s₁.proc p
        { s₁.proc p with pgdir := some pgdir', sz := PGSIZE, state := .runnable } } := h₁.setProc ?_
    (fun _ => ⟨kstack,hkstack⟩) (fun _ _ => ⟨⟨pgdir',rfl⟩,hsz⟩) (absurd rfl)
  · exact .update ⟨⟨h₂.held.ref,h₂.held.closed,h₂.held.sides,h₂.held.pages,h₂.held.history⟩,h₂.stack,
      h₂.space,h₂.shut⟩
  · rw [hpages,Process.pages_embryo hembryo hkstack,add_left_comm,← stock,hstock,hmade,add_comm]

end

lemma blank_sound [NeZero n] {kpgdir : Pgdir} {kstacks free : List Frame} {total : Frame → ℕ}
    (hpages : ∀ p, (↑free+kpgdir.owned+↑kstacks : Multiset Frame).count p = total p) :
    Sound total (blank kpgdir kstacks free : Sys n o m) := by
  have hhandles : handles (blank kpgdir kstacks free : Sys n o m).ofile = fun _ => 0 := by
    ext f
    refine card_eq_zero.mpr (filter_eq_empty_iff.mpr fun x _ => ?_)
    simp [blank]
  have helsewhere : elsewhere (blank kpgdir kstacks free : Sys n o m) = kpgdir.owned+↑kstacks := by
    have hsum : ∑ i, ((blank kpgdir kstacks free : Sys n o m).proc i).pages = 0 :=
      sum_eq_zero fun i _ => Process.pages_unused rfl
    rw [elsewhere,hsum,zero_add]
    rfl
  refine ⟨⟨?_,fun _ _ => rfl,
    ⟨by simp [blank,File.side],by simp [blank,File.side],by simp [blank],by simp [blank]⟩,
    fun p => ?_,fun _ => rfl⟩,?_,?_,fun _ _ _ => rfl⟩
  · intro f
    rw [hhandles]
    rfl
  · have hzero : pipePage (fun _ => none) p = 0 := rfl
    have hp := hpages p
    rw [add_assoc,Multiset.count_add,Multiset.coe_count] at hp
    rw [helsewhere,← hp]
    change free.count p+pipePage (fun _ => none) p+_ = _
    rw [hzero,add_zero]
  · exact fun i hi => absurd rfl hi
  · exact fun i hi => absurd rfl hi

lemma bootMemory_meets (K : KernelMap) (low high : List Frame) (others : ℕ) :
    Meets (fun _ => True) (bootMemory K low high others) [] fun x free =>
      (↑free+x.1.owned+↑x.2 : Multiset Frame) = ↑low+↑high := by
  have hE : ∀ message : String, (fun _ => True) message := fun _ => trivial
  refine .bind ((freerange_meets low []).mono fun _ free₁ h₁ => ?_)
  refine .bind ((kvmalloc_meets hE K free₁).mono fun kpgdir free₂ h₂ => ?_)
  refine .bind ((startothers_meets hE others free₂).mono fun kstacks free₃ h₃ => ?_)
  refine .bind ((freerange_meets high free₃).mono fun _ free₄ h₄ => ?_)
  refine .pure ?_
  calc (↑free₄+kpgdir.owned+↑kstacks : Multiset Frame)
      = ↑high+(↑free₃+↑kstacks+kpgdir.owned) := by rw [h₄]; abel
    _ = ↑high+stock free₂ kpgdir := by rw [h₃,stock]
    _ = ↑low+↑high := by rw [h₂,h₁,Multiset.coe_nil,add_zero,add_comm]

lemma boot_sound [NeZero n] {K : KernelMap} {low high : List Frame} {others : ℕ} {s : Sys n o m}
    (h : boot K low high others = .ok s) : Sound ((low++high).count ·) s := by
  unfold boot at h
  split at h
  · exact nomatch h
  rename_i kpgdir kstacks free hmemory
  split at h
  · exact nomatch h
  rename_i s' hs'
  cases h
  have hpages := (bootMemory_meets K low high others).returns _ _ hmemory
  refine (userinit_meets (fun _ => trivial) K (blank_sound fun p => ?_)).returns _ _ hs'
  rw [hpages,Multiset.coe_add,Multiset.coe_count]

/-! ### Every call after that -/

section
variable {K : KernelMap} {low high : List Frame} {others : ℕ} {s₀ s : Sys n o m}
  {calls : List (Fin n×Syscall)}

def callPanics : List String := "init exiting"::vmPanics

variable {total : Frame → ℕ} {i : Fin n}

lemma Sound.syscall (hle : ∀ p, total p ≤ 1) (h : Sound total s)
    (hi : (s.proc i).state = .runnable) (call : Syscall) :
    Meets (· ∈ callPanics) (syscall K i call) s fun _ s' => Sound total s' :=
  syscall_meets (fun _ => List.mem_cons_of_mem _) K List.mem_cons_self hle h hi call

lemma count_le_one (hpages : (low++high).Nodup) (p : Frame) : (low++high).count p ≤ 1 :=
  List.nodup_iff_count_le_one.mp hpages p

lemma reached [NeZero n] (hpages : (low++high).Nodup) (hboot : boot K low high others = .ok s₀)
    (h : Run (Step K) s₀ calls s) : Sound ((low++high).count ·) s := by
  refine h.invariant (fun _ s => Sound ((low++high).count ·) s) ?_ (boot_sound hboot)
  intro _ s a s' hs ⟨hi,r,hr⟩
  exact (hs.syscall (count_le_one hpages) hi a.2).returns r s' hr

def next (K : KernelMap) (a : Fin n×Syscall) (s : Sys n o m) : Option (Sys n o m) :=
  if (s.proc a.1).state = .runnable then
    match syscall K a.1 a.2 s with
    | .ok (_,s') => some s'
    | .error _ => none
  else none

lemma run_of_exec (h : Library.exec (next K) calls s₀ = some s) : Run (Step K) s₀ calls s := by
  refine (Run.of_exec h).mono fun s a s' hs => ?_
  obtain ⟨hi,hcall⟩ := Option.ite_none_right_eq_some.mp hs
  refine ⟨hi,?_⟩
  split at hcall
  · rename_i r t hr
    cases hcall
    exact ⟨r,hr⟩
  · exact nomatch hcall

/-- How often a page is somewhere: free, a pipe, or a part of a process or of the kernel. -/
def places (s : Sys n o m) (p : Frame) : ℕ := s.free.count p+pipePage s.pipe p+s.elsewhere.count p

lemma Sound.places_eq (hpages : (low++high).Nodup) (h : Sound ((low++high).count ·) s) (p : Frame) :
    places s p = if p ∈ low++high then 1 else 0 := by
  rw [places,h.held.pages p,hpages.count]

lemma add_le_places {j : Fin n} (hij : i ≠ j) (p : Frame) :
    (s.proc i).pages.count p+(s.proc j).pages.count p ≤ places s p := by
  have hsum : (s.proc i).pages.count p+(s.proc j).pages.count p ≤
      (∑ k, (s.proc k).pages).count p := by
    rw [Multiset.count_sum',← sum_pair (f := fun k => (s.proc k).pages.count p) hij]
    exact sum_le_sum_of_subset (subset_univ _)
  rw [places,elsewhere,Multiset.count_add,Multiset.count_add]
  omega

lemma Sound.mem_pages (h : Sound total s) {pgdir : Pgdir} {v : ℕ} {e : Pte}
    (hu : (s.proc i).state ≠ .unused) (he : (s.proc i).state ≠ .embryo)
    (hpgdir : (s.proc i).pgdir = some pgdir) (hv : v < 512*1024)
    (hfind : pgdir.find v = some (some e)) :
    1 ≤ (s.proc i).pages.count e.ppn := by
  obtain ⟨r,hr⟩ := h.stack i hu
  rw [Process.pages_live hu he hr hpgdir,Multiset.count_add]
  exact le_add_left (Pgdir.one_le_count_owned hv hfind)

/-- With any amount of memory, every page that was handed to the allocator is in one place and no
other page is in any, the free list has no page twice, and no page is mapped for two processes. -/
theorem page_in_one_place [NeZero n] (K : KernelMap) (low high : List Frame)
    (hpages : (low++high).Nodup)
    (others : ℕ) (s₀ s : Sys n o m) (hboot : boot K low high others = .ok s₀)
    (calls : List (Fin n×Syscall)) (h : Run (Step K) s₀ calls s) :
    (∀ p, places s p = if p ∈ low++high then 1 else 0) ∧
    s.free.Nodup ∧
    ∀ i j, i ≠ j → (s.proc i).state ≠ .unused → (s.proc j).state ≠ .unused →
      (s.proc i).state ≠ .embryo → (s.proc j).state ≠ .embryo → ∀ d d', (s.proc i).pgdir = some d →
      (s.proc j).pgdir = some d' → ∀ v v' e e', v < 512*1024 → v' < 512*1024 →
      d.find v = some (some e) → d'.find v' = some (some e') → e.ppn ≠ e'.ppn := by
  have hs := reached hpages hboot h
  have hplaces := hs.places_eq hpages
  have hle : ∀ p, places s p ≤ 1 := by
    intro p
    rw [hplaces]
    split_ifs
    exacts [le_rfl,Nat.zero_le 1]
  refine ⟨hplaces,List.nodup_iff_count_le_one.mpr fun p => ?_,?_⟩
  · have hp := hle p
    unfold places at hp
    omega
  · intro i j hij hu hu' he he' d d' hd hd' v v' e e' hv hv' hfind hfind' heq
    have hi := hs.mem_pages hu he hd hv hfind
    have hj := hs.mem_pages hu' he' hd' hv' hfind'
    have htwo := add_le_places (s := s) hij e.ppn
    have hone := hle e.ppn
    rw [← heq] at hj
    omega

def noKernelMap : KernelMap := ⟨[],nofun⟩

/-- Sixteen pages, of which two processes, the kernel and another processor have eleven when the
first process has forked and grown. -/
theorem page_in_one_place_forkSbrk : ∃ s₀ s : Sys 2 2 3,
    boot noKernelMap [1,2,3,4,5,6] [7,8,9,10,11,12,13,14,15,16] 1 = .ok s₀ ∧
    Run (Step noKernelMap) s₀ [(0,.fork),(0,.sbrk 4096)] s ∧ s.free.length = 5 ∧ places s 9 = 1 := by
  have he : (match (boot noKernelMap [1,2,3,4,5,6] [7,8,9,10,11,12,13,14,15,16] 1 :
        Except String (Sys 2 2 3)) with
      | .ok s₀ => (Library.exec (next noKernelMap) [(0,.fork),(0,.sbrk 4096)] s₀).map
        fun s => decide (s.free.length = 5)
      | .error _ => none) = some true := by decide +kernel
  split at he
  · rename_i s₀ hboot
    obtain ⟨s,hs,hd⟩ := Option.map_eq_some_iff.mp he
    have hrun := run_of_exec hs
    refine ⟨s₀,s,hboot,hrun,of_decide_eq_true hd,?_⟩
    rw [(page_in_one_place noKernelMap _ _ (by decide) 1 s₀ s hboot _ hrun).1 9]
    rfl
  · exact nomatch he

/-! ### Open files -/

lemma Called.count_free {rest : Multiset Frame} {s' : Sys n o m}
    (h : Held (handles s.ofile) rest total s) (h' : Called i rest total s false s') :
    (∀ f, (s'.file f).ref = (s.file f).ref) ∧ ∀ p, s'.free.count p = s.free.count p := by
  have haside := h'.undone rfl
  have hheld := h'.held
  rw [haside.ofile] at hheld
  have hside : (fun f => (s'.file f).side) = fun f => (s.file f).side := by
    ext1 f
    by_cases hf : handles s.ofile f = 0
    · rw [File.side,File.side,h.closed f hf,hheld.closed f hf]
    · rw [haside.file f hf]
  refine ⟨fun f => by rw [hheld.ref,h.ref],fun p => ?_⟩
  have hpipe : (s'.pipe p).isSome = true ↔ (s.pipe p).isSome = true := by
    rw [hheld.sides.isSome_iff,h.sides.isSome_iff]
    simp only [funext_iff] at hside
    simp only [hside]
  have hpage : pipePage s'.pipe p = pipePage s.pipe p := by
    simp only [pipePage,hpipe]
  have hp := h.pages p
  have hp' := hheld.pages p
  omega

lemma File.side_eq_some {x : File} {p : Frame} {w : Bool} :
    x.side = some (p,w) ↔ x.type = .pipe p ∧ x.writable = w := by
  unfold File.side
  cases x.type with
  | pipe q => simp
  | _ => simp

lemma Sound.side_iff (h : Sound total s) {p : Frame} {w : Bool} (f : Fin m) :
    (s.file f).side = some (p,w) ↔
      0 < (s.file f).ref ∧ (s.file f).type = .pipe p ∧ (s.file f).writable = w := by
  rw [File.side_eq_some]
  refine ⟨fun hf => ⟨?_,hf⟩,.right⟩
  by_contra hzero
  have htype := h.held.closed f (by rw [← h.held.ref]; omega)
  rw [htype] at hf
  exact nomatch hf.1

/-- A call that fails without a panic of `vm.c`. -/
lemma callPanics_ne {message : String} (h : message ∈ callPanics) :
    message ≠ "filedup" ∧ message ≠ "fileclose" := by
  constructor
  · rintro rfl
    exact absurd h (by decide)
  · rintro rfl
    exact absurd h (by decide)

/-- The count of every file is the number of descriptors that refer to it, and a pipe is there
exactly while it has an end, with the flags of its ends; every page that became a pipe is freed once
unless it is still one. `filedup` and `fileclose` do not panic, and when `pipe` or `dup` fails, the
descriptors, the counts and the free pages are as before. -/
theorem files_counted [NeZero n] (K : KernelMap) (low high : List Frame) (hpages : (low++high).Nodup)
    (others : ℕ) (s₀ s : Sys n o m) (hboot : boot K low high others = .ok s₀)
    (calls : List (Fin n×Syscall)) (h : Run (Step K) s₀ calls s) :
    (∀ f, (s.file f).ref =
      (Finset.univ.filter fun x : Fin n×Fin o => s.ofile x.1 x.2 = some f).card) ∧
    (∀ p e, s.pipe p = some e →
      (e.readopen = true ↔
        ∃ f, 0 < (s.file f).ref ∧ (s.file f).type = .pipe p ∧ (s.file f).writable = false) ∧
      (e.writeopen = true ↔
        ∃ f, 0 < (s.file f).ref ∧ (s.file f).type = .pipe p ∧ (s.file f).writable = true)) ∧
    (∀ p, (s.pipe p).isSome = true ↔ ∃ f, 0 < (s.file f).ref ∧ (s.file f).type = .pipe p) ∧
    (∀ p, s.made.count p = s.freed.count p+if (s.pipe p).isSome then 1 else 0) ∧
    (∀ p, (s.pipe p).isSome = true → p ∉ s.free) ∧
    (∀ i call message, (s.proc i).state = .runnable → syscall K i call s = .error message →
      message ≠ "filedup" ∧ message ≠ "fileclose") ∧
    ∀ i call s', (s.proc i).state = .runnable → (∃ ok, call = .pipe ok) ∨ (∃ fd, call = .dup fd) →
      syscall K i call s = .ok (false,s') →
      s'.ofile = s.ofile ∧ (∀ f, (s'.file f).ref = (s.file f).ref) ∧
      ∀ p, s'.free.count p = s.free.count p := by
  have hs := reached hpages hboot h
  have hle := count_le_one hpages
  refine ⟨hs.held.ref,fun p e he => ⟨?_,?_⟩,fun p => ?_,hs.held.history,fun p hp hfree => ?_,?_,?_⟩
  · have hopen := hs.held.sides.isOpen p e he false
    simp only [hs.side_iff] at hopen
    exact hopen
  · have hopen := hs.held.sides.isOpen p e he true
    simp only [hs.side_iff] at hopen
    exact hopen
  · rw [hs.held.sides.isSome_iff]
    simp only [hs.side_iff]
    constructor
    · rintro ⟨f,w,href,htype,-⟩
      exact ⟨f,href,htype⟩
    · rintro ⟨f,href,htype⟩
      exact ⟨f,_,href,htype,rfl⟩
  · have hplaces := hs.held.pages p
    have hone := hle p
    have hcount := List.one_le_count_iff.mpr hfree
    rw [pipePage,if_pos hp] at hplaces
    omega
  · intro i call message hi hmessage
    exact callPanics_ne ((hs.syscall hle hi call).panics message hmessage)
  · intro i call s' hi hcall hs'
    have hcalled : Called i s.elsewhere ((low++high).count ·) s false s' := by
      rcases hcall with ⟨ok,rfl⟩ | ⟨fd,rfl⟩
      · exact (sysPipe_meets (E := fun _ => True) hs.held hle ok).returns false s' hs'
      · exact (sysDup_meets (E := fun _ => True) hs.held fd).returns false s' hs'
    exact ⟨(hcalled.undone rfl).ofile,hcalled.count_free hs.held⟩

/-- A pipe is made and both its ends are closed. -/
theorem files_counted_pipeCloseClose : ∃ s₀ s : Sys 2 2 3,
    boot noKernelMap [1,2,3,4,5,6] [7,8] 0 = .ok s₀ ∧
    Run (Step noKernelMap) s₀ [(0,.pipe true),(0,.close 0),(0,.close 1)] s ∧ s.made = [3] ∧
    s.freed.count 3 = 1 := by
  have he : (match (boot noKernelMap [1,2,3,4,5,6] [7,8] 0 : Except String (Sys 2 2 3)) with
      | .ok s₀ => (Library.exec (next noKernelMap) [(0,.pipe true),(0,.close 0),(0,.close 1)] s₀).map
        fun s => decide (s.made = [3] ∧ (s.pipe 3).isSome = false)
      | .error _ => none) = some true := by decide +kernel
  split at he
  · rename_i s₀ hboot
    obtain ⟨s,hs,hd⟩ := Option.map_eq_some_iff.mp he
    obtain ⟨hmade,hpipe⟩ := of_decide_eq_true hd
    have hrun := run_of_exec hs
    obtain ⟨-,-,-,hfreed,-⟩ := files_counted noKernelMap _ _ (by decide) 0 s₀ s hboot _ hrun
    have hcount := hfreed 3
    rw [hmade,hpipe] at hcount
    exact ⟨s₀,s,hboot,hrun,hmade,hcount.symm⟩
  · exact nomatch he

/-- What is open is open in a process that has not exited: every file in use, and every end of a
pipe. -/
theorem open_in_living [NeZero n] (K : KernelMap) (low high : List Frame) (hpages : (low++high).Nodup)
    (others : ℕ) (s₀ s : Sys n o m) (hboot : boot K low high others = .ok s₀)
    (calls : List (Fin n×Syscall)) (h : Run (Step K) s₀ calls s) :
    (∀ f, 0 < (s.file f).ref → ∃ i fd, (s.proc i).state = .runnable ∧ s.ofile i fd = some f) ∧
    ∀ p e, s.pipe p = some e → ∀ w, e.isOpen w = true → ∃ i fd f, (s.proc i).state = .runnable ∧
      s.ofile i fd = some f ∧ (s.file f).type = .pipe p ∧ (s.file f).writable = w := by
  have hs := reached hpages hboot h
  have hopen : ∀ f, 0 < (s.file f).ref → ∃ i fd, (s.proc i).state = .runnable ∧
      s.ofile i fd = some f := by
    intro f hf
    rw [hs.held.ref] at hf
    obtain ⟨x,hx⟩ := card_pos.mp hf
    have hx := (mem_filter.mp hx).2
    refine ⟨x.1,x.2,?_,hx⟩
    by_contra hstate
    exact nomatch (hs.shut x.1 hstate x.2).symm.trans hx
  refine ⟨hopen,fun p e he w hw => ?_⟩
  obtain ⟨f,hf⟩ := (hs.held.sides.isOpen p e he w).mp hw
  obtain ⟨href,htype,hwrite⟩ := (hs.side_iff f).mp hf
  obtain ⟨i,fd,hi,hfd⟩ := hopen f href
  exact ⟨i,fd,f,hi,hfd,htype,hwrite⟩

theorem open_in_living_pipe : ∃ s₀ s : Sys 2 2 3, boot noKernelMap [1,2,3,4,5,6] [7,8] 0 = .ok s₀ ∧
    Run (Step noKernelMap) s₀ [(0,.pipe true)] s ∧ 0 < (s.file 0).ref ∧
      ∃ i fd, s.ofile i fd = some 0 := by
  have he : (match (boot noKernelMap [1,2,3,4,5,6] [7,8] 0 : Except String (Sys 2 2 3)) with
      | .ok s₀ => (Library.exec (next noKernelMap) [(0,.pipe true)] s₀).any fun s => 0 < (s.file 0).ref
      | .error _ => false) = true := by decide +kernel
  split at he
  · rename_i s₀ hboot
    obtain ⟨s,hs,href⟩ := (Option.any_eq_true _ _).mp he
    have href := of_decide_eq_true href
    have hrun := run_of_exec hs
    obtain ⟨i,fd,-,hfd⟩ := (open_in_living noKernelMap _ _ (by decide) 0 s₀ s hboot _ hrun).1 0 href
    exact ⟨s₀,s,hboot,hrun,href,i,fd,hfd⟩
  · exact nomatch he

end
end Sys
end JacobiXv6.Kernel
