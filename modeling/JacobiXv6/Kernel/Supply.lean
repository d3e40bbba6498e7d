import JacobiXv6.Kernel.Files
import JacobiXv6.Kernel.VmShape

/-! When `pipe` and `fork` succeed: there are the descriptors, files, processes and pages that they
take. -/
namespace JacobiXv6.Kernel
open Library Function

section
variable {k : ℕ} {β : Type*} {p : β → Prop} [DecidablePred p] {g : Fin k → β} {x : Fin k} {b : β}

lemma card_filter_update (hx : p (g x)) (hb : ¬p b) :
    (Finset.univ.filter fun y => p (update g x b y)).card+1 =
      (Finset.univ.filter fun y => p (g y)).card := by
  have herase : (Finset.univ.filter fun y => p (update g x b y)) =
      (Finset.univ.filter fun y => p (g y)).erase x := by
    ext y
    obtain rfl | hy := eq_or_ne y x
    · simp [hb]
    · simp [hy]
  rw [herase]
  exact Finset.card_erase_add_one (by simp [hx])

lemma find_finRange (h : 0 < (Finset.univ.filter fun y => p (g y)).card) :
    ∃ x, (List.finRange k).find? (fun y => p (g y)) = some x ∧ p (g x) := by
  obtain ⟨y,hy⟩ := Finset.card_pos.mp h
  have hsome : ((List.finRange k).find? fun y => p (g y)).isSome := by
    rw [List.find?_isSome]
    exact ⟨y,List.mem_finRange y,by simpa using hy⟩
  obtain ⟨x,hx⟩ := Option.isSome_iff_exists.mp hsome
  exact ⟨x,hx,by simpa using List.find?_some hx⟩

end

namespace Sys
variable {n o m : ℕ} {E : String → Prop} {s : Sys n o m} {i : Fin n}

/-- The descriptors that process `i` has left. -/
def freeFds (s : Sys n o m) (i : Fin n) : ℕ := (Finset.univ.filter fun fd => (s.ofile i fd).isNone).card

def freeFiles (s : Sys n o m) : ℕ := (Finset.univ.filter fun f => (s.file f).ref = 0).card

lemma filealloc_some (h : 0 < s.freeFiles) : Meets E filealloc s fun r s' => r.isSome ∧
    s'.freeFiles+1 = s.freeFiles ∧ s'.ofile = s.ofile ∧ s'.free = s.free := by
  obtain ⟨f,hfind,hfree⟩ := find_finRange (p := fun x : File => x.ref = 0) (g := s.file) h
  refine .bind (.get ?_)
  rw [hfind]
  refine .bind (.update (.pure ⟨rfl,?_,rfl,rfl⟩))
  exact card_filter_update (p := fun x : File => x.ref = 0) hfree one_ne_zero

lemma fdalloc_some (f : Fin m) (h : 0 < s.freeFds i) : Meets E (fdalloc i f) s fun r s' => r.isSome ∧
    s'.freeFds i+1 = s.freeFds i := by
  obtain ⟨fd,hfind,hfree⟩ := find_finRange (p := fun x : Option (Fin m) => x.isNone) (g := s.ofile i) h
  have hupdate :=
    card_filter_update (p := fun x : Option (Fin m) => x.isNone)
    (b := some f) hfree Bool.false_ne_true
  refine .bind (.get ?_)
  simp only [Bool.decide_eq_true] at hfind
  rw [hfind]
  refine .bind (.update (.pure ⟨rfl,?_⟩))
  rw [freeFds]
  simp only [update_self]
  exact hupdate

/-- `pipe` needs two descriptors, two files and a page. -/
lemma sysPipe_some (hfd : 2 ≤ s.freeFds i) (hfile : 2 ≤ s.freeFiles) (hfree : s.free ≠ []) :
    Meets E (sysPipe i true) s fun ok s' => ok = true ∧ s'.freeFds i+2 = s.freeFds i := by
  have halloc : Meets E pipealloc s fun r s' => r.isSome ∧ s'.ofile = s.ofile := by
    refine .bind ((filealloc_some (by omega)).mono ?_)
    rintro r s₁ ⟨hr,hfile₁,hofile₁,hfree₁⟩
    obtain ⟨f0,rfl⟩ := Option.isSome_iff_exists.mp hr
    refine .bind ((filealloc_some (by omega)).mono ?_)
    rintro r s₂ ⟨hr,-,hofile₂,hfree₂⟩
    obtain ⟨f1,rfl⟩ := Option.isSome_iff_exists.mp hr
    refine .bind (onFree_meets (kalloc_meets (fun hnone => ?_) fun p free' _ => ?_))
    · rw [hfree₂,hfree₁] at hnone
      exact absurd hnone hfree
    · refine .bind (.get (.bind (.update (.bind (.update (.bind (.update ?_)))))))
      exact .pure ⟨rfl,hofile₂.trans hofile₁⟩
  unfold sysPipe
  rw [if_neg (by decide)]
  refine .bind (halloc.mono ?_)
  rintro r s₁ ⟨hr,hofile⟩
  obtain ⟨⟨rf,wf⟩,rfl⟩ := Option.isSome_iff_exists.mp hr
  have hfd₁ : s₁.freeFds i = s.freeFds i := by rw [freeFds,freeFds,hofile]
  refine .bind ((fdalloc_some rf (by omega)).mono ?_)
  rintro r s₂ ⟨hr,hfd₂⟩
  obtain ⟨fd0,rfl⟩ := Option.isSome_iff_exists.mp hr
  refine .bind ((fdalloc_some wf (by omega)).mono ?_)
  rintro r s₃ ⟨hr,hfd₃⟩
  obtain ⟨fd1,rfl⟩ := Option.isSome_iff_exists.mp hr
  exact .pure ⟨rfl,by omega⟩

/-- There is a process slot, and there are pages enough for the stack and the memory of a new
process. -/
def CanFork (s : Sys n o m) (i : Fin n) : Prop :=
  (∃ j, (s.proc j).state = .unused) ∧ 1027+2*pages (s.proc i).sz ≤ s.free.length

end Sys

/-- `copyuvm` takes at most two pages for one. -/
lemma copyLoop_some {pgdir : Pgdir} (n i : ℕ) (d : Pgdir) (free : List Frame)
    (hmany : 2*n ≤ free.length) :
    Meets (fun _ => True) (copyLoop pgdir n i d) free fun o _ => o ≠ none := by
  induction n generalizing i d free with
  | zero => exact .pure (Option.some_ne_none d)
  | succ n ih =>
    unfold copyLoop
    split
    · exact .throw trivial
    · exact .throw trivial
    refine .bind (kalloc_meets (fun hfree => ?_) fun r free₁ hfree => ?_)
    · rw [hfree,List.length_nil] at hmany
      omega
    rw [hfree,List.length_cons] at hmany
    refine .bind ((mappages_one i r d free₁ (by omega)).mono ?_)
    rintro ⟨ok,d'⟩ free₂ ⟨rfl,hlen⟩
    exact ih (i+1) d' free₂ (by omega)

lemma copyuvm_some {kmap : List Kmap} (hapart : Apart kmap) (pgdir : Pgdir) (sz : ℕ) (free : List Frame)
    (hmany : 1026+2*pages sz ≤ free.length) :
    Meets (fun _ => True) (copyuvm kmap pgdir sz) free fun o _ => o ≠ none := by
  refine .bind ((((setupkvm_some hapart (by omega)).also (setupkvm_entry hapart)).also
    (setupkvm_meets (fun _ _ => trivial) hapart.kernelMap)).mono ?_)
  rintro (_ | d) free₁ ⟨⟨hsome,hspace⟩,hmade⟩
  · exact absurd rfl hsome
  have hfew := card_owned_le fun v hv => (hspace d rfl).unmapped v (Nat.zero_le v) hv
  have hlen : free.length = free₁.length+d.owned.card := by
    rw [← card_stock,← Multiset.coe_card]
    exact congrArg Multiset.card hmade.symm
  exact copyLoop_some (pages sz) 0 d free₁ (by omega)

lemma Sys.fork_some {n o m : ℕ} {s : Sys n o m} {i : Fin n} {K : KernelMap} (hapart : Apart K.kmap)
    (h : s.CanFork i) : Meets (fun _ => True) (Sys.fork K i) s fun ok _ => ok = true := by
  obtain ⟨⟨j,hj⟩,hmany⟩ := h
  have hslot : 0 < (Finset.univ.filter fun j => (s.proc j).state = .unused).card :=
    Finset.card_pos.mpr ⟨j,by simp [hj]⟩
  obtain ⟨np,hfind,-⟩ := find_finRange (p := fun x : Process n => x.state = .unused) (g := s.proc) hslot
  refine .bind (.bind (.get ?_))
  rw [hfind]
  refine .bind (onFree_meets (kalloc_meets (fun hfree => ?_) fun r free₁ hfree => ?_))
  · rw [hfree,List.length_nil] at hmany
    omega
  rw [hfree,List.length_cons] at hmany
  refine .bind (.update (.pure (.bind (.get ?_))))
  dsimp only
  rw [update_self]
  have hsz : (update s.proc np { s.proc np with state := .embryo, kstack := some r } i).sz =
      (s.proc i).sz := by
    obtain rfl | hne := eq_or_ne i np
    · rw [update_self]
    · rw [update_of_ne hne]
  split
  · refine .bind (onFree_meets ((copyuvm_some hapart _ _ _ ?_).mono ?_))
    · rw [hsz]
      dsimp only
      omega
    rintro (_ | d) free₂ hsome
    · exact absurd rfl hsome
    · exact .bind (.update (.bind (.any fun _ _ => .bind (.get (.bind
        (.update (.pure rfl)))))))
  · exact .throw trivial

end JacobiXv6.Kernel
