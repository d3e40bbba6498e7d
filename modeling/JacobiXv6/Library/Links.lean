import Mathlib.Tactic

/-! Doubly linked lists that close at a head: the nodes are linked in a cycle, in both
directions. A node can be taken out and put behind the head, and a search follows the links
until it comes back to the head. -/
namespace JacobiXv6.Library
open Function List

/-- The pointers of the nodes; the head is `none`. -/
structure Links (α : Type*) where
  next : Option α → Option α
  prev : Option α → Option α

namespace Links
variable {α : Type*} {k k' : Links α} {a b c : Option α} {i : α} {l : List α} {m m' : List (Option α)}

def Joined (k : Links α) (a b : Option α) : Prop := k.next a = b ∧ k.prev b = a

def around (l : List α) : List (Option α) := none::(l.map some++[none])

/-- The links form one cycle, through the head and the nodes of `l` in this order. -/
structure Cycle (k : Links α) (l : List α) : Prop where
  nodup : l.Nodup
  joined : (around l).IsChain k.Joined

lemma joined_congr (h : m.IsChain k.Joined) (hnext : ∀ a ∈ m.dropLast, k'.next a = k.next a)
    (hprev : ∀ b ∈ m.tail, k'.prev b = k.prev b) : m.IsChain k'.Joined := by
  induction m with
  | nil => exact .nil
  | cons a m ih =>
    cases m with
    | nil => exact .singleton a
    | cons b m =>
      obtain ⟨hab,hm⟩ := isChain_cons_cons.mp h
      refine isChain_cons_cons.mpr ⟨⟨?_,?_⟩,ih hm ?_ ?_⟩
      · rw [hnext a (by simp),hab.1]
      · rw [hprev b (by simp),hab.2]
      · intro x hx
        exact hnext x (by simp [hx])
      · intro x hx
        exact hprev x (mem_cons_of_mem b hx)

lemma sources_nodup (h : l.Nodup) : (none::l.map some).Nodup := by
  refine nodup_cons.mpr ⟨by simp,h.map (Option.some_injective α)⟩

lemma targets_nodup (h : l.Nodup) : (l.map some++[none]).Nodup :=
  nodup_append_comm.mp (sources_nodup h)

def empty : Links α where
  next := fun _ => none
  prev := fun _ => none

lemma cycle_empty : Cycle (empty : Links α) [] where
  nodup := .nil
  joined := by
    change List.IsChain _ [none,none]
    exact isChain_pair.mpr ⟨rfl,rfl⟩

/-! ### Searching -/

/-- Follow the pointers from a node until one passes the test or the head is reached. -/
def scan (follow : Option α → Option α) (test : α → Bool) : ℕ → Option α → Option α
  | 0, _ | _+1, none => none
  | fuel+1, some i => if test i then some i else scan follow test fuel (follow (some i))

lemma scan_eq_find {follow : Option α → Option α} (test : α → Bool) (l : List α) (a : Option α)
    (h : (a::(l.map some++[none])).IsChain fun a b => follow a = b) :
    scan follow test (l.length+1) (follow a) = l.find? test := by
  induction l generalizing a with
  | nil =>
    obtain ⟨hnone,-⟩ := isChain_cons_cons.mp h
    rw [hnone]
    rfl
  | cons i l ih =>
    obtain ⟨hi,hl⟩ := isChain_cons_cons.mp h
    rw [hi,length_cons,scan,ih _ hl,find?_cons]
    cases test i <;> rfl

lemma Cycle.scan_next (h : k.Cycle l) (test : α → Bool) :
    scan k.next test (l.length+1) (k.next none) = l.find? test :=
  scan_eq_find test l none (h.joined.imp fun _ _ hab => hab.1)

lemma Cycle.scan_prev (h : k.Cycle l) (test : α → Bool) :
    scan k.prev test (l.length+1) (k.prev none) = l.reverse.find? test := by
  have hrev : (around l).reverse = none::(l.reverse.map some++[none]) := by simp [around]
  have hchain : (none::(l.reverse.map some++[none])).IsChain fun a b => k.prev a = b := by
    rw [← hrev,isChain_reverse]
    exact h.joined.imp fun _ _ hab => hab.2
  rw [← l.length_reverse]
  exact scan_eq_find test l.reverse none hchain

/-! ### Moving a node -/

variable [DecidableEq α]

def unlink (k : Links α) (i : α) : Links α where
  prev := update k.prev (k.next (some i)) (k.prev (some i))
  next := update k.next (k.prev (some i)) (k.next (some i))

def push (k : Links α) (i : α) : Links α where
  next := update (update k.next (some i) (k.next none)) none (some i)
  prev := update (update k.prev (some i) none) (k.next none) (some i)

lemma Cycle.push (h : k.Cycle l) (hi : i ∉ l) : (k.push i).Cycle (i::l) := by
  obtain ⟨c,m,hm⟩ : ∃ c m, l.map some++[none] = c::m :=
    exists_cons_of_ne_nil (append_ne_nil_of_right_ne_nil _ (cons_ne_nil _ _))
  have hjoined := h.joined
  have hnd := targets_nodup h.nodup
  rw [around,hm,isChain_cons_cons] at hjoined
  rw [hm,nodup_cons] at hnd
  have hmem : ∀ x ∈ c::m, x ≠ some i := by
    rintro x hx rfl
    rw [← hm] at hx
    simp [hi] at hx
  refine ⟨nodup_cons.mpr ⟨hi,h.nodup⟩,?_⟩
  rw [around,map_cons,cons_append,hm]
  refine .cons_cons ⟨?_,?_⟩ (.cons_cons ⟨?_,?_⟩ ?_)
  · simp only [Links.push,update_self]
  · simp only [Links.push]
    rw [hjoined.1.1,update_of_ne (hmem c mem_cons_self).symm,update_self]
  · simp only [Links.push]
    rw [update_of_ne (Option.some_ne_none i),update_self,hjoined.1.1]
  · simp only [Links.push]
    rw [hjoined.1.1,update_self]
  · refine joined_congr hjoined.2 ?_ ?_
    · intro x hx
      have hsome : x ∈ l.map some := by
        have hlast : (l.map some++[none]).dropLast = l.map some := dropLast_concat
        rw [← hlast,hm]
        exact hx
      have hx' : x ≠ none := by
        rintro rfl
        simp at hsome
      simp only [Links.push]
      rw [update_of_ne hx',update_of_ne (hmem x (mem_of_mem_dropLast hx))]
    · intro x hx
      have hxc : x ≠ c := by
        rintro rfl
        exact hnd.1 hx
      simp only [Links.push]
      rw [hjoined.1.1,update_of_ne hxc,
        update_of_ne (hmem x (mem_cons_of_mem c hx))]

lemma Cycle.unlink {l₁ l₂ : List α} (h : k.Cycle (l₁++i::l₂)) : (k.unlink i).Cycle (l₁++l₂) := by
  -- the neighbours of the node
  obtain ⟨m,a,hm⟩ : ∃ m a, none::l₁.map some = m++[a] :=
    ⟨_,_,(dropLast_append_getLast (cons_ne_nil _ _)).symm⟩
  obtain ⟨c,m',hm'⟩ : ∃ c m', l₂.map some++[none] = c::m' :=
    exists_cons_of_ne_nil (append_ne_nil_of_right_ne_nil _ (cons_ne_nil _ _))
  have haround : around (l₁++i::l₂) = m++a::some i::c::m' := by
    calc around (l₁++i::l₂) = none::l₁.map some++some i::(l₂.map some++[none]) := by simp [around]
      _ = m++a::some i::c::m' := by rw [hm,hm',append_assoc,singleton_append]
  have haround' : around (l₁++l₂) = m++a::c::m' := by
    calc around (l₁++l₂) = none::l₁.map some++(l₂.map some++[none]) := by simp [around]
      _ = m++a::c::m' := by rw [hm,hm',append_assoc,singleton_append]
  have hnd : (l₁++l₂).Nodup := h.nodup.sublist (by simp)
  have hdisjoint := nodup_append.mp hnd
  have ha : a ∈ none::l₁.map some := by simp [hm]
  have hc : c ∈ l₂.map some++[none] := by simp [hm']
  have hleft := sources_nodup hdisjoint.1
  have hright := targets_nodup hdisjoint.2.1
  rw [hm,nodup_append] at hleft
  rw [hm',nodup_cons] at hright
  have hjoined := h.joined
  rw [haround,isChain_append_cons_cons,isChain_cons_cons] at hjoined
  obtain ⟨hm1,⟨hai,hia⟩,⟨hic,hci⟩,hm2⟩ := hjoined
  refine ⟨hnd,?_⟩
  rw [haround',isChain_append_cons_cons]
  simp only [Links.unlink,hia,hic]
  refine ⟨joined_congr hm1 ?_ ?_,⟨?_,?_⟩,joined_congr hm2 ?_ ?_⟩
  · intro x hx
    rw [dropLast_concat] at hx
    exact update_of_ne (hleft.2.2 x hx a (by simp)) _ _
  · intro x hx
    have hx' : x ∈ l₁.map some := by
      rw [← hm] at hx
      exact hx
    refine update_of_ne ?_ _ _
    rintro rfl
    obtain ⟨j,hj,rfl⟩ := mem_map.mp hx'
    simp only [mem_append,mem_map,Option.some.injEq,exists_eq_right,
      mem_singleton,reduceCtorEq,or_false] at hc
    exact hdisjoint.2.2 j hj j hc rfl
  · exact update_self ..
  · exact update_self ..
  · intro x hx
    rw [← hm',dropLast_concat] at hx
    refine update_of_ne ?_ _ _
    rintro rfl
    obtain ⟨j,hj,rfl⟩ := mem_map.mp hx
    simp only [mem_cons,reduceCtorEq,mem_map,Option.some.injEq,exists_eq_right,
      false_or] at ha
    exact hdisjoint.2.2 j ha j hj rfl
  · intro x hx
    refine update_of_ne ?_ _ _
    rintro rfl
    exact hright.1 hx

lemma Cycle.pushAll (h : k.Cycle l) (xs : List α) (hxs : (xs.reverse++l).Nodup) :
    (xs.foldl Links.push k).Cycle (xs.reverse++l) := by
  induction xs generalizing k l with
  | nil => exact h
  | cons x xs ih =>
    rw [reverse_cons,append_assoc] at hxs ⊢
    have hx : x ∉ l := (nodup_cons.mp (nodup_append.mp hxs).2.1).1
    exact ih (h.push hx) hxs

def toFront (k : Links α) (i : α) : Links α := (k.unlink i).push i

lemma Cycle.toFront (h : k.Cycle l) (hi : i ∈ l) : (k.toFront i).Cycle (i::l.erase i) := by
  obtain ⟨l₁,l₂,rfl⟩ := append_of_mem hi
  obtain ⟨hn1,hn2,hdis⟩ := nodup_append.mp h.nodup
  have hi1 : i ∉ l₁ := fun hmem => hdis i hmem i mem_cons_self rfl
  have hi2 := (nodup_cons.mp hn2).1
  rw [erase_append_right _ hi1,erase_cons_head]
  refine h.unlink.push ?_
  rw [mem_append]
  exact not_or.mpr ⟨hi1,hi2⟩

end Links
end JacobiXv6.Library
