import Mathlib.Tactic

/-! Singly linked queues: a head, a link in every node, and a new node that is put behind the last
one through the cell in which the walk along the queue ended. -/
namespace JacobiXv6.Library
open Function

structure Fifo (α : Type*) where
  head : Option α
  next : α → Option α

namespace Fifo
variable {α : Type*} {q : Fifo α} {l : List α} {a b c : α} {pp x : Option α}

/-- Following the links from `x` gives the nodes of `l`. -/
def Leads (next : α → Option α) : Option α → List α → Prop
  | x, [] => x = none
  | x, a::l => x = some a ∧ Leads next (next a) l

/-- The queue consists of the nodes of `l`, in this order. -/
def Holds (q : Fifo α) (l : List α) : Prop := Leads q.next q.head l

/-- A cell with a link: that of the head, or that of a node. -/
def cell (q : Fifo α) : Option α → Option α
  | none => q.head
  | some c => q.next c

variable {next : α → Option α}

lemma leads_congr {next' : α → Option α} (h : Leads next x l) (heq : ∀ a ∈ l, next' a = next a) :
    Leads next' x l := by
  induction l generalizing x with
  | nil => exact h
  | cons a l ih =>
    refine ⟨h.1,?_⟩
    rw [heq a List.mem_cons_self]
    exact ih h.2 fun c hc => heq c (List.mem_cons_of_mem a hc)

lemma leads_mem (h : Leads next x l) (ha : a ∈ l) (hc : next a = some c) : c ∈ l := by
  induction l generalizing x with
  | nil => exact nomatch ha
  | cons b l ih =>
    refine List.mem_cons_of_mem b ?_
    obtain rfl | ha := List.mem_cons.mp ha
    · cases l with
      | nil => exact nomatch hc.symm.trans h.2
      | cons d l =>
        obtain rfl := Option.some.inj (hc.symm.trans h.2.1)
        exact List.mem_cons_self
    · exact ih h.2 ha

lemma head_eq_of_holds (h : q.Holds l) : q.head = l.head? := by
  cases l with
  | nil => exact h
  | cons a l => exact h.1

/-- The cell is one of those that a walk along the queue comes to. -/
def OnWay (l : List α) (pp : Option α) : Prop := ∀ c, pp = some c → c ∈ l

lemma OnWay.step (hpp : OnWay l pp) (h : q.Holds l) (hc : q.cell pp = some c) : OnWay l (some c) := by
  rintro d ⟨⟩
  cases pp with
  | none =>
    have hhead : l.head? = some c := (head_eq_of_holds h).symm.trans hc
    exact List.mem_of_head? hhead
  | some d => exact leads_mem h (hpp d rfl) hc

variable [DecidableEq α]

def link (q : Fifo α) (pp : Option α) (b : α) : Fifo α :=
  match pp with
  | none => { q with head := some b }
  | some c => { q with next := update q.next c (some b) }

lemma holds_clear (h : q.Holds l) (hb : b ∉ l) : Holds { q with next := update q.next b none } l := by
  refine leads_congr h fun a ha => update_of_ne ?_ _ _
  rintro rfl
  exact hb ha

lemma leads_link (h : Leads next x l) (hl : l.Nodup) (hb : b ∉ l) (hnext : next b = none)
    (hc : c ∈ l) (hend : next c = none) : Leads (update next c (some b)) x (l++[b]) := by
  induction l generalizing x with
  | nil => exact nomatch hc
  | cons a l ih =>
    obtain ⟨hal,hl⟩ := List.nodup_cons.mp hl
    have hbl : b ∉ l := fun hm => hb (List.mem_cons_of_mem a hm)
    refine ⟨h.1,?_⟩
    obtain rfl | hne := eq_or_ne a c
    · -- the last node is found, and nothing follows it
      have hnil : l = [] := by
        cases l with
        | nil => rfl
        | cons d l => exact nomatch hend.symm.trans h.2.1
      subst hnil
      rw [update_self]
      have hba : b ≠ a := by
        rintro rfl
        exact hb List.mem_cons_self
      refine ⟨rfl,?_⟩
      rw [update_of_ne hba]
      exact hnext
    · rw [update_of_ne hne]
      exact ih h.2 hl hbl ((List.mem_cons.mp hc).resolve_left hne.symm)

lemma holds_link (h : q.Holds l) (hl : l.Nodup) (hb : b ∉ l) (hnext : q.next b = none)
    (hpp : OnWay l pp)
    (hend : q.cell pp = none) : (q.link pp b).Holds (l++[b]) := by
  cases pp with
  | none =>
    have hnil : l = [] := by
      cases l with
      | nil => rfl
      | cons d l => exact nomatch hend.symm.trans h.1
    subst hnil
    exact ⟨rfl,hnext⟩
  | some c => exact leads_link h hl hb hnext (hpp c rfl) hend

end Fifo
end JacobiXv6.Library
