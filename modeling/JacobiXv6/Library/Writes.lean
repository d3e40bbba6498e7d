import Mathlib.Tactic

/-! Lists of writes to an addressed store, and what becomes of them when they are made
again: a redo log is replayed by making its writes, as often as it takes. -/
namespace JacobiXv6.Library
open Function

variable {A V : Type*} [DecidableEq A]

/-- The store after a list of writes, made from left to right. -/
def writes (d : A → V) (ws : List (A×V)) : A → V :=
  ws.foldl (fun d w => update d w.1 w.2) d

@[simp] lemma writes_nil (d : A → V) : writes d [] = d := rfl

lemma writes_append (d : A → V) (ws us : List (A×V)) :
    writes d (ws++us) = writes (writes d ws) us := by
  simp [writes]

lemma writes_concat (d : A → V) (ws : List (A×V)) (w : A×V) :
    writes d (ws++[w]) = update (writes d ws) w.1 w.2 := by
  simp [writes]

lemma writes_cases (ws : List (A×V)) (a : A) :
    (∃ w ∈ ws, w.1 = a ∧ ∀ d, writes d ws a = w.2) ∨
      ((∀ w ∈ ws, w.1 ≠ a) ∧ ∀ d, writes d ws a = d a) := by
  induction ws using List.reverseRecOn with
  | nil => exact .inr ⟨by simp,fun _ => rfl⟩
  | append_singleton ws u ih =>
    obtain rfl | ha := eq_or_ne a u.1
    · exact .inl ⟨u,by simp,rfl,fun d => by simp [writes_concat]⟩
    · have hupdate : ∀ d : A → V, writes d (ws++[u]) a = writes d ws a := fun d => by
        rw [writes_concat,update_of_ne ha]
      rcases ih with ⟨w,hw,hwa,hval⟩ | ⟨hne,hval⟩
      · exact .inl ⟨w,by simp [hw],hwa,fun d => (hupdate d).trans (hval d)⟩
      · refine .inr ⟨fun w hw => ?_,fun d => (hupdate d).trans (hval d)⟩
        rcases List.mem_append.mp hw with h | h
        · exact hne w h
        · obtain rfl := List.mem_singleton.mp h
          exact ha.symm

variable {d : A → V} {ws : List (A×V)}

/-- What a cell holds after the writes is given by `f`, when every write writes what `f`
says and the cells that are not written already hold it. -/
lemma writes_eq_of_values {f : A → V} {a : A}
    (hw : ∀ w ∈ ws, w.2 = f w.1) (hd : (∀ w ∈ ws, w.1 ≠ a) → d a = f a) :
    writes d ws a = f a := by
  rcases writes_cases ws a with ⟨w,hmem,rfl,hval⟩ | ⟨hne,hval⟩
  · rw [hval,hw w hmem]
  · rw [hval,hd hne]

lemma writes_congr {e : A → V} {a : A}
    (h : (∀ w ∈ ws, w.1 ≠ a) → d a = e a) : writes d ws a = writes e ws a := by
  rcases writes_cases ws a with ⟨w,-,-,hval⟩ | ⟨hne,hval⟩
  · rw [hval,hval]
  · rw [hval,hval,h hne]

lemma writes_update_of_mem {w : A×V} (hw : w ∈ ws) :
    writes (update d w.1 w.2) ws = writes d ws := by
  ext a
  apply writes_congr
  intro h
  exact update_of_ne (h w hw).symm w.2 d

/-- A store in which the first `t` writes have been made, after write `t` as well. -/
lemma writes_take_succ {t : ℕ} (ht : t < ws.length)
    (h : writes d (ws.take t) = d) :
    writes (update d ws[t].1 ws[t].2) (ws.take (t+1)) =
      update d ws[t].1 ws[t].2 := by
  rw [List.take_add_one,List.getElem?_eq_getElem ht,Option.toList_some,writes_concat]
  ext a
  obtain rfl | ha := eq_or_ne a ws[t].1
  · simp
  · rw [update_of_ne ha,update_of_ne ha]
    calc writes (update d ws[t].1 ws[t].2) (ws.take t) a
        = writes d (ws.take t) a := writes_congr fun _ => update_of_ne ha _ _
      _ = d a := congrFun h a

end JacobiXv6.Library
