import Mathlib.Tactic

/-! FIFO channels whose traffic is a fixed stream of messages. In a network of
deterministic processes the `k`-th message on a channel does not depend on the
schedule; only how many have been written and read does. A channel then always
holds the window of its stream between the two counts. -/
namespace JacobiXv6.Library
open Function

variable {α κ : Type*}

/-- The messages number `r` up to `w-1` of a stream, oldest first. -/
def window (f : ℕ → α) (r w : ℕ) : List α := (List.range' r (w-r)).map f

@[simp] theorem window_self (f : ℕ → α) (r : ℕ) : window f r r = [] := by simp [window]

theorem window_push (f : ℕ → α) {r w : ℕ} (h : r ≤ w) :
    window f r (w+1) = window f r w++[f w] := by
  have hs : w+1-r = (w-r)+1 := by omega
  have he : r+(w-r) = w := by omega
  simp [window,hs,List.range'_concat,he]

theorem window_pop {f : ℕ → α} {r w : ℕ} {m : α} {rest : List α}
    (h : window f r w = m::rest) : r < w ∧ m = f r ∧ rest = window f (r+1) w := by
  have hlt : r < w := by
    by_contra hge
    have hz : w-r = 0 := by omega
    simp [window,hz] at h
  have hs : w-r = (w-(r+1))+1 := by omega
  rw [window,hs,List.range'_succ,List.map_cons] at h
  obtain ⟨hm,hr⟩ := List.cons.inj h
  exact ⟨hlt,hm.symm,hr.symm⟩

/-- Every channel holds the window of its stream between its two counts. -/
def Tracks (stream : κ → ℕ → α) (r w : κ → ℕ) (chan : κ → List α) : Prop :=
  ∀ c, r c ≤ w c ∧ chan c = window (stream c) (r c) (w c)

namespace Tracks
variable {stream : κ → ℕ → α} {r w r' w' : κ → ℕ} {chan : κ → List α}

theorem empty (stream : κ → ℕ → α) (chan : κ → List α) (h : ∀ c, chan c = [])
    (hr : ∀ c, r c = 0) (hw : ∀ c, w c = 0) : Tracks stream r w chan := by
  intro c
  simp [hr,hw,h]

/-- A step that moves no message may present the same counts in another form. -/
theorem congr (h : Tracks stream r w chan) (hr : ∀ c, r' c = r c) (hw : ∀ c, w' c = w c) :
    Tracks stream r' w' chan := by
  intro c
  rw [hr,hw]
  exact h c

/-- The message at the head of a channel is the one its read count points at. -/
theorem head (h : Tracks stream r w chan) {c : κ} {m : α} {rest : List α}
    (hc : chan c = m::rest) : m = stream c (r c) ∧ r c < w c := by
  rw [(h c).2] at hc
  obtain ⟨hlt,hm,_⟩ := window_pop hc
  exact ⟨hm,hlt⟩

variable [DecidableEq κ]

/-- Writing the next message of the stream moves the write count by one. -/
theorem send (h : Tracks stream r w chan) (c : κ) {m : α} (hm : m = stream c (w c))
    (hr : ∀ d, r' d = r d) (hw : ∀ d, w' d = w d+if d = c then 1 else 0) :
    Tracks stream r' w' (update chan c (chan c++[m])) := by
  intro d
  obtain ⟨hle,hd⟩ := h d
  rw [hr,hw]
  by_cases he : d = c
  · subst d
    simp only [if_true,update_self]
    exact ⟨by omega,by rw [hm,hd,window_push _ hle]⟩
  · simp only [he,if_false,update_of_ne he,Nat.add_zero]
    exact ⟨hle,hd⟩

/-- Reading moves the read count by one. -/
theorem recv (h : Tracks stream r w chan) {c : κ} {m : α} {rest : List α}
    (hc : chan c = m::rest) (hr : ∀ d, r' d = r d+if d = c then 1 else 0)
    (hw : ∀ d, w' d = w d) : Tracks stream r' w' (update chan c rest) := by
  intro d
  obtain ⟨hle,hd⟩ := h d
  rw [hr,hw]
  by_cases he : d = c
  · subst d
    rw [hd] at hc
    obtain ⟨hlt,_,hrest⟩ := window_pop hc
    simp only [if_true,update_self]
    exact ⟨hlt,hrest⟩
  · simp only [he,if_false,update_of_ne he,Nat.add_zero]
    exact ⟨hle,hd⟩

end Tracks
end JacobiXv6.Library
