import JacobiXv6.Library.Loops

/-! The arrays of `jacob.c` and the loops of `main` that work on them. A grid is a
total function of row and column; `main` only touches the cells below `N`. The
`float` operations are a parameter, so that nothing below depends on rounding. -/
namespace JacobiXv6.Jacobi
open Library Function List

/-- What `main` computes with its `float`s. -/
structure Ops (V : Type*) where
  zero : V
  add : V → V → V
  /-- `mean /= (4.0 * N)` -/
  divCount : V → ℕ → V
  /-- `(a + b + c + d)/4.0` -/
  average : V → V → V → V → V
  /-- `fabsm(a - b)` -/
  dist : V → V → V

abbrev Row (V : Type*) := ℕ → V
abbrev Grid (V : Type*) := ℕ → Row V

variable {V : Type*}

def setCell (u : Grid V) (i j : ℕ) (x : V) : Grid V :=
  update u i (update (u i) j x)

def setRow (u : Grid V) (i : ℕ) (r : Row V) : Grid V := update u i r

lemma setCell_apply (u : Grid V) (i j : ℕ) (x : V) (a b : ℕ) :
    setCell u i j x a b = if a = i ∧ b = j then x else u a b := by
  by_cases ha : a = i
  · subst a
    by_cases hb : b = j <;> simp [setCell,hb]
  · simp [setCell,ha]

@[simp] lemma setRow_self (u : Grid V) (i : ℕ) (r : Row V) : setRow u i r i = r := by
  simp [setRow]

lemma setRow_of_ne (u : Grid V) {i a : ℕ} (r : Row V) (h : a ≠ i) : setRow u i r a = u a := by
  simp [setRow,h]

section Init
variable (o : Ops V) (N : ℕ) (T : V)

/-- One turn of the loop that fills the border and sums it up. -/
def initBorder (st : Grid V×V) (i : ℕ) : Grid V×V :=
  let u := setCell st.1 0 i T
  let u := setCell u i (N-1) T
  let u := setCell u i 0 T
  let u := setCell u (N-1) i o.zero
  (u,o.add st.2 (o.add (o.add (o.add (u i 0) (u i (N-1))) (u 0 i)) (u (N-1) i)))

def fillRow (mean : V) (u : Grid V) (i : ℕ) : Grid V :=
  (indices 1 (N-2)).foldl (fun u j => setCell u i j mean) u

/-- The grid `main` builds in the memory `u` finds. -/
def initGrid (u : Grid V) : Grid V :=
  let st := (List.range N).foldl (initBorder o N T) (u,o.zero)
  (indices 1 (N-2)).foldl (fillRow N (o.divCount st.2 N)) st.1

end Init

section Sweep
variable [LinearOrder V] (o : Ops V) (N : ℕ)

def stencil (u : Grid V) (i j : ℕ) : V :=
  o.average (u (i-1) j) (u (i+1) j) (u i (j-1)) (u i (j+1))

def sweepCell (u : Grid V) (i : ℕ) (st : Grid V×V) (j : ℕ) : Grid V×V :=
  let w := setCell st.1 i j (stencil o u i j)
  (w,keepMax st.2 (o.dist (w i j) (u i j)))

def sweepRow (u : Grid V) (st : Grid V×V) (i : ℕ) : Grid V×V :=
  (indices 1 (N-2)).foldl (sweepCell o u i) st

/-- The loop over the rows `lo` to `hi` that fills `w` and keeps the largest change. -/
def sweep (lo hi : ℕ) (u w : Grid V) (diff : V) : Grid V×V :=
  (indices lo hi).foldl (sweepRow o N u) (w,diff)

def copyRow (w : Grid V) (u : Grid V) (i : ℕ) : Grid V :=
  (indices 1 (N-2)).foldl (fun u j => setCell u i j (w i j)) u

/-- The loop that copies the new values of the rows `lo` to `hi` back to `u`. -/
def copyBack (lo hi : ℕ) (w u : Grid V) : Grid V := (indices lo hi).foldl (copyRow N w) u

def change (u : Grid V) (i j : ℕ) : V := o.dist (stencil o u i j) (u i j)

lemma foldl_sweepCell (u : Grid V) (i : ℕ) (l : List ℕ) (st : Grid V×V) :
    (∀ a b, (l.foldl (sweepCell o u i) st).1 a b =
      if a = i ∧ b ∈ l then stencil o u a b else st.1 a b) ∧
    (l.foldl (sweepCell o u i) st).2 = l.foldl (fun d j => keepMax d (change o u i j)) st.2 := by
  induction l generalizing st with
  | nil => simp
  | cons j l ih =>
    obtain ⟨hw,hd⟩ := ih (sweepCell o u i st j)
    constructor
    · intro a b
      rw [foldl_cons,hw]
      by_cases ha : a = i
      · subst a
        by_cases hb : b ∈ l <;> by_cases hj : b = j <;>
          simp [hb,hj,sweepCell,setCell_apply]
      · simp [ha,sweepCell,setCell_apply]
    · rw [foldl_cons,foldl_cons,hd]
      simp [sweepCell,setCell_apply,change]

lemma foldl_sweepRow_fst (u : Grid V) (l : List ℕ) (st : Grid V×V) (a b : ℕ) :
    (l.foldl (sweepRow o N u) st).1 a b =
      if a ∈ l ∧ b ∈ indices 1 (N-2) then stencil o u a b else st.1 a b := by
  induction l generalizing st with
  | nil => simp
  | cons i l ih =>
    rw [foldl_cons,ih,sweepRow,(foldl_sweepCell o u i _ st).1]
    by_cases ha : a ∈ l <;> by_cases hi : a = i <;>
      by_cases hb : b ∈ indices 1 (N-2) <;> simp [-mem_indices,ha,hi,hb]

lemma foldl_sweepRow_snd (u : Grid V) (l : List ℕ) (st : Grid V×V) (y : V) :
    (l.foldl (sweepRow o N u) st).2 ≤ y ↔
      st.2 ≤ y ∧ ∀ i ∈ l, ∀ j ∈ indices 1 (N-2), change o u i j ≤ y := by
  induction l generalizing st with
  | nil => simp
  | cons i l ih =>
    rw [foldl_cons,ih,sweepRow,(foldl_sweepCell o u i _ st).2,foldl_keepMax_le_iff]
    simp only [forall_mem_cons,and_assoc]

/-- What a sweep leaves in `w`. -/
theorem sweep_fst (lo hi : ℕ) (u w : Grid V) (d : V) (a b : ℕ) :
    (sweep o N lo hi u w d).1 a b =
      if (lo ≤ a ∧ a ≤ hi) ∧ 1 ≤ b ∧ b ≤ N-2 then stencil o u a b else w a b := by
  simp only [sweep,foldl_sweepRow_fst,mem_indices]

/-- The difference a sweep reports is the least upper bound of its start and the changes. -/
theorem sweep_snd_le_iff (lo hi : ℕ) (u w : Grid V) (d y : V) :
    (sweep o N lo hi u w d).2 ≤ y ↔ d ≤ y ∧
      ∀ i, lo ≤ i → i ≤ hi → ∀ j, 1 ≤ j → j ≤ N-2 → change o u i j ≤ y := by
  simp only [sweep,foldl_sweepRow_snd,mem_indices,and_imp]

section
omit [LinearOrder V]

lemma foldl_copyCell (w u : Grid V) (i : ℕ) (l : List ℕ) (a b : ℕ) :
    l.foldl (fun u j => setCell u i j (w i j)) u a b =
      if a = i ∧ b ∈ l then w a b else u a b := by
  induction l generalizing u with
  | nil => simp
  | cons j l ih =>
    rw [foldl_cons,ih,setCell_apply]
    by_cases ha : a = i
    · subst a
      by_cases hb : b ∈ l <;> by_cases hj : b = j <;> simp [hb,hj]
    · simp [ha]

lemma foldl_copyRow (w u : Grid V) (l : List ℕ) (a b : ℕ) :
    l.foldl (copyRow N w) u a b =
      if a ∈ l ∧ b ∈ indices 1 (N-2) then w a b else u a b := by
  induction l generalizing u with
  | nil => simp
  | cons i l ih =>
    rw [foldl_cons,ih,copyRow,foldl_copyCell]
    by_cases ha : a ∈ l <;> by_cases hi : a = i <;>
      by_cases hb : b ∈ indices 1 (N-2) <;> simp [-mem_indices,ha,hi,hb]

theorem copyBack_apply (lo hi : ℕ) (w u : Grid V) (a b : ℕ) :
    copyBack N lo hi w u a b =
      if (lo ≤ a ∧ a ≤ hi) ∧ 1 ≤ b ∧ b ≤ N-2 then w a b else u a b := by
  simp only [copyBack,foldl_copyRow,mem_indices]

end

end Sweep

/-! ## The arrays are filled before they are read -/

/-- Two grids hold the same values in the cells the program uses. -/
def Agree (N : ℕ) (u v : Grid V) : Prop := ∀ i < N, ∀ j < N, u i j = v i j

/-- The border cells written by the first `n` turns of the first loop. -/
def Touched (N n a b : ℕ) : Prop := (a < n ∧ (b = 0 ∨ b = N-1)) ∨ (b < n ∧ (a = 0 ∨ a = N-1))

lemma initBorder_agree (o : Ops V) (N : ℕ) (T : V) {st st' : Grid V×V} {n : ℕ}
    (hm : st.2 = st'.2) (h : ∀ a b, Touched N n a b → st.1 a b = st'.1 a b) :
    (initBorder o N T st n).2 = (initBorder o N T st' n).2 ∧
      ∀ a b, Touched N (n+1) a b →
        (initBorder o N T st n).1 a b = (initBorder o N T st' n).1 a b := by
  have hc : ∀ a b, Touched N (n+1) a b →
      (initBorder o N T st n).1 a b = (initBorder o N T st' n).1 a b := by
    intro a b hab
    simp only [initBorder,setCell_apply]
    split_ifs <;> first | rfl | skip
    apply h
    unfold Touched at hab ⊢
    omega
  refine ⟨?_,hc⟩
  have h1 := hc n 0 (by unfold Touched; omega)
  have h2 := hc n (N-1) (by unfold Touched; omega)
  have h3 := hc 0 n (by unfold Touched; omega)
  have h4 := hc (N-1) n (by unfold Touched; omega)
  change o.add st.2 (o.add (o.add (o.add ((initBorder o N T st n).1 n 0) _) _) _) = _
  rw [h1]
  change o.add st.2 (o.add (o.add (o.add _ ((initBorder o N T st n).1 n (N-1))) _) _) = _
  rw [h2]
  change o.add st.2 (o.add (o.add _ ((initBorder o N T st n).1 0 n)) _) = _
  rw [h3]
  change o.add st.2 (o.add _ ((initBorder o N T st n).1 (N-1) n)) = _
  rw [h4,hm]
  rfl

/-- The grid `main` builds does not depend on what the array held before. -/
theorem initGrid_agree (o : Ops V) (N : ℕ) (T : V) (u v : Grid V) :
    Agree N (initGrid o N T u) (initGrid o N T v) := by
  have hb : ∀ n, ((List.range n).foldl (initBorder o N T) (u,o.zero)).2 =
      ((List.range n).foldl (initBorder o N T) (v,o.zero)).2 ∧ ∀ a b, Touched N n a b →
      ((List.range n).foldl (initBorder o N T) (u,o.zero)).1 a b =
      ((List.range n).foldl (initBorder o N T) (v,o.zero)).1 a b := by
    intro n
    induction n with
    | zero => exact ⟨rfl,fun a b h => by unfold Touched at h; omega⟩
    | succ n ih =>
      simp only [range_succ,foldl_append,foldl_cons,foldl_nil]
      exact initBorder_agree o N T ih.1 ih.2
  obtain ⟨hm,hc⟩ := hb N
  intro i hi j hj
  change copyBack N 1 (N-2) (fun _ _ => o.divCount _ N) _ i j =
    copyBack N 1 (N-2) (fun _ _ => o.divCount _ N) _ i j
  rw [copyBack_apply,copyBack_apply,hm]
  split_ifs with hin
  · rfl
  · exact hc i j (by unfold Touched; omega)

/-- What the print loop writes: the `N` rows of `N` values. -/
def printGrid (N : ℕ) (u : Grid V) : List (List V) :=
  (List.range N).map fun i => (List.range N).map fun j => u i j

theorem printGrid_congr {N : ℕ} {u v : Grid V} (h : Agree N u v) :
    printGrid N u = printGrid N v := by
  refine map_congr_left fun i hi => map_congr_left fun j hj => ?_
  exact h i (mem_range.mp hi) j (mem_range.mp hj)

end JacobiXv6.Jacobi
