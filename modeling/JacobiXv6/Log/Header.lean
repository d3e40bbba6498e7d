import Mathlib.Tactic

/-! The on-disk log of `log.c`: a header block followed by the logged copies, both in the
area of `log.size` blocks that starts at `log.start`. A block of `BSIZE` bytes is 128
words; `struct logheader` puts `n` in the first and `block[i]` in word `i+1`. -/
namespace JacobiXv6.Log

abbrev Word := BitVec 32
abbrev Block := Fin 128 → Word
abbrev Disk := Word → Block

def MAXOPBLOCKS : ℕ := 10
def LOGSIZE : ℕ := MAXOPBLOCKS*3

lemma LOGSIZE_eq : LOGSIZE = 30 := rfl

/-- The fields `start` and `size` of `struct log`, as `initlog` reads them from the
superblock. The area holds at least its header. -/
structure Layout where
  start : Word
  size : ℕ
  size_pos : 0 < size

namespace Layout
variable (L : Layout)

/-- The block `log.start+tail+1` of a logged copy. -/
def slot (tail : ℕ) : Word := L.start+BitVec.ofNat 32 (tail+1)

/-- The blocks of the log area. All the others are home blocks. -/
def InLog (b : Word) : Prop := (b-L.start).toNat < L.size

instance (b : Word) : Decidable (L.InLog b) := inferInstanceAs (Decidable (_ < _))

/-- How many blocks one commit can hold: `log_write` accepts no more. -/
def Room (n : ℕ) : Prop := n ≤ LOGSIZE ∧ n < L.size

variable {L} {i j n : ℕ} {b : Word}

lemma inLog_start : L.InLog L.start := by
  simpa [InLog] using L.size_pos

lemma slot_sub_start (hi : i < LOGSIZE) : (L.slot i-L.start).toNat = i+1 := by
  have hcancel : L.slot i-L.start = BitVec.ofNat 32 (i+1) := by
    simp only [slot]
    bv_omega
  rw [hcancel,BitVec.toNat_ofNat]
  rw [LOGSIZE_eq] at hi
  omega

lemma inLog_slot (hn : L.Room n) (hi : i < n) : L.InLog (L.slot i) := by
  rw [InLog,slot_sub_start (hi.trans_le hn.1)]
  exact lt_of_le_of_lt hi hn.2

lemma slot_ne_start (hi : i < LOGSIZE) : L.slot i ≠ L.start := by
  intro h
  have hsub := slot_sub_start (L := L) hi
  simp [h] at hsub

lemma slot_injective (hi : i < LOGSIZE) (hj : j < LOGSIZE) (h : L.slot i = L.slot j) : i = j := by
  have hi' := slot_sub_start (L := L) hi
  rw [h,slot_sub_start hj] at hi'
  omega

end Layout

/-- Word `i` of a block; the header's reader never asks for more than there are. -/
def headerWord (h : Block) (i : ℕ) : Word := if hi : i < 128 then h ⟨i,hi⟩ else 0

/-- `read_head`: the block numbers that the header lists. `n` is a signed integer. -/
def readHead (h : Block) : List Word :=
  (List.range (h 0).toInt.toNat).map fun i => headerWord h (i+1)

/-- `write_head`: only `n` and the first `n` block numbers are written. -/
def writeHead (h : Block) (lh : List Word) : Block := fun i =>
  if i = 0 then BitVec.ofNat 32 lh.length else (lh[i.val-1]?).getD (h i)

lemma readHead_writeHead (h : Block) {lh : List Word} (hn : lh.length ≤ LOGSIZE) :
    readHead (writeHead h lh) = lh := by
  rw [LOGSIZE_eq] at hn
  have hlen : (writeHead h lh 0).toInt.toNat = lh.length := by
    simp only [writeHead,if_true]
    rw [BitVec.toInt_eq_toNat_of_lt]
    · simp only [BitVec.toNat_ofNat]
      omega
    · simp only [BitVec.toNat_ofNat]
      omega
  apply List.ext_getElem
  · simp [readHead,hlen]
  · intro i h1 h2
    have hi : i+1 < 128 := by omega
    have hne : (⟨i+1,hi⟩ : Fin 128) ≠ 0 := by simp [Fin.ext_iff]
    simp only [readHead,List.getElem_map,List.getElem_range,headerWord,dif_pos hi,writeHead,
      if_neg hne]
    simp [h2]

/-- The search of `log_write`: a block that is already in the header is absorbed. -/
def absorb (lh : List Word) (b : Word) : List Word :=
  let i := lh.findIdx (· = b)
  if i = lh.length then lh++[b] else lh.set i b

lemma absorb_eq (lh : List Word) (b : Word) : absorb lh b = if b ∈ lh then lh else lh++[b] := by
  simp only [absorb]
  split_ifs with hi hb hb
  · simp only [List.findIdx_eq_length,decide_eq_false_iff_not] at hi
    exact absurd rfl (hi b hb)
  · rfl
  · have hlt : lh.findIdx (· = b) < lh.length := lt_of_le_of_ne List.findIdx_le_length hi
    have hval := List.findIdx_getElem (w := hlt)
    simp only [decide_eq_true_eq] at hval
    calc lh.set (lh.findIdx (· = b)) b
        = lh.set (lh.findIdx (· = b)) lh[lh.findIdx (· = b)] := by rw [hval]
      _ = lh := List.set_getElem_self hlt
  · refine absurd (List.findIdx_eq_length.mpr fun x hx => ?_) hi
    simp only [decide_eq_false_iff_not]
    rintro rfl
    exact hb hx

@[simp] lemma mem_absorb {lh : List Word} {b x : Word} : x ∈ absorb lh b ↔ x ∈ lh ∨ x = b := by
  rw [absorb_eq]
  split_ifs with hb
  · constructor
    · exact .inl
    · rintro (h | rfl)
      exacts [h,hb]
  · simp

end JacobiXv6.Log
