import JacobiXv6.FileSystem.References

/-! The bytes of an inode on a disk, and the blocks that it lacks for some more of them. -/
namespace JacobiXv6.FileSystem
open Library Finset

lemma lt_blocks {n k : ℕ} : k < blocks n ↔ k*BSIZE < n := by
  simp only [blocks,BSIZE]
  omega

lemma Place.exists_ofIndex {k : ℕ} (hk : k < MAXFILE) : ∃ p, ofIndex k = some p ∧ p ≠ .indirect := by
  have hsome : ∃ p, ofIndex k = some p := by
    simp only [MAXFILE] at hk
    by_cases hlt : k < NDIRECT
    · exact ⟨_,ofIndex_of_lt hlt⟩
    · exact ⟨_,ofIndex_of_le (Nat.le_of_not_lt hlt) (by omega)⟩
  obtain ⟨p,hp⟩ := hsome
  refine ⟨p,hp,?_⟩
  rintro rfl
  exact ofIndex_ne_indirect k hp

lemma Place.le_of_entry {k : ℕ} {j : Fin NINDIRECT} (h : Place.ofIndex k = some (.entry j)) :
    NDIRECT ≤ k := by
  by_contra hlt
  rw [ofIndex_of_lt (Nat.lt_of_not_le hlt)] at h
  cases h

namespace Dinode
variable {d : Dinode} {disk disk' : ℕ → Sector} {off n o k : ℕ}

/-- Byte `o` of the contents, if there is a block for it. -/
def byte (d : Dinode) (disk : ℕ → Sector) (o : ℕ) : Option Byte :=
  if d.block disk (o/BSIZE) = 0 then none else some (disk (d.block disk (o/BSIZE)) (o%BSIZE))

/-- The bytes from `off` on. -/
def slice (d : Dinode) (disk : ℕ → Sector) (off n : ℕ) : List Byte :=
  (List.range n).map fun k => (d.byte disk (off+k)).getD 0

def contents (d : Dinode) (disk : ℕ → Sector) : List Byte := d.slice disk 0 d.size.toNat

def Whole (d : Dinode) (disk : ℕ → Sector) : Prop := ∀ k < blocks d.size.toNat, d.block disk k ≠ 0

@[simp] lemma length_slice : (d.slice disk off n).length = n := by simp [slice]

@[simp] lemma length_contents : (d.contents disk).length = d.size.toNat := length_slice

lemma getElem?_slice (h : k < n) : (d.slice disk off n)[k]? = some ((d.byte disk (off+k)).getD 0) := by
  simp [slice,h]

lemma getElem?_contents (h : o < d.size.toNat) :
    (d.contents disk)[o]? = some ((d.byte disk o).getD 0) := by
  simp [contents,getElem?_slice h]

lemma slice_add (m n : ℕ) : d.slice disk off (m+n) = d.slice disk off m++d.slice disk (off+m) n := by
  simp only [slice,List.range_add,List.map_append,List.map_map]
  congr 1
  apply List.map_congr_left
  intro k _
  simp [Nat.add_assoc]

lemma take_drop_contents (h : off+n ≤ d.size.toNat) :
    ((d.contents disk).drop off).take n = d.slice disk off n := by
  apply List.ext_getElem?
  intro k
  rw [List.getElem?_take]
  split_ifs with hk
  · rw [List.getElem?_drop,getElem?_contents (by omega),getElem?_slice hk]
  · rw [List.getElem?_eq_none (by rw [length_slice]; omega)]

lemma slice_block (hblock : d.block disk (off/BSIZE) ≠ 0) (hn : off%BSIZE+n ≤ BSIZE) :
    d.slice disk off n = (disk (d.block disk (off/BSIZE))).slice (off%BSIZE) n := by
  apply List.map_congr_left
  intro k hk
  rw [List.mem_range] at hk
  have hdiv : (off+k)/BSIZE = off/BSIZE := by
    simp only [BSIZE] at hn ⊢
    omega
  have hmod : (off+k)%BSIZE = off%BSIZE+k := by
    simp only [BSIZE] at hn ⊢
    omega
  rw [byte,hdiv,hmod,if_neg hblock,Option.getD_some]

lemma byte_ne_none : d.byte disk o ≠ none ↔ d.block disk (o/BSIZE) ≠ 0 := by
  unfold byte
  split_ifs with hzero <;> simp [hzero]

lemma Whole.block_ne (h : d.Whole disk) (ho : o < d.size.toNat) : d.block disk (o/BSIZE) ≠ 0 := by
  refine h _ (lt_blocks.mpr ?_)
  simp only [BSIZE]
  omega

lemma whole_of_byte (h : ∀ o < d.size.toNat, d.byte disk o ≠ none) : d.Whole disk := by
  intro k hk
  have hbyte := byte_ne_none.mp (h (k*BSIZE) (lt_blocks.mp hk))
  rwa [Nat.mul_div_cancel k (by norm_num : 0 < BSIZE)] at hbyte

lemma contents_eq {l : List Byte} (hlen : l.length = d.size.toNat)
    (hbyte : ∀ o < d.size.toNat, d.byte disk o = l[o]?) : d.Whole disk ∧ d.contents disk = l := by
  refine ⟨whole_of_byte fun o ho => ?_,?_⟩
  · rw [hbyte o ho,List.getElem?_eq_getElem (by omega)]
    exact Option.some_ne_none _
  · apply List.ext_getElem?
    intro o
    by_cases ho : o < d.size.toNat
    · rw [getElem?_contents ho,hbyte o ho,List.getElem?_eq_getElem (by omega),Option.getD_some]
    · rw [List.getElem?_eq_none (by simpa using ho),List.getElem?_eq_none (by omega)]

lemma lt_of_block (h : d.block disk k ≠ 0) : k < MAXFILE := by
  by_contra hle
  apply h
  have hnone : Place.ofIndex k = none := by
    simp only [Place.ofIndex,MAXFILE,NDIRECT,NINDIRECT] at hle ⊢
    rw [dif_neg (by omega),dif_neg (by omega)]
  rw [block,hnone]
  rfl

lemma Whole.size_le (h : d.Whole disk) : d.size.toNat ≤ MAXFILE*BSIZE := by
  by_contra hlt
  have hblock := lt_of_block (h.block_ne (o := MAXFILE*BSIZE) (by omega))
  rw [Nat.mul_div_cancel _ (by norm_num : 0 < BSIZE)] at hblock
  exact lt_irrefl _ hblock

/-- The number of blocks that have to be taken until there is one at a place. -/
def lacks (d : Dinode) (disk : ℕ → Sector) (p : Place) : ℕ :=
  (if d.ref disk p = 0 then 1 else 0)+match p with
    | .entry _ => if d.indirect = 0 then 1 else 0
    | _ => 0

variable {p : Place}

lemma lacks_of_ref (h : d.ref disk p ≠ 0) : d.lacks disk p = 0 := by
  cases p with
  | entry j =>
    have hindirect : d.indirect ≠ 0 := by
      intro hzero
      exact h (if_pos hzero)
    simp only [lacks,if_neg h,if_neg hindirect]
  | _ => simp only [lacks,if_neg h]

/-- The number of blocks that have to be taken until the first `k` blocks of the contents are there.
-/
def lacking (d : Dinode) (disk : ℕ → Sector) (k : ℕ) : ℕ :=
  ((Finset.range k).filter fun l => d.block disk l = 0).card+if NDIRECT < k ∧ d.indirect = 0 then 1
    else 0

lemma lacking_mono {m : ℕ} (h : m ≤ n) : d.lacking disk m ≤ d.lacking disk n := by
  apply Nat.add_le_add
  · exact card_le_card (filter_subset_filter _ (range_mono h))
  · split_ifs with hm hn
    · exact le_rfl
    · exact absurd ⟨hm.1.trans_le h,hm.2⟩ hn
    · exact Nat.zero_le _
    · exact le_rfl

lemma lacks_le_lacking (hp : Place.ofIndex k = some p) (hk : k < n) :
    d.lacks disk p ≤ d.lacking disk n := by
  by_cases hzero : d.ref disk p = 0
  · have hpos : 0 < ((Finset.range n).filter fun l => d.block disk l = 0).card := by
      refine card_pos.mpr ⟨k,mem_filter.mpr ⟨mem_range.mpr hk,?_⟩⟩
      rwa [block,hp]
    unfold lacking
    cases p with
    | direct l =>
      simp only [lacks,if_pos hzero]
      omega
    | indirect => exact absurd hp (Place.ofIndex_ne_indirect k)
    | entry l =>
      have hn : NDIRECT < n := (Place.le_of_entry hp).trans_lt hk
      simp only [lacks,if_pos hzero,hn,true_and]
      omega
  · rw [lacks_of_ref hzero]
    exact Nat.zero_le _

lemma Whole.lacking_eq_zero (h : d.Whole disk) (hn : n ≤ d.size.toNat) :
    d.lacking disk (blocks n) = 0 := by
  have hblocks : blocks n ≤ blocks d.size.toNat := by
    simp only [blocks,BSIZE]
    omega
  have hcard : ((Finset.range (blocks n)).filter fun l => d.block disk l = 0) = ∅ := by
    refine filter_eq_empty_iff.mpr fun l hl => h l ?_
    exact (mem_range.mp hl).trans_le hblocks
  unfold lacking
  rw [hcard,card_empty,Nat.zero_add,if_neg]
  rintro ⟨hlt,hzero⟩
  have hblock := h NDIRECT (hlt.trans_le hblocks)
  rw [block,Place.ofIndex_of_le le_rfl (by decide)] at hblock
  exact hblock (if_pos hzero)

/-- The inode has got block `k`, and nothing else has changed; an indirect block was taken for it if
it had to be. -/
lemma lacking_taken {d' : Dinode} (hp : Place.ofIndex k = some p) (hk : k < n)
    (hself : d'.block disk' k ≠ 0)
    (hother : ∀ l, l ≠ k → d'.block disk' l = d.block disk l)
    (hindirect : (∀ j, p = .entry j → d.indirect ≠ 0) → d'.indirect = d.indirect) :
    d'.lacking disk' n+d.lacks disk p = d.lacking disk n := by
  have herase : ((Finset.range n).filter fun l => d'.block disk' l = 0) =
      ((Finset.range n).filter fun l => d.block disk l = 0).erase k := by
    ext l
    rw [mem_erase,mem_filter,mem_filter]
    obtain rfl | hne := eq_or_ne l k
    · simp [hself]
    · simp [hother l hne,hne]
  have hcard : ((Finset.range n).filter fun l => d'.block disk' l = 0).card+(if d.ref disk p = 0
    then 1 else 0) =
      ((Finset.range n).filter fun l => d.block disk l = 0).card := by
    have hblock : d.block disk k = d.ref disk p := by
      rw [block,hp]
      rfl
    rw [herase]
    split_ifs with hzero
    · exact card_erase_add_one (mem_filter.mpr ⟨mem_range.mpr hk,hblock.trans hzero⟩)
    · rw [erase_eq_of_notMem,Nat.add_zero]
      simp [hblock,hzero]
  unfold lacking
  cases p with
  | direct l =>
    rw [hindirect (by simp)]
    simp only [lacks]
    omega
  | indirect => exact absurd hp (Place.ofIndex_ne_indirect k)
  | entry l =>
    have hnew : d'.indirect ≠ 0 := by
      intro hz
      rw [block,hp] at hself
      exact hself (if_pos hz)
    have hn : NDIRECT < n := (Place.le_of_entry hp).trans_lt hk
    simp only [lacks,hnew,and_false,if_false,hn,true_and]
    omega

def Alike (d : Dinode) (disk disk' : ℕ → Sector) : Prop :=
  ∀ p, d.ref disk p ≠ 0 → disk' (d.ref disk p) = disk (d.ref disk p)

namespace Alike

lemma refl (d : Dinode) (disk : ℕ → Sector) : d.Alike disk disk := fun _ _ => rfl

section

variable (h : d.Alike disk disk')
include h

lemma ref (p : Place) : d.ref disk' p = d.ref disk p := by
  apply ref_congr
  intro hne
  exact h .indirect fun hz => hne (BitVec.eq_of_toNat_eq hz)

lemma trans {disk'' : ℕ → Sector} (h' : d.Alike disk' disk'') : d.Alike disk disk'' := by
  intro p hp
  have hp' := h' p (by rwa [h.ref p])
  rw [h.ref p] at hp'
  exact hp'.trans (h p hp)

lemma block (k : ℕ) : d.block disk' k = d.block disk k := block_congr h.ref k

lemma byte (o : ℕ) : d.byte disk' o = d.byte disk o := by
  unfold Dinode.byte
  rw [h.block]
  split_ifs with hzero
  · rfl
  cases hp : Place.ofIndex (o/BSIZE) with
  | none => exact absurd (by simp [Dinode.block,hp]) hzero
  | some p =>
    have hblock : d.block disk (o/BSIZE) = d.ref disk p := by simp [Dinode.block,hp]
    rw [hblock] at hzero ⊢
    rw [h p hzero]

lemma contents : d.contents disk' = d.contents disk := by
  simp only [Dinode.contents,Dinode.slice,h.byte]

end

end Alike
end Dinode

end JacobiXv6.FileSystem
