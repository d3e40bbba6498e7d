import JacobiXv6.FileSystem.Blocks
import JacobiXv6.Library.Splice

/-! The contents of an inode: `readi` and `writei` treat it as an array of bytes. -/
namespace JacobiXv6.FileSystem
open Library Function List

namespace Store
variable {s s' : Store} {T : ℕ → Dinode} {i off n k : ℕ} {bs : List Byte} {E : String → Prop}

/-! ### `readi` -/

lemma bmap_found {Q : ℕ → Store → Prop} (hk : (s.icache i).din.block s.disk k ≠ 0)
    (hQ : Q ((s.icache i).din.block s.disk k) s) : Meets E (bmap i k) s Q := by
  refine .bind (.get ?_)
  dsimp only
  by_cases hlt : k < NDIRECT
  · have hblock : (s.icache i).din.block s.disk k = ((s.icache i).din.direct ⟨k,hlt⟩).toNat := by
      rw [Dinode.block,Place.ofIndex_of_lt hlt]
      rfl
    rw [hblock] at hk hQ
    have hne : (s.icache i).din.direct ⟨k,hlt⟩ ≠ 0 := fun hz => hk (congrArg BitVec.toNat hz)
    rw [dif_pos hlt,if_neg hne]
    exact .pure hQ
  · have hlt' : k-NDIRECT < NINDIRECT := by
      have hmax := Dinode.lt_of_block hk
      simp only [MAXFILE] at hmax
      omega
    have hblock :
        (s.icache i).din.block s.disk k = (s.icache i).din.ref s.disk (.entry ⟨k-NDIRECT,hlt'⟩) :=
        by
      rw [Dinode.block,Place.ofIndex_of_le (Nat.le_of_not_lt hlt) hlt']
      rfl
    have hne : (s.icache i).din.indirect ≠ 0 := by
      intro hz
      exact hk (hblock.trans (if_pos hz))
    rw [Dinode.ref,if_neg hne] at hblock
    rw [hblock] at hk hQ
    rw [dif_neg hlt,if_pos hlt']
    refine .bind (.bind (.get ?_))
    dsimp only
    rw [if_neg hne]
    refine .pure (.bind (.bind (.get (.pure ?_))))
    have hword : word (s.disk (s.icache i).din.indirect.toNat) (k-NDIRECT) ≠ 0 :=
      fun hz => hk (congrArg BitVec.toNat hz)
    rw [if_neg hword]
    exact .pure hQ

lemma readLoop_meets (fuel : ℕ) : ∀ {off n : ℕ}, n ≤ fuel →
    (∀ k < n, (s.icache i).din.block s.disk ((off+k)/BSIZE) ≠ 0) →
    Meets E (readLoop i fuel off n) s fun r s' => s' = s ∧ r = (s.icache i).din.slice s.disk off n := by
  induction fuel with
  | zero =>
    intro off n hn _
    obtain rfl := Nat.le_zero.mp hn
    exact .pure ⟨rfl,rfl⟩
  | succ fuel ih =>
    intro off n hn hblocks
    unfold readLoop
    split_ifs with hzero
    · subst hzero
      exact .pure ⟨rfl,rfl⟩
    have hblock := hblocks 0 (Nat.pos_of_ne_zero hzero)
    rw [Nat.add_zero] at hblock
    have hmod : off%BSIZE < BSIZE := Nat.mod_lt _ (by norm_num)
    have hm : 0 < min n (BSIZE-off%BSIZE) := by omega
    refine .bind (bmap_found hblock (.bind (bread_meets ?_)))
    have hrest : ∀ k < n-min n (BSIZE-off%BSIZE),
        (s.icache i).din.block s.disk ((off+min n (BSIZE-off%BSIZE)+k)/BSIZE) ≠ 0 := by
      intro k hk
      rw [Nat.add_assoc]
      exact hblocks _ (by omega)
    refine .bind ((ih (by omega) hrest).mono ?_)
    rintro r _ ⟨rfl,rfl⟩
    refine .pure ⟨rfl,?_⟩
    rw [← Dinode.slice_block hblock (by omega),← Dinode.slice_add]
    congr 1
    omega

/-- `readi` returns a part of the contents, cut at the size. -/
lemma readi_meets (hwhole : (s.icache i).din.Whole s.disk) (htype : (s.icache i).din.type ≠ T_DEV)
    (hn : n < 2^32) (off : ℕ) : Meets E (readi i off n) s fun r s' => s' = s ∧
      r = if (s.icache i).din.size.toNat < off ∨ 2^32 ≤ off+n then none
        else some ((((s.icache i).din.contents s.disk).drop off).take n) := by
  refine .bind (.get ?_)
  dsimp only
  rw [if_neg htype]
  have hiff : ((s.icache i).din.size.toNat < off ∨ (off+n)%2^32 < off) ↔
      (s.icache i).din.size.toNat < off ∨ 2^32 ≤ off+n := by omega
  simp only [hiff]
  by_cases hfail : (s.icache i).din.size.toNat < off ∨ 2^32 ≤ off+n
  · rw [if_pos hfail,if_pos hfail]
    exact .pure ⟨rfl,rfl⟩
  rw [if_neg hfail,if_neg hfail]
  have hmod : (off+n)%2^32 = off+n := Nat.mod_eq_of_lt (by omega)
  rw [hmod]
  have hlen : ∀ m, m =
    (if (s.icache i).din.size.toNat < off+n then (s.icache i).din.size.toNat-off else n) →
      off+m ≤ (s.icache i).din.size.toNat ∧
        (((s.icache i).din.contents s.disk).drop off).take n = (s.icache i).din.slice s.disk off m := by
    rintro m rfl
    split_ifs with hcut
    · have hle : off+((s.icache i).din.size.toNat-off) ≤ (s.icache i).din.size.toNat := by omega
      refine ⟨hle,?_⟩
      rw [← Dinode.take_drop_contents hle,take_of_length_le (by simp; omega),
        take_of_length_le (by simp)]
    · exact ⟨by omega,Dinode.take_drop_contents (by omega)⟩
  obtain ⟨hle,heq⟩ := hlen _ rfl
  refine .bind ((readLoop_meets _ le_rfl ?_).mono ?_)
  · intro k hk
    exact hwhole.block_ne (by omega)
  · rintro r _ ⟨rfl,rfl⟩
    exact .pure ⟨rfl,congrArg some heq.symm⟩

/-! ### `writei` -/

/-- The loop of `writei` has stored `bs` from `off` on; whatever else had a block has the same bytes
there. -/
structure Stored (T : ℕ → Dinode) (i off : ℕ) (bs : List Byte) (s s' : Store) : Prop where
  owning : Owning s' (tableWith T i s')
  cache : s'.icache = update s.icache i { s.icache i with din := (s'.icache i).din }
  same : (s'.icache i).din = { (s.icache i).din with
    direct := (s'.icache i).din.direct, indirect := (s'.icache i).din.indirect }
  stored : ∀ k < bs.length, (s'.icache i).din.byte s'.disk (off+k) = bs[k]?
  kept : ∀ o x, o < off ∨ off+bs.length ≤ o → (s.icache i).din.byte s.disk o = some x →
    (s'.icache i).din.byte s'.disk o = some x
  block : ∀ k, (s.icache i).din.block s.disk k ≠ 0 → (s'.icache i).din.block s'.disk k =
    (s.icache i).din.block s.disk k
  indirect : (s.icache i).din.indirect ≠ 0 → (s'.icache i).din.indirect = (s.icache i).din.indirect
  others : ∀ j, j ≠ i → (T j).Alike s.disk s'.disk
  quiet : (∀ k < bs.length, (s.icache i).din.block s.disk ((off+k)/BSIZE) ≠ 0) →
    (s'.icache i).din = (s.icache i).din
  changes : Changes
    (fun x => s.IsMap x ∨ (∃ k < bs.length, x = (s'.icache i).din.block s'.disk ((off+k)/BSIZE)) ∨
    (s'.icache i).din.indirect ≠ 0 ∧ x = (s'.icache i).din.indirect.toNat) s s'
  spent : ∀ m, off+bs.length ≤ m*BSIZE →
    s'.freeBlocks+(s.icache i).din.lacking s.disk m = s.freeBlocks+(s'.icache i).din.lacking s'.disk m

namespace Stored

lemma refl (h : Owning s (tableWith T i s)) : Stored T i off [] s s where
  owning := h
  cache := (update_eq_self ..).symm
  same := rfl
  stored k hk := absurd hk (Nat.not_lt_zero k)
  kept _ _ _ hx := hx
  block _ _ := rfl
  indirect _ := rfl
  others _ _ := .refl _ _
  quiet _ := rfl
  changes := .refl ..
  spent _ _ := rfl

lemma byte_ne (h : Stored T i off bs s s') (hk : k < bs.length) :
    (s'.icache i).din.block s'.disk ((off+k)/BSIZE) ≠ 0 := by
  rw [← Dinode.byte_ne_none,h.stored k hk,getElem?_eq_getElem hk]
  exact Option.some_ne_none _

lemma trans {bs' : List Byte} {s'' : Store} {off' : ℕ} (h : Stored T i off bs s s')
    (h' : Stored T i off' bs' s' s'')
    (hoff : off' = off+bs.length) : Stored T i off (bs++bs') s s'' where
  owning := h'.owning
  cache := by
    rw [h'.cache,h.cache]
    simp
  same := by
    have hsame := h'.same
    rw [h.same] at hsame
    exact hsame
  stored k hk := by
    rw [length_append] at hk
    by_cases hlt : k < bs.length
    · rw [getElem?_append_left hlt,getElem?_eq_getElem hlt]
      apply h'.kept _ _ (.inl (by omega))
      rw [h.stored k hlt,getElem?_eq_getElem hlt]
    · have hstored := h'.stored (k-bs.length) (by omega)
      rw [getElem?_append_right (by omega),← hstored]
      congr 1
      omega
  kept o x ho hx := by
    rw [length_append] at ho
    exact h'.kept o x (by omega) (h.kept o x (by omega) hx)
  block k hk := by
    have hblock := h.block k hk
    have hblock' := h'.block k (by rwa [hblock])
    exact hblock'.trans hblock
  indirect hne := by
    have hindirect := h.indirect hne
    exact (h'.indirect (by rwa [hindirect])).trans hindirect
  others j hj := (h.others j hj).trans (h'.others j hj)
  quiet hblocks := by
    rw [length_append] at hblocks
    have hquiet := h.quiet fun k hk => hblocks k (by omega)
    refine (h'.quiet fun k hk => ?_).trans hquiet
    have hblock := hblocks (bs.length+k) (by omega)
    rw [← Nat.add_assoc,← hoff] at hblock
    rwa [h.block _ hblock]
  changes := by
    have hchanges' := h'.changes
    rw [IsMap.congr h.changes.sb] at hchanges'
    refine Changes.trans (h.changes.mono ?_) (hchanges'.mono ?_)
    · rintro x (hmap | ⟨k,hk,rfl⟩ | ⟨hne,rfl⟩)
      · exact .inl hmap
      · refine .inr (.inl ⟨k,?_,(h'.block _ (h.byte_ne hk)).symm⟩)
        rw [length_append]
        omega
      · refine .inr (.inr ?_)
        rw [h'.indirect hne]
        exact ⟨hne,rfl⟩
    · rintro x (hmap | ⟨k,hk,rfl⟩ | hindirect)
      · exact .inl hmap
      · refine .inr (.inl ⟨bs.length+k,?_,?_⟩)
        · rw [length_append]
          omega
        · rw [hoff,Nat.add_assoc]
      · exact .inr (.inr hindirect)
  spent m hm := by
    rw [length_append] at hm
    have hspent := h.spent m (by omega)
    have hspent' := h'.spent m (by omega)
    omega

end Stored

lemma Owning.refs_written (h : Owning s T) {q : ℕ×Place} (hq : q.2 ≠ .indirect) (data : Sector) :
    refs (written s (refs s.disk T q) data).disk T = refs s.disk T := by
  apply refs_update_disk
  intro j hj heq
  have hzero : refs s.disk T (j,.indirect) ≠ 0 := fun hz => hj (BitVec.eq_of_toNat_eq hz)
  have honce := h.owned.once (j,.indirect) q hzero heq
  exact hq (congrArg Prod.snd honce).symm

lemma Owning.written (h : Owning s T) {q : ℕ×Place} (hq : q.2 ≠ .indirect)
    (hne : refs s.disk T q ≠ 0) (data : Sector) :
    Owning (written s (refs s.disk T q) data) T := by
  have hdata := h.owned.inside q hne
  refine ⟨h.toFramed.written hdata data,?_⟩
  rw [h.refs_written hq]
  exact h.owned.congr fun c hc =>
    iff_of_eq (congrArg (· = true) (marked_write h.toFramed hdata data hc.2))

variable {p : Place}

lemma block_eq_refs (hp : Place.ofIndex k = some p) :
    (s.icache i).din.block s.disk k = refs s.disk (tableWith T i s) (i,p) := by
  rw [refs,tableWith_self,Dinode.block,hp]
  rfl

variable {b : ℕ}

/-- Another block of the contents after `bmap`. -/
lemma Mapped.block_of_ne (h : Mapped T i p s b s') (hp : Place.ofIndex k = some p) {l : ℕ}
    (hl : l ≠ k) :
    (s'.icache i).din.block s'.disk l = (s.icache i).din.block s.disk l := by
  cases hq : Place.ofIndex l with
  | none => simp [Dinode.block,hq]
  | some q =>
    rw [block_eq_refs (T := T) hq,block_eq_refs (T := T) hq]
    refine h.others (i,q) ?_ ?_
    · intro heq
      rw [(Prod.mk.inj heq).2] at hq
      exact hl (Place.ofIndex_inj hq hp)
    · intro heq
      rw [(Prod.mk.inj heq).2] at hq
      exact Place.ofIndex_ne_indirect l hq

lemma Mapped.block_self (h : Mapped T i p s b s') (hp : Place.ofIndex k = some p) :
    (s'.icache i).din.block s'.disk k = b := (block_eq_refs (T := T) hp).trans h.here

/-- The bytes of the other blocks after `bmap`. -/
lemma Mapped.disk_block {l : ℕ} (h : Mapped T i p s b s') (hl : (s.icache i).din.block s.disk l ≠ 0) :
    s'.disk ((s.icache i).din.block s.disk l) = s.disk ((s.icache i).din.block s.disk l) := by
  obtain ⟨q,hq,hne⟩ := Place.exists_ofIndex (Dinode.lt_of_block hl)
  rw [block_eq_refs (T := T) hq] at hl ⊢
  exact h.kept (i,q) (fun heq => hne (Prod.mk.inj heq).2) hl

section
variable {p : Place} {b : ℕ}

lemma Mapped.not_other (h : Mapped T i p s b s') {q : ℕ×Place} (hq : q ≠ (i,p)) :
    refs s'.disk (tableWith T i s') q ≠ b := by
  intro heq
  have hne : refs s'.disk (tableWith T i s') q ≠ 0 := heq ▸ h.taken
  exact hq (h.owning.owned.once q (i,p) hne (heq.trans h.here.symm))

lemma Mapped.owning_written (h : Mapped T i p s b s') (hp : p ≠ .indirect) (data : Sector) :
    Owning (written s' b data) (tableWith T i s') := by
  have howning := h.owning.written (q := (i,p)) hp (h.here.symm ▸ h.taken) data
  rwa [h.here] at howning

lemma Mapped.block_written (h : Mapped T i p s b s') (hp : p ≠ .indirect) (data : Sector) (l : ℕ) :
    ((written s' b data).icache i).din.block (written s' b data).disk l =
      (s'.icache i).din.block s'.disk l := by
  have hrefs := h.owning.refs_written (q := (i,p)) hp data
  rw [h.here] at hrefs
  cases hl : Place.ofIndex l with
  | none => simp [Dinode.block,hl]
  | some q =>
    rw [block_eq_refs (T := T) hl,block_eq_refs (T := T) hl]
    exact congrFun hrefs (i,q)

section

variable (h : Mapped T i p s b s') (hp : Place.ofIndex k = some p)
include h hp

lemma Mapped.byte_of_ne (hp' : p ≠ .indirect) (data : Sector)
    {o : ℕ} (ho : o/BSIZE ≠ k) : ((written s' b data).icache i).din.byte (written s' b data).disk o =
      (s.icache i).din.byte s.disk o := by
  rw [Dinode.byte,Dinode.byte,h.block_written hp',h.block_of_ne hp ho]
  split_ifs with hzero
  · rfl
  have hne : (s.icache i).din.block s.disk (o/BSIZE) ≠ b := by
    rw [← h.block_of_ne hp ho]
    obtain ⟨q,hq,-⟩ := Place.exists_ofIndex (Dinode.lt_of_block hzero)
    rw [block_eq_refs (T := T) hq]
    apply h.not_other
    intro heq
    rw [(Prod.mk.inj heq).2] at hq
    exact ho (Place.ofIndex_inj hq hp)
  have hdisk : (written s' b data).disk ((s.icache i).din.block s.disk (o/BSIZE)) =
      s'.disk ((s.icache i).din.block s.disk (o/BSIZE)) := update_of_ne hne ..
  rw [hdisk,h.disk_block hzero]

lemma Mapped.byte_self (hp' : p ≠ .indirect) (data : Sector)
    {o : ℕ} (ho : o/BSIZE = k) :
    ((written s' b data).icache i).din.byte (written s' b data).disk o = some (data (o%BSIZE)) := by
  have hdisk : (written s' b data).disk b = data := update_self ..
  rw [Dinode.byte,h.block_written hp',ho,h.block_self hp,if_neg h.taken,hdisk]

/-- `bmap` takes what was lacking for this block. -/
lemma Mapped.lacking (hk : k < n) :
    (s'.icache i).din.lacking s'.disk n+(s.icache i).din.lacks s.disk p =
      (s.icache i).din.lacking s.disk n := by
  refine Dinode.lacking_taken hp hk ?_ (fun l hl => h.block_of_ne hp hl) h.indirect
  rw [h.block_self hp]
  exact h.taken

lemma Mapped.spent_written (hp' : p ≠ .indirect) (hk : k < n)
    (data : Sector) : (written s' b data).freeBlocks+(s.icache i).din.lacking s.disk n =
      s.freeBlocks+((written s' b data).icache i).din.lacking (written s' b data).disk n := by
  have hdata : s'.sb.Data b := h.here ▸ h.owning.owned.inside (i,p) (h.here.symm ▸ h.taken)
  have hlacking : ((written s' b data).icache i).din.lacking (written s' b data).disk n =
      (s'.icache i).din.lacking s'.disk n := by
    unfold Dinode.lacking
    simp only [h.block_written hp']
    rfl
  rw [hlacking,freeBlocks_written h.owning.toFramed hdata]
  have hspent := h.spent
  have htaken := h.lacking hp hk
  omega

end

lemma Mapped.stored (h : Mapped T i p s b s') (hp : Place.ofIndex (off/BSIZE) = some p)
    (hp' : p ≠ .indirect)
    (hbs : bs ≠ []) (hlen : off%BSIZE+bs.length ≤ BSIZE) :
    Stored T i off bs s (written s' b ((s'.disk b).paste (off%BSIZE) bs)) where
  owning := h.owning_written hp' _
  cache := h.cache
  same := h.same
  stored k hk := by
    have hdiv : (off+k)/BSIZE = off/BSIZE := by
      simp only [BSIZE] at hlen ⊢
      omega
    have hmod : (off+k)%BSIZE = off%BSIZE+k := by
      simp only [BSIZE] at hlen ⊢
      omega
    rw [h.byte_self hp hp' _ hdiv,hmod,Sector.paste_add _ hk,getElem?_eq_getElem hk]
  kept o x ho hx := by
    by_cases hdiv : o/BSIZE = off/BSIZE
    · have hblock : (s.icache i).din.block s.disk (off/BSIZE) ≠ 0 := by
        rw [← hdiv,← Dinode.byte_ne_none,hx]
        exact Option.some_ne_none x
      have hsame := h.found (by rwa [← block_eq_refs hp])
      have hmod : o%BSIZE < off%BSIZE ∨ off%BSIZE+bs.length ≤ o%BSIZE := by
        simp only [BSIZE] at hdiv ⊢
        omega
      rw [h.byte_self hp hp' _ hdiv,Sector.paste_of_disjoint _ hmod,← hx,Dinode.byte,hdiv,
        if_neg hblock,hsame,
        ← h.block_self hp,hsame]
    · rw [h.byte_of_ne hp hp' _ hdiv,hx]
  block l hl := by
    rw [h.block_written hp']
    obtain rfl | hne := eq_or_ne l (off/BSIZE)
    · rw [h.found (by rwa [← block_eq_refs hp])]
    · exact h.block_of_ne hp hne
  indirect hne := h.indirect fun _ _ => hne
  others j hj q hq := by
    have htable : ∀ t, refs t.disk (tableWith T i t) (j,q) = (T j).ref t.disk q := by
      intro t
      rw [refs,tableWith,update_of_ne hj]
    have hold := h.others (j,q) (by simp [hj]) (by simp [hj])
    have hkept := h.kept (j,q) (by simp [hj]) (by rwa [htable])
    have hne := h.not_other (q := (j,q)) (by simp [hj])
    rw [hold] at hne
    rw [htable] at hne hkept
    exact (update_of_ne hne ..).trans hkept
  quiet hblocks := by
    have hblock := hblocks 0 (length_pos_of_ne_nil hbs)
    have hsame := h.found (by rwa [← block_eq_refs hp])
    change (s'.icache i).din = (s.icache i).din
    rw [hsame]
  changes := by
    refine (h.changes.mono ?_).trans ((Changes.written s' b _).mono ?_)
    · rintro x (hmap | rfl | hindirect)
      · exact .inl hmap
      · refine .inr (.inl ⟨0,length_pos_of_ne_nil hbs,?_⟩)
        rw [h.block_written hp']
        exact (h.block_self hp).symm
      · exact .inr (.inr hindirect)
    · rintro x rfl
      refine .inr (.inl ⟨0,length_pos_of_ne_nil hbs,?_⟩)
      rw [h.block_written hp']
      exact (h.block_self hp).symm
  spent m hm := by
    refine h.spent_written hp hp' ?_ _
    have hpos := length_pos_of_ne_nil hbs
    rw [Nat.div_lt_iff_lt_mul (by norm_num)]
    omega

end

/-- The number of blocks that `n` bytes from `off` on are in. -/
def span (off n : ℕ) : ℕ := if n = 0 then 0 else blocks (off+n)-off/BSIZE

lemma Stored.pledged_le (h : Stored T i off bs s s') :
    s'.pledged i ≤ s.pledged i+span off bs.length := by
  have hcard : ∀ D : Finset ℕ, D.card ≤ span off bs.length →
      (∀ k < bs.length, (s'.icache i).din.block s'.disk ((off+k)/BSIZE) ∈ D) →
        s'.pledged i ≤ s.pledged i+span off bs.length := by
    intro D hD hmem
    refine (Changes.pledged_le (h.changes.mono ?_) h.indirect).trans (Nat.add_le_add_left hD _)
    rintro x (hmap | ⟨k,hk,rfl⟩ | hindirect)
    · exact .inl hmap
    · exact .inr (.inl (hmem k hk))
    · exact .inr (.inr hindirect)
  obtain hzero | hpos := Nat.eq_zero_or_pos bs.length
  · exact hcard ∅ (Nat.zero_le _) fun k hk => absurd hk (by omega)
  · refine hcard
      ((Finset.Ico (off/BSIZE) (blocks (off+bs.length))).image ((s'.icache i).din.block s'.disk)) ?_
      ?_
    · rw [span,if_neg hpos.ne']
      exact Finset.card_image_le.trans (Nat.card_Ico ..).le
    · intro k hk
      refine Finset.mem_image_of_mem _ (Finset.mem_Ico.mpr ?_)
      simp only [blocks,BSIZE]
      omega

lemma span_add {m : ℕ} (off : ℕ) (hn : n ≠ 0) (hm : m = min n (BSIZE-off%BSIZE)) :
    span off m = 1 ∧ span off m+span (off+m) (n-m) = span off n := by
  simp only [span,blocks,BSIZE] at *
  split_ifs <;> omega

lemma Stored.affords {m : ℕ} (h : Stored T i off bs s s') (hm : off+bs.length ≤ m*BSIZE)
    (hE : Affords E s ((s.icache i).din.lacking s.disk m)) :
    Affords E s' ((s'.icache i).din.lacking s'.disk m) := by
  refine hE.imp_right fun hfree => ?_
  have hspent := h.spent m hm
  omega

lemma writeLoop_meets {m : ℕ} (fuel : ℕ) :
    ∀ {s : Store} {off : ℕ} {src : List Byte}, Owning s (tableWith T i s) →
    src.length ≤ fuel → off+src.length ≤ m*BSIZE → m ≤ MAXFILE →
      Affords E s ((s.icache i).din.lacking s.disk m) →
    Logs E s (s.pledged i+span off src.length) →
    Meets E (writeLoop i fuel off src) s fun _ s' => Stored T i off src s s' := by
  induction fuel with
  | zero =>
    intro s off src h hsrc _ _ _ _
    obtain rfl := eq_nil_of_length_eq_zero (Nat.le_zero.mp hsrc)
    exact .pure (.refl h)
  | succ fuel ih =>
    intro s off src h hsrc hoff hm hE hL
    unfold writeLoop
    split_ifs with hnil
    · subst hnil
      exact .pure (.refl h)
    have hpos := length_pos_of_ne_nil hnil
    have hmod : off%BSIZE < BSIZE := Nat.mod_lt _ (by norm_num)
    have hk : off/BSIZE < m := by
      rw [Nat.div_lt_iff_lt_mul (by norm_num)]
      omega
    obtain ⟨p,hp,hp'⟩ := Place.exists_ofIndex (hk.trans_le hm)
    obtain ⟨hone,hspan⟩ := span_add off hpos.ne' rfl
    refine .bind ((bmap_meets h hp (hE.mono (Dinode.lacks_le_lacking hp hk))
      (hL.mono (by omega))).mono ?_)
    intro b s₁ hmapped
    have hpledged : s₁.pledged i ≤ s.pledged i+({b} : Finset ℕ).card := by
      refine Changes.pledged_le (hmapped.changes.mono fun x hx => ?_) fun hne =>
        hmapped.indirect fun _ _ => hne
      rwa [Finset.mem_singleton]
    have hL₁ : Logs E s₁ (s₁.pledged i) :=
      hmapped.changes.carry hL (by rw [Finset.card_singleton] at hpledged; omega)
    refine .bind (bread_meets (.bind (logWrite_meets hL₁.lhN_self ?_)))
    have hlen : (src.take (min src.length (BSIZE-off%BSIZE))).length =
        min src.length (BSIZE-off%BSIZE) := by
      simp
    have hstored : Stored T i off (src.take (min src.length (BSIZE-off%BSIZE))) s _ :=
      hmapped.stored hp hp' (ne_nil_of_length_pos (by omega)) (by omega)
    refine (ih hstored.owning ?_ ?_ hm ?_ ?_).mono ?_
    · rw [length_drop]
      omega
    · rw [length_drop]
      omega
    · exact hstored.affords (by omega) hE
    · have hadded := hstored.pledged_le
      rw [hlen] at hadded
      refine hstored.changes.carry hL ?_
      rw [length_drop]
      omega
    · intro _ s' hstored'
      have htrans := hstored.trans hstored' (by rw [hlen])
      rwa [take_append_drop] at htrans

/-- Inode `i` is in memory as it is on the disk, and its contents have no holes. -/
structure Held (s : Store) (i : ℕ) : Prop where
  lt : i < s.sb.ninodes
  owning : Owning s s.table
  copy : s.table i = (s.icache i).din
  whole : (s.icache i).din.Whole s.disk

/-- `writei` has stored `src` from `off` on in inode `i`, in memory and on the disk. -/
structure Wrote (i off : ℕ) (src : List Byte) (s s' : Store) : Prop where
  held : Held s' i
  cache : s'.icache = update s.icache i { s.icache i with din := (s'.icache i).din }
  same : (s'.icache i).din = { (s.icache i).din with
    size := .ofNat 32 (max (s.icache i).din.size.toNat (off+src.length))
    direct := (s'.icache i).din.direct, indirect := (s'.icache i).din.indirect }
  contents : (s'.icache i).din.contents s'.disk = splice ((s.icache i).din.contents s.disk) off src
  table : ∀ j, j ≠ i → s'.table j = s.table j
  others : ∀ j, j ≠ i → (s.table j).Alike s.disk s'.disk
  changes : Changes
    (fun x => s.IsMap x ∨ (∃ k < src.length, x = (s'.icache i).din.block s'.disk ((off+k)/BSIZE)) ∨
    (s'.icache i).din.indirect ≠ 0 ∧ x = (s'.icache i).din.indirect.toNat ∨ x = s.sb.IBLOCK i) s s'
  spent : ∀ m, off+src.length ≤ m*BSIZE →
    s'.freeBlocks+(s.icache i).din.lacking s.disk m = s.freeBlocks+(s'.icache i).din.lacking s'.disk m
  pledged : s'.pledged i ≤ s.pledged i+span off src.length

lemma Held.tableWith_eq (h : Held s i) : tableWith s.table i s = s.table := by
  rw [tableWith,← h.copy]
  exact update_eq_self ..

section
variable {src : List Byte}

lemma Stored.table (h : Stored T i off src s s') (hs : Framed s) : s'.table = s.table := by
  refine h.changes.table fun j hj hx => ?_
  have hlaid := hs.laid
  have hsb := h.changes.sb
  obtain hmap | ⟨k,hk,heq⟩ | ⟨hne,heq⟩ := hx
  · exact not_isMap_IBLOCK hlaid hj hmap
  · have hblock := h.byte_ne hk
    obtain ⟨p,hp,-⟩ := Place.exists_ofIndex (Dinode.lt_of_block hblock)
    rw [block_eq_refs (T := T) hp] at hblock heq
    have hdata := h.owning.owned.inside _ hblock
    rw [hsb] at hdata
    exact (hlaid.IBLOCK_lt hdata hj).ne heq
  · have hdata := (h.owning.data_indirect (i := i) (by rwa [tableWith_self])).1
    rw [tableWith_self,hsb] at hdata
    exact (hlaid.IBLOCK_lt hdata hj).ne heq

lemma Stored.byte (h : Stored T i off src s s') (hwhole : (s.icache i).din.Whole s.disk)
    (hoff : off ≤ (s.icache i).din.size.toNat) {o : ℕ}
    (ho : o < max (s.icache i).din.size.toNat (off+src.length)) :
    (s'.icache i).din.byte s'.disk o = (splice ((s.icache i).din.contents s.disk) off src)[o]? := by
  rw [getElem?_splice (by rwa [Dinode.length_contents])]
  split_ifs with hin
  · have hstored := h.stored (o-off) (by omega)
    rwa [Nat.add_sub_cancel' hin.1] at hstored
  · have hlt : o < (s.icache i).din.size.toNat := by omega
    rw [Dinode.getElem?_contents hlt]
    have hne := Dinode.byte_ne_none.mpr (hwhole.block_ne hlt)
    obtain ⟨x,hx⟩ := Option.ne_none_iff_exists'.mp hne
    rw [hx]
    exact h.kept o x (by omega) hx

lemma Owning.alike_updated (h : Owning s T) (hi : i < s.sb.ninodes) (j : ℕ) :
    (T j).Alike s.disk (Store.updated s i).disk := by
  intro p hp
  exact update_of_ne (h.laid.IBLOCK_lt (h.owned.inside (j,p) hp) hi).ne' ..

lemma Stored.wrote (h : Stored s.table i off src s s') (hs : Held s i)
    (hoff : off+src.length ≤ (s.icache i).din.size.toNat) :
    Wrote i off src s s' := by
  have hdin : (s'.icache i).din = (s.icache i).din := h.quiet fun k hk => hs.whole.block_ne (by omega)
  have htable := h.table hs.owning.toFramed
  have hmax : max (s.icache i).din.size.toNat (off+src.length) = (s.icache i).din.size.toNat := by omega
  have hlen : (splice ((s.icache i).din.contents s.disk) off src).length =
      (s'.icache i).din.size.toNat := by
    rw [length_splice (by rw [Dinode.length_contents]; omega),Dinode.length_contents,hmax,hdin]
  obtain ⟨hwhole,hcontents⟩ :=
    Dinode.contents_eq hlen fun o ho => h.byte hs.whole (by omega) (by rw [hdin] at ho; omega)
  have hwith : tableWith s.table i s' = s'.table := by
    rw [tableWith,hdin,← hs.copy,htable]
    exact update_eq_self ..
  exact {
    held := {
      lt := h.changes.sb ▸ hs.lt
      owning := hwith ▸ h.owning
      copy := by rw [htable,hdin,hs.copy]
      whole := hwhole }
    cache := h.cache
    same := by
      rw [hmax,BitVec.ofNat_toNat,BitVec.setWidth_eq]
      exact h.same
    contents := hcontents
    table := fun j _ => congrFun htable j
    others := h.others
    changes := h.changes.mono fun x hx => hx.imp_right (.imp_right .inl)
    spent := h.spent
    pledged := h.pledged_le }

lemma Stored.wrote_longer (h : Stored s.table i off src s s') (hs : Held s i)
    (hoff : off ≤ (s.icache i).din.size.toNat)
    (hlonger : (s.icache i).din.size.toNat < off+src.length) (hfits : off+src.length < 2^32) :
    Wrote i off src s
      (updated (withDin s' i { (s'.icache i).din with size := .ofNat 32 (off+src.length) }) i) := by
  have hdin := din_withDin (s := s') (i := i)
    { (s'.icache i).din with size := .ofNat 32 (off+src.length) }
  set t := withDin s' i { (s'.icache i).din with size := .ofNat 32 (off+src.length) } with ht
  have howning : Owning t (tableWith s.table i t) := h.owning.withDin fun p => by cases p <;> rfl
  have hi : i < t.sb.ninodes := by
    change i < s'.sb.ninodes
    rw [h.changes.sb]
    exact hs.lt
  have htable : (updated t i).table = tableWith s.table i t := by
    rw [table_updated hi]
    exact congrArg (tableWith · i t) (h.table hs.owning.toFramed)
  have halike := howning.alike_updated hi i
  rw [tableWith_self] at halike
  have hmax : max (s.icache i).din.size.toNat (off+src.length) = off+src.length := by omega
  have hsize : (t.icache i).din.size.toNat = off+src.length := by
    rw [hdin]
    exact (BitVec.toNat_ofNat ..).trans (Nat.mod_eq_of_lt hfits)
  have hblock : ∀ k, (t.icache i).din.block t.disk k = (s'.icache i).din.block s'.disk k := by
    intro k
    rw [hdin]
    exact Dinode.block_congr (fun p => by cases p <;> rfl) k
  have hbyte : ∀ o, (t.icache i).din.byte (updated t i).disk o = (s'.icache i).din.byte s'.disk o := by
    intro o
    rw [halike.byte,Dinode.byte,hblock]
    rfl
  have hlen : (splice ((s.icache i).din.contents s.disk) off src).length =
      (t.icache i).din.size.toNat := by
    rw [length_splice (by rwa [Dinode.length_contents]),Dinode.length_contents,hmax,hsize]
  have hnew : (t.icache i).din.Whole (updated t i).disk ∧
      (t.icache i).din.contents (updated t i).disk = _ :=
    Dinode.contents_eq hlen fun o ho => (hbyte o).trans (h.byte hs.whole hoff (by omega))
  obtain ⟨hwhole,hcontents⟩ := hnew
  exact {
    held := {
      lt := hi
      owning := by
        rw [htable]
        exact howning.updated hi
      copy := by
        rw [htable]
        exact tableWith_self
      whole := hwhole }
    cache := by
      change t.icache = update s.icache i { s.icache i with din := (t.icache i).din }
      rw [hdin,ht,withDin,h.cache]
      simp
    same := by
      have hupdated : ((updated t i).icache i).din = (t.icache i).din := rfl
      have hsame := congrArg (fun d : Dinode => { d with size := .ofNat 32 (off+src.length) }) h.same
      rw [hupdated,hdin,hmax]
      exact hsame
    contents := hcontents
    table := fun j hj => by
      rw [htable]
      exact update_of_ne hj ..
    others := fun j hj => by
      have hother := howning.alike_updated hi j
      rw [tableWith,update_of_ne hj] at hother
      exact (h.others j hj).trans hother
    changes := by
      have hlast := Changes.updated t i
      have hsb : t.sb = s.sb := h.changes.sb
      rw [hsb] at hlast
      refine ((h.changes.cache _).mono ?_).trans (hlast.mono fun x hx => .inr (.inr (.inr hx)))
      rintro x (hmap | ⟨k,hk,rfl⟩ | hindirect)
      · exact .inl hmap
      · refine .inr (.inl ⟨k,hk,?_⟩)
        exact ((halike.block _).trans (hblock _)).symm
      · refine .inr (.inr (.inl ?_))
        change (t.icache i).din.indirect ≠ 0 ∧ x = (t.icache i).din.indirect.toNat
        rwa [hdin]
    spent := fun m hm => by
      have hlacking : (t.icache i).din.lacking (updated t i).disk m =
          (s'.icache i).din.lacking s'.disk m := by
        unfold Dinode.lacking
        simp only [halike.block,hblock]
        rw [hdin]
      have hfree : (updated t i).freeBlocks = s'.freeBlocks := freeBlocks_updated howning.toFramed hi
      change (updated t i).freeBlocks+_ = _+(t.icache i).din.lacking (updated t i).disk m
      rw [hlacking,hfree]
      exact h.spent m hm
    pledged := by
      have hsame : t.pledged i = s'.pledged i := by
        unfold pledged ledger
        rw [hdin]
        rfl
      rw [pledged_updated,hsame]
      exact h.pledged_le }

/-- The conditions under which `writei` refuses. -/
def Refuses (size off n : ℕ) : Prop := size < off ∨ 2^32 ≤ off+n ∨ MAXFILE*BSIZE < off+n

lemma writei_refuses (htype : (s.icache i).din.type ≠ T_DEV) (hn : src.length < 2^32)
    (hrefuses : Refuses (s.icache i).din.size.toNat off src.length) :
    writei i off src s = .ok (none,s) := by
  have hsize := (s.icache i).din.size.isLt
  unfold Refuses at hrefuses
  have hget : writei i off src s = (if (s.icache i).din.type = T_DEV then
      (if (s.icache i).din.major = CONSOLE then return some src.length else return none)
    else if (s.icache i).din.size.toNat < off ∨ (off+src.length)%2^32 < off then return none
    else if MAXFILE*BSIZE < (off+src.length)%2^32 then return none
    else do
      writeLoop i src.length off src
      grow i (off+src.length)
      return some src.length : Routine Store (Option ℕ)) s := rfl
  rw [hget,if_neg htype]
  by_cases hfirst : (s.icache i).din.size.toNat < off ∨ (off+src.length)%2^32 < off
  · rw [if_pos hfirst]
    rfl
  · have hsecond : MAXFILE*BSIZE < (off+src.length)%2^32 := by omega
    rw [if_neg hfirst,if_pos hsecond]
    rfl

lemma writei_meets (h : Held s i) (htype : (s.icache i).din.type ≠ T_DEV)
    (hoff : off ≤ (s.icache i).din.size.toNat)
    (hmax : off+src.length ≤ MAXFILE*BSIZE)
    (hE : Affords E s ((s.icache i).din.lacking s.disk (blocks (off+src.length))))
    (hL : Logs E s (s.pledged i+span off src.length)) :
    Meets E (writei i off src) s fun r s' => r = some src.length ∧ Wrote i off src s s' := by
  have hfits : off+src.length < 2^32 := hmax.trans_lt (by decide)
  have hblocks : off+src.length ≤ blocks (off+src.length)*BSIZE ∧
      blocks (off+src.length) ≤ MAXFILE := by
    simp only [blocks,BSIZE,MAXFILE,NDIRECT,NINDIRECT] at hmax ⊢
    omega
  refine .bind (.get ?_)
  dsimp only
  rw [if_neg htype,Nat.mod_eq_of_lt hfits,if_neg (by omega),if_neg (by omega)]
  have howning : Owning s (tableWith s.table i s) := h.tableWith_eq.symm ▸ h.owning
  refine .bind ((writeLoop_meets src.length howning le_rfl hblocks.1 hblocks.2 hE hL).mono ?_)
  intro _ s₁ hstored
  have hsize : (s₁.icache i).din.size = (s.icache i).din.size := by rw [hstored.same]
  refine .bind (.bind (.get ?_))
  split_ifs with hgrow
  · rw [hsize] at hgrow
    have hL₁ : Logs E s₁ (s₁.pledged i) := hstored.changes.carry hL hstored.pledged_le
    refine .bind (setDin_meets (iupdate_meets hL₁.lhN_self (.pure ⟨rfl,?_⟩)))
    exact hstored.wrote_longer h hoff hgrow hfits
  · rw [hsize,Nat.not_lt] at hgrow
    exact .pure (.pure ⟨rfl,hstored.wrote h hgrow⟩)

lemma readi_eq (h : Held s i) (htype : (s.icache i).din.type ≠ T_DEV) (hn : n < 2^32) (off : ℕ) :
    readi i off n s = .ok (if (s.icache i).din.size.toNat < off ∨ 2^32 ≤ off+n then none
      else some ((((s.icache i).din.contents s.disk).drop off).take n),s) := by
  obtain ⟨r,s',heq,rfl,rfl⟩ := (readi_meets (E := fun _ => False) h.whole htype hn off).exists_eq
  exact heq

/-- An inode without holes is an array of bytes for `writei` and `readi`. -/
theorem writei_readi (h : Held s i) (htype : (s.icache i).din.type ≠ T_DEV) (off : ℕ) (src : List Byte)
    (hsrc : src.length < 2^32) :
    (Refuses (s.icache i).din.size.toNat off src.length → writei i off src s = .ok (none,s)) ∧
    (¬Refuses (s.icache i).din.size.toNat off src.length →
      (s.icache i).din.lacking s.disk (blocks (off+src.length)) ≤ s.freeBlocks → 1 ≤ s.outstanding →
      s.pledged i+span off src.length < s.logMax → ∃ s', writei i off src s =
        .ok (some src.length,s') ∧ Held s' i ∧
        (s'.icache i).din.size.toNat = max (s.icache i).din.size.toNat (off+src.length) ∧
        (∀ off' n', off' < 2^32 → n' < 2^32 → readi i off' n' s' =
          .ok (if max (s.icache i).din.size.toNat (off+src.length) < off' ∨ 2^32 ≤ off'+n' then none
            else some (((splice ((s.icache i).din.contents s.disk) off src).drop off').take n'),s')) ∧
        (∀ j, j ≠ i → s'.icache j = s.icache j ∧ s'.table j = s.table j ∧
          (s'.table j).contents s'.disk = (s.table j).contents s.disk) ∧
        (s'.icache i).din = s'.sb.dinode s'.disk i) := by
  refine ⟨writei_refuses htype hsrc,fun hrefuses hfree hop hlog => ?_⟩
  unfold Refuses at hrefuses
  obtain ⟨r,s',heq,rfl,hwrote⟩ :=
    (writei_meets (E := fun _ => False) h htype (by omega) (by omega) (.inr hfree)
      (.inr ⟨hop,hlog⟩)).exists_eq
  have hsize : (s'.icache i).din.size.toNat = max (s.icache i).din.size.toNat (off+src.length) := by
    rw [hwrote.same]
    exact (BitVec.toNat_ofNat ..).trans
      (Nat.mod_eq_of_lt (by have := (s.icache i).din.size.isLt; omega))
  have htype' : (s'.icache i).din.type ≠ T_DEV := by rwa [hwrote.same]
  refine ⟨s',heq,hwrote.held,hsize,?_,?_,?_⟩
  · intro off' n' _ hn'
    rw [readi_eq hwrote.held htype' hn',hsize,hwrote.contents]
  · intro j hj
    refine ⟨?_,hwrote.table j hj,?_⟩
    · rw [hwrote.cache,update_of_ne hj]
    · rw [hwrote.table j hj,(hwrote.others j hj).contents]
  · have hcopy := hwrote.held.copy
    rw [table,if_pos hwrote.held.lt] at hcopy
    exact hcopy.symm

end

/-! ### A small disk -/

lemma Owning.of_empty (h : Framed s) (hfree : ∀ b, s.sb.Data b → s.sb.marked s.disk b = false)
    (hempty : ∀ j p, (T j).ref s.disk p = 0) : Owning s T := by
  have hzero : ¬s.sb.Data 0 := fun hdata => absurd (h.laid.one_lt_data hdata) (by decide)
  refine ⟨h,hzero,fun q hq => absurd (hempty q.1 q.2) hq,fun q _ hq => absurd (hempty q.1 q.2) hq,
    fun b hb => ?_⟩
  have hnone : ¬∃ q, refs s.disk T q = b := by
    rintro ⟨q,rfl⟩
    exact hzero (hempty q.1 q.2 ▸ hb)
  simp [hfree b hb,hnone]

/-- The superblock, a log of 30 blocks, one block of inodes, one of the free map and 40 for data. -/
def smallBlock : Superblock := ⟨74,40,8,30,2,32,33⟩

def emptyInode (type : BitVec 16) : Dinode := { Dinode.zero with type := type, nlink := 1 }

def smallDisk (type : BitVec 16) : ℕ → Sector := update
  (fun b => if b = 1 then Sector.paste (fun _ => 0) 0 smallBlock.bytes
    else if b = 33 then fun k => if k < 4 then 255 else if k = 4 then 3 else 0 else fun _ => 0)
  (smallBlock.IBLOCK 1) (Superblock.withDinode (fun _ => 0) 1 (emptyInode type))

def small (type : BitVec 16) : Store where
  sb := smallBlock
  disk := smallDisk type
  icache j := if j = 1 then ⟨1,true,true,emptyInode type⟩ else ⟨0,false,false,.zero⟩
  logged := []
  outstanding := 1

lemma ofBytes_zero (off : ℕ) : Dinode.ofBytes (Sector.slice (fun _ => 0) off 64) = .zero := by
  have hslice : Sector.slice (fun _ => 0) off 64 = List.replicate 64 0 := by simp [Sector.slice]
  have hdirect : ∀ k : Fin NDIRECT, wordAt (List.replicate 64 0) (12+4*k) = 0 := by decide
  rw [hslice,Dinode.ofBytes]
  simp only [hdirect]
  rfl

lemma small_table (type : BitVec 16) (j : ℕ) : (small type).table j = if j = 1 then emptyInode type
    else .zero := by
  have hdinode : smallBlock.dinode (smallDisk type) j = if j = 1 then emptyInode type else _ :=
    Superblock.dinode_update_withDinode 1 j (emptyInode type)
  by_cases hj : j < 8
  · have hblock : smallBlock.IBLOCK j = 32 := by
      have hdiv : j/8 = 0 := Nat.div_eq_of_lt hj
      simp [Superblock.IBLOCK,IPB,hdiv,smallBlock]
    refine (if_pos hj).trans (hdinode.trans ?_)
    congr 1
    rw [Superblock.dinode,hblock]
    exact ofBytes_zero _
  · rw [if_neg (by omega)]
    exact if_neg hj

lemma smallBlock_laid : smallBlock.Laid where
  one_lt := by decide
  inodes := by decide
  map := by decide
  data := by decide
  size_lt := by decide
  ninodes_le := by decide

lemma small_marked (type : BitVec 16) (hb : b < 74) :
    smallBlock.marked (smallDisk type) b = decide (b < 34) := by
  have hdiv : b/BPB = 0 := Nat.div_eq_of_lt (hb.trans (by decide))
  have hblock : smallDisk type (smallBlock.BBLOCK b) = fun k => if k < 4 then 255 else if k = 4
      then 3 else 0 := by
    rw [Superblock.BBLOCK,hdiv]
    rfl
  rw [Superblock.marked,hblock]
  interval_cases b <;> decide

lemma small_framed (type : BitVec 16) : Framed (small type) where
  laid := smallBlock_laid
  superblock := rfl
  low b hb := by
    have hlt : b < 34 := hb
    exact (small_marked type (by omega)).trans (decide_eq_true hlt)

lemma small_held (type : BitVec 16) : Held (small type) 1 where
  lt := (by decide : 1 < 8)
  owning := by
    refine Owning.of_empty (small_framed type) ?_ fun j p => ?_
    · intro b hb
      have hle : 34 ≤ b := hb.1
      exact (small_marked type hb.2).trans (decide_eq_false (by omega))
    · rw [small_table]
      split_ifs <;> cases p <;> rfl
  copy := small_table type 1
  whole k hk := by
    have hsize : ((small type).icache 1).din.size.toNat = 0 := rfl
    rw [hsize] at hk
    exact absurd hk (Nat.not_lt_zero k)

theorem writei_readi_small : ∃ s', writei 1 0 [7,8] (small T_FILE) = .ok (some 2,s') ∧
    readi 1 1 5 s' = .ok (some [8],s') := by
  have hbyteArray := writei_readi (small_held T_FILE) (by decide) 0 [7,8] (by decide)
  obtain ⟨s',hwrite,-,-,hread,-⟩ :=
    hbyteArray.2 (by unfold Refuses; decide) (by decide +kernel) le_rfl (by decide +kernel)
  exact ⟨s',hwrite,hread 1 5 (by decide) (by decide)⟩

/-- What is more than the log takes cannot be written at once, though there are blocks for it. -/
theorem writei_too_big : Held (small T_FILE) 1 ∧ ¬Refuses 0 0 13825 ∧
    ((small T_FILE).icache 1).din.lacking (small T_FILE).disk (blocks 13825) ≤
      (small T_FILE).freeBlocks ∧
    writei 1 0 (List.replicate 13825 0) (small T_FILE) = .error "too big a transaction" :=
  ⟨small_held T_FILE,by unfold Refuses; decide,by decide +kernel,eq_error (by decide +kernel)⟩

end Store
end JacobiXv6.FileSystem
