import JacobiXv6.FileSystem.MkfsImage
import JacobiXv6.FileSystem.Contents

/-! What the kernel reads from an image. `mkfs` and the kernel map the blocks of a file with code of
their own; what `iappend` has stored is what `readi` returns. -/
namespace JacobiXv6.FileSystem
open Library Function Finset
namespace Mkfs

/-- A call that adds to the image. -/
inductive Call
  | ialloc (type : BitVec 16)
  | iappend (inum : ℕ) (p : List Byte)

def perform : Call → Routine Mkfs Unit
  | .ialloc type => do
    let _ ← ialloc type
    return
  | .iappend inum p => iappend inum p

def performAll : List Call → Routine Mkfs Unit
  | [] => return
  | c::cs => do
    perform c
    performAll cs

/-- The part of `main` before the first call of `ialloc`. -/
def format : Routine Mkfs Unit := do
  zeroSectors FSSIZE 0
  wsect .format 1 (zeroes.paste 0 sb.bytes)

/-- The strings appended to inode `i`, one after the other. -/
def appended (i : ℕ) : List Call → List Byte
  | [] => []
  | .ialloc _::cs => appended i cs
  | .iappend inum p::cs => if inum = i then p++appended i cs else appended i cs

/-- With `n` the next inode number, the calls append to inodes that have been allocated, and all
numbers stay below `NINODES`. -/
def Numbered : ℕ → List Call → Prop
  | n, [] => n ≤ NINODES
  | n, .ialloc _::cs => Numbered (n+1) cs
  | n, .iappend inum _::cs => 1 ≤ inum ∧ inum < n ∧ Numbered n cs

/-- The number of blocks for `n` bytes, with the indirect block. -/
def need (n : ℕ) : ℕ := blocks n+if NDIRECT < blocks n then 1 else 0

variable {m m' : Mkfs} {i n : ℕ} {f : ℕ → List Byte} {E : String → Prop} {d : Dinode} {ps : List Byte}

lemma Numbered.le (cs : List Call) : ∀ {n : ℕ}, Numbered n cs → n ≤ NINODES := by
  induction cs with
  | nil => exact fun h => h
  | cons c cs ih =>
    intro n h
    cases c with
    | ialloc type => exact (Nat.le_succ n).trans (ih h)
    | iappend inum p => exact ih h.2.2

lemma blocks_mono {n' : ℕ} (h : n ≤ n') : blocks n ≤ blocks n' := by
  simp only [blocks,BSIZE]
  omega

/-- The indirect block is there if and only if it is needed. -/
def Trim (d : Dinode) (n : ℕ) : Prop := d.indirect = 0 ↔ blocks n ≤ NDIRECT

lemma Filled.lacking_add_need {img : ℕ → Sector} {n' : ℕ} (h : Filled img d n) (htrim : Trim d n)
    (hn : n ≤ n') :
    d.lacking img (blocks n')+need n = need n' := by
  have hcard : ((Finset.range (blocks n')).filter fun l => d.block img l = 0).card =
      blocks n'-blocks n := by
    have hico : ((Finset.range (blocks n')).filter fun l => d.block img l = 0) =
        Finset.Ico (blocks n) (blocks n') := by
      ext l
      have hl := h l
      rw [mem_filter,mem_range,mem_Ico,← not_lt,← hl]
      tauto
    rw [hico,Nat.card_Ico]
  have hmono := blocks_mono hn
  unfold Trim at htrim
  unfold Dinode.lacking need
  simp only [hcard,htrim]
  split_ifs <;> omega

/-- A file of more than `NDIRECT` blocks has an indirect block. -/
lemma Filled.trim {img : ℕ → Sector} (h : Filled img d n)
    (hindirect : blocks n ≤ NDIRECT → d.indirect = 0) : Trim d n := by
  refine ⟨fun hzero => ?_,hindirect⟩
  by_contra hlt
  have hblock := (h NDIRECT).mpr (Nat.lt_of_not_le hlt)
  rw [Dinode.block,Place.ofIndex_of_le le_rfl (by decide)] at hblock
  exact hblock (if_pos hzero)

/-- The contents of the inodes are those of `f`. -/
structure Holding (m : Mkfs) (f : ℕ → List Byte) : Prop where
  sound : Sound m
  start : 1 ≤ m.freeinode
  size : ∀ i, (m.table i).size.toNat = (f i).length
  byte : ∀ i, ∀ o < (f i).length, (m.table i).byte m.img o = (f i)[o]?
  trim : ∀ i, Trim (m.table i) (f i).length
  freeblock : m.freeblock = nmeta+∑ i ∈ Finset.range NINODES, need (f i).length

lemma Holding.ialloc (h : Holding m f) (hroom : m.freeinode < 208) (type : BitVec 16) :
    Meets E (Mkfs.ialloc type) m fun _ m' => Holding m' f ∧ m'.freeinode = m.freeinode+1 := by
  refine (ialloc_meets h.sound h.start hroom type).mono ?_
  rintro _ m' ⟨-,hsound,hinodes,hblock,hnew,hothers⟩
  have hzero : m.table m.freeinode = .zero := if_neg fun hlt => lt_irrefl _ hlt.2
  have hempty : (f m.freeinode).length = 0 := by
    rw [← h.size,hzero]
    rfl
  refine ⟨?_,hinodes⟩
  exact {
    sound := hsound
    start := by omega
    size := by
      intro i
      obtain rfl | hi := eq_or_ne i m.freeinode
      · rw [hnew,hempty]
        rfl
      · rw [(hothers i hi).1,h.size]
    byte := by
      intro i o ho
      have hi : i ≠ m.freeinode := by
        rintro rfl
        omega
      rw [(hothers i hi).1,(hothers i hi).2.byte,h.byte i o ho]
    trim := by
      intro i
      obtain rfl | hi := eq_or_ne i m.freeinode
      · rw [hnew,hempty]
        exact ⟨fun _ => by decide,fun _ => rfl⟩
      · rw [(hothers i hi).1]
        exact h.trim i
    freeblock := hblock.trans h.freeblock }

lemma sum_need_update (hi : i < NINODES) (x : List Byte) :
    (∑ j ∈ Finset.range NINODES, need (update f i x j).length)+need (f i).length =
      (∑ j ∈ Finset.range NINODES, need (f j).length)+need x.length := by
  have hmem := mem_range.mpr hi
  have hcongr : ∑ j ∈ (Finset.range NINODES).erase i, need (update f i x j).length =
      ∑ j ∈ (Finset.range NINODES).erase i, need (f j).length := by
    refine sum_congr rfl fun j hj => ?_
    rw [update_of_ne (ne_of_mem_erase hj)]
  have hnew := add_sum_erase _ (fun j => need (update f i x j).length) hmem
  have hold := add_sum_erase _ (fun j => need (f j).length) hmem
  rw [hcongr,update_self] at hnew
  omega

/-- `iappend` stores a string behind the contents, for which there is room. -/
lemma Holding.iappend (h : Holding m f) (h1 : 1 ≤ i) (hi : i < m.freeinode) (hlt : i < NINODES)
    (hmax : (f i++ps).length ≤ MAXFILE*BSIZE)
    (hfree : nmeta+∑ j ∈ Finset.range NINODES, need (update f i (f i++ps) j).length ≤ FSSIZE) :
    Meets E (Mkfs.iappend i ps) m fun _ m' => Holding m' (update f i (f i++ps)) ∧
      m'.freeinode = m.freeinode := by
  have hsum := sum_need_update (f := f) hlt (f i++ps)
  have hfilled := h.sound.filled i
  rw [h.size i] at hfilled
  rw [List.length_append] at hmax hsum
  have hlacking := hfilled.lacking_add_need (h.trim i) (Nat.le_add_right (f i).length ps.length)
  have hfreeblock := h.freeblock
  have hroom : Room m (m.table i) (m.table i).size.toNat ps.length := by
    rw [h.size i]
    exact ⟨hmax,by omega⟩
  refine (iappend_meets h.sound h1 hi fun _ => .inr hroom).mono ?_
  rintro _ m' ⟨hgrown,hcopied⟩
  rw [h.size i] at hcopied
  have hsize : (m'.table i).size.toNat = (f i).length+ps.length := by rw [hgrown.size,h.size i]
  have hfilled' := hgrown.sound.filled i
  rw [hsize] at hfilled'
  have htrim : Trim (m'.table i) ((f i).length+ps.length) := by
    refine hfilled'.trim fun hle => (hcopied.indirect hle).trans ?_
    exact (h.trim i).mpr ((blocks_mono (Nat.le_add_right ..)).trans hle)
  have hnone := hfilled'.lacking_add_need htrim le_rfl
  have hspent := hcopied.spent _ le_rfl
  refine ⟨?_,hgrown.inodes⟩
  exact {
    sound := hgrown.sound
    start := hgrown.inodes ▸ h.start
    size := by
      intro j
      obtain rfl | hj := eq_or_ne j i
      · rw [update_self,List.length_append,hsize]
      · rw [update_of_ne hj,hgrown.others j hj,h.size]
    byte := by
      intro j o ho
      obtain rfl | hj := eq_or_ne j i
      · rw [update_self] at ho ⊢
        rw [List.length_append] at ho
        by_cases hold : o < (f j).length
        · rw [hcopied.kept o hold,h.byte j o hold,List.getElem?_append_left hold]
        · have hstored := hcopied.stored (o-(f j).length) (by omega)
          rw [Nat.add_sub_cancel' (by omega)] at hstored
          rw [hstored,List.getElem?_append_right (by omega)]
      · rw [update_of_ne hj] at ho ⊢
        rw [hgrown.others j hj,(hcopied.others j hj).byte,h.byte j o ho]
    trim := by
      intro j
      obtain rfl | hj := eq_or_ne j i
      · rwa [update_self,List.length_append]
      · rw [update_of_ne hj,hgrown.others j hj]
        exact h.trim j
    freeblock := by omega }

def after (f : ℕ → List Byte) (cs : List Call) (i : ℕ) : List Byte := f i++appended i cs

lemma after_iappend (f : ℕ → List Byte) (i : ℕ) (ps : List Byte) (cs : List Call) :
    after f (.iappend i ps::cs) = after (update f i (f i++ps)) cs := by
  funext j
  obtain rfl | hj := eq_or_ne j i
  · simp [after,appended]
  · simp [after,appended,hj,hj.symm]

lemma need_mono {n' : ℕ} (h : n ≤ n') : need n ≤ need n' := by
  have hblocks := blocks_mono h
  unfold need
  split_ifs <;> omega

lemma performAll_meets (cs : List Call) : ∀ {m : Mkfs} {f : ℕ → List Byte}, Holding m f →
    Numbered m.freeinode cs →
    (∀ i, (after f cs i).length ≤ MAXFILE*BSIZE) →
    nmeta+∑ i ∈ Finset.range NINODES, need (after f cs i).length ≤ FSSIZE →
    Meets E (performAll cs) m fun _ m' => Holding m' (after f cs) := by
  induction cs with
  | nil =>
    intro m f h _ _ _
    have hafter : after f [] = f := by
      funext i
      exact List.append_nil (f i)
    exact .pure (hafter.symm ▸ h)
  | cons c cs ih =>
    intro m f h hnumbered hmax hfree
    have hle := Numbered.le _ hnumbered
    cases c with
    | ialloc type =>
      have hroom : m.freeinode+1 ≤ NINODES := Numbered.le cs hnumbered
      refine .bind (.bind ((h.ialloc (hroom.trans (by decide)) type).mono ?_))
      rintro _ m' ⟨hholding,hinodes⟩
      refine .pure (ih hholding ?_ hmax hfree)
      rw [hinodes]
      exact hnumbered
    | iappend inum p =>
      obtain ⟨h1,hi,hnumbered⟩ := hnumbered
      rw [after_iappend] at hmax hfree ⊢
      have hlonger : ∀ j, (update f inum (f inum++p) j).length ≤
          (after (update f inum (f inum++p)) cs j).length := by
        intro j
        rw [after,List.length_append]
        exact Nat.le_add_right ..
      have hmax' := (hlonger inum).trans (hmax inum)
      rw [update_self] at hmax'
      refine .bind ((h.iappend h1 hi (hi.trans_le hle) hmax' ?_).mono ?_)
      · refine le_trans (Nat.add_le_add_left (sum_le_sum fun j _ => ?_) _) hfree
        exact need_mono (hlonger j)
      · rintro _ m' ⟨hholding,hinodes⟩
        exact ih hholding (hinodes.symm ▸ hnumbered) hmax hfree

lemma format_meets : Meets E format blank fun _ m => Holding m (fun _ => []) ∧ m.freeinode = 1 := by
  refine .bind ((zeroSectors_meets FSSIZE (Nat.zero_add _).le rfl rfl (by simp [blank])).mono ?_)
  rintro _ m ⟨himg,hsectors,hinodes,hblock,hwrites⟩
  have hsound :=
    sound_formatted himg (by simpa using hsectors) hinodes hblock hwrites (zeroes.paste 0 sb.bytes)
  have htable : ∀ i, (put .format 1 (zeroes.paste 0 sb.bytes) m).table i = .zero := by
    intro i
    refine if_neg ?_
    rintro ⟨h1,hi⟩
    change i < m.freeinode at hi
    rw [hinodes] at hi
    exact absurd hi (Nat.not_lt.mpr h1)
  refine wsect_meets (by decide) ⟨?_,hinodes⟩
  exact {
    sound := hsound
    start := hinodes.ge
    size := fun i => by
      rw [htable]
      rfl
    byte := fun _ o ho => absurd ho (Nat.not_lt_zero o)
    trim := fun i => by
      rw [htable]
      exact ⟨fun _ => by decide,fun _ => rfl⟩
    freeblock := by
      have hneed : need ([] : List Byte).length = 0 := rfl
      simp only [hneed,sum_const_zero,Nat.add_zero]
      exact hblock }

/-- The inode as the kernel sees it: no holes, and the contents of `f`. -/
lemma Holding.contents (h : Holding m f) (i : ℕ) : (m.table i).Whole m.img ∧
    (m.table i).contents m.img = f i := by
  refine Dinode.contents_eq (h.size i).symm fun o ho => ?_
  rw [h.size i] at ho
  exact h.byte i o ho

/-- The kernel reads back what `mkfs` has appended. -/
theorem mkfs_read_back (calls : List Call) (hnumbered : Numbered 1 calls)
    (hmax : ∀ i, (appended i calls).length ≤ MAXFILE*BSIZE)
    (hfree : nmeta+∑ i ∈ Finset.range NINODES, need (appended i calls).length ≤ FSSIZE) :
    ∃ m, (do format; performAll calls) blank = .ok ((),m) ∧
      m.freeblock = nmeta+∑ i ∈ Finset.range NINODES, need (appended i calls).length ∧
      ∀ i, 1 ≤ i → i < m.freeinode → ∀ s : Store, s.sb = sb → s.disk = m.img →
        (s.icache i).din = s.sb.dinode s.disk i → (s.icache i).din.type ≠ T_DEV →
        ∀ off n, off < 2^32 → n < 2^32 → Store.readi i off n s =
          .ok (if (appended i calls).length < off ∨ 2^32 ≤ off+n then none
            else some (((appended i calls).drop off).take n),s) := by
  have hmeets : Meets (fun _ => False) (do format; performAll calls) blank fun _ m =>
      Holding m (after (fun _ => []) calls) := by
    refine .bind (format_meets.mono ?_)
    rintro _ m ⟨hholding,hinodes⟩
    exact performAll_meets calls hholding (hinodes.symm ▸ hnumbered) hmax hfree
  obtain ⟨_,m,heq,hholding⟩ := hmeets.exists_eq
  refine ⟨m,heq,hholding.freeblock,?_⟩
  intro i h1 hi s hsb hdisk hdin htype off n _ hn
  have htable : (s.icache i).din = m.table i := by rw [hdin,hsb,hdisk,table_of_lt h1 hi]
  obtain ⟨hwhole,hcontents⟩ := hholding.contents i
  rw [← htable,← hdisk] at hwhole hcontents
  have hsize : (s.icache i).din.size.toNat = (appended i calls).length := by
    rw [htable,hholding.size]
    rfl
  obtain ⟨r,t,hread,rfl,rfl⟩ := (Store.readi_meets (E := fun _ => False) hwhole htype hn off).exists_eq
  rw [hread,hsize,hcontents]
  rfl

/-- Two files whose appends alternate. -/
def twoInodes : List Call :=
  [.ialloc T_FILE,.ialloc T_FILE,.iappend 1 [7],.iappend 2 [9],.iappend 1 [8]]

theorem mkfs_read_back_two : ∃ m, (do format; performAll twoInodes) blank = .ok ((),m) ∧ ∃ s : Store,
    s.disk = m.img ∧ Store.readi 1 0 2 s = .ok (some [7,8],s) ∧
      Store.readi 2 0 9 s = .ok (some [9],s) := by
  have happended : ∀ i, appended i twoInodes = if 1 = i then [7,8] else if 2 = i then [9] else [] := by
    intro i
    obtain rfl | h1 := eq_or_ne i 1
    · rfl
    · simp [appended,twoInodes,h1.symm]
  obtain ⟨m,hm,-,hread⟩ :=
    mkfs_read_back twoInodes
    ⟨le_rfl,by decide,by decide,by decide,le_rfl,by decide,(by decide : 3 ≤ 200)⟩
    (fun i => by rw [happended]; split_ifs <;> decide) (by decide +kernel)
  obtain ⟨_,m',hm',hp⟩ := exists_ok (m := do format; performAll twoInodes) (s := blank)
    (p := fun x => x.2.freeinode = 3 ∧ (sb.dinode x.2.img 1).type ≠ T_DEV ∧
      (sb.dinode x.2.img 2).type ≠ T_DEV)
    (by decide +kernel)
  obtain ⟨-,rfl⟩ := Prod.mk.inj (Except.ok.inj (hm.symm.trans hm'))
  obtain ⟨hinodes,h1,h2⟩ := of_decide_eq_true hp
  dsimp only at hinodes
  let s : Store := ⟨sb,m.img,fun i => ⟨1,true,true,sb.dinode m.img i⟩,[],0⟩
  refine ⟨m,hm,s,rfl,?_,?_⟩
  · exact hread 1 le_rfl (by omega) s rfl rfl rfl h1 0 2 (by decide) (by decide)
  · exact hread 2 (by decide) (by omega) s rfl rfl rfl h2 0 9 (by decide) (by decide)

end Mkfs
end JacobiXv6.FileSystem
