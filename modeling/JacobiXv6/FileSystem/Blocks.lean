import JacobiXv6.FileSystem.Inode
import JacobiXv6.FileSystem.Bytes

/-! Who owns the blocks. The free map marks the data blocks that the inodes refer to; `balloc`,
`bmap` and `itrunc` keep it so. -/
namespace JacobiXv6.FileSystem
open Library Function Finset

namespace Superblock
variable (sb : Superblock)

def datastart : ℕ := sb.size-sb.nblocks

def Data (b : ℕ) : Prop := sb.datastart ≤ b ∧ b < sb.size

/-- The parts of the disk come one after the other: the superblock, the inodes, the free map and the
data. The numbers of blocks and inodes fit into the fields that hold them. -/
structure Laid : Prop where
  one_lt : 1 < sb.inodestart
  inodes : sb.inodestart ≤ sb.bmapstart
  map : ∀ i < sb.ninodes, sb.IBLOCK i < sb.bmapstart
  data : ∀ b < sb.size, sb.BBLOCK b < sb.datastart
  size_lt : sb.size < 2^32
  ninodes_le : sb.ninodes ≤ 2^16

variable {sb} {disk : ℕ → Sector} {b c : ℕ}

lemma Laid.one_lt_BBLOCK (h : sb.Laid) (b : ℕ) : 1 < sb.BBLOCK b :=
  (h.one_lt.trans_le h.inodes).trans_le (Nat.le_add_left ..)

lemma Laid.BBLOCK_lt (h : sb.Laid) (hb : sb.Data b) (hc : c < sb.size) : sb.BBLOCK c < b :=
  (h.data c hc).trans_le hb.1

lemma Laid.IBLOCK_lt (h : sb.Laid) (hb : sb.Data b) {i : ℕ} (hi : i < sb.ninodes) : sb.IBLOCK i < b :=
  ((h.map i hi).trans_le (Nat.le_add_left ..)).trans (h.BBLOCK_lt hb hb.2)

lemma Laid.one_lt_data (h : sb.Laid) (hb : sb.Data b) : 1 < b :=
  (h.one_lt_BBLOCK b).trans (h.BBLOCK_lt hb hb.2)

lemma marked_congr {disk' : ℕ → Sector} (h : disk' (sb.BBLOCK b) = disk (sb.BBLOCK b)) :
    sb.marked disk' b = sb.marked disk b := by
  rw [marked,marked,h]

lemma marked_update {f : Sector → ℕ → Sector} (b c : ℕ)
    (hf : ∀ x i j, j ≠ i → bit (f x i) j = bit x j) (hne : c ≠ b) :
    sb.marked (update disk (sb.BBLOCK b) (f (disk (sb.BBLOCK b)) (b%BPB))) c = sb.marked disk c := by
  by_cases hblock : sb.BBLOCK c = sb.BBLOCK b
  · have hbit : c%BPB ≠ b%BPB := by
      simp only [BBLOCK,BPB,BSIZE] at hblock ⊢
      omega
    rw [marked,marked,hblock,update_self,hf _ _ _ hbit]
  · exact marked_congr (update_of_ne hblock ..)

lemma marked_setBit (b c : ℕ) :
    sb.marked (update disk (sb.BBLOCK b) (setBit (disk (sb.BBLOCK b)) (b%BPB))) c = true ↔
      c = b ∨ sb.marked disk c = true := by
  obtain rfl | hne := eq_or_ne c b
  · simp [marked,bit_setBit]
  · rw [marked_update b c (fun x i j hj => by simp [bit_setBit,hj]) hne]
    simp [hne]

end Superblock

namespace Store
variable {s s' : Store} {T : ℕ → Dinode} {i b : ℕ} {E : String → Prop} {X Y : ℕ → Prop}

/-- Only blocks of `X` are changed on the disk, and these are passed to `log_write`. -/
structure Changes (X : ℕ → Prop) (s s' : Store) : Prop where
  sb : s'.sb = s.sb
  disk : ∀ x, ¬ X x → s'.disk x = s.disk x
  logged : ∀ x ∈ s'.logged, x ∈ s.logged ∨ X x
  outstanding : s'.outstanding = s.outstanding

namespace Changes

lemma refl (X : ℕ → Prop) (s : Store) : Changes X s s := ⟨rfl,fun _ _ => rfl,fun _ => .inl,rfl⟩

lemma mono (h : Changes X s s') (hX : ∀ x, X x → Y x) : Changes Y s s' :=
  ⟨h.sb,fun x hx => h.disk x fun hX' => hx (hX x hX'),fun x hx => (h.logged x hx).imp_right (hX x),
    h.outstanding⟩

lemma trans {s'' : Store} (h : Changes X s s') (h' : Changes X s' s'') : Changes X s s'' where
  sb := h'.sb.trans h.sb
  disk x hx := (h'.disk x hx).trans (h.disk x hx)
  logged x hx := (h'.logged x hx).elim (h.logged x) .inr
  outstanding := h'.outstanding.trans h.outstanding

lemma cache (h : Changes X s s') (c : ℕ → Inode) : Changes X s { s' with icache := c } :=
  ⟨h.sb,h.disk,h.logged,h.outstanding⟩

end Changes

def IsMap (s : Store) (x : ℕ) : Prop := ∃ b < s.sb.size, x = s.sb.BBLOCK b

/-! ### The log -/

/-- A block is written. -/
def written (s : Store) (x : ℕ) (data : Sector) : Store :=
  { s with disk := update s.disk x data, logged := s.logged++[x] }

lemma Changes.written (s : Store) (x : ℕ) (data : Sector) : Changes (· = x) s (written s x data) where
  sb := rfl
  disk y hy := update_of_ne hy ..
  logged y hy := by
    simp only [Store.written,List.mem_append,List.mem_singleton] at hy
    exact hy
  outstanding := rfl

def LogPanic (message : String) : Prop :=
  message = "too big a transaction" ∨ message = "log_write outside of trans"

/-- An operation has begun and the log takes more than `n` blocks, or `log_write` is free to panic.
-/
def Logs (E : String → Prop) (s : Store) (n : ℕ) : Prop :=
  (∀ message, LogPanic message → E message) ∨ 1 ≤ s.outstanding ∧ n < s.logMax

lemma Logs.mono {m n : ℕ} (hL : Logs E s n) (hmn : m ≤ n) : Logs E s m :=
  hL.imp_right fun hroom => ⟨hroom.1,hmn.trans_lt hroom.2⟩

variable {Q : Unit → Store → Prop}

lemma logWrite_meets {data : Sector} (hL : Logs E s s.lhN) (h : Q () (written s b data)) :
    Meets E (logWrite b data) s Q := by
  refine .bind (.get ?_)
  split_ifs with hfull hout
  · exact .throw (hL.elim (fun hE => hE _ (.inl rfl)) fun hroom => absurd hroom.2 (by omega))
  · exact .throw (hL.elim (fun hE => hE _ (.inr rfl)) fun hroom => absurd hroom.1 (by omega))
  · exact .update h

/-- The blocks of the free map. -/
def maps (s : Store) : Finset ℕ := (Finset.range s.sb.size).image s.sb.BBLOCK

/-- The blocks in the log, and those that a write to inode `i` may add to it whatever it writes. -/
def ledger (s : Store) (i : ℕ) : Finset ℕ :=
  insert (s.sb.IBLOCK i) (s.logged.toFinset ∪ s.maps) ∪
    if (s.icache i).din.indirect = 0 then ∅ else {(s.icache i).din.indirect.toNat}

/-- Their number, with an indirect block that is not there yet. -/
def pledged (s : Store) (i : ℕ) : ℕ := (s.ledger i).card+if (s.icache i).din.indirect = 0 then 1 else 0

variable {x : ℕ}

lemma IsMap.mem_ledger (h : s.IsMap x) : x ∈ s.ledger i := by
  obtain ⟨c,hc,rfl⟩ := h
  have hmem : s.sb.BBLOCK c ∈ s.maps := mem_image_of_mem _ (mem_range.mpr hc)
  simp [ledger,hmem]

namespace Changes

lemma carry {m n : ℕ} (h : Changes X s s') (hL : Logs E s n) (hmn : m ≤ n) : Logs E s' m := by
  rw [Logs,logMax,h.outstanding,h.sb]
  exact hL.mono hmn

/-- `log_write` after changes to the blocks of the ledger and of `D`. -/
lemma logs (h : Changes X s s') (D : Finset ℕ) (hX : ∀ x, X x → x ∈ s.ledger i ∪ D)
    (hL : Logs E s (s.pledged i+D.card)) : Logs E s' s'.lhN := by
  refine h.carry hL ?_
  have hsub : s'.logged.toFinset ⊆ s.ledger i ∪ D := by
    intro x hx
    obtain hold | hnew := h.logged x (List.mem_toFinset.mp hx)
    · simp [ledger,hold]
    · exact hX x hnew
  calc s'.lhN ≤ (s.ledger i ∪ D).card := card_le_card hsub
    _ ≤ (s.ledger i).card+D.card := card_union_le ..
    _ ≤ s.pledged i+D.card := Nat.add_le_add_right (Nat.le_add_right ..) _

/-- What is written adds the blocks of `D`; an indirect block that is new was counted before. -/
lemma pledged_le {D : Finset ℕ} (h : Changes (fun x => s.IsMap x ∨ x ∈ D ∨
      (s'.icache i).din.indirect ≠ 0 ∧ x = (s'.icache i).din.indirect.toNat) s s')
    (hi : (s.icache i).din.indirect ≠ 0 → (s'.icache i).din.indirect = (s.icache i).din.indirect) :
    s'.pledged i ≤ s.pledged i+D.card := by
  have hmaps : s'.maps = s.maps := by rw [maps,maps,h.sb]
  have hsub : s'.ledger i ⊆ s.ledger i ∪ D ∪
      if (s'.icache i).din.indirect = 0 then ∅ else {(s'.icache i).din.indirect.toNat} := by
    intro x hx
    rw [ledger,hmaps,h.sb,mem_union,mem_insert,mem_union,List.mem_toFinset] at hx
    obtain (rfl | hlogged | hmap) | hind := hx
    · simp [ledger]
    · obtain hold | hmap | hD | ⟨hne,rfl⟩ := h.logged x hlogged
      · simp [ledger,hold]
      · simp [hmap.mem_ledger]
      · simp [hD]
      · rw [if_neg hne]
        exact mem_union_right _ (mem_singleton_self _)
    · simp [ledger,hmap]
    · exact mem_union_right _ hind
  have hcard := (card_le_card hsub).trans (card_union_le ..)
  have hunion := card_union_le (s.ledger i) D
  unfold pledged
  by_cases hzero : (s.icache i).din.indirect = 0
  · rw [if_pos hzero]
    split_ifs at hcard ⊢
    · rw [card_empty] at hcard
      omega
    · rw [card_singleton] at hcard
      omega
  · -- the indirect block is in the ledger already
    rw [hi hzero,if_neg hzero] at hsub ⊢
    have hind : {(s.icache i).din.indirect.toNat} ⊆ s.ledger i ∪ D := by
      rw [ledger,if_neg hzero]
      exact subset_union_right.trans subset_union_left
    rw [union_eq_left.mpr hind] at hsub
    have hcard := card_le_card hsub
    omega

end Changes

lemma Logs.lhN_self (hL : Logs E s (s.pledged i)) : Logs E s s.lhN :=
  (Changes.refl (fun _ => False) s).logs ∅ (fun _ hx => hx.elim) hL

/-- The disk as far as it does not depend on the inodes: the superblock is where it is read from,
and what comes before the data blocks is marked. -/
structure Framed (s : Store) : Prop where
  laid : s.sb.Laid
  superblock : .ofSector (s.disk 1) = s.sb
  low : ∀ b < s.sb.datastart, s.sb.marked s.disk b = true

/-- The marked data blocks are those that the inodes of `T` refer to. -/
structure Owning (s : Store) (T : ℕ → Dinode) : Prop extends Framed s where
  owned : Allotted s.sb.Data (refs s.disk T) fun b => s.sb.marked s.disk b = true

/-! ### `balloc` and `bfree` -/

/-- After `balloc` has returned `b`. -/
def allocated (s : Store) (b : ℕ) : Store := { s with
  disk := update (update s.disk (s.sb.BBLOCK b) (setBit (s.disk (s.sb.BBLOCK b)) (b%BPB))) b fun _ => 0
  logged := s.logged++[s.sb.BBLOCK b]++[b] }

lemma Framed.data_of_free (h : Framed s) (hb : b < s.sb.size) (hfree : s.sb.marked s.disk b = false) :
    s.sb.Data b := by
  refine ⟨?_,hb⟩
  by_contra hlow
  have hmarked := h.low b (Nat.lt_of_not_le hlow)
  rw [hfree] at hmarked
  exact Bool.false_ne_true hmarked

def freeBlocks (s : Store) : ℕ :=
  ((Finset.range s.sb.size).filter fun b => s.sb.marked s.disk b = false).card

/-- There are `n` blocks left, or `balloc` is free to panic. -/
def Affords (E : String → Prop) (s : Store) (n : ℕ) : Prop :=
  E "balloc: out of blocks" ∨ n ≤ s.freeBlocks

lemma Affords.mono {m n : ℕ} (h : Affords E s n) (hmn : m ≤ n) : Affords E s m := h.imp_right hmn.trans

lemma balloc_meets {Q : ℕ → Store → Prop} (h : Framed s) (hE : Affords E s 1)
    (hL : Logs E s (s.pledged i))
    (hQ : ∀ b, s.sb.Data b → s.sb.marked s.disk b = false → Q b (allocated s b)) :
    Meets E balloc s Q := by
  refine .bind (.get ?_)
  cases hfind : (List.range s.sb.size).find? fun b => !s.sb.marked s.disk b with
  | none =>
    obtain hE | hfree := hE
    · exact .throw hE
    obtain ⟨b,hb⟩ := card_pos.mp hfree
    rw [mem_filter,mem_range] at hb
    rw [List.find?_eq_none] at hfind
    exact absurd (hfind b (List.mem_range.mpr hb.1)) (by simp [hb.2])
  | some b =>
    have hfree : s.sb.marked s.disk b = false := by simpa using List.find?_some hfind
    have hlt : b < s.sb.size := List.mem_range.mp (List.mem_of_find?_eq_some hfind)
    refine .bind (.bind (.get (.pure ?_)))
    refine .bind (logWrite_meets hL.lhN_self
      (.bind (logWrite_meets ?_ (.pure (hQ b (h.data_of_free hlt hfree) hfree)))))
    refine (Changes.written ..).logs ∅ (i := i) ?_ hL
    rintro x rfl
    exact mem_union_left _ (IsMap.mem_ledger ⟨b,hlt,rfl⟩)

lemma marked_write (h : Framed s) (hx : s.sb.Data x) (data : Sector) {c : ℕ} (hc : c < s.sb.size) :
    s.sb.marked (update s.disk x data) c = s.sb.marked s.disk c :=
  Superblock.marked_congr (update_of_ne (h.laid.BBLOCK_lt hx hc).ne ..)

lemma marked_allocated (h : Framed s) (hb : s.sb.Data b) {c : ℕ} (hc : c < s.sb.size) :
    s.sb.marked (allocated s b).disk c = true ↔ c = b ∨ s.sb.marked s.disk c = true := by
  have hne : s.sb.BBLOCK c ≠ b := (h.laid.BBLOCK_lt hb hc).ne
  have hzero : s.sb.marked (allocated s b).disk c =
      s.sb.marked (update s.disk (s.sb.BBLOCK b) (setBit (s.disk (s.sb.BBLOCK b)) (b%BPB))) c :=
    Superblock.marked_congr (update_of_ne hne ..)
  rw [hzero,Superblock.marked_setBit]

lemma freeBlocks_congr (hsb : s'.sb = s.sb)
    (h : ∀ c < s.sb.size, s'.sb.marked s'.disk c = s.sb.marked s.disk c) :
    s'.freeBlocks = s.freeBlocks := by
  rw [freeBlocks,freeBlocks,hsb]
  congr 1
  apply filter_congr
  intro c hc
  have hmark := h c (mem_range.mp hc)
  rw [hsb] at hmark
  rw [hmark]

lemma freeBlocks_allocated (h : Framed s) (hb : s.sb.Data b) (hfree : s.sb.marked s.disk b = false) :
    (allocated s b).freeBlocks+1 = s.freeBlocks := by
  have herase : ((Finset.range s.sb.size).filter fun c => s.sb.marked (allocated s b).disk c = false) =
      ((Finset.range s.sb.size).filter fun c => s.sb.marked s.disk c = false).erase b := by
    ext c
    simp only [mem_filter,mem_erase,mem_range]
    constructor
    · rintro ⟨hc,hmark⟩
      rw [← Bool.not_eq_true,marked_allocated h hb hc,not_or,Bool.not_eq_true] at hmark
      exact ⟨hmark.1,hc,hmark.2⟩
    · rintro ⟨hne,hc,hmark⟩
      refine ⟨hc,?_⟩
      rw [← Bool.not_eq_true,marked_allocated h hb hc,not_or,Bool.not_eq_true]
      exact ⟨hne,hmark⟩
  rw [freeBlocks]
  change ((Finset.range s.sb.size).filter fun c => s.sb.marked (allocated s b).disk c =
    false).card+1 = _
  rw [herase]
  exact card_erase_add_one (by simp [hb.2,hfree])

lemma Framed.lt_size (s : Store) {c : ℕ} (hc : c < s.sb.datastart) : c < s.sb.size :=
  hc.trans_le (Nat.sub_le ..)

lemma Framed.allocated (h : Framed s) (hb : s.sb.Data b) : Framed (allocated s b) where
  laid := h.laid
  superblock := by
    have hne : 1 ≠ b := (h.laid.one_lt_data hb).ne
    have hne' : 1 ≠ s.sb.BBLOCK b := (h.laid.one_lt_BBLOCK b).ne
    change Superblock.ofSector (update (update s.disk _ _) b _ 1) = s.sb
    rw [update_of_ne hne,update_of_ne hne',h.superblock]
  low c hc := (marked_allocated h hb (lt_size s hc)).mpr (.inr (h.low c hc))

lemma freeBlocks_written (h : Framed s) (hx : s.sb.Data x) (data : Sector) :
    (written s x data).freeBlocks = s.freeBlocks :=
  freeBlocks_congr rfl fun _ hc => marked_write h hx data hc

lemma Framed.written (h : Framed s) (hx : s.sb.Data x) (data : Sector) : Framed (written s x data) where
  laid := h.laid
  superblock := by
    have hne : 1 ≠ x := (h.laid.one_lt_data hx).ne
    change Superblock.ofSector (update s.disk x data 1) = s.sb
    rw [update_of_ne hne,h.superblock]
  low c hc := (marked_write h hx data (lt_size s hc)).trans (h.low c hc)

lemma Changes.allocated (s : Store) (hb : b < s.sb.size) :
    Changes (fun x => s.IsMap x ∨ x = b) s (allocated s b) where
  sb := rfl
  disk x hx := by
    rw [not_or] at hx
    have hne : x ≠ s.sb.BBLOCK b := fun heq => hx.1 ⟨b,hb,heq⟩
    exact (update_of_ne hx.2 ..).trans (update_of_ne hne ..)
  logged x hx := by
    simp only [Store.allocated,List.mem_append,List.mem_singleton] at hx
    obtain (hx | rfl) | rfl := hx
    · exact .inl hx
    · exact .inr (.inl ⟨b,hb,rfl⟩)
    · exact .inr (.inr rfl)
  outstanding := rfl

namespace Owning

lemma data_indirect (h : Owning s T) (hi : (T i).indirect ≠ 0) :
    s.sb.Data (T i).indirect.toNat ∧ s.sb.marked s.disk (T i).indirect.toNat = true := by
  have hzero : refs s.disk T (i,.indirect) ≠ 0 := fun hz => hi (BitVec.eq_of_toNat_eq hz)
  exact ⟨h.owned.inside (i,.indirect) hzero,h.owned.taken_ref hzero⟩

lemma indirect_ne (h : Owning s T) (hi : (T i).indirect ≠ 0) (j : ℕ) (hj : j ≠ i) :
    (T j).indirect ≠ (T i).indirect := by
  intro heq
  have hzero : refs s.disk T (i,.indirect) ≠ 0 := fun hz => hi (BitVec.eq_of_toNat_eq hz)
  have honce := h.owned.once (i,.indirect) (j,.indirect) hzero (congrArg BitVec.toNat heq.symm)
  exact hj (congrArg Prod.fst honce).symm

section

variable (h : Owning s T) (hb : s.sb.Data b) (hfree : s.sb.marked s.disk b = false)
include h hb hfree

lemma refs_allocated :
    refs (allocated s b).disk T = refs s.disk T := by
  have hindirect : ∀ j, (T j).indirect ≠ 0 → (T j).indirect.toNat ≠ b ∧
      (T j).indirect.toNat ≠ s.sb.BBLOCK b := by
    intro j hj
    obtain ⟨hdata,hmarked⟩ := h.data_indirect hj
    refine ⟨?_,(h.laid.BBLOCK_lt hdata hb.2).ne'⟩
    rintro rfl
    exact Bool.false_ne_true (hfree.symm.trans hmarked)
  have hmap : refs (update s.disk (s.sb.BBLOCK b) (setBit (s.disk (s.sb.BBLOCK b)) (b%BPB))) T =
      refs s.disk T := refs_update_disk fun j hj => (hindirect j hj).2
  rw [← hmap]
  exact refs_update_disk fun j hj => (hindirect j hj).1

lemma allocated {q : ℕ×Place}
    (hq : refs s.disk T q = 0) : Allotted s.sb.Data (update (refs s.disk T) q b)
      fun c => s.sb.marked (allocated s b).disk c = true := by
  have htake := h.owned.take hq hb (by rw [hfree]; exact Bool.false_ne_true)
  exact htake.congr fun c hc => marked_allocated h.toFramed hb hc.2

/-- A block that some place refers to is not changed by `balloc`. -/
lemma disk_allocated {q : ℕ×Place}
    (hq : refs s.disk T q ≠ 0) : (Store.allocated s b).disk (refs s.disk T q) =
      s.disk (refs s.disk T q) := by
  have hdata := h.owned.inside q hq
  have hne : refs s.disk T q ≠ b := by
    intro heq
    have hmarked := h.owned.taken_ref hq
    rw [heq,hfree] at hmarked
    exact Bool.false_ne_true hmarked
  exact (update_of_ne hne ..).trans (update_of_ne (h.laid.BBLOCK_lt hdata hb.2).ne' ..)

end

lemma toNat_ofNat (h : Framed s) (hb : s.sb.Data b) : (BitVec.ofNat 32 b).toNat = b := by
  have hlt := hb.2.trans h.laid.size_lt
  rw [BitVec.toNat_ofNat,Nat.mod_eq_of_lt hlt]

lemma ofNat_ne_zero (h : Framed s) (hb : s.sb.Data b) : BitVec.ofNat 32 b ≠ 0 := by
  intro hz
  have hzero := congrArg BitVec.toNat hz
  rw [toNat_ofNat h hb] at hzero
  have hone := h.laid.one_lt_data hb
  rw [hzero] at hone
  exact absurd hone (by decide)

lemma zero_ne (h : Framed s) (hb : s.sb.Data b) : b ≠ 0 := by
  have hone := h.laid.one_lt_data hb
  omega

end Owning

/-! ### `bmap` -/

/-- Inode `i` is the one in memory: the table has what the cache has. -/
def tableWith (T : ℕ → Dinode) (i : ℕ) (s : Store) : ℕ → Dinode := update T i (s.icache i).din

/-- `bmap` of inode `i` has returned `b`, which is at place `p` now. Whatever else there was is
there still. -/
structure Mapped (T : ℕ → Dinode) (i : ℕ) (p : Place) (s : Store) (b : ℕ) (s' : Store) : Prop where
  owning : Owning s' (tableWith T i s')
  cache : s'.icache = update s.icache i { s.icache i with din := (s'.icache i).din }
  same : (s'.icache i).din = { (s.icache i).din with
    direct := (s'.icache i).din.direct, indirect := (s'.icache i).din.indirect }
  here : refs s'.disk (tableWith T i s') (i,p) = b
  taken : b ≠ 0
  others : ∀ q, q ≠ (i,p) → q ≠ (i,.indirect) → refs s'.disk (tableWith T i s') q =
    refs s.disk (tableWith T i s) q
  kept : ∀ q, q ≠ (i,.indirect) → refs s.disk (tableWith T i s) q ≠ 0 →
    s'.disk (refs s.disk (tableWith T i s) q) = s.disk (refs s.disk (tableWith T i s) q)
  found : refs s.disk (tableWith T i s) (i,p) ≠ 0 → s' = s
  indirect : (∀ j, p = .entry j → (s.icache i).din.indirect ≠ 0) → (s'.icache i).din.indirect =
    (s.icache i).din.indirect
  changes : Changes (fun x => s.IsMap x ∨ x = b ∨ (s'.icache i).din.indirect ≠ 0 ∧
    x = (s'.icache i).din.indirect.toNat) s s'
  spent : s'.freeBlocks+(s.icache i).din.lacks s.disk p = s.freeBlocks

/-- The state after `balloc`, with a changed inode in memory. -/
def withDin (s : Store) (i : ℕ) (d : Dinode) : Store :=
  { s with icache := update s.icache i { s.icache i with din := d } }

lemma Framed.withDin (h : Framed s) (d : Dinode) : Framed (withDin s i d) := ⟨h.laid,h.superblock,h.low⟩

@[simp] lemma din_withDin (d : Dinode) : ((withDin s i d).icache i).din = d := by simp [withDin]

lemma tableWith_withDin (d : Dinode) : tableWith T i (withDin s i d) = update T i d := by
  rw [tableWith,din_withDin]

lemma tableWith_self : tableWith T i s i = (s.icache i).din := update_self ..

lemma update_tableWith (d : Dinode) : update (tableWith T i s) i d = update T i d :=
  update_idem ..

section
variable {l : Fin NDIRECT} {j : Fin NINDIRECT}

section

variable (h : Owning s (tableWith T i s))
include h

lemma refs_withDirect (hb : s.sb.Data b) (hfree : s.sb.marked s.disk b = false) :
    refs (allocated s b).disk (update T i { (s.icache i).din with
        direct := update (s.icache i).din.direct l (.ofNat 32 b) }) =
      update (refs s.disk (tableWith T i s)) (i,.direct l) b := by
  have hrefs : refs (allocated s b).disk (update (tableWith T i s) i { tableWith T i s i with
      direct := update (tableWith T i s i).direct l (.ofNat 32 b) }) =
        update (refs (allocated s b).disk (tableWith T i s)) (i,.direct l) (BitVec.ofNat 32 b).toNat :=
    refs_direct l
  rwa [tableWith_self,update_tableWith,h.refs_allocated hb hfree,
    Owning.toNat_ofNat h.toFramed hb] at hrefs

lemma refs_withIndirect (hb : s.sb.Data b) (hfree : s.sb.marked s.disk b = false)
    (hi : (s.icache i).din.indirect = 0) :
    refs (allocated s b).disk (update T i { (s.icache i).din with indirect := .ofNat 32 b }) =
      update (refs s.disk (tableWith T i s)) (i,.indirect) b := by
  have hempty : ∀ j, word ((allocated s b).disk (BitVec.ofNat 32 b).toNat) j = 0 := by
    intro j
    have hzero : (allocated s b).disk b = fun _ => 0 := update_self ..
    rw [Owning.toNat_ofNat h.toFramed hb,hzero]
    rfl
  have hrefs : refs (allocated s b).disk (update (tableWith T i s) i { tableWith T i s i with
      indirect := .ofNat 32 b }) =
        update (refs (allocated s b).disk (tableWith T i s)) (i,.indirect) (BitVec.ofNat 32 b).toNat :=
    refs_indirect (by rw [tableWith_self,hi]) hempty
  rwa [tableWith_self,update_tableWith,h.refs_allocated hb hfree,
    Owning.toNat_ofNat h.toFramed hb] at hrefs

lemma Mapped.already {p : Place} (hp : refs s.disk (tableWith T i s) (i,p) = b)
    (hb : b ≠ 0) : Mapped T i p s b s where
  owning := h
  cache := (update_eq_self ..).symm
  same := rfl
  here := hp
  taken := hb
  others _ _ _ := rfl
  kept _ _ _ := rfl
  found _ := rfl
  indirect _ := rfl
  changes := .refl ..
  spent := by
    have href : (s.icache i).din.ref s.disk p = b := by rwa [refs,tableWith_self] at hp
    rw [Dinode.lacks_of_ref (href ▸ hb),Nat.add_zero]

lemma Mapped.direct (hb : s.sb.Data b) (hfree : s.sb.marked s.disk b = false)
    (hl : (s.icache i).din.direct l = 0) : Mapped T i (.direct l) s b
      (withDin (allocated s b) i { (s.icache i).din with
        direct := update (s.icache i).din.direct l (.ofNat 32 b) }) := by
  have hrefs := refs_withDirect (l := l) h hb hfree
  have hzero : refs s.disk (tableWith T i s) (i,.direct l) = 0 := by
    simp [refs,Dinode.ref,tableWith_self,hl]
  exact {
    owning := by
      refine ⟨(h.toFramed.allocated hb).withDin _,?_⟩
      rw [tableWith_withDin]
      have howned := h.allocated hb hfree hzero
      rwa [← hrefs] at howned
    cache := by
      rw [din_withDin]
      rfl
    same := by rw [din_withDin]
    here := by
      rw [tableWith_withDin]
      exact (congrFun hrefs _).trans (update_self ..)
    taken := Owning.zero_ne h.toFramed hb
    others := by
      intro q hq _
      rw [tableWith_withDin]
      exact (congrFun hrefs q).trans (update_of_ne hq ..)
    kept := fun q _ hq => h.disk_allocated hb hfree hq
    found := fun hne => absurd hzero hne
    indirect := by
      rw [din_withDin]
      exact fun _ => rfl
    changes := ((Changes.allocated s hb.2).cache _).mono fun x hx => hx.imp_right .inl
    spent := by
      have hlacks : (s.icache i).din.lacks s.disk (.direct l) = 1 := by
        simp [Dinode.lacks,Dinode.ref,hl]
      rw [hlacks]
      exact freeBlocks_allocated h.toFramed hb hfree }

end

/-- A new block has been entered into the indirect block of inode `i`. -/
def entered (s : Store) (i j b : ℕ) : Store := written (allocated s b) (s.icache i).din.indirect.toNat
  (setWord (s.disk (s.icache i).din.indirect.toNat) j (.ofNat 32 b))

section

variable (h : Owning s (tableWith T i s)) (hb : s.sb.Data b) (hfree : s.sb.marked s.disk b = false)
  (hi : (s.icache i).din.indirect ≠ 0)
include h hb hfree hi

lemma refs_entered : refs (entered s i j b).disk (tableWith T i s) =
      update (refs s.disk (tableWith T i s)) (i,.entry j) b := by
  have hi' : (tableWith T i s i).indirect ≠ 0 := by rwa [tableWith_self]
  have hzero : refs s.disk (tableWith T i s) (i,.indirect) ≠ 0 :=
    fun hz => hi' (BitVec.eq_of_toNat_eq hz)
  have hdisk := h.disk_allocated hb hfree hzero
  have hrefs : refs (update (allocated s b).disk (tableWith T i s i).indirect.toNat
      (setWord ((allocated s b).disk (tableWith T i s i).indirect.toNat) j (.ofNat 32 b)))
        (tableWith T i s) =
        update (refs (allocated s b).disk (tableWith T i s)) (i,.entry j) (BitVec.ofNat 32 b).toNat :=
    refs_entry hi' (h.indirect_ne hi') j
  rw [h.refs_allocated hb hfree,Owning.toNat_ofNat h.toFramed hb] at hrefs
  rw [← hrefs]
  change _ = refs
    (update _ _ (setWord ((allocated s b).disk (refs s.disk (tableWith T i s) (i,.indirect))) _ _))
    _
  rw [hdisk]
  simp only [refs,Dinode.ref,tableWith_self]
  rfl

lemma Mapped.entry (hj : word (s.disk (s.icache i).din.indirect.toNat) j = 0) :
    Mapped T i (.entry j) s b (entered s i j b) := by
  have hrefs := refs_entered (j := j) h hb hfree hi
  have hindirect : refs s.disk (tableWith T i s) (i,.indirect) = (s.icache i).din.indirect.toNat := by
    simp [refs,Dinode.ref,tableWith_self]
  have hnonzero : refs s.disk (tableWith T i s) (i,.indirect) ≠ 0 :=
    fun hz => hi (BitVec.eq_of_toNat_eq (hindirect.symm.trans hz))
  have hdata : s.sb.Data (s.icache i).din.indirect.toNat := hindirect ▸ h.owned.inside _ hnonzero
  have hzero : refs s.disk (tableWith T i s) (i,.entry j) = 0 := by
    simp [refs,Dinode.ref,tableWith_self,hj]
  have htable : tableWith T i (entered s i j b) = tableWith T i s := rfl
  exact {
    owning := by
      refine ⟨(h.toFramed.allocated hb).written hdata _,?_⟩
      have howned := h.allocated hb hfree hzero
      rw [htable,hrefs]
      refine howned.congr fun c hc => ?_
      have hmark := marked_write (h.toFramed.allocated hb) hdata
        (setWord (s.disk (s.icache i).din.indirect.toNat) j (.ofNat 32 b)) hc.2
      exact iff_of_eq (congrArg (· = true) hmark)
    cache := (update_eq_self ..).symm
    same := rfl
    here := by rw [htable,hrefs,update_self]
    taken := Owning.zero_ne h.toFramed hb
    others := by
      intro q hq _
      rw [htable,hrefs,update_of_ne hq]
    kept := by
      intro q hq hne
      have hapart : refs s.disk (tableWith T i s) q ≠ (s.icache i).din.indirect.toNat := by
        intro heq
        exact hq (h.owned.once q (i,.indirect) hne (heq.trans hindirect.symm))
      exact (update_of_ne hapart ..).trans (h.disk_allocated hb hfree hne)
    found := fun hne => absurd hzero hne
    indirect := fun _ => rfl
    changes := by
      refine ((Changes.allocated s hb.2).mono fun x hx => hx.imp_right .inl).trans ?_
      exact (Changes.written ..).mono fun x hx => .inr (.inr ⟨hi,hx⟩)
    spent := by
      have hlacks : (s.icache i).din.lacks s.disk (.entry j) = 1 := by
        simp only [Dinode.lacks,Dinode.ref,if_neg hi,hj]
        rfl
      rw [hlacks,entered,freeBlocks_written (h.toFramed.allocated hb) hdata]
      exact freeBlocks_allocated h.toFramed hb hfree }

end

/-- After `balloc` for the indirect block. -/
def withIndirect (s : Store) (i b : ℕ) : Store :=
  withDin (allocated s b) i { (s.icache i).din with indirect := .ofNat 32 b }

section

variable (h : Owning s (tableWith T i s)) (hb : s.sb.Data b) (hfree : s.sb.marked s.disk b = false)
  (hi : (s.icache i).din.indirect = 0)
include h hb hfree hi

lemma Owning.withIndirect : Owning (withIndirect s i b) (tableWith T i (withIndirect s i b)) := by
  have hrefs := refs_withIndirect h hb hfree hi
  have hzero : refs s.disk (tableWith T i s) (i,.indirect) = 0 := by
    simp [refs,Dinode.ref,tableWith_self,hi]
  refine ⟨(h.toFramed.allocated hb).withDin _,?_⟩
  rw [Store.withIndirect,tableWith_withDin]
  have howned := h.allocated hb hfree hzero
  rwa [← hrefs] at howned

lemma Mapped.after_indirect {c : ℕ}
    (hmapped : Mapped T i (.entry j) (withIndirect s i b) c s') : Mapped T i (.entry j) s c s' := by
  have hdin : ((withIndirect s i b).icache i).din =
    { (s.icache i).din with indirect := .ofNat 32 b } := din_withDin _
  have hrefs := refs_withIndirect h hb hfree hi
  have htable : tableWith T i (withIndirect s i b) =
      update T i { (s.icache i).din with indirect := .ofNat 32 b } := tableWith_withDin _
  have hindirect : (s'.icache i).din.indirect = .ofNat 32 b := by
    have hsame := hmapped.indirect fun _ _ => by rw [hdin]; exact Owning.ofNat_ne_zero h.toFramed hb
    rwa [hdin] at hsame
  have hold : ∀ q, q ≠ (i,.indirect) →
      refs (withIndirect s i b).disk (tableWith T i (withIndirect s i b)) q =
        refs s.disk (tableWith T i s) q := by
    intro q hq
    rw [htable]
    exact (congrFun hrefs q).trans (update_of_ne hq ..)
  have hzero : refs s.disk (tableWith T i s) (i,.entry j) = 0 := by
    simp [refs,Dinode.ref,tableWith_self,hi]
  exact {
    owning := hmapped.owning
    cache := by
      rw [hmapped.cache]
      simp [Store.withIndirect,Store.withDin,allocated]
    same := by
      have hsame := hmapped.same
      rw [hdin] at hsame
      exact hsame
    here := hmapped.here
    taken := hmapped.taken
    others := fun q hq hq' => (hmapped.others q hq hq').trans (hold q hq')
    kept := by
      intro q hq hne
      have hkept := hmapped.kept q hq (hold q hq ▸ hne)
      rw [hold q hq] at hkept
      exact hkept.trans (h.disk_allocated hb hfree hne)
    found := fun hne => absurd hzero hne
    indirect := fun hne => absurd hi (hne j rfl)
    changes := by
      have hfirst : Changes (fun x => s.IsMap x ∨ x = b) s (withIndirect s i b) :=
        (Changes.allocated s hb.2).cache _
      refine (hfirst.mono fun x hx => hx.imp_right fun heq => .inr ?_).trans hmapped.changes
      rw [hindirect,Owning.toNat_ofNat h.toFramed hb,heq]
      exact ⟨Owning.ofNat_ne_zero h.toFramed hb,rfl⟩
    spent := by
      have hfree' := freeBlocks_allocated h.toFramed hb hfree
      have hspent := hmapped.spent
      have hlacks : (s.icache i).din.lacks s.disk (.entry j) = 2 := by
        simp [Dinode.lacks,Dinode.ref,hi]
      have hlacks' :
          ((withIndirect s i b).icache i).din.lacks (withIndirect s i b).disk (.entry j) = 1 := by
        have href : ((withIndirect s i b).icache i).din.ref (withIndirect s i b).disk (.entry j) =
            0 := by
          have hentry := (hold (i,.entry j) (by simp)).trans hzero
          rwa [refs,tableWith_self] at hentry
        have hne : ((withIndirect s i b).icache i).din.indirect ≠ 0 := by
          rw [hdin]
          exact Owning.ofNat_ne_zero h.toFramed hb
        simp only [Dinode.lacks,href,if_true,if_neg hne]
      have hsame : (withIndirect s i b).freeBlocks = (allocated s b).freeBlocks := rfl
      omega }

end

end

lemma setDin_meets {f : Dinode → Dinode} (h : Q () (withDin s i (f (s.icache i).din))) :
    Meets E (setDin i f) s Q := .update h

lemma bread_meets {Q : Sector → Store → Prop} (h : Q (s.disk b) s) : Meets E (bread b) s Q :=
  .bind (.get (.pure h))

lemma bmapEntry_meets (h : Owning s (tableWith T i s)) (hi : (s.icache i).din.indirect ≠ 0)
    (j : Fin NINDIRECT)
    (hE : Affords E s ((s.icache i).din.lacks s.disk (.entry j))) (hL : Logs E s (s.pledged i+1)) :
    Meets E (bmapEntry (s.icache i).din.indirect.toNat j) s (Mapped T i (.entry j) s) := by
  have href : refs s.disk (tableWith T i s) (i,.entry j) =
      (word (s.disk (s.icache i).din.indirect.toNat) j).toNat := by
    simp only [refs,Dinode.ref,tableWith_self]
    exact if_neg hi
  refine .bind (bread_meets ?_)
  split_ifs with hword
  · have hlacks : (s.icache i).din.lacks s.disk (.entry j) = 1 := by
      simp only [Dinode.lacks,Dinode.ref,if_neg hi,hword]
      rfl
    rw [hlacks] at hE
    refine .bind (balloc_meets h.toFramed hE (hL.mono (Nat.le_succ _)) fun b hb hfree => ?_)
    refine .bind (logWrite_meets ((Changes.allocated s hb.2).logs {b} ?_ hL)
      (.pure (Mapped.entry h hb hfree hi hword)))
    rintro x (hmap | rfl)
    · exact mem_union_left _ hmap.mem_ledger
    · exact mem_union_right _ (mem_singleton_self x)
  · exact .pure (Mapped.already h href fun hz => hword (BitVec.eq_of_toNat_eq hz))

lemma bmap_meets {bn : ℕ} {p : Place} (h : Owning s (tableWith T i s)) (hp : Place.ofIndex bn = some p)
    (hE : Affords E s ((s.icache i).din.lacks s.disk p)) (hL : Logs E s (s.pledged i+1)) :
    Meets E (bmap i bn) s (Mapped T i p s) := by
  refine .bind (.get ?_)
  dsimp only
  split_ifs with hbn hzero hlt
  · obtain rfl : .direct ⟨bn,hbn⟩ = p := Option.some.inj ((Place.ofIndex_of_lt hbn).symm.trans hp)
    have hlacks : (s.icache i).din.lacks s.disk (.direct ⟨bn,hbn⟩) = 1 := by
      simp [Dinode.lacks,Dinode.ref,hzero]
    rw [hlacks] at hE
    refine .bind (balloc_meets h.toFramed hE (hL.mono (Nat.le_succ _)) fun b hb hfree => ?_)
    exact .bind (setDin_meets (.pure (Mapped.direct h hb hfree hzero)))
  · obtain rfl : .direct ⟨bn,hbn⟩ = p := Option.some.inj ((Place.ofIndex_of_lt hbn).symm.trans hp)
    refine .pure (Mapped.already h ?_ fun hz => hzero (BitVec.eq_of_toNat_eq hz))
    simp [refs,Dinode.ref,tableWith_self]
  · obtain rfl : .entry ⟨bn-NDIRECT,hlt⟩ = p :=
      Option.some.inj ((Place.ofIndex_of_le (Nat.le_of_not_lt hbn) hlt).symm.trans hp)
    refine .bind (.bind (.get ?_))
    dsimp only
    split_ifs with hi
    · have hlacks : (s.icache i).din.lacks s.disk (.entry ⟨bn-NDIRECT,hlt⟩) = 2 := by
        simp [Dinode.lacks,Dinode.ref,hi]
      rw [hlacks] at hE
      refine .bind (balloc_meets h.toFramed (hE.mono (by norm_num))
        (hL.mono (Nat.le_succ _)) fun b hb hfree => ?_)
      refine .bind (setDin_meets (.pure ?_))
      have hdin : ((withIndirect s i b).icache i).din =
        { (s.icache i).din with indirect := .ofNat 32 b } := din_withDin _
      have hne : ((withIndirect s i b).icache i).din.indirect ≠ 0 := by
        rw [hdin]
        exact Owning.ofNat_ne_zero h.toFramed hb
      have hE' : Affords E (withIndirect s i b)
          (((withIndirect s i b).icache i).din.lacks (withIndirect s i b).disk
            (.entry ⟨bn-NDIRECT,hlt⟩)) := by
        refine hE.imp_right fun htwo => ?_
        have hfree' := freeBlocks_allocated h.toFramed hb hfree
        have hsame : (withIndirect s i b).freeBlocks = (allocated s b).freeBlocks := rfl
        have hone : ((withIndirect s i b).icache i).din.lacks (withIndirect s i b).disk
            (.entry ⟨bn-NDIRECT,hlt⟩) ≤ 1 := by
          simp only [Dinode.lacks,if_neg hne]
          split_ifs <;> norm_num
        omega
      have hL' : Logs E (withIndirect s i b) ((withIndirect s i b).pledged i+1) := by
        have hchanges := (Changes.allocated s hb.2).cache (withIndirect s i b).icache
        have hpledged : (withIndirect s i b).pledged i ≤ s.pledged i+(∅ : Finset ℕ).card := by
          refine Changes.pledged_le (hchanges.mono ?_) fun h0 => absurd hi h0
          rintro x (hmap | rfl)
          · exact .inl hmap
          · refine .inr (.inr ⟨hne,?_⟩)
            rw [hdin,Owning.toNat_ofNat h.toFramed hb]
        exact hchanges.carry hL (Nat.add_le_add_right hpledged 1)
      have hentry := bmapEntry_meets (h.withIndirect hb hfree hi) hne ⟨bn-NDIRECT,hlt⟩ hE' hL'
      rw [hdin] at hentry
      dsimp only at hentry
      rw [Owning.toNat_ofNat h.toFramed hb] at hentry
      exact hentry.mono fun c s' hc => hc.after_indirect h hb hfree hi
    · exact .pure (bmapEntry_meets h hi ⟨bn-NDIRECT,hlt⟩ hE hL)
  · rw [Place.ofIndex,dif_neg hbn,dif_neg hlt] at hp
    cases hp

lemma IsMap.congr (h : s'.sb = s.sb) : s'.IsMap = s.IsMap := by
  unfold IsMap
  rw [h]

/-! ### The inodes on the disk -/

def table (s : Store) (j : ℕ) : Dinode := if j < s.sb.ninodes then s.sb.dinode s.disk j else .zero

lemma Changes.table (h : Changes X s s') (hX : ∀ j < s.sb.ninodes, ¬X (s.sb.IBLOCK j)) :
    s'.table = s.table := by
  funext j
  unfold Store.table
  rw [h.sb]
  split_ifs with hj
  · exact Superblock.dinode_congr (h.disk _ (hX j hj))
  · rfl

/-- After `iupdate` of inode `i`. -/
def updated (s : Store) (i : ℕ) : Store := { s with
  disk := update s.disk (s.sb.IBLOCK i)
    (Superblock.withDinode (s.disk (s.sb.IBLOCK i)) i (s.icache i).din)
  logged := s.logged++[s.sb.IBLOCK i] }

lemma iupdate_meets (hL : Logs E s s.lhN) (h : Q () (updated s i)) :
    Meets E (iupdate i) s Q := .bind (.get (.bind (bread_meets (logWrite_meets hL h))))

lemma pledged_updated : (updated s i).pledged i = s.pledged i := by
  have hledger : (updated s i).ledger i = s.ledger i := by
    unfold ledger updated maps
    ext x
    simp only [List.toFinset_append,List.toFinset_cons,List.toFinset_nil,mem_union,mem_insert]
    tauto
  rw [pledged,hledger]
  rfl

lemma table_updated (hi : i < s.sb.ninodes) : (updated s i).table = tableWith s.table i s := by
  funext j
  have hdinode : ∀ k, (updated s i).sb.dinode (updated s i).disk k =
      if k = i then (s.icache i).din else s.sb.dinode s.disk k := fun k =>
    Superblock.dinode_update_withDinode i k (s.icache i).din
  obtain rfl | hj := eq_or_ne j i
  · rw [tableWith_self,table,hdinode,if_pos rfl]
    exact if_pos hi
  · rw [tableWith,update_of_ne hj,table,hdinode,if_neg hj]
    rfl

lemma Changes.updated (s : Store) (i : ℕ) : Changes (· = s.sb.IBLOCK i) s (updated s i) where
  sb := rfl
  disk x hx := update_of_ne hx ..
  logged x hx := by
    simp only [Store.updated,List.mem_append,List.mem_singleton] at hx
    exact hx
  outstanding := rfl

lemma marked_updated (h : Framed s) (hi : i < s.sb.ninodes) (c : ℕ) :
    (updated s i).sb.marked (updated s i).disk c = s.sb.marked s.disk c := by
  have hlt := (h.laid.map i hi).trans_le (Nat.le_add_left s.sb.bmapstart (c/BPB))
  exact Superblock.marked_congr (update_of_ne hlt.ne' ..)

lemma Framed.updated (h : Framed s) (hi : i < s.sb.ninodes) : Framed (updated s i) where
  laid := h.laid
  superblock := by
    have hne : 1 ≠ s.sb.IBLOCK i := (h.laid.one_lt.trans_le (Nat.le_add_left ..)).ne
    change Superblock.ofSector (update s.disk _ _ 1) = s.sb
    rw [update_of_ne hne,h.superblock]
  low c hc := (marked_updated h hi c).trans (h.low c hc)

lemma Owning.updated (h : Owning s T) (hi : i < s.sb.ninodes) : Owning (updated s i) T := by
  refine ⟨h.toFramed.updated hi,?_⟩
  have hrefs : refs (Store.updated s i).disk T = refs s.disk T := by
    apply refs_update_disk
    intro j hj
    exact (h.laid.IBLOCK_lt (h.data_indirect hj).1 hi).ne'
  rw [hrefs]
  exact h.owned.congr fun c _ => by rw [marked_updated h.toFramed hi]

lemma freeBlocks_updated (h : Framed s) (hi : i < s.sb.ninodes) :
    (updated s i).freeBlocks = s.freeBlocks :=
  freeBlocks_congr rfl fun c _ => marked_updated h hi c

lemma Owning.withDin {d : Dinode} (h : Owning s (tableWith T i s))
    (hd : ∀ p, d.ref s.disk p = (s.icache i).din.ref s.disk p) :
    Owning (withDin s i d) (tableWith T i (withDin s i d)) := by
  refine ⟨h.toFramed.withDin d,?_⟩
  have hrefs : refs s.disk (update (tableWith T i s) i d) = refs s.disk (tableWith T i s) :=
    refs_update_of_ref_eq fun p => by rw [tableWith_self,hd p]
  rw [tableWith_withDin,← update_tableWith]
  change Allotted s.sb.Data (refs s.disk _) _
  rw [hrefs]
  exact h.owned

lemma not_isMap_IBLOCK (h : s.sb.Laid) (hi : i < s.sb.ninodes) : ¬s.IsMap (s.sb.IBLOCK i) := by
  rintro ⟨b,-,heq⟩
  have hlt := (h.map i hi).trans_le (Nat.le_add_left s.sb.bmapstart (b/BPB))
  exact hlt.ne heq

end Store
end JacobiXv6.FileSystem
