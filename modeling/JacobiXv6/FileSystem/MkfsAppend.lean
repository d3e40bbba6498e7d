import JacobiXv6.FileSystem.Mkfs
import JacobiXv6.FileSystem.Bytes

/-! How `iappend` gives out blocks. They are taken one after the other, and an inode refers to as
many as its size needs. -/
namespace JacobiXv6.FileSystem
open Library Function List
namespace Mkfs

def Data (b : ℕ) : Prop := nmeta ≤ b ∧ b < FSSIZE

def table (m : Mkfs) (i : ℕ) : Dinode := if 1 ≤ i ∧ i < m.freeinode then sb.dinode m.img i else .zero

/-- A write for an inode or for data is one to neither the bitmap nor past the image. -/
def Harmless (w : Purpose×ℕ) : Prop := w.1 = .inode ∨ w.1 = .data → w.2 ≠ sb.bmapstart ∧ w.2 < FSSIZE

lemma nmeta_eq : nmeta = 59 := rfl
lemma bmapstart_eq : sb.bmapstart = 58 := rfl
lemma FSSIZE_eq : FSSIZE = 1000 := rfl

lemma seek_of_le {sec : ℕ} (h : sec ≤ FSSIZE+1) : seek sec = sec := by
  simp only [seek,FSSIZE,BSIZE] at h ⊢
  omega

lemma IBLOCK_lt {i : ℕ} (h : i < 208) : sb.IBLOCK i < sb.bmapstart := by
  have : sb.inodestart = 32 := rfl
  simp only [Superblock.IBLOCK,IPB,bmapstart_eq]
  omega

/-- The image as far as it does not depend on the inodes. -/
structure Framed (m : Mkfs) : Prop where
  sectors : m.sectors = FSSIZE
  inodes : m.freeinode ≤ 208
  start : nmeta ≤ m.freeblock
  fresh : ∀ b, m.freeblock ≤ b → b < FSSIZE → m.img b = zeroes
  writes : ∀ w ∈ m.writes, Harmless w

/-- The blocks given out so far are those that the inodes of `T` refer to. Some inodes of `T` may
not have been written to the image yet. -/
structure Owning (m : Mkfs) (T : ℕ → Dinode) : Prop extends Framed m where
  owned : Allotted Data (refs m.img T) (· < m.freeblock)

variable {m : Mkfs} {T : ℕ → Dinode} {i : ℕ}

lemma Framed.next (h : Framed m) : Framed { m with freeblock := m.freeblock+1 } where
  sectors := h.sectors
  inodes := h.inodes
  start := h.start.trans (Nat.le_succ _)
  fresh b hb := h.fresh b (Nat.le_of_succ_le hb)
  writes := h.writes

variable {buf : Sector}

lemma Framed.put (h : Framed m) {p : Purpose} {x : ℕ} (hx : x < m.freeblock) (hlt : x < FSSIZE)
    (hp : Harmless (p,x)) : Framed (put p x buf m) where
  sectors := by
    have hsectors := h.sectors
    dsimp only [Mkfs.put]
    omega
  inodes := h.inodes
  start := h.start
  fresh b hb hb' := by
    have hne : b ≠ x := by
      dsimp only [Mkfs.put] at hb
      omega
    exact (update_of_ne hne ..).trans (h.fresh b hb hb')
  writes w hw := by
    obtain hw | hw := mem_append.mp hw
    · exact h.writes w hw
    · exact mem_singleton.mp hw ▸ hp

lemma harmless_data {x : ℕ} (hx : Data x) : Harmless (.data,x) := by
  intro _
  have := bmapstart_eq
  have := nmeta_eq
  exact ⟨by have := hx.1; dsimp only; omega,hx.2⟩

namespace Owning

lemma ofNat_freeblock (h : m.freeblock ≤ FSSIZE) :
    (BitVec.ofNat 32 m.freeblock).toNat = m.freeblock := by
  simp only [FSSIZE,BitVec.toNat_ofNat] at h ⊢
  omega

lemma ref_lt (h : Owning m T) {q : ℕ×Place} (hq : refs m.img T q ≠ 0) : refs m.img T q < m.freeblock :=
  h.owned.taken_ref hq

lemma data_ref (h : Owning m T) {q : ℕ×Place} (hq : refs m.img T q ≠ 0) : Data (refs m.img T q) :=
  h.owned.inside q hq

lemma data_indirect (h : Owning m T) (hi : (T i).indirect ≠ 0) : Data (T i).indirect.toNat :=
  h.data_ref (q := (i,.indirect)) fun hz => hi (BitVec.eq_of_toNat_eq hz)

section

variable (h : Owning m T) (hroom : m.freeblock < FSSIZE)
include h hroom

lemma give (q : ℕ×Place) (hq : refs m.img T q = 0) :
    Allotted Data (update (refs m.img T) q m.freeblock) (· < m.freeblock+1) := by
  have htake := h.owned.take hq ⟨h.start,hroom⟩ (lt_irrefl m.freeblock)
  apply htake.congr
  intro b _
  omega

lemma give_direct {l : Fin NDIRECT} (hl : (T i).direct l = 0) :
    Owning { m with freeblock := m.freeblock+1 } (update T i
      { T i with direct := update (T i).direct l (.ofNat 32 m.freeblock) }) := by
  have hgive := h.give hroom (i,.direct l) (by simp [refs,Dinode.ref,hl])
  refine ⟨h.next,?_⟩
  rwa [refs_direct,ofNat_freeblock hroom.le]

lemma refs_give_indirect (hi : (T i).indirect = 0) :
    refs m.img (update T i { T i with indirect := .ofNat 32 m.freeblock }) =
      update (refs m.img T) (i,.indirect) m.freeblock := by
  rw [refs_indirect hi,ofNat_freeblock hroom.le]
  intro j
  rw [ofNat_freeblock hroom.le,h.fresh _ le_rfl hroom]
  rfl

lemma give_indirect (hi : (T i).indirect = 0) :
    Owning { m with freeblock := m.freeblock+1 } (update T i
      { T i with indirect := .ofNat 32 m.freeblock }) := by
  have hgive := h.give hroom (i,.indirect) (by simp [refs,Dinode.ref,hi])
  refine ⟨h.next,?_⟩
  rwa [h.refs_give_indirect hroom hi]

end

lemma indirect_ne (h : Owning m T) (hi : (T i).indirect ≠ 0) (j : ℕ) (hj : j ≠ i) :
    (T j).indirect ≠ (T i).indirect := by
  intro heq
  have hzero : refs m.img T (i,.indirect) ≠ 0 := fun hz => hi (BitVec.eq_of_toNat_eq hz)
  have honce := h.owned.once (i,.indirect) (j,.indirect) hzero (congrArg BitVec.toNat heq.symm)
  exact hj (congrArg Prod.fst honce).symm

/-- The image after a new block has been entered into an indirect block. -/
def entered (m : Mkfs) (x : ℕ) (l : ℕ) : Mkfs :=
  Mkfs.put .data x (setWord (m.img x) l (.ofNat 32 m.freeblock)) { m with freeblock := m.freeblock+1 }

lemma refs_entered (h : Owning m T) (hroom : m.freeblock < FSSIZE) (hi : (T i).indirect ≠ 0)
    (l : Fin NINDIRECT) :
    refs (entered m (T i).indirect.toNat l).img T = update (refs m.img T) (i,.entry l) m.freeblock := by
  rw [← ofNat_freeblock hroom.le]
  exact refs_entry hi (h.indirect_ne hi) l

lemma give_entry (h : Owning m T) (hroom : m.freeblock < FSSIZE) (hi : (T i).indirect ≠ 0)
    {l : Fin NINDIRECT} (hl : word (m.img (T i).indirect.toNat) l = 0) :
    Owning (entered m (T i).indirect.toNat l) T := by
  have hzero : refs m.img T (i,.indirect) ≠ 0 := fun hz => hi (BitVec.eq_of_toNat_eq hz)
  have hgive := h.give hroom (i,.entry l) (by simp [refs,Dinode.ref,hl])
  have hdata := h.data_indirect hi
  refine ⟨h.next.put ?_ hdata.2 (harmless_data hdata),?_⟩
  · exact (h.ref_lt hzero).trans (Nat.lt_succ_self _)
  · rwa [h.refs_entered hroom hi]

lemma refs_put (h : Owning m T) {x : ℕ} (buf : Sector) {p : Place} (hp : refs m.img T (i,p) = x)
    (hx : x ≠ 0) (hcontents : p ≠ .indirect) : refs (update m.img x buf) T = refs m.img T := by
  apply refs_update_disk
  intro j _ hj
  have honce := h.owned.once (i,p) (j,.indirect) (hp ▸ hx) (hp.trans hj.symm)
  exact hcontents (congrArg Prod.snd honce)

lemma put_contents (h : Owning m T) {x : ℕ} (buf : Sector) {p : Place} (hp : refs m.img T (i,p) = x)
    (hx : x ≠ 0) (hcontents : p ≠ .indirect) : Owning (Mkfs.put .data x buf m) T := by
  have hdata : Data x := hp ▸ h.data_ref (hp ▸ hx)
  have hlt : x < m.freeblock := hp ▸ h.ref_lt (hp ▸ hx)
  refine ⟨h.put hlt hdata.2 (harmless_data hdata),?_⟩
  have howned := h.owned
  rwa [← h.refs_put buf hp hx hcontents] at howned

end Owning

/-! ### The functions -/

variable {E : String → Prop} {d d' : Dinode} {x fbn : ℕ} {m' : Mkfs}

lemma rsect_meets {sec : ℕ} {Q : Sector → Mkfs → Prop} (hsectors : m.sectors = FSSIZE)
    (hsec : sec ≤ FSSIZE+1)
    (hread : sec < FSSIZE → Q (m.img sec) m) (hfail : FSSIZE ≤ sec → E "read") :
    Meets E (rsect sec) m Q := by
  refine .bind (.get ?_)
  rw [seek_of_le hsec,hsectors]
  split_ifs with hlt
  · exact .pure (hread hlt)
  · exact .throw (hfail (Nat.le_of_not_lt hlt))

lemma wsect_meets {p : Purpose} {sec : ℕ} {Q : Unit → Mkfs → Prop} (hsec : sec ≤ FSSIZE+1)
    (h : Q () (put p sec buf m)) : Meets E (wsect p sec buf) m Q := by
  refine .update ?_
  rwa [seek_of_le hsec]

/-- A block of inode `i` has been found or taken: the inode has become `d'`, the number at the place
of the block is `x`, and no other inode has changed. -/
structure Mapped (m : Mkfs) (T : ℕ → Dinode) (i : ℕ) (p : Place) (d' : Dinode) (x : ℕ)
    (m' : Mkfs) : Prop where
  owning : Owning m' (update T i d')
  here : refs m'.img (update T i d') (i,p) = x
  taken : x ≠ 0
  others : ∀ q, q ≠ (i,p) → q ≠ (i,.indirect) → refs m'.img (update T i d') q = refs m.img T q
  same : d' = { T i with direct := d'.direct, indirect := d'.indirect }
  low : ∀ b < nmeta, m'.img b = m.img b
  inodes : m'.freeinode = m.freeinode
  last : m'.freeblock ≤ FSSIZE

variable {p : Place}

lemma Owning.mapped (h : Owning m T) (hlast : m.freeblock ≤ FSSIZE) (hx : refs m.img T (i,p) = x)
    (hzero : x ≠ 0) :
    Mapped m T i p (T i) x m := by
  have hT : update T i (T i) = T := update_eq_self i T
  refine ⟨hT.symm ▸ h,hT.symm ▸ hx,hzero,fun q _ _ => by rw [hT],rfl,fun _ _ => rfl,rfl,hlast⟩

lemma newBlock_meets {Q : BitVec 32 → Mkfs → Prop}
    (h : Q (.ofNat 32 m.freeblock) { m with freeblock := m.freeblock+1 }) : Meets E newBlock m Q :=
  .bind (.get (.bind (.update (.pure h))))

/-- A result of `mapBlock` and its parts: the block may be the first one past the image. -/
def MapResult (m : Mkfs) (T : ℕ → Dinode) (i : ℕ) (p : Place) (r : Dinode×ℕ) (m' : Mkfs) : Prop :=
  m'.sectors = FSSIZE ∧ r.2 ≤ FSSIZE ∧ (r.2 < FSSIZE → Mapped m T i p r.1 r.2 m')

lemma ofNat_freeblock_ne (h : Framed m) (hlast : m.freeblock ≤ FSSIZE) :
    BitVec.ofNat 32 m.freeblock ≠ 0 := by
  intro hz
  have htoNat := congrArg BitVec.toNat hz
  rw [Owning.ofNat_freeblock hlast] at htoNat
  have hstart := h.start
  rw [nmeta_eq,htoNat] at hstart
  exact absurd hstart (by decide)

lemma Owning.mapResult (h : Owning m T) (hlast : m.freeblock ≤ FSSIZE) (hx : refs m.img T (i,p) = x)
    (hzero : x ≠ 0) :
    MapResult m T i p (T i,x) m := by
  have hlt : x < FSSIZE := hx ▸ (h.data_ref (hx ▸ hzero)).2
  exact ⟨h.sectors,hlt.le,fun _ => h.mapped hlast hx hzero⟩

lemma mapDirect_result (h : Owning m T) (hlast : m.freeblock ≤ FSSIZE) {l : Fin NDIRECT}
    (hl : (T i).direct l = 0) :
    MapResult m T i (.direct l) ({ T i with direct := update (T i).direct l (.ofNat 32 m.freeblock) },
      (BitVec.ofNat 32 m.freeblock).toNat) { m with freeblock := m.freeblock+1 } := by
  rw [Owning.ofNat_freeblock hlast]
  refine ⟨h.sectors,hlast,fun hroom => ?_⟩
  have hrefs : refs m.img (update T i
      { T i with direct := update (T i).direct l (.ofNat 32 m.freeblock) }) =
        update (refs m.img T) (i,.direct l) m.freeblock := by
    rw [refs_direct,Owning.ofNat_freeblock hlast]
  refine ⟨h.give_direct hroom hl,?_,?_,?_,rfl,fun _ _ => rfl,rfl,hroom⟩
  · dsimp only
    rw [hrefs,update_self]
  · have := h.start
    have := nmeta_eq
    dsimp only
    omega
  · intro q hq _
    dsimp only
    rw [hrefs,update_of_ne hq]

variable {l : Fin NINDIRECT}

lemma mapEntry_result (h : Owning m T) (hlast : m.freeblock ≤ FSSIZE) (hi : (T i).indirect ≠ 0)
    (hl : word (m.img (T i).indirect.toNat) l = 0) :
    MapResult m T i (.entry l) (T i,m.freeblock) (Owning.entered m (T i).indirect.toNat l) := by
  have hT : update T i (T i) = T := update_eq_self i T
  have hdata : Data (T i).indirect.toNat := h.data_indirect hi
  refine ⟨?_,hlast,fun hroom => ?_⟩
  · have hsectors := h.sectors
    have hlt := hdata.2
    dsimp only [Owning.entered,put]
    omega
  dsimp only at hroom
  have hrefs := h.refs_entered hroom hi l
  refine ⟨?_,?_,?_,?_,rfl,?_,rfl,hroom⟩
  · rw [hT]
    exact h.give_entry hroom hi hl
  · rw [hT,hrefs,update_self]
  · have := h.start
    have := nmeta_eq
    dsimp only
    omega
  · intro q hq _
    rw [hT,hrefs,update_of_ne hq]
  · intro b hb
    have hne : b ≠ (T i).indirect.toNat := by
      have := hdata.1
      omega
    exact update_of_ne hne ..

lemma mapEntry_meets (h : Owning m T) (hlast : m.freeblock ≤ FSSIZE) (hi : (T i).indirect ≠ 0)
    (l : Fin NINDIRECT) :
    Meets E (mapEntry (T i) l) m (MapResult m T i (.entry l)) := by
  have hdata : Data (T i).indirect.toNat := h.data_indirect hi
  have hle : (T i).indirect.toNat ≤ FSSIZE+1 := hdata.2.le.trans (Nat.le_succ _)
  refine .bind (rsect_meets h.sectors hle (fun _ => ?_) fun hfail =>
    absurd hdata.2 (Nat.not_lt.mpr hfail))
  split_ifs with hword
  · refine .bind (newBlock_meets (.bind (wsect_meets hle (.pure ?_))))
    rw [Owning.ofNat_freeblock hlast]
    exact mapEntry_result h hlast hi hword
  · have href : refs m.img T (i,.entry l) = (word (m.img (T i).indirect.toNat) l).toNat := if_neg hi
    exact .pure (h.mapResult hlast href fun hz => hword (BitVec.eq_of_toNat_eq hz))

lemma MapResult.after_indirect (h : Owning m T) (hroom : m.freeblock < FSSIZE) (hi : (T i).indirect = 0)
    {r : Dinode×ℕ} (hr : MapResult { m with freeblock := m.freeblock+1 }
      (update T i { T i with indirect := .ofNat 32 m.freeblock }) i (.entry l) r m') :
    MapResult m T i (.entry l) r m' := by
  have hrefs := h.refs_give_indirect hroom hi
  obtain ⟨hsectors,hle,hmapped⟩ := hr
  refine ⟨hsectors,hle,fun hr => ?_⟩
  obtain ⟨howning,hhere,htaken,hothers,hsame,hlow,hinodes,hlast⟩ := hmapped hr
  rw [update_idem] at howning hhere
  rw [update_self] at hsame
  refine ⟨howning,hhere,htaken,fun q hq hq' => ?_,hsame,hlow,hinodes,hlast⟩
  have hothers := hothers q hq hq'
  rwa [update_idem,hrefs,update_of_ne hq'] at hothers

lemma mapBlock_meets (h : Owning m T) (hlast : m.freeblock ≤ FSSIZE) (hp : Place.ofIndex fbn = some p)
    (hE : FSSIZE < m.freeblock+(T i).lacks m.img p → E "read") :
    Meets E (mapBlock (T i) fbn) m (MapResult m T i p) := by
  unfold mapBlock
  split_ifs with hfbn hzero
  · obtain rfl : .direct ⟨fbn,hfbn⟩ = p := Option.some.inj ((Place.ofIndex_of_lt hfbn).symm.trans hp)
    exact .bind (newBlock_meets (.pure (mapDirect_result h hlast hzero)))
  · obtain rfl : .direct ⟨fbn,hfbn⟩ = p := Option.some.inj ((Place.ofIndex_of_lt hfbn).symm.trans hp)
    have href : refs m.img T (i,.direct ⟨fbn,hfbn⟩) = ((T i).direct ⟨fbn,hfbn⟩).toNat := rfl
    exact .pure (h.mapResult hlast href fun hz => hzero (BitVec.eq_of_toNat_eq hz))
  obtain ⟨l,hl,rfl⟩ : ∃ l : Fin NINDIRECT, fbn-NDIRECT = l ∧ .entry l = p := by
    unfold Place.ofIndex at hp
    split_ifs at hp with hl
    exact ⟨⟨fbn-NDIRECT,hl⟩,rfl,Option.some.inj hp⟩
  rw [hl]
  unfold mapIndirect
  split_ifs with hi
  · refine .bind (.bind (newBlock_meets (.pure ?_)))
    obtain hroom | hfull := Nat.lt_or_ge m.freeblock FSSIZE
    · have hne : (update T i { T i with indirect := BitVec.ofNat 32 m.freeblock } i).indirect ≠ 0 := by
        rw [update_self]
        exact ofNat_freeblock_ne h.toFramed hlast
      have hnext := mapEntry_meets (E := E) (h.give_indirect hroom hi) hroom hne l
      rw [update_self] at hnext
      exact hnext.mono fun r m' hr => MapResult.after_indirect h hroom hi hr
    · have hnumber : (BitVec.ofNat 32 m.freeblock).toNat = FSSIZE :=
        (Owning.ofNat_freeblock hlast).trans (le_antisymm hlast hfull)
      refine .bind (rsect_meets h.sectors ?_ (fun hlt => ?_) fun _ => hE ?_)
      · exact hnumber.le.trans (Nat.le_succ _)
      · exact absurd hlt hnumber.not_lt
      · have hlacks : (T i).lacks m.img (.entry l) = 2 := by simp [Dinode.lacks,Dinode.ref,hi]
        omega
  · refine .bind (.pure ?_)
    exact mapEntry_meets h hlast hi l

/-- What `mapBlock` leaves as it was, and how many blocks it takes. -/
structure Keeps (m : Mkfs) (d : Dinode) (p : Place) (r : Dinode×ℕ) (m' : Mkfs) : Prop where
  image : ∀ b < m.freeblock, b ≠ d.indirect.toNat → m'.img b = m.img b
  spent : m'.freeblock = m.freeblock+d.lacks m.img p
  below : r.2 < m'.freeblock
  present : d.ref m.img p ≠ 0 → r.2 = d.ref m.img p
  indirect : (∀ j, p = .entry j → d.indirect ≠ 0) → r.1.indirect = d.indirect

lemma Keeps.found (hx : d.ref m.img p = x) (hzero : x ≠ 0) (hlt : x < m.freeblock) :
    Keeps m d p (d,x) m where
  image _ _ _ := rfl
  spent := by rw [Dinode.lacks_of_ref (hx ▸ hzero),Nat.add_zero]
  below := hlt
  present _ := hx.symm
  indirect _ := rfl

lemma mapEntry_keeps (hsectors : m.sectors = FSSIZE) (hi : d.indirect ≠ 0)
    (hindirect : d.indirect.toNat ≤ FSSIZE)
    (hlast : m.freeblock ≤ FSSIZE) (l : Fin NINDIRECT)
    (hlt : d.ref m.img (.entry l) ≠ 0 → d.ref m.img (.entry l) < m.freeblock) :
    Meets (fun _ => True) (mapEntry d l) m (Keeps m d (.entry l)) := by
  have hle : d.indirect.toNat ≤ FSSIZE+1 := hindirect.trans (Nat.le_succ _)
  have href : d.ref m.img (.entry l) = (word (m.img d.indirect.toNat) l).toNat := if_neg hi
  refine .bind (rsect_meets hsectors hle (fun _ => ?_) fun _ => trivial)
  split_ifs with hword
  · have hzero : d.ref m.img (.entry l) = 0 := by
      rw [href,hword]
      rfl
    refine .bind (newBlock_meets (.bind (wsect_meets hle (.pure ?_))))
    rw [Owning.ofNat_freeblock hlast]
    exact {
      image := fun b _ hb => update_of_ne hb ..
      spent := by
        simp only [Dinode.lacks,hzero,if_neg hi,if_true]
        rfl
      below := Nat.lt_succ_self _
      present := fun hne => absurd hzero hne
      indirect := fun _ => rfl }
  · have hne : (word (m.img d.indirect.toNat) l).toNat ≠ 0 := fun hz => hword (BitVec.eq_of_toNat_eq hz)
    refine .pure (Keeps.found href hne ?_)
    rw [href] at hlt
    exact hlt hne

lemma Keeps.after_indirect {r : Dinode×ℕ} (hi : d.indirect = 0) (hlast : m.freeblock ≤ FSSIZE)
    (hempty : ({ d with indirect := .ofNat 32 m.freeblock } : Dinode).ref m.img (.entry l) = 0)
    (hne : BitVec.ofNat 32 m.freeblock ≠ 0)
    (h : Keeps { m with freeblock := m.freeblock+1 } { d with indirect := .ofNat 32 m.freeblock }
      (.entry l) r m') :
    Keeps m d (.entry l) r m' where
  image b hb _ := by
    refine h.image b (hb.trans (Nat.lt_succ_self _)) ?_
    change b ≠ (BitVec.ofNat 32 m.freeblock).toNat
    rw [Owning.ofNat_freeblock hlast]
    exact hb.ne
  spent := by
    have hspent := h.spent
    have hlacks : d.lacks m.img (.entry l) = 2 := by simp [Dinode.lacks,Dinode.ref,hi]
    have hlacks' :
        ({ d with indirect := .ofNat 32 m.freeblock } : Dinode).lacks m.img (.entry l) = 1 := by
      simp only [Dinode.lacks,hempty,if_neg hne,if_true]
    rw [hlacks'] at hspent
    rw [hspent,hlacks]
  below := h.below
  present hpresent := absurd (if_pos hi) hpresent
  indirect hentry := absurd hi (hentry l rfl)

lemma mapBlock_keeps (h : Owning m T) (hlast : m.freeblock ≤ FSSIZE) (hp : Place.ofIndex fbn = some p) :
    Meets (fun _ => True) (mapBlock (T i) fbn) m (Keeps m (T i) p) := by
  have hlt : ∀ p, (T i).ref m.img p ≠ 0 → (T i).ref m.img p < m.freeblock :=
    fun p => h.ref_lt (q := (i,p))
  unfold mapBlock
  split_ifs with hfbn hzero
  · obtain rfl : .direct ⟨fbn,hfbn⟩ = p := Option.some.inj ((Place.ofIndex_of_lt hfbn).symm.trans hp)
    refine .bind (newBlock_meets (.pure ?_))
    rw [Owning.ofNat_freeblock hlast]
    exact {
      image := fun _ _ _ => rfl
      spent := by simp [Dinode.lacks,Dinode.ref,hzero]
      below := Nat.lt_succ_self _
      present := fun hne => absurd (congrArg BitVec.toNat hzero) hne
      indirect := fun _ => rfl }
  · obtain rfl : .direct ⟨fbn,hfbn⟩ = p := Option.some.inj ((Place.ofIndex_of_lt hfbn).symm.trans hp)
    have hne : (T i).ref m.img (.direct ⟨fbn,hfbn⟩) ≠ 0 := fun hz => hzero (BitVec.eq_of_toNat_eq hz)
    exact .pure (Keeps.found rfl hne (hlt _ hne))
  obtain ⟨l,hl,rfl⟩ : ∃ l : Fin NINDIRECT, fbn-NDIRECT = l ∧ .entry l = p := by
    unfold Place.ofIndex at hp
    split_ifs at hp with hl
    exact ⟨⟨fbn-NDIRECT,hl⟩,rfl,Option.some.inj hp⟩
  rw [hl]
  unfold mapIndirect
  split_ifs with hi
  · refine .bind (.bind (newBlock_meets (.pure ?_)))
    have hne := ofNat_freeblock_ne h.toFramed hlast
    have hnumber := Owning.ofNat_freeblock hlast
    obtain hroom | hfull := Nat.lt_or_ge m.freeblock FSSIZE
    · have hempty :
          ({ T i with indirect := .ofNat 32 m.freeblock } : Dinode).ref m.img (.entry l) = 0 := by
        simp only [Dinode.ref,hnumber,h.fresh _ le_rfl hroom]
        rw [if_neg hne]
        rfl
      have hentry := mapEntry_keeps (m := { m with freeblock := m.freeblock+1 })
        (d := { T i with indirect := .ofNat 32 m.freeblock }) h.sectors hne
          (hnumber.le.trans hlast) hroom l
        fun hpresent => absurd hempty hpresent
      exact hentry.mono fun r m' hr => hr.after_indirect hi hlast hempty hne
    · refine .bind
        (rsect_meets h.sectors (hnumber.le.trans (hlast.trans (Nat.le_succ _))) (fun hsec => ?_)
        fun _ => trivial)
      rw [hnumber] at hsec
      exact absurd hsec (Nat.not_lt.mpr hfull)
  · refine .bind (.pure ?_)
    exact mapEntry_keeps h.sectors hi (h.data_indirect hi).2.le hlast l (hlt _)

/-! ### A round of the loop -/

/-- An inode has the blocks that `n` bytes need, and no others for its contents. -/
def Filled (img : ℕ → Sector) (d : Dinode) (n : ℕ) : Prop := ∀ k, d.block img k ≠ 0 ↔ k < blocks n

namespace Mapped
variable {p : Place}

lemma block_other (h : Mapped m T i p d' x m') {j : ℕ} (hj : j ≠ i) (k : ℕ) :
    (T j).block m'.img k = (T j).block m.img k := by
  have hrefs : ∀ q, refs m'.img T (j,q) = refs m.img T (j,q) := by
    intro q
    have hother := h.others (j,q) (by simp [hj]) (by simp [hj])
    rwa [refs,update_of_ne hj] at hother
  exact block_congr_ref fun q _ => hrefs q

lemma block_here (h : Mapped m T i p d' x m') (hp : Place.ofIndex fbn = some p) :
    d'.block m'.img fbn = x := by
  have hblock : (update T i d' i).block m'.img fbn = refs m'.img (update T i d') (i,p) :=
    block_eq_ref hp
  rw [update_self] at hblock
  exact hblock.trans h.here

lemma block_elsewhere (h : Mapped m T i p d' x m') (hp : Place.ofIndex fbn = some p) {k : ℕ}
    (hk : k ≠ fbn) :
    d'.block m'.img k = (T i).block m.img k := by
  have hrefs : ∀ q, Place.ofIndex k = some q →
      refs m'.img (update T i d') (i,q) = refs m.img T (i,q) := by
    intro q hq
    apply h.others
    · rintro ⟨⟩
      exact hk (Place.ofIndex_inj hq hp)
    · rintro ⟨⟩
      exact Place.ofIndex_ne_indirect k hq
  have hblock := block_congr_ref hrefs
  rwa [update_self] at hblock

end Mapped

/-- In the middle of `iappend`: `d` is the inode in memory, whose contents have `off` bytes. -/
structure Appending (m : Mkfs) (T : ℕ → Dinode) (i : ℕ) (d : Dinode) (off : ℕ) : Prop where
  owning : Owning m (update T i d)
  last : m.freeblock ≤ FSSIZE
  filled : Filled m.img d off

/-- What `iappend` has changed so far. -/
structure Appended (m : Mkfs) (T : ℕ → Dinode) (i : ℕ) (d : Dinode) (m' : Mkfs)
    (d' : Dinode) : Prop where
  same : d' = { d with direct := d'.direct, indirect := d'.indirect }
  others : ∀ j, j ≠ i → ∀ k, (T j).block m'.img k = (T j).block m.img k
  low : ∀ b < nmeta, m'.img b = m.img b
  inodes : m'.freeinode = m.freeinode

lemma Appended.trans {m'' : Mkfs} {d'' : Dinode} (h : Appended m T i d m' d')
    (h' : Appended m' T i d' m'' d'') :
    Appended m T i d m'' d'' where
  same := by
    have hsame := h'.same
    rw [h.same] at hsame
    exact hsame
  others j hj k := (h'.others j hj k).trans (h.others j hj k)
  low b hb := (h'.low b hb).trans (h.low b hb)
  inodes := h'.inodes.trans h.inodes

lemma blocks_round {off n k : ℕ} (hn : 0 < n) (hround : n ≤ (off/BSIZE+1)*BSIZE-off) :
    k < blocks (off+n) ↔ k = off/BSIZE ∨ k < blocks off := by
  simp only [blocks,BSIZE] at hround ⊢
  omega

lemma Appending.round {off n : ℕ} (h : Appending m T i d off)
    (hmapped : Mapped m (update T i d) i p d' x m') (hp : Place.ofIndex (off/BSIZE) = some p)
    (hn : 0 < n) (hround : n ≤ (off/BSIZE+1)*BSIZE-off) :
    Appending (put .data x buf m') T i d' (off+n) ∧ Appended m T i d (put .data x buf m') d' := by
  have howning := hmapped.owning
  have hhere := hmapped.here
  rw [update_idem] at howning hhere
  have hdirect : p ≠ .indirect := fun hind => Place.ofIndex_ne_indirect _ (hind ▸ hp)
  have hrefs := howning.refs_put buf hhere hmapped.taken hdirect
  have hdata : nmeta ≤ x := (hhere ▸ howning.data_ref (hhere ▸ hmapped.taken)).1
  have hblock : ∀ j k, ((update T i d') j).block (update m'.img x buf) k =
      ((update T i d') j).block m'.img k :=
    fun j k => block_congr_ref fun q _ => congrFun hrefs (j,q)
  refine ⟨⟨howning.put_contents buf hhere hmapped.taken hdirect,hmapped.last,fun k => ?_⟩,?_,?_,?_,
    hmapped.inodes⟩
  · have hself := hblock i k
    rw [update_self] at hself
    rw [blocks_round hn hround]
    change d'.block (update m'.img x buf) k ≠ 0 ↔ _
    rw [hself]
    obtain rfl | hk := eq_or_ne k (off/BSIZE)
    · rw [hmapped.block_here hp]
      exact ⟨fun _ => .inl rfl,fun _ => hmapped.taken⟩
    · rw [hmapped.block_elsewhere hp hk,update_self]
      exact (h.filled k).trans ⟨.inr,fun hor => hor.resolve_left hk⟩
  · have hsame := hmapped.same
    rwa [update_self] at hsame
  · intro j hj k
    have hother := hblock j k
    have hmap := hmapped.block_other hj k
    rw [update_of_ne hj] at hother hmap
    exact hother.trans hmap
  · intro b hb
    have hne : b ≠ x := by omega
    exact (update_of_ne hne ..).trans (hmapped.low b hb)

/-- What has become of the bytes in the middle of `iappend`: those of `ps` follow the first `off`
ones. -/
structure Copied (m : Mkfs) (T : ℕ → Dinode) (i : ℕ) (d : Dinode) (off : ℕ) (ps : List Byte)
    (d' : Dinode) (m' : Mkfs) :
    Prop where
  kept : ∀ o < off, d'.byte m'.img o = d.byte m.img o
  stored : ∀ k < ps.length, d'.byte m'.img (off+k) = ps[k]?
  others : ∀ j, j ≠ i → (T j).Alike m.img m'.img
  spent : ∀ k, blocks (off+ps.length) ≤ k → m'.freeblock+d'.lacking m'.img k =
    m.freeblock+d.lacking m.img k
  indirect : blocks (off+ps.length) ≤ NDIRECT → d'.indirect = d.indirect

namespace Copied
variable {off : ℕ} {ps : List Byte}

lemma refl (m : Mkfs) (T : ℕ → Dinode) (i : ℕ) (d : Dinode) (off : ℕ) : Copied m T i d off [] d m where
  kept _ _ := rfl
  stored k hk := absurd hk (Nat.not_lt_zero k)
  others _ _ := .refl _ _
  spent _ _ := rfl
  indirect _ := rfl

lemma trans {ps' : List Byte} {off' : ℕ} {m'' : Mkfs} {d'' : Dinode} (h : Copied m T i d off ps d' m')
    (h' : Copied m' T i d' off' ps' d'' m'') (hoff : off' = off+ps.length) :
    Copied m T i d off (ps++ps') d'' m'' where
  kept o ho := (h'.kept o (by omega)).trans (h.kept o ho)
  stored k hk := by
    rw [length_append] at hk
    by_cases hlt : k < ps.length
    · rw [h'.kept _ (by omega),h.stored k hlt,getElem?_append_left hlt]
    · rw [getElem?_append_right (by omega),← h'.stored (k-ps.length) (by omega)]
      congr 1
      omega
  others j hj := (h.others j hj).trans (h'.others j hj)
  spent k hk := by
    simp only [length_append,blocks,BSIZE] at hk
    refine (h'.spent k ?_).trans (h.spent k ?_)
    · simp only [blocks,BSIZE]
      omega
    · simp only [blocks,BSIZE]
      omega
  indirect hle := by
    simp only [length_append,blocks,BSIZE] at hle
    refine (h'.indirect ?_).trans (h.indirect ?_)
    · simp only [blocks,BSIZE]
      omega
    · simp only [blocks,BSIZE]
      omega

end Copied

section
variable {off : ℕ} {p : Place} {ps : List Byte}

lemma Keeps.img_ref (h : Owning m T) (hkeeps : Keeps m (T i) p (d',x) m') {q : ℕ×Place}
    (hq : q ≠ (i,.indirect))
    (hne : refs m.img T q ≠ 0) : m'.img (refs m.img T q) = m.img (refs m.img T q) := by
  refine hkeeps.image _ (h.ref_lt hne) fun heq => hq ?_
  exact h.owned.once q (i,.indirect) hne heq

lemma Mapped.not_other (h : Mapped m T i p d' x m') {q : ℕ×Place} (hq : q ≠ (i,p)) :
    refs m'.img (update T i d') q ≠ x := by
  intro heq
  have hne : refs m'.img (update T i d') q ≠ 0 := heq ▸ h.taken
  exact hq (h.owning.owned.once q (i,p) hne (heq.trans h.here.symm))

lemma Mapped.block_put (h : Mapped m T i p d' x m') (hp : p ≠ .indirect) (buf : Sector) (k : ℕ) :
    d'.block (update m'.img x buf) k = d'.block m'.img k := by
  have hrefs := h.owning.refs_put buf h.here h.taken hp
  have hblock := block_congr_ref (i := i) (k := k) fun q _ => congrFun hrefs (i,q)
  rwa [update_self] at hblock

lemma Mapped.byte_of_ne (h : Mapped m T i p d' x m') (hkeeps : Keeps m (T i) p (d',x) m')
    (hT : Owning m T)
    (hp : Place.ofIndex fbn = some p) (hp' : p ≠ .indirect) (buf : Sector) {o : ℕ}
    (ho : o/BSIZE ≠ fbn) :
    d'.byte (update m'.img x buf) o = (T i).byte m.img o := by
  rw [Dinode.byte,Dinode.byte,h.block_put hp',h.block_elsewhere hp ho]
  split_ifs with hzero
  · rfl
  obtain ⟨q,hq,hq'⟩ := Place.exists_ofIndex (Dinode.lt_of_block hzero)
  have hne : (i,q) ≠ (i,p) := by
    intro heq
    rw [(Prod.mk.inj heq).2] at hq
    exact ho (Place.ofIndex_inj hq hp)
  have hind : (i,q) ≠ (i,.indirect) := fun heq => hq' (Prod.mk.inj heq).2
  have hother := h.not_other hne
  rw [h.others (i,q) hne hind] at hother
  rw [block_eq_ref hq] at hzero ⊢
  rw [update_of_ne hother,hkeeps.img_ref hT hind hzero]

lemma Appending.copied (h : Appending m T i d off) (hmapped : Mapped m (update T i d) i p d' x m')
    (hkeeps : Keeps m d p (d',x) m') (hp : Place.ofIndex (off/BSIZE) = some p) (hps : ps ≠ [])
    (hround : off%BSIZE+ps.length ≤ BSIZE) :
    Copied m T i d off ps d' (put .data x ((m'.img x).paste (off%BSIZE) ps) m') := by
  have hp' : p ≠ .indirect := fun hind => Place.ofIndex_ne_indirect _ (hind ▸ hp)
  have hself : update T i d i = d := update_self ..
  have hkeeps' : Keeps m (update T i d i) p (d',x) m' := hself.symm ▸ hkeeps
  have hlen := length_pos_of_ne_nil hps
  have hbyte : ∀ o, o/BSIZE = off/BSIZE →
    d'.byte (put .data x ((m'.img x).paste (off%BSIZE) ps) m').img o =
      some ((m'.img x).paste (off%BSIZE) ps (o%BSIZE)) := by
    intro o ho
    change d'.byte (update m'.img x _) o = _
    rw [Dinode.byte,hmapped.block_put hp',ho,hmapped.block_here hp,
      if_neg hmapped.taken,update_self]
  exact {
    kept := by
      intro o ho
      by_cases hdiv : o/BSIZE = off/BSIZE
      · have hblock : d.block m.img (off/BSIZE) ≠ 0 := by
          refine (h.filled _).mpr (lt_blocks.mpr ?_)
          simp only [BSIZE] at hdiv ⊢
          omega
        have href : d.block m.img (off/BSIZE) = d.ref m.img p := by
          rw [Dinode.block,hp]
          rfl
        have hx := hkeeps.present (href ▸ hblock)
        have hmod : o%BSIZE < off%BSIZE := by
          simp only [BSIZE] at hdiv ⊢
          omega
        have himg : m'.img x = m.img x := by
          have hne : refs m.img (update T i d) (i,p) ≠ 0 := by
            rw [refs,hself]
            exact href ▸ hblock
          have hkept := hkeeps'.img_ref h.owning (q := (i,p)) (fun heq => hp' (Prod.mk.inj heq).2) hne
          rw [refs,hself] at hkept
          rw [show x = d.ref m.img p from hx]
          exact hkept
        rw [hbyte o hdiv,Sector.paste_of_disjoint _ (.inl hmod),himg,Dinode.byte,hdiv,
          if_neg hblock,href,
          show x = d.ref m.img p from hx]
      · have hother := hmapped.byte_of_ne hkeeps' h.owning hp hp' ((m'.img x).paste (off%BSIZE) ps) hdiv
        rwa [hself] at hother
    stored := by
      intro k hk
      have hdiv : (off+k)/BSIZE = off/BSIZE := by
        simp only [BSIZE] at hround ⊢
        omega
      have hmod : (off+k)%BSIZE = off%BSIZE+k := by
        simp only [BSIZE] at hround ⊢
        omega
      rw [hbyte _ hdiv,hmod,Sector.paste_add _ hk,getElem?_eq_getElem hk]
    others := by
      intro j hj q hq
      have hne : refs m.img (update T i d) (j,q) ≠ 0 := by rwa [refs,update_of_ne hj]
      have hkept := hkeeps'.img_ref h.owning (q := (j,q)) (by simp [hj]) hne
      have hother := hmapped.not_other (q := (j,q)) (by simp [hj])
      rw [hmapped.others (j,q) (by simp [hj]) (by simp [hj])] at hother
      rw [refs,update_of_ne hj] at hkept hother
      exact (update_of_ne hother ..).trans hkept
    spent := by
      intro k hk
      have hlt : off/BSIZE < k := by
        simp only [blocks,BSIZE] at hk ⊢
        omega
      have htaken : d'.lacking (update m'.img x ((m'.img x).paste (off%BSIZE) ps)) k+d.lacks m.img p =
          d.lacking m.img k := by
        refine Dinode.lacking_taken hp hlt ?_ ?_ hkeeps.indirect
        · rw [hmapped.block_put hp',hmapped.block_here hp]
          exact hmapped.taken
        · intro l hl
          rw [hmapped.block_put hp',hmapped.block_elsewhere hp hl,hself]
      have hspent := hkeeps.spent
      change m'.freeblock+d'.lacking (update m'.img x _) k = _
      omega
    indirect := by
      intro hle
      refine hkeeps.indirect fun j hj => ?_
      rw [hj] at hp
      have hentry := Place.le_of_entry hp
      simp only [blocks,BSIZE] at hle hentry
      omega }

end

/-- At the end of the loop of `iappend`. -/
structure LoopEnd (m : Mkfs) (T : ℕ → Dinode) (i : ℕ) (d : Dinode) (off : ℕ) (ps : List Byte)
    (r : Dinode×ℕ)
    (m' : Mkfs) : Prop where
  stop : r.2 = off+ps.length
  appending : Appending m' T i r.1 r.2
  appended : Appended m T i d m' r.1

lemma Appending.loopEnd {off : ℕ} (h : Appending m T i d off) : LoopEnd m T i d off [] (d,off) m :=
  ⟨rfl,h,rfl,fun _ _ _ => rfl,fun _ _ => rfl,rfl⟩

/-- There is room for `n` more bytes after the first `off` ones. -/
def Room (m : Mkfs) (d : Dinode) (off n : ℕ) : Prop :=
  off+n ≤ MAXFILE*BSIZE ∧ m.freeblock+d.lacking m.img (blocks (off+n)) ≤ FSSIZE

lemma appendLoop_meets (fuel : ℕ) :
    ∀ {m : Mkfs} {d : Dinode} {off : ℕ} {ps : List Byte}, ps.length ≤ fuel →
    Appending m T i d off → (ps ≠ [] → (∀ message, E message) ∨ Room m d off ps.length) →
    Meets E (appendLoop fuel d off ps) m fun r m' => LoopEnd m T i d off ps r m' ∧
      Copied m T i d off ps r.1 m' := by
  induction fuel with
  | zero =>
    intro m d off ps hfuel h _
    obtain rfl := length_eq_zero_iff.mp (Nat.le_zero.mp hfuel)
    exact .pure ⟨h.loopEnd,.refl ..⟩
  | succ fuel ih =>
    intro m d off ps hfuel h hE
    unfold appendLoop
    split_ifs with hnil hmax
    · subst hnil
      exact Meets.pure ⟨h.loopEnd,.refl ..⟩
    · apply Meets.throw
      obtain hE | hroom := hE hnil
      · exact hE _
      · have hfits := hroom.1
        have hlen := length_pos_of_ne_nil hnil
        simp only [BSIZE,MAXFILE,NDIRECT,NINDIRECT] at hmax hfits
        omega
    obtain ⟨p,hp,-⟩ := Place.exists_ofIndex (Nat.lt_of_not_le hmax)
    have hlen : 0 < ps.length := length_pos_iff.mpr hnil
    have hread : FSSIZE < m.freeblock+d.lacks m.img p → E "read" := by
      intro hfull
      obtain hE | hroom := hE hnil
      · exact hE _
      · have hlt : off/BSIZE < blocks (off+ps.length) := by
          simp only [blocks,BSIZE]
          omega
        have hlacks : d.lacks m.img p ≤ d.lacking m.img (blocks (off+ps.length)) :=
          Dinode.lacks_le_lacking hp hlt
        exact absurd hroom.2 (by omega)
    have hself : update T i d i = d := update_self ..
    have hmap := mapBlock_meets (i := i) h.owning h.last hp (hself.symm ▸ hread)
    have hkeep := mapBlock_keeps (i := i) h.owning h.last hp
    rw [hself] at hmap hkeep
    refine .bind ((hmap.also hkeep).mono ?_)
    rintro ⟨d',x⟩ m' ⟨⟨hsectors,hle,hmapped⟩,hkeeps⟩
    dsimp only at hle hmapped ⊢
    refine .bind (rsect_meets hsectors (hle.trans (Nat.le_succ _)) (fun hlt => ?_) fun hge => ?_)
    · refine .bind (wsect_meets (hle.trans (Nat.le_succ _)) ?_)
      generalize hn : min ps.length ((off/BSIZE+1)*BSIZE-off) = n
      have hpos : 0 < n := by
        simp only [BSIZE] at hn
        omega
      have hround : n ≤ (off/BSIZE+1)*BSIZE-off := hn ▸ min_le_right ..
      obtain ⟨hnext,hdone⟩ := h.round (hmapped hlt) hp hpos hround
      have htake : (ps.take n).length = n := length_take_of_le (hn ▸ min_le_left ..)
      have hcopied :
          Copied m T i d off (ps.take n) d'
          (put .data x ((m'.img x).paste (off%BSIZE) (ps.take n)) m') := by
        refine h.copied (hmapped hlt) hkeeps hp (ne_nil_of_length_pos (by omega)) ?_
        simp only [BSIZE] at hround ⊢
        omega
      have hmod : off-off/BSIZE*BSIZE = off%BSIZE := by
        simp only [BSIZE]
        omega
      rw [← hmod] at hcopied
      have hrest : (ps.drop n).length = ps.length-n := length_drop
      have hsum : off+n+(ps.drop n).length = off+ps.length := by omega
      refine (ih (by omega) hnext fun _ => (hE hnil).imp_right fun hroom => ?_).mono ?_
      · unfold Room at hroom ⊢
        have hspent := hcopied.spent (blocks (off+ps.length)) (by
          simp only [htake,blocks,BSIZE]
          omega)
        rw [hsum]
        omega
      · rintro r m'' ⟨hr,hcopied'⟩
        refine ⟨⟨?_,hr.appending,hdone.trans hr.appended⟩,?_⟩
        · have hoff := hr.stop
          omega
        · have htrans := hcopied.trans hcopied' (by rw [htake])
          rwa [take_append_drop] at htrans
    · have hbelow := hkeeps.below
      have hspent := hkeeps.spent
      exact hread (by dsimp only at hbelow; omega)

end Mkfs
end JacobiXv6.FileSystem
