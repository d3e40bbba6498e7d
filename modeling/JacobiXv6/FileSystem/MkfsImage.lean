import JacobiXv6.FileSystem.MkfsAppend

/-! The image that `mkfs` builds, and for which lists of files it is consistent. -/
namespace JacobiXv6.FileSystem
open Library Function
namespace Mkfs

variable {m m' : Mkfs} {T : ℕ → Dinode} {i : ℕ} {E : String → Prop} {d : Dinode}

/-! ### Inodes -/

/-- Between two calls of `ialloc` and `iappend`. -/
structure Sound (m : Mkfs) : Prop where
  owning : Owning m m.table
  last : m.freeblock ≤ FSSIZE
  filled : ∀ j, Filled m.img (m.table j) (m.table j).size.toNat

lemma Filled.le {img : ℕ → Sector} {n : ℕ} (h : Filled img d n) : n ≤ MAXFILE*BSIZE := by
  have hend := h MAXFILE
  have hzero : d.block img MAXFILE = 0 := rfl
  rw [hzero] at hend
  simp only [blocks,MAXFILE,NDIRECT,NINDIRECT,BSIZE] at hend ⊢
  omega

lemma ofNat_size {img : ℕ → Sector} {n : ℕ} (h : Filled img d n) : (BitVec.ofNat 32 n).toNat = n := by
  have hle := h.le
  simp only [MAXFILE,NDIRECT,NINDIRECT,BSIZE] at hle
  rw [BitVec.toNat_ofNat]
  omega

lemma Owning.congr {T' : ℕ → Dinode} (h : Owning m T) (hrefs : refs m.img T' = refs m.img T) :
    Owning m T' :=
  ⟨h.toFramed,hrefs ▸ h.owned⟩

lemma Owning.refs_low (h : Owning m T) {sec : ℕ} (hsec : sec < nmeta) (buf : Sector) :
    refs (update m.img sec buf) T = refs m.img T := by
  apply refs_update_disk
  intro j hj heq
  have hdata := (h.data_indirect hj).1
  omega

lemma Owning.put_low (h : Owning m T) {p : Purpose} {sec : ℕ} (hsec : sec < nmeta) (buf : Sector)
    (hp : Harmless (p,sec)) : Owning (put p sec buf m) T := by
  have hlt : sec < FSSIZE := hsec.trans (by decide)
  have howned := h.owned
  rw [← h.refs_low hsec buf] at howned
  exact ⟨h.put (hsec.trans_le h.start) hlt hp,howned⟩

lemma IBLOCK_lt_nmeta (hi : i < 208) : sb.IBLOCK i < nmeta := (IBLOCK_lt hi).trans (by decide)

lemma harmless_inode (hi : i < 208) : Harmless (.inode,sb.IBLOCK i) := by
  intro _
  exact ⟨(IBLOCK_lt hi).ne,(IBLOCK_lt hi).trans (by decide)⟩

lemma table_of_lt (h1 : 1 ≤ i) (hi : i < m.freeinode) : m.table i = sb.dinode m.img i := if_pos ⟨h1,hi⟩

lemma table_congr (hinodes : m'.freeinode = m.freeinode) (hle : m.freeinode ≤ 208)
    (hlow : ∀ b < nmeta, m'.img b = m.img b) : m'.table = m.table := by
  funext j
  unfold table
  rw [hinodes]
  split_ifs with hj
  · exact Superblock.dinode_congr (hlow _ (IBLOCK_lt_nmeta (hj.2.trans_le hle)))
  · rfl

lemma rinode_meets {Q : Dinode → Mkfs → Prop} (h : Framed m) (h1 : 1 ≤ i) (hi : i < m.freeinode)
    (hQ : Q (m.table i) m) : Meets E (rinode i) m Q := by
  have hblock := IBLOCK_lt_nmeta (hi.trans_le h.inodes)
  have hlt : sb.IBLOCK i < FSSIZE := hblock.trans (by decide)
  refine .bind (rsect_meets h.sectors (hlt.le.trans (Nat.le_succ _)) (fun _ => .pure ?_)
    fun hge => absurd hlt (Nat.not_lt.mpr hge))
  rwa [table_of_lt h1 hi] at hQ

def inodePut (m : Mkfs) (i : ℕ) (d : Dinode) : Mkfs :=
  put .inode (sb.IBLOCK i) (Superblock.withDinode (m.img (sb.IBLOCK i)) i d) m

variable {Q : Unit → Mkfs → Prop}

lemma winode_meets (h : Framed m) (hi : i < m.freeinode)
    (hQ : Q () (inodePut m i d)) : Meets E (winode i d) m Q := by
  have hblock := IBLOCK_lt_nmeta (hi.trans_le h.inodes)
  have hlt : sb.IBLOCK i < FSSIZE := hblock.trans (by decide)
  have hle := hlt.le.trans (Nat.le_succ FSSIZE)
  exact .bind (rsect_meets h.sectors hle (fun _ => wsect_meets hle hQ)
    fun hge => absurd hlt (Nat.not_lt.mpr hge))

lemma table_inodePut (h1 : 1 ≤ i) (hi : i < m.freeinode) :
    (inodePut m i d).table = update m.table i d := by
  funext j
  have hdinode : sb.dinode (inodePut m i d).img j = if j = i then d else sb.dinode m.img j :=
    Superblock.dinode_update_withDinode i j d
  obtain rfl | hj := eq_or_ne j i
  · have htable : (inodePut m j d).table j = sb.dinode (inodePut m j d).img j := if_pos ⟨h1,hi⟩
    rw [update_self,htable,hdinode,if_pos rfl]
  · rw [update_of_ne hj,table,hdinode,if_neg hj]
    rfl

lemma Owning.inodePut (h : Owning m T) (hi : i < m.freeinode) : Owning (inodePut m i d) T := by
  have hlt := hi.trans_le h.inodes
  exact h.put_low (IBLOCK_lt_nmeta hlt) _ (harmless_inode hlt)

lemma Owning.block_inodePut (h : Owning m T) (hi : i < m.freeinode) (j k : ℕ) :
    (T j).block (Mkfs.inodePut m i d).img k = (T j).block m.img k := by
  have hlt := hi.trans_le h.inodes
  have hrefs := h.refs_low (IBLOCK_lt_nmeta hlt) (Superblock.withDinode (m.img (sb.IBLOCK i)) i d)
  exact block_congr_ref fun q _ => congrFun hrefs (j,q)

lemma Appending.sound {off : ℕ} (h : Appending m m.table i d off) (h1 : 1 ≤ i) (hi : i < m.freeinode)
    (hothers : ∀ j, j ≠ i → Filled m.img (m.table j) (m.table j).size.toNat) :
    Sound (inodePut m i { d with size := .ofNat 32 off }) := by
  have hrefs : refs m.img (update m.table i { d with size := .ofNat 32 off }) =
      refs m.img (update m.table i d) := by
    rw [← update_idem (f := m.table) (a := i) d]
    apply refs_update_of_ref_eq
    intro p
    rw [update_self]
    rfl
  have howning := h.owning.congr hrefs
  have htable := table_inodePut (d := { d with size := .ofNat 32 off }) h1 hi
  refine ⟨?_,h.last,fun j k => ?_⟩
  · rw [htable]
    exact howning.inodePut hi
  · rw [htable,howning.block_inodePut hi]
    obtain rfl | hj := eq_or_ne j i
    · rw [update_self,ofNat_size h.filled]
      exact h.filled k
    · rw [update_of_ne hj]
      exact hothers j hj k

lemma Owning.alike_inodePut (h : Owning m T) (hi : i < m.freeinode) (j : ℕ) :
    (T j).Alike m.img (Mkfs.inodePut m i d).img := by
  intro p hp
  have hlow := IBLOCK_lt_nmeta (hi.trans_le h.inodes)
  exact update_of_ne (hlow.trans_le (h.data_ref (q := (j,p)) hp).1).ne' ..

lemma Copied.inodePut {m₀ : Mkfs} {d₀ : Dinode} {off : ℕ} (size : ℕ) {ps : List Byte}
    (h : Copied m₀ T i d₀ off ps d m)
    (howning : Owning m (update T i d)) (hi : i < m.freeinode) :
    Copied m₀ T i d₀ off ps { d with size := .ofNat 32 size }
      (Mkfs.inodePut m i { d with size := .ofNat 32 size }) := by
  have halike := howning.alike_inodePut (d := { d with size := .ofNat 32 size }) hi
  have hself := halike i
  rw [update_self] at hself
  have hbyte : ∀ o, ({ d with size := .ofNat 32 size } : Dinode).byte
      (Mkfs.inodePut m i { d with size := .ofNat 32 size }).img o = d.byte m.img o := hself.byte
  have hlacking : ∀ k, ({ d with size := .ofNat 32 size } : Dinode).lacking
      (Mkfs.inodePut m i { d with size := .ofNat 32 size }).img k = d.lacking m.img k := by
    intro k
    have hblock : ∀ l, ({ d with size := .ofNat 32 size } : Dinode).block
        (Mkfs.inodePut m i { d with size := .ofNat 32 size }).img l = d.block m.img l := hself.block
    simp only [Dinode.lacking,hblock]
  exact {
    kept := fun o ho => (hbyte o).trans (h.kept o ho)
    stored := fun k hk => (hbyte _).trans (h.stored k hk)
    others := fun j hj => by
      have hother := halike j
      rw [update_of_ne hj] at hother
      exact (h.others j hj).trans hother
    spent := fun k hk => by
      rw [hlacking]
      exact h.spent k hk
    indirect := h.indirect }

/-- After a call of `iappend`: the inode has grown by `n` bytes. -/
structure Grown (m : Mkfs) (i n : ℕ) (m' : Mkfs) : Prop where
  sound : Sound m'
  size : (m'.table i).size.toNat = (m.table i).size.toNat+n
  others : ∀ j, j ≠ i → m'.table j = m.table j
  inodes : m'.freeinode = m.freeinode

lemma Sound.appending (h : Sound m) (i : ℕ) :
    Appending m m.table i (m.table i) (m.table i).size.toNat :=
  ⟨by rw [update_eq_self]; exact h.owning,h.last,h.filled i⟩

lemma iappend_meets (h : Sound m) (h1 : 1 ≤ i) (hi : i < m.freeinode) {ps : List Byte}
    (hE : ps ≠ [] → (∀ message, E message) ∨ Room m (m.table i) (m.table i).size.toNat ps.length) :
    Meets E (iappend i ps) m fun _ m' => Grown m i ps.length m' ∧
      Copied m m.table i (m.table i) (m.table i).size.toNat ps (m'.table i) m' := by
  refine .bind (rinode_meets h.owning.toFramed h1 hi ?_)
  refine .bind ((appendLoop_meets ps.length le_rfl (h.appending i) hE).mono ?_)
  rintro ⟨d',off⟩ m' ⟨hend,hcopied⟩
  have htable : m'.table = m.table := table_congr hend.appended.inodes h.owning.inodes hend.appended.low
  have hi' : i < m'.freeinode := hend.appended.inodes ▸ hi
  have happending := hend.appending
  rw [← htable] at happending
  have hothers : ∀ j, j ≠ i → Filled m'.img (m'.table j) (m'.table j).size.toNat := by
    intro j hj k
    rw [htable,hend.appended.others j hj]
    exact h.filled j k
  have hsound := happending.sound h1 hi' hothers
  have hput := table_inodePut (d := { d' with size := .ofNat 32 off }) h1 hi'
  have hcopied' := hcopied.inodePut off (htable ▸ happending.owning) hi'
  refine winode_meets happending.owning.toFramed hi' ⟨⟨hsound,?_,?_,hend.appended.inodes⟩,?_⟩
  · rw [hput,update_self]
    exact (ofNat_size happending.filled).trans hend.stop
  · intro j hj
    rw [hput,update_of_ne hj,htable]
  · rw [hput,update_self]
    exact hcopied'

lemma table_succ : ({ m with freeinode := m.freeinode+1 } : Mkfs).table =
    update m.table m.freeinode (({ m with freeinode := m.freeinode+1 } : Mkfs).table m.freeinode) := by
  funext j
  obtain rfl | hj := eq_or_ne j m.freeinode
  · rw [update_self]
  · rw [update_of_ne hj]
    unfold table
    dsimp only
    congr 1
    apply propext
    omega

lemma ialloc_meets (h : Sound m) (h1 : 1 ≤ m.freeinode) (hroom : m.freeinode < 208) (type : BitVec 16) :
    Meets E (ialloc type) m fun r m' => r = m.freeinode ∧ Sound m' ∧ m'.freeinode = m.freeinode+1 ∧
      m'.freeblock = m.freeblock ∧
        m'.table m.freeinode = { Dinode.zero with type := type, nlink := 1 } ∧
      (∀ j, j ≠ m.freeinode → m'.table j = m.table j ∧ (m.table j).Alike m.img m'.img) := by
  refine .bind (.get (.bind (.update (.bind ?_))))
  have hframed : Framed { m with freeinode := m.freeinode+1 } :=
    ⟨h.owning.sectors,hroom,h.owning.start,h.owning.fresh,h.owning.writes⟩
  refine winode_meets hframed (Nat.lt_succ_self _) (.pure ?_)
  have htable : (inodePut { m with freeinode := m.freeinode+1 } m.freeinode
      { Dinode.zero with type := type, nlink := 1 }).table =
        update m.table m.freeinode { Dinode.zero with type := type, nlink := 1 } := by
    rw [table_inodePut h1 (Nat.lt_succ_self _),table_succ,update_idem]
  have hzero : m.table m.freeinode = .zero := if_neg fun hlt => lt_irrefl _ hlt.2
  have href : ∀ p, ({ Dinode.zero with type := type, nlink := 1 } : Dinode).ref m.img p =
      (m.table m.freeinode).ref m.img p := by
    intro p
    rw [hzero]
    rfl
  have hrefs := refs_update_of_ref_eq href
  have howning : Owning { m with freeinode := m.freeinode+1 }
      (update m.table m.freeinode { Dinode.zero with type := type, nlink := 1 }) :=
    ⟨hframed,hrefs ▸ h.owning.owned⟩
  refine ⟨rfl,⟨?_,h.last,fun j k => ?_⟩,rfl,rfl,?_,fun j hj => ?_⟩
  · rw [htable]
    exact howning.inodePut (Nat.lt_succ_self _)
  · rw [htable,howning.block_inodePut (Nat.lt_succ_self _)]
    have hblock :
      (update m.table m.freeinode { Dinode.zero with type := type, nlink := 1 } j).block m.img k =
        (m.table j).block m.img k := block_congr_ref fun q _ => congrFun hrefs (j,q)
    rw [hblock]
    obtain rfl | hj := eq_or_ne j m.freeinode
    · have hfilled := h.filled m.freeinode k
      rw [hzero] at hfilled ⊢
      rwa [update_self]
    · rw [update_of_ne hj]
      exact h.filled j k
  · rw [htable,update_self]
  · refine ⟨by rw [htable,update_of_ne hj],?_⟩
    have halike :=
      howning.alike_inodePut (d := { Dinode.zero with type := type, nlink := 1 })
      (Nat.lt_succ_self _) j
    rwa [update_of_ne hj] at halike

/-! ### The files of the list -/

lemma appendAll_meets (h1 : 1 ≤ i) (ps : List (List Byte)) : ∀ {m : Mkfs}, Sound m →
    i < m.freeinode → Meets (fun _ => True) (appendAll i ps) m fun _ m' => Sound m' ∧
      m'.freeinode = m.freeinode ∧
      ∀ j, j ≠ i → m'.table j = m.table j := by
  induction ps with
  | nil => exact fun h _ => .pure ⟨h,rfl,fun _ _ => rfl⟩
  | cons p ps ih =>
    intro m h hi
    refine .bind ((iappend_meets h h1 hi fun _ => .inl fun _ => trivial).mono ?_)
    rintro _ m' ⟨hgrown,-⟩
    refine (ih hgrown.sound (hgrown.inodes ▸ hi)).mono ?_
    rintro _ m'' ⟨hsound,hinodes,hothers⟩
    exact ⟨hsound,hinodes.trans hgrown.inodes,fun j hj => (hothers j hj).trans (hgrown.others j hj)⟩

/-- While files are added: the root directory has `entries` entries. -/
structure Rooted (m : Mkfs) (entries : ℕ) : Prop where
  sound : Sound m
  root : 1 < m.freeinode
  size : (m.table ROOTINO).size.toNat = 16*entries

lemma addFile_meets {n : ℕ} (h : Rooted m n) (hroom : m.freeinode < 208) (f : Input) :
    Meets (fun _ => True) (addFile ROOTINO f) m fun _ m' => Rooted m' (n+1) ∧
      m'.freeinode = m.freeinode+1 := by
  unfold addFile
  split_ifs with hslash
  · exact Meets.throw trivial
  refine .bind ((ialloc_meets h.sound h.root.le hroom T_FILE).mono ?_)
  rintro inum m1 ⟨rfl,hsound1,hinodes1,-,-,hothers1⟩
  have hroot : ROOTINO ≠ m.freeinode := h.root.ne
  have hroot1 : ROOTINO < m1.freeinode := by
    rw [hinodes1]
    exact h.root.trans (Nat.lt_succ_self _)
  refine .bind ((iappend_meets hsound1 le_rfl hroot1 fun _ => .inl fun _ => trivial).mono ?_)
  rintro _ m2 ⟨hgrown,-⟩
  have hsize2 := hgrown.size
  rw [(hothers1 _ hroot).1,h.size,length_dirent] at hsize2
  have hinodes2 : m2.freeinode = m.freeinode+1 := hgrown.inodes.trans hinodes1
  refine (appendAll_meets h.root.le f.reads hgrown.sound (by omega)).mono ?_
  rintro _ m3 ⟨hsound3,hinodes3,hothers3⟩
  refine ⟨⟨hsound3,?_,?_⟩,hinodes3.trans hinodes2⟩
  · rw [hinodes3,hinodes2]
    exact h.root.trans (Nat.lt_succ_self _)
  · rw [hothers3 _ hroot]
    omega

lemma addFiles_meets (fs : List Input) : ∀ {m : Mkfs} {n : ℕ}, Rooted m n →
    m.freeinode+fs.length ≤ 208 →
    Meets (fun _ => True) (addFiles ROOTINO fs) m fun _ m' => Rooted m' (n+fs.length) ∧
      m'.freeinode = m.freeinode+fs.length := by
  induction fs with
  | nil => exact fun h _ => .pure ⟨h,rfl⟩
  | cons f fs ih =>
    intro m n h hroom
    rw [List.length_cons] at hroom
    refine .bind ((addFile_meets h (by omega) f).mono ?_)
    rintro _ m' ⟨hrooted,hinodes⟩
    refine (ih hrooted (by omega)).mono ?_
    rintro _ m'' ⟨hrooted',hinodes'⟩
    rw [List.length_cons]
    exact ⟨by rwa [Nat.add_assoc,Nat.add_comm 1] at hrooted',by omega⟩

/-! ### The whole program -/

lemma zeroSectors_meets (k : ℕ) : ∀ {m : Mkfs} {sec : ℕ}, sec+k ≤ FSSIZE →
    m.img = (fun _ => zeroes) → m.sectors = sec →
    (∀ w ∈ m.writes, Harmless w) → Meets E (zeroSectors k sec) m fun _ m' => m'.img =
      (fun _ => zeroes) ∧
      m'.sectors = sec+k ∧ m'.freeinode = m.freeinode ∧ m'.freeblock = m.freeblock ∧
        ∀ w ∈ m'.writes, Harmless w := by
  induction k with
  | zero => exact fun _ himg hsectors hwrites => .pure ⟨himg,hsectors,rfl,rfl,hwrites⟩
  | succ k ih =>
    intro m sec hk himg hsectors hwrites
    refine .bind (wsect_meets (by omega) ?_)
    refine (ih (by omega) ?_ ?_ ?_).mono ?_
    · change update m.img sec zeroes = _
      rw [himg]
      exact update_eq_self ..
    · change max m.sectors (sec+1) = sec+1
      omega
    · intro w hw
      obtain hw | hw := List.mem_append.mp hw
      · exact hwrites w hw
      · obtain rfl := List.mem_singleton.mp hw
        exact fun hpurpose => by simp at hpurpose
    · rintro _ m' ⟨himg',hsectors',hinodes,hblock,hwrites'⟩
      exact ⟨himg',by omega,hinodes,hblock,hwrites'⟩

lemma sound_formatted (himg : m.img = fun _ => zeroes) (hsectors : m.sectors = FSSIZE)
    (hinodes : m.freeinode = 1)
    (hblock : m.freeblock = nmeta) (hwrites : ∀ w ∈ m.writes, Harmless w) (buf : Sector) :
    Sound (put .format 1 buf m) := by
  have htable : (put .format 1 buf m).table = fun _ => .zero := by
    funext j
    refine if_neg ?_
    rintro ⟨h1,hj⟩
    change j < m.freeinode at hj
    omega
  have hframed : Framed m := by
    refine ⟨hsectors,by omega,hblock.ge,fun b _ _ => ?_,hwrites⟩
    rw [himg]
  refine ⟨⟨hframed.put (hblock ▸ by decide) (by decide) (fun hpurpose => by simp at hpurpose),?_⟩,
    ?_,fun j k => ?_⟩
  · have hzero : ∀ q, refs (put .format 1 buf m).img (put .format 1 buf m).table q = 0 := by
      intro q
      rw [htable]
      exact Dinode.ref_zero q.2
    refine ⟨fun h => absurd h.1 (by decide),fun q hq => absurd (hzero q) hq,
      fun q _ hq => absurd (hzero q) hq,?_⟩
    intro b hb
    constructor
    · intro hlt
      have hle := hb.1
      change b < m.freeblock at hlt
      omega
    · rintro ⟨q,rfl⟩
      rw [hzero] at hb
      exact absurd hb.1 (by decide)
  · change m.freeblock ≤ FSSIZE
    rw [hblock]
    decide
  · rw [htable]
    have hblock : Dinode.zero.block (put .format 1 buf m).img k = 0 := by
      unfold Dinode.block
      cases Place.ofIndex k with
      | none => rfl
      | some p => exact Dinode.ref_zero p
    rw [hblock]
    change 0 ≠ 0 ↔ k < blocks 0
    simp [blocks,BSIZE]

/-- What `main` leaves when all the files have been added to `m`. -/
def finished (m : Mkfs) : Mkfs :=
  put .bitmap sb.bmapstart (bitmap m.freeblock) (inodePut m ROOTINO { m.table ROOTINO with
    size := .ofNat 32 (((m.table ROOTINO).size.toNat/BSIZE+1)*BSIZE) })

lemma dots_meets (h : Sound m) (hinodes : m.freeinode = 1) {f : ℕ → Routine Mkfs Unit}
    (hQ : ∀ m', Rooted m' 2 → m'.freeinode = 2 → Meets (fun _ => True) (f ROOTINO) m' Q) :
    Meets (fun _ => True) (do
      let rootino ← ialloc T_DIR
      if rootino ≠ ROOTINO then throw "rootino == ROOTINO"
      else
        iappend rootino (dirent rootino [46])
        iappend rootino (dirent rootino [46,46])
        f rootino) m Q := by
  refine .bind ((ialloc_meets h hinodes.ge (hinodes ▸ by decide) T_DIR).mono ?_)
  rintro inum m1 ⟨rfl,hsound1,hinodes1,-,hnew1,-⟩
  rw [hinodes,if_neg (not_not.mpr rfl)]
  rw [hinodes] at hinodes1 hnew1
  have hroot1 : ROOTINO < m1.freeinode := hinodes1 ▸ by decide
  refine .bind ((iappend_meets hsound1 le_rfl hroot1 fun _ => .inl fun _ => trivial).mono ?_)
  rintro _ m2 ⟨hgrown2,-⟩
  have hinodes2 := hgrown2.inodes.trans hinodes1
  refine .bind ((iappend_meets hgrown2.sound le_rfl (hgrown2.inodes ▸ hroot1) fun _ => .inl fun _ =>
    trivial).mono ?_)
  rintro _ m3 ⟨hgrown3,-⟩
  have hinodes3 := hgrown3.inodes.trans hinodes2
  refine hQ m3 ⟨hgrown3.sound,hinodes3 ▸ by decide,?_⟩ hinodes3
  rw [hgrown3.size,hgrown2.size,hnew1,length_dirent,length_dirent]
  rfl

lemma main_meets {files : List Input} (hlen : files.length ≤ 206) :
    Meets (fun _ => True) (main files) blank
    fun _ m => ∃ m1, Rooted m1 (2+files.length) ∧ m1.freeinode = 2+files.length ∧ m = finished m1 := by
  refine .bind ((zeroSectors_meets FSSIZE (Nat.zero_add _).le rfl rfl (by simp [blank])).mono ?_)
  rintro _ m0 ⟨himg,hsectors,hinodes,hblock,hwrites⟩
  refine .bind (wsect_meets (by decide) ?_)
  have hsound :=
    sound_formatted himg (by simpa using hsectors) hinodes hblock hwrites (zeroes.paste 0 sb.bytes)
  refine dots_meets hsound hinodes fun m1 hrooted1 hinodes1 => ?_
  refine .bind ((addFiles_meets files hrooted1 (by omega)).mono ?_)
  rintro _ m2 ⟨hrooted2,hinodes2⟩
  have hframed := hrooted2.sound.owning.toFramed
  refine .bind (.bind (rinode_meets hframed le_rfl hrooted2.root ?_))
  refine winode_meets hframed hrooted2.root (.bind (.get ?_))
  change Meets _ (balloc m2.freeblock) _ _
  have hlast := hrooted2.sound.last
  rw [FSSIZE_eq] at hlast
  unfold balloc
  rw [if_neg (by simp only [BSIZE]; omega)]
  exact wsect_meets (by decide) ⟨m2,hrooted2,hinodes2.trans (by omega),rfl⟩

/-! ### The image -/

/-- An image as it should be. The inodes are those from 1 up to `freeinode`: their blocks are inside
the image and nobody else's, and so on. -/
structure Consistent (m : Mkfs) : Prop where
  inside : ∀ i, 1 ≤ i → i < m.freeinode → ∀ k < blocks (sb.dinode m.img i).size.toNat,
    (sb.dinode m.img i).block m.img k ≠ 0 ∧ (sb.dinode m.img i).block m.img k < FSSIZE
  alone : ∀ i, 1 ≤ i → i < m.freeinode → ∀ k < blocks (sb.dinode m.img i).size.toNat,
    ∀ j, 1 ≤ j → j < m.freeinode → ∀ q, (sb.dinode m.img j).ref m.img q =
      (sb.dinode m.img i).block m.img k →
      j = i ∧ Place.ofIndex k = some q
  marks : ∀ b < BSIZE*8, sb.marked m.img b = true ↔ b < m.freeblock
  area : ∀ i, 1 ≤ i → i < m.freeinode → sb.inodestart ≤ sb.IBLOCK i ∧ sb.IBLOCK i < sb.bmapstart
  writes : ∀ w ∈ m.writes, Harmless w

lemma bit_bitmap (used i : ℕ) : bit (bitmap used) i = decide (i < used) := by
  unfold bitmap
  induction used with
  | zero => simp [bit,zeroes]
  | succ used ih =>
    rw [List.range_succ,List.foldl_append,List.foldl_cons,List.foldl_nil,bit_setBit,ih,
      ← Bool.decide_or]
    congr 1
    apply propext
    omega

lemma marked_finished {b : ℕ} (hb : b < BSIZE*8) :
    sb.marked (finished m).img b = decide (b < m.freeblock) := by
  have hdiv : b/BPB = 0 := Nat.div_eq_of_lt hb
  have hmod : b%BPB = b := Nat.mod_eq_of_lt hb
  have hblock : sb.BBLOCK b = sb.bmapstart := by rw [Superblock.BBLOCK,hdiv,Nat.zero_add]
  have himg : (finished m).img sb.bmapstart = bitmap m.freeblock := by
    simp only [finished,put,update_self]
  rw [Superblock.marked,hblock,hmod,himg,bit_bitmap]

/-- The root directory with the size that `fixRoot` gives it. -/
def rounded (m : Mkfs) : Dinode :=
  { m.table ROOTINO with size := .ofNat 32 (((m.table ROOTINO).size.toNat/BSIZE+1)*BSIZE) }

namespace Rooted
variable {n : ℕ} (h : Rooted m n)
include h

lemma size_le : 16*n ≤ MAXFILE*BSIZE := h.size ▸ (h.sound.filled ROOTINO).le

lemma size_rounded : (rounded m).size.toNat = (16*n/BSIZE+1)*BSIZE := by
  have hle := h.size_le
  simp only [rounded,h.size,BitVec.toNat_ofNat,MAXFILE,NDIRECT,NINDIRECT,BSIZE] at hle ⊢
  omega

lemma table_finished : (finished m).table = update m.table ROOTINO (rounded m) := by
  rw [← table_inodePut le_rfl h.root]
  funext j
  unfold table
  split_ifs with hj
  · have hlt : j < 208 := hj.2.trans_le h.sound.owning.inodes
    exact Superblock.dinode_congr (update_of_ne (IBLOCK_lt hlt).ne ..)
  · exact absurd hj ‹_›
  · exact absurd ‹_› hj
  · rfl

lemma refs_finished : refs (finished m).img (finished m).table = refs m.img m.table := by
  have hrefs : refs m.img (update m.table ROOTINO (rounded m)) = refs m.img m.table :=
    refs_update_of_ref_eq fun _ => rfl
  have howning := h.sound.owning.congr hrefs
  have hput := howning.refs_low (IBLOCK_lt_nmeta (h.root.trans_le h.sound.owning.inodes))
    (Superblock.withDinode (m.img (sb.IBLOCK ROOTINO)) ROOTINO (rounded m))
  have howning' := howning.inodePut (d := rounded m) h.root
  have hbitmap := howning'.refs_low (show sb.bmapstart < nmeta by decide) (bitmap m.freeblock)
  rw [h.table_finished,← hrefs,← hput]
  exact hbitmap

lemma owning_finished : Owning (finished m) (finished m).table := by
  have howned := h.sound.owning.owned
  rw [← h.refs_finished] at howned
  have hframed := (h.sound.owning.inodePut (d := rounded m) h.root).toFramed
  refine ⟨hframed.put ?_ (by decide) fun hpurpose => by simp at hpurpose,howned⟩
  exact (show sb.bmapstart < nmeta by decide).trans_le hframed.start

lemma block_finished (j k : ℕ) : ((finished m).table j).block (finished m).img k =
    (m.table j).block m.img k :=
  block_congr_ref fun q _ => congrFun h.refs_finished (j,q)

/-- The blocks that the size of an inode asks for are there, except in the root directory if its
entries fill its blocks. -/
lemma filled_finished (hn : n%32 ≠ 0) (j : ℕ) :
    ∀ k < blocks ((finished m).table j).size.toNat, ((finished m).table j).block
      (finished m).img k ≠ 0 := by
  intro k hk
  rw [h.block_finished]
  rw [h.table_finished] at hk
  obtain rfl | hj := eq_or_ne j ROOTINO
  · rw [update_self,h.size_rounded] at hk
    refine (h.sound.filled ROOTINO k).mpr ?_
    rw [h.size]
    simp only [blocks,BSIZE] at hk ⊢
    omega
  · rw [update_of_ne hj] at hk
    exact (h.sound.filled j k).mpr hk

lemma hole_finished (hn : n%32 = 0) : 16*n/BSIZE < blocks ((finished m).table ROOTINO).size.toNat ∧
    ((finished m).table ROOTINO).block (finished m).img (16*n/BSIZE) = 0 := by
  rw [h.block_finished,h.table_finished,update_self,h.size_rounded]
  constructor
  · simp only [blocks,BSIZE]
    omega
  · by_contra hne
    have hlt := (h.sound.filled ROOTINO _).mp hne
    rw [h.size] at hlt
    simp only [blocks,BSIZE] at hlt
    omega

lemma consistent_finished (hn : n%32 ≠ 0) : Consistent (finished m) := by
  have howning := h.owning_finished
  have hplace : ∀ j k, ((finished m).table j).block (finished m).img k ≠ 0 →
    ∃ p, Place.ofIndex k = some p ∧
      ((finished m).table j).block (finished m).img k =
        refs (finished m).img (finished m).table (j,p) := by
    intro j k hk
    cases hp : Place.ofIndex k with
    | none => exact absurd (by rw [Dinode.block,hp]; rfl) hk
    | some p => exact ⟨p,rfl,block_eq_ref hp⟩
  constructor
  · intro i h1 hi k hk
    rw [← table_of_lt h1 hi] at hk ⊢
    have hne := h.filled_finished hn i k hk
    obtain ⟨p,-,hp⟩ := hplace i k hne
    rw [hp] at hne ⊢
    exact ⟨hne,(howning.data_ref hne).2⟩
  · intro i h1 hi k hk j hj1 hj q hq
    rw [← table_of_lt h1 hi] at hk hq
    rw [← table_of_lt hj1 hj] at hq
    have hne := h.filled_finished hn i k hk
    obtain ⟨p,hplace,hp⟩ := hplace i k hne
    rw [hp] at hne hq
    have honce := howning.owned.once (i,p) (j,q) hne hq.symm
    obtain ⟨rfl,rfl⟩ := Prod.mk.inj honce
    exact ⟨rfl,hplace⟩
  · intro b hb
    rw [marked_finished hb]
    exact decide_eq_true_iff
  · intro i h1 hi
    exact ⟨Nat.le_add_left ..,IBLOCK_lt (hi.trans_le h.sound.owning.inodes)⟩
  · exact howning.writes

end Rooted

/-! ### The number of inodes -/

/-- A routine that allocates `n` inodes if it returns. -/
structure Allocates {α : Type} (n : ℕ) (r : Routine Mkfs α) : Prop where
  meets : ∀ m, Meets (fun _ => True) r m fun _ m' => m'.freeinode = m.freeinode+n

namespace Allocates
variable {α β : Type} {a b : ℕ} {r : Routine Mkfs α} {f : α → Routine Mkfs β}

lemma pure (x : α) : Allocates 0 (Pure.pure x) := ⟨fun _ => .pure rfl⟩

lemma throw (message : String) : Allocates a (MonadExcept.throw message : Routine Mkfs α) :=
  ⟨fun _ => .throw trivial⟩

lemma bind (hr : Allocates a r) (hf : ∀ x, Allocates b (f x)) : Allocates (a+b) (r >>= f) := by
  refine ⟨fun m =>
    .bind ((hr.meets m).mono fun x m' hm' => ((hf x).meets m').mono fun y m'' hm'' => ?_)⟩
  omega

lemma after (hr : Allocates 0 r) (hf : ∀ x, Allocates b (f x)) : Allocates b (r >>= f) :=
  Nat.zero_add b ▸ hr.bind hf

lemma before (hr : Allocates a r) (hf : ∀ x, Allocates 0 (f x)) : Allocates a (r >>= f) := hr.bind hf

lemma rsect (sec : ℕ) : Allocates 0 (rsect sec) := by
  refine ⟨fun m => .bind (.get ?_)⟩
  split_ifs
  · exact .pure rfl
  · exact .throw trivial

lemma wsect (p : Purpose) (sec : ℕ) (buf : Sector) : Allocates 0 (wsect p sec buf) :=
  ⟨fun _ => .update rfl⟩

lemma newBlock : Allocates 0 newBlock := ⟨fun _ => newBlock_meets rfl⟩

lemma winode (i : ℕ) (d : Dinode) : Allocates 0 (winode i d) := (rsect _).after fun _ => wsect ..

lemma rinode (i : ℕ) : Allocates 0 (rinode i) := (rsect _).after fun _ => pure _

lemma ialloc (type : BitVec 16) : Allocates 1 (ialloc type) := by
  refine ⟨fun m => .bind (.get (.bind (.update ?_)))⟩
  exact ((winode m.freeinode _).after fun _ => pure m.freeinode).meets _

lemma mapBlock (d : Dinode) (fbn : ℕ) : Allocates 0 (mapBlock d fbn) := by
  have hindirect : Allocates 0 (mapIndirect d) := by
    unfold mapIndirect
    split_ifs
    · exact newBlock.after fun _ => pure _
    · exact pure _
  have hentry : ∀ d l, Allocates 0 (mapEntry d l) := by
    refine fun d l => (rsect _).after fun indirect => ?_
    split_ifs
    · exact newBlock.after fun _ => (wsect ..).after fun _ => pure _
    · exact pure _
  unfold Mkfs.mapBlock
  split_ifs
  · exact newBlock.after fun _ => pure _
  · exact pure _
  · exact hindirect.after fun d => hentry d _

lemma appendLoop (fuel : ℕ) : ∀ d off ps, Allocates 0 (appendLoop fuel d off ps) := by
  induction fuel with
  | zero => exact fun _ _ _ => pure _
  | succ fuel ih =>
    intro d off ps
    unfold Mkfs.appendLoop
    split_ifs
    · exact pure _
    · exact throw _
    · exact (mapBlock ..).after fun _ => (rsect _).after fun _ => (wsect ..).after fun _ => ih ..

lemma iappend (i : ℕ) (ps : List Byte) : Allocates 0 (iappend i ps) :=
  (rinode i).after fun _ => (appendLoop ..).after fun _ => winode ..

lemma appendAll (i : ℕ) (ps : List (List Byte)) : Allocates 0 (appendAll i ps) := by
  induction ps with
  | nil => exact pure _
  | cons p ps ih => exact (iappend i p).after fun _ => ih

lemma addFile (i : ℕ) (f : Input) : Allocates 1 (addFile i f) := by
  unfold Mkfs.addFile
  split_ifs
  · exact throw _
  · exact (ialloc T_FILE).before fun inum => (iappend i _).after fun _ => appendAll ..

lemma addFiles (i : ℕ) (fs : List Input) : Allocates fs.length (addFiles i fs) := by
  induction fs with
  | nil => exact pure _
  | cons f fs ih =>
    rw [List.length_cons,Nat.add_comm]
    exact (addFile i f).bind fun _ => ih

lemma zeroSectors (k : ℕ) : ∀ sec, Allocates 0 (zeroSectors k sec) := by
  induction k with
  | zero => exact fun _ => pure _
  | succ k ih => exact fun sec => (wsect ..).after fun _ => ih _

lemma balloc (used : ℕ) : Allocates 0 (balloc used) := by
  unfold Mkfs.balloc
  split_ifs
  · exact throw _
  · exact wsect ..

lemma main (files : List Input) : Allocates (1+files.length) (main files) := by
  refine (zeroSectors ..).after fun _ => (wsect ..).after fun _ => (ialloc T_DIR).bind fun rootino => ?_
  split_ifs
  · exact throw _
  refine (iappend ..).after fun _ => (iappend ..).after fun _ => (addFiles ..).before fun _ => ?_
  refine after ((rinode _).after fun _ => winode ..) fun _ => ⟨fun m => .bind (.get ?_)⟩
  exact (balloc m.freeblock).meets m

end Allocates

lemma Makes.freeinode {files : List Input} (h : Makes files m) : m.freeinode = files.length+2 := by
  have hmain := ((Allocates.main files).meets blank).returns () m h
  change m.freeinode = 1+(1+files.length) at hmain
  omega

/-- `mkfs` writes a consistent image if and only if there is room for the inodes and the entries of
the root directory do not fill its blocks: the size of the root directory is rounded up to the next
block even if it is whole already. -/
theorem mkfs_consistent_iff (files : List Input) (m : Mkfs) (h : Makes files m) :
    Consistent m ↔ files.length ≤ 206 ∧ (files.length+2)%32 ≠ 0 := by
  have hinodes := h.freeinode
  constructor
  · intro hconsistent
    have hlen : files.length ≤ 206 := by
      have harea := (hconsistent.area (files.length+1) (by omega) (by omega)).2
      have hstart : sb.inodestart = 32 := rfl
      simp only [Superblock.IBLOCK,IPB,bmapstart_eq] at harea
      omega
    refine ⟨hlen,fun hfull => ?_⟩
    obtain ⟨m1,hrooted,hinodes1,rfl⟩ := (main_meets hlen).returns () m h
    rw [Nat.add_comm] at hfull
    obtain ⟨hlt,hzero⟩ := hrooted.hole_finished hfull
    have hinside := hconsistent.inside ROOTINO le_rfl hrooted.root
    rw [← table_of_lt (m := finished m1) le_rfl hrooted.root] at hinside
    exact (hinside _ hlt).1 hzero
  · rintro ⟨hlen,hfull⟩
    obtain ⟨m1,hrooted,hinodes1,rfl⟩ := (main_meets hlen).returns () m h
    rw [Nat.add_comm] at hfull
    exact hrooted.consistent_finished hfull

/-- Two files, named `a` and `_b`; the second is read in two parts. -/
def twoFiles : List Input := [⟨[97],[[7,8]]⟩,⟨[95,98],[[9],[10]]⟩]

theorem mkfs_consistent_iff_two : ∃ m, Makes twoFiles m ∧ Consistent m := by
  obtain ⟨_,m,hm,-⟩ :=
    exists_ok (m := main twoFiles) (s := blank) (p := fun _ => true) (by decide +kernel)
  exact ⟨m,hm,(mkfs_consistent_iff twoFiles m hm).mpr (by decide)⟩

/-- Thirty files fill the first block of the root directory, and its size asks for a second one. -/
theorem mkfs_root_hole : ∃ m, Makes (List.replicate 30 ⟨[97],[]⟩) m ∧ ¬ Consistent m := by
  obtain ⟨_,m,hm,-⟩ :=
    exists_ok (m := main (List.replicate 30 ⟨[97],[]⟩)) (s := blank) (p := fun _ => true)
    (by decide +kernel)
  refine ⟨m,hm,fun hconsistent => ?_⟩
  obtain ⟨m1,hrooted,hinodes1,rfl⟩ := (main_meets (by simp)).returns () m hm
  rw [List.length_replicate] at hrooted
  obtain ⟨hlt,hzero⟩ := hrooted.hole_finished rfl
  have hinside := hconsistent.inside ROOTINO le_rfl hrooted.root
  rw [← table_of_lt (m := finished m1) le_rfl hrooted.root] at hinside
  exact (hinside _ hlt).1 hzero

end Mkfs
end JacobiXv6.FileSystem
