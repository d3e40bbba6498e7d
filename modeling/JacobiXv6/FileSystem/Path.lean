import JacobiXv6.FileSystem.Directory

/-! Path names. `skipelem` takes the components of a path one after the other, and `namex` follows
them from directory to directory; `namei` and `nameiparent` are one loop. -/
namespace JacobiXv6.FileSystem
open Library Function List

/-! ### Components -/

/-- The byte that separates the elements of a path. -/
abbrev slash : Byte := 47

/-- The path after its next element, and `name` with the element in it. A path ends with its last
byte or with a zero. -/
def skipelem (path name : List Byte) : Option (List Byte×List Byte) :=
  let s := path.dropWhile (· = slash)
  if s.headD 0 = 0 then none
  else
    let element := s.takeWhile fun c => c ≠ slash ∧ c ≠ 0
    let path := s.dropWhile fun c => c ≠ slash ∧ c ≠ 0
    let name := splice name 0 (if DIRSIZ ≤ element.length then element.take DIRSIZ else element++[0])
    some (path.dropWhile (· = slash),name)

/-- The elements that `skipelem` yields one after the other, at most `fuel` of them. -/
def elements : ℕ → List Byte → List Byte → List (List Byte)
  | 0, _, _ => []
  | fuel+1, path, name =>
    match skipelem path name with
    | none => []
    | some (path,name) => cut name::elements fuel path name

/-- The components of a path that are not empty, cut as they are in a directory. -/
def components (path : List Byte) : List (List Byte) :=
  (((path.takeWhile (· ≠ 0)).splitOn slash).filter (· ≠ [])).map (·.take DIRSIZ)

variable {path : List Byte}

lemma components_of_end (h : path.headD 0 = 0) : components path = [] := by
  have hempty : path.takeWhile (· ≠ 0) = [] := by
    cases path with
    | nil => rfl
    | cons c path => exact takeWhile_cons_of_neg (by simpa using h)
  rw [components,hempty]
  rfl

lemma components_slash (path : List Byte) : components (slash::path) = components path := by
  rw [components,takeWhile_cons_of_pos (by decide),splitOn_cons_eq_if_modifyHead]
  simp [components]

lemma components_dropWhile (path : List Byte) : components (path.dropWhile (· = slash)) =
    components path := by
  induction path with
  | nil => rfl
  | cons c path ih =>
    by_cases hc : c = slash
    · rw [dropWhile_cons_of_pos (by simpa using hc),ih,hc,components_slash]
    · rw [dropWhile_cons_of_neg (by simpa using hc)]

lemma components_append {element : List Byte} (hne : element ≠ [])
    (hplain : ∀ c ∈ element, c ≠ slash ∧ c ≠ 0)
    (hend : path.headD 0 = 0 ∨ path.headD 0 = slash) :
    components (element++path) = element.take DIRSIZ::components path := by
  have hslash : slash ∉ element := fun hmem => (hplain slash hmem).1 rfl
  have hstart : (element++path).takeWhile (· ≠ 0) = element++path.takeWhile (· ≠ 0) :=
    takeWhile_append_of_pos fun c hc => by simpa using (hplain c hc).2
  obtain hend | hend := hend
  · have hempty : path.takeWhile (· ≠ 0) = [] := by
      cases path with
      | nil => rfl
      | cons c path => exact takeWhile_cons_of_neg (by simpa using hend)
    rw [components_of_end hend,components,hstart,hempty,append_nil,splitOn_eq_singleton hslash]
    simp [hne]
  · cases path with
    | nil => cases hend
    | cons c path =>
      obtain rfl : c = slash := hend
      rw [components_slash,components,hstart,takeWhile_cons_of_pos (by decide),
        splitOn_append_cons_self_of_not_mem hslash]
      simp [components,hne]

/-- The bytes that `skipelem` puts into `name`. -/
lemma cut_splice {element : List Byte} (name : List Byte) (hplain : ∀ c ∈ element, c ≠ 0) :
    cut (splice name 0 (if DIRSIZ ≤ element.length then element.take DIRSIZ else element++[0])) =
      element.take DIRSIZ := by
  have htake : ∀ {l : List Byte} (rest : List Byte), (∀ c ∈ l, c ≠ 0) →
      (l++rest).takeWhile (· ≠ 0) = l++rest.takeWhile (· ≠ 0) := by
    intro l rest hl
    exact takeWhile_append_of_pos fun c hc => by simpa using hl c hc
  rw [splice,take_zero,nil_append,cut,cutTo]
  split_ifs with hlong
  · rw [htake _ fun c hc => hplain c (mem_of_mem_take hc),
      take_append_of_le_length (by simp [hlong]),take_take,
      Nat.min_self]
  · rw [append_assoc,htake _ hplain,singleton_append,takeWhile_cons_of_neg (by simp),append_nil]

/-- One step through a path. -/
inductive Skipped (path : List Byte) : Option (List Byte×List Byte) → Prop
  | stop : components path = [] → Skipped path none
  | element {rest name : List Byte} : components path = cut name::components rest →
    rest.length < path.length →
      (rest.headD 0 = 0 ↔ components rest = []) → Skipped path (some (rest,name))

lemma headD_dropWhile (p : Byte → Bool) (l : List Byte) : l.dropWhile p = [] ∨
    p ((l.dropWhile p).headD 0) = false := by
  induction l with
  | nil => exact .inl rfl
  | cons c l ih =>
    cases hc : p c with
    | true => rwa [dropWhile_cons_of_pos hc]
    | false =>
      rw [dropWhile_cons_of_neg (by simp [hc])]
      exact .inr hc

lemma exists_element (hslash : path.headD 0 ≠ slash) (hend : path.headD 0 ≠ 0) :
    ∃ element rest, path = element++rest ∧ element ≠ [] ∧ (∀ c ∈ element, c ≠ slash ∧ c ≠ 0) ∧
      (rest.headD 0 = 0 ∨ rest.headD 0 = slash) ∧
        element = path.takeWhile (fun c => c ≠ slash ∧ c ≠ 0) ∧
      rest = path.dropWhile fun c => c ≠ slash ∧ c ≠ 0 := by
  refine ⟨_,_,takeWhile_append_dropWhile.symm,?_,?_,?_,rfl,rfl⟩
  · cases path with
    | nil => exact absurd rfl hend
    | cons c path =>
      rw [takeWhile_cons_of_pos (by simpa using ⟨hslash,hend⟩)]
      exact cons_ne_nil _ _
  · intro c hc
    simpa using all_eq_true.mp (all_takeWhile ..) c hc
  · obtain hnil | hhead := headD_dropWhile (fun c => c ≠ slash ∧ c ≠ 0) path
    · rw [hnil]
      exact .inl rfl
    · have hhead := of_decide_eq_false hhead
      tauto

lemma skipelem_skipped (path name : List Byte) : Skipped path (skipelem path name) := by
  have hs := components_dropWhile path
  have hshort : (path.dropWhile (· = slash)).length ≤ path.length := (dropWhile_sublist _).length_le
  have hnot : ∀ l : List Byte, (l.dropWhile (· = slash)).headD 0 ≠ slash := by
    intro l
    obtain hnil | hhead := headD_dropWhile (· = slash) l
    · rw [hnil]
      decide
    · exact of_decide_eq_false hhead
  have hstart := hnot path
  unfold skipelem
  generalize path.dropWhile (· = slash) = s at hs hshort hstart
  dsimp only
  by_cases hend : s.headD 0 = 0
  · rw [if_pos hend]
    exact .stop (hs.symm.trans (components_of_end hend))
  rw [if_neg hend]
  obtain ⟨element,rest,hpath,hne,hplain,hrest,helement,hdrop⟩ := exists_element hstart hend
  rw [← helement,← hdrop]
  have hlen : s.length = element.length+rest.length := by rw [hpath,length_append]
  have hpos := length_pos_of_ne_nil hne
  refine .element ?_ ?_ ⟨components_of_end,fun hnone => ?_⟩
  · rw [← hs,hpath,components_append hne hplain hrest,
      cut_splice name fun c hc => (hplain c hc).2,components_dropWhile]
  · have hle : (rest.dropWhile (· = slash)).length ≤ rest.length := (dropWhile_sublist _).length_le
    omega
  · by_contra hmore
    obtain ⟨element',rest',hpath',hne',hplain',hrest',-⟩ := exists_element (hnot rest) hmore
    rw [hpath',components_append hne' hplain' hrest'] at hnone
    cases hnone

lemma elements_eq_components (fuel : ℕ) :
    ∀ path name : List Byte, path.length < fuel → elements fuel path name = components path := by
  induction fuel with
  | zero =>
    intro path name hfuel
    exact absurd hfuel (Nat.not_lt_zero _)
  | succ fuel ih =>
    intro path name hfuel
    have hskip := skipelem_skipped path name
    rw [elements]
    cases hskip' : skipelem path name with
    | none =>
      rw [hskip'] at hskip
      cases hskip with
      | stop hnone => exact hnone.symm
    | some x =>
      rw [hskip'] at hskip
      cases hskip with
      | element hcomponents hlt _ =>
        rw [hcomponents]
        exact congrArg _ (ih _ _ (by omega))

/-! ### `namex` -/

namespace Store

/-- The loop of `namex`, with at most `fuel` rounds. With the inode comes what `name` holds then. -/
def namexLoop (nameiparent : Bool) : ℕ → ℕ → List Byte → List Byte →
    Routine Store (Option (ℕ×List Byte))
  | 0, _, _, _ => return none
  | fuel+1, ip, path, name => do
    match skipelem path name with
    | none =>
      if nameiparent then
        iput ip
        return none
      else return some (ip,name)
    | some (path,name) =>
      ilock ip
      if ((← get).icache ip).din.type ≠ T_DIR then
        iunlockput ip
        return none
      else if nameiparent ∧ path.headD 0 = 0 then
        iunlock ip
        return some (ip,name)
      else
        match ← dirlookup ip name with
        | none =>
          iunlockput ip
          return none
        | some (next,_) =>
          iunlockput ip
          namexLoop nameiparent fuel next path name

/-- `cwd` is the current directory of the process. -/
def namex (cwd : ℕ) (path : List Byte) (nameiparent : Bool) (name : List Byte) :
    Routine Store (Option (ℕ×List Byte)) := do
  if path.headD 0 = slash then
    iget ROOTINO
    namexLoop nameiparent (path.length+1) ROOTINO path name
  else
    idup cwd
    namexLoop nameiparent (path.length+1) cwd path name

/-- `name` is what the array in `namei` holds before. -/
def namei (cwd : ℕ) (path name : List Byte) : Routine Store (Option ℕ) := do
  return (← namex cwd path false name).map Prod.fst

def nameiparent (cwd : ℕ) (path name : List Byte) : Routine Store (Option (ℕ×List Byte)) :=
  namex cwd path true name

/-! ### A tree that does not change -/

/-- Inode `i` is one of the disk. If it is in use without a link, somebody refers to it. -/
structure Kept (s : Store) (i : ℕ) : Prop where
  lt : i < s.sb.ninodes
  linked : (s.table i).nlink = 0 → (s.table i).type = 0 ∨ 1 ≤ (s.icache i).ref

def bound (s : Store) (d : ℕ) : List Byte → Option ℕ := (slots ((s.table d).contents s.disk)).lookup

/-- The file system between two calls: what is in memory is as it is on the disk. The entry `..` of
a directory that has been removed may refer to an inode that is free. -/
structure Tree (s : Store) : Prop where
  ninodes : s.sb.ninodes ≤ 2^16
  unlocked : ∀ j, (s.icache j).locked = false
  ref : ∀ j, 0 ≤ (s.icache j).ref
  coherent : ∀ j, 0 < (s.icache j).ref → (s.icache j).valid = true →
    (s.icache j).din = s.table j ∧ (s.table j).type ≠ 0
  whole : ∀ d, (s.table d).type = T_DIR → (s.table d).Whole s.disk
  whole16 : ∀ d, (s.table d).type = T_DIR → 16 ∣ (s.table d).size.toNat
  entry : ∀ d c i, (s.table d).type = T_DIR → bound s d c = some i → Kept s i
  root : Kept s ROOTINO

/-- The inode that a sequence of names leads to. -/
def resolve (s : Store) : ℕ → List (List Byte) → Option ℕ
  | ip, [] => some ip
  | ip, c::cs => if (s.table ip).type = T_DIR then (bound s ip c).bind fun next =>
    resolve s next cs else none

/-- Inode `i` can be looked up in directory `d`, which is held meanwhile. -/
def Enters (s : Store) (d i : ℕ) : Prop := 0 < (s.icache i).ref ∨ i = d ∨
    (insert d s.inUse).card < NINODE

/-- None of the inodes that `namex` locks on its way from `ip` is free. -/
def Typed (s : Store) : ℕ → List (List Byte) → Prop
  | _, [] => True
  | ip, c::cs => (s.table ip).type ≠ 0 ∧
      ((s.table ip).type = T_DIR → ∀ next, bound s ip c = some next → Typed s next cs)

/-- Each inode that `namex` looks up on its way from `ip` can be entered. -/
def Entered (s : Store) (nameiparent : Bool) : ℕ → List (List Byte) → Prop
  | _, [] => True
  | ip, c::cs => (s.table ip).type = T_DIR → (nameiparent = true → cs ≠ []) →
      ∀ next, bound s ip c = some next → s.Enters ip next ∧ Entered s nameiparent next cs

/-- The tree is as it was, and there are `held j` more references to each inode `j`. -/
structure Resting (s : Store) (held : ℕ → ℤ) (t : Store) : Prop where
  sb : t.sb = s.sb
  disk : t.disk = s.disk
  logged : t.logged = s.logged
  unlocked : ∀ j, (t.icache j).locked = false
  ref : ∀ j, (t.icache j).ref = (s.icache j).ref+held j
  coherent : ∀ j, 0 < (t.icache j).ref → (t.icache j).valid = true →
    (t.icache j).din = s.table j ∧ (s.table j).type ≠ 0

/-- Inode `i` is locked. -/
def lock (s : Store) (i : ℕ) : Store := withInode s i { s.icache i with locked := true }

variable {s t : Store} {held : ℕ → ℤ} {ip i d cwd : ℕ} {E : String → Prop} {path name : List Byte}
  {Q : Unit → Store → Prop}

lemma lock_got (t : Store) (d i : ℕ) : (t.lock d).withInode i ((t.lock d).icache i).got =
    (t.withInode i (t.icache i).got).lock d := by
  obtain rfl | hne := eq_or_ne i d
  · have hgot : ({ t.icache i with locked := true } : Inode).got =
        { (t.icache i).got with locked := true } := by
      unfold Inode.got
      split_ifs <;> rfl
    rw [lock,lock,withInode_self,withInode_self,withInode_withInode,withInode_withInode,hgot]
  · unfold lock
    rw [withInode_of_ne hne,withInode_of_ne hne.symm]
    simp only [withInode]
    rw [update_comm hne]

lemma Tree.resting (h : Tree s) : Resting s 0 s where
  sb := rfl
  disk := rfl
  logged := rfl
  unlocked := h.unlocked
  ref _ := (add_zero _).symm
  coherent := h.coherent

namespace Resting

lemma withInode (h : Resting s held t) {new : Inode} {n : ℤ} (hlocked : new.locked = false)
    (href : new.ref = (t.icache i).ref+n)
    (hcoherent : 0 < new.ref → new.valid = true → new.din = s.table i ∧ (s.table i).type ≠ 0) :
    Resting s (held+Pi.single i n) (t.withInode i new) where
  sb := h.sb
  disk := h.disk
  logged := h.logged
  unlocked j := by
    obtain rfl | hne := eq_or_ne j i
    · rwa [withInode_self]
    · rw [withInode_of_ne hne]
      exact h.unlocked j
  ref j := by
    obtain rfl | hne := eq_or_ne j i
    · rw [withInode_self,href,h.ref,Pi.add_apply,Pi.single_eq_same,add_assoc]
    · rw [withInode_of_ne hne,h.ref,Pi.add_apply,Pi.single_eq_of_ne hne,add_zero]
  coherent j hpos hvalid := by
    obtain rfl | hne := eq_or_ne j i
    · rw [withInode_self] at hpos hvalid ⊢
      exact hcoherent hpos hvalid
    · rw [withInode_of_ne hne] at hpos hvalid ⊢
      exact h.coherent j hpos hvalid

lemma got (h : Resting s held t) (hpos : 0 ≤ (t.icache i).ref) :
    Resting s (held+Pi.single i 1) (t.withInode i (t.icache i).got) := by
  refine h.withInode ?_ ?_ ?_
  · rw [Inode.got_locked]
    exact h.unlocked i
  · unfold Inode.got
    split_ifs with hlt
    · rfl
    · change 1 = (t.icache i).ref+1
      omega
  · rw [Inode.got_din]
    unfold Inode.got
    split_ifs with hlt
    · exact fun _ => h.coherent i hlt
    · intro _ hvalid
      cases hvalid

lemma one_le_ref (h : Resting s (Pi.single i 1+held) t) (htree : Tree s) (hheld : 0 ≤ held) :
    1 ≤ (t.icache i).ref := by
  have href := h.ref i
  have hnonneg : 0 ≤ held i := hheld i
  have hs := htree.ref i
  rw [Pi.add_apply,Pi.single_eq_same] at href
  omega

lemma iput_meets (h : Resting s (Pi.single i 1+held) t) (hheld : 0 ≤ held) (hi : Kept s i)
    (hQ : ∀ t', Resting s held t' → Q () t') : Meets E (iput i) t Q := by
  have href := h.ref i
  rw [Pi.add_apply,Pi.single_eq_same] at href
  have hput : Resting s (Pi.single i 1+held+Pi.single i (-1)) (t.withInode i (t.icache i).put) := by
    refine h.withInode (h.unlocked i) rfl fun hpos hvalid => ?_
    change 0 < (t.icache i).ref-1 at hpos
    exact h.coherent i (by omega) hvalid
  rw [add_right_comm,← Pi.single_add,add_neg_cancel,Pi.single_zero,zero_add] at hput
  refine Store.iput_meets (h.unlocked i) ?_ (hQ _ hput)
  rintro ⟨hvalid,hlink,hone⟩
  obtain ⟨hdin,htype⟩ := h.coherent i (by omega) hvalid
  rw [hdin] at hlink
  have hlinked := (hi.linked hlink).resolve_left htype
  have hnonneg : 0 ≤ held i := hheld i
  omega

/-- After `ilock` the inode is as it is on the disk, and in use. -/
lemma ilock_meets (h : Resting s held t) (hi : Kept s i) (hpos : 1 ≤ (t.icache i).ref)
    (hE : (s.table i).type = 0 → E "ilock: no type")
    (hQ : ∀ t', Resting s held t' → (t'.icache i).din = s.table i →
      (s.table i).type ≠ 0 → Q () (t'.lock i)) : Meets E (ilock i) t Q := by
  have htable : t.sb.dinode t.disk i = s.table i := by
    rw [h.sb,h.disk]
    exact (if_pos hi.lt).symm
  cases hvalid : (t.icache i).valid with
  | true =>
    obtain ⟨hdin,htype⟩ := h.coherent i hpos hvalid
    exact Store.ilock_meets (h.unlocked i) hpos hvalid (hQ t h hdin htype)
  | false =>
    refine ilock_load_meets (h.unlocked i) hpos hvalid (htable ▸ hE) fun htype => ?_
    rw [htable] at htype ⊢
    have hloaded :
        Resting s (held+Pi.single i 0)
        (t.withInode i { t.icache i with valid := true, din := s.table i }) :=
      h.withInode (h.unlocked i) (add_zero _).symm fun _ _ => ⟨rfl,htype⟩
    rw [Pi.single_zero,add_zero] at hloaded
    have hlock := hQ _ hloaded (by rw [withInode_self]) htype
    rw [lock,withInode_withInode,withInode_self] at hlock
    exact hlock

lemma iunlock_meets (h : Resting s held t) (hpos : 1 ≤ (t.icache i).ref) (hQ : Q () t) :
    Meets E (iunlock i) (t.lock i) Q := by
  have hself : (t.lock i).icache i = { t.icache i with locked := true } := withInode_self
  refine Store.iunlock_meets (by rw [hself]) (by rw [hself]; exact hpos) ?_
  have hback : ({ t.icache i with locked := false } : Inode) = t.icache i := by rw [← h.unlocked i]
  rwa [hself,hback,lock,withInode_withInode,withInode_eq_self]

lemma iunlockput_meets (h : Resting s (Pi.single i 1+held) t) (htree : Tree s) (hheld : 0 ≤ held)
    (hi : Kept s i)
    (hQ : ∀ t', Resting s held t' → Q () t') : Meets E (iunlockput i) (t.lock i) Q :=
  .bind (h.iunlock_meets (h.one_le_ref htree hheld) (h.iput_meets hheld hi hQ))

/-- The directory that is held has an entry of the cache. -/
lemma cacheable_iff (h : Resting s (Pi.single d 1) t) (htree : Tree s) (hd : Kept s d) (i : ℕ) :
    (t.lock d).Cacheable i ↔ s.Enters d i := by
  have href : ∀ j, 0 < ((t.lock d).icache j).ref ↔ 0 < (s.icache j).ref ∨ j = d := by
    intro j
    have hnonneg := htree.ref j
    obtain rfl | hne := eq_or_ne j d
    · rw [lock,withInode_self,h.ref,Pi.single_eq_same]
      exact iff_of_true (by omega) (.inr rfl)
    · rw [lock,withInode_of_ne hne,h.ref,Pi.single_eq_of_ne hne,add_zero,or_iff_left hne]
  have hinUse : (t.lock d).inUse = insert d s.inUse := by
    have hlt := hd.lt.trans_le htree.ninodes
    ext j
    simp only [inUse,Finset.mem_filter,Finset.mem_insert,Finset.mem_range,href]
    constructor
    · tauto
    · rintro (rfl | ⟨hj,hpos⟩)
      · exact ⟨hlt,.inr rfl⟩
      · exact ⟨hj,.inl hpos⟩
  rw [Cacheable,Enters,hinUse,href,or_assoc]

lemma dirlookup_meets (h : Resting s (Pi.single d 1) t) (htree : Tree s) (hd : Kept s d)
    (hdin : (t.icache d).din = s.table d) (hdir : (s.table d).type = T_DIR)
    (hC : ∀ i, bound s d (cut name) = some i → E "iget: no inodes" ∨ s.Enters d i) :
    Meets E (dirlookup d name) (t.lock d) fun r u => r.map Prod.fst = bound s d (cut name) ∧
      (∀ x, r = some x → s.Enters d x.1) ∧
      ∃ t', u = t'.lock d ∧ Resting s (Pi.single d 1+r.elim 0 fun x => Pi.single x.1 1) t' := by
  have hself : (t.lock d).icache d = { t.icache d with locked := true } := withInode_self
  have hlisting : Listing (t.lock d) d := by
    constructor
    · rw [hself,hdin]
      exact hdir
    · rw [hself,hdin]
      change (s.table d).Whole t.disk
      rw [h.disk]
      exact htree.whole d hdir
    · rw [hself,hdin]
      exact htree.whole16 d hdir
  have hnames : names (t.lock d) d (cut name) = bound s d (cut name) := by
    rw [names,hself,hdin,bound]
    change (slots ((s.table d).contents t.disk)).lookup _ = _
    rw [h.disk]
  have hC' : Listing.Caches E (t.lock d) d name := by
    intro i hi
    rw [hnames] at hi
    exact (hC i hi).imp_right (h.cacheable_iff htree hd i).mpr
  refine (hlisting.dirlookup_meets hC').mono fun r u hfound => ⟨hfound.names.symm.trans hnames,?_⟩
  obtain ⟨rfl,rfl,-⟩ | ⟨k,i,rfl,rfl,hcache,-⟩ := hfound
  · refine ⟨fun x hx => absurd hx.symm (Option.some_ne_none x),t,rfl,?_⟩
    rwa [Option.elim_none,add_zero]
  · refine ⟨?_,_,lock_got t d i,h.got ?_⟩
    · rintro x ⟨⟩
      exact (h.cacheable_iff htree hd i).mp hcache
    · have hheld : (0 : ℕ → ℤ) ≤ Pi.single d 1 := Pi.single_nonneg.mpr zero_le_one
      rw [h.ref]
      exact add_nonneg (htree.ref i) (hheld i)

end Resting

/-- The directory that all names but the last lead to, and the last name. -/
def parent (s : Store) (ip : ℕ) (cs : List (List Byte)) : Option (ℕ×List Byte) := do
  let c ← cs.getLast?
  let d ← resolve s ip cs.dropLast
  if (s.table d).type = T_DIR then some (d,c) else none

lemma parent_singleton (s : Store) (ip : ℕ) (c : List Byte) :
    parent s ip [c] = if (s.table ip).type = T_DIR then some (ip,c) else none := rfl

lemma parent_cons {c : List Byte} {cs : List (List Byte)} (hcs : cs ≠ []) : parent s ip (c::cs) =
    if (s.table ip).type = T_DIR then (bound s ip c).bind fun next => parent s next cs else none := by
  unfold parent
  rw [getLast?_cons_of_ne_nil hcs,dropLast_cons_of_ne_nil hcs,resolve]
  split_ifs with hdir
  · cases bound s ip c with
    | none => cases cs.getLast? <;> rfl
    | some next => rfl
  · cases cs.getLast? <;> rfl

/-- What `namex` should return. -/
def Answer (s : Store) (ip : ℕ) (cs : List (List Byte)) (r : Option (ℕ×List Byte)) : Bool → Prop
  | true => r.map (fun x => (x.1,cut x.2)) = parent s ip cs
  | false => r.map Prod.fst = resolve s ip cs

section
variable {c : List Byte} {cs : List (List Byte)} {b : Bool}

lemma answer_of_not_dir (hdir : (s.table ip).type ≠ T_DIR) : Answer s ip (c::cs) none b := by
  cases b with
  | true =>
    by_cases hcs : cs = []
    · rw [Answer,hcs,parent_singleton,if_neg hdir]
      rfl
    · rw [Answer,parent_cons hcs,if_neg hdir]
      rfl
  | false =>
    rw [Answer,resolve,if_neg hdir]
    rfl

lemma answer_of_unbound (hbound : bound s ip c = none) (hcs : b = true → cs ≠ []) :
    Answer s ip (c::cs) none b := by
  cases b with
  | true =>
    rw [Answer,parent_cons (hcs rfl),hbound]
    split_ifs <;> rfl
  | false =>
    rw [Answer,resolve,hbound]
    split_ifs <;> rfl

lemma answer_of_bound {next : ℕ} {r : Option (ℕ×List Byte)} (hdir : (s.table ip).type = T_DIR)
    (hbound : bound s ip c = some next) (hcs : b = true → cs ≠ []) (h : Answer s next cs r b) :
    Answer s ip (c::cs) r b := by
  cases b with
  | true =>
    rw [Answer,parent_cons (hcs rfl),if_pos hdir,hbound]
    exact h
  | false =>
    rw [Answer,resolve,if_pos hdir,hbound]
    exact h

end

/-- The references that a walk leaves are that to the inode it has found. -/
def left (r : Option (ℕ×List Byte)) : ℕ → ℤ := r.elim 0 fun x => Pi.single x.1 1

lemma namexLoop_meets (htree : Tree s) (b : Bool) (fuel : ℕ) :
    ∀ {ip : ℕ} {path : List Byte} (name : List Byte) {t : Store},
    path.length < fuel → Resting s (Pi.single ip 1) t → Kept s ip →
    E "ilock: no type" ∨ Typed s ip (components path) →
    E "iget: no inodes" ∨ Entered s b ip (components path) →
    Meets E (namexLoop b fuel ip path name) t fun r u => (Typed s ip (components path) ∧
      Entered s b ip (components path)) ∧ Answer s ip (components path) r b ∧ Resting s (left r) u := by
  induction fuel with
  | zero =>
    intro ip path name t hfuel
    exact absurd hfuel (Nat.not_lt_zero _)
  | succ fuel ih =>
    intro ip path name t hfuel h hip hT hC
    have hsingle : ∀ j, (0 : ℕ → ℤ) ≤ Pi.single j 1 := fun j => Pi.single_nonneg.mpr zero_le_one
    have hskip := skipelem_skipped path name
    rw [namexLoop]
    cases hskip' : skipelem path name with
    | none =>
      rw [hskip'] at hskip
      cases hskip with
      | stop hnone =>
        rw [hnone]
        dsimp only
        cases b with
        | true =>
          rw [← add_zero (Pi.single ip 1)] at h
          rw [if_pos rfl]
          exact .bind (h.iput_meets le_rfl hip fun t' h' => .pure ⟨⟨trivial,trivial⟩,rfl,h'⟩)
        | false => exact .pure ⟨⟨trivial,trivial⟩,rfl,h⟩
    | some x =>
      obtain ⟨path',name'⟩ := x
      rw [hskip'] at hskip
      cases hskip with
      | element hcomponents hlt hlast =>
        rw [hcomponents] at hT hC ⊢
        dsimp only
        have hpos : ∀ {t₁ : Store}, Resting s (Pi.single ip 1) t₁ → 1 ≤ (t₁.icache ip).ref := by
          intro t₁ h₁
          rw [← add_zero (Pi.single ip 1)] at h₁
          exact h₁.one_le_ref htree le_rfl
        have hfree : (s.table ip).type = 0 → E "ilock: no type" := fun hzero =>
          hT.resolve_right fun htyped => htyped.1 hzero
        refine .bind (h.ilock_meets hip (hpos h) hfree fun t₁ h₁ hdin htype => .bind (.get ?_))
        have hlocked : ((t₁.lock ip).icache ip).din = s.table ip :=
          (congrArg Inode.din withInode_self).trans hdin
        rw [hlocked]
        by_cases hdir : (s.table ip).type = T_DIR
        · rw [if_neg (not_not.mpr hdir)]
          by_cases hstop : b = true ∧ path'.headD 0 = 0
          · rw [if_pos hstop]
            obtain ⟨rfl,hend⟩ := hstop
            refine .bind (h₁.iunlock_meets (hpos h₁) (.pure ⟨⟨⟨htype,?_⟩,fun _ hmore => ?_⟩,?_,h₁⟩))
            · rw [hlast.mp hend]
              exact fun _ _ _ => trivial
            · exact absurd (hlast.mp hend) (hmore rfl)
            rw [hlast.mp hend,Answer,parent_singleton,if_pos hdir]
            rfl
          rw [if_neg hstop]
          have hmore : b = true → components path' ≠ [] := fun hb hnil => hstop ⟨hb,hlast.mpr hnil⟩
          have hlookup : ∀ i, bound s ip (cut name') = some i →
              E "iget: no inodes" ∨ s.Enters ip i := fun i hi =>
            hC.imp_right fun hentered => (hentered hdir hmore i hi).1
          refine .bind ((h₁.dirlookup_meets htree hip hdin hdir hlookup).mono ?_)
          rintro r u ⟨hbound,henters,t₂,rfl,h₂⟩
          cases r with
          | none =>
            refine .bind (h₂.iunlockput_meets htree le_rfl hip fun t₃ h₃ =>
              .pure ⟨⟨⟨htype,?_⟩,?_⟩,?_,h₃⟩)
            · exact fun _ next hnext => nomatch hbound.trans hnext
            · exact fun _ _ next hnext => nomatch hbound.trans hnext
            · exact answer_of_unbound hbound.symm hmore
          | some x =>
            have hnext : bound s ip (cut name') = some x.1 := hbound.symm
            refine .bind (h₂.iunlockput_meets htree (hsingle _) hip fun t₃ h₃ => ?_)
            refine (ih name' (by omega) h₃ (htree.entry _ _ _ hdir hnext)
              (hT.imp_right fun htyped => htyped.2 hdir _ hnext)
              (hC.imp_right fun hentered => (hentered hdir hmore _ hnext).2)).mono fun r u hr => ?_
            have hsame : ∀ {next}, bound s ip (cut name') = some next → x.1 = next := fun h =>
              Option.some.inj (hnext.symm.trans h)
            refine ⟨⟨⟨htype,fun _ _ h => hsame h ▸ hr.1.1⟩,
              fun _ _ _ h => hsame h ▸ ⟨henters x rfl,hr.1.2⟩⟩,?_,hr.2.2⟩
            exact answer_of_bound hdir hnext hmore hr.2.1
        · rw [if_pos hdir]
          rw [← add_zero (Pi.single ip 1)] at h₁
          refine .bind (h₁.iunlockput_meets htree le_rfl hip fun t₂ h₂ => .pure ⟨⟨⟨htype,?_⟩,?_⟩,?_,h₂⟩)
          · exact fun hdir' => absurd hdir' hdir
          · exact fun hdir' => absurd hdir' hdir
          · exact answer_of_not_dir hdir

def origin (cwd : ℕ) (path : List Byte) : ℕ := if path.headD 0 = slash then ROOTINO else cwd

lemma Tree.kept_origin (htree : Tree s) (hcwd : Kept s cwd) (path : List Byte) :
    Kept s (origin cwd path) := by
  unfold origin
  split_ifs
  · exact htree.root
  · exact hcwd

/-- There is an entry of the inode cache for each inode that `namex` needs one for. -/
def Cached (s : Store) (cwd : ℕ) (path : List Byte) (nameiparent : Bool) : Prop :=
  (path.headD 0 = slash → s.Cacheable ROOTINO) ∧
    Entered s nameiparent (origin cwd path) (components path)

/-- `namex` neither comes to a free inode nor runs out of entries of the cache. -/
def Clear (s : Store) (cwd : ℕ) (path : List Byte) (nameiparent : Bool) : Prop :=
  Typed s (origin cwd path) (components path) ∧ Cached s cwd path nameiparent

section

variable (htree : Tree s) (hcwd : Kept s cwd) (href : 1 ≤ (s.icache cwd).ref)
include htree hcwd href

lemma namex_meets (path : List Byte) (b : Bool)
    (name : List Byte) (hT : E "ilock: no type" ∨ Typed s (origin cwd path) (components path))
    (hC : E "iget: no inodes" ∨ Cached s cwd path b) : Meets E (namex cwd path b name) s fun r u =>
      Clear s cwd path b ∧ Answer s (origin cwd path) (components path) r b ∧ Resting s (left r) u := by
  have hstart := htree.resting
  unfold namex Clear Cached origin at *
  split_ifs at hT hC ⊢ with hroot
  · have hgot : Resting s (0+Pi.single ROOTINO 1) _ := hstart.got (htree.ref ROOTINO)
    rw [zero_add] at hgot
    refine .bind (iget_meets (hC.imp_right fun hcached => hcached.1 hroot) fun hcache => ?_)
    refine (namexLoop_meets htree b _ name (Nat.lt_succ_self _) hgot htree.root hT
      (hC.imp_right And.right)).mono ?_
    exact fun _ _ hr => ⟨⟨hr.1.1,fun _ => hcache,hr.1.2⟩,hr.2⟩
  · have hdup :
        Resting s (0+Pi.single cwd 1)
        (withInode s cwd { s.icache cwd with ref := (s.icache cwd).ref+1 }) :=
      hstart.withInode (htree.unlocked cwd) rfl fun _ hvalid => htree.coherent cwd (by omega) hvalid
    rw [zero_add] at hdup
    refine .bind (idup_meets ?_)
    refine (namexLoop_meets htree b _ name (Nat.lt_succ_self _) hdup hcwd hT
      (hC.imp_right And.right)).mono ?_
    exact fun _ _ hr => ⟨⟨hr.1.1,fun hslash => absurd hslash hroot,hr.1.2⟩,hr.2⟩

/-- `namex` returns exactly when the way is clear. -/
lemma namex_returns (path : List Byte) (b : Bool)
    (name : List Byte) : (∃ x, namex cwd path b name s = .ok x) ↔ Clear s cwd path b := by
  refine Meets.returns_iff fun E hE => ?_
  exact (namex_meets htree hcwd href path b name (hE.imp (· _) And.left)
    (hE.imp (· _) And.right)).mono fun _ _ hr => hr.1

lemma namei_meets (path name : List Byte)
    (hT : E "ilock: no type" ∨ Typed s (origin cwd path) (components path))
    (hC : E "iget: no inodes" ∨ Cached s cwd path false) :
    Meets E (namei cwd path name) s fun r u => Clear s cwd path false ∧
      r = resolve s (origin cwd path) (components path) ∧
      Resting s (r.elim 0 fun d => Pi.single d 1) u := by
  refine .bind ((namex_meets htree hcwd href path false name hT hC).mono fun r u hr =>
    .pure ⟨hr.1,hr.2.1,?_⟩)
  cases r with
  | none => exact hr.2.2
  | some x => exact hr.2.2

lemma namei_returns (path name : List Byte) :
    (∃ x, namei cwd path name s = .ok x) ↔ Clear s cwd path false := by
  refine Meets.returns_iff fun E hE => ?_
  exact (namei_meets htree hcwd href path name (hE.imp (· _) And.left)
    (hE.imp (· _) And.right)).mono fun _ _ hr => hr.1

end

/-! ### `namei` and `nameiparent` -/

section
variable {c : List Byte} {cs ds : List (List Byte)}

lemma resolve_append (cs : List (List Byte)) :
    resolve s ip (cs++ds) = (resolve s ip cs).bind fun d => resolve s d ds := by
  induction cs generalizing ip with
  | nil => rfl
  | cons c cs ih =>
    rw [cons_append,resolve,resolve]
    split_ifs
    · cases bound s ip c with
      | none => rfl
      | some next => exact ih
    · rfl

lemma Tree.kept_resolve (htree : Tree s) (hip : Kept s ip) (h : resolve s ip cs = some d) :
    Kept s d := by
  induction cs generalizing ip with
  | nil =>
    obtain rfl := Option.some.inj h
    exact hip
  | cons c cs ih =>
    rw [resolve] at h
    split_ifs at h with hdir
    obtain ⟨next,hnext,hrest⟩ := Option.bind_eq_some_iff.mp h
    exact ih (htree.entry ip c next hdir hnext) hrest

lemma entered_append (cs : List (List Byte)) (h : Entered s false ip (cs++ds))
    (hd : resolve s ip cs = some d) :
    Entered s false d ds := by
  induction cs generalizing ip with
  | nil =>
    obtain rfl := Option.some.inj hd
    exact h
  | cons c cs ih =>
    rw [resolve] at hd
    split_ifs at hd with hdir
    obtain ⟨next,hnext,hrest⟩ := Option.bind_eq_some_iff.mp hd
    exact ih (h hdir nofun next hnext).2 hrest

lemma typed_append (cs : List (List Byte)) : Typed s ip (cs++ds) ↔
    Typed s ip cs ∧ ∀ d, resolve s ip cs = some d → Typed s d ds := by
  induction cs generalizing ip with
  | nil => simp [Typed,resolve]
  | cons c cs ih =>
    rw [cons_append,Typed,Typed,resolve]
    by_cases hdir : (s.table ip).type = T_DIR
    · cases hbound : bound s ip c with
      | none => simp [hdir]
      | some next => simp [hdir,ih]
    · rw [if_neg hdir]
      exact ⟨fun h => ⟨⟨h.1,fun hd => absurd hd hdir⟩,nofun⟩,fun h => ⟨h.1.1,fun hd => absurd hd hdir⟩⟩

lemma parent_append (cs : List (List Byte)) (c : List Byte) : parent s ip (cs++[c]) =
    (resolve s ip cs).bind fun d => if (s.table d).type = T_DIR then some (d,c) else none := by
  rw [parent,getLast?_concat,dropLast_concat]
  rfl

lemma resolve_concat (cs : List (List Byte)) (c : List Byte) :
    resolve s ip (cs++[c]) = (parent s ip (cs++[c])).bind fun x => bound s x.1 c := by
  rw [parent_append,resolve_append,Option.bind_assoc]
  congr 1
  funext d
  rw [resolve]
  split_ifs
  · simp [resolve]
  · rfl

lemma parent_eq_none : parent s ip cs = none ↔ cs = [] ∨ ∃ ds, ds <+: cs ∧ ds ≠ cs ∧
    ∀ d, resolve s ip ds = some d → (s.table d).type ≠ T_DIR := by
  obtain rfl | ⟨cs,c,rfl⟩ := eq_nil_or_concat' cs
  · exact iff_of_true rfl (.inl rfl)
  rw [parent_append]
  constructor
  · intro hnone
    refine .inr ⟨cs,prefix_append ..,by simp,fun d hd hdir => ?_⟩
    rw [hd,Option.bind_some,if_pos hdir] at hnone
    cases hnone
  · rintro (hnil | ⟨ds,⟨es,hes⟩,hne,hnot⟩)
    · simp at hnil
    -- the names after `ds` end with `c`
    obtain rfl | ⟨es,e,rfl⟩ := eq_nil_or_concat' es
    · exact absurd (by simpa using hes) hne
    rw [← append_assoc] at hes
    obtain ⟨rfl,-⟩ := append_inj' hes rfl
    rw [resolve_append]
    cases hd : resolve s ip ds with
    | none => rfl
    | some d =>
      have hdir := hnot d hd
      cases es with
      | nil => exact if_neg hdir
      | cons e es =>
        rw [Option.bind_some,resolve,if_neg hdir]
        rfl

end

/-- With two free entries the cache is large enough for any path: `namex` holds one inode and looks
up another. -/
lemma cached_of_room (hroom : s.inUse.card+1 < NINODE) : Cached s cwd path b := by
  refine ⟨fun _ => .inr (Nat.lt_of_succ_lt hroom),?_⟩
  generalize origin cwd path = ip
  induction components path generalizing ip with
  | nil => trivial
  | cons c cs ih =>
    exact fun _ _ next _ => ⟨.inr (.inr ((Finset.card_insert_le ..).trans_lt hroom)),ih next⟩

lemma Tree.namei_iff (htree : Tree s) (hcwd : Kept s cwd) (href : 1 ≤ (s.icache cwd).ref)
    (hroom : s.inUse.card+1 < NINODE)
    (path name : List Byte) (r : Option ℕ) : (∃ t, namei cwd path name s = .ok (r,t)) ↔
      Typed s (origin cwd path) (components path) ∧
        r = resolve s (origin cwd path) (components path) := by
  have hnamei :=
    namei_meets (E := fun _ => True) htree hcwd href path name (.inl trivial) (.inl trivial)
  constructor
  · rintro ⟨t,ht⟩
    exact ⟨(hnamei.returns r t ht).1.1,(hnamei.returns r t ht).2.1⟩
  · rintro ⟨htyped,rfl⟩
    obtain ⟨⟨r,t⟩,ht⟩ := (namei_returns htree hcwd href path name).mpr ⟨htyped,cached_of_room hroom⟩
    exact ⟨t,(hnamei.returns r t ht).2.1 ▸ ht⟩

/-- The directory that `nameiparent` returns can be searched. -/
lemma ilock_dirlookup_meets (htree : Tree s) (hd : Kept s d) (hdir : (s.table d).type = T_DIR)
    (h : Resting s (Pi.single d 1) t) (hC : ∀ i, bound s d (cut name) = some i → s.Enters d i) :
    Meets E (ilock d >>= fun _ => dirlookup d name) t fun r _ => r.map Prod.fst =
      bound s d (cut name) := by
  have hpos : 1 ≤ (t.icache d).ref := by
    rw [← add_zero (Pi.single d 1)] at h
    exact h.one_le_ref htree le_rfl
  refine .bind (h.ilock_meets hd hpos (fun hzero => ?_) fun t' h' hdin _ => ?_)
  · cases hzero.symm.trans hdir
  · exact (h'.dirlookup_meets htree hd hdin hdir fun i hi => .inr (hC i hi)).mono fun _ _ hr => hr.1

/-- `skipelem` yields the components of a path. `nameiparent` and `namei` return exactly when the
way is clear. Then `nameiparent` returns the directory that all components but the last lead to,
with the last one, unless there is none or some of the way does not lead to a directory; and `namei`
returns what `dirlookup` finds there, or where the path starts. -/
theorem namei_nameiparent (htree : Tree s) (hcwd : Kept s cwd) (href : 1 ≤ (s.icache cwd).ref)
    (path name : List Byte) :
    (∀ fuel, path.length < fuel → elements fuel path name = components path) ∧
    ((∃ x, nameiparent cwd path name s = .ok x) ↔ Clear s cwd path true) ∧
    ((∃ x, namei cwd path name s = .ok x) ↔ Clear s cwd path false) ∧
    ∀ r t, nameiparent cwd path name s = .ok (r,t) →
      (r = none ↔ components path = [] ∨ ∃ cs, cs <+: components path ∧ cs ≠ components path ∧
        ∀ d, resolve s (origin cwd path) cs = some d → (s.table d).type ≠ T_DIR) ∧
      (∀ d last, r = some (d,last) → (s.table d).type = T_DIR ∧
        resolve s (origin cwd path) (components path).dropLast = some d ∧
        (components path).getLast? = some (cut last)) ∧
      ∀ r' t', namei cwd path name s = .ok (r',t') →
        (∀ d last, r = some (d,last) →
          ∃ x u, (ilock d >>= fun _ => dirlookup d last) t = .ok (x,u) ∧ r' = x.map Prod.fst) ∧
        (components path ≠ [] → r = none → r' = none) ∧
          (components path = [] → r' = some (origin cwd path)) := by
  refine ⟨fun fuel => elements_eq_components fuel path name,
    namex_returns htree hcwd href path true name,
    namei_returns htree hcwd href path name,fun r t heq => ?_⟩
  obtain ⟨-,hparent,ht⟩ :=
    (namex_meets (E := fun _ => True) htree hcwd href path true name (.inl trivial)
      (.inl trivial)).returns r t heq
  have hsome : ∀ d last, r = some (d,last) → (s.table d).type = T_DIR ∧
    ∃ cs, components path = cs++[cut last] ∧
      resolve s (origin cwd path) cs = some d := by
    rintro d last rfl
    obtain hnil | ⟨cs,c,hcs⟩ := eq_nil_or_concat' (components path)
    · rw [hnil] at hparent
      cases hparent
    rw [hcs] at hparent ⊢
    obtain ⟨d',hd',hdir⟩ := Option.bind_eq_some_iff.mp (hparent.trans (parent_append cs c)).symm
    split_ifs at hdir with hdir'
    obtain ⟨rfl,rfl⟩ := Prod.mk.inj (Option.some.inj hdir)
    exact ⟨hdir',cs,rfl,hd'⟩
  refine ⟨?_,fun d last hr => ?_,fun r' t' heq' => ?_⟩
  · rw [← parent_eq_none,← hparent,Option.map_eq_none_iff]
  · obtain ⟨hdir,cs,hcs,hd⟩ := hsome d last hr
    rw [hcs,dropLast_concat,getLast?_concat]
    exact ⟨hdir,hd,rfl⟩
  obtain ⟨⟨-,-,hentered⟩,hresolve,-⟩ :=
    (namei_meets (E := fun _ => True) htree hcwd href path name (.inl trivial)
      (.inl trivial)).returns r' t' heq'
  refine ⟨?_,?_,?_⟩
  · rintro d last rfl
    obtain ⟨hdir,cs,hcs,hd⟩ := hsome d last rfl
    rw [hcs] at hparent hresolve hentered
    rw [resolve_concat,← hparent,Option.map_some,Option.bind_some] at hresolve
    have hC := fun i hi => (entered_append cs hentered hd hdir nofun i hi).1
    have hkept := htree.kept_resolve (htree.kept_origin hcwd path) hd
    obtain ⟨x,u,hx,hbound⟩ :=
      (ilock_dirlookup_meets (E := fun _ => False) htree hkept hdir ht hC).exists_eq
    exact ⟨x,u,hx,hresolve.trans hbound.symm⟩
  · rintro hne rfl
    obtain hnil | ⟨cs,c,hcs⟩ := eq_nil_or_concat' (components path)
    · exact absurd hnil hne
    rw [hcs] at hparent hresolve
    have hparent : none = parent s (origin cwd path) (cs++[c]) := hparent
    exact hresolve.trans (by rw [resolve_concat,← hparent,Option.bind_none])
  · intro hnil
    rw [hnil] at hresolve
    exact hresolve

/-! ### A directory that has been removed -/

/-- After `mkdir /a`, `mkdir /a/b`, `chdir /a/b`, `unlink ../b` and `unlink /a`: inode 2, the
current directory, has no link, and its entry `..` refers to inode 3, which is free. -/
def strayInode : Dinode := { emptyInode T_DIR with
  nlink := 0
  size := 32
  direct := update (fun _ => 0) 0 34 }

def strayDisk : ℕ → Sector :=
  update (update (smallDisk T_DIR) 34
    (Sector.paste (fun _ => 0) 0 (dirent 2 [46]++dirent 3 [46,46]))) 33
    (setBit (smallDisk T_DIR 33) 34)

def stray : Store where
  sb := smallBlock
  disk := update strayDisk (smallBlock.IBLOCK 2)
    (Superblock.withDinode (strayDisk (smallBlock.IBLOCK 2)) 2 strayInode)
  icache j := if j = 1 then ⟨1,true,false,emptyInode T_DIR⟩ else if j = 2
    then ⟨1,true,false,strayInode⟩ else
    ⟨0,false,false,.zero⟩
  logged := []
  outstanding := 1

lemma stray_table (j : ℕ) :
    stray.table j = if j = 2 then strayInode else if j = 1 then emptyInode T_DIR else .zero := by
  have hdinode : stray.sb.dinode stray.disk j = if j = 2 then strayInode
      else smallBlock.dinode strayDisk j :=
    Superblock.dinode_update_withDinode 2 j strayInode
  by_cases hj : j < 8
  · have hblock : smallBlock.IBLOCK j = 32 := by
      have hdiv : j/8 = 0 := Nat.div_eq_of_lt hj
      simp [Superblock.IBLOCK,IPB,hdiv,smallBlock]
    have hsame : smallBlock.dinode strayDisk j = smallBlock.dinode (smallDisk T_DIR) j := by
      refine Superblock.dinode_congr ?_
      rw [hblock]
      rfl
    refine (if_pos hj).trans (hdinode.trans ?_)
    rw [hsame,← small_table T_DIR j]
    exact congrArg _ (if_pos hj).symm
  · rw [if_neg (by omega),if_neg (by omega)]
    exact if_neg hj

lemma stray_kept (hi : i < 8) : Kept stray i := by
  refine ⟨hi,fun hlink => ?_⟩
  rw [stray_table] at hlink ⊢
  split_ifs at hlink ⊢ with h2 h1
  · subst h2
    exact .inr le_rfl
  · cases hlink
  · exact .inl rfl

lemma stray_bound (d : ℕ) (c : List Byte) : bound stray d c =
    if d = 2 ∧ c = [46] then some 2 else if d = 2 ∧ c = [46,46] then some 3 else none := by
  have hslots : slots ((stray.table d).contents stray.disk) = if d = 2
      then [some ([46],2),some ([46,46],3)] else [] := by
    rw [stray_table]
    split_ifs <;> decide +kernel
  rw [bound,hslots]
  by_cases hd : d = 2
  · simp only [hd,if_true,true_and,Entries.lookup,findSome?_cons,Option.bind_some,
      eq_comm (b := c)]
    split_ifs <;> rfl
  · simp [Entries.lookup,hd]

lemma stray_room : stray.inUse.card+2 < NINODE := by
  have hsub : stray.inUse ⊆ {1,2} := by
    intro j hj
    rw [inUse,Finset.mem_filter] at hj
    have hpos := hj.2
    simp only [stray] at hpos
    split_ifs at hpos with h1 h2
    · simp [h1]
    · simp [h2]
    · exact absurd hpos (lt_irrefl 0)
  have hcard := Finset.card_le_card hsub
  rw [Finset.card_pair (by decide)] at hcard
  rw [NINODE]
  omega

lemma stray_tree : Tree stray where
  ninodes := by decide
  unlocked j := by
    simp only [stray]
    split_ifs <;> rfl
  ref j := by
    simp only [stray]
    split_ifs <;> decide
  coherent j hpos hvalid := by
    rw [stray_table]
    simp only [stray] at hpos hvalid ⊢
    split_ifs at hpos hvalid ⊢ <;> simp_all <;> decide
  whole d _ := by
    rw [stray_table]
    unfold Dinode.Whole
    split_ifs <;> decide +kernel
  whole16 d hdir := by
    rw [stray_table]
    split_ifs <;> decide
  entry d c i _ hbound := by
    rw [stray_bound] at hbound
    split_ifs at hbound
    · cases hbound
      exact stray_kept (by decide)
    · cases hbound
      exact stray_kept (by decide)
  root := stray_kept (by decide)

lemma stray_typed : Typed stray 2 [[46],[46,46]] := by
  refine ⟨by decide,fun _ next hnext => ?_⟩
  cases hnext
  exact ⟨by decide,fun _ _ _ => trivial⟩

/-- The parent of `../x` is where `..` leads to: the kernel panics. -/
theorem nameiparent_stray : Tree stray ∧ Kept stray 2 ∧ 1 ≤ (stray.icache 2).ref ∧
    nameiparent 2 [46,46,47,120] (List.replicate 14 0) stray = .error "ilock: no type" := by
  have hroom := stray_room
  refine ⟨stray_tree,stray_kept (by decide),le_rfl,Meets.eq_error ?_⟩
  refine (namex_meets (E := (· = _)) stray_tree (stray_kept (by decide)) le_rfl _ true _ (.inl rfl)
    (.inr (cached_of_room (by omega)))).mono ?_
  rintro r u ⟨⟨⟨-,hnext⟩,-⟩,-⟩
  exact (hnext rfl 3 rfl).1 rfl

theorem namei_nameiparent_stray :
    ∃ last t u x v, nameiparent 2 [46,47,46,46] (List.replicate 14 0) stray =
    .ok (some (2,last),t) ∧
    cut last = [46,46] ∧ namei 2 [46,47,46,46] (List.replicate 14 0) stray = .ok (some 3,u) ∧
    (ilock 2 >>= fun _ => dirlookup 2 last) t = .ok (x,v) ∧ x.map Prod.fst = some 3 := by
  have hroom : stray.inUse.card+1 < NINODE := by
    have := stray_room
    omega
  have hkept : Kept stray 2 := stray_kept (by decide)
  obtain ⟨-,hparent,-,h⟩ :=
    namei_nameiparent stray_tree hkept le_rfl [46,47,46,46] (List.replicate 14 0)
  obtain ⟨⟨r,t⟩,hr⟩ := hparent.mpr ⟨stray_typed,cached_of_room hroom⟩
  obtain ⟨u,hu⟩ :=
    (stray_tree.namei_iff hkept le_rfl hroom [46,47,46,46] (List.replicate 14 0) (some 3)).mpr
    ⟨stray_typed,rfl⟩
  obtain ⟨hnone,hsome,hagree⟩ := h r t hr
  cases r with
  | none => cases (hagree (some 3) u hu).2.1 (by decide) rfl
  | some p =>
    obtain ⟨d,last⟩ := p
    obtain ⟨-,hd,hlast⟩ := hsome d last rfl
    obtain rfl : 2 = d := Option.some.inj hd
    obtain ⟨x,v,hx,hthree⟩ := (hagree (some 3) u hu).1 2 last rfl
    exact ⟨last,t,u,x,v,hr,(Option.some.inj hlast).symm,hu,hx,hthree.symm⟩

/-! ### Paths in two parts -/

lemma components_join {p : List Byte} (hp : 0 ∉ p) (q : List Byte) :
    components (p++slash::q) = components p++components q := by
  have hplain : ∀ c ∈ p, decide (c ≠ 0) = true := fun c hc => decide_eq_true fun h0 => hp (h0 ▸ hc)
  have hself : (p++[]).takeWhile (· ≠ 0) = p++[] := takeWhile_append_of_pos hplain
  rw [append_nil] at hself
  rw [components,takeWhile_append_of_pos hplain,takeWhile_cons_of_pos (by decide),List.splitOn,
    splitOnP_append_cons _ _ (by decide),filter_append,map_append,components,hself]
  rfl

section
variable (h : Resting s (Pi.single d 1) t)
include h

lemma Resting.same : t.table = s.table ∧ t.bound = s.bound := by
  unfold bound table
  rw [h.sb,h.disk]
  exact ⟨rfl,rfl⟩

lemma Resting.resolve (ip : ℕ) (cs : List (List Byte)) :
    t.resolve ip cs = s.resolve ip cs ∧ (t.Typed ip cs ↔ s.Typed ip cs) := by
  induction cs generalizing ip with
  | nil => exact ⟨rfl,.rfl⟩
  | cons c cs ih => simp only [Store.resolve,Typed,h.same,ih,and_self]

lemma Resting.ref_le (j : ℕ) : (s.icache j).ref ≤ (t.icache j).ref := by
  have hheld : (0 : ℕ → ℤ) ≤ Pi.single d 1 := Pi.single_nonneg.mpr zero_le_one
  rw [h.ref]
  exact le_add_of_nonneg_right (hheld j)

lemma Resting.card_inUse : t.inUse.card ≤ s.inUse.card+1 := by
  refine (Finset.card_le_card fun j hj => ?_).trans (Finset.card_insert_le d s.inUse)
  rw [inUse,Finset.mem_filter] at hj
  rw [Finset.mem_insert,inUse,Finset.mem_filter]
  refine or_iff_not_imp_left.mpr fun hne => ⟨hj.1,?_⟩
  have href := h.ref j
  rw [Pi.single_eq_of_ne hne,add_zero] at href
  exact href ▸ hj.2

lemma Resting.kept {j : ℕ} (hj : Kept s j) : Kept t j := by
  refine ⟨h.sb ▸ hj.lt,fun hlink => ?_⟩
  rw [h.same.1] at hlink ⊢
  exact (hj.linked hlink).imp_right fun hpos => hpos.trans (h.ref_le j)

lemma Resting.tree (htree : Tree s) : Tree t := by
  refine ⟨h.sb ▸ htree.ninodes,h.unlocked,fun j => (htree.ref j).trans (h.ref_le j),?_,?_,?_,?_,
    h.kept htree.root⟩ <;>
    simp only [h.same,h.disk]
  · exact h.coherent
  · exact htree.whole
  · exact htree.whole16
  · exact fun d c i hdir hi => h.kept (htree.entry d c i hdir hi)

end

/-- A path can be followed in two parts if the cache has three free entries: one for the inode that
`p` leads to, one for the directory that is searched and one for what is found. Then `p/q` leads to
where `q` leads from what `p` leads to, or to the same panic. -/
theorem namei_append (htree : Tree s) (hcwd : Kept s cwd) (href : 1 ≤ (s.icache cwd).ref)
    (hroom : s.inUse.card+2 < NINODE) (p q name : List Byte) (hp : 0 ∉ p) (hne : p ≠ [])
    (hq : q.headD 0 ≠ slash) :
    ((∃ x, namei cwd (p++slash::q) name s = .ok x) → ∃ x, namei cwd p name s = .ok x) ∧
    ∀ o t, namei cwd p name s = .ok (o,t) →
      (o = none → ∃ u, namei cwd (p++slash::q) name s = .ok (none,u)) ∧
      ∀ d, o = some d → ∀ r, (∃ u, namei cwd (p++slash::q) name s = .ok (r,u)) ↔
        ∃ v, namei d q name t = .ok (r,v) := by
  have horigin : origin cwd (p++slash::q) = origin cwd p := by
    obtain ⟨c,p,rfl⟩ := exists_cons_of_ne_nil hne
    rfl
  have hp' := htree.namei_iff hcwd href (Nat.lt_of_succ_lt hroom) p name
  have hpq := htree.namei_iff hcwd href (Nat.lt_of_succ_lt hroom) (p++slash::q) name
  rw [horigin,components_join hp,resolve_append,typed_append] at hpq
  refine ⟨?_,fun o t ho => ?_⟩
  · rintro ⟨⟨r,u⟩,hr⟩
    obtain ⟨t,ht⟩ := (hp' _).mpr ⟨((hpq r).mp ⟨u,hr⟩).1.1,rfl⟩
    exact ⟨_,ht⟩
  obtain ⟨htyped,rfl⟩ := (hp' o).mp ⟨t,ho⟩
  refine ⟨fun hnone => (hpq none).mpr ?_,fun d hd r => ?_⟩
  · rw [hnone]
    exact ⟨⟨htyped,nofun⟩,rfl⟩
  -- the second part starts in the tree that the first has left, with one more reference to `d`
  have hrest :=
    ((namei_meets (E := fun _ => True) htree hcwd href p name (.inl trivial) (.inl trivial)).returns
    _ t ho).2.2
  rw [hd] at hrest
  have h : Resting s (Pi.single d 1) t := hrest
  have hpos : 1 ≤ (t.icache d).ref := by
    rw [h.ref,Pi.single_eq_same]
    exact le_add_of_nonneg_left (htree.ref d)
  have hkept := h.kept (htree.kept_resolve (htree.kept_origin hcwd p) hd)
  have hcard := h.card_inUse
  have hstart : origin d q = d := if_neg hq
  rw [hpq,(h.tree htree).namei_iff hkept hpos (by omega) q name,hstart,(h.resolve ..).1,
    (h.resolve ..).2,hd]
  simp [htyped]

theorem namei_append_stray : ∃ t u v, namei 2 [46] [] stray = .ok (some 2,t) ∧
    namei 2 [46,47,46,46] [] stray = .ok (some 3,u) ∧ namei 2 [46,46] [] t = .ok (some 3,v) := by
  have hroom : stray.inUse.card+1 < NINODE := by
    have := stray_room
    omega
  have hkept : Kept stray 2 := stray_kept (by decide)
  obtain ⟨t,ht⟩ :=
    (stray_tree.namei_iff hkept le_rfl hroom [46] [] (some 2)).mpr
    ⟨((typed_append [[46]]).mp stray_typed).1,rfl⟩
  obtain ⟨u,hu⟩ :=
    (stray_tree.namei_iff hkept le_rfl hroom [46,47,46,46] [] (some 3)).mpr ⟨stray_typed,rfl⟩
  have happend :=
    namei_append stray_tree hkept le_rfl stray_room [46] [46,46] [] (by decide)
    (by decide) (by decide)
  obtain ⟨v,hv⟩ := ((happend.2 (some 2) t ht).2 2 rfl (some 3)).mp ⟨u,hu⟩
  exact ⟨t,u,v,ht,hu,hv⟩

end Store
end JacobiXv6.FileSystem
