import JacobiXv6.FileSystem.Contents
import JacobiXv6.FileSystem.Cache
import JacobiXv6.Library.Entries

/-! Directories: `dirlookup`, `dirlink` and the part of `sys_unlink` that clears an entry. The
entries are the slots of a table from names, cut to `DIRSIZ` bytes, to inode numbers. -/
namespace JacobiXv6.FileSystem
open Library Function List

/-! ### Names -/

/-- `strncmp`; a string ends with its last byte or with a zero. -/
def strncmp : List Byte → List Byte → ℕ → ℤ
  | _, _, 0 => 0
  | p, q, n+1 =>
    if p.headD 0 ≠ 0 ∧ p.headD 0 = q.headD 0 then strncmp p.tail q.tail n
    else (p.headD 0).toNat-(q.headD 0).toNat

def namecmp (s t : List Byte) : ℤ := strncmp s t DIRSIZ

/-- A string up to its end, of which no more than `n` bytes count. -/
def cutTo (n : ℕ) (s : List Byte) : List Byte := (s.takeWhile (· ≠ 0)).take n

def cut (name : List Byte) : List Byte := cutTo DIRSIZ name

lemma cutTo_succ (n : ℕ) (s : List Byte) :
    cutTo (n+1) s = if s.headD 0 = 0 then [] else s.headD 0::cutTo n s.tail := by
  cases s with
  | nil => rfl
  | cons c s =>
    rw [headD_cons,tail_cons]
    unfold cutTo
    split_ifs with hc
    · rw [takeWhile_cons_of_neg (by simpa using hc),take_nil]
    · rw [takeWhile_cons_of_pos (by simpa using hc),take_succ_cons]

lemma strncmp_eq_zero (n : ℕ) : ∀ p q : List Byte, strncmp p q n = 0 ↔ cutTo n p = cutTo n q := by
  induction n with
  | zero => simp [strncmp,cutTo]
  | succ n ih =>
    intro p q
    rw [cutTo_succ,cutTo_succ,strncmp]
    by_cases hpq : p.headD 0 = q.headD 0
    · rw [hpq]
      by_cases hq : q.headD 0 = 0
      · rw [if_neg (fun h => h.1 hq),if_pos hq,if_pos hq,sub_self]
        exact iff_of_true rfl rfl
      · rw [if_pos ⟨hq,rfl⟩,ih,if_neg hq,if_neg hq,cons_inj_right]
    · have hne : (p.headD 0).toNat ≠ (q.headD 0).toNat := fun heq => hpq (BitVec.eq_of_toNat_eq heq)
      rw [if_neg fun h => hpq h.2]
      refine iff_of_false (by omega) ?_
      split_ifs with hp hq hq
      · exact absurd (hp.trans hq.symm) hpq
      · exact not_false
      · exact not_false
      · exact fun hcons => hpq (List.cons.inj hcons).1

lemma namecmp_eq_zero (s t : List Byte) : namecmp s t = 0 ↔ cut s = cut t := strncmp_eq_zero DIRSIZ s t

lemma cut_strncpy (name : List Byte) : cut (strncpy DIRSIZ name) = cut name := by
  unfold cut cutTo strncpy
  have hne : ∀ c ∈ (name.takeWhile (· ≠ 0)).take DIRSIZ, decide (c ≠ 0) = true := by
    intro c hc
    exact all_eq_true.mp (all_takeWhile ..) c (mem_of_mem_take hc)
  rw [takeWhile_append_of_pos hne]
  cases hk : DIRSIZ-((name.takeWhile (· ≠ 0)).take DIRSIZ).length with
  | zero => simp
  | succ k => simp [replicate_succ,take_take]

/-! ### Entries -/

/-- What a `struct dirent` says. -/
def slotOf (de : List Byte) : Option (List Byte×ℕ) :=
  if shortAt de 0 = 0 then none else some (cut (de.drop 2),(shortAt de 0).toNat)

/-- The `k`-th entry of the contents of a directory. -/
def direntAt (bs : List Byte) (k : ℕ) : List Byte := (bs.drop (16*k)).take 16

def slots (bs : List Byte) : Entries (List Byte) ℕ :=
  (List.range (bs.length/16)).map fun k => slotOf (direntAt bs k)

lemma length_slots (bs : List Byte) : (slots bs).length = bs.length/16 := by simp [slots]

lemma getElem?_slots {bs : List Byte} {k : ℕ} (hk : k < bs.length/16) :
    (slots bs)[k]? = some (slotOf (direntAt bs k)) := by
  simp [slots,hk]

lemma getElem?_direntAt (bs : List Byte) (k j : ℕ) :
    (direntAt bs k)[j]? = if j < 16 then bs[16*k+j]? else none := by
  rw [direntAt,getElem?_take]
  split_ifs with hj
  · rw [getElem?_drop]
  · rfl

lemma slots_splice {bs de : List Byte} {k : ℕ} (hbs : 16 ∣ bs.length) (hk : 16*k ≤ bs.length)
    (hde : de.length = 16) :
    slots (splice bs (16*k) de) = Entries.put (slots bs) k (slotOf de) := by
  have hlen : (splice bs (16*k) de).length = max bs.length (16*k+de.length) := length_splice hk
  have hentry : ∀ j, direntAt (splice bs (16*k) de) j = if j = k then de else direntAt bs j := by
    intro j
    apply ext_getElem?
    intro l
    rw [getElem?_direntAt,getElem?_splice hk,hde]
    by_cases hl : l < 16
    · rw [if_pos hl]
      obtain rfl | hjk := eq_or_ne j k
      · rw [if_pos (by omega),if_pos rfl]
        congr 1
        omega
      · rw [if_neg (by omega),if_neg hjk,getElem?_direntAt,if_pos hl]
    · rw [if_neg hl]
      obtain rfl | hjk := eq_or_ne j k
      · rw [if_pos rfl,getElem?_eq_none (by omega)]
      · rw [if_neg hjk,getElem?_direntAt,if_neg hl]
  apply ext_getElem?
  intro j
  rw [Entries.getElem?_put (by rw [length_slots]; omega)]
  by_cases hj : j < (splice bs (16*k) de).length/16
  · rw [getElem?_slots hj,hentry]
    obtain rfl | hjk := eq_or_ne j k
    · rw [if_pos rfl,if_pos rfl]
    · rw [if_neg hjk,if_neg hjk,getElem?_slots (by omega)]
  · rw [getElem?_eq_none (by rw [length_slots]; omega),if_neg (by omega),
      getElem?_eq_none (by rw [length_slots]; omega)]

lemma slotOf_dirent {inum : ℕ} (name : List Byte) (hpos : 1 ≤ inum) (hlt : inum < 65536) :
    slotOf (dirent inum name) = some (cut name,inum) := by
  have hshort : shortAt (dirent inum name) 0 = .ofNat 16 inum := shortAt_shortBytes ..
  have hdrop : (dirent inum name).drop 2 = strncpy DIRSIZ name := rfl
  have hnumber : (BitVec.ofNat 16 inum).toNat = inum := by
    rw [BitVec.toNat_ofNat]
    omega
  have hne : BitVec.ofNat 16 inum ≠ 0 := by
    intro hz
    have hzero := congrArg BitVec.toNat hz
    rw [hnumber] at hzero
    change inum = 0 at hzero
    omega
  rw [slotOf,hshort,if_neg hne,hdrop,cut_strncpy,hnumber]

lemma slotOf_zero : slotOf (List.replicate 16 0) = none := rfl

namespace Store

/-- The entry at an offset; a short read is a panic. -/
def readEntry (message : String) (dp off : ℕ) : Routine Store (List Byte) := do
  match ← readi dp off 16 with
  | none => throw message
  | some de => if de.length = 16 then return de else throw message

/-- An entry is stored at an offset; a short write is a panic. -/
def writeEntry (message : String) (dp off : ℕ) (de : List Byte) : Routine Store Unit := do
  match ← writei dp off de with
  | none => throw message
  | some n => if n = 16 then return else throw message

/-- The loop of `dirlookup`, with at most `fuel` rounds. -/
def lookupLoop (dp : ℕ) (name : List Byte) : ℕ → ℕ → Routine Store (Option (ℕ×ℕ))
  | 0, _ => return none
  | fuel+1, off => do
    if off < ((← get).icache dp).din.size.toNat then
      let de ← readEntry "dirlookup read" dp off
      if shortAt de 0 = 0 then lookupLoop dp name fuel (off+16)
      else if namecmp name (de.drop 2) = 0 then
        iget (shortAt de 0).toNat
        return some ((shortAt de 0).toNat,off)
      else lookupLoop dp name fuel (off+16)
    else return none

/-- The inode number and the offset of the entry. -/
def dirlookup (dp : ℕ) (name : List Byte) : Routine Store (Option (ℕ×ℕ)) := do
  let din := ((← get).icache dp).din
  if din.type ≠ T_DIR then throw "dirlookup not DIR" else lookupLoop dp name din.size.toNat 0

/-- The loop of `dirlink` that looks for an empty entry, with at most `fuel` rounds. -/
def emptyLoop (dp : ℕ) : ℕ → ℕ → Routine Store ℕ
  | 0, off => return off
  | fuel+1, off => do
    if off < ((← get).icache dp).din.size.toNat then
      let de ← readEntry "dirlink read" dp off
      if shortAt de 0 = 0 then return off else emptyLoop dp fuel (off+16)
    else return off

def dirlink (dp : ℕ) (name : List Byte) (inum : ℕ) : Routine Store Bool := do
  match ← dirlookup dp name with
  | some (ip,_) =>
    iput ip
    return false
  | none =>
    let off ← emptyLoop dp ((← get).icache dp).din.size.toNat 0
    writeEntry "dirlink" dp off (dirent inum name)
    return true

/-- The part of `sys_unlink` that clears an entry. The reference that `dirlookup` returns is left to
the caller. -/
def dirclear (dp : ℕ) (name : List Byte) : Routine Store Bool := do
  match ← dirlookup dp name with
  | none => return false
  | some (_,off) =>
    writeEntry "unlink: writei" dp off (List.replicate 16 0)
    return true

/-- The inode in memory is a directory that can be searched. -/
structure Listing (s : Store) (dp : ℕ) : Prop where
  type : (s.icache dp).din.type = T_DIR
  whole : (s.icache dp).din.Whole s.disk
  whole16 : 16 ∣ (s.icache dp).din.size.toNat

/-- The directory `dp` is locked by the caller, and is in memory as it is on the disk. No name is
bound twice. -/
structure Directory (s : Store) (dp : ℕ) : Prop extends Held s dp where
  type : (s.icache dp).din.type = T_DIR
  whole16 : 16 ∣ (s.icache dp).din.size.toNat
  distinct : (slots ((s.icache dp).din.contents s.disk)).Distinct
  ref : 1 ≤ (s.icache dp).ref
  locked : (s.icache dp).locked = true

/-- The names of a directory and the inodes they are bound to. -/
def names (s : Store) (dp : ℕ) : List Byte → Option ℕ :=
  (slots ((s.icache dp).din.contents s.disk)).lookup

variable {s s' : Store} {dp k : ℕ} {E : String → Prop} {name : List Byte}

namespace Listing

lemma not_dev (h : Listing s dp) : (s.icache dp).din.type ≠ T_DEV := by
  rw [h.type]
  decide

lemma size_le (h : Listing s dp) : (s.icache dp).din.size.toNat ≤ MAXFILE*BSIZE := h.whole.size_le

lemma readEntry_meets (h : Listing s dp) {message : String} (hk : k < (s.icache dp).din.size.toNat/16) :
    Meets E (readEntry message dp (16*k)) s fun de s' => s' = s ∧
      de = direntAt ((s.icache dp).din.contents s.disk) k := by
  have hsize := (s.icache dp).din.size.isLt
  have hlen : (direntAt ((s.icache dp).din.contents s.disk) k).length = 16 := by
    rw [direntAt,length_take_of_le]
    rw [length_drop,Dinode.length_contents]
    omega
  refine .bind ((readi_meets h.whole h.not_dev (by decide) (16*k)).mono ?_)
  rintro r s' ⟨rfl,rfl⟩
  rw [if_neg (by omega)]
  change Meets E (if (direntAt ((s'.icache dp).din.contents s'.disk) k).length = 16 then _ else _) s' _
  rw [if_pos hlen]
  exact .pure ⟨rfl,rfl⟩

/-- The result of `dirlookup`: the entry that the name is bound to, with one more reference to its
inode. -/
def Found (s : Store) (dp : ℕ) (name : List Byte) (r : Option (ℕ×ℕ)) (s' : Store) : Prop :=
  r = none ∧ s' = s ∧ (∀ i, some (cut name,i) ∉ slots ((s.icache dp).din.contents s.disk)) ∨
  ∃ k i, r = some (i,16*k) ∧ s' = withInode s i (s.icache i).got ∧ s.Cacheable i ∧
    (slots ((s.icache dp).din.contents s.disk))[k]? = some (some (cut name,i)) ∧
    ∀ l < k, ∀ j, (slots ((s.icache dp).din.contents s.disk))[l]? ≠ some (some (cut name,j))

/-- If the name is bound to an inode, it is in the cache or there is an entry for it. -/
def Caches (E : String → Prop) (s : Store) (dp : ℕ) (name : List Byte) : Prop :=
  ∀ i, Store.names s dp (cut name) = some i → E "iget: no inodes" ∨ s.Cacheable i

lemma lookupLoop_meets (h : Listing s dp) (hC : Caches E s dp name) (fuel : ℕ) :
    ∀ {k : ℕ}, k ≤ (s.icache dp).din.size.toNat/16 →
    (s.icache dp).din.size.toNat/16-k ≤ fuel →
    (∀ l < k, ∀ i, (slots ((s.icache dp).din.contents s.disk))[l]? ≠ some (some (cut name,i))) →
    Meets E (lookupLoop dp name fuel (16*k)) s (Found s dp name) := by
  have hlen : ((s.icache dp).din.contents s.disk).length = (s.icache dp).din.size.toNat :=
    Dinode.length_contents
  have hdiv := h.whole16
  have hend : ∀ {k : ℕ}, (s.icache dp).din.size.toNat/16 ≤ k →
      (∀ l < k, ∀ i, (slots ((s.icache dp).din.contents s.disk))[l]? ≠ some (some (cut name,i))) →
        Found s dp name none s := by
    intro k hk hnone
    refine .inl ⟨rfl,rfl,fun i hmem => ?_⟩
    obtain ⟨l,hl⟩ := mem_iff_getElem?.mp hmem
    have hlt : l < (slots ((s.icache dp).din.contents s.disk)).length :=
      (List.getElem?_eq_some_iff.mp hl).1
    rw [length_slots,hlen] at hlt
    exact hnone l (by omega) i hl
  induction fuel with
  | zero =>
    intro k hk hfuel hnone
    exact .pure (hend (by omega) hnone)
  | succ fuel ih =>
    intro k hk hfuel hnone
    refine .bind (.get ?_)
    split_ifs with hlt
    · have hslot : (slots ((s.icache dp).din.contents s.disk))[k]? =
          some (slotOf (direntAt ((s.icache dp).din.contents s.disk) k)) := getElem?_slots (by omega)
      have hnext : (∀ i, slotOf (direntAt ((s.icache dp).din.contents s.disk) k) ≠ some (cut name,i)) →
          Meets E (lookupLoop dp name fuel (16*k+16)) s (Found s dp name) := by
        intro hother
        refine ih (k := k+1) (by omega) (by omega) fun l hl i hi => ?_
        obtain rfl | hlt' := Nat.eq_or_lt_of_le (Nat.lt_succ_iff.mp hl)
        · rw [hslot] at hi
          exact hother i (Option.some.inj hi)
        · exact hnone l hlt' i hi
      refine .bind ((h.readEntry_meets (by omega)).mono ?_)
      rintro de s' ⟨rfl,rfl⟩
      rw [slotOf] at hnext hslot
      split_ifs with hzero hname
      · refine hnext fun i => ?_
        rw [if_pos hzero]
        exact (Option.some_ne_none _).symm
      · rw [namecmp_eq_zero] at hname
        rw [if_neg hzero,← hname] at hslot
        refine .bind (iget_meets (hC _ (Entries.lookup_of_first hslot hnone)) fun hcache =>
          .pure (.inr ?_))
        exact ⟨k,_,rfl,rfl,hcache,hslot,hnone⟩
      · rw [namecmp_eq_zero] at hname
        refine hnext fun i => ?_
        rw [if_neg hzero]
        intro heq
        exact hname (Prod.mk.inj (Option.some.inj heq)).1.symm
    · exact .pure (hend (by omega) hnone)

lemma dirlookup_meets (h : Listing s dp) (hC : Caches E s dp name) :
    Meets E (dirlookup dp name) s (Found s dp name) := by
  refine .bind (.get ?_)
  dsimp only
  rw [if_neg (not_not.mpr h.type)]
  exact h.lookupLoop_meets hC _ (Nat.zero_le _) (by omega) (by simp)

/-- What `dirlookup` returns says what the name is bound to. -/
lemma Found.names {r : Option (ℕ×ℕ)} (hfound : Found s dp name r s') :
    Store.names s dp (cut name) = r.map Prod.fst := by
  obtain ⟨rfl,-,hnone⟩ | ⟨k,i,rfl,-,-,hslot,hfirst⟩ := hfound
  · exact Entries.lookup_eq_none.mpr hnone
  · exact Entries.lookup_of_first hslot hfirst

/-- The offset of the first entry that is empty, or of a new one. -/
def Empty (s : Store) (dp off : ℕ) : Prop :=
  ∃ k, off = 16*k ∧ off ≤ (s.icache dp).din.size.toNat ∧
    (∀ e, (slots ((s.icache dp).din.contents s.disk))[k]? = some e → e = none) ∧
    ∀ l < k, (slots ((s.icache dp).din.contents s.disk))[l]? ≠ some none

lemma emptyLoop_meets (h : Listing s dp) (fuel : ℕ) : ∀ {k : ℕ}, k ≤ (s.icache dp).din.size.toNat/16 →
    (s.icache dp).din.size.toNat/16-k ≤ fuel →
      (∀ l < k, (slots ((s.icache dp).din.contents s.disk))[l]? ≠ some none) →
    Meets E (emptyLoop dp fuel (16*k)) s fun off s' => s' = s ∧ Empty s dp off := by
  have hlen : ((s.icache dp).din.contents s.disk).length = (s.icache dp).din.size.toNat :=
    Dinode.length_contents
  have hdiv := h.whole16
  have hend : ∀ {k : ℕ}, k = (s.icache dp).din.size.toNat/16 →
      (∀ l < k, (slots ((s.icache dp).din.contents s.disk))[l]? ≠ some none) → Empty s dp (16*k) := by
    intro k hk hfull
    refine ⟨k,rfl,by omega,fun e he => ?_,hfull⟩
    rw [getElem?_eq_none (by rw [length_slots]; omega)] at he
    cases he
  induction fuel with
  | zero =>
    intro k hk hfuel hfull
    exact .pure ⟨rfl,hend (by omega) hfull⟩
  | succ fuel ih =>
    intro k hk hfuel hfull
    refine .bind (.get ?_)
    split_ifs with hlt
    · have hslot : (slots ((s.icache dp).din.contents s.disk))[k]? =
          some (slotOf (direntAt ((s.icache dp).din.contents s.disk) k)) := getElem?_slots (by omega)
      refine .bind ((h.readEntry_meets (by omega)).mono ?_)
      rintro de s' ⟨rfl,rfl⟩
      rw [slotOf] at hslot
      split_ifs with hzero
      · refine .pure ⟨rfl,k,rfl,hlt.le,fun e he => ?_,hfull⟩
        rw [hslot,if_pos hzero] at he
        exact (Option.some.inj he).symm
      · refine ih (k := k+1) (by omega) (by omega) fun l hl hnone => ?_
        obtain rfl | hlt' := Nat.eq_or_lt_of_le (Nat.lt_succ_iff.mp hl)
        · rw [hslot,if_neg hzero] at hnone
          cases hnone
        · exact hfull l hlt' hnone
    · exact .pure ⟨rfl,hend (by omega) hfull⟩

end Listing

namespace Directory

lemma listing (h : Directory s dp) : Listing s dp := ⟨h.type,h.whole,h.whole16⟩

/-- There is an empty entry, or room for one more. -/
def Room (s : Store) (dp : ℕ) : Prop :=
  none ∈ slots ((s.icache dp).din.contents s.disk) ∨ (s.icache dp).din.size.toNat+16 ≤ MAXFILE*BSIZE ∧
    (s.icache dp).din.lacking s.disk (blocks ((s.icache dp).din.size.toNat+16)) ≤ s.freeBlocks

lemma wrote {de : List Byte} (h : Directory s dp) (hw : Wrote dp (16*k) de s s') (hde : de.length = 16)
    (hk : 16*k ≤ (s.icache dp).din.size.toNat)
    (hdistinct : (Entries.put (slots ((s.icache dp).din.contents s.disk)) k (slotOf de)).Distinct) :
    Directory s' dp ∧ slots ((s'.icache dp).din.contents s'.disk) =
      Entries.put (slots ((s.icache dp).din.contents s.disk)) k (slotOf de) := by
  have hlen : ((s.icache dp).din.contents s.disk).length = (s.icache dp).din.size.toNat :=
    Dinode.length_contents
  have hslots : slots ((s'.icache dp).din.contents s'.disk) =
      Entries.put (slots ((s.icache dp).din.contents s.disk)) k (slotOf de) := by
    rw [hw.contents,slots_splice (by rw [hlen]; exact h.whole16) (by omega) hde]
  have hsize : (s'.icache dp).din.size.toNat = max (s.icache dp).din.size.toNat (16*k+16) := by
    have hlen' := congrArg List.length hw.contents
    rwa [Dinode.length_contents,length_splice (by omega),hlen,hde] at hlen'
  have hdir : s'.icache dp = { s.icache dp with din := (s'.icache dp).din } := by
    have hcache := congrFun hw.cache dp
    rwa [update_self] at hcache
  refine ⟨?_,hslots⟩
  exact {
    toHeld := hw.held
    type := by
      rw [hw.same]
      exact h.type
    whole16 := by
      have hdiv := h.whole16
      omega
    distinct := hslots ▸ hdistinct
    ref := by
      rw [hdir]
      exact h.ref
    locked := by
      rw [hdir]
      exact h.locked }

lemma writeEntry_meets {de : List Byte} {message : String} (h : Directory s dp) (hde : de.length = 16)
    (hk : 16*k ≤ (s.icache dp).din.size.toNat) (hmax : 16*k+16 ≤ MAXFILE*BSIZE)
    (hE : Affords E s ((s.icache dp).din.lacking s.disk (blocks (16*k+16))))
    (hL : Logs E s (s.pledged dp+1)) :
    Meets E (writeEntry message dp (16*k) de) s fun _ s' => Wrote dp (16*k) de s s' := by
  have hspan : span (16*k) de.length = 1 := by
    rw [hde,span,if_neg (by decide)]
    simp only [blocks,BSIZE]
    omega
  have hwritei : Meets E (writei dp (16*k) de) s fun r s' => r = some de.length ∧
      Wrote dp (16*k) de s s' :=
    writei_meets h.toHeld h.listing.not_dev hk (by rwa [hde]) (by rwa [hde]) (by rwa [hspan])
  refine .bind (hwritei.mono ?_)
  rintro r s' ⟨rfl,hw⟩
  change Meets E (if de.length = 16 then _ else _) s' _
  rw [if_pos hde]
  exact .pure hw

/-- An entry is put where there is none; the inode number is `none` for an entry that is cleared. -/
lemma names_wrote (h : Directory s dp) {inum : ℕ} (hw : Wrote dp (16*k) (dirent inum name) s s')
    (hpos : 1 ≤ inum) (hlt : inum < 65536) (hk : 16*k ≤ (s.icache dp).din.size.toNat)
    (hempty : ∀ e, (slots ((s.icache dp).din.contents s.disk))[k]? = some e → e = none)
    (hname : names s dp (cut name) = none) :
    Directory s' dp ∧ names s' dp = update (names s dp) (cut name) (some inum) := by
  have hlen : ((s.icache dp).din.contents s.disk).length = (s.icache dp).din.size.toNat :=
    Dinode.length_contents
  have hle : k ≤ (slots ((s.icache dp).din.contents s.disk)).length := by
    rw [length_slots]
    omega
  have hslot := slotOf_dirent name hpos hlt
  have hdistinct := h.distinct.fill (v := inum) hle (Entries.lookup_eq_none.mp hname)
  obtain ⟨hdir,hslots⟩ := h.wrote hw (length_dirent ..) hk (by rwa [hslot])
  refine ⟨hdir,?_⟩
  rw [names,hslots,hslot]
  exact Entries.lookup_fill h.distinct hle hempty hname

lemma names_cleared (h : Directory s dp) {i : ℕ} (hw : Wrote dp (16*k) (List.replicate 16 0) s s')
    (hslot : (slots ((s.icache dp).din.contents s.disk))[k]? = some (some (cut name,i))) :
    Directory s' dp ∧ names s' dp = update (names s dp) (cut name) none := by
  have hlt := (List.getElem?_eq_some_iff.mp hslot).1
  have hle := hlt.le
  rw [length_slots,Dinode.length_contents] at hlt
  obtain ⟨hdir,hslots⟩ := h.wrote hw rfl (by omega) (h.distinct.empty hle)
  refine ⟨hdir,?_⟩
  rw [names,hslots,slotOf_zero]
  exact Entries.lookup_empty h.distinct hslot

end Directory

/-- Nothing has changed, except that an entry of the inode cache that nobody uses may have been
recycled. -/
structure Undisturbed (s s' : Store) : Prop where
  sb : s'.sb = s.sb
  disk : s'.disk = s.disk
  logged : s'.logged = s.logged
  outstanding : s'.outstanding = s.outstanding
  used : ∀ j, 0 < (s.icache j).ref → s'.icache j = s.icache j
  unused : ∀ j, (s.icache j).ref ≤ 0 → (s'.icache j).ref ≤ 0

lemma undisturbed_withInode (j : ℕ) : Undisturbed s (withInode s j (s.icache j).got.put) where
  sb := rfl
  disk := rfl
  logged := rfl
  outstanding := rfl
  used l hl := by
    obtain rfl | hne := eq_or_ne l j
    · rw [withInode_self,Inode.put_got hl]
    · rw [withInode_of_ne hne]
  unused l hl := by
    obtain rfl | hne := eq_or_ne l j
    · rw [withInode_self,Inode.got,if_neg (by omega)]
      exact le_rfl
    · rwa [withInode_of_ne hne]

namespace Directory

/-- The directory does not depend on the other entries of the cache, nor on how often it is referred
to itself. -/
lemma congr (h : Directory s dp) (hsb : s'.sb = s.sb) (hdisk : s'.disk = s.disk)
    (hdin : (s'.icache dp).din = (s.icache dp).din)
    (href : 1 ≤ (s'.icache dp).ref) (hlocked : (s'.icache dp).locked = (s.icache dp).locked) :
    Directory s' dp ∧ names s' dp = names s dp := by
  have htable : s'.table = s.table := by
    funext j
    rw [table,table,hsb,hdisk]
  have howning : Owning s' s'.table := by
    refine ⟨⟨hsb ▸ h.owning.laid,?_,?_⟩,?_⟩
    · rw [hdisk,hsb]
      exact h.owning.superblock
    · rw [hdisk,hsb]
      exact h.owning.low
    · rw [hdisk,hsb,htable]
      exact h.owning.owned
  refine ⟨?_,?_⟩
  · exact {
      lt := hsb ▸ h.lt
      owning := howning
      copy := by rw [htable,h.copy,hdin]
      whole := by rw [hdin,hdisk]; exact h.whole
      type := by rw [hdin]; exact h.type
      whole16 := by rw [hdin]; exact h.whole16
      distinct := by rw [hdin,hdisk]; exact h.distinct
      ref := href
      locked := hlocked.trans h.locked }
  · unfold names
    rw [hdin,hdisk]

lemma din_got (s : Store) (i dp : ℕ) : ((withInode s i (s.icache i).got).icache dp).din =
    (s.icache dp).din := by
  obtain rfl | hne := eq_or_ne dp i
  · rw [withInode_self,Inode.got_din]
  · rw [withInode_of_ne hne]

lemma withInode_got (h : Directory s dp) (i : ℕ) :
    Directory (withInode s i (s.icache i).got) dp ∧ names (withInode s i (s.icache i).got) dp =
      names s dp := by
  refine h.congr rfl rfl (din_got s i dp) ?_ ?_
  · obtain rfl | hne := eq_or_ne dp i
    · rw [withInode_self]
      exact Inode.one_le_ref_got
    · rw [withInode_of_ne hne]
      exact h.ref
  · obtain rfl | hne := eq_or_ne dp i
    · rw [withInode_self,Inode.got_locked]
    · rw [withInode_of_ne hne]

lemma withInode_back (h : Directory s dp) {i : ℕ} (hi : i ≠ dp) :
    Directory (withInode s i (s.icache i).got.put) dp ∧
      names (withInode s i (s.icache i).got.put) dp = names s dp := by
  have hdp : (withInode s i (s.icache i).got.put).icache dp = s.icache dp := withInode_of_ne hi.symm
  exact h.congr rfl rfl (by rw [hdp]) (by rw [hdp]; exact h.ref) (by rw [hdp])

lemma affords (h : Directory s dp) {off : ℕ} (hempty : Listing.Empty s dp off)
    (hroom : none ∈ slots ((s.icache dp).din.contents s.disk) ∨
      (s.icache dp).din.size.toNat+16 ≤ MAXFILE*BSIZE ∧
      Affords E s ((s.icache dp).din.lacking s.disk (blocks ((s.icache dp).din.size.toNat+16)))) :
    off+16 ≤ MAXFILE*BSIZE ∧ Affords E s ((s.icache dp).din.lacking s.disk (blocks (off+16))) := by
  obtain ⟨k,rfl,hle,-,hfull⟩ := hempty
  have hdiv := h.whole16
  obtain hlt | heq := Nat.lt_or_eq_of_le hle
  · refine ⟨le_trans (by omega) h.listing.size_le,.inr ?_⟩
    rw [h.whole.lacking_eq_zero (by omega)]
    exact Nat.zero_le _
  · rw [heq]
    refine hroom.resolve_left fun hmem => ?_
    obtain ⟨l,hl⟩ := mem_iff_getElem?.mp hmem
    have hlt := (List.getElem?_eq_some_iff.mp hl).1
    rw [length_slots,Dinode.length_contents] at hlt
    exact hfull l (by omega) hl

/-- Whether `dirlink` has written the entry, and what the names are then. -/
structure Linked (s : Store) (dp : ℕ) (name : List Byte) (inum : ℕ) (r : Bool) (s' : Store) : Prop where
  directory : Directory s' dp
  result : r = decide (Store.names s dp (cut name) = none)
  names : Store.names s' dp =
    if Store.names s dp (cut name) = none then update (Store.names s dp) (cut name) (some inum)
      else Store.names s dp
  failed : r = false → Undisturbed s s'

lemma dirlink_meets {inum : ℕ} (h : Directory s dp) (hpos : 1 ≤ inum) (hlt : inum < 65536)
    (hC : Listing.Caches E s dp name)
    (hfree : ∀ j, Store.names s dp (cut name) = some j → (s.icache j).locked = false)
    (hL : Logs E s (s.pledged dp+1)) (hroom : Store.names s dp (cut name) = none →
      none ∈ slots ((s.icache dp).din.contents s.disk) ∨ (s.icache dp).din.size.toNat+16 ≤
        MAXFILE*BSIZE ∧
        Affords E s ((s.icache dp).din.lacking s.disk (blocks ((s.icache dp).din.size.toNat+16)))) :
    Meets E (dirlink dp name inum) s (Linked s dp name inum) := by
  refine .bind ((h.listing.dirlookup_meets hC).mono fun r s' hfound => ?_)
  have hnames := hfound.names
  obtain ⟨rfl,rfl,-⟩ | ⟨k,i,rfl,rfl,-⟩ := hfound
  · have hnone : Store.names s' dp (cut name) = none := hnames
    refine .bind (.get
      (.bind ((h.listing.emptyLoop_meets _ (Nat.zero_le _) (by omega) (by simp)).mono ?_)))
    rintro off s'' ⟨rfl,hempty⟩
    obtain ⟨hmax,hE⟩ := h.affords hempty (hroom hnone)
    obtain ⟨k,rfl,hle,hslot,-⟩ := hempty
    refine .bind ((h.writeEntry_meets (length_dirent ..) hle hmax hE hL).mono fun _ s₁ hw => .pure ?_)
    obtain ⟨hdir,hnames'⟩ := h.names_wrote hw hpos hlt hle hslot hnone
    exact {
      directory := hdir
      result := by simp [hnone]
      names := by rw [hnames',if_pos hnone]
      failed := fun hfalse => by cases hfalse }
  · have hsome : Store.names s dp (cut name) = some i := hnames
    have hi : i ≠ dp := by
      rintro rfl
      cases h.locked.symm.trans (hfree i hsome)
    have hne : Store.names s dp (cut name) ≠ none := by
      rw [hsome]
      exact Option.some_ne_none i
    obtain ⟨hdir,hnames'⟩ := h.withInode_back hi
    refine .bind (iput_meets ?_ ?_ (.pure ?_))
    · rw [withInode_self,Inode.got_locked]
      exact hfree i hsome
    · rw [withInode_self]
      exact Inode.got_not_last
    · rw [withInode_withInode,withInode_self]
      exact {
        directory := hdir
        result := by simp [hne]
        names := by rw [hnames',if_neg hne]
        failed := fun _ => undisturbed_withInode i }

/-- Whether `dirclear` has cleared an entry, and what the names are then. -/
structure Cleared (s : Store) (dp : ℕ) (name : List Byte) (r : Bool) (s' : Store) : Prop where
  directory : Directory s' dp
  result : r = decide (Store.names s dp (cut name) ≠ none)
  names : Store.names s' dp = update (Store.names s dp) (cut name) none

lemma dirclear_meets (h : Directory s dp) (hC : Listing.Caches E s dp name)
    (hL : Logs E s (s.pledged dp+1)) :
    Meets E (dirclear dp name) s (Cleared s dp name) := by
  refine .bind ((h.listing.dirlookup_meets hC).mono fun r s' hfound => ?_)
  have hnames := hfound.names
  obtain ⟨rfl,rfl,-⟩ | ⟨k,i,rfl,rfl,-,hslot,-⟩ := hfound
  · have hnone : Store.names s' dp (cut name) = none := hnames
    refine .pure ⟨h,by simp [hnone],?_⟩
    rw [update_eq_self_iff.mpr hnone.symm]
  · have hsome : Store.names s dp (cut name) = some i := hnames
    obtain ⟨hgot,hgot'⟩ := h.withInode_got i
    have hcontents :
      ((withInode s i (s.icache i).got).icache dp).din.contents
      (withInode s i (s.icache i).got).disk =
        (s.icache dp).din.contents s.disk := by
      rw [din_got]
      rfl
    have hpledged : (withInode s i (s.icache i).got).pledged dp = s.pledged dp := by
      unfold pledged ledger
      rw [din_got]
      rfl
    rw [← hpledged] at hL
    rw [← hcontents] at hslot
    have hlt := (List.getElem?_eq_some_iff.mp hslot).1
    rw [length_slots,Dinode.length_contents] at hlt
    have hsize := hgot.listing.size_le
    refine .bind ((hgot.writeEntry_meets rfl (by omega) (by omega) (.inr ?_) hL).mono fun _ s₁ hw =>
      .pure ?_)
    · rw [hgot.whole.lacking_eq_zero (by omega)]
      exact Nat.zero_le _
    · obtain ⟨hdir,hnames'⟩ := hgot.names_cleared hw hslot
      exact ⟨hdir,by simp [hsome],by rw [hnames',hgot']⟩

end Directory

/-! ### Runs -/

/-- A call that changes a directory. -/
inductive Change
  | link (name : List Byte) (inum : ℕ)
  | clear (name : List Byte)

def change (dp : ℕ) : Change → Routine Store Bool
  | .link name inum => dirlink dp name inum
  | .clear name => dirclear dp name

/-- What the call does to a finite map from names to inode numbers. -/
def Change.apply (M : List Byte → Option ℕ) : Change → List Byte → Option ℕ
  | .link name inum => if M (cut name) = none then update M (cut name) (some inum) else M
  | .clear name => update M (cut name) none

/-- An operation has begun, and the log takes what writing an entry adds to it. -/
def Quota (s : Store) (dp : ℕ) : Prop := 1 ≤ s.outstanding ∧ s.pledged dp+1 < s.logMax

/-- A call with a valid inode number, for which there is room. -/
def Change.Fits (s : Store) (dp : ℕ) : Change → Prop
  | .link _ inum => 1 ≤ inum ∧ inum < 65536 ∧ Directory.Room s dp ∧ Quota s dp
  | .clear _ => Quota s dp

/-- The inode that the name is bound to can be looked up; one that is linked again is not locked by
the caller. -/
def Change.Apart (s : Store) (dp : ℕ) : Change → Prop
  | .link name _ => ∀ j, names s dp (cut name) = some j → s.Cacheable j ∧ (s.icache j).locked = false
  | .clear name => ∀ j, names s dp (cut name) = some j → s.Cacheable j

/-- The states that calls lead to, with the map that the directory should be then. They may be in
one operation or in several. -/
inductive Changed (dp : ℕ) (s₀ : Store) : Store → (List Byte → Option ℕ) → Prop
  | start : Changed dp s₀ s₀ (names s₀ dp)
  | op {s s' : Store} {M : List Byte → Option ℕ} : Changed dp s₀ s M →
      (endOp >>= fun _ => beginOp) s = .ok ((),s') → Changed dp s₀ s' M
  | step {s s' : Store} {M : List Byte → Option ℕ} {c : Change} {r : Bool} :
    Changed dp s₀ s M → c.Fits s dp →
      c.Apart s dp → change dp c s = .ok (r,s') → Changed dp s₀ s' (c.apply M)

namespace Directory

lemma room (h : Room s dp) : none ∈ slots ((s.icache dp).din.contents s.disk) ∨
    (s.icache dp).din.size.toNat+16 ≤ MAXFILE*BSIZE ∧
      Affords E s ((s.icache dp).din.lacking s.disk (blocks ((s.icache dp).din.size.toNat+16))) :=
  h.imp_right fun hroom => ⟨hroom.1,.inr hroom.2⟩

lemma change_meets (h : Directory s dp) {c : Change} (hfits : c.Fits s dp) (hapart : c.Apart s dp) :
    Meets E (change dp c) s fun _ s' => Directory s' dp ∧
      Store.names s' dp = c.apply (Store.names s dp) := by
  cases c with
  | link name inum =>
    obtain ⟨hpos,hlt,hroom,hquota⟩ := hfits
    exact (h.dirlink_meets hpos hlt (fun j hj => .inr (hapart j hj).1)
      (fun j hj => (hapart j hj).2) (.inr hquota)
      fun _ => room hroom).mono fun _ _ hr => ⟨hr.directory,hr.names⟩
  | clear name =>
    exact (h.dirclear_meets (fun j hj => .inr (hapart j hj)) (.inr hfits)).mono fun _ _ hr =>
      ⟨hr.directory,hr.names⟩

lemma nextOp_meets (h : Directory s dp) :
    Meets (fun _ => True) (endOp >>= fun _ => beginOp) s fun _ s' =>
    Directory s' dp ∧ Store.names s' dp = Store.names s dp := by
  refine .bind (.update (.bind (.get (iteInduction (motive := fun m => Meets _ m _ _) ?_ ?_))))
  · exact fun _ => .throw trivial
  · exact fun _ => .update (h.congr rfl rfl rfl h.ref rfl)

lemma changed {s₀ : Store} {M : List Byte → Option ℕ} (h : Directory s₀ dp) (hrun : Changed dp s₀ s M) :
    Directory s dp ∧ Store.names s dp = M := by
  induction hrun with
  | start => exact ⟨h,rfl⟩
  | op _ heq ih =>
    obtain ⟨hdir,rfl⟩ := ih
    exact hdir.nextOp_meets.returns _ _ heq
  | step _ hfits hapart heq ih =>
    obtain ⟨hdir,rfl⟩ := ih
    exact (hdir.change_meets (E := fun _ => True) hfits hapart).returns _ _ heq

end Directory

end Store
end JacobiXv6.FileSystem
