import JacobiXv6.Library.Bytes

/-! The format of the disk as `fs.h` gives it: the superblock, the inodes in their blocks, the
bitmap, the blocks that an inode refers to, and the entries of a directory. -/
namespace JacobiXv6.FileSystem
open Library Function BitVec

abbrev ROOTINO : ℕ := 1
abbrev BSIZE : ℕ := 512
abbrev NDIRECT : ℕ := 12
abbrev NINDIRECT : ℕ := 128
abbrev MAXFILE : ℕ := NDIRECT+NINDIRECT
abbrev IPB : ℕ := 8
abbrev BPB : ℕ := BSIZE*8
abbrev DIRSIZ : ℕ := 14

abbrev T_DIR : BitVec 16 := 1
abbrev T_FILE : BitVec 16 := 2
abbrev T_DEV : BitVec 16 := 3

/-! ### Words and bits of a block -/

/-- Entry `j` of a block that is an array of `uint`. -/
def word (b : Sector) (j : ℕ) : BitVec 32 := wordAt (b.slice (4*j) 4) 0

def setWord (b : Sector) (j : ℕ) (v : BitVec 32) : Sector := b.paste (4*j) (wordBytes v)

@[simp] lemma word_setWord (b : Sector) (j : ℕ) (v : BitVec 32) : word (setWord b j v) j = v := by
  have hlen : (wordBytes v).length = 4 := rfl
  rw [word,setWord,b.slice_paste hlen,wordAt_wordBytes]

lemma word_setWord_of_ne {b : Sector} {i j : ℕ} {v : BitVec 32} (h : i ≠ j) :
    word (setWord b j v) i = word b i := by
  have hlen : (wordBytes v).length = 4 := rfl
  rw [word,setWord,b.slice_paste_of_disjoint (by omega),word]

/-- Bit `i` of a bitmap block. -/
def bit (b : Sector) (i : ℕ) : Bool := b (i/8)&&&1#8<<<(i%8) ≠ 0

def setBit (b : Sector) (i : ℕ) : Sector := b.paste (i/8) [b (i/8)|||1#8<<<(i%8)]

def clearBit (b : Sector) (i : ℕ) : Sector := b.paste (i/8) [b (i/8)&&&~~~(1#8<<<(i%8))]

lemma getLsbD_mask {k : ℕ} (hk : k < 8) (i : ℕ) : (1#8<<<k).getLsbD i = decide (i = k) := by
  rw [getLsbD_shiftLeft,getLsbD_one]
  by_cases hik : i = k
  · subst hik
    simp [hk]
  · simp only [hik,decide_false,Bool.and_eq_false_iff,Bool.not_eq_false',decide_eq_false_iff_not]
    simp
    omega

lemma and_mask_eq_zero {k : ℕ} (hk : k < 8) (x : Byte) : x&&&1#8<<<k = 0 ↔ x.getLsbD k = false := by
  constructor
  · intro h
    have hbit : (x&&&1#8<<<k).getLsbD k = false := by rw [h]; exact getLsbD_zero
    simpa [getLsbD_mask hk] using hbit
  · intro h
    apply eq_of_getLsbD_eq
    intro i hi
    rw [getLsbD_and,getLsbD_mask hk,ofNat_eq_ofNat,getLsbD_zero]
    by_cases hik : i = k
    · simp [hik,h]
    · simp [hik]

lemma bit_eq (b : Sector) (i : ℕ) : bit b i = (b (i/8)).getLsbD (i%8) := by
  have hmask := and_mask_eq_zero (Nat.mod_lt i (by norm_num : 0 < 8)) (b (i/8))
  rw [bit,decide_eq_decide.mpr (not_congr hmask),decide_not]
  simp

lemma bit_setBit (b : Sector) (i j : ℕ) : bit (setBit b i) j = (decide (j = i) || bit b j) := by
  have hk : i%8 < 8 := Nat.mod_lt i (by norm_num)
  rw [bit_eq,bit_eq]
  by_cases hblock : j/8 = i/8
  · have hpaste : setBit b i (i/8) = b (i/8)|||1#8<<<(i%8) := b.paste_add (k := 0) (by simp)
    rw [hblock,hpaste,getLsbD_or,getLsbD_mask hk,Bool.or_comm]
    congr 2
    apply propext
    omega
  · have hpaste : setBit b i (j/8) = b (j/8) := b.paste_of_disjoint (by simp; omega)
    have hne : j ≠ i := fun h => hblock (h ▸ rfl)
    simp [hpaste,hne]

/-! ### Inodes on the disk -/

/-- `struct dinode`; `direct` and `indirect` are the entries of `addrs`. -/
structure Dinode where
  type : BitVec 16
  major : BitVec 16
  minor : BitVec 16
  nlink : BitVec 16
  size : BitVec 32
  direct : Fin NDIRECT → BitVec 32
  indirect : BitVec 32

namespace Dinode

def bytes (d : Dinode) : List Byte :=
  shortBytes d.type++(shortBytes d.major++(shortBytes d.minor++(shortBytes d.nlink++
    (wordBytes d.size++(List.ofFn d.direct++[d.indirect]).flatMap wordBytes))))

def ofBytes (bs : List Byte) : Dinode where
  type := shortAt bs 0
  major := shortAt bs 2
  minor := shortAt bs 4
  nlink := shortAt bs 6
  size := wordAt bs 8
  direct i := wordAt bs (12+4*i)
  indirect := wordAt bs 60

@[simp] lemma length_bytes (d : Dinode) : d.bytes.length = 64 := rfl

lemma wordAt_bytes (d : Dinode) (i : ℕ) :
    wordAt d.bytes (12+4*i) = (List.ofFn d.direct++[d.indirect]).getD i 0 := by
  rw [← wordAt_flatMap,Nat.add_comm]
  rfl

lemma wordAt_direct (d : Dinode) (i : Fin NDIRECT) : wordAt d.bytes (12+4*i) = d.direct i := by
  rw [wordAt_bytes,List.getD_eq_getElem?_getD,List.getElem?_append_left (by simp),
    List.getElem?_ofFn,dif_pos i.isLt]
  rfl

@[simp] lemma ofBytes_bytes (d : Dinode) : ofBytes d.bytes = d := by
  have hsize : wordAt d.bytes 8 = d.size :=
    wordAt_wordBytes_append d.size ((List.ofFn d.direct++[d.indirect]).flatMap wordBytes)
  have hindirect : wordAt d.bytes (12+4*12) = d.indirect := d.wordAt_bytes 12
  simp only [ofBytes,wordAt_direct,hsize]
  rw [show 60 = 12+4*12 from rfl,hindirect]
  simp only [bytes,shortAt_shortBytes]
  rw [shortAt_append _ _ 0,shortAt_append _ _ 2,shortAt_append _ _ 0,shortAt_append _ _ 4,
    shortAt_append _ _ 2,shortAt_append _ _ 0]
  simp only [shortAt_shortBytes]

/-- The inode of a `struct dinode` that is all zero. -/
def zero : Dinode := ⟨0,0,0,0,0,fun _ => 0,0⟩

end Dinode

/-! ### Where things are -/

/-- `struct superblock`. -/
structure Superblock where
  size : ℕ
  nblocks : ℕ
  ninodes : ℕ
  nlog : ℕ
  logstart : ℕ
  inodestart : ℕ
  bmapstart : ℕ

namespace Superblock

def bytes (sb : Superblock) : List Byte :=
  [sb.size,sb.nblocks,sb.ninodes,sb.nlog,sb.logstart,sb.inodestart,sb.bmapstart].flatMap fun v =>
    wordBytes (BitVec.ofNat 32 v)

/-- The superblock in a block that starts with it. -/
def ofSector (b : Sector) : Superblock where
  size := (word b 0).toNat
  nblocks := (word b 1).toNat
  ninodes := (word b 2).toNat
  nlog := (word b 3).toNat
  logstart := (word b 4).toNat
  inodestart := (word b 5).toNat
  bmapstart := (word b 6).toNat

/-- Block containing inode `i`. -/
def IBLOCK (sb : Superblock) (i : ℕ) : ℕ := i/IPB+sb.inodestart

/-- Block of the free map containing the bit for block `b`. -/
def BBLOCK (sb : Superblock) (b : ℕ) : ℕ := b/BPB+sb.bmapstart

variable (sb : Superblock) (disk : ℕ → Sector)

def dinode (i : ℕ) : Dinode := .ofBytes ((disk (sb.IBLOCK i)).slice (64*(i%IPB)) 64)

/-- The block of inode `i` with this inode in it. -/
def withDinode (b : Sector) (i : ℕ) (d : Dinode) : Sector := b.paste (64*(i%IPB)) d.bytes

/-- Block `b` is marked in the free map. -/
def marked (b : ℕ) : Bool := bit (disk (sb.BBLOCK b)) (b%BPB)

variable {sb disk}

lemma dinode_congr {disk' : ℕ → Sector} {i : ℕ} (h : disk' (sb.IBLOCK i) = disk (sb.IBLOCK i)) :
    sb.dinode disk' i = sb.dinode disk i := by
  rw [dinode,dinode,h]

lemma dinode_update_withDinode (i j : ℕ) (d : Dinode) :
    sb.dinode (update disk (sb.IBLOCK i) (withDinode (disk (sb.IBLOCK i)) i d)) j =
      if j = i then d else sb.dinode disk j := by
  split_ifs with hji
  · subst hji
    rw [dinode,update_self,withDinode,Sector.slice_paste _ d.length_bytes,Dinode.ofBytes_bytes]
  by_cases hblock : sb.IBLOCK j = sb.IBLOCK i
  · have hslot : j%IPB ≠ i%IPB := by
      simp only [IBLOCK,IPB] at hblock ⊢
      omega
    rw [dinode,hblock,update_self,withDinode,
      Sector.slice_paste_of_disjoint _ (by rw [d.length_bytes]; omega),dinode,hblock]
  · exact dinode_congr (update_of_ne hblock _ _)

end Superblock

/-! ### The blocks of an inode -/

/-- The places of an inode where a block number stands. -/
inductive Place
  | direct (i : Fin NDIRECT)
  | indirect
  | entry (j : Fin NINDIRECT)
  deriving DecidableEq

/-- The place of the `k`-th block of the contents. -/
def Place.ofIndex (k : ℕ) : Option Place :=
  if h : k < NDIRECT then some (.direct ⟨k,h⟩)
  else if h : k-NDIRECT < NINDIRECT then some (.entry ⟨k-NDIRECT,h⟩)
  else none

namespace Dinode
variable (disk : ℕ → Sector) (d : Dinode)

/-- The block number at a place, 0 if there is none. -/
def ref : Place → ℕ
  | .direct i => (d.direct i).toNat
  | .indirect => d.indirect.toNat
  | .entry j => if d.indirect = 0 then 0 else (word (disk d.indirect.toNat) j).toNat

/-- The `k`-th block of the contents, 0 if there is none. -/
def block (k : ℕ) : ℕ := (Place.ofIndex k).elim 0 (d.ref disk)

end Dinode

/-- The number of blocks that `n` bytes take. -/
def blocks (n : ℕ) : ℕ := (n+(BSIZE-1))/BSIZE

/-! ### Directory entries -/

/-- `strncpy` of a string that ends with its last byte or with a zero. -/
def strncpy (n : ℕ) (name : List Byte) : List Byte :=
  let s := (name.takeWhile (· ≠ 0)).take n
  s++List.replicate (n-s.length) 0

/-- The bytes of a `struct dirent` with this name. -/
def dirent (inum : ℕ) (name : List Byte) : List Byte :=
  shortBytes (.ofNat 16 inum)++strncpy DIRSIZ name

lemma length_strncpy (n : ℕ) (name : List Byte) : (strncpy n name).length = n := by
  simp [strncpy]

lemma length_dirent (inum : ℕ) (name : List Byte) : (dirent inum name).length = 16 := by
  rw [dirent,List.length_append,length_strncpy]
  rfl

end JacobiXv6.FileSystem
