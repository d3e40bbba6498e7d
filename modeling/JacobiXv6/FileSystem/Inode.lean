import JacobiXv6.FileSystem.References
import JacobiXv6.Library.Routine
import JacobiXv6.Log.Header

/-! The inodes of `fs.c` and their contents, one call after the other. A buffer is the block that it
holds: what `bread` returns is what was stored last, and `log_write` is where a change takes effect.
An inode is named by its number, so the cache has an entry for each of them; there is one device. A
process that waits, for the log or for a lock of its own, ends with a message that the source does
not have. -/
namespace JacobiXv6.FileSystem
open Library Log Function

/-- `struct inode`, without the device and the number. -/
structure Inode where
  ref : ℤ
  valid : Bool
  locked : Bool
  din : Dinode

/-- The superblock in memory, the disk with its log, and the inode cache. `logged` are the blocks
passed to `log_write` since the last commit; `outstanding` operations have begun and not ended. -/
structure Store where
  sb : Superblock
  disk : ℕ → Sector
  icache : ℕ → Inode
  logged : List ℕ
  outstanding : ℕ

namespace Store

/-! ### Buffers and the log -/

/-- `log.lh.n`: a block that is logged twice has one entry. -/
def lhN (s : Store) : ℕ := s.logged.toFinset.card

/-- `log_write` panics when there are so many blocks in the log. -/
def logMax (s : Store) : ℕ := min LOGSIZE (s.sb.nlog-1)

def beginOp : Routine Store Unit := do
  let s ← get
  if LOGSIZE < s.lhN+(s.outstanding+1)*MAXOPBLOCKS then throw "begin_op: waits for the log"
  else modify fun s => { s with outstanding := s.outstanding+1 }

/-- The last operation to end commits. -/
def endOp : Routine Store Unit := modify fun s =>
  { s with outstanding := s.outstanding-1, logged := if s.outstanding = 1 then [] else s.logged }

def bread (b : ℕ) : Routine Store Sector := do return (← get).disk b

/-- The block is changed in its buffer, and the buffer is passed to `log_write`. -/
def logWrite (b : ℕ) (data : Sector) : Routine Store Unit := do
  let s ← get
  if s.logMax ≤ s.lhN then throw "too big a transaction"
  else if s.outstanding < 1 then throw "log_write outside of trans"
  else modify fun s => { s with disk := update s.disk b data, logged := s.logged++[b] }

def readsb : Routine Store Unit := do
  let bp ← bread 1
  modify fun s => { s with sb := .ofSector bp }

/-! ### Blocks -/

def bzero (bno : ℕ) : Routine Store Unit := logWrite bno fun _ => 0

def balloc : Routine Store ℕ := do
  let s ← get
  match (List.range s.sb.size).find? fun b => !s.sb.marked s.disk b with
  | none => throw "balloc: out of blocks"
  | some b =>
    let bp ← bread (s.sb.BBLOCK b)
    logWrite (s.sb.BBLOCK b) (setBit bp (b%BPB))
    bzero b
    return b

def bfree (b : ℕ) : Routine Store Unit := do
  readsb
  let s ← get
  let bp ← bread (s.sb.BBLOCK b)
  if bit bp (b%BPB) = false then throw "freeing free block"
  else logWrite (s.sb.BBLOCK b) (clearBit bp (b%BPB))

/-! ### Inodes -/

/-- The fields of an inode in memory are changed. -/
def setInode (inum : ℕ) (f : Inode → Inode) : Routine Store Unit :=
  modify fun s => { s with icache := update s.icache inum (f (s.icache inum)) }

/-- The fields that are copied from the disk are changed. -/
def setDin (inum : ℕ) (f : Dinode → Dinode) : Routine Store Unit :=
  setInode inum fun ip => { ip with din := f ip.din }

def iupdate (inum : ℕ) : Routine Store Unit := do
  let s ← get
  let bp ← bread (s.sb.IBLOCK inum)
  logWrite (s.sb.IBLOCK inum) (Superblock.withDinode bp inum (s.icache inum).din)

def NINODE : ℕ := 50

/-- The inodes with an entry in the cache that is in use; an inode number is a `ushort`. -/
def inUse (s : Store) : Finset ℕ := (Finset.range (2^16)).filter fun j => 0 < (s.icache j).ref

/-- An entry that nobody uses is taken for the inode if there is none yet. -/
def iget (inum : ℕ) : Routine Store Unit := do
  let s ← get
  if 0 < (s.icache inum).ref ∨ s.inUse.card < NINODE then
    setInode inum fun ip =>
      if 0 < ip.ref then { ip with ref := ip.ref+1 } else { ip with ref := 1, valid := false }
  else throw "iget: no inodes"

def idup (inum : ℕ) : Routine Store Unit := setInode inum fun ip => { ip with ref := ip.ref+1 }

/-- The first inode that is free on the disk, from 1 on. -/
def ialloc (type : BitVec 16) : Routine Store ℕ := do
  let s ← get
  match (List.range' 1 (s.sb.ninodes-1)).find? fun inum => (s.sb.dinode s.disk inum).type = 0 with
  | none => throw "ialloc: no inodes"
  | some inum =>
    let bp ← bread (s.sb.IBLOCK inum)
    logWrite (s.sb.IBLOCK inum) (Superblock.withDinode bp inum { Dinode.zero with type := type })
    iget inum
    return inum

def acquiresleep (inum : ℕ) : Routine Store Unit := do
  if ((← get).icache inum).locked then throw "acquiresleep: held by the caller"
  else setInode inum fun ip => { ip with locked := true }

def releasesleep (inum : ℕ) : Routine Store Unit := setInode inum fun ip => { ip with locked := false }

def ilock (inum : ℕ) : Routine Store Unit := do
  if ((← get).icache inum).ref < 1 then throw "ilock"
  else
    acquiresleep inum
    let s ← get
    if (s.icache inum).valid = false then
      let din := s.sb.dinode s.disk inum
      setInode inum fun ip => { ip with valid := true, din := din }
      if din.type = 0 then throw "ilock: no type" else return
    else return

def iunlock (inum : ℕ) : Routine Store Unit := do
  let ip := (← get).icache inum
  if ip.locked = false ∨ ip.ref < 1 then throw "iunlock"
  else releasesleep inum

/-! ### Contents -/

/-- The part of `bmap` that loads the indirect block. -/
def bmapIndirect (inum : ℕ) : Routine Store ℕ := do
  let din := ((← get).icache inum).din
  if din.indirect = 0 then
    let addr ← balloc
    setDin inum fun din => { din with indirect := .ofNat 32 addr }
    return addr
  else return din.indirect.toNat

/-- The part of `bmap` that finds an entry of the indirect block. -/
def bmapEntry (addr l : ℕ) : Routine Store ℕ := do
  let bp ← bread addr
  if word bp l = 0 then
    let b ← balloc
    logWrite addr (setWord bp l (.ofNat 32 b))
    return b
  else return (word bp l).toNat

def bmap (inum bn : ℕ) : Routine Store ℕ := do
  let din := ((← get).icache inum).din
  if h : bn < NDIRECT then
    if din.direct ⟨bn,h⟩ = 0 then
      let addr ← balloc
      setDin inum fun din => { din with direct := update din.direct ⟨bn,h⟩ (.ofNat 32 addr) }
      return addr
    else return (din.direct ⟨bn,h⟩).toNat
  else if bn-NDIRECT < NINDIRECT then
    let addr ← bmapIndirect inum
    bmapEntry addr (bn-NDIRECT)
  else throw "bmap: out of range"

/-- The part of `itrunc` for one direct block. -/
def freeDirect (inum : ℕ) (i : Fin NDIRECT) : Routine Store Unit := do
  let din := ((← get).icache inum).din
  if din.direct i = 0 then return
  else
    bfree (din.direct i).toNat
    setDin inum fun din => { din with direct := update din.direct i 0 }

def freeAllDirect (inum : ℕ) : List (Fin NDIRECT) → Routine Store Unit
  | [] => return
  | i::is => do
    freeDirect inum i
    freeAllDirect inum is

/-- The part of `itrunc` for one entry of the indirect block `a`. -/
def freeEntry (a : Sector) (j : Fin NINDIRECT) : Routine Store Unit := do
  if word a j = 0 then return else bfree (word a j).toNat

def freeAllEntries (a : Sector) : List (Fin NINDIRECT) → Routine Store Unit
  | [] => return
  | j::js => do
    freeEntry a j
    freeAllEntries a js

/-- The part of `itrunc` for the indirect block. -/
def freeIndirect (inum : ℕ) : Routine Store Unit := do
  let din := ((← get).icache inum).din
  if din.indirect = 0 then return
  else
    let a ← bread din.indirect.toNat
    freeAllEntries a (List.finRange NINDIRECT)
    bfree din.indirect.toNat
    setDin inum fun din => { din with indirect := 0 }

def itrunc (inum : ℕ) : Routine Store Unit := do
  freeAllDirect inum (List.finRange NDIRECT)
  freeIndirect inum
  setDin inum fun din => { din with size := 0 }
  iupdate inum

/-- The part of `iput` that frees an inode on the disk if it has no links and this is the last
reference. -/
def ifree (inum : ℕ) : Routine Store Unit := do
  let ip := (← get).icache inum
  if ip.valid = true ∧ ip.din.nlink = 0 ∧ ip.ref = 1 then
    itrunc inum
    setDin inum fun din => { din with type := 0 }
    iupdate inum
    setInode inum fun ip => { ip with valid := false }
  else return

def iput (inum : ℕ) : Routine Store Unit := do
  acquiresleep inum
  ifree inum
  releasesleep inum
  setInode inum fun ip => { ip with ref := ip.ref-1 }

def iunlockput (inum : ℕ) : Routine Store Unit := do
  iunlock inum
  iput inum

/-- The loop of `readi` over `n` bytes, with at most `fuel` rounds. -/
def readLoop (inum : ℕ) : ℕ → ℕ → ℕ → Routine Store (List Byte)
  | 0, _, _ => return []
  | fuel+1, off, n => do
    if n = 0 then return []
    else
      let bp ← bread (← bmap inum (off/BSIZE))
      let m := min n (BSIZE-off%BSIZE)
      let rest ← readLoop inum fuel (off+m) (n-m)
      return bp.slice (off%BSIZE) m++rest

/-- The bytes that are read; `off` and `n` are `uint`. Devices are not read here. -/
def readi (inum off n : ℕ) : Routine Store (Option (List Byte)) := do
  let din := ((← get).icache inum).din
  if din.type = T_DEV then return none
  else if din.size.toNat < off ∨ (off+n)%2^32 < off then return none
  else
    let n := if din.size.toNat < (off+n)%2^32 then din.size.toNat-off else n
    return some (← readLoop inum n off n)

/-- The loop of `writei` over the bytes of `src`, with at most `fuel` rounds. -/
def writeLoop (inum : ℕ) : ℕ → ℕ → List Byte → Routine Store Unit
  | 0, _, _ => return
  | fuel+1, off, src => do
    if src = [] then return
    else
      let b ← bmap inum (off/BSIZE)
      let bp ← bread b
      let m := min src.length (BSIZE-off%BSIZE)
      logWrite b (bp.paste (off%BSIZE) (src.take m))
      writeLoop inum fuel (off+m) (src.drop m)

/-- The part of `writei` that makes a file longer. -/
def grow (inum size : ℕ) : Routine Store Unit := do
  if ((← get).icache inum).din.size.toNat < size then
    setDin inum fun din => { din with size := .ofNat 32 size }
    iupdate inum
  else return

/-- The console takes what is written to it; no other device can be written to. -/
def CONSOLE : BitVec 16 := 1

/-- The number of bytes written; `off` and the length are `uint`. -/
def writei (inum off : ℕ) (src : List Byte) : Routine Store (Option ℕ) := do
  let din := ((← get).icache inum).din
  if din.type = T_DEV then
    if din.major = CONSOLE then return some src.length else return none
  else if din.size.toNat < off ∨ (off+src.length)%2^32 < off then return none
  else if MAXFILE*BSIZE < (off+src.length)%2^32 then return none
  else
    writeLoop inum src.length off src
    grow inum (off+src.length)
    return some src.length

end Store
end JacobiXv6.FileSystem
