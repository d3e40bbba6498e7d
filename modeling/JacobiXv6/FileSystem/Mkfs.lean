import JacobiXv6.FileSystem.References
import JacobiXv6.Library.Routine
import JacobiXv6.Log.Header

/-! The program `mkfs`, which builds the image of a file system from a list of files. A failed
assertion and an `exit(1)` both end it with a message. -/
namespace JacobiXv6.FileSystem
open Library

def FSSIZE : ℕ := 1000
def NINODES : ℕ := 200

/-- What a sector is written for. -/
inductive Purpose
  | format
  | inode
  | data
  | bitmap

/-- The image file, the global variables, and a record of the sectors that were written. -/
structure Mkfs where
  img : ℕ → Sector
  sectors : ℕ
  freeinode : ℕ
  freeblock : ℕ
  writes : List (Purpose×ℕ)

/-- A file of the list: its name, and what the calls of `read` return until the end. -/
structure Input where
  name : List Byte
  reads : List (List Byte)

namespace Mkfs

def nbitmap : ℕ := FSSIZE/(BSIZE*8)+1
def ninodeblocks : ℕ := NINODES/IPB+1
def nlog : ℕ := Log.LOGSIZE
def nmeta : ℕ := 2+nlog+ninodeblocks+nbitmap
def nblocks : ℕ := FSSIZE-nmeta

def sb : Superblock where
  size := FSSIZE
  nblocks := nblocks
  ninodes := NINODES
  nlog := nlog
  logstart := 2
  inodestart := 2+nlog
  bmapstart := 2+nlog+ninodeblocks

def zeroes : Sector := fun _ => 0

/-- The sector that `lseek` goes to; the offset `sec*BSIZE` is a `uint`. -/
def seek (sec : ℕ) : ℕ := sec*BSIZE%2^32/BSIZE

def rsect (sec : ℕ) : Routine Mkfs Sector := do
  let m ← get
  if seek sec < m.sectors then return m.img (seek sec) else throw "read"

def put (p : Purpose) (sec : ℕ) (buf : Sector) (m : Mkfs) : Mkfs := { m with
  img := Function.update m.img sec buf
  sectors := max m.sectors (sec+1)
  writes := m.writes++[(p,sec)] }

def wsect (p : Purpose) (sec : ℕ) (buf : Sector) : Routine Mkfs Unit := modify (put p (seek sec) buf)

def winode (inum : ℕ) (ip : Dinode) : Routine Mkfs Unit := do
  let buf ← rsect (sb.IBLOCK inum)
  wsect .inode (sb.IBLOCK inum) (Superblock.withDinode buf inum ip)

def rinode (inum : ℕ) : Routine Mkfs Dinode := do
  let buf ← rsect (sb.IBLOCK inum)
  return .ofBytes (buf.slice (64*(inum%IPB)) 64)

def ialloc (type : BitVec 16) : Routine Mkfs ℕ := do
  let inum := (← get).freeinode
  modify fun m => { m with freeinode := inum+1 }
  winode inum { Dinode.zero with type := type, nlink := 1 }
  return inum

/-- `freeblock++` -/
def newBlock : Routine Mkfs (BitVec 32) := do
  let b := (← get).freeblock
  modify fun m => { m with freeblock := b+1 }
  return .ofNat 32 b

/-- The part of `iappend` that makes sure that there is an indirect block. -/
def mapIndirect (din : Dinode) : Routine Mkfs Dinode := do
  if din.indirect = 0 then
    let b ← newBlock
    return { din with indirect := b }
  else return din

/-- The part of `iappend` that finds entry `l` of the indirect block or takes a new block for it. -/
def mapEntry (din : Dinode) (l : ℕ) : Routine Mkfs (Dinode×ℕ) := do
  let indirect ← rsect din.indirect.toNat
  if word indirect l = 0 then
    let b ← newBlock
    wsect .data din.indirect.toNat (setWord indirect l b)
    return (din,b.toNat)
  else return (din,(word indirect l).toNat)

/-- The part of `iappend` that finds the block `fbn` of a file or takes a new one. -/
def mapBlock (din : Dinode) (fbn : ℕ) : Routine Mkfs (Dinode×ℕ) := do
  if h : fbn < NDIRECT then
    if din.direct ⟨fbn,h⟩ = 0 then
      let b ← newBlock
      return ({ din with direct := Function.update din.direct ⟨fbn,h⟩ b },b.toNat)
    else return (din,(din.direct ⟨fbn,h⟩).toNat)
  else
    let din ← mapIndirect din
    mapEntry din (fbn-NDIRECT)

/-- The loop of `iappend`, with at most `fuel` rounds. -/
def appendLoop : ℕ → Dinode → ℕ → List Byte → Routine Mkfs (Dinode×ℕ)
  | 0, din, off, _ => return (din,off)
  | fuel+1, din, off, p => do
    if p = [] then return (din,off)
    else if MAXFILE ≤ off/BSIZE then throw "fbn < MAXFILE"
    else
      let (din,x) ← mapBlock din (off/BSIZE)
      let n1 := min p.length ((off/BSIZE+1)*BSIZE-off)
      let buf ← rsect x
      wsect .data x (buf.paste (off-off/BSIZE*BSIZE) (p.take n1))
      appendLoop fuel din (off+n1) (p.drop n1)

def iappend (inum : ℕ) (p : List Byte) : Routine Mkfs Unit := do
  let din ← rinode inum
  let (din,off) ← appendLoop p.length din din.size.toNat p
  winode inum { din with size := .ofNat 32 off }

/-- The free map in which the first blocks are marked. -/
def bitmap (used : ℕ) : Sector := (List.range used).foldl setBit zeroes

def balloc (used : ℕ) : Routine Mkfs Unit := do
  if BSIZE*8 ≤ used then throw "used < BSIZE*8"
  else wsect .bitmap sb.bmapstart (bitmap used)

/-- The name without a leading `_`. -/
def shorten : List Byte → List Byte
  | [] => []
  | c::cs => if c = 95 then cs else c::cs

def appendAll (inum : ℕ) : List (List Byte) → Routine Mkfs Unit
  | [] => return
  | p::ps => do
    iappend inum p
    appendAll inum ps

def addFile (rootino : ℕ) (f : Input) : Routine Mkfs Unit := do
  if 47 ∈ f.name then throw "index(argv[i], '/') == 0"
  else
    let inum ← ialloc T_FILE
    iappend rootino (dirent inum (shorten f.name))
    appendAll inum f.reads

def addFiles (rootino : ℕ) : List Input → Routine Mkfs Unit
  | [] => return
  | f::fs => do
    addFile rootino f
    addFiles rootino fs

def zeroSectors : ℕ → ℕ → Routine Mkfs Unit
  | 0, _ => return
  | k+1, i => do
    wsect .format i zeroes
    zeroSectors k (i+1)

/-- The size of the root directory is rounded up to whole blocks. -/
def fixRoot (rootino : ℕ) : Routine Mkfs Unit := do
  let din ← rinode rootino
  winode rootino { din with size := .ofNat 32 ((din.size.toNat/BSIZE+1)*BSIZE) }

def main (files : List Input) : Routine Mkfs Unit := do
  zeroSectors FSSIZE 0
  wsect .format 1 (zeroes.paste 0 sb.bytes)
  let rootino ← ialloc T_DIR
  if rootino ≠ ROOTINO then throw "rootino == ROOTINO"
  else
    iappend rootino (dirent rootino [46])
    iappend rootino (dirent rootino [46,46])
    addFiles rootino files
    fixRoot rootino
    balloc (← get).freeblock

/-- Before the first statement: the image is empty. -/
def blank : Mkfs := ⟨fun _ => zeroes,0,1,nmeta,[]⟩

/-- `mkfs` exits with status 0 and leaves this behind. -/
def Makes (files : List Input) (m : Mkfs) : Prop := main files blank = .ok ((),m)

end Mkfs
end JacobiXv6.FileSystem
