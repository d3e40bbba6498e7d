import JacobiXv6.Library.Links
import JacobiXv6.Library.Threads
import JacobiXv6.Library.Writes
import JacobiXv6.Log.Header

/-! The buffer cache of `bio.c` on the disk of `memide.c`, and the functions of `log.c` that
work on it. What is done with `bcache.lock` held is one step, and so is what the holder of a
buffer's sleep-lock does to the buffer; between two steps any other process can run. -/
namespace JacobiXv6.Fs
open Library Log Function

def ROOTDEV : Word := 1

/-- `struct buf`, with its two flags; `refcnt` counts processes and does not wrap. -/
structure Buffer (ι : Type*) where
  valid : Bool
  dirty : Bool
  dev : Word
  blockno : Word
  lock : Option ι
  refcnt : ℕ
  data : Block

/-- What is noted of a run: a block that is stored with `bwrite` or `log_write`, and what a call
of `bread` returns. -/
inductive BioEvent
  | stored (b : Word) (v : Block)
  | returned (dev b : Word) (v : Block)

/-- The cache, the disk and `struct log`. -/
structure Bcache (ι : Type*) (n : ℕ) where
  buf : Fin n → Buffer ι
  links : Links (Fin n)
  disk : Disk
  lh : List Word
  outstanding : ℤ
  committing : Bool
  hist : List BioEvent

/-- The steps of which the functions are made up. `ready` is the end of `bread`, `unref` that of
`brelse`; `logRoom`, `logActive` and `logRecord` are the two tests of `log_write` and the rest. -/
inductive BioOp (n : ℕ)
  | bget (dev blockno : Word)
  | acquiresleep (i : Fin n)
  | ready (dev blockno : Word) (i : Fin n)
  | data (i : Fin n)
  | modify (i : Fin n) (v : Block)
  | bwrite (i : Fin n)
  | releasesleep (i : Fin n)
  | unref (i : Fin n)
  | logRoom
  | logActive
  | logRecord (i : Fin n)
  | beginOp
  | endOp
  | endCommit
  | header
  | clear

@[reducible] def BioOp.Ans {n : ℕ} : BioOp n → Type
  | bget _ _ => Fin n
  | data _ => Block
  | endOp => Bool
  | header => List Word
  | _ => Unit

abbrev Bio (n : ℕ) := Prog (BioOp n) BioOp.Ans

namespace Bcache
variable {ι : Type*} {n : ℕ}

def put (s : Bcache ι n) (i : Fin n) (x : Buffer ι) : Bcache ι n :=
  { s with buf := update s.buf i x }

lemma put_self (s : Bcache ι n) (i : Fin n) (x : Buffer ι) : (s.put i x).buf i = x :=
  update_self ..

lemma put_ne {s : Bcache ι n} {i j : Fin n} (x : Buffer ι) (hj : j ≠ i) : (s.put i x).buf j = s.buf j :=
  update_of_ne hj _ _

def log (s : Bcache ι n) (e : BioEvent) : Bcache ι n := { s with hist := s.hist++[e] }

/-- `binit`: the buffers are linked one after the other behind the head. -/
def binit (d : Disk) : Bcache ι n where
  buf := fun _ => ⟨false,false,0,0,none,0,fun _ => 0⟩
  links := (List.finRange n).foldl Links.push Links.empty
  disk := d
  lh := []
  outstanding := 0
  committing := false
  hist := []

/-- The first loop of `bget`. -/
def cached (s : Bcache ι n) (dev blockno : Word) : Option (Fin n) :=
  Links.scan s.links.next (fun i => (s.buf i).dev = dev ∧ (s.buf i).blockno = blockno) (n+1)
    (s.links.next none)

/-- The second loop of `bget`. -/
def unused (s : Bcache ι n) : Option (Fin n) :=
  Links.scan s.links.prev (fun i => (s.buf i).refcnt = 0 ∧ (s.buf i).dirty = false) (n+1)
    (s.links.prev none)

/-- `bget` up to the release of `bcache.lock`. -/
def bget (s : Bcache ι n) (dev blockno : Word) : Reply (Bcache ι n) (Fin n) :=
  match s.cached dev blockno with
  | some i => .done (s.put i { s.buf i with refcnt := (s.buf i).refcnt+1 }) i
  | none =>
    match s.unused with
    | some i => .done (s.put i { s.buf i with
        dev := dev, blockno := blockno, valid := false, dirty := false, refcnt := 1 }) i
    | none => .panic "bget: no buffers"

variable [DecidableEq ι]

def iderw (disksize : ℕ) (s : Bcache ι n) (p : ι) (i : Fin n) : Reply (Bcache ι n) Unit :=
  let x := s.buf i
  if x.lock ≠ some p then .panic "iderw: buf not locked"
  else if x.valid = true ∧ x.dirty = false then .panic "iderw: nothing to do"
  else if x.dev ≠ 1 then .panic "iderw: request not for disk 1"
  else if disksize ≤ x.blockno.toNat then .panic "iderw: block out of range"
  else if x.dirty = true then
    .done { s.put i { x with valid := true, dirty := false } with
      disk := update s.disk x.blockno x.data } ()
  else .done (s.put i { x with valid := true, data := s.disk x.blockno }) ()

def bwrite (disksize : ℕ) (s : Bcache ι n) (p : ι) (i : Fin n) : Reply (Bcache ι n) Unit :=
  if (s.buf i).lock ≠ some p then .panic "bwrite"
  else ((s.put i { s.buf i with dirty := true }).iderw disksize p i).andThen fun s' _ =>
    .done (s'.log (.stored (s.buf i).blockno (s.buf i).data)) ()

/-- The end of `bread`. -/
def ready (disksize : ℕ) (s : Bcache ι n) (p : ι) (dev blockno : Word) (i : Fin n) :
    Reply (Bcache ι n) Unit :=
  if (s.buf i).valid = true then .done (s.log (.returned dev blockno (s.buf i).data)) ()
  else (s.iderw disksize p i).andThen fun s' _ =>
    .done (s'.log (.returned dev blockno (s'.buf i).data)) ()

/-- The end of `brelse`. -/
def unref (s : Bcache ι n) (i : Fin n) : Bcache ι n :=
  if (s.buf i).refcnt-1 = 0 then
    { s.put i { s.buf i with refcnt := (s.buf i).refcnt-1 } with links := s.links.toFront i }
  else s.put i { s.buf i with refcnt := (s.buf i).refcnt-1 }

/-- One step of process `p`. -/
def handle (L : Layout) (disksize : ℕ) (s : Bcache ι n) (p : ι) :
    (o : BioOp n) → Reply (Bcache ι n) o.Ans
  | .bget dev blockno => s.bget dev blockno
  | .acquiresleep i =>
    if (s.buf i).lock = none then .done (s.put i { s.buf i with lock := some p }) () else .blocked
  | .ready dev blockno i => s.ready disksize p dev blockno i
  | .data i => .done s (s.buf i).data
  | .modify i v => .done (s.put i { s.buf i with data := v }) ()
  | .bwrite i => s.bwrite disksize p i
  | .releasesleep i =>
    if (s.buf i).lock = some p then .done (s.put i { s.buf i with lock := none }) ()
    else .panic "brelse"
  | .unref i => .done (s.unref i) ()
  | .logRoom =>
    if LOGSIZE ≤ s.lh.length ∨ L.size-1 ≤ s.lh.length then .panic "too big a transaction"
    else .done s ()
  | .logActive => if s.outstanding < 1 then .panic "log_write outside of trans" else .done s ()
  | .logRecord i =>
    .done ({ s.put i { s.buf i with dirty := true } with lh := absorb s.lh (s.buf i).blockno }.log
      (.stored (s.buf i).blockno (s.buf i).data)) ()
  | .beginOp =>
    if s.committing = true ∨ (LOGSIZE : ℤ) < s.lh.length+(s.outstanding+1)*MAXOPBLOCKS then .blocked
    else .done { s with outstanding := s.outstanding+1 } ()
  | .endOp =>
    if s.committing = true then .panic "log.committing"
    else if s.outstanding-1 = 0 then
      .done { s with outstanding := s.outstanding-1, committing := true } true
    else .done { s with outstanding := s.outstanding-1 } false
  | .endCommit => .done { s with committing := false } ()
  | .header => .done s s.lh
  | .clear => .done { s with lh := [] } ()

end Bcache

/-! ### The functions -/

section
variable {n : ℕ}

def bio (o : BioOp n) : Bio n o.Ans := .ask o

def bread (dev blockno : Word) : Bio n (Fin n) := do
  let i ← bio (.bget dev blockno)
  bio (.acquiresleep i)
  bio (.ready dev blockno i)
  return i

def bwrite (i : Fin n) : Bio n Unit := bio (.bwrite i)

def brelse (i : Fin n) : Bio n Unit := do
  bio (.releasesleep i)
  bio (.unref i)

def logWrite (i : Fin n) : Bio n Unit := do
  bio .logRoom
  bio .logActive
  bio (.logRecord i)

/-- `memmove(dst->data, src->data, BSIZE)` -/
def copy (dst src : Fin n) : Bio n Unit := do
  let v ← bio (.data src)
  bio (.modify dst v)

/-- The loop of `write_log` from `tail` on. No block is logged during a commit, so the header is
read once. -/
def writeLog (L : Layout) : ℕ → List Word → Bio n Unit
  | _, [] => return
  | tail, b::bs => do
    let dst ← bread ROOTDEV (L.slot tail)
    let src ← bread ROOTDEV b
    copy dst src
    bwrite dst
    brelse src
    brelse dst
    writeLog L (tail+1) bs

/-- The loop of `install_trans` from `tail` on. -/
def installTrans (L : Layout) : ℕ → List Word → Bio n Unit
  | _, [] => return
  | tail, b::bs => do
    let lbuf ← bread ROOTDEV (L.slot tail)
    let dbuf ← bread ROOTDEV b
    copy dbuf lbuf
    bwrite dbuf
    brelse lbuf
    brelse dbuf
    installTrans L (tail+1) bs

def writeHead (L : Layout) : Bio n Unit := do
  let i ← bread ROOTDEV L.start
  let lh ← bio .header
  let v ← bio (.data i)
  bio (.modify i (Log.writeHead v lh))
  bwrite i
  brelse i

def commit (L : Layout) : Bio n Unit := do
  let lh ← bio .header
  if 0 < lh.length then
    writeLog L 0 lh
    writeHead L
    let lh' ← bio .header
    installTrans L 0 lh'
    bio .clear
    writeHead L

def beginOp : Bio n Unit := bio .beginOp

def endOp (L : Layout) : Bio n Unit := do
  let doCommit : Bool ← bio .endOp
  if doCommit = true then
    commit L
    bio .endCommit

end
end JacobiXv6.Fs
