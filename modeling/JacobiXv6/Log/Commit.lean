import JacobiXv6.Library.Run
import JacobiXv6.Library.Writes
import JacobiXv6.Log.Header

/-! The machine on which `log.c` commits and recovers. Block writes are synchronous and
atomic, and a step makes at most one of them, so a crash can fall between any two. The
buffer cache is lost in a crash; until then `bget` may recycle any buffer that is not
dirty. Transactions, as the calls of `log_write` made them up, are kept as history. -/
namespace JacobiXv6.Log
open Library Function

/-- A buffer of `bio.c` that holds a valid block; `dirty` is the flag `B_DIRTY`. -/
structure Buf where
  data : Block
  dirty : Bool

/-- Who called `install_trans` and the `write_head` after it. -/
inductive Caller
  | commit
  | recover
  deriving DecidableEq

inductive Pc
  | readHead
  | running
  | writeLog (tail : ℕ)
  | writeHead
  | install (who : Caller) (tail : ℕ)
  | clearHead (who : Caller)
  | recovered
  | panicked
  deriving DecidableEq

/-- What one transaction wrote, in the order of its calls of `log_write`. -/
abbrev Tx := List (Word×Block)

/-- The last four fields are history. `txs` has the transactions whose `commit` was
called, `cur` the one that is being made up or committed, `durable` counts those whose
`write_head` is on the disk, and `returned` those up to the last whose `commit` returned. -/
structure Machine where
  disk : Disk
  cache : Word → Option Buf
  lh : List Word
  pc : Pc
  txs : List Tx
  cur : Tx
  durable : ℕ
  returned : ℕ

namespace Machine

/-- `bread`: after it the block is in the cache. -/
def load (m : Machine) (b : Word) : Machine :=
  { m with cache := update m.cache b (some ((m.cache b).getD ⟨m.disk b,false⟩)) }

/-- The data that `bread` returns. -/
def data (m : Machine) (b : Word) : Block := ((m.cache b).map Buf.data).getD (m.disk b)

/-- `bwrite`: `ideintr` clears `B_DIRTY`. -/
def bwrite (m : Machine) (b : Word) (v : Block) : Machine :=
  { m with
    disk := update m.disk b v
    cache := update m.cache b (some ⟨v,false⟩) }

/-- `bget` recycles the buffer of a block for another one. -/
def recycle (m : Machine) (b : Word) : Option Machine :=
  match m.cache b with
  | some ⟨_,false⟩ => some { m with cache := update m.cache b none }
  | _ => none

/-- The block write of `write_head`. -/
def putHead (L : Layout) (m : Machine) : Machine :=
  let m := m.load L.start
  m.bwrite L.start (writeHead (m.data L.start) m.lh)

/-- `log_write` of a buffer for block `b` whose data is now `v`. -/
def logWrite (L : Layout) (b : Word) (v : Block) (m : Machine) : Machine :=
  if LOGSIZE ≤ m.lh.length ∨ L.size-1 ≤ m.lh.length then { m with pc := .panicked }
  else { m with
    lh := absorb m.lh b
    cache := update m.cache b (some ⟨v,true⟩)
    cur := m.cur++[(b,v)] }

/-- The call of `commit`; it does nothing if nothing was logged. -/
def commit (m : Machine) : Machine :=
  if 0 < m.lh.length then { m with pc := .writeLog 0, txs := m.txs++[m.cur] } else m

/-- The next iteration or statement of `commit` or `recover_from_log`. -/
def tick (L : Layout) (m : Machine) : Option Machine :=
  match m.pc with
  | .readHead =>
    let m := m.load L.start
    some { m with lh := readHead (m.data L.start), pc := .install .recover 0 }
  | .writeLog tail =>
    match m.lh[tail]? with
    | some b =>
      let m := (m.load (L.slot tail)).load b
      some { m.bwrite (L.slot tail) (m.data b) with pc := .writeLog (tail+1) }
    | none => some { m with pc := .writeHead }
  | .writeHead =>
    some { m.putHead L with pc := .install .commit 0, durable := m.txs.length }
  | .install who tail =>
    match m.lh[tail]? with
    | some b =>
      let m := (m.load (L.slot tail)).load b
      some { m.bwrite b (m.data (L.slot tail)) with pc := .install who (tail+1) }
    | none => some { m with lh := [], pc := .clearHead who }
  | .clearHead .commit =>
    some { m.putHead L with pc := .running, cur := [], returned := m.txs.length }
  | .clearHead .recover => some { m.putHead L with pc := .recovered }
  | .running | .recovered | .panicked => none

/-- Power fails: memory is lost and the next thing to run is `recover_from_log`. -/
def crash (m : Machine) : Machine :=
  { m with cache := fun _ => none, lh := [], pc := .readHead, cur := [] }

/-- After recovery the transactions that did not survive are no part of the history. -/
def start (m : Machine) : Machine := { m with pc := .running, txs := m.txs.take m.durable, cur := [] }

end Machine

inductive Act
  | logWrite (b : Word) (v : Block)
  | commit
  | tick
  | bread (b : Word)
  | recycle (b : Word)
  | crash
  | start

/-- Transactions write home blocks only; reads of the file system and the recycling of
buffers go on at any time. -/
def act (L : Layout) : Act → Machine → Option Machine
  | .logWrite b v, m => if m.pc = .running ∧ ¬L.InLog b then some (m.logWrite L b v) else none
  | .commit, m => if m.pc = .running then some m.commit else none
  | .tick, m => m.tick L
  | .bread b, m => some (m.load b)
  | .recycle b, m => m.recycle b
  | .crash, m => some m.crash
  | .start, m => if m.pc = .recovered then some m.start else none

def boot (d : Disk) : Machine := ⟨d,fun _ => none,[],.readHead,[],[],0,0⟩

/-- Every run of the machine, with any number of crashes in it. -/
abbrev Session (L : Layout) (d : Disk) (as : List Act) (m : Machine) : Prop :=
  Run (fun m a m' => act L a m = some m') (boot d) as m

end JacobiXv6.Log
