import JacobiXv6.Fs.Bcache
import JacobiXv6.Library.Fifo
import JacobiXv6.Library.Monitors

/-! The driver of `ide.c`: processes put their buffers into a queue and sleep, and the interrupt
handler completes the request at its head and starts the next one. The disk answers each command
with one interrupt and without errors. -/
namespace JacobiXv6.Fs
open Library Log Function BitVec

def FSSIZE : ℕ := 1000

/-- What `idestart` writes to the ports 0x1f2 to 0x1f6. -/
structure IdePorts where
  count : BitVec 8
  low : BitVec 8
  mid : BitVec 8
  high : BitVec 8
  device : BitVec 8

namespace IdePorts

def ofBuffer {ι : Type*} (x : Buffer ι) : IdePorts where
  count := 1
  low := (x.blockno &&& 0xff#32).setWidth 8
  mid := ((x.blockno >>> 8) &&& 0xff#32).setWidth 8
  high := ((x.blockno >>> 16) &&& 0xff#32).setWidth 8
  device := (0xe0#32 ||| ((x.dev &&& 1#32) <<< 4) ||| ((x.blockno >>> 24) &&& 0x0f#32)).setWidth 8

/-- The sector that the disk reads from the ports. -/
def sector (r : IdePorts) : Word :=
  BitVec.ofNat 32 (r.low.toNat+256*r.mid.toNat+65536*r.high.toNat+16777216*(r.device.toNat%16))

def disk (r : IdePorts) : Bool := r.device.getLsbD 4

variable {ι : Type*} {x : Buffer ι}

lemma device_ofBuffer (h : x.blockno.toNat < FSSIZE) :
    (ofBuffer x).device = if x.dev.getLsbD 0 = true then 0xf0#8 else 0xe0#8 := by
  have hhigh : x.blockno >>> 24 = 0 := by
    apply eq_of_toNat_eq
    rw [toNat_ushiftRight,Nat.shiftRight_eq_div_pow]
    exact Nat.div_eq_of_lt (h.trans (by decide))
  change BitVec.setWidth 8
    (0xe0#32 ||| ((x.dev &&& 1#32) <<< 4) ||| ((x.blockno >>> 24) &&& 0x0f#32)) = _
  rw [hhigh,and_one_eq_setWidth_ofBool_getLsbD]
  cases x.dev.getLsbD 0 with
  | true => decide
  | false => decide

lemma sector_ofBuffer (h : x.blockno.toNat < FSSIZE) : (ofBuffer x).sector = x.blockno := by
  have hn : x.blockno.toNat < 1000 := h
  have hbyte : ∀ a : ℕ, a &&& 255 = a%256 := fun a => Nat.and_two_pow_sub_one_eq_mod a 8
  have hlow : (ofBuffer x).low.toNat = x.blockno.toNat%256 := by
    simp only [ofBuffer,toNat_setWidth,toNat_and,toNat_ofNat]
    rw [show 255%2^32 = 255 from rfl,hbyte]
    exact Nat.mod_mod _ _
  have hmid : (ofBuffer x).mid.toNat = x.blockno.toNat/256 := by
    simp only [ofBuffer,toNat_setWidth,toNat_and,toNat_ofNat,toNat_ushiftRight,
      Nat.shiftRight_eq_div_pow]
    rw [show 255%2^32 = 255 from rfl,hbyte]
    omega
  have hhigh : (ofBuffer x).high.toNat = 0 := by
    simp only [ofBuffer,toNat_setWidth,toNat_and,toNat_ofNat,toNat_ushiftRight,
      Nat.shiftRight_eq_div_pow]
    rw [show 255%2^32 = 255 from rfl,hbyte]
    omega
  have hdevice : (ofBuffer x).device.toNat%16 = 0 := by
    rw [device_ofBuffer h]
    split_ifs <;> rfl
  rw [sector,hlow,hmid,hhigh,hdevice]
  apply eq_of_toNat_eq
  rw [toNat_ofNat]
  omega

lemma disk_ofBuffer (h : x.blockno.toNat < FSSIZE) : (ofBuffer x).disk = x.dev.getLsbD 0 := by
  rw [disk,device_ofBuffer h]
  cases x.dev.getLsbD 0 with
  | true => rfl
  | false => rfl
end IdePorts

/-- The controller: it has data for `insl`, or works on a command, with the data of `outsl` if that
is a write. -/
inductive IdeCtl
  | ready (data : Block)
  | busy (ports : IdePorts) (out : Option Block)

/-- A call of `iderw` on buffer `b`, with what the buffer had in it. -/
structure IdeRequest (ι : Type*) (n : ℕ) where
  b : Fin n
  buf : Buffer ι

/-- `idequeue` with the links `qnext`, the buffers, the controller with its interrupt line and both
disks. `busy` marks the buffers that are locked for a call of `iderw`. The rest is history: the
requests in the order in which they were queued, started and completed, and for each return of
`iderw` the number of its request and the buffer. -/
structure Ide (ι : Type*) (n : ℕ) where
  queue : Fifo (Fin n)
  buf : Fin n → Buffer ι
  busy : Fin n → Bool
  ctl : IdeCtl
  irq : Bool
  disk : Bool → Disk
  queued : List (IdeRequest ι n)
  started : List (IdeRequest ι n)
  completed : List (IdeRequest ι n)
  returned : List (ℕ×IdeRequest ι n)

/-- Where a process is in `iderw` or, from `intr` on, in `ideintr`, which it runs when it is
interrupted outside. -/
inductive IdeLoc (n : ℕ)
  | home
  | append (b : Fin n)
  | walk (b : Fin n) (pp : Option (Fin n))
  | check (b : Fin n) (k : ℕ)
  | test (b : Fin n) (k : ℕ)
  | done
  | intr
  | wake (b : Fin n)
  | next
  | intrDone
  | panic

inductive IdeCall (ι : Type*) (n : ℕ)
  | iderw (b : Fin n) (x : Buffer ι)
  | ideintr

def Buffer.pending {ι : Type*} (x : Buffer ι) : Prop := ¬(x.valid = true ∧ x.dirty = false)

instance {ι : Type*} (x : Buffer ι) : Decidable x.pending := inferInstanceAs (Decidable ¬_)

namespace Ide
variable {ι : Type*} {n : ℕ}

/-- The ports are written, and the data as well if the block is to be written. -/
def issue (s : Ide ι n) (b : Fin n) : Ide ι n :=
  { s with
    ctl := .busy (.ofBuffer (s.buf b)) (if (s.buf b).dirty = true then some (s.buf b).data else none)
    started := s.started++[⟨b,s.buf b⟩] }

/-- `idestart(b)`, which is tried again while the controller is busy. -/
def idestart (s : Ide ι n) (b : Fin n) (again after : IdeLoc n) : Stmt (Ide ι n) (Fin n) (IdeLoc n) :=
  if FSSIZE ≤ (s.buf b).blockno.toNat then .go s .panic
  else
    match s.ctl with
    | .busy _ _ => .go s again
    | .ready _ => .go (s.issue b) after

/-- The first part of `ideintr`, with the data that the buffer is left with. -/
def finish (s : Ide ι n) (b : Fin n) (data : Block) : Ide ι n :=
  { s with
    queue := { s.queue with head := s.queue.next b }
    buf := update s.buf b { s.buf b with valid := true, dirty := false, data := data }
    completed := s.completed++[⟨b,s.buf b⟩] }

def ideintr (s : Ide ι n) : Stmt (Ide ι n) (Fin n) (IdeLoc n) :=
  match s.queue.head with
  | none => .release .home
  | some b =>
    if (s.buf b).dirty = true then .go (s.finish b (s.buf b).data) (.wake b)
    else
      match s.ctl with
      | .busy _ _ => .go s .intr
      | .ready data => .go (s.finish b data) (.wake b)

/-- `b->qnext = 0` -/
def detach (s : Ide ι n) (b : Fin n) : Ide ι n :=
  { s with queue := { s.queue with next := update s.queue.next b none } }

/-- `*pp = b` -/
def append (s : Ide ι n) (pp : Option (Fin n)) (b : Fin n) : Ide ι n :=
  { s with
    queue := s.queue.link pp b
    queued := s.queued++[⟨b,s.buf b⟩] }

def handBack (s : Ide ι n) (b : Fin n) (k : ℕ) : Ide ι n :=
  { s with
    busy := update s.busy b false
    returned := s.returned++[(k,⟨b,s.buf b⟩)] }

/-- The statements between `acquire(&idelock)` and `release(&idelock)`. -/
def code (s : Ide ι n) : IdeLoc n → Stmt (Ide ι n) (Fin n) (IdeLoc n)
  | .append b => .go (s.detach b) (.walk b none)
  | .walk b pp =>
    match s.queue.cell pp with
    | some c => .go s (.walk b (some c))
    | none => .go (s.append pp b) (.check b s.queued.length)
  | .check b k => if s.queue.head = some b then s.idestart b (.check b k) (.test b k)
    else .go s (.test b k)
  | .test b k =>
    if (s.buf b).pending then .sleep b (.test b k) else .go (s.handBack b k) .done
  | .done => .release .home
  | .intr => s.ideintr
  | .wake b => .wakeup b .next
  | .next =>
    match s.queue.head with
    | none => .release .home
    | some b => s.idestart b .next .intrDone
  | .intrDone => .release .home
  | .panic => .go s .panic
  | .home => .release .home

/-- The buffer is locked for a call, with `x` in it. -/
def lend (s : Ide ι n) (b : Fin n) (x : Buffer ι) : Ide ι n :=
  { s with
    busy := update s.busy b true
    buf := update s.buf b x }

/-- A process calls `iderw` on a buffer whose lock it has, and not so that it panics; what it has
done to the buffer before is in `x`. The handler is called for an interrupt. -/
def call [DecidableEq ι] (havedisk1 : Bool) (p : ι) (s : Ide ι n) :
    IdeCall ι n → IdeLoc n → Option (Ide ι n×IdeLoc n)
  | .iderw b x, .home =>
    if s.busy b = false ∧ x.lock = some p ∧ x.pending ∧ (x.dev = 0 ∨ havedisk1 = true) ∧
      x.blockno.toNat < FSSIZE then
      some (s.lend b x,.append b)
    else none
  | .ideintr, .home => if s.irq = true then some ({ s with irq := false },.intr) else none
  | _, _ => none

/-- The disk carries out a command and raises its interrupt. -/
def answer (s : Ide ι n) : Option (Ide ι n) :=
  match s.ctl with
  | .ready _ => none
  | .busy r none => some { s with ctl := .ready (s.disk r.disk r.sector), irq := true }
  | .busy r (some data) =>
    some { s with
      ctl := .ready data
      irq := true
      disk := update s.disk r.disk (update (s.disk r.disk) r.sector data) }

def monitor (ι : Type*) [DecidableEq ι] (n : ℕ) (havedisk1 : Bool) :
    Monitor ι (Ide ι n) (Fin n) (IdeLoc n) (IdeCall ι n) Unit where
  call p a pc s := call havedisk1 p s a pc
  code _ _ pc s := s.code pc
  env _ s := s.answer

def initial (buf : Fin n → Buffer ι) (disk : Bool → Disk) (data : Block) : Ide ι n where
  queue := ⟨none,fun _ => none⟩
  buf := buf
  busy := fun _ => false
  ctl := .ready data
  irq := false
  disk := disk
  queued := []
  started := []
  completed := []
  returned := []

end Ide
end JacobiXv6.Fs
