import JacobiXv6.FileSystem.Contents
import JacobiXv6.FileSystem.Cache
import JacobiXv6.Log.Header
import JacobiXv6.Library.Holders
import JacobiXv6.Library.Run
import JacobiXv6.Library.Tally

/-! Processes that write through one open file. `filewrite` cuts what it writes into chunks; for
each of them it begins an operation, locks the inode, writes at the offset of the file and moves the
offset. The steps of different processes are interleaved, and `writei` is one step, as nobody else
uses the inode meanwhile. `begin_op` waits for the log, and the `end_op` of the last operation
commits. -/
namespace JacobiXv6.FileSystem
open Library Store Function Finset Option

/-- `struct file` of an inode. -/
structure File where
  writable : Bool
  ip : ℕ
  off : ℕ

/-- The bytes that `filewrite` writes at once, so that a chunk fits into the log. -/
def maxChunk : ℕ := (Log.MAXOPBLOCKS-1-1-2)/2*512

/-- Where a process is in `filewrite`. What `writei` returned is with it; `none` is -1. -/
inductive Point
  | loop
  | begun
  | locked
  | wrote (r : Option ℕ)
  | moved (r : Option ℕ)
  | unlocked (r : Option ℕ)
  | returning (r : Option ℕ)

/-- The arguments and variables of `filewrite`. -/
structure Frame where
  addr : List Byte
  i : ℕ
  point : Point

namespace Frame

def chunk (f : Frame) : List Byte := (f.addr.drop f.i).take maxChunk

def result (f : Frame) : Option ℕ := if f.i = f.addr.length then some f.addr.length else none

end Frame

/-- The file with its inode, and the processes that write. -/
structure World (π : Type) where
  store : Store
  file : File
  frame : π → Option Frame

/-- A process calls `filewrite`, goes on in it, or returns from it. -/
inductive Event (π : Type)
  | call (p : π) (addr : List Byte)
  | step (p : π)
  | ret (p : π) (r : Option ℕ)

/-- The offset after `writei`; it is a `uint`. -/
def File.advance (file : File) (r : Option ℕ) : File :=
  if 0 < r.getD 0 then { file with off := (file.off+r.getD 0)%2^32 } else file

@[simp] lemma File.advance_writable (file : File) (r : Option ℕ) :
    (file.advance r).writable = file.writable := by
  unfold advance
  split_ifs <;> rfl

@[simp] lemma File.advance_ip (file : File) (r : Option ℕ) : (file.advance r).ip = file.ip := by
  unfold advance
  split_ifs <;> rfl

lemma File.advance_off {file : File} {n : ℕ} (h : file.off+n < 2^32) :
    (file.advance (some n)).off = file.off+n := by
  unfold advance
  split_ifs with hn
  · exact Nat.mod_eq_of_lt h
  · have hzero : n = 0 := Nat.eq_zero_of_not_pos hn
    rw [hzero,Nat.add_zero]

namespace World
variable {π : Type} [DecidableEq π]

def goto (w : World π) (p : π) (f : Option Frame) : World π :=
  { w with frame := Function.update w.frame p f }

/-- A routine of the file system and what the process does with its result. There is no step if it
waits or panics. -/
def attempt {α : Type} (w : World π) (p : π) (m : Routine Store α) (k : α → Frame) : Option (World π) :=
  match m w.store with
  | .ok (a,s) => some ({ w with store := s }.goto p (some (k a)))
  | .error _ => none

/-- The next step of a process in `filewrite`. -/
def next (w : World π) (p : π) (f : Frame) : Option (World π) :=
  match f.point with
  | .loop =>
    if f.i < f.addr.length then w.attempt p beginOp fun _ => { f with point := .begun }
    else some (w.goto p (some { f with point := .returning f.result }))
  | .begun => w.attempt p (ilock w.file.ip) fun _ => { f with point := .locked }
  | .locked => w.attempt p (writei w.file.ip w.file.off f.chunk) fun r => { f with point := .wrote r }
  | .wrote r => some ({ w with file := w.file.advance r }.goto p (some { f with point := .moved r }))
  | .moved r => w.attempt p (iunlock w.file.ip) fun _ => { f with point := .unlocked r }
  | .unlocked none => w.attempt p endOp fun _ => { f with point := .returning f.result }
  | .unlocked (some n) =>
    if n = f.chunk.length then w.attempt p endOp fun _ =>
      { f with i := f.i+n, point := .loop } else none
  | .returning _ => none

/-- A file that is not writable refuses. -/
inductive Step : World π → Event π → World π → Prop
  | call {w : World π} {p : π} (addr : List Byte) : w.frame p = none →
      Step w (.call p addr)
        (w.goto p (some ⟨addr,0,if w.file.writable then .loop else .returning none⟩))
  | step {w w' : World π} {p : π} {f : Frame} : w.frame p = some f → next w p f = some w' →
    Step w (.step p) w'
  | ret {w : World π} {p : π} {f : Frame} {r : Option ℕ} : w.frame p = some f → f.point = .returning r →
      Step w (.ret p r) (w.goto p none)

/-- A step of a process that is in `filewrite`. -/
def Work (w : World π) (e : Event π) (w' : World π) : Prop := Step w e w' ∧ ∀ q addr, e ≠ .call q addr

variable {α : Type} {w w' : World π} {p : π} {m : Routine Store α} {k : α → Frame}

lemma attempt_eq_some : w.attempt p m k = some w' ↔
    ∃ a s, m w.store = .ok (a,s) ∧ { w with store := s }.goto p (some (k a)) = w' := by
  unfold attempt
  cases m w.store with
  | ok x =>
    refine ⟨fun h => ⟨x.1,x.2,rfl,Option.some.inj h⟩,?_⟩
    rintro ⟨a,s,hok,rfl⟩
    cases hok
    rfl
  | error message => simp

end World

/-! ### The inode of an open file -/

namespace Store
variable {s s' : Store} {i off : ℕ} {src : List Byte}

/-- Inode `i` is in memory, is referred to, and is not a device. -/
structure Opened (s : Store) (i : ℕ) : Prop extends Held s i where
  valid : (s.icache i).valid = true
  ref : 1 ≤ (s.icache i).ref
  type : (s.icache i).din.type ≠ T_DEV

def content (s : Store) (i : ℕ) : List Byte := (s.icache i).din.contents s.disk

namespace Opened

lemma withLocked (h : Opened s i) (b : Bool) :
    Opened (withInode s i { s.icache i with locked := b }) i where
  lt := h.lt
  owning := h.owning.withInode
  copy := by
    rw [withInode_self]
    exact h.copy
  whole := by
    rw [withInode_self]
    exact h.whole
  valid := by
    rw [withInode_self]
    exact h.valid
  ref := by
    rw [withInode_self]
    exact h.ref
  type := by
    rw [withInode_self]
    exact h.type

lemma content_withLocked (b : Bool) : content (withInode s i { s.icache i with locked := b }) i =
    content s i := by
  unfold content
  rw [withInode_self]
  rfl

lemma relog (h : Opened s i) (l : List ℕ) (o : ℕ) :
    Opened { s with logged := l, outstanding := o } i where
  lt := h.lt
  owning := ⟨⟨h.owning.laid,h.owning.superblock,h.owning.low⟩,h.owning.owned⟩
  copy := h.copy
  whole := h.whole
  valid := h.valid
  ref := h.ref
  type := h.type

lemma wrote (h : Opened s i) (hw : Wrote i off src s s') :
    Opened s' i ∧ (s'.icache i).locked = (s.icache i).locked := by
  have hcache : s'.icache i = { s.icache i with din := (s'.icache i).din } := by
    have hcache := congrFun hw.cache i
    rwa [update_self] at hcache
  refine ⟨?_,by rw [hcache]⟩
  exact {
    toHeld := hw.held
    valid := by
      rw [hcache]
      exact h.valid
    ref := by
      rw [hcache]
      exact h.ref
    type := by
      rw [hw.same]
      exact h.type }

lemma ilock_eq (h : Opened s i) (hlocked : (s.icache i).locked = false) :
    ilock i s = .ok ((),withInode s i { s.icache i with locked := true }) := by
  have hmeets : Meets (fun _ => False) (ilock i) s fun _ s' => s' =
      withInode s i { s.icache i with locked := true } :=
    ilock_meets hlocked h.ref h.valid rfl
  obtain ⟨_,_,heq,rfl⟩ := hmeets.exists_eq
  exact heq

lemma ilock_waits (h : Opened s i) (hlocked : (s.icache i).locked = true) :
    ilock i s = .error "acquiresleep: held by the caller" := by
  have hget : (MonadState.get : Routine Store Store) s = .ok (s,s) := rfl
  refine (bind_of_ok hget).trans ?_
  rw [if_neg (Int.not_lt.mpr h.ref)]
  exact bind_of_error (acquiresleep_held hlocked)

lemma iunlock_eq (h : Opened s i) (hlocked : (s.icache i).locked = true) :
    iunlock i s = .ok ((),withInode s i { s.icache i with locked := false }) := by
  have hmeets : Meets (fun _ => False) (iunlock i) s fun _ s' => s' =
      withInode s i { s.icache i with locked := false } :=
    iunlock_meets hlocked h.ref rfl
  obtain ⟨_,_,heq,rfl⟩ := hmeets.exists_eq
  exact heq

lemma writei_end (h : Opened s i) {E : String → Prop}
    (hmax : (content s i).length+src.length ≤ MAXFILE*BSIZE)
    (hE : Affords E s ((s.icache i).din.lacking s.disk (blocks ((content s i).length+src.length))))
    (hL : Logs E s (s.pledged i+span (content s i).length src.length)) :
    Meets E (writei i (content s i).length src) s fun r s' => r = some src.length ∧ Opened s' i ∧
      (s'.icache i).locked = (s.icache i).locked ∧ content s' i = content s i++src ∧
        Wrote i (content s i).length src s s' := by
  have hlen : (content s i).length = (s.icache i).din.size.toNat := Dinode.length_contents
  refine (writei_meets h.toHeld h.type hlen.le hmax hE hL).mono ?_
  rintro r s' ⟨rfl,hw⟩
  obtain ⟨hopened,hlocked⟩ := h.wrote hw
  exact ⟨rfl,hopened,hlocked,hw.contents.trans (splice_length ..),hw⟩

end Opened

lemma beginOp_eq_ok : beginOp s = .ok ((),s') ↔
    s.lhN+(s.outstanding+1)*Log.MAXOPBLOCKS ≤ Log.LOGSIZE ∧
      { s with outstanding := s.outstanding+1 } = s' := by
  have hget : beginOp s = (if Log.LOGSIZE < s.lhN+(s.outstanding+1)*Log.MAXOPBLOCKS
    then throw "begin_op: waits for the log"
    else modify fun s => { s with outstanding := s.outstanding+1 } : Routine Store Unit) s := rfl
  rw [hget]
  split_ifs with hfull
  · exact iff_of_false nofun fun h => absurd h.1 (Nat.not_le.mpr hfull)
  · refine ⟨fun h => ⟨Nat.le_of_not_lt hfull,?_⟩,?_⟩
    · cases h
      rfl
    · rintro ⟨-,rfl⟩
      rfl

lemma pledged_le_lhN (hsize : s.sb.size ≤ 2*BPB) : s.pledged i ≤ s.lhN+4 := by
  have hmaps : s.maps ⊆ {s.sb.BBLOCK 0,s.sb.BBLOCK BPB} := by
    intro x hx
    obtain ⟨b,hb,rfl⟩ := mem_image.mp hx
    rw [mem_range] at hb
    rw [mem_insert,mem_singleton]
    simp only [Superblock.BBLOCK,BPB,BSIZE] at hsize ⊢
    omega
  have htwo := (card_le_card hmaps).trans card_le_two
  have hlog := card_union_le s.logged.toFinset s.maps
  have hinode := card_insert_le (s.sb.IBLOCK i) (s.logged.toFinset ∪ s.maps)
  rw [pledged,ledger,lhN]
  split_ifs
  · rw [union_empty]
    omega
  · have hindirect := card_union_le (insert (s.sb.IBLOCK i) (s.logged.toFinset ∪ s.maps))
      {(s.icache i).din.indirect.toNat}
    rw [card_singleton] at hindirect
    omega

/-- After `end_op`. -/
def ended (s : Store) : Store :=
  { s with outstanding := s.outstanding-1, logged := if s.outstanding = 1 then [] else s.logged }

lemma endOp_eq : endOp s = .ok ((),s.ended) := rfl

lemma pledged_ended_le : s.ended.pledged i ≤ s.pledged i := by
  refine Nat.add_le_add_right (card_le_card (union_subset_union_left (insert_subset_insert _ ?_))) _
  refine union_subset_union_left ?_
  unfold ended
  dsimp only
  split_ifs
  · exact empty_subset _
  · exact Finset.Subset.refl _

lemma pledged_withLocked (b : Bool) : (withInode s i { s.icache i with locked := b }).pledged i =
    s.pledged i := by
  unfold pledged ledger
  rw [withInode_self]
  rfl

end Store

/-! ### What the processes have asked for -/

section
variable {π : Type} [DecidableEq π]

/-- What a process has called `filewrite` with, in order. -/
def calledBy (p : π) (es : List (Event π)) : List (List Byte) :=
  es.filterMap fun
    | .call q addr => if q = p then some addr else none
    | _ => none

/-- What the calls of a process have returned, in order. -/
def returnedBy (p : π) (es : List (Event π)) : List (Option ℕ) :=
  es.filterMap fun
    | .ret q r => if q = p then some r else none
    | _ => none

def requested (es : List (Event π)) : ℕ :=
  (es.map fun
    | .call _ addr => addr.length
    | _ => 0).sum

def pieces (addr : List Byte) : List (List Byte) :=
  if addr = [] then [] else addr.take maxChunk::pieces (addr.drop maxChunk)
termination_by addr.length
decreasing_by
  rename_i hne
  have hpos := List.length_pos_of_ne_nil hne
  have hmax : 0 < maxChunk := by decide
  rw [List.length_drop]
  omega

lemma pieces_nil : pieces [] = [] := by simp [pieces]

lemma pieces_of_ne_nil {addr : List Byte} (h : addr ≠ []) :
    pieces addr = addr.take maxChunk::pieces (addr.drop maxChunk) := by
  rw [pieces,if_neg h]

variable {p q : π} {es : List (Event π)} {addr : List Byte} {r : Option ℕ}

@[simp] lemma calledBy_call : calledBy p (es++[.call q addr]) = if q = p then calledBy p es++[addr]
    else calledBy p es := by
  simp only [calledBy,List.filterMap_append]
  split_ifs with hq <;> simp [hq]

@[simp] lemma calledBy_step : calledBy p (es++[.step q]) = calledBy p es := by simp [calledBy]

@[simp] lemma calledBy_ret : calledBy p (es++[.ret q r]) = calledBy p es := by simp [calledBy]

@[simp] lemma returnedBy_call : returnedBy p (es++[.call q addr]) = returnedBy p es := by
  simp [returnedBy]

@[simp] lemma returnedBy_step : returnedBy p (es++[.step q]) = returnedBy p es := by simp [returnedBy]

@[simp] lemma returnedBy_ret : returnedBy p (es++[.ret q r]) = if q = p then returnedBy p es++[r]
    else returnedBy p es := by
  simp only [returnedBy,List.filterMap_append]
  split_ifs with hq <;> simp [hq]

end

section
variable {π : Type} {q : π} {es : List (Event π)} {addr : List Byte} {r : Option ℕ}

@[simp] lemma requested_call : requested (es++[.call q addr]) = requested es+addr.length := by
  simp [requested]

@[simp] lemma requested_step : requested (es++[.step q]) = requested es := by simp [requested]

@[simp] lemma requested_ret : requested (es++[.ret q r]) = requested es := by simp [requested]

lemma requested_work {e : Event π} (h : ∀ q addr, e ≠ .call q addr) :
    requested (es++[e]) = requested es := by
  cases e with
  | call q addr => exact absurd rfl (h q addr)
  | step q => simp
  | ret q r => simp

lemma requested_le (es : List (Event π)) (e : Event π) : requested es ≤ requested (es++[e]) := by
  simp [requested]

end

namespace Point

/-- The bytes of the chunk that has been written but is not counted in `i` yet. -/
def taken : Point → ℕ
  | .wrote r | .moved r | .unlocked r => r.getD 0
  | _ => 0

def holds : Point → Bool
  | .locked | .wrote _ | .moved _ => true
  | _ => false

def behind : Point → ℕ
  | .wrote r => r.getD 0
  | _ => 0

/-- The process is between `begin_op` and `end_op`. -/
def running : Point → ℕ
  | .loop | .returning _ => 0
  | _ => 1

/-- It has begun an operation and still has to write. -/
def pending : Point → ℕ
  | .begun | .locked => 1
  | _ => 0

def rank : Point → ℕ
  | .loop => 7
  | .begun => 6
  | .locked => 5
  | .wrote _ => 4
  | .moved _ => 3
  | .unlocked _ => 2
  | .returning _ => 1

end Point

namespace Frame

/-- A bound of the steps that are left. -/
def left (f : Frame) : ℕ := 7*(f.addr.length-f.i)+f.point.rank

def rest (f : Frame) : List Byte := f.addr.drop (f.i+f.point.taken)

/-- The variables are as they should be, where nothing goes wrong. -/
def Sound (f : Frame) : Prop :=
  match f.point with
  | .loop => f.i ≤ f.addr.length
  | .begun | .locked => f.i < f.addr.length
  | .wrote r | .moved r | .unlocked r => f.i < f.addr.length ∧ r = some f.chunk.length
  | .returning r => f.i = f.addr.length ∧ r = some f.addr.length

variable {f : Frame}

lemma length_chunk : f.chunk.length = min maxChunk (f.addr.length-f.i) := by
  rw [chunk,List.length_take,List.length_drop]

lemma pieces_drop (h : f.i < f.addr.length) :
    pieces (f.addr.drop f.i) = f.chunk::pieces (f.addr.drop (f.i+f.chunk.length)) := by
  have hne : f.addr.drop f.i ≠ [] := List.ne_nil_of_length_pos (by rw [List.length_drop]; omega)
  rw [pieces_of_ne_nil hne,List.drop_drop]
  congr 2
  rw [length_chunk]
  obtain hle | hlt := le_or_gt maxChunk (f.addr.length-f.i)
  · rw [Nat.min_eq_left hle]
  · rw [List.drop_of_length_le (by omega),List.drop_of_length_le (by omega)]

end Frame

/-! ### Bookkeeping -/

section
variable {π : Type} [DecidableEq π] [Fintype π]

/-- The bytes that a process still has to write. -/
def restOf (f : Option Frame) : List Byte := f.elim [] Frame.rest

def expected (f : Option Frame) : List (Option ℕ) := f.elim [] fun f => [some f.addr.length]

/-- The chunks of a process in `order`. -/
def chunksOf (p : π) (order : List (π×List Byte)) : List (List Byte) :=
  (order.filter (·.1 = p)).map Prod.snd

/-- The chunks that have been written are in `order`. Together with those that are still to be
written they are the chunks of the calls. -/
structure Account (es : List (Event π)) (frame : π → Option Frame)
    (order : List (π×List Byte)) : Prop where
  sound : ∀ p f, frame p = some f → f.Sound
  chunks : ∀ p, chunksOf p order++pieces (restOf (frame p)) = (calledBy p es).flatMap pieces
  returned : ∀ p, returnedBy p es++expected (frame p) = (calledBy p es).map fun addr => some addr.length
  total : (order.map Prod.snd).flatten.length+∑ p, (restOf (frame p)).length = requested es

variable {p : π} {es : List (Event π)} {frame : π → Option Frame} {order : List (π×List Byte)}
  {f f' : Frame}

lemma sum_rest_update (frame : π → Option Frame) (p : π) (x : Option Frame) :
    ∑ q, (restOf (Function.update frame p x q)).length+(restOf (frame p)).length =
      ∑ q, (restOf (frame q)).length+(restOf x).length :=
  sum_update_comp (fun _ f => (restOf f).length) frame p x

namespace Account

lemma start (h : ∀ p, frame p = none) : Account [] frame [] where
  sound p f hf := by
    rw [h p] at hf
    cases hf
  chunks p := by
    rw [h p]
    exact pieces_nil
  returned p := by
    rw [h p]
    rfl
  total := by simp [h,restOf,requested]

section

variable (h : Account es frame order)
include h

/-- Only process `p` does something. -/
lemma update {es' : List (Event π)} {order' : List (π×List Byte)} {x : Option Frame}
    (hother : ∀ q, q ≠ p → chunksOf q order' = chunksOf q order ∧ calledBy q es' = calledBy q es ∧
      returnedBy q es' = returnedBy q es)
    (hsound : ∀ f, x = some f → f.Sound)
    (hchunks : chunksOf p order'++pieces (restOf x) = (calledBy p es').flatMap pieces)
    (hreturned : returnedBy p es'++expected x = (calledBy p es').map fun addr => some addr.length)
    (htotal : (order'.map Prod.snd).flatten.length+(restOf x).length+requested es =
      (order.map Prod.snd).flatten.length+(restOf (frame p)).length+requested es') :
    Account es' (Function.update frame p x) order' := by
  constructor
  · intro q f hf
    obtain rfl | hq := eq_or_ne q p
    · rw [update_self] at hf
      exact hsound f hf
    · rw [update_of_ne hq] at hf
      exact h.sound q f hf
  · intro q
    obtain rfl | hq := eq_or_ne q p
    · rwa [update_self]
    · obtain ⟨horder,hcalled,-⟩ := hother q hq
      rw [update_of_ne hq,horder,hcalled]
      exact h.chunks q
  · intro q
    obtain rfl | hq := eq_or_ne q p
    · rwa [update_self]
    · obtain ⟨-,hcalled,hback⟩ := hother q hq
      rw [update_of_ne hq,hcalled,hback]
      exact h.returned q
  · have hsum := sum_rest_update frame p x
    have hold := h.total
    omega

lemma call (hp : frame p = none) (addr : List Byte) :
    Account (es++[.call p addr]) (Function.update frame p (some ⟨addr,0,.loop⟩)) order := by
  have hchunks := h.chunks p
  have hreturned := h.returned p
  rw [hp] at hchunks hreturned
  refine h.update ?_ ?_ ?_ ?_ ?_
  · intro q hq
    simp [hq.symm]
  · intro f hf
    obtain rfl := Option.some.inj hf
    exact Nat.zero_le _
  · rw [calledBy_call,if_pos rfl,List.flatMap_append,← hchunks]
    simp [restOf,Frame.rest,Point.taken,pieces_nil]
  · rw [calledBy_call,if_pos rfl,returnedBy_call,List.map_append,← hreturned]
    simp [expected]
  · rw [requested_call,hp]
    simp [restOf,Frame.rest,Point.taken]
    omega

lemma step (hp : frame p = some f) (haddr : f'.addr = f.addr) (hrest : f'.rest = f.rest)
    (hsound : f'.Sound) : Account (es++[.step p]) (Function.update frame p (some f')) order := by
  have hchunks := h.chunks p
  have hreturned := h.returned p
  have hrest' : restOf (some f') = restOf (frame p) := by rw [hp]; exact hrest
  have hexpected : expected (some f') = expected (frame p) := by
    rw [hp,expected,expected,elim_some,elim_some,haddr]
  refine h.update ?_ ?_ ?_ ?_ ?_
  · intro q hq
    simp
  · intro g hg
    exact Option.some.inj hg ▸ hsound
  · rwa [hrest',calledBy_step]
  · rwa [hexpected,calledBy_step,returnedBy_step]
  · rw [hrest',requested_step]

lemma write (hp : frame p = some { f with point := .locked }) : Account (es++[.step p])
    (Function.update frame p (some { f with point := .wrote (some f.chunk.length) }))
      (order++[(p,f.chunk)]) := by
  have hlt : f.i < f.addr.length := h.sound p _ hp
  have hrest : restOf (frame p) = f.addr.drop f.i := by rw [hp]; rfl
  have hrest' : restOf (some { f with point := .wrote (some f.chunk.length) }) =
      f.addr.drop (f.i+f.chunk.length) := rfl
  have hchunks := h.chunks p
  have hreturned := h.returned p
  rw [hp] at hreturned
  refine h.update ?_ ?_ ?_ ?_ ?_
  · intro q hq
    simp [chunksOf,hq.symm]
  · intro g hg
    obtain rfl := Option.some.inj hg
    exact ⟨hlt,rfl⟩
  · rw [hrest,Frame.pieces_drop hlt] at hchunks
    rw [hrest',calledBy_step,← hchunks]
    simp [chunksOf]
  · rw [calledBy_step,returnedBy_step]
    exact hreturned
  · have hlen : f.chunk.length ≤ f.addr.length-f.i := by
      rw [Frame.length_chunk]
      omega
    rw [hrest,hrest',requested_step]
    simp
    omega

lemma ret {r : Option ℕ} (hp : frame p = some { f with point := .returning r }) :
    Account (es++[.ret p r]) (Function.update frame p none) order := by
  obtain ⟨hi,rfl⟩ : f.i = f.addr.length ∧ r = some f.addr.length := h.sound p _ hp
  have hrest : restOf (frame p) = [] := by
    rw [hp]
    exact List.drop_of_length_le hi.ge
  have hchunks := h.chunks p
  have hreturned := h.returned p
  rw [hp] at hreturned
  refine h.update ?_ ?_ ?_ ?_ ?_
  · intro q hq
    simp [hq.symm]
  · intro g hg
    cases hg
  · rw [calledBy_ret,← hchunks,hrest]
    rfl
  · rw [calledBy_ret,returnedBy_ret,if_pos rfl,← hreturned]
    simp [expected]
  · rw [requested_ret,hrest]
    rfl

lemma finish (hp : frame p = none) : chunksOf p order = (calledBy p es).flatMap pieces ∧
    returnedBy p es = (calledBy p es).map fun addr => some addr.length := by
  have hchunks := h.chunks p
  have hreturned := h.returned p
  rw [hp] at hchunks hreturned
  constructor
  · rw [← hchunks,restOf,elim_none,pieces_nil,List.append_nil]
  · rw [← hreturned,expected,elim_none,List.append_nil]

lemma length_chunk_le (hp : frame p = some { f with point := .locked }) :
    (order.map Prod.snd).flatten.length+f.chunk.length ≤ requested es := by
  have hrest : f.chunk.length ≤ (restOf (frame p)).length := by
    rw [hp,Frame.length_chunk]
    simp [restOf,Frame.rest,Point.taken]
  have hsum : (restOf (frame p)).length ≤ ∑ q, (restOf (frame q)).length :=
    single_le_sum (f := fun q => (restOf (frame q)).length) (fun _ _ => Nat.zero_le _) (mem_univ p)
  have htotal := h.total
  omega

end

end Account
end

/-! ### The lock and the offset -/

section
variable {π : Type} [DecidableEq π]

def holds (f : Option Frame) : Bool := f.elim false (·.point.holds)

def behind (f : Option Frame) : ℕ := f.elim 0 (·.point.behind)

/-- One process at most is between `ilock` and `iunlock`, and the offset is the size of the file,
unless that process still has to move it. -/
structure Turns (i : ℕ) (w : World π) (o : Option π) : Prop where
  owns : Owns (holds ∘ w.frame) o
  locked : (w.store.icache i).locked = o.isSome
  off : w.file.off+o.elim 0 (behind ∘ w.frame) = (content w.store i).length

namespace Turns
variable {i : ℕ} {w : World π} {o : Option π} {p : π} {x : Option Frame}

lemma other (h : Turns i w o) (hp : holds (w.frame p) = false) (hx : holds x = false) :
    Turns i (w.goto p x) o where
  owns := by
    have howns := h.owns.keep (p := p) (b := holds x) (hx.trans hp.symm)
    rwa [← comp_update] at howns
  locked := h.locked
  off := by
    have hoff := h.off
    cases o with
    | none => exact hoff
    | some q =>
      have hq : q ≠ p := by
        rintro rfl
        have hheld := (h.owns q).mpr rfl
        rw [comp_apply,hp] at hheld
        cases hheld
      have hframe : (w.goto p x).frame q = w.frame q := update_of_ne hq ..
      rw [elim_some,comp_apply] at hoff ⊢
      rwa [hframe]

variable {w' : World π}

lemma self (h : Turns i w o) (hp : holds (w.frame p) = true) (hx : holds x = true)
    (hframe : w'.frame = Function.update w.frame p x)
    (hlocked : (w'.store.icache i).locked = (w.store.icache i).locked)
    (hoff : w'.file.off+behind x+(content w.store i).length =
      w.file.off+behind (w.frame p)+(content w'.store i).length) : Turns i w' o := by
  obtain rfl := h.owns.eq_some hp
  constructor
  · have howns := h.owns.keep (p := p) (b := holds x) (hx.trans hp.symm)
    rwa [← comp_update,← hframe] at howns
  · rw [hlocked]
    exact h.locked
  · have hold := h.off
    rw [elim_some,comp_apply] at hold ⊢
    rw [hframe,update_self]
    omega

lemma acquire (h : Turns i w none) (hx : holds x = true) (hbehind : behind x = 0)
    (hframe : w'.frame = Function.update w.frame p x) (hlocked : (w'.store.icache i).locked = true)
    (hfile : w'.file = w.file) (hcontent : content w'.store i = content w.store i) :
    Turns i w' (some p) where
  owns := by
    have howns := h.owns.acquire (p := p)
    rwa [← hx,← comp_update,← hframe] at howns
  locked := hlocked
  off := by
    have hoff := h.off
    rw [elim_some,comp_apply,hframe,update_self,hbehind,hcontent,hfile]
    exact hoff

lemma release (h : Turns i w o) (hp : holds (w.frame p) = true) (hbehind : behind (w.frame p) = 0)
    (hx : holds x = false)
    (hframe : w'.frame = Function.update w.frame p x) (hlocked : (w'.store.icache i).locked = false)
    (hfile : w'.file = w.file) (hcontent : content w'.store i = content w.store i) :
    Turns i w' none where
  owns := by
    have howns := h.owns.release hp
    rwa [← hx,← comp_update,← hframe] at howns
  locked := hlocked
  off := by
    have hoff := h.off
    rw [h.owns.eq_some hp,elim_some,comp_apply,hbehind] at hoff
    rw [elim_none,hcontent,hfile]
    exact hoff

end Turns
end

/-! ### The log -/

section
variable {π : Type} [DecidableEq π] [Fintype π]

def running (f : Option Frame) : ℕ := f.elim 0 (·.point.running)

def pending (f : Option Frame) : ℕ := f.elim 0 (·.point.pending)

/-- The log is empty and not shorter than `mkfs` makes it, and the free map has two blocks at most.
-/
structure World.Room (w : World π) : Prop where
  outstanding : w.store.outstanding = 0
  logged : w.store.logged = []
  nlog : Log.LOGSIZE ≤ w.store.sb.nlog
  size : w.store.sb.size ≤ 2*BPB

/-- The operations under way are those of the processes, and the log has room for what they still
have to write: a chunk is in four blocks at most. -/
structure Logging (i : ℕ) (w : World π) : Prop where
  nlog : Log.LOGSIZE ≤ w.store.sb.nlog
  size : w.store.sb.size ≤ 2*BPB
  outstanding : w.store.outstanding = ∑ p, running (w.frame p)
  empty : w.store.outstanding = 0 → w.store.logged = []
  room : w.store.pledged i+4*∑ p, pending (w.frame p) ≤ 28

namespace Logging
variable {i : ℕ} {w w' : World π} {p : π} {f : Frame} {x : Option Frame}

omit [DecidableEq π] in
lemma start (h : w.Room) (hidle : ∀ p, w.frame p = none) : Logging i w where
  nlog := h.nlog
  size := h.size
  outstanding := by simp [h.outstanding,hidle,running]
  empty _ := h.logged
  room := by
    have hpledged := pledged_le_lhN (i := i) h.size
    rw [lhN,h.logged,List.toFinset_nil,card_empty] at hpledged
    simp only [hidle,pending,elim_none,sum_const_zero]
    omega

lemma update (h : Logging i w) (hframe : w'.frame = Function.update w.frame p x)
    (hsb : w'.store.sb = w.store.sb)
    (hout : w'.store.outstanding+running (w.frame p) = w.store.outstanding+running x)
    (hempty : w'.store.outstanding = 0 → w'.store.logged = [])
    (hroom : w'.store.pledged i+4*∑ q, pending (w.frame q)+4*pending x ≤ 28+4*pending (w.frame p)) :
    Logging i w' where
  nlog := hsb ▸ h.nlog
  size := hsb ▸ h.size
  outstanding := by
    have hsum := sum_update_comp (fun _ => running) w.frame p x
    have hold := h.outstanding
    rw [hframe]
    omega
  empty := hempty
  room := by
    have hsum := sum_update_comp (fun _ => pending) w.frame p x
    rw [hframe]
    omega

/-- The step does not concern the log. -/
lemma quiet (h : Logging i w) (hframe : w'.frame = Function.update w.frame p x)
    (hrunning : running x = running (w.frame p)) (hpending : pending x = pending (w.frame p))
    (hsb : w'.store.sb = w.store.sb) (hlogged : w'.store.logged = w.store.logged)
    (hout : w'.store.outstanding = w.store.outstanding)
    (hpledged : w'.store.pledged i = w.store.pledged i) :
    Logging i w' := by
  have hroom := h.room
  refine h.update hframe hsb (by rw [hout,hrunning]) ?_ (by omega)
  rw [hout,hlogged]
  exact h.empty

omit [DecidableEq π] in
lemma running_le (h : Logging i w) (p : π) : running (w.frame p) ≤ w.store.outstanding := by
  rw [h.outstanding]
  exact single_le_sum (f := fun q => running (w.frame q)) (fun _ _ => Nat.zero_le _) (mem_univ p)

lemma begin (h : Logging i w) (hp : w.frame p = some { f with point := .loop })
    (hroom : w.store.lhN+(w.store.outstanding+1)*Log.MAXOPBLOCKS ≤ Log.LOGSIZE) :
    Logging i ({ w with store := { w.store with outstanding := w.store.outstanding+1 } }.goto p
      (some { f with point := .begun })) := by
  have hrunning : running (w.frame p) = 0 := by rw [hp]; rfl
  have hpending : ∑ q, pending (w.frame q) ≤ w.store.outstanding := by
    rw [h.outstanding]
    refine sum_le_sum fun q _ => ?_
    cases w.frame q with
    | none => exact le_rfl
    | some g =>
      change g.point.pending ≤ g.point.running
      cases g.point <;> simp [Point.pending,Point.running]
  have hpledged := pledged_le_lhN (i := i) h.size
  refine h.update rfl rfl (by rw [hrunning]; rfl) (fun hzero => absurd hzero (Nat.succ_ne_zero _)) ?_
  change w.store.pledged i+_+4*1 ≤ _
  simp only [Log.LOGSIZE,Log.MAXOPBLOCKS] at hroom
  omega

omit [DecidableEq π] in
lemma logs (h : Logging i w) (hp : w.frame p = some { f with point := .locked }) (off : ℕ) :
    span off f.chunk.length ≤ 4 ∧ 1 ≤ w.store.outstanding ∧
      w.store.pledged i+span off f.chunk.length < w.store.logMax := by
  have hspan : span off f.chunk.length ≤ 4 := by
    have hlen : f.chunk.length ≤ 1536 := List.length_take_le ..
    simp only [span,blocks,BSIZE]
    split_ifs <;> omega
  have hrunning := h.running_le p
  have hpending : pending (w.frame p) ≤ ∑ q, pending (w.frame q) :=
    single_le_sum (f := fun q => pending (w.frame q)) (fun _ _ => Nat.zero_le _) (mem_univ p)
  rw [hp] at hrunning hpending
  change 1 ≤ _ at hpending
  have hroom := h.room
  have hnlog := h.nlog
  simp only [logMax,Log.LOGSIZE,Log.MAXOPBLOCKS] at hnlog ⊢
  exact ⟨hspan,hrunning,by omega⟩

lemma write (h : Logging i w) (hp : w.frame p = some { f with point := .locked }) {s : Store} {off : ℕ}
    {r : Option ℕ} (hw : Wrote i off f.chunk w.store s) :
    Logging i ({ w with store := s }.goto p (some { f with point := .wrote r })) := by
  obtain ⟨hspan,hrunning,-⟩ := h.logs hp off
  have hpledged := hw.pledged
  have hroom := h.room
  have hout : s.outstanding = w.store.outstanding := hw.changes.outstanding
  refine h.update rfl hw.changes.sb ?_ (fun hzero => absurd (hout.symm.trans hzero) (by omega)) ?_
  · rw [hp]
    exact congrArg (·+1) hout
  · rw [hp]
    change s.pledged i+_+4*0 ≤ 28+4*1
    omega

lemma commit (h : Logging i w) {r : Option ℕ}
    (hp : w.frame p = some { f with point := .unlocked r }) (k : ℕ) :
    Logging i ({ w with store := w.store.ended }.goto p (some { f with i := k, point := .loop })) := by
  have hone := h.running_le p
  have hroom := h.room
  have hpledged := pledged_ended_le (s := w.store) (i := i)
  rw [hp] at hone
  change 1 ≤ w.store.outstanding at hone
  refine h.update rfl rfl ?_ (fun hzero => if_pos ?_) ?_
  · rw [hp]
    exact Nat.sub_add_cancel hone
  · change w.store.outstanding-1 = 0 at hzero
    omega
  · change w.store.ended.pledged i+_+4*0 ≤ _
    omega

end Logging
end

/-! ### Runs -/

section
variable {π : Type} [DecidableEq π] [Fintype π]

def leftOf (f : Option Frame) : ℕ := f.elim 0 Frame.left

/-- A bound of the steps that the processes still have to do. -/
def World.left (w : World π) : ℕ := ∑ p, leftOf (w.frame p)

section
variable {w w' : World π} {p : π} {f : Frame} {x : Option Frame}

lemma World.left_lt (hp : w.frame p = some f) (hframe : w'.frame = Function.update w.frame p x)
    (hlt : leftOf x < f.left) : w'.left < w.left := by
  have hsum := sum_update_comp (fun _ => leftOf) w.frame p x
  rw [hp] at hsum
  change _+f.left = _ at hsum
  unfold left
  rw [hframe]
  omega

lemma World.left_lt_of_rank {a b : Point} (hp : w.frame p = some { f with point := a })
    (hframe : w'.frame = Function.update w.frame p (some { f with point := b }))
      (hrank : b.rank < a.rank) :
    w'.left < w.left := left_lt hp hframe (Nat.add_lt_add_left hrank _)

end

omit [Fintype π] in
/-- Nothing new is asked for without a call. -/
lemma World.asked_work {w w' : World π} {es' : List (Event π)} (hrun : Run World.Work w es' w')
    (es : List (Event π)) :
    requested (es++es') = requested es ∧ ∀ p, calledBy p (es++es') = calledBy p es := by
  induction hrun with
  | nil => simp
  | @snoc _ _ es' e _ hlast ih =>
    rw [← List.append_assoc,requested_work hlast.2]
    refine ⟨ih.1,fun p => Eq.trans ?_ (ih.2 p)⟩
    cases e with
    | call q addr => exact absurd rfl (hlast.2 q addr)
    | step q => exact calledBy_step
    | ret q r => exact calledBy_ret

/-- The file has been opened for writing, the offset is at its end, and nobody writes yet. -/
structure World.Ready (w : World π) : Prop where
  writable : w.file.writable = true
  opened : Opened w.store w.file.ip
  unlocked : (w.store.icache w.file.ip).locked = false
  off : w.file.off = (content w.store w.file.ip).length
  idle : ∀ p, w.frame p = none

/-- The state after the chunks in `order` have been written. -/
structure Writing (w₀ : World π) (es : List (Event π)) (w : World π)
    (order : List (π×List Byte)) : Prop where
  writable : w.file.writable = true
  ip : w.file.ip = w₀.file.ip
  opened : Opened w.store w₀.file.ip
  content : content w.store w₀.file.ip = content w₀.store w₀.file.ip++(order.map Prod.snd).flatten
  turns : ∃ o, Turns w₀.file.ip w o
  account : Account es w.frame order
  spent : ∀ m, (Store.content w.store w₀.file.ip).length ≤ m*BSIZE →
    w.store.freeBlocks+(w₀.store.icache w₀.file.ip).din.lacking w₀.store.disk m =
      w₀.store.freeBlocks+(w.store.icache w₀.file.ip).din.lacking w.store.disk m

namespace Writing
variable {w₀ w w' : World π} {es : List (Event π)} {order : List (π×List Byte)} {p : π} {f : Frame}
  {x : Option Frame}
  {e : Event π}

lemma start (h : w₀.Ready) : Writing w₀ [] w₀ [] where
  writable := h.writable
  ip := rfl
  opened := h.opened
  content := (List.append_nil _).symm
  turns := by
    refine ⟨none,?_,h.unlocked,h.off⟩
    intro q
    rw [comp_apply,h.idle q]
    exact iff_of_false Bool.false_ne_true (some_ne_none q).symm
  account := .start h.idle
  spent _ _ := rfl

/-- Besides the process only the log changes. -/
lemma goto (h : Writing w₀ es w order) (l : List ℕ) (o : ℕ) (hp : holds (w.frame p) = false)
    (hx : holds x = false)
    (haccount : Account (es++[e]) (w.goto p x).frame order) :
    Writing w₀ (es++[e])
      ({ w with store := { w.store with logged := l, outstanding := o } }.goto p x) order where
  writable := h.writable
  ip := h.ip
  opened := h.opened.relog l o
  content := h.content
  turns := h.turns.imp fun _ hturns =>
    have hother := hturns.other hp hx
    ⟨hother.owns,hother.locked,hother.off⟩
  account := haccount
  spent := h.spent

lemma relock (h : Writing w₀ es w order) {b : Bool} {o : Option π}
    (hw' : w' = { w with
      store := withInode w.store w₀.file.ip { w.store.icache w₀.file.ip with locked := b } }.goto p x)
    (hturns : Turns w₀.file.ip w' o) (haccount : Account (es++[e]) w'.frame order) :
      Writing w₀ (es++[e]) w' order := by
  subst hw'
  have hcontent :
    Store.content
    (withInode w.store w₀.file.ip { w.store.icache w₀.file.ip with locked := b }) w₀.file.ip =
      Store.content w.store w₀.file.ip := Opened.content_withLocked b
  exact {
    writable := h.writable
    ip := h.ip
    opened := h.opened.withLocked b
    content := hcontent.trans h.content
    turns := ⟨o,hturns⟩
    account := haccount
    spent := fun m hm => by
      have hspent := h.spent m (hcontent ▸ hm)
      change _ = _+((withInode w.store w₀.file.ip _).icache w₀.file.ip).din.lacking w.store.disk m
      rw [withInode_self]
      exact hspent }

lemma length_content (h : Writing w₀ es w order) : (Store.content w.store w₀.file.ip).length =
    (Store.content w₀.store w₀.file.ip).length+(order.map Prod.snd).flatten.length := by
  rw [h.content,List.length_append]

lemma length_content_le (h : Writing w₀ es w order) :
    (Store.content w.store w₀.file.ip).length ≤
      (Store.content w₀.store w₀.file.ip).length+requested es := by
  have hlen := h.length_content
  have htotal := h.account.total
  omega

section
variable (h : Writing w₀ es w order)
include h

lemma locked (hp : holds (w.frame p) = true) : (w.store.icache w₀.file.ip).locked = true := by
  obtain ⟨o,hturns⟩ := h.turns
  rw [hturns.locked,hturns.owns.eq_some hp]
  rfl

lemma write {E : String → Prop} (hp : w.frame p = some { f with point := .locked })
    (hfits : (Store.content w₀.store w₀.file.ip).length+requested es ≤ MAXFILE*BSIZE)
    (hE : Affords E w₀.store ((w₀.store.icache w₀.file.ip).din.lacking w₀.store.disk
      (blocks ((Store.content w₀.store w₀.file.ip).length+requested es))))
    (hL : (∀ message, LogPanic message → E message) ∨ Logging w₀.file.ip w) :
    Meets E (writei w.file.ip w.file.off f.chunk) w.store fun r s => Writing w₀ (es++[.step p])
      ({ w with store := s }.goto p (some { f with point := .wrote r })) (order++[(p,f.chunk)]) ∧
      Wrote w₀.file.ip w.file.off f.chunk w.store s := by
  have hlen := h.length_content
  have hchunk := h.account.length_chunk_le hp
  obtain ⟨o,hturns⟩ := h.turns
  have hholds : holds (w.frame p) = true := by rw [hp]; rfl
  have hbehind : behind (w.frame p) = 0 := by rw [hp]; rfl
  have hoff : w.file.off = (Store.content w.store w₀.file.ip).length := by
    have hoff := hturns.off
    rwa [hturns.owns.eq_some hholds,elim_some,comp_apply,hbehind] at hoff
  have hmax : (Store.content w.store w₀.file.ip).length+f.chunk.length ≤ MAXFILE*BSIZE := by omega
  have haffords : Affords E w.store ((w.store.icache w₀.file.ip).din.lacking w.store.disk
      (blocks ((Store.content w.store w₀.file.ip).length+f.chunk.length))) := by
    refine hE.imp_right fun hfree => le_trans (Dinode.lacking_mono (n := blocks
      ((Store.content w₀.store w₀.file.ip).length+requested es)) ?_) ?_
    · simp only [blocks,BSIZE]
      omega
    · have hspent := h.spent (blocks ((Store.content w₀.store w₀.file.ip).length+requested es)) (by
        simp only [blocks,BSIZE]
        omega)
      omega
  rw [hoff,h.ip]
  refine (h.opened.writei_end hmax haffords (hL.imp_right fun hl => (hl.logs hp _).2)).mono ?_
  rintro r s ⟨rfl,hopened,hlock,hcontent,hw⟩
  refine ⟨?_,hw⟩
  exact {
    writable := h.writable
    ip := h.ip
    opened := hopened
    content := by
      rw [List.map_append,List.flatten_append,← List.append_assoc,← h.content]
      change Store.content s w₀.file.ip = Store.content w.store w₀.file.ip++[f.chunk].flatten
      rw [List.flatten_singleton,hcontent]
    turns := by
      refine ⟨o,hturns.self hholds rfl rfl hlock ?_⟩
      have hlen' := congrArg List.length hcontent
      rw [List.length_append] at hlen'
      rw [hbehind]
      change w.file.off+f.chunk.length+_ = w.file.off+0+(Store.content s w₀.file.ip).length
      omega
    account := h.account.write hp
    spent := fun m hm => by
      have hlen' : (Store.content s w₀.file.ip).length ≤ m*BSIZE := hm
      rw [hcontent,List.length_append] at hlen'
      have hspent := h.spent m (by omega)
      have hspent' := hw.spent m hlen'
      change s.freeBlocks+(w₀.store.icache w₀.file.ip).din.lacking w₀.store.disk m =
        w₀.store.freeBlocks+(s.icache w₀.file.ip).din.lacking s.disk m
      omega }

lemma move {r : Option ℕ} (hp : w.frame p = some { f with point := .wrote r })
    (hfits : (Store.content w₀.store w₀.file.ip).length+requested es ≤ MAXFILE*BSIZE) :
    Writing w₀ (es++[.step p])
      ({ w with file := w.file.advance r }.goto p (some { f with point := .moved r })) order := by
  obtain ⟨hi,rfl⟩ : f.i < f.addr.length ∧ r = some f.chunk.length := h.account.sound p _ hp
  have hholds : holds (w.frame p) = true := by rw [hp]; rfl
  have hbehind : behind (w.frame p) = f.chunk.length := by rw [hp]; rfl
  obtain ⟨o,hturns⟩ := h.turns
  have hoff := hturns.off
  rw [hturns.owns.eq_some hholds,elim_some,comp_apply,hbehind] at hoff
  have hmove : (w.file.advance (some f.chunk.length)).off = w.file.off+f.chunk.length := by
    have hlen := h.length_content_le
    have hmax : MAXFILE*BSIZE < 2^32 := by decide
    exact File.advance_off (by omega)
  exact {
    writable := (File.advance_writable ..).trans h.writable
    ip := (File.advance_ip ..).trans h.ip
    opened := h.opened
    content := h.content
    turns := by
      refine ⟨o,hturns.self hholds rfl rfl rfl ?_⟩
      change (w.file.advance _).off+0+_ = _+_+_
      rw [hmove,hbehind,Nat.add_zero]
      rfl
    account := h.account.step hp rfl rfl ⟨hi,rfl⟩
    spent := h.spent }

lemma begin (hp : w.frame p = some { f with point := .loop }) (hlt : f.i < f.addr.length) (o : ℕ) :
    Writing w₀ (es++[.step p])
      ({ w with store := { w.store with outstanding := o } }.goto p
        (some { f with point := .begun })) order :=
  h.goto w.store.logged o (by rw [hp]; rfl) rfl (h.account.step hp rfl rfl hlt)

lemma leave (hp : w.frame p = some { f with point := .loop }) (hge : ¬f.i < f.addr.length) :
    Writing w₀ (es++[.step p]) (w.goto p (some { f with point := .returning f.result })) order := by
  have hi : f.i = f.addr.length := Nat.le_antisymm (h.account.sound p _ hp) (Nat.le_of_not_lt hge)
  exact h.goto w.store.logged w.store.outstanding (by rw [hp]; rfl) rfl
    (h.account.step hp rfl rfl ⟨hi,if_pos hi⟩)

lemma acquire (hp : w.frame p = some { f with point := .begun })
    (hunlocked : (w.store.icache w₀.file.ip).locked = false) : Writing w₀ (es++[.step p])
      ({ w with
        store := withInode w.store w₀.file.ip { w.store.icache w₀.file.ip with locked := true } }.goto p
        (some { f with point := .locked })) order := by
  have hsound := h.account.sound p _ hp
  obtain ⟨o,hturns⟩ := h.turns
  obtain rfl : o = none := by
    rw [hturns.locked] at hunlocked
    exact isSome_eq_false_iff.mp hunlocked |> isNone_iff_eq_none.mp
  refine h.relock rfl (hturns.acquire rfl rfl rfl ?_ rfl ?_) (h.account.step hp rfl rfl hsound)
  · exact congrArg Inode.locked withInode_self
  · exact Opened.content_withLocked true

lemma release {r : Option ℕ} (hp : w.frame p = some { f with point := .moved r }) :
    Writing w₀ (es++[.step p])
      ({ w with
        store := withInode w.store w₀.file.ip { w.store.icache w₀.file.ip with locked := false } }.goto p
        (some { f with point := .unlocked r })) order := by
  have hsound := h.account.sound p _ hp
  obtain ⟨o,hturns⟩ := h.turns
  refine h.relock rfl (hturns.release (by rw [hp]; rfl) (by rw [hp]; rfl) rfl rfl ?_ rfl ?_)
    (h.account.step hp rfl rfl hsound)
  · exact congrArg Inode.locked withInode_self
  · exact Opened.content_withLocked false

lemma count (hp : w.frame p = some { f with point := .unlocked (some f.chunk.length) }) :
    Writing w₀ (es++[.step p]) ({ w with store := w.store.ended }.goto p
      (some { f with i := f.i+f.chunk.length, point := .loop })) order := by
  refine h.goto w.store.ended.logged w.store.ended.outstanding (by rw [hp]; rfl) rfl
    (h.account.step hp rfl rfl ?_)
  have hlen := f.length_chunk
  have hlt : f.i < f.addr.length := (h.account.sound p _ hp).1
  change f.i+f.chunk.length ≤ f.addr.length
  omega

/-- One step of a process in `filewrite`: less is left, and the log keeps its room. -/
lemma step {x : Point} (hp : w.frame p = some { f with point := x })
    (hfits : (Store.content w₀.store w₀.file.ip).length+requested es ≤ MAXFILE*BSIZE)
    (hnext : w.next p { f with point := x } = some w') :
      ∃ order', Writing w₀ (es++[.step p]) w' order' ∧
      w'.left < w.left ∧ (Logging w₀.file.ip w → Logging w₀.file.ip w') := by
  have hless : ∀ {y : Point} {w' : World π}, w'.frame =
    Function.update w.frame p (some { f with point := y }) →
      y.rank < x.rank → w'.left < w.left := World.left_lt_of_rank hp
  cases x with
  | loop =>
    simp only [World.next] at hnext
    split_ifs at hnext with hlt
    · obtain ⟨_,s,hok,rfl⟩ := World.attempt_eq_some.mp hnext
      obtain ⟨hroom,rfl⟩ := beginOp_eq_ok.mp hok
      exact ⟨order,h.begin hp hlt _,hless rfl (by simp [Point.rank]),fun hl => hl.begin hp hroom⟩
    · obtain rfl := Option.some.inj hnext
      refine ⟨order,h.leave hp hlt,hless rfl (by simp [Point.rank]),fun hl => ?_⟩
      exact hl.quiet rfl (by rw [hp]; rfl) (by rw [hp]; rfl) rfl rfl rfl rfl
  | begun =>
    simp only [World.next,h.ip] at hnext
    obtain ⟨_,s,hok,rfl⟩ := World.attempt_eq_some.mp hnext
    cases hlocked : (w.store.icache w₀.file.ip).locked with
    | true =>
      rw [h.opened.ilock_waits hlocked] at hok
      cases hok
    | false =>
      rw [h.opened.ilock_eq hlocked] at hok
      cases hok
      refine ⟨order,h.acquire hp hlocked,hless rfl (by simp [Point.rank]),fun hl => ?_⟩
      exact hl.quiet rfl (by rw [hp]; rfl) (by rw [hp]; rfl) rfl rfl rfl (pledged_withLocked true)
  | locked =>
    obtain ⟨r,s,hok,rfl⟩ := World.attempt_eq_some.mp hnext
    obtain ⟨hwriting,hwrote⟩ :=
      (h.write (E := fun _ => True) hp hfits (.inl trivial) (.inl fun _ _ => trivial)).returns r s hok
    exact ⟨_,hwriting,hless rfl (by simp [Point.rank]),fun hl => hl.write hp hwrote⟩
  | wrote r =>
    obtain rfl := Option.some.inj hnext
    refine ⟨order,h.move hp hfits,hless rfl (by simp [Point.rank]),fun hl => ?_⟩
    exact hl.quiet rfl (by rw [hp]; rfl) (by rw [hp]; rfl) rfl rfl rfl rfl
  | moved r =>
    simp only [World.next,h.ip] at hnext
    obtain ⟨_,s,hok,rfl⟩ := World.attempt_eq_some.mp hnext
    rw [h.opened.iunlock_eq (h.locked (by rw [hp]; rfl))] at hok
    cases hok
    refine ⟨order,h.release hp,hless rfl (by simp [Point.rank]),fun hl => ?_⟩
    exact hl.quiet rfl (by rw [hp]; rfl) (by rw [hp]; rfl) rfl rfl rfl (pledged_withLocked false)
  | unlocked r =>
    obtain ⟨hlt,rfl⟩ : f.i < f.addr.length ∧ r = some f.chunk.length := h.account.sound p _ hp
    simp only [World.next,Frame.chunk,if_true] at hnext
    obtain ⟨_,s,hok,rfl⟩ := World.attempt_eq_some.mp hnext
    cases hok
    refine ⟨order,h.count hp,World.left_lt hp rfl ?_,fun hl => hl.commit hp _⟩
    have hlen := f.length_chunk
    have hmax : maxChunk = 1536 := rfl
    change 7*(f.addr.length-(f.i+f.chunk.length))+7 < 7*(f.addr.length-f.i)+2
    omega
  | returning r => cases hnext

end

/-- One step: what is left becomes less, unless a process calls `filewrite`. -/
lemma event (h : Writing w₀ es w order)
    (hfits : (Store.content w₀.store w₀.file.ip).length+requested es ≤ MAXFILE*BSIZE)
    (hstep : World.Step w e w') : ∃ order', Writing w₀ (es++[e]) w' order' ∧
      ((∀ q addr, e ≠ .call q addr) → w'.left < w.left) ∧
        (Logging w₀.file.ip w → Logging w₀.file.ip w') := by
  cases hstep with
  | @call p addr hp =>
    rw [h.writable,if_pos rfl]
    refine ⟨order,
      h.goto w.store.logged w.store.outstanding (by rw [hp]; rfl) rfl (h.account.call hp addr),?_,
      fun hl => ?_⟩
    · exact fun hcall => absurd rfl (hcall p addr)
    · exact hl.quiet (p := p) (x := some ⟨addr,0,.loop⟩) rfl (by rw [hp]; rfl)
        (by rw [hp]; rfl) rfl rfl rfl rfl
  | step hp hnext =>
    obtain ⟨order',h',hless,hlogging⟩ := h.step hp hfits hnext
    exact ⟨order',h',fun _ => hless,hlogging⟩
  | @ret p f r hp hpoint =>
    have hp : w.frame p = some { f with point := .returning r } := by
      rw [hp,← hpoint]
    have hframe : (w.goto p none).frame = Function.update w.frame p none := rfl
    refine ⟨order,h.goto w.store.logged w.store.outstanding (by rw [hp]; rfl) rfl (h.account.ret hp),
      fun _ => World.left_lt hp hframe (Nat.succ_pos _),fun hl => ?_⟩
    exact hl.quiet hframe (by rw [hp]; rfl) (by rw [hp]; rfl) rfl rfl rfl rfl

lemma of_run (h₀ : w₀.Ready) (hrun : Run World.Step w₀ es w)
    (hfits : (Store.content w₀.store w₀.file.ip).length+requested es ≤ MAXFILE*BSIZE) :
    ∃ order, Writing w₀ es w order ∧ (w₀.Room → Logging w₀.file.ip w) := by
  induction hrun with
  | nil => exact ⟨[],.start h₀,fun hroom => .start hroom h₀.idle⟩
  | @snoc _ _ es e _ hstep ih =>
    have hrequested := requested_le es e
    obtain ⟨order,h,hlogging⟩ := ih (by omega)
    obtain ⟨order',h',-,hlogging'⟩ := h.event (by omega) hstep
    exact ⟨order',h',fun hroom => hlogging' (hlogging hroom)⟩

section
variable (h : Writing w₀ es w order) (hl : Logging w₀.file.ip w)
  (hfits : (Store.content w₀.store w₀.file.ip).length+requested es ≤ MAXFILE*BSIZE)
  (hfree : (w₀.store.icache w₀.file.ip).din.lacking w₀.store.disk
    (blocks ((Store.content w₀.store w₀.file.ip).length+requested es)) ≤ w₀.store.freeBlocks)
include h hfits

include hl hfree in
lemma goes_on {x : Point} (hp : w.frame p = some { f with point := x })
    (hwait : x = .begun → (w.store.icache w₀.file.ip).locked = false)
    (hlog : x = .loop → w.store.outstanding = 0) : ∃ e w', World.Work w e w' := by
  have hstep : (∃ w', w.next p { f with point := x } = some w') → ∃ e w', World.Work w e w' := by
    rintro ⟨w',hnext⟩
    exact ⟨.step p,w',.step hp hnext,fun _ _ he => by cases he⟩
  cases x with
  | returning r => exact ⟨.ret p r,_,.ret hp rfl,fun _ _ he => by cases he⟩
  | loop =>
    refine hstep ?_
    simp only [World.next]
    split_ifs
    · have hzero := hlog rfl
      refine ⟨_,World.attempt_eq_some.mpr ⟨(),_,beginOp_eq_ok.mpr ⟨?_,rfl⟩,rfl⟩⟩
      rw [lhN,hl.empty hzero,hzero]
      decide
    · exact ⟨_,rfl⟩
  | begun =>
    refine hstep ?_
    simp only [World.next,h.ip]
    exact ⟨_,World.attempt_eq_some.mpr ⟨_,_,h.opened.ilock_eq (hwait rfl),rfl⟩⟩
  | locked =>
    obtain ⟨r,s,hok,-⟩ := (h.write (E := fun _ => False) hp hfits (.inr hfree) (.inr hl)).exists_eq
    exact hstep ⟨_,World.attempt_eq_some.mpr ⟨_,_,hok,rfl⟩⟩
  | wrote r => exact hstep ⟨_,rfl⟩
  | moved r =>
    refine hstep ?_
    simp only [World.next,h.ip]
    exact ⟨_,World.attempt_eq_some.mpr ⟨_,_,h.opened.iunlock_eq (h.locked (by rw [hp]; rfl)),rfl⟩⟩
  | unlocked r =>
    obtain ⟨-,rfl⟩ : f.i < f.addr.length ∧ r = some f.chunk.length := h.account.sound p _ hp
    refine hstep ?_
    simp only [World.next,Frame.chunk,if_true]
    exact ⟨_,World.attempt_eq_some.mpr ⟨_,_,endOp_eq,rfl⟩⟩

include hl hfree in
/-- The process that has locked the inode can go on, or else one that is in an operation; if there
is none, the log is empty. -/
lemma progress (hp : w.frame p ≠ none) : ∃ e w', World.Work w e w' := by
  cases hlocked : (w.store.icache w₀.file.ip).locked with
  | true =>
    obtain ⟨o,hturns⟩ := h.turns
    have hsome := hturns.locked
    rw [hlocked,eq_comm,hturns.owns.isSome_iff] at hsome
    obtain ⟨q,hq⟩ := hsome
    rw [comp_apply] at hq
    cases hf : w.frame q with
    | none =>
      rw [hf] at hq
      cases hq
    | some f =>
      rw [hf,holds,elim_some] at hq
      refine h.goes_on hl hfits hfree hf (fun hbegun => ?_) fun hloop => ?_
      · rw [hbegun] at hq
        cases hq
      · rw [hloop] at hq
        cases hq
  | false =>
    by_cases hrunning : ∃ q, running (w.frame q) ≠ 0
    · obtain ⟨q,hq⟩ := hrunning
      cases hf : w.frame q with
      | none =>
        rw [hf] at hq
        exact absurd rfl hq
      | some f =>
        refine h.goes_on hl hfits hfree hf (fun _ => hlocked) fun hloop => ?_
        rw [hf,running,elim_some,hloop] at hq
        exact absurd rfl hq
    · push Not at hrunning
      obtain ⟨f,hf⟩ := ne_none_iff_exists'.mp hp
      refine h.goes_on hl hfits hfree hf (fun _ => hlocked) fun _ => ?_
      rw [hl.outstanding]
      exact sum_eq_zero fun q _ => hrunning q

lemma length_le {es' : List (Event π)} (hrun : Run World.Work w es' w') :
    (∃ order', Writing w₀ (es++es') w' order') ∧ es'.length+w'.left ≤ w.left := by
  induction hrun with
  | nil => exact ⟨⟨order,by rwa [List.append_nil]⟩,(Nat.zero_add _).le⟩
  | snoc hwork hlast ih =>
    obtain ⟨⟨order',h'⟩,hlen⟩ := ih
    obtain ⟨order'',h'',hless,-⟩ := h'.event (by rwa [(World.asked_work hwork es).1]) hlast.1
    have hleft := hless hlast.2
    rw [← List.append_assoc,List.length_append,List.length_singleton]
    exact ⟨⟨order'',h''⟩,by omega⟩

end

lemma ends (h : Writing w₀ es w order) (hl : Logging w₀.file.ip w)
    (hfits : (Store.content w₀.store w₀.file.ip).length+requested es ≤ MAXFILE*BSIZE)
    (hfree : (w₀.store.icache w₀.file.ip).din.lacking w₀.store.disk
      (blocks ((Store.content w₀.store w₀.file.ip).length+requested es)) ≤ w₀.store.freeBlocks) :
    ∃ es' w', Run World.Work w es' w' ∧ ∀ p, w'.frame p = none := by
  -- by induction on what is left
  induction hn : w.left using Nat.strong_induction_on generalizing w es order with
  | _ n ih =>
    by_cases hidle : ∀ p, w.frame p = none
    · exact ⟨[],w,.nil w,hidle⟩
    push Not at hidle
    obtain ⟨p,hp⟩ := hidle
    obtain ⟨e,w₁,hwork⟩ := h.progress hl hfits hfree hp
    obtain ⟨order',h',hless,hlogging⟩ := h.event hfits hwork.1
    have hsame : requested (es++[e]) = requested es := requested_work hwork.2
    rw [← hsame] at hfits hfree
    obtain ⟨es',w',hrun,hend⟩ := ih _ (hn ▸ hless hwork.2) h' (hlogging hl) hfits hfree rfl
    exact ⟨e::es',w',.cons hwork hrun,hend⟩

end Writing

/-- Processes that write through one open file, which is at its end, lose nothing: the file is what
it was, followed by the chunks of their calls, those of one process in order. When all have
returned, every chunk is there, the offset is at the end again, and every call has returned the
number of its bytes. They do no more than `left` steps without a new call, and if there are blocks
and room in the log for all of it, some process can go on until all have returned. -/
theorem shared_writers {w₀ w : World π} {es : List (Event π)} (h₀ : w₀.Ready)
    (hrun : Run World.Step w₀ es w)
    (hfits : (content w₀.store w₀.file.ip).length+requested es ≤ MAXFILE*BSIZE) :
    (∃ order : List (π×List Byte),
      content w.store w.file.ip = content w₀.store w₀.file.ip++(order.map Prod.snd).flatten ∧
      (∀ p, chunksOf p order <+: (calledBy p es).flatMap pieces) ∧
      ((∀ p, w.frame p = none) → (∀ p, chunksOf p order = (calledBy p es).flatMap pieces) ∧
        w.file.off = (content w.store w.file.ip).length ∧
        ∀ p, returnedBy p es = (calledBy p es).map fun addr => some addr.length)) ∧
    (∀ es' w', Run World.Work w es' w' → es'.length ≤ w.left) ∧
    (w₀.Room → (w₀.store.icache w₀.file.ip).din.lacking w₀.store.disk
        (blocks ((content w₀.store w₀.file.ip).length+requested es)) ≤ w₀.store.freeBlocks →
      ((∃ p, w.frame p ≠ none) → ∃ e w', World.Work w e w') ∧
      ∃ es' w', Run World.Work w es' w' ∧ ∀ p, w'.frame p = none) := by
  obtain ⟨order,h,hlogging⟩ := Writing.of_run h₀ hrun hfits
  rw [h.ip]
  refine ⟨⟨order,h.content,fun p => ⟨_,h.account.chunks p⟩,fun hidle => ?_⟩,fun es' w' hwork => ?_,
    fun hroom hfree => ?_⟩
  · refine ⟨fun p => (h.account.finish (hidle p)).1,?_,fun p => (h.account.finish (hidle p)).2⟩
    obtain ⟨o,hturns⟩ := h.turns
    have hoff := hturns.off
    cases o with
    | none => exact hoff
    | some q =>
      have hq := (hturns.owns q).mpr rfl
      rw [comp_apply,hidle q] at hq
      cases hq
  · exact (Nat.le_add_right ..).trans (h.length_le hfits hwork).2
  · refine ⟨?_,h.ends (hlogging hroom) hfits hfree⟩
    rintro ⟨p,hp⟩
    exact h.progress (hlogging hroom) hfits hfree hp

end

/-- An empty file that has been opened for writing, and two processes. -/
def smallWorld : World (Fin 2) where
  store := { withInode (small T_FILE) 1
    { (small T_FILE).icache 1 with locked := false } with logged := [], outstanding := 0 }
  file := ⟨true,1,0⟩
  frame _ := none

lemma smallWorld_ready : smallWorld.Ready where
  writable := rfl
  opened := by
    have hopened : Opened (small T_FILE) 1 := ⟨small_held T_FILE,rfl,le_rfl,by decide⟩
    exact (hopened.withLocked false).relog [] 0
  unlocked := congrArg Inode.locked withInode_self
  off := by
    have hcontent : content smallWorld.store 1 = content (small T_FILE) 1 :=
      Opened.content_withLocked false
    exact (congrArg List.length hcontent).symm
  idle _ := rfl

lemma smallWorld_room : smallWorld.Room := ⟨rfl,rfl,by decide,by decide⟩

/-- Two processes write at the same time, and both come to the end. -/
theorem shared_writers_small :
    ∃ (es : List (Event (Fin 2))) (w : World (Fin 2)) (order : List (Fin 2×List Byte)),
    Run World.Step smallWorld ([.call 0 [7,8],.call 1 [9]]++es) w ∧ (∀ p, w.frame p = none) ∧
    content w.store w.file.ip = (order.map Prod.snd).flatten ∧ chunksOf 0 order = [[7,8]] ∧
      chunksOf 1 order = [[9]] ∧
    w.file.off = (content w.store w.file.ip).length := by
  have hcalls : Run World.Step smallWorld ([]++[.call 0 [7,8]]++[.call 1 [9]]) _ :=
    .snoc (.snoc (.nil _) (.call [7,8] rfl)) (.call [9] rfl)
  obtain ⟨-,-,hend⟩ := shared_writers smallWorld_ready hcalls (by decide)
  obtain ⟨-,es,w,hwork,hidle⟩ := hend smallWorld_room (by decide)
  have hrun := hcalls.append (hwork.mono fun _ _ _ h => h.1)
  obtain ⟨hrequested,hcalled⟩ := World.asked_work hwork [.call 0 [7,8],.call 1 [9]]
  obtain ⟨⟨order,hcontent,-,hfinal⟩,-⟩ := shared_writers smallWorld_ready hrun (by
    change _+requested ([.call 0 [7,8],.call 1 [9]]++es) ≤ _
    rw [hrequested]
    decide)
  obtain ⟨hchunks,hoff,-⟩ := hfinal hidle
  have hpieces : ∀ {p : Fin 2} {addr : List Byte}, calledBy p [.call 0 [7,8],.call 1 [9]] =
    [addr] → addr ≠ [] →
      addr.length ≤ maxChunk → chunksOf p order = [addr] := by
    intro p addr hcall hne hlen
    refine (hchunks p).trans ((congrArg (List.flatMap pieces) ((hcalled p).trans hcall)).trans ?_)
    rw [List.flatMap_singleton,pieces_of_ne_nil hne,List.take_of_length_le hlen,
      List.drop_of_length_le hlen,pieces_nil]
  exact ⟨es,w,order,hrun,hidle,hcontent,hpieces rfl (by decide) (by decide),
    hpieces rfl (by decide) (by decide),hoff⟩

end JacobiXv6.FileSystem
