import JacobiXv6.Library.Counters
import JacobiXv6.Library.Memory
import JacobiXv6.Library.Run

/-! The line discipline of the console. `consoleintr` edits the last line of a ring and commits it,
`consoleread` takes what has been committed, and both work under `cons.lock`. They are compared with
an editor that has lists instead of a ring and counters that never wrap. -/
namespace JacobiXv6.Kernel
open Library Function List

def INPUT_BUF : ℕ := 128

/-- `C('D')`, `C('H')`, `C('P')` and `C('U')`. -/
def ctrlD : Byte := 4
def ctrlH : Byte := 8
def ctrlP : Byte := 16
def ctrlU : Byte := 21

def newline : Byte := 10
def carriageReturn : Byte := 13
def delete : Byte := 0x7f

structure Input where
  buf : ℕ → Byte
  r : BitVec 32
  w : BitVec 32
  e : BitVec 32

namespace Input

/-- The loop of kill line, at most so many rounds. -/
def rubout : ℕ → Input → Input
  | 0, i => i
  | k+1, i =>
    if i.e ≠ i.w ∧ i.buf ((i.e-1).toNat%INPUT_BUF) ≠ newline then rubout k { i with e := i.e-1 } else i

/-- The loop ends when the edit index has come to the write index at the latest. -/
def killLine (i : Input) : Input := i.rubout (i.e-i.w).toNat

def backspace (i : Input) : Input := if i.e ≠ i.w then { i with e := i.e-1 } else i

/-- A character is stored, and the line committed if it is complete or the buffer full. The second
component says whether the readers are woken. -/
def store (i : Input) (c : Byte) : Input×Bool :=
  let i' := { i with buf := update i.buf (i.e.toNat%INPUT_BUF) c, e := i.e+1 }
  if c = newline ∨ c = ctrlD ∨ i'.e = i'.r+BitVec.ofNat 32 INPUT_BUF
    then ({ i' with w := i'.e },true) else (i',false)

/-- One round of the loop of `consoleintr`. -/
def key (i : Input) (c : Byte) : Input×Bool :=
  if c = ctrlP then (i,false)
  else if c = ctrlU then (i.killLine,false)
  else if c = ctrlH ∨ c = delete then (i.backspace,false)
  else if c ≠ 0 ∧ (i.e-i.r).toNat < INPUT_BUF then i.store (if c = carriageReturn then newline else c)
  else (i,false)

end Input

/-- Where a process is in `consoleread`: outside, before `acquire`, at the head of the loop with the
lock, in `sleep`, and woken in `sleep` but without the lock. `n` bytes are still to be read of
`target`, and `dst` are those that have been copied. -/
inductive ReadPc
  | idle
  | enter (n : ℤ)
  | loop (n target : ℤ) (dst : List Byte)
  | asleep (n target : ℤ) (dst : List Byte)
  | woken (n target : ℤ) (dst : List Byte)

/-- Who has `cons.lock`. -/
inductive ConsHolder (n : ℕ)
  | intr
  | reader (i : Fin n)
  deriving DecidableEq

structure Console (n : ℕ) where
  input : Input
  lock : Option (ConsHolder n)
  killed : Fin n → Bool
  pc : Fin n → ReadPc

/-- An interrupt begins and takes the lock, its handler gets a key or no more of them; a process
calls `consoleread`, makes the next step in it, or is killed. -/
inductive ConsAct (n : ℕ)
  | intr
  | key (c : Byte)
  | done
  | read (i : Fin n) (n : ℤ)
  | step (i : Fin n)
  | kill (i : Fin n)

/-- A call returns. -/
structure Returned (n : ℕ) where
  proc : Fin n
  target : ℤ
  value : ℤ
  dst : List Byte
  deriving DecidableEq

/-- What can be seen of a step: the bytes that have left the buffer, and the call that returns. -/
structure ConsOut (n : ℕ) where
  taken : List (Fin n×Byte)
  returned : Option (Returned n)
  deriving DecidableEq

namespace ReadPc

/-- What `wakeup` does to a process that sleeps on `&input.r`. -/
def wake : ReadPc → ReadPc
  | asleep n target dst => woken n target dst
  | pc => pc

/-- What has been copied in the call that is not finished. -/
def copied : ReadPc → List Byte
  | loop _ _ dst | asleep _ _ dst | woken _ _ dst => dst
  | _ => []

end ReadPc

namespace Console
variable {n : ℕ}

def goto (s : Console n) (i : Fin n) (pc : ReadPc) : Console n := { s with pc := update s.pc i pc }

/-- The lock is given back and the call returns `value`. -/
def finish (s : Console n) (i : Fin n) (target value : ℤ) (dst : List Byte)
    (taken : List (Fin n×Byte)) :
    Console n×ConsOut n :=
  ({ s.goto i .idle with lock := none },⟨taken,some ⟨i,target,value,dst⟩⟩)

/-- One round of the loop of `consoleread`. -/
def readRound (s : Console n) (i : Fin n) (k target : ℤ) (dst : List Byte) : Console n×ConsOut n :=
  if 0 < k then
    if s.input.r = s.input.w then
      if s.killed i = true then s.finish i target (-1) dst []
      else ({ s.goto i (.asleep k target dst) with lock := none },⟨[],none⟩)
    else
      let c := s.input.buf (s.input.r.toNat%INPUT_BUF)
      let s' := { s with input := { s.input with r := s.input.r+1 } }
      if c = ctrlD then
        -- the mark is saved for the next call if this one has something
        if k < target then { s' with input := { s'.input with r := s'.input.r-1 } }.finish i target
          (target-k) dst []
        else s'.finish i target (target-k) dst [(i,c)]
      else if c = newline then s'.finish i target (target-(k-1)) (dst++[c]) [(i,c)]
      else (s'.goto i (.loop (k-1) target (dst++[c])),⟨[(i,c)],none⟩)
  else s.finish i target (target-k) dst []

/-- The next step of process `i` in `consoleread`. -/
def readStep (s : Console n) (i : Fin n) : Option (Console n×ConsOut n) :=
  match s.pc i with
  | .enter k => if s.lock = none
    then some ({ s.goto i (.loop k k []) with lock := some (.reader i) },⟨[],none⟩) else none
  | .woken k target dst =>
    if s.lock = none
      then some ({ s.goto i (.loop k target dst) with lock := some (.reader i) },⟨[],none⟩)
      else none
  | .loop k target dst => some (s.readRound i k target dst)
  | _ => none

def next (s : Console n) : ConsAct n → Option (Console n×ConsOut n)
  | .intr => if s.lock = none then some ({ s with lock := some .intr },⟨[],none⟩) else none
  | .key c =>
    if s.lock = some .intr then
      some ({ s with
        input := (s.input.key c).1
        pc := if (s.input.key c).2 = true then fun i => (s.pc i).wake else s.pc },⟨[],none⟩)
    else none
  | .done => if s.lock = some .intr then some ({ s with lock := none },⟨[],none⟩) else none
  | .read i k =>
    match s.pc i with
    | .idle => some (s.goto i (.enter k),⟨[],none⟩)
    | _ => none
  | .step i => s.readStep i
  | .kill i =>
    some ({ s with killed := update s.killed i true, pc := update s.pc i (s.pc i).wake },⟨[],none⟩)

/-- A step is labelled with what is done and what can be seen of it. -/
def Step (s : Console n) (l : ConsAct n×ConsOut n) (s' : Console n) : Prop := s.next l.1 = some (s',l.2)

def initial (buf : ℕ → Byte) : Console n where
  input := ⟨buf,0,0,0⟩
  lock := none
  killed _ := false
  pc _ := .idle

end Console

/-! ### The reference editor -/

/-- Everything that was ever committed, the line that is being typed, and how much of the committed
input has been taken. -/
structure Editor where
  committed : List Byte
  line : List Byte
  taken : ℕ

namespace Editor
variable {n : ℕ}

def outstanding (ed : Editor) : ℕ := ed.committed.length-ed.taken+ed.line.length

def commit (ed : Editor) : Editor := { ed with committed := ed.committed++ed.line, line := [] }

def insert (ed : Editor) (c : Byte) : Editor :=
  let ed' := { ed with line := ed.line++[c] }
  if c = newline ∨ c = ctrlD ∨ ed'.outstanding = INPUT_BUF then ed'.commit else ed'

/-- A character is dropped only when `INPUT_BUF` of them are outstanding; 0 is no character. -/
def key (ed : Editor) (c : Byte) : Editor :=
  if c = ctrlP then ed
  else if c = ctrlU then { ed with line := [] }
  else if c = ctrlH ∨ c = delete then { ed with line := ed.line.dropLast }
  else if c ≠ 0 ∧ ed.outstanding < INPUT_BUF then ed.insert (if c = carriageReturn then newline else c)
  else ed

/-- The editor sees the keys, and how much the readers take. -/
def see (ed : Editor) : ConsAct n×ConsOut n → Editor
  | (.key c,_) => ed.key c
  | (_,out) => { ed with taken := ed.taken+out.taken.length }

def after (ls : List (ConsAct n×ConsOut n)) : Editor := ls.foldl see ⟨[],[],0⟩

lemma after_append (ls : List (ConsAct n×ConsOut n)) (l : ConsAct n×ConsOut n) :
    after (ls++[l]) = (after ls).see l := by
  rw [after,foldl_append]
  rfl

lemma key_committed (ed : Editor) (c : Byte) :
    (∃ more, (ed.key c).committed = ed.committed++more) ∧ (ed.key c).taken = ed.taken := by
  have hinsert : ∀ c, (∃ more, (ed.insert c).committed = ed.committed++more) ∧
      (ed.insert c).taken = ed.taken := by
    intro c
    unfold insert
    dsimp only
    split_ifs
    · exact ⟨⟨_,rfl⟩,rfl⟩
    · exact ⟨⟨[],(append_nil _).symm⟩,rfl⟩
  unfold key
  split_ifs
  · exact ⟨⟨[],(append_nil _).symm⟩,rfl⟩
  · exact ⟨⟨[],(append_nil _).symm⟩,rfl⟩
  · exact ⟨⟨[],(append_nil _).symm⟩,rfl⟩
  · exact hinsert _
  · exact hinsert _
  · exact ⟨⟨[],(append_nil _).symm⟩,rfl⟩

lemma see_of_ne {a : ConsAct n} (ha : ∀ c, a ≠ .key c) (ed : Editor) (out : ConsOut n) :
    ed.see (a,out) = { ed with taken := ed.taken+out.taken.length } := by
  cases a with
  | key c => exact absurd rfl (ha c)
  | _ => rfl

end Editor

/-- The ring holds what is committed and not taken, followed by the line. -/
structure Agrees (i : Input) (ed : Editor) : Prop where
  ring : Counted INPUT_BUF i.buf i.r i.e (ed.committed++ed.line) ed.taken
  w : i.w = BitVec.ofNat 32 ed.committed.length
  le : ed.taken ≤ ed.committed.length
  plain : newline ∉ ed.line

namespace Agrees
variable {i : Input} {ed : Editor} {c : Byte}

lemma start (buf : ℕ → Byte) : Agrees ⟨buf,0,0,0⟩ ⟨[],[],0⟩ :=
  ⟨Counted.empty INPUT_BUF buf,rfl,le_rfl,nofun⟩

lemma room (h : Agrees i ed) : ed.outstanding ≤ INPUT_BUF := by
  have hroom := h.ring.room
  have hle := h.le
  rw [length_append] at hroom
  unfold Editor.outstanding
  omega

lemma outstanding_eq (h : Agrees i ed) : (i.e-i.r).toNat = ed.outstanding := by
  have hle := h.le
  rw [h.ring.toNat_sub (by decide),length_append]
  unfold Editor.outstanding
  omega

lemma committed_eq (h : Agrees i ed) : (i.w-i.r).toNat = ed.committed.length-ed.taken := by
  rw [h.w]
  exact (h.ring.of_append h.le).toNat_sub (by decide)

lemma line_eq (h : Agrees i ed) : (i.e-i.w).toNat = ed.line.length := by
  have hroom := h.room
  unfold Editor.outstanding at hroom
  rw [h.ring.nwrite,h.w,length_append]
  refine Counted.toNat_ofNat_sub _ (lt_of_le_of_lt (b := INPUT_BUF) ?_ (by decide))
  omega

lemma edited_iff (h : Agrees i ed) : i.e ≠ i.w ↔ ed.line ≠ [] := by
  have hroom := h.room
  unfold Editor.outstanding at hroom
  refine not_congr ?_
  rw [h.ring.nwrite,h.w,length_append,eq_comm,Counted.ofNat_inj (Nat.le_add_right ..),left_eq_add,
    length_eq_zero_iff]
  refine Nat.add_lt_add_left (lt_of_le_of_lt (b := INPUT_BUF) ?_ (by decide)) _
  omega

lemma unput {committed line : List Byte} {taken : ℕ} (h : Agrees i ⟨committed,line++[c],taken⟩) :
    i.buf ((i.e-1).toNat%INPUT_BUF) = c ∧ Agrees { i with e := i.e-1 } ⟨committed,line,taken⟩ := by
  have hring := h.ring
  have hle := h.le
  dsimp only at hring hle
  rw [← append_assoc] at hring
  obtain ⟨hlast,hring⟩ := hring.unput (by decide) (by rw [length_append]; omega)
  exact ⟨hlast,hring,h.w,hle,fun hm => h.plain (mem_append_left _ hm)⟩

lemma backspace (h : Agrees i ed) : Agrees i.backspace { ed with line := ed.line.dropLast } := by
  obtain ⟨committed,line,taken⟩ := ed
  unfold Input.backspace
  induction line using List.reverseRecOn with
  | nil =>
    rw [if_neg (by rw [h.edited_iff]; exact fun hne => hne rfl)]
    exact h
  | append_singleton line c _ =>
    rw [if_pos (h.edited_iff.mpr (by simp)),dropLast_concat]
    exact h.unput.2

lemma rubout (h : Agrees i ed) : Agrees (i.rubout ed.line.length) { ed with line := [] } := by
  obtain ⟨committed,line,taken⟩ := ed
  induction line using List.reverseRecOn generalizing i with
  | nil => exact h
  | append_singleton line c ih =>
    obtain ⟨hlast,hrest⟩ := h.unput
    have hc : c ≠ newline := by
      rintro rfl
      exact h.plain (by simp)
    rw [length_append,length_singleton,Input.rubout,
      if_pos ⟨h.edited_iff.mpr (by simp),by rw [hlast]; exact hc⟩]
    exact ih hrest

lemma killLine (h : Agrees i ed) : Agrees i.killLine { ed with line := [] } := by
  unfold Input.killLine
  rw [h.line_eq]
  exact h.rubout

lemma store (h : Agrees i ed) (hroom : ed.outstanding < INPUT_BUF) :
    Agrees (i.store c).1 (ed.insert c) := by
  have hle := h.le
  have hput := h.ring.put (by decide) c (by
    rw [length_append]
    unfold Editor.outstanding at hroom
    omega)
  have hlen : ((ed.committed++ed.line)++[c]).length = ed.committed.length+(ed.line++[c]).length := by
    rw [append_assoc,length_append]
  have hfull : i.e+1 = i.r+BitVec.ofNat 32 INPUT_BUF ↔
      Editor.outstanding { ed with line := ed.line++[c] } = INPUT_BUF := by
    rw [hput.isFull_iff (by decide),hlen]
    unfold Editor.outstanding
    dsimp only
    omega
  rw [append_assoc] at hput
  unfold Input.store Editor.insert
  dsimp only
  simp only [hfull]
  split_ifs with hcommit
  · refine ⟨?_,?_,?_,nofun⟩
    · rw [Editor.commit,append_nil]
      exact hput
    · exact hput.nwrite
    · rw [Editor.commit,length_append]
      exact hle.trans (Nat.le_add_right ..)
  · refine ⟨hput,h.w,hle,?_⟩
    intro hm
    obtain hm | hm := mem_append.mp hm
    · exact h.plain hm
    · exact hcommit (.inl (mem_singleton.mp hm).symm)

lemma take (h : Agrees i ed) (hne : i.r ≠ i.w) :
    ed.committed[ed.taken]? = some (i.buf (i.r.toNat%INPUT_BUF)) ∧
      Agrees { i with r := i.r+1 } { ed with taken := ed.taken+1 } := by
  have hle := h.le
  have hlt : ed.taken < ed.committed.length := by
    refine lt_of_le_of_ne hle fun heq => hne ?_
    rw [h.w,h.ring.nread,heq]
  obtain ⟨hfirst,hring⟩ := h.ring.take (by decide) (by rw [length_append]; omega)
  refine ⟨?_,hring,h.w,hlt,h.plain⟩
  rw [hfirst,getElem_append_left hlt,getElem?_eq_getElem hlt]

lemma key (h : Agrees i ed) : Agrees (i.key c).1 (ed.key c) := by
  unfold Input.key Editor.key
  rw [h.outstanding_eq]
  split_ifs with hp hu hh hc
  · exact h
  · exact h.killLine
  · exact h.backspace
  · exact h.store hc.2
  · exact h.store hc.2
  · exact h

end Agrees

/-! ### Editing -/

/-- Characters are removed behind the write index and nowhere else. -/
structure Erases (i i' : Input) : Prop where
  buf : i'.buf = i.buf
  r : i'.r = i.r
  w : i'.w = i.w
  shorter : (i'.e-i'.w).toNat ≤ (i.e-i.w).toNat

lemma toNat_pred_sub {e w : BitVec 32} (h : e ≠ w) : (e-1-w).toNat+1 = (e-w).toNat := by
  have hne : (e-w).toNat ≠ 0 := by
    intro hz
    exact h (by bv_omega)
  bv_omega

namespace Input
variable {i : Input}

lemma erases_rubout (k : ℕ) : Erases i (i.rubout k) := by
  induction k generalizing i with
  | zero => exact ⟨rfl,rfl,rfl,le_rfl⟩
  | succ k ih =>
    unfold rubout
    split_ifs with h
    · obtain ⟨hbuf,hr,hw,hshort⟩ := ih (i := { i with e := i.e-1 })
      have hpred := toNat_pred_sub h.1
      exact ⟨hbuf,hr,hw,hshort.trans (by dsimp only; omega)⟩
    · exact ⟨rfl,rfl,rfl,le_rfl⟩

lemma erases_backspace : Erases i i.backspace := by
  unfold backspace
  split_ifs with h
  · have hpred := toNat_pred_sub h
    exact ⟨rfl,rfl,rfl,by dsimp only; omega⟩
  · exact ⟨rfl,rfl,rfl,le_rfl⟩

/-- The loop of kill line has come to its end. -/
theorem killLine_ends : i.killLine.e = i.killLine.w ∨
    i.killLine.buf ((i.killLine.e-1).toNat%INPUT_BUF) = newline := by
  unfold killLine
  generalize hk : (i.e-i.w).toNat = k
  induction k generalizing i with
  | zero =>
    left
    change i.e = i.w
    bv_omega
  | succ k ih =>
    unfold rubout
    split_ifs with h
    · have hpred := toNat_pred_sub h.1
      exact ih (i := { i with e := i.e-1 }) (by dsimp only; omega)
    · by_contra hno
      rw [not_or] at hno
      exact h hno

end Input

/-! ### What a step does -/

/-- What the processes have copied is counted, and has no end-of-file mark. -/
def ReadPc.Wf : ReadPc → Prop
  | loop k target dst | asleep k target dst | woken k target dst => k+dst.length = target ∧ ctrlD ∉ dst
  | _ => True

namespace ReadPc
variable {pc pc' : ReadPc}

lemma wf_of_wake (h : pc' = pc ∨ pc' = pc.wake) (hwf : pc.Wf) : pc'.Wf := by
  obtain rfl | rfl := h
  · exact hwf
  · cases pc <;> exact hwf

lemma copied_of_wake (h : pc' = pc ∨ pc' = pc.wake) : pc'.copied = pc.copied := by
  obtain rfl | rfl := h
  · rfl
  · cases pc <;> rfl

lemma idle_of_wake (h : pc' = pc ∨ pc' = pc.wake) (hidle : pc = .idle) : pc' = .idle := by
  subst hidle
  obtain rfl | rfl := h
  · rfl
  · rfl

end ReadPc

namespace ConsOut
variable {n : ℕ}

/-- The bytes that process `j` gets in a step. -/
def bytes (out : ConsOut n) (j : Fin n) : List Byte :=
  (out.taken.filter fun x => x.1 = j ∧ x.2 ≠ ctrlD).map Prod.snd

/-- The bytes that a call of process `j` returns. -/
def given (out : ConsOut n) (j : Fin n) : List Byte :=
  match out.returned with
  | some ret => if ret.proc = j then ret.dst else []
  | none => []

end ConsOut

namespace Console
variable {n : ℕ} {s s' : Console n} {i : Fin n} {l : ConsAct n×ConsOut n}

lemma goto_pc (s : Console n) (i : Fin n) (pc : ReadPc) : (s.goto i pc).pc i = pc := update_self ..

lemma goto_pc_of_ne {j : Fin n} {pc : ReadPc} (hne : j ≠ i) : (s.goto i pc).pc j = s.pc j :=
  update_of_ne hne _ _

/-- What a call returns, and that a mark for the end of the file is what makes it return nothing. -/
structure Fits (s : Console n) (out : ConsOut n) : Prop where
  value : ∀ ret, out.returned = some ret → ret.value = ret.dst.length ∨ ret.value = -1 ∧
    s.killed ret.proc = true
  mark : ∀ j, (j,ctrlD) ∈ out.taken → ∃ target, out.returned = some ⟨j,target,0,[]⟩
  zero : ∀ ret, out.returned = some ret → 0 < ret.target → ret.value = 0 →
    out.taken = [(ret.proc,ctrlD)]

/-- What a step does to the buffer, and for whom. -/
structure Moves (s : Console n) (l : ConsAct n×ConsOut n) (s' : Console n) : Prop where
  input : (∃ c, l.1 = .key c ∧ l.2.taken = [] ∧ s'.input = (s.input.key c).1) ∨ ((∀ c, l.1 ≠ .key c) ∧
    (l.2.taken = [] ∧ s'.input = s.input ∨ ∃ j, s.input.r ≠ s.input.w ∧
      l.2.taken = [(j,s.input.buf (s.input.r.toNat%INPUT_BUF))] ∧
        s'.input = { s.input with r := s.input.r+1 }))
  killed : ∀ j, s'.killed j = false → s.killed j = false
  wf : ∀ j, (s'.pc j).Wf
  copied : ∀ j, s'.killed j = false → l.2.given j++(s'.pc j).copied = (s.pc j).copied++l.2.bytes j
  idle : ∀ j, s.pc j = .idle → (∀ x ∈ l.2.taken, x.1 ≠ j) ∧
    (∀ ret, l.2.returned = some ret → ret.proc ≠ j) ∧
    (s'.pc j = .idle ∨ ∃ k, l.1 = .read j k)
  fits : Fits s l.2

lemma Moves.quiet {a : ConsAct n} (ha : ∀ c, a ≠ .key c) (hinput : s'.input = s.input)
    (hkilled : ∀ j, s'.killed j = false → s.killed j = false) (hwf : ∀ j, (s'.pc j).Wf)
    (hcopied : ∀ j, (s'.pc j).copied = (s.pc j).copied)
    (hidle : ∀ j, s.pc j = .idle → s'.pc j = .idle ∨ ∃ k, a = .read j k) :
    Moves s (a,⟨[],none⟩) s' where
  input := .inr ⟨ha,.inl ⟨rfl,hinput⟩⟩
  killed := hkilled
  wf := hwf
  copied j _ := (hcopied j).trans (append_nil _).symm
  idle j hj := ⟨nofun,nofun,hidle j hj⟩
  fits := ⟨nofun,nofun,nofun⟩

variable {out : ConsOut n}

/-- Only process `i` is concerned by a step in its call. -/
lemma Moves.reader {pc₁ : ReadPc} (hp : s.pc i ≠ .idle) (hpc : s'.pc = update s.pc i pc₁)
    (hwfs : ∀ j, (s.pc j).Wf) (hwf : pc₁.Wf) (hkilled : s'.killed = s.killed)
    (hinput : out.taken = [] ∧ s'.input = s.input ∨ s.input.r ≠ s.input.w ∧
      out.taken = [(i,s.input.buf (s.input.r.toNat%INPUT_BUF))] ∧
        s'.input = { s.input with r := s.input.r+1 })
    (hret : ∀ ret, out.returned = some ret → ret.proc = i)
    (hcopied : s.killed i = false → out.given i++pc₁.copied = (s.pc i).copied++out.bytes i)
      (hfits : Fits s out) :
    Moves s (.step i,out) s' := by
  have htaken : ∀ x ∈ out.taken, x.1 = i := by
    intro x hx
    obtain ⟨he,-⟩ | ⟨-,he,-⟩ := hinput
    · rw [he] at hx
      exact nomatch hx
    · rw [he] at hx
      rw [mem_singleton.mp hx]
  refine ⟨.inr ⟨nofun,?_⟩,fun j hj => hkilled ▸ hj,?_,?_,?_,hfits⟩
  · obtain he | ⟨hne,he⟩ := hinput
    · exact .inl he
    · exact .inr ⟨i,hne,he⟩
  · intro j
    rw [hpc]
    obtain rfl | hne := eq_or_ne j i
    · rw [update_self]
      exact hwf
    · rw [update_of_ne hne]
      exact hwfs j
  · intro j hj
    rw [hkilled] at hj
    rw [hpc]
    obtain rfl | hne := eq_or_ne j i
    · rw [update_self]
      exact hcopied hj
    · have hgiven : out.given j = [] := by
        unfold ConsOut.given
        split
        case h_1 ret he => rw [if_neg (by rw [hret ret he]; exact hne.symm)]
        case h_2 => rfl
      have hbytes : out.bytes j = [] := by
        unfold ConsOut.bytes
        rw [filter_eq_nil_iff.mpr,map_nil]
        intro x hx
        simp [htaken x hx,hne.symm]
      rw [update_of_ne hne,hgiven,hbytes,append_nil,nil_append]
  · intro j hj
    have hne : i ≠ j := by
      rintro rfl
      exact hp hj
    refine ⟨fun x hx =>
      by rw [htaken x hx]; exact hne,fun ret he => by rw [hret ret he]; exact hne,.inl ?_⟩
    rw [hpc,update_of_ne hne.symm]
    exact hj

variable {dst : List Byte}

lemma Fits.returns {taken : List (Fin n×Byte)} {target value : ℤ}
    (hvalue : value = dst.length ∨ value = -1 ∧ s.killed i = true)
    (hmark : ∀ j, (j,ctrlD) ∈ taken → j = i ∧ value = 0 ∧ dst = [])
    (hzero : 0 < target → value = 0 → taken = [(i,ctrlD)]) :
    Fits s ⟨taken,some ⟨i,target,value,dst⟩⟩ where
  value := by
    rintro _ ⟨⟩
    exact hvalue
  mark := by
    intro j hj
    obtain ⟨rfl,rfl,rfl⟩ := hmark j hj
    exact ⟨target,rfl⟩
  zero := by
    rintro _ ⟨⟩
    exact hzero

lemma given_self {taken : List (Fin n×Byte)} {target value : ℤ} :
    ConsOut.given ⟨taken,some ⟨i,target,value,dst⟩⟩ i = dst := if_pos rfl

lemma bytes_self {ret : Option (Returned n)} {c : Byte} (hc : c ≠ ctrlD) :
    ConsOut.bytes ⟨[(i,c)],ret⟩ i = [c] := by
  simp [ConsOut.bytes,hc]

lemma moves_round {k target : ℤ} (hwf : ∀ j, (s.pc j).Wf) (hp : s.pc i = .loop k target dst) :
    Moves s (.step i,(s.readRound i k target dst).2) (s.readRound i k target dst).1 := by
  have hbusy : s.pc i ≠ .idle := by
    rw [hp]
    nofun
  have hwfi := hwf i
  have hcopied : (s.pc i).copied = dst := by rw [hp]; rfl
  rw [hp] at hwfi
  obtain ⟨hlen,hmark⟩ := hwfi
  unfold readRound finish
  dsimp only
  split_ifs with hk hempty hkill hc hsave hnl
  · refine .reader hbusy rfl hwf trivial rfl (.inl ⟨rfl,rfl⟩) (by rintro _ ⟨⟩; rfl) ?_
      (.returns (.inr ⟨rfl,hkill⟩) nofun (by omega))
    intro hno
    exact nomatch hno.symm.trans hkill
  · refine .reader hbusy rfl hwf ⟨hlen,hmark⟩ rfl (.inl ⟨rfl,rfl⟩) nofun ?_ ⟨nofun,nofun,nofun⟩
    intro _
    rw [hcopied]
    exact (append_nil _).symm
  · -- the mark is put back
    have hback : { s.input with r := s.input.r+1-1 } = s.input := by rw [BitVec.add_sub_cancel]
    refine .reader hbusy rfl hwf trivial rfl (.inl ⟨rfl,hback⟩) (by rintro _ ⟨⟩; rfl) ?_
      (.returns (.inl (by omega)) nofun (by omega))
    intro _
    rw [hcopied,given_self]
    rfl
  · have hnil : dst = [] := length_eq_zero_iff.mp (by omega)
    subst hnil
    refine .reader hbusy rfl hwf trivial rfl (.inr ⟨hempty,rfl,rfl⟩) (by rintro _ ⟨⟩; rfl) ?_
      (.returns (.inl (by simp at hlen; simp; omega)) ?_ ?_)
    · intro _
      rw [hcopied,given_self,hc]
      simp [ConsOut.bytes,ReadPc.copied]
    · intro j hj
      have hj := mem_singleton.mp hj
      simp at hlen
      exact ⟨congrArg Prod.fst hj,by omega,rfl⟩
    · intro _ _
      rw [hc]
  · refine .reader hbusy rfl hwf trivial rfl (.inr ⟨hempty,rfl,rfl⟩) (by rintro _ ⟨⟩; rfl) ?_
      (.returns (.inl (by simp; omega)) ?_ (by omega))
    · intro _
      rw [hcopied,given_self,bytes_self hc]
      exact append_nil _
    · intro j hj
      exact absurd (congrArg Prod.snd (mem_singleton.mp hj)).symm hc
  · refine .reader hbusy rfl hwf ⟨by simp; omega,?_⟩ rfl (.inr ⟨hempty,rfl,rfl⟩) nofun ?_
      ⟨nofun,?_,nofun⟩
    · intro hm
      obtain hm | hm := mem_append.mp hm
      · exact hmark hm
      · exact hc (mem_singleton.mp hm).symm
    · intro _
      rw [hcopied,bytes_self hc]
      rfl
    · intro j hj
      exact absurd (congrArg Prod.snd (mem_singleton.mp hj)).symm hc
  · refine .reader hbusy rfl hwf trivial rfl (.inl ⟨rfl,rfl⟩) (by rintro _ ⟨⟩; rfl) ?_
      (.returns (.inl (by omega)) nofun (by omega))
    intro _
    rw [hcopied,given_self]
    rfl

lemma moves_readStep (hwf : ∀ j, (s.pc j).Wf) (h : s.readStep i = some (s',out)) :
    Moves s (.step i,out) s' := by
  unfold readStep at h
  split at h
  case h_1 k hp =>
    obtain ⟨-,⟨⟩⟩ := Option.ite_none_right_eq_some.mp h
    refine .reader (by rw [hp]; nofun) rfl hwf ⟨by simp,nofun⟩ rfl (.inl ⟨rfl,rfl⟩) nofun ?_
      ⟨nofun,nofun,nofun⟩
    intro _
    rw [hp]
    rfl
  case h_2 k target dst hp =>
    obtain ⟨-,⟨⟩⟩ := Option.ite_none_right_eq_some.mp h
    have hwfi := hwf i
    rw [hp] at hwfi
    refine .reader (by rw [hp]; nofun) rfl hwf hwfi rfl (.inl ⟨rfl,rfl⟩) nofun ?_ ⟨nofun,nofun,nofun⟩
    intro _
    rw [hp]
    exact (append_nil _).symm
  case h_3 k target dst hp =>
    have hmoves := moves_round hwf hp
    rw [Option.some.inj h] at hmoves
    exact hmoves
  case h_4 => exact nomatch h

lemma moves_next {a : ConsAct n} (hwf : ∀ j, (s.pc j).Wf) (h : s.next a = some (s',out)) :
    Moves s (a,out) s' := by
  cases a with
  | intr | done =>
    obtain ⟨-,⟨⟩⟩ := Option.ite_none_right_eq_some.mp h
    exact .quiet nofun rfl (fun _ => id) hwf (fun _ => rfl) fun _ => .inl
  | key c =>
    obtain ⟨-,⟨⟩⟩ := Option.ite_none_right_eq_some.mp h
    have hpc : ∀ j, (if (s.input.key c).2 = true then fun i => (s.pc i).wake else s.pc) j = s.pc j ∨
        (if (s.input.key c).2 = true then fun i => (s.pc i).wake else s.pc) j = (s.pc j).wake := by
      intro j
      split_ifs
      · exact .inr rfl
      · exact .inl rfl
    exact ⟨.inl ⟨c,rfl,rfl,rfl⟩,fun _ => id,fun j => ReadPc.wf_of_wake (hpc j) (hwf j),
      fun j _ => (ReadPc.copied_of_wake (hpc j)).trans (append_nil _).symm,
      fun j hj => ⟨nofun,nofun,.inl (ReadPc.idle_of_wake (hpc j) hj)⟩,⟨nofun,nofun,nofun⟩⟩
  | read i k =>
    simp only [next] at h
    split at h
    case h_1 hp =>
      obtain ⟨⟩ := Option.some.inj h
      refine .quiet nofun rfl (fun _ => id) ?_ ?_ ?_
      · intro j
        obtain rfl | hne := eq_or_ne j i
        · rw [goto_pc]
          trivial
        · rw [goto_pc_of_ne hne]
          exact hwf j
      · intro j
        obtain rfl | hne := eq_or_ne j i
        · rw [goto_pc,hp]
          rfl
        · rw [goto_pc_of_ne hne]
      · intro j hj
        obtain rfl | hne := eq_or_ne j i
        · exact .inr ⟨k,rfl⟩
        · rw [goto_pc_of_ne hne]
          exact .inl hj
    case h_2 => exact nomatch h
  | step i => exact moves_readStep hwf h
  | kill i =>
    obtain ⟨⟩ := Option.some.inj h
    have hpc : ∀ j, update s.pc i (s.pc i).wake j = s.pc j ∨
        update s.pc i (s.pc i).wake j = (s.pc j).wake := by
      intro j
      obtain rfl | hne := eq_or_ne j i
      · exact .inr (update_self ..)
      · exact .inl (update_of_ne hne _ _)
    refine .quiet nofun rfl ?_ (fun j => ReadPc.wf_of_wake (hpc j) (hwf j))
      (fun j => ReadPc.copied_of_wake (hpc j))
      fun j hj => .inl (ReadPc.idle_of_wake (hpc j) hj)
    intro j hj
    dsimp only at hj
    obtain ⟨rfl,⟨⟩⟩ | ⟨-,hj⟩ := update_apply_eq.mp hj
    exact hj

/-! ### Runs -/

/-- The characters that have left the buffer, in this order, and for whom. -/
def takenIn (ls : List (ConsAct n×ConsOut n)) : List (Fin n×Byte) := ls.flatMap fun l => l.2.taken

/-- The calls that have returned, in this order. -/
def returnedIn (ls : List (ConsAct n×ConsOut n)) : List (Returned n) :=
  ls.filterMap fun l => l.2.returned

lemma Moves.agrees {ed : Editor} (h : Moves s l s') (hag : Agrees s.input ed) :
    Agrees s'.input (ed.see l) ∧
    (ed.see l).committed.take (ed.see l).taken =
      ed.committed.take ed.taken++l.2.taken.map Prod.snd := by
  obtain ⟨a,out⟩ := l
  obtain ⟨c,rfl,htaken,hinput⟩ | ⟨ha,⟨htaken,hinput⟩ | ⟨j,hne,htaken,hinput⟩⟩ := h.input
  · obtain ⟨⟨more,hmore⟩,hcount⟩ := ed.key_committed c
    rw [hinput,htaken]
    refine ⟨hag.key,?_⟩
    rw [Editor.see,hmore,hcount,take_append_of_le_length hag.le,map_nil,append_nil]
  · rw [Editor.see_of_ne ha,hinput,htaken]
    exact ⟨hag,(append_nil _).symm⟩
  · obtain ⟨hfirst,hag'⟩ := hag.take hne
    rw [Editor.see_of_ne ha,hinput,htaken]
    refine ⟨hag',?_⟩
    dsimp only
    rw [length_singleton,take_add_one,hfirst]
    rfl

/-- What has happened up to a state. -/
structure Follows (ls : List (ConsAct n×ConsOut n)) (s : Console n) : Prop where
  agrees : Agrees s.input (Editor.after ls)
  taken : (takenIn ls).map Prod.snd = (Editor.after ls).committed.take (Editor.after ls).taken
  wf : ∀ j, (s.pc j).Wf
  copied : ∀ j, s.killed j = false →
    (ls.flatMap fun l => l.2.given j)++(s.pc j).copied = ls.flatMap fun l => l.2.bytes j
  fits : ∀ l ∈ ls, Fits s l.2

lemma Follows.start (buf : ℕ → Byte) : Follows [] (initial buf : Console n) :=
  ⟨Agrees.start buf,rfl,fun _ => trivial,fun _ _ => rfl,nofun⟩

lemma Fits.mono (h : Fits s out) (hkilled : ∀ j, s'.killed j = false → s.killed j = false) :
    Fits s' out where
  value ret hret := by
    obtain hv | ⟨hv,hk⟩ := h.value ret hret
    · exact .inl hv
    · refine .inr ⟨hv,?_⟩
      by_contra hno
      exact nomatch hk.symm.trans (hkilled _ (Bool.eq_false_iff.mpr hno))
  mark := h.mark
  zero := h.zero

variable {ls : List (ConsAct n×ConsOut n)}

lemma Follows.step (h : Follows ls s) (hs : Step s l s') : Follows (ls++[l]) s' := by
  have hmoves : Moves s l s' := moves_next h.wf hs
  obtain ⟨hag,htake⟩ := hmoves.agrees h.agrees
  refine ⟨?_,?_,hmoves.wf,?_,?_⟩
  · rw [Editor.after_append]
    exact hag
  · rw [Editor.after_append,htake,← h.taken,takenIn,flatMap_append,map_append]
    simp [takenIn]
  · intro j hj
    have hstep := hmoves.copied j hj
    have hbefore := h.copied j (hmoves.killed j hj)
    rw [flatMap_append,flatMap_append,flatMap_singleton,flatMap_singleton,append_assoc,
      hstep,← append_assoc,hbefore]
  · intro l' hl'
    obtain hl' | hl' := mem_append.mp hl'
    · exact (h.fits l' hl').mono hmoves.killed
    · rw [mem_singleton.mp hl']
      exact hmoves.fits.mono hmoves.killed

/-! ### Calls one after the other -/

/-- The call starts when nobody else is in `consoleread`. -/
def Alone (s : Console n) (l : ConsAct n×ConsOut n) : Prop := ∀ i k, l.1 = .read i k →
    ∀ j, s.pc j = .idle

/-- All that was returned, with what the only call in progress has copied, is what has left the
buffer. -/
def Serial (ls : List (ConsAct n×ConsOut n)) (s : Console n) : Prop :=
  (∃ i, (∀ j, j ≠ i → s.pc j = .idle) ∧ (returnedIn ls).flatMap Returned.dst++(s.pc i).copied =
      ((takenIn ls).map Prod.snd).filter (· ≠ ctrlD)) ∨
    (∀ j, s.pc j = .idle) ∧ (returnedIn ls).flatMap Returned.dst =
      ((takenIn ls).map Prod.snd).filter (· ≠ ctrlD)

/-- If only process `i` is in a call, everything seen of a step is for it. -/
lemma Moves.only (h : Moves s l s') (hidle : ∀ j, j ≠ i → s.pc j = .idle) :
    (l.2.taken.map Prod.snd).filter (· ≠ ctrlD) = l.2.bytes i ∧
      l.2.returned.toList.flatMap Returned.dst = l.2.given i := by
  constructor
  · rw [ConsOut.bytes,filter_map]
    refine congrArg (List.map Prod.snd) (filter_congr fun x hx => ?_)
    have hxi : x.1 = i := by
      by_contra hne
      exact (h.idle x.1 (hidle x.1 hne)).1 x hx rfl
    simp [hxi]
  · unfold ConsOut.given
    cases hret : l.2.returned with
    | none => rfl
    | some ret =>
      have hproc : ret.proc = i := by
        by_contra hne
        exact (h.idle ret.proc (hidle ret.proc hne)).2.1 ret hret rfl
      simp [hproc]

lemma Serial.step (h : Serial ls s) (hm : Moves s l s') (halone : Alone s l)
    (hkilled : ∀ j, s'.killed j = false) : Serial (ls++[l]) s' := by
  have hreturned : (returnedIn (ls++[l])).flatMap Returned.dst =
      (returnedIn ls).flatMap Returned.dst++l.2.returned.toList.flatMap Returned.dst := by
    cases hret : l.2.returned <;> simp [returnedIn,hret]
  have htaken : ((takenIn (ls++[l])).map Prod.snd).filter (· ≠ ctrlD) =
      ((takenIn ls).map Prod.snd).filter (· ≠ ctrlD)++(l.2.taken.map Prod.snd).filter (· ≠ ctrlD) := by
    simp [takenIn]
  -- process `i` is in a call at most, before and after the step
  have hone : ∀ i, (∀ j, j ≠ i → s.pc j = .idle) → (∀ j, j ≠ i → s'.pc j = .idle) →
      (returnedIn ls).flatMap Returned.dst++(s.pc i).copied =
        ((takenIn ls).map Prod.snd).filter (· ≠ ctrlD) →
      Serial (ls++[l]) s' := by
    intro i hidle hidle' heq
    obtain ⟨hbytes,hgiven⟩ := hm.only hidle
    refine .inl ⟨i,hidle',?_⟩
    rw [hreturned,htaken,hbytes,hgiven,append_assoc,hm.copied i (hkilled i),← heq,append_assoc]
  by_cases hall : ∀ j, s.pc j = .idle
  · have hcopied : ∀ i, (s.pc i).copied = [] := by
      intro i
      rw [hall i]
      rfl
    have heq : (returnedIn ls).flatMap Returned.dst =
        ((takenIn ls).map Prod.snd).filter (· ≠ ctrlD) := by
      obtain ⟨i,-,heq⟩ | ⟨-,heq⟩ := h
      · rwa [hcopied,append_nil] at heq
      · exact heq
    by_cases hread : ∃ i k, l.1 = .read i k
    · obtain ⟨i,k,hl⟩ := hread
      refine hone i (fun j _ => hall j) ?_ ?_
      · intro j hne
        obtain hj | ⟨k',hl'⟩ := (hm.idle j (hall j)).2.2
        · exact hj
        · rw [hl] at hl'
          cases hl'
          exact absurd rfl hne
      · rw [hcopied,append_nil,heq]
    · right
      have hempty : l.2.taken = [] := by
        rw [eq_nil_iff_forall_not_mem]
        intro x hx
        exact (hm.idle x.1 (hall x.1)).1 x hx rfl
      have hnone : l.2.returned = none := by
        rw [Option.eq_none_iff_forall_ne_some]
        intro ret hret
        exact (hm.idle ret.proc (hall ret.proc)).2.1 ret hret rfl
      refine ⟨fun j => ((hm.idle j (hall j)).2.2).resolve_right fun ⟨k,hl⟩ => hread ⟨j,k,hl⟩,?_⟩
      rw [hreturned,htaken,hempty,hnone,heq]
      rfl
  · obtain ⟨i,hidle,heq⟩ | ⟨hidle,-⟩ := h
    · refine hone i hidle (fun j hne => ?_) heq
      obtain hj | ⟨k,hl⟩ := (hm.idle j (hidle j hne)).2.2
      · exact hj
      · exact absurd (halone j k hl) hall
    · exact absurd hidle hall

lemma serial_run {buf : ℕ → Byte}
    (h : Run (fun s l t => Step s l t ∧ Alone s l) (initial buf) ls s) :
    Follows ls s ∧ ((∀ j, s.killed j = false) → Serial ls s) := by
  refine Run.invariant (fun ls s => Follows ls s ∧ ((∀ j, s.killed j = false) → Serial ls s)) ?_ h
    ⟨Follows.start buf,fun _ => .inr ⟨fun _ => rfl,rfl⟩⟩
  rintro ls s l t ⟨hf,hserial⟩ ⟨hs,halone⟩
  have hm : Moves s l t := moves_next hf.wf hs
  exact ⟨hf.step hs,fun hkilled => (hserial fun j => hm.killed j (hkilled j)).step hm halone hkilled⟩

/-- The line discipline. The counters of the ring keep their order, editing removes nothing that is
committed, and the characters leave the buffer in the order in which the reference editor has
committed them. Each process gets what has left the buffer for it, a call that returns nothing has
taken a mark for the end of the file, and the results of calls that do not overlap make up the
input, without the marks. -/
theorem console_line_discipline {buf : ℕ → Byte} {ls : List (ConsAct n×ConsOut n)}
    (h : Run Step (initial buf) ls s) :
    ((s.input.w-s.input.r).toNat ≤ (s.input.e-s.input.r).toNat ∧
      (s.input.e-s.input.r).toNat ≤ INPUT_BUF) ∧
    (∀ c, c = ctrlU ∨ c = ctrlH ∨ c = delete → Erases s.input (s.input.key c).1) ∧
    (takenIn ls).map Prod.snd <+: (Editor.after ls).committed ∧
    (∀ i, s.killed i = false → (ls.flatMap fun l => l.2.given i)++(s.pc i).copied =
      ls.flatMap fun l => l.2.bytes i) ∧
    (∀ l ∈ ls, Fits s l.2) ∧
    (Run (fun s l t => Step s l t ∧ Alone s l) (initial buf) ls s → (∀ i, s.killed i = false) →
      (∀ i, s.pc i = .idle) → (returnedIn ls).flatMap Returned.dst =
        ((Editor.after ls).committed.take (takenIn ls).length).filter (· ≠ ctrlD)) := by
  have hf : Follows ls s :=
    Run.invariant (fun ls s => Follows ls s) (fun _ _ _ _ hf hs => hf.step hs) h (Follows.start buf)
  have hag := hf.agrees
  refine ⟨⟨?_,?_⟩,?_,?_,hf.copied,hf.fits,?_⟩
  · rw [hag.committed_eq,hag.outstanding_eq]
    exact Nat.le_add_right ..
  · rw [hag.outstanding_eq]
    exact hag.room
  · rintro c (rfl | rfl | rfl)
    · exact Input.erases_rubout _
    · exact Input.erases_backspace
    · exact Input.erases_backspace
  · rw [hf.taken]
    exact take_prefix ..
  · intro halone hkilled hidle
    have hlength : (takenIn ls).length = (Editor.after ls).taken := by
      rw [← length_map (f := Prod.snd),hf.taken,length_take,Nat.min_eq_left hag.le]
    rw [hlength,← hf.taken]
    obtain ⟨i,-,heq⟩ | ⟨-,heq⟩ := (serial_run halone).2 hkilled
    · rwa [hidle i,show ReadPc.idle.copied = [] from rfl,append_nil] at heq
    · exact heq

/-- `a`, `b`, a backspace and the end of the line are typed before a process reads the line. -/
def typing (i : Fin n) : List (ConsAct n×ConsOut n) :=
  [(.read i 5,⟨[],none⟩),(.intr,⟨[],none⟩),(.key 97,⟨[],none⟩),(.key 98,⟨[],none⟩),
    (.key ctrlH,⟨[],none⟩),
    (.key carriageReturn,⟨[],none⟩),(.done,⟨[],none⟩),(.step i,⟨[],none⟩),(.step i,⟨[(i,97)],none⟩),
    (.step i,⟨[(i,newline)],some ⟨i,5,2,[97,newline]⟩⟩)]

theorem console_line_discipline_typing : ∃ s, Run Step (initial fun _ => 0) (typing (0 : Fin 1)) s ∧
    (takenIn (typing (0 : Fin 1))).map Prod.snd = [97,newline] ∧
    [97,newline] <+: (Editor.after (typing (0 : Fin 1))).committed := by
  have he : (exec (fun (l : ConsAct 1×ConsOut 1) s => (s.next l.1).bind fun r => if r.2 = l.2
    then some r.1 else none)
      (typing 0) (initial fun _ => 0)).isSome = true := by
    decide +kernel
  obtain ⟨s,hs⟩ := Option.isSome_iff_exists.mp he
  have hrun : Run Step (initial fun _ => 0) (typing 0) s := by
    refine (Run.of_exec hs).mono fun s l t hl => ?_
    obtain ⟨⟨t',out⟩,hnext,hout⟩ := Option.bind_eq_some_iff.mp hl
    obtain ⟨hsame,⟨⟩⟩ := Option.ite_none_right_eq_some.mp hout
    rw [Step,hnext,← hsame]
  exact ⟨s,hrun,rfl,(console_line_discipline hrun).2.2.1⟩

end Console
end JacobiXv6.Kernel
