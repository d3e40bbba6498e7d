import JacobiXv6.Kernel.Pipe
import JacobiXv6.Library.Monitors

/-! The calls on a pipe one statement after the other, with both locks: `sleep` takes `ptable.lock`
before it gives `p->lock` back, and every `wakeup` takes it. Who sleeps on a pipe that has what
it waits for is found out here. -/
namespace JacobiXv6.Kernel
open Library Function

/-- `struct pipe` without its lock. -/
structure PipeMem where
  data : ℕ → Byte
  nread : BitVec 32
  nwrite : BitVec 32
  readopen : Bool
  writeopen : Bool

/-- Where a process is, named after what it has done or does next; `user` has the value of the last
call. A write that is in its loop has stored `fresh` bytes since it took the lock. -/
inductive PipeLoc
  | user (ret : ℤ)
  | write (addr : ℕ → Byte) (n : ℤ) (i fresh : ℕ)
  | full (addr : ℕ → Byte) (n : ℤ) (i : ℕ)
  | wrote (n : ℤ)
  | read (n : ℤ)
  | copy (n : ℤ) (addr : List Byte)
  | took (addr : List Byte)
  | close (writable : Bool)
  | announce (writable : Bool)
  | closed

inductive PipeCall
  | pipewrite (addr : ℕ → Byte) (n : ℤ)
  | piperead (n : ℤ)
  | pipeclose (writable : Bool)

namespace PipeMem

def isFull (s : PipeMem) : Prop := s.nwrite = s.nread+BitVec.ofNat 32 PIPESIZE

instance (s : PipeMem) : Decidable s.isFull := inferInstanceAs (Decidable (_ = _))

def call : PipeCall → PipeLoc → Option PipeLoc
  | .pipewrite addr n, .user _ => some (.write addr n 0 0)
  | .piperead n, .user _ => some (.read n)
  | .pipeclose writable, .user _ => some (.close writable)
  | _, _ => none

/-- `p->data[p->nwrite++ % PIPESIZE] = b` -/
def store (s : PipeMem) (b : Byte) : PipeMem :=
  { s with
    data := update s.data (s.nwrite.toNat%PIPESIZE) b
    nwrite := s.nwrite+1 }

/-- One round of the loop of `pipewrite`, up to the wakeup if the pipe is full. -/
def pipewrite (s : PipeMem) (killed : Bool) (addr : ℕ → Byte) (n : ℤ) (i fresh : ℕ) :
    Stmt PipeMem PipeChan PipeLoc :=
  if i < n then
    if s.isFull then
      if s.readopen = false ∨ killed = true then .release (.user (-1))
        else .wakeup .nread (.full addr n i)
    else .go (s.store (addr i)) (.write addr n (i+1) (fresh+1))
  else .wakeup .nread (.wrote n)

/-- One round of the first loop of `piperead`. -/
def piperead (s : PipeMem) (killed : Bool) (n : ℤ) : Stmt PipeMem PipeChan PipeLoc :=
  if s.nread = s.nwrite ∧ s.writeopen = true then
    if killed = true then .release (.user (-1)) else .sleep .nread (.read n)
  else .go s (.copy n [])

/-- One round of the second loop of `piperead`. -/
def pipecopy (s : PipeMem) (n : ℤ) (addr : List Byte) : Stmt PipeMem PipeChan PipeLoc :=
  if addr.length < n ∧ s.nread ≠ s.nwrite then
    .go { s with nread := s.nread+1 } (.copy n (addr++[s.data (s.nread.toNat%PIPESIZE)]))
  else .wakeup .nwrite (.took addr)

def shut (s : PipeMem) (writable : Bool) : PipeMem :=
  if writable then { s with writeopen := false } else { s with readopen := false }

/-- The channel on which `pipeclose` wakes the other side. -/
def other (writable : Bool) : PipeChan := if writable then .nread else .nwrite

/-- The statements between `acquire(&p->lock)` and `release(&p->lock)`. A process in a call has
its end of the pipe open, so the page is not given back under it. -/
def code (killed : Bool) (s : PipeMem) : PipeLoc → Stmt PipeMem PipeChan PipeLoc
  | .write addr n i fresh => s.pipewrite killed addr n i fresh
  | .full addr n i => .sleep .nwrite (.write addr n i 0)
  | .wrote n => .release (.user n)
  | .read n => s.piperead killed n
  | .copy n addr => s.pipecopy n addr
  | .took addr => .release (.user addr.length)
  | .close writable => .go (s.shut writable) (.announce writable)
  | .announce writable => .wakeup (other writable) .closed
  | .closed => .release (.user 0)
  | .user ret => .release (.user ret)

def monitor (ι : Type*) : Monitor ι PipeMem PipeChan PipeLoc PipeCall Empty where
  call _ a pc s := (call a pc).map fun pc' => (s,pc')
  code _ killed pc s := code killed s pc
  env b _ := b.elim

/-- The pipe as `pipealloc` makes it, in a page with any contents. -/
def initial {ι : Type*} (data : ℕ → Byte) (killed : ι → Bool) : Shared ι PipeMem PipeChan PipeLoc :=
  .start ⟨data,0,0,true,true⟩ (fun _ => .user 0) killed

/-! ### Who has a reason to sleep -/

/-- A reader waits for the first byte and a writer for the first free place, while the other end
is open. -/
def reason (s : PipeMem) : PipeChan → Prop
  | .nread => s.nread = s.nwrite ∧ s.writeopen = true
  | .nwrite => s.isFull ∧ s.readopen = true

/-- A write that took the lock on an empty pipe with readers asleep has filled it with nothing but
its own bytes, and wakes them only later. -/
def vigil : Vigil PipeMem PipeChan PipeLoc where
  reason c s := s.reason c
  entry
    | .write _ _ _ 0 | .read _ | .close _ => True
    | _ => False
  good pc s S :=
    match pc with
    | .write _ _ _ fresh =>
      (S .nread → s.nwrite = s.nread+BitVec.ofNat 32 fresh) ∧ (S .nwrite → s.reason .nwrite)
    | .full _ _ _ => ¬S .nread ∧ s.reason .nwrite
    | .copy _ _ => ¬S .nread
    | .announce writable => ∀ c, S c → c ≠ other writable → s.reason c
    | _ => ∀ c, S c → s.reason c

/-- A write that finds the pipe full and gives up has not filled it alone since it took the lock. -/
def Patient {ι : Type*} (_ : ι) (killed : Bool) (pc : PipeLoc) (s : PipeMem) : Prop :=
  match pc with
  | .write _ n i fresh => i < n → s.isFull → fresh < PIPESIZE ∨ s.readopen = true ∧ killed = false
  | _ => True

variable {s : PipeMem} {S : PipeChan → Prop}

lemma not_isFull_of_fresh {fresh : ℕ} (hw : s.nwrite = s.nread+BitVec.ofNat 32 fresh)
    (hfresh : fresh < PIPESIZE) :
    ¬s.isFull := by
  intro hfull
  have he : BitVec.ofNat 32 fresh = BitVec.ofNat 32 PIPESIZE :=
    (BitVec.add_right_inj _).mp (hw.symm.trans hfull)
  have hnat := congrArg BitVec.toNat he
  rw [BitVec.toNat_ofNat,BitVec.toNat_ofNat,Nat.mod_eq_of_lt (hfresh.trans (by decide)),
    Nat.mod_eq_of_lt (by decide)] at hnat
  exact hfresh.ne hnat

variable {n : ℤ} {addr : ℕ → Byte}

lemma keeps_pipewrite {killed : Bool} {i fresh : ℕ}
    (hP : i < n → s.isFull → fresh < PIPESIZE ∨ s.readopen = true ∧ killed = false)
    (hread : S .nread → s.nwrite = s.nread+BitVec.ofNat 32 fresh)
    (hwrite : S .nwrite → s.reason .nwrite) :
    vigil.Keeps s S (s.pipewrite killed addr n i fresh) := by
  unfold pipewrite
  split_ifs with hi hfull hend
  · -- the call fails and the pipe is full, so the readers must have been woken
    intro c hc
    cases c with
    | nwrite => exact hwrite hc
    | nread =>
      obtain hfresh | ⟨hopen,hkilled⟩ := hP hi hfull
      · exact absurd hfull (not_isFull_of_fresh (hread hc) hfresh)
      · rw [hopen,hkilled] at hend
        exact hend.elim nofun nofun
  · refine ⟨fun hS => hS.2 rfl,hfull,?_⟩
    rw [not_or,Bool.not_eq_false] at hend
    exact hend.1
  · refine ⟨fun hS => ?_,fun hS => absurd (hwrite hS).1 hfull⟩
    change s.nwrite+1 = s.nread+BitVec.ofNat 32 (fresh+1)
    rw [hread hS,BitVec.ofNat_add,BitVec.add_assoc]
    rfl
  · intro c hc
    cases c with
    | nread => exact absurd rfl hc.2
    | nwrite => exact hwrite hc.1

lemma keeps_piperead {killed : Bool} (h : ∀ c, S c → s.reason c) :
    vigil.Keeps s S (s.piperead killed n) := by
  unfold piperead
  split_ifs with hempty
  · exact h
  · exact ⟨trivial,hempty,h⟩
  · intro hS
    exact hempty (h .nread hS)

lemma keeps_pipecopy {addr : List Byte} (h : ¬S .nread) : vigil.Keeps s S (s.pipecopy n addr) := by
  unfold pipecopy
  split_ifs
  · exact h
  · intro c hc
    cases c with
    | nread => exact absurd hc.1 h
    | nwrite => exact absurd rfl hc.2

lemma reason_shut {c : PipeChan} {writable : Bool} (h : s.reason c) (hc : c ≠ other writable) :
    (s.shut writable).reason c := by
  cases c with
  | nread =>
    cases writable with
    | true => exact absurd rfl hc
    | false => exact h
  | nwrite =>
    cases writable with
    | true => exact h
    | false => exact absurd rfl hc

lemma vigil_keeps {ι : Type*} (p : ι) (killed : Bool) (pc : PipeLoc) (hP : Patient p killed pc s)
    (h : vigil.good pc s S) : vigil.Keeps s S (code killed s pc) := by
  cases pc with
  | write addr n i fresh => exact keeps_pipewrite hP h.1 h.2
  | full addr n i =>
    refine ⟨trivial,h.2,fun c hc => ?_⟩
    cases c with
    | nread => exact absurd hc h.1
    | nwrite => exact h.2
  | read n => exact keeps_piperead h
  | copy n addr => exact keeps_pipecopy h
  | close writable => exact fun c hc hne => reason_shut (h c hc) hne
  | announce writable => exact fun c hc => h c hc.1 hc.2
  | _ => exact h

lemma entry_of_call {a : PipeCall} {pc pc' : PipeLoc} (h : call a pc = some pc') : vigil.entry pc' := by
  cases a with
  | _ =>
    cases pc with
    | user ret =>
      cases h
      exact trivial
    | _ => exact nomatch h

lemma vigil_keeper {ι : Type*} : vigil.Keeper (monitor ι) Patient where
  call := by
    intro p a pc s s' pc' hcall
    obtain ⟨pc'',hpc,he⟩ := Option.map_eq_some_iff.mp hcall
    cases he
    exact ⟨entry_of_call hpc,fun _ => id,fun _ _ => id⟩
  env b := b.elim
  enter := by
    intro pc s S hpc hreason
    cases pc with
    | write addr n i fresh =>
      cases fresh with
      | zero =>
        refine ⟨fun hS => ?_,hreason .nwrite⟩
        rw [← (hreason .nread hS).1]
        exact (BitVec.add_zero s.nread).symm
      | succ fresh => exact hpc.elim
    | read n => exact hreason
    | close writable => exact hreason
    | _ => exact hpc.elim
  code p killed pc s S hP h := vigil_keeps p killed pc hP h

variable {ι : Type*} [DecidableEq ι]

/-- Nobody is stranded on a pipe, as long as no write that gives up on a full pipe has filled it
by itself since it last took the lock. -/
theorem nobody_stranded {data : ℕ → Byte} {killed : ι → Bool} {as : List (ι×MonAct PipeCall Empty)}
    {t : Shared ι PipeMem PipeChan PipeLoc}
    (h : Run (fun t a t' => Shared.Step (monitor ι) t a t' ∧ t.Allowed Patient a.1 a.2)
      (initial data killed) as t)
    (hlock : t.lock = none) (_htable : t.table = none) (p : ι) (pc : PipeLoc) :
    (t.phase p = .asleep .nread pc → t.shared.nread = t.shared.nwrite ∧ t.shared.writeopen = true) ∧
      (t.phase p = .asleep .nwrite pc →
        t.shared.nwrite = t.shared.nread+BitVec.ofNat 32 PIPESIZE ∧ t.shared.readopen = true) :=
  ⟨fun hp => Vigil.no_lost_wakeup_if vigil_keeper h hlock hp,
    fun hp => Vigil.no_lost_wakeup_if vigil_keeper h hlock hp⟩

instance {ι : Type*} (p : ι) (killed : Bool) :
    ∀ (pc : PipeLoc) (s : PipeMem), Decidable (Patient p killed pc s)
  | .write _ n i fresh, s =>
    inferInstanceAs
      (Decidable (i < n → s.isFull → fresh < PIPESIZE ∨ s.readopen = true ∧ killed = false))
  | .user _, _ | .full _ _ _, _ | .wrote _, _ | .read _, _ | .copy _ _, _ | .took _, _ | .close _, _
  | .announce _, _ | .closed, _ => isTrue trivial

def sleepingReader : List (Bool×MonAct PipeCall Empty) :=
  (false,.call (.piperead 1))::List.replicate 6 (false,.tick)

theorem nobody_stranded_sleepingReader : ∃ t, Run (fun t a t' => Shared.Step (monitor Bool) t a t' ∧
      t.Allowed Patient a.1 a.2) (initial (fun _ => 0) fun _ => false) sleepingReader t ∧
    t.lock = none ∧ t.table = none ∧ t.phase false = .asleep .nread (.read 1) ∧
    t.shared.nread = t.shared.nwrite ∧ t.shared.writeopen = true := by
  have he : (exec
    (fun a t => if t.Allowed Patient a.1 a.2 then Shared.next (monitor Bool) t a.1 a.2 else none)
      sleepingReader (initial (fun _ => 0) fun _ => false)).isSome = true := by decide +kernel
  obtain ⟨t,ht⟩ := Option.isSome_iff_exists.mp he
  have hrun : Run (fun t a t' => Shared.Step (monitor Bool) t a t' ∧ t.Allowed Patient a.1 a.2)
      (initial (fun _ => 0) fun _ => false) sleepingReader t := .of_exec_if ht
  cases ht
  exact ⟨_,hrun,rfl,rfl,rfl,(nobody_stranded hrun rfl rfl false (.read 1)).1 rfl⟩

/-! ### A write that strands a reader -/

/-- The loop of `pipewrite` on a pipe that was empty, for as many bytes as fit. -/
lemma run_stores {t : Shared ι PipeMem PipeChan PipeLoc} {p : ι}
    (hp : t.phase p = .hold (.write addr n 0 0)) (hempty : t.shared.nwrite = t.shared.nread) (k : ℕ)
    (hk : k ≤ PIPESIZE)
    (hn : k ≤ n) : ∃ u, Run (Shared.Step (monitor ι)) t (List.replicate k (p,.tick)) u ∧
      u.phase = update t.phase p (.hold (.write addr n k k)) ∧ u.table = t.table ∧
      u.shared.nread = t.shared.nread ∧ u.shared.nwrite = u.shared.nread+BitVec.ofNat 32 k := by
  induction k with
  | zero =>
    refine ⟨t,.nil t,?_,rfl,rfl,?_⟩
    · rw [← hp,update_eq_self]
    · rw [hempty]
      exact (BitVec.add_zero _).symm
  | succ k ih =>
    obtain ⟨u,hrun,hphase,htable,hread,hwrite⟩ := ih (Nat.le_of_succ_le hk) (by omega)
    have hroom : ¬u.shared.isFull := not_isFull_of_fresh hwrite hk
    have hcode : u.shared.pipewrite (u.killed p) addr n k k =
        .go (u.shared.store (addr k)) (.write addr n (k+1) (k+1)) := by
      rw [pipewrite,if_pos (by omega),if_neg hroom]
    have hstep : u.next (monitor ι) p .tick =
        some (u.perform p (u.shared.pipewrite (u.killed p) addr n k k)) :=
      Shared.next_of_hold (by rw [hphase,update_self])
    rw [hcode] at hstep
    refine ⟨u.perform p (.go (u.shared.store (addr k)) (.write addr n (k+1) (k+1))),?_,?_,htable,
      hread,?_⟩
    · rw [List.replicate_succ']
      exact hrun.snoc hstep
    · change update u.phase p _ = _
      rw [hphase,update_idem]
    · change u.shared.nwrite+1 = u.shared.nread+BitVec.ofNat 32 (k+1)
      rw [hwrite,BitVec.ofNat_add,BitVec.add_assoc]
      rfl

lemma run_gives_up {u : Shared ι PipeMem PipeChan PipeLoc} {p : ι} {i fresh : ℕ}
    (hp : u.phase p = .hold (.write addr n i fresh)) (hi : i < n) (hfull : u.shared.isFull)
    (htable : u.table = none) :
    ∃ v, Run (Shared.Step (monitor ι)) u [(p,.kill),(p,.tick)] v ∧ v.lock = none ∧ v.table = none ∧
      v.phase = update u.phase p (.out (.user (-1))) ∧ v.shared = u.shared := by
  have hkill : u.next (monitor ι) p .kill =
      some { u.goto p (.hold (.write addr n i fresh)) with killed := update u.killed p true } := by
    rw [Shared.next,if_pos htable,hp]
    rfl
  have hcode : u.shared.pipewrite true addr n i fresh = .release (.user (-1)) := by
    rw [pipewrite,if_pos hi,if_pos hfull,if_pos (Or.inr rfl)]
  let v : Shared ι PipeMem PipeChan PipeLoc :=
    { u.goto p (.hold (.write addr n i fresh)) with killed := update u.killed p true }
  have hkilled : v.killed p = true := update_self _ _ _
  have hv := Shared.next_of_hold (M := monitor ι) (t := v) (update_self p _ _)
  rw [hkilled] at hv
  change _ = some (v.perform p (u.shared.pipewrite true addr n i fresh)) at hv
  rw [hcode] at hv
  refine ⟨_,(Run.cons hkill (.nil _)).snoc hv,rfl,htable,?_,rfl⟩
  exact update_idem _ _ _

lemma writer_enters : ∃ t, Run (Shared.Step (monitor Bool)) (initial (fun _ => 0) fun _ => false)
      (sleepingReader++[(true,.call (.pipewrite (fun _ => 0) 2049)),(true,.tick)]) t ∧
    t.phase true = .hold (.write (fun _ => 0) 2049 0 0) ∧ t.phase false = .asleep .nread (.read 1) ∧
    t.table = none ∧ t.shared.nwrite = t.shared.nread := by
  have he : (exec (fun a t => Shared.next (monitor Bool) t a.1 a.2)
      (sleepingReader++[(true,.call (.pipewrite (fun _ => 0) 2049)),(true,.tick)])
      (initial (fun _ => 0) fun _ => false)).isSome = true := by decide +kernel
  obtain ⟨t,ht⟩ := Option.isSome_iff_exists.mp he
  have hrun : Run (Shared.Step (monitor Bool)) (initial (fun _ => 0) fun _ => false)
      (sleepingReader++[(true,.call (.pipewrite (fun _ => 0) 2049)),(true,.tick)]) t := Run.of_exec ht
  cases ht
  exact ⟨_,hrun,rfl,rfl,rfl,rfl⟩

/-- Killed when it has filled the pipe, the writer returns -1 and leaves the reader asleep. -/
theorem reader_stranded :
    ∃ as t, Run (Shared.Step (monitor Bool)) (initial (fun _ => 0) fun _ => false) as t ∧
    t.lock = none ∧ t.table = none ∧ t.phase false = .asleep .nread (.read 1) ∧
      t.phase true = .out (.user (-1)) ∧
    t.shared.nread ≠ t.shared.nwrite := by
  obtain ⟨t,hrun,hwriter,hreader,htable,hempty⟩ := writer_enters
  obtain ⟨u,hstores,hphase,hutable,hread,hwrite⟩ :=
    run_stores hwriter hempty PIPESIZE le_rfl (by decide)
  have hfull : u.shared.isFull := hwrite
  obtain ⟨v,hend,hlock,hvtable,hvphase,hshared⟩ :=
    run_gives_up (by rw [hphase,update_self]) (by decide) hfull
    (hutable.trans htable)
  refine ⟨_,v,(hrun.append hstores).append hend,hlock,hvtable,?_,?_,?_⟩
  · rw [hvphase,update_of_ne (by decide),hphase,update_of_ne (by decide),hreader]
  · rw [hvphase,update_self]
  · rw [hshared,hfull]
    intro he
    have hz : 0 = BitVec.ofNat 32 PIPESIZE :=
      (BitVec.add_right_inj u.shared.nread).mp ((BitVec.add_zero _).trans he)
    exact absurd hz (by decide)

end PipeMem
end JacobiXv6.Kernel
