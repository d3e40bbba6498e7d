import JacobiXv6.Kernel.Privilege
import JacobiXv6.Kernel.Sending

/-! The system calls for messages and signals with their arguments. `argint` and `argptr` refuse
what does not lie in the memory of the process, but these calls do not look at what they return: a
local variable whose argument is refused keeps what the stack held before. -/
namespace JacobiXv6.Kernel.SysIpc
open Library Slots List Option

abbrev NPROC : ℕ := 64

lemma NPROC_pos : 0 < NPROC := by decide

def firstSlot : Fin NPROC := ⟨0,NPROC_pos⟩

lemma one_lt_NPROC : 1 < NPROC := by decide

def secondSlot : Fin NPROC := ⟨1,one_lt_NPROC⟩

abbrev Table := Slots NPROC

/-- The first address and the number of bytes that the kernel reads or writes at once. -/
abbrev Access := Word×ℕ

/-- All bytes lie below `sz`. -/
def Inside (sz : Word) (a : Access) : Prop := ∀ i < a.2, (a.1+BitVec.ofNat 32 i).toNat < sz.toNat

instance (sz : Word) (a : Access) : Decidable (Inside sz a) :=
  inferInstanceAs (Decidable (∀ i < a.2, _))

/-- The process that makes a call. `allocuvm` keeps its size below `KERNBASE`. -/
structure Caller where
  self : Fin NPROC
  pid : ℤ
  esp : Word
  mem : Mem
  sz : Word
  sz_le : sz.toNat ≤ Privilege.KERNBASE

namespace Caller
variable (c : Caller)

/-- `fetchint`: what it stores, if it does not fail, and what it reads. -/
def fetchint (addr : Word) : Option Word×List Access :=
  let value := Privilege.fetchint c.mem c.sz addr
  (value,if value.isSome then [(addr,4)] else [])

def argint (n : Word) : Option Word×List Access := c.fetchint (c.esp+4+4*n)

def argptr (n size : Word) : Option Word×List Access :=
  (Privilege.argptr c.mem c.sz c.esp n size,(c.argint n).2)

def msgAt (a : Word) : Msg := fun i => c.mem (a+BitVec.ofNat 32 i)

/-- `rec_pids[i]` -/
def recPid (recPids : Word) (i : ℕ) : ℤ :=
  (wordAt (load c.mem (recPids+BitVec.ofNat 32 (4*i)) 4) 0).toInt

end Caller

/-- What is on the kernel stack where a call has its local variables. -/
structure Junk where
  senderPid : Word
  recPid : Word
  msg : Word
  recPids : Word
  length : Word
  func : Word

/-- What a call did: the user memory it used, its value, and the table when it took `ptable.lock`
and when it gave it back, each time. -/
structure Outcome where
  accesses : List Access
  value : ℤ
  sections : List (Table×Table)

/-- The user memory lies in the process, or the call has returned -1 and changed nothing. -/
def Outcome.Safe (o : Outcome) (sz : Word) : Prop :=
  (∀ a ∈ o.accesses, Inside sz a) ∨ (o.value = -1 ∧ ∀ s ∈ o.sections, s.2 = s.1)

/-- What `send_mess` reads: the message, once for each slot with the pid. -/
def messReads (t : Table) (rec : ℤ) (msg : Word) : List Access :=
  ((List.finRange NPROC).filter fun k => (t.proc k).pid = rec).map fun _ => (msg,8)

/-- `sys_send`; `t` is the table when `send_mess` has the lock. -/
def sysSend (c : Caller) (junk : Junk) (t : Table) : Outcome :=
  let sender := (c.argint 0).1.getD junk.senderPid
  let recPid := (c.argint 1).1.getD junk.recPid
  let msg := (c.argptr 2 8).1.getD junk.msg
  let sent := sendMess sender.toInt recPid.toInt (c.msgAt msg) t
  { accesses := (c.argint 0).2++(c.argint 1).2++(c.argptr 2 8).2++messReads t recPid.toInt msg
    value := sent.2
    sections := [(t,sent.1)] }

/-- What one round of `send_multicast` reads: the pid again for every slot, and the message if it
matches. -/
def multiReads (c : Caller) (recPids msg : Word) (i : ℕ) (t : Table) : List Access :=
  (List.finRange NPROC).flatMap fun k => (recPids+BitVec.ofNat 32 (4*i),4)::
    if (t.proc k).pid = c.recPid recPids i then [(msg,8)] else []

/-- `send_multicast`; `tables i` is the table when it has the lock for recipient `i`. -/
def sendMulticast (c : Caller) (sender : ℤ) (recPids msg length : Word)
    (tables : ℕ → Table) : Outcome :=
  let rounds := List.range length.toInt.toNat
  let sent := fun i => sendRecipient c.pid sender (c.recPid recPids i) (c.msgAt msg) (tables i)
  { accesses := rounds.flatMap fun i => multiReads c recPids msg i (tables i)
    value := if rounds.any fun i => (sent i).2 then 0 else -1
    sections := rounds.map fun i => (tables i,(sent i).1) }

def sysSendMulti (c : Caller) (junk : Junk) (tables : ℕ → Table) : Outcome :=
  let sender := (c.argint 0).1.getD junk.senderPid
  let msg := (c.argptr 2 8).1.getD junk.msg
  let length := (c.argint 3).1.getD junk.length
  let recPids := (c.argptr 1 (4*length)).1.getD junk.recPids
  let sent := sendMulticast c sender.toInt recPids msg length tables
  { sent with
    accesses := (c.argint 0).2++(c.argptr 2 8).2++(c.argint 3).2++(c.argptr 1
      (4*length)).2++sent.accesses }

/-- `sys_sig_set`; it does not use the memory at `func`. -/
def sysSigSet (c : Caller) (junk : Junk) (t : Table) : Outcome :=
  let func := (c.argptr 0 4).1.getD junk.func
  { accesses := (c.argptr 0 4).2
    value := 0
    sections := [(t,t.put c.self { t.proc c.self with handler := func })] }

/-- Where `recv_mess` is: before slot `k`, or in the loop that waits for a message in it. -/
inductive Place
  | slot (k : ℕ)
  | waiting (k : Fin NPROC)

/-- `recv_mess` from a place to its end. It took the lock when the table was `t₀` and the table is
`t` now; when it has slept, others have changed the table in any way. -/
inductive RecvMess (self : Fin NPROC) (pid : ℤ) (mess : Word) : Bool → Place → Table → Table →
    Outcome → Prop
  | finish {found : Bool} {t₀ t : Table} :
      RecvMess self pid mess found (.slot NPROC) t₀ t ⟨[],if found then 0 else -1,[(t₀,t)]⟩
  | skip {found : Bool} {k : Fin NPROC} {t₀ t : Table} {o : Outcome} (hpid : (t.proc k).pid ≠ pid)
      (rest : RecvMess self pid mess found (.slot (k+1)) t₀ t o) :
        RecvMess self pid mess found (.slot k) t₀ t o
  | enter {found : Bool} {k : Fin NPROC} {t₀ t : Table} {o : Outcome} (hpid : (t.proc k).pid = pid)
      (rest : RecvMess self pid mess found (.waiting k) t₀ t o) :
        RecvMess self pid mess found (.slot k) t₀ t o
  | sleep {found : Bool} {k : Fin NPROC} {t₀ t t₁ : Table} {o : Outcome}
      (hempty : (t.proc k).recvQueue.head = (t.proc k).recvQueue.tail)
      (rest : RecvMess self pid mess found (.waiting k) t₁ t₁ o) :
      RecvMess self pid mess found (.waiting k) t₀ t { o with
        sections := (t₀,{ t.put self { t.proc self with state := .sleeping } with
          chan := Function.update t.chan self (some (.recvQueue k)) })::o.sections }
  | take {found : Bool} {k : Fin NPROC} {t₀ t : Table} {o : Outcome}
      (hsome : (t.proc k).recvQueue.head ≠ (t.proc k).recvQueue.tail)
      (rest : RecvMess self pid mess true (.slot (k+1)) t₀
        (t.put k { t.proc k with recvQueue := (t.proc k).recvQueue.pop NUM_MSG }) o) :
      RecvMess self pid mess found (.waiting k) t₀ t { o with accesses := (mess,8)::o.accesses }

def SysRecv (c : Caller) (junk : Junk) (o : Outcome) : Prop :=
  ∃ t sent, RecvMess c.self c.pid ((c.argptr 0 8).1.getD junk.msg) false (.slot 0) t t sent ∧
    o = { sent with accesses := (c.argptr 0 8).2++sent.accesses }

/-! ### What the argument functions accept -/

section Arguments
variable {c : Caller} {n size i : Word}

/-- `fetchint` itself reads inside the process only. -/
lemma inside_fetchint (c : Caller) (addr : Word) : ∀ a ∈ (c.fetchint addr).2, Inside c.sz a := by
  have hsz := c.sz_le
  unfold Caller.fetchint Privilege.fetchint
  split_ifs with h
  · exact nofun
  · intro a ha
    obtain rfl := mem_singleton.mp ha
    rw [not_or,BitVec.not_le,BitVec.not_lt] at h
    intro j hj
    simp only [Privilege.KERNBASE] at hsz
    have hlt := BitVec.lt_def.mp h.1
    have hle := BitVec.le_def.mp h.2
    have hfour : (4 : Word).toNat = 4 := rfl
    rw [BitVec.toNat_add,hfour] at hle
    dsimp only at hj ⊢
    rw [BitVec.toNat_add,BitVec.toNat_ofNat]
    omega

lemma inside_argint (c : Caller) (n : Word) : ∀ a ∈ (c.argint n).2, Inside c.sz a := inside_fetchint c _

lemma inside_argptr (c : Caller) (n size : Word) : ∀ a ∈ (c.argptr n size).2, Inside c.sz a :=
  inside_argint c n

/-- An accepted pointer has `size` bytes of the process behind it. -/
lemma argptr_some (h : (c.argptr n size).1 = some i) :
    size.toNat < 2^31 ∧ i.toNat < c.sz.toNat ∧ i.toNat+size.toNat ≤ c.sz.toNat := by
  have hsz := c.sz_le
  simp only [Privilege.KERNBASE] at hsz
  obtain ⟨i,-,h⟩ := bind_eq_some_iff.mp h
  obtain ⟨hok,⟨⟩⟩ := ite_none_left_eq_some.mp h
  simp only [not_or,not_lt,BitVec.not_le,BitVec.not_lt] at hok
  obtain ⟨hsize,hlt,hle⟩ := hok
  have hlt := BitVec.lt_def.mp hlt
  have hle := BitVec.le_def.mp hle
  have hpos : size.toNat < 2^31 := by
    rw [BitVec.toInt_eq_toNat_cond] at hsize
    split_ifs at hsize with hs
    · omega
    · have := size.isLt
      omega
  rw [BitVec.toNat_add] at hle
  omega

lemma inside_of_argptr (h : (c.argptr n size).1 = some i) {j m : ℕ} (hm : j+m ≤ size.toNat) :
    Inside c.sz (i+BitVec.ofNat 32 j,m) := by
  obtain ⟨hsize,hlt,hle⟩ := argptr_some h
  have hsz := c.sz_le
  simp only [Privilege.KERNBASE] at hsz
  intro k hk
  dsimp only at hk ⊢
  rw [BitVec.toNat_add,BitVec.toNat_add,BitVec.toNat_ofNat,BitVec.toNat_ofNat]
  omega

lemma not_inside {sz a : Word} {m : ℕ} (h : sz.toNat ≤ a.toNat) : ¬Inside sz (a,m+1) := by
  intro hin
  have hfirst := hin 0 (Nat.succ_pos m)
  simp only [BitVec.add_zero] at hfirst
  omega

end Arguments

/-! ### The calls one by one -/

section Calls
variable (c : Caller)

lemma not_safe {o : Outcome} {sz : Word} {a : Access} (ha : a ∈ o.accesses) (hout : ¬Inside sz a)
    (hvalue : o.value = 0) : ¬o.Safe sz := by
  rintro (hin | ⟨hfail,-⟩)
  · exact hout (hin a ha)
  · exact nomatch hvalue.symm.trans hfail

/-- A table with one process. -/
def lone (pid : ℤ) : Table :=
  ⟨Function.update (fun _ => Ptable.unusedProc) secondSlot
    { Ptable.unusedProc with state := .runnable, pid := pid },fun _ => none⟩

@[simp] lemma lone_pid (pid : ℤ) : ((lone pid).proc secondSlot).pid = pid := rfl

lemma sysSend_safe_iff : (∀ junk t, (sysSend c junk t).Safe c.sz) ↔ (c.argptr 2 8).1.isSome := by
  constructor
  · intro h
    by_contra hnone
    rw [not_isSome_iff_eq_none] at hnone
    let junk : Junk := ⟨0,0,c.sz,0,0,0⟩
    let pid := ((c.argint 1).1.getD junk.recPid).toInt
    refine not_safe (a := (c.sz,8)) ?_ (not_inside le_rfl) ?_ (h junk (lone pid))
    · have hread : (c.sz,8) ∈ messReads (lone pid) pid c.sz := by
        refine mem_map.mpr ⟨secondSlot,mem_filter.mpr ⟨mem_finRange _,?_⟩,rfl⟩
        simp
      simp only [sysSend,hnone,getD_none]
      exact mem_append_right _ hread
    · simp only [sysSend]
      exact sendMess_found ⟨secondSlot,lone_pid pid⟩
  · intro hsome junk t
    obtain ⟨i,hi⟩ := isSome_iff_exists.mp hsome
    left
    simp only [sysSend,hi,getD_some,mem_append]
    rintro a (((ha | ha) | ha) | ha)
    · exact inside_argint c _ a ha
    · exact inside_argint c _ a ha
    · exact inside_argptr c _ _ a ha
    · obtain ⟨k,-,rfl⟩ := mem_map.mp ha
      simpa using inside_of_argptr hi (j := 0) (m := 8) (by decide)

lemma recvMess_accesses {self : Fin NPROC} {pid : ℤ} {mess : Word} {found : Bool} {place : Place}
    {t₀ t : Table} {o : Outcome} (h : RecvMess self pid mess found place t₀ t o) :
    ∀ a ∈ o.accesses, a = (mess,8) := by
  induction h with
  | finish => exact nofun
  | skip _ _ ih | enter _ _ ih | sleep _ _ ih => exact ih
  | take _ _ ih =>
    intro a ha
    rcases mem_cons.mp ha with rfl | ha
    · rfl
    · exact ih a ha

lemma recvMess_skips {self : Fin NPROC} {pid : ℤ} {mess : Word} {found : Bool} {t₀ t : Table} {k m : ℕ}
    (hm : k+m = NPROC) (h : ∀ j : Fin NPROC, k ≤ j → (t.proc j).pid ≠ pid) :
    RecvMess self pid mess found (.slot k) t₀ t ⟨[],if found then 0 else -1,[(t₀,t)]⟩ := by
  induction m generalizing k with
  | zero =>
    obtain rfl : k = NPROC := by omega
    exact .finish
  | succ m ih =>
    refine .skip (k := ⟨k,by omega⟩) (h _ le_rfl) (ih (by dsimp only; omega) fun j hj => h j ?_)
    dsimp only at hj
    omega

/-- A table with a message for the pid in slot 0 and nobody else with it. -/
def mailed (pid : ℤ) : Table where
  proc k := { Ptable.unusedProc with
    state := .runnable
    pid := if k = firstSlot then pid else pid+1
    recvQueue := ⟨fun _ => (0,fun _ => 0),0,1⟩ }
  chan _ := none

lemma sysRecv_safe_iff : (∀ junk o, SysRecv c junk o → o.Safe c.sz) ↔ (c.argptr 0 8).1.isSome := by
  constructor
  · intro h
    by_contra hnone
    rw [not_isSome_iff_eq_none] at hnone
    let junk : Junk := ⟨0,0,c.sz,0,0,0⟩
    let taken : Table := (mailed c.pid).put firstSlot { (mailed c.pid).proc firstSlot with
      recvQueue := ((mailed c.pid).proc firstSlot).recvQueue.pop NUM_MSG }
    have hother : ∀ j : Fin NPROC, 1 ≤ (j : ℕ) → (taken.proc j).pid ≠ c.pid := by
      intro j hj
      have hne : j ≠ firstSlot := by
        rintro rfl
        exact absurd hj (by decide)
      rw [put_of_ne _ hne]
      simp [mailed,hne]
    have hrecv : RecvMess c.self c.pid c.sz false (.slot 0) (mailed c.pid) (mailed c.pid)
        ⟨[(c.sz,8)],0,[(mailed c.pid,taken)]⟩ := by
      refine .enter (k := firstSlot) (by simp [mailed])
        (.take (o := ⟨[],0,[(mailed c.pid,taken)]⟩) ?_ ?_)
      · exact nofun
      · exact recvMess_skips (k := 1) (m := 63) rfl hother
    have hsys : SysRecv c junk ⟨(c.argptr 0 8).2++[(c.sz,8)],0,[(mailed c.pid,taken)]⟩ := by
      refine ⟨mailed c.pid,⟨[(c.sz,8)],0,[(mailed c.pid,taken)]⟩,?_,rfl⟩
      rw [hnone]
      exact hrecv
    refine not_safe (a := (c.sz,8)) ?_ (not_inside le_rfl) rfl (h junk _ hsys)
    exact mem_append_right _ (mem_singleton.mpr rfl)
  · rintro hsome junk o ⟨t,sent,hrecv,rfl⟩
    obtain ⟨i,hi⟩ := isSome_iff_exists.mp hsome
    left
    intro a ha
    rcases mem_append.mp ha with ha | ha
    · exact inside_argptr c _ _ a ha
    · obtain rfl := recvMess_accesses hrecv a ha
      rw [hi]
      simpa using inside_of_argptr hi (j := 0) (m := 8) (by decide)

lemma sysSigSet_safe (junk : Junk) (t : Table) : (sysSigSet c junk t).Safe c.sz :=
  .inl (inside_argptr c _ 4)

/-- The arguments of `sys_send_multi` that keep it inside: the length is fetched, and if it is
positive then both pointers are accepted and four times the length does not overflow. -/
def MultiOk : Prop :=
  ∃ length, (c.argint 3).1 = some length ∧ (length.toInt ≤ 0 ∨
    length.toNat < 2^29 ∧ (c.argptr 2 8).1.isSome ∧ (c.argptr 1 (4*length)).1.isSome)

lemma mem_multicast {sender : ℤ} {recPids msg length : Word} {tables : ℕ → Table} {i : ℕ} {a : Access}
    (hi : (i : ℤ) < length.toInt) (ha : a ∈ multiReads c recPids msg i (tables i)) :
    a ∈ (sendMulticast c sender recPids msg length tables).accesses := by
  refine mem_flatMap.mpr ⟨i,mem_range.mpr ?_,ha⟩
  omega

lemma mem_multiReads_pid (recPids msg : Word) (i : ℕ) (t : Table) :
    (recPids+BitVec.ofNat 32 (4*i),4) ∈ multiReads c recPids msg i t :=
  mem_flatMap.mpr ⟨0,mem_finRange _,mem_cons_self ..⟩

lemma multicast_lone (sender : ℤ) (recPids msg : Word) {length : Word} (hpos : 0 < length.toInt) :
    (sendMulticast c sender recPids msg length fun _ => lone (c.recPid recPids 0)).value = 0 ∧
      (msg,8) ∈ (sendMulticast c sender recPids msg length fun _ =>
        lone (c.recPid recPids 0)).accesses := by
  constructor
  · refine if_pos (any_eq_true.mpr ⟨0,mem_range.mpr (by omega),?_⟩)
    exact loop_found.mpr ⟨secondSlot,lone_pid _⟩
  · refine mem_multicast c (i := 0) (by simpa using hpos)
      (mem_flatMap.mpr ⟨secondSlot,mem_finRange _,?_⟩)
    rw [if_pos (lone_pid _)]
    simp

/-- From `2^30` elements on, an array of words covers the whole address space. -/
lemma exists_outside {sz : Word} (recPids : Word) (hsz : sz.toNat ≤ Privilege.KERNBASE) :
    ∃ i ≤ 2^29, ¬Inside sz (recPids+BitVec.ofNat 32 (4*i),4) := by
  simp only [Privilege.KERNBASE] at hsz
  have hlt := recPids.isLt
  rcases Nat.lt_or_ge recPids.toNat (2^31) with hlow | hhigh
  · refine ⟨2^29,le_rfl,not_inside ?_⟩
    rw [BitVec.toNat_add,BitVec.toNat_ofNat]
    omega
  · refine ⟨0,Nat.zero_le _,not_inside ?_⟩
    simp only [Nat.mul_zero,BitVec.add_zero]
    omega

lemma sysSendMulti_safe_iff : (∀ junk tables, (sysSendMulti c junk tables).Safe c.sz) ↔ MultiOk c := by
  constructor
  · intro h
    by_contra hbad
    let junk : Junk := ⟨0,0,c.sz,c.sz,2^30,0⟩
    obtain ⟨length,hlength⟩ : ∃ length, (c.argint 3).1.getD junk.length = length := ⟨_,rfl⟩
    obtain ⟨recPids,hrec⟩ : ∃ recPids, (c.argptr 1 (4*length)).1.getD junk.recPids = recPids := ⟨_,rfl⟩
    obtain ⟨msg,hmsg⟩ : ∃ msg, (c.argptr 2 8).1.getD junk.msg = msg := ⟨_,rfl⟩
    have hpos : 0 < length.toInt := by
      cases hfetch : (c.argint 3).1 with
      | none =>
        rw [hfetch] at hlength
        obtain rfl : (2 : Word)^30 = length := hlength
        decide
      | some len =>
        rw [hfetch] at hlength
        obtain rfl : len = length := hlength
        exact lt_of_not_ge fun hle => hbad ⟨len,hfetch,.inl hle⟩
    have hnat : length.toInt = length.toNat := by
      rw [BitVec.toInt_eq_toNat_cond] at hpos ⊢
      have := length.isLt
      split_ifs at hpos ⊢ with hcond
      · rfl
      · omega
    let sender := ((c.argint 0).1.getD junk.senderPid).toInt
    obtain ⟨hvalue,hread⟩ := multicast_lone c sender recPids msg hpos
    have houtside : ∃ a ∈ (sendMulticast c sender recPids msg length fun _ =>
        lone (c.recPid recPids 0)).accesses, ¬Inside c.sz a := by
      by_cases hlong : 2^29 < length.toNat
      · obtain ⟨i,hi,hout⟩ := exists_outside recPids c.sz_le
        exact ⟨_,mem_multicast c (by omega) (mem_multiReads_pid c recPids msg i _),hout⟩
      · cases haccept : (c.argptr 1 (4*length)).1 with
        | none =>
          rw [haccept] at hrec
          refine ⟨_,mem_multicast c (i := 0) (by omega) (mem_multiReads_pid c recPids msg 0 _),
            not_inside ?_⟩
          rw [← hrec]
          simp [junk]
        | some ptr =>
          have hfour : (4 : Word).toNat = 4 := rfl
          have hsmall := (argptr_some haccept).1
          rw [BitVec.toNat_mul,hfour] at hsmall
          cases hmsgs : (c.argptr 2 8).1 with
          | none =>
            rw [hmsgs] at hmsg
            refine ⟨_,hread,not_inside ?_⟩
            rw [← hmsg]
            simp [junk]
          | some m =>
            cases hfetch : (c.argint 3).1 with
            | none =>
              rw [hfetch] at hlength
              obtain rfl : (2 : Word)^30 = length := hlength
              exact absurd (by decide) hlong
            | some len =>
              rw [hfetch] at hlength
              obtain rfl : len = length := hlength
              refine absurd ⟨len,hfetch,.inr ⟨by omega,?_,?_⟩⟩ hbad
              · rw [hmsgs,isSome_some]
              · rw [haccept,isSome_some]
    obtain ⟨a,ha,hout⟩ := houtside
    refine not_safe (a := a) ?_ hout ?_ (h junk fun _ => lone (c.recPid recPids 0))
    · simp only [sysSendMulti,hlength,hrec,hmsg]
      exact mem_append_right _ ha
    · simp only [sysSendMulti,hlength,hrec,hmsg]
      exact hvalue
  · rintro ⟨length,hlength,hok⟩ junk tables
    left
    simp only [sysSendMulti,hlength,getD_some,mem_append]
    rintro a ((((ha | ha) | ha) | ha) | ha)
    · exact inside_argint c _ a ha
    · exact inside_argptr c _ _ a ha
    · exact inside_argint c _ a ha
    · exact inside_argptr c _ _ a ha
    · obtain ⟨i,hi,ha⟩ := mem_flatMap.mp ha
      rw [mem_range] at hi
      rcases hok with hneg | ⟨hsmall,hmsg,hrec⟩
      · omega
      obtain ⟨m,hm⟩ := isSome_iff_exists.mp hmsg
      obtain ⟨r,hr⟩ := isSome_iff_exists.mp hrec
      have hfour : (4*length).toNat = 4*length.toNat := by
        have hfour : (4 : Word).toNat = 4 := rfl
        rw [BitVec.toNat_mul,hfour]
        omega
      have hle : length.toInt = length.toNat := by
        rw [BitVec.toInt_eq_toNat_cond,if_pos (by omega)]
      obtain ⟨k,-,ha⟩ := mem_flatMap.mp ha
      rw [hm,hr] at ha
      rcases mem_cons.mp ha with rfl | ha
      · exact inside_of_argptr hr (by omega)
      · obtain rfl : a = (m,8) := by
          split_ifs at ha
          · exact mem_singleton.mp ha
          · exact nomatch ha
        simpa using inside_of_argptr hm (j := 0) (m := 8) (by decide)

end Calls

/-- **Arguments of the calls.** Whatever the locals held before and whatever the other processes do,
`sys_send` and `sys_recv` stay inside the memory of the process or fail without effect if and only
if their pointer is accepted, and `sys_send_multi` if and only if its length is not positive or its
pointers are accepted and the size of the array does not overflow; `sys_sig_set` always does. -/
theorem ipc_arguments_iff (c : Caller) :
    ((∀ junk t, (sysSend c junk t).Safe c.sz) ↔ (c.argptr 2 8).1.isSome) ∧
    ((∀ junk o, SysRecv c junk o → o.Safe c.sz) ↔ (c.argptr 0 8).1.isSome) ∧
    ((∀ junk tables, (sysSendMulti c junk tables).Safe c.sz) ↔ MultiOk c) ∧
    ∀ junk t, (sysSigSet c junk t).Safe c.sz :=
  ⟨sysSend_safe_iff c,sysRecv_safe_iff c,sysSendMulti_safe_iff c,sysSigSet_safe c⟩

/-- A process of 8 KiB with the given arguments on its stack. -/
def withArgs (args : List Word) : Caller where
  self := firstSlot
  pid := 1
  esp := 0x1000
  mem := store (fun _ => 0) 0x1004 (args.flatMap wordBytes)
  sz := 0x2000
  sz_le := by decide

/-- A message at an address of the kernel is refused, and `sys_send` sends what the pointer on its
stack points to, here other memory of the kernel. With `2^30` recipients all arguments of
`sys_send_multi` are accepted, and it reads pids far behind the end of the process. -/
theorem arguments_ignored :
    (((withArgs [1,5,0x80000000]).argptr 2 8).1 = none ∧
      ¬(sysSend (withArgs [1,5,0x80000000]) ⟨0,0,0x80100000,0,0,0⟩ (lone 5)).Safe 0x2000) ∧
    (((withArgs [1,0x1014,0x200,0x40000000,5]).argptr 2 8).1 = some 0x200 ∧
      ((withArgs [1,0x1014,0x200,0x40000000,5]).argint 3).1 = some 0x40000000 ∧
      ((withArgs [1,0x1014,0x200,0x40000000,5]).argptr 1 (4*0x40000000)).1 = some 0x1014 ∧
      ∀ junk, ¬(sysSendMulti (withArgs [1,0x1014,0x200,0x40000000,5]) junk fun _ => lone 5).Safe
        0x2000) := by
  have hrefused : ((withArgs [1,5,0x80000000]).argptr 2 8).1 = none := by decide
  have hrec : ((withArgs [1,5,0x80000000]).argint 1).1 = some 5 := by decide
  have hmsg : ((withArgs [1,0x1014,0x200,0x40000000,5]).argptr 2 8).1 = some 0x200 := by decide
  have hlength : ((withArgs [1,0x1014,0x200,0x40000000,5]).argint 3).1 = some 0x40000000 := by decide
  have hpids : ((withArgs [1,0x1014,0x200,0x40000000,5]).argptr 1 (4*0x40000000)).1 = some 0x1014 :=
      by
    decide
  refine ⟨⟨hrefused,?_⟩,hmsg,hlength,hpids,fun junk => ?_⟩
  · refine not_safe (a := (0x80100000,8)) ?_ (not_inside (by decide)) ?_
    · simp only [sysSend,hrefused,hrec,getD_none,getD_some]
      refine mem_append_right _ (mem_map.mpr ⟨secondSlot,mem_filter.mpr ⟨mem_finRange _,?_⟩,rfl⟩)
      simp
    · simp only [sysSend,hrec,getD_some]
      exact sendMess_found ⟨secondSlot,lone_pid 5⟩
  · have hfirst : (withArgs [1,0x1014,0x200,0x40000000,5]).recPid 0x1014 0 = 5 := by decide
    have hpos : (0x800 : ℤ) < (0x40000000 : Word).toInt := by decide
    simp only [sysSendMulti,hmsg,hlength,hpids,getD_some]
    refine not_safe (a := (0x1014+BitVec.ofNat 32 (4*0x800),4)) ?_ (not_inside (by decide)) ?_
    · exact mem_append_right _ (mem_multicast _ hpos (mem_multiReads_pid _ _ _ _ _))
    · have hvalue := multicast_lone (withArgs [1,0x1014,0x200,0x40000000,5])
        (((withArgs [1,0x1014,0x200,0x40000000,5]).argint 0).1.getD junk.senderPid).toInt 0x1014 0x200
        (by decide : 0 < (0x40000000 : Word).toInt)
      rw [hfirst] at hvalue
      dsimp only
      exact hvalue.1

end JacobiXv6.Kernel.SysIpc
