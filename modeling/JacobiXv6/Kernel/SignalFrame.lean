import JacobiXv6.Kernel.SignalReturn

/-! What `handle_signals` stores below the user's stack pointer, for a return code of any
size: where each part lies, and which addresses are written. -/
namespace JacobiXv6.Kernel
open Library List

abbrev Write := Word×List Byte

namespace Write

def Covers (w : Write) (a : Word) : Prop := (a-w.1).toNat < w.2.length

instance (w : Write) (a : Word) : Decidable (w.Covers a) := inferInstanceAs (Decidable (_ < _))

def perform (mem : Mem) (ws : List Write) : Mem := ws.foldl (fun mem w => store mem w.1 w.2) mem

lemma perform_cons (mem : Mem) (w : Write) (ws : List Write) :
    perform mem (w::ws) = perform (store mem w.1 w.2) ws := rfl

lemma covers_offset {sp : Word} {k i : ℕ} {bs : List Byte} (hi : i < 2^32) (hk : k+bs.length ≤ 2^32) :
    Covers (sp+BitVec.ofNat 32 k,bs) (sp+BitVec.ofNat 32 i) ↔ k ≤ i ∧ i < k+bs.length := by
  unfold Covers
  have hsub : sp+BitVec.ofNat 32 i-(sp+BitVec.ofNat 32 k) = BitVec.ofNat 32 i-BitVec.ofNat 32 k :=
    add_sub_add_left_eq_sub _ _ _
  simp only [hsub]
  rw [BitVec.toNat_sub,BitVec.toNat_ofNat,BitVec.toNat_ofNat,Nat.mod_eq_of_lt hi]
  rcases Nat.eq_zero_or_pos bs.length with hz | hpos
  · omega
  rw [Nat.mod_eq_of_lt (show k < 2^32 by omega)]
  omega

lemma perform_of_not_covers {ws : List Write} {a : Word} (h : ∀ w ∈ ws, ¬w.Covers a) (mem : Mem) :
    perform mem ws a = mem a := by
  induction ws generalizing mem with
  | nil => rfl
  | cons w ws ih =>
    obtain ⟨hw,hws⟩ := forall_mem_cons.mp h
    rw [perform_cons,ih hws,store,getElem?_eq_none (not_lt.mp hw),Option.getD_none]

end Write

/-! ### The stores of `handle_signals` -/

lemma length_wordBytes (v : Word) : (wordBytes v).length = 4 := rfl

section Stores
variable (code : List Byte) (tf : Trapframe) (m : Msg)

/-- The five stores of `handle_signals` in their order, with `code` between `sigret_code_start`
and `sigret_code_end`. -/
def signalWrites : List Write :=
  let frame := tf.esp-BitVec.ofNat 32 Trapframe.size
  let codePointer := frame-BitVec.ofNat 32 code.length
  let msg := codePointer-8
  [(frame,tf.bytes),(codePointer,code),(msg,List.ofFn m),(msg-4,wordBytes msg),
    (msg-8,wordBytes codePointer)]

/-- The final value of `sp`. -/
def signalEsp : Word :=
  tf.esp-BitVec.ofNat 32 Trapframe.size-BitVec.ofNat 32 code.length-8-8

/-- `handle_signals` with its stores: what it does to the process, and what it writes. It does not
touch `killed`. -/
def handleSignalsWrites (p : Proc) : Proc×List Write :=
  if p.Delivers then
    ({ p.enterHandler with tf := { p.tf with esp := signalEsp code p.tf, eip := p.handler } },
      signalWrites code p.tf p.recvMultiQueue.front.2)
  else (p,[])

/-- `ret_signal`, for the same code. -/
def retSignalFrom (p : Proc) (mem : Mem) : Proc :=
  { p with
    tf := Trapframe.ofBytes (load mem (p.tf.esp+12+BitVec.ofNat 32 code.length) Trapframe.size)
    handling := false }

/-- With the code of `sigretcode.S` these are the functions of `proc.c`. -/
lemma handleSignals_eq_perform (p : Proc) (mem : Mem) : handleSignals p mem =
    ((handleSignalsWrites sigretCode p).1,Write.perform mem (handleSignalsWrites sigretCode p).2) := by
  unfold handleSignals handleSignalsWrites
  split_ifs
  · rfl
  · rfl

lemma retSignal_eq_from (p : Proc) (mem : Mem) : retSignal p mem = retSignalFrom sigretCode p mem := rfl

lemma signalWrites_eq : signalWrites code tf m =
    [(signalEsp code tf+BitVec.ofNat 32 (16+code.length),tf.bytes),
      (signalEsp code tf+BitVec.ofNat 32 16,code),(signalEsp code tf+BitVec.ofNat 32 8,List.ofFn m),
      (signalEsp code tf+BitVec.ofNat 32 4,wordBytes (signalEsp code tf+BitVec.ofNat 32 8)),
      (signalEsp code tf+BitVec.ofNat 32 0,wordBytes (signalEsp code tf+BitVec.ofNat 32 16))] := by
  generalize hsp : signalEsp code tf = sp
  have hframe : tf.esp-BitVec.ofNat 32 Trapframe.size = sp+BitVec.ofNat 32 (16+code.length) := by
    rw [← hsp,signalEsp,BitVec.ofNat_add]
    generalize BitVec.ofNat 32 code.length = c
    bv_omega
  have hcode : sp+BitVec.ofNat 32 (16+code.length)-BitVec.ofNat 32 code.length =
      sp+BitVec.ofNat 32 16 := by
    rw [BitVec.ofNat_add,← add_assoc,add_sub_cancel_right]
  have hmsg : sp+BitVec.ofNat 32 16-8 = sp+BitVec.ofNat 32 8 := by bv_omega
  have harg : sp+BitVec.ofNat 32 8-4 = sp+BitVec.ofNat 32 4 := by bv_omega
  have hret : sp+BitVec.ofNat 32 8-8 = sp+BitVec.ofNat 32 0 := by bv_omega
  simp only [signalWrites,hframe,hcode,hmsg,harg,hret]

lemma exists_covers_iff (h : Trapframe.size+code.length+16 ≤ 2^32) {i : ℕ} (hi : i < 2^32) :
    (∃ w ∈ signalWrites code tf m, w.Covers (signalEsp code tf+BitVec.ofNat 32 i)) ↔
      i < Trapframe.size+code.length+16 := by
  simp only [Trapframe.size] at h
  have hlen : tf.bytes.length = 76 := tf.length_bytes
  simp only [signalWrites_eq,mem_cons,not_mem_nil,or_false,exists_eq_or_imp,
    exists_eq_left]
  rw [Write.covers_offset hi (by omega),Write.covers_offset hi (by omega),
    Write.covers_offset hi (by simp),Write.covers_offset hi (by simp [length_wordBytes]),
    Write.covers_offset hi (by simp [length_wordBytes])]
  simp only [hlen,length_wordBytes,length_ofFn,Trapframe.size]
  omega

end Stores

/-! ### Layout -/

section Layout

variable {code : List Byte} {tf : Trapframe} {m : Msg} {mem : Mem}

lemma toNat_signalEsp (h : Trapframe.size+code.length+16 ≤ tf.esp.toNat) :
    (signalEsp code tf).toNat+(Trapframe.size+code.length+16) = tf.esp.toNat := by
  have hlt := tf.esp.isLt
  have hc : (BitVec.ofNat 32 code.length).toNat = code.length := by
    rw [BitVec.toNat_ofNat,Nat.mod_eq_of_lt (by omega)]
  simp only [Trapframe.size] at h
  simp only [signalEsp,Trapframe.size]
  generalize BitVec.ofNat 32 code.length = c at hc
  bv_omega

lemma load_signalFrame (tf : Trapframe) (m : Msg) (mem : Mem)
    (h : Trapframe.size+code.length+16 ≤ 2^32) :
    load (Write.perform mem (signalWrites code tf m))
      (signalEsp code tf+BitVec.ofNat 32 (16+code.length)) Trapframe.size = tf.bytes := by
  simp only [Trapframe.size] at h
  rw [signalWrites_eq]
  simp only [Write.perform,foldl_cons,foldl_nil]
  rw [load_store_apart,load_store_apart,load_store_apart,load_store_apart,← tf.length_bytes,
    load_store]
  all_goals simp [Trapframe.size,wordBytes] <;> omega

lemma load_signalCode (h : Trapframe.size+code.length+16 ≤ 2^32) :
    load (Write.perform mem (signalWrites code tf m))
      (signalEsp code tf+BitVec.ofNat 32 16) code.length = code := by
  simp only [Trapframe.size] at h
  rw [signalWrites_eq]
  simp only [Write.perform,foldl_cons,foldl_nil]
  rw [load_store_apart,load_store_apart,load_store_apart,load_store]
  all_goals simp [wordBytes] <;> omega

lemma load_signalMsg : load (Write.perform mem (signalWrites code tf m))
    (signalEsp code tf+BitVec.ofNat 32 8) 8 = List.ofFn m := by
  rw [signalWrites_eq]
  simp only [Write.perform,foldl_cons,foldl_nil]
  rw [load_store_apart,load_store_apart]
  · exact load_store_of_length length_ofFn (by decide)
  all_goals simp [wordBytes]

lemma load_signalArg : wordAt (load (Write.perform mem (signalWrites code tf m))
    (signalEsp code tf+BitVec.ofNat 32 4) 4) 0 = signalEsp code tf+BitVec.ofNat 32 8 := by
  rw [signalWrites_eq]
  simp only [Write.perform,foldl_cons,foldl_nil]
  rw [load_store_apart]
  · exact (congrArg (wordAt · 0) (load_store_of_length (length_wordBytes _) (by decide))).trans
      (wordAt_wordBytes _)
  all_goals simp [wordBytes]

lemma load_signalReturn : wordAt (load (Write.perform mem (signalWrites code tf m))
    (signalEsp code tf) 4) 0 = signalEsp code tf+BitVec.ofNat 32 16 := by
  rw [signalWrites_eq]
  simp only [Write.perform,foldl_cons,foldl_nil,BitVec.add_zero]
  exact (congrArg (wordAt · 0) (load_store_of_length (length_wordBytes _) (by decide))).trans
    (wordAt_wordBytes _)

lemma exists_offset (sp a : Word) : ∃ i < 2^32, a = sp+BitVec.ofNat 32 i := by
  refine ⟨(a-sp).toNat,(a-sp).isLt,?_⟩
  rw [BitVec.ofNat_toNat,BitVec.setWidth_eq,add_sub_cancel]

lemma signalWrites_pairwise (h : Trapframe.size+code.length+16 ≤ 2^32) :
    (signalWrites code tf m).Pairwise fun w w' => ∀ a, ¬(w.Covers a ∧ w'.Covers a) := by
  simp only [Trapframe.size] at h
  have hlen : tf.bytes.length = 76 := tf.length_bytes
  have apart : ∀ {j k : ℕ} {bs cs : List Byte}, k+cs.length ≤ j → j+bs.length ≤ 2^32 →
      ∀ a, ¬(Write.Covers (signalEsp code tf+BitVec.ofNat 32 j,bs) a ∧
        Write.Covers (signalEsp code tf+BitVec.ofNat 32 k,cs) a) := by
    rintro j k bs cs hjk hj a ⟨hb,hc⟩
    obtain ⟨i,hi,rfl⟩ := exists_offset (signalEsp code tf) a
    rw [Write.covers_offset hi hj] at hb
    rw [Write.covers_offset hi (by omega)] at hc
    omega
  rw [signalWrites_eq]
  simp only [pairwise_cons,mem_cons,not_mem_nil,or_false,forall_eq_or_imp,forall_eq,
    false_implies,implies_true,List.Pairwise.nil,and_true]
  refine ⟨⟨?_,?_,?_,?_⟩,⟨?_,?_,?_⟩,⟨?_,?_⟩,?_⟩
  all_goals
    apply apart
    · simp [length_wordBytes] <;> omega
    · simp [hlen,length_wordBytes] <;> omega

/-- **The frame of a signal.** With room for it below the stack pointer, a signal leaves what is
above alone and its five parts do not overlap. The handler is entered with the address of the return
code on top of its stack and the address of the message next to it; and when it has popped the first
of them, `ret_signal` looks for the trap frame where it was saved. -/
theorem signal_frame_layout (code : List Byte) (p : Proc) (mem : Mem) (hp : p.Delivers)
    (hroom : Trapframe.size+code.length+16 ≤ p.tf.esp.toNat) :
    let entered := (handleSignalsWrites code p).1
    let writes := (handleSignalsWrites code p).2
    let stack := Write.perform mem writes
    (∀ a, p.tf.esp ≤ a → stack a = mem a) ∧
      writes.map (fun w => w.2.length) = [Trapframe.size,code.length,8,4,4] ∧
      writes.Pairwise (fun w w' => ∀ a, ¬(w.Covers a ∧ w'.Covers a)) ∧
      load stack (wordAt (load stack entered.tf.esp 4) 0) code.length = code ∧
      load stack (wordAt (load stack (entered.tf.esp+4) 4) 0) 8 = List.ofFn p.recvMultiQueue.front.2 ∧
      (writes.head?.map Prod.fst = some (entered.tf.esp+4+12+BitVec.ofNat 32 code.length)) ∧
      load stack (entered.tf.esp+4+12+BitVec.ofNat 32 code.length) Trapframe.size = p.tf.bytes ∧
      ∀ q : Proc, q.tf.esp = entered.tf.esp+4 → (retSignalFrom code q stack).tf = p.tf := by
  have hlt := p.tf.esp.isLt
  have hbound : Trapframe.size+code.length+16 ≤ 2^32 := by omega
  have hsp := toNat_signalEsp hroom
  have hsaved : signalEsp code p.tf+4+12+BitVec.ofNat 32 code.length =
      signalEsp code p.tf+BitVec.ofNat 32 (16+code.length) := by
    rw [BitVec.ofNat_add]
    generalize BitVec.ofNat 32 code.length = c
    bv_omega
  have hframe := load_signalFrame p.tf p.recvMultiQueue.front.2 mem hbound
  simp only [handleSignalsWrites,if_pos hp]
  refine ⟨?_,?_,signalWrites_pairwise hbound,?_,?_,?_,?_,?_⟩
  · intro a ha
    apply Write.perform_of_not_covers
    intro w hw hcov
    obtain ⟨i,hi,rfl⟩ := exists_offset (signalEsp code p.tf) a
    have hlow := (exists_covers_iff code p.tf _ hbound hi).mp ⟨w,hw,hcov⟩
    rw [BitVec.le_def,BitVec.toNat_add,BitVec.toNat_ofNat,Nat.mod_eq_of_lt hi,
      Nat.mod_eq_of_lt (by omega)] at ha
    omega
  · simp [signalWrites,wordBytes]
  · rw [load_signalReturn,load_signalCode hbound]
  · exact (congrArg (fun a => load _ a 8) load_signalArg).trans load_signalMsg
  · rw [hsaved,signalWrites_eq]
    rfl
  · rw [hsaved,hframe]
  · intro q hq
    simp only [retSignalFrom,hq,hsaved,hframe,Trapframe.ofBytes_bytes]

theorem signal_frame_layout_interrupted :
    let entered := (handleSignalsWrites sigretCode (interrupted 5)).1
    let stack := Write.perform (fun _ => 7) (handleSignalsWrites sigretCode (interrupted 5)).2
    (interrupted 5).Delivers ∧ (∀ a, (interrupted 5).tf.esp ≤ a → stack a = 7) ∧
      load stack (wordAt (load stack entered.tf.esp 4) 0) sigretCode.length = sigretCode ∧
      load stack (wordAt (load stack (entered.tf.esp+4) 4) 0) 8 =
        List.ofFn (interrupted 5).recvMultiQueue.front.2 ∧
      (retSignalFrom sigretCode
        { entered with tf := { entered.tf with esp := entered.tf.esp+4 } } stack).tf =
        (interrupted 5).tf := by
  obtain ⟨hkept,-,-,hcode,hmsg,-,-,hback⟩ :=
    signal_frame_layout sigretCode (interrupted 5) (fun _ => 7) (by decide) (by decide)
  exact ⟨by decide,hkept,hcode,hmsg,hback _ rfl⟩

end Layout

/-! ### The addresses -/

/-- A process after `handle_signals`, and what was stored on the way. -/
structure Delivery where
  proc : Proc
  killed : Bool
  writes : List Write

/-- `handle_signals` on a process with a given `killed`. -/
def deliverSignals (p : Proc) (killed : Bool) : Delivery :=
  ⟨(handleSignalsWrites sigretCode p).1,killed,(handleSignalsWrites sigretCode p).2⟩

/-- Every byte stored lies in the `sz` bytes of the process, or it is killed and none is stored. -/
def Delivery.Contained (d : Delivery) (sz : Word) : Prop :=
  (∀ w ∈ d.writes, ∀ a, w.Covers a → a.toNat < sz.toNat) ∨ (d.killed = true ∧ d.writes = [])

/-- The signal fits between the start of the memory of the process and its stack pointer, and the
stack pointer does not point behind the end. -/
def StackFits (p : Proc) (sz : Word) : Prop :=
  Trapframe.size+codesize+16 ≤ p.tf.esp.toNat ∧ p.tf.esp.toNat ≤ sz.toNat

lemma covered_lt_of_fits {p : Proc} {sz : Word} (h : StackFits p sz) {w : Write}
    (hw : w ∈ signalWrites sigretCode p.tf p.recvMultiQueue.front.2) {a : Word} (ha : w.Covers a) :
    a.toNat < sz.toNat := by
  have hsp : (signalEsp sigretCode p.tf).toNat+99 = p.tf.esp.toNat := toNat_signalEsp h.1
  obtain ⟨i,hi,rfl⟩ := exists_offset (signalEsp sigretCode p.tf) a
  have hlow : i < 99 := (exists_covers_iff sigretCode p.tf _ (by decide) hi).mp ⟨w,hw,ha⟩
  have hlt := p.tf.esp.isLt
  have hend := h.2
  rw [BitVec.toNat_add,BitVec.toNat_ofNat,Nat.mod_eq_of_lt hi,Nat.mod_eq_of_lt (by omega)]
  omega

/-- Without room the stores wrap around to the last address; with a stack pointer behind the end the
first byte below it is outside. -/
lemma fits_of_covered_lt {p : Proc} {sz : Word}
    (h : ∀ w ∈ signalWrites sigretCode p.tf p.recvMultiQueue.front.2, ∀ a, w.Covers a →
      a.toNat < sz.toNat) : StackFits p sz := by
  have hbyte : ∀ i < 99, (signalEsp sigretCode p.tf+BitVec.ofNat 32 i).toNat < sz.toNat := by
    intro i hi
    obtain ⟨w,hw,ha⟩ := (exists_covers_iff sigretCode p.tf p.recvMultiQueue.front.2 (by decide)
      (i := i) (by omega)).mpr hi
    exact h w hw _ ha
  have hsp : signalEsp sigretCode p.tf = p.tf.esp-99 := by
    simp only [signalEsp,length_sigretCode,codesize,Trapframe.size]
    bv_omega
  have hesp : 99 ≤ p.tf.esp.toNat := by
    by_contra hlt
    have hlast := hbyte (98-p.tf.esp.toNat) (by omega)
    have hsz := sz.isLt
    rw [hsp] at hlast
    have hwrap : (p.tf.esp-99+BitVec.ofNat 32 (98-p.tf.esp.toNat)).toNat = 2^32-1 := by
      have hroom : (99 : Word).toNat = 99 := rfl
      rw [BitVec.toNat_add,BitVec.toNat_sub,BitVec.toNat_ofNat,hroom]
      omega
    omega
  refine ⟨hesp,?_⟩
  have hlast := hbyte 98 (by omega)
  rw [hsp] at hlast
  have htop : (p.tf.esp-99+BitVec.ofNat 32 98).toNat = p.tf.esp.toNat-1 := by
    bv_omega
  omega

/-- **Signals and the memory of the process.** What `handle_signals` stores stays inside the memory
of the process if and only if the signal is not delivered or fits below a stack pointer inside it.
-/
theorem signal_contained_iff (p : Proc) (killed : Bool) (sz : Word) :
    (deliverSignals p killed).Contained sz ↔ (p.Delivers → StackFits p sz) := by
  by_cases hp : p.Delivers
  · simp only [Delivery.Contained,deliverSignals,handleSignalsWrites,hp,if_true,true_implies]
    constructor
    · rintro (h | ⟨-,hnil⟩)
      · exact fits_of_covered_lt h
      · exact nomatch hnil
    · intro h
      exact .inl fun w hw a ha => covered_lt_of_fits h hw ha
  · simp only [Delivery.Contained,deliverSignals,handleSignalsWrites,if_neg hp]
    simp [hp]

/-- A process that has set its stack pointer to an address of the kernel. -/
def strayed : Proc := { interrupted 5 with tf := { (interrupted 5).tf with esp := 0x80001000 } }

/-- Its signal is written there; the process has 16 KiB of memory, and is not killed. -/
theorem signal_written_to_kernel : strayed.Delivers ∧ ¬(deliverSignals strayed false).Contained 0x4000 ∧
    (∃ w ∈ (deliverSignals strayed false).writes, w.Covers 0x80000ff0) ∧
    (deliverSignals strayed false).killed = false := by
  refine ⟨by decide,?_,by decide,rfl⟩
  rw [Delivery.Contained,not_or]
  exact ⟨fun h => absurd (h _ (mem_cons_self ..) 0x80000ff0 (by decide)) (by decide),
    fun h => nomatch h.1⟩

end JacobiXv6.Kernel
