import JacobiXv6.Kernel.IpcWakeups

/-! What a process that sleeps in `pause_signal` or in `recv_mess` can rely on when it goes on.
`pause_signal` does not look at its queue again after `sleep`, and `recv_mess` does not look at
`killed`. -/
namespace JacobiXv6.Kernel.Ipc
open Library Function Option

variable {n : ℕ} {s s' : Ipc n} {a : IpcAct} {i q : Fin n} {pc pc₁ : IpcPc n}

/-- The process is going to wake `q` for a signal: `wakeup1` has been given the channel of `q`, or a
signal has been put into the queue of `q`. -/
def aims (q : Fin n) : IpcPc n → Bool
  | .wake chan _ back => chan = some (.pendingSignals q) || aims q back
  | .poke (.signal _) _ k back => k = q || aims q back
  | .poke (.mess _ _) _ _ back => aims q back
  | .spin back | .done back | .yield back | .nap _ back | .doze back | .sched back | .saved back
  | .woken back | .post _ _ _ back | .posted _ _ _ back => aims q back
  | _ => false

/-- A process sleeps on its own pending signals only. -/
def Naps (i : Fin n) : IpcPc n → Prop
  | .nap chan back => (∀ m, chan = .pendingSignals m → m = i) ∧ Naps i back
  | .spin back | .done back | .yield back | .doze back | .sched back | .saved back | .woken back
  | .post _ _ _ back | .posted _ _ _ back | .poke _ _ _ back | .wake _ _ back => Naps i back
  | _ => True

lemma goto_pc (s : Ipc n) (i : Fin n) (pc : IpcPc n) : (s.goto i pc).pc i = pc := update_self ..

/-! ### What a step of one process does to another -/

/-- Process `i` makes the step `a` and `q` is another one. -/
structure Apart (s : Ipc n) (a : IpcAct) (s' : Ipc n) (i q : Fin n) : Prop where
  pcs : ∀ j, j ≠ i → s'.pc j = s.pc j
  chan : s'.chan q = s.chan q
  killed : s.killed q = true → s'.killed q = true
  struck : s'.killed q = true → s.killed q = true ∨ (¬s'.Sleeping q ∧ (s.pc i).holds = true)
  asleep : s'.Sleeping q → s.Sleeping q
  woken : s.Sleeping q → s'.Sleeping q ∨ s'.killed q = true ∨ ∃ k back, s.pc i = .wake (s.chan q) k back
  head : (s'.proc q).pendingSignals.head = (s.proc q).pendingSignals.head
  tail : (s'.proc q).pendingSignals.tail = (s.proc q).pendingSignals.tail ∨
    ∃ signum rec back, a = .tick ∧ s.pc i = .posted (.signal signum) rec q back ∧
      (s'.proc q).pendingSignals.tail = ((s.proc q).pendingSignals.tail+1)%MAX_SIG
  aims : aims q (s'.pc i) = true → aims q (s.pc i) = true ∨
    (∃ signum rec back, a = .tick ∧ s.pc i = .posted (.signal signum) rec q back ∧
      (s'.proc q).pendingSignals.tail = ((s.proc q).pendingSignals.tail+1)%MAX_SIG) ∨
    ∃ what rec k back, a = .tick ∧ s.pc i = .poke what rec k back ∧ s.chan k = some (.pendingSignals q)

/-- A step that leaves state, signals, channel and `killed` of `q` alone and does not aim at it. -/
lemma Apart.of_same (hp : s.pc i = pc) (hpc : s'.pc = update s.pc i pc₁) (hchan : s'.chan q = s.chan q)
    (hkilled : s'.killed q = s.killed q) (hstate : (s'.proc q).state = (s.proc q).state)
    (hsignals : (s'.proc q).pendingSignals.head = (s.proc q).pendingSignals.head ∧
      (s'.proc q).pendingSignals.tail = (s.proc q).pendingSignals.tail)
    (haims : Ipc.aims q pc₁ = true → Ipc.aims q pc = true) : Apart s a s' i q where
  pcs j hj := by rw [hpc,update_of_ne hj]
  chan := hchan
  killed h := hkilled.trans h
  struck h := .inl (hkilled.symm.trans h)
  asleep h := hstate.symm.trans h
  woken h := .inl (hstate.trans h)
  head := hsignals.1
  tail := .inl hsignals.2
  aims h := by
    rw [hpc,update_self] at h
    rw [hp]
    exact .inl (haims h)

lemma Apart.goto (hp : s.pc i = pc) (haims : Ipc.aims q pc₁ = true → Ipc.aims q pc = true) :
    Apart s a (s.goto i pc₁) i q :=
  .of_same hp rfl rfl rfl rfl ⟨rfl,rfl⟩ haims

lemma put_view {β : Type*} (g : Proc → β) (s : Ipc n) (k : Fin n) (p : Proc) (hp : g p = g (s.proc k))
    (q : Fin n) : g ((s.put k p).proc q) = g (s.proc q) := by
  obtain rfl | hne := eq_or_ne q k
  · exact (congrArg g (update_self ..)).trans hp
  · exact congrArg g (update_of_ne hne _ _)

variable {k : Fin n}

lemma Apart.put {p : Proc} (hp : s.pc i = pc) (hstate : p.state = (s.proc k).state)
    (hsignals : p.pendingSignals.head = (s.proc k).pendingSignals.head ∧
      p.pendingSignals.tail = (s.proc k).pendingSignals.tail)
    (haims : Ipc.aims q pc₁ = true → Ipc.aims q pc = true) : Apart s a ((s.put k p).goto i pc₁) i q :=
  .of_same hp rfl rfl rfl (put_view Proc.state s k p hstate q)
    ⟨put_view (fun p => p.pendingSignals.head) s k p hsignals.1 q,
      put_view (fun p => p.pendingSignals.tail) s k p hsignals.2 q⟩ haims

lemma Apart.own {p : Proc} (hp : s.pc i = pc) (hq : q ≠ i) (hproc : s'.proc = update s.proc i p)
    (hpc : s'.pc = update s.pc i pc₁) (hchan : s'.chan q = s.chan q)
    (hkilled : s'.killed q = s.killed q)
    (haims : Ipc.aims q pc₁ = true → Ipc.aims q pc = true) : Apart s a s' i q := by
  have he : s'.proc q = s.proc q := by rw [hproc,update_of_ne hq]
  exact .of_same hp hpc hchan hkilled (by rw [he]) (by rw [he]; exact ⟨rfl,rfl⟩) haims

lemma stash_keeps (what : IpcPost) (sender : ℤ) (p : Proc) : (stash what sender p).state = p.state ∧
    (stash what sender p).pendingSignals.head = p.pendingSignals.head ∧
    (stash what sender p).pendingSignals.tail = p.pendingSignals.tail := by
  cases what with
  | mess _ _ | signal _ => exact ⟨rfl,rfl,rfl⟩

variable {back : IpcPc n} {rec : ℤ}

lemma Apart.posted {what : IpcPost} (hp : s.pc i = .posted what rec k back) :
    Apart s .tick ((s.put k (advance what (s.proc k))).goto i (.poke what rec k back)) i q := by
  cases what with
  | mess sender mess => exact .put hp rfl ⟨rfl,rfl⟩ id
  | signal signum =>
    have hstate := put_view Proc.state s k (advance (.signal signum) (s.proc k)) rfl q
    have htail : q = k → (((s.put k (advance (.signal signum) (s.proc k))).goto i
        (.poke (.signal signum) rec k back)).proc q).pendingSignals.tail =
          ((s.proc q).pendingSignals.tail+1)%MAX_SIG := by
      rintro rfl
      simp only [Ipc.goto,Ipc.put,update_self,advance]
    refine ⟨fun j hj => update_of_ne hj _ _,rfl,id,.inl,hstate.symm.trans,
      fun h => .inl (hstate.trans h),?_,?_,?_⟩
    · exact put_view (fun p => p.pendingSignals.head) s k (advance (.signal signum) (s.proc k)) rfl q
    · obtain rfl | hne := eq_or_ne q k
      · exact .inr ⟨signum,rec,back,rfl,hp,htail rfl⟩
      · left
        simp only [Ipc.goto,Ipc.put,update_of_ne hne]
    · intro h
      simp only [Ipc.goto,update_self,Ipc.aims,Bool.or_eq_true,decide_eq_true_eq] at h
      rcases h with rfl | h
      · exact .inr (.inl ⟨signum,rec,back,rfl,hp,htail rfl⟩)
      · left
        rw [hp]
        exact h

lemma Apart.poke {what : IpcPost} (hp : s.pc i = .poke what rec k back) :
    Apart s .tick (s.goto i (.wake (s.chan k) 0 (.post what rec (k+1) back))) i q := by
  have hback : Ipc.aims q back = true → Ipc.aims q (s.pc i) = true := by
    intro h
    rw [hp]
    cases what with
    | mess _ _ => exact h
    | signal _ => simp only [Ipc.aims,h,Bool.or_true]
  refine ⟨fun j hj => update_of_ne hj _ _,rfl,id,.inl,id,.inl,rfl,.inl rfl,?_⟩
  intro h
  simp only [Ipc.goto,update_self,Ipc.aims,Bool.or_eq_true,decide_eq_true_eq] at h
  rcases h with h | h
  · exact .inr (.inr ⟨what,rec,k,back,rfl,hp,h⟩)
  · exact .inl (hback h)

lemma Apart.rouse {chan : Option (IpcChan n)} {m : ℕ} (hp : s.pc i = .wake chan m back) :
    Apart s .tick ((s.rouse chan k).goto i (.wake chan (k+1) back)) i q := by
  have hsignals : ((s.setState k .runnable).proc q).pendingSignals.head =
    (s.proc q).pendingSignals.head ∧
      ((s.setState k .runnable).proc q).pendingSignals.tail = (s.proc q).pendingSignals.tail := by
    have hput := put_view Proc.pendingSignals s k { s.proc k with state := .runnable } rfl q
    exact ⟨congrArg RingBuffer.head hput,congrArg RingBuffer.tail hput⟩
  unfold Ipc.rouse
  split_ifs with hwake
  · obtain rfl | hne := eq_or_ne q k
    · -- the sleeper is woken by `wakeup1` with its own channel
      refine ⟨fun j hj => update_of_ne hj _ _,rfl,id,.inl,?_,?_,hsignals.1,.inl hsignals.2,?_⟩
      · intro h
        simp only [Sleeping,Ipc.goto,Ipc.setState,Ipc.put,update_self] at h
        cases h
      · exact fun _ => .inr (.inr ⟨m,back,by rw [hp,hwake.2]⟩)
      · intro h
        simp only [Ipc.goto,update_self] at h
        rw [hp]
        exact .inl h
    · exact .of_same hp rfl rfl rfl (congrArg Proc.state (update_of_ne hne _ _)) hsignals id
  · exact .goto hp id

lemma slay_awake (s : Ipc n) (k : Fin n) : ¬(s.slay k).Sleeping k := by
  unfold slay Sleeping
  dsimp only
  split_ifs with h
  · simp [Ipc.setState,Ipc.put]
  · exact h

lemma slay_chan (s : Ipc n) (k : Fin n) : (s.slay k).chan = s.chan := by
  unfold slay
  dsimp only
  split_ifs
  · rfl
  · rfl

lemma Apart.slay {pid : ℤ} {m : ℕ} (hp : s.pc i = .kill pid m) :
    Apart s .tick ((s.slay k).goto i (.done .user)) i q := by
  have hrest := Inv.slay_rest s k
  have hsignals : ∀ j, ((s.slay k).proc j).pendingSignals = (s.proc j).pendingSignals := by
    intro j
    unfold Ipc.slay
    dsimp only
    split_ifs
    · exact put_view Proc.pendingSignals s k { s.proc k with state := .runnable } rfl j
    · rfl
  have hpc : ((s.slay k).goto i (.done .user)).pc = update s.pc i (.done .user) := by
    rw [Ipc.goto,hrest.1]
  have hchan := slay_chan s k
  obtain rfl | hne := eq_or_ne q k
  · refine ⟨fun j hj => by rw [hpc,update_of_ne hj],congrFun hchan q,fun _ => update_self ..,
      fun _ => .inr ⟨slay_awake s q,by rw [hp]; rfl⟩,fun h => absurd h (slay_awake s q),
      fun _ => .inr (.inl (update_self ..)),?_,?_,?_⟩
    · exact congrArg RingBuffer.head (hsignals q)
    · exact .inl (congrArg RingBuffer.tail (hsignals q))
    · intro h
      rw [hpc,update_self] at h
      cases h
  · refine .of_same hp hpc (congrFun hchan q) (update_of_ne hne _ _) ?_
      ⟨congrArg RingBuffer.head (hsignals q),congrArg RingBuffer.tail (hsignals q)⟩ fun h =>
        absurd h Bool.false_ne_true
    change ((s.slay k).proc q).state = _
    unfold Ipc.slay
    dsimp only
    split_ifs
    · exact congrArg Proc.state (update_of_ne hne _ _)
    · rfl

lemma apart_tick (hq : q ≠ i) (hp : s.pc i = pc) (hs : s.tick i pc = some s') :
    Apart s .tick s' i q := by
  cases pc with
  | user =>
    cases hs
  | spin next =>
    obtain ⟨-,⟨⟩⟩ := ite_none_right_eq_some.mp hs
    exact .of_same hp rfl rfl rfl rfl ⟨rfl,rfl⟩ id
  | done next | sched back =>
    cases hs
    exact .of_same hp rfl rfl rfl rfl ⟨rfl,rfl⟩ id
  | yield back | doze back =>
    cases hs
    exact .own hp hq rfl rfl rfl rfl id
  | nap chan back | woken back =>
    cases hs
    exact .of_same hp rfl (update_of_ne hq _ _) rfl rfl ⟨rfl,rfl⟩ id
  | saved back =>
    obtain ⟨-,⟨⟩⟩ := ite_none_right_eq_some.mp hs
    exact .own hp hq rfl rfl rfl rfl id
  | post what rec k back =>
    simp only [Ipc.tick] at hs
    split_ifs at hs
    · cases hs
      obtain ⟨hstate,hsignals⟩ := stash_keeps what (s.proc i).pid (s.proc ⟨k,‹_›⟩)
      exact .put hp hstate hsignals id
    · cases hs
      exact .goto hp id
    · cases hs
      exact .goto hp id
  | posted what rec k back =>
    cases hs
    exact .posted hp
  | poke what rec k back =>
    cases hs
    exact .poke hp
  | wake chan k back =>
    simp only [Ipc.tick] at hs
    split_ifs at hs with hk
    · cases hs
      exact Apart.rouse (k := ⟨k,hk⟩) hp
    · cases hs
      refine .goto hp fun h => ?_
      rw [Ipc.aims,h,Bool.or_true]
  | recv k =>
    simp only [Ipc.tick] at hs
    split_ifs at hs with hk
    · cases hs
      unfold recvRound
      split_ifs
      · exact .goto hp fun h => by cases h
      · exact .put hp rfl ⟨rfl,rfl⟩ fun h => by cases h
      · exact .goto hp fun h => by cases h
    · cases hs
      exact .goto hp fun h => by cases h
  | multi sender rec recs mess k =>
    simp only [Ipc.tick] at hs
    split_ifs at hs
    · cases hs
      exact .put hp rfl ⟨rfl,rfl⟩ fun h => by cases h
    · cases hs
      exact .goto hp fun h => by cases h
    · cases hs
      refine .goto hp fun h => ?_
      cases recs with
      | nil => cases h
      | cons rec recs => cases h
  | pause =>
    simp only [Ipc.tick] at hs
    split_ifs at hs
    · cases hs
      exact .goto hp fun h => by cases h
    · cases hs
      exact .goto hp fun h => by cases h
  | kill pid k =>
    simp only [Ipc.tick] at hs
    split_ifs at hs
    · cases hs
      exact .slay hp
    · cases hs
      exact .goto hp fun h => by cases h
    · cases hs
      exact .goto hp fun h => by cases h
  | sigret tf =>
    cases hs
    exact .own hp hq rfl rfl rfl rfl fun h => by cases h

lemma aims_call (h : IpcPc.call a = some pc) : aims q pc = false := by
  cases a with
  | sendMulti sender recs mess =>
    cases h
    cases recs with
    | nil => rfl
    | cons rec recs => rfl
  | send | recv | sigSend | sigPause | sigRet | kill | sleep | wakeup =>
    cases h
    rfl
  | interrupt | deliver | tick => exact nomatch h

lemma apart_next (hq : q ≠ i) (hs : s.next i a = some s') : Apart s a s' i q := by
  cases a with
  | tick => exact apart_tick hq rfl hs
  | interrupt =>
    obtain ⟨-,⟨⟩⟩ := ite_none_right_eq_some.mp hs
    exact .goto rfl id
  | deliver tf =>
    simp only [Ipc.next] at hs
    split at hs
    case h_1 hp =>
      obtain ⟨-,⟨⟩⟩ := ite_none_right_eq_some.mp hs
      exact .own rfl hq rfl (update_eq_self i s.pc).symm rfl rfl id
    case h_2 => cases hs
  | _ =>
    simp only [Ipc.next] at hs
    split at hs
    case h_1 hp =>
      obtain ⟨pc,hc,rfl⟩ := map_eq_some_iff.mp hs
      exact .goto hp fun h => by rw [aims_call hc] at h; cases h
    case h_2 => cases hs

/-! ### Where a process goes -/

/-- The statements that can come after another in process `i`. -/
inductive Goes (i : Fin n) : IpcPc n → IpcPc n → Prop
  | spin (next : IpcPc n) : Goes i (.spin next) next
  | done (next : IpcPc n) : Goes i (.done next) next
  | yield (back : IpcPc n) : Goes i (.yield back) (.sched (.done back))
  | nap (chan : IpcChan n) (back : IpcPc n) : Goes i (.nap chan back) (.doze back)
  | doze (back : IpcPc n) : Goes i (.doze back) (.sched (.woken back))
  | sched (back : IpcPc n) : Goes i (.sched back) (.saved back)
  | saved (back : IpcPc n) : Goes i (.saved back) back
  | woken (back : IpcPc n) : Goes i (.woken back) back
  | found (what : IpcPost) (rec : ℤ) (k : Fin n) (back : IpcPc n) :
      Goes i (.post what rec k back) (.posted what rec k back)
  | other (what : IpcPost) (rec : ℤ) (k : ℕ) (back : IpcPc n) :
      Goes i (.post what rec k back) (.post what rec (k+1) back)
  | postEnd (what : IpcPost) (rec : ℤ) (k : ℕ) (back : IpcPc n) : Goes i (.post what rec k back) back
  | posted (what : IpcPost) (rec : ℤ) (k : Fin n) (back : IpcPc n) :
      Goes i (.posted what rec k back) (.poke what rec k back)
  | poke (what : IpcPost) (rec : ℤ) (k : Fin n) (back : IpcPc n) (chan : Option (IpcChan n)) :
      Goes i (.poke what rec k back) (.wake chan 0 (.post what rec (k+1) back))
  | wake (chan : Option (IpcChan n)) (k : ℕ) (back : IpcPc n) :
    Goes i (.wake chan k back) (.wake chan (k+1) back)
  | wakeEnd (chan : Option (IpcChan n)) (k : ℕ) (back : IpcPc n) : Goes i (.wake chan k back) back
  | recvSleep (k : Fin n) : Goes i (.recv k) (.nap (.recvQueue k) (.recv k))
  | recv (k : ℕ) : Goes i (.recv k) (.recv (k+1))
  | recvEnd (k : ℕ) : Goes i (.recv k) (.done .user)
  | multiFound (sender rec pid : ℤ) (recs : List ℤ) (mess : Msg) (k : ℕ) :
    Goes i (.multi sender rec recs mess k)
      (.post (.signal 1) pid 0 (.multi sender rec recs mess (k+1)))
  | multi (sender rec : ℤ) (recs : List ℤ) (mess : Msg) (k : ℕ) :
      Goes i (.multi sender rec recs mess k) (.multi sender rec recs mess (k+1))
  | multiEnd (sender rec : ℤ) (recs : List ℤ) (mess : Msg) (k : ℕ) :
      Goes i (.multi sender rec recs mess k) (.done (.sendMulti sender mess recs))
  | pauseSleep : Goes i .pause (.nap (.pendingSignals i) (.done .user))
  | pause : Goes i .pause (.done .user)
  | kill (pid : ℤ) (k : ℕ) : Goes i (.kill pid k) (.kill pid (k+1))
  | killEnd (pid : ℤ) (k : ℕ) : Goes i (.kill pid k) (.done .user)
  | sigret (tf : Trapframe) : Goes i (.sigret tf) (.done .user)

/-- What a step does to the process that makes it: where it goes, that it falls asleep in `doze`
only, and what it sleeps on. -/
structure Moves (s s' : Ipc n) (i : Fin n) (pc₁ : IpcPc n) : Prop where
  goes : Goes i (s.pc i) pc₁
  pc : s'.pc i = pc₁
  asleep : s'.Sleeping i → s.Sleeping i ∨ ∃ back, s.pc i = .doze back
  chan : s'.chan i = s.chan i ∨ s'.chan i = none ∨ ∃ chan back, s.pc i = .nap chan back ∧
    s'.chan i = some chan
  killed : s'.killed i = s.killed i ∨ ∃ pid k, s.pc i = .kill pid k

lemma Moves.goto (hp : s.pc i = pc) (h : Goes i pc pc₁) : Moves s (s.goto i pc₁) i pc₁ :=
  ⟨hp ▸ h,update_self ..,.inl,.inl rfl,.inl rfl⟩

lemma Moves.put {p : Proc} (hp : s.pc i = pc) (h : Goes i pc pc₁)
    (hstate : p.state = (s.proc k).state) :
    Moves s ((s.put k p).goto i pc₁) i pc₁ :=
  ⟨hp ▸ h,update_self ..,fun hs => .inl ((put_view Proc.state s k p hstate i).symm.trans hs),.inl rfl,
    .inl rfl⟩

lemma moves_tick (hp : s.pc i = pc) (hs : s.tick i pc = some s') : ∃ pc₁, Moves s s' i pc₁ := by
  cases pc with
  | user =>
    exact nomatch hs
  | spin next =>
    obtain ⟨-,⟨⟩⟩ := ite_none_right_eq_some.mp hs
    exact ⟨next,hp ▸ .spin next,update_self ..,.inl,.inl rfl,.inl rfl⟩
  | done next =>
    cases hs
    exact ⟨next,hp ▸ .done next,update_self ..,.inl,.inl rfl,.inl rfl⟩
  | yield back =>
    cases hs
    refine ⟨_,hp ▸ .yield back,update_self ..,?_,.inl rfl,.inl rfl⟩
    simp [Sleeping,Ipc.goto,setState,Ipc.put]
  | nap chan back =>
    cases hs
    exact ⟨_,hp ▸ .nap chan back,update_self ..,.inl,
      .inr (.inr ⟨chan,back,hp,update_self ..⟩),.inl rfl⟩
  | doze back =>
    cases hs
    exact ⟨_,hp ▸ .doze back,update_self ..,fun _ => .inr ⟨back,hp⟩,.inl rfl,.inl rfl⟩
  | sched back =>
    cases hs
    exact ⟨_,hp ▸ .sched back,update_self ..,.inl,.inl rfl,.inl rfl⟩
  | saved back =>
    obtain ⟨-,⟨⟩⟩ := ite_none_right_eq_some.mp hs
    refine ⟨_,hp ▸ .saved back,update_self ..,?_,.inl rfl,.inl rfl⟩
    simp [Sleeping,Ipc.goto,setState,Ipc.put]
  | woken back =>
    cases hs
    exact ⟨_,hp ▸ .woken back,update_self ..,.inl,.inr (.inl (update_self ..)),.inl rfl⟩
  | post what rec k back =>
    simp only [Ipc.tick] at hs
    split_ifs at hs with hk
    · cases hs
      exact ⟨_,.put hp (.found what rec ⟨k,hk⟩ back) (stash_keeps what _ _).1⟩
    · cases hs
      exact ⟨_,.goto hp (.other what rec k back)⟩
    · cases hs
      exact ⟨_,.goto hp (.postEnd what rec k back)⟩
  | posted what rec k back =>
    cases hs
    refine ⟨_,.put hp (.posted what rec k back) ?_⟩
    cases what with
    | mess _ _ => rfl
    | signal _ => rfl
  | poke what rec k back =>
    cases hs
    exact ⟨_,.goto hp (.poke what rec k back _)⟩
  | wake chan k back =>
    simp only [Ipc.tick] at hs
    split_ifs at hs with hk
    · cases hs
      have ht : Tame false s (s.rouse chan ⟨k,hk⟩) := Tame.rouse
      obtain ⟨hchan,-⟩ := rouse_rest s chan ⟨k,hk⟩
      refine ⟨_,hp ▸ .wake chan k back,update_self ..,fun h => .inl (ht.sleeping i h),
        .inl (congrFun hchan i),.inl ?_⟩
      change (s.rouse chan ⟨k,hk⟩).killed i = s.killed i
      unfold rouse
      split_ifs
      · rfl
      · rfl
    · cases hs
      exact ⟨_,.goto hp (.wakeEnd chan k back)⟩
  | recv k =>
    simp only [Ipc.tick] at hs
    split_ifs at hs with hk
    · cases hs
      unfold recvRound
      split_ifs
      · exact ⟨_,.goto hp (.recvSleep ⟨k,hk⟩)⟩
      · exact ⟨_,.put hp (.recv k) rfl⟩
      · exact ⟨_,.goto hp (.recv k)⟩
    · cases hs
      exact ⟨_,.goto hp (.recvEnd k)⟩
  | multi sender rec recs mess k =>
    simp only [Ipc.tick] at hs
    split_ifs at hs
    · cases hs
      exact ⟨_,.put hp (.multiFound sender rec _ recs mess k) rfl⟩
    · cases hs
      exact ⟨_,.goto hp (.multi sender rec recs mess k)⟩
    · cases hs
      exact ⟨_,.goto hp (.multiEnd sender rec recs mess k)⟩
  | pause =>
    simp only [Ipc.tick] at hs
    split_ifs at hs
    · cases hs
      exact ⟨_,.goto hp .pauseSleep⟩
    · cases hs
      exact ⟨_,.goto hp .pause⟩
  | kill pid k =>
    simp only [Ipc.tick] at hs
    split_ifs at hs with hk
    · cases hs
      have ht : Tame false s (s.slay ⟨k,hk⟩) := Tame.slay
      exact ⟨_,hp ▸ .killEnd pid k,update_self ..,fun h => .inl (ht.sleeping i h),
        .inl (congrFun (slay_chan s ⟨k,hk⟩) i),.inr ⟨pid,k,hp⟩⟩
    · cases hs
      exact ⟨_,.goto hp (.kill pid k)⟩
    · cases hs
      exact ⟨_,.goto hp (.killEnd pid k)⟩
  | sigret tf =>
    cases hs
    exact ⟨_,.put hp (.sigret tf) rfl⟩

/-! ### Channels of signals -/

/-- Nobody sleeps on the pending signals of another, now or in what it is going to do. -/
structure Chans (s : Ipc n) : Prop where
  naps : ∀ k, Naps k (s.pc k)
  chan : ∀ k m, s.chan k = some (.pendingSignals m) → m = k

lemma Goes.naps (h : Goes i pc pc₁) (hn : Naps i pc) : Naps i pc₁ := by
  cases h with
  | nap chan back => exact hn.2
  | recvSleep k => exact ⟨nofun,trivial⟩
  | pauseSleep => exact ⟨fun m hm => (IpcChan.pendingSignals.inj hm).symm,trivial⟩
  | multiEnd sender rec recs mess k =>
    cases recs with
    | nil => trivial
    | cons rec recs => trivial
  | found | posted | poke | wake | wakeEnd | other | postEnd | spin | done | yield | doze | sched
  | saved | woken =>
    exact hn
  | recv | recvEnd | multiFound | multi | pause | kill | killEnd | sigret => trivial

lemma naps_call (h : IpcPc.call a = some pc) : Naps i pc := by
  cases a with
  | sendMulti sender recs mess =>
    cases h
    cases recs with
    | nil => trivial
    | cons rec recs => trivial
  | sleep k =>
    cases h
    exact ⟨nofun,trivial⟩
  | send | recv | sigSend | sigPause | sigRet | kill | wakeup =>
    cases h
    trivial
  | interrupt | deliver | tick => exact nomatch h

lemma next_chan (ha : a ≠ .tick) (hs : s.next i a = some s') : s'.chan = s.chan ∧
    (Naps i (s.pc i) → Naps i (s'.pc i)) := by
  cases a with
  | tick => exact absurd rfl ha
  | interrupt =>
    obtain ⟨-,⟨⟩⟩ := ite_none_right_eq_some.mp hs
    refine ⟨rfl,fun h => ?_⟩
    rw [goto_pc]
    exact h
  | deliver tf =>
    simp only [Ipc.next] at hs
    split at hs
    case h_1 hp =>
      obtain ⟨-,⟨⟩⟩ := ite_none_right_eq_some.mp hs
      exact ⟨rfl,id⟩
    case h_2 => cases hs
  | _ =>
    simp only [Ipc.next] at hs
    split at hs
    case h_1 hp =>
      obtain ⟨pc,hc,rfl⟩ := map_eq_some_iff.mp hs
      refine ⟨rfl,fun _ => ?_⟩
      rw [goto_pc]
      exact naps_call hc
    case h_2 => cases hs

lemma Chans.tick (h : Chans s) (hs : s.tick i (s.pc i) = some s') :
    Naps i (s'.pc i) ∧ ∀ m, s'.chan i = some (.pendingSignals m) → m = i := by
  obtain ⟨pc₁,hm⟩ := moves_tick rfl hs
  refine ⟨?_,?_⟩
  · rw [hm.pc]
    exact hm.goes.naps (h.naps i)
  · intro m hc
    obtain he | he | ⟨chan,back,hp,he⟩ := hm.chan
    · exact h.chan i m (he.symm.trans hc)
    · exact nomatch he.symm.trans hc
    · have hn := h.naps i
      rw [hp] at hn
      exact hn.1 m (Option.some.inj (he.symm.trans hc))

lemma Chans.next (h : Chans s) (hs : s.next i a = some s') : Chans s' := by
  have hown : Naps i (s'.pc i) ∧ ∀ m, s'.chan i = some (.pendingSignals m) → m = i := by
    by_cases ha : a = .tick
    · subst ha
      exact h.tick hs
    · obtain ⟨hchan,hnaps⟩ := next_chan ha hs
      rw [hchan]
      exact ⟨hnaps (h.naps i),h.chan i⟩
  constructor
  · intro k
    obtain rfl | hne := eq_or_ne k i
    · exact hown.1
    · rw [(apart_next hne hs).pcs k hne]
      exact h.naps k
  · intro k m hc
    obtain rfl | hne := eq_or_ne k i
    · exact hown.2 m hc
    · rw [(apart_next hne hs).chan] at hc
      exact h.chan k m hc

/-! ### `pause_signal` -/

/-- There is a signal, or the process has been killed. -/
def Called (s : Ipc n) (q : Fin n) : Prop :=
  (s.proc q).pendingSignals.head ≠ (s.proc q).pendingSignals.tail ∨ s.killed q = true

/-- Nobody is going to wake `q` for a signal when there is none. -/
def Unaimed (s : Ipc n) (q : Fin n) : Prop :=
  (s.proc q).pendingSignals.head = (s.proc q).pendingSignals.tail → ∀ j, aims q (s.pc j) = false

/-- The step does not mislead a process in `pause_signal`. No message goes to a process that sleeps
on its signals, no signal is put into a queue that has no room for it, and nobody is still waking a
process for an earlier signal when it goes to sleep. -/
def gentle (s : Ipc n) : Fin n×IpcAct → Bool
  | (i,.tick) =>
    match s.pc i with
    | .poke (.mess _ _) _ k _ => ∀ m, s.chan k ≠ some (.pendingSignals m)
    | .posted (.signal _) _ k _ => (s.proc k).pendingSignals.head ≠
      ((s.proc k).pendingSignals.tail+1)%MAX_SIG
    | .nap (.pendingSignals m) _ => ∀ j, aims m (s.pc j) = false
    | _ => true
  | _ => true

lemma gentle_mess {sender : ℤ} {mess : Msg} (h : gentle s (i,.tick))
    (hp : s.pc i = .poke (.mess sender mess) rec k back) (m : Fin n) :
    s.chan k ≠ some (.pendingSignals m) := by
  simp only [gentle,hp,decide_eq_true_eq] at h
  exact h m

lemma gentle_room {signum : ℤ} (h : gentle s (i,.tick))
    (hp : s.pc i = .posted (.signal signum) rec k back) :
    (s.proc k).pendingSignals.head ≠ ((s.proc k).pendingSignals.tail+1)%MAX_SIG := by
  simp only [gentle,hp,decide_eq_true_eq] at h
  exact h

lemma gentle_nap {m : Fin n} (h : gentle s (i,.tick)) (hp : s.pc i = .nap (.pendingSignals m) back)
    (j : Fin n) : aims m (s.pc j) = false := by
  simp only [gentle,hp,decide_eq_true_eq] at h
  exact h j

lemma Called.apart (h : Called s q) (ha : Apart s a s' i q) (hg : gentle s (i,a)) : Called s' q := by
  obtain h | h := h
  · left
    rw [ha.head]
    obtain he | ⟨signum,rec,back,rfl,hp,he⟩ := ha.tail
    · rw [he]
      exact h
    · rw [he]
      exact gentle_room hg hp
  · exact .inr (ha.killed h)

lemma Unaimed.apart (h : Unaimed s q) (ha : Apart s a s' i q) (hc : Chans s) (hg : gentle s (i,a)) :
    Unaimed s' q := by
  intro hempty j
  rw [ha.head] at hempty
  have hempty₀ : (s.proc q).pendingSignals.head = (s.proc q).pendingSignals.tail := by
    obtain he | ⟨signum,rec,back,rfl,hp,he⟩ := ha.tail
    · exact hempty.trans he
    · exact absurd (hempty.trans he) (gentle_room hg hp)
  obtain rfl | hne := eq_or_ne j i
  · rw [Bool.eq_false_iff]
    intro haims
    obtain he | ⟨signum,rec,back,rfl,hp,he⟩ | ⟨what,rec,k,back,rfl,hp,he⟩ := ha.aims haims
    · exact nomatch (h hempty₀ j).symm.trans he
    · exact gentle_room hg hp (hempty.trans he)
    · -- whoever is about to wake it has put a signal into its queue
      cases what with
      | mess sender mess => exact gentle_mess hg hp q he
      | signal signum =>
        obtain rfl := hc.chan k q he
        have hno := h hempty₀ j
        rw [hp,Ipc.aims,decide_eq_true rfl] at hno
        exact nomatch hno
  · rw [ha.pcs j hne]
    exact h hempty₀ j

/-- What is known of process `q` at each place of `pause_signal`. -/
inductive Phase (s : Ipc n) (q : Fin n) : IpcPc n → Prop
  | spin : Phase s q (.spin .pause)
  | pause : Phase s q .pause
  | nap : Phase s q (.nap (.pendingSignals q) (.done .user))
  | doze (hchan : s.chan q = some (.pendingSignals q)) (h : Unaimed s q) :
    Phase s q (.doze (.done .user))
  | sched (hchan : s.chan q = some (.pendingSignals q)) (h : s.Sleeping q ∧ Unaimed s q ∨ Called s q) :
      Phase s q (.sched (.woken (.done .user)))
  | saved (hchan : s.chan q = some (.pendingSignals q)) (h : s.Sleeping q ∧ Unaimed s q ∨ Called s q) :
      Phase s q (.saved (.woken (.done .user)))
  | woken (h : Called s q) : Phase s q (.woken (.done .user))
  | done (h : Called s q) : Phase s q (.done .user)
  | user (h : Called s q) : Phase s q .user

lemma asleep_apart (h : s.Sleeping q ∧ Unaimed s q ∨ Called s q)
    (hchan : s.chan q = some (.pendingSignals q))
    (ha : Apart s a s' i q) (hc : Chans s) (hg : gentle s (i,a)) : s'.Sleeping q ∧ Unaimed s' q ∨
      Called s' q := by
  obtain ⟨hs,hu⟩ | h := h
  · obtain hs' | hk | ⟨k,back,hp⟩ := ha.woken hs
    · exact .inl ⟨hs',hu.apart ha hc hg⟩
    · exact .inr (.inr hk)
    · right
      refine Called.apart (.inl fun hempty => ?_) ha hg
      have hno := hu hempty i
      rw [hp,hchan,Ipc.aims,decide_eq_true rfl] at hno
      exact nomatch hno
  · exact .inr (h.apart ha hg)

lemma Phase.apart (h : Phase s q pc) (ha : Apart s a s' i q) (hc : Chans s) (hg : gentle s (i,a)) :
    Phase s' q pc := by
  cases h with
  | spin => exact .spin
  | pause => exact .pause
  | nap => exact .nap
  | doze hchan h => exact .doze (ha.chan.trans hchan) (h.apart ha hc hg)
  | sched hchan h => exact .sched (ha.chan.trans hchan) (asleep_apart h hchan ha hc hg)
  | saved hchan h => exact .saved (ha.chan.trans hchan) (asleep_apart h hchan ha hc hg)
  | woken h => exact .woken (h.apart ha hg)
  | done h => exact .done (h.apart ha hg)
  | user h => exact .user (h.apart ha hg)

lemma Unaimed.goto (h : ∀ j, aims q (s.pc j) = false) (hpc : s'.pc = update s.pc q pc₁)
    (haims : aims q pc₁ = false) : Unaimed s' q := by
  intro _ j
  rw [hpc]
  obtain rfl | hne := eq_or_ne j q
  · rw [update_self]
    exact haims
  · rw [update_of_ne hne]
    exact h j

lemma Phase.own (h : Phase s q (s.pc q)) (hs : s.tick q (s.pc q) = some s') (hg : gentle s (q,.tick)) :
    Phase s' q (s'.pc q) := by
  have hto : ∀ {pc}, s'.pc q = pc → Phase s' q pc → Phase s' q (s'.pc q) := fun hpc h => hpc ▸ h
  generalize hp : s.pc q = pc at h hs
  cases h with
  | spin =>
    obtain ⟨-,⟨⟩⟩ := ite_none_right_eq_some.mp hs
    exact hto (update_self ..) .pause
  | pause =>
    rw [Ipc.tick] at hs
    split_ifs at hs with hempty
    · cases hs
      exact hto (update_self ..) .nap
    · cases hs
      exact hto (update_self ..) (.done (.inl hempty))
  | nap =>
    cases hs
    exact hto (update_self ..) (.doze (update_self ..) (.goto (gentle_nap hg hp) rfl rfl))
  | doze hchan h =>
    cases hs
    have hsame := put_view Proc.pendingSignals s q { s.proc q with state := .sleeping } rfl q
    have hu : Unaimed ((s.setState q .sleeping).goto q (.sched (.woken (.done .user)))) q := by
      intro hempty
      refine Unaimed.goto (h ?_) rfl rfl hempty
      change ((s.setState q .sleeping).proc q).pendingSignals.head =
        ((s.setState q .sleeping).proc q).pendingSignals.tail
        at hempty
      rwa [Ipc.setState,hsame] at hempty
    refine hto (update_self ..) (.sched hchan (.inl ⟨?_,hu⟩))
    simp only [Sleeping,Ipc.goto,Ipc.setState,Ipc.put,update_self]
  | sched hchan h =>
    cases hs
    refine hto (update_self ..) (.saved hchan ?_)
    obtain ⟨hsl,hu⟩ | h := h
    · exact .inl ⟨hsl,fun hempty => Unaimed.goto (hu hempty) rfl rfl hempty⟩
    · exact .inr h
  | saved hchan h =>
    obtain ⟨⟨hrun,-⟩,⟨⟩⟩ := ite_none_right_eq_some.mp hs
    refine hto (update_self ..) (.woken ?_)
    obtain ⟨hsl,-⟩ | h := h
    · cases hrun.symm.trans hsl
    · have hsame := put_view Proc.pendingSignals s q { s.proc q with state := .running } rfl q
      unfold Called
      change ((s.setState q .running).proc q).pendingSignals.head ≠
        ((s.setState q .running).proc q).pendingSignals.tail ∨ _
      rw [Ipc.setState,hsame]
      exact h
  | woken h =>
    cases hs
    exact hto (update_self ..) (.done h)
  | done h =>
    cases hs
    exact hto (update_self ..) (.user h)
  | user h => cases hs

/-- A process that has called `pause_signal` is on its way through it until it is back. -/
lemma phase_next (h : Phase s q (s.pc q)) (hback : s.pc q ≠ .user) (hc : Chans s)
    (hs : s.next i a = some s')
    (hg : gentle s (i,a)) : Phase s' q (s'.pc q) := by
  obtain rfl | hne := eq_or_ne q i
  · cases a with
    | tick => exact h.own hs hg
    | interrupt =>
      obtain ⟨hint,-⟩ := ite_none_right_eq_some.mp hs
      generalize s.pc q = pc at h hint hback
      cases h with
      | user => exact absurd rfl hback
      | _ => cases hint
    | _ =>
      simp only [Ipc.next] at hs
      cases hs
  · have ha := apart_next hne hs
    rw [ha.pcs q hne]
    exact h.apart ha hc hg

lemma Chans.start (proc : Fin n → Proc) (killed : Fin n → Bool) : Chans (initial proc killed) where
  naps _ := trivial
  chan _ _ := nofun

/-- `pause_signal` does not look at its queue again when it is woken. It returns only with a signal
pending or `killed` set in every run whose steps do not mislead it. -/
theorem pause_returns_called {proc : Fin n → Proc} {killed : Fin n → Bool}
    {as bs : List (Fin n×IpcAct)} {s₁ s₂ : Ipc n}
    (hbefore : Run (fun s a t => Step s a t ∧ gentle s a) (initial proc killed) as s₁)
    (hcall : Step s₁ (q,.sigPause) s₂)
    (hduring : Run (fun s a t => Step s a t ∧ gentle s a ∧ s.pc q ≠ .user) s₂ bs s)
    (hreturn : s.pc q = .user) :
    (s.proc q).pendingSignals.head ≠ (s.proc q).pendingSignals.tail ∨ s.killed q = true := by
  have hc₁ : Chans s₁ :=
    Run.invariant (fun _ s => Chans s) (fun _ _ _ _ hc hs => hc.next hs.1) hbefore
      (Chans.start proc killed)
  have hc₂ : Chans s₂ := hc₁.next hcall
  have hphase : Phase s₂ q (s₂.pc q) := by
    simp only [Step,Ipc.next] at hcall
    split at hcall
    case h_1 hp =>
      cases hcall
      rw [goto_pc]
      exact .spin
    case h_2 => cases hcall
  obtain ⟨-,h⟩ : Chans s ∧ Phase s q (s.pc q) := by
    refine Run.invariant (fun _ s => Chans s ∧ Phase s q (s.pc q)) ?_ hduring ⟨hc₂,hphase⟩
    intro _ _ _ _ hi hs
    exact ⟨hi.1.next hs.1,phase_next hi.2 hs.2.2 hi.1 hs.1 hs.2.1⟩
  rw [hreturn] at h
  cases h with
  | user h => exact h

instance (pc : IpcPc n) : Decidable (pc = .user) := by
  cases pc
  case user => exact isTrue rfl
  all_goals exact isFalse nofun

/-- The first process falls asleep in `pause_signal`, the second makes a call and goes `k`
statements further, and the first returns. -/
def naps (p q : Fin n) (a : IpcAct) (k : ℕ) : List (Fin n×IpcAct) :=
  List.replicate 5 (p,.tick)++(q,a)::List.replicate k (q,.tick)++List.replicate 3 (p,.tick)

def bothRun (p q : Fin n) : List (Fin n×IpcAct) := [(p,.tick),(p,.tick),(q,.tick),(q,.tick)]

theorem pause_returns_called_signal : ∃ s₁ s₂ s,
    Run (fun s a t => Step s a t ∧ gentle s a) pair (bothRun 0 1) s₁ ∧ Step s₁ (0,.sigPause) s₂ ∧
    Run (fun s a t => Step s a t ∧ gentle s a ∧ s.pc 0 ≠ .user) s₂ (naps 0 1 (.sigSend 1 7) 8) s ∧
      s.pc 0 = .user ∧
    ((s.proc 0).pendingSignals.head ≠ (s.proc 0).pendingSignals.tail ∨ s.killed 0 = true) := by
  have he : ((exec (fun a s => if gentle s a then next s a.1 a.2 else none) (bothRun 0 1) pair).bind
    fun s₁ =>
      (s₁.next 0 .sigPause).bind fun s₂ =>
      (exec (fun a s => if gentle s a ∧ s.pc 0 ≠ .user then next s a.1 a.2 else none)
        (naps 0 1 (.sigSend 1 7) 8) s₂).map
      fun s => decide (s.pc 0 = .user)) = some true := by
    decide +kernel
  obtain ⟨s₁,h₁,he⟩ := bind_eq_some_iff.mp he
  obtain ⟨s₂,h₂,he⟩ := bind_eq_some_iff.mp he
  obtain ⟨s,h₃,he⟩ := map_eq_some_iff.mp he
  have hbefore : Run (fun s a t => Step s a t ∧ gentle s a) pair (bothRun 0 1) s₁ :=
    .of_exec_if (P := fun s a => gentle s a) h₁
  have hduring :
      Run (fun s a t => Step s a t ∧ gentle s a ∧ s.pc 0 ≠ .user) s₂
      (naps 0 1 (.sigSend 1 7) 8) s :=
    .of_exec_if (P := fun s a => gentle s a ∧ s.pc 0 ≠ .user) h₃
  have hreturn : s.pc 0 = .user := of_decide_eq_true he
  exact ⟨s₁,s₂,s,hbefore,h₂,hduring,hreturn,pause_returns_called hbefore h₂ hduring hreturn⟩

/-- A message wakes a process that has called `pause_signal`, which returns without a signal. -/
theorem pause_returns_for_message : ∃ s₁ s₂ s, Run Step pair (bothRun 0 1) s₁ ∧
    Step s₁ (0,.sigPause) s₂ ∧
    Run (fun s a t => Step s a t ∧ s.pc 0 ≠ .user) s₂ (naps 0 1 (.send 2 1 fun _ => 0) 10) s ∧
      s.pc 0 = .user ∧
    (s.proc 0).pendingSignals.head = (s.proc 0).pendingSignals.tail ∧ s.killed 0 = false := by
  have he : ((exec (fun a s => next s a.1 a.2) (bothRun 0 1) pair).bind fun s₁ =>
    (s₁.next 0 .sigPause).bind fun s₂ =>
      (exec (fun a s => if s.pc 0 ≠ .user then next s a.1 a.2 else none)
        (naps 0 1 (.send 2 1 fun _ => 0) 10) s₂).map
      fun s => decide
        (s.pc 0 = .user ∧ (s.proc 0).pendingSignals.head = (s.proc 0).pendingSignals.tail ∧
        s.killed 0 = false)) = some true := by
    decide +kernel
  obtain ⟨s₁,h₁,he⟩ := bind_eq_some_iff.mp he
  obtain ⟨s₂,h₂,he⟩ := bind_eq_some_iff.mp he
  obtain ⟨s,h₃,he⟩ := map_eq_some_iff.mp he
  have hduring :
      Run (fun s a t => Step s a t ∧ s.pc 0 ≠ .user) s₂ (naps 0 1 (.send 2 1 fun _ => 0) 10) s :=
    .of_exec_if (P := fun (s : Ipc 2) _ => s.pc 0 ≠ .user) h₃
  exact ⟨s₁,s₂,s,.of_exec h₁,h₂,hduring,of_decide_eq_true he⟩

/-! ### `recv_mess` -/

/-- A killed process does not find its mailbox empty in `recv_mess`. -/
def heeded (s : Ipc n) : Fin n×IpcAct → Bool
  | (i,.tick) =>
    match s.pc i with
    | .recv k => ∀ j : Fin n, j = k → (s.proc j).pid = (s.proc i).pid →
      (s.proc j).recvQueue.head = (s.proc j).recvQueue.tail → s.killed i = false
    | _ => true
  | _ => true

/-- Process `q` has not been killed if it sleeps on a mailbox or is about to. -/
structure Spared (s : Ipc n) (q : Fin n) : Prop where
  nap : ∀ j back, s.pc q = .nap (.recvQueue j) back → s.killed q = false
  doze : ∀ j back, s.pc q = .doze back → s.chan q = some (.recvQueue j) → s.killed q = false
  asleep : ∀ j, s.Sleeping q → s.chan q = some (.recvQueue j) → s.killed q = false

/-- A table in which every mailbox has a message. -/
def full (chan : Option (IpcChan n)) : Ipc n where
  proc _ := { fresh 0 with recvQueue := ⟨fun _ => (0,fun _ => 0),0,1⟩ }
  chan _ := chan
  killed _ := false
  pc _ := .user
  lock := none

lemma not_calm_nap {j : Fin n} : ¬Calm false (.nap (.recvQueue j) back) := by
  intro h
  exact nomatch (h (full none) j .recv j rfl trivial).2

lemma not_calm_doze (i : Fin n) : ¬Calm false (.doze back) := by
  intro h
  exact nomatch (h (full (some (.recvQueue i))) i .recv i rfl trivial).2

/-- Only the loop of `recv_mess` leads to a sleep on a mailbox. -/
lemma Goes.recv_of_nap {j : Fin n} (h : Goes i pc (.nap (.recvQueue j) back)) (hwf : Wf false pc) :
    ∃ k, pc = .recv k := by
  cases h with
  | spin | saved | woken | postEnd => exact absurd hwf.2.1 not_calm_nap
  | done => exact nomatch hwf.1
  | wakeEnd =>
    obtain hcalm | ⟨what,rec,k,b,hb⟩ := hwf.2.1
    · exact absurd hcalm not_calm_nap
    · exact nomatch hb
  | recvSleep => exact ⟨_,rfl⟩

lemma Goes.nap_of_doze (h : Goes i pc (.doze back)) (hwf : Wf false pc) :
    ∃ chan, pc = .nap chan back := by
  cases h with
  | spin | saved | woken | postEnd => exact absurd hwf.2.1 (not_calm_doze i)
  | done => exact nomatch hwf.1
  | wakeEnd =>
    obtain hcalm | ⟨what,rec,k,b,hb⟩ := hwf.2.1
    · exact absurd hcalm (not_calm_doze i)
    · exact nomatch hb
  | nap chan => exact ⟨chan,rfl⟩

lemma Spared.apart (h : Spared s q) (hinv : Inv false s) (hne : q ≠ i) (ha : Apart s a s' i q) :
    Spared s' q := by
  have hpc := ha.pcs q hne
  have hlocked : (s.pc q).holds = true → s.killed q = false → s'.killed q = false := by
    intro hq hk
    rw [Bool.eq_false_iff]
    intro hk'
    obtain hs | ⟨-,hi⟩ := ha.struck hk'
    · exact nomatch hk.symm.trans hs
    · exact hne (Option.some.inj ((hinv.lock.eq_some hq).symm.trans (hinv.lock.eq_some hi)))
  constructor
  · intro j back hp
    rw [hpc] at hp
    exact hlocked (by rw [hp]; rfl) (h.nap j back hp)
  · intro j back hp hchan
    rw [hpc] at hp
    rw [ha.chan] at hchan
    exact hlocked (by rw [hp]; rfl) (h.doze j back hp hchan)
  · intro j hs hchan
    rw [ha.chan] at hchan
    have hk := h.asleep j (ha.asleep hs) hchan
    rw [Bool.eq_false_iff]
    intro hk'
    obtain hkilled | ⟨hawake,-⟩ := ha.struck hk'
    · exact nomatch hk.symm.trans hkilled
    · exact hawake hs

lemma recv_naps {k : ℕ} {chan : IpcChan n} (hs : s.tick i (.recv k) = some s')
    (hp : s'.pc i = .nap chan back) :
    s'.killed i = s.killed i ∧ ∃ h : k < n, (s.proc ⟨k,h⟩).pid = (s.proc i).pid ∧
      (s.proc ⟨k,h⟩).recvQueue.head = (s.proc ⟨k,h⟩).recvQueue.tail := by
  rw [Ipc.tick] at hs
  split_ifs at hs with hk
  · cases hs
    revert hp
    unfold recvRound
    split_ifs with hpid hempty
    · exact fun _ => ⟨rfl,hk,hpid,hempty⟩
    · intro hp
      rw [goto_pc] at hp
      cases hp
    · intro hp
      rw [goto_pc] at hp
      cases hp
  · cases hs
    rw [goto_pc] at hp
    cases hp

lemma Spared.tick (h : Spared s i) (hinv : Inv false s) (hs : s.tick i (s.pc i) = some s')
    (hg : heeded s (i,.tick)) :
    Spared s' i := by
  obtain ⟨pc₁,hm⟩ := moves_tick rfl hs
  have hwf := hinv.wf i
  constructor
  · intro j back hp
    obtain rfl := hm.pc.symm.trans hp
    obtain ⟨k,hk⟩ := hm.goes.recv_of_nap hwf
    rw [hk] at hs
    obtain ⟨hkilled,hlt,hpid,hempty⟩ := recv_naps hs hp
    simp only [heeded,hk,decide_eq_true_eq] at hg
    rw [hkilled]
    exact hg ⟨k,hlt⟩ rfl hpid hempty
  · intro j back hp hchan
    obtain rfl := hm.pc.symm.trans hp
    obtain ⟨chan,hn⟩ := hm.goes.nap_of_doze hwf
    rw [hn] at hs
    cases hs
    change update s.chan i (some chan) i = _ at hchan
    rw [update_self] at hchan
    obtain rfl := Option.some.inj hchan
    exact h.nap j back hn
  · intro j hsl hchan
    obtain hsl₀ | ⟨back,hd⟩ := hm.asleep hsl
    · obtain ⟨back,hb | hb⟩ := hinv.asleep i hsl₀
      · rw [hb] at hs
        cases hs
        exact h.asleep j hsl₀ hchan
      · rw [hb] at hs
        obtain ⟨⟨hrun,-⟩,-⟩ := ite_none_right_eq_some.mp hs
        exact nomatch hrun.symm.trans hsl₀
    · rw [hd] at hs
      cases hs
      exact h.doze j back hd hchan

lemma call_awake (h : IpcPc.call a = some pc) : (∀ chan back, pc ≠ .nap chan back) ∧
    ∀ back, pc ≠ .doze back := by
  cases a with
  | sendMulti sender recs mess =>
    cases h
    cases recs with
    | nil | cons rec recs => exact ⟨nofun,nofun⟩
  | send | recv | sigSend | sigPause | sigRet | kill | sleep | wakeup =>
    cases h
    exact ⟨nofun,nofun⟩
  | interrupt | deliver | tick => exact nomatch h

lemma Spared.goto (h : Spared s i) (hnap : ∀ chan back, pc₁ ≠ .nap chan back)
    (hdoze : ∀ back, pc₁ ≠ .doze back) :
    Spared (s.goto i pc₁) i where
  nap _ back hp := absurd ((goto_pc s i pc₁).symm.trans hp) (hnap _ back)
  doze _ back hp _ := absurd ((goto_pc s i pc₁).symm.trans hp) (hdoze back)
  asleep := h.asleep

lemma Spared.own (h : Spared s i) (hinv : Inv false s) (hs : s.next i a = some s')
    (hg : heeded s (i,a)) : Spared s' i := by
  cases a with
  | tick => exact h.tick hinv hs hg
  | interrupt =>
    obtain ⟨-,⟨⟩⟩ := ite_none_right_eq_some.mp hs
    exact h.goto (by intro _ _ he; cases he) (by intro _ he; cases he)
  | deliver tf =>
    simp only [Ipc.next] at hs
    split at hs
    case h_1 hp =>
      obtain ⟨-,⟨⟩⟩ := ite_none_right_eq_some.mp hs
      have hstate := put_view Proc.state s i (Proc.enterHandler { s.proc i with tf := tf }) rfl i
      exact ⟨h.nap,h.doze,fun j hsl => h.asleep j (hstate.symm.trans hsl)⟩
    case h_2 => cases hs
  | _ =>
    simp only [Ipc.next] at hs
    split at hs
    case h_1 hp =>
      obtain ⟨pc,hc,rfl⟩ := map_eq_some_iff.mp hs
      exact h.goto (call_awake hc).1 (call_awake hc).2
    case h_2 => cases hs

/-- `recv_mess` does not look at `killed`. No killed process sleeps on a mailbox in any run in which
no killed process finds its mailbox empty. -/
theorem killed_not_asleep_in_recv {proc : Fin n → Proc} {killed : Fin n → Bool}
    {as : List (Fin n×IpcAct)}
    (h : Run (fun s a t => Step s a t ∧ heeded s a) (initial proc killed) as s)
    (hkilled : s.killed q = true) :
    ¬((s.proc q).state = .sleeping ∧ ∃ j, s.chan q = some (.recvQueue j)) := by
  have hstart : Inv false (initial proc killed) ∧ ∀ q, Spared (initial proc killed) q :=
    ⟨Inv.start proc killed,fun _ => ⟨fun _ _ => nofun,fun _ _ => nofun,fun _ _ => nofun⟩⟩
  obtain ⟨-,hspared⟩ : Inv false s ∧ ∀ q, Spared s q := by
    refine Run.invariant (fun _ s => Inv false s ∧ ∀ q, Spared s q) ?_ h hstart
    rintro _ _ ⟨i,a⟩ _ ⟨hinv,hsp⟩ ⟨hs,hg⟩
    refine ⟨hinv.next nofun hs,fun q => ?_⟩
    obtain rfl | hne := eq_or_ne q i
    · exact (hsp q).own hinv hs hg
    · exact (hsp q).apart hinv hne (apart_next hne hs)
  rintro ⟨hs,j,hchan⟩
  exact nomatch hkilled.symm.trans ((hspared q).asleep j hs hchan)

/-- The first process sleeps in `recv_mess`, the second kills it, and the first goes `k` statements
further. -/
def killedAsleep (p q : Fin n) (k : ℕ) : List (Fin n×IpcAct) :=
  bothRun p q++(p,.recv)::List.replicate 5 (p,.tick)++(q,.kill 1)::List.replicate 3
    (q,.tick)++List.replicate k (p,.tick)

theorem killed_not_asleep_in_recv_awake : ∃ s,
    Run (fun s a t => Step s a t ∧ heeded s a) pair (killedAsleep 0 1 1) s ∧ s.killed 0 = true ∧
    ¬((s.proc 0).state = .sleeping ∧ ∃ j, s.chan 0 = some (.recvQueue j)) := by
  have he : (exec (fun a s => if heeded s a then next s a.1 a.2 else none)
    (killedAsleep 0 1 1) pair).map
      (fun s => s.killed 0) = some true := by
    decide +kernel
  obtain ⟨s,hs,hk⟩ := map_eq_some_iff.mp he
  have hrun : Run (fun s a t => Step s a t ∧ heeded s a) pair (killedAsleep 0 1 1) s :=
    .of_exec_if (P := fun s a => heeded s a) hs
  exact ⟨s,hrun,hk,killed_not_asleep_in_recv hrun hk⟩

/-- A process that is killed in `recv_mess` finds its mailbox empty and sleeps again. -/
theorem killed_sleeps_in_recv : ∃ s, Run Step pair (killedAsleep 0 1 6) s ∧ s.lock = none ∧
    s.killed 0 = true ∧
    (s.proc 0).state = .sleeping ∧ s.chan 0 = some (.recvQueue 0) := by
  have he : (exec (fun a s => next s a.1 a.2) (killedAsleep 0 1 6) pair).map
    (fun s => decide (s.lock = none ∧
      s.killed 0 = true ∧ (s.proc 0).state = .sleeping ∧ s.chan 0 = some (.recvQueue 0))) =
        some true := by
    decide +kernel
  obtain ⟨s,hs,hfinal⟩ := map_eq_some_iff.mp he
  exact ⟨s,.of_exec hs,of_decide_eq_true hfinal⟩

end JacobiXv6.Kernel.Ipc
