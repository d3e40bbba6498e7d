import JacobiXv6.Log.Crash

/-! Every step of the machine keeps the crash invariant, so that a recovery that runs to
its end finds the transactions up to some number of them, and no part of any other. -/
namespace JacobiXv6.Log
open Library Function List

variable {L : Layout} {base d : Disk} {m m' : Machine} {b : Word} {v : Block} {tail : ℕ}
  {who : Caller}

/-! ### Block writes of `commit` and `recover_from_log` -/

/-- After `bwrite` the buffer is clean and holds what is on the disk. -/
lemma clean_bwrite (h : ∀ b buf, m.cache b = some buf → buf.dirty = false → buf.data = m.disk b) :
    ∀ x buf, (m.bwrite b v).cache x = some buf → buf.dirty = false →
      buf.data = (m.bwrite b v).disk x := by
  intro x buf hbuf hd
  obtain rfl | hx := eq_or_ne x b
  · simp only [Machine.bwrite,update_self,Option.some.injEq] at hbuf ⊢
    exact hbuf ▸ rfl
  · simp only [Machine.bwrite,update_of_ne hx] at hbuf ⊢
    exact h x buf hbuf hd

lemma dirtyIn_bwrite {bs bs' : List Word} (h : m.DirtyIn bs) (hbs : ∀ x ∈ bs, x ≠ b → x ∈ bs') :
    (m.bwrite b v).DirtyIn bs' := by
  intro x buf hbuf hd
  obtain rfl | hx := eq_or_ne x b
  · simp only [Machine.bwrite,update_self,Option.some.injEq] at hbuf
    subst buf
    cases hd
  · simp only [Machine.bwrite,update_of_ne hx] at hbuf
    exact hbs x (h x buf hbuf hd) hx

/-- One iteration of `write_log`. -/
lemma Sound.copy (h : Sound L base m) (hpc : m.pc = .writeLog tail) (hb : m.lh[tail]? = some b) :
    Sound L base { m.bwrite (L.slot tail) (m.data b) with pc := .writeLog (tail+1) } := by
  have hc : Copied L base m tail := h.phaseAt hpc
  have hp := hc.pending
  have hmem : b ∈ m.lh := mem_of_getElem? hb
  have htail : tail < m.lh.length := (List.getElem?_eq_some_iff.mp hb).1
  have hslot : L.InLog (L.slot tail) := Layout.inLog_slot hp.room htail
  have hlog : tail < LOGSIZE := htail.trans_le hp.room.1
  have hdata : m.data b = m.newState base b := by simp [Machine.data,hp.cached b hmem]
  have hhome : ∀ x, ¬L.InLog x → x ≠ L.slot tail := fun x hx he => hx (he ▸ hslot)
  have hempty : readHead (update m.disk (L.slot tail) (m.data b) L.start) = [] := by
    rw [update_of_ne (Layout.slot_ne_start hlog).symm]
    exact hp.empty
  refine ⟨LogOk.of_empty hempty,fun x hx => ?_,clean_bwrite h.clean,h.durable_le,h.returned_le,?_⟩
  · calc redo L (update m.disk (L.slot tail) (m.data b)) x
        = m.disk x := by rw [redo_of_empty hempty,update_of_ne (hhome x hx)]
      _ = m.durableState base x := by rw [← redo_of_empty hp.empty,h.home x hx]
  · refine ⟨⟨hempty,hp.room,hp.out,fun x hx => ?_,hp.unwritten,
      dirtyIn_bwrite hp.dirty fun x hx _ => hx⟩,
      hc.last,fun i x hi hx => ?_⟩
    · exact (update_of_ne (hhome x (hp.out x hx)) _ _).trans (hp.cached x hx)
    · obtain hlt | rfl := Nat.lt_succ_iff_lt_or_eq.mp hi
      · have hne : L.slot i ≠ L.slot tail := fun he =>
          hlt.ne (Layout.slot_injective (hlt.trans hlog) hlog he)
        exact (update_of_ne hne _ _).trans (hc.copies i x hlt hx)
      · obtain rfl : b = x := Option.some.inj (hb.symm.trans hx)
        exact (update_self _ _ _).trans hdata

/-- The end of `write_log`. -/
lemma Sound.copied (h : Sound L base m) (hpc : m.pc = .writeLog tail) (hb : m.lh[tail]? = none) :
    Sound L base { m with pc := .writeHead } := by
  have hc : Copied L base m tail := h.phaseAt hpc
  have hlen : m.lh.length ≤ tail := getElem?_eq_none_iff.mp hb
  refine ⟨h.log,h.home,h.clean,h.durable_le,h.returned_le,?_⟩
  exact ⟨⟨hc.pending.empty,hc.pending.room,hc.pending.out,hc.pending.cached,hc.pending.unwritten,
    hc.pending.dirty⟩,hc.last,fun i x hi hx => hc.copies i x (hi.trans_le hlen) hx⟩

/-- The `write_head` that commits. -/
lemma Sound.commits (h : Sound L base m) (hpc : m.pc = .writeHead) :
    Sound L base { m.bwrite L.start (writeHead v m.lh) with
      pc := .install .commit 0, durable := m.txs.length } := by
  have hc : Copied L base m m.lh.length := h.phaseAt hpc
  have hp := hc.pending
  have hread : readHead (update m.disk L.start (writeHead v m.lh) L.start) = m.lh := by
    rw [update_self,readHead_writeHead _ hp.room.1]
  have hnew : stateAfter base m.txs m.txs.length = m.newState base := by
    rw [stateAfter,take_length,hc.last,flatten_append,writes_append]
    simp [Machine.newState,Machine.durableState,stateAfter]
  have hok : LogOk L (update m.disk L.start (writeHead v m.lh)) := by
    constructor
    · rw [hread]
      exact hp.room
    · rw [hread]
      exact hp.out
  refine ⟨hok,fun x hx => ?_,clean_bwrite h.clean,le_rfl,h.returned_le.trans h.durable_le,?_⟩
  · change _ = stateAfter base m.txs m.txs.length x
    rw [hnew]
    apply redo_eq_of_values
    · intro i y hy
      change (readHead (update m.disk L.start _ L.start))[i]? = some y at hy
      rw [hread] at hy
      have hi : i < m.lh.length := (List.getElem?_eq_some_iff.mp hy).1
      exact (update_of_ne (Layout.slot_ne_start (hi.trans_le hp.room.1)) _ _).trans
        (hc.copies i y hi hy)
    · intro hy
      change x ∉ readHead (update m.disk L.start _ L.start) at hy
      rw [hread] at hy
      have hne : x ≠ L.start := fun he => hx (he ▸ Layout.inLog_start)
      calc update m.disk L.start _ x = m.disk x := update_of_ne hne _ _
        _ = m.durableState base x := by rw [← redo_of_empty hp.empty,h.home x hx]
        _ = m.newState base x := (hp.unwritten x hy).symm
  · exact ⟨hread.symm,rfl,dirtyIn_bwrite hp.dirty fun x hx _ => hx,fun _ => rfl⟩

/-- One iteration of `install_trans`: the replayed disk does not change. -/
lemma Sound.install (h : Sound L base m) (hpc : m.pc = .install who tail)
    (hb : m.lh[tail]? = some b) :
    Sound L base { m.bwrite b (m.data (L.slot tail)) with pc := .install who (tail+1) } := by
  have hi : Installed L m who tail := h.phaseAt hpc
  have hhead : (readHead (m.disk L.start))[tail]? = some b := hi.header ▸ hb
  have htail : tail < (readHead (m.disk L.start)).length := (List.getElem?_eq_some_iff.mp hhead).1
  have hout : ¬L.InLog b := h.log.out b (mem_of_getElem? hhead)
  have hslot : L.InLog (L.slot tail) := Layout.inLog_slot h.log.room htail
  have hdata : m.data (L.slot tail) = m.disk (L.slot tail) := by
    apply h.data_eq hi.dirty
    intro hmem
    rw [hi.header] at hmem
    exact h.log.out _ (mem_of_mem_drop hmem) hslot
  have hlen : tail < (logged L m.disk).length := length_logged ▸ htail
  have hentry := getElem_logged hlen hhead
  have hkeep := update_home (v := m.data (L.slot tail)) (d := m.disk) hout
  have hlogged : logged L (update m.disk b (m.data (L.slot tail))) = logged L m.disk :=
    logged_congr h.log hkeep
  have hstart := hkeep L.start Layout.inLog_start
  have hwrite : update m.disk b (m.data (L.slot tail)) =
      update m.disk (logged L m.disk)[tail].1 (logged L m.disk)[tail].2 := by
    rw [hentry,hdata]
  refine ⟨h.log.congr hstart,fun x hx => ?_,clean_bwrite h.clean,h.durable_le,h.returned_le,?_⟩
  · change redo L (update m.disk b _) x = _
    rw [redo,hlogged,hwrite,writes_update_of_mem (getElem_mem hlen)]
    exact h.home x hx
  · refine ⟨hi.header.trans (congrArg readHead hstart.symm),?_,dirtyIn_bwrite hi.dirty ?_,hi.all⟩
    · change writes (update m.disk b _) ((logged L (update m.disk b _)).take _) =
        update m.disk b _
      rw [hlogged,hwrite]
      exact writes_take_succ hlen hi.done
    · intro x hx hne
      obtain ⟨hlt,rfl⟩ := List.getElem?_eq_some_iff.mp hb
      rw [drop_eq_getElem_cons hlt] at hx
      exact (mem_cons.mp hx).resolve_left hne

/-- The end of `install_trans`. -/
lemma Sound.installed (h : Sound L base m) (hpc : m.pc = .install who tail)
    (hb : m.lh[tail]? = none) : Sound L base { m with lh := [], pc := .clearHead who } := by
  have hi : Installed L m who tail := h.phaseAt hpc
  have hlen : m.lh.length ≤ tail := getElem?_eq_none_iff.mp hb
  refine ⟨h.log,h.home,h.clean,h.durable_le,h.returned_le,rfl,?_,?_,hi.all⟩
  · have hall : (logged L m.disk).take tail = logged L m.disk := by
      apply take_of_length_le
      rw [length_logged,← hi.header]
      exact hlen
    have hdone := hi.done
    rw [hall] at hdone
    exact hdone
  · have hdrop := hi.dirty
    rw [drop_eq_nil_of_le hlen] at hdrop
    exact hdrop

lemma Pending.of_empty (hread : readHead (m.disk L.start) = []) (hlh : m.lh = []) (hcur : m.cur = [])
    (hd : m.DirtyIn []) : Pending L base m where
  empty := hread
  room := by simpa [hlh,Layout.Room] using L.size_pos
  out := by simp [hlh]
  cached := by simp [hlh]
  unwritten := by simp [Machine.newState,hcur]
  dirty := by simpa [hlh] using hd

/-- The `write_head` that empties the log, when all of it has been installed. -/
lemma Sound.clearHead (h : Sound L base m) (hpc : m.pc = .clearHead who) :
    readHead ((m.bwrite L.start (writeHead v m.lh)).disk L.start) = [] ∧
      ∀ x, ¬L.InLog x → (m.bwrite L.start (writeHead v m.lh)).disk x = m.durableState base x := by
  obtain ⟨hlh,hredo,-,-⟩ : m.lh = [] ∧ redo L m.disk = m.disk ∧ _ := h.phaseAt hpc
  constructor
  · simp only [Machine.bwrite,update_self,hlh]
    exact readHead_writeHead v (by simp)
  · intro x hx
    have hne : x ≠ L.start := fun he => hx (he ▸ Layout.inLog_start)
    calc (m.bwrite L.start (writeHead v m.lh)).disk x
        = m.disk x := update_of_ne hne _ _
      _ = m.durableState base x := by rw [← hredo,h.home x hx]

lemma Sound.commitReturns (h : Sound L base m) (hpc : m.pc = .clearHead .commit) :
    Sound L base { m.bwrite L.start (writeHead v m.lh) with
      pc := .running, cur := [], returned := m.txs.length } := by
  obtain ⟨hlh,-,hdirty,hall⟩ : m.lh = [] ∧ redo L m.disk = m.disk ∧ m.DirtyIn [] ∧ _ := h.phaseAt hpc
  obtain ⟨hread,hhome⟩ := h.clearHead (v := v) hpc
  refine ⟨LogOk.of_empty hread,fun x hx => ?_,clean_bwrite h.clean,h.durable_le,(hall rfl).ge,?_,
    hall rfl⟩
  · exact (congrFun (redo_of_empty hread) x).trans (hhome x hx)
  · exact Pending.of_empty hread hlh rfl (dirtyIn_bwrite hdirty fun x hx _ => hx)

lemma Sound.recoverReturns (h : Sound L base m) (hpc : m.pc = .clearHead .recover) :
    Sound L base { m.bwrite L.start (writeHead v m.lh) with pc := .recovered } := by
  obtain ⟨hlh,-,hdirty,-⟩ : m.lh = [] ∧ redo L m.disk = m.disk ∧ m.DirtyIn [] ∧ _ := h.phaseAt hpc
  obtain ⟨hread,hhome⟩ := h.clearHead (v := v) hpc
  refine ⟨LogOk.of_empty hread,fun x hx => ?_,clean_bwrite h.clean,h.durable_le,h.returned_le,hlh,
    hread,dirtyIn_bwrite hdirty fun x hx _ => hx⟩
  exact (congrFun (redo_of_empty hread) x).trans (hhome x hx)

lemma Sound.headRead (h : Sound L base m) (hpc : m.pc = .readHead) :
    Sound L base { m with lh := readHead (m.data L.start), pc := .install .recover 0 } := by
  have hdirty : m.DirtyIn [] := h.phaseAt hpc
  have hhead := congrArg readHead (h.data_eq (b := L.start) hdirty (by simp))
  refine ⟨h.log,h.home,h.clean,h.durable_le,h.returned_le,hhead,rfl,fun x buf hx hd => ?_,by simp⟩
  exact absurd (hdirty x buf hx hd) (by simp)

/-! ### The other steps -/

section

variable (h : Sound L base m)
include h

lemma Sound.logWrite (hpc : m.pc = .running) (hb : ¬L.InLog b) :
    Sound L base (m.logWrite L b v) := by
  obtain ⟨hp,hall⟩ : Pending L base m ∧ m.durable = m.txs.length := h.phaseAt hpc
  unfold Machine.logWrite
  split_ifs with hfull
  · exact ⟨h.log,h.home,h.clean,h.durable_le,h.returned_le,trivial⟩
  rw [not_or,not_le,not_le] at hfull
  have hnew : writes (m.durableState base) (m.cur++[(b,v)]) = update (m.newState base) b v :=
    writes_concat _ _ _
  have hlen : L.Room (absorb m.lh b).length := by
    rw [absorb_eq]
    split_ifs
    · exact hp.room
    · rw [length_append,length_singleton]
      exact ⟨hfull.1,by omega⟩
  refine ⟨h.log,h.home,fun x buf hx hd => ?_,h.durable_le,h.returned_le,?_⟩
  · obtain rfl | hne := eq_or_ne x b
    · simp only [update_self,Option.some.injEq] at hx
      subst buf
      cases hd
    · exact h.clean x buf (by simpa [hne] using hx) hd
  · change Phase L base _ m.pc
    rw [hpc]
    refine ⟨⟨hp.empty,hlen,fun x hx => ?_,fun x hx => ?_,fun x hx => ?_,fun x buf hx hd => ?_⟩,hall⟩
    · rcases mem_absorb.mp hx with hmem | rfl
      exacts [hp.out x hmem,hb]
    · change update m.cache b _ x = some ⟨writes (m.durableState base) _ x,true⟩
      rw [hnew]
      obtain rfl | hne := eq_or_ne x b
      · simp
      · simpa [hne] using hp.cached x ((mem_absorb.mp hx).resolve_right hne)
    · obtain ⟨hmem,hne⟩ := not_or.mp (mt mem_absorb.mpr hx)
      change writes (m.durableState base) _ x = _
      rw [hnew,update_of_ne hne]
      exact hp.unwritten x hmem
    · obtain rfl | hne := eq_or_ne x b
      · exact mem_absorb.mpr (.inr rfl)
      · exact mem_absorb.mpr (.inl (hp.dirty x buf (by simpa [hne] using hx) hd))

lemma Sound.commit (hpc : m.pc = .running) : Sound L base m.commit := by
  obtain ⟨hp,hall⟩ : Pending L base m ∧ m.durable = m.txs.length := h.phaseAt hpc
  unfold Machine.commit
  split_ifs
  · have htake : (m.txs++[m.cur]).take m.durable = m.txs.take m.durable :=
      take_append_of_le_length h.durable_le
    have hstate : stateAfter base (m.txs++[m.cur]) m.durable = m.durableState base := by
      rw [stateAfter,htake]
      rfl
    have hnew : writes (stateAfter base (m.txs++[m.cur]) m.durable) m.cur = m.newState base := by
      rw [hstate]
      rfl
    refine ⟨h.log,fun x hx => (h.home x hx).trans (congrFun hstate x).symm,h.clean,?_,h.returned_le,
      ⟨hp.empty,hp.room,hp.out,fun x hx => ?_,fun x hx => ?_,hp.dirty⟩,?_,by simp⟩
    · simpa using h.durable_le.trans (Nat.le_succ _)
    · change m.cache x = some ⟨writes (stateAfter base (m.txs++[m.cur]) m.durable) m.cur x,true⟩
      rw [hnew]
      exact hp.cached x hx
    · change writes (stateAfter base (m.txs++[m.cur]) m.durable) m.cur x =
        stateAfter base (m.txs++[m.cur]) m.durable x
      rw [hnew,hstate]
      exact hp.unwritten x hx
    · change m.txs++[m.cur] = (m.txs++[m.cur]).take m.durable++[m.cur]
      rw [htake,hall,take_length]
  · exact h

lemma Sound.crash : Sound L base m.crash :=
  ⟨h.log,h.home,fun _ _ hx => (nomatch hx),h.durable_le,h.returned_le,fun _ _ hx => (nomatch hx)⟩

lemma Sound.start (hpc : m.pc = .recovered) : Sound L base m.start := by
  obtain ⟨hlh,hread,hdirty⟩ : m.lh = [] ∧ _ ∧ m.DirtyIn [] := h.phaseAt hpc
  have hstate : stateAfter base (m.txs.take m.durable) m.durable = m.durableState base := by
    simp [stateAfter,Machine.durableState,take_take]
  have hlen : (m.txs.take m.durable).length = m.durable := by
    simpa using h.durable_le
  exact ⟨h.log,fun x hx => (h.home x hx).trans (congrFun hstate x).symm,h.clean,hlen.ge,
    h.returned_le,Pending.of_empty hread hlh rfl hdirty,hlen.symm⟩

lemma Sound.tick (hs : m.tick L = some m') : Sound L base m' := by
  unfold Machine.tick at hs
  split at hs
  · next hpc =>
    cases hs
    exact (h.load L.start).headRead hpc
  · next tail hpc =>
    split at hs
    · next b hb =>
      cases hs
      exact ((h.load (L.slot tail)).load b).copy hpc hb
    · next hb =>
      cases hs
      exact h.copied hpc hb
  · next hpc =>
    cases hs
    exact (h.load L.start).commits hpc
  · next who tail hpc =>
    split at hs
    · next b hb =>
      cases hs
      exact ((h.load (L.slot tail)).load b).install hpc hb
    · next hb =>
      cases hs
      exact h.installed hpc hb
  · next hpc =>
    cases hs
    exact (h.load L.start).commitReturns hpc
  · next hpc =>
    cases hs
    exact (h.load L.start).recoverReturns hpc
  all_goals cases hs

lemma Sound.act {a : Act} (hs : act L a m = some m') : Sound L base m' := by
  cases a with
  | logWrite b v =>
    obtain ⟨⟨hpc,hb⟩,⟨⟩⟩ := Option.ite_none_right_eq_some.mp hs
    exact h.logWrite hpc hb
  | commit =>
    obtain ⟨hpc,⟨⟩⟩ := Option.ite_none_right_eq_some.mp hs
    exact h.commit hpc
  | tick => exact h.tick hs
  | bread b =>
    cases hs
    exact h.load b
  | recycle b => exact h.recycle hs
  | crash =>
    cases hs
    exact h.crash
  | start =>
    obtain ⟨hpc,⟨⟩⟩ := Option.ite_none_right_eq_some.mp hs
    exact h.start hpc

end

lemma Sound.boot (hd : LogOk L d) : Sound L (redo L d) (boot d) :=
  ⟨hd,fun _ _ => rfl,fun _ _ hx => (nomatch hx),le_rfl,le_rfl,fun _ _ hx => (nomatch hx)⟩

lemma Sound.session {as : List Act} (hd : LogOk L d) (h : Session L d as m) :
    Sound L (redo L d) m := by
  refine h.invariant (fun _ m => Sound L (redo L d) m) ?_ (.boot hd)
  intro _ m a m' hm hs
  exact hm.act hs

/-- **Crash atomicity of the redo log.** Whatever the transactions are and wherever the
crashes fall, once `recover_from_log` is done the home blocks hold the state after the
first `k` transactions, and among these are all whose `commit` had returned. -/
theorem recovery_atomic (L : Layout) (d : Disk) (hd : LogOk L d) (as : List Act) (m : Machine)
    (h : Session L d as m) (hr : m.pc = .recovered) :
    ∃ k, m.returned ≤ k ∧ k ≤ m.txs.length ∧
      ∀ b, ¬L.InLog b → m.disk b = stateAfter (redo L d) m.txs k b := by
  have hs := Sound.session hd h
  obtain ⟨-,hread,-⟩ : m.lh = [] ∧ readHead (m.disk L.start) = [] ∧ _ := hs.phaseAt hr
  refine ⟨m.durable,hs.returned_le,hs.durable_le,fun b hb => ?_⟩
  rw [← redo_of_empty hread]
  exact hs.home b hb

/-- The log of the disks that `mkfs` makes. -/
def mkfsLayout : Layout := ⟨2,LOGSIZE,by decide⟩

/-- Two blocks are committed and their installation is interrupted, as is the recovery. -/
def interruptedCommit : List Act :=
  List.replicate 3 Act.tick++[.start,.logWrite 100 (fun _ => 7),.logWrite 101 (fun _ => 8),.commit]++
    List.replicate 5 Act.tick++[.crash]++List.replicate 2 Act.tick++[.crash]++List.replicate 5 Act.tick

theorem recovery_atomic_interrupted : ∃ m, Session mkfsLayout (fun _ _ => 0) interruptedCommit m ∧
    m.pc = .recovered ∧ m.txs.length = 1 ∧ ∃ k, k ≤ 1 ∧
      ∀ b, ¬mkfsLayout.InLog b → m.disk b = stateAfter (redo mkfsLayout fun _ _ => 0) m.txs k b := by
  have he : (exec (act mkfsLayout) interruptedCommit (boot fun _ _ => 0)).map
      (fun m => (m.pc,m.txs.length)) = some (.recovered,1) := by decide +kernel
  obtain ⟨m,hm,hp⟩ := Option.map_eq_some_iff.mp he
  obtain ⟨hpc,hlen⟩ := Prod.mk.inj hp
  have hs : Session mkfsLayout (fun _ _ => 0) interruptedCommit m := .of_exec hm
  have hok : LogOk mkfsLayout (fun _ _ => 0) := LogOk.of_empty (by decide)
  obtain ⟨k,-,hk,hdisk⟩ := recovery_atomic mkfsLayout _ hok _ m hs hpc
  exact ⟨m,hs,hpc,hlen,k,hlen ▸ hk,hdisk⟩

/-- The log lists block 100 and its own first slot. -/
def tangledLog : Disk := fun b i =>
  if b = 2 then (if i.val = 0 then 2 else if i.val = 1 then 100 else 3) else if b = 3 then 7
    else if b = 4 then 8 else 0

lemma recovered_tangled (as : List Act) {w : Word}
    (he : (exec (act mkfsLayout) as (boot tangledLog)).map (fun m => (m.pc,m.txs.length,m.disk 100 0)) =
      some (.recovered,0,w)) :
    ∃ m, Session mkfsLayout tangledLog as m ∧ m.pc = .recovered ∧ m.txs = [] ∧ m.disk 100 0 = w := by
  obtain ⟨m,hm,hp⟩ := Option.map_eq_some_iff.mp he
  obtain ⟨hpc,hp⟩ := Prod.mk.inj hp
  obtain ⟨hlen,hw⟩ := Prod.mk.inj hp
  exact ⟨m,.of_exec hm,hpc,eq_nil_of_length_eq_zero hlen,hw⟩

/-- `recover_from_log` believes what the header lists. If that is a block of the log, what it leaves
depends on where the crashes fall, and there is no state that all recoveries lead to. -/
theorem recovery_tangled : ¬∃ base : Disk, ∀ as m, Session mkfsLayout tangledLog as m →
    m.pc = .recovered →
    ∃ k, m.returned ≤ k ∧ k ≤ m.txs.length ∧
      ∀ b, ¬mkfsLayout.InLog b → m.disk b = stateAfter base m.txs k b := by
  rintro ⟨base,h⟩
  have hbase : ∀ {as m w}, Session mkfsLayout tangledLog as m → m.pc = .recovered → m.txs = [] →
      m.disk 100 0 = w → base 100 0 = w := by
    rintro as m w hs hpc htxs rfl
    obtain ⟨k,-,-,hdisk⟩ := h as m hs hpc
    have hsame := congrFun (hdisk 100 (by decide)) 0
    rw [htxs,stateAfter,take_nil] at hsame
    exact hsame.symm
  -- the second time block 100 is copied from the slot that the first recovery has overwritten
  obtain ⟨m,hs,hpc,htxs,hw⟩ := recovered_tangled (w := 7) (List.replicate 5 .tick) (by decide +kernel)
  obtain ⟨m',hs',hpc',htxs',hw'⟩ :=
    recovered_tangled (w := 8) (List.replicate 3 .tick++[.crash]++List.replicate 5 .tick)
      (by decide +kernel)
  exact absurd ((hbase hs hpc htxs hw).symm.trans (hbase hs' hpc' htxs' hw')) (by decide)

end JacobiXv6.Log
