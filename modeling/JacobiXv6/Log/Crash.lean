import JacobiXv6.Log.Commit

/-! Crash atomicity. At every moment the disk, with its own log replayed onto it, is the
state after the transactions that are durable; recovery makes this state the contents of
the home blocks. -/
namespace JacobiXv6.Log
open Library Function

variable {L : Layout} {base d : Disk} {m : Machine} {b : Word} {v : Block}

/-- The writes that the log on the disk asks for. -/
def logged (L : Layout) (d : Disk) : List (Word×Block) :=
  (readHead (d L.start)).mapIdx fun tail b => (b,d (L.slot tail))

def redo (L : Layout) (d : Disk) : Disk := writes d (logged L d)

/-- A log as `mkfs` and this code leave it: what it lists fits into it and lies outside it. -/
structure LogOk (L : Layout) (d : Disk) : Prop where
  room : L.Room (readHead (d L.start)).length
  out : ∀ b ∈ readHead (d L.start), ¬L.InLog b

/-- The contents of the home blocks after the first `k` transactions. -/
def stateAfter (base : Disk) (txs : List Tx) (k : ℕ) : Disk := writes base (txs.take k).flatten

namespace Machine

/-- The dirty buffers all belong to the blocks `bs`. -/
def DirtyIn (m : Machine) (bs : List Word) : Prop :=
  ∀ b buf, m.cache b = some buf → buf.dirty = true → b ∈ bs

def durableState (m : Machine) (base : Disk) : Disk := stateAfter base m.txs m.durable

def newState (m : Machine) (base : Disk) : Disk := writes (m.durableState base) m.cur

end Machine

/-- A transaction that is not yet durable lives in the cache, and the log is empty. -/
structure Pending (L : Layout) (base : Disk) (m : Machine) : Prop where
  empty : readHead (m.disk L.start) = []
  room : L.Room m.lh.length
  out : ∀ b ∈ m.lh, ¬L.InLog b
  cached : ∀ b ∈ m.lh, m.cache b = some ⟨m.newState base b,true⟩
  unwritten : ∀ b, b ∉ m.lh → m.newState base b = m.durableState base b
  dirty : m.DirtyIn m.lh

/-- The first `tail` blocks of the transaction have been copied to the log. -/
structure Copied (L : Layout) (base : Disk) (m : Machine) (tail : ℕ) : Prop where
  pending : Pending L base m
  last : m.txs = m.txs.take m.durable++[m.cur]
  copies : ∀ i b, i < tail → m.lh[i]? = some b → m.disk (L.slot i) = m.newState base b

/-- The first `tail` blocks of the log have been installed. -/
structure Installed (L : Layout) (m : Machine) (who : Caller) (tail : ℕ) : Prop where
  header : m.lh = readHead (m.disk L.start)
  done : writes m.disk ((logged L m.disk).take tail) = m.disk
  dirty : m.DirtyIn (m.lh.drop tail)
  all : who = .commit → m.durable = m.txs.length

def Phase (L : Layout) (base : Disk) (m : Machine) : Pc → Prop
  | .readHead => m.DirtyIn []
  | .running => Pending L base m ∧ m.durable = m.txs.length
  | .writeLog tail => Copied L base m tail
  | .writeHead => Copied L base m m.lh.length
  | .install who tail => Installed L m who tail
  | .clearHead who => m.lh = [] ∧ redo L m.disk = m.disk ∧ m.DirtyIn [] ∧
      (who = .commit → m.durable = m.txs.length)
  | .recovered => m.lh = [] ∧ readHead (m.disk L.start) = [] ∧ m.DirtyIn []
  | .panicked => True

/-- The invariant that makes a crash harmless. -/
structure Sound (L : Layout) (base : Disk) (m : Machine) : Prop where
  log : LogOk L m.disk
  home : ∀ b, ¬L.InLog b → redo L m.disk b = m.durableState base b
  clean : ∀ b buf, m.cache b = some buf → buf.dirty = false → buf.data = m.disk b
  durable_le : m.durable ≤ m.txs.length
  returned_le : m.returned ≤ m.durable
  phase : Phase L base m m.pc

lemma Sound.phaseAt {pc : Pc} (h : Sound L base m) (hpc : m.pc = pc) : Phase L base m pc :=
  hpc ▸ h.phase

/-! ### The log as a function of the disk -/

lemma logged_of_empty (h : readHead (d L.start) = []) : logged L d = [] := by
  simp [logged,h]

lemma redo_of_empty (h : readHead (d L.start) = []) : redo L d = d := by
  simp [redo,logged_of_empty h]

lemma LogOk.of_empty (h : readHead (d L.start) = []) : LogOk L d where
  room := by simpa [h,Layout.Room] using L.size_pos
  out := by simp [h]

lemma length_logged : (logged L d).length = (readHead (d L.start)).length := by simp [logged]

lemma getElem_logged {i : ℕ} (hi : i < (logged L d).length)
    (hb : (readHead (d L.start))[i]? = some b) : (logged L d)[i] = (b,d (L.slot i)) := by
  obtain ⟨hlt,rfl⟩ := List.getElem?_eq_some_iff.mp hb
  simp [logged]

lemma logged_congr {e : Disk} (hok : LogOk L d) (h : ∀ b, L.InLog b → e b = d b) :
    logged L e = logged L d := by
  have hhead : e L.start = d L.start := h _ Layout.inLog_start
  rw [logged,logged,hhead]
  apply List.ext_getElem
  · simp
  · intro i h1 _
    have hi : i < (readHead (d L.start)).length := by simpa using h1
    simp [h _ (Layout.inLog_slot hok.room hi)]

lemma update_home (hb : ¬L.InLog b) : ∀ x, L.InLog x → update d b v x = d x := by
  intro x hx
  apply update_of_ne
  rintro rfl
  exact hb hx

lemma LogOk.congr {e : Disk} (hok : LogOk L d) (h : e L.start = d L.start) : LogOk L e :=
  ⟨h ▸ hok.room,h ▸ hok.out⟩

lemma redo_eq_of_values {f : Disk} (hv : ∀ i b, (readHead (d L.start))[i]? = some b →
    d (L.slot i) = f b) (hd : b ∉ readHead (d L.start) → d b = f b) : redo L d b = f b := by
  apply writes_eq_of_values
  · intro w hw
    obtain ⟨i,hi,rfl⟩ := List.mem_iff_getElem.mp hw
    simp only [logged,List.getElem_mapIdx]
    exact hv i _ (List.getElem?_eq_getElem (by simpa [logged] using hi))
  · intro hne
    apply hd
    intro hmem
    obtain ⟨i,hi,rfl⟩ := List.mem_iff_getElem.mp hmem
    exact hne ((readHead (d L.start))[i],d (L.slot i)) (List.mem_iff_getElem.mpr
      ⟨i,by simpa [logged] using hi,by simp [logged]⟩) rfl

/-! ### Changes of the cache alone -/

section Cache
variable {c : Word → Option Buf} {bs : List Word} {tail : ℕ} {who : Caller}

/-- The cache `c` has the same dirty buffers as the machine. -/
def SameDirty (m : Machine) (c : Word → Option Buf) : Prop :=
  ∀ b buf, buf.dirty = true → (c b = some buf ↔ m.cache b = some buf)

lemma Machine.DirtyIn.recache (h : m.DirtyIn bs) (hc : SameDirty m c) :
    Machine.DirtyIn { m with cache := c } bs :=
  fun b buf hb hd => h b buf ((hc b buf hd).mp hb) hd

lemma Pending.recache (h : Pending L base m) (hc : SameDirty m c) :
    Pending L base { m with cache := c } :=
  ⟨h.empty,h.room,h.out,fun b hb => (hc b _ rfl).mpr (h.cached b hb),h.unwritten,h.dirty.recache hc⟩

lemma Copied.recache (h : Copied L base m tail) (hc : SameDirty m c) :
    Copied L base { m with cache := c } tail :=
  ⟨h.pending.recache hc,h.last,h.copies⟩

lemma Installed.recache (h : Installed L m who tail) (hc : SameDirty m c) :
    Installed L { m with cache := c } who tail :=
  ⟨h.header,h.done,h.dirty.recache hc,h.all⟩

lemma Phase.recache {pc : Pc} (h : Phase L base m pc) (hc : SameDirty m c) :
    Phase L base { m with cache := c } pc := by
  cases pc with
  | readHead => exact Machine.DirtyIn.recache h hc
  | running => exact ⟨h.1.recache hc,h.2⟩
  | writeLog tail | writeHead => exact Copied.recache h hc
  | install who tail => exact Installed.recache h hc
  | clearHead who => exact ⟨h.1,h.2.1,h.2.2.1.recache hc,h.2.2.2⟩
  | recovered => exact ⟨h.1,h.2.1,h.2.2.recache hc⟩
  | panicked => trivial

lemma Sound.recache (h : Sound L base m) (hc : SameDirty m c)
    (hclean : ∀ b buf, c b = some buf → buf.dirty = false → buf.data = m.disk b) :
    Sound L base { m with cache := c } :=
  ⟨h.log,h.home,hclean,h.durable_le,h.returned_le,h.phase.recache hc⟩

end Cache

lemma Sound.load (h : Sound L base m) (b : Word) : Sound L base (m.load b) := by
  apply h.recache
  · intro x buf hd
    obtain rfl | hx := eq_or_ne x b
    · cases hcache : m.cache x with
      | none =>
        simp only [update_self,Option.getD_none,Option.some.injEq,reduceCtorEq,iff_false]
        rintro rfl
        cases hd
      | some old => simp
    · simp [hx]
  · intro x buf hbuf hd
    obtain rfl | hx := eq_or_ne x b
    · cases hcache : m.cache x with
      | none =>
        simp only [hcache,update_self,Option.getD_none,Option.some.injEq] at hbuf
        subst buf
        rfl
      | some old =>
        simp only [hcache,update_self,Option.getD_some,Option.some.injEq] at hbuf
        subst buf
        exact h.clean x old hcache hd
    · exact h.clean x buf (by simpa [hx] using hbuf) hd

lemma Sound.recycle {m' : Machine} (h : Sound L base m) (hs : m.recycle b = some m') :
    Sound L base m' := by
  unfold Machine.recycle at hs
  split at hs
  · next data hcache =>
    cases hs
    apply h.recache
    · intro x buf hd
      obtain rfl | hx := eq_or_ne x b
      · simp only [update_self,hcache,reduceCtorEq,false_iff,Option.some.injEq]
        rintro rfl
        cases hd
      · simp [hx]
    · intro x buf hbuf hd
      obtain rfl | hx := eq_or_ne x b
      · simp at hbuf
      · exact h.clean x buf (by simpa [hx] using hbuf) hd
  · cases hs

lemma Sound.data_eq {bs : List Word} (h : Sound L base m) (hd : m.DirtyIn bs) (hb : b ∉ bs) :
    m.data b = m.disk b := by
  unfold Machine.data
  cases hcache : m.cache b with
  | none => rfl
  | some buf =>
    cases hdirty : buf.dirty with
    | false => exact h.clean b buf hcache hdirty
    | true => exact absurd (hd b buf hcache hdirty) hb

end JacobiXv6.Log
