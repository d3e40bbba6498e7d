import JacobiXv6.Fs.Ide

/-! The queue of `ide.c` against the disk of `memide.c`: the requests are started one at a time and
in order, a call returns when its own request is complete, and the buffers and disks are those of
carrying out the completed requests one after the other. -/
namespace JacobiXv6.Fs
open Library Log Function List

/-- The buffers and disks without a queue. -/
structure IdeMem (ι : Type*) (n : ℕ) where
  buf : Fin n → Buffer ι
  disk : Bool → Disk

namespace IdeRequest
variable {ι : Type*} {n : ℕ}

def drive (r : IdeRequest ι n) : Bool := r.buf.dev.getLsbD 0

/-- The data that the request leaves in the buffer. -/
def data (r : IdeRequest ι n) (disk : Bool → Disk) : Block :=
  if r.buf.dirty = true then r.buf.data else disk r.drive r.buf.blockno

end IdeRequest

namespace IdeMem
variable {ι : Type*} {n : ℕ} {m : IdeMem ι n} {r : IdeRequest ι n}

def sync (m : IdeMem ι n) (r : IdeRequest ι n) : IdeMem ι n where
  buf := update m.buf r.b { r.buf with valid := true, dirty := false, data := r.data m.disk }
  disk :=
    if r.buf.dirty = true then
      update m.disk r.drive (update (m.disk r.drive) r.buf.blockno r.buf.data)
    else m.disk

lemma sync_self :
    (m.sync r).buf r.b = { r.buf with valid := true, dirty := false, data := r.data m.disk } :=
  update_self ..

lemma sync_of_ne {b : Fin n} (hb : b ≠ r.b) : (m.sync r).buf b = m.buf b := update_of_ne hb _ _

lemma sync_disk_of_dirty (h : r.buf.dirty = true) : (m.sync r).disk =
    update m.disk r.drive (update (m.disk r.drive) r.buf.blockno r.buf.data) := if_pos h

lemma sync_disk_of_clean (h : ¬r.buf.dirty = true) : (m.sync r).disk = m.disk := if_neg h

def play (m : IdeMem ι n) (c : List (IdeRequest ι n)) : IdeMem ι n := c.foldl sync m

lemma play_concat (c : List (IdeRequest ι n)) : m.play (c++[r]) = (m.play c).sync r := by
  simp [play]

end IdeMem

namespace IdeLoc
variable {n : ℕ}

/-- The buffer of a call that is not in the queue yet. -/
def fresh : IdeLoc n → Option (Fin n)
  | append b | walk b _ => some b
  | _ => none

/-- The buffer of a call and the number of its request. -/
def asked : IdeLoc n → Option (Fin n×ℕ)
  | check b k | test b k => some (b,k)
  | _ => none

def On (pc : IdeLoc n) (b : Fin n) : Prop := pc.fresh = some b ∨ ∃ k, pc.asked = some (b,k)

def entry : IdeLoc n → Bool
  | append _ | test _ _ | intr => true
  | _ => false

end IdeLoc

namespace Ide
variable {ι : Type*} {n : ℕ} {m : IdeMem ι n} {f f' : ι → IdeLoc n} {s s' : Ide ι n}
  {l : List (IdeRequest ι n)} {p q : ι} {b : Fin n} {r : IdeRequest ι n} {c : List (IdeRequest ι n)}
    {k : ℕ} {x : IdeRequest ι n}

/-- A buffer for which `iderw` does not panic. -/
structure Accepted (x : Buffer ι) : Prop where
  pending : x.pending
  block : x.blockno.toNat < FSSIZE
  locked : ∃ p, x.lock = some p

/-- Request `k` is complete and left the buffer as `x` has it. -/
def Answered (m : IdeMem ι n) (rs : List (IdeRequest ι n)) (k : ℕ) (x : IdeRequest ι n) : Prop :=
  ∃ r, rs[k]? = some r ∧ r.b = x.b ∧ x.buf = (m.play (rs.take (k+1))).buf x.b

lemma Answered.concat (h : Answered m c k x) (r : IdeRequest ι n) : Answered m (c++[r]) k x := by
  obtain ⟨r',hr,hb,hx⟩ := h
  have hk : k < c.length := (List.getElem?_eq_some_iff.mp hr).1
  refine ⟨r',?_,hb,?_⟩
  · rw [getElem?_append_left hk,hr]
  · rw [take_append_of_le_length hk,hx]

lemma answered_last (m : IdeMem ι n) (c : List (IdeRequest ι n)) (r : IdeRequest ι n) :
    Answered m (c++[r]) c.length ⟨r.b,((m.play c).sync r).buf r.b⟩ := by
  refine ⟨r,by simp,rfl,?_⟩
  rw [take_of_length_le (by simp),IdeMem.play_concat]

lemma Answered.flags (h : Answered m c k x) : x.buf.valid = true ∧ x.buf.dirty = false := by
  obtain ⟨r,hr,hb,hx⟩ := h
  have htake : c.take (k+1) = c.take k++[r] := by
    rw [take_add_one,hr]
    rfl
  rw [htake,IdeMem.play_concat,← hb,IdeMem.sync_self] at hx
  rw [hx]
  exact ⟨rfl,rfl⟩

/-- What the calls know: the buffers and the history of the requests. -/
structure Books (ι : Type*) (n : ℕ) where
  buf : Fin n → Buffer ι
  busy : Fin n → Bool
  queued : List (IdeRequest ι n)
  completed : List (IdeRequest ι n)
  returned : List (ℕ×IdeRequest ι n)

def books (s : Ide ι n) : Books ι n := ⟨s.buf,s.busy,s.queued,s.completed,s.returned⟩

/-- What relates the calls, the buffers and the history, when `l` are the requests that are queued
and not complete. -/
structure Consistent (m : IdeMem ι n) (f : ι → IdeLoc n) (s : Books ι n) (l : List (IdeRequest ι n)) :
    Prop where
  queued : s.queued = s.completed++l
  fresh : ∀ p b, (f p).fresh = some b →
    s.busy b = true ∧ (∀ r ∈ l, r.b ≠ b) ∧ Accepted (s.buf b)
  asked : ∀ p b k, (f p).asked = some (b,k) →
    s.busy b = true ∧ (∃ r, s.queued[k]? = some r ∧ r.b = b) ∧
      (k < s.completed.length → Answered m s.completed k ⟨b,s.buf b⟩)
  unique : ∀ p q b, (f p).On b → (f q).On b → p = q
  asker : ∀ i r, l[i]? = some r → ∃ p, (f p).asked = some (r.b,s.completed.length+i)
  accepted : ∀ r ∈ s.queued, Accepted r.buf
  same : ∀ r ∈ l, s.buf r.b = r.buf
  idle : ∀ b, (∀ p, (f p).fresh ≠ some b) → (∀ r ∈ l, r.b ≠ b) → s.buf b = (m.play s.completed).buf b
  returned : ∀ x ∈ s.returned, Answered m s.completed x.1 x.2

namespace Consistent
variable {s : Books ι n}

section

variable (h : Consistent m f s l)
include h

lemma congr (hfresh : ∀ q, (f' q).fresh = (f q).fresh) (hasked : ∀ q, (f' q).asked = (f q).asked) :
    Consistent m f' s l := by
  have hon : ∀ q b, (f' q).On b ↔ (f q).On b := by
    intro q b
    rw [IdeLoc.On,IdeLoc.On,hfresh,hasked]
  refine ⟨h.queued,?_,?_,?_,?_,h.accepted,h.same,?_,h.returned⟩
  · intro p b hp
    exact h.fresh p b ((hfresh p).symm.trans hp)
  · intro p b k hp
    exact h.asked p b k ((hasked p).symm.trans hp)
  · intro p q b hp hq
    exact h.unique p q b ((hon p b).mp hp) ((hon q b).mp hq)
  · intro i r hr
    obtain ⟨p,hp⟩ := h.asker i r hr
    exact ⟨p,(hasked p).trans hp⟩
  · intro b hb
    exact h.idle b fun p hp => hb p ((hfresh p).trans hp)

lemma not_on_of_idle (hb : s.busy b = false) (q : ι) : ¬(f q).On b := by
  rintro (hq | ⟨k,hq⟩)
  · exact nomatch hb.symm.trans (h.fresh q b hq).1
  · exact nomatch hb.symm.trans (h.asked q b k hq).1

lemma not_queued_of_idle (hb : s.busy b = false) : ∀ r ∈ l, r.b ≠ b := by
  rintro r hr rfl
  obtain ⟨i,hi⟩ := mem_iff_getElem?.mp hr
  obtain ⟨p,hp⟩ := h.asker i r hi
  exact h.not_on_of_idle hb p (.inr ⟨_,hp⟩)

lemma accepted_of_mem (hr : r ∈ l) : Accepted r.buf :=
  h.accepted r (by rw [h.queued]; exact mem_append_right _ hr)

lemma nodup : (l.map IdeRequest.b).Nodup := by
  refine nodup_iff_getElem?_ne_getElem?.mpr ?_
  intro i j hij hj heq
  rw [length_map] at hj
  have hi : i < l.length := hij.trans hj
  rw [getElem?_map,getElem?_map,getElem?_eq_getElem hi,getElem?_eq_getElem hj] at heq
  obtain ⟨p,hp⟩ := h.asker i _ (getElem?_eq_getElem hi)
  obtain ⟨q,hq⟩ := h.asker j _ (getElem?_eq_getElem hj)
  rw [Option.some.inj heq] at hp
  obtain rfl := h.unique p q _ (.inr ⟨_,hp⟩) (.inr ⟨_,hq⟩)
  have hk := congrArg Prod.snd (Option.some.inj (hp.symm.trans hq))
  exact hij.ne (Nat.add_left_cancel hk)

end

variable [DecidableEq ι]

/-- A call of `iderw` begins: the buffer was nobody's. -/
lemma call (h : Consistent m f s l) {x : Buffer ι} (hb : s.busy b = false) (hhome : f p = .home)
    (hx : Accepted x) : Consistent m (update f p (.append b))
      { s with buf := update s.buf b x, busy := update s.busy b true } l := by
  have hoff := h.not_on_of_idle hb
  have hnot := h.not_queued_of_idle hb
  have hbuf : ∀ c, c ≠ b → update s.buf b x c = s.buf c := fun c hc => update_of_ne hc x s.buf
  have hbusy : ∀ c, s.busy c = true → update s.busy b true c = true := by
    intro c hc
    obtain rfl | hne := eq_or_ne c b
    · exact update_self ..
    · rw [update_of_ne hne,hc]
  have hasked : ∀ q, (update f p (.append b) q).asked = (f q).asked := by
    intro q
    obtain rfl | hq := eq_or_ne q p
    · rw [update_self,hhome]
      rfl
    · rw [update_of_ne hq]
  refine ⟨h.queued,?_,?_,?_,?_,h.accepted,?_,?_,h.returned⟩
  · intro q c hq
    obtain rfl | hne := eq_or_ne q p
    · rw [update_self] at hq
      cases hq
      dsimp only
      rw [update_self,update_self]
      exact ⟨rfl,hnot,hx⟩
    · rw [update_of_ne hne] at hq
      obtain ⟨h1,h2⟩ := h.fresh q c hq
      have hcb : c ≠ b := by
        rintro rfl
        exact hoff q (.inl hq)
      dsimp only
      rw [hbuf c hcb]
      exact ⟨hbusy c h1,h2⟩
  · intro q c k hq
    rw [hasked] at hq
    obtain ⟨h1,h2⟩ := h.asked q c k hq
    have hcb : c ≠ b := by
      rintro rfl
      exact hoff q (.inr ⟨k,hq⟩)
    dsimp only
    rw [hbuf c hcb]
    exact ⟨hbusy c h1,h2⟩
  · -- the new call is the only one on its buffer
    have hon : ∀ q c, (update f p (.append b) q).On c → (q = p ∧ c = b) ∨ (f q).On c ∧ c ≠ b := by
      intro q c hq
      obtain rfl | hne := eq_or_ne q p
      · rw [update_self] at hq
        obtain ⟨⟨⟩⟩ | ⟨k,⟨⟩⟩ := hq
        exact .inl ⟨rfl,rfl⟩
      · rw [update_of_ne hne] at hq
        refine .inr ⟨hq,?_⟩
        rintro rfl
        exact hoff q hq
    intro q r c hq hr
    obtain ⟨rfl,rfl⟩ | ⟨hq,hne⟩ := hon q c hq
    · obtain ⟨rfl,-⟩ | ⟨_,hne⟩ := hon r c hr
      · rfl
      · exact absurd rfl hne
    · obtain ⟨-,rfl⟩ | ⟨hr,_⟩ := hon r c hr
      · exact absurd rfl hne
      · exact h.unique q r c hq hr
  · intro i r hr
    obtain ⟨q,hq⟩ := h.asker i r hr
    exact ⟨q,(hasked q).trans hq⟩
  · intro r hr
    exact (hbuf r.b (hnot r hr)).trans (h.same r hr)
  · intro c hc hl
    have hcb : c ≠ b := by
      rintro rfl
      exact hc p (by rw [update_self]; rfl)
    refine (hbuf c hcb).trans (h.idle c (fun q hq => ?_) hl)
    refine hc q ?_
    obtain rfl | hne := eq_or_ne q p
    · rw [hhome] at hq
      exact nomatch hq
    · rw [update_of_ne hne,hq]

lemma enqueue (h : Consistent m f s l) {pp : Option (Fin n)} (hp : f p = .walk b pp) :
    Consistent m (update f p (.check b s.queued.length))
      { s with queued := s.queued++[⟨b,s.buf b⟩] } (l++[⟨b,s.buf b⟩]) := by
  have hfresh : (f p).fresh = some b := by rw [hp]; rfl
  have hasked : (f p).asked = none := by rw [hp]; rfl
  obtain ⟨hb,hnot,haccepted⟩ := h.fresh p b hfresh
  have hlen : s.queued.length = s.completed.length+l.length := by rw [h.queued,length_append]
  have hon : ∀ q c, (update f p (.check b s.queued.length) q).On c ↔ (f q).On c := by
    intro q c
    obtain rfl | hne := eq_or_ne q p
    · rw [update_self,IdeLoc.On,IdeLoc.On,hfresh,hasked]
      simp [IdeLoc.fresh,IdeLoc.asked]
    · rw [update_of_ne hne]
  refine ⟨?_,?_,?_,?_,?_,?_,?_,?_,h.returned⟩
  · dsimp only
    rw [h.queued,append_assoc]
  · intro q c hq
    obtain rfl | hne := eq_or_ne q p
    · rw [update_self] at hq
      exact nomatch hq
    · rw [update_of_ne hne] at hq
      obtain ⟨h1,h2,h3⟩ := h.fresh q c hq
      refine ⟨h1,?_,h3⟩
      intro r hr
      obtain hr | hr := mem_append.mp hr
      · exact h2 r hr
      · obtain rfl := mem_singleton.mp hr
        rintro rfl
        exact hne (h.unique q p _ (.inl hq) (.inl hfresh))
  · intro q c k hq
    obtain rfl | hne := eq_or_ne q p
    · rw [update_self] at hq
      cases hq
      refine ⟨hb,⟨_,getElem?_concat_length,rfl⟩,fun hk => ?_⟩
      exact absurd hk (by dsimp only; omega)
    · rw [update_of_ne hne] at hq
      obtain ⟨h1,⟨r,hr,hrb⟩,h3⟩ := h.asked q c k hq
      refine ⟨h1,⟨r,?_,hrb⟩,h3⟩
      rw [getElem?_append_left (List.getElem?_eq_some_iff.mp hr).1,hr]
  · intro q r c hq hr
    exact h.unique q r c ((hon q c).mp hq) ((hon r c).mp hr)
  · intro i r hr
    obtain hi | hi := Nat.lt_or_ge i l.length
    · rw [getElem?_append_left hi] at hr
      obtain ⟨q,hq⟩ := h.asker i r hr
      refine ⟨q,?_⟩
      rw [update_of_ne,hq]
      rintro rfl
      exact nomatch hasked.symm.trans hq
    · rw [getElem?_append_right hi] at hr
      obtain ⟨hi',rfl⟩ := List.getElem?_eq_some_iff.mp hr
      rw [length_singleton] at hi'
      refine ⟨p,?_⟩
      rw [update_self,getElem_singleton,hlen,show i = l.length by omega]
      rfl
  · intro r hr
    obtain hr | hr := mem_append.mp hr
    · exact h.accepted r hr
    · obtain rfl := mem_singleton.mp hr
      exact haccepted
  · intro r hr
    obtain hr | hr := mem_append.mp hr
    · exact h.same r hr
    · obtain rfl := mem_singleton.mp hr
      rfl
  · intro c hc hl
    have hcb : c ≠ b := fun hcb => hl ⟨b,s.buf b⟩ (by simp) hcb.symm
    refine h.idle c (fun q hq => ?_) fun r hr => hl r (mem_append_left _ hr)
    obtain rfl | hne := eq_or_ne q p
    · exact hcb (Option.some.inj (hq.symm.trans hfresh))
    · exact hc q (by rw [update_of_ne hne,hq])

lemma leave (h : Consistent m f s l) (hp : f p = .test b k) (hdone : ¬(s.buf b).pending) :
    Consistent m (update f p .done) { s with
      busy := update s.busy b false
      returned := s.returned++[(k,⟨b,s.buf b⟩)] } l := by
  have hasked : (f p).asked = some (b,k) := by rw [hp]; rfl
  have hfresh : (f p).fresh = none := by rw [hp]; rfl
  obtain ⟨_,⟨r,hr,hrb⟩,hanswer⟩ := h.asked p b k hasked
  have hk : k < s.completed.length := by
    by_contra hk
    have haccepted := h.accepted r (mem_of_getElem? hr)
    rw [h.queued,getElem?_append_right (Nat.le_of_not_lt hk)] at hr
    rw [← hrb,h.same r (mem_of_getElem? hr)] at hdone
    exact hdone haccepted.pending
  have hother : ∀ q c, q ≠ p → (f q).On c → c ≠ b := by
    rintro q c hne hq rfl
    exact hne (h.unique q p c hq (.inr ⟨k,hasked⟩))
  have hstill : ∀ q c, q ≠ p → (f q).On c → s.busy c = true → update s.busy b false c = true := by
    intro q c hne hq hc
    rw [update_of_ne (hother q c hne hq),hc]
  have hfresh' : ∀ q, (update f p .done q).fresh = (f q).fresh := by
    intro q
    obtain rfl | hne := eq_or_ne q p
    · rw [update_self,hfresh]
      rfl
    · rw [update_of_ne hne]
  refine ⟨h.queued,?_,?_,?_,?_,h.accepted,h.same,?_,?_⟩
  · intro q c hq
    rw [hfresh'] at hq
    obtain ⟨h1,h2⟩ := h.fresh q c hq
    have hne : q ≠ p := by
      rintro rfl
      exact nomatch hfresh.symm.trans hq
    exact ⟨hstill q c hne (.inl hq) h1,h2⟩
  · intro q c j hq
    obtain rfl | hne := eq_or_ne q p
    · rw [update_self] at hq
      exact nomatch hq
    · rw [update_of_ne hne] at hq
      obtain ⟨h1,h2⟩ := h.asked q c j hq
      exact ⟨hstill q c hne (.inr ⟨j,hq⟩) h1,h2⟩
  · have hon : ∀ q c, (update f p .done q).On c → (f q).On c := by
      intro q c hq
      obtain rfl | hne := eq_or_ne q p
      · rw [update_self] at hq
        obtain ⟨⟨⟩⟩ | ⟨j,⟨⟩⟩ := hq
      · rwa [update_of_ne hne] at hq
    intro q r c hq hr
    exact h.unique q r c (hon q c hq) (hon r c hr)
  · intro i r hr
    obtain ⟨q,hq⟩ := h.asker i r hr
    refine ⟨q,?_⟩
    rw [update_of_ne,hq]
    rintro rfl
    have := congrArg Prod.snd (Option.some.inj (hasked.symm.trans hq))
    simp only at this
    omega
  · intro c hc hl
    exact h.idle c (fun q hq => hc q (by rw [hfresh',hq])) hl
  · intro x hx
    obtain hx | hx := mem_append.mp hx
    · exact h.returned x hx
    · obtain rfl := mem_singleton.mp hx
      exact hanswer hk

omit [DecidableEq ι] in
lemma complete (h : Consistent m f s (r::l)) : Consistent m f { s with
      buf := update s.buf r.b (((m.play s.completed).sync r).buf r.b)
      completed := s.completed++[r] } l := by
  obtain ⟨a,ha⟩ := h.asker 0 r rfl
  have hrest : ∀ r' ∈ l, r'.b ≠ r.b := by
    intro r' hr' heq
    exact (nodup_cons.mp h.nodup).1 (heq ▸ mem_map_of_mem hr')
  refine ⟨?_,?_,?_,h.unique,?_,h.accepted,?_,?_,fun x hx => (h.returned x hx).concat r⟩
  · dsimp only
    rw [h.queued,append_assoc]
    rfl
  · intro q c hq
    obtain ⟨h1,h2,h3⟩ := h.fresh q c hq
    have hcb : c ≠ r.b := (h2 r mem_cons_self).symm
    dsimp only
    rw [update_of_ne hcb]
    exact ⟨h1,fun r' hr' => h2 r' (mem_cons_of_mem r hr'),h3⟩
  · intro q c k hq
    obtain ⟨h1,h2,h3⟩ := h.asked q c k hq
    refine ⟨h1,h2,fun hk => ?_⟩
    dsimp only at hk ⊢
    obtain rfl | hcb := eq_or_ne c r.b
    · -- this is the call whose request was completed
      obtain rfl := h.unique q a _ (.inr ⟨k,hq⟩) (.inr ⟨_,ha⟩)
      have hkk : k = s.completed.length := congrArg Prod.snd (Option.some.inj (hq.symm.trans ha))
      rw [update_self,hkk]
      exact answered_last m s.completed r
    · rw [update_of_ne hcb]
      refine (h3 ?_).concat r
      rw [length_append,length_singleton] at hk
      refine lt_of_le_of_ne (Nat.le_of_lt_succ hk) ?_
      rintro rfl
      obtain ⟨r',hr',hrb⟩ := h2
      rw [h.queued,getElem?_append_right le_rfl,Nat.sub_self] at hr'
      cases hr'
      exact hcb hrb.symm
  · intro i r' hr'
    obtain ⟨q,hq⟩ := h.asker (i+1) r' hr'
    refine ⟨q,?_⟩
    rw [length_append,length_singleton,hq,Nat.add_assoc,Nat.add_comm 1 i]
  · intro r' hr'
    exact (update_of_ne (hrest r' hr') _ _).trans (h.same r' (mem_cons_of_mem r hr'))
  · intro c hc hl
    dsimp only
    rw [IdeMem.play_concat]
    obtain rfl | hcb := eq_or_ne c r.b
    · rw [update_self]
    · rw [update_of_ne hcb,IdeMem.sync_of_ne hcb]
      refine h.idle c hc ?_
      intro r' hr'
      obtain rfl | hr' := mem_cons.mp hr'
      · exact hcb.symm
      · exact hl r' hr'

end Consistent

/-! ### The disk -/

/-- What the disk and its interrupts can be told from. -/
structure Bench (ι : Type*) (n : ℕ) where
  started : List (IdeRequest ι n)
  completed : List (IdeRequest ι n)
  ctl : IdeCtl
  irq : Bool
  disk : Bool → Disk

def bench (s : Ide ι n) : Bench ι n := ⟨s.started,s.completed,s.ctl,s.irq,s.disk⟩

/-- The disk has nothing to do, and no interrupt is under way. -/
structure Idle (m : IdeMem ι n) (f : ι → IdeLoc n) (s : Bench ι n) : Prop where
  started : s.started = s.completed
  ready : ∃ data, s.ctl = .ready data
  irq : s.irq = false
  quiet : ∀ p, f p ≠ .intr
  disk : s.disk = (m.play s.completed).disk

/-- The disk works on request `r`. -/
structure Working (m : IdeMem ι n) (f : ι → IdeLoc n) (s : Bench ι n) (r : IdeRequest ι n) : Prop where
  started : s.started = s.completed++[r]
  busy : s.ctl = .busy (.ofBuffer r.buf) (if r.buf.dirty = true then some r.buf.data else none)
  irq : s.irq = false
  quiet : ∀ p, f p ≠ .intr
  disk : s.disk = (m.play s.completed).disk

/-- The disk has carried out request `r`. Its interrupt is to come, or one process handles it. -/
structure Finished (m : IdeMem ι n) (f : ι → IdeLoc n) (s : Bench ι n) (r : IdeRequest ι n) : Prop where
  started : s.started = s.completed++[r]
  ready : ∃ data, s.ctl = .ready data ∧ data = r.data (m.play s.completed).disk
  irq : s.irq = true → ∀ p, f p ≠ .intr
  once : ∀ p q, f p = .intr → f q = .intr → p = q
  disk : s.disk = ((m.play s.completed).sync r).disk

/-- The disk when the requests of `l` are to be completed. -/
def Drive (m : IdeMem ι n) (f : ι → IdeLoc n) (s : Bench ι n) : List (IdeRequest ι n) → Prop
  | [] => Idle m f s
  | r::_ => Working m f s r ∨ Finished m f s r

section

-- no other process begins to handle an interrupt
variable {d : Bench ι n} (h : ∀ p, f' p = .intr → f p = .intr)
include h

lemma Idle.mono (hi : Idle m f d) : Idle m f' d :=
  { hi with quiet := fun p hp => hi.quiet p (h p hp) }

lemma Drive.mono (hd : Drive m f d l) : Drive m f' d l := by
  cases l with
  | nil => exact Idle.mono h hd
  | cons r l =>
    obtain hw | hf := hd
    · exact .inl { hw with quiet := fun p hp => hw.quiet p (h p hp) }
    · exact .inr { hf with
        irq := fun hirq p hp => hf.irq hirq p (h p hp)
        once := fun p q hp hq => hf.once p q (h p hp) (h q hq) }

end

lemma drive_answer (hd : Drive m f s.bench l) (hblock : ∀ r ∈ l, r.buf.blockno.toNat < FSSIZE)
    (hs : s.answer = some s') : Drive m f s'.bench l := by
  cases l with
  | nil =>
    obtain ⟨data,hdata⟩ : ∃ data, s.ctl = .ready data := hd.ready
    simp only [answer,hdata] at hs
    exact nomatch hs
  | cons r l =>
    obtain hw | hf := hd
    · have hr := hblock r mem_cons_self
      have hsector : (IdePorts.ofBuffer r.buf).sector = r.buf.blockno := IdePorts.sector_ofBuffer hr
      have hdrive : (IdePorts.ofBuffer r.buf).disk = r.drive := IdePorts.disk_ofBuffer hr
      have hctl : s.ctl = _ := hw.busy
      have hdisk : s.disk = _ := hw.disk
      simp only [answer,hctl] at hs
      by_cases hdirty : r.buf.dirty = true
      · rw [if_pos hdirty] at hs
        cases hs
        refine .inr ⟨hw.started,⟨_,rfl,(if_pos hdirty).symm⟩,fun _ => hw.quiet,
          fun p _ hp => absurd hp (hw.quiet p),?_⟩
        dsimp only [bench]
        rw [IdeMem.sync_disk_of_dirty hdirty,hsector,hdrive,hdisk]
        rfl
      · rw [if_neg hdirty] at hs
        cases hs
        refine .inr ⟨hw.started,⟨_,rfl,?_⟩,fun _ => hw.quiet,fun p _ hp => absurd hp (hw.quiet p),?_⟩
        · rw [IdeRequest.data,if_neg hdirty,hsector,hdrive,hdisk]
          rfl
        · rw [IdeMem.sync_disk_of_clean hdirty]
          exact hdisk
    · obtain ⟨data,hdata,_⟩ : ∃ data, s.ctl = .ready data ∧ _ := hf.ready
      simp only [answer,hdata] at hs
      exact nomatch hs

lemma idle_answer (hi : Idle m f s.bench) (hs : s.answer = some s') : Idle m f s'.bench :=
  drive_answer (l := []) hi nofun hs

variable [DecidableEq ι]

lemma drive_interrupt {d : Bench ι n} (hd : Drive m f d l) (hirq : d.irq = true) :
    Drive m (update f p .intr) { d with irq := false } l := by
  cases l with
  | nil => exact nomatch hd.irq.symm.trans hirq
  | cons r l =>
    obtain hw | hf := hd
    · exact nomatch hw.irq.symm.trans hirq
    · have honly : ∀ q, update f p .intr q = .intr → q = p := by
        intro q hq
        by_contra hne
        rw [update_of_ne hne] at hq
        exact hf.irq hirq q hq
      exact .inr ⟨hf.started,hf.ready,nofun,
        fun q q' hq hq' => (honly q hq).trans (honly q' hq').symm,hf.disk⟩

omit [DecidableEq ι] in
lemma idle_issue (hi : Idle m f s.bench) (hr : s.buf b = r.buf) (hb : r.b = b) :
    Working m f (s.issue b).bench r := by
  refine ⟨?_,?_,hi.irq,hi.quiet,hi.disk⟩
  · change s.bench.started++[⟨b,s.buf b⟩] = s.completed++[r]
    rw [hi.started,hr,← hb]
    rfl
  · dsimp only [bench,issue]
    rw [hr]

omit [DecidableEq ι] in
lemma idestart_eq (hi : Idle m f s.bench) (hblock : (s.buf b).blockno.toNat < FSSIZE)
    (again after : IdeLoc n) : s.idestart b again after = .go (s.issue b) after := by
  obtain ⟨data,hdata⟩ : ∃ data, s.ctl = .ready data := hi.ready
  rw [idestart,if_neg (Nat.not_le.mpr hblock),hdata]

/-! ### The invariant -/

/-- What the process at `pc` relies on about the disk, besides that the queue holds `l`. -/
def At (m : IdeMem ι n) (f : ι → IdeLoc n) (s : Ide ι n) (l : List (IdeRequest ι n)) : IdeLoc n → Prop
  | .walk b pp => Drive m f s.bench l ∧ s.queue.next b = none ∧ Fifo.OnWay (l.map IdeRequest.b) pp
  | .check b _ => if s.queue.head = some b then Idle m f s.bench else Drive m f s.bench l
  | .wake _ | .next => Idle m f s.bench
  | .panic => False
  | _ => Drive m f s.bench l

/-- The queue holds the requests of `l`, which are in order. -/
structure Queued (m : IdeMem ι n) (f : ι → IdeLoc n) (s : Ide ι n)
    (l : List (IdeRequest ι n)) : Prop where
  consistent : Consistent m f s.books l
  queue : s.queue.Holds (l.map IdeRequest.b)

def regime (m : IdeMem ι n) : Regime ι (Ide ι n) (Fin n) (IdeLoc n) where
  entry pc := pc.entry = true
  free f _ s := ∃ l, Queued m f s l ∧ Drive m f s.bench l
  held p f _ s := ∃ l, Queued m f s l ∧ At m f s l (f p)

variable {pc : IdeLoc n}

omit [DecidableEq ι] in
lemma At.mono (h : At m f s l pc) (hqueue : s'.queue = s.queue)
    (hidle : Idle m f s.bench → Idle m f' s'.bench)
    (hdrive : Drive m f s.bench l → Drive m f' s'.bench l) : At m f' s' l pc := by
  cases pc with
  | walk b pp =>
    refine ⟨hdrive h.1,?_⟩
    rw [hqueue]
    exact h.2
  | check b k =>
    simp only [At] at h ⊢
    rw [hqueue]
    split_ifs with hb
    · rw [if_pos hb] at h
      exact hidle h
    · rw [if_neg hb] at h
      exact hdrive h
  | wake b => exact hidle h
  | next => exact hidle h
  | panic => exact h
  | _ => exact hdrive h

lemma regime_mono (hc : ∀ l, Consistent m f s.books l → Consistent m (update f p pc) s'.books l)
    (hidle : Idle m f s.bench → Idle m (update f p pc) s'.bench)
    (hdrive : ∀ l, Drive m f s.bench l → Drive m (update f p pc) s'.bench l)
    (hqueue : s'.queue = s.queue) (S : Fin n → Prop) :
    ((regime m).free f S s → (regime m).free (update f p pc) S s') ∧
      ∀ q, q ≠ p → (regime m).held q f S s → (regime m).held q (update f p pc) S s' := by
  have hq : ∀ l, Queued m f s l → Queued m (update f p pc) s' l :=
    fun l h => ⟨hc l h.consistent,by rw [hqueue]; exact h.queue⟩
  constructor
  · rintro ⟨l,h,hd⟩
    exact ⟨l,hq l h,hdrive l hd⟩
  · rintro q hne ⟨l,h,hat⟩
    refine ⟨l,hq l h,?_⟩
    rw [update_of_ne hne]
    exact hat.mono hqueue hidle (hdrive l)

lemma intr_of_update (hpc : pc ≠ .intr) (q : ι) (hq : update f p pc q = .intr) : f q = .intr := by
  obtain rfl | hne := eq_or_ne q p
  · rw [update_self] at hq
    exact absurd hq hpc
  · rwa [update_of_ne hne] at hq

lemma Consistent.goes {s : Books ι n} (h : Consistent m f s l) (hfresh : pc.fresh = (f p).fresh)
    (hasked : pc.asked = (f p).asked) : Consistent m (update f p pc) s l := by
  refine h.congr ?_ ?_
  · intro q
    obtain rfl | hne := eq_or_ne q p
    · rw [update_self,hfresh]
    · rw [update_of_ne hne]
  · intro q
    obtain rfl | hne := eq_or_ne q p
    · rw [update_self,hasked]
    · rw [update_of_ne hne]

lemma regime_call {havedisk1 : Bool} {a : IdeCall ι n} (h : call havedisk1 p s a (f p) = some (s',pc)) :
    pc.entry = true ∧ (∀ S, (regime m).free f S s → (regime m).free (update f p pc) S s') ∧
      ∀ q S, q ≠ p → (regime m).held q f S s → (regime m).held q (update f p pc) S s' := by
  cases hhome : f p with
  | home =>
    rw [hhome] at h
    cases a with
    | iderw b x =>
      obtain ⟨⟨hb,hlock,hx,_,hblock⟩,⟨⟩⟩ := Option.ite_none_right_eq_some.mp h
      have hc : ∀ l, Consistent m f s.books l →
          Consistent m (update f p (.append b)) (s.lend b x).books l :=
        fun l hc => hc.call hb hhome ⟨hx,hblock,p,hlock⟩
      have hpc := intr_of_update (f := f) (p := p) (by nofun : IdeLoc.append b ≠ .intr)
      have hmono := regime_mono hc (.mono hpc) (fun _ => .mono hpc) rfl
      exact ⟨rfl,fun S => (hmono S).1,fun q S => (hmono S).2 q⟩
    | ideintr =>
      obtain ⟨hirq,⟨⟩⟩ := Option.ite_none_right_eq_some.mp h
      have hc : ∀ l, Consistent m f s.books l →
          Consistent m (update f p .intr) (books { s with irq := false }) l :=
        fun l hc => hc.goes (by rw [hhome]; rfl) (by rw [hhome]; rfl)
      have hmono := regime_mono hc (fun hi => (nomatch hi.irq.symm.trans hirq))
        (fun _ hd => drive_interrupt hd hirq) rfl
      exact ⟨rfl,fun S => (hmono S).1,fun q S => (hmono S).2 q⟩
  | _ =>
    rw [hhome] at h
    cases a with
    | _ => exact nomatch h

/-! ### The statements -/

section
variable {S : Fin n → Prop}

/-- The process goes on to `pc`, and nothing changes for the calls and the disk. -/
lemma goes_drive {pc : IdeLoc n} (hc : Consistent m f s.books l) (hd : Drive m f s.bench l)
    (hpc : pc ≠ .intr) (hfresh : pc.fresh = (f p).fresh) (hasked : pc.asked = (f p).asked) :
    Consistent m (update f p pc) s.books l ∧ Drive m (update f p pc) s.bench l :=
  ⟨hc.goes hfresh hasked,.mono (intr_of_update hpc) hd⟩

lemma after_release (hp : (f p).fresh = none ∧ (f p).asked = none) (hq : Queued m f s l)
    (hd : Drive m f s.bench l) : (regime m).After p f S s (.release .home) := by
  obtain ⟨hc,hd⟩ := goes_drive hq.consistent hd (by nofun : IdeLoc.home ≠ .intr) hp.1.symm hp.2.symm
  exact ⟨l,⟨hc,hq.queue⟩,hd⟩

lemma after_append (hp : f p = .append b) (h : (regime m).held p f S s) :
    (regime m).After p f S s (s.code (.append b)) := by
  obtain ⟨l,⟨hc,hq⟩,hat⟩ := h
  rw [hp] at hat
  obtain ⟨_,hnot,_⟩ := hc.fresh p b (by rw [hp]; rfl)
  have hb : b ∉ l.map IdeRequest.b := by
    intro hb
    obtain ⟨r,hr,hrb⟩ := mem_map.mp hb
    exact hnot r hr hrb
  refine ⟨l,⟨hc.goes (by rw [hp]; rfl) (by rw [hp]; rfl),Fifo.holds_clear hq hb⟩,?_⟩
  rw [update_self]
  exact ⟨.mono (intr_of_update nofun) hat,update_self ..,nofun⟩

lemma after_walk {pp : Option (Fin n)} (hp : f p = .walk b pp) (h : (regime m).held p f S s) :
    (regime m).After p f S s (s.code (.walk b pp)) := by
  obtain ⟨l,⟨hc,hq⟩,hat⟩ := h
  rw [hp] at hat
  obtain ⟨hd,hnext,hway⟩ := hat
  cases hcell : s.queue.cell pp with
  | some c =>
    simp only [code,hcell]
    obtain ⟨hc,hd⟩ := goes_drive hc hd (by nofun : IdeLoc.walk b (some c) ≠ .intr) (by rw [hp]; rfl)
      (by rw [hp]; rfl)
    refine ⟨l,⟨hc,hq⟩,?_⟩
    rw [update_self]
    exact ⟨hd,hnext,hway.step hq hcell⟩
  | none =>
    simp only [code,hcell]
    obtain ⟨_,hnot,_⟩ := hc.fresh p b (by rw [hp]; rfl)
    have hb : b ∉ l.map IdeRequest.b := by
      intro hb
      obtain ⟨r,hr,hrb⟩ := mem_map.mp hb
      exact hnot r hr hrb
    have hlink : (s.append pp b).queue.Holds
        ((l++[(⟨b,s.buf b⟩ : IdeRequest ι n)]).map IdeRequest.b) := by
      rw [map_append]
      exact Fifo.holds_link hq hc.nodup hb hnext hway hcell
    have hpc := intr_of_update (f := f) (p := p) (by nofun : IdeLoc.check b s.queued.length ≠ .intr)
    refine ⟨_,⟨hc.enqueue hp,hlink⟩,?_⟩
    rw [update_self]
    have hhead := Fifo.head_eq_of_holds hlink
    cases l with
    | nil =>
      change (s.append pp b).queue.head = some b at hhead
      -- the queue was empty, so the disk is idle
      rw [At,if_pos hhead]
      exact .mono hpc hd
    | cons r l =>
      have hne : (s.append pp b).queue.head ≠ some b := by
        rw [hhead]
        intro heq
        exact hnot r mem_cons_self (Option.some.inj heq)
      rw [At,if_neg hne]
      exact Drive.mono (l := r::l) hpc hd

/-- The first request is started by a process that goes on to `pc`. -/
lemma after_idestart {again pc : IdeLoc n} (hq : Queued m f s l) (hi : Idle m f s.bench)
    (hhead : s.queue.head = some b) (hpc : pc ≠ .intr) (hfresh : pc.fresh = (f p).fresh)
    (hasked : pc.asked = (f p).asked) (hat : ∀ f' s', Drive m f' (bench s') l → At m f' s' l pc) :
    (regime m).After p f S s (s.idestart b again pc) := by
  obtain ⟨hc,hq⟩ := hq
  cases l with
  | nil => exact nomatch hhead.symm.trans hq
  | cons r l =>
    have hb : r.b = b := Option.some.inj (hq.1.symm.trans hhead)
    have hr : s.buf r.b = r.buf := hc.same r mem_cons_self
    rw [hb] at hr
    rw [idestart_eq hi (by rw [hr]; exact (hc.accepted_of_mem mem_cons_self).block)]
    refine ⟨r::l,⟨hc.goes hfresh hasked,hq⟩,?_⟩
    rw [update_self]
    exact hat _ _ (Drive.mono (l := r::l) (intr_of_update hpc) (.inl (idle_issue hi hr hb)))

lemma after_check (hp : f p = .check b k) (h : (regime m).held p f S s) :
    (regime m).After p f S s (s.code (.check b k)) := by
  obtain ⟨l,hq,hat⟩ := h
  rw [hp] at hat
  simp only [At] at hat
  simp only [code]
  split_ifs with hhead
  · rw [if_pos hhead] at hat
    exact after_idestart hq hat hhead nofun (by rw [hp]; rfl) (by rw [hp]; rfl) fun _ _ => id
  · rw [if_neg hhead] at hat
    obtain ⟨hc,hd⟩ := goes_drive hq.consistent hat (by nofun : IdeLoc.test b k ≠ .intr)
      (by rw [hp]; rfl) (by rw [hp]; rfl)
    refine ⟨l,⟨hc,hq.queue⟩,?_⟩
    rw [update_self]
    exact hd

lemma after_test (hp : f p = .test b k) (h : (regime m).held p f S s) :
    (regime m).After p f S s (s.code (.test b k)) := by
  obtain ⟨l,hq,hat⟩ := h
  rw [hp] at hat
  simp only [code]
  split_ifs with hpending
  · obtain ⟨hc,hd⟩ :=
      goes_drive hq.consistent hat (by nofun : IdeLoc.test b k ≠ .intr) (by rw [hp]) (by rw [hp])
    exact ⟨rfl,l,⟨hc,hq.queue⟩,hd⟩
  · refine ⟨l,⟨hq.consistent.leave hp hpending,hq.queue⟩,?_⟩
    rw [update_self]
    exact Drive.mono (intr_of_update nofun) hat

lemma after_finish {data : Block} (hp : f p = .intr) (hq : Queued m f s (r::l))
    (hf : Finished m f s.bench r) (hdata : data = r.data (m.play s.completed).disk) :
    (regime m).After p f S s (.go (s.finish r.b data) (.wake r.b)) := by
  obtain ⟨hc,hq⟩ := hq
  have hr : s.buf r.b = r.buf := hc.same r mem_cons_self
  have hcompleted : (s.finish r.b data).completed = s.completed++[r] := by
    change s.completed++[⟨r.b,s.buf r.b⟩] = _
    rw [hr]
  have hbooks : (s.finish r.b data).books = { s.books with
      buf := update s.buf r.b (((m.play s.completed).sync r).buf r.b)
      completed := s.completed++[r] } := by
    rw [IdeMem.sync_self,← hr,← hdata,← hcompleted]
    rfl
  refine ⟨l,⟨?_,hq.2⟩,?_⟩
  · rw [hbooks]
    exact hc.complete.goes (by rw [hp]; rfl) (by rw [hp]; rfl)
  · rw [update_self]
    refine ⟨?_,?_,?_,?_,?_⟩
    · exact hf.started.trans hcompleted.symm
    · obtain ⟨data,hdata,_⟩ := hf.ready
      exact ⟨data,hdata⟩
    · rw [Bool.eq_false_iff]
      intro hirq
      exact hf.irq hirq p hp
    · intro q hq
      obtain rfl | hne := eq_or_ne q p
      · rw [update_self] at hq
        exact nomatch hq
      · rw [update_of_ne hne] at hq
        exact hne (hf.once q p hq hp)
    · change s.disk = (m.play (s.finish r.b data).completed).disk
      rw [hcompleted,IdeMem.play_concat]
      exact hf.disk

lemma after_intr (hp : f p = .intr) (h : (regime m).held p f S s) :
    (regime m).After p f S s (s.code .intr) := by
  obtain ⟨l,hq,hat⟩ := h
  rw [hp] at hat
  cases l with
  | nil => exact absurd hp (hat.quiet p)
  | cons r l =>
    obtain hw | hf := hat
    · exact absurd hp (hw.quiet p)
    · obtain ⟨data,hctl,hdata⟩ : ∃ data, s.ctl = .ready data ∧ _ := hf.ready
      have hr : s.buf r.b = r.buf := hq.consistent.same r mem_cons_self
      simp only [code,ideintr,hq.queue.1,hctl]
      split_ifs with hdirty
      · refine after_finish hp hq hf ?_
        rw [hr] at hdirty ⊢
        exact (if_pos hdirty).symm
      · exact after_finish hp hq hf hdata

lemma after_wake (hp : f p = .wake b) (h : (regime m).held p f S s) :
    (regime m).After p f S s (s.code (.wake b)) := by
  obtain ⟨l,hq,hat⟩ := h
  rw [hp] at hat
  refine ⟨l,⟨hq.consistent.goes (by rw [hp]; rfl) (by rw [hp]; rfl),hq.queue⟩,?_⟩
  rw [update_self]
  exact Idle.mono (intr_of_update nofun) hat

lemma after_next (hp : f p = .next) (h : (regime m).held p f S s) :
    (regime m).After p f S s (s.code .next) := by
  obtain ⟨l,hq,hat⟩ := h
  rw [hp] at hat
  cases hhead : s.queue.head with
  | none =>
    simp only [code,hhead]
    refine after_release (by rw [hp]; exact ⟨rfl,rfl⟩) hq ?_
    cases l with
    | nil => exact hat
    | cons r l => exact nomatch hhead.symm.trans hq.queue.1
  | some b =>
    simp only [code,hhead]
    exact after_idestart hq hat hhead nofun (by rw [hp]; rfl) (by rw [hp]; rfl) fun _ _ => id

end

lemma regime_keeper (m : IdeMem ι n) (havedisk1 : Bool) :
    (regime m).Keeper (monitor ι n havedisk1) fun _ _ _ _ => True where
  call f s p a s' pc h := regime_call h
  env := by
    intro f s _ s' hs
    obtain ⟨hqueue,hbooks⟩ : s'.queue = s.queue ∧ s'.books = s.books := by
      change s.answer = some s' at hs
      unfold answer at hs
      split at hs
      · exact nomatch hs
      · cases hs
        exact ⟨rfl,rfl⟩
      · cases hs
        exact ⟨rfl,rfl⟩
    have hq : ∀ l, Queued m f s l → Queued m f s' l := fun l h =>
      ⟨by rw [hbooks]; exact h.consistent,by rw [hqueue]; exact h.queue⟩
    have hdrive : ∀ l, Queued m f s l → Drive m f s.bench l → Drive m f s'.bench l := fun l h hd =>
      drive_answer hd (fun r hr => (h.consistent.accepted_of_mem hr).block) hs
    constructor
    · rintro S ⟨l,h,hd⟩
      exact ⟨l,hq l h,hdrive l h hd⟩
    · rintro q S ⟨l,h,hat⟩
      exact ⟨l,hq l h,hat.mono hqueue (fun hi => idle_answer hi hs) (hdrive l h)⟩
  enter := by
    rintro f s p S hentry ⟨l,h,hd⟩
    refine ⟨l,h,?_⟩
    cases hp : f p with
    | append b | test b k | intr => exact hd
    | _ =>
      rw [hp] at hentry
      exact nomatch hentry
  code := by
    intro f s p _ S _ h
    change (regime m).After p f S s (s.code (f p))
    cases hp : f p with
    | append b => exact after_append hp h
    | walk b pp => exact after_walk hp h
    | check b k => exact after_check hp h
    | test b k => exact after_test hp h
    | intr => exact after_intr hp h
    | wake b => exact after_wake hp h
    | next => exact after_next hp h
    | panic =>
      obtain ⟨l,_,hat⟩ := h
      rw [hp] at hat
      exact hat.elim
    | _ =>
      obtain ⟨l,hq,hat⟩ := h
      rw [hp] at hat
      exact after_release (by rw [hp]; exact ⟨rfl,rfl⟩) hq hat

/-! ### The disk in memory -/

/-- `iderw` of `memide.c` on the buffer of a request, by the process that has it locked. -/
def memide (c : Bcache ι n) (r : IdeRequest ι n) : Option (Bcache ι n) :=
  match r.buf.lock with
  | none => none
  | some p =>
    match (c.put r.b r.buf).iderw FSSIZE p r.b with
    | .done c' _ => some c'
    | _ => none

/-- The same buffers, and disk 1 is the one in memory. -/
def Agrees (c : Bcache ι n) (m : IdeMem ι n) : Prop := c.buf = m.buf ∧ c.disk = m.disk true

lemma memide_sync {c : Bcache ι n} (h : Agrees c m) (hr : Accepted r.buf) (hdev : r.buf.dev = 1) :
    ∃ c', memide c r = some c' ∧ Agrees c' (m.sync r) := by
  obtain ⟨p,hp⟩ := hr.locked
  have hdrive : r.drive = true := by rw [IdeRequest.drive,hdev]; rfl
  have hself : (c.put r.b r.buf).buf r.b = r.buf := Bcache.put_self ..
  have hiderw : (c.put r.b r.buf).iderw FSSIZE p r.b =
      if r.buf.dirty = true then
        .done { (c.put r.b r.buf).put r.b { r.buf with valid := true, dirty := false } with
          disk := update c.disk r.buf.blockno r.buf.data } ()
      else .done ((c.put r.b r.buf).put r.b
        { r.buf with valid := true, data := c.disk r.buf.blockno }) () := by
    simp only [Bcache.iderw,hself]
    rw [if_neg (not_not.mpr hp),if_neg hr.pending,if_neg (not_not.mpr hdev),
      if_neg (Nat.not_le.mpr hr.block)]
    rfl
  have hbuf : ∀ x, ((c.put r.b r.buf).put r.b x).buf = update m.buf r.b x := by
    intro x
    change update (update c.buf r.b r.buf) r.b x = _
    rw [update_idem,h.1]
  have hmem : memide c r = match (c.put r.b r.buf).iderw FSSIZE p r.b with
      | .done c' _ => some c'
      | _ => none := by rw [memide,hp]
  by_cases hdirty : r.buf.dirty = true
  · rw [hiderw,if_pos hdirty] at hmem
    refine ⟨_,hmem,?_,?_⟩
    · change ((c.put r.b r.buf).put r.b _).buf = update m.buf r.b _
      rw [hbuf,IdeRequest.data,if_pos hdirty]
    · rw [IdeMem.sync_disk_of_dirty hdirty,hdrive,update_self,← h.2]
  · have hclean : r.buf.dirty = false := Bool.eq_false_iff.mpr hdirty
    rw [hiderw,if_neg hdirty] at hmem
    refine ⟨_,hmem,?_,?_⟩
    · change _ = update m.buf r.b _
      rw [hbuf,IdeRequest.data,if_neg hdirty,hdrive,← h.2]
      simp only [hclean]
    · rw [IdeMem.sync_disk_of_clean hdirty]
      exact h.2

lemma memide_play {c : Bcache ι n} (h : Agrees c m) (rs : List (IdeRequest ι n))
    (hr : ∀ r ∈ rs, Accepted r.buf)
    (hdev : ∀ r ∈ rs, r.buf.dev = 1) : ∃ c', rs.foldlM memide c = some c' ∧ Agrees c' (m.play rs) := by
  induction rs generalizing c m with
  | nil => exact ⟨c,rfl,h⟩
  | cons r rs ih =>
    obtain ⟨c₁,hc₁,h₁⟩ := memide_sync h (hr r mem_cons_self) (hdev r mem_cons_self)
    obtain ⟨c₂,hc₂,h₂⟩ := ih h₁ (fun r' hr' => hr r' (mem_cons_of_mem r hr'))
      fun r' hr' => hdev r' (mem_cons_of_mem r hr')
    refine ⟨c₂,?_,h₂⟩
    rw [foldlM_cons,hc₁]
    exact hc₂

/-- What is true in every state, with the lock and without. -/
structure InOrder (m : IdeMem ι n) (f : ι → IdeLoc n) (s : Ide ι n) : Prop where
  consistent : ∃ l, Consistent m f s.books l
  started : s.started = s.completed ∧ s.disk = (m.play s.completed).disk ∨
    ∃ r, s.started = s.completed++[r] ∧ s.started <+: s.queued ∧
      (s.disk = (m.play s.completed).disk ∨ s.disk = ((m.play s.completed).sync r).disk)

section
omit [DecidableEq ι]

lemma inOrder_of_idle (hc : Consistent m f s.books l) (hi : Idle m f s.bench) : InOrder m f s :=
  ⟨⟨l,hc⟩,.inl ⟨hi.started,hi.disk⟩⟩

lemma inOrder_of_drive (hc : Consistent m f s.books l) (hd : Drive m f s.bench l) : InOrder m f s := by
  cases l with
  | nil => exact inOrder_of_idle hc hd
  | cons r l =>
    have hfirst : s.completed++[r] <+: s.queued :=
      ⟨l,by rw [append_assoc]; exact hc.queued.symm⟩
    refine ⟨⟨_,hc⟩,.inr ⟨r,?_⟩⟩
    obtain hw | hf := hd
    · have hs : s.started = s.completed++[r] := hw.started
      exact ⟨hs,hs ▸ hfirst,.inl hw.disk⟩
    · have hs : s.started = s.completed++[r] := hf.started
      exact ⟨hs,hs ▸ hfirst,.inr hf.disk⟩

lemma inOrder_of_at (hc : Consistent m f s.books l) (hat : At m f s l pc) : InOrder m f s := by
  cases pc with
  | walk b pp => exact inOrder_of_drive hc hat.1
  | check b k =>
    simp only [At] at hat
    split_ifs at hat
    · exact inOrder_of_idle hc hat
    · exact inOrder_of_drive hc hat
  | wake b | next => exact inOrder_of_idle hc hat
  | panic => exact hat.elim
  | _ => exact inOrder_of_drive hc hat

end

/-- The queue does what the disk in memory does with the same requests in the order of their
completion, which is the order in which they were queued. That disk stands for disk 1 and knows no
other; while a request is being completed the real one may be ahead by this request. -/
theorem queue_refines_memide {buf : Fin n → Buffer ι} {disk : Bool → Disk} {data : Block}
    {killed : ι → Bool}
    {havedisk1 : Bool} {as : List (ι×MonAct (IdeCall ι n) Unit)}
    {t : Shared ι (Ide ι n) (Fin n) (IdeLoc n)}
    {c : Bcache ι n} (hbuf : c.buf = buf) (hdisk : c.disk = disk true)
    (h : Run (Shared.Step (monitor ι n havedisk1))
      (.start (initial buf disk data) (fun _ => .home) killed) as t) :
    -- one at a time and in order
    t.shared.completed <+: t.shared.started ∧ t.shared.started <+: t.shared.queued ∧
    t.shared.started.length ≤ t.shared.completed.length+1 ∧
    (t.lock = none → t.shared.completed ≠ t.shared.queued → t.shared.completed ≠ t.shared.started) ∧
    -- a call returns after its own request
    (∀ k x, (k,x) ∈ t.shared.returned → (∃ r, t.shared.completed[k]? = some r ∧ r.b = x.b) ∧
      x.buf.valid = true ∧ x.buf.dirty = false) ∧
    -- with the same buffers and the same disk
    ((∀ r ∈ t.shared.queued, r.buf.dev = 1) → ∃ c', t.shared.completed.foldlM memide c = some c' ∧
      (∀ b, t.shared.busy b = false → t.shared.buf b = c'.buf b) ∧
      (∀ k x, (k,x) ∈ t.shared.returned →
        ∃ c'', (t.shared.completed.take (k+1)).foldlM memide c = some c'' ∧
        x.buf = c''.buf x.b) ∧
      (t.shared.started = t.shared.completed → t.shared.disk true = c'.disk) ∧
      (∀ r, t.shared.started = t.shared.completed++[r] → t.shared.disk true = c'.disk ∨
        ∃ c'', memide c' r = some c'' ∧ t.shared.disk true = c''.disk)) := by
  have hinit : (regime ⟨buf,disk⟩).free (fun _ : ι => .home) (fun _ => False) (initial buf disk data) :=
    ⟨[],⟨⟨rfl,nofun,nofun,fun _ _ _ => nofun,nofun,nofun,nofun,fun _ _ _ => rfl,nofun⟩,rfl⟩,rfl,
      ⟨data,rfl⟩,rfl,nofun,rfl⟩
  have hholds := Regime.run (regime_keeper ⟨buf,disk⟩ havedisk1) hinit h
  have horder : InOrder ⟨buf,disk⟩ t.pcs t.shared := hholds.everywhere
    (fun _ _ _ ⟨_,hq,hd⟩ => inOrder_of_drive hq.consistent hd)
    fun _ _ _ _ ⟨_,hq,hat⟩ => inOrder_of_at hq.consistent hat
  obtain ⟨⟨l,hc⟩,hstarted⟩ := horder
  have hfirst : t.shared.completed <+: t.shared.queued := ⟨l,hc.queued.symm⟩
  have hanswered : ∀ k x, (k,x) ∈ t.shared.returned → Answered ⟨buf,disk⟩ t.shared.completed k x :=
    fun k x hx => hc.returned (k,x) hx
  have hagrees : Agrees c ⟨buf,disk⟩ := ⟨hbuf,hdisk⟩
  refine ⟨?_,?_,?_,?_,?_,?_⟩
  · obtain ⟨hs,_⟩ | ⟨r,hs,_⟩ := hstarted
    · rw [hs]
    · exact ⟨[r],hs.symm⟩
  · obtain ⟨hs,_⟩ | ⟨r,hs,hq,_⟩ := hstarted
    · rwa [hs]
    · exact hq
  · obtain ⟨hs,_⟩ | ⟨r,hs,_⟩ := hstarted
    · rw [hs]
      exact Nat.le_succ _
    · rw [hs,length_append]
      rfl
  · intro hlock hne
    obtain ⟨_,_,l',hq,hd⟩ := hholds.free hlock
    cases l' with
    | nil =>
      exact absurd (hq.consistent.queued.trans (append_nil _)).symm hne
    | cons r l' =>
      have hs : t.shared.started = t.shared.completed++[r] := hd.elim (·.started) (·.started)
      intro heq
      simp [← heq] at hs
  · intro k x hx
    obtain ⟨r,hr,hb,_⟩ := hanswered k x hx
    exact ⟨⟨r,hr,hb⟩,(hanswered k x hx).flags⟩
  · intro hdev
    have hcompleted : ∀ r ∈ t.shared.completed, r ∈ t.shared.queued := fun r hr => hfirst.subset hr
    obtain ⟨c',hc',hagrees'⟩ := memide_play hagrees t.shared.completed
      (fun r hr => hc.accepted r (hcompleted r hr)) fun r hr => hdev r (hcompleted r hr)
    refine ⟨c',hc',?_,?_,?_,?_⟩
    · intro b hb
      rw [hagrees'.1]
      exact hc.idle b (fun p hp => hc.not_on_of_idle hb p (.inl hp)) (hc.not_queued_of_idle hb)
    · intro k x hx
      obtain ⟨r,_,_,hxbuf⟩ := hanswered k x hx
      obtain ⟨c'',hc'',hagrees''⟩ := memide_play hagrees (t.shared.completed.take (k+1))
        (fun r hr => hc.accepted r (hcompleted r (mem_of_mem_take hr)))
        fun r hr => hdev r (hcompleted r (mem_of_mem_take hr))
      exact ⟨c'',hc'',by rw [hxbuf,hagrees''.1]⟩
    · intro hs
      rw [hagrees'.2]
      obtain ⟨_,hdisk⟩ | ⟨r,hs',_⟩ := hstarted
      · rw [hdisk]
      · simp [hs] at hs'
    · intro r hs
      obtain ⟨hs',_⟩ | ⟨r',hs',hq,hdisk⟩ := hstarted
      · simp [hs] at hs'
      · obtain rfl : r = r' := by simpa [hs] using hs'
        have hr : r ∈ t.shared.queued := hq.subset (by rw [hs]; simp)
        obtain ⟨c'',hc'',hagrees''⟩ := memide_sync hagrees' (hc.accepted r hr) (hdev r hr)
        obtain hdisk | hdisk := hdisk
        · exact .inl (by rw [hdisk,hagrees'.2])
        · exact .inr ⟨c'',hc'',by rw [hdisk,hagrees''.2]⟩

/-- Process `p` reads block 3 of disk 1, and `q` writes block 5 meanwhile; both sleep until `r` has
been interrupted for them. -/
def readWrite {ι : Type} {n : ℕ} (p q r : ι) (b c : Fin n) : List (ι×MonAct (IdeCall ι n) Unit) :=
  (p,.call (.iderw b ⟨false,false,1,3,some p,1,fun _ => 0⟩))::List.replicate 9 (p,.tick) ++
    (q,.call (.iderw c ⟨true,true,1,5,some q,1,fun _ => 9⟩))::List.replicate 10 (q,.tick) ++
    (r,.env ())::(r,.call .ideintr)::List.replicate 7 (r,.tick) ++
    (r,.env ())::(r,.call .ideintr)::List.replicate 6 (r,.tick) ++
    List.replicate 5 (p,.tick)++List.replicate 5 (q,.tick)

theorem queue_refines_memide_readWrite : ∃ t, Run (Shared.Step (monitor (Fin 3) 2 true))
      (Shared.start
        (initial (fun _ => ⟨false,false,0,0,none,0,fun _ => 0⟩) (fun _ _ _ => 7) fun _ => 0)
        (fun _ => .home)
        fun _ => false) (readWrite 0 1 2 0 1) t ∧
    t.shared.returned.map Prod.fst = [0,1] ∧ t.shared.disk true 5 0 = 9 ∧
    (∀ k x, (k,x) ∈ t.shared.returned → x.buf.valid = true ∧ x.buf.dirty = false) ∧
    ∃ c', t.shared.completed.foldlM memide (Bcache.binit fun _ _ => 7) = some c' ∧
      t.shared.disk true = c'.disk := by
  have he : (exec (fun a t => Shared.next (monitor (Fin 3) 2 true) t a.1 a.2) (readWrite 0 1 2 0 1)
      (Shared.start
        (initial (fun _ => ⟨false,false,0,0,none,0,fun _ => 0⟩) (fun _ _ _ => 7) fun _ => 0)
        (fun _ => .home)
        fun _ => false)).map
          (fun t => decide (t.shared.returned.map Prod.fst = [0,1] ∧ t.shared.disk true 5 0 = 9 ∧
          t.shared.completed.length = t.shared.started.length ∧ ∀ r ∈ t.shared.queued, r.buf.dev =
            1)) = some true := by
    decide +kernel
  obtain ⟨t,ht,hd⟩ := Option.map_eq_some_iff.mp he
  obtain ⟨hreturned,hnine,hlength,hdev⟩ := of_decide_eq_true hd
  have hrun : Run (Shared.Step (monitor (Fin 3) 2 true)) _ _ t := Run.of_exec ht
  obtain ⟨hfirst,_,_,_,hflags,hmem⟩ :=
    queue_refines_memide (c := Bcache.binit fun _ _ => 7) rfl rfl hrun
  obtain ⟨c',hc',_,_,hdisk,_⟩ := hmem hdev
  refine ⟨t,hrun,hreturned,hnine,fun k x hx => (hflags k x hx).2,c',hc',?_⟩
  exact hdisk (hfirst.eq_of_length hlength).symm

end Ide
end JacobiXv6.Fs
