import JacobiXv6.Kernel.Trapframe

/-! The MP configuration table of `mp.c`. The `break` in the `default` case of `mpinit` leaves the
`switch` only: the loop goes on at the same entry, and never ends. -/
namespace JacobiXv6.Kernel.Mp
open Library

abbrev NCPU : ℕ := 8

def P2V (a : Word) : Word := a+0x80000000

def sum (m : Mem) (addr : Word) (len : ℕ) : Byte :=
  BitVec.ofNat 8 ((load m addr len).map BitVec.toNat).sum

def ushort (m : Mem) (a : Word) : ℕ := (m a).toNat+256*(m (a+1)).toNat

def uint (m : Mem) (a : Word) : Word := wordAt (load m a 4) 0

/-- The loop of `mpsearch1`, for at most `k` turns. -/
def searchLoop (m : Mem) (e : Word) : ℕ → Word → Option Word
  | 0,_ => none
  | k+1,p =>
    if p < e then if load m p 4 = [95,77,80,95] ∧ sum m p 16 = 0 then some p
      else searchLoop m e k (p+16) else none

def mpsearch1 (m : Mem) (a : Word) (len : ℕ) : Option Word :=
  searchLoop m (P2V a+BitVec.ofNat 32 len) (len/16) (P2V a)

def mpsearch (m : Mem) : Option Word :=
  let bda := P2V 0x400
  let p := BitVec.ofNat 32 (ushort m (bda+0x0E)*16)
  let first := if p ≠ 0 then mpsearch1 m p 1024
    else mpsearch1 m (BitVec.ofNat 32 (ushort m (bda+0x13)*1024)-1024) 1024
  first.orElse fun _ => mpsearch1 m 0xF0000 0x10000

/-- The table and the structure that points to it. -/
def mpconfig (m : Mem) : Option (Word×Word) := do
  let mp ← mpsearch m
  if uint m (mp+4) = 0 then none
  let conf := P2V (uint m (mp+4))
  if load m conf 4 ≠ [80,67,77,80] then none
  if m (conf+6) ≠ 1 ∧ m (conf+6) ≠ 4 then none
  if sum m conf (ushort m (conf+4)) ≠ 0 then none
  return (conf,mp)

/-- The types of entries. -/
inductive Entry
  | MPPROC
  | MPBUS
  | MPIOAPIC
  | MPIOINTR
  | MPLINTR
  deriving DecidableEq

def Entry.ofByte (c : Byte) : Option Entry :=
  if c = 0 then some .MPPROC else if c = 1 then some .MPBUS else if c = 2 then some .MPIOAPIC
  else if c = 3 then some .MPIOINTR else if c = 4 then some .MPLINTR else none

def Entry.size : Entry → Word
  | MPPROC => 20
  | _ => 8

/-- What `mpinit` sets while it reads the table: `cpus[i].apicid` for `i < ncpu`, and two more. -/
structure Found where
  apicids : List Byte
  ioapicid : Byte
  ismp : Bool

/-- An entry of the table at `p`. -/
def Found.entry (f : Found) (m : Mem) (p : Word) : Entry → Found
  | .MPPROC => if f.apicids.length < NCPU then { f with apicids := f.apicids++[m (p+1)] } else f
  | .MPIOAPIC => { f with ioapicid := m (p+1) }
  | _ => f

/-- The loop of `mpinit`, for at most `k` turns. -/
def entryLoop (m : Mem) (e : Word) : ℕ → Word → Found → Option Found
  | 0,_,_ => none
  | k+1,p,f =>
    if p < e then
      match Entry.ofByte (m p) with
      | some t => entryLoop m e k (p+t.size) (f.entry m p t)
      | none => entryLoop m e k p { f with ismp := false }
    else some f

/-- What `mpinit` leaves behind; `imcr` tells whether external interrupts are masked through the
IMCR. -/
structure Machine where
  lapic : Word
  apicids : List Byte
  ioapicid : Byte
  imcr : Bool

/-- `mpinit`, for at most `k` turns of its loop: it returns, it panics, or it has not ended. -/
def mpinit (m : Mem) (k : ℕ) : Option (Except String Machine) :=
  match mpconfig m with
  | none => some (.error "Expect to run on an SMP")
  | some (conf,mp) =>
    (entryLoop m (conf+BitVec.ofNat 32 (ushort m (conf+4))) k (conf+44) ⟨[],0,true⟩).map fun f =>
      if f.ismp then .ok ⟨uint m (conf+36),f.apicids,f.ioapicid,m (mp+12) ≠ 0⟩
      else .error "Didn't find a suitable machine"

/-! ### The format of the table -/

/-- From `p` to `e` there are these entries, one behind the other. -/
def Consists (m : Mem) (e : Word) : Word → List Entry → Prop
  | p,[] => ¬p < e
  | p,t::ts => p < e ∧ Entry.ofByte (m p) = some t ∧ Consists m e (p+t.size) ts

/-- Behind some entries of known types there is one of an unknown type. -/
inductive Unknown (m : Mem) (e : Word) : Word → Prop
  | here {p : Word} (hp : p < e) (ht : Entry.ofByte (m p) = none) : Unknown m e p
  | behind {p : Word} {t : Entry} (hp : p < e) (ht : Entry.ofByte (m p) = some t)
    (h : Unknown m e (p+t.size)) : Unknown m e p

section
variable {m : Mem} {e p : Word} {f f' : Found} {ts : List Entry}

lemma Consists.not_unknown (h : Consists m e p ts) : ¬Unknown m e p := by
  intro hunknown
  induction hunknown generalizing ts with
  | here hp ht =>
    cases ts with
    | nil => exact h hp
    | cons t ts => exact absurd (ht.symm.trans h.2.1) (Option.some_ne_none t).symm
  | behind hp ht _ ih =>
    cases ts with
    | nil => exact h hp
    | cons t ts =>
      obtain rfl := Option.some.inj (ht.symm.trans h.2.1)
      exact ih h.2.2

/-- At an entry of an unknown type the loop stays. -/
lemma entryLoop_stays (hp : p < e) (ht : Entry.ofByte (m p) = none) (k : ℕ) (f : Found) :
    entryLoop m e k p f = none := by
  induction k generalizing f with
  | zero => rfl
  | succ k ih =>
    rw [entryLoop,if_pos hp,ht]
    exact ih _

/-- If the loop ends, it has read entries of known types only. -/
lemma exists_consists (k : ℕ) (h : entryLoop m e k p f = some f') : ∃ ts, Consists m e p ts := by
  induction k generalizing p f with
  | zero => exact absurd h.symm (Option.some_ne_none f')
  | succ k ih =>
    by_cases hp : p < e
    · cases ht : Entry.ofByte (m p) with
      | none => exact absurd (h.symm.trans (entryLoop_stays hp ht (k+1) f)) (Option.some_ne_none f')
      | some t =>
        rw [entryLoop,if_pos hp,ht] at h
        obtain ⟨ts,hts⟩ := ih h
        exact ⟨t::ts,hp,ht,hts⟩
    · exact ⟨[],hp⟩

lemma Found.entry_ismp (f : Found) (m : Mem) (p : Word) (t : Entry) :
    (f.entry m p t).ismp = f.ismp := by
  cases t with
  | MPPROC =>
    simp only [Found.entry]
    split_ifs <;> rfl
  | _ => rfl

lemma Found.entry_length (h : f.apicids.length ≤ NCPU) (m : Mem) (p : Word) (t : Entry) :
    (f.entry m p t).apicids.length ≤ NCPU := by
  cases t with
  | MPPROC =>
    simp only [Found.entry]
    split_ifs with hlt
    · rw [List.length_append,List.length_singleton]
      exact hlt
    · exact h
  | _ => exact h

lemma Consists.entryLoop (h : Consists m e p ts) (hlen : f.apicids.length ≤ NCPU) :
    ∃ f', entryLoop m e (ts.length+1) p f = some f' ∧ f'.ismp = f.ismp ∧ f'.apicids.length ≤ NCPU := by
  induction ts generalizing p f with
  | nil =>
    refine ⟨f,?_,rfl,hlen⟩
    rw [Mp.entryLoop,if_neg h]
  | cons t ts ih =>
    obtain ⟨hp,ht,hts⟩ := h
    obtain ⟨f',hloop,hismp,hlen'⟩ := ih hts (f.entry_length hlen m p t)
    refine ⟨f',?_,hismp.trans (f.entry_ismp m p t),hlen'⟩
    rw [List.length_cons,Mp.entryLoop,if_pos hp,ht]
    exact hloop

end

/-- `mpinit` ends with at most `NCPU` processors, and with the panic if there is an entry of an
unknown type. -/
def Parses (m : Mem) (conf : Word) : Prop := ∃ k r, mpinit m k = some r ∧
  (∀ machine, r = .ok machine → machine.apicids.length ≤ NCPU) ∧
  (Unknown m (conf+BitVec.ofNat 32 (ushort m (conf+4))) (conf+44) →
    r = .error "Didn't find a suitable machine")

theorem mpinit_iff (m : Mem) (conf mp : Word) (hconf : mpconfig m = some (conf,mp)) :
    Parses m conf ↔ ∃ ts, Consists m (conf+BitVec.ofNat 32 (ushort m (conf+4))) (conf+44) ts := by
  constructor
  · rintro ⟨k,r,hr,-⟩
    rw [mpinit,hconf] at hr
    obtain ⟨f,hloop,-⟩ := Option.map_eq_some_iff.mp hr
    exact exists_consists k hloop
  · rintro ⟨ts,hts⟩
    obtain ⟨f,hloop,hismp,hlen⟩ := hts.entryLoop (f := ⟨[],0,true⟩) (Nat.zero_le _)
    refine ⟨ts.length+1,.ok ⟨uint m (conf+36),f.apicids,f.ioapicid,m (mp+12) ≠ 0⟩,?_,?_,
      fun h => absurd h hts.not_unknown⟩
    · rw [mpinit,hconf]
      dsimp only
      rw [hloop,Option.map_some,if_pos hismp]
    · intro machine hok
      obtain rfl := Except.ok.inj hok
      exact hlen

/-- The bytes of the two structures, 16 and 44, and one entry of type `t` that the length lets
begin. -/
def tables (t : Byte) : List Byte :=
  [95,77,80,95,0x10,0,9,0,0,0,140,0,0,0,0,0]++[80,67,77,80,45,0,1,162-t]++List.replicate 36 0++[t]

/-- They stand at the segment of the extended BIOS data area. -/
def firmware (t : Byte) : Mem :=
  fun a => if a = 0x8000040F then 0x90 else (tables t).getD (a-0x80090000).toNat 0

lemma firmware_length (t : Byte) : ushort (firmware t) (0x80090010+4) = 45 := rfl

/-- A table with one processor. -/
theorem mpinit_iff_processor : mpconfig (firmware 0) = some (0x80090010,0x80090000) ∧
    Parses (firmware 0) 0x80090010 := by
  have hconf : mpconfig (firmware 0) = some (0x80090010,0x80090000) := by decide +kernel
  refine ⟨hconf,(mpinit_iff _ _ _ hconf).mpr ⟨[.MPPROC],?_⟩⟩
  rw [firmware_length]
  exact ⟨by decide,by decide,by simp [Consists,Entry.size]⟩

/-- A table that is accepted, with an entry of type 5: `mpinit` does not end. -/
theorem mpinit_runs_on : mpconfig (firmware 5) = some (0x80090010,0x80090000) ∧
    (∀ k, mpinit (firmware 5) k = none) ∧
    ¬Parses (firmware 5) 0x80090010 := by
  have hconf : mpconfig (firmware 5) = some (0x80090010,0x80090000) := by decide +kernel
  have hstays : ∀ k, mpinit (firmware 5) k = none := by
    intro k
    rw [mpinit,hconf]
    dsimp only
    rw [firmware_length,entryLoop_stays (by decide) (by decide),Option.map_none]
  refine ⟨hconf,hstays,?_⟩
  rintro ⟨k,r,hr,-⟩
  exact absurd ((hstays k).symm.trans hr) (Option.some_ne_none r).symm

end JacobiXv6.Kernel.Mp
