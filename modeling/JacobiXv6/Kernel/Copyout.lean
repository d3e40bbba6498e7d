import JacobiXv6.Kernel.ExecFail

/-! What `copyout` writes, and where it follows the null pointer of `walkpgdir`. -/
namespace JacobiXv6.Kernel.Exec
open Library Function List

/-- The page of the byte `j` of a copy. -/
def page (va : Word) (j : ℕ) : ℕ := (va+BitVec.ofNat 32 j).toNat/PGSIZE

/-- The page is present and open to the user. -/
def Open (pgdir : Pgdir) (v : ℕ) : Prop := ∃ e, pgdir.entry v = some e ∧ e.user = true

/-- Bytes stored one after the other at the addresses of an address space. -/
def putBytes (pgdir : Pgdir) : (Frame → Sector) → Word → List Byte → Frame → Sector
  | mem, _, [] => mem
  | mem, va, b::bs =>
    match pgdir.entry (va.toNat/PGSIZE) with
    | none => putBytes pgdir mem (va+1#32) bs
    | some e => putBytes pgdir (update mem e.ppn ((mem e.ppn).paste (va.toNat%PGSIZE) [b])) (va+1#32) bs

/-- What `copyout` should do: store the bytes up to the first one whose page is not open to the
user, and nothing else, and say whether these are all. -/
structure Copied (pgdir : Pgdir) (va : Word) (buf : List Byte) (s : Machine) (ok : Bool)
    (s' : Machine) (m : ℕ) : Prop where
  count : m ≤ buf.length
  opened : ∀ i < m, Open pgdir (page va i)
  all : ok = true → m = buf.length
  closed : ok = false → m < buf.length ∧ ¬Open pgdir (page va m)
  stored : s' = { s with mem := putBytes pgdir s.mem va (buf.take m) }

/-- Up to the first page that is not open every page has its page table. -/
def Tabled (pgdir : Pgdir) (va : Word) (len : ℕ) : Prop :=
  ∀ j < len, (∀ i < j, Open pgdir (page va i)) → pgdir.find (page va j) ≠ none

section
variable {pgdir : Pgdir} {va : Word}

@[simp] lemma page_zero (va : Word) : page va 0 = va.toNat/PGSIZE := by simp [page]

lemma page_add (va : Word) (n j : ℕ) : page (va+BitVec.ofNat 32 n) j = page va (n+j) := by
  rw [page,page,add_assoc,← BitVec.ofNat_add]

lemma page_first {j : ℕ} (hj : va.toNat%PGSIZE+j < PGSIZE) : page va j = va.toNat/PGSIZE := by
  have hva := va.isLt
  rw [page,BitVec.toNat_add,BitVec.toNat_ofNat]
  simp only [PGSIZE] at hj ⊢
  omega

lemma putBytes_append (mem : Frame → Sector) (va : Word) (bs bs' : List Byte) :
    putBytes pgdir mem va (bs++bs') =
      putBytes pgdir (putBytes pgdir mem va bs) (va+BitVec.ofNat 32 bs.length) bs' := by
  induction bs generalizing mem va with
  | nil => simp [putBytes]
  | cons b bs ih =>
    have hnext : va+BitVec.ofNat 32 (b::bs).length = va+1#32+BitVec.ofNat 32 bs.length := by
      rw [add_assoc,← BitVec.ofNat_add,length_cons,Nat.add_comm]
    rw [hnext,cons_append,putBytes,putBytes]
    cases pgdir.entry (va.toNat/PGSIZE) with
    | none => exact ih mem _
    | some e => exact ih _ _

lemma paste_cons (b : Sector) (off : ℕ) (c : Byte) (bs : List Byte) :
    (b.paste off [c]).paste (off+1) bs = b.paste off (c::bs) := by
  funext k
  obtain hlt | rfl | hgt := lt_trichotomy k off
  · simp [Sector.paste,hlt,Nat.lt_succ_of_lt hlt]
  · simp [Sector.paste]
  · obtain ⟨d,rfl⟩ := Nat.exists_eq_add_of_lt hgt
    have hoff : off+d+1-off = d+1 := by omega
    have hnext : off+d+1-(off+1) = d := by omega
    have hge : ¬off+d+1 < off := by omega
    simp [Sector.paste,hoff,hnext,hge]

variable {e : Pte}

/-- Inside a page the bytes are stored by one `memmove`. -/
lemma putBytes_page (mem : Frame → Sector) (bs : List Byte)
    (he : pgdir.entry (va.toNat/PGSIZE) = some e)
    (hbs : bs ≠ []) (hfit : va.toNat%PGSIZE+bs.length ≤ PGSIZE) :
    putBytes pgdir mem va bs = update mem e.ppn ((mem e.ppn).paste (va.toNat%PGSIZE) bs) := by
  induction bs generalizing mem va with
  | nil => exact absurd rfl hbs
  | cons b bs ih =>
    rw [putBytes,he]
    dsimp only
    by_cases hlast : bs = []
    · rw [hlast,putBytes]
    · have hva := va.isLt
      have hpos := length_pos_iff.mpr hlast
      have hnext : (va+1#32).toNat/PGSIZE = va.toNat/PGSIZE ∧
          (va+1#32).toNat%PGSIZE = va.toNat%PGSIZE+1 := by
        rw [BitVec.toNat_add,BitVec.toNat_ofNat]
        simp only [PGSIZE,length_cons] at hfit ⊢
        omega
      rw [ih _ (hnext.1 ▸ he) hlast (by rw [hnext.2]; simp only [length_cons] at hfit; omega),hnext.2,
        update_self,update_idem,paste_cons]

lemma putBytes_apart {f : Frame} (mem : Frame → Sector) (bs : List Byte)
    (hopen : ∀ i < bs.length, Open pgdir (page va i))
    (hf : ∀ v e, pgdir.entry v = some e → e.user = true → e.ppn ≠ f) :
    putBytes pgdir mem va bs f = mem f := by
  induction bs generalizing mem va with
  | nil => rfl
  | cons b bs ih =>
    obtain ⟨e,he,huser⟩ := hopen 0 (Nat.succ_pos _)
    rw [page_zero] at he
    rw [putBytes,he]
    dsimp only
    rw [ih,update_of_ne (hf _ e he huser).symm]
    intro i hi
    have h := hopen (1+i) (by rw [length_cons]; omega)
    rwa [← page_add] at h

/-! ### The loop -/

variable {s : Machine}

lemma uva2ka_open {v : ℕ} (he : pgdir.entry v = some e) (huser : e.user = true) :
    uva2ka pgdir v s = .ok (some e.ppn,s) := by
  simp only [uva2ka,Pgdir.find_of_entry he,huser,if_true]
  rfl

lemma uva2ka_closed {v : ℕ} (hopen : ¬Open pgdir v) (hfind : pgdir.find v ≠ none) :
    uva2ka pgdir v s = .ok (none,s) := by
  unfold uva2ka
  cases hv : pgdir.find v with
  | none => exact absurd hv hfind
  | some o =>
    cases o with
    | none => rfl
    | some e =>
      cases huser : e.user with
      | false =>
        simp only [huser,Bool.false_eq_true,if_false]
        rfl
      | true => exact absurd ⟨e,Pgdir.entry_of_find hv,huser⟩ hopen

variable {buf : List Byte}

lemma copyoutLoop_open_page {fuel : ℕ} (hbuf : buf ≠ [])
    (he : pgdir.entry (va.toNat/PGSIZE) = some e) (huser : e.user = true) :
    copyoutLoop pgdir (fuel+1) va buf s =
      copyoutLoop pgdir fuel (va+BitVec.ofNat 32 (PGSIZE-va.toNat%PGSIZE))
      (buf.drop (PGSIZE-va.toNat%PGSIZE))
      { s with mem := putBytes pgdir s.mem va (buf.take (PGSIZE-va.toNat%PGSIZE)) } := by
  have hlt : va.toNat%PGSIZE < PGSIZE := Nat.mod_lt _ (by norm_num [PGSIZE])
  have htake : buf.take (PGSIZE-va.toNat%PGSIZE) ≠ [] := by
    rw [ne_eq,take_eq_nil_iff]
    rintro (h | h)
    · omega
    · exact hbuf h
  rw [copyoutLoop,if_neg hbuf,bind_of_ok (uva2ka_open he huser),putBytes_page s.mem _ he htake]
  · rfl
  · rw [length_take]
    omega

lemma Tabled.drop {n : ℕ} (h : Tabled pgdir va buf.length) (hopen : ∀ i < n, Open pgdir (page va i)) :
    Tabled pgdir (va+BitVec.ofNat 32 n) (buf.drop n).length := by
  intro j hj hbefore
  rw [length_drop] at hj
  rw [page_add]
  refine h (n+j) (by omega) fun i hi => ?_
  by_cases hin : i < n
  · exact hopen i hin
  · have hi' := hbefore (i-n) (by omega)
    rwa [page_add,Nat.add_sub_cancel' (by omega)] at hi'

lemma open_first (he : pgdir.entry (va.toNat/PGSIZE) = some e) (huser : e.user = true) :
    ∀ i < PGSIZE-va.toNat%PGSIZE, Open pgdir (page va i) := by
  intro i hi
  rw [page_first (by omega)]
  exact ⟨e,he,huser⟩

lemma copyoutLoop_nil (fuel : ℕ) (va : Word) (s : Machine) :
    copyoutLoop pgdir fuel va [] s = .ok (true,s) := by
  cases fuel <;> rfl

lemma Copied.nil (s : Machine) : Copied pgdir va [] s true s 0 :=
  ⟨le_rfl,fun i hi => absurd hi (Nat.not_lt_zero i),fun _ => rfl,
    fun h => absurd h.symm Bool.false_ne_true,rfl⟩

lemma Copied.drop {n m : ℕ} {s' : Machine} {ok : Bool} (hn : n ≤ buf.length)
    (hopen : ∀ i < n, Open pgdir (page va i))
    (h : Copied pgdir (va+BitVec.ofNat 32 n) (buf.drop n)
      { s with mem := putBytes pgdir s.mem va (buf.take n) } ok s' m) :
    Copied pgdir va buf s ok s' (n+m) := by
  have hcount := h.count
  rw [length_drop] at hcount
  constructor
  · omega
  · intro i hi
    by_cases hin : i < n
    · exact hopen i hin
    · have hi' := h.opened (i-n) (by omega)
      rwa [page_add,Nat.add_sub_cancel' (by omega)] at hi'
  · intro hok
    have hall := h.all hok
    rw [length_drop] at hall
    omega
  · intro hok
    obtain ⟨hlt,hclosed⟩ := h.closed hok
    rw [length_drop] at hlt
    rw [page_add] at hclosed
    exact ⟨by omega,hclosed⟩
  · rw [h.stored,take_add,putBytes_append,length_take,Nat.min_eq_left hn]

lemma copyoutLoop_copied {fuel : ℕ} (s : Machine) (hfuel : buf.length ≤ fuel)
    (htabled : Tabled pgdir va buf.length) :
    ∃ ok s' m, copyoutLoop pgdir fuel va buf s = .ok (ok,s') ∧ Copied pgdir va buf s ok s' m := by
  induction fuel generalizing va buf s with
  | zero =>
    obtain rfl := length_eq_zero_iff.mp (Nat.le_zero.mp hfuel)
    exact ⟨true,s,0,copyoutLoop_nil _ va s,.nil s⟩
  | succ fuel ih =>
    by_cases hbuf : buf = []
    · subst hbuf
      exact ⟨true,s,0,copyoutLoop_nil _ va s,.nil s⟩
    have hpos := length_pos_iff.mpr hbuf
    by_cases hopen : Open pgdir (va.toNat/PGSIZE)
    · obtain ⟨e,he,huser⟩ := hopen
      have hlt : va.toNat%PGSIZE < PGSIZE := Nat.mod_lt _ (by norm_num [PGSIZE])
      have hfirst := open_first he huser
      rw [copyoutLoop_open_page hbuf he huser]
      by_cases hn : PGSIZE-va.toNat%PGSIZE ≤ buf.length
      · obtain ⟨ok,s',m,hloop,hcopied⟩ :=
          ih { s with mem := putBytes pgdir s.mem va (buf.take (PGSIZE-va.toNat%PGSIZE)) }
          (by rw [length_drop]; omega) (htabled.drop hfirst)
        exact ⟨ok,s',_,hloop,hcopied.drop hn hfirst⟩
      · -- the last page
        rw [drop_of_length_le (by omega),take_of_length_le (by omega),copyoutLoop_nil]
        refine ⟨true,_,buf.length,rfl,le_rfl,fun i hi => hfirst i (by omega),fun _ => rfl,
          fun h => absurd h.symm Bool.false_ne_true,?_⟩
        rw [take_length]
    · have hfind : pgdir.find (va.toNat/PGSIZE) ≠ none := by
        have h := htabled 0 hpos fun i hi => absurd hi (Nat.not_lt_zero i)
        rwa [page_zero] at h
      refine ⟨false,s,0,?_,Nat.zero_le _,fun i hi => absurd hi (Nat.not_lt_zero i),
        fun h => absurd h Bool.false_ne_true,fun _ => ⟨hpos,by rwa [page_zero]⟩,rfl⟩
      rw [copyoutLoop,if_neg hbuf,bind_of_ok (uva2ka_closed hopen hfind)]
      rfl

lemma uva2ka_trap {v : ℕ} (hfind : pgdir.find v = none) : uva2ka pgdir v s = .error "trap" := by
  rw [uva2ka,hfind]
  rfl

lemma copyoutLoop_tabled {fuel : ℕ}
    (hfuel : buf.length ≤ fuel) :
    Meets (fun _ => True) (copyoutLoop pgdir fuel va buf) s fun _ _ => Tabled pgdir va buf.length := by
  induction fuel generalizing va buf s with
  | zero => exact .any fun _ _ j hj => absurd hj (by omega)
  | succ fuel ih =>
    by_cases hbuf : buf = []
    · exact .any fun _ _ j hj => absurd hj (by simp [hbuf])
    by_cases hopen : Open pgdir (va.toNat/PGSIZE)
    · obtain ⟨e,he,huser⟩ := hopen
      have hlt : va.toNat%PGSIZE < PGSIZE := Nat.mod_lt _ (by norm_num [PGSIZE])
      have hpos := length_pos_iff.mpr hbuf
      have hrest : Meets (fun _ => True)
        (copyoutLoop pgdir fuel (va+BitVec.ofNat 32 (PGSIZE-va.toNat%PGSIZE))
          (buf.drop (PGSIZE-va.toNat%PGSIZE)))
            { s with mem := putBytes pgdir s.mem va (buf.take (PGSIZE-va.toNat%PGSIZE)) }
          fun _ _ => Tabled pgdir (va+BitVec.ofNat 32 (PGSIZE-va.toNat%PGSIZE))
            (buf.drop (PGSIZE-va.toNat%PGSIZE)).length :=
        ih (by rw [length_drop]; omega)
      constructor
      · intro ok s' hloop j hj hbefore
        rw [copyoutLoop_open_page hbuf he huser] at hloop
        have htabled := hrest.returns ok s' hloop
        by_cases hin : j < PGSIZE-va.toNat%PGSIZE
        · rw [page_first (by omega),Pgdir.find_of_entry he]
          exact Option.some_ne_none _
        · have h := htabled (j-(PGSIZE-va.toNat%PGSIZE)) (by rw [length_drop]; omega) fun i hi => by
            rw [page_add]
            exact hbefore _ (by omega)
          rwa [page_add,Nat.add_sub_cancel' (by omega)] at h
      · exact fun _ _ => trivial
    · constructor
      · intro ok s' hloop j hj hbefore
        obtain rfl | hj' := Nat.eq_zero_or_pos j
        · intro hfind
          rw [page_zero] at hfind
          rw [copyoutLoop,if_neg hbuf,bind_of_error (uva2ka_trap hfind)] at hloop
          cases hloop
        · have h := hbefore 0 hj'
          rw [page_zero] at h
          exact absurd h hopen
      · exact fun _ _ => trivial

end

/-- Whatever process is running, `copyout` stores its bytes in pages that are open to the user and
says so, exactly if up to the first page that is not open every page has its page table. -/
theorem copyout_iff (pgdir : Pgdir) (va : Word) (buf : List Byte) :
    (∀ s, ∃ ok s' m, copyout pgdir va buf s = .ok (ok,s') ∧ Copied pgdir va buf s ok s' m ∧
      ∀ f, (∀ v e, pgdir.entry v = some e → e.user = true → e.ppn ≠ f) → s'.mem f = s.mem f) ↔
    Tabled pgdir va buf.length := by
  constructor
  · intro h
    obtain ⟨ok,s',m,hcopy,-⟩ := h caller
    exact (copyoutLoop_tabled le_rfl).returns ok s' hcopy
  · intro htabled s
    obtain ⟨ok,s',m,hcopy,hcopied⟩ := copyoutLoop_copied s le_rfl htabled
    refine ⟨ok,s',m,hcopy,hcopied,fun f hf => ?_⟩
    rw [hcopied.stored]
    refine putBytes_apart s.mem _ (fun i hi => hcopied.opened i ?_) hf
    rw [length_take] at hi
    omega

section Hole
variable {d : Fin 1024} {pgdir : Pgdir}

lemma set_absent (h : pgdir.pde d = none) (vpn : ℕ) (e : Option Pte) :
    (pgdir.set vpn e).pde d = none := by
  rw [Pgdir.set]
  by_cases hd : d = PDX vpn
  · dsimp only
    rw [← hd,update_self,h,Option.map_none]
  · exact (update_of_ne hd _ _).trans h

lemma walkpgdir_absent {free : List Frame} {vpn : ℕ} (hne : d ≠ PDX vpn) (h : pgdir.pde d = none) :
    Meets (fun _ => True) (walkpgdir pgdir vpn) free fun o _ => ∀ pgdir', o = some pgdir' →
      pgdir'.pde d = none := by
  unfold walkpgdir
  split
  · refine .pure ?_
    rintro pgdir' ⟨⟩
    exact h
  · refine .bind (.any fun r _ => ?_)
    cases r with
    | none => exact .pure fun _ hno => absurd hno.symm (Option.some_ne_none _)
    | some r =>
      refine .pure ?_
      rintro pgdir' ⟨⟩
      exact (update_of_ne hne _ _).trans h

lemma mappages_absent {write user : Bool} (n vpn : ℕ) (ppn : Frame) (pgdir : Pgdir) (free : List Frame)
    (hne : ∀ v, vpn ≤ v → v < vpn+n → d ≠ PDX v) (h : pgdir.pde d = none) :
    Meets (fun _ => True) (mappages write user n pgdir vpn ppn) free fun x _ => x.2.pde d = none := by
  induction n generalizing vpn ppn pgdir free with
  | zero => exact .pure h
  | succ n ih =>
    refine .bind ((walkpgdir_absent (hne vpn le_rfl (by omega)) h).mono ?_)
    rintro (_ | pgdir') free' hwalk
    · exact .pure h
    dsimp only
    split_ifs
    · exact .throw trivial
    · refine ih (vpn+1) (ppn+1) _ free' ?_ (set_absent (hwalk pgdir' rfl) vpn _)
      intro v hv hvn
      exact hne v (by omega) (by omega)

lemma setupkvm_absent {kmap : List Kmap} {free : List Frame}
    (hne : ∀ k ∈ kmap, ∀ v, k.Covers v → d ≠ PDX v) :
    Meets (fun _ => True) (setupkvm kmap) free fun o _ => ∀ pgdir, o = some pgdir →
      pgdir.pde d = none := by
  have hmap : ∀ (pgdir : Pgdir) (free : List Frame), pgdir.pde d = none →
      Meets (fun _ => True) (mapKernel kmap pgdir) free fun o _ => ∀ pgdir, o = some pgdir →
        pgdir.pde d = none := by
    induction kmap with
    | nil =>
      intro pgdir free h
      refine .pure ?_
      rintro pgdir' ⟨⟩
      exact h
    | cons k kmap ih =>
      intro pgdir free h
      refine .bind ((mappages_absent k.count k.vpn k.ppn pgdir free ?_ h).mono ?_)
      · intro v hv hvn
        exact hne k mem_cons_self v ⟨hv,hvn⟩
      rintro ⟨ok,pgdir₁⟩ free₁ h₁
      cases ok with
      | true => exact ih (fun k' hk' => hne k' (mem_cons_of_mem k hk')) pgdir₁ free₁ h₁
      | false =>
        exact .bind (.any fun _ _ => .pure fun _ hno => absurd hno.symm (Option.some_ne_none _))
  refine .bind (.any fun r _ => ?_)
  cases r with
  | none => exact .pure fun _ hno => absurd hno.symm (Option.some_ne_none _)
  | some r => exact hmap _ _ rfl

end Hole

lemma hole_ne : ∀ k ∈ (kmap 0x200 data_le le_data).kmap, ∀ v, k.Covers v → PDX 0xFDFFF ≠ PDX v := by
  intro k hk v hv hd
  have hval := congrArg Fin.val hd
  rw [PDX_val,PDX_val] at hval
  simp only [kmap,mem_cons,not_mem_nil,or_false] at hk
  rcases hk with rfl | rfl | rfl | rfl
  all_goals
    simp only [Kmap.Covers] at hv
    omega

/-- In the address space that `setupkvm` builds the page below the devices has no page table. A copy
to it does not fail: `copyout` follows the null pointer. -/
theorem copyout_hole : ∃ pgdir free,
    setupkvm (kmap 0x200 data_le le_data).kmap caller.free = .ok (some pgdir,free) ∧
    pgdir.find (page 0xFDFFF000#32 0) = none ∧
    ∀ s, copyout pgdir 0xFDFFF000#32 [97#8] s = .error "trap" := by
  have hsetup :
    Meets (fun _ => False) (setupkvm (kmap 0x200 data_le le_data).kmap) caller.free fun o _ =>
      ∃ pgdir, o = some pgdir ∧ pgdir.pde (PDX 0xFDFFF) = none := by
    refine (((setupkvm_entry (apart_kmap 0x200 data_le le_data)).also
      (setupkvm_some (apart_kmap 0x200 data_le le_data) (by simp [caller]))).also
        (setupkvm_absent hole_ne)).mono ?_
    rintro (_ | pgdir) free ⟨⟨-,hsome⟩,habsent⟩
    · exact absurd rfl hsome
    · exact ⟨pgdir,rfl,habsent pgdir rfl⟩
  obtain ⟨_,free,hok,pgdir,rfl,hhole⟩ := hsetup.exists_eq
  have hpage : (0xFDFFF000#32).toNat/PGSIZE = 0xFDFFF := by decide
  have hfind : pgdir.find 0xFDFFF = none := by rw [Pgdir.find,hhole,Option.map_none]
  refine ⟨pgdir,free,hok,?_,fun s => ?_⟩
  · rw [page_zero,hpage,hfind]
  · rw [copyout,length_singleton,copyoutLoop,if_neg (cons_ne_nil _ _),hpage,
      bind_of_error (uva2ka_trap hfind)]

end JacobiXv6.Kernel.Exec
