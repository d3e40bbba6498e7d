import JacobiXv6.Kernel.ExecArgs

/-! A failing `exec`. Every way out of the function leaves the process as it was. It is not left
where an argument of 32 megabytes or more begins where the address space has no page table:
`uva2ka`, unlike the other callers of `walkpgdir`, follows the null pointer. -/
namespace JacobiXv6.Kernel.Exec
open Library Function List

section
variable {E : String → Prop} {F : Frame → Prop} {pgdir : Pgdir} {s : Machine}

/-- Where all the pages are there `copyout` writes to them, as far as it comes. -/
lemma copyoutLoop_mapped (fuel : ℕ) (va : Word) (buf : List Byte) (s : Machine)
    (hpages : ∀ j < buf.length, ∃ e, pgdir.entry ((va+BitVec.ofNat 32 j).toNat/PGSIZE) = some e ∧
      F e.ppn) :
    Meets E (copyoutLoop pgdir fuel va buf) s fun _ s' => s'.free = s.free ∧ Same F s s' := by
  induction fuel generalizing va buf s with
  | zero => exact .pure ⟨rfl,.refl F s⟩
  | succ fuel ih =>
    unfold copyoutLoop
    by_cases hbuf : buf = []
    · rw [if_pos hbuf]
      exact .pure ⟨rfl,.refl F s⟩
    rw [if_neg hbuf]
    obtain ⟨e,he,hF⟩ := hpages 0 (length_pos_iff.mpr hbuf)
    rw [show va+BitVec.ofNat 32 0 = va by simp] at he
    refine .bind (uva2ka_meets he ?_)
    cases e.user with
    | false => exact .pure ⟨rfl,.refl F s⟩
    | true =>
      refine .bind ((store_meets hF).mono ?_)
      rintro _ s₁ ⟨hfree,hsame⟩
      refine (ih _ _ s₁ ?_).mono ?_
      · intro j hj
        rw [length_drop] at hj
        have hshift : va+BitVec.ofNat 32 (PGSIZE-va.toNat%PGSIZE)+BitVec.ofNat 32 j =
            va+BitVec.ofNat 32 (PGSIZE-va.toNat%PGSIZE+j) := by rw [add_assoc,← BitVec.ofNat_add]
        rw [hshift]
        exact hpages _ (by omega)
      · rintro _ s₂ ⟨hfree',hsame'⟩
        exact ⟨hfree'.trans hfree,hsame.trans hsame'⟩

lemma copyout_closed {va : Word} {buf : List Byte} (hbuf : buf ≠ [])
    (hclosed : Meets E (uva2ka pgdir (va.toNat/PGSIZE)) s fun o s' => o = none ∧ s' = s) :
    Meets E (copyout pgdir va buf) s fun ok s' => ok = false ∧ s' = s := by
  obtain ⟨k,hk⟩ := Nat.exists_eq_succ_of_ne_zero (mt length_eq_zero_iff.mp hbuf)
  rw [copyout,hk,copyoutLoop,if_neg hbuf]
  refine .bind (hclosed.mono ?_)
  rintro o s' ⟨rfl,rfl⟩
  exact .pure ⟨rfl,rfl⟩

lemma uva2ka_unmapped {v : ℕ} (hE : E "trap") (hnone : pgdir.entry v = none) :
    Meets E (uva2ka pgdir v) s fun o s' => o = none ∧ s' = s := by
  unfold uva2ka
  cases hfind : pgdir.find v with
  | none => exact .throw hE
  | some o =>
    cases o with
    | none => exact .pure ⟨rfl,rfl⟩
    | some e =>
      rw [Pgdir.entry_of_find hfind] at hnone
      exact absurd hnone (Option.some_ne_none e)

lemma kmap_cases (data : ℕ) (h : data ≤ 0xE000) (h' : 0x100 ≤ data) {v : ℕ} (hv : 512*1024 ≤ v)
    (hv' : v < 1024*1024) : (∃ k ∈ (Kernel.kmap data h h').kmap, k.Covers v) ∨
      v < 0xFE000 ∧ ∀ k ∈ (Kernel.kmap data h h').kmap, ¬k.Covers v := by
  simp only [Kernel.kmap,mem_cons,not_mem_nil,or_false,exists_eq_or_imp,exists_eq_left,
    forall_eq_or_imp,forall_eq,Kmap.Covers]
  omega

end

section Pushing
variable {E : String → Prop} {data : ℕ} {h : data ≤ 0xE000} {h' : 0x100 ≤ data}
  {free₀ : List Frame} {n : ℕ}
  {pgdir : Pgdir} {s : Machine} {sp x : Word}
variable (hst : Stacked (Kernel.kmap data h h').kmap free₀ (n+2) pgdir) (hn : (n+2)*PGSIZE < KERNBASE)
include hst hn

/-- What is put below `sp` goes to pages of the new program, unless it begins in the hole. -/
lemma copyout_safe {buf : List Byte} (hlow : stackBase n ≤ sp.toNat) (hhigh : sp.toNat ≤ (n+2)*PGSIZE)
    (hbuf : buf ≠ []) (hlen : buf.length ≤ 2^31) (hx : Below x sp buf.length)
    (hE : 2^25 < buf.length → E "trap") :
    Meets E (copyout pgdir x buf) s fun ok s' => (s'.free = s.free ∧ Same (· ∈ free₀) s s') ∧
      (ok = true → stackBase n ≤ x.toNat ∧ x.toNat+buf.length ≤ sp.toNat) := by
  obtain ⟨e,he,-⟩ := hst.mapped (n+1) (by omega)
  have hpos := length_pos_iff.mpr hbuf
  have hxlt := x.isLt
  have hbelow := hx
  obtain ⟨d,hd,hx⟩ := hx
  obtain hx | hx := hx
  · refine .also (copyoutLoop_mapped _ x buf s ?_)
      ((copyout_below hst hn (covers_top data h h') he hlow hhigh hbuf hbelow).mono
        fun ok s' hok htrue => ⟨(hok htrue).1,(hok htrue).2.1⟩)
    intro j hj
    have hpage : (x+BitVec.ofNat 32 j).toNat/PGSIZE < n+2 := by
      rw [BitVec.toNat_add,BitVec.toNat_ofNat]
      simp only [PGSIZE] at hhigh ⊢
      omega
    obtain ⟨e',he',-,hmem⟩ := hst.mapped _ hpage
    exact ⟨e',he',hmem⟩
  · have hv : 512*1024 ≤ x.toNat/PGSIZE ∧ x.toNat/PGSIZE < 1024*1024 := by
      simp only [PGSIZE,stackBase] at hlow ⊢
      omega
    have hclosed : Meets E (uva2ka pgdir (x.toNat/PGSIZE)) s fun o s' => o = none ∧ s' = s := by
      obtain ⟨k,hk,hc⟩ | ⟨hhi,hnone⟩ := kmap_cases data h h' hv.1 hv.2
      · obtain ⟨e',he',huser⟩ := hst.kernel.mapped _ hv.2 k hk hc
        refine uva2ka_meets he' ?_
        rw [huser]
        exact ⟨rfl,rfl⟩
      · refine uva2ka_unmapped (hE ?_) (hst.kernel.unmapped _ hv.2 hv.1 hnone)
        simp only [PGSIZE,stackBase] at hhi hlow
        omega
    refine (copyout_closed hbuf hclosed).mono ?_
    rintro ok s' ⟨rfl,rfl⟩
    exact ⟨⟨rfl,.refl _ _⟩,fun h => absurd h Bool.false_ne_true⟩

lemma pushArgs_safe (argv : List Arg) (sp : Word) (ptrs : List Word) (s : Machine)
    (hlow : stackBase n ≤ sp.toNat) (hhigh : sp.toNat ≤ (n+2)*PGSIZE) (hptrs : ptrs.length ≤ MAXARG)
    (hE : ∀ a ∈ argv, 2^25 ≤ a.text.length → E "trap") :
    Meets E (pushArgs pgdir argv sp ptrs) s fun o s' => (s'.free = s.free ∧ Same (· ∈ free₀) s s') ∧
      ∀ sp' ptrs', o = some (sp',ptrs') → stackBase n ≤ sp'.toNat ∧ sp'.toNat ≤ (n+2)*PGSIZE ∧
        ptrs'.length ≤ MAXARG := by
  induction argv generalizing sp ptrs s with
  | nil =>
    refine .pure ⟨⟨rfl,.refl _ s⟩,?_⟩
    rintro _ _ ⟨⟩
    exact ⟨hlow,hhigh,hptrs⟩
  | cons a argv ih =>
    unfold pushArgs
    by_cases hmax : MAXARG ≤ ptrs.length
    · rw [if_pos hmax]
      exact .pure ⟨⟨rfl,.refl _ s⟩,fun _ _ h => absurd h.symm (Option.some_ne_none _)⟩
    rw [if_neg hmax]
    have hshort := a.short
    have hL : a.bytes.length ≤ 2^31 := by
      rw [a.length_bytes]
      simp only [KERNBASE] at hshort
      omega
    have hbelow := below_push sp hL
    rw [← a.length_bytes]
    refine .bind ((copyout_safe hst hn hlow hhigh a.bytes_ne_nil hL hbelow ?_).mono ?_)
    · rw [a.length_bytes]
      exact fun hlong => hE a mem_cons_self (by omega)
    rintro ok s₁ ⟨⟨hfree,hsame⟩,hok⟩
    cases ok with
    | false => exact .pure ⟨⟨hfree,hsame⟩,fun _ _ h => absurd h.symm (Option.some_ne_none _)⟩
    | true =>
      obtain ⟨hlow',hend⟩ := hok rfl
      rw [if_pos rfl]
      refine (ih _ (ptrs++[_]) s₁ hlow' (by omega) ?_ fun b hb => hE b (mem_cons_of_mem a hb)).mono ?_
      · rw [length_append,length_singleton]
        omega
      · rintro o s₂ ⟨⟨hfree',hsame'⟩,hres⟩
        exact ⟨⟨hfree'.trans hfree,hsame.trans hsame'⟩,hres⟩

end Pushing

section Failing
variable {E : String → Prop} {data : ℕ} {h : data ≤ 0xE000} {h' : 0x100 ≤ data} {s s₁ : Machine}
  {sz : ℕ} {pgdir : Pgdir} {argv : List Arg}

/-- After the stack is there, too, a failure gives back the new address space and leaves the old
one. -/
lemma execArgs_safe (hready : Ready (Kernel.kmap data h h').kmap s s₁ sz pgdir) (hs : s.Sound)
    (hE : ∀ a ∈ argv, 2^25 ≤ a.text.length → E "trap") (path : List Byte) (entry : Word) :
    Meets E (execArgs path argv entry sz pgdir) s₁ fun ret s' => ret = 0 ∨ ret = -1 ∧
      Unchanged s s' := by
  obtain ⟨n,hsz,hst⟩ := hready.size
  have hbound := hready.bound
  have hsame₁ := hready.going.same
  have hn : (n+2)*PGSIZE < KERNBASE := hsz ▸ hbound
  have hsp : (BitVec.ofNat 32 sz).toNat = (n+2)*PGSIZE := by
    rw [BitVec.toNat_ofNat,← hsz]
    simp only [KERNBASE] at hbound
    omega
  have hbad : ∀ s₂, s₂.free = s₁.free → Same (· ∈ s.free) s₁ s₂ →
      Meets E (do bad (some pgdir) none; return (-1 : ℤ)) s₂
        fun ret s' => ret = 0 ∨ ret = -1 ∧ Unchanged s s' := by
    intro s₂ hfree hsame
    have hgoing : Going s.free s s₂ pgdir :=
      ⟨hsame₁.trans hsame,hready.going.clean,by rw [hfree]; exact hready.going.stock⟩
    refine .bind (.bind (freevm_going hgoing fun s₃ hsame₃ hfree₃ _ => ?_))
    exact .pure (.pure (.inr ⟨rfl,hsame₃,hfree₃⟩))
  refine .bind ((pushArgs_safe hst hn argv _ [] s₁ ?_ hsp.le (Nat.zero_le _) hE).mono ?_)
  · rw [hsp,stackBase]
    exact Nat.mul_le_mul_right _ (Nat.le_succ _)
  rintro (_ | ⟨sp,ptrs⟩) s₂ ⟨⟨hfree,hsame⟩,hpush⟩
  · exact hbad s₂ hfree hsame
  obtain ⟨hlow,hhigh,hptrs⟩ := hpush sp ptrs rfl
  have hlen := length_ustack sp ptrs
  have hsmall : (3+ptrs.length+1)*4 ≤ 144 := by
    simp only [MAXARG] at hptrs
    omega
  have hbelow : Below (sp-BitVec.ofNat 32 ((3+ptrs.length+1)*4)) sp
      ((ustack sp ptrs).flatMap wordBytes).length := by
    rw [hlen]
    exact below_sub sp (by omega)
  refine .bind ((copyout_safe hst hn hlow hhigh ?_ (by omega) hbelow (by omega)).mono ?_)
  · rw [← length_pos_iff,hlen]
    omega
  rintro ok s₃ ⟨⟨hfree₃,hsame₃⟩,-⟩
  cases ok with
  | false => exact hbad s₃ (hfree₃.trans hfree) (hsame.trans hsame₃)
  | true =>
    refine .bind (.get (.bind (.update (.bind (onFree_meets ?_)))))
    refine (freevm_returns ?_).mono fun _ _ _ => .pure (.inl rfl)
    rw [hsame₃.pgdir,hsame.pgdir,hsame₁.pgdir]
    exact hs.clean

/-- The process and its memory, the free pages, the references to inodes and the operations of the
log are as they were. -/
structure Kept (s s' : Machine) : Prop where
  pgdir : s'.pgdir = s.pgdir
  user : ∀ va < KERNBASE, s'.user va = s.user va
  sz : s'.sz = s.sz
  tf : s'.tf = s.tf
  name : s'.name = s.name
  handler : s'.handler = s.handler
  free : s'.free.Perm s.free
  ref : s'.ref = s.ref
  locked : s'.locked = s.locked
  outstanding : s'.outstanding = s.outstanding

lemma Unchanged.kept {s' : Machine} (hu : Unchanged s s') (hs : s.Sound) : Kept s s' where
  pgdir := hu.same.pgdir
  user := by
    intro va hva
    have hv : va/PGSIZE < 512*1024 := by
      simp only [KERNBASE] at hva
      simp only [PGSIZE]
      omega
    rw [Machine.user,Machine.user,userByte,userByte,hu.same.pgdir]
    cases he : s.pgdir.entry (va/PGSIZE) with
    | none => rfl
    | some e => rw [Option.bind_some,Option.bind_some,hu.same.mem e.ppn (hs.own _ hv e he)]
  sz := hu.same.sz
  tf := hu.same.tf
  name := hu.same.name
  handler := hu.same.handler
  free := Multiset.coe_eq_coe.mp hu.free
  ref := hu.same.ref
  locked := hu.same.locked
  outstanding := hu.same.outstanding

end Failing

/-- Until the arguments are pushed `exec` does not panic, whatever the file holds and whichever page
cannot be had. When it fails it leaves everything as it was. It does not return only if it follows a
null pointer for an argument of 32 megabytes or more. -/
theorem exec_fails_clean (data : ℕ) (h : data ≤ 0xE000) (h' : 0x100 ≤ data) (fs : Files)
    (path : List Byte)
    (argv : List Arg) (s : Machine) (hs : s.Sound) :
    (∃ o s', image (kmap data h h').kmap fs path s = .ok (o,s')) ∧
    (∀ ret s', exec (kmap data h h').kmap fs path argv s = .ok (ret,s') → ret = 0 ∨
      ret = -1 ∧ Kept s s') ∧
    ∀ message, exec (kmap data h h').kmap fs path argv s = .error message →
      message = "trap" ∧ ∃ a ∈ argv, 2^25 ≤ a.text.length := by
  have hexec : Meets (fun message => message = "trap" ∧ ∃ a ∈ argv, 2^25 ≤ a.text.length)
      (exec (kmap data h h').kmap fs path argv) s fun ret s' => ret = 0 ∨ ret = -1 ∧ Kept s s' := by
    refine .bind ((image_meets (apart_kmap data h h') hs fs path).mono ?_)
    rintro (_ | ⟨entry,sz,pgdir⟩) s₁ ⟨hnone,hsome⟩
    · exact .pure (.inr ⟨rfl,(hnone rfl).kept hs⟩)
    · refine (execArgs_safe (hsome entry sz pgdir rfl) hs ?_ path entry).mono fun ret s' hret => ?_
      · exact fun a ha hlong => ⟨rfl,a,ha,hlong⟩
      · exact hret.imp_right fun hbad => ⟨hbad.1,hbad.2.kept hs⟩
  obtain ⟨o,s',himage,-⟩ := (image_meets (apart_kmap data h h') hs fs path).exists_eq
  exact ⟨⟨o,s',himage⟩,hexec.returns,hexec.panics⟩

lemma long_nonzero : 0#8 ∉ List.replicate 5000 97#8 := by
  intro hmem
  exact absurd (eq_of_mem_replicate hmem) (by decide)

lemma long_short : (List.replicate 5000 97#8).length < KERNBASE := by
  rw [length_replicate]
  norm_num [KERNBASE]

/-- A string that is longer than a page. -/
def long : Arg := ⟨List.replicate 5000 97#8,long_nonzero,long_short⟩

lemma execArgs_long {s₁ : Machine} {pgdir : Pgdir}
    (hready : Ready (kmap 0x200 data_le le_data).kmap caller s₁ (2*PGSIZE) pgdir) (path : List Byte)
    (entry : Word) :
    Meets (fun _ => False) (execArgs path [long] entry (2*PGSIZE) pgdir) s₁ fun ret _ => ret = -1 :=
    by
  obtain ⟨n,hsz,hst⟩ := hready.size
  obtain rfl : n = 0 := by
    simp only [PGSIZE] at hsz
    omega
  obtain ⟨e,he,huser,-⟩ := hst.mapped 0 (by norm_num)
  have hsp : (BitVec.ofNat 32 (2*PGSIZE)-BitVec.ofNat 32 (long.text.length+1)) &&& ~~~3#32 =
      3188#32 := by
    rw [show long.text.length = 5000 from length_replicate]
    decide
  -- the string begins in the guard page
  have hclosed : Meets (fun _ => False) (uva2ka pgdir ((3188#32).toNat/PGSIZE)) s₁
      fun o s' => o = none ∧ s' = s₁ := by
    refine uva2ka_meets he ?_
    rw [huser]
    exact ⟨rfl,rfl⟩
  refine .bind ?_
  rw [pushArgs,if_neg (by simp)]
  dsimp only
  rw [hsp]
  refine .bind ((copyout_closed long.bytes_ne_nil hclosed).mono ?_)
  rintro ok s₂ ⟨rfl,rfl⟩
  refine .pure (.bind (.bind (onFree_meets ?_)))
  exact (freevm_returns hready.going.clean).mono fun _ _ _ => .pure (.pure rfl)

/-- The program is loaded, its stack is there, and then the argument does not fit. -/
theorem exec_fails_clean_long : ∃ s', exec (kmap 0x200 data_le le_data).kmap oneFile [] [long] caller =
    .ok (-1,s') ∧ Kept caller s' := by
  have hapart := apart_kmap 0x200 data_le le_data
  have hmeets : Meets (fun _ => False) (exec (kmap 0x200 data_le le_data).kmap oneFile [] [long]) caller
      fun ret _ => ret = -1 := by
    refine .bind (((image_meets hapart sound_caller oneFile []).also
      (image_some hapart oneFile [] rfl rfl (by simp [caller]))).mono ?_)
    rintro _ s₁ ⟨⟨-,hready⟩,entry,pgdir,rfl⟩
    exact execArgs_long (hready entry _ pgdir rfl) [] entry
  obtain ⟨ret,s',hexec,rfl⟩ := hmeets.exists_eq
  obtain ⟨-,hclean,-⟩ := exec_fails_clean 0x200 data_le le_data oneFile [] [long] caller sound_caller
  obtain hzero | ⟨-,hkept⟩ := hclean _ s' hexec
  · exact absurd hzero (by decide)
  · exact ⟨s',hexec,hkept⟩

end JacobiXv6.Kernel.Exec
