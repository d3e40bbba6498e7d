import JacobiXv6.Kernel.VmPages

/-! Which pages an address space maps after the functions of `vm.c`, and why they do not panic: the
user's pages lie one after the other from address 0 on, so that no page is mapped twice and none
that is looked for is missing. -/
namespace JacobiXv6.Kernel
open Library Function List Option

namespace Pgdir
variable {pgdir : Pgdir} {vpn v : ℕ}

def entry (pgdir : Pgdir) (vpn : ℕ) : Option Pte := (pgdir.find vpn).join

lemma find_of_entry {e : Pte} (h : pgdir.entry vpn = some e) : pgdir.find vpn = some (some e) := by
  rw [entry,join_eq_some_iff] at h
  exact h

lemma entry_of_find {e : Pte} (h : pgdir.find vpn = some (some e)) : pgdir.entry vpn = some e := by
  rw [entry,h,join_some]

lemma entry_set {t : PageTable} (ht : pgdir.pde (PDX vpn) = some t) (e : Option Pte)
    (hvpn : vpn < 1024*1024)
    (hv : v < 1024*1024) : (pgdir.set vpn e).entry v = if v = vpn then e else pgdir.entry v := by
  split_ifs with h
  · rw [h,entry,find_set_self ht,join_some]
  · rw [entry,find_set_ne e fun hd hp => h (eq_of_indices hv hvpn hd hp),entry]

lemma entry_insert (hnone : pgdir.pde (PDX vpn) = none) (r : Frame) (v : ℕ) :
    { pgdir with pde := update pgdir.pde (PDX vpn) (some ⟨r,fun _ => none⟩) }.entry v =
      pgdir.entry v := by
  simp only [entry,find]
  by_cases hd : PDX v = PDX vpn
  · rw [hd,update_self,hnone]
    rfl
  · rw [update_of_ne hd]

/-- No page of the user has the number 0, which `deallocuvm` does not accept. -/
def Clean (pgdir : Pgdir) : Prop := ∀ v < 512*1024, ∀ e, pgdir.entry v = some e → e.ppn ≠ 0

end Pgdir

section
variable {E : String → Prop} {free : List Frame} {pgdir : Pgdir}

lemma walkpgdir_entry (vpn : ℕ) : Meets E (walkpgdir pgdir vpn) free fun o free' => free' <:+ free ∧
    ∀ pgdir', o = some pgdir' → (∀ v, pgdir'.entry v = pgdir.entry v) ∧
      ∃ t, pgdir'.pde (PDX vpn) = some t := by
  unfold walkpgdir
  split
  · rename_i t ht
    refine .pure ⟨suffix_rfl,?_⟩
    rintro pgdir' ⟨⟩
    exact ⟨fun _ => rfl,t,ht⟩
  · rename_i hnone
    refine .bind (kalloc_meets (fun hfree => ?_) fun r free' hfree => ?_)
    · exact .pure ⟨nil_suffix,fun _ h => absurd h.symm (some_ne_none _)⟩
    · rw [hfree]
      refine .pure ⟨suffix_cons r free',?_⟩
      rintro pgdir' ⟨⟩
      exact ⟨Pgdir.entry_insert hnone r,_,update_self ..⟩

/-- The first `k` pages from `vpn` on are mapped to the pages from `ppn` on, the others are as
before. -/
def Pgdir.Extends (write user : Bool) (vpn : ℕ) (ppn : Frame) (k : ℕ) (pgdir pgdir' : Pgdir) : Prop :=
  ∀ v < 1024*1024, pgdir'.entry v =
    if vpn ≤ v ∧ v < vpn+k then some ⟨ppn+(v-vpn),write,user⟩ else pgdir.entry v

lemma mappages_entry {write user : Bool} (n vpn : ℕ) (ppn : Frame) (pgdir : Pgdir) (free : List Frame)
    (hend : vpn+n ≤ 1024*1024) (hnew : ∀ v, vpn ≤ v → v < vpn+n → pgdir.entry v = none) :
    Meets E (mappages write user n pgdir vpn ppn) free fun x free' => free' <:+ free ∧
      ∃ k ≤ n, (x.1 = true → k = n) ∧ pgdir.Extends write user vpn ppn k x.2 := by
  induction n generalizing vpn ppn pgdir free with
  | zero =>
    refine .pure ⟨suffix_rfl,0,le_rfl,fun _ => rfl,?_⟩
    intro v _
    rw [if_neg (by omega)]
  | succ n ih =>
    refine .bind ((walkpgdir_entry vpn).mono ?_)
    rintro (_ | pgdir') free' ⟨hsuffix,hwalk⟩
    · refine .pure ⟨hsuffix,0,Nat.zero_le _,fun h => Bool.noConfusion h,?_⟩
      intro v _
      rw [if_neg (by omega)]
    obtain ⟨hsame,t,ht⟩ := hwalk pgdir' rfl
    have habsent : (pgdir'.find vpn).join = none :=
      (hsame vpn).trans (hnew vpn le_rfl (by omega))
    have hset := fun v hv => Pgdir.entry_set (v := v) ht (some ⟨ppn,write,user⟩) (by omega) hv
    simp only [habsent,isSome_none,Bool.false_eq_true,if_false]
    refine (ih (vpn+1) (ppn+1) _ free' (by omega) ?_).mono ?_
    · intro v hv hvn
      rw [hset v (by omega),if_neg (by omega),hsame]
      exact hnew v (by omega) (by omega)
    · rintro x free'' ⟨hsuffix',k,hk,hall,hext⟩
      refine ⟨hsuffix'.trans hsuffix,k+1,by omega,fun hx => by rw [hall hx],?_⟩
      intro v hv
      rw [hext v hv,hset v hv,hsame]
      obtain hlt | rfl | hgt := lt_trichotomy v vpn
      · rw [if_neg (by omega),if_neg (by omega),if_neg (by omega)]
      · rw [if_neg (by omega),if_pos rfl,if_pos (by omega),Nat.sub_self,Nat.add_zero]
      · by_cases hin : v < vpn+(k+1)
        · have hshift : 1+(v-(vpn+1)) = v-vpn := by omega
          rw [if_pos (by omega),if_pos (by omega),Nat.add_assoc,hshift]
        · rw [if_neg (by omega),if_neg (by omega),if_neg (by omega)]

/-- `deallocuvm` takes entries away. -/
lemma deallocLoop_entry {last : ℕ} (hlast : last ≤ 512*1024) (fuel a : ℕ) (pgdir : Pgdir)
    (free : List Frame)
    (hclean : pgdir.Clean) : Meets E (deallocLoop last fuel a pgdir) free fun pgdir' _ =>
      ∀ v < 1024*1024, pgdir'.entry v = none ∨ pgdir'.entry v = pgdir.entry v := by
  induction fuel generalizing a pgdir free with
  | zero => exact .pure fun _ _ => .inr rfl
  | succ fuel ih =>
    unfold deallocLoop
    split_ifs with ha
    · exact .pure fun _ _ => .inr rfl
    split
    · exact ih _ pgdir free hclean
    rename_i t ht
    split
    · exact ih _ pgdir free hclean
    rename_i e he
    have hentry : pgdir.entry a = some e := by rw [Pgdir.entry,Pgdir.find_eq ht,he,join_some]
    have hset := fun v hv => Pgdir.entry_set (v := v) ht none (show a < 1024*1024 by omega) hv
    rw [if_neg (hclean a (by omega) e hentry)]
    refine .bind (kfree_meets ((ih (a+1) _ _ ?_).mono ?_))
    · intro v hv e' he'
      rw [hset v (by omega)] at he'
      split_ifs at he'
      exact hclean v hv e' he'
    · intro pgdir' _ h v hv
      obtain hnone | hsame := h v hv
      · exact .inl hnone
      · rw [hset v hv] at hsame
        split_ifs at hsame
        · exact .inl hsame
        · exact .inr hsame

lemma deallocuvm_entry {oldsz newsz : ℕ} (hold : oldsz ≤ KERNBASE) (hclean : pgdir.Clean) :
    Meets E (deallocuvm pgdir oldsz newsz) free fun x _ =>
      ∀ v < 1024*1024, x.2.entry v = none ∨ x.2.entry v = pgdir.entry v := by
  unfold deallocuvm
  split_ifs with hle
  · exact .pure fun _ _ => .inr rfl
  · exact .bind ((deallocLoop_entry (pages_le hold) _ _ pgdir free hclean).mono fun _ _ h => .pure h)

lemma Pgdir.Clean.anti {pgdir' : Pgdir} (h : pgdir.Clean)
    (hless : ∀ v < 1024*1024, pgdir'.entry v = none ∨ pgdir'.entry v = pgdir.entry v) :
    pgdir'.Clean := by
  intro v hv e he
  obtain hnone | hsame := hless v (by omega)
  · rw [hnone] at he
    exact absurd he.symm (some_ne_none e)
  · exact h v hv e (hsame ▸ he)

lemma freeTables_returns (is : List (Fin 1024)) (free : List Frame) :
    Meets E (freeTables pgdir is) free fun _ _ => True :=
  (freeTables_meets is free).mono fun _ _ _ => trivial

lemma freevm_returns (hclean : pgdir.Clean) : Meets E (freevm pgdir) free fun _ _ => True := by
  refine .bind ((deallocuvm_entry le_rfl hclean).mono ?_)
  intro x free' _
  exact .bind ((freeTables_returns _ free').mono fun _ _ _ => kfree_meets trivial)

/-! ### The kernel's half -/

/-- The page is one of those that the entry maps. -/
def Kmap.Covers (k : Kmap) (v : ℕ) : Prop := k.vpn ≤ v ∧ v < k.vpn+k.count

/-- The entries of a table `kmap` lie in the address space and do not overlap. -/
structure Apart (kmap : List Kmap) : Prop where
  inside : ∀ k ∈ kmap, 512*1024 ≤ k.vpn ∧ k.vpn+k.count ≤ 1024*1024
  disjoint : kmap.Pairwise fun k k' => ∀ v, k.Covers v → ¬k'.Covers v

def Apart.kernelMap {kmap : List Kmap} (h : Apart kmap) : KernelMap where
  kmap := kmap
  high := by
    intro k hk v hv hvn
    have hin := h.inside k hk
    rw [PDX_val]
    omega

lemma apart_kmap (data : ℕ) (h : data ≤ 0xE000) (h' : 0x100 ≤ data) : Apart (kmap data h h').kmap where
  inside := by
    intro k hk
    simp only [kmap,mem_cons,not_mem_nil,or_false] at hk
    obtain rfl | rfl | rfl | rfl := hk <;> dsimp only <;> omega
  disjoint := by
    simp only [kmap,pairwise_cons,mem_cons,not_mem_nil,or_false,Kmap.Covers,
      List.Pairwise.nil,and_true,forall_eq_or_imp,forall_eq,false_imp_iff,implies_true]
    refine ⟨⟨?_,?_,?_⟩,⟨?_,?_⟩,?_⟩ <;> intro v <;> omega

/-- The part of the address space that belongs to the kernel. -/
structure KernelHalf (kmap : List Kmap) (pgdir : Pgdir) : Prop where
  mapped : ∀ v < 1024*1024, ∀ k ∈ kmap, k.Covers v → ∃ e, pgdir.entry v = some e ∧ e.user = false
  unmapped : ∀ v < 1024*1024, 512*1024 ≤ v → (∀ k ∈ kmap, ¬k.Covers v) → pgdir.entry v = none

lemma mapKernel_entry (kmap : List Kmap) (hapart : Apart kmap) (pgdir : Pgdir) (free : List Frame)
    (hnew : ∀ v < 1024*1024, (∃ k ∈ kmap, k.Covers v) ∨ v < 512*1024 → pgdir.entry v = none) :
    Meets E (mapKernel kmap pgdir) free fun o free' => ∀ pgdir', o = some pgdir' → free' <:+ free ∧
      (∀ v < 1024*1024, ∀ k ∈ kmap, k.Covers v → ∃ e, pgdir'.entry v = some e ∧ e.user = false) ∧
      ∀ v < 1024*1024, (∀ k ∈ kmap, ¬k.Covers v) → pgdir'.entry v = pgdir.entry v := by
  induction kmap generalizing pgdir free with
  | nil =>
    refine .pure ?_
    rintro pgdir' ⟨⟩
    refine ⟨suffix_rfl,?_,fun _ _ _ => rfl⟩
    intro v _ k hk
    exact absurd hk not_mem_nil
  | cons k kmap ih =>
    obtain ⟨hinside,hdisjoint⟩ := hapart
    obtain ⟨hk,hrest⟩ := pairwise_cons.mp hdisjoint
    have hin := hinside k mem_cons_self
    have hapart : Apart kmap := ⟨fun k' hk' => hinside k' (mem_cons_of_mem k hk'),hrest⟩
    refine .bind ((mappages_entry k.count k.vpn k.ppn pgdir free hin.2 ?_).mono ?_)
    · intro v hv hvn
      exact hnew v (by omega) (.inl ⟨k,mem_cons_self,hv,hvn⟩)
    rintro ⟨ok,pgdir₁⟩ free₁ ⟨hsuffix,n,hn,hall,hext⟩
    have hout : ∀ v < 1024*1024, ¬k.Covers v → pgdir₁.entry v = pgdir.entry v := by
      intro v hv hc
      rw [hext v hv,if_neg]
      rintro ⟨hle,hlt⟩
      exact hc ⟨hle,by omega⟩
    cases ok with
    | false =>
      refine .bind ((freevm_returns ?_).mono fun _ _ _ => .pure fun _ h =>
        absurd h.symm (some_ne_none _))
      intro v hv e he
      rw [hout v (by omega) fun hc => absurd hc.1 (by omega),hnew v (by omega) (Or.inr hv)] at he
      exact absurd he.symm (some_ne_none e)
    | true =>
      refine (ih hapart pgdir₁ free₁ ?_).mono ?_
      · intro v hv hc
        rw [hout v hv]
        · refine hnew v hv (hc.imp_left ?_)
          rintro ⟨k',hk',hc'⟩
          exact ⟨k',mem_cons_of_mem k hk',hc'⟩
        · intro hcov
          obtain ⟨k',hk',hc'⟩ | hlow := hc
          · exact hk k' hk' v hcov hc'
          · have hle := hcov.1
            omega
      · intro o free' h pgdir' ho
        obtain ⟨hsuffix',hmapped,hother⟩ := h pgdir' ho
        refine ⟨hsuffix'.trans hsuffix,?_,?_⟩
        · intro v hv k' hk' hc
          obtain heq | hk' := mem_cons.mp hk'
          · rw [heq] at hc
            have hfree : ∀ k' ∈ kmap, ¬k'.Covers v := fun k' hk' => hk k' hk' v hc
            refine ⟨⟨k.ppn+(v-k.vpn),k.write,false⟩,?_,rfl⟩
            rw [hother v hv hfree,hext v hv,if_pos ⟨hc.1,by rw [hall rfl]; exact hc.2⟩]
          · exact hmapped v hv k' hk' hc
        · intro v hv hnone
          rw [hother v hv fun k' hk' => hnone k' (mem_cons_of_mem k hk'),
            hout v hv (hnone k mem_cons_self)]

/-! ### The user's half -/

/-- An address space with the first `n` pages mapped for the user, to pages of their own that were
free in `free₀`. -/
structure Space (kmap : List Kmap) (free₀ free : List Frame) (n : ℕ) (pgdir : Pgdir) : Prop where
  suffix : free <:+ free₀
  mapped : ∀ v < n, ∃ e, pgdir.entry v = some e ∧ e.user = true ∧ e.ppn ∈ free₀ ∧ e.ppn ∉ free
  unmapped : ∀ v, n ≤ v → v < 512*1024 → pgdir.entry v = none
  distinct : ∀ v < n, ∀ w < n, ∀ e e', pgdir.entry v = some e → pgdir.entry w = some e' →
    e.ppn = e'.ppn → v = w
  kernel : KernelHalf kmap pgdir

variable {kmap : List Kmap}

lemma setupkvm_entry (hapart : Apart kmap) :
    Meets E (setupkvm kmap) free fun o free' => ∀ pgdir, o = some pgdir →
      Space kmap free free' 0 pgdir := by
  refine .bind (kalloc_meets (fun _ => ?_) fun r free₁ hfree => ?_)
  · exact .pure fun _ h => absurd h.symm (some_ne_none _)
  · refine (mapKernel_entry kmap hapart ⟨r,fun _ => none⟩ free₁ fun _ _ _ => rfl).mono ?_
    intro o free' h pgdir ho
    obtain ⟨hsuffix,hmapped,hother⟩ := h pgdir ho
    refine ⟨?_,fun v hv => absurd hv (Nat.not_lt_zero v),?_,
      fun v hv => absurd hv (Nat.not_lt_zero v),hmapped,?_⟩
    · rw [hfree]
      exact hsuffix.trans (suffix_cons r free₁)
    · intro v _ hv
      refine hother v (by omega) fun k hk hc => ?_
      have hin := (hapart.inside k hk).1
      have hle := hc.1
      omega
    · intro v hv _ hnone
      exact hother v hv hnone

namespace Space
variable {kmap : List Kmap} {free₀ : List Frame} {n : ℕ}

lemma clean (h : Space kmap free₀ free n pgdir) (hzero : 0 ∉ free₀) : pgdir.Clean := by
  intro v hv e he hppn
  by_cases hn : v < n
  · obtain ⟨e',he',-,hmem,-⟩ := h.mapped v hn
    obtain rfl := Option.some.inj (he.symm.trans he')
    exact hzero (hppn ▸ hmem)
  · rw [h.unmapped v (by omega) hv] at he
    exact absurd he.symm (some_ne_none e)

lemma extend {r : Frame} {free' free'' : List Frame} {pgdir' : Pgdir}
    (h : Space kmap free₀ free n pgdir)
    (hnodup : free₀.Nodup) (hn : n < 512*1024) (hfree : free = r::free') (hsuffix : free'' <:+ free')
    (hext : pgdir.Extends true true n r 1 pgdir') (hapart : Apart kmap) :
    Space kmap free₀ free'' (n+1) pgdir' := by
  have hnow : (r::free').Nodup := hfree ▸ hnodup.sublist h.suffix.sublist
  have hr : r ∉ free'' := fun hmem => (nodup_cons.mp hnow).1 (hsuffix.subset hmem)
  have hr₀ : r ∈ free₀ := h.suffix.subset (hfree ▸ mem_cons_self)
  have hsub : ∀ f, f ∈ free'' → f ∈ free := fun f hf => hfree ▸ mem_cons_of_mem r (hsuffix.subset hf)
  have hself : pgdir'.entry n = some ⟨r,true,true⟩ := by
    rw [hext n (by omega),if_pos (by omega),Nat.sub_self]
    rfl
  have hother : ∀ v < 1024*1024, v ≠ n → pgdir'.entry v = pgdir.entry v := by
    intro v hv hne
    rw [hext v hv,if_neg (by omega)]
  have hold : ∀ v < n, ∀ e, pgdir'.entry v = some e → e.ppn ≠ r := by
    intro v hv e he hppn
    rw [hother v (by omega) hv.ne] at he
    obtain ⟨e',he',-,-,hout⟩ := h.mapped v hv
    obtain rfl := Option.some.inj (he.symm.trans he')
    exact hout (hppn ▸ hfree ▸ mem_cons_self)
  refine ⟨?_,?_,?_,?_,?_,?_⟩
  · exact hsuffix.trans ((hfree ▸ suffix_cons r free').trans h.suffix)
  · intro v hv
    obtain rfl | hne := eq_or_ne v n
    · exact ⟨_,hself,rfl,hr₀,hr⟩
    · obtain ⟨e,he,huser,hmem,hout⟩ := h.mapped v (by omega)
      exact ⟨e,(hother v (by omega) hne).trans he,huser,hmem,fun hf => hout (hsub _ hf)⟩
  · intro v hv hlt
    rw [hother v (by omega) (by omega)]
    exact h.unmapped v (by omega) hlt
  · intro v hv w hw e e' he he' hppn
    obtain rfl | hvn := eq_or_ne v n
    · obtain rfl | hwn := eq_or_ne w v
      · rfl
      · obtain rfl := Option.some.inj (hself.symm.trans he)
        exact absurd hppn.symm (hold w (by omega) e' he')
    · obtain rfl | hwn := eq_or_ne w n
      · obtain rfl := Option.some.inj (hself.symm.trans he')
        exact absurd hppn (hold v (by omega) e he)
      · rw [hother v (by omega) hvn] at he
        rw [hother w (by omega) hwn] at he'
        exact h.distinct v (by omega) w (by omega) e e' he he' hppn
  · intro v hv k hk hc
    have hin := (hapart.inside k hk).1
    have hle := hc.1
    rw [hother v hv (by omega)]
    exact h.kernel.mapped v hv k hk hc
  · intro v hv hhigh hnone
    rw [hother v hv (by omega)]
    exact h.kernel.unmapped v hv hhigh hnone

end Space

variable {free₀ : List Frame}

lemma allocLoop_entry (hapart : Apart kmap) (hnodup : free₀.Nodup)
    (hzero : 0 ∉ free₀) {oldsz newsz : ℕ} (hnew : newsz < KERNBASE) (n a : ℕ) (pgdir : Pgdir)
    (free : List Frame) (ha : a+n = pages newsz) (hspace : Space kmap free₀ free a pgdir) :
    Meets E (allocLoop oldsz newsz n a pgdir) free fun x free' => x.2.Clean ∧
      (x.1 ≠ 0 → x.1 = newsz ∧ Space kmap free₀ free' (pages newsz) x.2) := by
  have hpages := pages_le hnew.le
  induction n generalizing a pgdir free with
  | zero =>
    rw [Nat.add_zero] at ha
    exact .pure ⟨hspace.clean hzero,fun _ => ⟨rfl,ha ▸ hspace⟩⟩
  | succ n ih =>
    refine .bind (kalloc_meets (fun _ => ?_) fun r free₁ hfree => ?_)
    · refine .bind ((deallocuvm_entry hnew.le (hspace.clean hzero)).mono fun x _ hx => ?_)
      exact .pure ⟨(hspace.clean hzero).anti hx,fun h => absurd rfl h⟩
    · refine .bind ((mappages_entry 1 a r pgdir free₁ (by omega) ?_).mono ?_)
      · intro v hv _
        exact hspace.unmapped v hv (by omega)
      rintro ⟨ok,pgdir₁⟩ free₂ ⟨hsuffix,k,hk,hall,hext⟩
      have hr : r ≠ 0 := by
        rintro rfl
        exact hzero (hspace.suffix.subset (hfree ▸ mem_cons_self))
      cases ok with
      | true =>
        obtain rfl := hall rfl
        exact ih (a+1) pgdir₁ free₂ (by omega)
          (hspace.extend hnodup (by omega) hfree hsuffix hext hapart)
      | false =>
        have hclean : pgdir₁.Clean := by
          intro v hv e he
          rw [hext v (by omega)] at he
          split_ifs at he with hin
          · obtain rfl := Option.some.inj he
            rw [show v-a = 0 by omega]
            exact hr
          · exact hspace.clean hzero v hv e he
        refine .bind ((deallocuvm_entry hnew.le hclean).mono fun x _ hx => ?_)
        exact .bind (kfree_meets (.pure ⟨hclean.anti hx,fun h => absurd rfl h⟩))

lemma pages_mono {a b : ℕ} (h : a ≤ b) : pages a ≤ pages b :=
  Nat.div_le_div_right (Nat.add_le_add_right h _)

/-- `allocuvm` makes the address space larger, or does not, and leaves one that can be given back.
-/
lemma allocuvm_entry (hapart : Apart kmap) (hnodup : free₀.Nodup)
    (hzero : 0 ∉ free₀) {oldsz newsz : ℕ} (hspace : Space kmap free₀ free (pages oldsz) pgdir) :
    Meets E (Kernel.allocuvm pgdir oldsz newsz) free fun x free' => x.2.Clean ∧
      (x.1 ≠ 0 → x.1 = max oldsz newsz ∧ newsz < KERNBASE ∧
        Space kmap free₀ free' (pages x.1) x.2) := by
  have hclean := hspace.clean hzero
  unfold Kernel.allocuvm
  split_ifs with hhigh hlt
  · exact .pure ⟨hclean,fun h => absurd rfl h⟩
  · exact .pure ⟨hclean,fun _ => ⟨(max_eq_left hlt.le).symm,not_le.mp hhigh,hspace⟩⟩
  · have hle := pages_mono (not_lt.mp hlt)
    refine (allocLoop_entry hapart hnodup hzero (not_le.mp hhigh) _ _ pgdir free
      (by omega) hspace).mono ?_
    rintro x free' ⟨hclean',hx⟩
    refine ⟨hclean',fun hne => ?_⟩
    obtain ⟨hsz,hspace'⟩ := hx hne
    rw [hsz]
    exact ⟨(max_eq_right (not_lt.mp hlt)).symm,not_le.mp hhigh,hspace'⟩

/-- The address space when the arguments are pushed: the last of its pages is the stack, and the one
below it is closed to the user. -/
structure Stacked (kmap : List Kmap) (free₀ : List Frame) (n : ℕ) (pgdir : Pgdir) : Prop where
  mapped : ∀ v < n, ∃ e, pgdir.entry v = some e ∧ e.user = decide (v+2 ≠ n) ∧ e.ppn ∈ free₀
  distinct : ∀ v < n, ∀ w < n, ∀ e e', pgdir.entry v = some e → pgdir.entry w = some e' →
    e.ppn = e'.ppn → v = w
  kernel : KernelHalf kmap pgdir
  clean : pgdir.Clean

lemma clearpteu_entry (hapart : Apart kmap) (hzero : 0 ∉ free₀) {n : ℕ}
    (hspace : Space kmap free₀ free (n+2) pgdir) (hn : n+2 ≤ 512*1024) :
    Meets E (clearpteu pgdir n) free fun pgdir' free' => free' = free ∧
      Stacked kmap free₀ (n+2) pgdir' := by
  obtain ⟨e,he,huser,hmem,hout⟩ := hspace.mapped n (by omega)
  have hfind := Pgdir.find_of_entry he
  obtain ⟨t,ht,-⟩ := map_eq_some_iff.mp hfind
  simp only [clearpteu,hfind,map_some]
  refine .pure ⟨rfl,?_⟩
  have hset := fun v hv => Pgdir.entry_set (v := v) ht (some { e with user := false })
    (show n < 1024*1024 by omega) hv
  have hppn : ∀ v < n+2, ∀ e', (pgdir.set n (some { e with user := false })).entry v = some e' →
      ∃ e'', pgdir.entry v = some e'' ∧ e''.ppn = e'.ppn := by
    intro v hv e' he'
    rw [hset v (by omega)] at he'
    split_ifs at he' with hvn
    · obtain rfl := Option.some.inj he'
      exact ⟨e,hvn ▸ he,rfl⟩
    · exact ⟨e',he',rfl⟩
  refine ⟨?_,?_,⟨?_,?_⟩,?_⟩
  · intro v hv
    rw [hset v (by omega)]
    split_ifs with hvn
    · refine ⟨_,rfl,?_,hmem⟩
      simp [hvn]
    · obtain ⟨e',he',huser',hmem',-⟩ := hspace.mapped v hv
      refine ⟨e',he',?_,hmem'⟩
      simpa [hvn] using huser'
  · intro v hv w hw e₁ e₂ h₁ h₂ heq
    obtain ⟨e₁',h₁',hp₁⟩ := hppn v hv e₁ h₁
    obtain ⟨e₂',h₂',hp₂⟩ := hppn w hw e₂ h₂
    exact hspace.distinct v hv w hw e₁' e₂' h₁' h₂' (hp₁.trans (heq.trans hp₂.symm))
  · intro v hv k hk hc
    have hin := (hapart.inside k hk).1
    have hle := hc.1
    rw [hset v hv,if_neg (by omega)]
    exact hspace.kernel.mapped v hv k hk hc
  · intro v hv hhigh hnone
    rw [hset v hv,if_neg (by omega)]
    exact hspace.kernel.unmapped v hv hhigh hnone
  · intro v hv e' he'
    rw [hset v (by omega)] at he'
    split_ifs at he' with hvn
    · obtain rfl := Option.some.inj he'
      exact fun h => hzero (h ▸ hmem)
    · exact hspace.clean hzero v hv e' he'

end
/-! ### With enough pages nothing fails -/

section Enough
variable {E : String → Prop} {free : List Frame} {pgdir : Pgdir} {kmap : List Kmap}

lemma Pgdir.card_tables_le (pgdir : Pgdir) : pgdir.tables.card ≤ 1024 := by
  rw [Pgdir.tables,Multiset.card_sum]
  refine (Finset.sum_le_card_nsmul Finset.univ _ 1 fun i _ => ?_).trans (by simp)
  cases pgdir.pde i <;> simp

lemma card_owned_le (h : ∀ v < 512*1024, pgdir.entry v = none) : pgdir.owned.card ≤ 1025 := by
  have htables := pgdir.card_tables_le
  rw [Pgdir.owned,Pgdir.user_eq_zero h,add_zero,Multiset.card_add,Multiset.card_singleton]
  omega

lemma card_stock (free : List Frame) (pgdir : Pgdir) :
    (stock free pgdir).card = free.length+pgdir.owned.card := by
  rw [stock,Multiset.card_add,Multiset.coe_card]

/-- `mappages` fails for want of a page only. -/
lemma mappages_full {write user : Bool} (n vpn : ℕ) (ppn : Frame) (pgdir : Pgdir) (free : List Frame) :
    Meets (fun _ => True) (mappages write user n pgdir vpn ppn) free fun x free' => x.1 = false →
      free' = [] := by
  induction n generalizing vpn ppn pgdir free with
  | zero => exact .pure fun h => absurd h.symm Bool.false_ne_true
  | succ n ih =>
    unfold mappages walkpgdir
    split
    · refine .bind (.pure ?_)
      dsimp only
      split_ifs
      · exact .throw trivial
      · exact ih _ _ _ _
    · refine .bind (.bind (kalloc_meets (fun hfree => ?_) fun r free' hfree => ?_))
      · exact .pure (.pure fun _ => rfl)
      · refine .pure ?_
        dsimp only
        split_ifs
        · exact .throw trivial
        · exact ih _ _ _ _

lemma mapKernel_some (kmap : List Kmap) (hapart : Apart kmap) (pgdir : Pgdir) (free : List Frame)
    (hlow : ∀ v < 512*1024, pgdir.entry v = none)
    (hnew : ∀ v < 1024*1024, ∀ k ∈ kmap, k.Covers v → pgdir.entry v = none)
    (hmany : 1025 < (stock free pgdir).card) :
    Meets (fun _ => True) (mapKernel kmap pgdir) free fun o _ => o ≠ none := by
  induction kmap generalizing pgdir free with
  | nil => exact .pure (some_ne_none pgdir)
  | cons k kmap ih =>
    obtain ⟨hinside,hdisjoint⟩ := hapart
    obtain ⟨hk,hrest⟩ := pairwise_cons.mp hdisjoint
    have hin := hinside k mem_cons_self
    have hapart : Apart kmap := ⟨fun k' hk' => hinside k' (mem_cons_of_mem k hk'),hrest⟩
    have hhigh : ∀ v, k.vpn ≤ v → v < k.vpn+k.count → 512 ≤ (PDX v).val := by
      intro v hv hvn
      rw [PDX_val]
      omega
    refine .bind ((((mappages_full k.count k.vpn k.ppn pgdir free).also
      (mappages_entry k.count k.vpn k.ppn pgdir free hin.2 ?_)).also
      (mappages_kernel (fun _ _ => trivial) k.count pgdir free k.vpn k.ppn hhigh)).mono ?_)
    · intro v hv hvn
      exact hnew v (by omega) k mem_cons_self ⟨hv,hvn⟩
    rintro ⟨ok,pgdir₁⟩ free₁ ⟨⟨hfull,-,n,hn,-,hext⟩,hstock⟩
    have hout : ∀ v < 1024*1024, ¬k.Covers v → pgdir₁.entry v = pgdir.entry v := by
      intro v hv hc
      rw [hext v hv,if_neg]
      rintro ⟨hle,hlt⟩
      exact hc ⟨hle,by omega⟩
    have hlow₁ : ∀ v < 512*1024, pgdir₁.entry v = none := by
      intro v hv
      rw [hout v (by omega) fun hc => absurd hc.1 (by omega)]
      exact hlow v hv
    cases ok with
    | false =>
      -- all the pages would be page tables
      have hcard := card_owned_le hlow₁
      dsimp only at hstock hfull
      rw [← hstock,card_stock,hfull rfl,length_nil] at hmany
      omega
    | true =>
      refine ih hapart pgdir₁ free₁ hlow₁ ?_ (by rw [hstock]; exact hmany)
      intro v hv k' hk' hc
      rw [hout v hv fun hcov => hk k' hk' v hcov hc]
      exact hnew v hv k' (mem_cons_of_mem k hk') hc

lemma setupkvm_some (hapart : Apart kmap) (hmany : 1025 < free.length) :
    Meets (fun _ => True) (setupkvm kmap) free fun o _ => o ≠ none := by
  refine .bind (kalloc_meets (fun hfree => ?_) fun r free₁ hfree => ?_)
  · rw [hfree,length_nil] at hmany
    exact absurd hmany (by norm_num)
  · refine mapKernel_some kmap hapart ⟨r,fun _ => none⟩ free₁ (fun _ _ => rfl) (fun _ _ _ _ _ => rfl) ?_
    rw [card_stock,owned_new,Multiset.card_singleton,← length_cons,← hfree]
    exact hmany

lemma mappages_one {write user : Bool} (vpn : ℕ) (ppn : Frame) (pgdir : Pgdir) (free : List Frame)
    (hone : 1 ≤ free.length) :
    Meets (fun _ => True) (mappages write user 1 pgdir vpn ppn) free fun x free' =>
      x.1 = true ∧ free.length ≤ free'.length+1 := by
  unfold mappages walkpgdir
  split
  · refine .bind (.pure ?_)
    dsimp only
    split_ifs
    · exact .throw trivial
    · exact .pure ⟨rfl,Nat.le_succ _⟩
  · refine .bind (.bind (kalloc_meets (fun hfree => ?_) fun r free' hfree => ?_))
    · rw [hfree,length_nil] at hone
      exact absurd hone (by norm_num)
    · refine .pure ?_
      dsimp only
      split_ifs
      · exact .throw trivial
      · exact .pure ⟨rfl,by rw [hfree,length_cons]⟩

/-- `allocuvm` takes at most two pages for one. -/
lemma allocLoop_some {oldsz newsz : ℕ} (n a : ℕ) (pgdir : Pgdir) (free : List Frame)
    (hmany : 2*n ≤ free.length) :
    Meets (fun _ => True) (allocLoop oldsz newsz n a pgdir) free fun x _ => x.1 = newsz := by
  induction n generalizing a pgdir free with
  | zero => exact .pure rfl
  | succ n ih =>
    refine .bind (kalloc_meets (fun hfree => ?_) fun r free₁ hfree => ?_)
    · rw [hfree,length_nil] at hmany
      omega
    rw [hfree,length_cons] at hmany
    refine .bind ((mappages_one a r pgdir free₁ (by omega)).mono ?_)
    rintro ⟨ok,pgdir₁⟩ free₂ ⟨rfl,hlen⟩
    exact ih (a+1) pgdir₁ free₂ (by omega)

end Enough
end JacobiXv6.Kernel
