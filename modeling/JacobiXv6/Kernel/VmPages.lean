import JacobiXv6.Library.Tally
import JacobiXv6.Kernel.Vm

/-! The functions of `vm.c` neither lose a page nor use one twice, whichever call of `kalloc`
fails: what is free and what belongs to the address space is the same before and after. -/
namespace JacobiXv6.Kernel
open Library Function Finset Option

/-! ### The pages of an address space -/

def Pte.page (e : Option Pte) : Multiset Frame := (e.map fun e => {e.ppn}).getD 0

@[simp] lemma Pte.page_none : Pte.page none = 0 := rfl

@[simp] lemma Pte.page_some (e : Pte) : Pte.page (some e) = {e.ppn} := rfl

/-- The pages that the entries of a page table name. -/
def PageTable.mapped (t : PageTable) : Multiset Frame := ∑ i, Pte.page (t.pte i)

namespace Pgdir

def tables (pgdir : Pgdir) : Multiset Frame := ∑ i, ((pgdir.pde i).map fun t => {t.frame}).getD 0

/-- The pages that are mapped in the user's half of the address space. -/
def user (pgdir : Pgdir) : Multiset Frame :=
  ∑ i : Fin 1024, if i.val < 512 then ((pgdir.pde i).map PageTable.mapped).getD 0 else 0

def owned (pgdir : Pgdir) : Multiset Frame := {pgdir.frame}+pgdir.tables+pgdir.user

variable {pgdir : Pgdir} {vpn : ℕ} {t : PageTable}

lemma find_eq (ht : pgdir.pde (PDX vpn) = some t) : pgdir.find vpn = some (t.pte (PTX vpn)) := by
  rw [find,ht]
  rfl

lemma set_pde (ht : pgdir.pde (PDX vpn) = some t) (e : Option Pte) : (pgdir.set vpn e).pde =
    update pgdir.pde (PDX vpn) (some { t with pte := update t.pte (PTX vpn) e }) := by
  rw [set,ht]
  rfl

lemma tables_set (e : Option Pte) : (pgdir.set vpn e).tables = pgdir.tables := by
  refine sum_congr rfl fun i _ => ?_
  simp only [set]
  obtain rfl | hi := eq_or_ne i (PDX vpn)
  · rw [update_self]
    cases pgdir.pde (PDX vpn) <;> rfl
  · rw [update_of_ne hi]

lemma user_set (ht : pgdir.pde (PDX vpn) = some t) (hlow : (PDX vpn).val < 512) (e : Option Pte) :
    (pgdir.set vpn e).user+Pte.page (t.pte (PTX vpn)) = pgdir.user+Pte.page e := by
  let t' : PageTable := { t with pte := update t.pte (PTX vpn) e }
  have hpde := sum_update_comp
    (fun i x => if i.val < 512 then (Option.map PageTable.mapped x).getD 0 else (0 : Multiset Frame))
    pgdir.pde (PDX vpn) (some t')
  simp only [ht,if_pos hlow,map_some,getD_some] at hpde
  have hset : (pgdir.set vpn e).user+t.mapped = pgdir.user+t'.mapped := by
    rw [user,set_pde ht]
    exact hpde
  have hpte : t'.mapped+Pte.page (t.pte (PTX vpn)) = t.mapped+Pte.page e :=
    sum_update_comp (fun _ e => Pte.page e) t.pte (PTX vpn) e
  apply add_right_cancel (b := t.mapped)
  calc (pgdir.set vpn e).user+Pte.page (t.pte (PTX vpn))+t.mapped
      = (pgdir.set vpn e).user+t.mapped+Pte.page (t.pte (PTX vpn)) := by abel
    _ = pgdir.user+(t'.mapped+Pte.page (t.pte (PTX vpn))) := by rw [hset,add_assoc]
    _ = pgdir.user+Pte.page e+t.mapped := by rw [hpte]; abel

lemma owned_set (ht : pgdir.pde (PDX vpn) = some t) (hlow : (PDX vpn).val < 512) (e : Option Pte) :
    (pgdir.set vpn e).owned+Pte.page (t.pte (PTX vpn)) = pgdir.owned+Pte.page e := by
  have huser := user_set ht hlow e
  rw [owned,tables_set,add_assoc,huser,← add_assoc]
  rfl

lemma owned_set_kernel (hhigh : 512 ≤ (PDX vpn).val) (e : Option Pte) :
    (pgdir.set vpn e).owned = pgdir.owned := by
  have huser : (pgdir.set vpn e).user = pgdir.user := by
    refine sum_congr rfl fun i _ => ?_
    split_ifs with hi
    · have hne : i ≠ PDX vpn := by
        rintro rfl
        omega
      simp only [set]
      rw [update_of_ne hne]
    · rfl
  rw [owned,tables_set,huser]
  rfl

lemma mapped_empty (r : Frame) : PageTable.mapped ⟨r,fun _ => none⟩ = 0 :=
  sum_eq_zero fun _ _ => rfl

lemma owned_insert (hnone : pgdir.pde (PDX vpn) = none) (r : Frame) :
    { pgdir with pde := update pgdir.pde (PDX vpn) (some ⟨r,fun _ => none⟩) }.owned =
      pgdir.owned+{r} := by
  let pgdir' := { pgdir with pde := update pgdir.pde (PDX vpn) (some ⟨r,fun _ => none⟩) }
  have htables : pgdir'.tables = pgdir.tables+{r} := by
    have h := sum_update_comp
      (fun _ x => (Option.map (fun t : PageTable => ({t.frame} : Multiset Frame)) x).getD 0)
      pgdir.pde (PDX vpn) (some ⟨r,fun _ => none⟩)
    simp only [hnone,map_none,getD_none,add_zero] at h
    exact h
  have huser : pgdir'.user = pgdir.user := by
    have h := sum_update_comp
      (fun i x => if i.val < 512 then (Option.map PageTable.mapped x).getD 0 else (0 : Multiset Frame))
      pgdir.pde (PDX vpn) (some ⟨r,fun _ => none⟩)
    simp only [hnone,map_none,getD_none,map_some,getD_some,
      mapped_empty,ite_self,add_zero] at h
    exact h
  change {pgdir.frame}+pgdir'.tables+pgdir'.user = _
  rw [htables,huser,owned]
  abel

lemma eq_of_indices {v w : ℕ} (hv : v < 1024*1024) (hw : w < 1024*1024) (hd : PDX v = PDX w)
    (ht : PTX v = PTX w) : v = w := by
  have hd' := congrArg Fin.val hd
  have ht' := congrArg Fin.val ht
  rw [PDX_val,PDX_val] at hd'
  rw [PTX_val,PTX_val] at ht'
  omega

lemma find_set_self (ht : pgdir.pde (PDX vpn) = some t) (e : Option Pte) :
    (pgdir.set vpn e).find vpn = some e := by
  rw [find,set_pde ht,update_self,map_some]
  exact congrArg some (update_self ..)

lemma find_set_ne {v : ℕ} (e : Option Pte) (hne : PDX v = PDX vpn → PTX v ≠ PTX vpn) :
    (pgdir.set vpn e).find v = pgdir.find v := by
  simp only [find,set]
  by_cases hd : PDX v = PDX vpn
  · rw [hd,update_self]
    cases pgdir.pde (PDX vpn) with
    | none => rfl
    | some t =>
      simp only [map_some]
      rw [update_of_ne (hne hd)]
  · rw [update_of_ne hd]

lemma user_eq_zero (h : ∀ v, v < 512*1024 → (pgdir.find v).join = none) : pgdir.user = 0 := by
  refine sum_eq_zero fun i _ => ?_
  split_ifs with hi
  · cases ht : pgdir.pde i with
    | none => rfl
    | some t =>
      rw [map_some,getD_some,PageTable.mapped]
      refine sum_eq_zero fun j _ => ?_
      have hv := h (i.val*1024+j.val) (by omega)
      have hd : PDX (i.val*1024+j.val) = i := by
        apply Fin.ext
        rw [PDX_val]
        omega
      have hp : PTX (i.val*1024+j.val) = j := by
        apply Fin.ext
        rw [PTX_val]
        omega
      simp only [find,hd,hp,ht,map_some,join_some] at hv
      rw [hv,Pte.page_none]
  · rfl

lemma one_le_count_owned {v : ℕ} {e : Pte} (hv : v < 512*1024) (hfind : pgdir.find v = some (some e)) :
    1 ≤ pgdir.owned.count e.ppn := by
  have hlow : (PDX v).val < 512 := by
    rw [PDX_val]
    omega
  rw [Multiset.one_le_count_iff_mem,owned,Multiset.mem_add,user,Multiset.mem_sum]
  refine .inr ⟨PDX v,mem_univ (PDX v),?_⟩
  rw [if_pos hlow]
  rw [find] at hfind
  cases ht : pgdir.pde (PDX v) with
  | none =>
    rw [ht] at hfind
    exact nomatch hfind
  | some t =>
    rw [ht] at hfind
    rw [map_some,getD_some,PageTable.mapped,Multiset.mem_sum]
    refine ⟨PTX v,mem_univ _,?_⟩
    have hpte : t.pte (PTX v) = some e := Option.some.inj hfind
    rw [hpte,Pte.page_some]
    exact Multiset.mem_singleton_self e.ppn

end Pgdir

/-! ### What the functions ensure -/

/-- The messages with which the functions of `vm.c` panic. -/
def vmPanics : List String :=
  ["remap","kfree","copyuvm: pte should exist","copyuvm: page not present","clearpteu"]

section
variable {E : String → Prop} {free : List Frame} {pgdir : Pgdir}

/-- What is free and what an address space has, together. -/
def stock (free : List Frame) (pgdir : Pgdir) : Multiset Frame := ↑free+pgdir.owned

lemma coe_cons (r : Frame) (free : List Frame) : ((r::free : List Frame) : Multiset Frame) =
    ↑free+{r} := by
  rw [← Multiset.cons_coe,← Multiset.singleton_add,add_comm]

lemma stock_cons (r : Frame) : stock (r::free) pgdir = stock free pgdir+{r} := by
  rw [stock,stock,coe_cons,add_right_comm]

lemma kalloc_meets {Q : Option Frame → List Frame → Prop} (hnone : free = [] → Q none [])
    (hsome : ∀ r free', free = r::free' → Q (some r) free') : Meets E kalloc free Q := by
  cases free with
  | nil => exact .of_eq rfl (hnone rfl)
  | cons r free => exact .of_eq rfl (hsome r free rfl)

lemma kfree_meets {r : Frame} {Q : Unit → List Frame → Prop} (h : Q () (r::free)) :
    Meets E (kfree r) free Q := .update h

lemma walkpgdir_meets (vpn : ℕ) : Meets E (walkpgdir pgdir vpn) free fun o free' =>
    match o with
    | none => free' = free
    | some pgdir' => stock free' pgdir' = stock free pgdir ∧ ∃ t, pgdir'.pde (PDX vpn) = some t := by
  unfold walkpgdir
  split
  · rename_i t ht
    exact .pure ⟨rfl,t,ht⟩
  · rename_i hnone
    refine .bind (kalloc_meets (fun hfree => ?_) fun r free' hfree => ?_)
    · exact .pure hfree.symm
    · refine .pure ⟨?_,_,update_self ..⟩
      rw [hfree,stock_cons,stock,stock,Pgdir.owned_insert hnone,add_assoc]

lemma pages_zero : pages 0 = 0 := by norm_num [pages,PGSIZE]

lemma pages_KERNBASE : pages KERNBASE = 512*1024 := by norm_num [pages,KERNBASE,PGSIZE]

lemma KERNBASE_pos : 0 < KERNBASE := by norm_num [KERNBASE]

lemma pages_le {sz : ℕ} (h : sz ≤ KERNBASE) : pages sz ≤ 512*1024 := by
  rw [KERNBASE] at h
  rw [pages,PGSIZE]
  omega

lemma freeTables_meets (is : List (Fin 1024)) (free : List Frame) :
    Meets E (freeTables pgdir is) free fun _ free' => (free' : Multiset Frame) =
      ↑free+(is.map fun i => ((pgdir.pde i).map fun t => ({t.frame} : Multiset Frame)).getD 0).sum := by
  induction is generalizing free with
  | nil =>
    refine .pure ?_
    rw [List.map_nil,List.sum_nil,add_zero]
  | cons i is ih =>
    rw [List.map_cons,List.sum_cons]
    unfold freeTables
    cases hi : pgdir.pde i with
    | none =>
      refine .bind (.pure ((ih free).mono ?_))
      intro _ free' hfree
      rw [hfree,map_none,getD_none,zero_add]
    | some t =>
      refine .bind (kfree_meets ((ih (t.frame::free)).mono ?_))
      intro _ free' hfree
      rw [hfree,map_some,getD_some,coe_cons,add_assoc]

lemma owned_new (r : Frame) : Pgdir.owned ⟨r,fun _ => none⟩ = {r} := by
  have htables : Pgdir.tables ⟨r,fun _ => none⟩ = 0 := sum_eq_zero fun _ _ => rfl
  have huser : Pgdir.user ⟨r,fun _ => none⟩ = 0 := Pgdir.user_eq_zero fun _ _ => rfl
  rw [Pgdir.owned,htables,huser,add_zero,add_zero]

variable (hE : ∀ m ∈ vmPanics, E m)
include hE

/-- One page of `mappages`: it fails without a page table, or goes on with the entry written. -/
lemma mappages_succ {write user : Bool} {n vpn : ℕ} {ppn : Frame} {Q : Bool×Pgdir → List Frame → Prop}
    (hfail : Q (false,pgdir) free)
    (hset : ∀ free' pgdir' t, stock free' pgdir' = stock free pgdir → pgdir'.pde (PDX vpn) = some t →
      t.pte (PTX vpn) = none →
      Meets E (mappages write user n (pgdir'.set vpn (some ⟨ppn,write,user⟩)) (vpn+1) (ppn+1)) free'
        Q) :
    Meets E (mappages write user (n+1) pgdir vpn ppn) free Q := by
  refine .bind ((walkpgdir_meets vpn).mono ?_)
  rintro (_ | pgdir') free' h
  · obtain rfl := h
    exact .pure hfail
  · obtain ⟨hstock,t,ht⟩ := h
    simp only [Pgdir.find_eq ht]
    split_ifs with hsome
    · exact .throw (hE _ (by decide))
    · exact hset free' pgdir' t hstock ht (by simpa using hsome)

lemma mappages_user {write user : Bool} {vpn : ℕ} (hlow : (PDX vpn).val < 512) (ppn : Frame) :
    Meets E (mappages write user 1 pgdir vpn ppn) free fun x free' =>
      stock free' x.2 = stock free pgdir+if x.1 then {ppn} else 0 := by
  refine mappages_succ hE (by simp) fun free' pgdir' t hstock ht hpte => .pure ?_
  have hset := Pgdir.owned_set ht hlow (some ⟨ppn,write,user⟩)
  rw [hpte,Pte.page_none,add_zero,Pte.page_some] at hset
  rw [if_pos rfl,stock,hset,← hstock,stock,add_assoc]

lemma mappages_kernel {write user : Bool} (n : ℕ) (pgdir : Pgdir) (free : List Frame)
    (vpn : ℕ) (ppn : Frame)
    (hhigh : ∀ v, vpn ≤ v → v < vpn+n → 512 ≤ (PDX v).val) :
    Meets E (mappages write user n pgdir vpn ppn) free fun x free' =>
      stock free' x.2 = stock free pgdir := by
  induction n generalizing pgdir free vpn ppn with
  | zero => exact .pure rfl
  | succ n ih =>
    refine mappages_succ hE rfl fun free' pgdir' t hstock ht _ => ?_
    refine (ih _ free' (vpn+1) (ppn+1) fun v hv hvn => hhigh v (by omega) (by omega)).mono ?_
    intro x free'' hx
    rw [hx,stock,Pgdir.owned_set_kernel (hhigh vpn le_rfl (by omega))]
    exact hstock

lemma deallocLoop_meets {last first : ℕ} (hlast : last ≤ 512*1024) (fuel a : ℕ) (pgdir : Pgdir)
    (free : List Frame) (hfuel : last ≤ a+fuel)
    (hcleared : ∀ v, first ≤ v → v < a → (pgdir.find v).join = none) :
    Meets E (deallocLoop last fuel a pgdir) free fun pgdir' free' =>
      stock free' pgdir' = stock free pgdir ∧
      ∀ v, first ≤ v → v < last → (pgdir'.find v).join = none := by
  induction fuel generalizing a pgdir free with
  | zero => exact .pure ⟨rfl,fun v hv hvl => hcleared v hv (by omega)⟩
  | succ fuel ih =>
    unfold deallocLoop
    split_ifs with ha
    · exact .pure ⟨rfl,fun v hv hvl => hcleared v hv (by omega)⟩
    split
    · -- there is no page table for the pages up to the next one
      rename_i hnone
      have hjump : a+1 ≤ (a/1024+1)*1024 := by omega
      have hfuel' : last ≤ (a/1024+1)*1024+fuel := calc
        last ≤ a+1+fuel := by rwa [Nat.add_right_comm]
        _ ≤ (a/1024+1)*1024+fuel := Nat.add_le_add_right hjump fuel
      refine ih ((a/1024+1)*1024) pgdir free hfuel' fun v hv hva => ?_
      by_cases hlt : v < a
      · exact hcleared v hv hlt
      · have hd : PDX v = PDX a := by
          apply Fin.ext
          rw [PDX_val,PDX_val]
          omega
        rw [Pgdir.find,hd,hnone]
        rfl
    · rename_i t ht
      have hnext : ∀ pgdir' : Pgdir, (pgdir'.find a).join = none →
          (∀ v, v ≠ a → v < last → pgdir'.find v = pgdir.find v) →
          ∀ v, first ≤ v → v < a+1 → (pgdir'.find v).join = none := by
        intro pgdir' hself hother v hv hva
        obtain rfl | hne := eq_or_ne v a
        · exact hself
        · rw [hother v hne (by omega)]
          exact hcleared v hv (by omega)
      split
      · rename_i hpte
        refine ih (a+1) pgdir free (by omega) (hnext pgdir ?_ fun _ _ _ => rfl)
        rw [Pgdir.find_eq ht,hpte]
        rfl
      · rename_i e hpte
        split_ifs
        · exact .throw (hE _ (by decide))
        refine .bind (kfree_meets ?_)
        have hlow : (PDX a).val < 512 := by
          rw [PDX_val]
          omega
        have hset := Pgdir.owned_set ht hlow none
        rw [hpte,Pte.page_some,Pte.page_none,add_zero] at hset
        refine (ih (a+1) _ _ (by omega) (hnext _ ?_ fun v hne hv => ?_)).mono ?_
        · rw [Pgdir.find_set_self ht]
          rfl
        · exact Pgdir.find_set_ne _ fun hd ht' => hne (Pgdir.eq_of_indices (by omega) (by omega) hd ht')
        · rintro pgdir' free' ⟨hstock,hall⟩
          refine ⟨?_,hall⟩
          rw [hstock,stock_cons,stock,stock,← hset,add_assoc]

lemma deallocuvm_meets {oldsz newsz : ℕ} (hold : oldsz ≤ KERNBASE) :
    Meets E (deallocuvm pgdir oldsz newsz) free fun x free' =>
      stock free' x.2 = stock free pgdir ∧ x.1 ≤ oldsz ∧
      (newsz < oldsz → ∀ v, pages newsz ≤ v → v < pages oldsz → (x.2.find v).join = none) := by
  unfold deallocuvm
  split_ifs with hle
  · exact .pure ⟨rfl,le_rfl,fun hlt => absurd hlt (not_lt.mpr hle)⟩
  · refine .bind ((deallocLoop_meets hE (pages_le hold) _ _ pgdir free (by omega)
      fun v hv hva => absurd hva (not_lt.mpr hv)).mono ?_)
    rintro pgdir' free' ⟨hstock,hall⟩
    exact .pure ⟨hstock,(not_le.mp hle).le,fun _ => hall⟩

lemma freevm_meets : Meets E (freevm pgdir) free fun _ free' =>
    (free' : Multiset Frame) = stock free pgdir := by
  refine .bind ((deallocuvm_meets hE le_rfl).mono ?_)
  intro ⟨sz,pgdir'⟩ free' h
  have hstock := h.1
  have huser : pgdir'.user = 0 := by
    refine Pgdir.user_eq_zero fun v hv => h.2.2 KERNBASE_pos v ?_ ?_
    · rw [pages_zero]
      exact Nat.zero_le v
    · rwa [pages_KERNBASE]
  refine .bind ((freeTables_meets (List.finRange 1024) free').mono ?_)
  intro _ free'' hfree
  refine kfree_meets ?_
  rw [← hstock,stock,Pgdir.owned,huser,coe_cons,hfree,Pgdir.tables,Fin.sum_univ_def]
  abel

lemma allocLoop_meets {oldsz newsz : ℕ} (hnew : newsz < KERNBASE) (n a : ℕ) (pgdir : Pgdir)
    (free : List Frame) (ha : a+n = pages newsz) :
    Meets E (allocLoop oldsz newsz n a pgdir) free fun x free' =>
      stock free' x.2 = stock free pgdir ∧ x.1 < KERNBASE := by
  have hpages := pages_le hnew.le
  induction n generalizing a pgdir free with
  | zero => exact .pure ⟨rfl,hnew⟩
  | succ n ih =>
    refine .bind (kalloc_meets (fun hfree => ?_) fun mem free' hfree => ?_)
    · refine .bind ((deallocuvm_meets hE hnew.le).mono ?_)
      rintro x free' ⟨hstock,-⟩
      rw [← hfree] at hstock
      exact .pure ⟨hstock,KERNBASE_pos⟩
    · have hlow : (PDX a).val < 512 := by
        rw [PDX_val]
        omega
      have hall : stock free pgdir = stock free' pgdir+{mem} := by rw [hfree,stock_cons]
      refine .bind ((mappages_user hE hlow mem).mono ?_)
      rintro ⟨ok,pgdir'⟩ free'' hmap
      cases ok with
      | true =>
        refine (ih (a+1) pgdir' free'' (by omega)).mono ?_
        rintro x free₁ ⟨hstock,hlt⟩
        exact ⟨hstock.trans (hmap.trans hall.symm),hlt⟩
      | false =>
        refine .bind ((deallocuvm_meets hE hnew.le).mono ?_)
        rintro x free₁ ⟨hstock,-⟩
        refine .bind (kfree_meets (.pure ⟨?_,KERNBASE_pos⟩))
        rw [if_neg Bool.false_ne_true,add_zero] at hmap
        rw [hall,← hmap,← hstock,stock_cons]

lemma allocuvm_meets {oldsz newsz : ℕ} (hold : newsz < oldsz → oldsz < KERNBASE) :
    Meets E (allocuvm pgdir oldsz newsz) free fun x free' =>
      stock free' x.2 = stock free pgdir ∧ x.1 < KERNBASE := by
  unfold allocuvm
  split_ifs with hhigh hlt
  · exact .pure ⟨rfl,KERNBASE_pos⟩
  · exact .pure ⟨rfl,hold hlt⟩
  · refine allocLoop_meets hE (not_le.mp hhigh) _ _ pgdir free ?_
    have hle : pages oldsz ≤ pages newsz :=
      Nat.div_le_div_right (Nat.add_le_add_right (not_lt.mp hlt) _)
    omega

/-- A routine that makes an address space leaves its pages with it, or all of them free. -/
def Made (free : List Frame) (o : Option Pgdir) (free' : List Frame) : Prop :=
  match o with
  | none => (free' : Multiset Frame) = ↑free
  | some pgdir => stock free' pgdir = ↑free

lemma mapKernel_meets (kmap : List Kmap)
    (hhigh : ∀ k ∈ kmap, ∀ v, k.vpn ≤ v → v < k.vpn+k.count → 512 ≤ (PDX v).val) (pgdir : Pgdir)
    (free free₀ : List Frame) (hstock : stock free pgdir = ↑free₀) :
    Meets E (mapKernel kmap pgdir) free (Made free₀) := by
  induction kmap generalizing pgdir free with
  | nil => exact .pure hstock
  | cons k kmap ih =>
    refine .bind ((mappages_kernel hE k.count pgdir free k.vpn k.ppn
      (hhigh k List.mem_cons_self)).mono ?_)
    rintro ⟨ok,pgdir'⟩ free' hmap
    cases ok with
    | true =>
      exact ih (fun k' hk' => hhigh k' (List.mem_cons_of_mem k hk')) pgdir' free' (hmap.trans hstock)
    | false =>
      refine .bind ((freevm_meets hE).mono fun _ free'' hfree => .pure ?_)
      exact hfree.trans (hmap.trans hstock)

lemma setupkvm_meets (K : KernelMap) : Meets E (setupkvm K.kmap) free (Made free) := by
  refine .bind (kalloc_meets (fun hfree => ?_) fun r free' hfree => ?_)
  · refine .pure ?_
    rw [hfree]
    exact rfl
  · refine mapKernel_meets hE K.kmap K.high _ free' free ?_
    rw [stock,owned_new,hfree,coe_cons]

lemma copyLoop_meets (n i : ℕ) (d : Pgdir) (free free₀ : List Frame) (hi : i+n ≤ 512*1024)
    (hstock : stock free d = ↑free₀) : Meets E (copyLoop pgdir n i d) free (Made free₀) := by
  induction n generalizing i d free with
  | zero => exact .pure hstock
  | succ n ih =>
    unfold copyLoop
    split
    · exact .throw (hE _ (by decide))
    · exact .throw (hE _ (by decide))
    · rename_i e _
      refine .bind (kalloc_meets (fun hfree => ?_) fun mem free' hfree => ?_)
      · refine .bind ((freevm_meets hE).mono fun _ free' hfree' => .pure ?_)
        rw [hfree] at hstock
        exact hfree'.trans hstock
      · have hlow : (PDX i).val < 512 := by
          rw [PDX_val]
          omega
        rw [hfree,stock_cons] at hstock
        refine .bind ((mappages_user hE hlow mem).mono ?_)
        rintro ⟨ok,d'⟩ free'' hmap
        cases ok with
        | true => exact ih (i+1) d' free'' (by omega) (hmap.trans hstock)
        | false =>
          rw [if_neg Bool.false_ne_true,add_zero] at hmap
          refine .bind (kfree_meets (.bind ((freevm_meets hE).mono ?_)))
          intro _ free₁ hfree₁
          refine .pure ?_
          rw [stock_cons,hmap,hstock] at hfree₁
          exact hfree₁

lemma copyuvm_meets (K : KernelMap) {sz : ℕ} (hsz : sz ≤ KERNBASE) :
    Meets E (copyuvm K.kmap pgdir sz) free (Made free) := by
  refine .bind ((setupkvm_meets hE K).mono ?_)
  rintro (_ | d) free' hmade
  · exact .pure hmade
  · exact copyLoop_meets hE (pages sz) 0 d free' free (by rw [zero_add]; exact pages_le hsz) hmade

lemma clearpteu_meets {vpn : ℕ} (hlow : (PDX vpn).val < 512) :
    Meets E (clearpteu pgdir vpn) free fun pgdir' free' => stock free' pgdir' = stock free pgdir := by
  unfold clearpteu
  split
  · exact .throw (hE _ (by decide))
  · rename_i e he
    obtain ⟨t,ht,hpte⟩ := map_eq_some_iff.mp he
    refine .pure ?_
    have hset := Pgdir.owned_set ht hlow (e.map fun e => { e with user := false })
    have hpage : Pte.page (e.map fun e => { e with user := false }) = Pte.page (t.pte (PTX vpn)) := by
      rw [hpte]
      cases e <;> rfl
    rw [hpage] at hset
    rw [stock,stock,add_right_cancel hset]

lemma loadSegments_meets (phs : List (Option Proghdr)) (sz : ℕ) (pgdir : Pgdir) (free : List Frame)
    (hsz : sz < KERNBASE) : Meets E (loadSegments phs sz pgdir) free fun x free' =>
      stock free' x.2 = stock free pgdir ∧ ∀ sz', x.1 = some sz' → sz' < KERNBASE := by
  induction phs generalizing sz pgdir free with
  | nil => exact .pure ⟨rfl,by rintro _ ⟨⟩; exact hsz⟩
  | cons o phs ih =>
    cases o with
    | none => exact .pure ⟨rfl,nofun⟩
    | some ph =>
      unfold loadSegments
      split_ifs
      · exact ih sz pgdir free hsz
      · exact .pure ⟨rfl,nofun⟩
      · refine .bind ((allocuvm_meets hE fun _ => hsz).mono ?_)
        rintro ⟨sz',pgdir'⟩ free' ⟨hstock,hlt⟩
        simp only
        split_ifs
        · exact .pure ⟨hstock,nofun⟩
        · refine (ih sz' pgdir' free' hlt).mono ?_
          rintro x free'' ⟨hstock',hlt'⟩
          exact ⟨hstock'.trans hstock,hlt'⟩

/-- `exec` makes an address space of which all the pages are its own, or leaves them all free. -/
lemma loadImage_meets (K : KernelMap) (image : Image) :
    Meets E (loadImage K.kmap image) free fun o free' => Made free (o.map Prod.fst) free' ∧
      ∀ x, o = some x → x.2 < KERNBASE := by
  unfold loadImage
  by_cases hfound : image.found = false ∨ image.elf = false
  · rw [if_pos hfound]
    exact .pure ⟨rfl,nofun⟩
  rw [if_neg hfound]
  refine .bind ((setupkvm_meets hE K).mono ?_)
  rintro (_ | pgdir) free' hmade
  · exact .pure ⟨hmade,nofun⟩
  have hbad : ∀ pgdir' free', stock free' pgdir' = ↑free → Meets E (do freevm pgdir'; return none) free'
      fun (o : Option (Pgdir×ℕ)) free'' => Made free (o.map Prod.fst) free'' ∧
        ∀ x, o = some x → x.2 < KERNBASE := by
    intro pgdir' free' hstock
    exact .bind ((freevm_meets hE).mono fun _ free'' hfree =>
      .pure ⟨hfree.trans hstock,nofun⟩)
  refine .bind ((loadSegments_meets hE image.phs 0 pgdir free' KERNBASE_pos).mono ?_)
  rintro ⟨_ | sz,pgdir'⟩ free'' ⟨hstock,-⟩
  · exact hbad pgdir' free'' (hstock.trans hmade)
  -- the guard page and the stack
  refine .bind ((allocuvm_meets hE (by omega)).mono ?_)
  rintro ⟨sz',pgdir''⟩ free₁ ⟨hstock',hlt⟩
  have hall := hstock'.trans (hstock.trans hmade)
  by_cases hz : sz' = 0
  · simp only [if_pos hz]
    exact hbad pgdir'' free₁ hall
  simp only [if_neg hz]
  have hlow : (PDX (pages sz'-2)).val < 512 := by
    have hpages : pages sz' ≤ 512*1024 := pages_le hlt.le
    have hpos : 0 < pages sz' := by
      rw [pages,PGSIZE]
      omega
    rw [PDX_val]
    omega
  refine .bind ((clearpteu_meets hE hlow).mono ?_)
  intro pgdir₁ free₂ hclear
  split_ifs
  · exact hbad pgdir₁ free₂ (hclear.trans hall)
  · refine .pure ⟨hclear.trans hall,?_⟩
    rintro x ⟨⟩
    exact hlt

end
end JacobiXv6.Kernel
