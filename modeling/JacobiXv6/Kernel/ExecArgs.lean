import JacobiXv6.Kernel.ExecLoad

/-! The arguments of `exec`. A string is written from its first byte on: one that does not fit into
the stack page begins below it, and `copyout` comes to the guard page, or begins at the end of the
address space, and `copyout` comes to the pages of the kernel. -/
namespace JacobiXv6.Kernel.Exec
open Library Function List Option

def userByte (pgdir : Pgdir) (mem : Frame → Sector) (va : ℕ) : Option Byte :=
  (pgdir.entry (va/PGSIZE)).bind fun e => if e.user then some (mem e.ppn (va%PGSIZE)) else none

def Machine.user (s : Machine) (va : ℕ) : Option Byte := userByte s.pgdir s.mem va

def Machine.Reads (s : Machine) (va : ℕ) (bs : List Byte) : Prop :=
  ∀ j < bs.length, s.user (va+j) = bs[j]?

lemma Same.page (s : Machine) (f : Frame) (b : Sector) :
    Same (· = f) s { s with mem := update s.mem f b } where
  mem := fun _ hg => update_of_ne hg b s.mem
  pgdir := rfl
  sz := rfl
  tf := rfl
  name := rfl
  handler := rfl
  ref := rfl
  locked := rfl
  outstanding := rfl

section Copyout
variable {E : String → Prop} {pgdir : Pgdir} {s : Machine}

lemma uva2ka_stays (v : ℕ) : Meets (fun _ => True) (uva2ka pgdir v) s fun o s' => s' = s ∧
    (o ≠ none → ∀ e, pgdir.entry v = some e → e.user = true) := by
  unfold uva2ka
  cases hfind : pgdir.find v with
  | none => exact .throw trivial
  | some o =>
    cases o with
    | none => exact .pure ⟨rfl,fun h => absurd rfl h⟩
    | some e =>
      refine .pure ⟨rfl,fun h e' he' => ?_⟩
      obtain rfl := Option.some.inj ((Pgdir.entry_of_find hfind).symm.trans he')
      by_contra hu
      rw [if_neg hu] at h
      exact h rfl

lemma uva2ka_meets {v : ℕ} {e : Pte} {Q : Option Frame → Machine → Prop} (he : pgdir.entry v = some e)
    (h : Q (if e.user then some e.ppn else none) s) : Meets E (uva2ka pgdir v) s Q := by
  simp only [uva2ka,Pgdir.find_of_entry he]
  exact .pure h

lemma copyoutLoop_open (fuel : ℕ) (va : Word) (buf : List Byte) (s : Machine)
    (hfuel : buf.length ≤ fuel) :
    Meets (fun _ => True) (copyoutLoop pgdir fuel va buf) s fun ok _ => ok = true →
      ∀ j < buf.length, ∀ e,
      pgdir.entry ((va+BitVec.ofNat 32 j).toNat/PGSIZE) = some e → e.user = true := by
  induction fuel generalizing va buf s with
  | zero => exact .pure fun _ j hj => absurd hj (by omega)
  | succ fuel ih =>
    unfold copyoutLoop
    by_cases hbuf : buf = []
    · rw [if_pos hbuf]
      exact .pure fun _ j hj => absurd hj (by simp [hbuf])
    rw [if_neg hbuf]
    refine .bind ((uva2ka_stays _).mono ?_)
    rintro (_ | pa) s₁ ⟨rfl,hopen⟩
    · exact .pure fun h => absurd h Bool.false_ne_true
    refine .bind (.update ((ih _ _ _ ?_).mono ?_))
    · rw [length_drop]
      simp only [PGSIZE]
      omega
    intro ok s₂ hrest hok j hj e he
    by_cases hin : va.toNat%PGSIZE+j < PGSIZE
    · -- in the first of the pages
      have hpage : (va+BitVec.ofNat 32 j).toNat/PGSIZE = va.toNat/PGSIZE := by
        have hva := va.isLt
        rw [BitVec.toNat_add,BitVec.toNat_ofNat]
        simp only [PGSIZE] at hin ⊢
        omega
      exact hopen (some_ne_none _) e (hpage ▸ he)
    · have hshift : va+BitVec.ofNat 32 j = va+BitVec.ofNat 32 (PGSIZE-va.toNat%PGSIZE)+
          BitVec.ofNat 32 (j-(PGSIZE-va.toNat%PGSIZE)) := by
        rw [add_assoc,← BitVec.ofNat_add]
        congr 2
        omega
      refine hrest hok (j-(PGSIZE-va.toNat%PGSIZE)) ?_ e (hshift ▸ he)
      rw [length_drop]
      omega

lemma copyout_page {va : Word} {buf : List Byte} {e : Pte} {Q : Bool → Machine → Prop} (hbuf : buf ≠ [])
    (he : pgdir.entry (va.toNat/PGSIZE) = some e) (huser : e.user = true)
    (hfit : va.toNat%PGSIZE+buf.length ≤ PGSIZE)
    (h : Q true { s with mem := update s.mem e.ppn ((s.mem e.ppn).paste (va.toNat%PGSIZE) buf) }) :
    Meets E (copyout pgdir va buf) s Q := by
  obtain ⟨k,hk⟩ := Nat.exists_eq_succ_of_ne_zero (mt length_eq_zero_iff.mp hbuf)
  rw [copyout,hk,copyoutLoop,if_neg hbuf]
  refine .bind (uva2ka_meets he ?_)
  rw [huser,if_pos rfl]
  have htake : buf.take (PGSIZE-va.toNat%PGSIZE) = buf := take_of_length_le (by omega)
  have hdrop : buf.drop (PGSIZE-va.toNat%PGSIZE) = [] := drop_of_length_le (by omega)
  refine .bind (.update ?_)
  rw [htake,hdrop]
  cases k with
  | zero => exact .pure h
  | succ k =>
    rw [copyoutLoop,if_pos rfl]
    exact .pure h

end Copyout
/-! ### Where the arguments go -/

/-- A string of `L` bytes is put below `sp`, up to the alignment, where the address space is taken
to begin again after its end. -/
def Below (x sp : Word) (L : ℕ) : Prop :=
  ∃ d < 4, x.toNat+L+d = sp.toNat ∨ x.toNat+L+d = sp.toNat+2^32

lemma toNat_and_not_three (x : Word) : (x &&& ~~~3#32).toNat = x.toNat/4*4 := by
  have hshift : x &&& ~~~3#32 = (x >>> 2) <<< 2 := by
    apply BitVec.eq_of_getLsbD_eq
    intro i hi
    simp only [BitVec.getLsbD_and,BitVec.getLsbD_not,BitVec.getLsbD_shiftLeft,
      BitVec.getLsbD_ushiftRight]
    by_cases h2 : i < 2
    · have h3 : (3#32).getLsbD i = true := by
        interval_cases i <;> rfl
      simp [h2,h3]
    · have h3 : (3#32).getLsbD i = false := by
        rw [BitVec.getLsbD_ofNat,Nat.testBit_lt_two_pow]
        · simp
        · exact lt_of_lt_of_le (by norm_num : 3 < 2^2) (Nat.pow_le_pow_right (by norm_num) (by omega))
      have hback : 2+(i-2) = i := by omega
      rw [h3,hback]
      simp [h2,hi]
  rw [hshift,BitVec.toNat_shiftLeft,BitVec.toNat_ushiftRight,Nat.shiftRight_eq_div_pow,
    Nat.shiftLeft_eq]
  have hx := x.isLt
  omega

lemma below_push (sp : Word) {L : ℕ} (hL : L ≤ 2^31) :
    Below ((sp-BitVec.ofNat 32 L) &&& ~~~3#32) sp L := by
  have hsp := sp.isLt
  refine ⟨(sp-BitVec.ofNat 32 L).toNat%4,by omega,?_⟩
  rw [toNat_and_not_three,BitVec.toNat_sub,BitVec.toNat_ofNat]
  omega

lemma below_sub (sp : Word) {L : ℕ} (hL : L ≤ 2^31) : Below (sp-BitVec.ofNat 32 L) sp L := by
  have hsp := sp.isLt
  refine ⟨0,by omega,?_⟩
  rw [BitVec.toNat_sub,BitVec.toNat_ofNat]
  omega

section Stack
variable {E : String → Prop} {kmap : List Kmap} {free₀ : List Frame} {n : ℕ}
  {pgdir : Pgdir} {s : Machine}
  {sp x : Word} {L : ℕ}

def stackBase (n : ℕ) : ℕ := (n+1)*PGSIZE

section

variable (hst : Stacked kmap free₀ (n+2) pgdir) (hn : (n+2)*PGSIZE < KERNBASE)
  (htop : ∃ k ∈ kmap, k.Covers 0xFFFFF)
include hst hn htop

lemma exists_closed (hlow : stackBase n ≤ sp.toNat) (hL : 0 < L) (hx : Below x sp L)
    (hout : ¬(stackBase n ≤ x.toNat ∧ x.toNat+L ≤ sp.toNat)) :
    ∃ j < L, ∃ e, pgdir.entry ((x+BitVec.ofNat 32 j).toNat/PGSIZE) = some e ∧ e.user = false := by
  obtain ⟨d,hd,hx⟩ := hx
  have hxlt := x.isLt
  simp only [stackBase,PGSIZE,KERNBASE] at hlow hn hout
  obtain hx | hx := hx
  · -- the guard page is the one below
    obtain ⟨e,he,huser,-⟩ := hst.mapped n (by omega)
    obtain ⟨y,hy,hyx,hyL⟩ : ∃ y, y/4096 = n ∧ x.toNat ≤ y ∧ y < x.toNat+L := by
      refine ⟨min ((n+1)*4096-1) (x.toNat+L-1),?_,?_,?_⟩
      · rw [Nat.div_eq_iff (by norm_num)]
        omega
      · omega
      · omega
    refine ⟨y-x.toNat,by omega,e,?_,by rw [huser]; simp⟩
    rw [BitVec.toNat_add,BitVec.toNat_ofNat,← he]
    congr 1
    simp only [PGSIZE]
    omega
  · obtain ⟨k,hk,hc⟩ := htop
    obtain ⟨e,he,huser⟩ := hst.kernel.mapped 0xFFFFF (by norm_num) k hk hc
    refine ⟨2^32-1-x.toNat,by omega,e,?_,huser⟩
    rw [BitVec.toNat_add,BitVec.toNat_ofNat,← he]
    congr 1
    simp only [PGSIZE]
    omega

/-- A copy below `sp` stays in the stack page, or fails. -/
lemma copyout_below {buf : List Byte} {e : Pte} (he : pgdir.entry (n+1) = some e)
    (hlow : stackBase n ≤ sp.toNat) (hhigh : sp.toNat ≤ (n+2)*PGSIZE) (hbuf : buf ≠ [])
    (hx : Below x sp buf.length) :
    Meets (fun _ => True) (copyout pgdir x buf) s fun ok s' => ok = true →
      stackBase n ≤ x.toNat ∧ x.toNat+buf.length ≤ sp.toNat ∧
      s' = { s with mem := update s.mem e.ppn ((s.mem e.ppn).paste (x.toNat-stackBase n) buf) } := by
  by_cases hin : stackBase n ≤ x.toNat ∧ x.toNat+buf.length ≤ sp.toNat
  · have hpos : 0 < buf.length := length_pos_iff.mpr hbuf
    have hoff : x.toNat%PGSIZE = x.toNat-stackBase n := by
      simp only [stackBase,PGSIZE] at hin hhigh ⊢
      omega
    have hpage : x.toNat/PGSIZE = n+1 := by
      rw [Nat.div_eq_iff (by norm_num [PGSIZE])]
      simp only [stackBase,PGSIZE] at hin hhigh ⊢
      omega
    have huser : e.user = true := by
      obtain ⟨e',he',huser,-⟩ := hst.mapped (n+1) (by omega)
      obtain rfl := Option.some.inj (he.symm.trans he')
      rw [huser]
      simp
    refine copyout_page hbuf (hpage ▸ he) huser ?_ fun _ => ⟨hin.1,hin.2,by rw [hoff]⟩
    simp only [stackBase,PGSIZE] at hin hhigh hoff ⊢
    omega
  · obtain ⟨j,hj,e',he',hclosed⟩ := exists_closed hst hn htop hlow (length_pos_iff.mpr hbuf) hx hin
    refine (copyoutLoop_open buf.length x buf s le_rfl).mono fun ok s' h hok => ?_
    rw [h hok j hj e' he'] at hclosed
    exact absurd hclosed.symm Bool.false_ne_true

end

/-- The strings that have been pushed, in the stack page `f`, and the pointers to them. -/
structure Pushed (n : ℕ) (f : Frame) (done : List Arg) (sp : Word) (ptrs : List Word)
    (mem : Frame → Sector) :
    Prop where
  length : ptrs.length = done.length
  low : stackBase n ≤ sp.toNat
  high : sp.toNat ≤ (n+2)*PGSIZE
  aligned : sp.toNat%4 = 0
  strings : ∀ (i : ℕ) (a : Arg) (p : Word), done[i]? = some a → ptrs[i]? = some p → p.toNat%4 = 0 ∧
    sp.toNat ≤ p.toNat ∧
    p.toNat+a.bytes.length ≤ (n+2)*PGSIZE ∧ (mem f).slice (p.toNat-stackBase n) a.bytes.length = a.bytes
  apart : ∀ i j : ℕ, i < j → ∀ (a : Arg) (p q : Word), done[j]? = some a → ptrs[i]? = some p →
    ptrs[j]? = some q →
    q.toNat+a.bytes.length ≤ p.toNat

lemma getElem?_snoc {α : Type} {l : List α} {a b : α} {i : ℕ} (h : (l++[a])[i]? = some b) :
    l[i]? = some b ∨ i = l.length ∧ b = a := by
  obtain hlt | rfl | hgt := lt_trichotomy i l.length
  · rw [getElem?_append_left hlt] at h
    exact .inl h
  · rw [getElem?_concat_length] at h
    exact .inr ⟨rfl,(Option.some.inj h).symm⟩
  · rw [getElem?_eq_none (by simpa using hgt)] at h
    exact absurd h.symm (some_ne_none b)

lemma Pushed.snoc {f : Frame} {done : List Arg} {ptrs : List Word} {mem : Frame → Sector} {a : Arg}
    (h : Pushed n f done sp ptrs mem) (hlow : stackBase n ≤ x.toNat)
    (hhigh : x.toNat+a.bytes.length ≤ sp.toNat)
    (haligned : x.toNat%4 = 0) : Pushed n f (done++[a]) x (ptrs++[x])
      (update mem f ((mem f).paste (x.toNat-stackBase n) a.bytes)) := by
  have hsp := h.high
  have hpos : 0 < a.bytes.length := by simp [Arg.bytes]
  have hlt : ∀ {i : ℕ} {p : Word}, ptrs[i]? = some p → i < done.length := by
    intro i p hp
    rw [← h.length]
    exact (List.getElem?_eq_some_iff.mp hp).1
  refine ⟨by simp [h.length],hlow,by omega,haligned,?_,?_⟩
  · intro i b p hb hp
    rw [update_self]
    obtain hp | ⟨hi,rfl⟩ := getElem?_snoc hp
    · obtain hb | ⟨hi,rfl⟩ := getElem?_snoc hb
      · obtain ⟨hal,hle,hend,hslice⟩ := h.strings i b p hb hp
        refine ⟨hal,by omega,hend,?_⟩
        rw [Sector.slice_paste_of_disjoint _ (Or.inr (by omega)),hslice]
      · exact absurd (hlt hp) (by omega)
    · obtain hb | ⟨-,rfl⟩ := getElem?_snoc hb
      · have hbi := (List.getElem?_eq_some_iff.mp hb).1
        rw [hi,h.length] at hbi
        exact absurd hbi (lt_irrefl _)
      · exact ⟨haligned,le_rfl,by omega,Sector.slice_paste _ rfl⟩
  · intro i j hij b p q hb hp hq
    obtain hq | ⟨hj,rfl⟩ := getElem?_snoc hq
    · have hjlt := hlt hq
      obtain hb | ⟨hj,-⟩ := getElem?_snoc hb
      · obtain hp | ⟨hi,-⟩ := getElem?_snoc hp
        · exact h.apart i j hij b p q hb hp hq
        · rw [h.length] at hi
          omega
      · omega
    · obtain hb | ⟨-,rfl⟩ := getElem?_snoc hb
      · have hbj := (List.getElem?_eq_some_iff.mp hb).1
        rw [hj,h.length] at hbj
        exact absurd hbj (lt_irrefl _)
      · obtain hp | ⟨hi,-⟩ := getElem?_snoc hp
        · have hpi := hlt hp
          obtain ⟨a',ha'⟩ : ∃ a', done[i]? = some a' := ⟨_,getElem?_eq_getElem hpi⟩
          obtain ⟨-,hle,-,-⟩ := h.strings i a' p ha' hp
          omega
        · omega

lemma Arg.bytes_ne_nil (a : Arg) : a.bytes ≠ [] := by simp [Arg.bytes]

lemma Arg.length_bytes (a : Arg) : a.bytes.length = a.text.length+1 := by simp [Arg.bytes]

end Stack

/-! ### The new program finds its arguments -/

lemma Machine.Reads.of_append {s : Machine} {va : ℕ} {xs ys : List Byte} (h : s.Reads va (xs++ys)) :
    s.Reads va xs ∧ s.Reads (va+xs.length) ys := by
  constructor
  · intro j hj
    rw [h j (by rw [length_append]; omega),getElem?_append_left hj]
  · intro j hj
    rw [Nat.add_assoc,h (xs.length+j) (by rw [length_append]; omega),
      getElem?_append_right (Nat.le_add_right _ _),Nat.add_sub_cancel_left]

lemma reads_of_slice {s : Machine} {n va : ℕ} {e : Pte} {bs : List Byte}
    (he : s.pgdir.entry (n+1) = some e)
    (huser : e.user = true) (hlow : stackBase n ≤ va) (hhigh : va+bs.length ≤ (n+2)*PGSIZE)
    (hslice : (s.mem e.ppn).slice (va-stackBase n) bs.length = bs) : s.Reads va bs := by
  intro j hj
  have hpage : (va+j)/PGSIZE = n+1 := by
    rw [Nat.div_eq_iff (by norm_num [PGSIZE])]
    simp only [stackBase,PGSIZE] at hlow hhigh ⊢
    omega
  have hoff : (va+j)%PGSIZE = va-stackBase n+j := by
    simp only [stackBase,PGSIZE] at hlow hhigh ⊢
    omega
  have hbyte := congrArg (fun l => l[j]?) hslice
  simp only [Sector.getElem?_slice,if_pos hj] at hbyte
  rw [Machine.user,userByte,hpage,he,bind_some,if_pos huser,hoff,hbyte]

/-- The places of the fake return address with `argc` and `argv`, of the array of pointers, and of
the strings, each with its length. -/
def objects (esp uargv : Word) (ptrs : List Word) (argv : List Arg) : List (ℕ×ℕ) :=
  (esp.toNat,12)::(uargv.toNat,4*(argv.length+1))::
    (ptrs.zip argv).map fun x => (x.1.toNat,x.2.text.length+1)

/-- The stack as the new program finds it; `mem` are the pages before the arguments were pushed. -/
structure Passed (s : Machine) (args : List Arg) (mem : Frame → Sector) (uargv : Word)
    (ptrs : List Word) :
    Prop where
  argc : s.Reads (s.tf.esp.toNat+4) (wordBytes (BitVec.ofNat 32 args.length))
  argv : s.Reads (s.tf.esp.toNat+8) (wordBytes uargv)
  array : s.Reads uargv.toNat ((ptrs++[0#32]).flatMap wordBytes)
  length : ptrs.length = args.length
  strings : ∀ (i : ℕ) (a : Arg) (p : Word), args[i]? = some a → ptrs[i]? = some p →
    p.toNat%4 = 0 ∧ s.Reads p.toNat (a.text++[0#8])
  disjoint : (objects s.tf.esp uargv ptrs args).Pairwise fun x y => x.1+x.2 ≤ y.1 ∨ y.1+y.2 ≤ x.1
  inside : ∀ x ∈ objects s.tf.esp uargv ptrs args, s.sz-PGSIZE ≤ x.1 ∧ x.1+x.2 ≤ s.sz
  outside : ∀ va, va < s.sz-PGSIZE → s.user va = userByte s.pgdir mem va

lemma length_flatMap_wordBytes (ws : List Word) : (ws.flatMap wordBytes).length = 4*ws.length := by
  induction ws with
  | nil => rfl
  | cons w ws ih =>
    rw [flatMap_cons,length_append,ih,length_cons]
    simp only [wordBytes,length_cons,length_nil]
    omega

lemma length_ustack (sp : Word) (ptrs : List Word) :
    ((ustack sp ptrs).flatMap wordBytes).length = (3+ptrs.length+1)*4 := by
  rw [length_flatMap_wordBytes,ustack]
  simp only [length_append,length_cons,length_nil]
  omega

section Passing
variable {kmap : List Kmap} {free₀ : List Frame} {n : ℕ} {s : Machine} {args : List Arg} {sp top : Word}
  {ptrs : List Word} {mem : Frame → Sector} {e : Pte}

lemma Pushed.above (h : Pushed n e.ppn args sp ptrs mem) {x : ℕ×ℕ}
    (hx : x ∈ (ptrs.zip args).map fun x => (x.1.toNat,x.2.text.length+1)) :
    sp.toNat ≤ x.1 ∧ x.1+x.2 ≤ (n+2)*PGSIZE := by
  obtain ⟨⟨p,a⟩,hmem,rfl⟩ := mem_map.mp hx
  obtain ⟨i,hi⟩ := mem_iff_getElem?.mp hmem
  obtain ⟨hp,ha⟩ := getElem?_zip_eq_some.mp hi
  obtain ⟨-,hle,hend,-⟩ := h.strings i a p ha hp
  rw [a.length_bytes] at hend
  exact ⟨hle,hend⟩

lemma Pushed.pairwise (h : Pushed n e.ppn args sp ptrs mem) :
    ((ptrs.zip args).map fun x => (x.1.toNat,x.2.text.length+1)).Pairwise
      fun x y => x.1+x.2 ≤ y.1 ∨ y.1+y.2 ≤ x.1 := by
  rw [pairwise_map,pairwise_iff_getElem]
  intro i j hi hj hij
  obtain ⟨hp,-⟩ := getElem?_zip_eq_some.mp (getElem?_eq_getElem hi)
  obtain ⟨hq,ha⟩ := getElem?_zip_eq_some.mp (getElem?_eq_getElem hj)
  have happart := h.apart i j hij _ _ _ ha hp hq
  rw [Arg.length_bytes] at happart
  exact .inr happart

/-- After the words of `ustack` all is in its place. -/
lemma Pushed.passed {mem₀ : Frame → Sector} (h : Pushed n e.ppn args sp ptrs mem)
    (hargs : args.length < MAXARG)
    (hst : Stacked kmap free₀ (n+2) s.pgdir) (he : s.pgdir.entry (n+1) = some e)
    (hsz : s.sz = (n+2)*PGSIZE)
    (hesp : s.tf.esp = sp-BitVec.ofNat 32 ((3+ptrs.length+1)*4)) (hlow : stackBase n ≤ s.tf.esp.toNat)
    (hmem : s.mem = update mem e.ppn ((mem e.ppn).paste (s.tf.esp.toNat-stackBase n)
      ((ustack sp ptrs).flatMap wordBytes))) (hrest : ∀ f, f ≠ e.ppn → mem f = mem₀ f) :
    Passed s args mem₀ (sp-BitVec.ofNat 32 ((ptrs.length+1)*4)) ptrs := by
  have hlen := h.length
  have hsp := sp.isLt
  have hsplow := h.low
  have hsphigh := h.high
  have hbig : (3+ptrs.length+1)*4 < PGSIZE := by
    simp only [MAXARG,PGSIZE] at hargs ⊢
    omega
  have hbase : PGSIZE ≤ stackBase n := by
    rw [stackBase]
    exact Nat.le_mul_of_pos_left _ (Nat.succ_pos n)
  have htop : s.tf.esp.toNat+(3+ptrs.length+1)*4 = sp.toNat := by
    simp only [PGSIZE] at hbig hbase
    rw [hesp,BitVec.toNat_sub,BitVec.toNat_ofNat]
    omega
  have huargv : (sp-BitVec.ofNat 32 ((ptrs.length+1)*4)).toNat = s.tf.esp.toNat+12 := by
    simp only [PGSIZE] at hbig hbase
    rw [BitVec.toNat_sub,BitVec.toNat_ofNat]
    omega
  have huser : e.user = true := by
    obtain ⟨e',he',huser,-⟩ := hst.mapped (n+1) (by omega)
    obtain rfl := Option.some.inj (he.symm.trans he')
    rw [huser]
    simp
  have hpage : s.mem e.ppn =
      (mem e.ppn).paste (s.tf.esp.toNat-stackBase n) ((ustack sp ptrs).flatMap wordBytes) := by
    rw [hmem,update_self]
  have hwords : s.Reads s.tf.esp.toNat ((ustack sp ptrs).flatMap wordBytes) := by
    refine reads_of_slice he huser hlow ?_ ?_
    · rw [length_ustack]
      omega
    · rw [hpage]
      exact Sector.slice_paste _ rfl
  -- the four parts of `ustack`
  have hparts :
    (ustack sp ptrs).flatMap wordBytes =
    wordBytes 0xffffffff#32++(wordBytes (BitVec.ofNat 32 args.length)++
      (wordBytes (sp-BitVec.ofNat 32 ((ptrs.length+1)*4))++(ptrs++[0#32]).flatMap wordBytes)) := by
    rw [ustack,hlen,append_assoc]
    rfl
  rw [hparts] at hwords
  obtain ⟨-,hwords⟩ := hwords.of_append
  obtain ⟨hargc,hwords⟩ := hwords.of_append
  obtain ⟨hargv,harray⟩ := hwords.of_append
  refine ⟨hargc,hargv,?_,hlen,?_,?_,?_,?_⟩
  · rw [huargv]
    exact harray
  · intro i a p ha hp
    obtain ⟨haligned,hle,hend,hslice⟩ := h.strings i a p ha hp
    refine ⟨haligned,reads_of_slice he huser (by omega) hend ?_⟩
    rw [hpage,Sector.slice_paste_of_disjoint _ (Or.inr (by rw [length_ustack]; omega))]
    exact hslice
  · rw [objects,pairwise_cons,pairwise_cons]
    refine ⟨?_,?_,h.pairwise⟩
    · intro x hx
      obtain rfl | hx := mem_cons.mp hx
      · exact .inl (by rw [huargv])
      · have hx' := h.above hx
        exact .inl (by omega)
    · intro x hx
      have hx' := h.above hx
      exact .inl (by omega)
  · have hrange : s.sz-PGSIZE = stackBase n := by
      rw [hsz,stackBase]
      simp only [PGSIZE]
      omega
    intro x hx
    rw [hrange,hsz]
    obtain rfl | hx := mem_cons.mp hx
    · exact ⟨hlow,by omega⟩
    obtain rfl | hx := mem_cons.mp hx
    · exact ⟨by omega,by omega⟩
    · have hx' := h.above hx
      exact ⟨by omega,hx'.2⟩
  · intro va hva
    have hv : va/PGSIZE < n+1 := by
      rw [hsz] at hva
      simp only [PGSIZE] at hva ⊢
      omega
    obtain ⟨e',he',-⟩ := hst.mapped (va/PGSIZE) (by omega)
    have hne : e'.ppn ≠ e.ppn := by
      intro hppn
      have heq := hst.distinct _ (by omega) (n+1) (by omega) e' e he' he hppn
      omega
    rw [Machine.user,userByte,userByte,he',bind_some,bind_some,hmem,
      update_of_ne hne,hrest e'.ppn hne]

end Passing

lemma covers_top (data : ℕ) (h : data ≤ 0xE000) (h' : 0x100 ≤ data) :
    ∃ k ∈ (kmap data h h').kmap, k.Covers 0xFFFFF :=
  ⟨⟨0xFE000,0x2000,0xFE000,true⟩,by simp [kmap],by norm_num [Kmap.Covers]⟩

/-- A process of one page. -/
def caller : Machine where
  free := List.range' 10000 1100
  mem := fun _ _ => 0#8
  pgdir := ⟨50,fun i => if i.val = 0 then
    some ⟨60,fun j => if j.val = 0 then some ⟨100,true,true⟩ else none⟩ else none⟩
  sz := PGSIZE
  tf := Trapframe.ofWords fun _ => 0#32
  name := []
  handler := 0#32
  ref := fun _ => 0
  locked := none
  outstanding := 0

lemma entry_caller {v : ℕ} {e : Pte} (he : caller.pgdir.entry v = some e) : e = ⟨100,true,true⟩ := by
  rw [Pgdir.entry,Pgdir.find,caller] at he
  dsimp only at he
  split_ifs at he
  · rw [map_some,join_some] at he
    dsimp only at he
    split_ifs at he
    exact (Option.some.inj he).symm
  · cases he

lemma clean_caller : caller.pgdir.Clean := by
  intro v hv e he
  rw [entry_caller he]
  decide

lemma sound_caller : caller.Sound where
  nodup := nodup_range'
  zero := by simp [caller]
  unlocked := rfl
  clean := clean_caller
  own := by
    intro v hv e he
    rw [entry_caller he]
    simp [caller]

lemma data_le : 0x200 ≤ 0xE000 := by norm_num

lemma le_data : 0x100 ≤ 0x200 := by norm_num

def oneFile : Files := ⟨fun _ => some 1,fun _ => emptyProgram⟩

end JacobiXv6.Kernel.Exec
