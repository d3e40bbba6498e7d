import JacobiXv6.Library.Routine

/-! The page allocator of `kalloc.c` and the page tables of `vm.c`. A page is named by its
physical page number, an address by its virtual page number, and the allocator's list holds the
pages that are free. A page directory is the tree of the pages that it consists of; what is
in the user's pages is left out. -/
namespace JacobiXv6.Kernel
open Library Function

def PGSIZE : ℕ := 4096
def KERNBASE : ℕ := 0x80000000

abbrev Frame := ℕ

/-- A page table entry with `PTE_P`. -/
structure Pte where
  ppn : Frame
  write : Bool
  user : Bool

structure PageTable where
  frame : Frame
  pte : Fin 1024 → Option Pte

structure Pgdir where
  frame : Frame
  pde : Fin 1024 → Option PageTable

def PDX (vpn : ℕ) : Fin 1024 := Fin.ofNat 1024 (vpn/1024)
def PTX (vpn : ℕ) : Fin 1024 := Fin.ofNat 1024 vpn

lemma PDX_val (vpn : ℕ) : (PDX vpn).val = vpn/1024%1024 := rfl

lemma PTX_val (vpn : ℕ) : (PTX vpn).val = vpn%1024 := rfl

/-- The number of pages that `sz` bytes take, `PGROUNDUP` in pages. -/
def pages (sz : ℕ) : ℕ := (sz+(PGSIZE-1))/PGSIZE

/-! ### `kalloc.c` -/

abbrev Kmem := Routine (List Frame)

def kalloc : Kmem (Option Frame) := fun free =>
  match free with
  | [] => .ok (none,[])
  | r::free => .ok (some r,free)

def kfree (r : Frame) : Kmem Unit := modify (r::·)

/-! ### `vm.c` -/

namespace Pgdir

/-- `walkpgdir` with `alloc` 0. -/
def find (pgdir : Pgdir) (vpn : ℕ) : Option (Option Pte) :=
  (pgdir.pde (PDX vpn)).map fun t => t.pte (PTX vpn)

/-- The entry for a page is written; there is a page table for it. -/
def set (pgdir : Pgdir) (vpn : ℕ) (e : Option Pte) : Pgdir :=
  { pgdir with pde := update pgdir.pde (PDX vpn) ((pgdir.pde (PDX vpn)).map fun t =>
    { t with pte := update t.pte (PTX vpn) e }) }

end Pgdir

/-- `walkpgdir` with `alloc` 1: afterwards there is a page table for the page. -/
def walkpgdir (pgdir : Pgdir) (vpn : ℕ) : Kmem (Option Pgdir) :=
  match pgdir.pde (PDX vpn) with
  | some _ => return some pgdir
  | none => do
    match ← kalloc with
    | none => return none
    | some r => return some { pgdir with
        pde := update pgdir.pde (PDX vpn) (some ⟨r,fun _ => none⟩) }

/-- The loop of `mappages`, for the number of pages that is left. -/
def mappages (write user : Bool) : ℕ → Pgdir → ℕ → Frame → Kmem (Bool×Pgdir)
  | 0, pgdir, _, _ => return (true,pgdir)
  | n+1, pgdir, vpn, ppn => do
    match ← walkpgdir pgdir vpn with
    | none => return (false,pgdir)
    | some pgdir =>
      if (pgdir.find vpn).join.isSome then throw "remap"
      else mappages write user n (pgdir.set vpn (some ⟨ppn,write,user⟩)) (vpn+1) (ppn+1)

/-- The loop of `deallocuvm` from page `a` to page `last`. The fuel is the number of pages that
are left; a missing page table is passed over at once. -/
def deallocLoop (last : ℕ) : ℕ → ℕ → Pgdir → Kmem Pgdir
  | 0, _, pgdir => return pgdir
  | fuel+1, a, pgdir =>
    if last ≤ a then return pgdir
    else
      match pgdir.pde (PDX a) with
      | none => deallocLoop last fuel ((a/1024+1)*1024) pgdir
      | some t =>
        match t.pte (PTX a) with
        | none => deallocLoop last fuel (a+1) pgdir
        | some e =>
          if e.ppn = 0 then throw "kfree"
          else do
            kfree e.ppn
            deallocLoop last fuel (a+1) (pgdir.set a none)

def deallocuvm (pgdir : Pgdir) (oldsz newsz : ℕ) : Kmem (ℕ×Pgdir) :=
  if oldsz ≤ newsz then return (oldsz,pgdir)
  else do
    let pgdir ← deallocLoop (pages oldsz) (pages oldsz-pages newsz) (pages newsz) pgdir
    return (newsz,pgdir)

/-- The loop of `allocuvm`, for the number of pages that is left. -/
def allocLoop (oldsz newsz : ℕ) : ℕ → ℕ → Pgdir → Kmem (ℕ×Pgdir)
  | 0, _, pgdir => return (newsz,pgdir)
  | n+1, a, pgdir => do
    match ← kalloc with
    | none =>
      let (_,pgdir) ← deallocuvm pgdir newsz oldsz
      return (0,pgdir)
    | some mem =>
      let (ok,pgdir) ← mappages true true 1 pgdir a mem
      if ok then allocLoop oldsz newsz n (a+1) pgdir
      else
        let (_,pgdir) ← deallocuvm pgdir newsz oldsz
        kfree mem
        return (0,pgdir)

def allocuvm (pgdir : Pgdir) (oldsz newsz : ℕ) : Kmem (ℕ×Pgdir) :=
  if KERNBASE ≤ newsz then return (0,pgdir)
  else if newsz < oldsz then return (oldsz,pgdir)
  else allocLoop oldsz newsz (pages newsz-pages oldsz) (pages oldsz) pgdir

/-- The loop of `freevm` over the page directory. -/
def freeTables (pgdir : Pgdir) : List (Fin 1024) → Kmem Unit
  | [] => return
  | i::is => do
    match pgdir.pde i with
    | some t => kfree t.frame
    | none => pure ()
    freeTables pgdir is

def freevm (pgdir : Pgdir) : Kmem Unit := do
  let (_,pgdir) ← deallocuvm pgdir KERNBASE 0
  freeTables pgdir (List.finRange 1024)
  kfree pgdir.frame

/-- An entry of `kmap`, in pages. -/
structure Kmap where
  vpn : ℕ
  count : ℕ
  ppn : Frame
  write : Bool

/-- A table `kmap`; all of it is mapped in the kernel's half of the address space. -/
structure KernelMap where
  kmap : List Kmap
  high : ∀ k ∈ kmap, ∀ v, k.vpn ≤ v → v < k.vpn+k.count → 512 ≤ (PDX v).val

/-- The table of the source, for a kernel whose data begin at physical page `data`: `EXTMEM` is
page 0x100, `PHYSTOP` page 0xE000 and `DEVSPACE` page 0xFE000. -/
def kmap (data : ℕ) (h : data ≤ 0xE000) (h' : 0x100 ≤ data) : KernelMap where
  kmap := [⟨0x80000,0x100,0,true⟩,⟨0x80100,data-0x100,0x100,false⟩,⟨0x80000+data,0xE000-data,data,true⟩,
    ⟨0xFE000,0x2000,0xFE000,true⟩]
  high := by
    intro k hk v hv hvn
    rw [PDX_val]
    simp only [List.mem_cons,List.not_mem_nil,or_false] at hk
    rcases hk with rfl | rfl | rfl | rfl
    · simp only at hv hvn
      omega
    · simp only at hv hvn
      omega
    · simp only at hv hvn
      omega
    · simp only at hv hvn
      omega

/-- The loop of `setupkvm`. -/
def mapKernel : List Kmap → Pgdir → Kmem (Option Pgdir)
  | [], pgdir => return some pgdir
  | k::kmap, pgdir => do
    let (ok,pgdir) ← mappages k.write false k.count pgdir k.vpn k.ppn
    if ok then mapKernel kmap pgdir
    else
      freevm pgdir
      return none

def setupkvm (kmap : List Kmap) : Kmem (Option Pgdir) := do
  match ← kalloc with
  | none => return none
  | some r => mapKernel kmap ⟨r,fun _ => none⟩

/-- The loop of `copyuvm`, for the number of pages that is left. -/
def copyLoop (pgdir : Pgdir) : ℕ → ℕ → Pgdir → Kmem (Option Pgdir)
  | 0, _, d => return some d
  | n+1, i, d =>
    match pgdir.find i with
    | none => throw "copyuvm: pte should exist"
    | some none => throw "copyuvm: page not present"
    | some (some e) => do
      match ← kalloc with
      | none =>
        freevm d
        return none
      | some mem =>
        let (ok,d) ← mappages e.write e.user 1 d i mem
        if ok then copyLoop pgdir n (i+1) d
        else
          kfree mem
          freevm d
          return none

def copyuvm (kmap : List Kmap) (pgdir : Pgdir) (sz : ℕ) : Kmem (Option Pgdir) := do
  match ← setupkvm kmap with
  | none => return none
  | some d => copyLoop pgdir (pages sz) 0 d

def clearpteu (pgdir : Pgdir) (vpn : ℕ) : Kmem Pgdir :=
  match pgdir.find vpn with
  | none => throw "clearpteu"
  | some e => return pgdir.set vpn (e.map fun e => { e with user := false })

/-! ### `exec.c` -/

/-- A program header, and whether `loaduvm` can read what it asks for. -/
structure Proghdr where
  load : Bool
  filesz : BitVec 32
  memsz : BitVec 32
  vaddr : BitVec 32
  loads : Bool

/-- What `exec` finds: whether there is a file with an ELF header, its program headers as far
as they can be read, and whether the arguments can be copied to the stack. -/
structure Image where
  found : Bool
  elf : Bool
  phs : List (Option Proghdr)
  args : Bool

/-- The loop over the program headers; no size means `goto bad`. -/
def loadSegments : List (Option Proghdr) → ℕ → Pgdir → Kmem (Option ℕ×Pgdir)
  | [], sz, pgdir => return (some sz,pgdir)
  | none::_, _, pgdir => return (none,pgdir)
  | some ph::phs, sz, pgdir =>
    if ph.load = false then loadSegments phs sz pgdir
    else if ph.memsz < ph.filesz ∨ ph.vaddr+ph.memsz < ph.vaddr then return (none,pgdir)
    else do
      let (sz,pgdir) ← allocuvm pgdir sz (ph.vaddr+ph.memsz).toNat
      if sz = 0 ∨ ph.vaddr.toNat%PGSIZE ≠ 0 ∨ ph.loads = false then return (none,pgdir)
      else loadSegments phs sz pgdir

/-- The new address space that `exec` makes, with its size. -/
def loadImage (kmap : List Kmap) (image : Image) : Kmem (Option (Pgdir×ℕ)) :=
  if image.found = false ∨ image.elf = false then return none
  else do
    match ← setupkvm kmap with
    | none => return none
    | some pgdir =>
      match ← loadSegments image.phs 0 pgdir with
      | (none,pgdir) =>
        freevm pgdir
        return none
      | (some sz,pgdir) =>
        let sz := pages sz*PGSIZE
        let (sz,pgdir) ← allocuvm pgdir sz (sz+2*PGSIZE)
        if sz = 0 then
          freevm pgdir
          return none
        else
          let pgdir ← clearpteu pgdir (pages sz-2)
          if image.args = false then
            freevm pgdir
            return none
          else return some (pgdir,sz)

end JacobiXv6.Kernel
