import JacobiXv6.Library.Memory

/-! The trap frame of `x86.h` as a record and as the 76 bytes that `memmove` copies, and
the way between it and the registers of a user program. -/
namespace JacobiXv6.Kernel
open Library

abbrev Word := BitVec 32
abbrev Half := BitVec 16

abbrev Mem := Word → Byte

structure Trapframe where
  edi : Word
  esi : Word
  ebp : Word
  oesp : Word
  ebx : Word
  edx : Word
  ecx : Word
  eax : Word
  gs : Half
  padding1 : Half
  fs : Half
  padding2 : Half
  es : Half
  padding3 : Half
  ds : Half
  padding4 : Half
  trapno : Word
  err : Word
  eip : Word
  cs : Half
  padding5 : Half
  eflags : Word
  esp : Word
  ss : Half
  padding6 : Half
  deriving DecidableEq

namespace Trapframe

/-- `sizeof(struct trapframe)`. -/
def size : ℕ := 76

/-- The words of the record; a half word and its padding share one. -/
def words (tf : Trapframe) : List Word :=
  [tf.edi,tf.esi,tf.ebp,tf.oesp,tf.ebx,tf.edx,tf.ecx,tf.eax,tf.padding1++tf.gs,tf.padding2++tf.fs,
    tf.padding3++tf.es,tf.padding4++tf.ds,tf.trapno,tf.err,tf.eip,tf.padding5++tf.cs,tf.eflags,
    tf.esp,tf.padding6++tf.ss]

def ofWords (f : ℕ → Word) : Trapframe where
  edi := f 0
  esi := f 1
  ebp := f 2
  oesp := f 3
  ebx := f 4
  edx := f 5
  ecx := f 6
  eax := f 7
  gs := (f 8).extractLsb' 0 16
  padding1 := (f 8).extractLsb' 16 16
  fs := (f 9).extractLsb' 0 16
  padding2 := (f 9).extractLsb' 16 16
  es := (f 10).extractLsb' 0 16
  padding3 := (f 10).extractLsb' 16 16
  ds := (f 11).extractLsb' 0 16
  padding4 := (f 11).extractLsb' 16 16
  trapno := f 12
  err := f 13
  eip := f 14
  cs := (f 15).extractLsb' 0 16
  padding5 := (f 15).extractLsb' 16 16
  eflags := f 16
  esp := f 17
  ss := (f 18).extractLsb' 0 16
  padding6 := (f 18).extractLsb' 16 16

def bytes (tf : Trapframe) : List Byte := tf.words.flatMap wordBytes

def ofBytes (bs : List Byte) : Trapframe := ofWords fun i => wordAt bs (4*i)

@[simp] lemma length_bytes (tf : Trapframe) : tf.bytes.length = size := rfl

lemma low_append (x y : Half) : (x++y : BitVec (16+16)).extractLsb' 0 16 = y :=
  BitVec.extractLsb'_append_eq_right

lemma high_append (x y : Half) : (x++y : BitVec (16+16)).extractLsb' 16 16 = x :=
  BitVec.extractLsb'_append_eq_left

lemma ofBytes_bytes (tf : Trapframe) : ofBytes tf.bytes = tf := by
  have hwords : (fun i => wordAt tf.bytes (4*i)) = fun i => tf.words.getD i 0 := by
    ext1 i
    exact wordAt_flatMap tf.words i
  rw [ofBytes,hwords]
  simp only [ofWords,words,List.getD_cons_zero,List.getD_cons_succ,low_append,high_append]

end Trapframe

/-- The registers that a user program sees. -/
structure Regs where
  eax : Word
  ebx : Word
  ecx : Word
  edx : Word
  esi : Word
  edi : Word
  ebp : Word
  esp : Word
  eip : Word
  eflags : Word
  cs : Half
  ds : Half
  es : Half
  fs : Half
  gs : Half
  ss : Half
  deriving DecidableEq

/-- What the pops of `trapret` and its `iret` load from a frame. -/
def Trapframe.regs (tf : Trapframe) : Regs :=
  ⟨tf.eax,tf.ebx,tf.ecx,tf.edx,tf.esi,tf.edi,tf.ebp,tf.esp,tf.eip,tf.eflags,tf.cs,tf.ds,tf.es,
    tf.fs,tf.gs,tf.ss⟩

/-- The frame that the hardware and `alltraps` build. What they leave in `oesp` and in the
padding is given by `junk`. -/
def Regs.frame (r : Regs) (trapno : Word) (junk : Trapframe) : Trapframe :=
  { junk with
    edi := r.edi, esi := r.esi, ebp := r.ebp, ebx := r.ebx, edx := r.edx, ecx := r.ecx
    eax := r.eax, gs := r.gs, fs := r.fs, es := r.es, ds := r.ds, trapno := trapno, err := 0
    eip := r.eip, cs := r.cs, eflags := r.eflags, esp := r.esp, ss := r.ss }

end JacobiXv6.Kernel
