import JacobiXv6.FileSystem.Blocks

/-! What the functions on the inode cache do to an entry of it. -/
namespace JacobiXv6.FileSystem
open Library Function

namespace Inode

/-- One more reference; an entry that nobody has used is taken. -/
def got (ip : Inode) : Inode :=
  if 0 < ip.ref then { ip with ref := ip.ref+1 } else { ip with ref := 1, valid := false }

def put (ip : Inode) : Inode := { ip with ref := ip.ref-1 }

def Last (ip : Inode) : Prop := ip.valid = true ∧ ip.din.nlink = 0 ∧ ip.ref = 1

variable {ip : Inode}

@[simp] lemma got_din : ip.got.din = ip.din := by
  unfold got
  split_ifs <;> rfl

@[simp] lemma got_locked : ip.got.locked = ip.locked := by
  unfold got
  split_ifs <;> rfl

lemma one_le_ref_got : 1 ≤ ip.got.ref := by
  unfold got
  split_ifs with href
  · change 1 ≤ ip.ref+1
    omega
  · exact le_rfl

lemma got_not_last : ¬ip.got.Last := by
  unfold got
  split_ifs with href
  · rintro ⟨-,-,hone⟩
    change ip.ref+1 = 1 at hone
    omega
  · rintro ⟨hvalid,-⟩
    cases hvalid

lemma put_got (href : 0 < ip.ref) : ip.got.put = ip := by
  rw [got,if_pos href,put]
  simp

end Inode

namespace Store
variable {s : Store} {i j : ℕ} {ip ip' : Inode} {E : String → Prop} {Q : Unit → Store → Prop}

/-- The entry of inode `i` is replaced. -/
def withInode (s : Store) (i : ℕ) (ip : Inode) : Store := { s with icache := update s.icache i ip }

@[simp] lemma withInode_self : (withInode s i ip).icache i = ip := update_self ..

lemma withInode_of_ne (h : j ≠ i) : (withInode s i ip).icache j = s.icache j := update_of_ne h ..

@[simp] lemma withInode_withInode : withInode (withInode s i ip) i ip' = withInode s i ip' := by
  simp [withInode]

@[simp] lemma withInode_eq_self : withInode s i (s.icache i) = s := by simp [withInode]

lemma Owning.withInode {T : ℕ → Dinode} (h : Owning s T) : Owning (withInode s i ip) T :=
  ⟨⟨h.laid,h.superblock,h.low⟩,h.owned⟩

lemma setInode_meets {f : Inode → Inode} (h : Q () (withInode s i (f (s.icache i)))) :
    Meets E (setInode i f) s Q :=
  .update h

/-- Inode `i` is in the cache, or there is an entry for it. -/
def Cacheable (s : Store) (i : ℕ) : Prop := 0 < (s.icache i).ref ∨ s.inUse.card < NINODE

lemma iget_meets (hC : E "iget: no inodes" ∨ s.Cacheable i)
    (h : s.Cacheable i → Q () (withInode s i (s.icache i).got)) : Meets E (iget i) s Q := by
  refine .bind (.get ?_)
  split_ifs with hfree
  · exact setInode_meets (h hfree)
  · exact .throw (hC.resolve_right hfree)

lemma idup_meets (h : Q () (withInode s i { s.icache i with ref := (s.icache i).ref+1 })) :
    Meets E (idup i) s Q :=
  setInode_meets h

lemma acquiresleep_meets (hlock : (s.icache i).locked = false)
    (h : Q () (withInode s i { s.icache i with locked := true })) :
    Meets E (acquiresleep i) s Q := by
  refine .bind (.get ?_)
  rw [hlock,if_neg Bool.false_ne_true]
  exact setInode_meets h

lemma acquiresleep_held (hlock : (s.icache i).locked = true) :
    acquiresleep i s = .error "acquiresleep: held by the caller" := by
  have hget : (MonadState.get : Routine Store Store) s = .ok (s,s) := rfl
  refine (bind_of_ok hget).trans ?_
  rw [if_pos hlock]
  rfl

lemma iunlock_meets (hlock : (s.icache i).locked = true) (href : 1 ≤ (s.icache i).ref)
    (h : Q () (withInode s i { s.icache i with locked := false })) : Meets E (iunlock i) s Q := by
  refine .bind (.get ?_)
  dsimp only
  rw [if_neg]
  · exact setInode_meets h
  · rintro (hfalse | hlt)
    · rw [hlock] at hfalse
      cases hfalse
    · omega

lemma ilock_meets (hlock : (s.icache i).locked = false) (href : 1 ≤ (s.icache i).ref)
    (hvalid : (s.icache i).valid = true)
    (h : Q () (withInode s i { s.icache i with locked := true })) : Meets E (ilock i) s Q := by
  refine .bind (.get ?_)
  rw [if_neg (by omega)]
  refine .bind (acquiresleep_meets hlock (.bind (.get ?_)))
  rw [withInode_self,hvalid,if_neg (Ne.symm Bool.false_ne_true)]
  exact .pure h

lemma ilock_load_meets (hlock : (s.icache i).locked = false) (href : 1 ≤ (s.icache i).ref)
    (hvalid : (s.icache i).valid = false) (hE : (s.sb.dinode s.disk i).type = 0 → E "ilock: no type")
    (h : (s.sb.dinode s.disk i).type ≠ 0 →
      Q () (withInode s i
        { s.icache i with locked := true, valid := true, din := s.sb.dinode s.disk i })) :
    Meets E (ilock i) s Q := by
  refine .bind (.get ?_)
  rw [if_neg (by omega)]
  refine .bind (acquiresleep_meets hlock (.bind (.get ?_)))
  rw [withInode_self,hvalid,if_pos rfl]
  refine .bind (setInode_meets ?_)
  rw [withInode_self,withInode_withInode]
  have hdin : (withInode s i { s.icache i with locked := true }).sb.dinode
      (withInode s i { s.icache i with locked := true }).disk i = s.sb.dinode s.disk i := rfl
  rw [hdin]
  split_ifs with htype
  · exact .throw (hE htype)
  · exact .pure (h htype)

lemma iput_meets (hlock : (s.icache i).locked = false) (hlast : ¬(s.icache i).Last)
    (h : Q () (withInode s i (s.icache i).put)) : Meets E (iput i) s Q := by
  refine .bind (acquiresleep_meets hlock (.bind (.bind (.get ?_))))
  rw [withInode_self]
  have hlast' : ¬({ s.icache i with locked := true } : Inode).Last := hlast
  refine (if_neg hlast').symm ▸ .pure (.bind (setInode_meets (setInode_meets ?_)))
  rw [withInode_withInode,withInode_withInode,withInode_self,withInode_self]
  have heq : ({ s.icache i with ref := (s.icache i).ref-1, locked := false } : Inode) =
      (s.icache i).put := by
    rw [Inode.put,← hlock]
  exact heq ▸ h

end Store
end JacobiXv6.FileSystem
