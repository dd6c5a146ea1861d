/-
The parts of the machine that can change, and their order.
-/
import Nic.Register

set_option autoImplicit false

namespace Nic

/-- A part of the machine. -/
inductive Change where
  /-- A register. -/
  | reg (r : Reg)
  /-- The program counter. -/
  | pc
  /-- The instruction register. -/
  | ir
  /-- The address of the next instruction. -/
  | nr
  /-- The status. -/
  | sr
  /-- A memory cell. -/
  | mem (address : Byte)
  /-- Whether the machine is running. -/
  | running
deriving DecidableEq, Repr

namespace Change

/-- The place of a part among all: the registers, the special registers, the memory, and whether
the machine is running. -/
def rank : Change → Nat
  | reg r => r.number.toNat
  | pc => 16
  | ir => 17
  | nr => 18
  | sr => 19
  | mem address => 20 + address.toNat
  | running => 276

/-- The part at a place. -/
def ofRank (n : Nat) : Change :=
  if n < 16 then reg ⟨BitVec.ofNat 4 n⟩
  else if n = 16 then pc
  else if n = 17 then ir
  else if n = 18 then nr
  else if n = 19 then sr
  else if n < 276 then mem (BitVec.ofNat 8 (n - 20))
  else running

/-- Parts have places of their own. -/
@[simp] theorem ofRank_rank (c : Change) : ofRank c.rank = c := by
  cases c with
  | reg r =>
    have : r.number.toNat < 16 := r.number.isLt
    simp [rank, ofRank, this]
  | mem a =>
    have : a.toNat < 256 := a.isLt
    have h : 20 + a.toNat < 276 := by omega
    simp only [rank, ofRank, h, if_true]
    simp [show ¬ 20 + a.toNat < 16 by omega, show ¬ 20 + a.toNat = 16 by omega,
      show ¬ 20 + a.toNat = 17 by omega, show ¬ 20 + a.toNat = 18 by omega,
      show ¬ 20 + a.toNat = 19 by omega]
  | pc => rfl
  | ir => rfl
  | nr => rfl
  | sr => rfl
  | running => rfl

/-- Parts are ordered by their place. -/
instance : Ord Change := ⟨fun c d => compare c.rank d.rank⟩

theorem compare_eq (c d : Change) : compare c d = compare c.rank d.rank := rfl

instance : Std.TransOrd Change where
  eq_swap := by
    intro c d
    simp only [compare_eq]
    exact Std.OrientedCmp.eq_swap
  isLE_trans := by
    intro c d e
    simp only [compare_eq]
    exact Std.TransCmp.isLE_trans

instance : Std.LawfulEqOrd Change where
  compare_self := by
    intro c
    simp
  eq_of_compare := by
    intro c d h
    rw [compare_eq] at h
    rw [← ofRank_rank c, ← ofRank_rank d, Std.LawfulEqOrd.eq_of_compare h]

end Change

end Nic
