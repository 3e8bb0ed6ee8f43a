import Mathlib.Algebra.Order.Ring.Int
import Mathlib.Tactic.Ring
import Poseidon.Lib.Bytes

/-!
# Numbers in the order of their bytes

Of two strings of bytes of one length, `memcmp` puts first the one that is the smaller number when
read with its most significant byte first.
-/

namespace Poseidon

theorem beNat_append (front back : Bytes) :
    beNat (front ++ back) = beNat front * 256 ^ back.length + beNat back := by
  induction front with
  | nil => simp [beNat]
  | cons byte front ih =>
      rw [List.cons_append, beNat, beNat, ih, List.length_append]
      ring

/-- The first byte that differs outweighs all those behind it. -/
theorem beNat_cons_lt_of_lt {byte other : UInt8} (hbyte : byte.toNat < other.toNat)
    {left right : Bytes} (hlength : left.length = right.length) :
    beNat (byte :: left) < beNat (other :: right) := by
  calc beNat (byte :: left) < byte.toNat * 256 ^ left.length + 256 ^ left.length :=
        Nat.add_lt_add_left (beNat_lt left) _
    _ = (byte.toNat + 1) * 256 ^ right.length := by rw [hlength]; ring
    _ ≤ other.toNat * 256 ^ right.length := Nat.mul_le_mul_right _ hbyte
    _ ≤ beNat (other :: right) := Nat.le_add_right _ _

theorem sign_memcmp {left right : Bytes} (hlength : left.length = right.length) :
    Int.sign (memcmp left right) = Int.sign ((beNat left : Int) - beNat right) := by
  induction left generalizing right with
  | nil =>
      rw [List.eq_nil_of_length_eq_zero hlength.symm]
      rfl
  | cons byte left ih =>
      cases right with
      | nil => simp at hlength
      | cons other right =>
          have hrest := Nat.succ.inj hlength
          rw [memcmp]
          split_ifs with hsame
          · subst hsame
            rw [ih hrest, beNat, beNat, hrest]
            congr 1
            push_cast
            ring
          · have hne : byte.toNat ≠ other.toNat := fun heq => hsame (UInt8.toNat_inj.mp heq)
            rcases Nat.lt_or_gt_of_ne hne with hless | hgreater
            · have hlt := beNat_cons_lt_of_lt hless hrest
              rw [Int.sign_eq_neg_one_of_neg (by omega), Int.sign_eq_neg_one_of_neg (by omega)]
            · have hlt := beNat_cons_lt_of_lt hgreater hrest.symm
              rw [Int.sign_eq_one_of_pos (by omega), Int.sign_eq_one_of_pos (by omega)]

end Poseidon
