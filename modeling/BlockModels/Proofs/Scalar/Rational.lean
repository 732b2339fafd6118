import BlockModels.Proofs.Scalar.Whole
import Mathlib.Data.Rat.Floor
import Mathlib.Tactic.Linarith

/-!
# Whole numbers in exact arithmetic

The operations of scalars on rational numbers are those that they are named for. A rational number
is a natural number if it is equal to one.
-/

namespace BlockModels

namespace Scalar

@[simp]
theorem isNaN_rat (a : Rat) : isNaN a = false := by
  simp [isNaN]

@[simp]
theorem ofNat_rat (n : Nat) : (ofNat n : Rat) = n := rfl

@[simp]
theorem floor_rat (a : Rat) : floor a = (⌊a⌋ : Rat) := rfl

@[simp]
theorem ceil_rat (a : Rat) : ceil a = (⌈a⌉ : Rat) := by
  have h : ⌈a⌉ = a.ceil := by
    have hlt := Rat.ceil_lt (x := a)
    rw [Int.ceil_eq_iff]
    exact ⟨by linarith, Rat.le_ceil⟩
  rw [h]
  rfl

theorem clampNat_rat (limit : Nat) (a : Rat) : clampNat limit a = Nat.min limit ⌊a⌋.toNat := rfl

@[simp]
theorem min_rat (a b : Rat) : min a b = Min.min a b := by
  rw [min, isNaN_rat, if_neg Bool.false_ne_true]
  rcases lt_or_ge b a with h | h
  · rw [if_pos h, min_eq_right h.le]
  · rw [if_neg (not_lt.2 h), min_eq_left h]

@[simp]
theorem max_rat (a b : Rat) : max a b = Max.max a b := by
  rw [max, isNaN_rat, if_neg Bool.false_ne_true]
  rcases lt_or_ge a b with h | h
  · rw [if_pos h, max_eq_right h.le]
  · rw [if_neg (not_lt.2 h), max_eq_left h]

/-- An integer is a natural number or below all of them. -/
theorem integral_intCast (z : Int) : Integral (fun (a : Rat) n => a = n) (z : Rat) := by
  rcases lt_or_ge z 0 with h | h
  · refine .below (isNaN_rat _) fun b n hb => ?_
    have hz : (z : Rat) < 0 := by exact_mod_cast h
    have hn : (0 : Rat) ≤ n := Nat.cast_nonneg n
    rw [hb]
    linarith
  · refine .whole z.toNat ?_
    have hz : (z.toNat : Int) = z := Int.toNat_of_nonneg h
    exact_mod_cast hz.symm

end Scalar

open Scalar in
/-- Exact arithmetic counts pixels exactly. -/
instance : WholeScalar Rat where
  IsWhole a n := a = n
  isWhole_ofNat _ := rfl
  isNaN_eq_false _ := isNaN_rat _
  lt_iff := by
    rintro a b m n rfl rfl
    exact Nat.cast_lt
  isWhole_sub := by
    rintro a b m n rfl rfl hle
    exact (Nat.cast_sub hle).symm
  clampNat_eq := by
    rintro a n limit rfl hn
    rw [clampNat_rat, Int.floor_natCast, Int.toNat_natCast]
    exact Nat.min_eq_right hn
  integral_floor a := integral_intCast _
  integral_ceil a := by
    rw [ceil_rat]
    exact integral_intCast _
  integral_round a := by
    change Integral _ (if a < 0 then ((a - 1 / 2).ceil : Rat) else ((a + 1 / 2).floor : Rat))
    split
    · exact integral_intCast _
    · exact integral_intCast _
  isNaN_round_inv _ _ := isNaN_rat _

end BlockModels
