import BlockModels.Scalar

/-!
# Whole numbers among the scalars

Rectangles are measured in scalars, pixels are counted in natural numbers. What the two have to do
with each other is said here in a few laws (`WholeScalar`): natural numbers of 32 bits are exact,
so are their differences, and what is rounded to an integer is a natural number or lies beyond all
of them. Floating-point numbers and rational numbers have these laws, so what is proved of pixels
from the laws alone holds of both.

A scalar need not be unlike all others to be a natural number: there are two zeros among the
floating-point numbers. So being one is a relation (`WholeScalar.IsWhole`) and not an equation.
-/

namespace BlockModels

/-- How a scalar that was rounded to an integer lies to the natural numbers, given which scalars
those are. -/
inductive Integral {α : Type} [Scalar α] (isWhole : α → Nat → Prop) (a : α) : Prop
  | notNumber (hnan : Scalar.isNaN a = true)
  | below (hnan : Scalar.isNaN a = false) (h : ∀ b n, isWhole b n → a < b)
  | above (hnan : Scalar.isNaN a = false) (h : ∀ b n, isWhole b n → b < a ∧ ¬a < b)
  | whole (n : Nat) (h : isWhole a n)

/-- Scalars that count pixels exactly. -/
class WholeScalar (α : Type) [Scalar α] where
  /-- The scalar is a natural number. -/
  IsWhole : α → Nat → Prop
  isWhole_ofNat {n : Nat} : n ≤ maxUnsigned32 → IsWhole (Scalar.ofNat n) n
  isNaN_eq_false {a : α} {n : Nat} : IsWhole a n → Scalar.isNaN a = false
  lt_iff {a b : α} {m n : Nat} : IsWhole a m → IsWhole b n → (a < b ↔ m < n)
  isWhole_sub {a b : α} {m n : Nat} : IsWhole a m → IsWhole b n → n ≤ m → IsWhole (a - b) (m - n)
  clampNat_eq {a : α} {n limit : Nat} : IsWhole a n → n ≤ limit → Scalar.clampNat limit a = n
  integral_floor (a : α) : Integral IsWhole (Scalar.floor a)
  integral_ceil (a : α) : Integral IsWhole (Scalar.ceil a)
  integral_round (a : α) : Integral IsWhole (Scalar.round a)
  /-- The inverse of what lies between zero and one is a number. -/
  isNaN_round_inv {a : α} : 0 < a → a < 1 → Scalar.isNaN (Scalar.round (1 / a)) = false

namespace WholeScalar

variable {α : Type} [Scalar α] [WholeScalar α] {a low high : α} {m n : Nat}

/-- The smaller of two natural numbers is one. -/
theorem isWhole_min {b : α} (ha : IsWhole a m) (hb : IsWhole b n) :
    IsWhole (Scalar.min a b) (min m n) := by
  rw [Scalar.min, isNaN_eq_false ha, if_neg Bool.false_ne_true]
  by_cases h : n < m
  · rw [if_pos ((lt_iff hb ha).2 h), Nat.min_eq_right (Nat.le_of_lt h)]
    exact hb
  · rw [if_neg fun hlt => h ((lt_iff hb ha).1 hlt), Nat.min_eq_left (Nat.le_of_not_lt h)]
    exact ha

/-- The greater of two natural numbers is one. -/
theorem isWhole_max {b : α} (ha : IsWhole a m) (hb : IsWhole b n) :
    IsWhole (Scalar.max a b) (max m n) := by
  rw [Scalar.max, isNaN_eq_false ha, if_neg Bool.false_ne_true]
  by_cases h : m < n
  · rw [if_pos ((lt_iff ha hb).2 h), Nat.max_eq_right (Nat.le_of_lt h)]
    exact hb
  · rw [if_neg fun hlt => h ((lt_iff ha hb).1 hlt), Nat.max_eq_left (Nat.le_of_not_lt h)]
    exact ha

/-- What was rounded, brought between two natural numbers, is a natural number between them. -/
theorem exists_isWhole_between (ha : Integral IsWhole a) (hlow : IsWhole low m)
    (hhigh : IsWhole high n) (hle : m ≤ n) :
    ∃ k, m ≤ k ∧ k ≤ n ∧ IsWhole (Scalar.min (Scalar.max a low) high) k := by
  have hmin : IsWhole (Scalar.min low high) m := by
    have h := isWhole_min hlow hhigh
    rwa [Nat.min_eq_left hle] at h
  cases ha with
  | notNumber hnan =>
    refine ⟨m, Nat.le_refl m, hle, ?_⟩
    rwa [Scalar.max, if_pos hnan]
  | below hnan h =>
    refine ⟨m, Nat.le_refl m, hle, ?_⟩
    rwa [Scalar.max, hnan, if_neg Bool.false_ne_true, if_pos (h _ _ hlow)]
  | above hnan h =>
    refine ⟨n, hle, Nat.le_refl n, ?_⟩
    have hmax : Scalar.max a low = a := by
      rw [Scalar.max, hnan, if_neg Bool.false_ne_true, if_neg (h _ _ hlow).2]
    rwa [hmax, Scalar.min, hnan, if_neg Bool.false_ne_true, if_pos (h _ _ hhigh).1]
  | whole k h =>
    refine ⟨_, ?_, ?_, isWhole_min (isWhole_max h hlow) hhigh⟩
    · exact Nat.le_min.2 ⟨Nat.le_max_right _ _, hle⟩
    · exact Nat.min_le_right _ _

/-- The same with `Scalar.clamp`, which leaves alone what is not a number. -/
theorem exists_isWhole_clamp (ha : Integral IsWhole a) (hnan : Scalar.isNaN a = false)
    (hlow : IsWhole low m) (hhigh : IsWhole high n) (hle : m ≤ n) :
    ∃ k, m ≤ k ∧ k ≤ n ∧ IsWhole (Scalar.clamp low high a) k := by
  cases ha with
  | notNumber h => rw [hnan] at h; cases h
  | below _ h => exact ⟨m, Nat.le_refl m, hle, by rwa [Scalar.clamp, if_pos (h _ _ hlow)]⟩
  | above _ h =>
    refine ⟨n, hle, Nat.le_refl n, ?_⟩
    rwa [Scalar.clamp, if_neg (h _ _ hlow).2, if_pos (h _ _ hhigh).1]
  | whole k h =>
    by_cases hk : k < m
    · exact ⟨m, Nat.le_refl m, hle, by rwa [Scalar.clamp, if_pos ((lt_iff h hlow).2 hk)]⟩
    · rw [Scalar.clamp, if_neg fun hlt => hk ((lt_iff h hlow).1 hlt)]
      by_cases hn : n < k
      · exact ⟨n, hle, Nat.le_refl n, by rwa [if_pos ((lt_iff hhigh h).2 hn)]⟩
      · refine ⟨k, Nat.le_of_not_lt hk, Nat.le_of_not_lt hn, ?_⟩
        rwa [if_neg fun hlt => hn ((lt_iff hhigh h).1 hlt)]

end WholeScalar

end BlockModels
