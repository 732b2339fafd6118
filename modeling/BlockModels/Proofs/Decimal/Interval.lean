import BlockModels.Decimal.Shortest
import Mathlib.Algebra.Order.Field.Power
import Mathlib.Tactic.Linarith
import Mathlib.Tactic.NormNum
import Mathlib.Tactic.Positivity

/-!
# Which reals a number stands for

The interval around a floating-point number, read as a condition on rational numbers
(`Interval.Holds`), and the mantissas and exponents that numbers have (`IsPositive`). The intervals
of different numbers have no point in common (`eq_of_holds`): where two of them meet, one of the two
mantissas is odd, and its interval is open.
-/

namespace BlockModels.Decimal

/-! ## Quotients -/

namespace Quotient

/-- The rational number that a quotient is. -/
def toRat (r : Quotient) : ℚ := r.num / r.den

/-- The denominator of a dyadic number is positive. -/
theorem den_dyadic_pos (m : Nat) (q : Int) : 0 < (dyadic m q).den := by
  unfold dyadic
  split
  · exact Nat.one_pos
  · exact Nat.pow_pos (by decide)

/-- The dyadic number of `m` and `q` is `m * 2 ^ q`. -/
theorem toRat_dyadic (m : Nat) (q : Int) : (dyadic m q).toRat = m * 2 ^ q := by
  unfold dyadic toRat
  split
  · next h =>
    obtain ⟨n, rfl⟩ := Int.eq_ofNat_of_zero_le h
    simp
  · next h =>
    obtain ⟨n, rfl⟩ : ∃ n : Nat, q = -n := ⟨(-q).toNat, by omega⟩
    simp [div_eq_mul_inv]

/-- Shifting keeps the denominator positive. -/
theorem den_shift_pos {r : Quotient} (h : 0 < r.den) (k : Int) : 0 < (r.shift k).den := by
  unfold shift
  split
  · exact Nat.mul_pos h (Nat.pow_pos (by decide))
  · exact h

/-- A quotient shifted by `k` is divided by `10 ^ k`. -/
theorem toRat_shift (r : Quotient) (k : Int) : (r.shift k).toRat = r.toRat / 10 ^ k := by
  unfold shift toRat
  split
  · next h =>
    obtain ⟨n, rfl⟩ := Int.eq_ofNat_of_zero_le h
    simp [div_mul_eq_div_div]
  · next h =>
    obtain ⟨n, rfl⟩ : ∃ n : Nat, k = -n := ⟨(-k).toNat, by omega⟩
    simp [mul_div_right_comm]

variable {r : Quotient}

/-- A quotient is at most `d` if its numerator is at most `d` denominators. -/
theorem num_le_iff (h : 0 < r.den) {d : Nat} : r.num ≤ d * r.den ↔ r.toRat ≤ d := by
  rw [toRat, div_le_iff₀ (by exact_mod_cast h)]
  exact_mod_cast Iff.rfl

/-- A quotient is at least `d` if its numerator is at least `d` denominators. -/
theorem le_num_iff (h : 0 < r.den) {d : Nat} : d * r.den ≤ r.num ↔ d ≤ r.toRat := by
  rw [toRat, le_div_iff₀ (by exact_mod_cast h)]
  exact_mod_cast Iff.rfl

/-- A quotient is below `d` if its numerator is below `d` denominators. -/
theorem num_lt_iff (h : 0 < r.den) {d : Nat} : r.num < d * r.den ↔ r.toRat < d := by
  rw [← not_le, ← not_le, le_num_iff h]

/-- A quotient is above `d` if its numerator is above `d` denominators. -/
theorem lt_num_iff (h : 0 < r.den) {d : Nat} : d * r.den < r.num ↔ d < r.toRat := by
  rw [← not_le, ← not_le, num_le_iff h]

/-- The integer part of a quotient. -/
theorem div_le_toRat (h : 0 < r.den) : ((r.num / r.den : Nat) : ℚ) ≤ r.toRat :=
  (le_num_iff h).1 (Nat.div_mul_le_self _ _)

/-- A quotient is below the whole number after its whole part. -/
theorem toRat_lt_div_add_one (h : 0 < r.den) : r.toRat < ((r.num / r.den + 1 : Nat) : ℚ) :=
  (num_lt_iff h).1 (Nat.lt_mul_of_div_lt (Nat.lt_succ_self _) h)

end Quotient

/-- Powers of ten are positive. -/
theorem ten_zpow_pos (k : Int) : (0 : ℚ) < 10 ^ k := zpow_pos (by norm_num) k

/-- Powers of two are positive. -/
theorem two_zpow_pos (q : Int) : (0 : ℚ) < 2 ^ q := zpow_pos (by norm_num) q

/-! ## Intervals -/

namespace Interval

/-- The quotients of an interval can be divided. -/
structure IsSound (i : Interval) : Prop where
  low : 0 < i.low.den
  value : 0 < i.value.den
  high : 0 < i.high.den

/-- A rational number lies in the interval. -/
def Holds (i : Interval) (x : ℚ) : Prop :=
  if i.closed then i.low.toRat ≤ x ∧ x ≤ i.high.toRat else i.low.toRat < x ∧ x < i.high.toRat

/-- Whatever is strictly between the ends is in the interval. -/
theorem holds_of_lt {i : Interval} {x : ℚ} (hlow : i.low.toRat < x) (hhigh : x < i.high.toRat) :
    i.Holds x := by
  unfold Holds
  split
  · exact ⟨hlow.le, hhigh.le⟩
  · exact ⟨hlow, hhigh⟩

/-- What is in an interval lies between its ends. -/
theorem Holds.le {i : Interval} {x : ℚ} (h : i.Holds x) : i.low.toRat ≤ x ∧ x ≤ i.high.toRat := by
  unfold Holds at h
  split at h
  · exact h
  · exact ⟨h.1.le, h.2.le⟩

/-- In an open interval, every number is strictly between the ends. -/
theorem Holds.lt {i : Interval} {x : ℚ} (h : i.Holds x) (hopen : i.closed = false) :
    i.low.toRat < x ∧ x < i.high.toRat := by
  rwa [Holds, hopen, if_neg Bool.false_ne_true] at h

/-- The test with whole numbers decides membership of `d * 10 ^ k`. -/
theorem contains_iff {i : Interval} (hi : i.IsSound) {d : Nat} {k : Int} :
    i.contains d k = true ↔ i.Holds (d * 10 ^ k) := by
  have hlow := Quotient.den_shift_pos hi.low k
  have hhigh := Quotient.den_shift_pos hi.high k
  have hten := ten_zpow_pos k
  unfold contains Holds
  split
  · rw [Bool.and_eq_true, decide_eq_true_iff, decide_eq_true_iff, Quotient.num_le_iff hlow,
      Quotient.le_num_iff hhigh, Quotient.toRat_shift, Quotient.toRat_shift,
      div_le_iff₀ hten, le_div_iff₀ hten]
  · rw [Bool.and_eq_true, decide_eq_true_iff, decide_eq_true_iff, Quotient.num_lt_iff hlow,
      Quotient.lt_num_iff hhigh, Quotient.toRat_shift, Quotient.toRat_shift,
      div_lt_iff₀ hten, lt_div_iff₀ hten]

/-- The interval around a float has positive denominators. -/
theorem isSound_around (m : Nat) (q : Int) : (around m q).IsSound :=
  ⟨Quotient.den_dyadic_pos _ _, Quotient.den_dyadic_pos _ _, Quotient.den_dyadic_pos _ _⟩

end Interval

/-! ## Positive numbers -/

/-- A mantissa and an exponent of a positive floating-point number: a mantissa with all its bits
unless the exponent is the least one. -/
structure IsPositive (m : Nat) (q : Int) : Prop where
  pos : 0 < m
  lt : m < 2 ^ 53
  least_le : -1074 ≤ q
  full : 2 ^ 52 ≤ m ∨ q = -1074

/-- The lower end of an interval, in quarters of a unit in the last place. -/
def lowerEnd (m : Nat) (q : Int) : Nat :=
  if m = Binary64.hiddenBit && decide (-1074 < q) then 4 * m - 1 else 4 * m - 2

/-- The lower end, counted in quarters of the last bit. -/
theorem toRat_low_around (m : Nat) (q : Int) :
    (Interval.around m q).low.toRat = lowerEnd m q * 2 ^ (q - 2) := Quotient.toRat_dyadic _ _

/-- The float itself, counted in quarters of the last bit. -/
theorem toRat_value_around (m : Nat) (q : Int) :
    (Interval.around m q).value.toRat = (4 * m : Nat) * 2 ^ (q - 2) := Quotient.toRat_dyadic _ _

/-- The upper end is half of the last bit above the float. -/
theorem toRat_high_around (m : Nat) (q : Int) :
    (Interval.around m q).high.toRat = (4 * m + 2 : Nat) * 2 ^ (q - 2) := Quotient.toRat_dyadic _ _

/-- The interval has its ends exactly if the mantissa is even. -/
theorem closed_around {m : Nat} {q : Int} : (Interval.around m q).closed = true ↔ m % 2 = 0 :=
  beq_iff_eq

variable {m m' : Nat} {q q' : Int}

/-- The interval of a number ends before that of a greater one begins, or where it begins. In the
latter case the number or the greater one is odd. -/
theorem upperEnd_le_lowerEnd (h : IsPositive m q) (h' : IsPositive m' q')
    (hlt : q < q' ∨ q = q' ∧ m < m') :
    4 * m + 2 ≤ lowerEnd m' q' * 2 ^ (q' - q).toNat ∧
      (m % 2 = 0 → m' % 2 = 0 → 4 * m + 2 < lowerEnd m' q' * 2 ^ (q' - q).toNat) := by
  have hbit : Binary64.hiddenBit = 2 ^ 52 := rfl
  rcases hlt with hlt | ⟨rfl, hlt⟩
  · have hfull : 2 ^ 52 ≤ m' := h'.full.resolve_right fun hleast => by
      have := h.least_le
      omega
    have hlower : 2 ^ 54 - 1 ≤ lowerEnd m' q' := by
      rw [lowerEnd, hbit]
      split
      · omega
      · next hne =>
        have hne' : m' ≠ 2 ^ 52 := fun heq => hne (by
          have := h.least_le
          simp [heq]
          omega)
        omega
    have htwo : 2 ≤ 2 ^ (q' - q).toNat := Nat.le_self_pow (by omega) 2
    have hmul : (2 ^ 54 - 1) * 2 ≤ lowerEnd m' q' * 2 ^ (q' - q).toNat := Nat.mul_le_mul hlower htwo
    have hm := h.lt
    exact ⟨by omega, fun heven _ => by omega⟩
  · rw [Int.sub_self, Int.toNat_zero, pow_zero, Nat.mul_one, lowerEnd]
    split <;> exact ⟨by omega, fun heven heven' => by omega⟩

/-- A larger power of two is a whole multiple of a smaller one. -/
theorem zpow_eq_mul (hle : q ≤ q') : (2 : ℚ) ^ (q' - 2) = 2 ^ (q' - q).toNat * 2 ^ (q - 2) := by
  rw [← zpow_natCast, ← zpow_add₀ two_ne_zero]
  congr 1
  omega

/-- The intervals around two floats have no number in common, so a number within one determines the
float. -/
theorem not_holds_of_lt (h : IsPositive m q) (h' : IsPositive m' q')
    (hlt : q < q' ∨ q = q' ∧ m < m') {x : ℚ} (hx : (Interval.around m q).Holds x) :
    ¬(Interval.around m' q').Holds x := by
  intro hx'
  obtain ⟨hle, hstrict⟩ := upperEnd_le_lowerEnd h h' hlt
  have hpos := two_zpow_pos (q - 2)
  have hlow : (Interval.around m' q').low.toRat =
      (lowerEnd m' q' * 2 ^ (q' - q).toNat : Nat) * 2 ^ (q - 2) := by
    rw [toRat_low_around, zpow_eq_mul (by omega : q ≤ q'), ← mul_assoc]
    push_cast
    rfl
  have hends : (Interval.around m q).high.toRat ≤ (Interval.around m' q').low.toRat := by
    rw [hlow, toRat_high_around]
    exact mul_le_mul_of_nonneg_right (by exact_mod_cast hle) hpos.le
  obtain ⟨hx₁, hx₂⟩ := hx.le
  obtain ⟨hx₁', hx₂'⟩ := hx'.le
  cases hclosed : (Interval.around m q).closed with
  | false => exact absurd (hx.lt hclosed).2 (by linarith)
  | true =>
    cases hclosed' : (Interval.around m' q').closed with
    | false => exact absurd (hx'.lt hclosed').1 (by linarith)
    | true =>
      have hlt := hstrict (closed_around.1 hclosed) (closed_around.1 hclosed')
      have hends : (Interval.around m q).high.toRat < (Interval.around m' q').low.toRat := by
        rw [hlow, toRat_high_around]
        exact mul_lt_mul_of_pos_right (by exact_mod_cast hlt) hpos
      linarith

/-- A rational number lies in the interval of at most one number. -/
theorem eq_of_holds (h : IsPositive m q) (h' : IsPositive m' q') {x : ℚ}
    (hx : (Interval.around m q).Holds x) (hx' : (Interval.around m' q').Holds x) :
    m = m' ∧ q = q' := by
  by_contra hne
  have hlt : (q < q' ∨ q = q' ∧ m < m') ∨ (q' < q ∨ q' = q ∧ m' < m) := by omega
  rcases hlt with hlt | hlt
  · exact not_holds_of_lt h h' hlt hx hx'
  · exact not_holds_of_lt h' h hlt hx' hx

end BlockModels.Decimal
