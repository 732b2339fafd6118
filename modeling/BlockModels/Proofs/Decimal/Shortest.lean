import BlockModels.Proofs.Decimal.Interval

/-!
# What the search for a decimal finds

The grids become finer until a point of one lies in the interval, and with eighteen digits one does:
the spacing is less than a seventeenth power of ten of the number, while the interval reaches below
the number by more than that (`exists_onGrid_finest`). So the decimal that is found lies in the
interval (`holds_shortest`), and different numbers have different decimals (`eq_of_shortest`).
-/

namespace BlockModels.Decimal

/-- The rational number that a decimal is. -/
def Digits.toRat (d : Digits) : ℚ := d.value * 10 ^ d.exponent

/-! ## The first digit -/

/-- A positive number has a digit. -/
theorem digitCount_pos {n : Nat} (h : 0 < n) : 0 < digitCount n := by
  rw [digitCount, if_neg (Nat.ne_of_gt h)]
  exact Nat.length_toDigits_pos

/-- A number is at least the least one with as many digits. -/
theorem pow_digitCount_le {n : Nat} (h : 0 < n) : 10 ^ (digitCount n - 1) ≤ n := by
  by_contra hlt
  have hcount := digitCount_pos h
  rcases Nat.eq_zero_or_pos (digitCount n - 1) with hone | hmany
  · rw [hone, pow_zero] at hlt
    exact hlt h
  · have hle := (Nat.length_toDigits_le_iff (b := 10) (by decide) hmany).2 (Nat.lt_of_not_le hlt)
    rw [digitCount, if_neg (Nat.ne_of_gt h)] at hcount hle
    omega

/-- The power of ten up to which a fraction is multiplied makes it a whole. -/
theorem le_mul_pow_leadingZeros {num den fuel : Nat} (h : den ≤ num * 10 ^ fuel) :
    den ≤ num * 10 ^ leadingZeros num den fuel := by
  induction fuel generalizing num with
  | zero => exact h
  | succ fuel ih =>
    rw [leadingZeros]
    split
    · next hle => simpa using hle
    · rw [Nat.pow_succ', ← Nat.mul_assoc]
      exact ih (by rwa [Nat.mul_assoc, ← Nat.pow_succ'])

/-- The first digit counts no more than the number. -/
theorem leadingExponent_le {r : Quotient} (hden : 0 < r.den) (h : r.den ≤ r.num * 10 ^ 400) :
    (10 : ℚ) ^ leadingExponent r ≤ r.toRat := by
  unfold leadingExponent
  split
  · next hle =>
    have hpos : 0 < r.num / r.den := Nat.div_pos hle hden
    have hcount := pow_digitCount_le hpos
    have hexp : Int.ofNat (digitCount (r.num / r.den)) - 1 =
        ((digitCount (r.num / r.den) - 1 : Nat) : Int) := by
      rw [Int.ofNat_eq_natCast]
      have := digitCount_pos hpos
      omega
    rw [hexp, zpow_natCast]
    exact le_trans (by exact_mod_cast hcount) (Quotient.div_le_toRat hden)
  · have hpow := le_mul_pow_leadingZeros h
    have hten := ten_zpow_pos (leadingZeros r.num r.den 400)
    rw [Int.ofNat_eq_natCast, zpow_neg, inv_le_iff_one_le_mul₀ hten, Quotient.toRat,
      div_mul_eq_mul_div, one_le_div (by exact_mod_cast hden)]
    exact_mod_cast hpow

/-! ## The search -/

namespace Interval

variable {i : Interval} {k lead : Int} {d n fuel : Nat}

/-- What is found on the grid of a power of ten is in the interval. -/
theorem contains_of_onGrid (h : i.onGrid k = some d) : i.contains d k = true := by
  unfold onGrid at h
  dsimp only at h
  split at h
  · split at h <;> cases h <;> assumption
  · cases h
    assumption
  · cases h
    assumption
  · cases h

/-- If the point of the grid below the number is in the interval then one is found. -/
theorem exists_onGrid
    (h : i.contains ((i.value.shift k).num / (i.value.shift k).den) k = true) :
    ∃ d, i.onGrid k = some d ∧ (i.value.shift k).num / (i.value.shift k).den ≤ d := by
  unfold onGrid
  dsimp only
  rw [h]
  split
  · split
    · exact ⟨_, rfl, le_rfl⟩
    · exact ⟨_, rfl, Nat.le_succ _⟩
  · exact ⟨_, rfl, le_rfl⟩
  · exact ⟨_, rfl, Nat.le_succ _⟩
  · next h' _ => cases h'

/-- The search ends in the interval if there is a point of one of the grids. -/
theorem contains_search {steps : Nat} (hsteps : steps < fuel)
    (h : ∃ d, i.onGrid (lead + 1 - Int.ofNat (n + steps)) = some d ∧ d ≠ 0) :
    (i.search lead n fuel).value ≠ 0 ∧
      i.contains (i.search lead n fuel).value (i.search lead n fuel).exponent = true := by
  induction fuel generalizing n steps with
  | zero => exact absurd hsteps (Nat.not_lt_zero _)
  | succ fuel ih =>
    have hrest : (∀ d, i.onGrid (lead + 1 - Int.ofNat n) = some d → d = 0) →
        (i.search lead (n + 1) fuel).value ≠ 0 ∧ i.contains (i.search lead (n + 1) fuel).value
          (i.search lead (n + 1) fuel).exponent = true := by
      intro hnone
      cases steps with
      | zero =>
        obtain ⟨d, hd, hne⟩ := h
        exact absurd (hnone d hd) hne
      | succ steps =>
        refine ih (Nat.lt_of_succ_lt_succ hsteps) ?_
        rwa [Nat.add_assoc, Nat.add_comm 1 steps]
    rw [search]
    split
    · next d hd =>
      split
      · next hzero =>
        refine hrest fun d' hd' => ?_
        rwa [hd, Option.some.injEq, eq_comm, hzero] at hd'
      · next hne => exact ⟨hne, contains_of_onGrid hd⟩
    · next hnone =>
      refine hrest fun d' hd' => ?_
      rw [hnone] at hd'
      cases hd'

end Interval

/-! ## Trailing zeros -/

/-- Zeros at the end may be taken off. -/
theorem toRat_strip (d : Digits) (fuel : Nat) : (d.strip fuel).toRat = d.toRat := by
  induction fuel generalizing d with
  | zero => rfl
  | succ fuel ih =>
    rw [Digits.strip]
    split
    · next h =>
      simp only [Bool.and_eq_true, bne_iff_ne, beq_iff_eq] at h
      rw [ih, Digits.toRat, Digits.toRat, zpow_add_one₀ (by norm_num : (10 : ℚ) ≠ 0)]
      have hvalue : ((d.value / 10 : Nat) : ℚ) * 10 = d.value := by
        exact_mod_cast Nat.div_mul_cancel (Nat.dvd_of_mod_eq_zero h.2)
      rw [mul_comm ((10 : ℚ) ^ d.exponent), ← mul_assoc, hvalue]
    · rfl

/-- Taking off zeros does not make a number zero. -/
theorem value_strip_ne_zero {d : Digits} (h : d.value ≠ 0) (fuel : Nat) :
    (d.strip fuel).value ≠ 0 := by
  induction fuel generalizing d with
  | zero => exact h
  | succ fuel ih =>
    rw [Digits.strip]
    split
    · next hzero =>
      simp only [Bool.and_eq_true, bne_iff_ne, beq_iff_eq] at hzero
      exact ih (Nat.ne_of_gt (Nat.div_pos (Nat.le_of_dvd (Nat.pos_of_ne_zero h)
        (Nat.dvd_of_mod_eq_zero hzero.2)) (by decide)))
    · exact h

/-! ## Eighteen digits -/

variable {m m' : Nat} {q q' : Int}

/-- The lower end lies below the number. -/
theorem lowerEnd_le (h : 0 < m) (q : Int) : lowerEnd m q + 1 ≤ 4 * m := by
  unfold lowerEnd
  split <;> omega

/-- A number is less than `2 ^ 55` quarters of a unit in the last place, so it lies above the lower
end of its interval by more than its seventeenth decimal place. -/
theorem lowerEnd_lt (h : IsPositive m q) :
    (lowerEnd m q : ℚ) * 10 ^ 17 + (4 * m : Nat) < (4 * m : Nat) * 10 ^ 17 := by
  have hlower := lowerEnd_le h.pos q
  have hm := h.lt
  have hnat : lowerEnd m q * 10 ^ 17 + 4 * m < 4 * m * 10 ^ 17 := by omega
  exact_mod_cast hnat

/-- The point below the number on the grid of eighteen digits lies in the interval. -/
theorem exists_onGrid_finest (h : IsPositive m q) {lead : Int}
    (hlead : (10 : ℚ) ^ lead ≤ (Interval.around m q).value.toRat) :
    ∃ d, (Interval.around m q).onGrid (lead + 1 - Int.ofNat (1 + 17)) = some d ∧ d ≠ 0 := by
  have hsound := Interval.isSound_around m q
  generalize hk : lead + 1 - Int.ofNat (1 + 17) = k
  have hten := ten_zpow_pos k
  have hshift := Quotient.den_shift_pos hsound.value k
  have hgrid : (10 : ℚ) ^ k * 10 ^ 17 ≤ (Interval.around m q).value.toRat := by
    refine le_of_eq_of_le ?_ hlead
    rw [← zpow_natCast, ← zpow_add₀ (by norm_num : (10 : ℚ) ≠ 0), ← hk, Int.ofNat_eq_natCast]
    congr 1
    omega
  have hfloor := Quotient.div_le_toRat hshift
  have hceil := Quotient.toRat_lt_div_add_one hshift
  rw [Quotient.toRat_shift, le_div_iff₀ hten] at hfloor
  rw [Quotient.toRat_shift, div_lt_iff₀ hten] at hceil
  push_cast at hceil
  set d := (((Interval.around m q).value.shift k).num / ((Interval.around m q).value.shift k).den)
  have htwo := two_zpow_pos (q - 2)
  have hlower := mul_lt_mul_of_pos_right (lowerEnd_lt h) htwo
  have hcontains : (Interval.around m q).contains d k = true := by
    refine (Interval.contains_iff hsound).2 (Interval.holds_of_lt ?_ ?_)
    · rw [toRat_low_around]
      rw [toRat_value_around] at hgrid hceil
      linarith
    · refine lt_of_le_of_lt hfloor ?_
      rw [toRat_value_around, toRat_high_around]
      refine mul_lt_mul_of_pos_right ?_ htwo
      exact_mod_cast Nat.lt_add_of_pos_right (by decide)
  obtain ⟨d', hd', hle⟩ := Interval.exists_onGrid hcontains
  refine ⟨d', hd', Nat.ne_of_gt (Nat.lt_of_lt_of_le ?_ hle)⟩
  have hpos : (0 : ℚ) < d := by
    by_contra hzero
    nlinarith
  exact_mod_cast hpos

/-! ## The shortest decimal -/

/-- A number is not too small for its first digit to be found. -/
theorem den_le_around (h : IsPositive m q) {n : Nat} (hn : 1076 ≤ 3 * n) :
    (Interval.around m q).value.den ≤ (Interval.around m q).value.num * 10 ^ n := by
  have hm := h.pos
  have hq := h.least_le
  change (Quotient.dyadic (4 * m) (q - 2)).den ≤ (Quotient.dyadic (4 * m) (q - 2)).num * 10 ^ n
  unfold Quotient.dyadic
  split
  · exact Nat.mul_pos (Nat.mul_pos (Nat.mul_pos (by decide) hm) (Nat.pow_pos (by decide)))
      (Nat.pow_pos (by decide))
  · have hle : 2 ^ (-(q - 2)).toNat ≤ 2 ^ (3 * n) := Nat.pow_le_pow_right (by decide) (by omega)
    have hpow : 2 ^ (3 * n) ≤ 10 ^ n := by
      rw [pow_mul]
      exact Nat.pow_le_pow_left (by decide) n
    exact Nat.le_trans (Nat.le_trans hle hpow)
      (Nat.le_mul_of_pos_left _ (Nat.mul_pos (by decide) hm))

/-- The decimal that is found is not zero, and rounds to the number. -/
theorem holds_shortest (h : IsPositive m q) :
    (shortest m q).value ≠ 0 ∧ (Interval.around m q).Holds (shortest m q).toRat := by
  have hsound := Interval.isSound_around m q
  have hlead := leadingExponent_le hsound.value (den_le_around h (by decide))
  obtain ⟨hne, hcontains⟩ := Interval.contains_search (by decide : 17 < 18)
    (exists_onGrid_finest h hlead)
  refine ⟨value_strip_ne_zero hne 20, ?_⟩
  rw [shortest, toRat_strip]
  exact (Interval.contains_iff hsound).1 hcontains

/-- Different numbers have different decimals. -/
theorem eq_of_shortest (h : IsPositive m q) (h' : IsPositive m' q')
    (heq : (shortest m q).toRat = (shortest m' q').toRat) : m = m' ∧ q = q' := by
  have hholds := (holds_shortest h).2
  rw [heq] at hholds
  exact eq_of_holds h h' hholds (holds_shortest h').2

end BlockModels.Decimal
