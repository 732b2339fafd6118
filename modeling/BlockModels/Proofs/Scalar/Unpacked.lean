import BlockModels.Decimal.Binary64
import Mathlib

/-!
# Natural numbers in binary64

A floating-point number is a word of 64 bits. Its operations unpack words into a sign, a mantissa
and an exponent, compute with these, round, and pack the result into a word again. Here are the
unpacked forms of the natural numbers below 2 to the power of 53 (`Unpacked.ofWhole`): differences
of them need no rounding (`sub_ofWhole`), and they are ordered as the numbers are
(`IsWhole.compare`). What makes the arithmetic exact is that a mantissa may lose bits as long as
these are zero (`shiftToExponent_exact`).

Zero has two forms, so being a natural number is a relation (`Unpacked.IsWhole`).
-/

namespace BlockModels

namespace Unpacked

open Float.Model Float.Model.UnpackedFloat

/-! ## Rounding that changes nothing -/

/-- Shifting out zeros leaves the other bits, and nothing to be rounded. -/
theorem repeat_shiftRightOne (m j : Nat) :
    j.repeat ExtendedMantissa.shiftRightOne ⟨m * 2 ^ j, false, false⟩ = ⟨m, false, false⟩ := by
  induction j generalizing m with
  | zero => simp [Nat.repeat]
  | succ j ih =>
    have hpow : m * 2 ^ (j + 1) = m * 2 * 2 ^ j := by
      rw [Nat.pow_succ, Nat.mul_comm (2 ^ j), Nat.mul_assoc]
    rw [Nat.repeat, hpow, ih]
    simp [ExtendedMantissa.shiftRightOne]

/-- Zero bits are shifted out without a remainder. -/
theorem shiftToExponent_exact (m j : Nat) (e : Int) :
    shiftToExponent (m * 2 ^ j) e .exact (e + j) = (⟨m, false, false⟩, e + j) := by
  have hj : (e + j - e).toNat = j := by omega
  have hshift : (ExtendedMantissa.ofMantissaAndAccuracy (m * 2 ^ j) .exact) >>> j =
      ⟨m, false, false⟩ := repeat_shiftRightOne m j
  simp only [shiftToExponent, hj, hshift]

/-- Zero bits behind a number make it longer by as many. -/
theorem log2_mul_pow {m : Nat} (hm : 0 < m) (j : Nat) : (m * 2 ^ j).log2 = m.log2 + j := by
  have hj : 0 < 2 ^ j := Nat.two_pow_pos j
  have hlow : 2 ^ m.log2 * 2 ^ j ≤ m * 2 ^ j :=
    Nat.mul_le_mul_right _ (Nat.log2_self_le (Nat.ne_of_gt hm))
  have hhigh : m * 2 ^ j < 2 ^ (m.log2 + 1) * 2 ^ j :=
    Nat.mul_lt_mul_of_pos_right Nat.lt_log2_self hj
  rw [Nat.log2_eq_iff (Nat.ne_of_gt (Nat.mul_pos hm hj))]
  refine ⟨by rwa [Nat.pow_add], ?_⟩
  rwa [Nat.add_right_comm, Nat.pow_add _ (m.log2 + 1)]

/-- Zero bits behind a mantissa count for the exponent. -/
theorem totalExponent_mul_pow {m : Nat} (hm : 0 < m) (j : Nat) (e : Int) :
    totalExponent (m * 2 ^ j) e = totalExponent m (e + j) := by
  simp only [totalExponent, log2_mul_pow hm]
  omega

/-- A mantissa that is followed by zeros only is rounded to itself. -/
theorem roundWithAccuracy_exact (spec : Format) (s : Sign) {m : Nat} (hm : 0 < m) (j : Nat)
    (e : Int) (htarget : spec.targetExponent (totalExponent m (e + j)) = e + j) :
    roundWithAccuracy spec s (m * 2 ^ j) e .exact = .finite s m (e + j) hm := by
  have hfirst : shiftToTargetExponent spec (m * 2 ^ j) e .exact = (⟨m, false, false⟩, e + j) := by
    rw [shiftToTargetExponent, totalExponent_mul_pow hm, htarget, shiftToExponent_exact]
  have hsecond : shiftToTargetExponent spec m (e + j) .exact = (⟨m, false, false⟩, e + j) := by
    have hzero := shiftToExponent_exact m 0 (e + j)
    rw [shiftToTargetExponent, htarget]
    simpa using hzero
  have hround : (⟨m, false, false⟩ : ExtendedMantissa).roundedMantissa = m := rfl
  simp only [roundWithAccuracy, hfirst, hround, hsecond, dif_neg (Nat.ne_of_gt hm)]

/-- The exponent that a number is to have, unless it is among the least ones. -/
theorem targetExponent_binary64 {t : Int} (ht : -1021 ≤ t) :
    Format.binary64.targetExponent t = t - 53 := by
  have hbits : (Format.binary64.mantissaBits : Int) = 53 := rfl
  have hmin : Format.binary64.minExponent = -1074 := rfl
  rw [Format.targetExponent, hbits, hmin]
  omega

/-! ## The natural numbers -/

/-- A natural number with a mantissa of 53 bits. -/
def ofWhole (n : Nat) : UnpackedFloat :=
  if h : n = 0 then .zero .positive
  else .finite .positive (n * 2 ^ (52 - n.log2)) ((n.log2 : Int) - 52)
    (Nat.mul_pos (Nat.pos_of_ne_zero h) (Nat.two_pow_pos _))

/-- A positive number has its bits moved up to 53. -/
theorem ofWhole_of_pos {n : Nat} (hn : 0 < n) :
    ofWhole n = .finite .positive (n * 2 ^ (52 - n.log2)) ((n.log2 : Int) - 52)
      (Nat.mul_pos hn (Nat.two_pow_pos _)) :=
  dif_neg (Nat.ne_of_gt hn)

/-- A number below `2 ^ 53` has at most 53 bits. -/
theorem log2_le {n : Nat} (hpos : 0 < n) (hn : n < 2 ^ 53) : n.log2 ≤ 52 :=
  Nat.le_of_lt_succ ((Nat.log2_lt (Nat.ne_of_gt hpos)).2 hn)

/-- The mantissa has all of its 53 bits. -/
theorem log2_mantissa {n : Nat} (hpos : 0 < n) (hn : n < 2 ^ 53) :
    (n * 2 ^ (52 - n.log2)).log2 = 52 := by
  rw [log2_mul_pow hpos]
  exact Nat.add_sub_cancel' (log2_le hpos hn)

/-- The mantissa counts in units of the last bit. -/
theorem mantissa_mul_pow {n : Nat} (hpos : 0 < n) (hn : n < 2 ^ 53) :
    n * 2 ^ (52 - n.log2) * 2 ^ n.log2 = n * 2 ^ 52 := by
  rw [Nat.mul_assoc, ← Nat.pow_add, Nat.sub_add_cancel (log2_le hpos hn)]

/-- A natural number is rounded to its own form, whatever the exponent with which it comes. -/
theorem round_ofWhole {n k : Nat} (hpos : 0 < n) (hn : n < 2 ^ 53) :
    UnpackedFloat.round .binary64 .positive (n * 2 ^ k) (-k) = ofWhole n := by
  have hlog := log2_le hpos hn
  have htarget : Format.binary64.targetExponent (totalExponent (n * 2 ^ k) (-k)) = n.log2 - 52 := by
    rw [totalExponent, log2_mul_pow hpos, targetExponent_binary64 (by omega)]
    omega
  have hm : 0 < n * 2 ^ (52 - n.log2) := Nat.mul_pos hpos (Nat.two_pow_pos _)
  have hend : ∀ (e : Int) (j : Nat), e + j = n.log2 - 52 →
      roundWithAccuracy .binary64 .positive (n * 2 ^ (52 - n.log2) * 2 ^ j) e .exact =
        ofWhole n := by
    intro e j he
    rw [roundWithAccuracy_exact _ _ hm j e, ofWhole_of_pos hpos]
    · simp only [he]
    · rw [he, totalExponent, log2_mantissa hpos hn, targetExponent_binary64 (by omega)]
      omega
  simp only [UnpackedFloat.round, htarget, decreaseExponent]
  rcases Nat.le_total k (52 - n.log2) with h | h
  · -- The mantissa is too short: zeros are added, and none taken away.
    have hshift : ((-k : Int) - ((n.log2 : Int) - 52)).toNat = 52 - n.log2 - k := by omega
    have hpow : (n * 2 ^ k) <<< (52 - n.log2 - k) = n * 2 ^ (52 - n.log2) * 2 ^ 0 := by
      rw [Nat.shiftLeft_eq, Nat.mul_assoc, ← Nat.pow_add, Nat.add_sub_cancel' h, Nat.pow_zero,
        Nat.mul_one]
    rw [hshift, hpow]
    exact hend _ 0 (by omega)
  · have hshift : ((-k : Int) - ((n.log2 : Int) - 52)).toNat = 0 := by omega
    have hpow : (n * 2 ^ k) <<< 0 = n * 2 ^ (52 - n.log2) * 2 ^ (k - (52 - n.log2)) := by
      rw [Nat.shiftLeft_zero, Nat.mul_assoc, ← Nat.pow_add, Nat.add_sub_cancel' h]
    rw [hshift, hpow]
    exact hend _ _ (by omega)

/-- A number below `2 ^ 53` is made without rounding. -/
theorem ofNat_eq_ofWhole {n : Nat} (hn : n < 2 ^ 53) :
    UnpackedFloat.ofNat .binary64 n = ofWhole n := by
  rcases Nat.eq_zero_or_pos n with rfl | hpos
  · rfl
  · have hcmp : compare (n : Int) 0 = .gt := Int.compare_eq_gt.2 (by omega)
    have hround := round_ofWhole (k := 0) hpos hn
    rw [UnpackedFloat.ofNat, UnpackedFloat.ofInt, UnpackedFloat.normalize.eq_1, hcmp]
    simpa using hround

/-- The difference of two natural numbers is exact. -/
theorem sub_ofWhole {n k : Nat} (hn : n < 2 ^ 53) (hk : k ≤ n) (hpos : 0 < k) :
    UnpackedFloat.sub .binary64 (ofWhole n) (ofWhole k) = ofWhole (n - k) := by
  have hlogn := log2_le (by omega) hn
  have hle : k.log2 ≤ n.log2 := by
    rw [Nat.le_log2 (by omega)]
    exact Nat.le_trans (Nat.log2_self_le (Nat.ne_of_gt hpos)) hk
  have hmin : min ((n.log2 : Int) - 52) ((k.log2 : Int) - 52) = k.log2 - 52 := by omega
  have hshift : ((n.log2 : Int) - 52 - (k.log2 - 52)).toNat = n.log2 - k.log2 := by omega
  have hstay : ((k.log2 : Int) - 52 - (k.log2 - 52)).toNat = 0 := by omega
  have hpow : (n * 2 ^ (52 - n.log2)) <<< (n.log2 - k.log2) = n * 2 ^ (52 - k.log2) := by
    rw [Nat.shiftLeft_eq, Nat.mul_assoc, ← Nat.pow_add]
    congr 2
    omega
  have hdiff : ((n * 2 ^ (52 - k.log2) : Nat) : Int) - ((k * 2 ^ (52 - k.log2) : Nat) : Int) =
      (((n - k) * 2 ^ (52 - k.log2) : Nat) : Int) := by
    rw [Nat.sub_mul, Int.ofNat_sub (Nat.mul_le_mul_right _ hk)]
  have hexp : ((k.log2 : Int) - 52) = -((52 - k.log2 : Nat) : Int) := by omega
  rw [ofWhole_of_pos (by omega : 0 < n), ofWhole_of_pos hpos]
  simp only [UnpackedFloat.sub, hmin, decreaseExponent, hshift, hstay, hpow, Nat.shiftLeft_zero,
    Sign.apply]
  rw [hdiff, UnpackedFloat.normalize.eq_1]
  rcases Nat.eq_zero_or_pos (n - k) with h | h
  · rw [h]
    simp [ofWhole]
  · have hmul := Nat.mul_pos h (Nat.two_pow_pos (52 - k.log2))
    have hcmp : compare (((n - k) * 2 ^ (52 - k.log2) : Nat) : Int) 0 = .gt :=
      Int.compare_eq_gt.2 (by omega)
    rw [hcmp]
    simp only [Int.toNat_natCast]
    rw [hexp, round_ofWhole h (by omega)]

/-- Multiplying by one changes nothing. -/
theorem mul_ofWhole_one {n : Nat} (hn : n < 2 ^ 53) :
    UnpackedFloat.mul .binary64 (ofWhole n) (ofWhole 1) = ofWhole n := by
  rcases Nat.eq_zero_or_pos n with rfl | hpos
  · rfl
  · have hlog := log2_le hpos hn
    have hm : 0 < n * 2 ^ (52 - n.log2) := Nat.mul_pos hpos (Nat.two_pow_pos _)
    have hone : ofWhole 1 = .finite .positive (2 ^ 52) (-52) (Nat.two_pow_pos _) := rfl
    have hexp : (n.log2 : Int) - 52 + -52 + (52 : Nat) = n.log2 - 52 := by omega
    rw [ofWhole_of_pos hpos, hone]
    simp only [UnpackedFloat.mul]
    rw [roundWithAccuracy_exact _ _ hm 52]
    · congr 1
    · rw [hexp, totalExponent, log2_mantissa hpos hn, targetExponent_binary64 (by omega)]
      omega

/-- Read as an integer, a natural number is itself. -/
theorem toInt_ofWhole {n : Nat} (hn : n < 2 ^ 53) (low high : Int) :
    (ofWhole n).toInt low high = n := by
  rcases Nat.eq_zero_or_pos n with rfl | hpos
  · rfl
  · have hlog := log2_le hpos hn
    have hstay : ((n.log2 : Int) - 52).toNat = 0 := by omega
    have hexp : (n.log2 : Int) - 52 + (52 - n.log2 : Nat) = 0 := by omega
    have hshift := shiftToExponent_exact n (52 - n.log2) (n.log2 - 52)
    rw [hexp] at hshift
    rw [ofWhole_of_pos hpos]
    simp only [UnpackedFloat.toInt, roundToInt, decreaseExponent, Int.sub_zero, hstay,
      Nat.shiftLeft_zero, Int.ofNat_zero, hshift, Sign.apply]

/-! ## Order -/

/-- The unpacked number is a natural number; zero may have either sign. -/
def IsWhole (u : UnpackedFloat) (n : Nat) : Prop :=
  n < 2 ^ 53 ∧ (u = ofWhole n ∨ (n = 0 ∧ u = .zero .negative))

/-- A sign that makes numbers negative. -/
def isNegative : Sign → Bool
  | .negative => true
  | .positive => false

/-- Zero bits behind both do not matter for a comparison. -/
theorem compare_mul_pow {m n : Nat} (k : Nat) :
    compare (m * 2 ^ k) (n * 2 ^ k) = compare m n := by
  have hpow := Nat.two_pow_pos k
  rcases Nat.lt_trichotomy m n with h | rfl | h
  · rw [Nat.compare_eq_lt.2 h, Nat.compare_eq_lt.2 (Nat.mul_lt_mul_of_pos_right h hpow)]
  · rw [Nat.compare_eq_eq.2 rfl, Nat.compare_eq_eq.2 rfl]
  · rw [Nat.compare_eq_gt.2 h, Nat.compare_eq_gt.2 (Nat.mul_lt_mul_of_pos_right h hpow)]

/-- A mantissa of 53 bits lies between two powers of two. -/
theorem bounds_of_log2 {m : Nat} (h : m.log2 = 52) : 2 ^ 52 ≤ m ∧ m < 2 ^ 53 :=
  (Nat.log2_eq_iff (by rintro rfl; cases h)).1 h

/-- Mantissas with all of their bits are ordered as the numbers are: the exponents decide, and
between equal ones the mantissas. -/
theorem compare_full {m n a b : Nat} (hm : m.log2 = 52) (hn : n.log2 = 52) :
    (compare ((a : Int) - 52) ((b : Int) - 52)).then (compare m n) =
      compare (m * 2 ^ a) (n * 2 ^ b) := by
  have hlt : ∀ {m n a b : Nat}, m.log2 = 52 → n.log2 = 52 → a < b → m * 2 ^ a < n * 2 ^ b := by
    intro m n a b hm hn hab
    calc m * 2 ^ a < 2 ^ 53 * 2 ^ a :=
          Nat.mul_lt_mul_of_pos_right (bounds_of_log2 hm).2 (Nat.two_pow_pos a)
      _ = 2 ^ 52 * 2 ^ (a + 1) := by rw [← Nat.pow_add, ← Nat.pow_add]; congr 1; omega
      _ ≤ 2 ^ 52 * 2 ^ b := Nat.mul_le_mul_left _ (Nat.pow_le_pow_right (by omega) hab)
      _ ≤ n * 2 ^ b := Nat.mul_le_mul_right _ (bounds_of_log2 hn).1
  rcases Nat.lt_trichotomy a b with h | rfl | h
  · rw [Int.compare_eq_lt.2 (by omega), Nat.compare_eq_lt.2 (hlt hm hn h)]
    rfl
  · rw [Int.compare_eq_eq.2 rfl, compare_mul_pow]
    rfl
  · rw [Int.compare_eq_gt.2 (by omega), Nat.compare_eq_gt.2 (hlt hn hm h)]
    rfl

/-- Unpacked natural numbers compare as they do. -/
theorem compare_ofWhole {m n : Nat} (hm : m < 2 ^ 53) (hn : n < 2 ^ 53) :
    (ofWhole m).compare (ofWhole n) = some (compare m n) := by
  rcases Nat.eq_zero_or_pos m with rfl | hmpos
  · rcases Nat.eq_zero_or_pos n with rfl | hnpos
    · rfl
    · rw [ofWhole_of_pos hnpos, Nat.compare_eq_lt.2 hnpos]
      rfl
  · rcases Nat.eq_zero_or_pos n with rfl | hnpos
    · rw [ofWhole_of_pos hmpos, Nat.compare_eq_gt.2 hmpos]
      rfl
    · rw [ofWhole_of_pos hmpos, ofWhole_of_pos hnpos]
      simp only [UnpackedFloat.compare, Option.some.injEq,
        compare_full (log2_mantissa hmpos hm) (log2_mantissa hnpos hn), mantissa_mul_pow hmpos hm,
        mantissa_mul_pow hnpos hn]
      exact compare_mul_pow 52

/-- Negative zero compares as zero. -/
theorem compare_negativeZero {n : Nat} :
    (UnpackedFloat.zero .negative).compare (ofWhole n) = some (compare 0 n) ∧
      (ofWhole n).compare (.zero .negative) = some (compare n 0) := by
  rcases Nat.eq_zero_or_pos n with rfl | hpos
  · exact ⟨rfl, rfl⟩
  · rw [ofWhole_of_pos hpos, Nat.compare_eq_lt.2 hpos, Nat.compare_eq_gt.2 hpos]
    exact ⟨rfl, rfl⟩

namespace IsWhole

variable {u v : UnpackedFloat} {m n : Nat}

/-- A natural number is zero, of either sign, or has its mantissa of 53 bits. -/
theorem cases (h : IsWhole u n) : (n = 0 ∧ ∃ s, u = .zero s) ∨ (0 < n ∧ u = ofWhole n) := by
  obtain ⟨-, rfl | ⟨rfl, rfl⟩⟩ := h
  · rcases Nat.eq_zero_or_pos n with rfl | hpos
    · exact Or.inl ⟨rfl, _, rfl⟩
    · exact Or.inr ⟨hpos, rfl⟩
  · exact Or.inl ⟨rfl, _, rfl⟩

/-- A natural number is a number. -/
theorem isNaN_eq_false (h : IsWhole u n) : u.isNaN = false := by
  rcases h.cases with ⟨-, s, rfl⟩ | ⟨hpos, rfl⟩
  · rfl
  · rw [ofWhole_of_pos hpos]
    rfl

/-- Natural numbers are ordered as natural numbers. -/
theorem compare (hu : IsWhole u m) (hv : IsWhole v n) : u.compare v = some (compare m n) := by
  obtain ⟨hm, rfl | ⟨rfl, rfl⟩⟩ := hu
  · obtain ⟨hn, rfl | ⟨rfl, rfl⟩⟩ := hv
    · exact compare_ofWhole hm hn
    · exact compare_negativeZero.2
  · obtain ⟨hn, rfl | ⟨rfl, rfl⟩⟩ := hv
    · exact compare_negativeZero.1
    · rfl

/-- What is negative is below them all. -/
theorem compare_negative {k : Nat} {e : Int} {hk : 0 < k} (hv : IsWhole v n) :
    (UnpackedFloat.finite .negative k e hk).compare v = some .lt := by
  rcases hv.cases with ⟨-, s, rfl⟩ | ⟨hpos, rfl⟩
  · rfl
  · rw [ofWhole_of_pos hpos]
    rfl

/-- Every natural number lies between the infinities. -/
theorem compare_infinity (s : Sign) (hv : IsWhole v n) :
    (UnpackedFloat.infinity s).compare v = some (if isNegative s then .lt else .gt) ∧
      v.compare (.infinity s) = some (if isNegative s then .gt else .lt) := by
  rcases hv.cases with ⟨-, t, rfl⟩ | ⟨hpos, rfl⟩
  · cases s <;> exact ⟨rfl, rfl⟩
  · rw [ofWhole_of_pos hpos]
    cases s <;> exact ⟨rfl, rfl⟩

/-- What has a positive exponent is above them all. -/
theorem compare_large {k : Nat} {e : Int} (hk : 0 < k) (he : 0 < e) (hv : IsWhole v n) :
    (UnpackedFloat.finite .positive k e hk).compare v = some .gt ∧
      v.compare (.finite .positive k e hk) = some .lt := by
  rcases hv.cases with ⟨-, t, rfl⟩ | ⟨hpos, rfl⟩
  · exact ⟨rfl, rfl⟩
  · have hlog := log2_le hpos hv.1
    have hgt : Ord.compare e ((n.log2 : Int) - 52) = .gt := Int.compare_eq_gt.2 (by omega)
    have hlt : Ord.compare ((n.log2 : Int) - 52) e = .lt := Int.compare_eq_lt.2 (by omega)
    rw [ofWhole_of_pos hpos]
    simp only [UnpackedFloat.compare, hgt, hlt]
    exact ⟨rfl, rfl⟩

end IsWhole

/-- A full mantissa that ends in as many zeros as its exponent asks for is a natural number. -/
theorem isWhole_of_mul_pow {m j n : Nat} {e : Int} {hm : 0 < m} (hlow : 2 ^ 52 ≤ m)
    (hhigh : m < 2 ^ 53) (he : e = -(j : Int)) (hn : m = n * 2 ^ j) :
    IsWhole (.finite .positive m e hm) n := by
  have hpos : 0 < n := Nat.pos_of_ne_zero fun h => by rw [h, Nat.zero_mul] at hn; omega
  have hlog : m.log2 = 52 := (Nat.log2_eq_iff (Nat.ne_of_gt hm)).2 ⟨hlow, hhigh⟩
  have hsum : n.log2 + j = 52 := by rw [← log2_mul_pow hpos, ← hn, hlog]
  have hle : n ≤ m := hn ▸ Nat.le_mul_of_pos_right n (Nat.two_pow_pos j)
  have hj : 52 - n.log2 = j := by omega
  refine ⟨by omega, Or.inl ?_⟩
  rw [ofWhole_of_pos hpos]
  congr 1
  · rw [hj, hn]
  · omega

end Unpacked

end BlockModels
