import BlockModels.Proofs.Scalar.Finite

/-!
# The nearest floating-point number

Integers with more than 53 bits are rounded when they become floating-point numbers: to the nearest
integer whose bits behind the first 53 are zero, and of two such integers to the one with an even
mantissa (`nearest`). Rounding keeps the order but not the differences (`nearest_le_nearest`), and
integers that are less than 2 to the power of 53 are apart from all others (`eq_of_nearest_eq`).

A floating-point number is an integer if its mantissa, in its place, is one (`Unpacked.IsInt`).
These numbers are ordered as the integers are (`IsInt.compare`), and what an integer becomes is the
nearest of them (`isInt_ofInt`).
-/

namespace BlockModels

namespace Binary64

/-! ## Rounding integers -/

/-- The number without its last bits, rounded to the nearest; of two to the even one. -/
def halfEven (n bits : Nat) : Nat :=
  let whole := n / 2 ^ bits
  let rest := n % 2 ^ bits
  if 2 ^ bits < 2 * rest ∨ 2 * rest = 2 ^ bits ∧ whole % 2 = 1 then whole + 1 else whole

/-- The bits of a number that are more than 53. -/
def spareBits (n : Nat) : Nat := n.log2 - 52

/-- The number with zeros for what is behind its first 53 bits, rounded to the nearest. -/
def nearestNat (n : Nat) : Nat := halfEven n (spareBits n) * 2 ^ spareBits n

/-- The integer that an integer becomes as a floating-point number. -/
def nearest (i : Int) : Int := i.sign * nearestNat i.natAbs

variable {m n : Nat}

/-- Without bits to take off, nothing is rounded. -/
theorem halfEven_zero (n : Nat) : halfEven n 0 = n := by
  simp [halfEven, Nat.mod_one]

/-- A rounded number is the quotient or one more. -/
theorem div_le_halfEven (n bits : Nat) :
    n / 2 ^ bits ≤ halfEven n bits ∧ halfEven n bits ≤ n / 2 ^ bits + 1 := by
  dsimp only [halfEven]
  split <;> omega

/-- Rounding keeps the order. -/
theorem halfEven_le_halfEven (h : m ≤ n) (bits : Nat) : halfEven m bits ≤ halfEven n bits := by
  rcases Nat.lt_or_ge (m / 2 ^ bits) (n / 2 ^ bits) with hlt | hge
  · have hm := (div_le_halfEven m bits).2
    have hn := (div_le_halfEven n bits).1
    omega
  · have hwhole := Nat.le_antisymm (Nat.div_le_div_right h) hge
    have hm := Nat.div_add_mod' m (2 ^ bits)
    have hn := Nat.div_add_mod' n (2 ^ bits)
    rw [← hwhole] at hn
    dsimp only [halfEven]
    rw [← hwhole]
    split <;> split <;> omega

/-- A number with spare bits has 53 bits and the spare ones. -/
theorem log2_eq_of_lt (h : 0 < spareBits n) : n.log2 = 52 + spareBits n := by
  unfold spareBits at *
  omega

/-- Without the spare bits there are 53 bits. -/
theorem div_spareBits (h : 0 < spareBits n) :
    2 ^ 52 ≤ n / 2 ^ spareBits n ∧ n / 2 ^ spareBits n < 2 ^ 53 := by
  have hlog := log2_eq_of_lt h
  have hne : n ≠ 0 := by
    rintro rfl
    exact absurd h (by decide)
  have hpos := Nat.two_pow_pos (spareBits n)
  have hlow : 2 ^ (52 + spareBits n) ≤ n := hlog ▸ Nat.log2_self_le hne
  have hhigh : n < 2 ^ (53 + spareBits n) := by
    have hlt : n < 2 ^ (n.log2 + 1) := Nat.lt_log2_self
    rwa [hlog, Nat.add_right_comm] at hlt
  rw [Nat.le_div_iff_mul_le hpos, Nat.div_lt_iff_lt_mul hpos, ← Nat.pow_add, ← Nat.pow_add]
  exact ⟨hlow, hhigh⟩

/-- A number with at most 53 bits has none to spare. -/
theorem spareBits_eq_zero (hn : n < 2 ^ 53) : spareBits n = 0 := by
  rcases Nat.eq_zero_or_pos n with rfl | hpos
  · rfl
  · exact Nat.sub_eq_zero_of_le (Unpacked.log2_le hpos hn)

/-- A number with no bits to spare has at most 53. -/
theorem lt_of_spareBits_eq_zero (h : spareBits n = 0) : n < 2 ^ 53 := by
  have hlt : n < 2 ^ (n.log2 + 1) := Nat.lt_log2_self
  have hpow : 2 ^ (n.log2 + 1) ≤ 2 ^ 53 :=
    Nat.pow_le_pow_right (by decide) (by unfold spareBits at h; omega)
  omega

/-- A number with at most 53 bits is its own nearest float. -/
theorem nearestNat_of_lt (hn : n < 2 ^ 53) : nearestNat n = n := by
  rw [nearestNat, spareBits_eq_zero hn, halfEven_zero, Nat.pow_zero, Nat.mul_one]

/-- Rounding stays between the powers of two around the number. -/
theorem pow_le_nearestNat (hn : n ≠ 0) :
    2 ^ n.log2 ≤ nearestNat n ∧ nearestNat n ≤ 2 ^ (n.log2 + 1) := by
  rcases Nat.eq_zero_or_pos (spareBits n) with h | h
  · rw [nearestNat_of_lt (lt_of_spareBits_eq_zero h)]
    exact ⟨Nat.log2_self_le hn, Nat.lt_log2_self.le⟩
  · obtain ⟨hlow, hhigh⟩ := div_spareBits h
    obtain ⟨hdown, hup⟩ := div_le_halfEven n (spareBits n)
    rw [nearestNat, log2_eq_of_lt h, Nat.add_right_comm, Nat.pow_add, Nat.pow_add _ (52 + 1)]
    exact ⟨Nat.mul_le_mul_right _ (by omega), Nat.mul_le_mul_right _ (by omega)⟩

/-- The nearest float keeps the order, across different numbers of spare bits too. -/
theorem nearestNat_le_nearestNat (h : m ≤ n) : nearestNat m ≤ nearestNat n := by
  rcases Nat.eq_zero_or_pos m with rfl | hm
  · exact Nat.zero_le _
  · have hn : 0 < n := Nat.lt_of_lt_of_le hm h
    have hlog : m.log2 ≤ n.log2 := by
      rw [Nat.le_log2 (Nat.ne_of_gt hn)]
      exact (Nat.log2_self_le (Nat.ne_of_gt hm)).trans h
    rcases Nat.lt_or_eq_of_le hlog with hlt | heq
    · calc nearestNat m ≤ 2 ^ (m.log2 + 1) := (pow_le_nearestNat (Nat.ne_of_gt hm)).2
        _ ≤ 2 ^ n.log2 := Nat.pow_le_pow_right (by decide) hlt
        _ ≤ nearestNat n := (pow_le_nearestNat (Nat.ne_of_gt hn)).1
    · have hbits : spareBits m = spareBits n := by rw [spareBits, spareBits, heq]
      rw [nearestNat, nearestNat, hbits]
      exact Nat.mul_le_mul_right _ (halfEven_le_halfEven h _)

/-- A number with more than 53 bits is not rounded below `2 ^ 53`. -/
theorem le_nearestNat (h : 2 ^ 53 ≤ n) : 2 ^ 53 ≤ nearestNat n :=
  calc 2 ^ 53 = nearestNat (2 ^ 53) := by decide
    _ ≤ nearestNat n := nearestNat_le_nearestNat h

/-! ## With signs -/

/-- Rounding is symmetric about zero. -/
theorem nearest_neg (i : Int) : nearest (-i) = -nearest i := by
  rw [nearest, nearest, Int.sign_neg, Int.natAbs_neg, Int.neg_mul]

/-- On natural numbers, both roundings agree. -/
theorem nearest_natCast (n : Nat) : nearest n = nearestNat n := by
  rcases Nat.eq_zero_or_pos n with rfl | hpos
  · rfl
  · rw [nearest, Int.sign_natCast_of_ne_zero (Nat.ne_of_gt hpos), Int.one_mul, Int.natAbs_natCast]

/-- An integer with at most 53 bits is its own nearest float. -/
theorem nearest_of_natAbs_lt {i : Int} (hi : i.natAbs < 2 ^ 53) : nearest i = i := by
  rw [nearest, nearestNat_of_lt hi, Int.sign_mul_natAbs]

/-- The magnitude is rounded alone. -/
theorem natAbs_nearest (i : Int) : (nearest i).natAbs = nearestNat i.natAbs := by
  obtain ⟨n, rfl | rfl⟩ := i.eq_nat_or_neg
  · rw [nearest_natCast, Int.natAbs_natCast, Int.natAbs_natCast]
  · rw [nearest_neg, nearest_natCast, Int.natAbs_neg, Int.natAbs_neg, Int.natAbs_natCast,
      Int.natAbs_natCast]

/-- Rounding keeps the order. -/
theorem nearest_le_nearest {i j : Int} (h : i ≤ j) : nearest i ≤ nearest j := by
  obtain ⟨m, rfl | rfl⟩ := i.eq_nat_or_neg <;> obtain ⟨n, rfl | rfl⟩ := j.eq_nat_or_neg
  · have hle := nearestNat_le_nearestNat (Int.ofNat_le.1 h)
    rw [nearest_natCast, nearest_natCast]
    omega
  · obtain ⟨rfl, rfl⟩ : m = 0 ∧ n = 0 := by omega
    exact Int.le_refl _
  · rw [nearest_neg, nearest_natCast, nearest_natCast]
    omega
  · have hle := nearestNat_le_nearestNat (Int.ofNat_le.1 (Int.neg_le_neg_iff.1 h))
    rw [nearest_neg, nearest_neg, nearest_natCast, nearest_natCast]
    omega

/-- Numbers that do not fall together keep their order. -/
theorem nearest_le_nearest_iff {i j : Int} (h : nearest i = nearest j → i = j) :
    nearest i ≤ nearest j ↔ i ≤ j := by
  refine ⟨fun hle => ?_, nearest_le_nearest⟩
  by_contra hlt
  have hge := nearest_le_nearest (Int.le_of_lt (Int.lt_of_not_ge hlt))
  exact hlt (h (Int.le_antisymm hle hge)).le

/-- A number that is less than `2 ^ 53` is apart from all others. -/
theorem eq_of_nearest_eq {i j : Int} (h : nearest i = nearest j) (hj : j.natAbs < 2 ^ 53) :
    i = j := by
  have hi : i.natAbs < 2 ^ 53 := by
    by_contra hge
    have hlarge := le_nearestNat (Nat.le_of_not_lt hge)
    rw [← natAbs_nearest, h, nearest_of_natAbs_lt hj] at hlarge
    omega
  rwa [nearest_of_natAbs_lt hi, nearest_of_natAbs_lt hj] at h

end Binary64

namespace Unpacked

open Float.Model Float.Model.UnpackedFloat Binary64

/-! ## Numbers that are integers -/

/-- The unpacked number is an integer; zero may have either sign. -/
inductive IsInt : UnpackedFloat → Int → Prop
  | zero (s : Sign) : IsInt (.zero s) 0
  | finite (s : Sign) {m k n : Nat} {hm : 0 < m} : m.log2 = 52 → k ≤ 1023 →
      n * 2 ^ 52 = m * 2 ^ k → IsInt (.finite s m ((k : Int) - 52) hm) (s.apply n)

/-- Natural numbers compare as they do among the integers. -/
theorem compare_natCast (m n : Nat) : compare (m : Int) (n : Int) = compare m n := by
  simp [compare, compareOfLessAndEq]

/-- Negating both turns a comparison around. -/
theorem compare_neg_neg (i j : Int) : compare (-i) (-j) = compare j i := by
  simp [compare, compareOfLessAndEq, eq_comm]

namespace IsInt

variable {u v : UnpackedFloat} {i j : Int}

/-- The negation of an unpacked integer is the unpacked negation. -/
theorem neg (h : IsInt u i) : IsInt u.neg (-i) := by
  cases h with
  | zero s => exact .zero _
  | @finite s m k n hm hlog hk hn =>
    have happly : -(s.apply n) = (-s).apply n := by
      cases s with
      | negative => exact Int.neg_neg _
      | positive => rfl
    rw [happly]
    exact .finite _ hlog hk hn

/-- Integers come back from their words. -/
theorem unpack_pack (h : IsInt u i) :
    UnpackedFloat.unpack .binary64 (UnpackedFloat.pack .binary64 u) = u := by
  cases h with
  | zero s => cases s <;> rfl
  | finite s hlog hk hn => exact unpack_pack_full _ _ hlog (by omega) (by omega)

/-- Integers are ordered as integers. -/
theorem compare (hu : IsInt u i) (hv : IsInt v j) : u.compare v = some (compare i j) := by
  have hpos : ∀ {m k n : Nat}, 0 < m → n * 2 ^ 52 = m * 2 ^ k → 0 < n := by
    intro m k n hm hn
    have hmul := Nat.mul_pos hm (Nat.two_pow_pos k)
    omega
  cases hu with
  | zero s =>
    cases hv with
    | zero t => rfl
    | @finite t m k n hm hlog hk hn =>
      have hnpos := hpos hm hn
      cases t with
      | negative => exact congrArg some (Int.compare_eq_gt.2 (by simpa [Sign.apply])).symm
      | positive => exact congrArg some (Int.compare_eq_lt.2 (by simpa [Sign.apply])).symm
  | @finite s m k n hm hlog hk hn =>
    have hnpos := hpos hm hn
    cases hv with
    | zero t =>
      cases s with
      | negative => exact congrArg some (Int.compare_eq_lt.2 (by simpa [Sign.apply])).symm
      | positive => exact congrArg some (Int.compare_eq_gt.2 (by simpa [Sign.apply])).symm
    | @finite t m' k' n' hm' hlog' hk' hn' =>
      have hnpos' := hpos hm' hn'
      have hcompare : (Ord.compare ((k : Int) - 52) ((k' : Int) - 52)).then (Ord.compare m m') =
          Ord.compare n n' := by
        rw [compare_full hlog hlog', ← hn, ← hn', compare_mul_pow]
      cases s <;> cases t
      · change some (Ordering.swap (Ordering.then _ _)) =
          some (Ord.compare (-(n : Int)) (-(n' : Int)))
        rw [hcompare, Nat.compare_swap, compare_neg_neg, compare_natCast]
      · exact congrArg some (Int.compare_eq_lt.2 (by simp only [Sign.apply]; omega)).symm
      · exact congrArg some (Int.compare_eq_gt.2 (by simp only [Sign.apply]; omega)).symm
      · exact congrArg some (hcompare.trans (compare_natCast n n').symm)

end IsInt

/-! ## Rounding -/

/-- What is shifted out is kept in two bits: whether it is a half or more, and whether it is neither
nothing nor a half. -/
theorem shiftRight_eq (n k : Nat) : (ExtendedMantissa.ofMantissaAndAccuracy n .exact) >>> k =
    ⟨n / 2 ^ k, decide (2 ^ k ≤ 2 * (n % 2 ^ k)),
      decide (n % 2 ^ k ≠ 0 ∧ 2 * (n % 2 ^ k) ≠ 2 ^ k)⟩ := by
  change k.repeat ExtendedMantissa.shiftRightOne ⟨n, false, false⟩ = _
  induction k with
  | zero => simp [Nat.repeat, Nat.mod_one]
  | succ k ih =>
    have hpow : 2 ^ (k + 1) = 2 ^ k * 2 := Nat.pow_succ ..
    have hrest : n % 2 ^ (k + 1) = n % 2 ^ k + 2 ^ k * (n / 2 ^ k % 2) := by
      rw [hpow, Nat.mod_mul]
    have hlt := Nat.mod_lt n (Nat.two_pow_pos k)
    rw [Nat.repeat, ih, hrest, hpow, ← Nat.div_div_eq_div_mul]
    simp only [ExtendedMantissa.shiftRightOne, ExtendedMantissa.mk.injEq, true_and]
    generalize n % 2 ^ k = rest at *
    rcases Nat.mod_two_eq_zero_or_one (n / 2 ^ k) with hlast | hlast <;> rw [hlast]
    · refine ⟨?_, ?_⟩
      · exact (decide_eq_false (by omega)).symm
      · rw [← Bool.decide_or, decide_eq_decide]
        omega
    · refine ⟨?_, ?_⟩
      · exact (decide_eq_true (by omega)).symm
      · rw [← Bool.decide_or, decide_eq_decide]
        omega

/-- Shifting an exact mantissa and rounding it rounds half to even. -/
theorem roundedMantissa_shiftRight (n k : Nat) :
    ((ExtendedMantissa.ofMantissaAndAccuracy n .exact) >>> k).roundedMantissa = halfEven n k := by
  have hlt := Nat.mod_lt n (Nat.two_pow_pos k)
  rw [shiftRight_eq]
  dsimp only [halfEven]
  by_cases hround : 2 ^ k ≤ 2 * (n % 2 ^ k) <;>
    by_cases hsticky : n % 2 ^ k ≠ 0 ∧ 2 * (n % 2 ^ k) ≠ 2 ^ k
  · rw [decide_eq_true hround, decide_eq_true hsticky, if_pos (by omega)]
    rfl
  · rw [decide_eq_true hround, decide_eq_false hsticky]
    change n / 2 ^ k + n / 2 ^ k % 2 = _
    split <;> omega
  · rw [decide_eq_false hround, decide_eq_true hsticky, if_neg (by omega)]
    rfl
  · rw [decide_eq_false hround, decide_eq_false hsticky, if_neg (by omega)]
    rfl

/-- Rounding off `j` bits more of a number with `j` zero bits more is the same. -/
theorem halfEven_mul_pow (n bits j : Nat) :
    halfEven (n * 2 ^ j) (bits + j) = halfEven n bits := by
  have hpow := Nat.two_pow_pos j
  dsimp only [halfEven]
  rw [Nat.pow_add, Nat.mul_div_mul_right _ _ hpow, Nat.mul_mod_mul_right, ← Nat.mul_assoc]
  simp only [Nat.mul_left_inj (Nat.ne_of_gt hpow), Nat.mul_lt_mul_right hpow]

/-- What is rounded to 53 bits has them, or it is the first number that has one more. -/
theorem exists_full {t r : Nat} (hlow : 2 ^ 52 ≤ t) (hhigh : t < 2 ^ 53) (hdown : t ≤ r)
    (hup : r ≤ t + 1) :
    ∃ m j, r = m * 2 ^ j ∧ m.log2 = 52 ∧ (j = 0 ∨ j = 1 ∧ m = 2 ^ 52) := by
  rcases Nat.lt_or_ge r (2 ^ 53) with hlt | hge
  · refine ⟨r, 0, (Nat.mul_one _).symm, ?_, .inl rfl⟩
    exact (Nat.log2_eq_iff (by omega)).2 ⟨by omega, hlt⟩
  · exact ⟨2 ^ 52, 1, by omega, by decide, .inr ⟨rfl, rfl⟩⟩

/-- A full mantissa with zero bits after it is brought to 53 bits exactly. -/
theorem shiftToTargetExponent_full {m : Nat} (hm : m.log2 = 52) (j : Nat) {e : Int}
    (he : -1074 ≤ e + j) :
    shiftToTargetExponent .binary64 (m * 2 ^ j) e .exact = (⟨m, false, false⟩, e + j) := by
  have hpos : 0 < m := Nat.pos_of_ne_zero (by rintro rfl; cases hm)
  have htarget : Format.binary64.targetExponent (totalExponent m (e + j)) = e + j := by
    rw [totalExponent, hm, targetExponent_binary64 (by omega)]
    omega
  rw [shiftToTargetExponent, totalExponent_mul_pow hpos, htarget, shiftToExponent_exact]

/-- A number with more than 53 bits is rounded to the nearest one. -/
theorem isInt_roundWithAccuracy (s : Sign) {n : Nat} (h : 0 < spareBits n)
    (hn : spareBits n ≤ 900) (j : Nat) :
    IsInt (roundWithAccuracy .binary64 s (n * 2 ^ j) (-j) .exact) (s.apply (nearestNat n)) := by
  have hpos : 0 < n := Nat.pos_of_ne_zero (by rintro rfl; exact absurd h (by decide))
  have hfirst : shiftToTargetExponent .binary64 (n * 2 ^ j) (-j) .exact =
      ((ExtendedMantissa.ofMantissaAndAccuracy (n * 2 ^ j) .exact) >>> (spareBits n + j),
        (spareBits n : Int)) := by
    have htarget : Format.binary64.targetExponent (totalExponent (n * 2 ^ j) (-j)) =
        spareBits n := by
      rw [totalExponent_mul_pow hpos, totalExponent, log2_eq_of_lt h,
        targetExponent_binary64 (by omega)]
      omega
    have hshift : ((spareBits n : Int) - -j).toNat = spareBits n + j := by omega
    rw [shiftToTargetExponent, htarget, shiftToExponent, hshift]
    congr 1
    omega
  obtain ⟨hlow, hhigh⟩ := div_spareBits h
  obtain ⟨hdown, hup⟩ := div_le_halfEven n (spareBits n)
  obtain ⟨m, k, hm, hlog, hcarry⟩ := exists_full hlow hhigh hdown hup
  have hne : m ≠ 0 := by rintro rfl; cases hlog
  have hsecond := shiftToTargetExponent_full hlog k (e := spareBits n) (by omega)
  have hround : roundWithAccuracy .binary64 s (n * 2 ^ j) (-j) .exact =
      .finite s m (((spareBits n + k + 52 : Nat) : Int) - 52) (Nat.pos_of_ne_zero hne) := by
    simp only [roundWithAccuracy, hfirst, roundedMantissa_shiftRight, halfEven_mul_pow, hm, hsecond,
      dif_neg hne]
    congr 1
    omega
  rw [hround]
  refine .finite s hlog (by omega) ?_
  rw [nearestNat, hm]
  ring

/-- The float of a whole number below `2 ^ 53` is the number. -/
theorem isInt_ofWhole {n : Nat} (hn : n < 2 ^ 53) : IsInt (ofWhole n) n := by
  rcases Nat.eq_zero_or_pos n with rfl | hpos
  · exact .zero _
  · have hlog := log2_le hpos hn
    rw [ofWhole_of_pos hpos]
    exact .finite .positive (log2_mantissa hpos hn) (by omega) (mantissa_mul_pow hpos hn).symm

end Unpacked

namespace Binary64

open Float.Model Float.Model.UnpackedFloat Unpacked

/-- The floating-point number is an integer. -/
def IsInt (x : Float) (i : Int) : Prop := Unpacked.IsInt x.toModel.unpack i

variable {x y : Float} {i j : Int}

/-- The negation of the float of an integer is the float of its negation. -/
theorem IsInt.neg (h : IsInt x i) : IsInt (-x) (-i) := by
  have hpack : (-x).toModel.unpack =
      UnpackedFloat.unpack .binary64 (UnpackedFloat.pack .binary64 x.toModel.unpack.neg) := rfl
  rw [IsInt, hpack, Unpacked.IsInt.unpack_pack (Unpacked.IsInt.neg h)]
  exact Unpacked.IsInt.neg h

/-- A natural number of 64 bits becomes the nearest number. -/
theorem isInt_ofNat {n : Nat} (hn : n < 2 ^ 64) : IsInt (Float.ofNat n) (nearestNat n) := by
  by_cases hsmall : n < 2 ^ 53
  · rw [IsInt, unpack_ofNat hsmall, nearestNat_of_lt hsmall]
    exact isInt_ofWhole hsmall
  · have hbits : 0 < spareBits n :=
      Nat.pos_of_ne_zero fun h => hsmall (lt_of_spareBits_eq_zero h)
    have hle : spareBits n ≤ 900 := by
      have hlog := (Nat.log2_lt (by omega)).2 hn
      unfold spareBits
      omega
    have hround := isInt_roundWithAccuracy .positive hbits hle 53
    rw [← ofScientific_whole (by omega)] at hround
    have hpack : (Float.ofNat n).toModel.unpack = UnpackedFloat.unpack .binary64
        (UnpackedFloat.pack .binary64 (UnpackedFloat.ofScientific .binary64 n 0)) := by
      rw [ofNat_of_le (Nat.le_of_not_lt hsmall)]
      rfl
    rw [IsInt, hpack, hround.unpack_pack]
    exact hround

/-- An integer of 64 bits becomes the nearest number. -/
theorem isInt_ofInt (hi : i.natAbs < 2 ^ 64) : IsInt (Float.ofInt i) (nearest i) := by
  cases i with
  | ofNat n =>
    rw [Int.ofNat_eq_natCast, nearest_natCast]
    exact isInt_ofNat hi
  | negSucc n =>
    have hneg : Float.ofInt (.negSucc n) = -Float.ofNat (n + 1) := rfl
    have hsucc : Int.negSucc n = -((n + 1 : Nat) : Int) := rfl
    rw [hneg, hsucc, nearest_neg, nearest_natCast]
    exact (isInt_ofNat hi).neg

/-- Floats of integers are ordered as the integers. -/
theorem IsInt.lt_iff (hx : IsInt x i) (hy : IsInt y j) : x < y ↔ i < j := by
  rw [lt_iff_compare, Unpacked.IsInt.compare hx hy, Option.some.injEq, Int.compare_eq_lt]

/-- Floats of integers are weakly ordered as the integers. -/
theorem IsInt.le_iff (hx : IsInt x i) (hy : IsInt y j) : x ≤ y ↔ i ≤ j := by
  have hle : x ≤ y ↔ (x.toModel.unpack.compare y.toModel.unpack).any (·.isLE) = true :=
    decide_eq_true_iff
  rw [hle, Unpacked.IsInt.compare hx hy, Option.any_some, Int.isLE_compare]

/-- Floats of integers are equal as the integers are. -/
theorem IsInt.beq_iff (hx : IsInt x i) (hy : IsInt y j) : (x == y) = true ↔ i = j := by
  have hbeq : (x == y) = (x.toModel.unpack.compare y.toModel.unpack == some .eq) := rfl
  rw [hbeq, Unpacked.IsInt.compare hx hy, beq_iff_eq, Option.some.injEq, Int.compare_eq_eq]

end Binary64

end BlockModels
