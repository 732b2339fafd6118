import BlockModels.Proofs.Scalar.Floating

/-!
# Results that are finite

A number becomes infinite when it is packed, if its exponent does not fit. Rounding adds little to
the exponent (`fits_roundWithAccuracy`), so whatever comes of mantissas and exponents of moderate
size is finite: whole numbers of 64 bits (`isFinite_ofInt`), and quotients of whole numbers
(`isFinite_div_ofNat`). What is finite becomes zero when it is multiplied by zero
(`mul_zero_of_isFinite`).
-/

namespace BlockModels

namespace Unpacked

open Float.Model Float.Model.UnpackedFloat

/-! ## Rounding -/

/-- A shift divides the mantissa. -/
theorem mantissa_shiftRight (em : ExtendedMantissa) (k : Nat) :
    (em >>> k).mantissa = em.mantissa / 2 ^ k := by
  change (k.repeat ExtendedMantissa.shiftRightOne em).mantissa = _
  induction k with
  | zero => exact (Nat.div_one _).symm
  | succ k ih =>
    rw [Nat.pow_succ, ← Nat.div_div_eq_div_mul, ← ih]
    rfl

/-- Rounding adds one or nothing. -/
theorem roundedMantissa_bounds (em : ExtendedMantissa) :
    em.mantissa ≤ em.roundedMantissa ∧ em.roundedMantissa ≤ em.mantissa + 1 := by
  obtain ⟨m, round, sticky⟩ := em
  cases round <;> cases sticky <;>
    simp only [ExtendedMantissa.roundedMantissa, ExtendedMantissa.accuracy,
      Accuracy.roundToNearestEven] <;> omega

/-- An extended mantissa has the mantissa that it is made of. -/
theorem mantissa_ofMantissaAndAccuracy (m : Nat) (a : Accuracy) :
    (ExtendedMantissa.ofMantissaAndAccuracy m a).mantissa = m := by
  cases a with
  | exact => rfl
  | inexact o => cases o <;> rfl

/-- The exponent that a mantissa is shifted to. -/
theorem exponent_shiftToTargetExponent (m : Nat) (e : Int) (a : Accuracy) :
    (shiftToTargetExponent .binary64 m e a).2 = max e (max (m.log2 + e - 52) (-1074)) := by
  have hbits : (Format.binary64.mantissaBits : Int) = 53 := rfl
  have hmin : Format.binary64.minExponent = -1074 := rfl
  simp only [shiftToTargetExponent, shiftToExponent, Format.targetExponent, totalExponent, hbits,
    hmin]
  omega

/-- Bringing a mantissa to an exponent does not make it greater. -/
theorem mantissa_shiftToTargetExponent_le (m : Nat) (e : Int) (a : Accuracy) :
    (shiftToTargetExponent .binary64 m e a).1.mantissa ≤ m := by
  refine (mantissa_shiftRight _ _).trans_le ?_
  rw [mantissa_ofMantissaAndAccuracy]
  exact Nat.div_le_self _ _

/-- The number fits after it was packed. -/
def Fits : UnpackedFloat → Prop
  | .notANumber => False
  | .infinity _ => False
  | .zero _ => True
  | .finite _ _ e _ => e ≤ 971

/-- Numbers of moderate size are rounded to numbers that fit. -/
theorem fits_roundWithAccuracy (s : Sign) {m : Nat} {e : Int} (a : Accuracy) (hm : m < 2 ^ 200)
    (he : e ≤ 100) : Fits (roundWithAccuracy .binary64 s m e a) := by
  have hlog : ∀ {k : Nat}, k ≤ m + 1 → k.log2 ≤ 200 := fun {k} hk => by
    rcases Nat.eq_zero_or_pos k with rfl | hpos
    · exact Nat.zero_le _
    · refine Nat.le_of_lt_succ ((Nat.log2_lt (Nat.ne_of_gt hpos)).2 ?_)
      have hpow : (2 : Nat) ^ 201 = 2 * 2 ^ 200 := Nat.pow_succ'
      omega
  have hfirst := exponent_shiftToTargetExponent m e a
  have hmantissa := mantissa_shiftToTargetExponent_le m e a
  unfold roundWithAccuracy
  generalize shiftToTargetExponent .binary64 m e a = first at hfirst hmantissa
  have hrounded := (roundedMantissa_bounds first.1).2
  have hsecond := exponent_shiftToTargetExponent first.1.roundedMantissa first.2 .exact
  have hlog₁ := hlog (Nat.le_succ m)
  have hlog₂ := hlog (Nat.le_trans hrounded (Nat.succ_le_succ hmantissa))
  dsimp only
  split
  · trivial
  · change (shiftToTargetExponent .binary64 first.1.roundedMantissa first.2 .exact).2 ≤ 971
    omega

/-- A whole number fits. -/
theorem fits_ofWhole {n : Nat} (hn : n < 2 ^ 53) : Fits (ofWhole n) := by
  rcases Nat.eq_zero_or_pos n with rfl | hpos
  · trivial
  · have hlog := log2_le hpos hn
    rw [ofWhole_of_pos hpos]
    change (n.log2 : Int) - 52 ≤ 971
    omega

/-- A whole number is rounded behind enough zeros. -/
theorem ofScientific_whole {n : Nat} (hn : 0 < n) : UnpackedFloat.ofScientific .binary64 n 0 =
    roundWithAccuracy .binary64 .positive (n * 2 ^ 53) (-(53 : Nat)) .exact := by
  have hpow : (2 : Int) ^ Format.binary64.exponentBits = 2048 := rfl
  rw [UnpackedFloat.ofScientific, dif_neg (Nat.ne_of_gt hn), if_neg (by omega), if_neg (by omega),
    if_pos le_rfl, ← Nat.shiftLeft_eq, ← Nat.mul_one (n <<< 53)]
  rfl

/-- A whole number that is rounded fits. -/
theorem fits_ofScientific {n : Nat} (hn : n < 2 ^ 65) :
    Fits (UnpackedFloat.ofScientific .binary64 n 0) := by
  rcases Nat.eq_zero_or_pos n with rfl | hpos
  · trivial
  · rw [ofScientific_whole hpos]
    exact fits_roundWithAccuracy _ _ (by omega) (by omega)

/-- A quotient of numbers with all bits of their mantissas fits, if its exponent is not too large.
-/
theorem fits_div {s s' : Sign} {m n : Nat} {d e : Int} (hm : 0 < m) (hn : 0 < n)
    (hm' : m.log2 = 52) (hn' : n.log2 = 52) (hle : d - e ≤ 100) :
    Fits (UnpackedFloat.div .binary64 (.finite s m d hm) (.finite s' n e hn)) := by
  have hbits : (Format.binary64.mantissaBits : Int) = 53 := rfl
  have hmin : Format.binary64.minExponent = -1074 := rfl
  generalize htarget : min (d - e)
    (Format.binary64.targetExponent (totalExponent m d - totalExponent n e)) = t
  have hshift : (d - e - t).toNat ≤ 53 ∧ t ≤ 100 := by
    simp only [Format.targetExponent, totalExponent, hbits, hmin, hm', hn'] at htarget
    omega
  have hmantissa : m < 2 ^ 53 := (Nat.log2_lt (Nat.ne_of_gt hm)).1 (by omega)
  have hlt : m <<< (d - e - t).toNat / n < 2 ^ 200 := by
    refine Nat.lt_of_le_of_lt (Nat.div_le_self _ _) ?_
    rw [Nat.shiftLeft_eq]
    have hpow := Nat.pow_le_pow_right (by decide : 0 < 2) hshift.1
    calc m * 2 ^ (d - e - t).toNat ≤ 2 ^ 53 * 2 ^ 53 := Nat.mul_le_mul hmantissa.le hpow
      _ < 2 ^ 200 := by decide
  subst htarget
  exact fits_roundWithAccuracy _ _ hlt hshift.2

/-- A quotient of whole numbers fits. -/
theorem fits_div_ofWhole {m n : Nat} (hm : m < 2 ^ 53) (hpos : 0 < n) (hn : n < 2 ^ 53) :
    Fits (UnpackedFloat.div .binary64 (ofWhole m) (ofWhole n)) := by
  rw [ofWhole_of_pos hpos]
  rcases Nat.eq_zero_or_pos m with rfl | hmpos
  · trivial
  · have hlog := log2_le hmpos hm
    rw [ofWhole_of_pos hmpos]
    exact fits_div _ _ (log2_mantissa hmpos hm) (log2_mantissa hpos hn) (by omega)

/-! ## Packing -/

/-- What fits into a word comes back finite. -/
theorem isFinite_unpack_pack {u : UnpackedFloat} (h : Fits u) :
    (UnpackedFloat.unpack .binary64 (UnpackedFloat.pack .binary64 u)).isFinite = true := by
  have hfields : ∀ (s : Sign) (b : BitVec 11) (c : BitVec 52), b ≠ -1#_ →
      (UnpackedFloat.unpack .binary64 (packComponents .binary64 s b c)).isFinite = true := by
    intro s b c hb
    simp only [UnpackedFloat.unpack, unpackExponent_packComponents, if_neg hb]
    split
    · split <;> rfl
    · rfl
  cases u with
  | notANumber => cases h
  | infinity s => cases h
  | zero s => exact hfields s 0 0 (by decide)
  | finite s m e hm =>
    have hbias : (Format.binary64.exponentBias : Int) = 1023 := rfl
    have he : e ≤ 971 := h
    simp only [UnpackedFloat.pack, hbias]
    split
    · next hinfinite =>
      exfalso
      omega
    · next hfinite =>
      split
      · refine hfields s _ _ fun hones => ?_
        have hnat := congrArg BitVec.toNat hones
        have hall : (-1#11).toNat = 2 ^ 11 - 1 := rfl
        rw [hall, BitVec.toNat_ofNat] at hnat
        omega
      · exact hfields s _ _ (by decide)

/-- What was unpacked fits. -/
theorem fits_unpack {b : BitVec Format.binary64.numBits}
    (h : (UnpackedFloat.unpack .binary64 b).isFinite = true) :
    Fits (UnpackedFloat.unpack .binary64 b) := by
  have hfields := toBinary64_unpack b
  cases hunpack : UnpackedFloat.unpack .binary64 b with
  | notANumber => simp [hunpack, UnpackedFloat.isFinite] at h
  | infinity s => simp [hunpack, UnpackedFloat.isFinite] at h
  | zero s => trivial
  | finite s m e hm =>
    rw [hunpack] at hfields
    change e ≤ 971
    split at hfields
    · split at hfields <;> cases hfields
    · split at hfields <;>
      · simp only [toBinary64, Binary64.finite.injEq, Int.ofNat_eq_natCast] at hfields
        omega

end Unpacked

namespace Binary64

open Float.Model Float.Model.UnpackedFloat Unpacked

/-- The negation of a finite number is finite. -/
theorem isFinite_neg {x : Float} (h : Scalar.isFinite x = true) : Scalar.isFinite (-x) = true := by
  have hfits := fits_unpack (b := x.toModel.toBits.toBitVec) h
  have hneg : ∀ {u : UnpackedFloat}, Fits u → Fits u.neg := fun {u} hu => by
    cases u <;> exact hu
  exact isFinite_unpack_pack (hneg hfits)

/-- A number of more than 53 bits is rounded when it is made. -/
theorem ofNat_of_le {n : Nat} (hn : 2 ^ 53 ≤ n) :
    Float.ofNat n = Float.ofModel (Float.Model.ofScientific n 0) := by
  change Float.ofScientific n false 0 = _
  rw [Float.ofScientific, dif_neg fun h => Nat.not_lt.2 hn h.1]
  rfl

/-- A natural number of at most 65 bits is finite. -/
theorem isFinite_ofNat {n : Nat} (hn : n < 2 ^ 65) : Scalar.isFinite (Float.ofNat n) = true := by
  by_cases hsmall : n < 2 ^ 53
  · change (Float.ofNat n).toModel.unpack.isFinite = true
    rw [unpack_ofNat hsmall, ← unpack_pack_ofWhole hsmall]
    exact isFinite_unpack_pack (fits_ofWhole hsmall)
  · rw [ofNat_of_le (Nat.le_of_not_lt hsmall)]
    exact isFinite_unpack_pack (fits_ofScientific hn)

/-- Whole numbers of 64 bits are finite, with and without sign. -/
theorem isFinite_ofInt {i : Int} (hi : i.natAbs < 2 ^ 65) :
    Scalar.isFinite (Float.ofInt i) = true := by
  cases i with
  | ofNat n => exact isFinite_ofNat hi
  | negSucc n => exact isFinite_neg (isFinite_ofNat hi)

/-- A fraction of natural numbers is finite. -/
theorem isFinite_div_ofNat {m n : Nat} (hm : m < 2 ^ 53) (hpos : 0 < n) (hn : n < 2 ^ 53) :
    Scalar.isFinite (Float.ofNat m / Float.ofNat n) = true := by
  have hfits := fits_div_ofWhole hm hpos hn
  rw [← unpack_ofNat hm, ← unpack_ofNat hn] at hfits
  exact isFinite_unpack_pack hfits

/-! ## Products with zero -/

/-- A product with zero, by the unpacked form. -/
theorem mul_zero_eq {x : Float} {v : UnpackedFloat} (h : x.toModel.unpack = v) :
    x * 0 = Float.ofModel (.pack (UnpackedFloat.mul .binary64 v (.zero .positive))) := by
  rw [← h]
  rfl

/-- A finite number times zero is zero, with one sign or the other. -/
theorem mul_zero_of_isFinite {x : Float} (h : Scalar.isFinite x = true) :
    x * 0 = 0 ∨ x * 0 = -0 := by
  have hfinite : x.toModel.unpack.isFinite = true := h
  cases hx : x.toModel.unpack with
  | notANumber =>
    rw [hx] at hfinite
    cases hfinite
  | infinity s =>
    rw [hx] at hfinite
    cases hfinite
  | zero s =>
    rw [mul_zero_eq hx]
    cases s with
    | negative => exact .inr rfl
    | positive => exact .inl rfl
  | finite s m e hm =>
    rw [mul_zero_eq hx]
    cases s with
    | negative => exact .inr rfl
    | positive => exact .inl rfl

/-- A natural number times zero is zero. -/
theorem ofNat_mul_zero {n : Nat} (hn : n < 2 ^ 53) : Float.ofNat n * 0 = 0 := by
  rw [mul_zero_eq (unpack_ofNat hn)]
  rcases Nat.eq_zero_or_pos n with rfl | hpos
  · rfl
  · rw [ofWhole_of_pos hpos]
    rfl

end Binary64

end BlockModels
