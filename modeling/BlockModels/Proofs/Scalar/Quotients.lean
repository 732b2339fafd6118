import BlockModels.Proofs.Scalar.Nearest

/-!
# Parts of a whole

A whole number divided by one that is no less is more than zero and at most one, and that stays so
when both numbers and their quotient are rounded (`Binary64.isPart_div_ofNat`). The numbers keep
their order when they are rounded. The quotient of two mantissas has 53 or 54 bits; if the first of
them is less in its place, what rounding adds reaches one at most, and if the two are the same
nothing is rounded (`Unpacked.isPart_div`).
-/

namespace BlockModels

namespace Unpacked

open Float.Model Float.Model.UnpackedFloat Binary64

/-! ## Numbers up to one -/

/-- The unpacked number is more than zero and at most one. -/
inductive IsPart : UnpackedFloat → Prop
  | below {m : Nat} {e : Int} {hm : 0 < m} : m.log2 = 52 → -1074 ≤ e → e < -52 →
      IsPart (.finite .positive m e hm)
  | one : IsPart (ofWhole 1)

namespace IsPart

variable {u : UnpackedFloat}

/-- A part of a whole survives being packed into a word. -/
theorem unpack_pack (h : IsPart u) :
    UnpackedFloat.unpack .binary64 (UnpackedFloat.pack .binary64 u) = u := by
  cases h with
  | below hlog hlow hhigh => exact unpack_pack_full _ _ hlog hlow (by omega)
  | one => exact unpack_pack_ofWhole (by decide)

/-- A part of a whole is above zero. -/
theorem compare_zero (h : IsPart u) : (ofWhole 0).compare u = some .lt := by
  cases h with
  | below => rfl
  | one => rfl

/-- A part of a whole is at most one. -/
theorem compare_one (h : IsPart u) : (u.compare (ofWhole 1)).any (·.isLE) = true := by
  cases h with
  | @below m e hm hlog hlow hhigh =>
    have hone : ofWhole 1 = .finite .positive (2 ^ 52) (-52) (Nat.two_pow_pos _) := rfl
    rw [hone]
    simp only [UnpackedFloat.compare, Int.compare_eq_lt.2 hhigh]
    rfl
  | one => rfl

/-- What has a full mantissa in a place that is low enough, and what is carried there from the
place below it. -/
theorem of_le {m i : Nat} {e : Int} {hm : 0 < m} (hlog : m.log2 = 52)
    (hcarry : i = 0 ∨ i = 1 ∧ m = 2 ^ 52) (hlow : -1074 ≤ e) (hhigh : e < -52) :
    IsPart (.finite .positive m (e + i) hm) := by
  rcases lt_or_eq_of_le (by omega : e + i ≤ -52) with hlt | heq
  · exact .below hlog (by omega) hlt
  · obtain ⟨rfl, rfl⟩ := hcarry.resolve_left (by omega)
    simp only [heq]
    exact .one

end IsPart

/-! ## Rounding -/

/-- Without the spare bits there are 53 bits. -/
theorem div_spareBits_of_le {n : Nat} (hn : 2 ^ 52 ≤ n) :
    2 ^ 52 ≤ n / 2 ^ spareBits n ∧ n / 2 ^ spareBits n < 2 ^ 53 := by
  rcases Nat.eq_zero_or_pos (spareBits n) with h | h
  · rw [h, Nat.pow_zero, Nat.div_one]
    exact ⟨hn, lt_of_spareBits_eq_zero h⟩
  · exact div_spareBits h

/-- A mantissa with 53 bits or more is rounded to 53 bits, in the place of the first 53 or, if it
is carried over, in the next one. -/
theorem exists_roundWithAccuracy (s : Sign) {n : Nat} (hn : 2 ^ 52 ≤ n) {e : Int} (he : -1074 ≤ e)
    (a : Accuracy) : ∃ (m i : Nat) (hm : 0 < m), m.log2 = 52 ∧ (i = 0 ∨ i = 1 ∧ m = 2 ^ 52) ∧
      roundWithAccuracy .binary64 s n e a = .finite s m (e + spareBits n + i) hm := by
  obtain ⟨hlow, hhigh⟩ := div_spareBits_of_le hn
  have hlog : n.log2 = 52 + spareBits n := by
    have hle : 52 ≤ n.log2 := (Nat.le_log2 (by omega)).2 hn
    unfold spareBits
    omega
  have hfirst : shiftToTargetExponent .binary64 n e a =
      ((ExtendedMantissa.ofMantissaAndAccuracy n a) >>> spareBits n, e + spareBits n) := by
    have htarget : Format.binary64.targetExponent (totalExponent n e) = e + spareBits n := by
      rw [totalExponent, hlog, targetExponent_binary64 (by omega)]
      omega
    have hshift : (e + spareBits n - e).toNat = spareBits n := by omega
    rw [shiftToTargetExponent, htarget, shiftToExponent, hshift]
  obtain ⟨hdown, hup⟩ :=
    roundedMantissa_bounds ((ExtendedMantissa.ofMantissaAndAccuracy n a) >>> spareBits n)
  rw [mantissa_shiftRight, mantissa_ofMantissaAndAccuracy] at hdown hup
  obtain ⟨m, i, hm, hfull, hcarry⟩ := exists_full hlow hhigh hdown hup
  have hne : m ≠ 0 := by rintro rfl; cases hfull
  have hsecond := shiftToTargetExponent_full hfull i (e := e + spareBits n) (by omega)
  refine ⟨m, i, Nat.pos_of_ne_zero hne, hfull, hcarry, ?_⟩
  simp only [roundWithAccuracy, hfirst, hm, hsecond, dif_neg hne]

/-! ## Dividing -/

/-- Full mantissas are divided with 53 bits more, and the remainder counts for the rounding. -/
theorem div_full (s s' : Sign) {m n : Nat} {d e : Int} (hm : 0 < m) (hn : 0 < n)
    (hm' : m.log2 = 52) (hn' : n.log2 = 52) (hlow : -900 ≤ d - e) :
    UnpackedFloat.div .binary64 (.finite s m d hm) (.finite s' n e hn) =
      roundWithAccuracy .binary64 (s / s') (m * 2 ^ 53 / n) (d - e - 53)
        (accuracyOfFraction (m * 2 ^ 53 % n) n) := by
  have htarget : min (d - e)
      (Format.binary64.targetExponent (totalExponent m d - totalExponent n e)) = d - e - 53 := by
    rw [totalExponent, totalExponent, hm', hn', targetExponent_binary64 (by omega)]
    omega
  have hshift : (d - e - (d - e - 53)).toNat = 53 := by omega
  simp only [UnpackedFloat.div, divCore, htarget, hshift, Nat.shiftLeft_eq]

/-- A number divided by one that is no less. -/
theorem isPart_div {m n : Nat} {d e : Int} (hm : 0 < m) (hn : 0 < n) (hm' : m.log2 = 52)
    (hn' : n.log2 = 52) (hlow : -900 ≤ d - e) (hle : d < e ∨ d = e ∧ m ≤ n) :
    IsPart (UnpackedFloat.div .binary64 (.finite .positive m d hm) (.finite .positive n e hn)) := by
  obtain ⟨hmlow, hmhigh⟩ := bounds_of_log2 hm'
  obtain ⟨hnlow, hnhigh⟩ := bounds_of_log2 hn'
  rw [div_full _ _ hm hn hm' hn' hlow]
  by_cases hsame : d = e ∧ m = n
  · obtain ⟨rfl, rfl⟩ := hsame
    have hexact : accuracyOfFraction 0 m = .exact := if_pos rfl
    have hpow : (2 : Nat) ^ 53 = 2 ^ 52 * 2 ^ 1 := Nat.pow_succ ..
    have hround := roundWithAccuracy_exact .binary64 (.positive / .positive) (m := 2 ^ 52)
      (Nat.two_pow_pos _) 1 (-53) rfl
    rw [Nat.mul_div_cancel_left _ hm, Nat.mul_mod_right, hexact, hpow, sub_self, zero_sub, hround]
    exact .one
  · -- The quotient has 54 bits at most, and 53 if the two numbers are in the same place.
    have hq : 2 ^ 52 ≤ m * 2 ^ 53 / n := by
      rw [Nat.le_div_iff_mul_le hn]
      omega
    have hspare : d - e - 53 + spareBits (m * 2 ^ 53 / n) < -52 := by
      rcases hle with hlt | ⟨rfl, hmn⟩
      · have hhigh : m * 2 ^ 53 / n < 2 ^ 54 := by
          rw [Nat.div_lt_iff_lt_mul hn]
          omega
        have hlog := (Nat.log2_lt (by omega)).2 hhigh
        unfold spareBits
        omega
      · have hhigh : m * 2 ^ 53 / n < 2 ^ 53 := by
          rw [Nat.div_lt_iff_lt_mul hn]
          omega
        rw [spareBits_eq_zero hhigh]
        omega
    obtain ⟨k, i, hk, hlog, hcarry, hround⟩ := exists_roundWithAccuracy (.positive / .positive) hq
      (e := d - e - 53) (by omega) (accuracyOfFraction (m * 2 ^ 53 % n) n)
    rw [hround]
    exact .of_le hlog hcarry (by omega) hspare

/-! ## Whole numbers -/

/-- A positive integer has a full mantissa. -/
theorem IsInt.exists_full {u : UnpackedFloat} {n : Nat} (h : IsInt u n) (hn : 0 < n) :
    ∃ (m k : Nat) (hm : 0 < m), u = .finite .positive m ((k : Int) - 52) hm ∧ m.log2 = 52 ∧
      n * 2 ^ 52 = m * 2 ^ k := by
  generalize hi : (n : Int) = i at h
  cases h with
  | zero s => omega
  | @finite s m k n' hm hlog hk hvalue =>
    cases s with
    | negative =>
      have hneg : (n : Int) = -n' := hi
      omega
    | positive =>
      obtain rfl : n = n' := Int.ofNat_inj.1 hi
      exact ⟨m, k, hm, rfl, hlog, hvalue⟩

/-- Of two full mantissas in their places the lesser one is in a lower place, or it is the lesser
mantissa. -/
theorem lt_or_le_of_mul_pow_le {m n k l : Nat} (hm : m.log2 = 52) (hn : n.log2 = 52)
    (h : m * 2 ^ k ≤ n * 2 ^ l) : k < l ∨ k = l ∧ m ≤ n := by
  have hle := Nat.isLE_compare.2 h
  rw [← compare_full hm hn, Ordering.isLE_then_iff_or, Int.compare_eq_lt, Int.compare_eq_eq,
    Nat.isLE_compare] at hle
  omega

end Unpacked

namespace Binary64

open Float.Model Float.Model.UnpackedFloat Unpacked

/-- The floating-point number is more than zero and at most one. -/
def IsPart (x : Float) : Prop := Unpacked.IsPart x.toModel.unpack

/-- A float that is a part of a whole is positive. -/
theorem IsPart.pos {x : Float} (h : IsPart x) : 0 < x := by
  have hzero : (0 : Float).toModel.unpack = ofWhole 0 := unpack_ofNat (by decide)
  rw [lt_iff_compare, hzero]
  exact h.compare_zero

/-- A float that is a part of a whole is at most one. -/
theorem IsPart.le_one {x : Float} (h : IsPart x) : x ≤ 1 := by
  have hone : (1 : Float).toModel.unpack = ofWhole 1 := unpack_ofNat (by decide)
  have hle : x ≤ 1 ↔ (x.toModel.unpack.compare (1 : Float).toModel.unpack).any (·.isLE) = true :=
    decide_eq_true_iff
  rw [hle, hone]
  exact h.compare_one

/-- No number of 64 bits is rounded above `2 ^ 64`. -/
theorem nearestNat_le {n : Nat} (hpos : 0 < n) (hn : n < 2 ^ 64) : nearestNat n ≤ 2 ^ 64 :=
  calc nearestNat n ≤ 2 ^ (n.log2 + 1) := (pow_le_nearestNat (Nat.ne_of_gt hpos)).2
    _ ≤ 2 ^ 64 := Nat.pow_le_pow_right (by decide) ((Nat.log2_lt (Nat.ne_of_gt hpos)).2 hn)

/-- A whole number of 64 bits divided by one that is no less. -/
theorem isPart_div_ofNat {m n : Nat} (hm : 0 < m) (hle : m ≤ n) (hn : n < 2 ^ 64) :
    IsPart (Float.ofNat m / Float.ofNat n) := by
  have hrounded : nearestNat m ≤ nearestNat n := nearestNat_le_nearestNat hle
  have hpos : 0 < nearestNat m :=
    (Nat.two_pow_pos _).trans_le (pow_le_nearestNat (Nat.ne_of_gt hm)).1
  obtain ⟨a, k, ha, hunpack, hlog, hvalue⟩ :=
    Unpacked.IsInt.exists_full (isInt_ofNat (by omega : m < 2 ^ 64)) hpos
  obtain ⟨b, l, hb, hunpack', hlog', hvalue'⟩ :=
    Unpacked.IsInt.exists_full (isInt_ofNat hn) (by omega)
  have hl : l ≤ 64 := by
    have hpow : 2 ^ 52 * 2 ^ l ≤ 2 ^ 52 * 2 ^ 64 := by
      calc 2 ^ 52 * 2 ^ l ≤ b * 2 ^ l := Nat.mul_le_mul_right _ (bounds_of_log2 hlog').1
        _ = nearestNat n * 2 ^ 52 := hvalue'.symm
        _ ≤ 2 ^ 64 * 2 ^ 52 := Nat.mul_le_mul_right _ (nearestNat_le (by omega) hn)
        _ = 2 ^ 52 * 2 ^ 64 := Nat.mul_comm ..
    exact (Nat.pow_le_pow_iff_right (by decide)).1
      (Nat.le_of_mul_le_mul_left hpow (Nat.two_pow_pos 52))
  have hplaces : k < l ∨ k = l ∧ a ≤ b := by
    refine lt_or_le_of_mul_pow_le hlog hlog' ?_
    rw [← hvalue, ← hvalue']
    exact Nat.mul_le_mul_right _ hrounded
  have hpart := isPart_div (d := (k : Int) - 52) (e := (l : Int) - 52) ha hb hlog hlog'
    (by omega) (by omega)
  have hpack : (Float.ofNat m / Float.ofNat n).toModel.unpack = UnpackedFloat.unpack .binary64
      (UnpackedFloat.pack .binary64 (UnpackedFloat.div .binary64 (Float.ofNat m).toModel.unpack
        (Float.ofNat n).toModel.unpack)) := rfl
  rw [IsPart, hpack, hunpack, hunpack', hpart.unpack_pack]
  exact hpart

end Binary64

end BlockModels
