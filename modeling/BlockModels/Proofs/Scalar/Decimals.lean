import BlockModels.Proofs.Decimal.Layout
import BlockModels.Proofs.Scalar.Finite
import BlockModels.Proofs.Scalar.Written

/-!
# Floating-point numbers in texts

A finite floating-point number is told apart by its text (the instance of `WrittenScalar` at the
end): the text tells the sign and the shortest decimal, the decimal lies in the interval of one
number only, and sign, mantissa and exponent make up the word of the number.
-/

namespace BlockModels

namespace Binary64

open Decimal Float.Model Float.Model.UnpackedFloat

/-! ## Fields -/

theorem toBits_injective {x y : Float} (h : x.toBits = y.toBits) : x = y := by
  obtain ⟨⟨bits, valid⟩⟩ := x
  obtain ⟨⟨bits', valid'⟩⟩ := y
  obtain rfl : bits = bits' := h
  rfl

theorem isFinite_iff {x : Float} :
    Scalar.isFinite x = true ↔ ∃ negative m q, ofFloat x = .finite negative m q := by
  have hunpack : Scalar.isFinite x = x.toModel.unpack.isFinite := rfl
  rw [hunpack, Unpacked.ofFloat_eq]
  cases x.toModel.unpack <;> simp [Unpacked.toBinary64, UnpackedFloat.isFinite]

variable {x y : Float} {negative : Bool} {m : Nat} {q : Int}

/-- The word of a finite number. A mantissa with its leading bit counts for one exponent more. -/
theorem toNat_toBits_eq (h : ofFloat x = .finite negative m q) :
    x.toBits.toNat = (if negative then 2 ^ 63 else 0) +
      (if 2 ^ 52 ≤ m then (q + 1074).toNat * 2 ^ 52 + m else m) := by
  have hlt := x.toBits.toNat_lt
  unfold ofFloat exponentCount hiddenBit at h
  generalize x.toBits.toNat = bits at h hlt
  have hsign : bits = (if decide (2048 * 4503599627370496 ≤ bits) = true then 2 ^ 63 else 0) +
      bits % 2 ^ 63 := by
    by_cases hs : 2048 * 4503599627370496 ≤ bits
    · rw [if_pos (decide_eq_true hs)]
      omega
    · rw [if_neg (fun hdec => hs (of_decide_eq_true hdec))]
      omega
  dsimp only at h
  split at h
  · split at h <;> cases h
  · split at h
    · cases h
      have hlow : ¬2 ^ 52 ≤ bits % 4503599627370496 := by omega
      rw [if_neg hlow]
      omega
    · cases h
      have hhigh : 2 ^ 52 ≤ 4503599627370496 + bits % 4503599627370496 := by omega
      rw [if_pos hhigh, Int.ofNat_eq_natCast]
      omega

/-- A number is made up of the fields of its word. -/
theorem eq_of_ofFloat (hx : ofFloat x = .finite negative m q)
    (hy : ofFloat y = .finite negative m q) : x = y :=
  toBits_injective (UInt64.toNat_inj.1 ((toNat_toBits_eq hx).trans (toNat_toBits_eq hy).symm))

/-- The mantissa and the exponent of a finite number. -/
theorem mantissa_of_ofFloat (h : ofFloat x = .finite negative m q) :
    m < 2 ^ 53 ∧ -1074 ≤ q ∧ (2 ^ 52 ≤ m ∨ q = -1074) := by
  unfold ofFloat exponentCount hiddenBit at h
  dsimp only at h
  split at h
  · split at h <;> cases h
  · split at h
    · cases h
      exact ⟨by omega, le_rfl, .inr rfl⟩
    · cases h
      rw [Int.ofNat_eq_natCast]
      omega

theorem isPositive_of_ofFloat (h : ofFloat x = .finite negative m q) (hm : m ≠ 0) :
    IsPositive m q := by
  obtain ⟨hlt, hleast, hfull⟩ := mantissa_of_ofFloat h
  exact ⟨Nat.pos_of_ne_zero hm, hlt, hleast, hfull⟩

/-! ## Texts -/

/-- The decimal of a number tells the number. -/
theorem fields_eq_of_writtenDigits {negative' : Bool} {m' : Nat} {q' : Int}
    (hx : ofFloat x = .finite negative m q) (hy : ofFloat y = .finite negative' m' q')
    (h : (writtenDigits m q).toRat = (writtenDigits m' q').toRat) : m = m' ∧ q = q' := by
  have hzero : (Digits.mk 0 0).toRat = 0 := by simp [Digits.toRat]
  have hne : ∀ {m : Nat} {q : Int}, IsPositive m q → (shortest m q).toRat ≠ 0 := fun hpos =>
    mul_ne_zero (Nat.cast_ne_zero.2 (holds_shortest hpos).1) (ten_zpow_pos _).ne'
  unfold writtenDigits at h
  split at h <;> split at h
  · next hm hm' =>
    have := (mantissa_of_ofFloat hx).2.2
    have := (mantissa_of_ofFloat hy).2.2
    omega
  · next hm' => exact absurd (h.symm.trans hzero) (hne (isPositive_of_ofFloat hy hm'))
  · next hm _ => exact absurd (h.trans hzero) (hne (isPositive_of_ofFloat hx hm))
  · next hm hm' =>
    exact eq_of_shortest (isPositive_of_ofFloat hx hm) (isPositive_of_ofFloat hy hm') h

theorem write_of_not_isFinite (h : Scalar.isFinite x = false) : Layout.json.write x = "null" := by
  unfold Layout.write
  split
  · rfl
  · split <;> rfl
  · next hx =>
    rw [isFinite_iff.2 ⟨_, _, _, hx⟩] at h
    cases h

/-- Finite numbers are written in different ways. -/
theorem eq_of_write (hx : Scalar.isFinite x = true)
    (h : Layout.json.write x = Layout.json.write y) : x = y := by
  obtain ⟨negative, m, q, hx⟩ := isFinite_iff.1 hx
  have hsplit := splitSign_write .json hx
  have hreads := reads_magnitude .json (writtenDigits m q)
  cases hy : Scalar.isFinite y with
  | false =>
    -- The word for what is not finite is read as nothing.
    rw [h, write_of_not_isFinite hy] at hsplit
    obtain ⟨rfl, hnull⟩ := Prod.mk.inj hsplit
    rw [← hnull] at hreads
    obtain ⟨d, hd, -⟩ := hreads
    cases hd
  | true =>
    obtain ⟨negative', m', q', hy⟩ := isFinite_iff.1 hy
    rw [h, splitSign_write .json hy] at hsplit
    obtain ⟨rfl, hbody⟩ := Prod.mk.inj hsplit
    obtain ⟨d, hd, hvalue⟩ := hreads
    obtain ⟨d', hd', hvalue'⟩ := reads_magnitude .json (writtenDigits m' q')
    rw [← hbody, hd', Option.some.injEq] at hd
    subst hd
    obtain ⟨rfl, rfl⟩ := fields_eq_of_writtenDigits hx hy (hvalue.symm.trans hvalue')
    exact eq_of_ofFloat hx hy

theorem endsValue_of_isNumeric {ch : Char} (h : isNumeric ch = true) : endsValue ch = false := by
  simp only [isNumeric, Bool.or_eq_true, beq_iff_eq] at h
  rcases h with (((h | rfl) | rfl) | rfl) | rfl
  · exact endsValue_of_isDigit h
  all_goals rfl

end Binary64

/-- A floating-point number is written as its shortest decimal. -/
instance : WrittenScalar Float where
  eq_of_json := Binary64.eq_of_write
  endsValue_eq_false {x ch} h := by
    cases hx : Scalar.isFinite x with
    | true =>
      obtain ⟨negative, m, q, hx⟩ := Binary64.isFinite_iff.1 hx
      exact Binary64.endsValue_of_isNumeric (Decimal.isNumeric_write .json hx ch h)
    | false =>
      have hnull : (Scalar.json x).toList = ['n', 'u', 'l', 'l'] :=
        congrArg String.toList (Binary64.write_of_not_isFinite hx)
      rw [hnull] at h
      simp only [List.mem_cons, List.not_mem_nil, or_false] at h
      rcases h with rfl | rfl | rfl | rfl <;> rfl
  isFinite_channel {n} hn := Binary64.isFinite_div_ofNat (by omega) (by decide) (by decide)
  isFinite_one := Binary64.isFinite_ofNat (by decide)

end BlockModels
