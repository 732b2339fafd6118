import BlockModels.Proofs.Scalar.Unpacked
import BlockModels.Proofs.Scalar.Whole

/-!
# Whole numbers in floating point

Floating-point numbers count pixels exactly (the instance of `WholeScalar` at the end). Natural
numbers survive being packed into words (`unpack_pack_ofWhole`), and the fields that
`Binary64.ofFloat` cuts out of a word are those of its unpacked form (`ofFloat_eq`). So rounding to
an integer can be followed on unpacked numbers: a number stays as it is if nothing is cut off, and
is replaced by a natural number with a sign otherwise (`roundWith_cases`).
-/

namespace BlockModels

namespace Unpacked

open Float.Model Float.Model.UnpackedFloat

/-! ## Words -/

/-- The sign of a word is the one it was put together with. -/
theorem unpackSign_packComponents (spec : Format) (s : Sign) (e : BitVec spec.exponentBits)
    (m : BitVec spec.mantissaBitsWithoutImplicit) :
    Sign.ofBitVec (unpackSign (packComponents spec s e m)) = s := by
  have hbit : unpackSign (packComponents spec s e m) = s.toBitVec := by
    ext i hi
    obtain rfl : i = 0 := by omega
    simp [unpackSign, packComponents, BitVec.getLsbD_append, BitVec.getElem_append]
  rw [hbit]
  cases s <;> rfl

/-- A mantissa with the leading one that words leave out. -/
theorem toNat_one_append {k : Nat} (m : BitVec k) : (1#1 ++ m).toNat = 2 ^ k + m.toNat := by
  have hor := Nat.two_pow_add_eq_or_of_lt m.isLt 1
  rw [BitVec.toNat_append, Nat.shiftLeft_eq, Nat.mul_comm]
  simpa using hor.symm

/-- An exponent that is a field of a word is no exponent of zero, and none of what is not finite. -/
theorem ofNat_exponent {b : Nat} (hpos : 0 < b) (hb : b < 2047) :
    (BitVec.ofNat 11 b).toNat = b ∧ BitVec.ofNat 11 b ≠ -1#_ ∧ BitVec.ofNat 11 b ≠ 0#_ := by
  have hnat : (BitVec.ofNat 11 b).toNat = b := by
    rw [BitVec.toNat_ofNat, Nat.mod_eq_of_lt (by omega)]
  have hones : (-1#11).toNat = 2047 := rfl
  have hzero : (0#11).toNat = 0 := rfl
  refine ⟨hnat, fun h => ?_, fun h => ?_⟩
  · have := congrArg BitVec.toNat h
    omega
  · have := congrArg BitVec.toNat h
    omega

/-- A number with all bits of its mantissa comes back from its word. -/
theorem unpack_pack_full (s : Sign) {m : Nat} {e : Int} (hm : 0 < m) (hlog : m.log2 = 52)
    (hlow : -1074 ≤ e) (hhigh : e ≤ 971) :
    UnpackedFloat.unpack .binary64 (UnpackedFloat.pack .binary64 (.finite s m e hm)) =
      .finite s m e hm := by
  obtain ⟨hm52, hm53⟩ := bounds_of_log2 hlog
  obtain ⟨b, rfl⟩ : ∃ b : Nat, e = b - 1075 := ⟨(e + 1075).toNat, by omega⟩
  have hbias : ((b : Int) - 1075 + (1023 : Nat) + (52 : Nat)).toNat = b := by omega
  have hpack : UnpackedFloat.pack .binary64 (.finite s m (b - 1075) hm) =
      packComponents .binary64 s (BitVec.ofNat _ b) (BitVec.ofNat _ m) := by
    have hfinite : ¬2 ^ 11 ≤ b + 1 := by omega
    have hbits : m.log2 + 1 = Format.binary64.mantissaBits := by rw [hlog]; rfl
    have hexp : Format.binary64.exponentBias = 1023 := rfl
    simp only [UnpackedFloat.pack, hexp, hbias, if_neg hfinite, if_pos hbits]
  obtain ⟨hexp, hones, hzero⟩ := ofNat_exponent (b := b) (by omega) (by omega)
  have hmant : (1#1 ++ BitVec.ofNat 52 m).toNat = m := by
    rw [toNat_one_append, BitVec.toNat_ofNat]
    omega
  rw [hpack]
  simp only [UnpackedFloat.unpack, unpackMantissa_packComponents, unpackExponent_packComponents,
    unpackSign_packComponents, if_neg hones, if_neg hzero, hexp, hmant]
  congr 1

/-- Natural numbers come back from their words. -/
theorem unpack_pack_ofWhole {n : Nat} (hn : n < 2 ^ 53) :
    UnpackedFloat.unpack .binary64 (UnpackedFloat.pack .binary64 (ofWhole n)) = ofWhole n := by
  rcases Nat.eq_zero_or_pos n with rfl | hpos
  · rfl
  · have hlog := log2_le hpos hn
    rw [ofWhole_of_pos hpos]
    exact unpack_pack_full _ _ (log2_mantissa hpos hn) (by omega) (by omega)

/-- No finite number is packed as a word that is not a number. -/
theorem isNaN_unpack_pack (s : Sign) (m : Nat) (e : Int) (hm : 0 < m) :
    (UnpackedFloat.unpack .binary64 (UnpackedFloat.pack .binary64 (.finite s m e hm))).isNaN =
      false := by
  have hinfinity : (UnpackedFloat.unpack .binary64 (packedInfinity .binary64 s)).isNaN = false := by
    cases s <;> rfl
  have hfields : ∀ (b : BitVec 11) (c : BitVec 52), b ≠ -1#_ →
      (UnpackedFloat.unpack .binary64 (packComponents .binary64 s b c)).isNaN = false := by
    intro b c hb
    simp only [UnpackedFloat.unpack, unpackExponent_packComponents, if_neg hb]
    split
    · split <;> rfl
    · rfl
  simp only [UnpackedFloat.pack]
  split
  · exact hinfinity
  · next hfinite =>
    split
    · refine hfields _ _ fun hones => ?_
      have hnat := congrArg BitVec.toNat hones
      have hall : (-1#11).toNat = 2 ^ 11 - 1 := rfl
      rw [hall, BitVec.toNat_ofNat] at hnat
      omega
    · exact hfields _ _ (by decide)

/-! ## Fields -/

/-- An unpacked number as the integers that the library reads off its word. -/
def toBinary64 : UnpackedFloat → Binary64
  | .notANumber => .nan
  | .infinity s => .infinite (isNegative s)
  | .zero s => .finite (isNegative s) 0 (-1074)
  | .finite s m e _ => .finite (isNegative s) m e

/-- A word is negative if its first bit is set. -/
theorem isNegative_unpackSign (b : BitVec Format.binary64.numBits) :
    isNegative (Sign.ofBitVec (unpackSign b)) = decide (2 ^ 63 ≤ b.toNat) := by
  have hlt : b.toNat < 2 ^ 64 := b.isLt
  have hbit : (unpackSign b).toNat = b.toNat / 2 ^ 63 % 2 := by
    simp [unpackSign, Nat.shiftRight_eq_div_pow]
  have hzero : unpackSign b = 0#1 ↔ b.toNat < 2 ^ 63 := by
    rw [← BitVec.toNat_inj, hbit]
    simp only [BitVec.toNat_ofNat]
    omega
  rw [Sign.ofBitVec]
  by_cases h : b.toNat < 2 ^ 63
  · rw [if_pos (hzero.2 h), decide_eq_false (by omega)]
    rfl
  · rw [if_neg fun hz => h (hzero.1 hz), decide_eq_true (by omega)]
    rfl

/-- What an unpacked word is, by division. -/
theorem toBinary64_unpack (b : BitVec Format.binary64.numBits) :
    toBinary64 (UnpackedFloat.unpack .binary64 b) =
      if b.toNat / 2 ^ 52 % 2 ^ 11 + 1 = 2 ^ 11 then
        if b.toNat % 2 ^ 52 = 0 then .infinite (decide (2 ^ 63 ≤ b.toNat)) else .nan
      else if b.toNat / 2 ^ 52 % 2 ^ 11 = 0 then
        .finite (decide (2 ^ 63 ≤ b.toNat)) (b.toNat % 2 ^ 52) (-1074)
      else .finite (decide (2 ^ 63 ≤ b.toNat)) (2 ^ 52 + b.toNat % 2 ^ 52)
        (Int.ofNat (b.toNat / 2 ^ 52 % 2 ^ 11) - 1075) := by
  have hexp : (unpackExponent b).toNat = b.toNat / 2 ^ 52 % 2 ^ 11 := by
    simp [unpackExponent, Nat.shiftRight_eq_div_pow]
  have hmant : (unpackMantissa b).toNat = b.toNat % 2 ^ 52 := by
    simp [unpackMantissa]
  have hsign := isNegative_unpackSign b
  have hones : unpackExponent b = -1#_ ↔ b.toNat / 2 ^ 52 % 2 ^ 11 + 1 = 2 ^ 11 := by
    rw [← BitVec.toNat_inj, hexp]
    simp
  have hzero : unpackExponent b = 0#_ ↔ b.toNat / 2 ^ 52 % 2 ^ 11 = 0 := by
    rw [← BitVec.toNat_inj, hexp]
    simp
  have hmzero : unpackMantissa b = 0#_ ↔ b.toNat % 2 ^ 52 = 0 := by
    rw [← BitVec.toNat_inj, hmant]
    simp
  simp only [UnpackedFloat.unpack]
  by_cases h : unpackExponent b = -1#_
  · rw [if_pos h, if_pos (hones.1 h)]
    by_cases hm : unpackMantissa b = 0#_
    · rw [if_pos hm, if_pos (hmzero.1 hm), toBinary64, hsign]
    · rw [if_neg hm, if_neg fun hz => hm (hmzero.2 hz), toBinary64]
  · rw [if_neg h, if_neg fun hz => h (hones.2 hz)]
    by_cases he : unpackExponent b = 0#_
    · rw [if_pos he, if_pos (hzero.1 he)]
      by_cases hm : unpackMantissa b = 0#_
      · rw [dif_pos hm, toBinary64, hsign, hmzero.1 hm]
      · rw [dif_neg hm, toBinary64, hsign, hmant, he]
        rfl
    · rw [if_neg he, if_neg fun hz => he (hzero.2 hz), toBinary64, hsign, toNat_one_append, hmant,
        hexp]
      rfl

/-- The fields of a number are those of its unpacked form. -/
theorem ofFloat_eq (x : Float) : Binary64.ofFloat x = toBinary64 x.toModel.unpack :=
  (toBinary64_unpack x.toModel.toBits.toBitVec).symm

/-- A finite number has all bits of its mantissa, unless it is among the least ones. -/
theorem mantissa_of_unpack {b : BitVec Format.binary64.numBits} {s : Sign} {m : Nat} {e : Int}
    {hm : 0 < m} (h : UnpackedFloat.unpack .binary64 b = .finite s m e hm) :
    m < 2 ^ 53 ∧ (2 ^ 52 ≤ m ∨ e = -1074) := by
  have hfields := congrArg toBinary64 h
  rw [toBinary64_unpack] at hfields
  split at hfields
  · split at hfields <;> simp [toBinary64] at hfields
  · split at hfields
    · simp only [toBinary64, Binary64.finite.injEq] at hfields
      omega
    · simp only [toBinary64, Binary64.finite.injEq] at hfields
      omega

end Unpacked

/-! ## Numbers -/

namespace Binary64

open Float.Model Float.Model.UnpackedFloat Unpacked

/-- The floating-point number is a natural number. -/
def IsWhole (x : Float) (n : Nat) : Prop := Unpacked.IsWhole x.toModel.unpack n

/-- The number that stands for a natural number in the library is that number. -/
theorem unpack_ofNat {n : Nat} (hn : n < 2 ^ 53) :
    (Float.ofNat n).toModel.unpack = ofWhole n := by
  have hmul : Float.ofNat n = n.toUInt64.toFloat * Float.ofBits 0x3FF0000000000000 := by
    change Float.ofScientific n false 0 = _
    rw [Float.ofScientific, dif_pos ⟨hn, by decide⟩]
    rfl
  have hword : n.toUInt64.toNat = n := by
    simp only [Nat.toUInt64, UInt64.toNat_ofNat']
    omega
  have hfloat : n.toUInt64.toFloat.toModel.unpack = ofWhole n := by
    have hpack : n.toUInt64.toFloat.toModel.unpack = UnpackedFloat.unpack .binary64
        (UnpackedFloat.pack .binary64 (UnpackedFloat.ofNat .binary64 n.toUInt64.toNat)) := rfl
    rw [hpack, hword, ofNat_eq_ofWhole hn, unpack_pack_ofWhole hn]
  have hone : (Float.ofBits 0x3FF0000000000000).toModel.unpack = ofWhole 1 := rfl
  have hpack : (n.toUInt64.toFloat * Float.ofBits 0x3FF0000000000000).toModel.unpack =
      UnpackedFloat.unpack .binary64 (UnpackedFloat.pack .binary64 (UnpackedFloat.mul .binary64
        n.toUInt64.toFloat.toModel.unpack (Float.ofBits 0x3FF0000000000000).toModel.unpack)) := rfl
  rw [hmul, hpack, hone, hfloat, mul_ofWhole_one hn, unpack_pack_ofWhole hn]

/-- That something is no number is seen from its unpacked form. -/
theorem isNaN_eq (x : Float) : Scalar.isNaN x = x.toModel.unpack.isNaN := by
  have hself : Scalar.isNaN x = !(x.toModel.unpack.compare x.toModel.unpack == some .eq) := rfl
  rw [hself]
  cases x.toModel.unpack with
  | notANumber => rfl
  | infinity s => cases s <;> rfl
  | zero s => rfl
  | finite s m e hm => cases s <;> simp [UnpackedFloat.compare, UnpackedFloat.isNaN]

/-- Numbers are ordered as their unpacked forms are. -/
theorem lt_iff_compare {x y : Float} :
    x < y ↔ x.toModel.unpack.compare y.toModel.unpack = some .lt := by
  have hlt : x < y ↔ (x.toModel.unpack.compare y.toModel.unpack == some .lt) = true :=
    decide_eq_true_iff
  rw [hlt, beq_iff_eq]

/-- Natural numbers are ordered in floating point as they are. -/
theorem IsWhole.lt_iff {x y : Float} {m n : Nat} (hx : IsWhole x m) (hy : IsWhole y n) :
    x < y ↔ m < n := by
  rw [lt_iff_compare, Unpacked.IsWhole.compare hx hy, Option.some.injEq, Nat.compare_eq_lt]

/-- Natural numbers are subtracted exactly in floating point. -/
theorem IsWhole.sub {x y : Float} {m n : Nat} (hx : IsWhole x m) (hy : IsWhole y n)
    (hle : n ≤ m) : IsWhole (x - y) (m - n) := by
  have hm := hx.1
  have hpack : (x - y).toModel.unpack = UnpackedFloat.unpack .binary64 (UnpackedFloat.pack .binary64
    (UnpackedFloat.sub .binary64 x.toModel.unpack y.toModel.unpack)) := rfl
  rw [IsWhole, hpack]
  rcases Unpacked.IsWhole.cases hy with ⟨rfl, t, hy⟩ | ⟨hpos, hy⟩
  · rw [hy]
    rcases Unpacked.IsWhole.cases hx with ⟨rfl, s, hx⟩ | ⟨hpos, hx⟩
    · rw [hx]
      refine ⟨by omega, ?_⟩
      cases s <;> cases t <;> first | exact Or.inl rfl | exact Or.inr ⟨rfl, rfl⟩
    · have hsub : UnpackedFloat.sub .binary64 (ofWhole m) (.zero t) = ofWhole m := by
        rw [ofWhole_of_pos hpos]
        rfl
      rw [hx, hsub, unpack_pack_ofWhole hm]
      exact ⟨hm, Or.inl rfl⟩
  · rcases Unpacked.IsWhole.cases hx with ⟨rfl, -⟩ | ⟨-, hx⟩
    · omega
    · rw [hx, hy, sub_ofWhole hm hle hpos, unpack_pack_ofWhole (by omega)]
      exact ⟨by omega, Or.inl rfl⟩

/-- A natural number within the limit is not changed by clamping. -/
theorem IsWhole.clampNat_eq {x : Float} {n limit : Nat} (hx : IsWhole x n) (hn : n ≤ limit) :
    Scalar.clampNat limit x = n := by
  have hlt := hx.1
  have hdef : (Scalar.clampNat limit x : Nat) = Nat.min limit
    (UInt64.ofNatClamp (x.toModel.unpack.toInt 0 (UInt64.size - 1)).toNat).toNat := rfl
  have hint : x.toModel.unpack.toInt 0 (UInt64.size - 1) = n := by
    obtain ⟨-, h | ⟨rfl, h⟩⟩ := hx
    · rw [h, toInt_ofWhole hlt]
    · rw [h]
      rfl
  have hclamp : (UInt64.ofNatClamp n).toNat = n := by
    rw [UInt64.ofNatClamp, dif_pos (by simp only [UInt64.size]; omega)]
    rfl
  rw [hdef, hint, Int.toNat_natCast, hclamp]
  exact Nat.min_eq_right hn

/-! ## Rounding to an integer -/

/-- A number of which nothing is cut off stays as it is, any other one becomes a natural number with
a sign. -/
theorem roundWith_cases (up : Bool → Nat → Nat → Bool) (x : Float) :
    (roundWith up x = x ∧ ∀ s m e h, x.toModel.unpack = .finite s m e h →
      (splitMagnitude m e).2.1 = 0) ∨
    ∃ negative k, k < 2 ^ 53 ∧ roundWith up x = signed negative k := by
  rw [roundWith, ofFloat_eq]
  cases hx : x.toModel.unpack with
  | notANumber => exact Or.inl ⟨rfl, by simp⟩
  | infinity s => exact Or.inl ⟨rfl, by simp⟩
  | zero s =>
    have hrest : (splitMagnitude 0 (-1074)).2.1 = 0 := by
      rw [splitMagnitude, if_neg (by omega)]
      exact Nat.zero_mod _
    simp only [toBinary64]
    exact Or.inl ⟨if_pos hrest, by simp⟩
  | finite s m e hm =>
    simp only [toBinary64]
    by_cases hrest : (splitMagnitude m e).2.1 = 0
    · refine Or.inl ⟨if_pos hrest, ?_⟩
      rintro s' m' e' hm' h
      cases h
      exact hrest
    · have hm53 := (mantissa_of_unpack hx).1
      have hwhole : (splitMagnitude m e).1 + 1 < 2 ^ 53 := by
        rw [splitMagnitude] at hrest ⊢
        split at hrest
        · exact absurd rfl hrest
        · next he =>
          have hone : 2 ^ 1 ≤ 2 ^ (-e).toNat := Nat.pow_le_pow_right (by omega) (by omega)
          have hhalf : m / 2 ^ (-e).toNat ≤ m / 2 := Nat.div_le_div_left hone (by omega)
          rw [if_neg he]
          simp only [Nat.pow_eq]
          omega
      rw [if_neg hrest]
      refine Or.inr ⟨_, _, ?_, rfl⟩
      split <;> omega

/-- A natural number with a sign, unpacked. -/
theorem unpack_signed {k : Nat} (hk : k < 2 ^ 53) (negative : Bool) :
    (signed negative k).toModel.unpack = if negative then (ofWhole k).neg else ofWhole k := by
  cases negative with
  | false => exact unpack_ofNat hk
  | true =>
    have hpack : (signed true k).toModel.unpack = UnpackedFloat.unpack .binary64
      (UnpackedFloat.pack .binary64 (Float.ofNat k).toModel.unpack.neg) := rfl
    rw [hpack, unpack_ofNat hk]
    rcases Nat.eq_zero_or_pos k with rfl | hpos
    · rfl
    · have hlog := log2_le hpos hk
      rw [ofWhole_of_pos hpos]
      exact unpack_pack_full _ _ (log2_mantissa hpos hk) (by omega) (by omega)

/-- A natural number with a sign is a number. -/
theorem isNaN_signed {k : Nat} (hk : k < 2 ^ 53) (negative : Bool) :
    Scalar.isNaN (signed negative k) = false := by
  rw [isNaN_eq, unpack_signed hk]
  rcases Nat.eq_zero_or_pos k with rfl | hpos
  · cases negative <;> rfl
  · rw [ofWhole_of_pos hpos]
    cases negative <;> rfl

/-- A natural number with a sign is integral. -/
theorem integral_signed {k : Nat} (hk : k < 2 ^ 53) (negative : Bool) :
    Integral IsWhole (signed negative k) := by
  have hunpack := unpack_signed hk negative
  cases negative with
  | false => exact .whole k ⟨hk, Or.inl hunpack⟩
  | true =>
    rcases Nat.eq_zero_or_pos k with rfl | hpos
    · exact .whole 0 ⟨by omega, Or.inr ⟨rfl, hunpack⟩⟩
    · rw [ofWhole_of_pos hpos] at hunpack
      refine .below (isNaN_signed hk true) fun b n hb => lt_iff_compare.2 ?_
      rw [hunpack]
      exact Unpacked.IsWhole.compare_negative hb

/-- A number of which nothing would be cut off is an integer. -/
theorem integral_of_splitMagnitude {x : Float} (hrest : ∀ s m e h,
    x.toModel.unpack = .finite s m e h → (splitMagnitude m e).2.1 = 0) : Integral IsWhole x := by
  cases hx : x.toModel.unpack with
  | notANumber =>
    refine .notNumber ?_
    rw [isNaN_eq, hx]
    rfl
  | infinity s =>
    have hnan : Scalar.isNaN x = false := by rw [isNaN_eq, hx]; rfl
    cases s with
    | negative =>
      refine .below hnan fun b n hb => lt_iff_compare.2 ?_
      rw [hx, (Unpacked.IsWhole.compare_infinity _ hb).1]
      rfl
    | positive =>
      refine .above hnan fun b n hb => ?_
      obtain ⟨hgt, hlt⟩ := Unpacked.IsWhole.compare_infinity .positive hb
      rw [lt_iff_compare, lt_iff_compare, hx, hgt, hlt]
      exact ⟨rfl, nofun⟩
  | zero s =>
    refine .whole 0 ⟨by omega, ?_⟩
    cases s with
    | negative => exact Or.inr ⟨rfl, hx⟩
    | positive => exact Or.inl hx
  | finite s m e hm =>
    have hnan : Scalar.isNaN x = false := by rw [isNaN_eq, hx]; rfl
    cases s with
    | negative =>
      refine .below hnan fun b n hb => lt_iff_compare.2 ?_
      rw [hx]
      exact Unpacked.IsWhole.compare_negative hb
    | positive =>
      by_cases he : 0 < e
      · refine .above hnan fun b n hb => ?_
        obtain ⟨hgt, hlt⟩ := Unpacked.IsWhole.compare_large hm he hb
        rw [lt_iff_compare, lt_iff_compare, hx, hgt, hlt]
        exact ⟨rfl, nofun⟩
      · obtain ⟨hm53, hfull⟩ := mantissa_of_unpack hx
        have hsplit := hrest _ _ _ _ hx
        obtain ⟨j, rfl⟩ : ∃ j : Nat, e = -(j : Int) := ⟨(-e).toNat, by omega⟩
        have hmod : m % 2 ^ j = 0 := by
          rw [splitMagnitude] at hsplit
          split at hsplit
          · obtain rfl : j = 0 := by omega
            omega
          · simpa using hsplit
        -- Of the least numbers, whose mantissas are short, something would be cut off.
        have hm52 : 2 ^ 52 ≤ m := by
          refine hfull.resolve_right fun h => ?_
          have hj : 2 ^ 53 ≤ 2 ^ j := Nat.pow_le_pow_right (by omega) (by omega)
          rw [Nat.mod_eq_of_lt (by omega)] at hmod
          omega
        have hmul := (Nat.div_mul_cancel (Nat.dvd_of_mod_eq_zero hmod)).symm
        refine .whole (m / 2 ^ j) ?_
        rw [IsWhole, hx]
        exact isWhole_of_mul_pow hm52 hm53 rfl hmul

/-- What rounding makes is integral, whatever it goes up for. -/
theorem integral_roundWith (up : Bool → Nat → Nat → Bool) (x : Float) :
    Integral IsWhole (roundWith up x) := by
  rcases roundWith_cases up x with ⟨h, hrest⟩ | ⟨negative, k, hk, h⟩
  · rw [h]
    exact integral_of_splitMagnitude hrest
  · rw [h]
    exact integral_signed hk negative

/-- Rounding makes numbers of numbers. -/
theorem isNaN_roundWith (up : Bool → Nat → Nat → Bool) {x : Float} (hx : Scalar.isNaN x = false) :
    Scalar.isNaN (roundWith up x) = false := by
  rcases roundWith_cases up x with ⟨h, -⟩ | ⟨negative, k, hk, h⟩
  · rw [h]
    exact hx
  · rw [h]
    exact isNaN_signed hk negative

/-- The inverse of a number between zero and one is a number, and so is what it is rounded to. -/
theorem isNaN_round_inv {x : Float} (hpos : Float.ofNat 0 < x) (hlt : x < Float.ofNat 1) :
    Scalar.isNaN (round (Float.ofNat 1 / x)) = false := by
  refine isNaN_roundWith _ ?_
  have hpack : (Float.ofNat 1 / x).toModel.unpack = UnpackedFloat.unpack .binary64
    (UnpackedFloat.pack .binary64 (UnpackedFloat.div .binary64
      (Float.ofNat 1).toModel.unpack x.toModel.unpack)) := rfl
  have hone : ofWhole 1 = .finite .positive (2 ^ 52) (-52) (Nat.two_pow_pos _) := rfl
  have hzero : ofWhole 0 = .zero .positive := rfl
  rw [lt_iff_compare, unpack_ofNat (by omega), hzero] at hpos
  rw [lt_iff_compare, unpack_ofNat (by omega), hone] at hlt
  rw [isNaN_eq, hpack, unpack_ofNat (by omega), hone]
  cases hx : x.toModel.unpack with
  | notANumber => rw [hx] at hpos; cases hpos
  | infinity s =>
    rw [hx] at hlt hpos
    cases s <;> simp [UnpackedFloat.compare] at hlt hpos
  | zero s => rw [hx] at hpos; cases hpos
  | finite s m e hm =>
    simp only [UnpackedFloat.div, roundWithAccuracy]
    split
    · cases s <;> rfl
    · exact isNaN_unpack_pack ..

end Binary64

/-- Floating-point numbers count pixels exactly. -/
instance : WholeScalar Float where
  IsWhole := Binary64.IsWhole
  isWhole_ofNat {n} hn := by
    have hlt : n < 2 ^ 53 := Nat.lt_of_le_of_lt hn (by decide)
    exact ⟨hlt, Or.inl (Binary64.unpack_ofNat hlt)⟩
  isNaN_eq_false h := by
    rw [Binary64.isNaN_eq]
    exact Unpacked.IsWhole.isNaN_eq_false h
  lt_iff ha hb := Binary64.IsWhole.lt_iff ha hb
  isWhole_sub ha hb hle := Binary64.IsWhole.sub ha hb hle
  clampNat_eq ha hn := Binary64.IsWhole.clampNat_eq ha hn
  integral_floor a := Binary64.integral_roundWith (fun negative _ _ => negative) a
  integral_ceil a := Binary64.integral_roundWith (fun negative _ _ => !negative) a
  integral_round a := Binary64.integral_roundWith (fun _ rest one => decide (one ≤ 2 * rest)) a
  isNaN_round_inv hpos hlt := Binary64.isNaN_round_inv hpos hlt

end BlockModels
