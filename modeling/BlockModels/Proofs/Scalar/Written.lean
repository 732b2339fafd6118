import BlockModels.Proofs.Lists
import BlockModels.Proofs.Scalar.Rational

/-!
# Numbers in texts

Records are told apart by texts, so numbers in them count by how they are written. What that needs
of the texts of numbers is a law of its own (`WrittenScalar`): a finite number is written like no
other one, and a text ends where it ends, since what stands behind a number in a text of records
(`endsValue`) stands in no number. What is not finite may all be written alike.
-/

namespace BlockModels

/-- What stands behind a number, a word or a list in the text of a record. -/
def endsValue (ch : Char) : Bool := ch == ',' || ch == ']' || ch == '\x7d'

/-- Scalars that are told apart by their texts. -/
class WrittenScalar (α : Type) [Scalar α] : Prop where
  eq_of_json {a b : α} : Scalar.isFinite a = true → Scalar.json a = Scalar.json b → a = b
  endsValue_eq_false {a : α} {ch : Char} : ch ∈ (Scalar.json a).toList → endsValue ch = false
  /-- A channel of a colour is finite, as a part of the largest one. -/
  isFinite_channel {n : Nat} : n ≤ 255 →
    Scalar.isFinite (Scalar.ofNat n / Scalar.ofNat 255 : α) = true
  isFinite_one : Scalar.isFinite (1 : α) = true

namespace Scalar

variable {α : Type} [Scalar α]

/-- Two numbers are the same, or neither is finite. -/
def Matches (a b : α) : Prop := a = b ∨ isFinite a = false ∧ isFinite b = false

/-- A finite number matches itself only. -/
theorem Matches.eq_of_isFinite {a b : α} (h : Matches a b) (ha : isFinite a = true) : a = b := by
  rcases h with h | ⟨h, -⟩
  · exact h
  · rw [ha] at h
    cases h

variable [WrittenScalar α]

/-- Numbers that are written alike. -/
theorem matches_of_json {a b : α} (h : json a = json b) : Matches a b := by
  cases ha : isFinite a with
  | true => exact .inl (WrittenScalar.eq_of_json ha h)
  | false =>
    cases hb : isFinite b with
    | true => exact .inl (WrittenScalar.eq_of_json hb h.symm).symm
    | false => exact .inr ⟨ha, hb⟩

end Scalar

/-! ## Digits -/

/-- A number is written with digits only. -/
theorem isDigit_of_mem_toDigits {n : Nat} {ch : Char} (h : ch ∈ Nat.toDigits 10 n) :
    ch.isDigit = true :=
  Nat.isDigit_of_mem_toDigits (by decide) (by decide) h

/-- A digit does not end a number. -/
theorem endsValue_of_isDigit {ch : Char} (h : ch.isDigit = true) : endsValue ch = false := by
  rw [Bool.eq_false_iff]
  intro hends
  simp only [endsValue, Bool.or_eq_true, beq_iff_eq] at hends
  rcases hends with (rfl | rfl) | rfl <;> cases h

/-- Digits tell natural numbers apart. -/
theorem toDigits_inj {m n : Nat} (h : Nat.toDigits 10 m = Nat.toDigits 10 n) : m = n := by
  rw [← Nat.ofDigitChars_ten_toDigits (n := m), h, Nat.ofDigitChars_ten_toDigits]

/-- A whole number is written as its digits, behind a sign if it is negative. -/
theorem toList_toString_int (i : Int) : (toString i).toList =
    if 0 ≤ i then Nat.toDigits 10 i.toNat else '-' :: Nat.toDigits 10 (-i).toNat := by
  rw [Int.toString_eq_repr, Int.repr_eq_if]
  split
  · exact Nat.toList_repr
  · rw [String.toList_append, Nat.toList_repr]
    rfl

/-- An integer is written with digits and a minus only. -/
theorem mem_toString_int {i : Int} {ch : Char} (h : ch ∈ (toString i).toList) :
    ch.isDigit = true ∨ ch = '-' := by
  rw [toList_toString_int] at h
  split at h
  · exact .inl (isDigit_of_mem_toDigits h)
  · exact (List.mem_cons.1 h).symm.imp_left isDigit_of_mem_toDigits

/-- Texts tell integers apart. -/
theorem toString_int_inj {i j : Int} (h : toString i = toString j) : i = j := by
  have hlist := congrArg String.toList h
  rw [toList_toString_int, toList_toString_int] at hlist
  have hsign : ∀ n, '-' ∉ Nat.toDigits 10 n := fun n hmem => by
    have hdigit := isDigit_of_mem_toDigits hmem
    cases hdigit
  split at hlist <;> split at hlist
  · have := toDigits_inj hlist
    omega
  · exact absurd (hlist ▸ List.mem_cons_self) (hsign _)
  · exact absurd (hlist ▸ List.mem_cons_self) (hsign _)
  · have := toDigits_inj (List.cons.inj hlist).2
    omega

/-! ## Rational numbers -/

/-- A rational number is written as a fraction. -/
theorem toList_json_rat (a : Rat) :
    (Scalar.json a).toList = (toString a.num).toList ++ '/' :: Nat.toDigits 10 a.den := by
  change (toString a.num ++ "/" ++ toString a.den).toList = _
  rw [String.toList_append, String.toList_append, List.append_assoc]
  exact congrArg _ (congrArg _ Nat.toList_repr)

/-- A rational number is written as the two whole numbers that make it up. -/
instance : WrittenScalar Rat where
  eq_of_json {a b} _ h := by
    have hlist := congrArg String.toList h
    rw [toList_json_rat, toList_json_rat] at hlist
    have hslash : ∀ i : Int, '/' ∉ (toString i).toList := fun i hmem => by
      rcases mem_toString_int hmem with hdigit | hsign
      · cases hdigit
      · cases hsign
    obtain ⟨hnum, hden⟩ := append_cons_cancel (hslash _) (hslash _) hlist
    exact Rat.ext (toString_int_inj (String.toList_inj.1 hnum)) (toDigits_inj hden)
  endsValue_eq_false {a ch} h := by
    rw [toList_json_rat] at h
    rcases List.mem_append.1 h with h | h
    · rcases mem_toString_int h with h | rfl
      · exact endsValue_of_isDigit h
      · rfl
    · rcases List.mem_cons.1 h with rfl | h
      · rfl
      · exact endsValue_of_isDigit (isDigit_of_mem_toDigits h)
  isFinite_channel _ := rfl
  isFinite_one := rfl

end BlockModels
