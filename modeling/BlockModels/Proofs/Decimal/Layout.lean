import BlockModels.Decimal.Layout
import BlockModels.Decimal.Reading
import BlockModels.Proofs.Decimal.Shortest
import Mathlib.Tactic.Ring

/-!
# What is written is read back

Whatever the layout, the digits of a decimal are read back as the same decimal (`reads_magnitude`):
the point, the zeros and the power of ten only say in different ways what the digits count. A sign
is read back as the same sign, so the text of a number tells its sign and its shortest decimal
(`splitSign_write`). The decimal is what the reader has before it looks for the nearest float
(`readMagnitude_eq`).
-/

namespace BlockModels.Decimal

/-! ## Reading digits -/

/-- The digits behind a point, if one is there, and what follows. -/
def splitFraction : List Char → List Char × List Char
  | '.' :: cs => (cs.takeWhile Char.isDigit, cs.dropWhile Char.isDigit)
  | cs => ([], cs)

/-- Without a point, there are no digits after it. -/
theorem splitFraction_of_ne {cs : List Char} (h : ∀ rest, cs = '.' :: rest → False) :
    splitFraction cs = ([], cs) := by
  unfold splitFraction
  split
  · exact (h _ rfl).elim
  · rfl

/-- The decimal that a magnitude is read as. -/
def readDigits (cs : List Char) : Option Digits :=
  let whole := cs.takeWhile Char.isDigit
  let parts := splitFraction (cs.dropWhile Char.isDigit)
  if whole.isEmpty && parts.1.isEmpty then none
  else (readExponent parts.2).map fun e =>
    ⟨natOfDigits (whole ++ parts.1), e - Int.ofNat parts.1.length⟩

/-- A magnitude is read as the float nearest to its digits. -/
theorem readMagnitude_eq (cs : List Char) :
    readMagnitude cs = (readDigits cs).map fun d => nearestFloat d.value d.exponent := by
  have hsplit : readMagnitude cs =
      if (cs.takeWhile Char.isDigit).isEmpty &&
          (splitFraction (cs.dropWhile Char.isDigit)).1.isEmpty then none
      else (readExponent (splitFraction (cs.dropWhile Char.isDigit)).2).map fun e =>
        nearestFloat (natOfDigits (cs.takeWhile Char.isDigit ++
          (splitFraction (cs.dropWhile Char.isDigit)).1))
          (e - Int.ofNat (splitFraction (cs.dropWhile Char.isDigit)).1.length) := by
    unfold readMagnitude
    dsimp only
    split
    · next heq =>
      rw [heq]
      rfl
    · next hne => rw [splitFraction_of_ne hne]
  rw [hsplit, readDigits, apply_ite (Option.map _), Option.map_none, Option.map_map]
  rfl

/-- Digits are read as the standard library reads them. -/
theorem natOfDigits_eq (ds : List Char) : natOfDigits ds = Nat.ofDigitChars 10 ds 0 := by
  rw [natOfDigits, Nat.ofDigitChars_eq_foldl]
  refine List.foldl_ext _ _ _ fun n ch _ => ?_
  rw [Nat.mul_comm]

/-- The digits of a number read back as the number. -/
theorem natOfDigits_digitsOf (n : Nat) : natOfDigits (digitsOf n) = n := by
  rw [natOfDigits_eq, digitsOf, Nat.ofDigitChars_ten_toDigits]

/-- Each zero after the digits multiplies the number by ten. -/
theorem natOfDigits_append_zeros (ds : List Char) (k : Nat) :
    natOfDigits (ds ++ zeros k) = 10 ^ k * natOfDigits ds := by
  rw [natOfDigits_eq, natOfDigits_eq, Nat.ofDigitChars_append, zeros,
    Nat.ofDigitChars_replicate_zero]

/-- Zeros before the digits do not change the number. -/
theorem natOfDigits_zeros_append (k : Nat) (ds : List Char) :
    natOfDigits (zeros k ++ ds) = natOfDigits ds := by
  rw [natOfDigits_eq, natOfDigits_eq, Nat.ofDigitChars_append, zeros,
    Nat.ofDigitChars_replicate_zero, Nat.mul_zero]

/-! ## Runs of digits -/

/-- Only digits. -/
def IsDigits (ds : List Char) : Prop := ∀ ch ∈ ds, ch.isDigit = true

/-- No digit at the beginning. -/
def EndsDigits (cs : List Char) : Prop := ∀ ch ∈ cs.head?, ch.isDigit = false

/-- Digits after digits are digits. -/
theorem IsDigits.append {ds es : List Char} (hd : IsDigits ds) (he : IsDigits es) :
    IsDigits (ds ++ es) := fun ch h => (List.mem_append.1 h).elim (hd ch) (he ch)

/-- A number is written with digits. -/
theorem isDigits_digitsOf (n : Nat) : IsDigits (digitsOf n) := fun _ =>
  Nat.isDigit_of_mem_toDigits (by decide) (by decide)

/-- Zeros are digits. -/
theorem isDigits_zeros (k : Nat) : IsDigits (zeros k) := fun ch h => by
  rw [List.eq_of_mem_replicate h]
  rfl

/-- Reading digits takes all of them and stops at what ends them. -/
theorem IsDigits.span {ds cs : List Char} (hd : IsDigits ds) (hc : EndsDigits cs) :
    (ds ++ cs).takeWhile Char.isDigit = ds ∧ (ds ++ cs).dropWhile Char.isDigit = cs := by
  have hstop : cs.takeWhile Char.isDigit = [] ∧ cs.dropWhile Char.isDigit = cs := by
    cases cs with
    | nil => exact ⟨rfl, rfl⟩
    | cons ch rest =>
      have hch := hc ch rfl
      exact ⟨List.takeWhile_cons_of_neg (by rw [hch]; exact Bool.false_ne_true),
        List.dropWhile_cons_of_neg (by rw [hch]; exact Bool.false_ne_true)⟩
  rw [List.takeWhile_append_of_pos hd, List.dropWhile_append_of_pos hd, hstop.1, hstop.2,
    List.append_nil]
  exact ⟨rfl, rfl⟩

/-- Digits around a point, and a power of ten. -/
theorem readDigits_pointed {whole fraction rest : List Char} (hwhole : IsDigits whole)
    (hne : whole ≠ []) (hfraction : IsDigits fraction) (hrest : EndsDigits rest) :
    readDigits (whole ++ '.' :: (fraction ++ rest)) = (readExponent rest).map fun e =>
      ⟨natOfDigits (whole ++ fraction), e - Int.ofNat fraction.length⟩ := by
  have hpoint : EndsDigits ('.' :: (fraction ++ rest)) := by
    rintro _ ⟨⟩
    rfl
  obtain ⟨htake, hdrop⟩ := hwhole.span hpoint
  obtain ⟨htake', hdrop'⟩ := hfraction.span hrest
  have hsplit : splitFraction ('.' :: (fraction ++ rest)) = (fraction, rest) :=
    Prod.ext htake' hdrop'
  simp only [readDigits, htake, hdrop, hsplit]
  rw [if_neg (by simp [hne])]

/-- Digits without a point, and a power of ten. -/
theorem readDigits_plain {whole rest : List Char} (hwhole : IsDigits whole) (hne : whole ≠ [])
    (hrest : EndsDigits rest) (hpoint : rest.head? ≠ some '.') :
    readDigits (whole ++ rest) = (readExponent rest).map fun e => ⟨natOfDigits whole, e⟩ := by
  obtain ⟨htake, hdrop⟩ := hwhole.span hrest
  have hsplit : splitFraction rest = ([], rest) := splitFraction_of_ne fun _ heq => by
    rw [heq] at hpoint
    exact hpoint rfl
  simp only [readDigits, htake, hdrop, hsplit]
  rw [if_neg (by simp [hne]), List.append_nil]
  congr
  funext e
  exact congrArg (Digits.mk _) (Int.sub_zero e)

/-- The digits of a number are read as the number. -/
theorem readNat_digitsOf (n : Nat) : readNat (digitsOf n) = some n := by
  rw [readNat, if_neg, natOfDigits_digitsOf]
  rw [Bool.or_eq_true, not_or, List.isEmpty_iff]
  refine ⟨Nat.toDigits_ne_nil, ?_⟩
  rw [List.all_eq_true.2 (isDigits_digitsOf n)]
  exact Bool.false_ne_true

/-- A number is written with at least one digit. -/
theorem exists_cons_digitsOf (n : Nat) :
    ∃ ch rest, digitsOf n = ch :: rest ∧ ch.isDigit = true := by
  obtain ⟨ch, rest, h⟩ := List.exists_cons_of_ne_nil (Nat.toDigits_ne_nil (n := n) (b := 10))
  refine ⟨ch, rest, h, isDigits_digitsOf n ch ?_⟩
  rw [digitsOf, h]
  exact List.mem_cons_self

/-- What begins with a digit has no sign. -/
theorem splitSign_of_isDigit {ch : Char} (h : ch.isDigit = true) (rest : List Char) :
    splitSign (ch :: rest) = (false, ch :: rest) := by
  unfold splitSign
  split
  · next heq =>
    cases heq
    cases h
  · next heq =>
    cases heq
    cases h
  · rfl

/-! ## Layouts -/

/-- A decimal is read from a text. -/
def Reads (cs : List Char) (x : ℚ) : Prop := ∃ d, readDigits cs = some d ∧ d.toRat = x

/-- The digits `n` at the power `e` stand for `n * 10 ^ e`. -/
theorem toRat_mk (n : Nat) (e : Int) : (Digits.mk n e).toRat = n * 10 ^ e := rfl

/-- Digits with a point between them are read as the number they make, divided by ten for each digit
after the point. -/
theorem reads_pointed {whole fraction : List Char} (hwhole : IsDigits whole) (hne : whole ≠ [])
    (hfraction : IsDigits fraction) {x : ℚ}
    (hx : (natOfDigits (whole ++ fraction) : ℚ) = x * 10 ^ fraction.length) :
    Reads (whole ++ '.' :: fraction) x := by
  have hread := readDigits_pointed hwhole hne hfraction (show EndsDigits [] from nofun)
  rw [List.append_nil] at hread
  refine ⟨_, hread, ?_⟩
  have hten : (10 : ℚ) ^ fraction.length ≠ 0 := pow_ne_zero _ (by norm_num)
  rw [toRat_mk, hx, zero_sub, Int.ofNat_eq_natCast, zpow_neg, zpow_natCast, mul_assoc,
    mul_inv_cancel₀ hten, mul_one]

/-- Digits that count from one on are filled up with zeros. -/
theorem reads_positional_natCast (l : Layout) {ds : List Char} (hds : IsDigits ds) (hne : ds ≠ [])
    (n : Nat) : Reads (l.positional ds n) (natOfDigits ds * 10 ^ n) := by
  have hwhole : IsDigits (ds ++ zeros n) := hds.append (isDigits_zeros n)
  have hne' : ds ++ zeros n ≠ [] := List.append_ne_nil_of_left_ne_nil hne _
  rw [Layout.positional, if_pos (Int.natCast_nonneg n), Int.toNat_natCast]
  split
  · refine reads_pointed hwhole hne' (isDigits_zeros 1) ?_
    rw [natOfDigits_append_zeros, natOfDigits_append_zeros]
    push_cast
    change _ = _ * (10 : ℚ) ^ 1
    ring
  · refine ⟨_, readDigits_plain hwhole hne' (show EndsDigits [] from nofun) nofun, ?_⟩
    rw [toRat_mk, natOfDigits_append_zeros, zpow_zero]
    push_cast
    ring

/-- Digits that count less are cut by the point, or stand behind it after zeros. -/
theorem reads_positional_neg (l : Layout) {ds : List Char} (hds : IsDigits ds) {n : Nat}
    (hn : 0 < n) : Reads (l.positional ds (-n)) (natOfDigits ds * 10 ^ (-(n : Int))) := by
  have hten : (10 : ℚ) ^ n ≠ 0 := pow_ne_zero _ (by norm_num)
  have hvalue : (natOfDigits ds : ℚ) * 10 ^ (-(n : Int)) * 10 ^ n = natOfDigits ds := by
    rw [zpow_neg, zpow_natCast, mul_assoc, inv_mul_cancel₀ hten, mul_one]
  have hneg : ¬0 ≤ -(n : Int) := by omega
  rw [Layout.positional, if_neg hneg]
  simp only [neg_neg, Int.toNat_natCast]
  split
  · next hlt =>
    have htake : IsDigits (ds.take (ds.length - n)) := fun ch h => hds ch (List.mem_of_mem_take h)
    have hdrop : IsDigits (ds.drop (ds.length - n)) := fun ch h => hds ch (List.mem_of_mem_drop h)
    refine reads_pointed htake ?_ hdrop ?_
    · intro hnil
      have hlength := congrArg List.length hnil
      rw [List.length_take, List.length_nil] at hlength
      omega
    · have hlength : (ds.drop (ds.length - n)).length = n := by
        rw [List.length_drop]
        omega
      rw [List.take_append_drop, hlength, hvalue]
  · next hle =>
    have hfraction : IsDigits (zeros (n - ds.length) ++ ds) := (isDigits_zeros _).append hds
    have hlength : (zeros (n - ds.length) ++ ds).length = n := by
      rw [List.length_append, zeros, List.length_replicate]
      omega
    refine reads_pointed (isDigits_zeros 1) (List.cons_ne_nil _ _) hfraction ?_
    rw [natOfDigits_zeros_append, natOfDigits_zeros_append, hlength, hvalue]

/-- The positional layout is read as the digits at their power of ten. -/
theorem reads_positional (l : Layout) {ds : List Char} (hds : IsDigits ds) (hne : ds ≠ [])
    (e : Int) : Reads (l.positional ds e) (natOfDigits ds * 10 ^ e) := by
  rcases Int.lt_or_le e 0 with hneg | hnonneg
  · obtain ⟨n, rfl⟩ := Int.exists_eq_neg_ofNat hneg.le
    exact reads_positional_neg l hds (by omega)
  · obtain ⟨n, rfl⟩ := Int.eq_ofNat_of_zero_le hnonneg
    rw [zpow_natCast]
    exact reads_positional_natCast l hds hne n

/-- A written power of ten. -/
theorem splitSign_lead (l : Layout) (lead : Int) :
    splitSign (if lead < 0 then '-' :: digitsOf (-lead).toNat
      else (if l.plus then ['+'] else []) ++ digitsOf lead.toNat) =
        (decide (lead < 0), digitsOf lead.natAbs) := by
  split
  · next hneg =>
    rw [decide_eq_true hneg, show lead.natAbs = (-lead).toNat by omega]
    rfl
  · next hnonneg =>
    rw [decide_eq_false hnonneg, show lead.natAbs = lead.toNat by omega]
    split
    · rfl
    · obtain ⟨ch, rest, h, hdigit⟩ := exists_cons_digitsOf lead.toNat
      rw [List.nil_append, h]
      exact splitSign_of_isDigit hdigit rest

/-- The exponent that the scientific layout writes is read back. -/
theorem readExponent_lead (l : Layout) (lead : Int) :
    readExponent ('e' :: if lead < 0 then '-' :: digitsOf (-lead).toNat
      else (if l.plus then ['+'] else []) ++ digitsOf lead.toNat) = some lead := by
  have hmark : ('e' == 'e' || 'e' == 'E') = true := rfl
  rw [readExponent, if_pos hmark, splitSign_lead]
  simp only [readNat_digitsOf, Option.map_some, Option.some.injEq, decide_eq_true_eq,
    Int.ofNat_eq_natCast]
  omega

/-- The scientific layout is read as the digits at their power of ten. -/
theorem reads_scientific (l : Layout) {ds : List Char} (hds : IsDigits ds) (hne : ds ≠ [])
    (e : Int) :
    Reads (l.scientific ds (e + Int.ofNat ds.length - 1)) (natOfDigits ds * 10 ^ e) := by
  have hmark : ∀ cs : List Char, EndsDigits ('e' :: cs) := by
    rintro cs _ ⟨⟩
    rfl
  have hlead := readExponent_lead l (e + Int.ofNat ds.length - 1)
  unfold Layout.scientific
  dsimp only
  revert hlead
  generalize (if e + Int.ofNat ds.length - 1 < 0 then _ else _ : List Char) = exponent
  intro hlead
  split
  · exact absurd rfl hne
  · next d =>
    have hread := readDigits_plain hds hne (hmark exponent) (by rintro ⟨⟩)
    rw [hlead] at hread
    refine ⟨_, hread, ?_⟩
    have hexponent : e + Int.ofNat [d].length - 1 = e := Int.add_sub_cancel e 1
    rw [toRat_mk, hexponent]
  · next d rest hrest =>
    have hd : IsDigits [d] := fun ch h => hds ch (by simp at h; simp [h])
    have htail : IsDigits rest := fun ch h => hds ch (List.mem_cons_of_mem _ h)
    have hread := readDigits_pointed hd (List.cons_ne_nil _ _) htail (hmark exponent)
    rw [hlead] at hread
    refine ⟨_, hread, ?_⟩
    have hexponent : e + Int.ofNat (d :: rest).length - 1 - Int.ofNat rest.length = e := by
      rw [List.length_cons, Int.ofNat_eq_natCast, Int.ofNat_eq_natCast]
      omega
    rw [toRat_mk, hexponent]
    rfl

/-- The digits that are written are read back as the decimal. -/
theorem reads_magnitude (l : Layout) (d : Digits) : Reads (l.magnitude d) d.toRat := by
  unfold Layout.magnitude
  split
  · next hzero =>
    have hread := reads_positional l (isDigits_zeros 1) (List.cons_ne_nil _ _) 0
    have hvalue : (natOfDigits (zeros 1) : ℚ) * 10 ^ (0 : Int) = d.toRat := by
      rw [Digits.toRat, hzero, Nat.cast_zero, zero_mul]
      exact mul_eq_zero_of_left Nat.cast_zero _
    exact hvalue ▸ hread
  · have hds := isDigits_digitsOf d.value
    have hne : digitsOf d.value ≠ [] := Nat.toDigits_ne_nil
    have hpositional := reads_positional l hds hne d.exponent
    have hscientific := reads_scientific l hds hne d.exponent
    rw [natOfDigits_digitsOf] at hpositional hscientific
    dsimp only
    split
    · exact hpositional
    · exact hscientific

/-! ## Signs -/

/-- What is read has no sign. -/
theorem splitSign_of_reads {cs : List Char} {x : ℚ} (h : Reads cs x) :
    splitSign cs = (false, cs) := by
  obtain ⟨d, hd, -⟩ := h
  unfold splitSign
  split
  · cases hd
  · cases hd
  · rfl

/-- The decimal that is written for a magnitude. -/
def writtenDigits (m : Nat) (q : Int) : Digits := if m = 0 then ⟨0, 0⟩ else shortest m q

/-- The text of a finite number, with its sign apart. -/
theorem splitSign_write (l : Layout) {x : Float} {negative : Bool} {m : Nat} {q : Int}
    (h : Binary64.ofFloat x = .finite negative m q) :
    splitSign (l.write x).toList = (negative, l.magnitude (writtenDigits m q)) := by
  have hbody := splitSign_of_reads (reads_magnitude l (writtenDigits m q))
  unfold Layout.write
  rw [h]
  dsimp only
  rw [String.toList_ofList]
  cases negative with
  | false => exact hbody
  | true => rfl

/-! ## Characters -/

/-- The characters of numbers. -/
def isNumeric (ch : Char) : Bool := ch.isDigit || ch == '.' || ch == 'e' || ch == '+' || ch == '-'

/-- Only characters of numbers. -/
def IsNumeric (cs : List Char) : Prop := ∀ ch ∈ cs, isNumeric ch = true

/-- Digits are among the characters of numbers. -/
theorem IsDigits.isNumeric {ds : List Char} (h : IsDigits ds) : IsNumeric ds := fun ch hmem => by
  rw [Decimal.isNumeric, h ch hmem]
  rfl

/-- Digits after the characters of a number are characters of a number. -/
theorem IsNumeric.append {cs ds : List Char} (hc : IsNumeric cs) (hd : IsNumeric ds) :
    IsNumeric (cs ++ ds) := fun ch h => (List.mem_append.1 h).elim (hc ch) (hd ch)

/-- A character of a number before others. -/
theorem IsNumeric.cons {ch : Char} {cs : List Char} (h : Decimal.isNumeric ch = true)
    (hc : IsNumeric cs) : IsNumeric (ch :: cs) := fun ch' hmem =>
  (List.mem_cons.1 hmem).elim (fun heq => heq ▸ h) (hc ch')

/-- The positional layout has the characters of numbers only. -/
theorem isNumeric_positional (l : Layout) {ds : List Char} (hds : IsDigits ds) (e : Int) :
    IsNumeric (l.positional ds e) := by
  have hdigits := hds.isNumeric
  have hzeros := fun k => (isDigits_zeros k).isNumeric
  unfold Layout.positional
  dsimp only
  split
  · refine (hdigits.append (hzeros _)).append ?_
    split
    · exact .cons rfl (hzeros 1)
    · exact nofun
  · split
    · refine .append (fun ch h => hdigits ch (List.mem_of_mem_take h)) (.cons rfl ?_)
      exact fun ch h => hdigits ch (List.mem_of_mem_drop h)
    · exact .cons rfl (.cons rfl ((hzeros _).append hdigits))

/-- The scientific layout has the characters of numbers only. -/
theorem isNumeric_scientific (l : Layout) {ds : List Char} (hds : IsDigits ds) (lead : Int) :
    IsNumeric (l.scientific ds lead) := by
  have hlead : IsNumeric (if lead < 0 then '-' :: digitsOf (-lead).toNat
      else (if l.plus then ['+'] else []) ++ digitsOf lead.toNat) := by
    split
    · exact .cons rfl (isDigits_digitsOf _).isNumeric
    · refine .append ?_ (isDigits_digitsOf _).isNumeric
      split
      · exact .cons rfl nofun
      · exact nofun
  have hd : ∀ d ∈ ds, Decimal.isNumeric d = true := hds.isNumeric
  unfold Layout.scientific
  dsimp only
  split
  · exact nofun
  · exact .cons (hd _ List.mem_cons_self) (.cons rfl hlead)
  · refine .cons (hd _ List.mem_cons_self) (.cons rfl (.append ?_ (.cons rfl hlead)))
    exact fun ch h => hd ch (List.mem_cons_of_mem _ h)

/-- Whatever layout is chosen, a number has the characters of numbers only. -/
theorem isNumeric_magnitude (l : Layout) (d : Digits) : IsNumeric (l.magnitude d) := by
  unfold Layout.magnitude
  split
  · exact isNumeric_positional l (isDigits_zeros 1) 0
  · dsimp only
    split
    · exact isNumeric_positional l (isDigits_digitsOf _) _
    · exact isNumeric_scientific l (isDigits_digitsOf _) _

/-- The text of a finite number has no other characters. -/
theorem isNumeric_write (l : Layout) {x : Float} {negative : Bool} {m : Nat} {q : Int}
    (h : Binary64.ofFloat x = .finite negative m q) : IsNumeric (l.write x).toList := by
  have hbody := isNumeric_magnitude l (writtenDigits m q)
  unfold Layout.write
  rw [h]
  dsimp only
  rw [String.toList_ofList]
  cases negative with
  | false => exact hbody
  | true => exact .cons rfl hbody

end BlockModels.Decimal
