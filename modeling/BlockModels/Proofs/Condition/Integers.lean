import BlockModels.Proofs.Condition.Reading
import BlockModels.Proofs.Decimal.Layout
import BlockModels.Proofs.Scalar.Nearest

/-!
# Comparing integers

A state that is an integer of 64 bits is compared with a literal that is one as floating-point
numbers, so each of the two is rounded first (`evaluate_rounded`). The order is not turned around by
that, and below 2 to the power of 53 nothing is rounded; but greater integers that are different may
be taken to be equal.
-/

namespace BlockModels.Decimal

open Binary64 (IsInt nearest nearest_neg nearest_natCast isInt_ofNat signed)

/-! ## Integers as literals -/

/-- A natural number of 64 bits is read as the float that the library makes of it. -/
theorem nearestFloat_zero {n : Nat} (hn : n < 2 ^ 64) : nearestFloat n 0 = Float.ofNat n := by
  rcases Nat.eq_zero_or_pos n with rfl | hpos
  · rfl
  · have hlength : (Nat.toDigits 10 n).length ≤ 20 :=
      (Nat.length_toDigits_le_iff (by decide) (by decide)).2 (by omega)
    simp only [nearestFloat, Int.ofNat_eq_natCast, Nat.ne_of_gt hpos, decide_false, Bool.false_or]
    rw [if_neg (by simp), if_neg (by omega), if_neg (by omega)]
    rfl

/-- Digits have no upper case. -/
theorem toLower_of_isDigit {ch : Char} (h : ch.isDigit = true) : ch.toLower = ch := by
  have hnine : ch.val.toNat ≤ 57 := (Char.isDigit_iff_toNat.1 h).2
  refine dif_neg fun hupper => ?_
  have hletter : 65 ≤ ch.val.toNat := UInt32.le_iff_toNat_le.1 hupper.1
  omega

/-- Digits are no word. -/
theorem map_toLower_ne {ds word : List Char} (hds : IsDigits ds) (hne : ds ≠ [])
    (hword : ∀ ch ∈ word.head?, ch.isDigit = false) : ds.map Char.toLower ≠ word := by
  rintro rfl
  obtain ⟨ch, rest, rfl⟩ := List.exists_cons_of_ne_nil hne
  have hdigit := hds ch List.mem_cons_self
  have hnot := hword _ rfl
  rw [toLower_of_isDigit hdigit, hdigit] at hnot
  cases hnot

/-- Digits are read as the float of their number. -/
theorem readMagnitude_of_readNat {ds : List Char} {n : Nat} (hds : readNat ds = some n)
    (hn : n < 2 ^ 64) : readMagnitude ds = some (Float.ofNat n) := by
  obtain ⟨hne, hdigits⟩ := Condition.isDigit_of_readNat hds
  have hplain := readDigits_plain hdigits hne (show EndsDigits [] from nofun) nofun
  have hvalue : natOfDigits ds = n := by
    unfold readNat at hds
    split at hds
    · cases hds
    · exact Option.some.inj hds
  rw [List.append_nil] at hplain
  rw [readMagnitude_eq, hplain, hvalue, ← nearestFloat_zero hn]
  rfl

/-- A whole number of digits is read as the float of it, with its sign. -/
theorem readFloat_of_readNat {cs ds : List Char} {negative : Bool} {n : Nat}
    (hsign : splitSign cs = (negative, ds)) (hds : readNat ds = some n) (hn : n < 2 ^ 64) :
    readFloat cs = some (signed negative n) := by
  obtain ⟨hne, hdigits⟩ := Condition.isDigit_of_readNat hds
  have hword : ∀ word : List Char, (∀ ch ∈ word.head?, ch.isDigit = false) →
      ds.map Char.toLower ≠ word := fun word => map_toLower_ne hdigits hne
  rw [readFloat, hsign]
  refine Option.map_eq_some_iff.2 ⟨Float.ofNat n, ?_, rfl⟩
  split
  · next heq => exact absurd heq (hword _ (by simp))
  · next heq => exact absurd heq (hword _ (by simp))
  · next heq => exact absurd heq (hword _ (by simp))
  · exact readMagnitude_of_readNat hds hn

/-- An integer is read from a sign, digits and bounds. -/
theorem exists_readNat_of_readInt {low high i : Int} {cs : List Char}
    (h : readInt low high cs = some i) :
    ∃ negative ds n, splitSign cs = (negative, ds) ∧ readNat ds = some n ∧
      (i = if negative then -(n : Int) else n) ∧ low ≤ i ∧ i ≤ high := by
  cases hsign : splitSign cs with
  | mk negative ds =>
    rw [readInt, hsign] at h
    obtain ⟨n, hds, h⟩ := Option.bind_eq_some_iff.1 h
    obtain ⟨hbounds, hi⟩ := Option.ite_none_right_eq_some.1 h
    cases hi
    exact ⟨negative, ds, n, rfl, hds, rfl, hbounds⟩

/-- An integer of 64 bits is read as the float that is nearest. -/
theorem readFloat_of_readInt {low high i : Int} {cs : List Char}
    (h : readInt low high cs = some i) (hi : i.natAbs < 2 ^ 64) :
    ∃ x, readFloat cs = some x ∧ IsInt x (nearest i) := by
  obtain ⟨negative, ds, n, hsign, hds, rfl, -⟩ := exists_readNat_of_readInt h
  have hn : n < 2 ^ 64 := by
    split at hi <;> omega
  refine ⟨signed negative n, readFloat_of_readNat hsign hds hn, ?_⟩
  have hnat := isInt_ofNat hn
  rw [← nearest_natCast] at hnat
  cases negative with
  | false => exact hnat
  | true =>
    rw [if_pos rfl, nearest_neg]
    exact hnat.neg

end BlockModels.Decimal

namespace BlockModels.Condition

open Text (IsPad IsTrimmed trimChars)
open Binary64 (IsInt nearest)

/-! ## Comparisons -/

/-- Two integers compared. -/
def Comparison.ofInts : Comparison → Int → Int → Bool
  | .eq, i, j => decide (i = j)
  | .ne, i, j => decide (i ≠ j)
  | .ge, i, j => decide (j ≤ i)
  | .le, i, j => decide (i ≤ j)
  | .gt, i, j => decide (j < i)
  | .lt, i, j => decide (i < j)

/-- Floating-point numbers that are integers are compared as integers. -/
theorem Comparison.ofFloats_of_isInt (op : Comparison) {x y : Float} {i j : Int} (hx : IsInt x i)
    (hy : IsInt y j) : op.ofFloats x y = op.ofInts i j := by
  have heq : (x == y) = decide (i = j) :=
    Bool.eq_iff_iff.2 ((hx.beq_iff hy).trans decide_eq_true_iff.symm)
  cases op with
  | eq => exact heq
  | ne => rw [ofFloats, ofInts, heq, decide_not]
  | ge => exact decide_eq_decide.2 (hy.le_iff hx)
  | le => exact decide_eq_decide.2 (hx.le_iff hy)
  | gt => exact decide_eq_decide.2 (hy.lt_iff hx)
  | lt => exact decide_eq_decide.2 (hx.lt_iff hy)

/-- What is not taken to be equal is compared as if nothing were rounded. -/
theorem Comparison.ofInts_nearest (op : Comparison) {i j : Int}
    (h : nearest i = nearest j → i = j) : op.ofInts (nearest i) (nearest j) = op.ofInts i j := by
  have heq : nearest i = nearest j ↔ i = j := ⟨h, congrArg nearest⟩
  have hle := Binary64.nearest_le_nearest_iff h
  have hge := Binary64.nearest_le_nearest_iff fun hji => (h hji.symm).symm
  cases op with
  | eq => exact decide_eq_decide.2 heq
  | ne => exact decide_eq_decide.2 (not_congr heq)
  | ge => exact decide_eq_decide.2 hge
  | le => exact decide_eq_decide.2 hle
  | gt => exact decide_eq_decide.2 (lt_iff_lt_of_le_iff_le hle)
  | lt => exact decide_eq_decide.2 (lt_iff_lt_of_le_iff_le hge)

/-- An integer of 64 bits has a magnitude of 64 bits. -/
theorem natAbs_toInt_lt (k : Int64) : k.toInt.natAbs < 2 ^ 64 := by
  have hlow := k.le_toInt
  have hhigh := k.toInt_lt
  omega

/-- An integer and a literal that is one are both rounded. -/
theorem compareValue?_int {w k : Int64} {op : Comparison} {digits : List Char}
    (hk : int64? digits = some k) : compareValue? (.int w) op digits =
      some (op.ofInts (nearest w.toInt) (nearest k.toInt)) := by
  obtain ⟨i, hi, rfl⟩ := Option.map_eq_some_iff.1 hk
  have hinverse : (Int64.ofInt i).toInt = i := by
    obtain ⟨_, _, _, -, -, -, hlow, hhigh⟩ := Decimal.exists_readNat_of_readInt hi
    rw [minSigned64] at hlow
    rw [maxSigned64] at hhigh
    exact Int64.toInt_ofInt_of_le (by omega) (by omega)
  obtain ⟨x, hx, hint⟩ := Decimal.readFloat_of_readInt hi (hinverse ▸ natAbs_toInt_lt _)
  have hfloat := Binary64.isInt_ofInt (natAbs_toInt_lt w)
  have hcompare : compareValue? (.int w) op digits =
      some (op.ofFloats (Float.ofInt w.toInt) x) := by
    simp only [compareValue?, StateValue.number?, hx]
  rw [hcompare, op.ofFloats_of_isInt hfloat hint, hinverse]

/-! ## Conditions -/

/-- The characters of operators. -/
def operatorChars : List Char := ['=', '!', '<', '>', '&', '|', '?']

/-- A value, with a number for it or a mask behind it or without, compared with an integer. The name
is any text without operators. -/
inductive IntegerWritten : List Char → Option Modifier → Comparison → Int64 → List Char → Prop
  | mk {name after p q digits : List Char} {m : Option Modifier} {op : Comparison} {k : Int64} :
      name ≠ [] → IsTrimmed name → (∀ c ∈ operatorChars, c ∉ name) → ModifierWritten m after →
      IsPad p → IsPad q → int64? digits = some k →
      IntegerWritten name m op k (name ++ after ++ p ++ op.symbol ++ (q ++ digits))

variable {name subject cs : List Char} {m : Option Modifier} {op : Comparison} {k w : Int64}
  {entity : Bool}

/-- The characters of operators are reserved. -/
theorem mem_reserved_of_mem_operatorChars : ∀ c ∈ operatorChars, c ∈ reserved :=
  List.all_iff_forall_prop.1 (by decide)

/-- A modifier does not change what a name is about. -/
theorem ModifierWritten.isAbout {after : List Char} (h : ModifierWritten m after)
    (habout : IsAbout name entity subject) : IsAbout (name ++ after) entity (subject ++ after) := by
  cases entity with
  | true =>
    have heq : name = entityMark ++ subject := habout
    exact heq ▸ List.append_assoc ..
  | false =>
    obtain ⟨rfl, hmark⟩ := habout
    exact ⟨rfl, Text.behind?_eq_none_iff.1 (Text.behind?_append_eq_none hmark h.head?_notMem)⟩

/-- A name is read with what is behind it. -/
theorem ModifierWritten.subjectRead {after : List Char} (h : ModifierWritten m after)
    (hask : '?' ∉ name) (hand : '&' ∉ name) :
    ∃ p, IsPad p ∧ SubjectRead (name ++ after) (name ++ p) m := by
  have hask' : '?' ∈ reserved := by decide
  have hand' : '&' ∈ reserved := by decide
  have hpair : ∀ {cs : List Char}, '?' ∉ cs → ¬['?', '?'] <:+: cs := fun hcs hmem =>
    hcs (hmem.subset List.mem_cons_self)
  cases h with
  | none =>
    refine ⟨[], nofun, ?_⟩
    rw [List.append_nil]
    exact .plain (hpair hask) hand
  | @orElse n p q digits hp hq hn =>
    refine ⟨p, hp, ?_⟩
    rw [← List.append_assoc]
    refine .orElse (Text.unpaired_of_notMem ?_) (int64?_trimChars hq hn)
    simp [hask, notMem_pad hask' hp]
  | @mask n p q digits hp hq hn =>
    refine ⟨p, hp, ?_⟩
    rw [← List.append_assoc]
    refine .mask (hpair ?_) ?_ (int64?_trimChars hq hn)
    · simp [hask, notMem_pad hask' hp, notMem_pad hask' hq, notMem_digits hask' hn]
    · simp [hand, notMem_pad hand' hp]

/-- Digits have no quotes to take off. -/
theorem unquote_digits {digits : List Char} (h : int64? digits = some k) :
    Text.unquote digits = digits := by
  refine unquote_written (.plain ⟨isTrimmed_digits h, fun c hc => notMem_digits hc h⟩)

/-- What is written is read, with a name that is that of a state or that of a property. -/
theorem IntegerWritten.isRead (h : IntegerWritten name m op k cs)
    (habout : IsAbout name entity subject) (hne : trimChars subject ≠ []) :
    ∃ digits, int64? digits = some k ∧
      IsRead cs (.compare entity (String.ofList (trimChars subject)) m op digits) := by
  have hreserved := mem_reserved_of_mem_operatorChars
  have hcomparison : ∀ c ∈ ['=', '!', '<', '>'], c ∈ operatorChars ∧ c ≠ '?' ∧ c ≠ '&' :=
    List.all_iff_forall_prop.1 (by decide)
  have hsubset : ∀ c ∈ subject, c ∈ name := by
    cases entity with
    | true =>
      have heq : name = entityMark ++ subject := habout
      exact fun c hc => heq ▸ List.mem_append_right _ hc
    | false => exact fun c hc => habout.1 ▸ hc
  cases h with
  | @mk after p q digits _ _ _ hname htrimmed hchars hafter hp hq hk =>
    have hcompares : splitComparison? (name ++ after ++ p ++ op.symbol ++ (q ++ digits)) = some
        (name ++ after ++ p, op, q ++ digits) := by
      refine splitComparison?_append (fun c hc hmem => ?_) op fun hhead => ?_
      · obtain ⟨hop, hask, hand⟩ := hcomparison c hmem
        simp only [List.mem_append] at hc
        obtain (hc | hc) | hc := hc
        · exact hchars c hop hc
        · exact hafter.notMem (hreserved c hop) hask hand hc
        · exact notMem_pad (hreserved c hop) hp hc
      · rcases List.mem_append.1 (List.mem_of_head? hhead) with hmem | hmem
        · exact notMem_pad (by decide) hq hmem
        · exact notMem_digits (by decide) hk hmem
    have hleft : trimChars (name ++ after ++ p) = name ++ after :=
      Text.trimChars_pad_right (hafter.isTrimmed htrimmed hname) hp
    have hliteral : Term.parse.literal (q ++ digits) = digits := by
      rw [Term.parse.literal, Text.trimChars_pad_left hq (isTrimmed_digits hk), unquote_digits hk]
    obtain ⟨pad, hpad, hread⟩ := hafter.subjectRead
      (fun hmem => hchars '?' (by decide) (hsubset _ hmem))
      (fun hmem => hchars '&' (by decide) (hsubset _ hmem))
    have htrim : trimChars (subject ++ pad) = trimChars subject :=
      Text.trimChars_pad (p := []) (by decide) hpad subject
    have hterm := IsRead.compare (splitComparison?_eq_some_iff.1 hcompares)
      (hleft ▸ hafter.isAbout habout) hread (htrim ▸ hne)
    rw [htrim, hliteral] at hterm
    exact ⟨digits, hk, hterm⟩

/-- A comparison with an integer has no blanks around it and is not empty. -/
theorem IntegerWritten.isTrimmed (h : IntegerWritten name m op k cs) :
    IsTrimmed cs ∧ cs ≠ [] := by
  cases h with
  | @mk after p q digits _ _ _ hname htrimmed hchars hafter hp hq hk =>
    have hdigits := (chars_of_int64? hk).1
    have hlong := htrimmed.append_append hname (isTrimmed_digits hk) hdigits
      (after ++ p ++ op.symbol ++ q)
    exact ⟨by simpa using hlong, by simp [hname]⟩

/-- A comparison with an integer is one term of one group. -/
theorem IntegerWritten.unpaired (h : IntegerWritten name m op k cs) :
    Text.Unpaired '|' cs ∧ Text.Unpaired '&' cs := by
  have hand : '&' ∈ reserved := by decide
  have hbar : '|' ∈ reserved := by decide
  cases h with
  | @mk after p q digits _ _ _ hname htrimmed hchars hafter hp hq hk =>
    constructor
    · refine Text.unpaired_of_notMem ?_
      simp [hchars '|' (by decide), hafter.notMem hbar (by decide) (by decide), notMem_pad hbar hp,
        op.notMem_symbol '|' (by decide), notMem_pad hbar hq, notMem_digits hbar hk]
    · have hcut : name ++ after ++ p ++ op.symbol ++ (q ++ digits) =
          name ++ after ++ (p ++ op.symbol ++ (q ++ digits)) := by
        simp only [List.append_assoc]
      rw [hcut]
      refine hafter.unpaired (hchars '&' (by decide)) ?_ (by simp [op.isTrimmed_symbol.2])
      simp [notMem_pad hand hp, op.notMem_symbol '&' (by decide), notMem_pad hand hq,
        notMem_digits hand hk]

/-- A condition that compares an integer with one compares what the two are rounded to. Where they
are not rounded to the same integer, and where one of them is less than `2 ^ 53`, this is what
comparing the two themselves would be. -/
theorem evaluate_rounded {b : Block} {text : String}
    (htext : IntegerWritten name m op k text.toList) (habout : IsAbout name entity subject)
    (hne : trimChars subject ≠ []) (hvalue : Modifier.adjust? m
      (stored? b entity (String.ofList (trimChars subject))) = some (.int w)) :
    evaluate b text = ⟨op.ofInts (nearest w.toInt) (nearest k.toInt), []⟩ ∧
      (nearest w.toInt ≠ nearest k.toInt ∨ w.toInt.natAbs < 2 ^ 53 ∨ k.toInt.natAbs < 2 ^ 53 →
        evaluate b text = ⟨op.ofInts w.toInt k.toInt, []⟩) := by
  obtain ⟨digits, hk, hread⟩ := htext.isRead habout hne
  obtain ⟨htrimmed, hcs⟩ := htext.isTrimmed
  obtain ⟨hbar, hand⟩ := htext.unpaired
  have hterm : evaluateTerm b text.toList =
      ⟨op.ofInts (nearest w.toInt) (nearest k.toInt), []⟩ := by
    have htruth : Term.value? b (.compare entity (String.ofList (trimChars subject)) m op digits) =
        some (op.ofInts (nearest w.toInt) (nearest k.toInt)) := by
      rw [Term.value?, hvalue, Option.bind_some, compareValue?_int hk]
    have houtcome : termOutcome b (trimChars text.toList) =
        .holds (op.ofInts (nearest w.toInt) (nearest k.toInt)) := by
      rw [Text.trimChars_of_isTrimmed htrimmed, termOutcome, parse_eq_ok_iff.2 hread]
      exact Term.outcome_of_value? htruth
    simp only [evaluateTerm, houtcome, Outcome.value, Outcome.notes]
  have hblank : (trimChars text.toList).isEmpty = false := by
    rw [Text.trimChars_of_isTrimmed htrimmed]
    exact List.isEmpty_eq_false_iff.2 hcs
  have hrounded : evaluate b text = ⟨op.ofInts (nearest w.toInt) (nearest k.toInt), []⟩ := by
    simp only [evaluate, hblank, Bool.false_eq_true, if_false, groups_of_unpaired hbar hand,
      List.anyM, List.allM, hterm]
    cases op.ofInts (nearest w.toInt) (nearest k.toInt) <;> rfl
  refine ⟨hrounded, fun happart => ?_⟩
  rw [hrounded, op.ofInts_nearest fun heq => ?_]
  rcases happart with hne | hw | hk
  · exact absurd heq hne
  · exact (Binary64.eq_of_nearest_eq heq.symm hw).symm
  · exact Binary64.eq_of_nearest_eq heq hk

/-- Two integers of 54 bits are taken to be equal, and a mask takes one apart from the other. -/
theorem evaluate_rounded_of_odd :
    let b : Block := {
      name := "clock", states := Table.empty.insert "ticks of day" (.int 9007199254740993) }
    let equal := "ticks of day == 9007199254740992"
    let masked := "ticks of day & 7 < 9007199254740992"
    IntegerWritten "ticks of day".toList none .eq 9007199254740992 equal.toList ∧
      evaluate b equal = ⟨true, []⟩ ∧
      Comparison.eq.ofInts 9007199254740993 9007199254740992 = false ∧
      IntegerWritten "ticks of day".toList (some (.mask 7)) .lt 9007199254740992 masked.toList ∧
      evaluate b masked = ⟨Comparison.lt.ofInts 1 9007199254740992, []⟩ := by
  intro b equal masked
  let name := "ticks of day".toList
  have hname : name ≠ [] ∧ IsTrimmed name ∧ (∀ c ∈ operatorChars, c ∉ name) ∧
      IsAbout name false name ∧ trimChars name ≠ [] :=
    ⟨by decide +kernel, by decide +kernel, List.all_iff_forall_prop.1 (by decide +kernel),
      ⟨rfl, by decide +kernel⟩, by decide +kernel⟩
  obtain ⟨hfilled, htrimmed, hchars, habout, hne⟩ := hname
  have hblank : IsPad [' '] := by decide
  have hlimit : int64? "9007199254740992".toList = some 9007199254740992 := by decide +kernel
  have hequal : IntegerWritten name none .eq 9007199254740992 equal.toList := by
    have htext : equal.toList = name ++ [] ++ [' '] ++ Comparison.eq.symbol ++
        ([' '] ++ "9007199254740992".toList) := by decide +kernel
    rw [htext]
    exact .mk hfilled htrimmed hchars .none hblank hblank hlimit
  have hmasked : IntegerWritten name (some (.mask 7)) .lt 9007199254740992 masked.toList := by
    have htext : masked.toList = name ++ ([' '] ++ '&' :: ([' '] ++ ['7'])) ++ [' '] ++
        Comparison.lt.symbol ++ ([' '] ++ "9007199254740992".toList) := by decide +kernel
    rw [htext]
    exact .mk hfilled htrimmed hchars (.mask hblank hblank (by decide)) hblank hblank hlimit
  have hstored : stored? b false (String.ofList (trimChars name)) =
      some (.int 9007199254740993) := by decide +kernel
  have hshared : Modifier.adjust? (some (.mask 7))
      (stored? b false (String.ofList (trimChars name))) = some (.int 1) := by
    rw [hstored]
    decide
  obtain ⟨htrue, -⟩ := evaluate_rounded hequal habout hne hstored
  obtain ⟨-, hexact⟩ := evaluate_rounded hmasked habout hne hshared
  exact ⟨hequal, htrue, by decide, hmasked, hexact (.inr (.inl (by decide)))⟩

end BlockModels.Condition
