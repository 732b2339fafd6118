import BlockModels.Placeholder.Path
import BlockModels.Proofs.Condition.Grammar
import BlockModels.Proofs.Decimal.Layout
import BlockModels.Proofs.Scalar.Written

/-!
# Slices

A slice of a text or an array has the items at the positions from its first bound on up to its
second one (`itemsBetween`). A bound is taken as it is or, if it is negative, counted from the end;
in both cases it is brought between the ends (`boundPlace`). So what is before a position and what
is from it on make up the whole (`sliceList_append`).

A bound is an integer of 64 bits with a sign, and a length is a word without one. In words a bound
is negated, which goes beyond the range for the least one, and compared with a length, which it may
exceed by far; and a range that does not lie in a list has no items to give. None of this happens
to a slice: in words it is the same (`sliceWord?_eq_some`).

In a path a slice is a step in brackets behind what leads to the value (`parse_append`). Its bounds
are written in decimal, with blanks around them, and an integer that is too great for a bound is
refused (`slices_areRanges`).
-/

namespace BlockModels.Placeholder

variable {β : Type} {items : List β}

/-! ## Ranges -/

/-- Where a bound lies among some items: a negative one counts from the end, and one beyond an end
is that end. -/
def boundPlace (length default : Nat) : Option Int64 → Int
  | none => default
  | some k => max 0 (min length (if k.toInt < 0 then length + k.toInt else k.toInt))

/-- The items at the positions from one on up to another one. -/
def itemsBetween (items : List β) (low high : Int) : List β :=
  (items.zipIdx.filter fun e => decide (low ≤ e.2 ∧ e.2 < high)).map (·.1)

/-- The items between two bounds: those from the first on if there is no lower bound, those up to
the last if there is no upper one. -/
def rangeOf (items : List β) (low high : Option Int64) : List β :=
  itemsBetween items (boundPlace items.length 0 low) (boundPlace items.length items.length high)

/-- The place of a bound, found without going below zero, is the one that is defined over the
integers. -/
theorem sliceBound_eq (length default : Nat) (bound : Option Int64) :
    (sliceBound length default bound : Int) = boundPlace length default bound := by
  cases bound with
  | none => rfl
  | some k =>
    simp only [sliceBound, boundPlace, Nat.min_def]
    split
    · omega
    · split <;> omega

/-- The items between two positions, if positions are counted from a number on. -/
theorem map_filter_zipIdx (items : List β) (a b start : Nat) :
    ((items.zipIdx start).filter fun e => decide ((a : Int) ≤ e.2 ∧ e.2 < (b : Int))).map (·.1) =
      (items.drop (a - start)).take (b - max a start) := by
  induction items generalizing start with
  | nil => simp
  | cons item rest ih =>
    rw [List.zipIdx_cons, List.filter_cons]
    by_cases hlow : a ≤ start
    · have hdrop : a - start = 0 ∧ a - (start + 1) = 0 := by omega
      by_cases hhigh : start < b
      · have hin : decide ((a : Int) ≤ start ∧ (start : Int) < b) = true :=
          decide_eq_true (by omega)
        have htake : b - max a start = b - max a (start + 1) + 1 := by omega
        simp only [hin, if_true, List.map_cons, ih, hdrop, htake, List.drop_zero,
          List.take_succ_cons]
      · have hout : decide ((a : Int) ≤ start ∧ (start : Int) < b) = false :=
          decide_eq_false (by omega)
        have htake : b - max a start = 0 ∧ b - max a (start + 1) = 0 := by omega
        simp only [hout, Bool.false_eq_true, if_false, ih, htake, List.take_zero]
    · have hout : decide ((a : Int) ≤ start ∧ (start : Int) < b) = false :=
        decide_eq_false (by omega)
      have hdrop : a - start = a - (start + 1) + 1 := by omega
      have htake : max a start = max a (start + 1) := by omega
      simp only [hout, Bool.false_eq_true, if_false, ih, hdrop, htake, List.drop_succ_cons]

/-- A slice is the range between its bounds. -/
theorem sliceList_eq_rangeOf (items : List β) (low high : Option Int64) :
    sliceList items low high = rangeOf items low high := by
  rw [rangeOf, itemsBetween, ← sliceBound_eq, ← sliceBound_eq, map_filter_zipIdx, Nat.max_zero]
  rfl

/-- What is before a position and what is from it on are all items. -/
theorem sliceList_append (items : List β) (k : Int64) :
    sliceList items none (some k) ++ sliceList items (some k) none = items := by
  have hcut : sliceBound items.length items.length (some k) =
    sliceBound items.length 0 (some k) := rfl
  simp only [sliceList, sliceBound.eq_1, List.drop_zero, Nat.sub_zero, hcut]
  rw [List.take_of_length_le (l := items.drop _) (by rw [List.length_drop]), List.take_append_drop]

/-! ## Words -/

/-- Where a bound lies, in words of 64 bits. -/
def sliceBoundWord (length default : UInt64) : Option Int64 → UInt64
  | none => default
  | some k =>
    if k < 0 then
      let back := (-k).toUInt64
      if back ≤ length then length - back else 0
    else if k.toUInt64 ≤ length then k.toUInt64 else length

/-- The items of a range, which has to lie in the list. -/
def range? (items : List β) (a b : Nat) : Option (List β) :=
  if a ≤ b ∧ b ≤ items.length then some ((items.drop a).take (b - a)) else none

/-- The items between two bounds, in words of 64 bits. -/
def sliceWord? (items : List β) (low high : Option Int64) : Option (List β) :=
  let length := UInt64.ofNat items.length
  let a := sliceBoundWord length 0 low
  let b := sliceBoundWord length length high
  if a < b then range? items a.toNat b.toNat else some []

/-- The word of an integer with a sign. -/
theorem toNat_toUInt64 (k : Int64) :
    (k.toUInt64.toNat : Int) = if k.toInt < 0 then k.toInt + 2 ^ 64 else k.toInt := by
  have hword : k.toInt = k.toUInt64.toBitVec.toInt := rfl
  have hlt := k.toUInt64.toNat_lt
  rw [hword, BitVec.toInt_eq_toNat_cond, UInt64.toNat_toBitVec]
  split <;> split <;> omega

/-- In words a bound lies in the same place. The least integer is its own negation, and the word of
it is how far it counts from the end. -/
theorem toNat_sliceBoundWord (length default : UInt64) (bound : Option Int64) :
    (sliceBoundWord length default bound).toNat =
      sliceBound length.toNat default.toNat bound := by
  cases bound with
  | none => rfl
  | some k =>
    have hword := toNat_toUInt64 k
    have hlow := k.le_toInt
    have hhigh := k.toInt_lt
    have hneg : k < 0 ↔ k.toInt < 0 := Int64.lt_iff_toInt_lt
    simp only [sliceBoundWord, sliceBound, hneg]
    by_cases h : k.toInt < 0
    · have hback : (-k).toUInt64.toNat = k.toInt.natAbs := by
        rw [if_pos h] at hword
        rw [Int64.toUInt64_neg, UInt64.toNat_neg]
        simp only [UInt64.size]
        omega
      rw [if_pos h, if_pos h, ← hback]
      split
      next hle => exact UInt64.toNat_sub_of_le _ _ hle
      next hle =>
        rw [UInt64.le_iff_toNat_le] at hle
        exact (Nat.sub_eq_zero_of_le (Nat.le_of_not_le hle)).symm
    · have hnat : k.toUInt64.toNat = k.toInt.toNat := by
        rw [if_neg h] at hword
        omega
      rw [if_neg h, if_neg h, ← hnat]
      split
      next hle => exact (Nat.min_eq_left (UInt64.le_iff_toNat_le.1 hle)).symm
      next hle =>
        rw [UInt64.le_iff_toNat_le] at hle
        exact (Nat.min_eq_right (Nat.le_of_not_le hle)).symm

/-- No bound is placed beyond the end. -/
theorem sliceBound_le {length default : Nat} (h : default ≤ length) (bound : Option Int64) :
    sliceBound length default bound ≤ length := by
  cases bound with
  | none => exact h
  | some k =>
    rw [sliceBound]
    split
    · exact Nat.sub_le _ _
    · exact Nat.min_le_right _ _

/-- In words a slice has the same items, and no range is taken that does not lie in the list. -/
theorem sliceWord?_eq_some (h : items.length ≤ maxUnsigned64) (low high : Option Int64) :
    sliceWord? items low high = some (sliceList items low high) := by
  have hlength : (UInt64.ofNat items.length).toNat = items.length :=
    UInt64.toNat_ofNat_of_lt' (Nat.lt_succ_of_le h)
  have hend := sliceBound_le (Nat.le_refl items.length) high
  simp only [sliceWord?, sliceList, UInt64.lt_iff_toNat_lt, toNat_sliceBoundWord, hlength,
    UInt64.toNat_zero]
  split
  next hlt => exact if_pos ⟨hlt.le, hend⟩
  next hlt => rw [Nat.sub_eq_zero_of_le (Nat.le_of_not_lt hlt), List.take_zero]

/-! ## Values -/

/-- The values that consist of items: texts of characters, arrays of values. -/
inductive IsSequence : {β : Type} → (List β → Json) → Prop
  | text : IsSequence fun cs : List Char => .str (String.ofList cs)
  | array : IsSequence Json.arr

/-- The slice of a sequence is made of a slice of its items. -/
theorem IsSequence.sliceOf_eq {wrap : List β → Json} (h : IsSequence wrap) (items : List β)
    (low high : Option Int64) :
    sliceOf low high (wrap items) = wrap (sliceList items low high) := by
  cases h with
  | text => rw [sliceOf, String.toList_ofList]
  | array => rfl

/-! ## Steps in brackets -/

/-- A step in brackets. -/
def bracketText (inside : List Char) : List Char := '[' :: (inside ++ [']'])

/-- The name in front of a bracket ends there. -/
theorem takeWhile_append_bracketText (cs inside : List Char) :
    (cs ++ bracketText inside).takeWhile (fun c => !endsName c) =
      cs.takeWhile fun c => !endsName c :=
  Text.takeWhile_append_mark rfl _ _

/-- A step in brackets stays when the name in front of it is taken off. -/
theorem dropWhile_append_bracketText (cs inside : List Char) :
    (cs ++ bracketText inside).dropWhile (fun c => !endsName c) =
      (cs.dropWhile fun c => !endsName c) ++ bracketText inside :=
  Text.dropWhile_append_mark rfl _ _

/-- Nothing is no steps. -/
theorem readSteps_nil (fuel : Nat) : readSteps fuel [] = .ok [] := by
  cases fuel <;> rfl

/-- A step in brackets is read up to its closing bracket, and the others after it. -/
theorem readSteps_bracket {inside : List Char} (h : ']' ∉ inside) (rest : List Char) (fuel : Nat) :
    readSteps (fuel + 1) (bracketText inside ++ rest) = do
      let step ← readBracket inside
      let steps ← readSteps fuel rest
      return step :: steps := by
  have hcut := Text.cutAt_append h rest
  rw [bracketText, List.cons_append, List.append_assoc, readSteps, List.singleton_append, hcut]

section

variable {inside : List Char} {cs : List Char}

/-- One more step in brackets is read behind the others. -/
theorem readSteps_append (hinside : ']' ∉ inside) {fuel : Nat} {steps : List Accessor}
    (h : readSteps fuel cs = .ok steps) (hfuel : cs.length ≤ fuel) {fuel' : Nat}
    (hfuel' : cs.length < fuel') : readSteps fuel' (cs ++ bracketText inside) =
      (readBracket inside).map fun step => steps ++ [step] := by
  have hlast : ∀ {n : Nat}, 0 < n → readSteps n (bracketText inside) =
      (readBracket inside).map fun step => [step] := by
    intro n hn
    obtain ⟨n, rfl⟩ := Nat.exists_eq_succ_of_ne_zero (Nat.ne_of_gt hn)
    have hstep := readSteps_bracket hinside [] n
    rw [List.append_nil, readSteps_nil] at hstep
    rw [hstep]
    cases readBracket inside <;> rfl
  fun_induction readSteps fuel cs generalizing steps fuel' with
  | case1 cs =>
    obtain rfl : cs = [] := List.eq_nil_of_length_eq_zero (by omega)
    cases h
    exact hlast hfuel'
  | case2 fuel =>
    cases h
    exact hlast hfuel'
  | case3 => cases h
  | case4 fuel rest key hkey =>
    rename_i ih
    obtain ⟨n, rfl⟩ := Nat.exists_eq_succ_of_ne_zero (Nat.ne_of_gt (Nat.zero_lt_of_lt hfuel'))
    rw [List.length_cons] at hfuel hfuel'
    have hle : (rest.dropWhile fun c => !endsName c).length ≤ rest.length :=
      (List.dropWhile_suffix _).length_le
    cases hsteps : readSteps fuel (rest.dropWhile fun c => !endsName c) with
    | error e => rw [hsteps] at h; cases h
    | ok later =>
      rw [hsteps] at h
      cases h
      have hih : readSteps n (rest.dropWhile (fun c => !endsName c) ++ bracketText inside) =
          (readBracket inside).map fun step => later ++ [step] := ih hsteps (by omega) (by omega)
      rw [List.cons_append, readSteps]
      simp only [takeWhile_append_bracketText, dropWhile_append_bracketText, hih]
      rw [if_neg hkey]
      cases readBracket inside <;> rfl
  | case5 => cases h
  | case6 fuel rest inside' rest' hcut ih =>
    obtain ⟨n, rfl⟩ := Nat.exists_eq_succ_of_ne_zero (Nat.ne_of_gt (Nat.zero_lt_of_lt hfuel'))
    obtain ⟨rfl, hinside'⟩ := Text.cutAt_eq_some hcut
    rw [List.length_cons, List.length_append, List.length_cons] at hfuel hfuel'
    cases hstep : readBracket inside' with
    | error e => rw [hstep] at h; cases h
    | ok step =>
      cases hsteps : readSteps fuel rest' with
      | error e => rw [hstep, hsteps] at h; cases h
      | ok later =>
        rw [hstep, hsteps] at h
        cases h
        have hih : readSteps n (rest' ++ bracketText inside) =
            (readBracket inside).map fun step => later ++ [step] := ih hsteps (by omega) (by omega)
        have hnext := readSteps_bracket hinside' (rest' ++ bracketText inside) n
        have htext : '[' :: (inside' ++ ']' :: rest') ++ bracketText inside =
            bracketText inside' ++ (rest' ++ bracketText inside) := by
          simp [bracketText]
        rw [htext, hnext, hstep, hih]
        cases readBracket inside <;> rfl
  | case7 => cases h

/-- A path with one more step in brackets is read as that path with one more step. -/
theorem parse_append (hinside : ']' ∉ inside) {p : Path} (h : Path.parse cs = .ok p) :
    Path.parse (cs ++ bracketText inside) =
      (readBracket inside).map fun step => { p with steps := p.steps ++ [step] } := by
  unfold Path.parse at h ⊢
  rw [takeWhile_append_bracketText, dropWhile_append_bracketText]
  simp only at h ⊢
  cases hroot : Root.ofName? (cs.takeWhile fun c => !endsName c) with
  | none => simp only [hroot] at h; cases h
  | some root =>
    simp only [hroot] at h ⊢
    cases hsteps : readSteps cs.length (cs.dropWhile fun c => !endsName c) with
    | error e => rw [hsteps] at h; cases h
    | ok steps =>
      rw [hsteps] at h
      cases h
      have hle : (cs.dropWhile fun c => !endsName c).length ≤ cs.length :=
        (List.dropWhile_suffix _).length_le
      have hlt : cs.length < (cs ++ bracketText inside).length := by simp [bracketText]
      rw [readSteps_append hinside hsteps hle (by omega)]
      cases readBracket inside <;> rfl

end

/-! ## Bounds in decimal -/

/-- A bound as it is written: nothing if it is left out, or else its decimal digits, with blanks
around them. -/
inductive Spells : List Char → Option Int64 → Prop
  | omitted {p : List Char} : Text.IsPad p → Spells p none
  | integer {p q : List Char} (k : Int64) : Text.IsPad p → Text.IsPad q →
      Spells (p ++ (toString k.toInt).toList ++ q) (some k)

/-- An integer is read from its decimal digits, if it lies within the bounds of its type. -/
theorem readInt_toString (low high i : Int) : Decimal.readInt low high (toString i).toList =
    if low ≤ i ∧ i ≤ high then some i else none := by
  have hdigits : ∀ n, Decimal.readNat (Nat.toDigits 10 n) = some n := Decimal.readNat_digitsOf
  rw [toList_toString_int]
  split
  next hsign =>
    obtain ⟨ch, rest, hcons, hch⟩ := Decimal.exists_cons_digitsOf i.toNat
    have hsplit : Decimal.splitSign (Nat.toDigits 10 i.toNat) =
        (false, Nat.toDigits 10 i.toNat) := by
      rw [← Decimal.digitsOf, hcons, Decimal.splitSign_of_isDigit hch]
    have hvalue : Int.ofNat i.toNat = i := Int.toNat_of_nonneg hsign
    simp only [Decimal.readInt, hsplit, hdigits, Option.bind_some, Bool.false_eq_true, if_false,
      hvalue]
  next hsign =>
    have hvalue : -Int.ofNat (-i).toNat = i := by
      rw [Int.ofNat_eq_natCast, Int.toNat_of_nonneg (by omega), Int.neg_neg]
    simp only [Decimal.readInt, Decimal.splitSign, hdigits, Option.bind_some, if_true, hvalue]

/-- An integer is written with at least one character. -/
theorem toString_int_ne_nil (i : Int) : (toString i).toList ≠ [] := by
  rw [toList_toString_int]
  split
  · exact Nat.toDigits_ne_nil
  · exact List.cons_ne_nil _ _

/-- No blank is in the digits of an integer. -/
theorem isTrimmed_toString (i : Int) : Text.IsTrimmed (toString i).toList := by
  refine Text.isTrimmed_of_forall fun c hc => ?_
  obtain hdigit | rfl := mem_toString_int hc
  · exact Condition.isBlank_of_isDigit hdigit
  · decide

/-- An integer is written with digits and a minus only. -/
theorem notMem_toString {i : Int} {c : Char} (hdigit : c.isDigit = false) (hsign : c ≠ '-') :
    c ∉ (toString i).toList := by
  intro hmem
  rcases mem_toString_int hmem with hmem | hmem
  · rw [hmem] at hdigit
    cases hdigit
  · exact hsign hmem

/-- An integer is read as a bound if it has 64 bits, and else refused. -/
theorem readBound_toString (i : Int) : readBound (toString i).toList =
    if minSigned64 ≤ i ∧ i ≤ maxSigned64 then .ok (some (Int64.ofInt i))
    else .error (.badBound (toString i).toList) := by
  have hne : (toString i).toList.isEmpty = false :=
    List.isEmpty_eq_false_iff.2 (toString_int_ne_nil i)
  rw [readBound, hne, readInt_toString]
  by_cases h : minSigned64 ≤ i ∧ i ≤ maxSigned64
  · simp only [if_pos h, Bool.false_eq_true, if_false]
  · simp only [if_neg h, Bool.false_eq_true, if_false]

namespace Spells

variable {cs : List Char} {bound : Option Int64}

/-- What spells a bound is read as it. -/
theorem readBound_eq (h : Spells cs bound) : readBound (Text.trimChars cs) = .ok bound := by
  cases h with
  | omitted hp =>
    have hempty : Text.IsTrimmed [] := ⟨nofun, nofun⟩
    rw [← List.append_nil cs, Text.trimChars_pad_left hp hempty]
    rfl
  | integer k hp hq =>
    have hlow : minSigned64 ≤ k.toInt := k.le_toInt
    have hhigh : k.toInt ≤ maxSigned64 := Int.le_of_lt_add_one k.toInt_lt
    rw [Text.trimChars_pad_of_isTrimmed hp (isTrimmed_toString _) hq, readBound_toString,
      if_pos ⟨hlow, hhigh⟩, Int64.ofInt_toInt]

/-- No mark of a path is in a bound. -/
theorem notMem (h : Spells cs bound) {c : Char} (hblank : Text.isBlank c = false)
    (hdigit : c.isDigit = false) (hsign : c ≠ '-') : c ∉ cs := by
  have hpad : ∀ {p : List Char}, Text.IsPad p → c ∉ p := fun hp hmem => by
    rw [hp c hmem] at hblank
    cases hblank
  cases h with
  | omitted hp => exact hpad hp
  | integer k hp hq =>
    rw [List.mem_append, List.mem_append]
    rintro ((hmem | hmem) | hmem)
    · exact hpad hp hmem
    · exact notMem_toString hdigit hsign hmem
    · exact hpad hq hmem

end Spells

/-- A slice as a step of a path. -/
def sliceText (low high : List Char) : List Char := bracketText (low ++ ':' :: high)

/-- No closing bracket is within a slice if none is in its bounds. -/
theorem notMem_sliceText {low high : List Char} (hlow : ']' ∉ low) (hhigh : ']' ∉ high) :
    ']' ∉ low ++ ':' :: high := by
  rw [List.mem_append, List.mem_cons]
  rintro (hmem | hmem | hmem)
  · exact hlow hmem
  · cases hmem
  · exact hhigh hmem

/-- What is in brackets and has a colon is a slice. -/
theorem readBracket_slice {low : List Char} (hlow : ':' ∉ low) (high : List Char) :
    readBracket (low ++ ':' :: high) = do
      let a ← readBound (Text.trimChars low)
      let b ← readBound (Text.trimChars high)
      return .slice a b := by
  obtain ⟨low', high', hcut, hlow', hhigh'⟩ :=
    Text.exists_cutAt_trimChars hlow (by decide : Text.isBlank ':' = false) high
  unfold readBracket
  simp only [hcut, hlow', hhigh']

/-! ## Slices of the value at the end of a path -/

section

variable {cs lowText highText : List Char} {p : Path} {low high : Option Int64}

/-- A slice behind a path is one more step. -/
theorem parse_slice (h : Path.parse cs = .ok p) (hlow : Spells lowText low)
    (hhigh : Spells highText high) : Path.parse (cs ++ sliceText lowText highText) =
      .ok { p with steps := p.steps ++ [.slice low high] } := by
  have hinside : ']' ∉ lowText ++ ':' :: highText := notMem_sliceText
    (hlow.notMem (by decide) (by decide) (by decide))
    (hhigh.notMem (by decide) (by decide) (by decide))
  have hcolon : ':' ∉ lowText := hlow.notMem (by decide) (by decide) (by decide)
  rw [sliceText, parse_append hinside h, readBracket_slice hcolon, hlow.readBound_eq,
    hhigh.readBound_eq]
  rfl

/-- A slice at the end of a path takes a slice of the value there. -/
theorem resolve_slice (b : Block) (p : Path) (low high : Option Int64) :
    Path.resolve b { p with steps := p.steps ++ [.slice low high] } =
      sliceOf low high (p.resolve b) := by
  rw [Path.resolve, List.foldl_append]
  rfl

/-- An integer beyond the range of bounds is refused, and said to be no integer. -/
theorem parse_slice_error (h : Path.parse cs = .ok p) {i : Int}
    (hi : ¬(minSigned64 ≤ i ∧ i ≤ maxSigned64)) (hbound : Spells lowText low) :
    Path.parse (cs ++ sliceText (toString i).toList lowText) =
        .error (.badBound (toString i).toList) ∧
      Path.parse (cs ++ sliceText lowText (toString i).toList) =
        .error (.badBound (toString i).toList) := by
  have hread : readBound (Text.trimChars (toString i).toList) =
      .error (.badBound (toString i).toList) := by
    rw [Text.trimChars_of_isTrimmed (isTrimmed_toString i), readBound_toString, if_neg hi]
  have hdigits : ']' ∉ (toString i).toList := notMem_toString (by decide) (by decide)
  have hclose := hbound.notMem (by decide : Text.isBlank ']' = false) (by decide) (by decide)
  have hcolon := hbound.notMem (by decide : Text.isBlank ':' = false) (by decide) (by decide)
  constructor
  · rw [sliceText, parse_append (notMem_sliceText hdigits hclose) h,
      readBracket_slice (notMem_toString (by decide) (by decide)), hread]
    rfl
  · rw [sliceText, parse_append (notMem_sliceText hclose hdigits) h, readBracket_slice hcolon,
      hbound.readBound_eq, hread]
    rfl

end

/-- Of a text or an array a slice gives the items between its bounds, and what is before a position
and what is from it on make up the whole. No bound asks for items beyond the list, in words of 64
bits either. In a path a slice is written behind what leads to the value; an integer that is no such
word is refused. -/
theorem slices_areRanges {wrap : List β → Json} (hwrap : IsSequence wrap) (items : List β) :
    (∀ low high, sliceOf low high (wrap items) = wrap (rangeOf items low high)) ∧
    (∀ k : Int64, ∃ front back, sliceOf none (some k) (wrap items) = wrap front ∧
      sliceOf (some k) none (wrap items) = wrap back ∧ front ++ back = items) ∧
    (items.length ≤ maxUnsigned64 → ∀ low high,
      sliceWord? items low high = some (rangeOf items low high)) ∧
    ∀ (cs : List Char) (p : Path) (b : Block), Path.parse cs = .ok p → p.resolve b = wrap items →
      (∀ low high lowText highText, Spells lowText low → Spells highText high →
        ∃ q, Path.parse (cs ++ sliceText lowText highText) = .ok q ∧
          q.resolve b = wrap (rangeOf items low high)) ∧
      ∀ i : Int, ¬(minSigned64 ≤ i ∧ i ≤ maxSigned64) → ∀ text bound, Spells text bound →
        Path.parse (cs ++ sliceText (toString i).toList text) =
            .error (.badBound (toString i).toList) ∧
          Path.parse (cs ++ sliceText text (toString i).toList) =
            .error (.badBound (toString i).toList) := by
  have hslice : ∀ low high, sliceOf low high (wrap items) = wrap (rangeOf items low high) := by
    intro low high
    rw [hwrap.sliceOf_eq, sliceList_eq_rangeOf]
  refine ⟨hslice, fun k => ?_, fun hlength low high => ?_, fun cs p b hparse hitems => ⟨?_, ?_⟩⟩
  · exact ⟨_, _, hwrap.sliceOf_eq items _ _, hwrap.sliceOf_eq items _ _, sliceList_append items k⟩
  · rw [sliceWord?_eq_some hlength, sliceList_eq_rangeOf]
  · intro low high lowText highText hlow hhigh
    refine ⟨_, parse_slice hparse hlow hhigh, ?_⟩
    rw [resolve_slice, hitems, hslice]
  · intro i hi text bound hbound
    exact parse_slice_error hparse hi hbound

/-- The last three letters of a name, and what the least and the greatest of all bounds give. -/
theorem slices_areRanges_of_name :
    let b : Block := { name := "minecraft:wool" }
    let wrap : List Char → Json := fun cs => .str (String.ofList cs)
    let items := "wool".toList
    let path := "#block_name".toList
    let last := Int64.ofInt (-3)
    let beyond := maxSigned64 + 1
    IsSequence wrap ∧ items.length ≤ maxUnsigned64 ∧
      sliceOf (some last) none (wrap items) = wrap "ool".toList ∧
      (∃ front back, sliceOf none (some last) (wrap items) = wrap front ∧
        sliceOf (some last) none (wrap items) = wrap back ∧ front ++ back = items) ∧
      sliceWord? items (some Int64.minValue) (some Int64.maxValue) = some items ∧
      ∃ p, Path.parse path = .ok p ∧ p.resolve b = wrap items ∧
        Spells " -3 ".toList (some last) ∧ Spells [] none ∧
        (∃ q, Path.parse "#block_name[ -3 :]".toList = .ok q ∧ q.resolve b = wrap "ool".toList) ∧
        ¬(minSigned64 ≤ beyond ∧ beyond ≤ maxSigned64) ∧
        Path.parse "#block_name[9223372036854775808:]".toList =
          .error (.badBound "9223372036854775808".toList) := by
  intro b wrap items path last beyond
  have hlength : items.length ≤ maxUnsigned64 := by decide
  have hparse : Path.parse path = .ok ⟨.blockName, []⟩ := by decide +kernel
  have hname : b.shortName = String.ofList items := by decide +kernel
  have hitems : Path.resolve b ⟨.blockName, []⟩ = wrap items := congrArg Json.str hname
  have hwritten : " -3 ".toList = [' '] ++ (toString last.toInt).toList ++ [' '] := by
    decide +kernel
  have hlast : Spells " -3 ".toList (some last) := by
    rw [hwritten]
    exact .integer last (by decide) (by decide)
  have hnone : Spells [] none := .omitted (by decide)
  have hbeyond : ¬(minSigned64 ≤ beyond ∧ beyond ≤ maxSigned64) := by decide
  have htail : rangeOf items (some last) none = "ool".toList := by decide +kernel
  have hall : rangeOf items (some Int64.minValue) (some Int64.maxValue) = items := by
    decide +kernel
  obtain ⟨hrange, hhalves, hwords, hpath⟩ := slices_areRanges .text items
  obtain ⟨hwrite, herror⟩ := hpath path _ b hparse hitems
  obtain ⟨q, hq, hvalue⟩ := hwrite _ _ _ _ hlast hnone
  rw [htail] at hvalue
  have hdigits : (toString beyond).toList = "9223372036854775808".toList := by decide +kernel
  have hrefused := (herror _ hbeyond _ _ hnone).1
  rw [hdigits] at hrefused
  exact ⟨.text, hlength, by rw [hrange, htail], hhalves last, by rw [hwords hlength, hall], _,
    hparse, hitems, hlast, hnone, ⟨q, hq, hvalue⟩, hbeyond, hrefused⟩

end BlockModels.Placeholder
