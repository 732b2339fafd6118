import BlockModels.Json.Parser
import BlockModels.Proofs.Catalog.Reading
import BlockModels.Proofs.Text.Cutting

/-!
# Texts inside other texts

The text of a value is read the same where it is a part of another text: what stands behind it does
not matter as long as no number can go on there (`Closes`), and being nested deeper does not matter
as long as the limit is not reached (`NestsWithin`). Both are carried through the steps of the
reader together, since its fuel bounds the steps for values, items and members alike
(`StaysWithin`).
-/

namespace BlockModels.Json

/-- The value can be read, and no more arrays and objects than that lie one in the other. -/
inductive NestsWithin : Nat → Json → Prop
  | null {d : Nat} : NestsWithin d .null
  | bool {d : Nat} (b : Bool) : NestsWithin d (.bool b)
  | int {d : Nat} (i : Int) : NestsWithin d (.int i)
  | float {d : Nat} (x : Float) : NestsWithin d (.float x)
  | str {d : Nat} (s : String) : NestsWithin d (.str s)
  | arr {d : Nat} {items : List Json} (h : ∀ j ∈ items, NestsWithin d j) :
    NestsWithin (d + 1) (.arr items)
  | obj {d : Nat} {members : List (String × Json)} (h : ∀ m ∈ members, NestsWithin d m.2) :
    NestsWithin (d + 1) (.obj members)

/-! ## Parts of numbers -/

/-- A leading minus sign and the rest of a literal. -/
def splitMinus (cs : List Char) : Bool × List Char :=
  match cs with
  | '-' :: rest => (true, rest)
  | _ => (false, cs)

/-- The digits behind a point, the rest, and whether there is a point. -/
def splitPoint (cs : List Char) : List Char × List Char × Bool :=
  match cs with
  | '.' :: rest => (rest.takeWhile Char.isDigit, rest.dropWhile Char.isDigit, true)
  | _ => ([], cs, false)

/-- The value of a literal from its parts. -/
def literal (negative : Bool) (whole fraction : List Char) (pointed : Bool) : Option Int → Json
  | none =>
    if pointed then floatLiteral negative (floatOf whole fraction 0)
    else integerLiteral negative whole
  | some e => floatLiteral negative (floatOf whole fraction e)

/-- The parts of a literal whose sign is known. -/
def magnitude? (negative : Bool) (cs : List Char) : Option (Json × List Char) :=
  let whole := cs.takeWhile Char.isDigit
  let point := splitPoint (cs.dropWhile Char.isDigit)
  if whole.isEmpty || (whole.head? == some '0' && whole.length != 1) then none
  else if point.2.2 && point.1.isEmpty then none
  else (exponentPart? point.2.1).map fun e =>
    (literal negative whole point.1 point.2.2 e.1, e.2)

/-- What does not begin with a point has no fraction. -/
theorem splitPoint_of_ne {cs : List Char} (h : ∀ rest, cs = '.' :: rest → False) :
    splitPoint cs = ([], cs, false) := by
  rw [splitPoint]
  exact h

/-- A number is a magnitude that a minus may precede. -/
theorem number?_eq (cs : List Char) :
    number? cs = magnitude? (splitMinus cs).1 (splitMinus cs).2 := by
  unfold number? magnitude?
  split
  next negative digits hsign =>
  rw [show splitMinus cs = (negative, digits) from hsign]
  dsimp only
  refine if_congr Iff.rfl rfl ?_
  split
  · next rest hpoint =>
    rw [hpoint, splitPoint]
    refine if_congr Iff.rfl rfl ?_
    rcases exponentPart? (rest.dropWhile Char.isDigit) with _ | ⟨_ | e, rest⟩ <;> rfl
  · next hplain =>
    rw [splitPoint_of_ne hplain]
    refine if_congr Iff.rfl rfl ?_
    rcases exponentPart? (digits.dropWhile Char.isDigit) with _ | ⟨_ | e, rest⟩ <;> rfl

/-- A number begins with a sign or a digit. -/
theorem exists_cons_of_number? {cs rest : List Char} {j : Json} (h : number? cs = some (j, rest)) :
    ∃ c tail, cs = c :: tail ∧ (c = '-' ∨ c.isDigit = true) := by
  cases cs with
  | nil => cases h
  | cons c tail =>
    refine ⟨c, tail, rfl, or_iff_not_imp_left.2 fun hc => ?_⟩
    by_contra hdigit
    have hsplit : splitMinus (c :: tail) = (false, c :: tail) := by
      rw [splitMinus]
      intro _ heq
      exact hc (List.cons.inj heq).1
    rw [number?_eq, hsplit, magnitude?, List.takeWhile_cons_of_neg hdigit] at h
    cases h

section

variable {behind : List Char}

/-- A minus is found whatever stands behind. -/
theorem splitMinus_append {cs : List Char} (h : cs ≠ []) :
    splitMinus (cs ++ behind) = ((splitMinus cs).1, (splitMinus cs).2 ++ behind) := by
  obtain ⟨c, rest, rfl⟩ := List.exists_cons_of_ne_nil h
  by_cases hc : c = '-'
  · subst hc
    rfl
  · rw [List.cons_append, splitMinus, splitMinus]
    · rfl
    all_goals intro _ heq; exact hc (List.cons.inj heq).1

/-- A sign is found whatever stands behind. -/
theorem splitSign_append {cs : List Char} (h : cs ≠ []) : Decimal.splitSign (cs ++ behind) =
    ((Decimal.splitSign cs).1, (Decimal.splitSign cs).2 ++ behind) := by
  obtain ⟨c, rest, rfl⟩ := List.exists_cons_of_ne_nil h
  rw [List.cons_append]
  unfold Decimal.splitSign
  split
  · next heq =>
    obtain ⟨rfl, rfl⟩ := List.cons.inj heq
    rfl
  · next heq =>
    obtain ⟨rfl, rfl⟩ := List.cons.inj heq
    rfl
  · next hplus hminus =>
    split
    · next heq => exact absurd (by rw [(List.cons.inj heq).1]) (hplus _)
    · next heq => exact absurd (by rw [(List.cons.inj heq).1]) (hminus _)
    · rfl

end

/-! ## Strings -/

/-- Where no second unit of a pair follows, none follows behind the string either. -/
theorem not_unit_append {cs : List Char} (h : stringBody? cs ≠ none)
    (hunit : ∀ a b c d after, cs = '\\' :: 'u' :: a :: b :: c :: d :: after → False)
    (s : List Char) : ∀ a b c d after,
      cs ++ s = '\\' :: 'u' :: a :: b :: c :: d :: after → False := by
  intro a b c d after heq
  rcases List.append_eq_cons_iff.1 heq with ⟨rfl, -⟩ | ⟨cs, rfl, htail⟩
  · exact h rfl
  rcases List.append_eq_cons_iff.1 htail.symm with ⟨rfl, -⟩ | ⟨rest, rfl, -⟩
  · exact h rfl
  -- A unit that is cut off is not a string, however it goes on behind it.
  have hshort : ¬rest.length < 4 := by
    refine fun hlength => h ?_
    rw [stringBody?]
    · rfl
    · rintro a b c d rest - rfl
      simp at hlength
      omega
  rcases rest with _ | ⟨a, _ | ⟨b, _ | ⟨c, _ | ⟨d, after⟩⟩⟩⟩
  iterate 4 exact hshort (by simp)
  exact hunit a b c d after rfl

/-- A string ends at its quote, whatever stands behind. -/
theorem stringBody?_append (s : List Char) {cs rest : List Char} {k : Characters}
    (h : stringBody? cs = some (k, rest)) : stringBody? (cs ++ s) = some (k, rest ++ s) := by
  fun_induction stringBody? cs generalizing k rest with
  | case1 | case3 | case4 | case8 | case10 => cases h
  | case2 rest =>
    cases h
    rw [List.cons_append, stringBody?]
  | case5 a b c d unit hunit hhigh a' b' c' d' after low hlow whole =>
    rename_i ih
    obtain ⟨⟨cs, rest⟩, hbody, heq⟩ := Option.map_eq_some_iff.1 h
    cases heq
    simp only [List.cons_append, stringBody?, hunit, hlow, if_pos hhigh, ih hbody]
    rfl
  | case6 a b c d unit hunit hhigh after hafter ih =>
    obtain ⟨⟨cs, rest⟩, hbody, heq⟩ := Option.map_eq_some_iff.1 h
    cases heq
    have hafter' := not_unit_append (by rw [hbody]; exact Option.some_ne_none _) hafter s
    simp only [List.cons_append, stringBody?, hunit, if_pos hhigh, ih hbody, Option.map_some]
  | case7 a b c d after unit hunit hlow whole =>
    rename_i ih
    obtain ⟨⟨cs, rest⟩, hbody, heq⟩ := Option.map_eq_some_iff.1 h
    cases heq
    simp only [List.cons_append, stringBody?, hunit, if_neg hlow, ih hbody]
    rfl
  | case9 c after hc letter hletter ih =>
    obtain ⟨⟨cs, rest⟩, hbody, heq⟩ := Option.map_eq_some_iff.1 h
    cases heq
    have hne : c ≠ 'u' := by
      rintro rfl
      cases hletter
    rw [List.cons_append, List.cons_append, stringBody?, hletter, ih hbody]
    · rfl
    · exact fun _ _ _ _ _ heq => absurd heq hne
  | case11 c after hquote _ _ hplain ih =>
    obtain ⟨⟨cs, rest⟩, hbody, heq⟩ := Option.map_eq_some_iff.1 h
    cases heq
    have hne := not_or.1 hplain
    rw [List.cons_append, stringBody?, if_neg hplain, ih hbody]
    · rfl
    all_goals intros; simp_all

/-! ## Values, items and members -/

/-- The names of all members are known, if the object can be read. -/
theorem exists_obj_of_objectOf {d : Nat} {ms : List (Characters × Json)}
    (h : NestsWithin d (objectOf ms)) : ∃ d', d = d' + 1 ∧ ∀ m ∈ ms, NestsWithin d' m.2 := by
  rw [objectOf] at h
  split at h
  · next members hmembers =>
    cases h with
    | obj h =>
      refine ⟨_, rfl, fun m hm => ?_⟩
      obtain ⟨m', hm', heq⟩ := exists_of_mem_right (forall₂_of_mapM hmembers).flip hm
      obtain ⟨k, -, rfl⟩ := Option.map_eq_some_iff.1 heq
      exact h _ hm'
  · cases h

/-- Nothing is no value. -/
theorem value?_nil (fuel d : Nat) : value? fuel d [] = none := by
  cases fuel <;> rfl

/-- Nothing has no items. -/
theorem items?_nil (fuel d : Nat) : items? fuel d [] = none := by
  cases fuel with
  | zero => rfl
  | succ fuel => rw [items?, value?_nil]

/-- Nothing has no members. -/
theorem members?_nil (fuel d : Nat) : members? fuel d [] = none := by
  cases fuel <;> rfl

/-! ## What stands behind a text -/

section

variable {mark : Char} {behind : List Char}

/-- The mark closes a value: nothing that is in a number, and no blank. -/
structure Closes (mark : Char) : Prop where
  isDigit : mark.isDigit = false
  isSpace : isSpace mark = false
  ne_point : mark ≠ '.'
  ne_exponent : mark ≠ 'e' ∧ mark ≠ 'E'

variable (hmark : Closes mark)

include hmark

/-- Blanks end before the mark. -/
theorem skipSpaces_append (cs : List Char) :
    skipSpaces (cs ++ mark :: behind) = skipSpaces cs ++ mark :: behind :=
  Text.dropWhile_append_mark hmark.isSpace cs behind

/-- A fraction ends before the mark. -/
theorem splitPoint_append (cs : List Char) : splitPoint (cs ++ mark :: behind) =
    ((splitPoint cs).1, (splitPoint cs).2.1 ++ mark :: behind, (splitPoint cs).2.2) := by
  have hplain : ∀ {c : Char} (rest : List Char), c ≠ '.' →
      splitPoint (c :: rest) = ([], c :: rest, false) :=
    fun rest hc => splitPoint_of_ne fun _ heq => hc (List.cons.inj heq).1
  cases cs with
  | nil => exact hplain behind hmark.ne_point
  | cons c rest =>
    by_cases hc : c = '.'
    · subst hc
      simp only [splitPoint, List.cons_append, Text.takeWhile_append_mark hmark.isDigit,
        Text.dropWhile_append_mark hmark.isDigit]
    · rw [List.cons_append, hplain _ hc, hplain _ hc, List.cons_append]

/-- An exponent ends before the mark. -/
theorem exponentPart?_append {cs rest : List Char} {e : Option Int}
    (h : exponentPart? cs = some (e, rest)) :
    exponentPart? (cs ++ mark :: behind) = some (e, rest ++ mark :: behind) := by
  have hplain : ∀ {c : Char} (rest : List Char), ¬(c == 'e' || c == 'E') = true →
      exponentPart? (c :: rest) = some (none, c :: rest) := fun rest hc => by
    rw [exponentPart?, if_neg hc]
  cases cs with
  | nil =>
    cases h
    exact hplain _ (by simp [hmark.ne_exponent])
  | cons c tail =>
    by_cases hc : (c == 'e' || c == 'E') = true
    · have hne : tail ≠ [] := by
        rintro rfl
        rw [exponentPart?, if_pos hc] at h
        cases h
      rw [exponentPart?, if_pos hc] at h
      rw [List.cons_append, exponentPart?, if_pos hc, splitSign_append hne]
      simp only [Text.takeWhile_append_mark hmark.isDigit, Text.dropWhile_append_mark hmark.isDigit]
      generalize Decimal.splitSign tail = sign at h ⊢
      by_cases hdigits : (sign.2.takeWhile Char.isDigit).isEmpty = true
      · simp [hdigits] at h
      · simp only [if_neg hdigits, Option.some.injEq, Prod.mk.injEq] at h ⊢
        exact ⟨h.1, by rw [← h.2]⟩
    · rw [hplain _ hc] at h
      cases h
      exact hplain _ hc

/-- A number ends before the mark. -/
theorem number?_append {cs rest : List Char} {j : Json} (h : number? cs = some (j, rest)) :
    number? (cs ++ mark :: behind) = some (j, rest ++ mark :: behind) := by
  have hne : cs ≠ [] := by
    rintro rfl
    cases h
  rw [number?_eq, magnitude?] at h ⊢
  rw [splitMinus_append hne]
  simp only [Text.takeWhile_append_mark hmark.isDigit, Text.dropWhile_append_mark hmark.isDigit,
    splitPoint_append hmark] at h ⊢
  split at h
  · cases h
  · split at h
    · cases h
    · next hwhole hpoint =>
      obtain ⟨e, he, heq⟩ := Option.map_eq_some_iff.1 h
      cases heq
      rw [if_neg hwhole, if_neg hpoint, exponentPart?_append hmark he]
      rfl

/-! ## Values inside others -/

variable (mark behind) in
/-- Values, items and members that are read in this number of steps are read the same where the
mark and more text stand behind them, and one level further in. -/
structure StaysWithin (fuel : Nat) : Prop where
  value {d : Nat} {cs rest : List Char} {j : Json} : value? fuel (d + 1) cs = some (j, rest) →
    NestsWithin d j → ∀ {more : Nat}, fuel ≤ more →
      value? more d (cs ++ mark :: behind) = some (j, rest ++ mark :: behind)
  items {d : Nat} {cs rest : List Char} {js : List Json} :
    items? fuel (d + 1) cs = some (js, rest) → (∀ j ∈ js, NestsWithin d j) →
      ∀ {more : Nat}, fuel ≤ more →
        items? more d (cs ++ mark :: behind) = some (js, rest ++ mark :: behind)
  members {d : Nat} {cs rest : List Char} {ms : List (Characters × Json)} :
    members? fuel (d + 1) cs = some (ms, rest) → (∀ m ∈ ms, NestsWithin d m.2) →
      ∀ {more : Nat}, fuel ≤ more →
        members? more d (cs ++ mark :: behind) = some (ms, rest ++ mark :: behind)

variable {fuel : Nat}

/-- One more step reads the items of an array, the values of which are read in fewer. -/
theorem StaysWithin.succ_items (h : StaysWithin mark behind fuel) {d : Nat} {cs rest : List Char}
    {js : List Json} (hitems : items? (fuel + 1) (d + 1) cs = some (js, rest))
    (hjs : ∀ j ∈ js, NestsWithin d j) {more : Nat} (hmore : fuel ≤ more) :
    items? (more + 1) d (cs ++ mark :: behind) = some (js, rest ++ mark :: behind) := by
  rw [items?] at hitems
  split at hitems
  · cases hitems
  · next j rest' hvalue =>
    split at hitems
    · next rest'' hcomma =>
      obtain ⟨⟨js', rest⟩, hrest, heq⟩ := Option.map_eq_some_iff.1 hitems
      cases heq
      obtain ⟨hj, hjs⟩ := List.forall_mem_cons.1 hjs
      rw [items?, h.value hvalue hj hmore]
      simp only [skipSpaces_append hmark, hcomma, List.cons_append, h.items hrest hjs hmore]
      rfl
    · next rest'' hclose =>
      cases hitems
      rw [items?, h.value hvalue (hjs j List.mem_cons_self) hmore]
      simp only [skipSpaces_append hmark, hclose, List.cons_append]
    · cases hitems

/-- One more step reads the members of an object, the values of which are read in fewer. -/
theorem StaysWithin.succ_members (h : StaysWithin mark behind fuel) {d : Nat}
    {cs rest : List Char} {ms : List (Characters × Json)}
    (hmembers : members? (fuel + 1) (d + 1) cs = some (ms, rest))
    (hms : ∀ m ∈ ms, NestsWithin d m.2) {more : Nat} (hmore : fuel ≤ more) :
    members? (more + 1) d (cs ++ mark :: behind) = some (ms, rest ++ mark :: behind) := by
  rw [members?] at hmembers
  split at hmembers
  · next body hquote =>
    split at hmembers
    · cases hmembers
    · next k rest₁ hname =>
      split at hmembers
      · next rest₂ hcolon =>
        split at hmembers
        · cases hmembers
        · next j rest₃ hvalue =>
          rw [members?]
          simp only [skipSpaces_append hmark, hquote, List.cons_append, stringBody?_append _ hname,
            hcolon]
          split at hmembers
          · next rest₄ hcomma =>
            obtain ⟨⟨ms', rest⟩, hrest, heq⟩ := Option.map_eq_some_iff.1 hmembers
            cases heq
            obtain ⟨hj, hms⟩ := List.forall_mem_cons.1 hms
            simp only [h.value hvalue hj hmore, skipSpaces_append hmark, hcomma, List.cons_append,
              h.members hrest hms hmore]
            rfl
          · next rest₄ hclose =>
            cases hmembers
            simp only [h.value hvalue (hms _ List.mem_cons_self) hmore, skipSpaces_append hmark,
              hclose, List.cons_append]
          · cases hmembers
      · cases hmembers
  · cases hmembers

/-- One more step reads a value, the parts of which are read in fewer. -/
theorem StaysWithin.succ_value (h : StaysWithin mark behind fuel) {d : Nat} {cs rest : List Char}
    {j : Json} (hvalue : value? (fuel + 1) (d + 1) cs = some (j, rest)) (hj : NestsWithin d j)
    {more : Nat} (hmore : fuel ≤ more) :
    value? (more + 1) d (cs ++ mark :: behind) = some (j, rest ++ mark :: behind) := by
  rw [value?] at hvalue ⊢
  simp only [skipSpaces_append hmark]
  generalize skipSpaces cs = chars at hvalue ⊢
  split at hvalue
  · cases hvalue
    rfl
  · cases hvalue
    rfl
  · cases hvalue
    rfl
  · obtain ⟨⟨s, rest⟩, hbody, heq⟩ := Option.map_eq_some_iff.1 hvalue
    cases heq
    simp only [List.cons_append, stringBody?_append _ hbody]
    rfl
  · next inner =>
    -- An array ends at once, or it has items, and then it does not end in front of the mark.
    simp only [List.cons_append, skipSpaces_append hmark]
    generalize skipSpaces inner = inner at hvalue ⊢
    split at hvalue
    · cases hvalue
      cases hj
      rfl
    · next hclose =>
      obtain ⟨⟨js, rest⟩, hitems, heq⟩ := Option.map_eq_some_iff.1 hvalue
      cases heq
      cases hj with
      | @arr d _ hjs =>
        have hne : inner ≠ [] := by
          rintro rfl
          rw [items?_nil] at hitems
          cases hitems
        split
        · next heq =>
          obtain ⟨_, rfl⟩ := exists_cons_of_append hne heq
          exact (hclose _ rfl).elim
        · have hstays := h.items hitems hjs hmore
          simp only [Nat.add_sub_cancel, hstays]
          rfl
  · next inner =>
    -- The same goes for an object and its members.
    simp only [List.cons_append, skipSpaces_append hmark]
    generalize skipSpaces inner = inner at hvalue ⊢
    split at hvalue
    · cases hvalue
      cases hj
      rfl
    · next hclose =>
      obtain ⟨⟨ms, rest⟩, hmembers, heq⟩ := Option.map_eq_some_iff.1 hvalue
      cases heq
      obtain ⟨d, rfl, hms⟩ := exists_obj_of_objectOf hj
      have hne : inner ≠ [] := by
        rintro rfl
        rw [members?_nil] at hmembers
        cases hmembers
      split
      · next heq =>
        obtain ⟨_, rfl⟩ := exists_cons_of_append hne heq
        exact (hclose _ rfl).elim
      · have hstays := h.members hmembers hms hmore
        simp only [Nat.add_sub_cancel, hstays]
        rfl
  · next hother =>
    obtain ⟨c, tail, rfl, hc⟩ := exists_cons_of_number? hvalue
    have hnumber : number? (c :: tail ++ mark :: behind) = _ := number?_append hmark hvalue
    rw [List.cons_append] at hnumber ⊢
    -- No number begins like a value of another form.
    split
    iterate 6
      next heq =>
        obtain rfl := (List.cons.inj heq).1
        exact absurd hc (by decide)
    exact hnumber

/-- Whatever is read in some number of steps is read the same inside another value, by induction on
the steps. -/
theorem staysWithin (fuel : Nat) : StaysWithin mark behind fuel := by
  induction fuel with
  | zero => constructor <;> intro _ _ _ _ h <;> cases h
  | succ fuel ih =>
    have hsucc : ∀ {more : Nat}, fuel + 1 ≤ more → ∃ m, more = m + 1 ∧ fuel ≤ m :=
      fun {more} hmore => ⟨more - 1, by omega, by omega⟩
    constructor
    · intro d cs rest j hvalue hj more hmore
      obtain ⟨m, rfl, hm⟩ := hsucc hmore
      exact ih.succ_value hmark hvalue hj hm
    · intro d cs rest js hitems hjs more hmore
      obtain ⟨m, rfl, hm⟩ := hsucc hmore
      exact ih.succ_items hmark hitems hjs hm
    · intro d cs rest ms hmembers hms more hmore
      obtain ⟨m, rfl, hm⟩ := hsucc hmore
      exact ih.succ_members hmark hmembers hms hm

variable (behind) in
/-- A text that has a value is read as a part of another. -/
theorem exists_value?_of_parse? {text : String} {j : Json} (h : parse? text = some j)
    (hj : NestsWithin (maxDepth - 1) j) {fuel : Nat} (hfuel : 2 * text.toList.length + 1 ≤ fuel) :
    ∃ rest, value? fuel (maxDepth - 1) (text.toList ++ mark :: behind) = some (j, rest) ∧
      skipSpaces rest = mark :: behind := by
  rw [parse?] at h
  split at h
  · next j' rest hvalue =>
    split at h
    · next hempty =>
      cases h
      refine ⟨_, (staysWithin hmark _).value hvalue hj hfuel, ?_⟩
      rw [skipSpaces_append hmark, List.isEmpty_iff.1 hempty, List.nil_append]
    · cases h
  · cases h

end

end BlockModels.Json
