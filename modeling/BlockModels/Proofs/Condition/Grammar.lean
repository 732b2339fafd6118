import BlockModels.Condition.Evaluation
import BlockModels.Proofs.Text.Cutting
import Mathlib.Data.Bool.AllAny

/-!
# How conditions are written

A condition is a list of groups, a group a list of terms, and none of these lists is empty. In
writing, blanks may stand around every token (`ConditionWritten`). Reading cuts at `||`, then at
`&&`, then at the first comparison, then at `??`, and at last at `&`, and each of these marks is a
part of another one or begins like it. All the same each cut is made where it is meant
(`parse_of_written`): names, numbers and literals have none of the characters of which marks are
made, so only the mask has a `&` that is not for a group, and it stands alone.

Whether a name is that of a state is not always to be seen: the name of a state that begins with
`entity.` is read as that of a property (`Term.IsDistinct`).
-/

namespace BlockModels.Condition

open Text (IsPad IsTrimmed Unpaired Joined trimChars)

/-! ## Written forms -/

/-- The characters of which operators are made, and quotes. -/
def reserved : List Char := ['=', '!', '<', '>', '&', '|', '?', '"', '\'']

/-- A name or a literal without quotes. -/
structure IsWord (cs : List Char) : Prop where
  trimmed : IsTrimmed cs
  notMem : ∀ c ∈ reserved, c ∉ cs

instance (cs : List Char) : Decidable (IsWord cs) :=
  decidable_of_iff (IsTrimmed cs ∧ reserved.all (fun c => decide (c ∉ cs)) = true) (by
    rw [List.all_iff_forall_prop]
    exact ⟨fun h => ⟨h.1, h.2⟩, fun h => ⟨h.trimmed, h.notMem⟩⟩)

/-- What a property of the entity data has in front of its name. -/
def entityMark : List Char := "entity.".toList

/-- A state by its name, or a property by its name behind `entity.`. -/
inductive SubjectWritten : Bool → List Char → List Char → Prop
  | state {name : List Char} : name ≠ [] → IsWord name → SubjectWritten false name name
  | entity {name p : List Char} : name ≠ [] → IsWord name → IsPad p →
      SubjectWritten true name (entityMark ++ p ++ name)

/-- A number behind `??` or `&`, or nothing. -/
inductive ModifierWritten : Option Modifier → List Char → Prop
  | none : ModifierWritten none []
  | orElse {n : Int64} {p q digits : List Char} : IsPad p → IsPad q → int64? digits = some n →
      ModifierWritten (some (.orElse n)) (p ++ '?' :: '?' :: (q ++ digits))
  | mask {n : Int64} {p q digits : List Char} : IsPad p → IsPad q → int64? digits = some n →
      ModifierWritten (some (.mask n)) (p ++ '&' :: (q ++ digits))

/-- A literal with or without quotes around it. -/
inductive LiteralWritten : List Char → List Char → Prop
  | plain {l : List Char} : IsWord l → LiteralWritten l l
  | quoted {l : List Char} {q : Char} : q ∈ ['"', '\''] → (∀ c ∈ reserved, c ∉ l) →
      LiteralWritten l (q :: (l ++ [q]))

/-- A term without blanks around it. -/
inductive TermWritten : Term → List Char → Prop
  | copied : TermWritten (.copied false) copiedWord
  | uncopied : TermWritten (.copied true) ('!' :: copiedWord)
  | compare {entity : Bool} {name subject after literal text p q : List Char}
      {modifier : Option Modifier} {op : Comparison} : SubjectWritten entity name subject →
      ModifierWritten modifier after → IsPad p → IsPad q → LiteralWritten literal text →
      TermWritten (.compare entity (String.ofList name) modifier op literal)
        (subject ++ after ++ p ++ op.symbol ++ (q ++ text))

/-- A term with blanks around it. -/
inductive PaddedTerm : Term → List Char → Prop
  | mk {t : Term} {text p q : List Char} : TermWritten t text → IsPad p → IsPad q →
      PaddedTerm t (p ++ text ++ q)

/-- Terms with `&&` between them. -/
def GroupWritten (terms : List Term) (cs : List Char) : Prop := Joined '&' PaddedTerm terms cs

/-- Groups with `||` between them. -/
def ConditionWritten (groups : List (List Term)) (cs : List Char) : Prop :=
  Joined '|' GroupWritten groups cs

/-- A state does not have the name that a property is written with. -/
def Term.IsDistinct : Term → Prop
  | .copied _ => True
  | .compare entity name _ _ _ => entity = false → ¬entityMark <+: name.toList

/-! ## Characters -/

/-- No reserved character is a blank. -/
theorem isBlank_of_mem_reserved : ∀ c ∈ reserved, Text.isBlank c = false :=
  List.all_iff_forall_prop.1 (by decide)

/-- No reserved character is in the blanks around a term. -/
theorem notMem_pad {c : Char} (hc : c ∈ reserved) {p : List Char} (hp : IsPad p) : c ∉ p := by
  intro hmem
  have hblank := isBlank_of_mem_reserved c hc
  rw [hp c hmem] at hblank
  cases hblank

/-- A digit is no blank. -/
theorem isBlank_of_isDigit {c : Char} (h : c.isDigit = true) : Text.isBlank c = false := by
  have hle : 48 ≤ c.toNat ∧ c.toNat ≤ 57 := Char.isDigit_iff_toNat.1 h
  rw [Text.isBlank, Bool.eq_false_iff]
  simp [Text.inRanges, Text.blankRanges]
  omega

/-- What is read as a natural number is one digit or more. -/
theorem isDigit_of_readNat {cs : List Char} {n : Nat} (h : Decimal.readNat cs = some n) :
    cs ≠ [] ∧ ∀ c ∈ cs, c.isDigit = true := by
  unfold Decimal.readNat at h
  split at h
  · cases h
  next hcond =>
    rw [Bool.not_eq_true, Bool.or_eq_false_iff, Bool.not_eq_false', List.all_eq_true] at hcond
    exact ⟨List.isEmpty_eq_false_iff.1 hcond.1, hcond.2⟩

/-- A number is written with digits, which a sign may precede. -/
theorem chars_of_readInt {low high i : Int} {cs : List Char}
    (h : Decimal.readInt low high cs = some i) :
    cs ≠ [] ∧ ∀ c ∈ cs, c.isDigit = true ∨ c = '+' ∨ c = '-' := by
  obtain ⟨n, hn, -⟩ := Option.bind_eq_some_iff.1 h
  have hdigits := isDigit_of_readNat hn
  split at hdigits
  · refine ⟨List.cons_ne_nil _ _, List.forall_mem_cons.2 ⟨.inr (.inl rfl), fun c hc => ?_⟩⟩
    exact .inl (hdigits.2 c hc)
  · refine ⟨List.cons_ne_nil _ _, List.forall_mem_cons.2 ⟨.inr (.inr rfl), fun c hc => ?_⟩⟩
    exact .inl (hdigits.2 c hc)
  · exact ⟨hdigits.1, fun c hc => .inl (hdigits.2 c hc)⟩

/-- What is read as a number is made of digits and signs, and is not empty. -/
theorem chars_of_int64? {n : Int64} {digits : List Char} (h : int64? digits = some n) :
    digits ≠ [] ∧ ∀ c ∈ digits, c.isDigit = true ∨ c = '+' ∨ c = '-' := by
  obtain ⟨i, hi, -⟩ := Option.map_eq_some_iff.1 h
  exact chars_of_readInt hi

/-- What is read as a number has no blanks around it. -/
theorem isTrimmed_digits {n : Int64} {digits : List Char} (h : int64? digits = some n) :
    IsTrimmed digits := by
  refine Text.isTrimmed_of_forall fun c hc => ?_
  obtain hdigit | rfl | rfl := (chars_of_int64? h).2 c hc
  · exact isBlank_of_isDigit hdigit
  · decide
  · decide

/-- What is read as a number holds no reserved character. -/
theorem notMem_digits {c : Char} (hc : c ∈ reserved) {n : Int64} {digits : List Char}
    (h : int64? digits = some n) : c ∉ digits := by
  have hnot : ∀ c ∈ reserved, ¬(c.isDigit = true ∨ c = '+' ∨ c = '-') :=
    List.all_iff_forall_prop.1 (by decide)
  exact fun hmem => hnot c hc ((chars_of_int64? h).2 c hmem)

/-- The subject of a comparison holds no reserved character. -/
theorem SubjectWritten.notMem {entity : Bool} {name subject : List Char}
    (h : SubjectWritten entity name subject) {c : Char} (hc : c ∈ reserved) : c ∉ subject := by
  cases h with
  | state _ hword => exact hword.notMem c hc
  | entity _ hword hp =>
    have hmark : ∀ c ∈ reserved, c ∉ entityMark := List.all_iff_forall_prop.1 (by decide)
    simp [hmark c hc, notMem_pad hc hp, hword.notMem c hc]

/-- What follows the subject holds no reserved character but those that mark a fallback. -/
theorem ModifierWritten.notMem {m : Option Modifier} {after : List Char}
    (h : ModifierWritten m after) {c : Char} (hc : c ∈ reserved) (hask : c ≠ '?')
    (hand : c ≠ '&') : c ∉ after := by
  cases h with
  | none => exact List.not_mem_nil
  | orElse hp hq hn => simp [hask, notMem_pad hc hp, notMem_pad hc hq, notMem_digits hc hn]
  | mask hp hq hn => simp [hand, notMem_pad hc hp, notMem_pad hc hq, notMem_digits hc hn]

/-- A literal holds no reserved character but its quotes. -/
theorem LiteralWritten.notMem {literal text : List Char} (h : LiteralWritten literal text)
    {c : Char} (hc : c ∈ reserved) (hquote : c ∉ ['"', '\'']) : c ∉ text := by
  cases h with
  | plain hword => exact hword.notMem c hc
  | quoted hq hl =>
    have hne : c ≠ _ := fun heq => hquote (heq ▸ hq)
    simp [hne, hl c hc]

/-- The symbol of a comparison neither joins terms nor groups. -/
theorem Comparison.notMem_symbol (op : Comparison) : ∀ c ∈ ['&', '|'], c ∉ op.symbol := by
  cases op <;> exact List.all_iff_forall_prop.1 (by decide)

/-! ## Reading comparisons -/

namespace Comparison

/-- Comparisons begin with four characters only. -/
theorem opening?_eq_none {c : Char} (h : c ∉ ['=', '!', '<', '>']) (cs : List Char) :
    opening? (c :: cs) = none := by
  unfold opening?
  split <;> simp_all

/-- A comparison is read as what it is unless its sign goes on. -/
theorem opening?_symbol (op : Comparison) {rest : List Char} (h : '=' ∉ rest.head?) :
    opening? (op.symbol ++ rest) = some (op, rest) := by
  have hlong : ∀ tail, '=' :: tail = rest → False := by
    rintro tail rfl
    exact h rfl
  cases op with
  | eq | ne | ge | le => rfl
  | gt | lt =>
    simp only [symbol, List.cons_append, List.nil_append]
    unfold opening?
    split <;> simp_all

end Comparison

/-- What stands before a comparison does not have its characters, and what stands behind does not go
on with it. -/
theorem splitComparison?_append {left : List Char} (hleft : ∀ c ∈ left, c ∉ ['=', '!', '<', '>'])
    (op : Comparison) {rest : List Char} (hrest : '=' ∉ rest.head?) :
    splitComparison? (left ++ op.symbol ++ rest) = some (left, op, rest) := by
  induction left with
  | nil =>
    obtain ⟨c, tail, hcons⟩ : ∃ c tail, op.symbol ++ rest = c :: tail := by
      cases op <;> exact ⟨_, _, rfl⟩
    have hopening := op.opening?_symbol hrest
    rw [List.nil_append]
    rw [hcons] at hopening ⊢
    rw [splitComparison?, hopening]
  | cons c left ih =>
    obtain ⟨hc, hleft⟩ := List.forall_mem_cons.1 hleft
    rw [List.cons_append, List.cons_append, splitComparison?, Comparison.opening?_eq_none hc,
      ih hleft]
    rfl

/-! ## Reading subjects -/

/-- Blanks before a number do not change what is read. -/
theorem int64?_trimChars {n : Int64} {p digits : List Char} (hp : IsPad p)
    (hn : int64? digits = some n) : int64? (trimChars (p ++ digits)) = some n := by
  rw [Text.trimChars_pad_left hp (isTrimmed_digits hn), hn]

/-- A name is read with the number behind it, which is there or not. -/
theorem splitModifier_written {name p after : List Char} {m : Option Modifier} (hp : IsPad p)
    (hname : IsWord name) (hafter : ModifierWritten m after) :
    splitModifier (p ++ name ++ after) = (name, m.map some) := by
  have hask : '?' ∈ reserved := by decide
  have hand : '&' ∈ reserved := by decide
  have htrim : ∀ {q : List Char}, IsPad q → trimChars (p ++ name ++ q) = name := fun hq =>
    Text.trimChars_pad_of_isTrimmed hp hname.trimmed hq
  cases hafter with
  | none =>
    have hpair : Text.cutAtPair '?' (p ++ name ++ []) = none :=
      Text.cutAtPair_eq_none (by simp [notMem_pad hask hp, hname.notMem _ hask])
    have hcut : Text.cutAt '&' (p ++ name ++ []) = none :=
      Text.cutAt_eq_none (by simp [notMem_pad hand hp, hname.notMem _ hand])
    rw [splitModifier, hpair, hcut]
    exact Prod.ext (htrim nofun) rfl
  | @orElse n q q' digits hq hq' hn =>
    have hpair : Text.cutAtPair '?' (p ++ name ++ (q ++ '?' :: '?' :: (q' ++ digits))) =
        some (p ++ name ++ q, q' ++ digits) := by
      rw [← List.append_assoc]
      exact Text.cutAtPair_append
        (by simp [notMem_pad hask hp, hname.notMem _ hask, notMem_pad hask hq]) _
    have hvalue :=
      congrArg (fun o => some (Option.map Modifier.orElse o)) (int64?_trimChars hq' hn)
    rw [splitModifier, hpair]
    exact Prod.ext (htrim hq) hvalue
  | @mask n q q' digits hq hq' hn =>
    have hpair : Text.cutAtPair '?' (p ++ name ++ (q ++ '&' :: (q' ++ digits))) = none := by
      refine Text.cutAtPair_eq_none ?_
      simp [notMem_pad hask hp, hname.notMem _ hask, notMem_pad hask hq, notMem_pad hask hq',
        notMem_digits hask hn]
    have hcut : Text.cutAt '&' (p ++ name ++ (q ++ '&' :: (q' ++ digits))) =
        some (p ++ name ++ q, q' ++ digits) := by
      rw [← List.append_assoc]
      exact Text.cutAt_append
        (by simp [notMem_pad hand hp, hname.notMem _ hand, notMem_pad hand hq]) _
    have hvalue := congrArg (fun o => some (Option.map Modifier.mask o)) (int64?_trimChars hq' hn)
    rw [splitModifier, hpair, hcut]
    exact Prod.ext (htrim hq) hvalue

/-! ## Reading literals -/

/-- Without its quotes, a written literal is the literal. -/
theorem unquote_written {literal text : List Char} (h : LiteralWritten literal text) :
    Text.unquote text = literal := by
  cases h with
  | plain hword =>
    have hdouble := hword.notMem '"' (by decide)
    have hsingle := hword.notMem '\'' (by decide)
    cases literal with
    | nil => rfl
    | cons c rest =>
      rw [List.mem_cons, not_or] at hdouble hsingle
      simp [Text.unquote, Ne.symm hdouble.1, Ne.symm hsingle.1]
  | @quoted q hq hl =>
    have hlast := Text.beforeLast?_append q literal
    rcases List.mem_pair.1 hq with rfl | rfl
    · simp [Text.unquote, hlast]
    · simp [Text.unquote, hlast]

/-- A written literal has no blanks around it. -/
theorem isTrimmed_written {literal text : List Char} (h : LiteralWritten literal text) :
    IsTrimmed text := by
  cases h with
  | plain hword => exact hword.trimmed
  | @quoted q hq _ =>
    have hquote : ∀ q ∈ ['"', '\''], IsTrimmed [q] := List.all_iff_forall_prop.1 (by decide)
    have htrimmed := hquote q hq
    exact htrimmed.append_append (List.cons_ne_nil _ _) htrimmed (List.cons_ne_nil _ _) literal

/-! ## Reading terms -/

/-- The name of a state or property is not empty. -/
theorem SubjectWritten.name_ne_nil {entity : Bool} {name subject : List Char}
    (h : SubjectWritten entity name subject) : name ≠ [] := by
  cases h <;> assumption

/-- The name of a state or property is a word. -/
theorem SubjectWritten.isWord {entity : Bool} {name subject : List Char}
    (h : SubjectWritten entity name subject) : IsWord name := by
  cases h <;> assumption

/-- A subject has no blanks around it and is not empty. -/
theorem SubjectWritten.isTrimmed {entity : Bool} {name subject : List Char}
    (h : SubjectWritten entity name subject) : IsTrimmed subject ∧ subject ≠ [] := by
  have hmark : IsTrimmed entityMark ∧ entityMark ≠ [] :=
    ⟨by decide, by decide⟩
  cases h with
  | state hne hword => exact ⟨hword.trimmed, hne⟩
  | entity hne hword _ =>
    exact ⟨hmark.1.append_append hmark.2 hword.trimmed hne _, by simp [hne]⟩

/-- A subject with its modifier has no blanks around it. -/
theorem ModifierWritten.isTrimmed {subject after : List Char} {m : Option Modifier}
    (h : ModifierWritten m after) (htrimmed : IsTrimmed subject) (hne : subject ≠ []) :
    IsTrimmed (subject ++ after) := by
  cases h with
  | none => rwa [List.append_nil]
  | @orElse n p q digits hp hq hn =>
    have hlong := htrimmed.append_append hne (isTrimmed_digits hn) (chars_of_int64? hn).1
      (p ++ '?' :: '?' :: q)
    simpa using hlong
  | @mask n p q digits hp hq hn =>
    have hlong := htrimmed.append_append hne (isTrimmed_digits hn) (chars_of_int64? hn).1
      (p ++ '&' :: q)
    simpa using hlong

/-- The first character behind a name is none of those in front of a property. -/
theorem ModifierWritten.head?_notMem {m : Option Modifier} {after : List Char}
    (h : ModifierWritten m after) : ∀ c ∈ after.head?, c ∉ entityMark := by
  have hmark : ∀ c ∈ entityMark, Text.isBlank c = false := List.all_iff_forall_prop.1 (by decide)
  have hpad : ∀ {p rest : List Char} {d : Char}, IsPad p → d ∉ entityMark →
      ∀ c ∈ (p ++ d :: rest).head?, c ∉ entityMark := by
    intro p rest d hp hd c hc
    cases p with
    | nil => exact Option.some.inj hc ▸ hd
    | cons b p =>
      rintro hmem
      have hblank := hp b List.mem_cons_self
      rw [Option.some.inj hc, hmark c hmem] at hblank
      cases hblank
  cases h with
  | none => exact nofun
  | orElse hp _ _ => exact hpad hp (by decide)
  | mask hp _ _ => exact hpad hp (by decide)

/-- What is in front of a comparison tells whose name it is, and leaves the name with what is behind
it. -/
theorem behind?_written {entity : Bool} {name subject after : List Char} {m : Option Modifier}
    (h : SubjectWritten entity name subject) (hafter : ModifierWritten m after)
    (hdistinct : entity = false → ¬entityMark <+: name) :
    (entity = false ∧ subject = name ∧ Text.behind? entityMark (subject ++ after) = none) ∨
      entity = true ∧ ∃ p, IsPad p ∧
        Text.behind? entityMark (subject ++ after) = some (p ++ name ++ after) := by
  cases h with
  | state _ _ =>
    exact .inl ⟨rfl, rfl, Text.behind?_append_eq_none (hdistinct rfl) hafter.head?_notMem⟩
  | @entity _ p _ _ hp =>
    refine .inr ⟨rfl, p, hp, ?_⟩
    rw [List.append_assoc, List.append_assoc, Text.behind?_append, ← List.append_assoc]

/-- A comparison is found between what it compares. -/
theorem splitComparison?_written {entity : Bool} {name subject after literal text p q rest :
    List Char} {m : Option Modifier} (op : Comparison) (h : SubjectWritten entity name subject)
    (hafter : ModifierWritten m after) (hp : IsPad p) (hq : IsPad q)
    (hliteral : LiteralWritten literal text) (hrest : rest <+: q ++ text) :
    splitComparison? (subject ++ after ++ p ++ op.symbol ++ rest) =
      some (subject ++ after ++ p, op, rest) := by
  have hreserved : ∀ c ∈ ['=', '!', '<', '>'], c ∈ reserved ∧ c ≠ '?' ∧ c ≠ '&' :=
    List.all_iff_forall_prop.1 (by decide)
  refine splitComparison?_append (fun c hc hmem => ?_) op fun hhead => ?_
  · obtain ⟨hc', hask, hand⟩ := hreserved c hmem
    simp only [List.mem_append] at hc
    obtain (hc | hc) | hc := hc
    · exact h.notMem hc' hc
    · exact hafter.notMem hc' hask hand hc
    · exact notMem_pad hc' hp hc
  · have hmem := hrest.subset (List.mem_of_head? hhead)
    rcases List.mem_append.1 hmem with hmem | hmem
    · exact notMem_pad (by decide) hq hmem
    · exact hliteral.notMem (by decide) (by decide) hmem

/-- The symbol of a comparison has no blanks around it and is not empty. -/
theorem Comparison.isTrimmed_symbol (op : Comparison) :
    IsTrimmed op.symbol ∧ op.symbol ≠ [] := by
  cases op <;> exact ⟨by decide, by decide⟩

/-- From its subject to its symbol, a comparison has no blanks around it. -/
theorem isTrimmed_through_symbol {entity : Bool} {name subject : List Char} (op : Comparison)
    (h : SubjectWritten entity name subject) (between : List Char) :
    IsTrimmed (subject ++ between ++ op.symbol) :=
  h.isTrimmed.1.append_append h.isTrimmed.2 op.isTrimmed_symbol.1 op.isTrimmed_symbol.2 between

/-- A comparison is read as it is written, also when blanks behind the literal are gone. -/
theorem parse_compare {entity : Bool} {name subject after literal text p q rest : List Char}
    {m : Option Modifier} {op : Comparison} (hsubject : SubjectWritten entity name subject)
    (hafter : ModifierWritten m after) (hp : IsPad p) (hq : IsPad q)
    (hliteral : LiteralWritten literal text) (hdistinct : entity = false → ¬entityMark <+: name)
    (hrest : trimChars rest = trimChars (q ++ text)) (hbegin : rest <+: q ++ text) :
    Term.parse (subject ++ after ++ p ++ op.symbol ++ rest) =
      .ok (.compare entity (String.ofList name) m op literal) := by
  have hsplit := splitComparison?_written op hsubject hafter hp hq hliteral hbegin
  -- The other terms have no comparison.
  have hother : ∀ word, splitComparison? word = none →
      subject ++ after ++ p ++ op.symbol ++ rest ≠ word := by
    rintro word hnone rfl
    rw [hsplit] at hnone
    cases hnone
  have hcopied := hother copiedWord (by decide)
  have huncopied := hother ('!' :: copiedWord) (by decide)
  have hleft : trimChars (subject ++ after ++ p) = subject ++ after :=
    Text.trimChars_pad_right (hafter.isTrimmed hsubject.isTrimmed.1 hsubject.isTrimmed.2) hp
  have hright : Term.parse.literal rest = literal := by
    rw [Term.parse.literal, hrest, Text.trimChars_pad_left hq (isTrimmed_written hliteral),
      unquote_written hliteral]
  have hne : name.isEmpty = false := List.isEmpty_eq_false_iff.2 hsubject.name_ne_nil
  have hmark : "entity.".toList = entityMark := rfl
  rw [Term.parse, if_neg hcopied, if_neg huncopied, hsplit]
  simp only [hleft, hright, hmark]
  obtain ⟨rfl, rfl, hbehind⟩ | ⟨rfl, lead, hlead, hbehind⟩ :=
    behind?_written hsubject hafter hdistinct
  · have hname := splitModifier_written (p := []) nofun hsubject.isWord hafter
    rw [List.nil_append] at hname
    simp only [hbehind, hname, hne]
    cases m <;> rfl
  · have hname := splitModifier_written hlead hsubject.isWord hafter
    simp only [hbehind, hname, hne]
    cases m <;> rfl

/-- A term is read as it is written, whatever blanks stand in it and around it. -/
theorem parse_of_written {t : Term} {cs : List Char} (h : PaddedTerm t cs) (ht : t.IsDistinct) :
    Term.parse (trimChars cs) = .ok t := by
  obtain ⟨hwritten, hlead, htrail⟩ := h
  rw [Text.trimChars_pad hlead htrail]
  cases hwritten with
  | copied => rfl
  | uncopied => rfl
  | @compare entity name subject after literal text p q m op hsubject hafter hp hq hliteral =>
    have hdistinct : entity = false → ¬entityMark <+: name := by
      simpa [Term.IsDistinct, String.toList_ofList] using ht
    have hcore := isTrimmed_through_symbol op hsubject (after ++ p)
    rw [← List.append_assoc] at hcore
    obtain ⟨rest, htrim, hrest, hbegin⟩ :=
      Text.exists_trimChars_append hcore (by simp [op.isTrimmed_symbol.2]) (q ++ text)
    rw [htrim]
    exact parse_compare hsubject hafter hp hq hliteral hdistinct hrest hbegin

/-! ## Reading groups -/

/-- The word that asks whether a block is a copy holds no reserved character, and its negation holds
none but the `!` it begins with. -/
theorem notMem_copiedWord {c : Char} (hc : c ∈ reserved) (hne : c ≠ '!') :
    c ∉ copiedWord ∧ c ∉ '!' :: copiedWord := by
  have hword : ∀ c ∈ reserved, c ≠ '!' → c ∉ copiedWord := List.all_iff_forall_prop.1 (by decide)
  exact ⟨hword c hc hne, List.not_mem_cons_of_ne_of_not_mem hne (hword c hc hne)⟩

/-- No term holds a `|`, so groups can be told apart. -/
theorem PaddedTerm.notMem_bar {t : Term} {cs : List Char} (h : PaddedTerm t cs) : '|' ∉ cs := by
  have hbar : '|' ∈ reserved := by decide
  have hpad : ∀ {p : List Char}, IsPad p → '|' ∉ p := notMem_pad hbar
  obtain ⟨hwritten, hlead, htrail⟩ := h
  cases hwritten with
  | copied => simp [hpad hlead, hpad htrail, (notMem_copiedWord hbar (by decide)).1]
  | uncopied => simp [hpad hlead, hpad htrail, (notMem_copiedWord hbar (by decide)).1]
  | @compare entity name subject after literal text p q m op hsubject hafter hp hq hliteral =>
    simp [hpad hlead, hpad htrail, hsubject.notMem hbar,
      hafter.notMem hbar (by decide) (by decide), hpad hp, hpad hq,
      op.notMem_symbol '|' (by decide), hliteral.notMem hbar (by decide)]

/-- The only `&` is that of a mask, and a number stands behind it. -/
theorem ModifierWritten.unpaired {m : Option Modifier} {a after rest : List Char}
    (h : ModifierWritten m after) (ha : '&' ∉ a) (hrest : '&' ∉ rest) (hne : rest ≠ []) :
    Unpaired '&' (a ++ after ++ rest) := by
  have hand : '&' ∈ reserved := by decide
  cases h with
  | none => exact Text.unpaired_of_notMem (by simp [ha, hrest])
  | orElse hp hq hn =>
    refine Text.unpaired_of_notMem ?_
    simp [ha, hrest, notMem_pad hand hp, notMem_pad hand hq, notMem_digits hand hn]
  | @mask n p q digits hp hq hn =>
    have hcut : a ++ (p ++ '&' :: (q ++ digits)) ++ rest =
        (a ++ p) ++ '&' :: (q ++ digits ++ rest) := by
      simp only [List.append_assoc, List.cons_append]
    rw [hcut]
    refine Text.unpaired_append_cons ?_ ?_ (by simp [hne])
    · simp [ha, notMem_pad hand hp]
    · simp [hrest, notMem_pad hand hq, notMem_digits hand hn]

/-- A `&` in a term does not stand beside another, so terms can be told apart. -/
theorem PaddedTerm.unpaired {t : Term} {cs : List Char} (h : PaddedTerm t cs) :
    Unpaired '&' cs := by
  have hand : '&' ∈ reserved := by decide
  have hpad : ∀ {p : List Char}, IsPad p → '&' ∉ p := notMem_pad hand
  obtain @⟨_, lead, trail, hwritten, hlead, htrail⟩ := h
  cases hwritten with
  | copied =>
    refine Text.unpaired_of_notMem ?_
    simp [hpad hlead, hpad htrail, (notMem_copiedWord hand (by decide)).1]
  | uncopied =>
    refine Text.unpaired_of_notMem ?_
    simp [hpad hlead, hpad htrail, (notMem_copiedWord hand (by decide)).1]
  | @compare entity name subject after literal text p q m op hsubject hafter hp hq hliteral =>
    have hcut : lead ++ (subject ++ after ++ p ++ op.symbol ++ (q ++ text)) ++ trail =
        lead ++ subject ++ after ++ (p ++ op.symbol ++ (q ++ text) ++ trail) := by
      simp only [List.append_assoc]
    have hsymbol := op.notMem_symbol '&' (by decide)
    rw [hcut]
    refine hafter.unpaired ?_ ?_ (by simp [op.isTrimmed_symbol.2])
    · simp [hpad hlead, hsubject.notMem hand]
    · simp [hpad hp, hsymbol, hpad hq, hliteral.notMem hand (by decide), hpad htrail]

/-- Something is in a term that is not blank. -/
theorem PaddedTerm.exists_mem {t : Term} {cs : List Char} (h : PaddedTerm t cs) :
    ∃ c ∈ cs, Text.isBlank c = false := by
  obtain ⟨hwritten, -, -⟩ := h
  cases hwritten with
  | copied =>
    have hmem : '#' ∈ copiedWord := by decide
    exact ⟨'#', by simp [hmem], by decide⟩
  | uncopied => exact ⟨'!', by simp, by decide⟩
  | @compare entity name subject after literal text p q m op hsubject _ _ _ _ =>
    obtain ⟨hsymbol, hne⟩ := op.isTrimmed_symbol
    refine ⟨op.symbol.head hne, by simp, hsymbol.head _ (List.head_mem_head? hne)⟩

variable {tree : List (List Term)} {cs : List Char}

/-- A text without pairs of `|` and `&` is one group with one term. -/
theorem groups_of_unpaired (hbar : Unpaired '|' cs) (hand : Unpaired '&' cs) :
    groups cs = [[cs]] := by
  rw [groups, Text.splitAtPairs_of_unpaired hbar, List.map_singleton,
    Text.splitAtPairs_of_unpaired hand]

/-- A condition is cut into its groups and these into their terms. -/
theorem groups_of_written (h : ConditionWritten tree cs) :
    List.Forall₂ (List.Forall₂ PaddedTerm) tree (groups cs) := by
  have hgroup : ∀ terms cs, GroupWritten terms cs → '|' ∉ cs := fun terms cs h =>
    h.notMem (by decide) fun _ _ ht => ht.notMem_bar
  have hparts := h.splitAtPairs fun terms cs h => Text.unpaired_of_notMem (hgroup terms cs h)
  refine List.forall₂_map_right_iff.2 (hparts.imp fun terms part hpart => ?_)
  exact hpart.splitAtPairs fun _ _ ht => ht.unpaired

/-- A condition that is written is not blank. -/
theorem trimChars_ne_nil_of_written (h : ConditionWritten tree cs) : trimChars cs ≠ [] := by
  obtain ⟨c, hc, hblank⟩ := h.exists_mem fun _ _ hgroup =>
    hgroup.exists_mem fun _ _ ht => ht.exists_mem
  exact Text.trimChars_ne_nil hc hblank

end BlockModels.Condition
