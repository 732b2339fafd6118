import BlockModels.Proofs.Condition.Meaning

/-!
# Which texts are terms

Every text is read as a term or refused. What is read is said here for all texts, not only for those
that were written as terms: the first comparison cuts the text in two (`ComparesAt`), the mark of a
property is taken from the left part, and then the first `??`, or else the first `&`, cuts the name
from a number (`SubjectRead`). A text is read if all of this can be done and a name is left
(`parse_eq_ok_iff`).
-/

namespace BlockModels.Condition

open Text (Unpaired trimChars)

/-! ## Comparisons -/

namespace Comparison

/-- No comparison opens a text exactly if it begins with none of their symbols. -/
theorem opening?_eq_none_iff {cs : List Char} :
    opening? cs = none ↔ ∀ op : Comparison, ¬op.symbol <+: cs := by
  constructor
  · rintro h op ⟨rest, rfl⟩
    cases op with
    | eq | ne | ge | le => cases h
    | gt | lt =>
      unfold opening? at h
      split at h <;> simp_all [symbol]
  · intro h
    unfold opening?
    split
    · exact absurd ⟨_, rfl⟩ (h .eq)
    · exact absurd ⟨_, rfl⟩ (h .ne)
    · exact absurd ⟨_, rfl⟩ (h .ge)
    · exact absurd ⟨_, rfl⟩ (h .le)
    · exact absurd ⟨_, rfl⟩ (h .gt)
    · exact absurd ⟨_, rfl⟩ (h .lt)
    · rfl

/-- The comparison that a text begins with is the longest one. -/
theorem opening?_eq_some_iff {cs rest : List Char} {op : Comparison} :
    opening? cs = some (op, rest) ↔ cs = op.symbol ++ rest ∧
      ∀ op' : Comparison, op'.symbol <+: cs → op'.symbol.length ≤ op.symbol.length := by
  have hlength : ∀ op' : Comparison, op'.symbol.length ≤ 2 := by
    intro op'
    cases op' <;> decide
  constructor
  · intro h
    unfold opening? at h
    split at h
    case h_7 => cases h
    case h_5 hlong =>
      cases h
      refine ⟨rfl, fun op' ⟨t, ht⟩ => ?_⟩
      cases op' with
      | ge => exact (hlong t (List.cons.inj ht).2.symm).elim
      | gt => exact le_rfl
      | eq | ne | le | lt => cases ht
    case h_6 hlong =>
      cases h
      refine ⟨rfl, fun op' ⟨t, ht⟩ => ?_⟩
      cases op' with
      | le => exact (hlong t (List.cons.inj ht).2.symm).elim
      | lt => exact le_rfl
      | eq | ne | ge | gt => cases ht
    all_goals
      cases h
      exact ⟨rfl, fun op' _ => hlength op'⟩
  · rintro ⟨rfl, hlong⟩
    cases op with
    | eq | ne | ge | le => rfl
    | gt =>
      refine opening?_symbol _ fun h => ?_
      obtain ⟨t, rfl⟩ := List.head?_eq_some_iff.1 h
      exact absurd (hlong .ge ⟨t, rfl⟩) (by decide)
    | lt =>
      refine opening?_symbol _ fun h => ?_
      obtain ⟨t, rfl⟩ := List.head?_eq_some_iff.1 h
      exact absurd (hlong .le ⟨t, rfl⟩) (by decide)

end Comparison

/-- The first comparison in a text, of those that begin there the longest. -/
structure ComparesAt (cs left : List Char) (op : Comparison) (right : List Char) : Prop where
  eq_append : cs = left ++ (op.symbol ++ right)
  first : ∀ a b, left = a ++ b → b ≠ [] →
    ∀ op' : Comparison, ¬op'.symbol <+: b ++ (op.symbol ++ right)
  longest : ∀ op' : Comparison, op'.symbol <+: op.symbol ++ right →
    op'.symbol.length ≤ op.symbol.length

/-- A text is cut at the first symbol of a comparison. -/
theorem splitComparison?_eq_some_iff {cs left right : List Char} {op : Comparison} :
    splitComparison? cs = some (left, op, right) ↔ ComparesAt cs left op right := by
  induction cs generalizing left with
  | nil =>
    refine iff_of_false nofun fun h => ?_
    have hnil := List.append_eq_nil_iff.1 (List.append_eq_nil_iff.1 h.eq_append.symm).2
    exact op.isTrimmed_symbol.2 hnil.1
  | cons c rest ih =>
    rw [splitComparison?]
    cases hopening : Comparison.opening? (c :: rest) with
    | some found =>
      obtain ⟨op', behind⟩ := found
      obtain ⟨heq, hlong⟩ := Comparison.opening?_eq_some_iff.1 hopening
      constructor
      · rintro ⟨⟩
        exact ⟨heq, fun a b hab hb => absurd (List.append_eq_nil_iff.1 hab.symm).2 hb,
          heq ▸ hlong⟩
      · intro h
        have hleft : left = [] := by
          by_contra hne
          refine h.first [] left rfl hne op' ?_
          rw [← h.eq_append, heq]
          exact List.prefix_append _ _
        subst hleft
        have hother := Comparison.opening?_eq_some_iff.2 ⟨h.eq_append, h.eq_append ▸ h.longest⟩
        rw [hopening] at hother
        cases hother
        rfl
    | none =>
      have hnone := Comparison.opening?_eq_none_iff.1 hopening
      constructor
      · intro h
        obtain ⟨⟨before, found⟩, hfound, heq⟩ := Option.map_eq_some_iff.1 h
        obtain ⟨rfl, rfl⟩ := Prod.mk.inj heq
        have hrest := ih.1 hfound
        refine ⟨congrArg (c :: ·) hrest.eq_append, fun a b hab hb op' hop => ?_, hrest.longest⟩
        cases a with
        | nil =>
          rw [← List.nil_append b, ← hab, List.cons_append, ← hrest.eq_append] at hop
          exact hnone op' hop
        | cons d a => exact hrest.first a b (List.cons.inj hab).2 hb op' hop
      · intro h
        cases left with
        | nil =>
          exact absurd (h.eq_append ▸ List.prefix_append op.symbol right) (hnone op)
        | cons d left =>
          obtain ⟨rfl, hrest⟩ := List.cons.inj h.eq_append
          have hfirst := fun a b hab => h.first (c :: a) b (congrArg (c :: ·) hab)
          have hih := ih.2 ⟨hrest, hfirst, h.longest⟩
          exact Option.map_eq_some_iff.2 ⟨_, hih, rfl⟩

/-! ## Subjects -/

/-- What stands before a comparison: a name, which is not trimmed here, and what is done to the
value. A `??` comes before a `&`. -/
inductive SubjectRead : List Char → List Char → Option Modifier → Prop
  | plain {cs : List Char} : ¬['?', '?'] <:+: cs → '&' ∉ cs → SubjectRead cs cs none
  | orElse {a b : List Char} {n : Int64} : Unpaired '?' a → int64? (trimChars b) = some n →
      SubjectRead (a ++ '?' :: '?' :: b) a (some (.orElse n))
  | mask {a b : List Char} {n : Int64} : ¬['?', '?'] <:+: a ++ '&' :: b → '&' ∉ a →
      int64? (trimChars b) = some n → SubjectRead (a ++ '&' :: b) a (some (.mask n))

variable {cs a name : List Char} {m : Option Modifier}

/-- A subject that can be read is cut into its name and its modifier. -/
theorem splitModifier_of_read (h : SubjectRead cs a m) :
    splitModifier cs = (trimChars a, m.map some) := by
  cases h with
  | plain hpair hmark =>
    rw [splitModifier, Text.cutAtPair_eq_none_iff.2 hpair, Text.cutAt_eq_none hmark]
    rfl
  | orElse ha hn =>
    rw [splitModifier, Text.cutAtPair_of_unpaired ha]
    simp [hn]
  | mask hpair ha hn =>
    rw [splitModifier, Text.cutAtPair_eq_none_iff.2 hpair, Text.cutAt_append ha]
    simp [hn]

/-- A subject is cut in a way in which it can be read. -/
theorem exists_read_of_splitModifier (h : splitModifier cs = (name, m.map some)) :
    ∃ a, SubjectRead cs a m ∧ trimChars a = name := by
  unfold splitModifier at h
  split at h
  next a b hcut =>
    obtain ⟨rfl, ha⟩ := Text.cutAtPair_eq_some_iff.1 hcut
    obtain ⟨rfl, hm⟩ := Prod.mk.inj h
    obtain ⟨m, rfl, hsome⟩ := Option.map_eq_some_iff.1 hm.symm
    obtain ⟨n, hn, rfl⟩ := Option.map_eq_some_iff.1 hsome.symm
    exact ⟨a, .orElse ha hn, rfl⟩
  next hpair =>
    rw [Text.cutAtPair_eq_none_iff] at hpair
    split at h
    next a b hcut =>
      obtain ⟨rfl, ha⟩ := Text.cutAt_eq_some_iff.1 hcut
      obtain ⟨rfl, hm⟩ := Prod.mk.inj h
      obtain ⟨m, rfl, hsome⟩ := Option.map_eq_some_iff.1 hm.symm
      obtain ⟨n, hn, rfl⟩ := Option.map_eq_some_iff.1 hsome.symm
      exact ⟨a, .mask hpair ha hn, rfl⟩
    next hcut =>
      obtain ⟨rfl, hm⟩ := Prod.mk.inj h
      obtain rfl := Option.map_eq_none_iff.1 hm.symm
      exact ⟨cs, .plain hpair (Text.cutAt_eq_none_iff.1 hcut), rfl⟩

/-! ## Terms -/

/-- What stands before a comparison is about a property, whose mark is taken away, or about a
state. -/
def IsAbout (left : List Char) (entity : Bool) (subject : List Char) : Prop :=
  if entity then left = entityMark ++ subject else left = subject ∧ ¬entityMark <+: left

/-- A text without blanks around it is well formed, and this is the term. -/
inductive IsRead : List Char → Term → Prop
  | copied : IsRead copiedWord (.copied false)
  | uncopied : IsRead ('!' :: copiedWord) (.copied true)
  | compare {cs left right subject a : List Char} {op : Comparison} {entity : Bool}
      {m : Option Modifier} : ComparesAt cs left op right →
      IsAbout (trimChars left) entity subject → SubjectRead subject a m → trimChars a ≠ [] →
      IsRead cs (.compare entity (String.ofList (trimChars a)) m op (Term.parse.literal right))

/-- The word that asks whether a block is a copy compares nothing, nor does its negation. -/
theorem not_comparesAt_copiedWord {left right : List Char} {op : Comparison} :
    ¬ComparesAt copiedWord left op right ∧ ¬ComparesAt ('!' :: copiedWord) left op right := by
  have hnone : splitComparison? copiedWord = none ∧ splitComparison? ('!' :: copiedWord) = none :=
    ⟨by decide, by decide⟩
  rw [← splitComparison?_eq_some_iff, ← splitComparison?_eq_some_iff, hnone.1, hnone.2]
  exact ⟨nofun, nofun⟩

/-- What is behind the mark of a property, if it is there. -/
theorem isAbout_iff {left subject : List Char} {entity : Bool} :
    IsAbout left entity subject ↔
      (entity = true ∧ Text.behind? entityMark left = some subject) ∨
        entity = false ∧ Text.behind? entityMark left = none ∧ left = subject := by
  cases entity with
  | true =>
    simp only [IsAbout, if_true, true_and, Bool.true_eq_false, false_and, or_false]
    exact ⟨fun h => h ▸ Text.behind?_append _ _, Text.behind?_eq_some⟩
  | false =>
    simp only [IsAbout, Bool.false_eq_true, if_false, false_and, true_and, false_or,
      Text.behind?_eq_none_iff]
    exact and_comm

/-- A comparison of which the parts are known. -/
def compareParts (entity : Bool) (op : Comparison) (literal : List Char)
    (parts : List Char × Option (Option Modifier)) : Except TermError Term :=
  if parts.1.isEmpty then .error .noName
  else
    match parts.2 with
    | some none => .error .badOperand
    | some (some m) => .ok (.compare entity (String.ofList parts.1) (some m) op literal)
    | none => .ok (.compare entity (String.ofList parts.1) none op literal)

/-- The parts of a comparison are a term if there is a name and the number of a modifier, if there
is one, can be read. -/
theorem compareParts_eq_ok_iff {entity : Bool} {op : Comparison} {literal : List Char}
    {parts : List Char × Option (Option Modifier)} {t : Term} :
    compareParts entity op literal parts = .ok t ↔ ∃ name m, parts = (name, m.map some) ∧
      name ≠ [] ∧ t = .compare entity (String.ofList name) m op literal := by
  obtain ⟨name, modifier⟩ := parts
  rw [compareParts]
  constructor
  · intro h
    split at h
    · cases h
    next hne =>
      rw [List.isEmpty_iff] at hne
      rcases modifier with - | - | m
      · cases h
        exact ⟨name, none, rfl, hne, rfl⟩
      · cases h
      · cases h
        exact ⟨name, some m, rfl, hne, rfl⟩
  · rintro ⟨name', m, hparts, hne, rfl⟩
    cases hparts
    rw [if_neg (mt List.isEmpty_iff.1 hne)]
    cases m <;> rfl

/-- A term that is made of the parts of a text is read from it. -/
theorem IsRead.of_parts {left right subject : List Char} {op : Comparison} {entity : Bool}
    {t : Term} (hsplit : ComparesAt cs left op right)
    (habout : IsAbout (trimChars left) entity subject)
    (h : compareParts entity op (Term.parse.literal right) (splitModifier subject) = .ok t) :
    IsRead cs t := by
  obtain ⟨name, m, hmod, hne, rfl⟩ := compareParts_eq_ok_iff.1 h
  obtain ⟨a, ha, rfl⟩ := exists_read_of_splitModifier hmod
  exact .compare hsplit habout ha hne

/-- A text is read exactly if it is well formed. -/
theorem parse_eq_ok_iff {t : Term} : Term.parse cs = .ok t ↔ IsRead cs t := by
  have hmark : "entity.".toList = entityMark := rfl
  constructor
  · intro h
    unfold Term.parse at h
    split at h
    next hcs =>
      cases h
      exact hcs ▸ .copied
    split at h
    next hcs =>
      cases h
      exact hcs ▸ .uncopied
    split at h
    · cases h
    next left op right hsplit =>
      rw [splitComparison?_eq_some_iff] at hsplit
      dsimp only at h
      rw [hmark] at h
      cases hbehind : Text.behind? entityMark (trimChars left) with
      | some subject =>
        rw [hbehind] at h
        exact .of_parts hsplit (isAbout_iff.2 (.inl ⟨rfl, hbehind⟩)) h
      | none =>
        rw [hbehind] at h
        exact .of_parts hsplit (isAbout_iff.2 (.inr ⟨rfl, hbehind, rfl⟩)) h
  · intro h
    cases h with
    | copied => exact if_pos rfl
    | uncopied => rw [Term.parse, if_neg (by decide), if_pos rfl]
    | @compare _ left right subject a op entity m hsplit habout hread hne =>
      have hword : cs ≠ copiedWord := fun heq => not_comparesAt_copiedWord.1 (heq ▸ hsplit)
      have hword' : cs ≠ '!' :: copiedWord := fun heq => not_comparesAt_copiedWord.2 (heq ▸ hsplit)
      have hparts : compareParts entity op (Term.parse.literal right) (splitModifier subject) =
          .ok (.compare entity (String.ofList (trimChars a)) m op (Term.parse.literal right)) :=
        compareParts_eq_ok_iff.2 ⟨trimChars a, m, splitModifier_of_read hread, hne, rfl⟩
      rw [Term.parse, if_neg hword, if_neg hword', splitComparison?_eq_some_iff.2 hsplit]
      dsimp only
      rw [hmark]
      rcases isAbout_iff.1 habout with ⟨rfl, hbehind⟩ | ⟨rfl, hbehind, rfl⟩
      · rw [hbehind]
        exact hparts
      · rw [hbehind]
        exact hparts

end BlockModels.Condition
