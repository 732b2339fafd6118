import BlockModels.Proofs.Json.Embedding

/-!
# Documents put together

Texts of values under names, with braces around and commas between, are the text of the object of
the values (`parse?_documentText`), unless one of them is nested to the limit: the object is nested
one level deeper.
-/

namespace BlockModels.Json

/-- A member of an object as it stands in a document. -/
def memberText (t : String × String) : String := "\"" ++ t.1 ++ "\":" ++ t.2

/-- Members as they stand in a document. -/
def membersText (texts : List (String × String)) : String :=
  ",".intercalate (texts.map memberText)

/-- A document that maps names to texts. -/
def documentText (texts : List (String × String)) : String :=
  "\x7b" ++ membersText texts ++ "\x7d"

/-- Nothing in the name has to be escaped. -/
def IsPlainName (s : String) : Prop := ∀ c ∈ s.toList, c ≠ '"' ∧ c ≠ '\\' ∧ ¬c.toNat < 0x20

instance : DecidablePred IsPlainName := fun s => List.decidableBAll _ s.toList

/-- A plain name is read up to its closing quote. -/
theorem stringBody?_of_isPlainName {s : String} (h : IsPlainName s) (rest : List Char) :
    stringBody? (s.toList ++ '"' :: rest) = some (some s.toList, rest) := by
  rw [IsPlainName] at h
  generalize s.toList = cs at h ⊢
  induction cs with
  | nil => rw [List.nil_append, stringBody?]
  | cons c cs ih =>
    obtain ⟨⟨hquote, hescape, hcontrol⟩, hcs⟩ := List.forall_mem_cons.1 h
    rw [List.cons_append, stringBody?, if_neg (by simp [hescape, hcontrol]), ih hcs]
    · rfl
    all_goals intros; simp_all

/-- A comma ends values. -/
theorem closes_comma : Closes ',' := by
  constructor <;> decide

/-- A closing brace ends values. -/
theorem closes_brace : Closes '\x7d' := by
  constructor <;> decide

/-- A quote is no blank. -/
theorem skipSpaces_quote (cs : List Char) : skipSpaces ('"' :: cs) = '"' :: cs :=
  List.dropWhile_cons_of_neg (by decide)

/-- A colon is no blank. -/
theorem skipSpaces_colon (cs : List Char) : skipSpaces (':' :: cs) = ':' :: cs :=
  List.dropWhile_cons_of_neg (by decide)

/-- A member is its name in quotes, a colon, and its text. -/
theorem toList_memberText (t : String × String) : (memberText t).toList =
    '"' :: (t.1.toList ++ '"' :: ':' :: t.2.toList) := by
  simp [memberText]

/-- The name and the value of a member. -/
structure IsMember (m : String × Json) (t : String × String) : Prop where
  name : m.1 = t.1
  isPlainName : IsPlainName t.1
  parse : parse? t.2 = some m.2
  nestsWithin : NestsWithin (maxDepth - 1) m.2

section

variable {m : String × Json} {t : String × String} (hm : IsMember m t) {fuel : Nat}
  (hfuel : 2 * (memberText t).toList.length ≤ fuel + 1)

include hm hfuel

/-- A member before a comma is read, and the others after it. -/
theorem members?_comma (behind : List Char) :
    members? (fuel + 1) (maxDepth - 1) ((memberText t).toList ++ ',' :: behind) =
      (members? fuel (maxDepth - 1) behind).map fun p =>
        ((some m.1.toList, m.2) :: p.1, p.2) := by
  rw [toList_memberText] at hfuel ⊢
  have hlength : 2 * t.2.toList.length + 1 ≤ fuel := by simp at hfuel; omega
  obtain ⟨rest, hvalue, hbehind⟩ :=
    exists_value?_of_parse? behind closes_comma hm.parse hm.nestsWithin hlength
  rw [members?, hm.name]
  simp only [List.cons_append, List.append_assoc, skipSpaces_quote, skipSpaces_colon,
    stringBody?_of_isPlainName hm.isPlainName, hvalue, hbehind]

/-- A member before the closing brace is the last. -/
theorem members?_brace (behind : List Char) :
    members? (fuel + 1) (maxDepth - 1) ((memberText t).toList ++ '\x7d' :: behind) =
      some ([(some m.1.toList, m.2)], behind) := by
  rw [toList_memberText] at hfuel ⊢
  have hlength : 2 * t.2.toList.length + 1 ≤ fuel := by simp at hfuel; omega
  obtain ⟨rest, hvalue, hbehind⟩ :=
    exists_value?_of_parse? behind closes_brace hm.parse hm.nestsWithin hlength
  rw [members?, hm.name]
  simp only [List.cons_append, List.append_assoc, skipSpaces_quote, skipSpaces_colon,
    stringBody?_of_isPlainName hm.isPlainName, hvalue, hbehind]

end

/-- The members of a document are read one after the other. -/
theorem members?_of_forall₂ {members : List (String × Json)} {texts : List (String × String)}
    (h : List.Forall₂ IsMember members texts) (hne : texts ≠ []) (behind : List Char) {fuel : Nat}
    (hfuel : 2 * (membersText texts).toList.length ≤ fuel) :
    members? fuel (maxDepth - 1) ((membersText texts).toList ++ '\x7d' :: behind) =
      some (members.map fun m => (some m.1.toList, m.2), behind) := by
  induction h generalizing fuel with
  | nil => exact absurd rfl hne
  | @cons m t members texts hm hrest ih =>
    have hlength : 0 < (memberText t).toList.length := by
      rw [toList_memberText, List.length_cons]
      exact Nat.succ_pos _
    cases texts with
    | nil =>
      cases hrest
      have hsingle : membersText [t] = memberText t := by
        rw [membersText, List.map_singleton, String.intercalate_singleton]
      rw [hsingle] at hfuel ⊢
      obtain ⟨fuel, rfl⟩ : ∃ f, fuel = f + 1 := ⟨fuel - 1, by omega⟩
      exact members?_brace hm hfuel behind
    | cons t' texts =>
      have hcons : (membersText (t :: t' :: texts)).toList =
          (memberText t).toList ++ ',' :: (membersText (t' :: texts)).toList := by
        simp [membersText, String.toList_intercalate]
      rw [hcons] at hfuel ⊢
      rw [List.length_append, List.length_cons] at hfuel
      obtain ⟨fuel, rfl⟩ : ∃ f, fuel = f + 1 := ⟨fuel - 1, by omega⟩
      rw [List.append_assoc, List.cons_append, members?_comma hm (by omega),
        ih (List.cons_ne_nil _ _) (by omega)]
      rfl

/-- Members with known names are those of an object. -/
theorem objectOf_known (members : List (String × Json)) :
    objectOf (members.map fun m => (some m.1.toList, m.2)) = .obj members := by
  have hmembers : (members.map fun m => ((some m.1.toList : Characters), m.2)).mapM
      (fun (k, j) => k.map fun k => (String.ofList k, j)) = some members := by
    induction members with
    | nil => rfl
    | cons m members ih =>
      rw [List.map_cons, List.mapM_cons, ih]
      simp
  rw [objectOf, hmembers]

/-- A brace with a quote behind begins an object with members. -/
theorem value?_brace (fuel d : Nat) (cs : List Char) :
    value? (fuel + 1) (d + 1) ('\x7b' :: '"' :: cs) =
      (members? fuel d ('"' :: cs)).map fun p => (objectOf p.1, p.2) := by
  have hbrace : skipSpaces ('\x7b' :: '"' :: cs) = '\x7b' :: '"' :: cs :=
    List.dropWhile_cons_of_neg (by decide)
  rw [value?]
  simp only [hbrace, skipSpaces_quote]
  split
  · next heq => exact absurd (List.cons.inj heq).1 (by decide)
  · rfl

/-- A document of texts that have values is the object of the values. -/
theorem parse?_documentText {members : List (String × Json)} {texts : List (String × String)}
    (h : List.Forall₂ IsMember members texts) (hne : texts ≠ []) :
    parse? (documentText texts) = some (.obj members) := by
  have hchars : (documentText texts).toList =
      '\x7b' :: ((membersText texts).toList ++ ['\x7d']) := by
    simp [documentText]
  obtain ⟨chars, hquote⟩ : ∃ chars, (membersText texts).toList = '"' :: chars := by
    obtain ⟨t, texts, rfl⟩ := List.exists_cons_of_ne_nil hne
    cases texts <;> simp [membersText, String.toList_intercalate, toList_memberText]
  have hfuel : 2 * (membersText texts).toList.length ≤ 2 * (documentText texts).toList.length := by
    rw [hchars, List.length_cons, List.length_append]
    omega
  have hmembers := members?_of_forall₂ h hne [] hfuel
  rw [parse?, hchars, hquote, List.cons_append, maxDepth, value?_brace]
  rw [hchars, hquote, List.cons_append] at hmembers
  rw [show members? _ 126 _ = _ from hmembers, Option.map_some, objectOf_known]
  rfl

end BlockModels.Json
