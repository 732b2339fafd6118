import BlockModels.Text.Blank

/-!
# Cutting texts

Texts cut at a character, at a pair of equal characters, behind an opening and before a closing
part. All of them work on the characters of a text and lose none but the mark at which they cut.
-/

namespace BlockModels.Text

/-- The parts before and behind the first occurrence of a character. -/
def cutAt (mark : Char) : List Char → Option (List Char × List Char)
  | [] => none
  | c :: rest =>
    if c = mark then some ([], rest)
    else (cutAt mark rest).map fun (a, b) => (c :: a, b)

/-- All parts between the places of a character. -/
def splitAt (mark : Char) : List Char → List (List Char)
  | [] => [[]]
  | c :: rest =>
    if c = mark then [] :: splitAt mark rest
    else
      match splitAt mark rest with
      | part :: parts => (c :: part) :: parts
      | [] => [[c]]

/-- The text ends in another. -/
def endsIn (ending cs : List Char) : Bool := ending.isSuffixOf cs

/-- The parts before and behind the first place where a character stands twice. -/
def cutAtPair (mark : Char) : List Char → Option (List Char × List Char)
  | [] => none
  | [_] => none
  | c :: d :: rest =>
    if c = mark ∧ d = mark then some ([], rest)
    else (cutAtPair mark (d :: rest)).map fun (a, b) => (c :: a, b)

/-- All parts between the places where a character stands twice. -/
def splitAtPairs (mark : Char) : List Char → List (List Char)
  | [] => [[]]
  | [c] => [[c]]
  | c :: d :: rest =>
    if c = mark ∧ d = mark then [] :: splitAtPairs mark rest
    else
      match splitAtPairs mark (d :: rest) with
      | part :: parts => (c :: part) :: parts
      | [] => [[c]]

/-- The text behind an opening part that it has to begin with. -/
def behind? : List Char → List Char → Option (List Char)
  | [], cs => some cs
  | _ :: _, [] => none
  | o :: opening, c :: cs => if o = c then behind? opening cs else none

/-- The text before its last character, which has to be the given one. -/
def beforeLast? (last : Char) (cs : List Char) : Option (List Char) :=
  if cs.getLast? = some last then some cs.dropLast else none

/-- The text without the double or single quotes around it, if it has both. -/
def unquote (cs : List Char) : List Char :=
  let inside? (q : Char) : Option (List Char) :=
    match cs with
    | c :: rest => if c = q then beforeLast? q rest else none
    | [] => none
  ((inside? '"').or (inside? '\'')).getD cs

theorem cutAt_eq_some {mark : Char} {cs a b : List Char} (h : cutAt mark cs = some (a, b)) :
    cs = a ++ mark :: b ∧ mark ∉ a := by
  induction cs generalizing a with
  | nil => simp [cutAt] at h
  | cons c rest ih =>
    rw [cutAt] at h
    split at h
    next hc => simp_all
    next hc =>
      obtain ⟨⟨a', b'⟩, h1, h2⟩ := Option.map_eq_some_iff.1 h
      obtain ⟨rfl, rfl⟩ := Prod.mk.inj h2
      obtain ⟨rfl, hm⟩ := ih h1
      exact ⟨rfl, by simp [hm, Ne.symm hc]⟩

theorem behind?_eq_some {opening cs rest : List Char} (h : behind? opening cs = some rest) :
    cs = opening ++ rest := by
  induction opening generalizing cs with
  | nil => simpa [behind?] using h
  | cons o opening ih =>
    cases cs with
    | nil => simp [behind?] at h
    | cons c cs =>
      rw [behind?] at h
      split at h
      next hc => rw [hc, ih h]; rfl
      next => simp at h

end BlockModels.Text
