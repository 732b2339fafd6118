import BlockModels.Placeholder.Interpolation
import BlockModels.Proofs.Text.Cutting
import Mathlib.Data.List.Infix

/-!
# What templates are filled to

A template is a literal and any number of placeholders, each with a literal behind it; at the end a
placeholder may be left open (`Segments`). Every text is one (`exists_segments`). It is filled to
its literals and the values of its placeholders, in order, and the placeholder that is left open
stays as it is. Only where a placeholder falls through to a default for the whole text is this
default all that is left, and what comes behind makes no difference (`interpolate_segments`).

A value that was put in may look like a placeholder itself. It is not filled: what is put together
is a list that only grows, and only the template is cut.
-/

namespace BlockModels.Placeholder

/-! ## Templates -/

/-- What a placeholder begins with. -/
def openingMark : List Char := ['$', '\x7b']

/-- No placeholder begins in a text. -/
def IsLiteral (cs : List Char) : Prop := ¬openingMark <:+: cs

instance (cs : List Char) : Decidable (IsLiteral cs) :=
  inferInstanceAs (Decidable (¬openingMark <:+: cs))

/-- A placeholder that is left open, if there is one. -/
def unclosedText : Option (List Char) → List Char
  | none => []
  | some cs => openingMark ++ cs

/-- Placeholders, each with the literal behind it, and what is left open. -/
def writtenParts : List (List Char × List Char) → Option (List Char) → List Char
  | [], unclosed => unclosedText unclosed
  | (inside, literal) :: parts, unclosed =>
    openingMark ++ inside ++ '\x7d' :: (literal ++ writtenParts parts unclosed)

/-- A template by its parts. -/
structure Segments where
  first : List Char
  /-- Placeholders, by what is in them, and literals. -/
  parts : List (List Char × List Char)
  /-- What comes behind a placeholder's opening mark, and is not closed. -/
  unclosed : Option (List Char)
  isLiteral_first : IsLiteral first
  parts_proper : ∀ part ∈ parts, '\x7d' ∉ part.1 ∧ IsLiteral part.2
  unclosed_open : ∀ cs ∈ unclosed, '\x7d' ∉ cs

/-- The template itself. -/
def Segments.text (s : Segments) : List Char := s.first ++ writtenParts s.parts s.unclosed

theorem isLiteral_nil : IsLiteral [] := by
  intro h
  exact absurd (List.infix_nil.1 h) (List.cons_ne_nil _ _)

theorem IsLiteral.tail {c : Char} {cs : List Char} (h : IsLiteral (c :: cs)) : IsLiteral cs :=
  fun hfound => h (hfound.trans (List.infix_cons (List.infix_refl cs)))

theorem IsLiteral.ne_openingMark {c d : Char} {cs : List Char} (h : IsLiteral (c :: d :: cs)) :
    ¬(c = '$' ∧ d = '\x7b') := by
  rintro ⟨rfl, rfl⟩
  exact h ⟨[], cs, rfl⟩

theorem IsLiteral.cons {c : Char} {cs : List Char} (h : IsLiteral cs)
    (hc : ∀ rest, c = '$' → cs ≠ '\x7b' :: rest) : IsLiteral (c :: cs) := by
  intro hfound
  rcases List.infix_cons_iff.1 hfound with hbegin | hfound
  · obtain ⟨rest, hrest⟩ := hbegin
    obtain ⟨hdollar, hbrace⟩ := List.cons.inj hrest
    exact hc rest hdollar.symm hbrace.symm
  · exact h hfound

/-- Every text is a template. -/
theorem exists_segments (cs : List Char) : ∃ s : Segments, s.text = cs := by
  suffices h : ∀ n, ∀ cs : List Char, cs.length ≤ n → ∃ s : Segments, s.text = cs from h _ cs le_rfl
  intro n
  induction n with
  | zero =>
    intro cs hn
    refine ⟨⟨[], [], none, isLiteral_nil, nofun, nofun⟩, ?_⟩
    exact (List.eq_nil_of_length_eq_zero (Nat.le_zero.1 hn)).symm
  | succ n ih =>
    intro cs hn
    by_cases hopen : ∃ rest, cs = openingMark ++ rest
    · obtain ⟨rest, rfl⟩ := hopen
      have hlength : rest.length + 2 ≤ n + 1 := hn
      cases hcut : Text.cutAt '\x7d' rest with
      | none =>
        refine ⟨⟨[], [], some rest, isLiteral_nil, nofun, ?_⟩, rfl⟩
        rintro _ ⟨⟩
        exact Text.notMem_of_cutAt_eq_none hcut
      | some parts =>
        obtain ⟨inside, behind⟩ := parts
        obtain ⟨rfl, hinside⟩ := Text.cutAt_eq_some hcut
        rw [List.length_append, List.length_cons] at hlength
        obtain ⟨s, rfl⟩ := ih behind (by omega)
        refine ⟨⟨[], (inside, s.first) :: s.parts, s.unclosed, isLiteral_nil,
          List.forall_mem_cons.2 ⟨⟨hinside, s.isLiteral_first⟩, s.parts_proper⟩,
          s.unclosed_open⟩, ?_⟩
        simp [Segments.text, writtenParts]
    · cases cs with
      | nil => exact ⟨⟨[], [], none, isLiteral_nil, nofun, nofun⟩, rfl⟩
      | cons c rest =>
        obtain ⟨s, rfl⟩ := ih rest (Nat.le_of_succ_le_succ hn)
        refine ⟨⟨c :: s.first, s.parts, s.unclosed, s.isLiteral_first.cons ?_, s.parts_proper,
          s.unclosed_open⟩, rfl⟩
        rintro rest rfl hfirst
        refine hopen ⟨rest ++ writtenParts s.parts s.unclosed, ?_⟩
        rw [Segments.text, hfirst]
        rfl

/-! ## Placeholders -/

/-- What is put in, in one place or in all. -/
def Substitution.text : Substitution → String
  | .value s => s
  | .wholeText s => s

/-- A placeholder falls through to a default for the whole text: what it asks for is understood and
is not there or empty, and behind `??` there is such a default, with this literal. -/
inductive FallsThrough (b : Block) (arrays : Option Arrays) (placeholder : List Char) :
    String → Prop
  | mk {expression fallback literal : List Char} {value : Option String} :
      Text.cutAtPair '?' placeholder = some (expression, fallback) →
      (resolution b arrays (Text.trimChars expression) = .array value ∨
        resolution b arrays (Text.trimChars expression) = .path value) →
      (∀ v, value = some v → v = "") →
      Text.trimChars fallback = wholeTextWord ++ literal ++ [')'] →
      FallsThrough b arrays placeholder (String.ofList (Text.unquote (Text.trimChars literal)))

/-- A default is one for the whole text if it is a literal in the brackets behind its word. -/
theorem defaultOf_eq_wholeText_iff {cs : List Char} {s : String} :
    defaultOf cs = .wholeText s ↔ ∃ literal, cs = wholeTextWord ++ literal ++ [')'] ∧
      s = String.ofList (Text.unquote (Text.trimChars literal)) := by
  constructor
  · intro h
    unfold defaultOf at h
    split at h
    next literal hliteral =>
      cases h
      obtain ⟨rest, hword, hlast⟩ := Option.bind_eq_some_iff.1 hliteral
      refine ⟨literal, ?_, rfl⟩
      rw [Text.behind?_eq_some hword, Text.beforeLast?_eq_some hlast, List.append_assoc]
    · cases h
  · rintro ⟨literal, rfl, rfl⟩
    rw [defaultOf, List.append_assoc, Text.behind?_append, Option.bind_some,
      Text.beforeLast?_append]

/-- A value that is not empty is kept, so there is a default only in the place of another one. -/
theorem value_orDefault_eq_wholeText_iff {b : Block} {placeholder : List Char}
    {kind : DiagnosticKind} {value : Option String} {fallback : Option (List Char)} {s : String} :
    (orDefault b placeholder kind value fallback).value = .wholeText s ↔
      (∀ v, value = some v → v = "") ∧ ∃ cs, fallback = some cs ∧ defaultOf cs = .wholeText s := by
  have hempty : value.filter (!·.isEmpty) = none ↔ ∀ v, value = some v → v = "" := by
    simp [Option.filter_eq_none_iff]
  unfold orDefault
  split
  next v _ hv =>
    refine iff_of_false nofun fun h => ?_
    rw [hempty.2 h.1] at hv
    cases hv
  next cs hnone =>
    refine ⟨fun h => ⟨hempty.1 hnone, cs, rfl, h⟩, ?_⟩
    rintro ⟨-, _, ⟨⟩, h⟩
    exact h
  next => exact iff_of_false nofun fun ⟨_, _, h, _⟩ => nomatch h

theorem notes_orDefault_some (b : Block) (placeholder : List Char) (kind : DiagnosticKind)
    (value : Option String) (cs : List Char) :
    (orDefault b placeholder kind value (some cs)).notes = [] := by
  unfold orDefault
  split
  · rfl
  · rfl
  next h => cases h

variable {b : Block} {arrays : Option Arrays} {placeholder : List Char} {s : String}

/-- What falls through stands for the whole text, and leaves no note. -/
theorem FallsThrough.substitute_eq (h : FallsThrough b arrays placeholder s) :
    substitute b arrays placeholder = ⟨.wholeText s, []⟩ := by
  obtain ⟨hcut, hresolution, hempty, hfallback⟩ := h
  have hdefault := defaultOf_eq_wholeText_iff.2 ⟨_, hfallback, rfl⟩
  unfold substitute
  rcases hresolution with hresolution | hresolution
  all_goals
    simp only [hcut, hresolution]
    exact Noted.ext (value_orDefault_eq_wholeText_iff.2 ⟨hempty, _, rfl, hdefault⟩)
      (notes_orDefault_some _ _ _ _ _)

/-- Nothing else stands for the whole text. -/
theorem value_substitute_eq_wholeText_iff :
    (substitute b arrays placeholder).value = .wholeText s ↔
      FallsThrough b arrays placeholder s := by
  refine ⟨fun h => ?_, fun h => congrArg Noted.value h.substitute_eq⟩
  unfold substitute at h
  have hdefault : ∀ {kind value fallback}, (orDefault b placeholder kind value fallback).value =
      .wholeText s → (∀ v, value = some v → v = "") ∧ ∃ literal,
        fallback = some (wholeTextWord ++ literal ++ [')']) ∧
          s = String.ofList (Text.unquote (Text.trimChars literal)) := by
    intro kind value fallback h
    obtain ⟨hempty, cs, rfl, hcs⟩ := value_orDefault_eq_wholeText_iff.1 h
    obtain ⟨literal, rfl, hs⟩ := defaultOf_eq_wholeText_iff.1 hcs
    exact ⟨hempty, literal, rfl, hs⟩
  cases hcut : Text.cutAtPair '?' placeholder with
  | none =>
    simp only [hcut] at h
    split at h
    · obtain ⟨-, _, hnone, -⟩ := hdefault h
      cases hnone
    · obtain ⟨-, _, hnone, -⟩ := hdefault h
      cases hnone
    · cases h
    · cases h
  | some parts =>
    simp only [hcut] at h
    split at h
    next hresolution =>
      obtain ⟨hempty, literal, hfallback, rfl⟩ := hdefault h
      exact .mk hcut (.inl hresolution) hempty (Option.some.inj hfallback)
    next hresolution =>
      obtain ⟨hempty, literal, hfallback, rfl⟩ := hdefault h
      exact .mk hcut (.inr hresolution) hempty (Option.some.inj hfallback)
    · cases h
    · cases h

/-- What does not fall through has a value. -/
theorem value_substitute_of_not_fallsThrough (h : ∀ s, ¬FallsThrough b arrays placeholder s) :
    (substitute b arrays placeholder).value =
      .value (substitute b arrays placeholder).value.text := by
  cases hvalue : (substitute b arrays placeholder).value with
  | value s => rfl
  | wholeText s => exact absurd (value_substitute_eq_wholeText_iff.1 hvalue) (h s)

/-! ## Filling -/

section

variable (b : Block) (arrays : Option Arrays) (template : String)

/-- A character is put behind what was put together before. -/
theorem fill_consText (done : String) (c : Char) (pieces : List Piece) :
    fill b arrays template done (Piece.consText c pieces) =
      fill b arrays template (done ++ String.ofList [c]) pieces := by
  cases pieces with
  | nil => rfl
  | cons piece pieces =>
    cases piece with
    | text cs =>
      rw [Piece.consText, fill, fill, String.append_assoc, ← String.ofList_append]
      rfl
    | placeholder cs => rfl
    | unclosed cs => rfl

/-- A literal is put behind what was put together before. -/
theorem fill_literal {literal rest : List Char} (h : IsLiteral literal)
    (hrest : '\x7b' ∉ rest.head?) (fuel : Nat) (done : String) :
    fill b arrays template done (piecesUpTo (literal.length + fuel) (literal ++ rest)) =
      fill b arrays template (done ++ String.ofList literal) (piecesUpTo fuel rest) := by
  induction literal generalizing done with
  | nil => simp
  | cons c literal ih =>
    have hstep : piecesUpTo ((c :: literal).length + fuel) (c :: literal ++ rest) =
        Piece.consText c (piecesUpTo (literal.length + fuel) (literal ++ rest)) := by
      have hopen : ∀ tail, c = '$' → literal ++ rest = '\x7b' :: tail → False := by
        intro tail hc htail
        cases literal with
        | nil =>
          rw [List.nil_append] at htail
          exact hrest (htail ▸ rfl)
        | cons d literal => exact h.ne_openingMark ⟨hc, (List.cons.inj htail).1⟩
      rw [List.length_cons, Nat.add_right_comm, List.cons_append, piecesUpTo]
      exact hopen
    rw [hstep, fill_consText, ih h.tail, String.append_assoc, ← String.ofList_append]
    rfl

/-- A placeholder is put in by what stands for it. -/
theorem fill_placeholder {inside : List Char} (h : '\x7d' ∉ inside) (rest : List Char) (fuel : Nat)
    (done : String) :
    fill b arrays template done
        (piecesUpTo (fuel + 1) (openingMark ++ inside ++ '\x7d' :: rest)) =
      substitute b arrays inside >>= fun substitution =>
        match substitution with
        | .wholeText s => pure s
        | .value s => fill b arrays template (done ++ s) (piecesUpTo fuel rest) := by
  have hcut := Text.cutAt_append h rest
  have hpieces : piecesUpTo (fuel + 1) (openingMark ++ inside ++ '\x7d' :: rest) =
      .placeholder inside :: piecesUpTo fuel rest := by
    rw [openingMark, List.append_assoc]
    change piecesUpTo (fuel + 1) ('$' :: '\x7b' :: (inside ++ '\x7d' :: rest)) = _
    rw [piecesUpTo, hcut]
  rw [hpieces]
  rfl

/-- The value of a placeholder and the literal behind it. -/
def filledPart (part : List Char × List Char) : List Char :=
  (substitute b arrays part.1).value.text.toList ++ part.2

/-- The notes on a placeholder. -/
def partNotes (part : List Char × List Char) : List Diagnostic :=
  (substitute b arrays part.1).notes

/-- What was put in is behind what was put together before, and is not looked at again. -/
theorem fill_part {part : List Char × List Char} {rest : List Char}
    (hpart : '\x7d' ∉ part.1 ∧ IsLiteral part.2) (hrest : '\x7b' ∉ rest.head?) (fuel : Nat)
    (hvalue : ∀ s, ¬FallsThrough b arrays part.1 s) (done : String) :
    fill b arrays template done (piecesUpTo (part.2.length + fuel + 1)
        (openingMark ++ part.1 ++ '\x7d' :: (part.2 ++ rest))) =
      ⟨(fill b arrays template (done ++ String.ofList (filledPart b arrays part))
          (piecesUpTo fuel rest)).value,
        partNotes b arrays part ++ (fill b arrays template
          (done ++ String.ofList (filledPart b arrays part)) (piecesUpTo fuel rest)).notes⟩ := by
  have hdone : ∀ s : String, done ++ s ++ String.ofList part.2 =
      done ++ String.ofList (s.toList ++ part.2) := fun s => by
    rw [String.ofList_append, String.ofList_toList, String.append_assoc]
  -- Behind the value the literal is filled in, and then what comes behind it.
  have hnext : (match (substitute b arrays part.1).value with
      | .wholeText s => pure s
      | .value s => fill b arrays template (done ++ s)
          (piecesUpTo (part.2.length + fuel) (part.2 ++ rest))) =
      fill b arrays template (done ++ String.ofList (filledPart b arrays part))
        (piecesUpTo fuel rest) := by
    rw [value_substitute_of_not_fallsThrough hvalue]
    simp only
    rw [fill_literal b arrays template hpart.2 hrest, hdone]
    rfl
  rw [fill_placeholder b arrays template hpart.1]
  refine Noted.ext ?_ ?_
  · rw [Noted.value_bind]
    exact (congrArg Noted.value hnext :)
  · rw [Noted.notes_bind]
    exact congrArg (fun next => partNotes b arrays part ++ next.notes) hnext

/-- The notes on a placeholder that is left open. -/
def unclosedNotes : Option (List Char) → List Diagnostic
  | none => []
  | some _ => [⟨.warning, .malformedExpression,
      "Unclosed placeholder in " ++ Text.quote template ++ " for " ++ b.name⟩]

/-- A placeholder that is left open stays as it is. -/
theorem fill_unclosed {unclosed : Option (List Char)} (h : ∀ cs ∈ unclosed, '\x7d' ∉ cs)
    {fuel : Nat} (hfuel : (unclosedText unclosed).length ≤ fuel) (done : String) :
    fill b arrays template done (piecesUpTo fuel (unclosedText unclosed)) =
      ⟨done ++ String.ofList (unclosedText unclosed), unclosedNotes b template unclosed⟩ := by
  cases unclosed with
  | none =>
    have hpieces : piecesUpTo fuel [] = [] := by cases fuel <;> rfl
    rw [unclosedText, hpieces, fill, String.ofList_nil, String.append_empty]
    rfl
  | some cs =>
    have hpos : 0 < fuel := Nat.lt_of_lt_of_le (Nat.succ_pos _) hfuel
    obtain ⟨fuel, rfl⟩ := Nat.exists_eq_add_of_lt hpos
    rw [Nat.zero_add]
    have hpieces : piecesUpTo (fuel + 1) ('$' :: '\x7b' :: cs) =
        [.unclosed ('$' :: '\x7b' :: cs)] := by
      rw [piecesUpTo, Text.cutAt_eq_none (h cs rfl)]
    change fill b arrays template done (piecesUpTo (fuel + 1) ('$' :: '\x7b' :: cs)) = _
    rw [hpieces]
    rfl

theorem head?_writtenParts (parts : List (List Char × List Char)) (unclosed : Option (List Char)) :
    '\x7b' ∉ (writtenParts parts unclosed).head? := by
  cases parts with
  | nil =>
    cases unclosed with
    | none => exact nofun
    | some cs => exact fun h => absurd (Option.some.inj h) (by decide)
  | cons part parts => exact fun h => absurd (Option.some.inj h) (by decide)

/-- A placeholder with the literal behind it takes its share of the steps. -/
theorem exists_fuel {part : List Char × List Char} {parts : List (List Char × List Char)}
    {unclosed : Option (List Char)} {fuel : Nat}
    (h : (writtenParts (part :: parts) unclosed).length ≤ fuel) :
    ∃ k, fuel = part.2.length + k + 1 ∧ (writtenParts parts unclosed).length ≤ k := by
  simp only [writtenParts, List.length_append, List.length_cons] at h
  exact ⟨fuel - part.2.length - 1, by omega, by omega⟩

variable {parts : List (List Char × List Char)} {unclosed : Option (List Char)}

/-- Placeholders of which none falls through are filled one after the other. -/
theorem fill_parts (hparts : ∀ part ∈ parts, '\x7d' ∉ part.1 ∧ IsLiteral part.2)
    (hunclosed : ∀ cs ∈ unclosed, '\x7d' ∉ cs)
    (hvalues : ∀ part ∈ parts, ∀ s, ¬FallsThrough b arrays part.1 s) {fuel : Nat}
    (hfuel : (writtenParts parts unclosed).length ≤ fuel) (done : String) :
    fill b arrays template done (piecesUpTo fuel (writtenParts parts unclosed)) =
      ⟨done ++ String.ofList (parts.flatMap (filledPart b arrays) ++ unclosedText unclosed),
        parts.flatMap (partNotes b arrays) ++ unclosedNotes b template unclosed⟩ := by
  induction parts generalizing fuel done with
  | nil => exact fill_unclosed b arrays template hunclosed hfuel done
  | cons part parts ih =>
    obtain ⟨hpart, hparts⟩ := List.forall_mem_cons.1 hparts
    obtain ⟨hvalue, hvalues⟩ := List.forall_mem_cons.1 hvalues
    obtain ⟨k, rfl, hk⟩ := exists_fuel hfuel
    rw [writtenParts, fill_part b arrays template hpart (head?_writtenParts _ _) k hvalue,
      ih hparts hvalues hk]
    refine Noted.ext ?_ ?_
    · simp [String.append_assoc]
    · simp

/-- The first placeholder that falls through leaves its default, whatever stands behind it. -/
theorem fill_parts_of_fallsThrough {before after : List (List Char × List Char)}
    {part : List Char × List Char} {literal : String}
    (hparts : ∀ part ∈ before, '\x7d' ∉ part.1 ∧ IsLiteral part.2) (hinside : '\x7d' ∉ part.1)
    (hvalues : ∀ part ∈ before, ∀ s, ¬FallsThrough b arrays part.1 s)
    (hfalls : FallsThrough b arrays part.1 literal) {fuel : Nat}
    (hfuel : (writtenParts (before ++ part :: after) unclosed).length ≤ fuel) (done : String) :
    fill b arrays template done
        (piecesUpTo fuel (writtenParts (before ++ part :: after) unclosed)) =
      ⟨literal, (before ++ [part]).flatMap (partNotes b arrays)⟩ := by
  induction before generalizing fuel done with
  | nil =>
    obtain ⟨k, rfl, -⟩ := exists_fuel hfuel
    rw [List.nil_append, writtenParts, fill_placeholder b arrays template hinside,
      hfalls.substitute_eq]
    refine Noted.ext rfl ?_
    simp [partNotes, hfalls.substitute_eq]
  | cons first before ih =>
    obtain ⟨hfirst, hparts⟩ := List.forall_mem_cons.1 hparts
    obtain ⟨hvalue, hvalues⟩ := List.forall_mem_cons.1 hvalues
    obtain ⟨k, rfl, hk⟩ := exists_fuel hfuel
    rw [List.cons_append, writtenParts,
      fill_part b arrays template hfirst (head?_writtenParts _ _) k hvalue, ih hparts hvalues hk]
    rfl

end

/-- What a piece leaves in the text. -/
def Piece.left (b : Block) (arrays : Option Arrays) : Piece → List Char
  | .text cs => cs
  | .placeholder cs => (substitute b arrays cs).value.text.toList
  | .unclosed cs => cs

/-- Nothing comes into a text but what its pieces leave. -/
theorem mem_of_mem_fill {b : Block} {arrays : Option Arrays} {template done : String}
    {pieces : List Piece} {ch : Char}
    (h : ch ∈ (fill b arrays template done pieces).value.toList) :
    ch ∈ done.toList ∨ ∃ piece ∈ pieces, ch ∈ piece.left b arrays := by
  induction pieces generalizing done with
  | nil => exact .inl h
  | cons piece pieces ih =>
    -- A piece that is put behind the others leaves what it adds to them.
    have hbehind : ∀ cs : List Char, piece.left b arrays = cs →
        ch ∈ (done ++ String.ofList cs).toList →
          ch ∈ done.toList ∨ ∃ p ∈ piece :: pieces, ch ∈ p.left b arrays := by
      intro cs hleft hch
      rw [String.toList_append, String.toList_ofList, List.mem_append] at hch
      exact hch.imp_right fun hch => ⟨piece, List.mem_cons_self, hleft ▸ hch⟩
    have hlater : ∀ cs : List Char, piece.left b arrays = cs →
        ch ∈ (fill b arrays template (done ++ String.ofList cs) pieces).value.toList →
          ch ∈ done.toList ∨ ∃ p ∈ piece :: pieces, ch ∈ p.left b arrays := by
      intro cs hleft hch
      obtain hch | ⟨p, hp, hch⟩ := ih hch
      · exact hbehind cs hleft hch
      · exact .inr ⟨p, List.mem_cons_of_mem _ hp, hch⟩
    cases piece with
    | text cs => exact hlater cs rfl h
    | unclosed cs => exact hbehind cs rfl h
    | placeholder cs =>
      rw [fill, Noted.value_bind] at h
      cases hvalue : (substitute b arrays cs).value with
      | wholeText s =>
        rw [hvalue] at h
        exact .inr ⟨_, List.mem_cons_self, by rwa [Piece.left, hvalue]⟩
      | value s =>
        rw [hvalue] at h
        refine hlater s.toList (by rw [Piece.left, hvalue]; rfl) ?_
        rwa [String.ofList_toList]

/-- A placeholder does not begin without its mark. -/
theorem isLiteral_of_notMem {cs : List Char} (h : '$' ∉ cs) : IsLiteral cs :=
  fun hfound => h (hfound.subset List.mem_cons_self)

/-- A text is a literal after it was filled if none of its pieces leaves a mark. -/
theorem isLiteral_interpolate {b : Block} {arrays : Option Arrays} {template : String}
    (h : ∀ piece ∈ pieces template.toList, '$' ∉ piece.left b arrays) :
    IsLiteral (interpolate b template arrays).value.toList := by
  refine isLiteral_of_notMem fun hmem => ?_
  obtain hdone | ⟨piece, hpiece, hleft⟩ := mem_of_mem_fill hmem
  · exact absurd hdone (List.not_mem_nil)
  · exact h piece hpiece hleft

/-- A literal is left as it is. -/
theorem interpolate_of_isLiteral (b : Block) (arrays : Option Arrays) {template : String}
    (h : IsLiteral template.toList) : interpolate b template arrays = pure template := by
  have hrest : '\x7b' ∉ ([] : List Char).head? := Option.not_mem_none _
  have hfill := fill_literal b arrays template h hrest 0 ""
  rw [List.append_nil, Nat.add_zero] at hfill
  rw [interpolate, pieces, hfill, String.empty_append, String.ofList_toList]
  rfl

/-- A template is filled to its literals and the values of its placeholders, in order, with the
notes on these, unless a placeholder falls through to a default for the whole text: then the first
one that does leaves its default, with the notes on those up to it. -/
theorem interpolate_segments (b : Block) (arrays : Option Arrays) (s : Segments) :
    ((∀ part ∈ s.parts, ∀ literal, ¬FallsThrough b arrays part.1 literal) →
      (interpolate b (String.ofList s.text) arrays).value.toList =
          s.first ++ s.parts.flatMap (filledPart b arrays) ++ unclosedText s.unclosed ∧
        (interpolate b (String.ofList s.text) arrays).notes =
          s.parts.flatMap (partNotes b arrays) ++
            unclosedNotes b (String.ofList s.text) s.unclosed) ∧
    ∀ before part after literal, s.parts = before ++ part :: after →
      (∀ p ∈ before, ∀ literal, ¬FallsThrough b arrays p.1 literal) →
        FallsThrough b arrays part.1 literal →
          interpolate b (String.ofList s.text) arrays =
            ⟨literal, (before ++ [part]).flatMap (partNotes b arrays)⟩ := by
  have hrun : interpolate b (String.ofList s.text) arrays =
      fill b arrays (String.ofList s.text) (String.ofList s.first)
        (piecesUpTo (writtenParts s.parts s.unclosed).length
          (writtenParts s.parts s.unclosed)) := by
    rw [interpolate, pieces, String.toList_ofList, Segments.text, List.length_append,
      fill_literal b arrays _ s.isLiteral_first (head?_writtenParts _ _), String.empty_append]
  rw [hrun]
  constructor
  · intro hvalues
    rw [fill_parts b arrays _ s.parts_proper s.unclosed_open hvalues le_rfl]
    exact ⟨by simp, rfl⟩
  · intro before part after literal hparts hvalues hfalls
    have hproper := s.parts_proper
    rw [hparts] at hproper ⊢
    refine fill_parts_of_fallsThrough b arrays _ (fun p hp => ?_) ?_ hvalues hfalls le_rfl _
    · exact hproper p (List.mem_append_left _ hp)
    · exact (hproper part (List.mem_append_right _ List.mem_cons_self)).1

/-- A state whose value looks like a placeholder, and one that is not there. -/
theorem interpolate_segments_of_wool :
    let b : Block := { name := "wool", states := Table.empty.insert "color" (.str "$\x7bx\x7d") }
    ∃ s t : Segments, s.text = "a/$\x7b#block_states.color\x7d$\x7bb".toList ∧
      (interpolate b (String.ofList s.text) none).value.toList =
        s.first ++ s.parts.flatMap (filledPart b none) ++ unclosedText s.unclosed ∧
      (interpolate b (String.ofList s.text) none).value = "a/$\x7bx\x7d$\x7bb" ∧
      t.text = "$\x7b#block_states.color\x7d/$\x7b#block_name.a??SET_WHOLE_STRING(0)\x7d!".toList ∧
      interpolate b (String.ofList t.text) none = ⟨"0", []⟩ := by
  intro b
  let color := ("#block_states.color".toList, "/".toList)
  let absent := ("#block_name.a??SET_WHOLE_STRING(0)".toList, ['!'])
  let s : Segments := {
    first := ['a', '/'], parts := [("#block_states.color".toList, [])], unclosed := some ['b']
    isLiteral_first := by decide
    parts_proper := by decide
    unclosed_open := by decide }
  let t : Segments := {
    first := [], parts := [color, absent], unclosed := none
    isLiteral_first := by decide
    parts_proper := by decide
    unclosed_open := nofun }
  have hcolor : ∀ literal, ¬FallsThrough b none "#block_states.color".toList literal := by
    intro literal h
    have hvalue : (substitute b none "#block_states.color".toList).value = .value "$\x7bx\x7d" := by
      decide +kernel
    rw [h.substitute_eq] at hvalue
    cases hvalue
  have habsent : FallsThrough b none absent.1 "0" :=
    value_substitute_eq_wholeText_iff.1 (by decide +kernel)
  have hfilled := (interpolate_segments b none s).1 (List.forall_mem_singleton.2 hcolor)
  have hwhole := (interpolate_segments b none t).2 [color] absent [] "0" rfl
    (List.forall_mem_singleton.2 hcolor) habsent
  refine ⟨s, t, by decide +kernel, hfilled.1, by decide +kernel, by decide +kernel, ?_⟩
  rw [hwhole]
  exact Noted.ext rfl (by decide +kernel)

end BlockModels.Placeholder
