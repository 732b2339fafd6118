import BlockModels.Proofs.Condition.Grammar

/-!
# What conditions mean

A condition is true if all terms of one of its groups are, and a term if its value, after the number
behind the name was applied to it, compares with its literal as it says (`Term.value?`). Where the
states that a condition names are there, and nothing but numbers is masked or ordered
(`Term.IsMet`), every term has a value, and a condition that is written is as true as its terms say,
without a note (`evaluate_of_written`).
-/

namespace BlockModels.Condition

open Text (IsPad trimChars)

/-! ## Terms -/

/-- The value to be compared, from the one that is stored. -/
def Modifier.adjust? : Option Modifier → Option StateValue → Option StateValue
  | none, stored => stored
  | some (.orElse n), stored => some (stored.getD (.int n))
  | some (.mask n), stored => stored.bind fun value => value.number?.map fun i => .int (i &&& n)

/-- The truth of a term, if it has one. -/
def Term.value? (b : Block) : Term → Option Bool
  | .copied negated => some (b.copied != negated)
  | .compare entity name modifier op literal =>
    (Modifier.adjust? modifier (stored? b entity name)).bind fun value =>
      compareValue? value op literal

/-- What is stored is there, unless there is a number in its place, and is a number if it is masked;
and what is ordered are numbers. -/
structure Comparison.IsMet (stored : Option StateValue) (modifier : Option Modifier)
    (op : Comparison) (literal : List Char) : Prop where
  present : stored.isSome = true ∨ ∃ n, modifier = some (.orElse n)
  masked : ∀ n value, modifier = some (.mask n) → stored = some value → value.number?.isSome = true
  ordered : op ≠ .eq → op ≠ .ne → ∀ value, Modifier.adjust? modifier stored = some value →
    value.number?.isSome = true ∧ (Decimal.readFloat literal).isSome = true

/-- The block has what the term asks for. -/
def Term.IsMet (b : Block) : Term → Prop
  | .copied _ => True
  | .compare entity name modifier op literal =>
    Comparison.IsMet (stored? b entity name) modifier op literal

variable {b : Block}

theorem Comparison.IsMet.isSome_adjust? {stored : Option StateValue} {modifier : Option Modifier}
    {op : Comparison} {literal : List Char} (h : IsMet stored modifier op literal) :
    ∃ value, Modifier.adjust? modifier stored = some value := by
  match modifier, stored, h.present with
  | none, some value, _ => exact ⟨value, rfl⟩
  | some (.orElse n), stored, _ => exact ⟨_, rfl⟩
  | some (.mask n), some value, _ =>
    obtain ⟨i, hi⟩ := Option.isSome_iff_exists.1 (h.masked n value rfl rfl)
    exact ⟨.int (i &&& n), by simp [Modifier.adjust?, hi]⟩
  | none, none, hpresent => simp at hpresent
  | some (.mask n), none, hpresent => simp at hpresent

/-- Values can be compared if they are numbers, or if there is no order to be found. -/
theorem isSome_compareValue? {value : StateValue} {op : Comparison} {literal : List Char}
    (h : op ≠ .eq → op ≠ .ne →
      value.number?.isSome = true ∧ (Decimal.readFloat literal).isSome = true) :
    (compareValue? value op literal).isSome = true := by
  unfold compareValue?
  split
  · rfl
  next hnot =>
    cases op with
    | eq | ne => rfl
    | ge | le | gt | lt =>
      obtain ⟨hvalue, hliteral⟩ := h nofun nofun
      obtain ⟨n, hn⟩ := Option.isSome_iff_exists.1 hvalue
      obtain ⟨x, hx⟩ := Option.isSome_iff_exists.1 hliteral
      exact (hnot n x hn hx).elim

/-- A term that asks for what the block has is true or false. -/
theorem Term.IsMet.exists_value? {t : Term} (h : t.IsMet b) : ∃ r, t.value? b = some r := by
  cases t with
  | copied negated => exact ⟨_, rfl⟩
  | compare entity name modifier op literal =>
    obtain ⟨value, hvalue⟩ := Comparison.IsMet.isSome_adjust? h
    obtain ⟨r, hr⟩ := Option.isSome_iff_exists.1
      (isSome_compareValue? fun heq hne => h.ordered heq hne value hvalue)
    exact ⟨r, by simp [value?, hvalue, hr]⟩

theorem modified_of_adjust? {modifier : Option Modifier} {stored : Option StateValue}
    {value : StateValue} (h : Modifier.adjust? modifier stored = some value) :
    modified modifier stored = .ok (some value) := by
  match modifier, stored, h with
  | none, _, h => exact congrArg Except.ok h
  | some (.orElse n), _, h => exact congrArg Except.ok h
  | some (.mask n), some stored, h =>
    have hmasked : (stored.number?.map fun i => StateValue.int (i &&& n)) = some value := h
    obtain ⟨i, hi, rfl⟩ := Option.map_eq_some_iff.1 hmasked
    simp [modified, hi]

/-- A term that has a value comes to it. -/
theorem Term.outcome_of_value? {t : Term} {r : Bool} (h : t.value? b = some r) :
    t.outcome b = .holds r := by
  cases t with
  | copied negated => exact congrArg Outcome.holds (Option.some.inj h)
  | compare entity name modifier op literal =>
    obtain ⟨value, hvalue, hr⟩ := Option.bind_eq_some_iff.1 h
    rw [outcome, modified_of_adjust? hvalue]
    simp [hr]

/-- A term that is written is evaluated to its value. -/
theorem evaluateTerm_of_written {t : Term} {cs : List Char} {r : Bool} (h : PaddedTerm t cs)
    (hdistinct : t.IsDistinct) (hvalue : t.value? b = some r) : evaluateTerm b cs = ⟨r, []⟩ := by
  have houtcome : termOutcome b (trimChars cs) = .holds r := by
    rw [termOutcome, parse_of_written h hdistinct]
    exact t.outcome_of_value? hvalue
  simp only [evaluateTerm, houtcome, Outcome.value, Outcome.notes]

/-! ## Conditions -/

section

variable {β γ : Type} {f : γ → Noted Bool} {g : β → Bool} {l : List β} {m : List γ}

theorem allM_eq (h : List.Forall₂ (fun x y => f y = ⟨g x, []⟩) l m) :
    m.allM f = ⟨l.all g, []⟩ := by
  induction h with
  | nil => rfl
  | @cons x y l m hxy _ ih =>
    rw [List.allM, hxy, ih, List.all_cons]
    cases g x <;> rfl

theorem anyM_eq (h : List.Forall₂ (fun x y => f y = ⟨g x, []⟩) l m) :
    m.anyM f = ⟨l.any g, []⟩ := by
  induction h with
  | nil => rfl
  | @cons x y l m hxy _ ih =>
    rw [List.anyM, hxy, ih, List.any_cons]
    cases g x <;> rfl

end

/-- A condition that is written, for a block that has what it asks for, is true exactly if all terms
of one of its groups are, and no note is taken. -/
theorem evaluate_of_written {tree : List (List Term)} {text : String}
    (hwritten : ConditionWritten tree text.toList)
    (hmet : ∀ terms ∈ tree, ∀ t ∈ terms, t.IsMet b)
    (hdistinct : ∀ terms ∈ tree, ∀ t ∈ terms, t.IsDistinct) :
    ∃ holds : Term → Bool, (∀ terms ∈ tree, ∀ t ∈ terms, t.value? b = some (holds t)) ∧
      evaluate b text = ⟨tree.any fun terms => terms.all holds, []⟩ := by
  have hvalue : ∀ terms ∈ tree, ∀ t ∈ terms, t.value? b = some ((t.value? b).getD true) := by
    intro terms hterms t ht
    obtain ⟨r, hr⟩ := (hmet terms hterms t ht).exists_value?
    rw [hr, Option.getD_some]
  refine ⟨fun t => (t.value? b).getD true, hvalue, ?_⟩
  have hblank : (trimChars text.toList).isEmpty = false :=
    List.isEmpty_eq_false_iff.2 (trimChars_ne_nil_of_written hwritten)
  have hgroups := (List.forall₂_and_left _ _).2 ⟨fun _ h => h, groups_of_written hwritten⟩
  simp only [evaluate, hblank, Bool.false_eq_true, if_false]
  refine anyM_eq (hgroups.imp fun terms parts ⟨hterms, hparts⟩ => ?_)
  have hterms' := (List.forall₂_and_left _ _).2 ⟨fun _ h => h, hparts⟩
  refine allM_eq (hterms'.imp fun t part ⟨ht, hpart⟩ => ?_)
  exact evaluateTerm_of_written hpart (hdistinct terms hterms t ht) (hvalue terms hterms t ht)

/-- Two groups, of which the first has one term and the second two, written with blanks here and
there. -/
theorem evaluate_of_written_of_vine :
    let b : Block := { name := "vine", states := Table.empty.insert "bits" (.int 5) }
    let tree : List (List Term) := [[.copied false],
      [.compare false "bits" (some (.mask 4)) .eq ['4'],
        .compare true "a" (some (.orElse 7)) .gt ['6']]]
    let text := "#copied_via_copy_block||bits&4 == '4'&& entity. a ?? 7>6"
    ConditionWritten tree text.toList ∧ (∀ terms ∈ tree, ∀ t ∈ terms, t.IsMet b) ∧
      (∀ terms ∈ tree, ∀ t ∈ terms, t.IsDistinct) ∧
      (∃ holds : Term → Bool, (∀ terms ∈ tree, ∀ t ∈ terms, t.value? b = some (holds t)) ∧
        evaluate b text = ⟨tree.any fun terms => terms.all holds, []⟩) ∧
      evaluate b text = ⟨true, []⟩ := by
  intro b tree text
  have hnone : IsPad [] := by decide
  have hblank : IsPad [' '] := by decide
  let masked := ['b', 'i', 't', 's'] ++ ([] ++ '&' :: ([] ++ ['4'])) ++ [' '] ++
    Comparison.eq.symbol ++ ([' '] ++ '\'' :: (['4'] ++ ['\'']))
  have hmasked : TermWritten (.compare false "bits" (some (.mask 4)) .eq ['4']) masked :=
    .compare (.state (by decide) (by decide))
      (.mask hnone hnone (by decide)) hblank hblank
      (.quoted (by decide) (List.all_iff_forall_prop.1 (by decide)))
  let other := (entityMark ++ [' '] ++ ['a']) ++ ([' '] ++ '?' :: '?' :: ([' '] ++ ['7'])) ++ [] ++
    Comparison.gt.symbol ++ ([] ++ ['6'])
  have hother : TermWritten (.compare true "a" (some (.orElse 7)) .gt ['6']) other :=
    .compare (.entity (by decide) (by decide) hblank)
      (.orElse hblank hblank (by decide)) hnone hnone (.plain (by decide))
  let written := ([] ++ copiedWord ++ []) ++ '|' :: '|' ::
    (([] ++ masked ++ []) ++ '&' :: '&' :: ([' '] ++ other ++ []))
  have hwritten : ConditionWritten tree written :=
    .cons (.single (.mk .copied hnone hnone))
      (.single (.cons (.mk hmasked hnone hnone) (.single (.mk hother hblank hnone))))
  have htext : text.toList = written := by decide +kernel
  rw [← htext] at hwritten
  have hfirst : Term.IsMet b (.compare false "bits" (some (.mask 4)) .eq ['4']) := by
    have hstored : stored? b false "bits" = some (.int 5) := by decide +kernel
    refine ⟨.inl (hstored ▸ rfl), fun n value _ hvalue => ?_, fun hne => absurd rfl hne⟩
    cases hstored.symm.trans hvalue
    rfl
  have hsecond : Term.IsMet b (.compare true "a" (some (.orElse 7)) .gt ['6']) := by
    refine ⟨.inr ⟨7, rfl⟩, fun n value hmask _ => ?_, fun _ _ value hvalue => ?_⟩
    · cases hmask
    · cases hvalue
      decide +kernel
  have hmet : ∀ terms ∈ tree, ∀ t ∈ terms, t.IsMet b := by
    simp only [tree, List.mem_cons, List.not_mem_nil, or_false, forall_eq_or_imp, forall_eq]
    exact ⟨trivial, hfirst, hsecond⟩
  have hdistinct : ∀ terms ∈ tree, ∀ t ∈ terms, t.IsDistinct := by
    simp only [tree, List.mem_cons, List.not_mem_nil, or_false, forall_eq_or_imp, forall_eq]
    exact ⟨trivial, fun _ => by decide, fun hentity => absurd hentity (by decide)⟩
  exact ⟨hwritten, hmet, hdistinct, evaluate_of_written hwritten hmet hdistinct,
    Noted.ext (by decide +kernel) (by decide +kernel)⟩

/-- A state whose name begins like that of a property is not found, as is a property that is not a
truth value, a whole number or a text. -/
theorem evaluate_of_prefixed_state :
    let b : Block := {
      name := "test", states := Table.empty.insert "entity.power" (.int 1)
      entity := some [("x", .float 1.5)] }
    let t : Term := .compare false "entity.power" none .eq ['2']
    let u : Term := .compare true "x" none .eq ['2']
    (ConditionWritten [[t]] "entity.power == 2".toList ∧ t.IsMet b ∧ t.value? b = some false ∧
      (evaluate b "entity.power == 2").value = true ∧
      (evaluate b "entity.power == 2").notes.map (·.kind) = [.missingState]) ∧
    ConditionWritten [[u]] "entity.x == 2".toList ∧ (b.entityValue? "x").isSome = true ∧
      (evaluate b "entity.x == 2").value = true ∧
      (evaluate b "entity.x == 2").notes.map (·.kind) = [.missingState] := by
  intro b t u
  have hnone : IsPad [] := by decide
  have hblank : IsPad [' '] := by decide
  have htwo : LiteralWritten ['2'] ['2'] := .plain (by decide)
  have hstate : ConditionWritten [[t]]
      ([] ++ ("entity.power".toList ++ [] ++ [' '] ++ Comparison.eq.symbol ++ ([' '] ++ ['2'])) ++
        []) :=
    .single (.single (.mk (.compare (.state (by decide) (by decide)) .none
      hblank hblank htwo) hnone hnone))
  have hproperty : ConditionWritten [[u]]
      ([] ++ ((entityMark ++ [] ++ ['x']) ++ [] ++ [' '] ++ Comparison.eq.symbol ++
        ([' '] ++ ['2'])) ++ []) :=
    .single (.single (.mk (.compare (.entity (by decide) (by decide) hnone)
      .none hblank hblank htwo) hnone hnone))
  have hmet : t.IsMet b :=
    ⟨.inl (by decide +kernel), nofun, fun hne => absurd rfl hne⟩
  exact ⟨⟨hstate, hmet, by decide +kernel, by decide +kernel, by decide +kernel⟩, hproperty,
    by decide +kernel, by decide +kernel, by decide +kernel⟩

end BlockModels.Condition
