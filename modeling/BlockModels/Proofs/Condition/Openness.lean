import BlockModels.Proofs.Condition.Reading

/-!
# Conditions fail open

A condition is false only if something speaks against every one of its groups: a term that can be
read and has a value, and the value is false (`Refutes`). Terms that cannot be read, and those about
a state that is not there, speak against nothing. So a block that loses states or properties loses
reasons for a condition to be false, and never gets new ones, unless a default with `??` comes in
the place of what is lost (`evaluate_failsOpen`).
-/

namespace BlockModels.Condition

open Text (trimChars)

/-! ## Terms -/

/-- What a modifier makes of a value is what the written form says. -/
theorem modified_eq_ok_some_iff {m : Option Modifier} {stored : Option StateValue}
    {value : StateValue} :
    modified m stored = .ok (some value) ↔ Modifier.adjust? m stored = some value := by
  refine ⟨fun h => ?_, modified_of_adjust?⟩
  cases m with
  | none => exact Except.ok.inj h
  | some modifier =>
    cases modifier with
    | orElse n => exact Except.ok.inj h
    | mask n =>
      cases stored with
      | none => cases h
      | some stored =>
        rw [modified] at h
        cases hnumber : stored.number? with
        | none =>
          rw [hnumber] at h
          cases h
        | some v =>
          rw [hnumber] at h
          cases h
          rw [Modifier.adjust?, Option.bind_some, hnumber]
          rfl

variable {b b' : Block} {cs : List Char} {t : Term} {r : Bool}

/-- A term comes to what it says, and to nothing else. -/
theorem Term.outcome_eq_holds_iff : t.outcome b = .holds r ↔ t.value? b = some r := by
  refine ⟨fun h => ?_, outcome_of_value?⟩
  cases t with
  | copied negated => exact congrArg some (Outcome.holds.inj h)
  | compare entity name m op literal =>
    rw [outcome] at h
    split at h
    · cases h
    · cases h
    next value hvalue =>
      rw [value?, modified_eq_ok_some_iff.1 hvalue, Option.bind_some]
      split at h
      next hr =>
        cases h
        exact hr
      · cases h

/-- The text is that of a term that is false for the block. -/
def Refutes (b : Block) (part : List Char) : Prop :=
  ∃ t, IsRead (trimChars part) t ∧ t.value? b = some false

/-- A term fails only if it is well formed, has a value, and the value is false. -/
theorem value_evaluateTerm_eq_false_iff {part : List Char} :
    (evaluateTerm b part).value = false ↔ Refutes b part := by
  have hvalue : (evaluateTerm b part).value = (termOutcome b (trimChars part)).value := rfl
  rw [hvalue, termOutcome]
  constructor
  · intro h
    split at h
    · cases h
    next t ht =>
      refine ⟨t, parse_eq_ok_iff.1 ht, Term.outcome_eq_holds_iff.1 ?_⟩
      cases hout : t.outcome b with
      | holds r =>
        rw [hout] at h
        exact congrArg Outcome.holds h
      | malformed e =>
        rw [hout] at h
        cases h
      | missing entity name =>
        rw [hout] at h
        cases h
  · rintro ⟨t, ht, hfalse⟩
    rw [parse_eq_ok_iff.2 ht]
    change (t.outcome b).value = false
    rw [Term.outcome_of_value? hfalse]
    rfl

/-! ## Groups -/

/-- There is no term in a blank text. -/
theorem not_refutes_of_trimChars_eq_nil {part : List Char} (h : trimChars part = []) :
    ¬Refutes b part := by
  rintro ⟨t, ht, -⟩
  rw [h, ← parse_eq_ok_iff] at ht
  cases ht

/-- Of a blank condition there is one term, which is blank. -/
theorem groups_of_trimChars_eq_nil (h : trimChars cs = []) : groups cs = [[cs]] := by
  have hmark : ∀ c ∈ reserved, c ∉ cs := fun c hc hmem =>
    Text.trimChars_ne_nil hmem (isBlank_of_mem_reserved c hc) h
  exact groups_of_unpaired (Text.unpaired_of_notMem (hmark '|' (by decide)))
    (Text.unpaired_of_notMem (hmark '&' (by decide)))

/-- A condition is false exactly if every group has a term that is false. -/
theorem value_evaluate_eq_false_iff {text : String} : (evaluate b text).value = false ↔
    ∀ group ∈ groups text.toList, ∃ part ∈ group, Refutes b part := by
  have hgroups : ((groups text.toList).anyM fun terms : List (List Char) =>
        terms.allM (evaluateTerm b)).value = false ↔
      ∀ group ∈ groups text.toList, ∃ part ∈ group, Refutes b part := by
    simp only [Noted.value_anyM, Noted.value_allM, List.any_eq_false, Bool.not_eq_true,
      List.all_eq_false, value_evaluateTerm_eq_false_iff]
  rw [← hgroups]
  unfold evaluate
  dsimp only
  split
  next hblank =>
    rw [List.isEmpty_iff] at hblank
    refine iff_of_false nofun ?_
    rw [hgroups, groups_of_trimChars_eq_nil hblank]
    intro h
    obtain ⟨part, hpart, hrefutes⟩ := h _ List.mem_cons_self
    rw [List.mem_singleton.1 hpart] at hrefutes
    exact not_refutes_of_trimChars_eq_nil hblank hrefutes
  · rfl

/-! ## States and properties that are lost -/

/-- The block has some of the states and properties of another one, and is like it otherwise. -/
structure IsPartOf (b' b : Block) : Prop where
  name_eq : b'.name = b.name
  copied_eq : b'.copied = b.copied
  states : ∀ name value, b'.state? name = some value → b.state? name = some value
  properties : ∀ name json, b'.entityValue? name = some json → b.entityValue? name = some json

/-- A value that is left is the value that was there. -/
theorem IsPartOf.stored?_eq (h : IsPartOf b' b) {entity : Bool} {name : String}
    {value : StateValue} (hvalue : stored? b' entity name = some value) :
    stored? b entity name = some value := by
  cases entity with
  | false => exact h.states name value hvalue
  | true =>
    obtain ⟨json, hjson, hvalue⟩ := Option.bind_eq_some_iff.1 hvalue
    exact Option.bind_eq_some_iff.2 ⟨json, h.properties name json hjson, hvalue⟩

/-- The term has a number for a value that is not there. -/
def Term.HasDefault : Term → Prop
  | .copied _ => False
  | .compare _ _ m _ _ => ∃ n, m = some (.orElse n)

/-- Without a default a term has the values of the larger block. -/
theorem IsPartOf.value?_eq (h : IsPartOf b' b) (ht : ¬t.HasDefault) (hr : t.value? b' = some r) :
    t.value? b = some r := by
  cases t with
  | copied negated =>
    rw [Term.value?, ← h.copied_eq]
    exact hr
  | compare entity name m op literal =>
    obtain ⟨value, hvalue, hr⟩ := Option.bind_eq_some_iff.1 hr
    refine Option.bind_eq_some_iff.2 ⟨value, ?_, hr⟩
    cases m with
    | none => exact h.stored?_eq hvalue
    | some modifier =>
      cases modifier with
      | orElse n => exact (ht ⟨n, rfl⟩).elim
      | mask n =>
        obtain ⟨stored, hstored, hvalue⟩ := Option.bind_eq_some_iff.1 hvalue
        exact Option.bind_eq_some_iff.2 ⟨stored, h.stored?_eq hstored, hvalue⟩

/-- What stands in front of a comparison is a part of the text. -/
theorem ComparesAt.isInfix {left right subject : List Char} {op : Comparison} {entity : Bool}
    (h : ComparesAt cs left op right) (habout : IsAbout (trimChars left) entity subject) :
    subject <:+: cs := by
  have hleft : trimChars left <:+: cs :=
    (Text.trimChars_isInfix left).trans (h.eq_append ▸ (List.prefix_append _ _).isInfix)
  refine List.IsInfix.trans ?_ hleft
  cases entity with
  | true =>
    have heq : trimChars left = entityMark ++ subject := habout
    exact heq ▸ (List.suffix_append _ _).isInfix
  | false => exact habout.1 ▸ List.infix_rfl

/-- A term has no default if no `??` is in its text. -/
theorem IsRead.not_hasDefault (h : IsRead cs t) (hno : ¬['?', '?'] <:+: cs) : ¬t.HasDefault := by
  cases h with
  | copied | uncopied => exact id
  | compare hsplit habout hread _ =>
    rintro ⟨n, rfl⟩
    have hpart := hsplit.isInfix habout
    cases hread with
    | @orElse _ rest =>
      exact hno (List.IsInfix.trans ⟨_, rest, List.append_assoc _ ['?', '?'] rest⟩ hpart)

/-- Every part of a group is a part of the text. -/
theorem isInfix_of_mem_groups {group : List (List Char)} {part : List Char}
    (hgroup : group ∈ groups cs) (hpart : part ∈ group) : part <:+: cs := by
  obtain ⟨terms, hterms, rfl⟩ := List.mem_map.1 hgroup
  exact (Text.isInfix_of_splitAtPairs '&' terms).2 part hpart |>.trans
    ((Text.isInfix_of_splitAtPairs '|' cs).2 terms hterms)

/-- A condition is false only if every group has a term that can be read and is false: the sentinel,
or a comparison with a value that is there or has a default. Where no default is written, the
condition stays true when the block loses states or properties. -/
theorem evaluate_failsOpen (b : Block) (text : String) :
    ((evaluate b text).value = false ↔
      ∀ group ∈ groups text.toList, ∃ part ∈ group, Refutes b part) ∧
    (¬['?', '?'] <:+: text.toList → ∀ b', IsPartOf b' b →
      (evaluate b text).value = true → (evaluate b' text).value = true) := by
  refine ⟨value_evaluate_eq_false_iff, fun hno b' hless htrue => ?_⟩
  by_contra hfalse
  rw [Bool.not_eq_true, value_evaluate_eq_false_iff] at hfalse
  have hlarger : ∀ group ∈ groups text.toList, ∃ part ∈ group, Refutes b part := by
    intro group hgroup
    obtain ⟨part, hpart, t, ht, hvalue⟩ := hfalse group hgroup
    have hpart' : trimChars part <:+: text.toList :=
      (Text.trimChars_isInfix part).trans (isInfix_of_mem_groups hgroup hpart)
    have hdefault := ht.not_hasDefault fun hpair => hno (hpair.trans hpart')
    exact ⟨part, hpart, t, ht, hless.value?_eq hdefault hvalue⟩
  rw [value_evaluate_eq_false_iff.2 hlarger] at htrue
  cases htrue

/-- Two groups about a state of which the first is false, until the state is lost. -/
theorem evaluate_failsOpen_of_lost_state :
    let b : Block := { name := "vine", states := Table.empty.insert "age" (.int 5) }
    let b' : Block := { name := "vine" }
    let text := "age > 9 || age & 4 == 4 && half != 'top'"
    IsPartOf b' b ∧ ¬['?', '?'] <:+: text.toList ∧
      ((evaluate b text).value = false ↔
        ∀ group ∈ groups text.toList, ∃ part ∈ group, Refutes b part) ∧
      (evaluate b text).value = true ∧ (evaluate b' text).value = true := by
  intro b b' text
  have hless : IsPartOf b' b := ⟨rfl, rfl, nofun, nofun⟩
  have hno : ¬['?', '?'] <:+: text.toList := by decide +kernel
  have htrue : (evaluate b text).value = true := by decide +kernel
  obtain ⟨hfalse, hopen⟩ := evaluate_failsOpen b text
  exact ⟨hless, hno, hfalse, htrue, hopen hno b' hless htrue⟩

end BlockModels.Condition
