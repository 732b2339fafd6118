import BlockModels.Mesh.Texturing
import Mathlib.Algebra.Ring.Parity
import Mathlib.Algebra.Ring.Rat
import Mathlib.Data.List.TakeWhile

/-!
# What a chain of templates comes to

A template that was copied several times over has a chain of templates behind it, each of which
copied the one before. What the chain comes to is said here of the list of its templates, without
going through the single copies; the list begins with the template that was copied last and ends
with the one that began the copying. A field is what the first template of the list says that
declares it; a table has under every name what the first one has; moves add up (`totalMove`); a face
is flipped if an odd number of templates flip it (`Template.Inherits`). All these laws are of one
form (`Template.Combines`): joining two templates joins their fields.

Rotations follow no such law, since the pivot of a rotation may come from another template than its
angles. They are read off the chain from its beginning (`declaredRotations`): each rotation that is
declared stands there once, and turns about the pivot that is declared last before the next
rotation.
-/

namespace BlockModels

namespace Template

section

variable {α : Type}

/-- The template without the texts that are filled in for a block, and without the shape that it
copies. -/
def withoutTexts (t : Template α) : Template α :=
  { t with copy := none, tint := none, terrainTexture := none, texturePath := none }

/-- What a table that need not be there has under a name. -/
def valueOf? {β : Type} (t : Option (Table β)) (name : String) : Option β := t.bind (·.get? name)

/-- A name is in a set that need not be there. -/
def isListed (s : Option NameSet) (name : String) : Bool := s.any (·.contains name)

/-- In joined tables a name has its own value, and else the parent's. -/
theorem valueOf?_joinTables {β : Type} (own parent : Option (Table β)) (name : String) :
    valueOf? (joinTables own parent) name = (valueOf? own name).or (valueOf? parent name) := by
  cases own with
  | none => rfl
  | some t =>
    cases parent with
    | none => exact Option.or_none.symm
    | some u => exact Table.get?_orElse t u name

/-- In joined flips a name is listed if exactly one of the two lists it. -/
theorem isListed_joinFlips (own parent : Option NameSet) (name : String) :
    isListed (joinFlips own parent) name = (isListed own name ^^ isListed parent name) := by
  cases parent with
  | none => exact (Bool.xor_false _).symm
  | some u =>
    have hown : (own.getD .empty).contains name = isListed own name := by
      cases own <;> rfl
    have hdiff := NameSet.contains_symmDiff (own.getD .empty) u name
    rw [hown] at hdiff
    simp only [joinFlips]
    split
    next hempty =>
      -- No set stands for the empty one.
      have hnone : (NameSet.symmDiff (own.getD .empty) u).contains name = false := by
        rw [Table.contains, Table.get?, List.isEmpty_iff.1 hempty]
        rfl
      exact hnone.symm.trans hdiff
    · exact hdiff

end

section

variable {α : Type} [Scalar α]

/-! ## Fields -/

/-- What is read off a template is joined when a template inherits from its parent, and does not
depend on the texts that are filled in. -/
structure Combines {γ : Type} (field : Template α → γ) (join : γ → γ → γ) : Prop where
  inherit_eq : ∀ own parent, field (own.inherit parent) = join (field own) (field parent)
  withoutTexts_eq : ∀ t, field t.withoutTexts = field t

/-- The sum of moves, added up from the last one on; without any there is none. -/
def totalMove (moves : List (Vec3 α)) : Option (Vec3 α) :=
  moves.foldr (fun v total => joinMoves (some v) total) none

/-- What is left of a chain of templates in the end. -/
structure Inherits (ts : List (Template α)) (t : Template α) : Prop where
  pos : t.pos = ts.findSome? (·.pos)
  size : t.size = ts.findSome? (·.size)
  boxUv : t.boxUv = ts.findSome? (·.boxUv)
  boxUvSize : t.boxUvSize = ts.findSome? (·.boxUvSize)
  textureSize : t.textureSize = ts.findSome? (·.textureSize)
  condition : t.condition = ts.findSome? (·.condition)
  copyBlock : t.copyBlock = ts.findSome? (·.copyBlock)
  variant : t.variant = ts.findSome? (·.variant)
  ignoreEigenvariant : t.ignoreEigenvariant = ts.findSome? (·.ignoreEigenvariant)
  croppable : t.croppable = ts.findSome? (·.croppable)
  textures : ∀ name, valueOf? t.textures name = ts.findSome? fun u => valueOf? u.textures name
  uv : ∀ name, valueOf? t.uv name = ts.findSome? fun u => valueOf? u.uv name
  uvSizes : ∀ name, valueOf? t.uvSizes name = ts.findSome? fun u => valueOf? u.uvSizes name
  blockStates : ∀ name,
    valueOf? t.blockStates name = ts.findSome? fun u => valueOf? u.blockStates name
  arrays : ∀ name, valueOf? t.arrays name = ts.findSome? fun u => valueOf? u.arrays name
  translate : t.translate = totalMove (ts.filterMap (·.translate))
  flipHorizontal : ∀ name, isListed t.flipHorizontal name = true ↔
    Odd (ts.countP fun u => isListed u.flipHorizontal name)
  flipVertical : ∀ name, isListed t.flipVertical name = true ↔
    Odd (ts.countP fun u => isListed u.flipVertical name)

/-- Joined tables are inherited name by name. -/
theorem combines_valueOf? {β : Type} {field : Template α → Option (Table β)}
    (h : Combines field joinTables) (name : String) :
    Combines (fun t => valueOf? (field t) name) Option.or where
  inherit_eq own parent := by rw [h.inherit_eq, valueOf?_joinTables]
  withoutTexts_eq t := by rw [h.withoutTexts_eq]

/-- Joined flips are inherited name by name. -/
theorem combines_isListed {field : Template α → Option NameSet} (h : Combines field joinFlips)
    (name : String) : Combines (fun t => isListed (field t) name) xor where
  inherit_eq own parent := by rw [h.inherit_eq, isListed_joinFlips]
  withoutTexts_eq t := by rw [h.withoutTexts_eq]

/-- A template in which every field is joined from those of a chain. -/
def IsJoined (ts : List (Template α)) (t : Template α) : Prop :=
  ∀ {γ : Type} {field : Template α → γ} {join : γ → γ → γ} {unit : γ}, Combines field join →
    (∀ x, join x unit = x) → field t = (ts.map field).foldr join unit

section

variable {ts : List (Template α)} {t : Template α}

/-- A field that is inherited if it is missing comes from the nearest template that declares it. -/
theorem IsJoined.eq_findSome? {β : Type} (h : IsJoined ts t) {field : Template α → Option β}
    (hfield : Combines field Option.or) : field t = ts.findSome? field := by
  rw [h hfield fun _ => Option.or_none]
  clear h
  induction ts with
  | nil => rfl
  | cons u rest ih =>
    rw [List.map_cons, List.foldr_cons, ih, List.findSome?_cons]
    cases field u <;> rfl

/-- A name is flipped in the end if an odd number of templates flips it. -/
theorem IsJoined.isListed_iff (h : IsJoined ts t) {field : Template α → Option NameSet}
    (hfield : Combines field joinFlips) (name : String) :
    isListed (field t) name = true ↔ Odd (ts.countP fun u => isListed (field u) name) := by
  rw [h (combines_isListed hfield name) Bool.xor_false]
  clear h
  induction ts with
  | nil => simp
  | cons u rest ih =>
    rw [List.map_cons, List.foldr_cons, List.countP_cons]
    cases isListed (field u) name with
    | false => simpa using ih
    | true => simpa [Nat.odd_add_one] using (not_congr ih)

/-- A chain moves by the sum of the moves that its templates declare. -/
theorem IsJoined.translate_eq (h : IsJoined ts t) :
    t.translate = totalMove (ts.filterMap (·.translate)) := by
  have hfield : Combines (α := α) (·.translate) joinMoves := ⟨fun _ _ => rfl, fun _ => rfl⟩
  have hnone : ∀ v : Option (Vec3 α), joinMoves v none = v := fun v => by cases v <;> rfl
  rw [h hfield hnone]
  clear h
  induction ts with
  | nil => rfl
  | cons u rest ih =>
    rw [List.map_cons, List.foldr_cons, ih, List.filterMap_cons]
    cases u.translate <;> rfl

/-- Field by field a chain leaves what is joined. -/
theorem IsJoined.inherits (h : IsJoined ts t) : Inherits ts t where
  pos := h.eq_findSome? ⟨fun _ _ => rfl, fun _ => rfl⟩
  size := h.eq_findSome? ⟨fun _ _ => rfl, fun _ => rfl⟩
  boxUv := h.eq_findSome? ⟨fun _ _ => rfl, fun _ => rfl⟩
  boxUvSize := h.eq_findSome? ⟨fun _ _ => rfl, fun _ => rfl⟩
  textureSize := h.eq_findSome? ⟨fun _ _ => rfl, fun _ => rfl⟩
  condition := h.eq_findSome? ⟨fun _ _ => rfl, fun _ => rfl⟩
  copyBlock := h.eq_findSome? ⟨fun _ _ => rfl, fun _ => rfl⟩
  variant := h.eq_findSome? ⟨fun _ _ => rfl, fun _ => rfl⟩
  ignoreEigenvariant := h.eq_findSome? ⟨fun _ _ => rfl, fun _ => rfl⟩
  croppable := h.eq_findSome? ⟨fun _ _ => rfl, fun _ => rfl⟩
  textures name := h.eq_findSome? (combines_valueOf? ⟨fun _ _ => rfl, fun _ => rfl⟩ name)
  uv name := h.eq_findSome? (combines_valueOf? ⟨fun _ _ => rfl, fun _ => rfl⟩ name)
  uvSizes name := h.eq_findSome? (combines_valueOf? ⟨fun _ _ => rfl, fun _ => rfl⟩ name)
  blockStates name := h.eq_findSome? (combines_valueOf? ⟨fun _ _ => rfl, fun _ => rfl⟩ name)
  arrays name := h.eq_findSome? (combines_valueOf? ⟨fun _ _ => rfl, fun _ => rfl⟩ name)
  translate := h.translate_eq
  flipHorizontal := h.isListed_iff ⟨fun _ _ => rfl, fun _ => rfl⟩
  flipVertical := h.isListed_iff ⟨fun _ _ => rfl, fun _ => rfl⟩

end

/-- In exact arithmetic the order in which moves are added makes no difference. -/
theorem totalMove_rat (moves : List (Vec3 Rat)) :
    totalMove moves = if moves = [] then none else
      some ⟨(moves.map (·.x)).sum, (moves.map (·.y)).sum, (moves.map (·.z)).sum⟩ := by
  induction moves with
  | nil => rfl
  | cons v rest ih =>
    rw [totalMove, List.foldr_cons, ← totalMove, ih, if_neg (List.cons_ne_nil v rest)]
    simp only [List.map_cons, List.sum_cons]
    split
    next hnil =>
      simp [hnil, joinMoves]
    · rfl

/-! ## Rotations -/

/-- The pivot of the rotation that a template declares when others copy on from it: the one that is
declared last before the next rotation. -/
def turningPivot (t : Template α) (later : List (Template α)) : Vec3 α :=
  ((t :: later.takeWhile (·.rot.isNone)).reverse.findSome? (·.pivot)).getD Rotation.defaultPivot

/-- The rotations that the templates of a chain declare, from its beginning on. -/
def declaredRotations : List (Template α) → List (Rotation α)
  | [] => []
  | t :: later =>
    match t.rot with
    | none => declaredRotations later
    | some rot => ⟨rot, t.turningPivot later⟩ :: declaredRotations later

/-- The angles are those that are declared, in order. -/
theorem map_rot_declaredRotations (ts : List (Template α)) :
    (declaredRotations ts).map (·.rot) = ts.filterMap (·.rot) := by
  induction ts with
  | nil => rfl
  | cons t later ih =>
    rw [declaredRotations, List.filterMap_cons]
    cases t.rot with
    | none => exact ih
    | some rot => exact congrArg (rot :: ·) ih

/-- No rotation is declared exactly if no template declares one. -/
theorem declaredRotations_eq_nil_iff {ts : List (Template α)} :
    declaredRotations ts = [] ↔ ∀ t ∈ ts, t.rot = none := by
  rw [← List.map_eq_nil_iff (f := (·.rot)), map_rot_declaredRotations, List.filterMap_eq_nil_iff]

/-- Behind the next rotation nothing changes a pivot. -/
theorem turningPivot_append_of_mem (t : Template α) {later : List (Template α)}
    (h : ∃ u ∈ later, u.rot ≠ none) (more : List (Template α)) :
    t.turningPivot (later ++ more) = t.turningPivot later := by
  have hlength : ¬(later.takeWhile (·.rot.isNone)).length = later.length := by
    intro hlength
    have hself := (List.takeWhile_prefix fun v : Template α => v.rot.isNone).eq_of_length hlength
    obtain ⟨u, hu, hrot⟩ := h
    exact hrot (Option.isNone_iff_eq_none.1 (List.takeWhile_eq_self_iff.1 hself u hu))
  rw [turningPivot, turningPivot, List.takeWhile_append, if_neg hlength]

/-- Before the next rotation the last pivot that is declared counts. -/
theorem turningPivot_concat (t : Template α) {later : List (Template α)} {u : Template α}
    (h : ∀ v ∈ later, v.rot = none) :
    t.turningPivot (later ++ [u]) =
      if u.rot = none then u.pivot.getD (t.turningPivot later) else t.turningPivot later := by
  have hlater : ∀ v ∈ later, v.rot.isNone = true := fun v hv => by rw [h v hv]; rfl
  rw [turningPivot, turningPivot, List.takeWhile_append_of_pos hlater,
    List.takeWhile_eq_self_iff.2 hlater]
  cases hrot : u.rot with
  | some rot => simp [hrot]
  | none =>
    rw [List.takeWhile_cons_of_pos (by rw [hrot]; rfl), List.takeWhile_nil, if_pos rfl,
      ← List.cons_append, List.reverse_append, List.reverse_singleton, List.singleton_append,
      List.findSome?_cons]
    cases u.pivot <;> rfl

/-- A template with a rotation of its own leaves the others alone. -/
theorem declaredRotations_concat_of_some {ts : List (Template α)} {t : Template α} {rot : Vec3 α}
    (h : t.rot = some rot) :
    declaredRotations (ts ++ [t]) =
      declaredRotations ts ++ [⟨rot, t.pivot.getD Rotation.defaultPivot⟩] := by
  induction ts with
  | nil =>
    simp only [List.nil_append, declaredRotations, h, turningPivot, List.takeWhile_nil,
      List.reverse_singleton, List.findSome?_singleton]
  | cons u later ih =>
    have hpivot : u.turningPivot (later ++ [t]) = u.turningPivot later := by
      by_cases hlater : ∀ v ∈ later, v.rot = none
      · rw [turningPivot_concat u hlater, if_neg (by rw [h]; exact nofun)]
      · push Not at hlater
        exact turningPivot_append_of_mem u hlater [t]
    rw [List.cons_append, declaredRotations, declaredRotations, ih, hpivot]
    cases u.rot <;> rfl

/-- A template without a rotation may give a pivot to the last one. -/
theorem declaredRotations_concat_of_none {ts : List (Template α)} {t : Template α}
    {outer : List (Rotation α)} {last : Rotation α} (h : t.rot = none)
    (hts : declaredRotations ts = outer ++ [last]) :
    declaredRotations (ts ++ [t]) = outer ++ [⟨last.rot, t.pivot.getD last.pivot⟩] := by
  induction ts generalizing outer with
  | nil => simp [declaredRotations] at hts
  | cons u later ih =>
    rw [List.cons_append]
    rw [declaredRotations] at hts ⊢
    cases hu : u.rot with
    | none =>
      rw [hu] at hts
      exact ih hts
    | some rot =>
      simp only [hu] at hts ⊢
      cases outer with
      | nil =>
        -- The rotation of this template is the last one.
        obtain ⟨rfl, hlater⟩ := List.cons.inj hts
        have hnone := declaredRotations_eq_nil_iff.1 hlater
        have hnil : declaredRotations (later ++ [t]) = [] :=
          declaredRotations_eq_nil_iff.2 fun v hv => (List.mem_append.1 hv).elim (hnone v)
            fun hv => List.mem_singleton.1 hv ▸ h
        have hpivot := turningPivot_concat u (u := t) hnone
        rw [if_pos h] at hpivot
        rw [hnil, hpivot]
        rfl
      | cons first outer =>
        obtain ⟨rfl, hlater⟩ := List.cons.inj hts
        have hrot : ∃ v ∈ later, v.rot ≠ none := by
          by_contra hall
          push Not at hall
          rw [declaredRotations_eq_nil_iff.2 hall] at hlater
          simp at hlater
        have hpivot := turningPivot_append_of_mem u hrot [t]
        rw [ih hlater, hpivot]
        rfl

/-- The outer rotations of a template, and its own. -/
def allRotations (t : Template α) : List (Rotation α) := t.extraRotations ++ t.rotation.toList

/-- The template has the rotations that its chain declares. Without a rotation of its own it has no
outer ones. -/
structure Turns (ts : List (Template α)) (t : Template α) : Prop where
  allRotations_eq : t.allRotations = declaredRotations ts
  extraRotations_eq : t.rot = none → t.extraRotations = []

/-- A template as it is declared turns by its own rotation. -/
theorem Turns.of_declared {t : Template α} (h : t.extraRotations = []) : Turns [t] t where
  allRotations_eq := by
    rw [allRotations, h, rotation]
    cases hrot : t.rot with
    | none => rw [declaredRotations_eq_nil_iff.2 fun u hu => List.mem_singleton.1 hu ▸ hrot]; rfl
    | some rot => exact (@declaredRotations_concat_of_some α _ [] t rot hrot).symm
  extraRotations_eq _ := h

/-- A template that declares no outer rotations keeps all rotations when it inherits. -/
theorem Turns.inherit {ts : List (Template α)} {own parent : Template α} (h : Turns ts parent)
    (hown : own.extraRotations = []) : Turns (ts ++ [own]) (own.inherit parent) := by
  have hrotations := h.allRotations_eq
  rw [allRotations] at hrotations
  cases hrot : own.rot with
  | some rot =>
    refine ⟨?_, fun hnone => ?_⟩
    · rw [declaredRotations_concat_of_some hrot, ← hrotations]
      simp only [allRotations, Template.inherit, joinRotations, rotation, hrot, hown,
        Option.isSome_some, if_true, List.append_nil, Option.some_or, Option.map_some,
        Option.isNone_some, Bool.false_and, Bool.false_eq_true, if_false, Option.toList_some]
    · simp [Template.inherit, hrot] at hnone
  | none =>
    have hextra : (own.inherit parent).extraRotations = parent.extraRotations := by
      simp [Template.inherit, joinRotations, hrot, hown]
    have hinherited : (own.inherit parent).rot = parent.rot := by
      simp [Template.inherit, hrot]
    refine ⟨?_, fun hnone => ?_⟩
    · cases hparent : parent.rot with
      | none =>
        rw [h.extraRotations_eq hparent, rotation, hparent] at hrotations
        have hall : ∀ t ∈ ts ++ [own], t.rot = none := fun t ht => (List.mem_append.1 ht).elim
          (declaredRotations_eq_nil_iff.1 hrotations.symm t)
          fun ht => List.mem_singleton.1 ht ▸ hrot
        rw [declaredRotations_eq_nil_iff.2 hall, allRotations, hextra,
          h.extraRotations_eq hparent, rotation, hinherited, hparent]
        rfl
      | some rot =>
        rw [rotation, hparent] at hrotations
        rw [declaredRotations_concat_of_none hrot hrotations.symm, allRotations, hextra, rotation,
          hinherited, hparent]
        simp only [Template.inherit, hrot, hparent, Option.isNone_none, Option.isSome_some,
          Bool.and_self, if_true, Option.map_some, Option.toList_some]
        cases own.pivot <;> rfl
    · rw [hextra, h.extraRotations_eq (hinherited ▸ hnone)]

end

end Template

end BlockModels
