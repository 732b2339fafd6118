import BlockModels.Proofs.Text.Cutting
import BlockModels.Texture.Resolution

/-!
# What is noted when textures are looked up

On the way from a reference to an image there are eight ways for something not to be there
(`Fallback`), and for each there is something that takes its place. When this happens is said here
of the tables alone: which face table a block has (`SelectsTable`), which key the table has for a
face (`Declares`), which of the images under a key is meant (`Chooses`), and when the colours of an
image and of a key are read at all (`KeyFallsBack`). The image is the one that the tables lead to
(`LeadsTo`), and there is one note for each time that something is not there, of the kind that
belongs to it, and no other note (`resolveTexture_records`).
-/

namespace BlockModels

/-! ## Fallbacks -/

/-- What may not be there when a texture is looked up. -/
inductive Fallback where
  /-- The block's name is used as the key. -/
  | noFaceTable
  /-- The first key of the table is used. -/
  | undeclaredFace
  /-- The block's name is used as the key. -/
  | emptyFaceTable
  /-- The image is that of a missing texture. -/
  | noTerrainEntry
  /-- The image is that of a missing texture. -/
  | noPaths
  /-- The first image is used. -/
  | unknownVariant
  /-- The tint of the image is not used, but that of the key. -/
  | imageTint
  /-- There is no tint. -/
  | keyTint
  deriving Repr, DecidableEq, Inhabited

/-- The kind of the note that is taken. -/
def Fallback.kind : Fallback → DiagnosticKind
  | .noFaceTable | .undeclaredFace | .emptyFaceTable => .missingFace
  | .noTerrainEntry | .noPaths => .missingTerrainTexture
  | .unknownVariant => .unknownVariant
  | .imageTint | .keyTint => .invalidTint

/-- There is one note for each of the fallbacks, and no other one. -/
def Records (notes : List Diagnostic) (happens : Fallback → Prop) : Prop :=
  ∃ fallbacks : List Fallback, fallbacks.Nodup ∧ (∀ f, f ∈ fallbacks ↔ happens f) ∧
    (notes.map fun d => (d.severity, d.kind)) = fallbacks.map fun f => (Severity.warning, f.kind)

namespace Records

variable {notes notes' : List Diagnostic} {P Q : Fallback → Prop}

/-- What is noted depends only on when each fallback happens. -/
theorem congr (h : Records notes P) (hPQ : ∀ f, P f ↔ Q f) : Records notes Q := by
  obtain ⟨fallbacks, hnodup, hmem, hmap⟩ := h
  exact ⟨fallbacks, hnodup, fun f => (hmem f).trans (hPQ f), hmap⟩

/-- Without notes nothing happens. -/
theorem nil (hP : ∀ f, ¬P f) : Records [] P :=
  ⟨[], .nil, fun f => iff_of_false List.not_mem_nil (hP f), rfl⟩

/-- One note is that of one fallback. -/
theorem single {f : Fallback} (message : String) (hP : ∀ g, P g ↔ g = f) :
    Records [⟨.warning, f.kind, message⟩] P :=
  ⟨[f], List.pairwise_singleton _ f, fun g => List.mem_singleton.trans (hP g).symm, rfl⟩

/-- Two steps in each of which something else may be missing. -/
theorem append (h : Records notes P) (h' : Records notes' Q) (hdisjoint : ∀ f, P f → ¬Q f) :
    Records (notes ++ notes') fun f => P f ∨ Q f := by
  obtain ⟨fs, hnodup, hmem, hmap⟩ := h
  obtain ⟨fs', hnodup', hmem', hmap'⟩ := h'
  refine ⟨fs ++ fs', ?_, fun f => ?_, ?_⟩
  · refine List.nodup_append.2 ⟨hnodup, hnodup', fun f hf g hg heq => ?_⟩
    exact hdisjoint f ((hmem f).1 hf) ((hmem' f).1 (heq ▸ hg))
  · rw [List.mem_append, hmem, hmem']
  · rw [List.map_append, List.map_append, hmap, hmap']

/-- There are notes exactly if something happens. -/
theorem ne_nil_iff (h : Records notes P) : notes ≠ [] ↔ ∃ f, P f := by
  obtain ⟨fallbacks, -, hmem, hmap⟩ := h
  have hnil : notes = [] ↔ fallbacks = [] := by
    rw [← List.map_eq_nil_iff (f := fun d : Diagnostic => (d.severity, d.kind)), hmap,
      List.map_eq_nil_iff]
  rw [ne_eq, hnil, ← exists_congr hmem]
  exact ⟨List.exists_mem_of_ne_nil fallbacks, fun ⟨_, hf⟩ => List.ne_nil_of_mem hf⟩

end Records

/-! ## Faces -/

/-- The face looks to a side of the block. -/
def IsSideName (face : String) : Prop := ∃ f, Face.ofName? face = some f ∧ f.isSide = true

/-- The table has a key for the face: its own, or that of all sides, or that of all faces. -/
inductive Declares : FaceTable → String → String → Prop
  | all {key face : String} : Declares (.all key) face key
  | own {keys : Table String} {face key : String} : keys.get? face = some key →
      Declares (.perFace keys) face key
  | side {keys : Table String} {face key : String} : keys.get? face = none → IsSideName face →
      keys.get? "side" = some key → Declares (.perFace keys) face key
  | rest {keys : Table String} {face key : String} : keys.get? face = none →
      (IsSideName face → keys.get? "side" = none) → keys.get? "*" = some key →
      Declares (.perFace keys) face key

variable {t : FaceTable} {face key : String}

/-- The name is that of a side exactly if the face of this name is one. -/
theorem any_isSide_iff : (Face.ofName? face).any Face.isSide = true ↔ IsSideName face :=
  Option.any_eq_true _ _

/-- The key that is declared, if there is one. -/
def FaceTable.declared? (t : FaceTable) (face : String) : Option String :=
  match t with
  | .all key => some key
  | .perFace keys =>
    let side := if (Face.ofName? face).any Face.isSide then keys.get? "side" else none
    (keys.get? face).or (side.or (keys.get? "*"))

/-- The declared key as it is computed is the one that is declared. -/
theorem declared?_eq_some_iff : t.declared? face = some key ↔ Declares t face key := by
  cases t with
  | all key' =>
    constructor
    · rintro ⟨⟩
      exact .all
    · rintro ⟨⟩
      rfl
  | perFace keys =>
    rw [FaceTable.declared?]
    constructor
    · intro h
      rcases Option.or_eq_some_iff.1 h with hown | ⟨hown, h⟩
      · exact .own hown
      · split at h
        next hside =>
          rw [any_isSide_iff] at hside
          rcases Option.or_eq_some_iff.1 h with hkey | ⟨hnone, hkey⟩
          · exact .side hown hside hkey
          · exact .rest hown (fun _ => hnone) hkey
        next hside =>
          rw [any_isSide_iff] at hside
          exact .rest hown (fun h => absurd h hside) h
    · intro h
      cases h with
      | own hown => rw [hown, Option.some_or]
      | side hown hside hkey =>
        rw [hown, if_pos (any_isSide_iff.2 hside), hkey, Option.none_or, Option.some_or]
      | rest hown hside hkey =>
        have hnone : (if (Face.ofName? face).any Face.isSide then keys.get? "side" else none) =
            none := by
          split
          next h => exact hside (any_isSide_iff.1 h)
          · rfl
        rw [hown, hnone, hkey, Option.none_or, Option.none_or]

/-- No key is found exactly if none is declared. -/
theorem declared?_eq_none_iff : t.declared? face = none ↔ ∀ key, ¬Declares t face key := by
  rw [Option.eq_none_iff_forall_ne_some]
  exact forall_congr' fun key => not_congr declared?_eq_some_iff

/-- Only the empty table has no first entry. -/
theorem Table.first?_eq_none_iff {β : Type} {t : Table β} : t.first? = none ↔ t = .empty := by
  rw [first?, List.head?_eq_none_iff]
  refine ⟨fun h => ?_, fun h => h ▸ rfl⟩
  cases t
  cases h
  rfl

/-- How a face is looked up: by what is declared for it, and else by the order of the table. -/
theorem lookup_cases (t : FaceTable) (face : String) :
    (∃ key, t.lookup face = .found key ∧ Declares t face key) ∨
      (∃ keys name key, t.lookup face = .firstDeclared key ∧ t = .perFace keys ∧
        (∀ key, ¬Declares t face key) ∧ keys.first? = some (name, key)) ∨
      t.lookup face = .missing ∧ t = .perFace .empty := by
  cases hdeclared : t.declared? face with
  | some key =>
    refine .inl ⟨key, ?_, declared?_eq_some_iff.1 hdeclared⟩
    cases t with
    | all key' =>
      cases hdeclared
      rfl
    | perFace keys =>
      rw [FaceTable.declared?] at hdeclared
      simp only [FaceTable.lookup, hdeclared]
  | none =>
    have hnone := declared?_eq_none_iff.1 hdeclared
    cases t with
    | all key' => cases hdeclared
    | perFace keys =>
      rw [FaceTable.declared?] at hdeclared
      cases hfirst : keys.first? with
      | some e =>
        refine .inr (.inl ⟨keys, e.1, e.2, ?_, rfl, hnone, hfirst⟩)
        simp only [FaceTable.lookup, hdeclared, hfirst]
      | none =>
        refine .inr (.inr ⟨?_, Table.first?_eq_none_iff.1 hfirst ▸ rfl⟩)
        simp only [FaceTable.lookup, hdeclared, hfirst]

/-- An empty table declares nothing. -/
theorem not_declares_empty : ¬Declares (.perFace .empty) face key := by
  rw [← declared?_eq_some_iff, FaceTable.declared?]
  split <;> nofun

/-- The key that a face comes to, and what was not there. Where the tables have nothing, the block's
name is the key. -/
inductive HasKey (owner : String) :
    Option FaceTable → String → String → Option Fallback → Prop
  | noTable {face : String} : HasKey owner none face owner (some .noFaceTable)
  | declared {t : FaceTable} {face key : String} : Declares t face key →
      HasKey owner (some t) face key none
  | firstDeclared {keys : Table String} {face name key : String} :
      (∀ key', ¬Declares (.perFace keys) face key') → keys.first? = some (name, key) →
      HasKey owner (some (.perFace keys)) face key (some .undeclaredFace)
  | emptyTable {face : String} :
      HasKey owner (some (.perFace .empty)) face owner (some .emptyFaceTable)

/-- Whatever is missing before the key is known is noted as a missing face. -/
theorem HasKey.kind {owner : String} {table : Option FaceTable} {f : Fallback}
    (h : HasKey owner table face key (some f)) : f.kind = .missingFace := by
  cases h <;> rfl

/-- A face comes to one key, in one way. -/
theorem HasKey.unique {owner : String} {table : Option FaceTable} {key' : String}
    {f f' : Option Fallback} (h : HasKey owner table face key f)
    (h' : HasKey owner table face key' f') : key' = key ∧ f' = f := by
  cases h with
  | noTable =>
    cases h'
    exact ⟨rfl, rfl⟩
  | declared hkey =>
    cases h' with
    | declared hkey' =>
      rw [← declared?_eq_some_iff] at hkey hkey'
      exact ⟨Option.some.inj (hkey'.symm.trans hkey), rfl⟩
    | firstDeclared hnone _ => exact absurd hkey (hnone _)
    | emptyTable => exact absurd hkey not_declares_empty
  | firstDeclared hnone hfirst =>
    cases h' with
    | declared hkey' => exact absurd hkey' (hnone _)
    | firstDeclared _ hfirst' =>
      rw [hfirst] at hfirst'
      cases hfirst'
      exact ⟨rfl, rfl⟩
    | emptyTable => cases hfirst
  | emptyTable =>
    cases h' with
    | declared hkey' => exact absurd hkey' not_declares_empty
    | firstDeclared _ hfirst' => cases hfirst'
    | emptyTable => exact ⟨rfl, rfl⟩

section

variable {α : Type} (c : Catalog α)

/-- The face table in which a face is looked up, and the name that it has there. The block may use
the table of another, and be shown as it is carried. -/
inductive SelectsTable (blockName face : String) : Option FaceTable → String → Prop
  | marked {rest : List Char} : face.toList = carriedMark.toList ++ rest →
      SelectsTable blockName face (c.carriedTable? (c.textureOwner blockName)) (String.ofList rest)
  | carried : ¬carriedMark.toList <+: face.toList → c.looksCarried blockName = true →
      SelectsTable blockName face (c.carriedTable? (c.textureOwner blockName)) face
  | plain : ¬carriedMark.toList <+: face.toList → c.looksCarried blockName = false →
      SelectsTable blockName face (c.faceTables.get? (c.textureOwner blockName)) face

variable {c} {blockName : String}

/-- The face table and the name as they are computed. -/
def Catalog.selectedTable (c : Catalog α) (blockName face : String) : Option FaceTable × String :=
  let owner := c.textureOwner blockName
  match Text.behind? carriedMark.toList face.toList with
  | some rest => (c.carriedTable? owner, String.ofList rest)
  | none => (if c.looksCarried blockName then c.carriedTable? owner else c.faceTables.get? owner,
      face)

/-- The table as it is computed is the one that is selected. -/
theorem selectsTable_iff {table : Option FaceTable} {name : String} :
    SelectsTable c blockName face table name ↔ c.selectedTable blockName face = (table, name) := by
  rw [Catalog.selectedTable]
  constructor
  · intro h
    cases h with
    | marked hface => rw [hface, Text.behind?_append]
    | carried hmark hcarried => rw [Text.behind?_eq_none_iff.2 hmark, hcarried]; rfl
    | plain hmark hcarried => rw [Text.behind?_eq_none_iff.2 hmark, hcarried]; rfl
  · intro h
    split at h
    next rest hbehind =>
      cases h
      exact .marked (Text.behind?_eq_some hbehind)
    next hbehind =>
      rw [Text.behind?_eq_none_iff] at hbehind
      cases hcarried : c.looksCarried blockName with
      | true =>
        rw [hcarried] at h
        cases h
        exact .carried hbehind hcarried
      | false =>
        rw [hcarried] at h
        cases h
        exact .plain hbehind hcarried

/-- The step from a face table to a key. -/
def noteKey (owner : String) (table : Option FaceTable) (face : String) : Noted String := do
  match table with
  | none =>
    Noted.warn .missingFace
      ("No face table for " ++ owner ++ ", using the block name as terrain key")
    return owner
  | some table =>
    match table.lookup face with
    | .found key => return key
    | .firstDeclared key =>
      Noted.warn .missingFace ("No " ++ face ++ " face for " ++ owner ++
        ", using first declared face (" ++ key ++ ")")
      return key
    | .missing =>
      Noted.warn .missingFace ("Empty face table for " ++ owner)
      return owner

/-- The key of a face is that of the selected table, with the notes that it takes. -/
theorem textureKey_eq (c : Catalog α) (blockName face : String) :
    c.textureKey (c.textureOwner blockName) face (c.looksCarried blockName) =
      noteKey (c.textureOwner blockName) (c.selectedTable blockName face).1
        (c.selectedTable blockName face).2 := by
  rw [Catalog.textureKey, Catalog.selectedTable]
  cases Text.behind? carriedMark.toList face.toList <;> rfl

/-- A table leads to the key that it has for the face, and notes what is missing. -/
theorem exists_hasKey_noteKey (owner : String) (table : Option FaceTable) (face : String) :
    ∃ f, HasKey owner table face (noteKey owner table face).value f ∧
      Records (noteKey owner table face).notes fun g => f = some g := by
  have hsome : ∀ f g : Fallback, some f = some g ↔ g = f := fun f g => by
    rw [Option.some.injEq, eq_comm]
  cases table with
  | none => exact ⟨_, .noTable, .single (f := .noFaceTable) _ (hsome _)⟩
  | some t =>
    rcases lookup_cases t face with ⟨key, hlookup, hkey⟩ |
      ⟨keys, name, key, hlookup, rfl, hnone, hfirst⟩ | ⟨hlookup, rfl⟩
    · simp only [noteKey, hlookup]
      exact ⟨none, .declared hkey, .nil nofun⟩
    · simp only [noteKey, hlookup]
      exact ⟨_, .firstDeclared hnone hfirst, .single (f := .undeclaredFace) _ (hsome _)⟩
    · simp only [noteKey, hlookup]
      exact ⟨_, .emptyTable, .single (f := .emptyFaceTable) _ (hsome _)⟩

/-- The key of a block's face, and what was not there. -/
def FaceKey (c : Catalog α) (blockName face key : String) (f : Option Fallback) : Prop :=
  ∃ table name, SelectsTable c blockName face table name ∧
    HasKey (c.textureOwner blockName) table name key f

/-- A block's face has one key, and there is a note exactly if something is missing on the way to
it. -/
theorem exists_faceKey (c : Catalog α) (blockName face : String) :
    ∃ f, (∀ key' f', FaceKey c blockName face key' f' ↔
        key' = (c.textureKey (c.textureOwner blockName) face (c.looksCarried blockName)).value ∧
          f' = f) ∧
      Records (c.textureKey (c.textureOwner blockName) face (c.looksCarried blockName)).notes
        fun g => f = some g := by
  rw [textureKey_eq]
  cases hselected : c.selectedTable blockName face with
  | mk table name =>
    obtain ⟨f, hkey, hrecords⟩ := exists_hasKey_noteKey (c.textureOwner blockName) table name
    refine ⟨f, fun key' f' => ?_, hrecords⟩
    constructor
    · rintro ⟨table', name', hselects, hkey'⟩
      rw [selectsTable_iff, hselected] at hselects
      cases hselects
      exact hkey.unique hkey'
    · rintro ⟨rfl, rfl⟩
      exact ⟨table, name, selectsTable_iff.2 hselected, hkey⟩

/-! ## Images -/

/-- The number is that of one of the variants. -/
def IsIndex (variant : Int64) (variants : List TerrainVariant) : Prop :=
  0 ≤ variant.toInt ∧ variant.toInt < variants.length

instance (variant : Int64) (variants : List TerrainVariant) :
    Decidable (IsIndex variant variants) :=
  inferInstanceAs (Decidable (_ ∧ _))

/-- A number that is not negative leads to the image at its place. -/
theorem variantAt?_eq_some_iff {variants : List TerrainVariant} {variant : Int64}
    {chosen : TerrainVariant} : variantAt? variants variant = some chosen ↔
      0 ≤ variant.toInt ∧ variants[variant.toInt.toNat]? = some chosen := by
  rw [variantAt?]
  split
  next h => exact (and_iff_right h).symm
  next h => exact iff_of_false nofun fun ⟨h', _⟩ => h h'

/-- There is no image at a number that is no index. -/
theorem variantAt?_eq_none_iff {variants : List TerrainVariant} {variant : Int64} :
    variantAt? variants variant = none ↔ ¬IsIndex variant variants := by
  rw [variantAt?, IsIndex]
  split
  · rw [List.getElem?_eq_none_iff]
    omega
  · exact iff_of_true rfl (by omega)

variable (c) in
/-- Which of the images under a key is meant: the one with the number, and else the first. -/
inductive Chooses (key : String) (variant : Int64) : TerrainVariant → Prop
  | numbered {variants : List TerrainVariant} {chosen : TerrainVariant} :
      c.terrain.get? key = some variants → 0 ≤ variant.toInt →
      variants[variant.toInt.toNat]? = some chosen → Chooses key variant chosen
  | first {variants : List TerrainVariant} {chosen : TerrainVariant} :
      c.terrain.get? key = some variants → ¬IsIndex variant variants →
      variants.head? = some chosen → Chooses key variant chosen

variable (c) in
/-- Which image a key leads to: the one that is meant, or that of a missing texture if there are no
images under the key. -/
inductive KeyLeadsTo (key : String) (variant : Int64) : String → Prop
  | chosen {image : TerrainVariant} : Chooses c key variant image →
      KeyLeadsTo key variant image.path
  | missing : (c.terrain.get? key).getD [] = [] → KeyLeadsTo key variant missingTexture

variable {key : String} {first chosen : TerrainVariant} {rest : List TerrainVariant}
  {variant : Int64}

/-- The image with the number is chosen, or else the first. -/
theorem value_chooseVariant (key : String) (first : TerrainVariant) (rest : List TerrainVariant)
    (variant : Int64) : (chooseVariant key first rest variant).value =
      (variantAt? (first :: rest) variant).getD first := by
  rw [chooseVariant]
  cases variantAt? (first :: rest) variant with
  | some image => rfl
  | none => cases variant != unknownVariant || !rest.isEmpty <;> rfl

/-- The chosen image as it is computed is the one that is meant. -/
theorem chooses_iff (hterrain : c.terrain.get? key = some (first :: rest)) :
    Chooses c key variant chosen ↔ (chooseVariant key first rest variant).value = chosen := by
  rw [value_chooseVariant]
  cases hvariant : variantAt? (first :: rest) variant with
  | some image =>
    have hat := variantAt?_eq_some_iff.1 hvariant
    constructor
    · intro h
      cases h with
      | numbered hterrain' _ himage =>
        cases hterrain.symm.trans hterrain'
        exact Option.some.inj (hat.2.symm.trans himage)
      | first hterrain' hindex _ =>
        cases hterrain.symm.trans hterrain'
        rw [← variantAt?_eq_none_iff, hvariant] at hindex
        cases hindex
    · rintro rfl
      exact .numbered hterrain hat.1 hat.2
  | none =>
    constructor
    · intro h
      cases h with
      | numbered hterrain' hnonneg himage =>
        cases hterrain.symm.trans hterrain'
        rw [variantAt?_eq_some_iff.2 ⟨hnonneg, himage⟩] at hvariant
        cases hvariant
      | first hterrain' _ hhead =>
        cases hterrain.symm.trans hterrain'
        exact Option.some.inj hhead
    · rintro rfl
      exact .first hterrain (variantAt?_eq_none_iff.1 hvariant) rfl

/-- Not to know the number is noted, save where it is not given and there is only one image. -/
theorem records_chooseVariant (key : String) (first : TerrainVariant)
    (rest : List TerrainVariant) (variant : Int64) :
    Records (chooseVariant key first rest variant).notes fun f =>
      f = .unknownVariant ∧ ¬IsIndex variant (first :: rest) ∧
        ¬(variant = unknownVariant ∧ (first :: rest).length = 1) := by
  have hlength : (first :: rest).length = 1 ↔ rest = [] := by
    rw [List.length_cons, Nat.add_eq_right, List.length_eq_zero_iff]
  have hnoted : (variant != unknownVariant || !rest.isEmpty) = true ↔
      ¬(variant = unknownVariant ∧ (first :: rest).length = 1) := by
    rw [hlength, not_and_or, Bool.or_eq_true, bne_iff_ne, Bool.not_eq_true', ← Bool.not_eq_true,
      List.isEmpty_iff]
  rw [chooseVariant]
  cases hvariant : variantAt? (first :: rest) variant with
  | some image =>
    refine .nil fun f ⟨_, hindex, _⟩ => ?_
    rw [← variantAt?_eq_none_iff, hvariant] at hindex
    cases hindex
  | none =>
    have hindex := variantAt?_eq_none_iff.1 hvariant
    by_cases h : (variant != unknownVariant || !rest.isEmpty) = true
    · simp only [h, if_true]
      exact .single (f := .unknownVariant) _ fun f => and_iff_left ⟨hindex, hnoted.1 h⟩
    · simp only [h]
      exact .nil fun f ⟨_, _, hnot⟩ => h (hnoted.2 hnot)

end

/-! ## Tints -/

section

variable {α : Type} [Scalar α]

/-- The text is not that of a colour. -/
def NoColor (α : Type) [Scalar α] (color : String) : Prop :=
  parseColor? color = (none : Option (Vec3 α))

instance [DecidableEq α] (color : String) : Decidable (NoColor α color) :=
  inferInstanceAs (Decidable (_ = _))

/-- A colour is read unless its text is not that of one. -/
theorem isSome_keyTint (key color : String) (likePng : Bool) :
    (keyTint key color likePng : Noted (Option (Tint α))).value.isSome = true ↔
      ¬NoColor α color := by
  rw [keyTint, NoColor]
  cases parseColor? (α := α) color with
  | some rgb => exact iff_of_true rfl nofun
  | none => exact iff_of_false nofun (not_not.2 rfl)

/-- A text that is no colour is noted, and nothing else is. -/
theorem records_keyTint (key color : String) (likePng : Bool) {f : Fallback}
    (hf : f.kind = .invalidTint) :
    Records (keyTint key color likePng : Noted (Option (Tint α))).notes fun g =>
      g = f ∧ NoColor α color := by
  rw [keyTint, NoColor]
  cases parseColor? (α := α) color with
  | some rgb => exact .nil fun g ⟨_, h⟩ => nomatch h
  | none =>
    have h := Records.single (P := fun g => g = f) (f := f)
      ("Invalid tint " ++ Text.quote color ++ " for " ++ key) fun _ => Iff.rfl
    rw [hf] at h
    exact h.congr fun g => (and_iff_left rfl).symm

/-- The tint that an image itself has. -/
def imageTint (key : String) (chosen : TerrainVariant) : Noted (Option (Tint α)) :=
  match chosen.tintColor with
  | some color => keyTint key color false
  | none => pure none

/-- An image has no tint of its own if it has no text for one or none that can be read. -/
theorem isSome_imageTint (key : String) (chosen : TerrainVariant) :
    (imageTint key chosen : Noted (Option (Tint α))).value.isSome = false ↔
      ∀ color, chosen.tintColor = some color → NoColor α color := by
  rw [imageTint]
  cases chosen.tintColor with
  | none => exact iff_of_true rfl nofun
  | some color =>
    rw [← Bool.not_eq_true, isSome_keyTint, not_not]
    exact ⟨fun h _ hcolor => Option.some.inj hcolor ▸ h, fun h => h color rfl⟩

/-- The text of an image's own colour is noted if it is no colour. -/
theorem records_imageTint (key : String) (chosen : TerrainVariant) :
    Records (imageTint key chosen : Noted (Option (Tint α))).notes fun f =>
      f = .imageTint ∧ ∃ color, chosen.tintColor = some color ∧ NoColor α color := by
  rw [imageTint]
  cases chosen.tintColor with
  | none => exact .nil fun f ⟨_, _, hcolor, _⟩ => nomatch hcolor
  | some color =>
    refine (records_keyTint key color false rfl).congr fun f => and_congr_right fun _ => ?_
    exact ⟨fun h => ⟨color, rfl, h⟩, fun ⟨_, hcolor, h⟩ => Option.some.inj hcolor ▸ h⟩

variable (c : Catalog α)

/-- The tint of a key, for an image that has none itself. -/
def Catalog.tintOfKey (key : String) (fromImage : Option (Tint α)) : Noted (Option (Tint α)) :=
  if fromImage.isSome then pure fromImage
  else
    match c.tints.get? key with
    | some rule => keyTint key rule.color rule.likePng
    | none => pure none

/-- The text of a key's colour is noted if it is read and is no colour. -/
theorem records_tintOfKey (key : String) (fromImage : Option (Tint α)) :
    Records (c.tintOfKey key fromImage).notes fun f => f = .keyTint ∧
      fromImage.isSome = false ∧ ∃ rule, c.tints.get? key = some rule ∧ NoColor α rule.color := by
  rw [Catalog.tintOfKey]
  cases fromImage with
  | some tint => exact .nil fun f ⟨_, hnone, _⟩ => nomatch hnone
  | none =>
    cases c.tints.get? key with
    | none => exact .nil fun f ⟨_, _, _, hrule, _⟩ => nomatch hrule
    | some rule =>
      refine (records_keyTint key rule.color rule.likePng rfl).congr fun f =>
        and_congr_right fun _ => ?_
      exact ⟨fun h => ⟨rfl, rule, rfl, h⟩, fun ⟨_, _, hrule, h⟩ => Option.some.inj hrule ▸ h⟩

/-- If the cube asks for no tint, that of the image is read first and then that of the key. -/
theorem chooseTint_none (key : String) (chosen : TerrainVariant) :
    c.chooseTint key chosen none = imageTint key chosen >>= c.tintOfKey key := by
  rw [Catalog.chooseTint, imageTint]
  cases chosen.tintColor <;> rfl

/-- Only one colour is asked for at a time: that of the image if the cube asks for none, and that
of the key if there is none for the image either. -/
theorem records_chooseTint (key : String) (chosen : TerrainVariant) (own : Option (Tint α)) :
    Records (c.chooseTint key chosen own).notes fun f => own = none ∧
      ((f = .imageTint ∧ ∃ color, chosen.tintColor = some color ∧ NoColor α color) ∨
        f = .keyTint ∧ (∀ color, chosen.tintColor = some color → NoColor α color) ∧
          ∃ rule, c.tints.get? key = some rule ∧ NoColor α rule.color) := by
  cases own with
  | some tint => exact .nil fun f ⟨hnone, _⟩ => nomatch hnone
  | none =>
    rw [chooseTint_none, Noted.notes_bind]
    -- The second step reads the value of the first one, which is none if its colour was not read.
    refine ((records_imageTint key chosen).append (records_tintOfKey c key _) ?_).congr fun f => ?_
    · rintro f ⟨rfl, -⟩ ⟨hf, -⟩
      cases hf
    · rw [isSome_imageTint, and_iff_right rfl]

/-! ## References -/

/-- What is not there on the way from a key to an image and a tint. -/
inductive KeyFallsBack (key : String) (variant : Int64) (tint : Option (Vec3 α)) : Fallback → Prop
  | noTerrainEntry : c.terrain.get? key = none → KeyFallsBack key variant tint .noTerrainEntry
  | noPaths : c.terrain.get? key = some [] → KeyFallsBack key variant tint .noPaths
  | unknownVariant {variants : List TerrainVariant} : c.terrain.get? key = some variants →
      variants ≠ [] → ¬IsIndex variant variants →
      ¬(variant = BlockModels.unknownVariant ∧ variants.length = 1) →
      KeyFallsBack key variant tint .unknownVariant
  | imageTint {chosen : TerrainVariant} {color : String} : tint = none →
      Chooses c key variant chosen → chosen.tintColor = some color → NoColor α color →
      KeyFallsBack key variant tint .imageTint
  | keyTint {chosen : TerrainVariant} {rule : TintRule} : tint = none →
      Chooses c key variant chosen →
      (∀ color, chosen.tintColor = some color → NoColor α color) →
      c.tints.get? key = some rule → NoColor α rule.color →
      KeyFallsBack key variant tint .keyTint

variable {c} {key : String} {variant : Int64} {tint : Option (Vec3 α)} {f : Fallback}

omit [Scalar α] in
/-- If an image is meant there are images under the key. -/
theorem Chooses.exists_terrain {chosen : TerrainVariant} (h : Chooses c key variant chosen) :
    ∃ first rest, c.terrain.get? key = some (first :: rest) := by
  cases h with
  | @numbered variants _ hterrain _ himage =>
    cases variants with
    | nil => cases himage
    | cons first rest => exact ⟨first, rest, hterrain⟩
  | @first variants _ hterrain _ hhead =>
    cases variants with
    | nil => cases hhead
    | cons first rest => exact ⟨first, rest, hterrain⟩

/-- Without an image there is nothing else that may be missing. -/
theorem keyFallsBack_iff_of_no_image (hterrain : ∀ first rest, c.terrain.get? key ≠
    some (first :: rest)) : KeyFallsBack c key variant tint f ↔
      (f = .noTerrainEntry ∧ c.terrain.get? key = none) ∨
        f = .noPaths ∧ c.terrain.get? key = some [] := by
  constructor
  · intro h
    cases h with
    | noTerrainEntry h => exact .inl ⟨rfl, h⟩
    | noPaths h => exact .inr ⟨rfl, h⟩
    | @unknownVariant variants h hne _ _ =>
      cases variants with
      | nil => exact absurd rfl hne
      | cons first rest => exact absurd h (hterrain first rest)
    | imageTint _ hchooses _ _ =>
      obtain ⟨first, rest, h⟩ := hchooses.exists_terrain
      exact absurd h (hterrain first rest)
    | keyTint _ hchooses _ _ _ =>
      obtain ⟨first, rest, h⟩ := hchooses.exists_terrain
      exact absurd h (hterrain first rest)
  · rintro (⟨rfl, h⟩ | ⟨rfl, h⟩)
    · exact .noTerrainEntry h
    · exact .noPaths h

/-- What is missing behind the key is not noted as a missing face. -/
theorem KeyFallsBack.kind_ne (h : KeyFallsBack c key variant tint f) : f.kind ≠ .missingFace := by
  cases h <;> nofun

/-- With an image it is the number of the image, or a colour that the chosen image comes to. -/
theorem keyFallsBack_iff_of_images {first : TerrainVariant} {rest : List TerrainVariant}
    (hterrain : c.terrain.get? key = some (first :: rest)) :
    KeyFallsBack c key variant tint f ↔
      (f = .unknownVariant ∧ ¬IsIndex variant (first :: rest) ∧
        ¬(variant = unknownVariant ∧ (first :: rest).length = 1)) ∨
      tint = none ∧ ∃ chosen, Chooses c key variant chosen ∧
        ((f = .imageTint ∧ ∃ color, chosen.tintColor = some color ∧ NoColor α color) ∨
          f = .keyTint ∧ (∀ color, chosen.tintColor = some color → NoColor α color) ∧
            ∃ rule, c.tints.get? key = some rule ∧ NoColor α rule.color) := by
  constructor
  · intro h
    cases h with
    | noTerrainEntry h => cases hterrain.symm.trans h
    | noPaths h => cases hterrain.symm.trans h
    | unknownVariant h _ hindex hgiven =>
      cases hterrain.symm.trans h
      exact .inl ⟨rfl, hindex, hgiven⟩
    | @imageTint chosen color hnone hchooses hcolor hno =>
      exact .inr ⟨hnone, chosen, hchooses, .inl ⟨rfl, color, hcolor, hno⟩⟩
    | @keyTint chosen rule hnone hchooses hcolor hrule hno =>
      exact .inr ⟨hnone, chosen, hchooses, .inr ⟨rfl, hcolor, rule, hrule, hno⟩⟩
  · rintro (⟨rfl, hindex, hgiven⟩ | ⟨hnone, chosen, hchooses,
      ⟨rfl, color, hcolor, hno⟩ | ⟨rfl, hcolor, rule, hrule, hno⟩⟩)
    · exact .unknownVariant hterrain (List.cons_ne_nil first rest) hindex hgiven
    · exact .imageTint hnone hchooses hcolor hno
    · exact .keyTint hnone hchooses hcolor hrule hno

variable (c key variant tint)

/-- On the way from a key to an image and a tint everything that is missing is noted. -/
theorem records_resolveKey : Records (c.resolveKey key variant (tint.map fun rgb => { rgb })).notes
    (KeyFallsBack c key variant tint) := by
  rw [Catalog.resolveKey]
  cases hterrain : c.terrain.get? key with
  | none =>
    refine .single (f := .noTerrainEntry) _ fun f => ?_
    rw [keyFallsBack_iff_of_no_image (by rw [hterrain]; nofun), hterrain]
    exact ⟨fun h => h.elim And.left (fun h => nomatch h.2), fun h => .inl ⟨h, rfl⟩⟩
  | some variants =>
    cases variants with
    | nil =>
      refine .single (f := .noPaths) _ fun f => ?_
      rw [keyFallsBack_iff_of_no_image (by rw [hterrain]; nofun), hterrain]
      exact ⟨fun h => h.elim (fun h => nomatch h.2) And.left, fun h => .inr ⟨h, rfl⟩⟩
    | cons first rest =>
      have hown : tint.map (fun rgb => ({ rgb } : Tint α)) = none ↔ tint = none :=
        Option.map_eq_none_iff
      simp only [Noted.notes_bind, Noted.notes_pure, List.append_nil]
      refine ((records_chooseVariant key first rest variant).append
        (records_chooseTint c key _ _) ?_).congr fun f => ?_
      · rintro f ⟨rfl, -⟩ ⟨-, ⟨hf, -⟩ | ⟨hf, -⟩⟩ <;> cases hf
      · rw [keyFallsBack_iff_of_images hterrain, hown]
        refine or_congr_right (and_congr_right fun _ => ?_)
        simp only [chooses_iff hterrain, exists_eq_left']

/-- The image of a key as it is computed is the one that the key leads to. -/
theorem keyLeadsTo_iff (own : Option (Tint α)) {path : String} :
    KeyLeadsTo c key variant path ↔ (c.resolveKey key variant own).value.1 = path := by
  rw [Catalog.resolveKey]
  have hnone : (c.terrain.get? key).getD [] = [] →
      (KeyLeadsTo c key variant path ↔ missingTexture = path) := by
    intro hterrain
    constructor
    · intro h
      cases h with
      | chosen hchooses =>
        obtain ⟨first, rest, h⟩ := hchooses.exists_terrain
        rw [h] at hterrain
        cases hterrain
      | missing => rfl
    · rintro rfl
      exact .missing hterrain
  cases hterrain : c.terrain.get? key with
  | none => exact hnone (by rw [hterrain]; rfl)
  | some variants =>
    cases variants with
    | nil => exact hnone (by rw [hterrain]; rfl)
    | cons first rest =>
      constructor
      · intro h
        cases h with
        | chosen hchooses =>
          exact congrArg TerrainVariant.path ((chooses_iff hterrain).1 hchooses)
        | missing h =>
          rw [hterrain] at h
          cases h
      · rintro rfl
        exact .chosen ((chooses_iff hterrain).2 rfl)

/-- What is not there on the way from a reference to an image and a tint. For an image itself there
is no such way. -/
def FallsBack (c : Catalog α) (r : TextureReference α) (f : Fallback) : Prop :=
  match r.source with
  | .block blockName face variant => ∃ key missing, FaceKey c blockName face key missing ∧
      (missing = some f ∨ KeyFallsBack c key variant r.tint f)
  | .terrainKey _ key variant => KeyFallsBack c key variant r.tint f
  | .path _ => False

/-- Which image a reference leads to, by way of the key of a face or at once. -/
def LeadsTo (c : Catalog α) (r : TextureReference α) (path : String) : Prop :=
  match r.source with
  | .block blockName face variant => ∃ key missing, FaceKey c blockName face key missing ∧
      KeyLeadsTo c key variant path
  | .terrainKey _ key variant => KeyLeadsTo c key variant path
  | .path image => image = path

/-- The image of a reference as it is computed is the one that the reference leads to. -/
theorem leadsTo_iff (c : Catalog α) (r : TextureReference α) {path : String} :
    LeadsTo c r path ↔ (c.resolveTexture r).value.path = path := by
  obtain ⟨rect, source, tint, croppable⟩ := r
  cases source with
  | path image => exact Iff.rfl
  | terrainKey blockName key variant => exact keyLeadsTo_iff c key variant _
  | block blockName face variant =>
    obtain ⟨missing, hkey, -⟩ := exists_faceKey c blockName face
    refine Iff.trans ?_ (keyLeadsTo_iff c _ variant _)
    constructor
    · rintro ⟨key, missing', hkey', h⟩
      obtain ⟨rfl, -⟩ := (hkey _ _).1 hkey'
      exact h
    · exact fun h => ⟨_, missing, (hkey _ _).2 ⟨rfl, rfl⟩, h⟩

/-- On the way from a reference to an image and a tint everything that is missing is noted. -/
theorem records_resolveTexture (c : Catalog α) (r : TextureReference α) :
    Records (c.resolveTexture r).notes (FallsBack c r) := by
  obtain ⟨rect, source, tint, croppable⟩ := r
  cases source with
  | path path => exact .nil fun f h => h
  | terrainKey blockName key variant =>
    simp only [Catalog.resolveTexture, Noted.notes_bind, Noted.notes_pure, List.append_nil]
    exact records_resolveKey c key variant tint
  | block blockName face variant =>
    simp only [Catalog.resolveTexture, Noted.notes_bind, Noted.notes_pure, List.append_nil]
    obtain ⟨missing, hkey, hrecords⟩ := exists_faceKey c blockName face
    refine (hrecords.append (records_resolveKey c _ variant tint) ?_).congr fun f => ?_
    -- What may be missing before the key is known is of a kind of its own.
    · rintro g rfl hg
      obtain ⟨table, name, -, hname⟩ := (hkey _ _).2 ⟨rfl, rfl⟩
      exact hg.kind_ne hname.kind
    · constructor
      · exact fun h => ⟨_, missing, (hkey _ _).2 ⟨rfl, rfl⟩, h⟩
      · rintro ⟨key, missing', hkey', h⟩
        obtain ⟨rfl, rfl⟩ := (hkey _ _).1 hkey'
        exact h

/-- What the reference says of its rectangle and its cropping is kept, the image is the one that the
tables lead to, and what is not there is noted. Where an image itself is meant nothing is looked
up. -/
theorem resolveTexture_records (c : Catalog α) (r : TextureReference α) :
    (c.resolveTexture r).value.rect = r.rect ∧
      (c.resolveTexture r).value.croppable = r.croppable ∧
      (∀ path, LeadsTo c r path ↔ (c.resolveTexture r).value.path = path) ∧
      Records (c.resolveTexture r).notes (FallsBack c r) ∧
      ((c.resolveTexture r).notes ≠ [] ↔ ∃ f, FallsBack c r f) ∧
      ∀ path, r.source = .path path → (c.resolveTexture r).notes = [] := by
  have hrecords := records_resolveTexture c r
  have hkept : (c.resolveTexture r).value.rect = r.rect ∧
      (c.resolveTexture r).value.croppable = r.croppable := by
    rw [Catalog.resolveTexture]
    cases r.source <;> exact ⟨rfl, rfl⟩
  refine ⟨hkept.1, hkept.2, fun _ => leadsTo_iff c r, hrecords, hrecords.ne_nil_iff,
    fun path hpath => ?_⟩
  by_contra hnotes
  obtain ⟨f, hf⟩ := hrecords.ne_nil_iff.1 hnotes
  rw [FallsBack, hpath] at hf
  exact hf

end

/-- The table of the block has no key for the face, the key that is used instead has no image with
the number, and the colours of its first image and of the key itself are none. An image itself is
what it is. -/
theorem resolveTexture_records_of_gaps :
    let faces : FaceTable := .perFace (Table.empty.insert "up" "odd_top")
    let images : List TerrainVariant :=
      [⟨"textures/odd", some "no colour"⟩, ⟨"textures/even", none⟩]
    let c : Catalog Rat := {
      faceTables := Table.empty.insert "odd" faces
      terrain := Table.empty.insert "odd_top" images
      tints := Table.empty.insert "odd_top" ⟨"none either", false⟩ }
    let ofBlock : TextureReference Rat :=
      { rect := ⟨⟨0, 0⟩, ⟨1, 1⟩⟩, source := .block "odd" "north" 5 }
    let ofPath : TextureReference Rat := { ofBlock with source := .path "textures/stone" }
    FallsBack c ofBlock .undeclaredFace ∧ FallsBack c ofBlock .unknownVariant ∧
      FallsBack c ofBlock .imageTint ∧ FallsBack c ofBlock .keyTint ∧
      LeadsTo c ofBlock "textures/odd" ∧
      Records (c.resolveTexture ofBlock).notes (FallsBack c ofBlock) ∧
      (c.resolveTexture ofBlock).notes ≠ [] ∧
      ofPath.source = .path "textures/stone" ∧ (c.resolveTexture ofPath).notes = [] := by
  intro faces images c ofBlock ofPath
  have hselects : SelectsTable c "odd" "north" (some faces) "north" := selectsTable_iff.2 rfl
  have hnone : ∀ key, ¬Declares faces "north" key := declared?_eq_none_iff.1 (by decide +kernel)
  have hkey : FaceKey c "odd" "north" "odd_top" (some .undeclaredFace) :=
    ⟨some faces, "north", hselects, .firstDeclared hnone rfl⟩
  have hindex : ¬IsIndex 5 images := by decide
  have hchooses : Chooses c "odd_top" 5 ⟨"textures/odd", some "no colour"⟩ :=
    .first rfl hindex rfl
  have himage : NoColor Rat "no colour" := by decide +kernel
  have htint : NoColor Rat "none either" := by decide +kernel
  obtain ⟨-, -, hpath, hrecords, hnotes, -⟩ := resolveTexture_records c ofBlock
  obtain ⟨-, -, -, -, -, hquiet⟩ := resolveTexture_records c ofPath
  have hface : FallsBack c ofBlock .undeclaredFace := ⟨_, _, hkey, .inl rfl⟩
  exact ⟨hface,
    ⟨_, _, hkey, .inr (.unknownVariant rfl (List.cons_ne_nil _ _) hindex (by decide))⟩,
    ⟨_, _, hkey, .inr (.imageTint rfl hchooses rfl himage)⟩,
    ⟨_, _, hkey, .inr (.keyTint rfl hchooses (fun _ h => Option.some.inj h ▸ himage) rfl htint)⟩,
    ⟨_, _, hkey, .chosen hchooses⟩, hrecords, hnotes.2 ⟨_, hface⟩, rfl, hquiet _ rfl⟩

end BlockModels
