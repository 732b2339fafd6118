import BlockModels.Catalog.Reader
import BlockModels.Proofs.Json.Alike

/-!
# Rule tables do not depend on the order of members

Every part of the rule tables is read the same from data with its members in another order, so the
tables are (`Catalog.respects_ofJson?`). Textures and tints, which have several forms, look at the
members of an object themselves: they count those of a name (`Json.rel_uniqueMember?`).
-/

namespace BlockModels

open Json (Respects Alike)

/-! ## Templates -/

/-- Pairs of numbers are lists, which have an order of their own. -/
theorem Vec2.respects_ofJson? : Respects Vec2.ofJson? := Json.respects_float?.list?.bind _

/-- Vectors are lists, which have an order of their own. -/
theorem Vec3.respects_ofJson? : Respects Vec3.ofJson? := Json.respects_float?.list?.bind _

/-- The value of a state has no members. -/
theorem StateValue.respects_ofJson? : Respects StateValue.ofJson? := by
  intro j k h
  cases h <;> rfl

/-- The fields of a template are looked up by their names. -/
theorem Template.respects_ofJson? : Respects Template.ofJson? := by
  refine Json.respects_record fun f g h => ?_
  simp only [h.optional? Vec2.respects_ofJson?, h.optional? Vec3.respects_ofJson?,
    h.optional? Json.respects_string?, h.optional? Json.respects_string?.table?,
    h.optional? Vec2.respects_ofJson?.table?, h.optional? StateValue.respects_ofJson?.table?,
    h.optional? Json.respects_int64?, h.optional? Json.respects_bool?,
    h.optional? Json.respects_canonical?.list?.table?, h.optional? Json.respects_nameSet?]

/-! ## Patterns and states -/

/-- A pattern is a text. -/
theorem NamePattern.respects_ofJson? : Respects NamePattern.ofJson? :=
  Json.respects_string?.bind _

section

variable {β : Type} {read : Json → Option β}

/-- Rules by pattern are pairs in a list, whose order counts, of a pattern and something that is
read the same. -/
theorem respects_patternRules? (h : Respects read) : Respects (patternRules? read) :=
  (NamePattern.respects_ofJson?.pair? h).list?

/-- A table by state and value is read the same if its entries are. -/
theorem StateTable.respects_ofJson? (h : Respects read) : Respects (StateTable.ofJson? read) :=
  h.table?.table?

end

/-- Rotation rules are read the same. -/
theorem RotationRules.respects_ofJson? : Respects RotationRules.ofJson? := by
  have hread := StateTable.respects_ofJson? Vec3.respects_ofJson?
  refine Json.respects_record fun f g h => ?_
  simp only [h.withDefault? hread, h.withDefault? hread.table?,
    h.withDefault? (respects_patternRules? hread)]

/-- Variants by state are read the same. -/
theorem VariantTable.respects_ofJson? : Respects VariantTable.ofJson? := by
  refine Json.respects_record fun f g h => ?_
  simp only [h.withDefault? Json.respects_bool?,
    h.withDefault? (StateTable.respects_ofJson? Json.respects_int64?)]

/-- Variant rules are read the same, in each of their tables. -/
theorem VariantRules.respects_ofJson? : Respects VariantRules.ofJson? := by
  have hread := VariantTable.respects_ofJson?
  refine Json.respects_record fun f g h => ?_
  simp only [h.withDefault? Json.respects_int64?.table?, h.withDefault? hread,
    h.withDefault? hread.table?, h.withDefault? (respects_patternRules? hread)]

/-! ## Textures and tints -/

/-- The textures of the faces are read the same in both of their forms. -/
theorem FaceTable.respects_ofJson? : Respects FaceTable.ofJson? := by
  intro j k h
  have htable := Json.respects_string?.table? j k h
  cases h <;> first | rfl | exact congrArg (Option.map FaceTable.perFace) htable

/-- Members that are looked for are found once, more than once or not at all in either order. -/
theorem Json.rel_uniqueMember? {members members' : List (String × Json)}
    (hnodup : (members.map (·.1)).Nodup) (hnodup' : (members'.map (·.1)).Nodup)
    (hnames : ∀ k, k ∈ members.map (·.1) ↔ k ∈ members'.map (·.1))
    (h : ∀ k j j', (k, j) ∈ members → (k, j') ∈ members' → Alike j j') (names : List String) :
    Option.Rel (Option.Rel Alike) (uniqueMember? names members) (uniqueMember? names members') := by
  have hperm : ((members.filter fun m => names.contains m.1).map (·.1)).Perm
      ((members'.filter fun m => names.contains m.1).map (·.1)) := by
    have hmem : ∀ (l : List (String × Json)) (k : String),
        k ∈ (l.filter fun m => names.contains m.1).map (·.1) ↔
          names.contains k = true ∧ k ∈ l.map (·.1) := by
      intro l k
      simp only [List.mem_map, List.mem_filter]
      constructor
      · rintro ⟨m, ⟨hm, hk⟩, rfl⟩
        exact ⟨hk, m, hm, rfl⟩
      · rintro ⟨hk, m, hm, rfl⟩
        exact ⟨m, ⟨hm, hk⟩, rfl⟩
    refine (List.perm_ext_iff_of_nodup (hnodup.sublist (List.filter_sublist.map _))
      (hnodup'.sublist (List.filter_sublist.map _))).2 fun k => ?_
    rw [hmem, hmem, hnames]
  have hfound : ∀ m ∈ members.filter fun m => names.contains m.1,
      ∀ m' ∈ members'.filter fun m => names.contains m.1, m.1 = m'.1 → Alike m.2 m'.2 :=
    fun m hm m' hm' heq => h m.1 m.2 m'.2 (List.mem_of_mem_filter hm)
      (heq ▸ List.mem_of_mem_filter hm')
  have hlength := hperm.length_eq
  unfold uniqueMember?
  generalize members.filter _ = found at *
  generalize members'.filter _ = found' at *
  match found, found', hlength with
  | [], [], _ => exact .some .none
  | [m], [m'], _ =>
    have hname : m.1 = m'.1 := (List.cons.inj (List.perm_singleton.1 hperm)).1
    exact .some (.some (hfound m List.mem_cons_self m' List.mem_cons_self hname))
  | _ :: _ :: _, _ :: _ :: _, _ => exact .none

/-- The members that a terrain texture looks for are read the same. -/
theorem TerrainVariant.respects_ofJson? : Respects TerrainVariant.ofJson? := by
  intro j k h
  cases h with
  | @obj members members' hnodup hnodup' hnames hmembers =>
    have hunique := Json.rel_uniqueMember? hnodup hnodup' hnames hmembers
    refine bind_eq_of_rel (hunique ["path"]) fun path path' hpath => ?_
    have hstring : path.bind Json.string? = path'.bind Json.string? :=
      bind_eq_of_rel hpath Json.respects_string?
    refine congr (congrArg Option.bind hstring) (funext fun text => ?_)
    refine bind_eq_of_rel (hunique ["tint_color"]) fun color color' hcolor => ?_
    cases hcolor with
    | none => rfl
    | some hjk => exact congrArg (fun o => Option.bind o _) (Json.respects_string?.orNull? _ _ hjk)
  | _ => rfl

/-- The variants under `textures` are those of the one member of this name. -/
theorem wrappedVariants?_eq (members : List (String × Json)) (count : Nat) :
    wrappedVariants? members count = (Table.lookup "textures" members).bind fun j =>
      if count = 1 then terrainVariants? j else none := by
  induction members with
  | nil => rfl
  | cons m rest ih =>
    rw [wrappedVariants?, Table.lookup]
    by_cases hk : m.1 = "textures"
    · rw [if_pos hk, if_pos hk.symm]
      rfl
    · rw [if_neg hk, if_neg (Ne.symm hk), ih]

/-- The variants of a terrain texture are read the same, whether there is one or a list. -/
theorem respects_terrainVariants? : Respects terrainVariants? := by
  intro j k h
  induction h with
  | arr hlength hitems _ =>
    rw [terrainVariants?, terrainVariants?]
    exact mapM_eq_of_zip hlength fun p hp =>
      TerrainVariant.respects_ofJson? p.1 p.2 (hitems p hp)
  | @obj members members' hnodup hnodup' hnames hmembers ih =>
    have hcount : members.countP (·.1 == "textures") = members'.countP (·.1 == "textures") := by
      have hcount : ∀ l : List (String × Json), (l.map (·.1)).Nodup →
          l.countP (·.1 == "textures") = if "textures" ∈ l.map (·.1) then 1 else 0 :=
        fun l hl => (List.countP_map ..).symm.trans hl.count
      rw [hcount _ hnodup, hcount _ hnodup']
      exact if_congr (hnames _) rfl rfl
    have hwrapped : wrappedVariants? members (members.countP (·.1 == "textures")) =
        wrappedVariants? members' (members'.countP (·.1 == "textures")) := by
      rw [wrappedVariants?_eq, wrappedVariants?_eq, hcount]
      refine bind_eq_of_rel (Json.rel_lookup hnames ih _) fun j j' hread => ?_
      rw [hread]
    have hvariant := TerrainVariant.respects_ofJson? _ _ (.obj hnodup hnodup' hnames hmembers)
    rw [terrainVariants?, terrainVariants?, hvariant, hwrapped]
  | _ => rfl

/-- The members that a tint rule looks for are read the same. -/
theorem TintRule.respects_ofJson? : Respects TintRule.ofJson? := by
  intro j k h
  cases h with
  | @obj members members' hnodup hnodup' hnames hmembers =>
    have hunique := Json.rel_uniqueMember? hnodup hnodup' hnames hmembers
    refine bind_eq_of_rel (hunique ["color"]) fun color color' hcolor => ?_
    have hstring : color.bind Json.string? = color'.bind Json.string? :=
      bind_eq_of_rel hcolor Json.respects_string?
    refine congr (congrArg Option.bind hstring) (funext fun text => ?_)
    refine bind_eq_of_rel (hunique ["tint_like_png", "tintLikePng"]) fun flag flag' hflag => ?_
    cases hflag with
    | none => rfl
    | some hjk => exact congrArg (fun o => Option.bind o _) (Json.respects_bool? _ _ hjk)
  | _ => rfl

/-! ## All tables -/

/-- All rule tables are read the same. -/
theorem Catalog.respects_ofJson? : Respects Catalog.ofJson? := by
  refine Json.respects_record fun f g h => ?_
  simp only [h.withDefault? Json.respects_string?.table?,
    h.withDefault? (respects_patternRules? Json.respects_string?),
    h.withDefault? Template.respects_ofJson?.list?.table?,
    h.withDefault? RotationRules.respects_ofJson?, h.withDefault? VariantRules.respects_ofJson?,
    h.withDefault? respects_terrainVariants?.whole?.table?,
    h.withDefault? FaceTable.respects_ofJson?.table?, h.withDefault? Json.respects_nameSet?,
    h.withDefault? TintRule.respects_ofJson?.whole?.table?,
    h.withDefault? Json.respects_float?.table?,
    h.withDefault? (Json.respects_nat? maxUnsigned32).table?]

end BlockModels
