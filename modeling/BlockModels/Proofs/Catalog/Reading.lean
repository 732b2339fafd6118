import BlockModels.Catalog.Reader
import BlockModels.Proofs.Table.Reading

/-!
# Catalogs that were read

Data has no way to say that a template comes with outer rotations, so in a catalog that was read no
template has any (`Catalog.isPlain_of_ofJson?`).
-/

namespace BlockModels

namespace Json

variable {β : Type} {read : Json → Option β} {j : Json}

/-- An item of a list was read. -/
theorem exists_of_mem_list? {l : List β} (h : j.list? read = some l) {b : β} (hb : b ∈ l) :
    ∃ j', read j' = some b := by
  cases j with
  | arr items =>
    obtain ⟨j', -, hj'⟩ := exists_of_mem_mapM h hb
    exact ⟨j', hj'⟩
  | _ => cases h

/-- A table that is read, or missing and then empty. -/
theorem exists_of_withDefault? {f : Fields} {name : String} {t : Table β}
    (h : f.withDefault? name (Json.table? read) .empty = some t) {k : String} {b : β}
    (hb : t.get? k = some b) : ∃ j', read j' = some b := by
  rw [Fields.withDefault?] at h
  split at h
  · obtain ⟨_, -, m, -, hm⟩ := exists_mem_of_table? h hb
    exact ⟨m.2, hm⟩
  · cases h
    cases hb

end Json

/-- Outer rotations are no field that is read. -/
theorem Template.extraRotations_of_ofJson? {j : Json} {t : Template Float}
    (h : Template.ofJson? j = some t) : t.extraRotations = [] := by
  iterate 25 obtain ⟨_, -, h⟩ := Option.bind_eq_some_iff.1 h
  cases h
  rfl

/-- No template of the catalog comes with outer rotations. -/
def Catalog.IsPlain {α : Type} (c : Catalog α) : Prop :=
  ∀ shape templates, c.geometry.get? shape = some templates →
    ∀ t ∈ templates, t.extraRotations = []

/-- A catalog that was read has templates without outer rotations only. -/
theorem Catalog.isPlain_of_ofJson? {j : Json} {c : Catalog Float}
    (h : Catalog.ofJson? j = some c) : c.IsPlain := by
  have hgeometry : ∃ f : Json.Fields, f.withDefault? "shape_geometry"
      (Json.table? (Json.list? Template.ofJson?)) .empty = some c.geometry := by
    obtain ⟨f, -, h⟩ := Option.bind_eq_some_iff.1 h
    iterate 2 obtain ⟨_, -, h⟩ := Option.bind_eq_some_iff.1 h
    obtain ⟨geometry, hgeometry, h⟩ := Option.bind_eq_some_iff.1 h
    iterate 12 obtain ⟨_, -, h⟩ := Option.bind_eq_some_iff.1 h
    cases h
    exact ⟨f, hgeometry⟩
  obtain ⟨f, hf⟩ := hgeometry
  intro shape templates hshape t ht
  obtain ⟨j', hj'⟩ := Json.exists_of_withDefault? hf hshape
  obtain ⟨j'', hj''⟩ := Json.exists_of_mem_list? hj' ht
  exact t.extraRotations_of_ofJson? hj''

end BlockModels
