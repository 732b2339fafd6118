import BlockModels.Catalog.Bundle
import BlockModels.Proofs.Json.Numbers
import BlockModels.Proofs.Texture.Resolution

/-!
# Opacities that were read

The rules that a path leads to, whether it is a document, a folder of documents or an archive, have
finite opacities (`hasFiniteOpacities_of_rules`), since all numbers in data are finite.
-/

namespace BlockModels

/-- Opacities that are read from finite data are finite. -/
theorem Catalog.hasFiniteOpacities_of_ofJson? {j : Json} (hj : j.IsFinite) {c : Catalog Float}
    (h : Catalog.ofJson? j = some c) : c.HasFiniteOpacities := by
  have htransparency : ∃ f, j.fields? Catalog.tableNames = some f ∧
      f.withDefault? "transparency" (Json.table? Json.float?) .empty = some c.transparency := by
    obtain ⟨f, hf, h⟩ := Option.bind_eq_some_iff.1 h
    iterate 11 obtain ⟨_, -, h⟩ := Option.bind_eq_some_iff.1 h
    obtain ⟨transparency, htransparency, h⟩ := Option.bind_eq_some_iff.1 h
    iterate 3 obtain ⟨_, -, h⟩ := Option.bind_eq_some_iff.1 h
    cases h
    exact ⟨f, hf, htransparency⟩
  obtain ⟨f, hf, htable⟩ := htransparency
  intro name opacity hopacity
  rw [Json.Fields.withDefault?] at htable
  split at htable
  · next found hfound =>
    have hfinite := hj.fields? hf _ (Table.mem_of_lookup_eq_some hfound)
    obtain ⟨j', hj', hread⟩ := hfinite.table? htable hopacity
    exact hj'.float? hread
  · rw [← Option.some.inj htable] at hopacity
    cases hopacity

/-! ## Bundles -/

/-- Every number in the tables is finite. -/
def TableSet.IsFinite (tables : TableSet) : Prop :=
  ∀ stem j, tables.get? stem = some j → j.IsFinite

/-- The numbers of a document are finite. -/
theorem readDocument_isFinite {text : String} {j : Json} (h : readDocument text = .ok j) :
    j.IsFinite := by
  unfold readDocument at h
  split at h
  · next hread =>
    cases h
    obtain ⟨parsed, hparsed, hcanonical⟩ := Option.bind_eq_some_iff.1 hread
    exact Json.isFinite_canonical? parsed (Json.isFinite_of_parse? hparsed) hcanonical
  · cases h

variable {tables tables' : TableSet}

/-- Another finite table keeps the tables finite. -/
theorem TableSet.IsFinite.insert (h : tables.IsFinite) (stem : String) {j : Json}
    (hj : j.IsFinite) : TableSet.IsFinite (tables.insert stem j) := by
  intro stem' j' hget
  rw [Table.get?_insert] at hget
  split at hget
  · cases hget
    exact hj
  · exact h stem' j' hget

/-- A file that is read as a table keeps the tables finite. -/
theorem TableSet.IsFinite.add (h : tables.IsFinite) {file : BundleFile}
    (hadd : tables.add file = .ok tables') : tables'.IsFinite := by
  unfold TableSet.add at hadd
  dsimp only at hadd
  split at hadd
  · cases hadd
    exact h
  split at hadd
  · cases hadd
  · obtain ⟨j, hj, heq⟩ := bind_eq_ok_iff.1 hadd
    cases heq
    exact h.insert _ (readDocument_isFinite hj)

/-- An entry of an archive keeps the tables finite. -/
theorem TableSet.IsFinite.addEntry (h : tables.IsFinite) {e : String × Member}
    (hadd : tables.addEntry e = .ok tables') : tables'.IsFinite := by
  unfold TableSet.addEntry at hadd
  split at hadd
  · cases hadd
    exact h
  · obtain ⟨data, -, hadd⟩ := bind_eq_ok_iff.1 hadd
    obtain ⟨text, -, hadd⟩ := bind_eq_ok_iff.1 hadd
    exact h.add hadd

/-- Rules that are read from finite tables have finite opacities. -/
theorem hasFiniteOpacities_of_ofTables (h : tables.IsFinite) {c : Catalog Float}
    (hc : Catalog.ofTables tables = .ok c) : c.HasFiniteOpacities := by
  unfold Catalog.ofTables at hc
  split at hc
  · cases hc
  split at hc
  · next hread =>
    cases hc
    refine Catalog.hasFiniteOpacities_of_ofJson? (.obj fun m hm => ?_) hread
    exact h m.1 m.2 (Table.get?_eq_some_iff.2 hm)
  · cases hc

/-- No tables have no numbers. -/
theorem TableSet.isFinite_empty : TableSet.IsFinite .empty := by
  intro stem j h
  cases h

/-- The rules in a folder have finite opacities. -/
theorem Folder.hasFiniteOpacities_of_rules {t : Folder} {path : String} {c : Catalog Float}
    (h : t.rules path = .ok c) : c.HasFiniteOpacities := by
  obtain ⟨files, -, h⟩ := bind_eq_ok_iff.1 h
  obtain ⟨tables, htables, h⟩ := bind_eq_ok_iff.1 h
  refine hasFiniteOpacities_of_ofTables ?_ h
  exact invariant_of_foldlM (fun hb hadd => hb.add hadd) TableSet.isFinite_empty htables

/-- The rules in an archive have finite opacities. -/
theorem Archive.hasFiniteOpacities_of_rules {a : Archive} {c : Catalog Float}
    (h : a.rules = .ok c) : c.HasFiniteOpacities := by
  obtain ⟨tables, htables, h⟩ := bind_eq_ok_iff.1 h
  refine hasFiniteOpacities_of_ofTables ?_ h
  refine invariant_of_foldlM (fun {b e b'} hb hstep => ?_) TableSet.isFinite_empty htables
  cases hopen : e.2.canOpen with
  | false =>
    rw [hopen] at hstep
    cases hstep
  | true =>
    rw [hopen] at hstep
    change (if isDirectoryName e.1 then pure b else TableSet.addEntry b e) = _ at hstep
    split at hstep
    · cases hstep
      exact hb
    · exact hb.addEntry hstep

/-- The rules in one document have finite opacities. -/
theorem Catalog.hasFiniteOpacities_of_ofDocument {text : String} {c : Catalog Float}
    (h : Catalog.ofDocument text = .ok c) : c.HasFiniteOpacities := by
  unfold Catalog.ofDocument at h
  split at h
  · next hread =>
    cases h
    obtain ⟨j, hj, hc⟩ := Option.bind_eq_some_iff.1 hread
    exact Catalog.hasFiniteOpacities_of_ofJson? (Json.isFinite_of_parse? hj) hc
  · cases h

/-- The rules that a path leads to have finite opacities. -/
theorem hasFiniteOpacities_of_rules {path : String} {place : Option Place} {c : Catalog Float}
    (h : Place.rules path place = .ok c) : c.HasFiniteOpacities := by
  unfold Place.rules at h
  split at h
  · cases h
  · exact Folder.hasFiniteOpacities_of_rules h
  · split at h
    · obtain ⟨text, -, h⟩ := bind_eq_ok_iff.1 h
      exact Catalog.hasFiniteOpacities_of_ofDocument h
    · unfold FileData.rules at h
      split at h
      · exact Archive.hasFiniteOpacities_of_rules h
      · cases h

end BlockModels
