import BlockModels.Catalog.Bundle
import BlockModels.Proofs.Files.Holding
import BlockModels.Proofs.Lists
import BlockModels.Proofs.Table.Reading

/-!
# Collecting the tables of a bundle

Of a bundle count the documents that are named after tables (`TextFile.table?`). Adding them one
after the other comes to reading them all, if none is named after the same table as another
(`foldlM_addText?`), so their order does not matter (`collect?_of_perm`). The name of a document is
that of the last step to it, whatever stands before it (`isTablePath_routePath`).
-/

namespace BlockModels

/-! ## Tables of files -/

/-- The path is that of a document that is named after a table. -/
def isTablePath (path : String) : Bool :=
  Text.endsIn ".json".toList path.toList && Catalog.tableNames.contains (tableStem path)

/-- The name of the table that a file holds, and its text. -/
def TextFile.table? (f : TextFile) : Option (String × String) :=
  if isTablePath (routePath f.1) then some (tableStem (routePath f.1), f.2) else none

/-- The value of a document, if it has one. -/
def readTable? (text : String) : Option Json := (readDocument text).toOption

/-- The tables with these texts, if none comes twice and all can be read. -/
def collect? (tables : List (String × String)) : Option TableSet :=
  if (tables.map (·.1)).Nodup then Table.read? readTable? tables else none

/-- The rules of files. -/
def bundle? (files : List TextFile) : Option (Catalog Float) :=
  (collect? (files.filterMap TextFile.table?)).bind fun tables => (Catalog.ofTables tables).toOption

/-! ## Collecting tables -/

/-- Adds a table with its text. -/
def TableSet.addText? (tables : TableSet) (t : String × String) : Option TableSet :=
  if tables.contains t.1 then none else (readTable? t.2).map (tables.insert t.1)

/-- Adding tables one after the other reads them all, if no name comes twice. -/
theorem foldlM_addText? (tables : TableSet) (texts : List (String × String)) :
    texts.foldlM TableSet.addText? tables =
      if (texts.map (·.1)).Nodup ∧ ∀ t ∈ texts, tables.contains t.1 = false then
        (Table.readEntries? readTable? texts).map tables.insertAll
      else none := by
  induction texts generalizing tables with
  | nil => rfl
  | cons t rest ih =>
    have hinsert : ∀ j, (∀ u ∈ rest, (tables.insert t.1 j).contains u.1 = false) ↔
        t.1 ∉ rest.map (·.1) ∧ ∀ u ∈ rest, tables.contains u.1 = false := by
      intro j
      have hcontains : ∀ k, (tables.insert t.1 j).contains k = false ↔
          k ≠ t.1 ∧ tables.contains k = false := by
        intro k
        rw [Table.contains, Table.get?_insert]
        by_cases hk : k = t.1
        · simp [hk]
        · simp [hk, Table.contains]
      simp only [hcontains, List.mem_map, not_exists, not_and]
      exact ⟨fun h => ⟨fun u hu => (h u hu).1, fun u hu => (h u hu).2⟩,
        fun h u hu => ⟨h.1 u hu, h.2 u hu⟩⟩
    rw [List.foldlM_cons, TableSet.addText?, Table.readEntries?_cons]
    cases hknown : tables.contains t.1 with
    | true =>
      rw [if_pos rfl, if_neg]
      · rfl
      · intro h
        rw [h.2 t List.mem_cons_self] at hknown
        cases hknown
    | false =>
      cases readTable? t.2 with
      | none => exact (ite_self _).symm
      | some j =>
        refine (ih (tables.insert t.1 j)).trans ?_
        rw [Option.bind_some, Option.map_map]
        refine if_congr ?_ rfl rfl
        rw [hinsert, List.map_cons, List.nodup_cons, List.forall_mem_cons]
        tauto

/-- Tables that are added one by one, to none at first, are collected. -/
theorem foldlM_addText?_empty (texts : List (String × String)) :
    texts.foldlM TableSet.addText? .empty = collect? texts := by
  rw [foldlM_addText?, collect?]
  refine if_congr ?_ rfl rfl
  exact and_iff_left fun _ _ => rfl

/-- The name of the table of a document, and its text. -/
def namedTable? (file : BundleFile) : Option (String × String) :=
  if Catalog.tableNames.contains (tableStem file.1) then some (tableStem file.1, file.2) else none

/-- A document is added if it is named after a table. -/
theorem toOption_add (tables : TableSet) (file : BundleFile) :
    (tables.add file).toOption = (namedTable? file).elim (some tables) tables.addText? := by
  unfold TableSet.add namedTable?
  by_cases hname : Catalog.tableNames.contains (tableStem file.1) = true
  · rw [if_pos hname, Option.elim_some, TableSet.addText?, readTable?]
    simp only [hname, Bool.not_true, Bool.false_eq_true, if_false]
    split
    · rfl
    · cases readDocument file.2 <;> rfl
  · rw [if_neg hname, Option.elim_none]
    simp only [hname, Bool.not_false, if_true]
    rfl

/-- Documents that are added one by one are collected. -/
theorem toOption_addAll (files : List BundleFile) :
    (TableSet.addAll .empty files).toOption = collect? (files.filterMap namedTable?) := by
  rw [TableSet.addAll, toOption_foldlM (fun file _ tables => toOption_add tables file),
    foldlM_addText?_empty]

/-- Which tables are collected does not depend on their order. -/
theorem collect?_of_perm {texts texts' : List (String × String)} (h : texts.Perm texts') :
    collect? texts = collect? texts' := by
  have hnames := h.map (·.1)
  rw [collect?, collect?]
  by_cases hnodup : (texts.map (·.1)).Nodup
  · have hnodup' := hnames.nodup_iff.1 hnodup
    rw [if_pos hnodup, if_pos hnodup']
    refine Table.read?_congr hnodup hnodup' fun k => congrArg _ (Option.ext fun text => ?_)
    rw [Table.lookup_eq_some_iff hnodup, Table.lookup_eq_some_iff hnodup', h.mem_iff]
  · rw [if_neg hnodup, if_neg fun hnodup' => hnodup (hnames.nodup_iff.2 hnodup')]

/-! ## Names of documents -/

/-- What stands behind the last slash of either kind. -/
def nameChars (cs : List Char) : List Char :=
  (cs.reverse.takeWhile fun c => c != '/' && c != '\\').reverse

/-- The table of a document has the last step of its path as a name, without ending. -/
theorem tableStem_eq (path : String) : tableStem path =
    String.ofList (withoutEnding ".json".toList (nameChars path.toList).length
      (nameChars path.toList)) := rfl

/-- What stands before a slash does not count for the last step. -/
theorem nameChars_append_slash (a b : List Char) : nameChars (a ++ '/' :: b) = nameChars b := by
  rw [nameChars, List.reverse_append, List.reverse_cons, List.append_assoc, List.singleton_append,
    Text.takeWhile_append_mark (by decide), nameChars]

/-- Slashes of one kind count as the other. -/
theorem nameChars_map (cs : List Char) :
    nameChars (cs.map fun c => if c = '\\' then '/' else c) = nameChars cs := by
  have htake : ∀ x : List Char, (x.map fun c => if c = '\\' then '/' else c).takeWhile
      (fun c => c != '/' && c != '\\') = x.takeWhile fun c => c != '/' && c != '\\' := by
    intro x
    induction x with
    | nil => rfl
    | cons c x ih =>
      rw [List.map_cons, List.takeWhile_cons, List.takeWhile_cons, ih]
      by_cases hc : c = '\\'
      · subst hc
        rfl
      · rw [if_neg hc]
  rw [nameChars, ← List.map_reverse, htake, nameChars]

/-- What stands before a slash does not count for an ending without slash. -/
theorem endsIn_append_slash {ending : List Char} (h : '/' ∉ ending) (a b : List Char) :
    Text.endsIn ending (a ++ '/' :: b) = Text.endsIn ending b := by
  rw [Text.endsIn, Text.endsIn, Bool.eq_iff_iff, List.isSuffixOf_iff_suffix,
    List.isSuffixOf_iff_suffix]
  constructor
  · intro hsuffix
    refine List.suffix_of_suffix_length_le hsuffix
      ((List.suffix_cons _ _).trans (List.suffix_append _ _)) ?_
    by_contra hlength
    have hmem : '/' :: b <:+ ending := by
      refine List.suffix_of_suffix_length_le (List.suffix_append _ _) hsuffix ?_
      rw [List.length_cons]
      omega
    exact h (hmem.mem List.mem_cons_self)
  · intro hsuffix
    exact hsuffix.trans ((List.suffix_cons _ _).trans (List.suffix_append _ _))

/-- A path is named after a table as its last step is. -/
theorem isTablePath_routePath (before : List String) (s : String) :
    isTablePath (routePath (before ++ [s])) = isTablePath s ∧
      tableStem (routePath (before ++ [s])) = tableStem s := by
  have hslash : '/' ∉ ".json".toList := by decide
  have hstem : ∀ path : String, nameChars path.toList = nameChars s.toList →
      tableStem path = tableStem s := fun path h => by rw [tableStem_eq, tableStem_eq, h]
  rcases exists_toList_routePath before s with heq | ⟨chars, heq⟩
  · rw [String.toList_inj.1 heq]
    exact ⟨rfl, rfl⟩
  · have hname := hstem (routePath (before ++ [s])) (by rw [heq, nameChars_append_slash])
    rw [isTablePath, isTablePath, hname, heq, endsIn_append_slash hslash]
    exact ⟨rfl, rfl⟩

/-- A document that is not a table by its whole name has no name. -/
theorem isTablePath_eq (s : String) :
    isTablePath s = (isDocumentName s && Catalog.tableNames.contains (tableStem s)) := by
  rw [isTablePath, isDocumentName]
  by_cases hs : s = ".json"
  · subst hs
    decide
  · rw [bne_iff_ne.2 hs, Bool.and_true]

/-- A name joined to a directory stands behind a slash. -/
theorem exists_joinPath (directory name : String) :
    ∃ chars, (joinPath directory name).toList = chars ++ '/' :: name.toList := by
  unfold joinPath
  split
  · next hlast =>
    obtain ⟨chars, hchars⟩ := List.getLast?_eq_some_iff.1 hlast
    exact ⟨chars, by rw [String.toList_append, hchars, List.append_assoc]; rfl⟩
  · have hslash : "/".toList = ['/'] := by decide
    exact ⟨directory.toList, by
      rw [String.toList_append, String.toList_append, hslash, List.append_assoc]; rfl⟩

end BlockModels
