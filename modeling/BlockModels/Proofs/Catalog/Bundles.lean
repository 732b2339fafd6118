import BlockModels.Proofs.Catalog.Collecting

/-!
# Bundles in archives and folders

A bundle is a set of files with routes. Whether an archive holds it, in whatever order, or a
folder, the rules are the same (`RuleSource.Holds.toOption_rules`): those of `bundle?`, which puts
the tables together name by name. What can be wrong with a bundle is listed in `BundleTrouble`, and
nothing else is (`bundle?_eq_none_iff`).
-/

namespace BlockModels

/-! ## Archives -/

/-- The name of the table in an entry, and its text. -/
def entryTable? (e : String × Member) : Option (String × String) :=
  if isDirectoryName e.1 then none
  else if isTablePath e.1 then e.2.text?.map fun text => (tableStem e.1, text) else none

/-- The name of a directory is not that of a document. -/
theorem endsIn_json_of_isDirectoryName {name : String} (h : isDirectoryName name = true) :
    Text.endsIn ".json".toList name.toList = false := by
  rw [Bool.eq_false_iff]
  intro hends
  obtain ⟨before, hname⟩ := List.isSuffixOf_iff_suffix.1 hends
  have hlast : name.toList.getLast? = some 'n' := by
    rw [← hname, List.getLast?_append_of_ne_nil _ (by decide)]
    decide
  rw [isDirectoryName, hlast] at h
  cases h

/-- Data is read as its text, if it has one. -/
theorem FileData.toOption_readText (data : FileData) : data.readText.toOption = data.text? := by
  rw [FileData.readText]
  cases data.text? <;> rfl

/-- An entry of an archive is added if it is named like a table. -/
theorem toOption_addEntry {e : String × Member} {text : String} (htext : e.2.text? = some text)
    (tables : TableSet) : (tables.addEntry e).toOption =
      (if isTablePath e.1 then some (tableStem e.1, text) else none).elim (some tables)
        tables.addText? := by
  unfold TableSet.addEntry isTablePath
  by_cases hends : Text.endsIn ".json".toList e.1.toList = true
  · simp only [hends, Bool.not_true, Bool.false_eq_true, if_false, Bool.true_and, toOption_bind,
      FileData.toOption_readText, ← Option.bind_assoc]
    rw [← Member.text?, htext, Option.bind_some, toOption_add, namedTable?]
  · simp only [hends, Bool.not_false, if_true, Bool.false_and, Bool.false_eq_true, if_false]
    rfl

/-- An archive of files is read as their tables, in the order of the entries. -/
theorem toOption_foldFiles {a : Archive} (hopen : ∀ e ∈ a.entries, e.2.canOpen = true)
    (htext : ∀ e ∈ a.entries, isDirectoryName e.1 = false → ∃ text, e.2.text? = some text) :
    (a.foldFiles TableSet.addEntry .empty).toOption =
      collect? (a.entries.filterMap entryTable?) := by
  rw [Archive.foldFiles, ← foldlM_addText?_empty]
  refine toOption_foldlM (fun e he tables => ?_) _
  rw [entryTable?]
  simp only [hopen e he, Bool.not_true, Bool.false_eq_true, if_false]
  cases hdirectory : isDirectoryName e.1 with
  | true => rfl
  | false =>
    obtain ⟨text, htext⟩ := htext e he hdirectory
    simp only [Bool.false_eq_true, if_false]
    exact (toOption_addEntry htext tables).trans (by rw [htext]; rfl)

/-- The tables of an archive are those of its files. -/
theorem Archive.Holds.perm_tables {a : Archive} {files : List TextFile} (h : a.Holds files) :
    (a.entries.filterMap entryTable?).Perm (files.filterMap TextFile.table?) := by
  obtain ⟨packed, directories, hperm, hpacked, hdirectories⟩ := h.entries
  refine (hperm.filterMap _).trans (List.Perm.of_eq ?_)
  have hnone : directories.filterMap entryTable? = [] :=
    List.filterMap_eq_nil_iff.2 fun e he => if_pos (hdirectories e he)
  rw [List.filterMap_append, hnone, List.append_nil]
  refine filterMap_eq_of_forall₂ hpacked ?_
  rintro e f ⟨hpath, htext⟩
  rw [entryTable?, TextFile.table?, hpath, htext]
  split
  · next hdirectory =>
    rw [isTablePath, endsIn_json_of_isDirectoryName hdirectory]
    rfl
  · rfl

/-! ## Folders -/

/-- The path under which a document of a folder is known. -/
def documentPath (path : String) (route : List String) : String :=
  String.ofList ((joinPath path (routePath route)).toList.map fun c => if c = '\\' then '/' else c)

/-- The table of a document does not depend on where its folder is. -/
theorem tableStem_documentPath (path : String) (route : List String) :
    tableStem (documentPath path route) = tableStem (routePath route) := by
  obtain ⟨chars, hchars⟩ := exists_joinPath path (routePath route)
  have hname : nameChars (documentPath path route).toList = nameChars (routePath route).toList := by
    rw [documentPath, String.toList_ofList, nameChars_map, hchars, nameChars_append_slash]
  rw [tableStem_eq, tableStem_eq, hname]

/-- The last step of a route is the name of a document, and that document is named after a table, if
the path is that of a table. -/
theorem namedTable?_documentPath (path : String) (route : List String) (text : String) :
    (if isDocumentName (route.getLast?.getD "") then namedTable? (documentPath path route, text)
      else none) = TextFile.table? (route, text) := by
  rcases List.eq_nil_or_concat route with rfl | ⟨before, s, rfl⟩
  · have hname : ¬isDocumentName "" = true := by decide
    have hpath : ¬isTablePath (routePath []) = true := by decide
    rw [TextFile.table?, if_neg hpath]
    exact if_neg hname
  · rw [List.concat_eq_append, List.getLast?_concat, Option.getD_some, namedTable?,
      tableStem_documentPath, TextFile.table?]
    obtain ⟨htable, hstem⟩ := isTablePath_routePath before s
    simp only [htable, hstem, isTablePath_eq, Bool.and_eq_true, ite_and]

/-- The documents of a folder in which every file holds a text. -/
theorem Folder.documents_eq {t : Folder} (htext : ∀ e ∈ t.files, e.2.text?.isSome = true)
    (path : String) : t.documents path =
      .ok ((t.sortedFiles.filter fun e => isDocumentName (e.1.getLast?.getD "")).map
        fun e => (documentPath path e.1, e.2.text?.getD "")) := by
  refine mapM_eq_pure fun e he => ?_
  have hmem : e ∈ t.files := List.mem_mergeSort.1 (List.mem_of_mem_filter he)
  obtain ⟨text, htext⟩ := Option.isSome_iff_exists.1 (htext e hmem)
  rw [FileData.readText, htext]
  rfl

/-- The name of the table in a file of a folder, and its text. -/
def fileTable? (e : List String × FileData) : Option (String × String) :=
  TextFile.table? (e.1, e.2.text?.getD "")

/-- The documents of a folder are its tables, in their order. -/
theorem filterMap_documents (path : String) (files : List (List String × FileData)) :
    (((files.filter fun e => isDocumentName (e.1.getLast?.getD "")).map
      fun e => (documentPath path e.1, e.2.text?.getD "")).filterMap namedTable?) =
        files.filterMap fileTable? := by
  rw [List.filterMap_map, List.filterMap_filter]
  refine List.filterMap_congr fun e _ => ?_
  rw [Function.comp_apply, namedTable?_documentPath, fileTable?]

/-- The tables of a folder are those of its files. -/
theorem Folder.Holds.perm_tables {t : Folder} {files : List TextFile} (h : t.Holds files)
    (path : String) : ∃ documents, t.documents path = .ok documents ∧
      (documents.filterMap namedTable?).Perm (files.filterMap TextFile.table?) := by
  obtain ⟨listed, hperm, hlisted⟩ := h
  have htexts : ∀ e ∈ t.files, e.2.text?.isSome = true := by
    intro e he
    obtain ⟨f, -, -, htext⟩ := exists_of_mem_right hlisted.flip (hperm.mem_iff.1 he)
    rw [htext]
    rfl
  have htables : listed.filterMap fileTable? = files.filterMap TextFile.table? := by
    refine filterMap_eq_of_forall₂ hlisted ?_
    rintro e f ⟨hroute, htext⟩
    refine congrArg TextFile.table? (Prod.ext hroute ?_)
    rw [htext]
    rfl
  refine ⟨_, documents_eq htexts path, ?_⟩
  rw [filterMap_documents, ← htables]
  exact ((List.mergeSort_perm _ _).trans hperm).filterMap _

/-! ## Everywhere -/

/-- Where rules are read from: the entries of an archive, or what a path leads to. -/
inductive RuleSource where
  | entries (a : Archive)
  | place (path : String) (p : Place)

namespace RuleSource

/-- The rules that are read. -/
def rules : RuleSource → Except Failure (Catalog Float)
  | .entries a => a.rules
  | .place path p => Place.rules path (some p)

/-- The files can be read from there: from an archive of them, also if it is in a file, or from a
folder. A file that is named as a document is not taken as an archive. -/
inductive Holds (files : List TextFile) : RuleSource → Prop
  | entries {a : Archive} (h : a.Holds files) : Holds files (.entries a)
  | archive {path : String} {data : FileData} {a : Archive}
    (hname : isDocumentName (lastStep path) = false) (hdata : data.archive? = some a)
    (h : a.Holds files) : Holds files (.place path (.file data))
  | folder {path : String} {t : Folder} (h : t.Holds files) : Holds files (.place path (.folder t))

end RuleSource

/-- An archive has the rules of the files that it holds, whatever their order. -/
theorem Archive.Holds.toOption_rules {a : Archive} {files : List TextFile} (h : a.Holds files) :
    a.rules.toOption = bundle? files := by
  have htext : ∀ e ∈ a.entries, isDirectoryName e.1 = false → ∃ text, e.2.text? = some text := by
    obtain ⟨packed, directories, hperm, hpacked, hdirectories⟩ := h.entries
    intro e he hname
    rcases List.mem_append.1 (hperm.mem_iff.1 he) with he | he
    · obtain ⟨f, -, -, htext⟩ := exists_of_mem_right hpacked.flip he
      exact ⟨f.2, htext⟩
    · rw [hdirectories e he] at hname
      cases hname
  rw [Archive.rules, toOption_bind, toOption_foldFiles (fun e he => h.canOpen he) htext,
    collect?_of_perm h.perm_tables]
  rfl

/-- A folder has the rules of the files that it holds. -/
theorem Folder.Holds.toOption_rules {t : Folder} {files : List TextFile} (h : t.Holds files)
    (path : String) : (t.rules path).toOption = bundle? files := by
  obtain ⟨documents, hdocuments, hperm⟩ := h.perm_tables path
  rw [Folder.rules, hdocuments]
  change (TableSet.addAll .empty documents >>= _).toOption = _
  rw [toOption_bind, toOption_addAll, collect?_of_perm hperm]
  rfl

/-- From everywhere the rules are those of the files. -/
theorem RuleSource.Holds.toOption_rules {s : RuleSource} {files : List TextFile}
    (h : s.Holds files) : s.rules.toOption = bundle? files := by
  cases h with
  | entries h => exact h.toOption_rules
  | archive hname hdata h =>
    have hrules : ∀ path data, isDocumentName (lastStep path) = false →
        Place.rules path (some (.file data)) = data.rules := fun path data hname => by
      simp only [Place.rules, hname, Bool.false_eq_true, if_false]
    rw [← h.toOption_rules, RuleSource.rules, hrules _ _ hname, FileData.rules, hdata]
  | folder h => exact h.toOption_rules _

/-! ## What goes wrong -/

/-- What is wrong with files that have no rules. -/
inductive BundleTrouble (files : List TextFile) : Prop
  /-- No document is named after a table. -/
  | noTable (h : ∀ f ∈ files, isTablePath (routePath f.1) = false)
  /-- Two documents are named after the same table. -/
  | twice {f g : TextFile} (h : [f, g].Sublist files) (hf : isTablePath (routePath f.1) = true)
    (hg : isTablePath (routePath g.1) = true)
    (heq : tableStem (routePath f.1) = tableStem (routePath g.1))
  /-- A document that is named after a table has no value. -/
  | unreadable {f : TextFile} (h : f ∈ files) (hf : isTablePath (routePath f.1) = true)
    (hread : readTable? f.2 = none)
  /-- The tables do not have the forms of rule tables. -/
  | unfit {tables : TableSet} (h : collect? (files.filterMap TextFile.table?) = some tables)
    (hread : Catalog.ofJson? (.obj tables.entries) = none)

/-- A file is a table if its path is named like one. -/
theorem TextFile.table?_eq_some_iff {f : TextFile} {t : String × String} : f.table? = some t ↔
    isTablePath (routePath f.1) = true ∧ t = (tableStem (routePath f.1), f.2) := by
  rw [TextFile.table?]
  split
  · next h => simp [h, eq_comm]
  · next h => simp [h]

/-- A name comes twice among the tables if two files have it. -/
theorem nodup_tables_iff {files : List TextFile} :
    ((files.filterMap TextFile.table?).map (·.1)).Nodup ↔
      ∀ {f g}, [f, g].Sublist files → isTablePath (routePath f.1) = true →
        isTablePath (routePath g.1) = true →
          tableStem (routePath f.1) ≠ tableStem (routePath g.1) := by
  rw [List.Nodup, List.pairwise_map, List.pairwise_filterMap, List.pairwise_iff_forall_sublist]
  simp only [TextFile.table?_eq_some_iff]
  constructor
  · exact fun h f g hfg hf hg => h hfg _ ⟨hf, rfl⟩ _ ⟨hg, rfl⟩
  · rintro h f g hfg _ ⟨hf, rfl⟩ _ ⟨hg, rfl⟩
    exact h hfg hf hg

/-- The tables that are collected have the names of the documents. -/
theorem lookup_of_collect? {texts : List (String × String)} {tables : TableSet}
    (h : collect? texts = some tables) : (texts.map (·.1)).Nodup ∧
      ∀ k, (tables.get? k).map some = (Table.lookup k texts).map readTable? := by
  rw [collect?] at h
  split at h
  · next hnodup => exact ⟨hnodup, (Table.read?_eq_some_iff hnodup).1 h⟩
  · cases h

/-- The text of each table is read, if the tables are collected. -/
theorem get?_of_collect? {files : List TextFile} {tables : TableSet}
    (h : collect? (files.filterMap TextFile.table?) = some tables) {f : TextFile} (hf : f ∈ files)
    (hpath : isTablePath (routePath f.1) = true) :
    (tables.get? (tableStem (routePath f.1))).map some = some (readTable? f.2) := by
  obtain ⟨hnodup, hlookup⟩ := lookup_of_collect? h
  have hmem : (tableStem (routePath f.1), f.2) ∈ files.filterMap TextFile.table? :=
    List.mem_filterMap.2 ⟨f, hf, TextFile.table?_eq_some_iff.2 ⟨hpath, rfl⟩⟩
  rw [hlookup, (Table.lookup_eq_some_iff hnodup).2 hmem]
  rfl

/-- If tables are not collected, two have one name or one has no value. -/
theorem BundleTrouble.of_collect? {files : List TextFile}
    (h : collect? (files.filterMap TextFile.table?) = none) : BundleTrouble files := by
  rw [collect?] at h
  split at h
  · by_cases hreads : ∀ t ∈ files.filterMap TextFile.table?, (readTable? t.2).isSome = true
    · obtain ⟨entries, hentries⟩ := Table.exists_readEntries?_eq_some hreads
      rw [Table.read?, hentries] at h
      cases h
    · push Not at hreads
      obtain ⟨t, ht, hnone⟩ := hreads
      obtain ⟨f, hf, htable⟩ := List.mem_filterMap.1 ht
      obtain ⟨hpath, rfl⟩ := TextFile.table?_eq_some_iff.1 htable
      exact .unreadable hf hpath (Option.not_isSome_iff_eq_none.1 hnone)
  · next hnodup =>
    rw [nodup_tables_iff] at hnodup
    push Not at hnodup
    obtain ⟨f, g, hfg, hf, hg, heq⟩ := hnodup
    exact .twice hfg hf hg heq

/-- Tables have no rules if there are none or if they do not have the forms of rule tables. -/
theorem toOption_ofTables_eq_none_iff {tables : TableSet} :
    (Catalog.ofTables tables).toOption = none ↔
      tables.isEmpty = true ∨ Catalog.ofJson? (.obj tables.entries) = none := by
  rw [Catalog.ofTables]
  split
  · next hempty => exact iff_of_true rfl (.inl hempty)
  · next hempty =>
    cases Catalog.ofJson? (.obj tables.entries) with
    | none => exact iff_of_true rfl (.inr rfl)
    | some c => exact iff_of_false nofun (by simp [hempty])

/-- If no tables are collected, no document is named after one. -/
theorem BundleTrouble.of_isEmpty {files : List TextFile} {tables : TableSet}
    (h : collect? (files.filterMap TextFile.table?) = some tables)
    (hempty : tables.isEmpty = true) : BundleTrouble files := by
  refine .noTable fun f hf => Bool.eq_false_iff.2 fun hpath => ?_
  have hget := get?_of_collect? h hf hpath
  rw [Table.get?, List.isEmpty_iff.1 hempty] at hget
  cases hget

/-- There are no rules exactly if something is wrong. -/
theorem bundle?_eq_none_iff {files : List TextFile} :
    bundle? files = none ↔ BundleTrouble files := by
  rw [bundle?]
  constructor
  · intro h
    cases hcollect : collect? (files.filterMap TextFile.table?) with
    | none => exact .of_collect? hcollect
    | some tables =>
      rw [hcollect, Option.bind_some, toOption_ofTables_eq_none_iff] at h
      exact h.elim (.of_isEmpty hcollect) (.unfit hcollect)
  · intro h
    cases h with
    | noTable h =>
      have hnil : files.filterMap TextFile.table? = [] :=
        List.filterMap_eq_nil_iff.2 fun f hf => by rw [TextFile.table?, h f hf]; rfl
      rw [hnil]
      rfl
    | twice hfg hf hg heq =>
      rw [collect?, if_neg fun hnodup => nodup_tables_iff.1 hnodup hfg hf hg heq]
      rfl
    | unreadable hf hpath hread =>
      refine Option.bind_eq_none_iff.2 fun tables htables => ?_
      have hget := get?_of_collect? htables hf hpath
      rw [hread] at hget
      obtain ⟨_, -, hsome⟩ := Option.map_eq_some_iff.1 hget
      cases hsome
    | unfit hcollect hread =>
      rw [hcollect]
      exact toOption_ofTables_eq_none_iff.2 (.inr hread)

end BlockModels
