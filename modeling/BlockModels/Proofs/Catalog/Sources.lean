import BlockModels.Proofs.Catalog.Bundles
import BlockModels.Proofs.Catalog.Unordered
import BlockModels.Proofs.Json.Documents
import Mathlib

/-!
# Bundles and documents

A document that maps the names of the tables of a bundle to the contents of their files has the
same rules as the bundle (`IsDocumentOf.ofJson?_eq`), so the rules of files are read the same from
everywhere (`IsReadEverywhere`). The document nests one level deeper than the files, and the depth
of nesting that has a value is limited: a file that is nested to the limit may have rules although
the document has none (`rules_of_nestedShape`).
-/

namespace BlockModels

/-- The members of a document that maps the name of each table to the content of its file. -/
structure IsDocumentOf (members : List (String × Json)) (files : List TextFile) : Prop where
  nodup : (members.map (·.1)).Nodup
  mem_iff {k : String} {j : Json} : (k, j) ∈ members ↔
    ∃ text, (k, text) ∈ files.filterMap TextFile.table? ∧ Json.parse? text = some j

/-- A table is read from a text as its canonical value. -/
theorem readTable?_eq_some_iff {text : String} {j' : Json} :
    readTable? text = some j' ↔ ∃ j, Json.parse? text = some j ∧ j.canonical? = some j' := by
  rw [readTable?, readDocument, ← Option.bind_eq_some_iff]
  cases (Json.parse? text).bind Json.canonical? <;> exact Iff.rfl

/-- The names of tables are plain. -/
theorem isPlainName_of_mem {files : List TextFile} {t : String × String}
    (ht : t ∈ files.filterMap TextFile.table?) : Json.IsPlainName t.1 := by
  have hnames : ∀ name ∈ Catalog.tableNames, Json.IsPlainName name := by decide
  obtain ⟨f, -, htable⟩ := List.mem_filterMap.1 ht
  obtain ⟨hpath, rfl⟩ := TextFile.table?_eq_some_iff.1 htable
  exact hnames _ (List.contains_iff_mem.1 (Bool.and_eq_true_iff.1 hpath).2)

/-- The members of a document with these texts. -/
def documentMembers (texts : List (String × String)) : List (String × Json) :=
  texts.map fun t => (t.1, (Json.parse? t.2).getD .null)

section

variable {files : List TextFile} {tables : TableSet}
  (h : collect? (files.filterMap TextFile.table?) = some tables)

include h

/-- Each table that is collected has been read. -/
theorem exists_readTable? {t : String × String} (ht : t ∈ files.filterMap TextFile.table?) :
    ∃ j', readTable? t.2 = some j' := by
  obtain ⟨hnodup, hlookup⟩ := lookup_of_collect? h
  have hread := hlookup t.1
  rw [(Table.lookup_eq_some_iff hnodup).2 ht] at hread
  obtain ⟨j', -, hj'⟩ := Option.map_eq_some_iff.1 hread
  exact ⟨j', hj'.symm⟩

/-- The tables that are collected are those that were read. -/
theorem mem_entries_iff {k : String} {j' : Json} : (k, j') ∈ tables.entries ↔
    ∃ text, (k, text) ∈ files.filterMap TextFile.table? ∧ readTable? text = some j' := by
  obtain ⟨hnodup, hlookup⟩ := lookup_of_collect? h
  rw [← Table.get?_eq_some_iff, ← Option.map_inj_right (f := some) fun _ _ => Option.some.inj,
    hlookup, Option.map_some, Option.map_eq_some_iff]
  simp only [Table.lookup_eq_some_iff hnodup]

/-- A document is the collected tables, but for the order of members. -/
theorem IsDocumentOf.alike {members : List (String × Json)} (hdocument : IsDocumentOf members files)
    (hdistinct : ∀ m ∈ members, m.2.Distinct) :
    Json.Alike (.obj members) (.obj tables.entries) := by
  have hnames : ∀ {β : Type} {l : List (String × β)} {k : String},
      k ∈ l.map (·.1) ↔ ∃ b, (k, b) ∈ l := by simp
  refine .obj hdocument.nodup tables.nodup_keys (fun k => ?_) fun k j j' hj hj' => ?_
  · rw [hnames, hnames]
    constructor
    · rintro ⟨j, hj⟩
      obtain ⟨text, htext, -⟩ := hdocument.mem_iff.1 hj
      obtain ⟨j', hread⟩ := exists_readTable? h htext
      exact ⟨j', (mem_entries_iff h).2 ⟨text, htext, hread⟩⟩
    · rintro ⟨j', hj'⟩
      obtain ⟨text, htext, hread⟩ := (mem_entries_iff h).1 hj'
      obtain ⟨j, hparse, -⟩ := readTable?_eq_some_iff.1 hread
      exact ⟨j, hdocument.mem_iff.2 ⟨text, htext, hparse⟩⟩
  · obtain ⟨text, htext, hparse⟩ := hdocument.mem_iff.1 hj
    obtain ⟨text', htext', hread⟩ := (mem_entries_iff h).1 hj'
    obtain ⟨j'', hparse', hcanonical⟩ := readTable?_eq_some_iff.1 hread
    have hlookup : ∀ {text}, (k, text) ∈ files.filterMap TextFile.table? → _ :=
      fun {_} => (Table.lookup_eq_some_iff (lookup_of_collect? h).1).2
    obtain rfl : text = text' := Option.some.inj ((hlookup htext).symm.trans (hlookup htext'))
    obtain rfl : j = j'' := Option.some.inj (hparse.symm.trans hparse')
    exact (hdistinct _ hj).alike hcanonical

variable {texts : List (String × String)} (hperm : texts.Perm (files.filterMap TextFile.table?))

include hperm

/-- The texts of tables that are collected have values. -/
theorem parse?_of_collect? {t : String × String} (ht : t ∈ texts) :
    Json.parse? t.2 = some ((Json.parse? t.2).getD .null) := by
  obtain ⟨j', hread⟩ := exists_readTable? h (hperm.mem_iff.1 ht)
  obtain ⟨j, hparse, -⟩ := readTable?_eq_some_iff.1 hread
  rw [hparse, Option.getD_some]

/-- Tables that are collected can be put in one document. -/
theorem isDocumentOf_documentMembers : IsDocumentOf (documentMembers texts) files where
  nodup := by
    rw [documentMembers, List.map_map]
    exact (hperm.map _).nodup_iff.2 (lookup_of_collect? h).1
  mem_iff {k j} := by
    constructor
    · intro hm
      obtain ⟨t, ht, heq⟩ := List.mem_map.1 hm
      cases heq
      exact ⟨t.2, hperm.mem_iff.1 ht, parse?_of_collect? h hperm ht⟩
    · rintro ⟨text, htext, hparse⟩
      exact List.mem_map.2 ⟨(k, text), hperm.mem_iff.2 htext, by rw [hparse]; rfl⟩

/-- The document in which collected tables are written, in whatever order, can be read if none of
them is nested to the limit. -/
theorem parse?_documentText_of_collect? (hne : tables.isEmpty = false)
    (hnests : ∀ f ∈ files, isTablePath (routePath f.1) = true →
      ∀ j, Json.parse? f.2 = some j → j.NestsWithin (Json.maxDepth - 1)) :
    Json.parse? (Json.documentText texts) = some (.obj (documentMembers texts)) := by
  refine Json.parse?_documentText (List.forall₂_map_left_iff.2 (List.forall₂_same.2 ?_)) ?_
  · intro t ht
    have hparse := parse?_of_collect? h hperm ht
    obtain ⟨f, hf, htable⟩ := List.mem_filterMap.1 (hperm.mem_iff.1 ht)
    obtain ⟨hpath, rfl⟩ := TextFile.table?_eq_some_iff.1 htable
    exact ⟨rfl, isPlainName_of_mem (hperm.mem_iff.1 ht), hparse, hnests f hf hpath _ hparse⟩
  · rintro rfl
    rw [List.nil_perm.1 hperm] at h
    cases h
    cases hne

end

/-- Rules that are read from tables are read from one object. -/
theorem ofJson?_of_ofTables {tables : TableSet} {c : Catalog Float}
    (h : (Catalog.ofTables tables).toOption = some c) :
    Catalog.ofJson? (.obj tables.entries) = some c := by
  rw [Catalog.ofTables] at h
  split at h
  · cases h
  · cases hread : Catalog.ofJson? (.obj tables.entries) with
    | none =>
      rw [hread] at h
      cases h
    | some c' =>
      rw [hread] at h
      exact congrArg some (Option.some.inj h)

/-- The rules of the files are those of the document. -/
theorem IsDocumentOf.ofJson?_eq {members : List (String × Json)} {files : List TextFile}
    (h : IsDocumentOf members files) (hdistinct : ∀ m ∈ members, m.2.Distinct)
    {c : Catalog Float} (hc : bundle? files = some c) :
    Catalog.ofJson? (.obj members) = some c := by
  obtain ⟨tables, htables, hread⟩ := Option.bind_eq_some_iff.1 hc
  rw [Catalog.respects_ofJson? _ _ (h.alike htables hdistinct), ofJson?_of_ofTables hread]

/-! ## Rules of files -/

/-- The rules of files are read the same from everywhere. -/
structure IsReadEverywhere (files : List TextFile) : Prop where
  /-- Archives and folders that are made of the files, in whatever order, hold them. -/
  held : IsFileSet files → ∀ listed : List TextFile, listed.Perm files →
    RuleSource.Holds files
      (.entries (.ofList (listed.map fun f => (routePath f.1, .plain (.text f.2))))) ∧
    ∀ path, RuleSource.Holds files
      (.place path (.folder (.ofList (listed.map fun f => (routePath f.1, .text f.2)))))
  agree {s s' : RuleSource} : s.Holds files → s'.Holds files →
    s.rules.toOption = s'.rules.toOption
  fails_iff {s : RuleSource} : s.Holds files → (s.rules.toOption = none ↔ BundleTrouble files)
  /-- Files that are not named after tables do not count. -/
  others {files' : List TextFile} {s s' : RuleSource} :
    (files.filter fun f => isTablePath (routePath f.1)).Perm
      (files'.filter fun f => isTablePath (routePath f.1)) →
    s.Holds files → s'.Holds files' → s.rules.toOption = s'.rules.toOption
  /-- There is data that maps the names of the tables to the contents of the files. -/
  mapped {s : RuleSource} {c : Catalog Float} : s.Holds files → s.rules = .ok c →
    ∃ members, IsDocumentOf members files
  /-- If no table repeats a name in an object, that data has the same rules, and so has a document
  that holds it. -/
  document {s : RuleSource} {c : Catalog Float} : s.Holds files → s.rules = .ok c →
    (∀ f ∈ files, isTablePath (routePath f.1) = true →
      ∀ j, Json.parse? f.2 = some j → j.Distinct) →
    ∀ {members : List (String × Json)}, IsDocumentOf members files →
      Catalog.ofJson? (.obj members) = some c ∧
      ∀ {text path : String}, Json.parse? text = some (.obj members) →
        isDocumentName (lastStep path) = true →
        (RuleSource.place path (.file (.text text))).rules = .ok c
  /-- The tables can be written in one document, in whatever order, if none of them is nested to the
  limit. -/
  written {s : RuleSource} {c : Catalog Float} : s.Holds files → s.rules = .ok c →
    (∀ f ∈ files, isTablePath (routePath f.1) = true → ∀ j, Json.parse? f.2 = some j →
      j.Distinct ∧ j.NestsWithin (Json.maxDepth - 1)) →
    ∀ {texts : List (String × String)} {path : String},
      texts.Perm (files.filterMap TextFile.table?) → isDocumentName (lastStep path) = true →
      (RuleSource.place path (.file (.text (Json.documentText texts)))).rules = .ok c

/-- Files that are not named after tables are left out. -/
theorem bundle?_of_perm {files files' : List TextFile}
    (h : (files.filter fun f => isTablePath (routePath f.1)).Perm
      (files'.filter fun f => isTablePath (routePath f.1))) : bundle? files = bundle? files' := by
  have hfilter : ∀ files : List TextFile, files.filterMap TextFile.table? =
      (files.filter fun f => isTablePath (routePath f.1)).filterMap TextFile.table? := by
    intro files
    rw [List.filterMap_filter]
    refine List.filterMap_congr fun f _ => ?_
    split
    · rfl
    · next hpath => exact if_neg hpath
  rw [bundle?, bundle?, hfilter files, hfilter files', collect?_of_perm (h.filterMap _)]

/-- A file whose name is that of a document is read as one. -/
theorem rules_document (text : String) {path : String}
    (hname : isDocumentName (lastStep path) = true) :
    (RuleSource.place path (.file (.text text))).rules = Catalog.ofDocument text := by
  rw [RuleSource.rules]
  simp only [Place.rules, hname, if_true]
  rfl

/-- Data that maps the names of the tables to the contents of the files has the same rules. -/
theorem IsDocumentOf.ofJson?_of_rules {files : List TextFile} {s : RuleSource} {c : Catalog Float}
    (h : s.Holds files) (hrules : s.rules = .ok c)
    (hdistinct : ∀ f ∈ files, isTablePath (routePath f.1) = true →
      ∀ j, Json.parse? f.2 = some j → j.Distinct)
    {members : List (String × Json)} (hdocument : IsDocumentOf members files) :
    Catalog.ofJson? (.obj members) = some c := by
  have hbundle := h.toOption_rules.symm.trans (toOption_eq_some_iff.2 hrules)
  refine hdocument.ofJson?_eq (fun m hm => ?_) hbundle
  obtain ⟨text, htext, hread⟩ := hdocument.mem_iff.1 hm
  obtain ⟨f, hf, htable⟩ := List.mem_filterMap.1 htext
  obtain ⟨hpath, heq⟩ := TextFile.table?_eq_some_iff.1 htable
  exact hdistinct f hf hpath m.2 ((Prod.mk.inj heq).2 ▸ hread)

/-- Rules are those of tables that are collected. -/
theorem RuleSource.Holds.exists_collect? {files : List TextFile} {s : RuleSource}
    {c : Catalog Float} (h : s.Holds files) (hrules : s.rules = .ok c) : ∃ tables : TableSet,
      collect? (files.filterMap TextFile.table?) = some tables ∧ tables.isEmpty = false := by
  have hbundle := h.toOption_rules.symm.trans (toOption_eq_some_iff.2 hrules)
  obtain ⟨tables, htables, hread⟩ := Option.bind_eq_some_iff.1 hbundle
  refine ⟨tables, htables, Bool.eq_false_iff.2 fun hempty => ?_⟩
  rw [toOption_ofTables_eq_none_iff.2 (.inl hempty)] at hread
  cases hread

/-- A document with an object that holds rules is read as them. -/
theorem rules_of_parse? {text path : String} {members : List (String × Json)} {c : Catalog Float}
    (hparse : Json.parse? text = some (.obj members))
    (hof : Catalog.ofJson? (.obj members) = some c)
    (hname : isDocumentName (lastStep path) = true) :
    (RuleSource.place path (.file (.text text))).rules = .ok c := by
  rw [rules_document text hname, Catalog.ofDocument, hparse, Option.bind_some, hof]

/-- The rules of files are the same from an archive in whatever order, from a folder, and from a
document that maps the names of the tables to the contents of the files. -/
theorem isReadEverywhere_bundle (files : List TextFile) : IsReadEverywhere files where
  held hfiles listed hperm :=
    ⟨.entries (hfiles.holds_archive hperm), fun _ => .folder (hfiles.holds_folder hperm)⟩
  agree h h' := h.toOption_rules.trans h'.toOption_rules.symm
  fails_iff h := h.toOption_rules ▸ bundle?_eq_none_iff
  others hperm h h' :=
    h.toOption_rules.trans ((bundle?_of_perm hperm).trans h'.toOption_rules.symm)
  mapped h hrules := by
    obtain ⟨tables, htables, -⟩ := h.exists_collect? hrules
    exact ⟨_, isDocumentOf_documentMembers htables (.refl _)⟩
  document h hrules hdistinct members hdocument := by
    have hof := hdocument.ofJson?_of_rules h hrules hdistinct
    exact ⟨hof, fun {_ _} hparse hname => rules_of_parse? hparse hof hname⟩
  written h hrules hcontents texts path hperm hname := by
    obtain ⟨tables, htables, hne⟩ := h.exists_collect? hrules
    have hdocument := isDocumentOf_documentMembers htables hperm
    have hof := hdocument.ofJson?_of_rules h hrules fun f hf hpath j hj =>
      (hcontents f hf hpath j hj).1
    have hparse := parse?_documentText_of_collect? htables hperm hne fun f hf hpath j hj =>
      (hcontents f hf hpath j hj).2
    exact rules_of_parse? hparse hof hname

/-- Two tables and a file that is none, from an archive, a folder and a document. -/
theorem isReadEverywhere_bundle_of_tints :
    let tints := "\x7b\"stone\":\"#ff0000\"\x7d"
    let remaps := "\x7b\"slab\":\"stone\",\"brick\":\"stone\"\x7d"
    ∃ c, (RuleSource.entries (.ofList [("readme.txt", .plain (.text "two tables")),
        ("data/block_name_remaps.json", .plain (.text remaps)),
        ("tints.json", .plain (.text tints))])).rules = .ok c ∧
      (RuleSource.place "rules" (.folder (.ofList [("tints.json", .text tints),
        ("data/block_name_remaps.json", .text remaps),
        ("readme.txt", .text "two tables")]))).rules = .ok c ∧
      (RuleSource.place "rules.json" (.file (.text (Json.documentText
        [("block_name_remaps", remaps), ("tints", tints)])))).rules = .ok c := by
  intro tints remaps
  let files : List TextFile :=
    [(["tints.json"], tints), (["data", "block_name_remaps.json"], remaps),
      (["readme.txt"], "two tables")]
  have laws := isReadEverywhere_bundle files
  have hfiles : IsFileSet files := by decide
  have hfolder := (laws.held hfiles files (.refl files)).2 "rules"
  have harchive := (laws.held hfiles files.reverse files.reverse_perm).1
  obtain ⟨c, hc⟩ : ∃ c, bundle? files = some c :=
    Option.isSome_iff_exists.1 (by decide +kernel)
  have hrules := toOption_eq_some_iff.1 (hfolder.toOption_rules.trans hc)
  have htables : [("block_name_remaps", remaps), ("tints", tints)].Perm
      (files.filterMap TextFile.table?) := by decide +kernel
  have hcontents : ∀ f ∈ files, isTablePath (routePath f.1) = true →
      ∀ j, Json.parse? f.2 = some j → j.Distinct ∧ j.NestsWithin (Json.maxDepth - 1) := by
    have htints : Json.parse? tints = some (.obj [("stone", .str "#ff0000")]) := by cbv
    have hremaps : Json.parse? remaps =
        some (.obj [("slab", .str "stone"), ("brick", .str "stone")]) := by cbv
    refine List.forall_mem_cons.2 ⟨fun _ j hj => ?_, List.forall_mem_cons.2 ⟨fun _ j hj => ?_,
      List.forall_mem_singleton.2 fun hpath => absurd hpath (by decide)⟩⟩
    · obtain rfl := Option.some.inj (htints.symm.trans hj)
      exact ⟨.obj (by decide) (List.forall_mem_singleton.2 (.str _)),
        .obj (List.forall_mem_singleton.2 (.str _))⟩
    · obtain rfl := Option.some.inj (hremaps.symm.trans hj)
      refine ⟨.obj (by decide) ?_, .obj ?_⟩
      all_goals exact List.forall_mem_cons.2 ⟨.str _, List.forall_mem_singleton.2 (.str _)⟩
  refine ⟨c, ?_, hrules, laws.written hfolder hrules hcontents htables (by decide)⟩
  have hagree := laws.agree harchive hfolder
  rw [hrules] at hagree
  exact toOption_eq_some_iff.1 hagree

/-- A shape with a value that is so many arrays, one in the other. -/
def nestedShape (depth : Nat) : String :=
  "\x7b\"block\":[\x7b\"arrays\":\x7b\"a\":" ++
    String.ofList (List.replicate depth '[' ++ List.replicate depth ']') ++ "\x7d\x7d]\x7d"

/-- A file that is nested to the limit has rules, but the document that maps the name of its table
to its content is nested too deep. -/
theorem rules_of_nestedShape :
    (∃ c, (RuleSource.place "rules" (.folder (.ofList
      [("shape_geometry.json", .text (nestedShape 123))]))).rules = .ok c) ∧
    (RuleSource.place "rules.json" (.file (.text (Json.documentText
      [("shape_geometry", nestedShape 123)])))).rules = .error .malformedData := by
  constructor
  · have hfiles : IsFileSet [(["shape_geometry.json"], nestedShape 123)] :=
      ⟨by decide, fun hf => by rw [List.mem_singleton.1 hf]; exact List.cons_ne_nil _ _,
        fun hf => by rw [List.mem_singleton.1 hf]; decide⟩
    have hrules := (hfiles.holds_folder (.refl _)).toOption_rules "rules"
    obtain ⟨c, hc⟩ : ∃ c, bundle? [(["shape_geometry.json"], nestedShape 123)] = some c :=
      Option.isSome_iff_exists.1 (by decide +kernel)
    exact ⟨c, toOption_eq_some_iff.1 (hrules.trans hc)⟩
  · have hnone : (Json.parse? (Json.documentText [("shape_geometry", nestedShape 123)])).bind
        Catalog.ofJson? = none := Option.isNone_iff_eq_none.1 (by decide +kernel)
    rw [rules_document _ (by decide), Catalog.ofDocument, hnone]

end BlockModels
