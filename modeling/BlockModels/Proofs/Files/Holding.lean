import BlockModels.Files.Archive
import BlockModels.Files.Folder
import BlockModels.Proofs.Text.Cutting
import Mathlib.Data.List.Forall2
import Mathlib.Data.List.Nodup

/-!
# What archives and folders hold

A set of texts with routes to them can be held by an archive, in any order of the entries, and by a
folder (`Archive.Holds`, `Folder.Holds`). Archives and folders that are made of the texts hold them
(`IsFileSet.holds_archive`, `IsFileSet.holds_folder`): the steps of a path that is made of a route
are the route.
-/

namespace BlockModels

/-- A text, and the steps that lead to it. -/
abbrev TextFile := List String × String

/-- The path made of steps. -/
def routePath (route : List String) : String := String.intercalate "/" route

/-- The text that a member holds, if it holds one. -/
def Member.text? (m : Member) : Option String := m.read.toOption.bind FileData.text?

/-- Every entry of the archive can be opened; apart from directories, the entries are the files, in
some order. -/
structure Archive.Holds (a : Archive) (files : List TextFile) : Prop where
  canOpen {e : String × Member} : e ∈ a.entries → e.2.canOpen = true
  entries : ∃ packed directories, a.entries.Perm (packed ++ directories) ∧
    List.Forall₂ (fun e f => e.1 = routePath f.1 ∧ e.2.text? = some f.2) packed files ∧
    ∀ e ∈ directories, isDirectoryName e.1 = true

/-- The files of the folder are the given ones, in some order. -/
def Folder.Holds (t : Folder) (files : List TextFile) : Prop :=
  ∃ listed, t.files.Perm listed ∧
    List.Forall₂ (fun e f => e.1 = f.1 ∧ e.2.text? = some f.2) listed files

/-! ## Steps of paths -/

/-- The name of a step: it leads somewhere, one level down. -/
def IsStep (s : String) : Prop := s ≠ "" ∧ s ≠ "." ∧ s ≠ ".." ∧ '/' ∉ s.toList

instance (s : String) : Decidable (IsStep s) :=
  inferInstanceAs (Decidable (s ≠ "" ∧ s ≠ "." ∧ s ≠ ".." ∧ '/' ∉ s.toList))

/-- Routes that lead to different files, each by the names of its steps. -/
structure IsFileSet (files : List TextFile) : Prop where
  nodup : (files.map (·.1)).Nodup
  ne_nil {f : TextFile} : f ∈ files → f.1 ≠ []
  isStep {f : TextFile} : f ∈ files → ∀ s ∈ f.1, IsStep s

instance (files : List TextFile) : Decidable (IsFileSet files) :=
  decidable_of_iff ((files.map (·.1)).Nodup ∧ (∀ f ∈ files, f.1 ≠ []) ∧
      ∀ f ∈ files, ∀ s ∈ f.1, IsStep s)
    ⟨fun h => ⟨h.1, fun {f} => h.2.1 f, fun {f} => h.2.2 f⟩,
      fun h => ⟨h.nodup, fun _ => h.ne_nil, fun _ => h.isStep⟩⟩

theorem toList_routePath (route : List String) :
    (routePath route).toList = ['/'].intercalate (route.map String.toList) := by
  have hslash : "/".toList = ['/'] := by decide
  rw [routePath, String.toList_intercalate, hslash]

/-- A path is followed by the steps that it is made of. -/
theorem steps_routePath {route : List String} (hne : route ≠ []) (h : ∀ s ∈ route, IsStep s) :
    Folder.steps (routePath route) = route := by
  rw [Folder.steps, toList_routePath, Text.splitAt_intercalate]
  · rw [List.map_map, List.map_congr_left (g := id), List.map_id]
    exact fun s _ => String.ofList_toList
  · exact fun hnil => hne (List.map_eq_nil_iff.1 hnil)
  · intro part hpart
    obtain ⟨s, hs, rfl⟩ := List.mem_map.1 hpart
    exact (h s hs).2.2.2

/-- A path ends with its last step, after a slash unless that is the only one. -/
theorem exists_toList_routePath (before : List String) (s : String) :
    (routePath (before ++ [s])).toList = s.toList ∨
      ∃ chars, (routePath (before ++ [s])).toList = chars ++ '/' :: s.toList := by
  rw [toList_routePath]
  induction before with
  | nil => exact .inl List.intercalate_singleton
  | cons first rest ih =>
    have hne : (rest ++ [s]).map String.toList ≠ [] := by simp
    rw [List.cons_append, List.map_cons, List.intercalate_cons_of_ne_nil hne]
    right
    rcases ih with heq | ⟨chars, heq⟩
    · exact ⟨first.toList, by rw [heq, List.append_assoc, List.singleton_append]⟩
    · refine ⟨first.toList ++ '/' :: chars, ?_⟩
      rw [heq, List.append_assoc, List.append_assoc]
      rfl

/-- A path that is made of steps does not end in a slash. -/
theorem getLast?_routePath {route : List String} (hne : route ≠ []) (h : ∀ s ∈ route, IsStep s) :
    (routePath route).toList.getLast? ≠ some '/' := by
  obtain ⟨before, s, rfl⟩ := List.eq_nil_or_concat route |>.resolve_left hne
  rw [List.concat_eq_append] at h ⊢
  obtain ⟨hempty, -, -, hslash⟩ := h s (List.mem_append_right _ List.mem_cons_self)
  have hchars : s.toList ≠ [] := fun hnil => hempty (String.toList_eq_nil_iff.1 hnil)
  have hlast : s.toList.getLast? ≠ some '/' := fun hlast =>
    hslash (List.mem_of_getLast? hlast)
  rcases exists_toList_routePath before s with heq | ⟨chars, heq⟩
  · rwa [heq]
  · rwa [heq, List.getLast?_append_cons, List.getLast?_cons_of_ne_nil hchars]

/-! ## Making them -/

namespace IsFileSet

variable {files : List TextFile} (hfiles : IsFileSet files)

include hfiles

theorem perm {files' : List TextFile} (h : files'.Perm files) : IsFileSet files' where
  nodup := (h.map _).nodup_iff.2 hfiles.nodup
  ne_nil hf := hfiles.ne_nil (h.mem_iff.1 hf)
  isStep hf := hfiles.isStep (h.mem_iff.1 hf)

theorem nodup_paths : (files.map fun f => routePath f.1).Nodup := by
  refine List.Nodup.of_map Folder.steps ?_
  rw [List.map_map, List.map_congr_left (g := fun f : TextFile => f.1)]
  · exact hfiles.nodup
  · exact fun f hf => steps_routePath (hfiles.ne_nil hf) (hfiles.isStep hf)

end IsFileSet

theorem replaceEntry_of_notMem {e : String × Member} {entries : List (String × Member)}
    (h : e.1 ∉ entries.map (·.1)) : Archive.replaceEntry e entries = entries ++ [e] := by
  induction entries with
  | nil => rfl
  | cons d rest ih =>
    obtain ⟨hne, hrest⟩ := not_or.1 (List.mem_cons.not.1 h)
    rw [Archive.replaceEntry, if_neg (Ne.symm hne), ih hrest]
    rfl

/-- Entries of different names stay in order. -/
theorem Archive.entries_ofList {files : List (String × Member)} (h : (files.map (·.1)).Nodup) :
    (Archive.ofList files).entries = files := by
  have hfold : ∀ entries : List (String × Member), ((entries ++ files).map (·.1)).Nodup →
      files.foldl (fun entries e => replaceEntry e entries) entries = entries ++ files := by
    clear h
    induction files with
    | nil => exact fun entries _ => (List.append_nil entries).symm
    | cons e rest ih =>
      intro entries hnodup
      have hnew : e.1 ∉ entries.map (·.1) := by
        rw [List.map_append, List.map_cons] at hnodup
        intro hmem
        exact (List.nodup_append.1 hnodup).2.2 _ hmem _ List.mem_cons_self rfl
      rw [List.foldl_cons, replaceEntry_of_notMem hnew, ih, List.append_assoc]
      · rfl
      · rwa [List.append_assoc]
  exact hfold [] h

/-- A file on a new route is added behind the others. -/
theorem Folder.files_add {t : Folder} {route : List String} (hne : route ≠ [])
    (h : ∀ s ∈ route, IsStep s) (hnew : route ∉ t.files.map (·.1)) (data : FileData) :
    (t.add (routePath route) data).files = t.files ++ [(route, data)] := by
  have hroute : (steps (routePath route)).filter (fun s => s ≠ "" ∧ s ≠ ".") = route := by
    rw [steps_routePath hne h, List.filter_eq_self]
    exact fun s hs => decide_eq_true ⟨(h s hs).1, (h s hs).2.1⟩
  have hothers : t.files.filter (fun e => e.1 ≠ route) = t.files := by
    rw [List.filter_eq_self]
    exact fun e he => decide_eq_true fun heq => hnew (heq ▸ List.mem_map_of_mem (f := (·.1)) he)
  rw [Folder.add, if_neg (getLast?_routePath hne h), hroute, hothers]

/-- Files on different routes stay in order. -/
theorem Folder.files_ofList {files : List TextFile} (hfiles : IsFileSet files) :
    (Folder.ofList (files.map fun f => (routePath f.1, .text f.2))).files =
      files.map fun f => (f.1, .text f.2) := by
  have hfold : ∀ t : Folder, (t.files.map (·.1) ++ files.map (·.1)).Nodup →
      ((files.map fun f => (routePath f.1, FileData.text f.2)).foldl
        (fun t e => t.add e.1 e.2) t).files = t.files ++ files.map fun f => (f.1, .text f.2) := by
    have hsteps : ∀ f ∈ files, f.1 ≠ [] ∧ ∀ s ∈ f.1, IsStep s :=
      fun f hf => ⟨hfiles.ne_nil hf, hfiles.isStep hf⟩
    clear hfiles
    induction files with
    | nil => exact fun t _ => (List.append_nil t.files).symm
    | cons f rest ih =>
      intro t hnodup
      obtain ⟨⟨hne, hstep⟩, hrest⟩ := List.forall_mem_cons.1 hsteps
      have hnew : f.1 ∉ t.files.map (·.1) := fun hmem =>
        (List.nodup_append.1 hnodup).2.2 _ hmem _ List.mem_cons_self rfl
      have hadd := Folder.files_add hne hstep hnew (.text f.2)
      rw [List.map_cons, List.foldl_cons, ih hrest, hadd, List.append_assoc]
      · rfl
      · rwa [hadd, List.map_append, List.append_assoc]
  exact hfold {} hfiles.nodup

namespace IsFileSet

variable {files : List TextFile} (hfiles : IsFileSet files)

include hfiles

/-- An archive of the files, in whatever order they are added. -/
theorem holds_archive {listed : List TextFile} (h : listed.Perm files) :
    (Archive.ofList (listed.map fun f => (routePath f.1, .plain (.text f.2)))).Holds files := by
  have hentries : (Archive.ofList (listed.map fun f => (routePath f.1, .plain (.text f.2)))).entries
      = listed.map fun f => (routePath f.1, .plain (.text f.2)) := by
    refine Archive.entries_ofList ?_
    rw [List.map_map]
    exact (hfiles.perm h).nodup_paths
  constructor
  · intro e he
    rw [hentries] at he
    obtain ⟨f, -, rfl⟩ := List.mem_map.1 he
    rfl
  · refine ⟨files.map fun f => (routePath f.1, .plain (.text f.2)), [], ?_, ?_, nofun⟩
    · rw [hentries, List.append_nil]
      exact h.map _
    · rw [List.forall₂_map_left_iff]
      exact List.forall₂_same.2 fun f _ => ⟨rfl, rfl⟩

/-- A folder of the files, in whatever order they are added. -/
theorem holds_folder {listed : List TextFile} (h : listed.Perm files) :
    (Folder.ofList (listed.map fun f => (routePath f.1, .text f.2))).Holds files := by
  refine ⟨files.map fun f => (f.1, .text f.2), ?_, ?_⟩
  · rw [Folder.files_ofList (hfiles.perm h)]
    exact h.map _
  · rw [List.forall₂_map_left_iff]
    exact List.forall₂_same.2 fun f _ => ⟨rfl, rfl⟩

end IsFileSet

end BlockModels
