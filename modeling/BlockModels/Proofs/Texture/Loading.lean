import BlockModels.Proofs.Texture.Resolution

/-!
# Images are loaded once

Many textures may show the same image. It is loaded once for all of them, and what each texture
shows is what it would show if its image were loaded for it alone, whatever the other textures are
and in whatever order the images are loaded (`eachOnce_loadFragments`). There is one note for each
image that is not there or cannot be decoded (`ImageTrouble`), however many textures show it. To
count how often an image is loaded, the same run is done with a way of loading that records the
paths (`recorded`).
-/

namespace BlockModels

/-! ## One image -/

/-- Why there is no image under a path, as the note says. -/
inductive ImageTrouble (find : FileLookup) (path : String) : String → Prop
  | notFound : (∀ e ∈ imageCandidates path, find e.1 = none) →
      ImageTrouble find path ("Image " ++ path ++ " not found, using placeholder")
  /-- The first file that is there decides. -/
  | notDecoded {before after : List (String × ImageFormat)} {name : String} {format : ImageFormat}
      {data : FileData} : imageCandidates path = before ++ (name, format) :: after →
      (∀ e ∈ before, find e.1 = none) → find name = some data → data.picture? format = none →
      ImageTrouble find path ("Failed to decode " ++ name ++ ": " ++ undecodable)

/-- The note on an image. -/
structure IsImageNote (find : FileLookup) (path : String) (note : Diagnostic) : Prop where
  severity_eq : note.severity = .warning
  kind_eq : note.kind = .imageLoad
  message : ImageTrouble find path note.message

/-- The first file that may hold the image of a path. -/
def foundFile? (find : FileLookup) (path : String) : Option (String × ImageFormat × FileData) :=
  (imageCandidates path).findSome? fun (name, format) =>
    (find name).map fun data => (name, format, data)

section

variable {find : FileLookup} {path : String}

theorem foundFile?_eq_none_iff :
    foundFile? find path = none ↔ ∀ e ∈ imageCandidates path, find e.1 = none := by
  rw [foundFile?, List.findSome?_eq_none_iff]
  simp only [Option.map_eq_none_iff]

theorem foundFile?_eq_some_iff {name : String} {format : ImageFormat} {data : FileData} :
    foundFile? find path = some (name, format, data) ↔ ∃ before after,
      imageCandidates path = before ++ (name, format) :: after ∧
        (∀ e ∈ before, find e.1 = none) ∧ find name = some data := by
  rw [foundFile?, List.findSome?_eq_some_iff]
  simp only [Option.map_eq_none_iff, Option.map_eq_some_iff]
  constructor
  · rintro ⟨before, e, after, hsplit, ⟨data', hfind, heq⟩, hbefore⟩
    cases heq
    exact ⟨before, after, hsplit, hbefore, hfind⟩
  · rintro ⟨before, after, hsplit, hbefore, hfind⟩
    exact ⟨before, _, after, hsplit, ⟨data, hfind, rfl⟩, hbefore⟩

/-- There is no trouble with a file that is there and can be decoded. -/
theorem not_imageTrouble {name : String} {format : ImageFormat} {data : FileData} {image : Image}
    (hfound : foundFile? find path = some (name, format, data))
    (himage : data.picture? format = some image) (message : String) :
    ¬ImageTrouble find path message := by
  intro h
  cases h with
  | notFound hnone =>
    rw [foundFile?_eq_none_iff.2 hnone] at hfound
    cases hfound
  | notDecoded hsplit hbefore hfind hnone =>
    rw [foundFile?_eq_some_iff.2 ⟨_, _, hsplit, hbefore, hfind⟩] at hfound
    cases hfound
    rw [hnone] at himage
    cases himage

variable {α : Type} (c : Catalog α)

/-- Either there is an image and nothing to note, or there is none and a note that says why. -/
theorem loadImage_cases (find : FileLookup) (path : String) :
    ((c.loadImage find path).notes = [] ∧ ∀ message, ¬ImageTrouble find path message) ∨
      ∃ note, (c.loadImage find path).notes = [note] ∧ IsImageNote find path note := by
  unfold Catalog.loadImage
  dsimp only
  generalize hfound : (imageCandidates path).findSome? _ = found
  change foundFile? find path = found at hfound
  cases found with
  | none => exact .inr ⟨_, rfl, rfl, rfl, .notFound (foundFile?_eq_none_iff.1 hfound)⟩
  | some found =>
    obtain ⟨name, format, data⟩ := found
    cases himage : data.picture? format with
    | some image =>
      simp only [himage]
      exact .inl ⟨rfl, not_imageTrouble hfound himage⟩
    | none =>
      simp only [himage]
      obtain ⟨before, after, hsplit, hbefore, hfind⟩ := foundFile?_eq_some_iff.1 hfound
      exact .inr ⟨_, rfl, rfl, rfl, .notDecoded hsplit hbefore hfind himage⟩

/-- The notes on the images of different paths are one for each with which something is wrong. -/
theorem exists_troubled (find : FileLookup) (paths : List String) :
    ∃ troubled : List String, troubled.Sublist paths ∧
      (∀ path, path ∈ troubled ↔ path ∈ paths ∧ ∃ message, ImageTrouble find path message) ∧
      List.Forall₂ (IsImageNote find) troubled
        (paths.flatMap fun path => (c.loadImage find path).notes) := by
  induction paths with
  | nil => exact ⟨[], .refl _, by simp, .nil⟩
  | cons path rest ih =>
    obtain ⟨troubled, hsublist, hmem, hnotes⟩ := ih
    rw [List.flatMap_cons]
    rcases loadImage_cases c find path with ⟨hnone, hfine⟩ | ⟨note, hnote, htrouble⟩
    · refine ⟨troubled, hsublist.cons _, fun path' => ?_, by rwa [hnone]⟩
      rw [hmem, List.mem_cons, or_and_right, or_iff_right]
      rintro ⟨rfl, message, htrouble⟩
      exact hfine message htrouble
    · refine ⟨path :: troubled, hsublist.cons_cons _, fun path' => ?_, ?_⟩
      · rw [List.mem_cons, hmem, List.mem_cons, or_and_right]
        exact or_congr_left ⟨fun heq => ⟨heq, _, heq ▸ htrouble.message⟩, And.left⟩
      · rw [hnote]
        exact .cons htrouble hnotes

end

/-! ## All images -/

/-- Loads an image and records its path. -/
def recorded (load : String → Noted (Option LoadedImage)) (path : String) :
    StateT (List String) Noted (Option LoadedImage) := fun paths => do
  let image ← load path
  return (image, paths ++ [path])

theorem run_mapM_recorded {β : Type} (load : String → Noted (Option LoadedImage))
    (f : String → Option LoadedImage → β) (paths before : List String) :
    (paths.mapM fun path => do
      let image ← recorded load path
      return f path image).run before =
        ⟨(paths.map fun path => f path (load path).value, before ++ paths),
          paths.flatMap fun path => (load path).notes⟩ := by
  induction paths generalizing before with
  | nil =>
    rw [List.append_nil]
    rfl
  | cons path rest ih =>
    have hstep : (recorded load path).run before =
        ⟨((load path).value, before ++ [path]), (load path).notes⟩ :=
      Noted.ext rfl (List.append_nil _)
    simp only [List.mapM_cons, StateT.run_bind, StateT.run_pure, pure_bind, bind_assoc, hstep]
    refine Noted.ext ?_ ?_
    · simp only [Noted.value_bind, ih, Noted.value_pure, List.map_cons, List.append_assoc,
        List.singleton_append]
    · simp only [Noted.notes_bind, ih, Noted.notes_pure, List.append_nil, List.flatMap_cons]

/-- Recording changes nothing else, and what is recorded are the paths. -/
theorem run_showEach_recorded {α : Type} [Scalar α] (load : String → Noted (Option LoadedImage))
    (paths : List String) (fragments : List (TextureFragment α)) :
    (showEach (loadEach (recorded load) paths) fragments).run [] =
      (fun shown => (shown, paths)) <$> showEach (loadEach load paths) fragments := by
  rw [showEach, loadEach, StateT.run_bind, StateT.run_bind, run_mapM_recorded]
  refine Noted.ext ?_ ?_
  · rw [showEach, loadEach]
    simp only [Noted.value_bind, Noted.value_mapM, Noted.value_pure, StateT.run_pure,
      List.nil_append, map_eq_pure_bind]
  · rw [showEach, loadEach]
    simp only [Noted.notes_bind, Noted.notes_mapM, Noted.notes_pure, StateT.run_pure,
      List.append_nil, map_eq_pure_bind]

section

variable {α : Type} [Scalar α] (c : Catalog α) (find : FileLookup)
  (fragments : List (TextureFragment α))

/-- The paths of textures, each once. -/
def distinctPaths : List String := (NameSet.ofNames (fragments.map (·.path))).keys

/-- What each texture shows, if the images are loaded in this order, and the paths as they are
loaded. -/
def recordedRun (order : List String) : Noted (List (ImageFragment α) × List String) :=
  (showEach (loadEach (recorded (c.loadImage find)) order) fragments).run []

/-- What a run in which the loaded paths are recorded comes to: each texture shows what it shows of
its own image, each path is loaded once, and there is one note for each path without an image. -/
structure LoadsEachOnce (run : Noted (List (ImageFragment α) × List String)) : Prop where
  shown : run.value.1 = fragments.map fun f => f.apply (c.loadImage find f.path).value
  nodup : run.value.2.Nodup
  mem_iff : ∀ path, path ∈ run.value.2 ↔ ∃ f ∈ fragments, f.path = path
  notes : ∃ troubled : List String, troubled.Nodup ∧
    (∀ path, path ∈ troubled ↔
      (∃ f ∈ fragments, f.path = path) ∧ ∃ message, ImageTrouble find path message) ∧
    List.Forall₂ (IsImageNote find) troubled run.notes

variable {c find fragments}

theorem loadsEachOnce_of_nodup {order : List String} (hnodup : order.Nodup)
    (hmem : ∀ path, path ∈ order ↔ ∃ f ∈ fragments, f.path = path) :
    LoadsEachOnce c find fragments (recordedRun c find fragments order) := by
  rw [recordedRun, run_showEach_recorded]
  refine ⟨?_, hnodup, hmem, ?_⟩
  · refine List.map_congr_left fun f hf => ?_
    rw [get?_loadEach _ ((hmem f.path).2 ⟨f, hf, rfl⟩)]
  · obtain ⟨troubled, hsublist, htroubled, hnotes⟩ := exists_troubled c find order
    refine ⟨troubled, hnodup.sublist hsublist, fun path => ?_, ?_⟩
    · rw [htroubled, hmem]
    · have hrun : (showEach (loadEach (c.loadImage find) order) fragments).notes =
          order.flatMap fun path => (c.loadImage find path).notes := by
        simp only [showEach, loadEach, Noted.notes_bind, Noted.notes_mapM, Noted.notes_pure,
          List.append_nil]
      rw [map_eq_pure_bind, Noted.notes_bind, hrun]
      simpa using hnotes

theorem loadFragments_eq : c.loadFragments find fragments =
    Prod.fst <$> recordedRun c find fragments (distinctPaths fragments) := by
  rw [recordedRun, run_showEach_recorded, Functor.map_map, id_map']
  rfl

end

/-- In whatever order the images of fragments are loaded, each is loaded once, and each fragment
shows what it shows of its own. They are loaded in the order of the paths. -/
theorem eachOnce_loadFragments {α : Type} [Scalar α] (c : Catalog α) (find : FileLookup)
    (fragments : List (TextureFragment α)) :
    c.loadFragments find fragments =
        Prod.fst <$> recordedRun c find fragments (distinctPaths fragments) ∧
      ∀ order : List String, order.Perm (distinctPaths fragments) →
        LoadsEachOnce c find fragments (recordedRun c find fragments order) := by
  refine ⟨loadFragments_eq, fun order horder => loadsEachOnce_of_nodup ?_ fun path => ?_⟩
  · exact horder.nodup_iff.2 (Table.nodup_keys _)
  · rw [horder.mem_iff, distinctPaths, NameSet.mem_keys_ofNames, List.mem_map]

/-- One of two images is not there and the other cannot be decoded. -/
theorem eachOnce_loadFragments_of_three :
    let fragment (path : String) : TextureFragment Rat :=
      { path, tint := none, opacity := 1, rect := ⟨⟨0, 0⟩, ⟨1, 1⟩⟩, croppable := false }
    let fragments := [fragment "stone", fragment "dirt", fragment "stone"]
    let find : FileLookup := fun name => if name = "dirt.png" then some (.text "") else none
    let c : Catalog Rat := {}
    ["stone", "dirt"].Perm (distinctPaths fragments) ∧
      LoadsEachOnce c find fragments (recordedRun c find fragments ["stone", "dirt"]) := by
  intro fragment fragments find c
  have horder : ["stone", "dirt"].Perm (distinctPaths fragments) := by decide +kernel
  exact ⟨horder, (eachOnce_loadFragments c find fragments).2 _ horder⟩

end BlockModels
