import BlockModels.Catalog.Basic
import BlockModels.Diagnostic
import BlockModels.Files.Basic
import BlockModels.Text.Cut

/-!
# Loading images

A path without the ending of a format is tried with the ending of each, the newer format first; the
first file that is there decides. Every image is loaded once, however many textures show it, in the
order of the paths; then each texture takes what it shows.
-/

namespace BlockModels

/-- The ending of a format's file names. -/
def ImageFormat.ending : ImageFormat → String
  | .png => ".png"
  | .tga => ".tga"

/-- The formats in the order in which they are tried. -/
def ImageFormat.all : List ImageFormat := [.png, .tga]

/-- The names of files that may hold the image of a path, each with its format. -/
def imageCandidates (path : String) : List (String × ImageFormat) :=
  match ImageFormat.all.find? fun f => Text.endsIn f.ending.toList path.toList with
  | some f => [(path, f)]
  | none => ImageFormat.all.map fun f => (path ++ f.ending, f)

/-- Why a file is no picture. -/
def undecodable : String := "not an image of this format"

section

variable {α : Type} (c : Catalog α) (find : FileLookup)

/-- The first frame of an image that holds several; a height of zero stands for square frames. -/
def Catalog.firstFrame (path : String) (image : Image) : Image :=
  match c.flipbookSizes.get? path with
  | none => image
  | some height => image.firstFrame (if height = 0 then image.width else height)

/-- Loads the image of a path. -/
def Catalog.loadImage (path : String) : Noted (Option LoadedImage) :=
  let found := (imageCandidates path).findSome? fun (name, format) =>
    (find name).map fun data => (name, format, data)
  match found with
  | none => do
    Noted.warn .imageLoad ("Image " ++ path ++ " not found, using placeholder")
    return none
  | some (name, format, data) =>
    match data.picture? format with
    | some image => pure (some ⟨c.firstFrame path image, format⟩)
    | none => do
      Noted.warn .imageLoad ("Failed to decode " ++ name ++ ": " ++ undecodable)
      return none

end

section

variable {m : Type → Type} [Monad m]

/-- Loads the images of paths one after the other. -/
def loadEach (load : String → m (Option LoadedImage)) (paths : List String) :
    m (Table LoadedImage) := do
  let loaded ← paths.mapM fun path => do
    let image ← load path
    return image.map fun image => (path, image)
  return Table.ofList (loaded.filterMap id)

/-- What each texture shows, once images are loaded. -/
def showEach {α : Type} [Scalar α] (load : m (Table LoadedImage))
    (fragments : List (TextureFragment α)) : m (List (ImageFragment α)) := do
  let images ← load
  return fragments.map fun f => f.apply (images.get? f.path)

end

section

variable {α : Type} (c : Catalog α) (find : FileLookup)

/-- Loads the images of paths, each once. -/
def Catalog.loadImages (paths : List String) : Noted (Table LoadedImage) :=
  loadEach (c.loadImage find) (NameSet.ofNames paths).keys

/-- What each texture shows. -/
def Catalog.loadFragments [Scalar α] (fragments : List (TextureFragment α)) :
    Noted (List (ImageFragment α)) :=
  showEach (c.loadImages find (fragments.map (·.path))) fragments

end

end BlockModels
