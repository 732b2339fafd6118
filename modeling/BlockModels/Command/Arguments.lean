import BlockModels.Decimal.Reading
import BlockModels.Text.Cut

/-!
# Arguments of the command line

There are two commands, each with options of its own. An option has a long name and often a short
one. Its value is the next argument, or follows in the same one: behind `=`, or right behind a
short name. Behind `--` there are no options, so that nothing may follow.
-/

namespace BlockModels.Command

/-- What `compile` is asked to do. -/
structure CompileRequest where
  input : String
  rules : String
  textures : String
  output : String
  config : Option String := none
  scale : Option Float := none
  outline : Option Float := none
  strict : Bool := false
  deriving Inhabited

/-- What `info` is asked to show. -/
structure InfoRequest where
  rules : String
  blocks : List String := []
  deriving Inhabited

/-- A command with its options. -/
inductive Request where
  | compile (r : CompileRequest)
  | info (r : InfoRequest)

/-- An option: its names, and whether it has a value. -/
structure OptionRule where
  long : String
  short : Option Char := none
  hasValue : Bool := true

/-- The options of `compile`. -/
def compileOptions : List OptionRule :=
  [⟨"input", some 'i', true⟩, ⟨"rules", some 'r', true⟩, ⟨"textures", some 't', true⟩,
    ⟨"output", some 'o', true⟩, ⟨"config", some 'c', true⟩, ⟨"scale", none, true⟩,
    ⟨"outline", none, true⟩, ⟨"strict", none, false⟩]

/-- The options of `info`. -/
def infoOptions : List OptionRule := [⟨"rules", some 'r', true⟩, ⟨"block", some 'b', true⟩]

/-- Options that were given, by their long names, each with its value; of an option without one the
value is empty. -/
abbrev Given := List (String × String)

/-- An argument that names an option: the option, and the value that follows in the same argument.
-/
def optionOf? (rules : List OptionRule) (arg : List Char) :
    Option (OptionRule × Option (List Char)) :=
  match arg with
  | '-' :: '-' :: rest =>
    let (name, value) := match Text.cutAt '=' rest with
      | some (name, value) => (name, some value)
      | none => (rest, none)
    (rules.find? fun r => r.long.toList = name).map fun r => (r, value)
  | ['-', c] => (rules.find? fun r => r.short = some c).map fun r => (r, none)
  | '-' :: c :: '=' :: rest => (rules.find? fun r => r.short = some c).map fun r => (r, some rest)
  | '-' :: c :: rest => (rules.find? fun r => r.short = some c).map fun r => (r, some rest)
  | _ => none

/-- The argument cannot be the value of the option before it. -/
def isOptionLike (arg : List Char) : Bool := arg.head? == some '-' && arg != ['-']

/-- The options among arguments, after one that still waits for its value or after none. -/
def readOptionsAfter (rules : List OptionRule) : Option OptionRule → List (List Char) → Option Given
  | none, [] => some []
  | some _, [] => none
  | some r, value :: rest =>
    if isOptionLike value then none
    else (readOptionsAfter rules none rest).map ((r.long, String.ofList value) :: ·)
  | none, ['-', '-'] :: rest => if rest.isEmpty then some [] else none
  | none, arg :: rest =>
    match optionOf? rules arg with
    | none => none
    | some (r, none) =>
      if r.hasValue then readOptionsAfter rules (some r) rest
      else (readOptionsAfter rules none rest).map ((r.long, "") :: ·)
    | some (r, some value) =>
      if r.hasValue then
        (readOptionsAfter rules none rest).map ((r.long, String.ofList value) :: ·)
      else none

/-- The options among arguments. -/
def readOptions (rules : List OptionRule) (arguments : List String) : Option Given :=
  readOptionsAfter rules none (arguments.map String.toList)

namespace Given

/-- The values of an option. -/
def all (g : Given) (name : String) : List String :=
  (g.filter fun e => e.1 = name).map (·.2)

/-- The value of an option that is given at most once. -/
def atMostOnce? (g : Given) (name : String) : Option (Option String) :=
  match g.all name with
  | [] => some none
  | [value] => some (some value)
  | _ => none

/-- A path, which is not empty. -/
def path? (g : Given) (name : String) : Option (Option String) :=
  (g.atMostOnce? name).bind fun value => if value = some "" then none else some value

/-- A path that has to be given. -/
def requiredPath? (g : Given) (name : String) : Option String := (g.path? name).bind id

/-- A number. -/
def number? (g : Given) (name : String) : Option (Option Float) :=
  match g.atMostOnce? name with
  | none => none
  | some none => some none
  | some (some value) => (Decimal.readFloat value.toList).map some

end Given

/-- Reads the arguments; none if they are not as they should be. -/
def Request.ofArguments? : List String → Option Request
  | "compile" :: rest => do
    let g ← readOptions compileOptions rest
    return .compile {
      input := ← g.requiredPath? "input"
      rules := ← g.requiredPath? "rules"
      textures := ← g.requiredPath? "textures"
      output := ← g.requiredPath? "output"
      config := ← g.path? "config"
      scale := ← g.number? "scale"
      outline := ← g.number? "outline"
      strict := (← g.atMostOnce? "strict").isSome }
  | "info" :: rest => do
    let g ← readOptions infoOptions rest
    return .info { rules := ← g.requiredPath? "rules", blocks := g.all "block" }
  | _ => none

end BlockModels.Command
