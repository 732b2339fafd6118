import BlockModels.Bounds
import BlockModels.Block
import BlockModels.Decimal.Reading
import BlockModels.Text.Cut

/-!
# Blocks on the command line

A block is written as its name, or as its name and its states in brackets: `name[key=value,...]`. A
value is a truth value or a whole number if it can be read as one, else a text.
-/

namespace BlockModels.Command

/-- The state that a text stands for. -/
def readState (value : String) : StateValue :=
  if value = "true" then .bool true
  else if value = "false" then .bool false
  else
    match Decimal.readInt minSigned64 maxSigned64 value.toList with
    | some i => .int (Int64.ofInt i)
    | none => .str value

/-- One state with its value. -/
def readProperty (property : List Char) : Except String (String × StateValue) :=
  match Text.cutAt '=' property with
  | some (key, value) => .ok (String.ofList key, readState (String.ofList value))
  | none =>
    .error ("Invalid property format: '" ++ String.ofList property ++ "'. Use key=value")

/-- Reads a block; what is wrong with it is told in words. -/
def readBlock (input : String) : Except String Block :=
  match Text.cutAt '[' input.toList with
  | none => .ok { name := input }
  | some (name, rest) =>
    match Text.beforeLast? ']' rest with
    | none => .error ("Invalid block '" ++ input ++ "': missing ']'")
    | some properties => do
      let states ← ((Text.splitAt ',' properties).filter (!·.isEmpty)).mapM readProperty
      return { name := String.ofList name, states := Table.ofList states }

end BlockModels.Command
