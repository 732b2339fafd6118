import BlockModels.Text.Unprintable

/-!
# Quoted text

How a text is shown inside a message: between double quotes, with the quote, the backslash and the
common controls escaped by a letter, and every other character that cannot be seen written as its
code in braces.
-/

namespace BlockModels.Text

/-- The code of a character in hexadecimal, between braces. -/
def codeEscape (c : Char) : List Char :=
  '\\' :: 'u' :: '\x7b' :: Nat.toDigits 16 c.toNat ++ ['\x7d']

/-- One character of a quoted text. -/
def quoteChar (c : Char) : List Char :=
  match c with
  | '"' => ['\\', '"']
  | '\\' => ['\\', '\\']
  | '\n' => ['\\', 'n']
  | '\r' => ['\\', 'r']
  | '\t' => ['\\', 't']
  | '\x00' => ['\\', '0']
  | _ => if isUnprintable c then codeEscape c else [c]

/-- The text between double quotes. -/
def quote (s : String) : String :=
  String.ofList ('"' :: s.toList.flatMap quoteChar ++ ['"'])

end BlockModels.Text
