import BlockModels.Bounds
import BlockModels.Pattern.Limits
import BlockModels.Decimal.Reading

/-!
# Reading patterns

The written form of patterns: a character stands for itself unless it has a meaning of its own, a
backslash takes that meaning away or names a class, brackets list a class, parentheses group, `|`
separates alternatives, and `?`, `*`, `+` and counts in braces repeat what stands before them. A
letter in `(?i)` changes how the rest of the group is read: `i` ignores case, `s` lets a dot stand
for a line break, `m` lets the anchors match at lines.

What is refused: a repetition of nothing, unclosed groups, classes and counts, counts and ranges the
wrong way round, escapes without meaning, groups that look ahead, look behind or refer back, and
what is beyond the limits.
-/

namespace BlockModels.Pattern

/-- How the rest of a group is read. -/
structure Mode where
  anyCase : Bool := false
  dotAll : Bool := false
  lines : Bool := false

namespace Mode

/-- A class in this mode. -/
def classOf (m : Mode) (c : CharClass) : CharClass := if m.anyCase then .anyCase c else c

/-- A letter that switches part of the mode on or off. Two further letters are accepted that make
no difference to which texts match. -/
def switch? (m : Mode) (on : Bool) : Char → Option Mode
  | 'i' => some { m with anyCase := on }
  | 's' => some { m with dotAll := on }
  | 'm' => some { m with lines := on }
  | 'U' => some m
  | 'u' => if on then some m else none
  | _ => none

/-- The letters of a group's head, up to the colon or the closing parenthesis after them. No letter
may come twice, and a minus is followed by at least one. -/
def switches? (m : Mode) (on : Bool) (seen : List Char) : List Char → Option (Mode × List Char)
  | [] => none
  | ':' :: rest => if seen.head? == some '-' then none else some (m, ':' :: rest)
  | ')' :: rest => if seen.head? == some '-' || seen.isEmpty then none else some (m, ')' :: rest)
  | '-' :: rest => if on then switches? m false ('-' :: seen) rest else none
  | c :: rest =>
    if seen.contains c then none
    else (m.switch? on c).bind fun m => switches? m on (c :: seen) rest

end Mode

/-- What an escape stands for. -/
inductive Escape where
  | literal (c : Char)
  | members (c : CharClass)
  | anchor (a : Anchor)

/-- The value of a hexadecimal digit. -/
def hexValue? (c : Char) : Option Nat :=
  if c.isDigit then some (c.toNat - '0'.toNat)
  else if 'a' ≤ c ∧ c ≤ 'f' then some (c.toNat - 'a'.toNat + 10)
  else if 'A' ≤ c ∧ c ≤ 'F' then some (c.toNat - 'A'.toNat + 10)
  else none

/-- The character of a hexadecimal code. -/
def hexChar? (digits : List Char) : Option Char :=
  if digits.isEmpty then none
  else
    (digits.foldlM (fun n c => (hexValue? c).map fun d => n * 16 + d) 0).bind fun n =>
      if h : n.isValidChar then some (Char.ofNatAux n h) else none

/-- A code of a fixed number of digits, or any number of them in braces. -/
def hexEscape? (width : Nat) : List Char → Option (Escape × List Char)
  | '\x7b' :: rest =>
    match rest.dropWhile (· != '\x7d') with
    | '\x7d' :: after => (hexChar? (rest.takeWhile (· != '\x7d'))).map fun c => (.literal c, after)
    | _ => none
  | cs =>
    let digits := cs.take width
    if digits.length < width then none
    else (hexChar? digits).map fun c => (.literal c, cs.drop width)

/-- The characters that a backslash takes literally: those of ASCII that are neither letters nor
digits. -/
def isEscapable (c : Char) : Bool := c.toNat < 0x80 && !c.isAlphanum

/-- The boundary of a word, or what is named in braces behind it. Braces without a name are a
count. -/
def wordAnchor? (cs : List Char) : Option (Escape × List Char) :=
  let nameChar (c : Char) := c.isAlpha || c == '-'
  match cs with
  | '\x7b' :: rest =>
    if !rest.head?.any nameChar then some (.anchor .wordBoundary, cs)
    else
      match String.ofList (rest.takeWhile nameChar), rest.dropWhile nameChar with
      | "start", '\x7d' :: rest => some (.anchor .wordStart, rest)
      | "end", '\x7d' :: rest => some (.anchor .wordEnd, rest)
      | "start-half", '\x7d' :: rest => some (.anchor .noWordBefore, rest)
      | "end-half", '\x7d' :: rest => some (.anchor .noWordBehind, rest)
      | _, _ => none
  | _ => some (.anchor .wordBoundary, cs)

/-- The escape after a backslash. -/
def escape? : List Char → Option (Escape × List Char)
  | [] => none
  | c :: rest =>
    match c with
    | 'd' => some (.members .digit, rest)
    | 'D' => some (.members (.complement .digit), rest)
    | 'w' => some (.members .word, rest)
    | 'W' => some (.members (.complement .word), rest)
    | 's' => some (.members .blank, rest)
    | 'S' => some (.members (.complement .blank), rest)
    | 'A' => some (.anchor .startOfText, rest)
    | 'z' => some (.anchor .endOfText, rest)
    | 'b' => wordAnchor? rest
    | '<' => some (.anchor .wordStart, rest)
    | '>' => some (.anchor .wordEnd, rest)
    | 'B' => some (.anchor .noWordBoundary, rest)
    | 'a' => some (.literal '\x07', rest)
    | 'f' => some (.literal '\x0c', rest)
    | 't' => some (.literal '\t', rest)
    | 'n' => some (.literal '\n', rest)
    | 'r' => some (.literal '\r', rest)
    | 'v' => some (.literal '\x0b', rest)
    | 'x' => hexEscape? 2 rest
    | 'u' => hexEscape? 4 rest
    | 'U' => hexEscape? 8 rest
    | c => if isEscapable c then some (.literal c, rest) else none

/-! ## Classes in brackets -/

/-- The classes that are named between colons inside brackets. -/
def namedClass? (name : String) : Option CharClass :=
  let upper := ('A', 'Z')
  let lower := ('a', 'z')
  let decimal := ('0', '9')
  let ranges (rs : List (Char × Char)) : Option CharClass := some (.listed rs)
  match name with
  | "alnum" => ranges [decimal, upper, lower]
  | "alpha" => ranges [upper, lower]
  | "ascii" => ranges [('\x00', '\x7f')]
  | "blank" => ranges [('\t', '\t'), (' ', ' ')]
  | "cntrl" => ranges [('\x00', '\x1f'), ('\x7f', '\x7f')]
  | "digit" => ranges [decimal]
  | "graph" => ranges [('!', '~')]
  | "lower" => ranges [lower]
  | "print" => ranges [(' ', '~')]
  | "punct" => ranges [('!', '/'), (':', '@'), ('[', '\x60'), ('\x7b', '~')]
  | "space" => ranges [('\t', '\r'), (' ', ' ')]
  | "upper" => ranges [upper]
  | "word" => ranges [decimal, upper, ('_', '_'), lower]
  | "xdigit" => ranges [decimal, ('A', 'F'), ('a', 'f')]
  | _ => none

/-- A class named between `[:` and `:]`, with `^` for its complement. -/
def bracketName? (cs : List Char) : Option (CharClass × List Char) :=
  match cs with
  | '[' :: ':' :: rest =>
    let (negated, rest) := match rest with
      | '^' :: r => (true, r)
      | r => (false, r)
    match rest.dropWhile (· != ':') with
    | ':' :: ']' :: after =>
      (namedClass? (String.ofList (rest.takeWhile (· != ':')))).map fun c =>
        (if negated then .complement c else c, after)
    | _ => none
  | _ => none

/-- One character or class inside brackets. -/
def classItem? : List Char → Option (Escape × List Char)
  | [] => none
  | '\\' :: rest =>
    (escape? rest).bind fun (e, rest) =>
      match e with
      | .anchor _ => none
      | e => some (e, rest)
  | c :: rest => some (.literal c, rest)

/-- The class of an item that is not the end of a range. -/
def Escape.toClass : Escape → CharClass
  | .literal c => .single c
  | .members c => c
  | .anchor _ => .none

/-- An item or a range of two characters. -/
def classRange? (cs : List Char) : Option (CharClass × List Char) :=
  (classItem? cs).bind fun (first, rest) =>
    match rest with
    | '-' :: ']' :: _ | '-' :: '-' :: _ => some (first.toClass, rest)
    | '-' :: after =>
      (classItem? after).bind fun (last, rest) =>
        match first, last with
        | .literal a, .literal b => if a ≤ b then some (.range a b, rest) else none
        | _, _ => none
    | _ => some (first.toClass, rest)

/-- How a list of items joins the class before it. -/
inductive Joint where
  | both
  | without
  | either

/-- Two classes joined; `either` holds the characters of exactly one. -/
def Joint.join : Joint → CharClass → CharClass → CharClass
  | .both, a, b => .both a b
  | .without, a, b => .without a b
  | .either, a, b => .either a b

/-- The class so far: what stands left of the last joint, and the items since. -/
def closeItems (left : Option (CharClass × Joint)) (items : CharClass) : CharClass :=
  match left with
  | none => items
  | some (a, j) => j.join a items

/-- Minus signs that open a list of items stand for themselves, and so does a closing bracket that
is the very first item. -/
def openingItems (items : CharClass) (first : Bool) : List Char → CharClass × List Char
  | '-' :: rest => openingItems (.union items (.single '-')) false rest
  | ']' :: rest => if first then (.single ']', rest) else (items, ']' :: rest)
  | cs => (items, cs)

mutual

/-- The items of a class up to its closing bracket. Each item is in the mode by itself, so that a
class in brackets is not changed once more by the class around it. -/
def classItems? (m : Mode) : Nat → Option (CharClass × Joint) → CharClass → List Char →
    Option (CharClass × List Char)
  | 0, _, _, _ => none
  | fuel + 1, left, items, cs =>
    let joined (j : Joint) := some (closeItems left items, j)
    match cs with
    | [] => none
    | ']' :: rest => some (closeItems left items, rest)
    | '&' :: '&' :: rest => classItems? m fuel (joined .both) .none rest
    | '-' :: '-' :: rest => classItems? m fuel (joined .without) .none rest
    | '~' :: '~' :: rest => classItems? m fuel (joined .either) .none rest
    | '[' :: rest =>
      match bracketName? cs with
      | some (c, rest) => classItems? m fuel left (.union items (m.classOf c)) rest
      | none =>
        match bracket? m fuel rest with
        | some (c, rest) => classItems? m fuel left (.union items c) rest
        | none => none
    | cs =>
      match classRange? cs with
      | some (c, rest) => classItems? m fuel left (.union items (m.classOf c)) rest
      | none => none

/-- A class after its opening bracket. -/
def bracket? (m : Mode) : Nat → List Char → Option (CharClass × List Char)
  | 0, _ => none
  | fuel + 1, cs =>
    let (negated, cs) := match cs with
      | '^' :: rest => (true, rest)
      | _ => (false, cs)
    let (items, cs) := openingItems .none true cs
    (classItems? m fuel none items cs).map fun (c, rest) =>
      (if negated then .complement (.nested c) else .nested c, rest)

end

/-! ## Repetitions -/

/-- A count with blanks around it. -/
def count? (cs : List Char) : Option (Nat × List Char) :=
  let cs := cs.dropWhile Text.isBlank
  let digits := cs.takeWhile Char.isDigit
  (Decimal.readNatUpTo maxUnsigned32 digits).map fun n =>
    (n, (cs.dropWhile Char.isDigit).dropWhile Text.isBlank)

/-- The counts after an opening brace: exactly, at least, or between. -/
def counts? (cs : List Char) : Option (Nat × Option Nat × List Char) :=
  (count? cs).bind fun (least, rest) =>
    match rest with
    | '\x7d' :: rest => some (least, some least, rest)
    | ',' :: '\x7d' :: rest => some (least, none, rest)
    | ',' :: rest =>
      (count? rest).bind fun (most, rest) =>
        match rest with
        | '\x7d' :: rest => if least ≤ most then some (least, some most, rest) else none
        | _ => none
    | _ => none

/-- The text after a question mark that asks for the shortest repetition first, which makes no
difference to whether a text matches. -/
def skipLazy : List Char → List Char
  | '?' :: rest => rest
  | cs => cs

/-- All repetitions that follow a pattern. -/
def repetitions? : Nat → Pattern → List Char → Option (Pattern × List Char)
  | 0, _, _ => none
  | fuel + 1, p, cs =>
    match cs with
    | '?' :: rest => repetitions? fuel (.repeated p 0 (some 1)) (skipLazy rest)
    | '*' :: rest => repetitions? fuel (.repeated p 0 none) (skipLazy rest)
    | '+' :: rest => repetitions? fuel (.repeated p 1 none) (skipLazy rest)
    | '\x7b' :: rest =>
      match counts? rest with
      | some (least, most, rest) => repetitions? fuel (.repeated p least most) (skipLazy rest)
      | none => none
    | cs => some (p, cs)

/-! ## Groups and alternatives -/

/-- The name of a group, and the text after its closing angle bracket. -/
def groupName? (cs : List Char) : Option (String × List Char) :=
  let name := cs.takeWhile (· != '>')
  let nameChar (c : Char) := c.isAlphanum || c == '_' || c == '.' || c == '[' || c == ']'
  match cs.dropWhile (· != '>') with
  | '>' :: rest =>
    if name.head?.any (fun c => c.isAlpha || c == '_') && name.all nameChar then
      some (String.ofList name, rest)
    else none
  | _ => none

/-- One element before its repetitions: a pattern in the mode, and the text after it. The number is
enough for the steps through a class. -/
def simpleAtom? (fuel : Nat) (m : Mode) : List Char → Option (Pattern × List Char)
  | [] => none
  | '.' :: rest =>
    some (.char (if m.dotAll then .complement .none else .complement (.single '\n')), rest)
  | '^' :: rest => some (.anchor (if m.lines then .startOfLine else .startOfText), rest)
  | '$' :: rest => some (.anchor (if m.lines then .endOfLine else .endOfText), rest)
  | '\\' :: rest =>
    (escape? rest).map fun (e, rest) =>
      match e with
      | .literal c => (.char (m.classOf (.single c)), rest)
      | .members c => (.char c, rest)
      | .anchor a => (.anchor a, rest)
  | '[' :: rest =>
    (bracket? m fuel rest).map fun (c, rest) => (.char c, rest)
  | c :: rest =>
    if c == '*' || c == '+' || c == '?' || c == '\x7b' then none
    else some (.char (m.classOf (.single c)), rest)

mutual

/-- The alternatives up to the end of the text or of the group. The names are those of the groups
before. -/
def alternatives? : Nat → List String → Mode → List Char →
    Option (Pattern × List String × List Char)
  | 0, _, _, _ => none
  | fuel + 1, names, m, cs =>
    match sequence? fuel names m .empty cs with
    | none => none
    | some (p, names, m, '|' :: rest) =>
      match alternatives? fuel names m rest with
      | none => none
      | some (q, names, rest) => some (.alt p q, names, rest)
    | some (p, names, _, rest) => some (p, names, rest)

/-- The elements of one alternative, after those already read. -/
def sequence? : Nat → List String → Mode → Pattern → List Char →
    Option (Pattern × List String × Mode × List Char)
  | 0, _, _, _, _ => none
  | fuel + 1, names, m, before, cs =>
    match cs with
    | [] => some (before, names, m, [])
    | '|' :: rest => some (before, names, m, '|' :: rest)
    | ')' :: rest => some (before, names, m, ')' :: rest)
    | '(' :: '?' :: rest =>
      match rest with
      | '<' :: '=' :: _ | '<' :: '!' :: _ | '=' :: _ | '!' :: _ => none
      | 'P' :: '<' :: rest | '<' :: rest =>
        match groupName? rest with
        | none => none
        | some (name, rest) =>
          if names.contains name then none else group? fuel (name :: names) m m true before rest
      | rest =>
        match m.switches? true [] rest with
        | some (inner, ':' :: rest) => group? fuel names m inner false before rest
        | some (m, ')' :: rest) => sequence? fuel names m (.seq before .empty) rest
        | _ => none
    | '(' :: rest => group? fuel names m m true before rest
    | cs =>
      match simpleAtom? fuel m cs with
      | none => none
      | some (p, rest) =>
        match repetitions? fuel p rest with
        | none => none
        | some (p, rest) => sequence? fuel names m (.seq before p) rest

/-- A group after its head, with its repetitions, and the elements that follow it. -/
def group? : Nat → List String → Mode → Mode → Bool → Pattern → List Char →
    Option (Pattern × List String × Mode × List Char)
  | 0, _, _, _, _, _, _ => none
  | fuel + 1, names, m, inner, noted, before, cs =>
    match alternatives? fuel names inner cs with
    | some (p, names, ')' :: rest) =>
      match repetitions? fuel (.group noted p) rest with
      | none => none
      | some (p, rest) => sequence? fuel names m (.seq before p) rest
    | _ => none

end

/-- Reads a written pattern that is within the limits. At least every third step takes a character,
which bounds their number. -/
def parse? (text : String) : Option Pattern :=
  let cs := text.toList
  match alternatives? (3 * cs.length + 3) [] {} cs with
  | some (p, _, []) => if p.isWithinLimits then some p else none
  | _ => none

end BlockModels.Pattern

namespace BlockModels

/-- A pattern together with its written form. -/
structure NamePattern where
  source : String
  pattern : Pattern
  deriving Repr, DecidableEq, Inhabited

/-- Reads a name pattern. -/
def NamePattern.ofString? (source : String) : Option NamePattern :=
  (Pattern.parse? source).map fun pattern => ⟨source, pattern⟩

/-- Some part of the name matches. -/
def NamePattern.isMatch (p : NamePattern) (name : String) : Bool := p.pattern.isMatch name

end BlockModels
