import EvidenceTags.Toml.Number
import EvidenceTags.Toml.Table

/-!
# Texts of settings

A text of settings is a list of statements, one to a line: a key with its value, or the heading of a
table. Lists and tables may be written as values too, and nested to a limited depth; a list may
extend over several lines.
-/

namespace EvidenceTags

namespace Toml

open Grammar

/-- Lists and tables as values, and the parts of a dotted key, may be nested less deep than this. -/
def depthLimit : Nat := 80

/-- Characters of a key that is not quoted. -/
def isBare (c : Char) : Bool :=
  ('a' ≤ c && c ≤ 'z') || ('A' ≤ c && c ≤ 'Z') || isDigit c || c == '_' || c == '-'

/-- A key without dots. -/
def simpleKey : Grammar String := shortQuoted <|> do
  let first ← oneOf isBare
  let others ← takeWhile isBare
  pure (String.ofList (first :: others))

/-- A simple key with blanks around it. -/
def keyPart : Grammar String := do
  blanks
  let part ← simpleKey
  blanks
  pure part

/-- A key: the parts before the last dot, and the part after it. -/
def key : Grammar (List String × String) := do
  let first ← keyPart
  let others ← repeated do
    char '.'
    keyPart
  let parts := first :: others
  require (parts.length < depthLimit)
  pure (parts.dropLast, parts.getLastD first)

/-- A value that is neither a list nor a table. -/
def scalar : Grammar Value := do
  match ← peek with
  | some '"' => Value.text <$> quoted
  | some '\'' => Value.text <$> quoted
  | some 't' => do
    word "true"
    pure (.truth true)
  | some 'f' => do
    word "false"
    pure (.truth false)
  | _ => do
    numberOrDate
    pure .other

/-- A list with elements of a kind. -/
def array (element : Grammar Value) : Grammar Unit := do
  char '['
  between
  if (← peek) == some ']' then char ']'
  else
    let _ ← element
    between
    let _ ← repeated do
      char ','
      between
      let _ ← element
      between
    let _ ← optional do
      char ','
      between
    char ']'

/-- A key with its value. -/
def entry (value : Grammar Value) : Grammar Statement := do
  let (path, last) ← key
  char '='
  blanks
  let v ← value
  pure (.entry path last v)

/-- A table written as a value. -/
def inlineTable (value : Grammar Value) : Grammar Unit := do
  char '{'
  blanks
  if (← peek) == some '}' then char '}'
  else
    let part := do
      let e ← entry value
      blanks
      pure e
    let first ← part
    let others ← repeated do
      char ','
      part
    char '}'
    require (build [] ⟨none, false, []⟩ (first :: others)).isSome

/-- A value in which lists and tables are nested at most `depth` deep. -/
def value : Nat → Grammar Value
  | 0 => scalar
  | depth + 1 => do
    match ← peek with
    | some '[' => do
      array (value depth)
      pure .other
    | some '{' => do
      inlineTable (value depth)
      pure .other
    | _ => scalar

/-- The heading of a table or of a further table of a list. -/
def heading : Grammar Statement := do
  char '['
  if (← peek) == some '[' then
    char '['
    let (path, last) ← key
    word "]]"
    pure (.item path last)
  else
    let (path, last) ← key
    char ']'
    pure (.heading path last)

/-- One line, or several if a list or a text extends over them, with its statement if it has one. -/
def line : Grammar (Option Statement) := do
  blanks
  match ← peek with
  | none => failure
  | some '#' | some '\n' | some '\r' => do
    lineEnd
    pure none
  | some '[' => do
    let s ← heading
    lineEnd
    pure (some s)
  | some _ => do
    let s ← entry (value (depthLimit - 1))
    lineEnd
    pure (some s)

/-- The statements of a whole text. -/
def statements : Grammar (List Statement) := do
  let _ ← optional (char '\uFEFF')
  let lines ← repeated line
  blanks
  endOfText
  pure lines.reduceOption

/-- The table that a text of settings describes. -/
def read? (text : String) : Option Entries := do
  let (found, _) ← statements text.toList
  build [] ⟨none, false, []⟩ found

end Toml

end EvidenceTags
