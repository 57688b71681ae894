import EvidenceTags.Toml.Grammar

/-!
# Quoted text

Text stands between quotation marks, where a backslash begins an escape, or between apostrophes,
where every character stands for itself. Either kind is written on one line between single marks, or
on several lines between triple ones. Between triple marks a line end right at the beginning is
dropped, a line end is always read as a line feed, and up to two marks may stand before the closing
ones.
-/

namespace EvidenceTags

namespace Toml

/-- The value of a hexadecimal digit. -/
def hexValue? (c : Char) : Option Nat :=
  if '0' ≤ c ∧ c ≤ '9' then some (c.toNat - 48)
  else if 'a' ≤ c ∧ c ≤ 'f' then some (c.toNat - 87)
  else if 'A' ≤ c ∧ c ≤ 'F' then some (c.toNat - 55)
  else none

/-- The character with the number that hexadecimal digits spell, if there is one. -/
def charOfHex? (digits : List Char) : Option Char := do
  let n ← digits.foldlM (fun n c => (fun v => 16 * n + v) <$> hexValue? c) 0
  if h : n.isValidChar then some (Char.ofNatAux n h) else none

/-- The character for which a letter after a backslash stands. -/
def escaped? : Char → Option Char
  | 'b' => some '\x08'
  | 't' => some '\t'
  | 'n' => some '\n'
  | 'f' => some '\x0c'
  | 'r' => some '\r'
  | '"' => some '"'
  | '\\' => some '\\'
  | _ => none

/-- The rest of a text between single quotation marks, behind the reversed text `acc`. -/
def basicOnto (acc : List Char) : List Char → Option (String × List Char)
  | '"' :: rest => some (String.ofList acc.reverse, rest)
  | '\\' :: 'u' :: a :: b :: c :: d :: rest => do
    basicOnto ((← charOfHex? [a, b, c, d]) :: acc) rest
  | '\\' :: 'U' :: a :: b :: c :: d :: e :: f :: g :: h :: rest => do
    basicOnto ((← charOfHex? [a, b, c, d, e, f, g, h]) :: acc) rest
  | '\\' :: c :: rest => do basicOnto ((← escaped? c) :: acc) rest
  | c :: rest => if isPrintable c then basicOnto (c :: acc) rest else none
  | [] => none

/-- The rest of a text between single apostrophes. -/
def literalOnto (acc : List Char) : List Char → Option (String × List Char)
  | '\'' :: rest => some (String.ofList acc.reverse, rest)
  | c :: rest => if isPrintable c then literalOnto (c :: acc) rest else none
  | [] => none

/-- How the next character between triple quotation marks is to be read. -/
inductive LongMode where
  /-- As text. -/
  | text
  /-- After a backslash at the end of a line, before that end. -/
  | lineEnd
  /-- After such a line end: blanks and further line ends are dropped. -/
  | skip
deriving DecidableEq, Repr

/-- The rest of a text between triple quotation marks. -/
def longBasicOnto (acc : List Char) : LongMode → List Char → Option (String × List Char)
  | .lineEnd, c :: rest =>
    if isBlank c then longBasicOnto acc .lineEnd rest
    else match c, rest with
      | '\n', rest => longBasicOnto acc .skip rest
      | '\r', '\n' :: rest => longBasicOnto acc .skip rest
      | _, _ => none
  | mode, '"' :: '"' :: '"' :: '"' :: '"' :: rest =>
    if mode = .lineEnd then none else some (String.ofList ('"' :: '"' :: acc).reverse, rest)
  | mode, '"' :: '"' :: '"' :: '"' :: rest =>
    if mode = .lineEnd then none else some (String.ofList ('"' :: acc).reverse, rest)
  | mode, '"' :: '"' :: '"' :: rest =>
    if mode = .lineEnd then none else some (String.ofList acc.reverse, rest)
  | _, '\\' :: 'u' :: a :: b :: c :: d :: rest => do
    longBasicOnto ((← charOfHex? [a, b, c, d]) :: acc) .text rest
  | _, '\\' :: 'U' :: a :: b :: c :: d :: e :: f :: g :: h :: rest => do
    longBasicOnto ((← charOfHex? [a, b, c, d, e, f, g, h]) :: acc) .text rest
  | _, '\\' :: c :: rest =>
    match escaped? c with
    | some e => longBasicOnto (e :: acc) .text rest
    | none =>
      if isBlank c then longBasicOnto acc .lineEnd rest
      else match c, rest with
        | '\n', rest => longBasicOnto acc .skip rest
        | '\r', '\n' :: rest => longBasicOnto acc .skip rest
        | _, _ => none
  | mode, '\r' :: '\n' :: rest =>
    if mode = .skip then longBasicOnto acc .skip rest else longBasicOnto ('\n' :: acc) .text rest
  | mode, c :: rest =>
    if mode = .skip ∧ (isBlank c ∨ c = '\n') then longBasicOnto acc .skip rest
    else if c = '\n' ∨ isPrintable c then longBasicOnto (c :: acc) .text rest
    else none
  | _, [] => none

/-- The rest of a text between triple apostrophes. -/
def longLiteralOnto (acc : List Char) : List Char → Option (String × List Char)
  | '\'' :: '\'' :: '\'' :: '\'' :: '\'' :: rest =>
    some (String.ofList ('\'' :: '\'' :: acc).reverse, rest)
  | '\'' :: '\'' :: '\'' :: '\'' :: rest => some (String.ofList ('\'' :: acc).reverse, rest)
  | '\'' :: '\'' :: '\'' :: rest => some (String.ofList acc.reverse, rest)
  | '\r' :: '\n' :: rest => longLiteralOnto ('\n' :: acc) rest
  | c :: rest => if c = '\n' ∨ isPrintable c then longLiteralOnto (c :: acc) rest else none
  | [] => none

/-- Text between single marks of either kind, as it may also stand for a key. -/
def shortQuoted : Grammar String
  | '"' :: rest => basicOnto [] rest
  | '\'' :: rest => literalOnto [] rest
  | _ => none

/-- Drops a line end at the beginning. -/
def dropNewline : List Char → List Char
  | '\n' :: rest => rest
  | '\r' :: '\n' :: rest => rest
  | text => text

/-- Quoted text of any kind. -/
def quoted : Grammar String
  | '"' :: '"' :: '"' :: rest => longBasicOnto [] .text (dropNewline rest)
  | '\'' :: '\'' :: '\'' :: rest => longLiteralOnto [] (dropNewline rest)
  | text => shortQuoted text

end Toml

end EvidenceTags
