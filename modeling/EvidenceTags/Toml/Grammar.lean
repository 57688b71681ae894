/-!
# Grammars of settings text

A grammar takes what it describes from the front of a text and gives its meaning and the rest, or
refuses the text. The alternatives of this notation can be told apart by their first characters, so
a grammar has at most one reading of a text and `<|>` never has to return to an earlier choice once
the right one has been made.

This module has the notation's characters, blanks, line ends and comments.
-/

namespace EvidenceTags

namespace Toml

/-- Takes something from the front of a text. -/
abbrev Grammar := StateT (List Char) Option

namespace Grammar

/-- The next character, which has to satisfy `p`. -/
def oneOf (p : Char → Bool) : Grammar Char
  | c :: rest => if p c then some (c, rest) else none
  | [] => none

/-- The given character. -/
def char (c : Char) : Grammar Unit := do
  let _ ← oneOf (· == c)

/-- The given characters. -/
def word (w : String) : Grammar Unit := fun text =>
  if w.toList.isPrefixOf text then some ((), text.drop w.length) else none

/-- All characters up to the first that does not satisfy `p`. -/
def takeWhile (p : Char → Bool) : Grammar (List Char) := fun text =>
  some (text.takeWhile p, text.dropWhile p)

/-- The next character, which is not taken; `none` at the end of the text. -/
def peek : Grammar (Option Char) := fun text => some (text.head?, text)

/-- Refuses unless a condition holds. -/
def require (condition : Bool) : Grammar Unit := if condition then pure () else failure

/-- Repeats `g` until it refuses, at most as often as `bound` has characters, behind the reversed
list `acc`. -/
def repeatOnto {α : Type} (g : Grammar α) : List Char → List α → Grammar (List α)
  | [], acc => pure acc.reverse
  | _ :: bound, acc => do
    match ← optional g with
    | some a => repeatOnto g bound (a :: acc)
    | none => pure acc.reverse

/-- Repeats `g`, which takes at least one character each time, until it refuses. -/
def repeated {α : Type} (g : Grammar α) : Grammar (List α) := fun text =>
  repeatOnto g text [] text

end Grammar

/-- Blanks within a line. -/
def isBlank (c : Char) : Bool := c == ' ' || c == '\t'

/-- Characters that a line may hold: no control characters but the tab. -/
def isPrintable (c : Char) : Bool := c == '\t' || (0x20 ≤ c.toNat && c.toNat != 0x7F)

def blanks : Grammar Unit := do
  let _ ← Grammar.takeWhile isBlank

/-- The end of a line that another may follow. -/
def newline : Grammar Unit := Grammar.char '\n' <|> Grammar.word "\r\n"

/-- A comment up to the end of its line. -/
def comment : Grammar Unit := do
  Grammar.char '#'
  let _ ← Grammar.takeWhile isPrintable

/-- The end of the text. -/
def endOfText : Grammar Unit
  | [] => some ((), [])
  | _ :: _ => none

/-- What may follow a statement: blanks, a comment, and the end of the line or of the text. -/
def lineEnd : Grammar Unit := do
  blanks
  let _ ← optional comment
  newline <|> endOfText

/-- Blanks, comments and line ends in any number, as they may stand between elements of a list. -/
def between : Grammar Unit := do
  let _ ← Grammar.repeated ((do let _ ← Grammar.oneOf isBlank) <|> newline <|>
    (do comment; newline))

end Toml

end EvidenceTags
