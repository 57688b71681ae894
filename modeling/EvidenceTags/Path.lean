/-!
# Paths

A path is its text; nothing is normalised when paths are joined. Taking a path apart looks at its
components instead: separators may be doubled or trail, and a `.` counts only at the very beginning.
So `m/../m/./x` has the parent `m/../m`, and both `a/` and `a/.` end in the name `a`.
-/

namespace EvidenceTags

/-- The text of a path. -/
structure Path where
  text : String
deriving DecidableEq, Repr, Inhabited

namespace Path

instance : ToString Path := ⟨Path.text⟩

/-- Whether the path starts at the root. -/
def isAbsolute (p : Path) : Bool := p.text.toList.head? == some '/'

/-- The path `base` extended by `rest`. An absolute `rest` replaces `base`, and a separator is put
between the two only if `base` does not end in one. -/
def join (base : Path) (rest : String) : Path :=
  if rest.toList.head? = some '/' then ⟨rest⟩
  else if base.text = "" ∨ base.text.toList.getLast? = some '/' then ⟨base.text ++ rest⟩
  else ⟨base.text ++ "/" ++ rest⟩

/-- Drops what trails the last component, on reversed text: separators, and a `.` that is not the
first component. The separator of the root stays. -/
def trimEnd : List Char → List Char
  | [] => []
  | ['/'] => ['/']
  | '/' :: rest => trimEnd rest
  | ['.', '/'] => ['/']
  | '.' :: '/' :: rest => trimEnd rest
  | text => text

/-- The text up to the last component, and that component. -/
def splitLast (p : Path) : String × String :=
  let reversed := trimEnd p.text.toList.reverse
  (String.ofList (reversed.dropWhile (· ≠ '/')).reverse,
    String.ofList (reversed.takeWhile (· ≠ '/')).reverse)

/-- The path without its last component. The root and the empty path have no parent. -/
def parent? (p : Path) : Option Path :=
  let (before, last) := p.splitLast
  if last = "" then none
  else some ⟨String.ofList (trimEnd before.toList.reverse).reverse⟩

/-- The last component, if it is a name and not `.` or `..`. -/
def fileName? (p : Path) : Option String :=
  let last := p.splitLast.2
  if last = "" ∨ last = "." ∨ last = ".." then none else some last

/-- Cuts a text at its separators, where the reversed text `name` stands before it. -/
def cutOnto (name : List Char) : List Char → List String
  | [] => [String.ofList name.reverse]
  | '/' :: rest => String.ofList name.reverse :: cutOnto [] rest
  | c :: rest => cutOnto (c :: name) rest

/-- The text between the separators, in order. -/
def segments (p : Path) : List String := cutOnto [] p.text.toList

end Path

end EvidenceTags
