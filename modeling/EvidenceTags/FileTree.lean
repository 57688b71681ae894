import EvidenceTags.Host

/-!
# File trees

A file tree maps locations, which are the names on the way from the root, to files and directories.
There are no links, so a path leads from a directory to one location: `..` goes back to the
directory that the last step came from, and every step but the last has to end in a directory.
Where there are links, a tree is a `LinkedTree` (in `EvidenceTags.LinkedMachine`).

Names and paths have a greatest length, and a path that is too long or holds a NUL is refused before
anything is looked up.

Making, renaming and removing an entry changes the time of the directory that holds it, writing to a
file that of the file.
-/

namespace EvidenceTags

/-- The names on the way from the root to a file or directory. -/
abbrev Location := List String

/-- A file or a directory with the time of its last change. -/
structure Entry where
  /-- The content of a file; a directory has none. -/
  content : Option Wire.Bytes
  modified : Int
deriving DecidableEq, Repr

/-- The files and directories of a system, each location once. -/
structure FileTree where
  entries : List (Location × Entry)
deriving DecidableEq, Repr

namespace FileTree

/-- What is at a location. -/
def get? (t : FileTree) (l : Location) : Option Entry := t.entries.lookup l

/-- Whether a directory is at a location. -/
def isDirectory (t : FileTree) (l : Location) : Bool :=
  match t.get? l with
  | some entry => entry.content.isNone
  | none => false

/-- Removes what is at a location. -/
def erase (t : FileTree) (l : Location) : FileTree := ⟨t.entries.filter (·.1 ≠ l)⟩

/-- Puts an entry at a location, over what is there. -/
def put (t : FileTree) (l : Location) (entry : Entry) : FileTree :=
  ⟨(l, entry) :: (t.erase l).entries⟩

/-- Changes the time of what is at a location. -/
def touch (t : FileTree) (l : Location) (now : Int) : FileTree :=
  match t.get? l with
  | some entry => t.put l { entry with modified := now }
  | none => t

/-- Removes what is at a location and everything below it. -/
def eraseAll (t : FileTree) (l : Location) (now : Int) : FileTree :=
  FileTree.touch ⟨t.entries.filter fun e => !l.isPrefixOf e.1⟩ l.dropLast now

/-- How many bytes a name may have. -/
def nameLimit : Nat := 255

/-- How many bytes a path may have. -/
def pathLimit : Nat := 4095

/-- Refuses paths that hold a NUL. -/
def checkText (p : Path) : Except OsError Unit :=
  if p.text.toList.contains '\x00' then .error .nulInName else .ok ()

/-- Refuses paths that no file operation takes. -/
def checkPath (p : Path) : Except OsError Unit := do
  checkText p
  if pathLimit < p.text.utf8ByteSize then .error .nameTooLong
  else if p.text = "" then .error .notFound
  else .ok ()

/-- Where a path leads from a location, if there is anything. -/
def follow (t : FileTree) : Location → List String → Except OsError Location
  | l, [] => if (t.get? l).isSome then .ok l else .error .notFound
  | l, step :: rest =>
    match t.get? l with
    | none => .error .notFound
    | some entry =>
      if entry.content.isSome then .error .notDirectory
      else if step = "" ∨ step = "." then follow t l rest
      else if step = ".." then follow t l.dropLast rest
      else if nameLimit < step.utf8ByteSize then .error .nameTooLong
      else follow t (l ++ [step]) rest

/-- The location from which a path starts. -/
def start (base : Location) (p : Path) : Location := if p.isAbsolute then [] else base

/-- Where a path leads, if there is anything. The empty path leads nowhere. -/
def locate (t : FileTree) (base : Location) (p : Path) : Except OsError Location := do
  checkPath p
  t.follow (start base p) p.segments

/-- Where a path leads that is taken step by step, so that its own length does not count. -/
def resolve (t : FileTree) (base : Location) (p : Path) : Except OsError Location := do
  checkText p
  if p.text = "" then .error .notFound else t.follow (start base p) p.segments

/-- Where an entry would be made under a path: the location, or `unnamed` if the path does not end
in a name. The directory that is to hold the entry must exist. -/
def target (t : FileTree) (base : Location) (p : Path) (unnamed : OsError) :
    Except OsError Location := do
  checkPath p
  let directory ← t.follow (start base p) p.segments.dropLast
  if ¬ t.isDirectory directory then .error .notDirectory
  else
    match p.segments.getLast? with
    | some name =>
      if name = "" ∨ name = "." ∨ name = ".." then .error unnamed
      else if nameLimit < name.utf8ByteSize then .error .nameTooLong
      else .ok (directory ++ [name])
    | none => .error unnamed

/-- Puts a new entry at a location, in a directory that thereby changes. -/
def add (t : FileTree) (l : Location) (entry : Entry) : FileTree :=
  (t.put l entry).touch l.dropLast entry.modified

/-- Makes an empty file, or empties the one that is there. -/
def create (t : FileTree) (now : Int) (l : Location) : Except OsError FileTree :=
  match t.get? l with
  | none => .ok (t.add l ⟨some [], now⟩)
  | some entry =>
    if entry.content.isNone then .error .isDirectory else .ok (t.put l ⟨some [], now⟩)

/-- Extends a file. -/
def append (t : FileTree) (now : Int) (l : Location) (bytes : Wire.Bytes) :
    Except OsError FileTree :=
  match t.get? l with
  | none => .error .notFound
  | some ⟨none, _⟩ => .error .isDirectory
  | some ⟨some content, _⟩ => .ok (t.put l ⟨some (content ++ bytes), now⟩)

/-- Removes a file. -/
def remove (t : FileTree) (now : Int) (l : Location) : Except OsError FileTree :=
  match t.get? l with
  | none => .error .notFound
  | some entry =>
    if entry.content.isNone then .error .isDirectory else .ok ((t.erase l).touch l.dropLast now)

/-- Moves a file to another location, where it replaces a file that is there. -/
def rename (t : FileTree) (now : Int) (source goal : Location) : Except OsError FileTree :=
  match t.get? source with
  | none => .error .notFound
  | some entry =>
    if t.isDirectory goal then .error .isDirectory
    else .ok ((((t.erase source).put goal entry).touch source.dropLast now).touch goal.dropLast now)

/-- Makes the directories that are missing on the way along the given steps. The last is not made if
`.` follows it, which is looked up in it. The tree may have changed even if that fails. -/
def makeSteps (t : FileTree) (now : Int) : Location → List String → Bool × FileTree
  | l, [] => (t.isDirectory l, t)
  | l, step :: rest =>
    if ¬ t.isDirectory l then (false, t)
    else if step = "" ∨ step = "." then makeSteps t now l rest
    else if step = ".." then makeSteps t now l.dropLast rest
    else if (t.get? (l ++ [step])).isSome then makeSteps t now (l ++ [step]) rest
    else if nameLimit < step.utf8ByteSize then (false, t)
    -- what is missing cannot be entered, so the way to it ends here
    else if "." ∈ rest ∧ rest.all fun s => s == "" || s == "." then (false, t)
    else makeSteps (t.add (l ++ [step]) ⟨none, now⟩) now (l ++ [step]) rest

/-- Makes the directories on a path that are missing. -/
def makeDirs (t : FileTree) (now : Int) (base : Location) (p : Path) : Bool × FileTree :=
  match checkPath p with
  | .error _ => (false, t)
  | .ok () => t.makeSteps now (start base p) p.segments

end FileTree

end EvidenceTags
