import EvidenceTags.FileTree

/-!
# Machines

A machine is a host as a value: a file tree, a clock, a working directory, and the log. Operations
of a store on a machine are functions from machines to machines.

Scratch files of a process are told apart by its number and a serial number, which every request for
a mark increases.
-/

namespace EvidenceTags

/-- A host as a value. -/
structure Machine where
  tree : FileTree
  now : Int
  workingDir : Location
  temporaryDir : Path
  process : Nat
  serial : Nat
  /-- The log, the latest event first. -/
  events : List LogEvent
deriving DecidableEq, Repr

namespace Machine

/-- Where a path leads. -/
def locate (m : Machine) (p : Path) : Except OsError Location := m.tree.locate m.workingDir p

/-- What is at a path. -/
def entry? (m : Machine) (p : Path) : Option Entry :=
  match m.locate p with
  | .ok l => m.tree.get? l
  | .error _ => none

/-- The status of what is at a path. -/
def status? (m : Machine) (p : Path) : Option FileStatus :=
  (m.entry? p).map fun entry => ⟨entry.content.isNone, entry.modified⟩

/-- The absolute path of a location. -/
def pathOf (l : Location) : Path := ⟨"/" ++ "/".intercalate l⟩

/-- Whether the steps from a location lead only to locations whose absolute paths can be taken. -/
def fitsAlong : Location → List String → Bool
  | _, [] => true
  | l, step :: rest =>
    if step = "" ∨ step = "." then fitsAlong l rest
    else if step = ".." then fitsAlong l.dropLast rest
    else
      let here := l ++ [step]
      decide ((pathOf here).text.utf8ByteSize ≤ FileTree.pathLimit) && fitsAlong here rest

/-- The absolute path of what a path leads to. It is found step by step, and after each step the
absolute path so far is looked up. -/
def canonical? (m : Machine) (p : Path) : Option Path :=
  match m.tree.resolve m.workingDir p with
  | .ok l => if fitsAlong (FileTree.start m.workingDir p) p.segments then some (pathOf l) else none
  | .error _ => none

/-- The content of a file. -/
def read (m : Machine) (p : Path) : Except OsError Wire.Bytes := do
  let l ← m.locate p
  match m.tree.get? l with
  | none => .error .notFound
  | some ⟨none, _⟩ => .error .isDirectory
  | some ⟨some content, _⟩ => .ok content

/-- The outcome of a change to the tree, which stays as it was if the change failed. -/
def change (m : Machine) : Except OsError FileTree → Except OsError Unit × Machine
  | .ok tree => (.ok (), { m with tree })
  | .error error => (.error error, m)

/-- Makes or empties the file at a path. -/
def create (m : Machine) (p : Path) : Except OsError FileTree := do
  m.tree.create m.now (← m.tree.target m.workingDir p .isDirectory)

/-- Makes a file at a path where nothing is yet. -/
def createNew (m : Machine) (p : Path) : Except OsError FileTree := do
  let l ← m.tree.target m.workingDir p .isDirectory
  if (m.tree.get? l).isSome then .error .exists else m.tree.create m.now l

/-- Moves the file at a path to another path. The goal must not name a directory, be it by a
separator at its end. -/
def rename (m : Machine) (source goal : Path) : Except OsError FileTree := do
  FileTree.checkPath goal
  let l ← m.locate source
  let trimmed : Path := ⟨String.ofList (goal.text.toList.reverse.dropWhile (· = '/')).reverse⟩
  let g ← m.tree.target m.workingDir trimmed .busy
  if trimmed ≠ goal then .error .notDirectory else m.tree.rename m.now l g

instance : Host (StateM Machine) where
  status p := fun m => (m.status? p, m)
  canonical p := fun m => (m.canonical? p, m)
  read p := fun m => (m.read p, m)
  create p := fun m => m.change (m.create p)
  createNew p := fun m => m.change (m.createNew p)
  canAppend p := fun m => (((m.entry? p).bind Entry.content).isSome, m)
  append p bytes := fun m => m.change (do m.tree.append m.now (← m.locate p) bytes)
  sync _ := fun m => (.ok (), m)
  rename source goal := fun m => m.change (m.rename source goal)
  remove p := fun m => m.change (do m.tree.remove m.now (← m.locate p))
  scratchMark := fun m =>
    (toString m.process ++ "-" ++ toString m.serial, { m with serial := m.serial + 1 })
  temporaryDir := fun m => (m.temporaryDir, m)
  log event := fun m => ((), { m with events := event :: m.events })

end Machine

end EvidenceTags
