import EvidenceTags.Machine

/-!
# Machines with links

On a `Machine` every file has one name. Real systems have links: a name may stand for a path, which
is followed wherever the way goes on from there (a symbolic link), and several names may stand for
one file (hard links). So a file may be changed under one name and read under another.

What a name stands for is a `Node`. Calls that open a file follow links to the end of the way. Calls
that make, remove or move a name follow links only on the way to the directory that holds it.
-/

namespace EvidenceTags

open FileTree (checkPath checkText start)

/-- What a name stands for: a directory, a file by its number, or a path. -/
inductive Node where
  | directory
  | file (number : Nat)
  | link (goal : Path)
deriving DecidableEq, Repr

/-- Whether a name stands for a file. -/
def Node.isFile : Node → Bool
  | .file _ => true
  | .directory | .link _ => false

/-- What a file holds, and when it was last changed. -/
structure FileBody where
  content : Wire.Bytes
  modified : Int
deriving DecidableEq, Repr

/-- The names of a system, each location once, and the files by their numbers. -/
structure LinkedTree where
  nodes : List (Location × Node)
  files : Nat → FileBody
  /-- When a directory was last changed. -/
  changed : Location → Int

namespace LinkedTree

/-- What the name at a location stands for. -/
def node? (t : LinkedTree) (l : Location) : Option Node := t.nodes.lookup l

/-! ## Ways -/

/-- How many links may be followed on one way. -/
def linkLimit : Nat := 40

section

variable (node? : Location → Option Node) (last : Bool)

/-- Where steps lead from a location, where `jump` goes on from a link with the steps that are left.
At the end of the way a link is followed only if `last` says so. -/
def stepsFrom (jump : Location → Path → List String → Except OsError Location) :
    Location → List String → Except OsError Location
  | l, [] =>
    match node? l with
    | some (.link goal) => if last then jump l goal [] else .ok l
    | _ => .ok l
  | l, step :: rest =>
    match node? l with
    | none => .error .notFound
    | some (.file _) => .error .notDirectory
    | some (.link goal) => jump l goal (step :: rest)
    | some .directory =>
      if step = "" ∨ step = "." then stepsFrom jump l rest
      else if step = ".." then stepsFrom jump l.dropLast rest
      else if FileTree.nameLimit < step.utf8ByteSize then .error .nameTooLong
      else stepsFrom jump (l ++ [step]) rest

/-- Where steps lead from a location, if not more links than `budget` are met. There need not be
anything at the end of the way. -/
def walk : Nat → Location → List String → Except OsError Location
  | 0 => stepsFrom node? last fun _ _ _ => .error .tooManyLinks
  | budget + 1 => stepsFrom node? last fun l goal rest => do
    checkPath goal
    walk budget (start l.dropLast goal) (goal.segments ++ rest)

end

variable (t : LinkedTree) (base : Location) (p : Path) (last : Bool)

/-- Where a path leads, whether there is anything or not. -/
def leads : Except OsError Location := do
  checkPath p
  walk t.node? last linkLimit (start base p) p.segments

/-- Where a path leads, if there is anything. -/
def find : Except OsError Location := do
  let l ← t.leads base p last
  if (t.node? l).isSome then .ok l else .error .notFound

/-- Where an entry would be made under a path: the location, or `unnamed` if the path does not end
in a name. The directory that is to hold the entry must exist. -/
def spot (unnamed : OsError) : Except OsError Location := do
  checkPath p
  match p.segments.getLast? with
  | some name =>
    if name = "" ∨ name = "." ∨ name = ".." then do
      let directory ← walk t.node? true linkLimit (start base p) p.segments.dropLast
      match t.node? directory with
      | none => .error .notFound
      | some .directory => .error unnamed
      | some _ => .error .notDirectory
    else t.leads base p last
  | none => .error unnamed

/-! ## Changes -/

/-- Takes away the name at a location. -/
def erase (l : Location) : LinkedTree := { t with nodes := t.nodes.filter (·.1 ≠ l) }

/-- Lets the name at a location stand for something else. -/
def put (l : Location) (node : Node) : LinkedTree :=
  { t with nodes := (l, node) :: (t.erase l).nodes }

/-- Gives a file another content. -/
def write (number : Nat) (body : FileBody) : LinkedTree :=
  { t with files := fun n => if n = number then body else t.files n }

/-- Changes the time of the directory at a location. -/
def touch (l : Location) (now : Int) : LinkedTree :=
  { t with changed := fun x => if x = l then now else t.changed x }

/-- A number that no name stands for. -/
def fresh : Nat :=
  t.nodes.foldr (fun entry n => match entry.2 with
    | .file number => max n (number + 1)
    | _ => n) 0

variable (now : Int) (l : Location)

/-- Makes an empty file, or empties the one that is there. -/
def create : Except OsError LinkedTree :=
  match t.node? l with
  | none => .ok (((t.put l (.file t.fresh)).write t.fresh ⟨[], now⟩).touch l.dropLast now)
  | some (.file number) => .ok (t.write number ⟨[], now⟩)
  | some _ => .error .isDirectory

/-- Extends a file. -/
def append (bytes : Wire.Bytes) : Except OsError LinkedTree :=
  match t.node? l with
  | none => .error .notFound
  | some (.file number) => .ok (t.write number ⟨(t.files number).content ++ bytes, now⟩)
  | some _ => .error .isDirectory

/-- Removes the name of a file, or a link. -/
def remove : Except OsError LinkedTree :=
  match t.node? l with
  | none => .error .notFound
  | some .directory => .error .isDirectory
  | some _ => .ok ((t.erase l).touch l.dropLast now)

/-- Lets another location bear what a location stands for. -/
def move (source goal : Location) (node : Node) : LinkedTree :=
  (((t.erase source).put goal node).touch source.dropLast now).touch goal.dropLast now

/-- Moves the name of a file, or a link, to another location, where it replaces what is no
directory. A file that bears both names keeps them. -/
def rename (source goal : Location) : Except OsError LinkedTree :=
  match t.node? source, t.node? goal with
  | none, _ => .error .notFound
  | some _, some .directory => .error .isDirectory
  | some node, there =>
    if node.isFile ∧ there = some node then .ok t else .ok (t.move now source goal node)

end LinkedTree

/-- A host with links as a value. -/
structure LinkedMachine where
  tree : LinkedTree
  now : Int
  workingDir : Location
  temporaryDir : Path
  process : Nat
  serial : Nat
  /-- The log, the latest event first. -/
  events : List LogEvent

namespace LinkedMachine

variable (m : LinkedMachine) (p : Path)

/-- Where a path leads, if there is anything. -/
def locate (last : Bool) : Except OsError Location := m.tree.find m.workingDir p last

/-- The status of what is at a path. -/
def status? : Option FileStatus :=
  match m.locate p true with
  | .error _ => none
  | .ok l =>
    match m.tree.node? l with
    | some .directory => some ⟨true, m.tree.changed l⟩
    | some (.file number) => some ⟨false, (m.tree.files number).modified⟩
    | _ => none

/-- The absolute path of what a path leads to. It is found step by step, and what has too long an
absolute path is not found. -/
def canonical? : Option Path :=
  let short (l : Location) : Option Node :=
    if (Machine.pathOf l).text.utf8ByteSize ≤ FileTree.pathLimit then m.tree.node? l else none
  match checkText p with
  | .error _ => none
  | .ok () =>
    if p.text = "" then none
    else
      match LinkedTree.walk short true LinkedTree.linkLimit (start m.workingDir p) p.segments with
      | .ok l => if (short l).isSome then some (Machine.pathOf l) else none
      | .error _ => none

/-- The content of a file. -/
def read : Except OsError Wire.Bytes := do
  match m.tree.node? (← m.locate p true) with
  | none => .error .notFound
  | some (.file number) => .ok (m.tree.files number).content
  | some _ => .error .isDirectory

/-- Whether a path leads to a file that could be extended. -/
def canAppend : Bool :=
  match m.read p with
  | .ok _ => true
  | .error _ => false

/-- The outcome of a change to the tree, which stays as it was if the change failed. -/
def change : Except OsError LinkedTree → Except OsError Unit × LinkedMachine
  | .ok tree => (.ok (), { m with tree })
  | .error error => (.error error, m)

/-- Makes or empties the file that a path leads to. -/
def create : Except OsError LinkedTree := do
  m.tree.create m.now (← m.tree.spot m.workingDir p true .isDirectory)

/-- Makes a file at a path where nothing is yet. -/
def createNew : Except OsError LinkedTree := do
  let l ← m.tree.spot m.workingDir p false .isDirectory
  if (m.tree.node? l).isSome then .error .exists else m.tree.create m.now l

/-- Extends the file that a path leads to. -/
def append (bytes : Wire.Bytes) : Except OsError LinkedTree := do
  m.tree.append m.now (← m.locate p true) bytes

/-- Removes what is at a path. -/
def remove : Except OsError LinkedTree := do
  m.tree.remove m.now (← m.locate p false)

/-- Moves what is at a path to another path. The goal must not name a directory, be it by a
separator at its end. -/
def rename (source goal : Path) : Except OsError LinkedTree := do
  checkPath goal
  let l ← m.locate source false
  let trimmed : Path := ⟨String.ofList (goal.text.toList.reverse.dropWhile (· = '/')).reverse⟩
  let g ← m.tree.spot m.workingDir trimmed false .busy
  if trimmed ≠ goal then .error .notDirectory else m.tree.rename m.now l g

instance : Host (StateM LinkedMachine) where
  status p := fun m => (m.status? p, m)
  canonical p := fun m => (m.canonical? p, m)
  read p := fun m => (m.read p, m)
  create p := fun m => m.change (m.create p)
  createNew p := fun m => m.change (m.createNew p)
  canAppend p := fun m => (m.canAppend p, m)
  append p bytes := fun m => m.change (m.append p bytes)
  sync _ := fun m => (.ok (), m)
  rename source goal := fun m => m.change (m.rename source goal)
  remove p := fun m => m.change (m.remove p)
  scratchMark := fun m =>
    (toString m.process ++ "-" ++ toString m.serial, { m with serial := m.serial + 1 })
  temporaryDir := fun m => (m.temporaryDir, m)
  log event := fun m => ((), { m with events := event :: m.events })

end LinkedMachine

end EvidenceTags
