/-!
# Tables of settings

A table maps keys to nodes. It comes about in one of three ways, which decide how it may be extended
later: a table of its own heading is complete once its section ends; a table that is only named on
the way to another heading may still get a heading of its own; and a table made by a dotted key can
be extended by further dotted keys of the same section only. Nothing is ever defined twice.
-/

namespace EvidenceTags

namespace Toml

/-- A value of a setting. Only texts and truth values are kept, since no setting takes another. -/
inductive Value where
  | text (s : String)
  | truth (b : Bool)
  | other
deriving DecidableEq, Repr, Inhabited

/-- How a table came about. -/
inductive Origin where
  /-- By a heading, or as the text as a whole. -/
  | heading
  /-- On the way to the heading of another table. -/
  | passage
  /-- By a dotted key. -/
  | dotted
deriving DecidableEq, Repr, Inhabited

/-- What a key stands for. Of a list of tables only the last one can be extended. -/
inductive Node where
  | value (v : Value)
  | table (origin : Origin) (entries : List (String × Node))
  | tables (last : List (String × Node))
deriving Inhabited

/-- The entries of a table, the latest first. -/
abbrev Entries := List (String × Node)

namespace Entries

/-- What a key stands for. -/
def get? (entries : Entries) (key : String) : Option Node := entries.lookup key

/-- The entries without those of a key. -/
def erase (entries : Entries) (key : String) : Entries := entries.filter (·.1 ≠ key)

/-- Lets a key stand for a node. -/
def set (entries : Entries) (key : String) (node : Node) : Entries :=
  (key, node) :: entries.erase key

/-- Changes the table at the end of a path on the way to a heading. What is passed must be tables,
and those that are missing are made. -/
def reach (change : Entries → Option Entries) : List String → Entries → Option Entries
  | [], entries => change entries
  | key :: path, entries =>
    match entries.get? key with
    | none => do
      let inner ← reach change path []
      pure (entries.set key (.table .passage inner))
    | some (.table origin inner) => do
      let inner ← reach change path inner
      pure (entries.set key (.table origin inner))
    | some (.tables last) => do
      let last ← reach change path last
      pure (entries.set key (.tables last))
    | some (.value _) => none

/-- The node at the end of a path on the way to a heading, if what is passed is there. Passing a
value ends at the value. -/
def find? : List String → Entries → Option Node
  | [], entries => some (.table .heading entries)
  | key :: path, entries =>
    match entries.get? key with
    | some (.table _ inner) => find? path inner
    | some (.tables last) => find? path last
    | some (.value v) => some (.value v)
    | none => none

/-- Gives a new key a value, below the tables that a dotted key names. The table that the value goes
into must have been made by dotted keys, unless the key has no dots. -/
def define (key : String) (v : Value) : List String → Entries → Option Entries
  | [], entries =>
    if (entries.get? key).isSome then none else some (entries.set key (.value v))
  | part :: path, entries =>
    match entries.get? part with
    | none => do
      let inner ← define key v path []
      pure (entries.set part (.table .dotted inner))
    | some (.table origin inner) =>
      if origin = .heading ∨ (path = [] ∧ origin ≠ .dotted) then none
      else do
        let inner ← define key v path inner
        pure (entries.set part (.table origin inner))
    | some (.tables last) =>
      if path = [] then none
      else do
        let last ← define key v path last
        pure (entries.set part (.tables last))
    | some (.value _) => none

end Entries

/-- One statement of a text of settings. -/
inductive Statement where
  /-- A value for a key, with the parts of the key before the last dot. -/
  | entry (path : List String) (key : String) (v : Value)
  /-- The heading of a table. -/
  | heading (path : List String) (key : String)
  /-- The heading of a further table of a list. -/
  | item (path : List String) (key : String)
deriving Repr

/-- The table whose section is being read. -/
structure Section where
  place : Option (List String × String)
  isItem : Bool
  entries : Entries

/-- Puts a finished section into its place. -/
def Section.close (root : Entries) (s : Section) : Option Entries :=
  match s.place with
  | none => some s.entries
  | some (path, key) =>
    root.reach (fun parent => some (parent.set key
      (if s.isItem then .tables s.entries else .table .heading s.entries))) path

/-- The table that a heading begins with: what was passed on the way to other headings is kept, and
nothing else may be there. -/
def startTable (root : Entries) (path : List String) (key : String) : Option Entries :=
  match root.find? path with
  | none => some []
  | some (.table _ parent) =>
    match Entries.get? parent key with
    | none => some []
    | some (.table .passage entries) => some entries
    | some _ => none
  | some _ => none

/-- Whether a further table of a list may stand at a place. -/
def mayAddItem (root : Entries) (path : List String) (key : String) : Bool :=
  match root.find? path with
  | none => true
  | some (.table _ parent) =>
    match Entries.get? parent key with
    | none => true
    | some (.tables _) => true
    | some _ => false
  | some _ => false

/-- Carries out statements, with the finished sections in `root`. -/
def build (root : Entries) (current : Section) : List Statement → Option Entries
  | [] => current.close root
  | .entry path key v :: rest => do
    let entries ← current.entries.define key v path
    build root { current with entries } rest
  | .heading path key :: rest => do
    let root ← current.close root
    let entries ← startTable root path key
    build root ⟨some (path, key), false, entries⟩ rest
  | .item path key :: rest => do
    let root ← current.close root
    if mayAddItem root path key then build root ⟨some (path, key), true, []⟩ rest else none

end Toml

end EvidenceTags
