import EvidenceTags.Hits
import EvidenceTags.Snapshot

/-!
# The state of a case

The state of a case is its roster, its registry, its selection, and the words that were typed as
names of tags. The roster and the registry are changed together, so that the tags that have items
are those that have names. Queries by name go through the registry, where a name stands for the
lowest tag that has it.
-/

namespace EvidenceTags

/-- What a store keeps in memory about a case. -/
structure CaseState where
  roster : Roster
  registry : Registry
  selection : Selection
  typedWords : List String
deriving DecidableEq

namespace CaseState

/-- The state of a case with items up to `last` of which nothing is known. -/
def empty (last : ItemId) : CaseState := ⟨.empty, .empty, .ofLength (last.toNat + 1), []⟩

/-- Makes a tag with a name, or finds the lowest one that has it. -/
def createTag (s : CaseState) (name : String) : TagId × CaseState :=
  match s.registry.idOf? name with
  | some tag => (tag, s)
  | none =>
    let tag := s.roster.nextFree
    (tag, { s with roster := s.roster.insertTag tag, registry := s.registry.insert tag name })

/-- Forgets a tag, its items and its attributes. -/
def deleteTag (s : CaseState) (tag : TagId) : CaseState :=
  { s with roster := (s.roster.removeTag tag).2, registry := s.registry.remove tag }

/-- Gives a tag another name. -/
def renameTag (s : CaseState) (tag : TagId) (name : String) : CaseState :=
  { s with registry := s.registry.rename tag name }

/-- Adds items to a tag. -/
def addMembers (s : CaseState) (tag : TagId) (items : ItemSet) : Except StoreError CaseState :=
  (s.roster.addMembers tag items).map fun roster => { s with roster }

/-- Takes items from a tag. -/
def removeMembers (s : CaseState) (tag : TagId) (items : ItemSet) : Except StoreError CaseState :=
  (s.roster.removeMembers tag items).map fun roster => { s with roster }

/-- Changes the registry by an operation that may be refused. -/
def changeRegistry (s : CaseState) (change : Registry → Except StoreError Registry) :
    Except StoreError CaseState :=
  (change s.registry).map fun registry => { s with registry }

/-- The names of the tags that an item carries, each once, in the order of their characters. -/
def namesOf (s : CaseState) (item : ItemId) : List String :=
  Ascending.ofList ((s.roster.tagsOf item).filterMap s.registry.names.get?)

/-- The tags that names stand for. Names of no tag are skipped. -/
def tagsNamed (s : CaseState) (names : List String) : List TagId :=
  names.filterMap s.registry.idOf?

/-- The items that carry any tag. -/
def unionAll (s : CaseState) : ItemSet × CaseState :=
  let (all, roster) := s.roster.unionAll
  (all, { s with roster })

/-- The items that carry a tag of one of these names. -/
def unionOf (s : CaseState) (names : List String) : ItemSet := s.roster.unionOf (s.tagsNamed names)

/-- The items that carry a tag of one of these names, and the items up to `last` without any tag. -/
def unionOfOrUntagged (s : CaseState) (last : ItemId) (names : List String) :
    ItemSet × CaseState :=
  let (set, roster) := s.roster.unionOfOrUntagged (s.tagsNamed names) last
  (set, { s with roster })

/-- Checks or unchecks an item. -/
def setChecked (s : CaseState) (item : ItemId) (value : Bool) : CaseState :=
  { s with selection := (s.selection.setChecked item value).2 }

/-- Checks every item that exists. -/
def checkAll (s : CaseState) (domain : Domain) : CaseState :=
  { s with selection := s.selection.checkAll domain }

/-- Unchecks everything. -/
def clearChecked (s : CaseState) : CaseState := { s with selection := s.selection.clearAll }

/-- Keeps the hits that carry a tag of one of these names. -/
def filterByTags (s : CaseState) (hits : Hits) (names : List String) : Hits :=
  hits.retainIn (s.unionOf names)

/-- Keeps the hits that carry a tag of one of these names, or are items up to `last` without tag. -/
def filterByTagsOrUntagged (s : CaseState) (last : ItemId) (hits : Hits) (names : List String) :
    Hits × CaseState :=
  let (set, s) := s.unionOfOrUntagged last names
  (hits.retainIn set, s)

/-- Keeps the hits without any tag. -/
def filterUntagged (s : CaseState) (hits : Hits) : Hits × CaseState :=
  let (all, s) := s.unionAll
  (hits.retainNotIn all, s)

/-- Keeps the checked hits. -/
def filterChecked (s : CaseState) (hits : Hits) : Hits := hits.retainChecked s.selection

/-- Keeps the hits that carry a tag of the report. -/
def filterInReport (s : CaseState) (hits : Hits) : Hits :=
  hits.retain fun item => (s.roster.tagsOf item).any s.registry.isInReport

/-- Characters that leave a text blank: those that the Unicode standard counts as white space. -/
def isWhiteSpace (c : Char) : Bool :=
  let n := c.toNat
  (0x9 ≤ n && n ≤ 0xD) || n == 0x20 || n == 0x85 || n == 0xA0 || n == 0x1680
    || (0x2000 ≤ n && n ≤ 0x200A) || n == 0x2028 || n == 0x2029 || n == 0x202F || n == 0x205F
    || n == 0x3000

/-- Remembers a typed word, unless it is blank or known; the answer tells whether it was new. -/
def addTypedWord (s : CaseState) (word : String) : Bool × CaseState :=
  if word.toList.all isWhiteSpace ∨ word ∈ s.typedWords then (false, s)
  else (true, { s with typedWords := s.typedWords ++ [word] })

/-- The part of the state that is saved. -/
def snapshot (s : CaseState) : Snapshot :=
  ⟨s.selection.flags, s.roster.sets, s.registry, s.typedWords,
    UInt64.ofNat s.selection.count⟩

/-- The state that was saved as a snapshot, in a case with items up to `last`. The flags are fitted
to these items and counted again. -/
def ofSnapshot (last : ItemId) (snapshot : Snapshot) : CaseState :=
  ⟨.ofSets snapshot.members, snapshot.registry,
    (Selection.ofLength (last.toNat + 1)).restore snapshot.checked, snapshot.typedWords⟩

end CaseState

end EvidenceTags
