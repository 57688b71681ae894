import EvidenceTags.Flags.Basic
import EvidenceTags.Registry
import EvidenceTags.Roster
import EvidenceTags.TagBits

/-!
# Snapshots

A snapshot is the part of a store's state that is written to a file. Two layouts exist, and they
differ only in how they say which item carries which tag: the current one has a set of items for
each tag, the legacy one a vector of tag bits for each item. `LegacySnapshot.migrate` goes from the
second to the first.
-/

namespace EvidenceTags

/-- The persistent state of a store, with `μ` telling which items carry which tags. -/
structure SavedState (μ : Type) where
  checked : Flags
  members : μ
  registry : Registry
  typedWords : List String
  checkedCount : UInt64
deriving DecidableEq

/-- A snapshot in the current layout: a set of items for each tag. -/
abbrev Snapshot := SavedState (TagMap PackedSet)

/-- A snapshot in the legacy layout: tag bits for each item. -/
abbrev LegacySnapshot := SavedState (List TagBits)

namespace LegacySnapshot

/-- A snapshot of `items` items without tags, with room for `slots` tags each. -/
def ofSize (items slots : Nat) : LegacySnapshot :=
  ⟨.unset items, List.replicate items (TagBits.ofSlots slots), .empty, [], 0⟩

/-- Gives `tag` to an item, if both have room. -/
def setMember (s : LegacySnapshot) (item : ItemId) (tag : TagId) : LegacySnapshot :=
  { s with members := s.members.modify item.toNat (·.insert tag) }

/-- The items up to `last` whose bits have `tag`. -/
def holders (members : List TagBits) (last : ItemId) (tag : TagId) : ItemSet :=
  ItemSet.ofList (((members.take (last.toNat + 1)).zipIdx.filter (·.1.contains tag)).map
    fun p => UInt32.ofNat p.2)

/-- The same state with one set of items for each named tag. -/
def migrate (s : LegacySnapshot) (last : ItemId) : Snapshot :=
  ⟨s.checked, s.registry.names.mapWithKey fun tag _ => .ofItems (holders s.members last tag),
    s.registry, s.typedWords, s.checkedCount⟩

end LegacySnapshot

/-- What a snapshot file holds. -/
inductive StoredSnapshot where
  | legacy (snapshot : LegacySnapshot)
  | current (snapshot : Snapshot)
deriving DecidableEq

namespace StoredSnapshot

/-- The number of the layout. -/
def format : StoredSnapshot → UInt16
  | .legacy _ => 1
  | .current _ => 2

/-- The state in the current layout, over a universe that ends with `last`. -/
def toCurrent (last : ItemId) : StoredSnapshot → Snapshot
  | .legacy snapshot => snapshot.migrate last
  | .current snapshot => snapshot

end StoredSnapshot

end EvidenceTags
