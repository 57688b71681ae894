import EvidenceTags.Error
import EvidenceTags.PackedSet
import EvidenceTags.TagMap.Basic

/-!
# The roster: which items carry which tag

A roster holds one set of items for each live tag. Beside the sets it may hold their union, which is
computed by the first reader and kept while it is known to be right. Adding items to a tag can only
enlarge the union, so the new items are added to a known union as well. After a removal an item may
still belong to another tag, so the known union is forgotten instead.
-/

namespace EvidenceTags

/-- The items of every live tag, and their union if it is known. -/
structure Roster where
  sets : TagMap PackedSet
  known : Option ItemSet
deriving DecidableEq

namespace Roster

/-- The roster without tags. -/
def empty : Roster := ⟨∅, none⟩

instance : Inhabited Roster := ⟨empty⟩

/-- The roster of the given sets. Their union is not yet known. -/
def ofSets (sets : TagMap PackedSet) : Roster := ⟨sets, none⟩

/-- The first number from `next` on that the ascending list `tags` leaves out. -/
def firstGap (next : Nat) : List TagId → Nat
  | [] => next
  | tag :: rest => if tag.value.toNat = next then firstGap (next + 1) rest else next

/-- The smallest tag that is not live. -/
def nextFree (r : Roster) : TagId := ⟨UInt32.ofNat (firstGap 0 r.sets.keys)⟩

/-- Whether `tag` is live. -/
def isLive (r : Roster) (tag : TagId) : Bool := r.sets.contains tag

/-- Makes `tag` live with no items. A live tag is left as it is. -/
def insertTag (r : Roster) (tag : TagId) : Roster :=
  if r.isLive tag then r else { r with sets := r.sets.insert tag ∅ }

/-- Forgets `tag`; the set is what it held. -/
def removeTag (r : Roster) (tag : TagId) : Option PackedSet × Roster :=
  match r.sets.get? tag with
  | none => (none, r)
  | some set => (some set, ⟨r.sets.erase tag, if set.items.isEmpty then r.known else none⟩)

/-- Adds items to a live tag. -/
def addMembers (r : Roster) (tag : TagId) (items : ItemSet) : Except StoreError Roster :=
  match r.sets.get? tag with
  | none => .error (.unknownTag tag)
  | some set => .ok ⟨r.sets.insert tag (set.addAll items), r.known.map (· ∪ items)⟩

/-- Takes items from a live tag. -/
def removeMembers (r : Roster) (tag : TagId) (items : ItemSet) : Except StoreError Roster :=
  match r.sets.get? tag with
  | none => .error (.unknownTag tag)
  | some set => .ok ⟨r.sets.insert tag (set.removeAll items), none⟩

/-- Whether `item` carries `tag`. -/
def contains (r : Roster) (item : ItemId) (tag : TagId) : Bool :=
  match r.sets.get? tag with
  | some set => set.items.contains item
  | none => false

/-- Whether `item` carries one of `tags`. -/
def containsAny (r : Roster) (item : ItemId) (tags : List TagId) : Bool :=
  tags.any (r.contains item)

/-- The tags that `item` carries, ascending. -/
def tagsOf (r : Roster) (item : ItemId) : List TagId :=
  (r.sets.entries.filter (·.2.items.contains item)).map (·.1)

/-- Number of items of a live tag. -/
def cardinality? (r : Roster) (tag : TagId) : Option Nat := (r.sets.get? tag).map (·.items.size)

/-- The union of all sets, computed if it is not known. -/
def union (r : Roster) : ItemSet :=
  r.known.getD (ItemSet.unionOf (r.sets.values.map (·.items)))

/-- The union of all sets, which is known from then on. -/
def unionAll (r : Roster) : ItemSet × Roster := (r.union, { r with known := some r.union })

/-- Whether `item` carries any tag. -/
def inAny (r : Roster) (item : ItemId) : Bool :=
  match r.known with
  | some union => union.contains item
  | none => r.sets.values.any (·.items.contains item)

/-- The items that carry one of `tags`. Tags that are not live add nothing. -/
def unionOf (r : Roster) (tags : List TagId) : ItemSet :=
  ItemSet.unionOf ((tags.filterMap r.sets.get?).map (·.items))

/-- The items that carry one of `tags`, and those up to `last` that carry no tag at all. The union
of all sets is known from then on. -/
def unionOfOrUntagged (r : Roster) (tags : List TagId) (last : ItemId) : ItemSet × Roster :=
  let (all, r') := r.unionAll
  (r.unionOf tags ∪ (ItemSet.upTo last \ all), r')

end Roster

end EvidenceTags
