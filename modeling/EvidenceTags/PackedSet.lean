import EvidenceTags.Ascending
import EvidenceTags.ItemSet.Basic

/-!
# Sets of items and how they are packed

In a file a set of items is divided into blocks of 65536 consecutive numbers. A block is packed as
the list of its items or as one bit for each of its numbers, and its size asks for one of the two:
up to 4096 items are listed, more are mapped to bits. A block that was made out of runs may be
packed the other way, and it stays so until one of its items comes or goes.

A `PackedSet` is a set of items with those blocks, its exceptions. Only what is written to a file
depends on them: all questions about items go to the set itself.
-/

namespace EvidenceTags

/-- The two ways to pack a block. -/
inductive Packing where
  /-- The items of the block, in ascending order. -/
  | listed
  /-- One bit for each number of the block. -/
  | mapped
deriving DecidableEq, Repr

namespace Packing

/-- A block with more items than this asks for bits. -/
def listLimit : Nat := 4096

/-- The packing that a block with this many items asks for. -/
def ofSize (size : Nat) : Packing := if size ≤ listLimit then .listed else .mapped

/-- The other packing. -/
def other : Packing → Packing
  | .listed => .mapped
  | .mapped => .listed

end Packing

/-- How many numbers a block has. -/
def blockSize : Nat := 65536

/-- The items of a set that fall into a block. -/
def ItemSet.block (s : ItemSet) (b : Nat) : ItemSet :=
  s ∩ ItemSet.interval (b * blockSize) ((b + 1) * blockSize)

/-- A set of items with the blocks that are not packed as their size asks for. -/
structure PackedSet where
  items : ItemSet
  exceptions : List Nat
  ascending : exceptions.Pairwise (· < ·)
  inhabited : ∀ b ∈ exceptions, (items.block b).isEmpty = false

/-- A block of a set: its items and their packing. -/
structure PackedBlock where
  block : Nat
  packing : Packing
  items : ItemSet
deriving DecidableEq

namespace PackedSet

instance : DecidableEq PackedSet := fun a b =>
  decidable_of_iff (a.items = b.items ∧ a.exceptions = b.exceptions) (by cases a; cases b; simp)

/-- The set of these items, packed as the sizes of its blocks ask for. -/
def ofItems (items : ItemSet) : PackedSet :=
  ⟨items, [], Flips.pairwise_nil, fun _ h => absurd h List.not_mem_nil⟩

instance : EmptyCollection PackedSet := ⟨ofItems ∅⟩

instance : Inhabited PackedSet := ⟨∅⟩

/-- The set of these items with exceptions. Blocks without items are no exceptions. -/
def withExceptions (items : ItemSet) (blocks : List Nat) : PackedSet where
  items := items
  exceptions := (Ascending.ofList blocks).filter fun b => !(items.block b).isEmpty
  ascending := (Ascending.pairwise_ofList Nat.lt_trans Nat.lt_trichotomy blocks).filter _
  inhabited := by simp

/-- The set that blocks make up. -/
def ofBlocks (blocks : List PackedBlock) : PackedSet :=
  withExceptions (ItemSet.unionOf (blocks.map (·.items)))
    ((blocks.filter fun b => b.packing ≠ .ofSize b.items.size).map (·.block))

/-- How a block of so many items is packed. -/
def packing (s : PackedSet) (block size : Nat) : Packing :=
  if block ∈ s.exceptions then (Packing.ofSize size).other else .ofSize size

/-- Replaces the items. Exceptions are left where the items of a block are the same as before. -/
def changeTo (s : PackedSet) (items : ItemSet) : PackedSet :=
  let changed := (s.items \ items) ∪ (items \ s.items)
  withExceptions items (s.exceptions.filter fun b => (changed.block b).isEmpty)

/-- Adds items. -/
def addAll (s : PackedSet) (items : ItemSet) : PackedSet := s.changeTo (s.items ∪ items)

/-- Takes items away. -/
def removeAll (s : PackedSet) (items : ItemSet) : PackedSet := s.changeTo (s.items \ items)

@[simp] theorem items_ofItems (items : ItemSet) : (ofItems items).items = items := rfl

@[simp] theorem exceptions_ofItems (items : ItemSet) : (ofItems items).exceptions = [] := rfl

@[simp] theorem items_ofBlocks (blocks : List PackedBlock) :
    (ofBlocks blocks).items = ItemSet.unionOf (blocks.map (·.items)) := rfl

@[simp] theorem items_addAll (s : PackedSet) (items : ItemSet) :
    (s.addAll items).items = s.items ∪ items := rfl

@[simp] theorem items_removeAll (s : PackedSet) (items : ItemSet) :
    (s.removeAll items).items = s.items \ items := rfl

/-- A block without exception asks for nothing else than its size does. -/
theorem packing_ofItems (items : ItemSet) (block size : Nat) :
    (ofItems items).packing block size = .ofSize size := by
  simp [packing]

/-- A set without exceptions has none after a change. -/
theorem exceptions_changeTo_of_nil {s : PackedSet} (h : s.exceptions = []) (items : ItemSet) :
    (s.changeTo items).exceptions = [] := by
  simp [changeTo, withExceptions, h, Ascending.ofList]

end PackedSet

end EvidenceTags
