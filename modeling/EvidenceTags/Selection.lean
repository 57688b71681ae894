import EvidenceTags.Domain
import EvidenceTags.Flags.Basic

/-!
# The selection: which items are checked

A selection has one flag for every number of the universe, and the count of the flags that are set.
The count is kept with every change instead of being taken from the flags, so that it is at hand;
every operation keeps it equal to the number of set flags. Items outside the universe are ignored.
-/

namespace EvidenceTags

/-- A flag for each item, and how many flags are set. -/
structure Selection where
  flags : Flags
  count : Nat
deriving DecidableEq

namespace Selection

/-- A selection over `length` items, none of them checked. -/
def ofLength (length : Nat) : Selection := ⟨.unset length, 0⟩

instance : Inhabited Selection := ⟨ofLength 0⟩

/-- Number of items that have a flag. -/
def size (s : Selection) : Nat := s.flags.size

/-- Whether `item` is checked. -/
def isChecked (s : Selection) (item : ItemId) : Bool := s.flags.isSet item.toNat

/-- Checks or unchecks an item; the answer tells whether that changed anything. -/
def setChecked (s : Selection) (item : ItemId) (value : Bool) : Bool × Selection :=
  if s.size ≤ item.toNat ∨ s.isChecked item = value then (false, s)
  else (true, ⟨s.flags.set item.toNat value, if value then s.count + 1 else s.count - 1⟩)

/-- Checks every item that exists and has a flag; those that were not checked are counted. -/
def checkAll (s : Selection) (domain : Domain) : Selection :=
  let flags := s.flags.setAll domain.items
  ⟨flags, s.count + (flags.count - s.flags.count)⟩

/-- Unchecks everything. -/
def clearAll (s : Selection) : Selection := ofLength s.size

/-- Takes over flags, of which those beyond the universe are dropped and missing ones are unset. -/
def restore (s : Selection) (flags : Flags) : Selection :=
  let fitted := flags.resize s.size
  ⟨fitted, fitted.count⟩

end Selection

end EvidenceTags
