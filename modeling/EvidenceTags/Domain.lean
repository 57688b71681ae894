import EvidenceTags.ItemSet.Basic

/-!
# The domain of a case

The items that exist in a case: all numbers up to a last one, or the numbers of an explicit list.
Either way a domain is a set of items. A list names its items in any order and as often as it likes.
-/

namespace EvidenceTags

/-- The items that exist in a case. -/
structure Domain where
  items : ItemSet
deriving DecidableEq

namespace Domain

/-- Every number up to and including `last` exists. -/
def dense (last : ItemId) : Domain := ⟨ItemSet.upTo last⟩

/-- Exactly the listed items exist. -/
def ofItems (items : List ItemId) : Domain := ⟨ItemSet.ofList items⟩

/-- Number of items that exist, as far as 32 bits can tell. -/
def totalItems (d : Domain) : UInt32 := UInt32.ofNat (min d.items.size (ItemSet.limit - 1))

/-- The highest item, or `0` if none exists. -/
def lastId (d : Domain) : ItemId :=
  match d.items.runs.getLast? with
  | some run => UInt32.ofNat run.2
  | none => 0

/-- The first `n` numbers of a list of runs. -/
def takeRuns : Nat → List (Nat × Nat) → List Nat
  | _, [] => []
  | n, run :: rest =>
    let size := min n (run.2 + 1 - run.1)
    List.range' run.1 size ++ takeRuns (n - size) rest

/-- The first `n` items, ascending. -/
def first (d : Domain) (n : Nat) : List ItemId := (takeRuns n d.items.runs).map UInt32.ofNat

end Domain

end EvidenceTags
