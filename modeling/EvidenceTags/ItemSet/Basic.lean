import EvidenceTags.Flips.Basic
import EvidenceTags.Tag

/-!
# Sets of items

A set of items is kept as the ascending list of the numbers at which membership flips. Long runs of
items cost two numbers, so a set may reach from `0` to `2 ^ 32 - 1`.

The invariants of the type are that the flips ascend strictly, that none lies beyond `2 ^ 32`, and
that the set is closed there; hence each set has exactly one list (`ItemSet.ext_contains`, in
`EvidenceTags.ItemSet.Lemmas`).
-/

namespace EvidenceTags

/-- Exclusive upper end of the item numbers. -/
def ItemSet.limit : Nat := 4294967296

/-- A finite set of items, as the ascending list of the numbers at which membership flips. -/
structure ItemSet where
  bounds : List Nat
  ascending : bounds.Pairwise (· < ·)
  bounded : ∀ b ∈ bounds, b ≤ ItemSet.limit
  closed : Flips.within false bounds ItemSet.limit = false

namespace ItemSet

open Flips (within)

instance : DecidableEq ItemSet := fun a b =>
  decidable_of_iff (a.bounds = b.bounds) (by cases a; cases b; simp)

/-- Whether `item` belongs to the set. -/
def contains (s : ItemSet) (item : ItemId) : Bool := within false s.bounds item.toNat

instance : Membership ItemId ItemSet := ⟨fun s item => s.contains item = true⟩

instance (item : ItemId) (s : ItemSet) : Decidable (item ∈ s) :=
  inferInstanceAs (Decidable (s.contains item = true))

/-- The set without items. -/
def empty : ItemSet := ⟨[], Flips.pairwise_nil, fun _ h => absurd h List.not_mem_nil, rfl⟩

instance : EmptyCollection ItemSet := ⟨empty⟩

instance : Inhabited ItemSet := ⟨empty⟩

/-- Whether no item belongs to the set. -/
def isEmpty (s : ItemSet) : Bool := s.bounds.isEmpty

/-- The items from `lo` up to but not including `hi`. -/
def interval (lo hi : Nat) : ItemSet :=
  if h : lo < hi ∧ hi ≤ limit then
    { bounds := [lo, hi]
      ascending := by simp [h.1]
      bounded := by
        intro b hb
        simp only [List.mem_cons, List.not_mem_nil, or_false] at hb
        omega
      closed := by
        rw [Flips.within_cons_of_le (Nat.le_trans (Nat.le_of_lt h.1) h.2),
          Flips.within_cons_of_le h.2]
        rfl }
  else empty

/-- The set of one item. -/
def singleton (item : ItemId) : ItemSet := interval item.toNat (item.toNat + 1)

/-- The items from `0` to `last`, both included. -/
def upTo (last : ItemId) : ItemSet := interval 0 (last.toNat + 1)

/-- The items for which `f` holds of the memberships in `a` and in `b`. Items of neither set must
be left out, for the result to be finite. -/
def combine (f : Bool → Bool → Bool) (hf : f false false = false) (a b : ItemSet) : ItemSet where
  bounds := Flips.combine f a.bounds b.bounds
  ascending := Flips.pairwise_combine f a.ascending b.ascending
  bounded := fun x hx => (Flips.mem_combine hx).elim (a.bounded x) (b.bounded x)
  closed := by
    rw [Flips.within_combine hf limit a.ascending b.ascending, a.closed, b.closed, hf]

/-- The items of either set. -/
def union (a b : ItemSet) : ItemSet := combine (· || ·) rfl a b

/-- The items of `a` that are not in `b`. -/
def difference (a b : ItemSet) : ItemSet := combine (fun p q => p && !q) rfl a b

/-- The items of both sets. -/
def inter (a b : ItemSet) : ItemSet := combine (· && ·) rfl a b

instance : Union ItemSet := ⟨union⟩

instance : SDiff ItemSet := ⟨difference⟩

instance : Inter ItemSet := ⟨inter⟩

/-- Adds a set to a list of partial unions that is used like a binary counter: the place `i` is
empty or holds the union of `2 ^ i` sets. -/
def carry (s : ItemSet) : List (Option ItemSet) → List (Option ItemSet)
  | [] => [some s]
  | none :: rest => some s :: rest
  | some t :: rest => none :: carry (t ∪ s) rest

/-- The union of all sets of a list. Sets of like size are joined first, so that a union of many
small sets costs no more than sorting them. -/
def unionOf (sets : List ItemSet) : ItemSet :=
  (sets.foldl (fun counter s => carry s counter) []).foldl (fun u s => s.getD ∅ ∪ u) ∅

/-- The set of the items of a list. -/
def ofList (items : List ItemId) : ItemSet := unionOf (items.map singleton)

/-- The maximal runs of consecutive items, ascending, each with its first and its last item. -/
def runs (s : ItemSet) : List (Nat × Nat) := Flips.runs s.bounds

/-- Number of items. -/
def size (s : ItemSet) : Nat := Flips.runsSize s.runs

/-- The numbers of the items, ascending. -/
def indices (s : ItemSet) : List Nat :=
  s.runs.flatMap fun r => List.range' r.1 (r.2 + 1 - r.1)

end ItemSet

end EvidenceTags
