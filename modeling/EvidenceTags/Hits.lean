import EvidenceTags.Selection

/-!
# Search hits and their filters

Hits are the ordered answer of a search: item numbers, each with a score that is only carried along.
A negative number is not an item but marks a place that has been excluded. Filtering first marks the
hits that fail and then drops all marked places, so what is left keeps its order and its scores.
-/

namespace EvidenceTags

/-- One hit. The score is kept as its bits. -/
structure Hit where
  id : Int32
  score : UInt32
deriving DecidableEq, Repr, Inhabited

namespace Hit

/-- The number that marks an excluded place. -/
def excludedId : Int32 := -1

/-- Whether the hit names an item. -/
def isLive (h : Hit) : Bool := 0 ≤ h.id

/-- The item of a live hit. -/
def item (h : Hit) : ItemId := h.id.toUInt32

/-- Marks the hit as excluded. -/
def exclude (h : Hit) : Hit := { h with id := excludedId }

end Hit

/-- An ordered list of hits. -/
structure Hits where
  list : List Hit
deriving DecidableEq, Repr, Inhabited

namespace Hits

/-- Hits without scores. -/
def ofIds (ids : List Int32) : Hits := ⟨ids.map fun id => ⟨id, 0⟩⟩

/-- Hits with scores. What one of the lists has beyond the other is dropped. -/
def ofScored (ids : List Int32) (scores : List UInt32) : Hits := ⟨List.zipWith Hit.mk ids scores⟩

/-- Number of places, marked ones included. -/
def size (h : Hits) : Nat := h.list.length

/-- The number at a place. -/
def id? (h : Hits) (place : Nat) : Option Int32 := h.list[place]?.map Hit.id

/-- Marks a place as excluded. -/
def exclude (h : Hits) (place : Nat) : Hits := ⟨h.list.modify place Hit.exclude⟩

/-- Moves the hits that name items, from the place `next` on, down to the place `kept` and those
after it, and cuts off the places behind the last of them. -/
def compactFrom (hits : Array Hit) (kept next : Nat) (h : kept ≤ next) : Array Hit :=
  if hnext : next < hits.size then
    if hits[next].isLive then
      compactFrom (hits.set kept hits[next] (Nat.lt_of_le_of_lt h hnext)) (kept + 1) (next + 1)
        (Nat.succ_le_succ h)
    else compactFrom hits kept (next + 1) (Nat.le_succ_of_le h)
  else hits.shrink kept
termination_by hits.size - next

/-- Drops the places that do not name an item. -/
def compact (h : Hits) : Hits := ⟨(compactFrom h.list.toArray 0 0 (Nat.le_refl 0)).toList⟩

/-- Asks `keep` about the live hits in order and marks those that it rejects. -/
def mark {m : Type → Type} [Monad m] (keep : ItemId → m Bool) : List Hit → m (List Hit)
  | [] => pure []
  | hit :: rest => do
    let marked ← if hit.isLive then
        do if ← keep hit.item then pure hit else pure hit.exclude
      else pure hit
    let others ← mark keep rest
    pure (marked :: others)

/-- Keeps the live hits that `keep` accepts. The judgement may depend on what was asked before. -/
def retainM {m : Type → Type} [Monad m] (keep : ItemId → m Bool) (h : Hits) : m Hits := do
  let marked ← mark keep h.list
  pure (compact ⟨marked⟩)

/-- Keeps the live hits that `keep` accepts. -/
def retain (keep : ItemId → Bool) (h : Hits) : Hits :=
  Id.run (h.retainM fun item => pure (keep item))

/-- Keeps the hits in a set. -/
def retainIn (h : Hits) (set : ItemSet) : Hits := h.retain set.contains

/-- Keeps the hits outside a set. -/
def retainNotIn (h : Hits) (set : ItemSet) : Hits := h.retain fun item => !set.contains item

/-- Keeps the checked hits. -/
def retainChecked (h : Hits) (selection : Selection) : Hits := h.retain selection.isChecked

end Hits

end EvidenceTags
