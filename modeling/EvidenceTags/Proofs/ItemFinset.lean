import EvidenceTags.ItemSet.Lemmas
import Mathlib.Data.Finset.Card
import Mathlib.Data.Finset.Image
import Mathlib.Data.Finset.Range

/-!
# Item sets as finite sets

An `ItemSet` is a list of flips, which is how it is computed with. What it stands for is the finite
set of its items, `toFinset`. Equal finite sets come from equal item sets (`toFinset_injective`),
the size is the number of elements (`card_toFinset`), and the operations on flips are those of sets.
-/

namespace EvidenceTags

namespace ItemSet

/-- The items of a set, as a finite set. -/
def toFinset (s : ItemSet) : Finset ItemId := (s.indices.map UInt32.ofNat).toFinset

@[simp] theorem mem_toFinset {s : ItemSet} {item : ItemId} :
    item ∈ s.toFinset ↔ s.contains item = true := by
  simp only [toFinset, List.mem_toFinset, List.mem_map]
  constructor
  · rintro ⟨x, hx, rfl⟩
    rw [contains_iff_mem_indices, UInt32.toNat_ofNat_of_lt' (lt_limit_of_mem_indices s hx)]
    exact hx
  · intro h
    exact ⟨item.toNat, (contains_iff_mem_indices s item).1 h, UInt32.ofNat_toNat⟩

/-- A set is determined by its items. -/
theorem toFinset_injective {a b : ItemSet} (h : a.toFinset = b.toFinset) : a = b := by
  refine ext_contains fun item => ?_
  rw [Bool.eq_iff_iff, ← mem_toFinset, ← mem_toFinset, h]

/-- Different indices are numbers of different items. -/
theorem nodup_map_indices (s : ItemSet) : (s.indices.map UInt32.ofNat).Nodup := by
  have hnodup : s.indices.Nodup := (pairwise_indices s).imp fun h => Nat.ne_of_lt h
  refine List.Nodup.map_on (fun x hx y hy hxy => ?_) hnodup
  have := congrArg UInt32.toNat hxy
  rwa [UInt32.toNat_ofNat_of_lt' (lt_limit_of_mem_indices s hx),
    UInt32.toNat_ofNat_of_lt' (lt_limit_of_mem_indices s hy)] at this

/-- The size is the number of items. -/
theorem card_toFinset (s : ItemSet) : s.toFinset.card = s.size := by
  rw [toFinset, List.toFinset_card_of_nodup (nodup_map_indices s), List.length_map,
    size_eq_length]

/-- The size is that of the set of indices as well. -/
theorem card_indices (s : ItemSet) : s.indices.toFinset.card = s.size := by
  have hnodup : s.indices.Nodup := (pairwise_indices s).imp fun h => Nat.ne_of_lt h
  rw [List.toFinset_card_of_nodup hnodup, size_eq_length]

@[simp] theorem toFinset_empty : (∅ : ItemSet).toFinset = ∅ := rfl

@[simp] theorem toFinset_union (a b : ItemSet) :
    (a ∪ b).toFinset = a.toFinset ∪ b.toFinset := by
  ext item
  simp

@[simp] theorem toFinset_difference (a b : ItemSet) :
    (a \ b).toFinset = a.toFinset \ b.toFinset := by
  ext item
  simp

@[simp] theorem toFinset_ofList (items : List ItemId) :
    (ofList items).toFinset = items.toFinset := by
  ext item
  simp

/-- The union of a list of sets holds what one of them holds. -/
@[simp] theorem toFinset_unionOf (sets : List ItemSet) :
    (unionOf sets).toFinset = (sets.map toFinset).foldr (· ∪ ·) ∅ := by
  induction sets with
  | nil => rfl
  | cons s rest ih =>
    rw [List.map_cons, List.foldr_cons, ← ih]
    ext item
    simp

/-- No item is left exactly if the list of flips is empty. -/
theorem isEmpty_iff {s : ItemSet} : s.isEmpty = true ↔ s = ∅ := by
  rw [isEmpty, List.isEmpty_iff]
  constructor
  · intro h
    cases s
    subst h
    rfl
  · rintro rfl
    rfl

end ItemSet

end EvidenceTags
