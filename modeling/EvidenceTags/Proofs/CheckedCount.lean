import EvidenceTags.Flags.Lemmas
import EvidenceTags.Selection
import Mathlib.Data.Finset.Card
import Mathlib.Data.Finset.Range

/-!
# The count of checked items

A selection keeps the count of its checked items beside their flags. The flags that are set are a
finite set of places (`Flags.places`), of which the count is the number of elements; what an
operation does to the set tells what it has to do to the count.

`Selection.Counts` is the invariant: there is a flag for each item of the universe, and the count is
that of the flags. Every operation keeps it, and a selection that has taken over flags has it.
-/

namespace EvidenceTags

namespace Flags

/-- The places whose flags are set. -/
def places (f : Flags) : Finset Nat :=
  (Finset.range f.size).filter fun place => f.isSet place = true

theorem mem_places {f : Flags} {place : Nat} : place ∈ f.places ↔ f.isSet place = true := by
  rw [places, Finset.mem_filter, Finset.mem_range]
  constructor
  · intro h
    exact h.2
  · intro h
    refine ⟨Nat.lt_of_not_le fun hle => ?_, h⟩
    rw [isSet_of_size_le hle] at h
    exact Bool.false_ne_true h

theorem card_places (f : Flags) : f.places.card = f.count := by
  rw [count_eq_count_toList, toList_eq, List.count, List.countP_map, places]
  simp only [Finset.card, Finset.filter_val, Finset.range_val, Multiset.range,
    Multiset.filter_coe, Multiset.coe_card, List.countP_eq_length_filter]
  refine congrArg List.length (List.filter_congr fun place _ => ?_)
  simp

theorem count_unset (size : Nat) : (unset size).count = 0 := by
  have hplaces : (unset size).places = ∅ := by
    refine Finset.eq_empty_of_forall_notMem fun place hplace => ?_
    rw [mem_places, isSet_unset] at hplace
    exact Bool.false_ne_true hplace
  rw [← card_places, hplaces, Finset.card_empty]

/-- A flag that is set in addition is one more. -/
theorem count_set_true {f : Flags} {place : Nat} (hin : place < f.size)
    (h : f.isSet place = false) : (f.set place true).count = f.count + 1 := by
  have hplaces : (f.set place true).places = insert place f.places := by
    ext q
    rw [Finset.mem_insert, mem_places, mem_places, isSet_set]
    by_cases hq : q = place
    · simp [hq, hin]
    · simp [hq]
  have hnew : place ∉ f.places := by
    rw [mem_places, h]
    exact Bool.false_ne_true
  rw [← card_places, hplaces, Finset.card_insert_of_notMem hnew, card_places]

/-- A flag that was set is one less when it is unset. -/
theorem count_set_false {f : Flags} {place : Nat} (hin : place < f.size)
    (h : f.isSet place = true) : (f.set place false).count = f.count - 1 := by
  have hplaces : (f.set place false).places = f.places.erase place := by
    ext q
    rw [Finset.mem_erase, mem_places, mem_places, isSet_set]
    by_cases hq : q = place
    · simp [hq, hin]
    · simp [hq]
  rw [← card_places, hplaces, Finset.card_erase_of_mem (mem_places.2 h), card_places]

/-- To set flags makes none unset. -/
theorem count_le_count_setAll (f : Flags) (items : ItemSet) : f.count ≤ (f.setAll items).count := by
  rw [← card_places, ← card_places]
  refine Finset.card_le_card fun place hplace => ?_
  have hin : place < f.size := by
    rw [places, Finset.mem_filter, Finset.mem_range] at hplace
    exact hplace.1
  rw [mem_places] at hplace ⊢
  rw [isSet_setAll, hplace]
  simp [hin]

end Flags

namespace Selection

/-- There is a flag for each of `size` items, and the count is that of the flags. -/
structure Counts (s : Selection) (size : Nat) : Prop where
  size : s.size = size
  count : s.count = s.flags.count

theorem counts_ofLength (length : Nat) : (ofLength length).Counts length where
  size := rfl
  count := (Flags.count_unset length).symm

namespace Counts

variable {s : Selection} {size : Nat}

theorem setChecked (h : s.Counts size) (item : ItemId) (value : Bool) :
    (s.setChecked item value).2.Counts size := by
  unfold Selection.setChecked
  split
  · exact h
  · rename_i hchange
    rw [not_or] at hchange
    obtain ⟨hin, hvalue⟩ := hchange
    have hin' : item.toNat < s.flags.size := Nat.lt_of_not_le hin
    constructor
    · exact h.size
    · -- the flag of the item is not what it is to be, so it changes and the count with it
      cases value with
      | true =>
        have hunset : s.flags.isSet item.toNat = false := by simpa [isChecked] using hvalue
        show s.count + 1 = (s.flags.set item.toNat true).count
        rw [Flags.count_set_true hin' hunset, h.count]
      | false =>
        have hset : s.flags.isSet item.toNat = true := by simpa [isChecked] using hvalue
        show s.count - 1 = (s.flags.set item.toNat false).count
        rw [Flags.count_set_false hin' hset, h.count]

theorem checkAll (h : s.Counts size) (domain : Domain) : (s.checkAll domain).Counts size := by
  constructor
  · exact h.size
  · have hle := Flags.count_le_count_setAll s.flags domain.items
    show s.count + ((s.flags.setAll domain.items).count - s.flags.count) = _
    rw [h.count]
    exact Nat.add_sub_cancel' hle

theorem clearAll (h : s.Counts size) : s.clearAll.Counts size := by
  rw [Selection.clearAll, h.size]
  exact counts_ofLength size

/-- Flags that are taken over are counted anew. -/
theorem restore (h : s.Counts size) (flags : Flags) : (s.restore flags).Counts size := by
  constructor
  · exact h.size
  · rfl

end Counts

end Selection

end EvidenceTags
