import EvidenceTags.Proofs.CheckedCount
import EvidenceTags.Proofs.Run

/-!
# Checking items, over runs

A selection can be changed in four ways (`SelectionOp`). `SelectionOp.applyTo` says what each of
them does to a plain list of flags, of which nothing is counted.

* `Selection.flags_setChecked`: to check or uncheck an item is to set its flag, also where nothing
  changes.
* `Selection.checkAll_eq_checkEach`: to check the items of a domain at once is to check them one
  after another, in whatever order and however often they are named.
* `Selection.exact_of_run`: after every run the flags are those of the plain list, and the selection
  is `Exact` about them.
-/

namespace EvidenceTags

namespace Selection

/-! ## Setting flags -/

variable {s t : Selection} {size : Nat}

/-- What is left of the change is the flag, also if it was so before or the item has none. -/
theorem flags_setChecked (s : Selection) (item : ItemId) (value : Bool) :
    (s.setChecked item value).2.flags = s.flags.set item.toNat value := by
  unfold setChecked
  split
  · rename_i hsame
    refine Flags.ext_isSet rfl fun place => ?_
    rw [Flags.isSet_set]
    split
    · rename_i hplace
      obtain ⟨rfl, hin⟩ := hplace
      rcases hsame with hout | hvalue
      · exact absurd hin (Nat.not_lt.2 hout)
      · exact hvalue
    · rfl
  · rfl

/-- The answer tells whether the item has a flag and it was another. -/
theorem fst_setChecked_eq_true_iff {item : ItemId} {value : Bool} :
    (s.setChecked item value).1 = true ↔ item.toNat < s.size ∧ s.isChecked item ≠ value := by
  unfold setChecked
  split
  · rename_i hsame
    simp only [Bool.false_eq_true, false_iff, not_and, not_not]
    intro hin
    exact hsame.resolve_left (Nat.not_le.2 hin)
  · rename_i hchange
    simpa [not_or, Nat.not_le] using hchange

/-- Where nothing is answered to have changed, nothing has. -/
theorem setChecked_of_size_le {item : ItemId} (hout : s.size ≤ item.toNat) (value : Bool) :
    s.setChecked item value = (false, s) := by
  rw [setChecked, if_pos (.inl hout)]

/-- Selections with the same flags are equal, if both have counted them. -/
theorem Counts.ext (hs : s.Counts size) (ht : t.Counts size) (h : s.flags = t.flags) : s = t := by
  have hcount : s.count = t.count := by
    rw [hs.count, ht.count, h]
  rcases s with ⟨flags, count⟩
  rcases t with ⟨flags', count'⟩
  rw [show flags = flags' from h, show count = count' from hcount]

/-! ## Checking many items -/

/-- Checks items one after another. -/
def checkEach (s : Selection) (items : List ItemId) : Selection :=
  items.foldl (fun s item => (s.setChecked item true).2) s

@[simp] theorem checkEach_nil (s : Selection) : s.checkEach [] = s := rfl

@[simp] theorem checkEach_cons (s : Selection) (item : ItemId) (items : List ItemId) :
    s.checkEach (item :: items) = (s.setChecked item true).2.checkEach items := rfl

theorem Counts.checkEach (h : s.Counts size) (items : List ItemId) :
    (s.checkEach items).Counts size := by
  induction items generalizing s with
  | nil => exact h
  | cons item rest ih => exact ih (h.setChecked item true)

/-- The flags that are set then are those of the items, and those that were set before. -/
theorem isSet_checkEach (s : Selection) (items : List ItemId) (place : Nat) :
    (s.checkEach items).flags.isSet place
      = (s.flags.isSet place || decide (place < s.size ∧ ∃ item ∈ items, item.toNat = place)) := by
  induction items generalizing s with
  | nil => simp
  | cons item rest ih =>
    have hsize : (s.setChecked item true).2.size = s.size := by
      rw [size, flags_setChecked]
      rfl
    rw [checkEach_cons, ih, flags_setChecked, Flags.isSet_set, hsize]
    by_cases hhere : place = item.toNat
    · by_cases hin : place < s.size
      · have hin' : place < s.flags.size := hin
        simp [hhere, hhere ▸ hin', hhere ▸ hin]
      · have hout : ¬ place < s.flags.size := hin
        simp [hin, hout]
    · have hother : ¬ item.toNat = place := fun h => hhere h.symm
      simp [hhere, hother]

/-- The items of a domain, named in any order and as often as one likes, can be checked one after
another or all at once. -/
theorem checkAll_eq_checkEach (h : s.Counts size) {domain : Domain} {items : List ItemId}
    (hitems : ∀ item, item ∈ items ↔ item ∈ domain.items) :
    s.checkAll domain = s.checkEach items := by
  refine (h.checkAll domain).ext (h.checkEach items) (Flags.ext_isSet ?_ fun place => ?_)
  · rw [show (s.checkEach items).flags.size = size from (h.checkEach items).size]
    exact h.size
  · have hwithin : Flips.within false domain.items.bounds place = true
        ↔ ∃ item ∈ items, item.toNat = place := by
      rw [← ItemSet.mem_indices, ItemSet.mem_indices_iff_exists]
      simp only [hitems]
    rw [isSet_checkEach, Bool.eq_iff_iff]
    show (s.flags.setAll domain.items).isSet place = true ↔ _
    rw [Flags.isSet_setAll, Bool.and_eq_true, Bool.or_eq_true, hwithin, Bool.or_eq_true,
      decide_eq_true_iff, decide_eq_true_iff]
    constructor
    · rintro ⟨hin, hset | hitem⟩
      · exact .inl hset
      · exact .inr ⟨hin, hitem⟩
    · rintro (hset | ⟨hin, hitem⟩)
      · refine ⟨Nat.lt_of_not_le fun hout => ?_, .inl hset⟩
        rw [Flags.isSet_of_size_le hout] at hset
        exact Bool.false_ne_true hset
      · exact ⟨hin, .inr hitem⟩

end Selection

/-! ## Runs -/

/-- The changes of a selection. Flags that are taken over may be more or fewer than there are
items. -/
inductive SelectionOp where
  | setChecked (item : ItemId) (value : Bool)
  | checkAll (domain : Domain)
  | clearAll
  | restore (flags : List Bool)

namespace SelectionOp

/-- What a change does to the flags, as a list. -/
def applyTo (flags : List Bool) : SelectionOp → List Bool
  | .setChecked item value => flags.set item.toNat value
  | .checkAll domain => flags.mapIdx fun place flag => flag || decide (place ∈ domain.items.indices)
  | .clearAll => List.replicate flags.length false
  | .restore given =>
    given.take flags.length ++ List.replicate (flags.length - given.length) false

end SelectionOp

namespace Selection

variable {s : Selection} {size : Nat}

/-- Carries out a change. Only to check or uncheck an item has an answer. -/
def exec : SelectionOp → Selection → Option Bool × Selection
  | .setChecked item value, s => (some (s.setChecked item value).1, (s.setChecked item value).2)
  | .checkAll domain, s => (none, s.checkAll domain)
  | .clearAll, s => (none, s.clearAll)
  | .restore flags, s => (none, s.restore (.ofList flags))

theorem toList_exec (op : SelectionOp) (s : Selection) :
    (exec op s).2.flags.toList = op.applyTo s.flags.toList := by
  cases op with
  | setChecked item value =>
    show (s.setChecked item value).2.flags.toList = _
    rw [flags_setChecked, Flags.toList_set]
    rfl
  | checkAll domain => exact Flags.toList_setAll s.flags domain.items
  | clearAll =>
    show (Flags.unset s.flags.size).toList = List.replicate s.flags.toList.length false
    rw [Flags.toList_unset, Flags.length_toList]
  | restore flags =>
    show ((Flags.ofList flags).resize s.flags.size).toList = _
    rw [Flags.toList_resize, Flags.toList_ofList, ← Flags.length_toList]
    rfl

theorem Counts.exec (h : s.Counts size) (op : SelectionOp) : (exec op s).2.Counts size := by
  cases op with
  | setChecked item value => exact h.setChecked item value
  | checkAll domain => exact h.checkAll domain
  | clearAll => exact h.clearAll
  | restore flags => exact h.restore _

/-- What holds of a selection of `size` items at every moment: it has so many flags, it counts those
that are set, its answers tell what changes, and no item is unchecked that was not counted. -/
structure Exact (size : Nat) (s : Selection) : Prop where
  length : s.flags.toList.length = size
  count : s.count = s.flags.toList.count true
  changed : ∀ item value, (s.setChecked item value).1 = true
    ↔ (s.setChecked item value).2.isChecked item ≠ s.isChecked item
  counted : ∀ item, (s.setChecked item false).1 = true →
    (s.setChecked item false).2.count + 1 = s.count
  outside : ∀ item value, size ≤ item.toNat → s.setChecked item value = (false, s)
  each : ∀ (domain : Domain) (items : List ItemId), (∀ item, item ∈ items ↔ item ∈ domain.items) →
    s.checkAll domain = s.checkEach items

theorem changed_iff (s : Selection) (item : ItemId) (value : Bool) :
    (s.setChecked item value).1 = true
    ↔ (s.setChecked item value).2.isChecked item ≠ s.isChecked item := by
  rw [fst_setChecked_eq_true_iff, isChecked, isChecked, flags_setChecked, Flags.isSet_set]
  by_cases hin : item.toNat < s.flags.size
  · have hin' : item.toNat < s.size := hin
    simp [hin, hin', ne_comm]
  · have hout : ¬ item.toNat < s.size := hin
    simp [hin, hout]

/-- An item that is unchecked was one of those counted, so the count had to be positive. -/
theorem Counts.count_uncheck (h : s.Counts size) {item : ItemId}
    (hchanged : (s.setChecked item false).1 = true) :
    (s.setChecked item false).2.count + 1 = s.count := by
  obtain ⟨hin, hset⟩ := fst_setChecked_eq_true_iff.1 hchanged
  have hset' : s.flags.isSet item.toNat = true := by simpa [isChecked] using hset
  have hpos : 0 < s.flags.count := by
    rw [← Flags.card_places, Finset.card_pos]
    exact ⟨item.toNat, Flags.mem_places.2 hset'⟩
  rw [(h.setChecked item false).count, flags_setChecked, Flags.count_set_false hin hset', h.count]
  exact Nat.sub_add_cancel hpos

theorem Counts.exact (h : s.Counts size) : s.Exact size where
  length := by
    rw [Flags.length_toList]
    exact h.size
  count := by
    rw [h.count, Flags.count_eq_count_toList]
  changed := s.changed_iff
  counted _ := h.count_uncheck
  outside _ value hout := setChecked_of_size_le (h.size.symm ▸ hout) value
  each _ _ := checkAll_eq_checkEach h

/-- The flags go through a run as the plain list does. -/
theorem toList_run (ops : List SelectionOp) (s : Selection) :
    (run exec ops s).2.flags.toList = ops.foldl SelectionOp.applyTo s.flags.toList := by
  induction ops generalizing s with
  | nil => rfl
  | cons op rest ih =>
    rw [run_cons, List.foldl_cons, ← toList_exec]
    exact ih (exec op s).2

/-- After every run, from items none of which is checked, the flags are those that the changes make
one after another, and the selection is exact about them. -/
theorem exact_of_run (size : Nat) (ops : List SelectionOp) :
    (run exec ops (ofLength size)).2.flags.toList
        = ops.foldl SelectionOp.applyTo (List.replicate size false)
      ∧ (run exec ops (ofLength size)).2.Exact size := by
  constructor
  · rw [toList_run]
    show ops.foldl SelectionOp.applyTo (Flags.unset size).toList = _
    rw [Flags.toList_unset]
  · have hstep : ∀ op (s : Selection), s.Counts size → (exec op s).2.Counts size :=
      fun op _ h => h.exec op
    exact (run_invariant hstep ops (counts_ofLength size)).exact

end Selection

end EvidenceTags
