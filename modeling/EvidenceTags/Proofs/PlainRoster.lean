import EvidenceTags.Proofs.ItemFinset
import EvidenceTags.Proofs.Run
import EvidenceTags.Roster
import EvidenceTags.TagMap.Lemmas

/-!
# The roster without its memory

A roster remembers the union of its sets. A `PlainRoster` does not: it is a finite map from tags to
finite sets of items, and every union is computed afresh from the sets that are there.

* `CacheSound` is the invariant: a union that is known is the union of all sets.
* `exec_refines` is the step lemma: on a roster with a sound cache every operation answers as on the
  plain roster, leads to the corresponding plain roster, and leaves the cache sound.
* `answers_eq_plain` follows for runs from any start, whatever was asked and changed in between.
-/

namespace EvidenceTags

/-! ## Operations and answers -/

/-- The operations on a roster. Items are given as a list, in any order and with repetitions. -/
inductive RosterOp where
  | insertTag (tag : TagId)
  | removeTag (tag : TagId)
  | addMembers (tag : TagId) (items : List ItemId)
  | removeMembers (tag : TagId) (items : List ItemId)
  | unionAll
  | inAny (item : ItemId)
  | contains (item : ItemId) (tag : TagId)
  | containsAny (item : ItemId) (tags : List TagId)
  | tagsOf (item : ItemId)
  | cardinality (tag : TagId)
  | unionOf (tags : List TagId)
  | unionOfOrUntagged (tags : List TagId) (last : ItemId)

/-- What an operation on a roster answers. -/
inductive RosterAnswer where
  | outcome (result : Except StoreError Unit)
  | removed (items : Option (Finset ItemId))
  | items (set : Finset ItemId)
  | truth (value : Bool)
  | tags (list : List TagId)
  | size (count : Option Nat)

/-- The answer to a change that may be refused, and the state that it leaves. -/
def outcomeOf {σ : Type} (s : σ) : Except StoreError σ → RosterAnswer × σ
  | .ok s' => (.outcome (.ok ()), s')
  | .error e => (.outcome (.error e), s)

/-- Carries out an operation on a roster. -/
def Roster.exec : RosterOp → Roster → RosterAnswer × Roster
  | .insertTag tag, r => (.outcome (.ok ()), r.insertTag tag)
  | .removeTag tag, r =>
    (.removed ((r.removeTag tag).1.map (·.items.toFinset)), (r.removeTag tag).2)
  | .addMembers tag items, r => outcomeOf r (r.addMembers tag (.ofList items))
  | .removeMembers tag items, r => outcomeOf r (r.removeMembers tag (.ofList items))
  | .unionAll, r => (.items r.unionAll.1.toFinset, r.unionAll.2)
  | .inAny item, r => (.truth (r.inAny item), r)
  | .contains item tag, r => (.truth (r.contains item tag), r)
  | .containsAny item tags, r => (.truth (r.containsAny item tags), r)
  | .tagsOf item, r => (.tags (r.tagsOf item), r)
  | .cardinality tag, r => (.size (r.cardinality? tag), r)
  | .unionOf tags, r => (.items (r.unionOf tags).toFinset, r)
  | .unionOfOrUntagged tags last, r =>
    (.items (r.unionOfOrUntagged tags last).1.toFinset, (r.unionOfOrUntagged tags last).2)

/-! ## The reference -/

/-- A finite map from tags to finite sets of items. -/
abbrev PlainRoster := TagMap (Finset ItemId)

namespace PlainRoster

/-- The union of the values, computed afresh. -/
def all (m : PlainRoster) : Finset ItemId := m.values.foldr (· ∪ ·) ∅

/-- Whether the value of `tag` has `item`. -/
def holds (m : PlainRoster) (item : ItemId) (tag : TagId) : Bool :=
  match m.get? tag with
  | some set => decide (item ∈ set)
  | none => false

/-- The union of the values of those `tags` that have one. -/
def unionOf (m : PlainRoster) (tags : List TagId) : Finset ItemId :=
  (tags.filterMap m.get?).foldr (· ∪ ·) ∅

/-- The items from `0` to `last`. -/
def upTo (last : ItemId) : Finset ItemId := (Finset.range (last.toNat + 1)).image UInt32.ofNat

/-- Replaces the value of a tag that has one. -/
def update (m : PlainRoster) (tag : TagId) (f : Finset ItemId → Finset ItemId) :
    Except StoreError PlainRoster :=
  match m.get? tag with
  | some set => .ok (m.insert tag (f set))
  | none => .error (.unknownTag tag)

/-- Carries out an operation on the finite map. -/
def exec : RosterOp → PlainRoster → RosterAnswer × PlainRoster
  | .insertTag tag, m => (.outcome (.ok ()), if m.contains tag then m else m.insert tag ∅)
  | .removeTag tag, m => (.removed (m.get? tag), m.erase tag)
  | .addMembers tag items, m => outcomeOf m (update m tag (· ∪ items.toFinset))
  | .removeMembers tag items, m => outcomeOf m (update m tag (· \ items.toFinset))
  | .unionAll, m => (.items (all m), m)
  | .inAny item, m => (.truth (m.values.any fun set => decide (item ∈ set)), m)
  | .contains item tag, m => (.truth (holds m item tag), m)
  | .containsAny item tags, m => (.truth (tags.any (holds m item)), m)
  | .tagsOf item, m => (.tags ((m.entries.filter fun e => decide (item ∈ e.2)).map (·.1)), m)
  | .cardinality tag, m => (.size ((m.get? tag).map Finset.card), m)
  | .unionOf tags, m => (.items (unionOf m tags), m)
  | .unionOfOrUntagged tags last, m => (.items (unionOf m tags ∪ (upTo last \ all m)), m)

end PlainRoster

namespace Roster

/-- What is left of a roster without the union that it knows. -/
def forget (r : Roster) : PlainRoster := r.sets.mapWithKey fun _ set => set.items.toFinset

/-- The union of all sets, computed afresh. -/
def recomputed (r : Roster) : ItemSet := ItemSet.unionOf (r.sets.values.map (·.items))

/-- A union that is known is the union of all sets. -/
def CacheSound (r : Roster) : Prop := ∀ u, r.known = some u → u = r.recomputed

/-! ## What the sets say -/

theorem contains_recomputed {r : Roster} {item : ItemId} :
    r.recomputed.contains item = true
      ↔ ∃ tag set, r.sets.get? tag = some set ∧ set.items.contains item = true := by
  simp only [recomputed, ItemSet.contains_unionOf, List.any_map, List.any_eq_true,
    Function.comp_apply, TagMap.values, ← TagMap.mem_entries]
  constructor
  · rintro ⟨e, he, hset⟩
    exact ⟨e.1, e.2, he, hset⟩
  · rintro ⟨tag, set, he, hset⟩
    exact ⟨(tag, set), he, hset⟩

theorem get?_forget (r : Roster) (tag : TagId) :
    r.forget.get? tag = (r.sets.get? tag).map (·.items.toFinset) :=
  TagMap.get?_mapWithKey _ _ _

theorem all_forget (r : Roster) : PlainRoster.all r.forget = r.recomputed.toFinset := by
  have hvalues : TagMap.values r.forget
      = (r.sets.values.map (·.items)).map ItemSet.toFinset := by
    simp [forget, TagMap.values, TagMap.mapWithKey, Function.comp_def]
  rw [PlainRoster.all, hvalues, recomputed, ItemSet.toFinset_unionOf]

theorem contains_forget (r : Roster) (tag : TagId) :
    r.forget.contains tag = r.isLive tag := by
  rw [TagMap.contains, get?_forget, isLive, TagMap.contains, Option.isSome_map]

/-- Writing a set and forgetting the union can be done in either order. -/
theorem forget_insert (r : Roster) (tag : TagId) (set : PackedSet) (known : Option ItemSet) :
    (Roster.mk (r.sets.insert tag set) known).forget = r.forget.insert tag set.items.toFinset := by
  refine TagMap.ext_get? fun key => ?_
  rw [get?_forget, TagMap.get?_insert, TagMap.get?_insert, get?_forget]
  split <;> rfl

theorem forget_erase (r : Roster) (tag : TagId) (known : Option ItemSet) :
    (Roster.mk (r.sets.erase tag) known).forget = r.forget.erase tag := by
  refine TagMap.ext_get? fun key => ?_
  rw [get?_forget, TagMap.get?_erase, TagMap.get?_erase, get?_forget]
  split <;> rfl

theorem union_eq_recomputed {r : Roster} (h : r.CacheSound) : r.union = r.recomputed := by
  rw [union]
  cases hknown : r.known with
  | none => rfl
  | some u => exact h u hknown

/-! ## The cache stays sound -/

/-- A cache that is dropped is sound. -/
theorem cacheSound_none (sets : TagMap PackedSet) : (Roster.mk sets none).CacheSound := by
  intro u hu
  exact absurd hu (Option.some_ne_none u).symm

theorem cacheSound_insertTag {r : Roster} (h : r.CacheSound) (tag : TagId) :
    (r.insertTag tag).CacheSound := by
  unfold insertTag
  split
  · exact h
  · rename_i hlive
    intro u hu
    rw [h u hu]
    -- the new set has no items, so nothing has to be added to the union
    refine ItemSet.ext_contains fun item => ?_
    rw [Bool.eq_iff_iff, contains_recomputed, contains_recomputed]
    have hnone : r.sets.get? tag = none := by
      simpa [isLive, TagMap.contains] using hlive
    constructor
    · rintro ⟨key, set, hget, hset⟩
      have hne : key ≠ tag := by
        intro heq
        rw [heq, hnone] at hget
        exact Option.some_ne_none set hget.symm
      refine ⟨key, set, ?_, hset⟩
      rw [TagMap.get?_insert, if_neg hne, hget]
    · rintro ⟨key, set, hget, hset⟩
      rw [TagMap.get?_insert] at hget
      split at hget
      · -- the item would have to be in the new set
        rw [← Option.some.inj hget] at hset
        exact absurd hset Bool.false_ne_true
      · exact ⟨key, set, hget, hset⟩

theorem cacheSound_removeTag {r : Roster} (h : r.CacheSound) (tag : TagId) :
    (r.removeTag tag).2.CacheSound := by
  unfold removeTag
  cases hget : r.sets.get? tag with
  | none => exact h
  | some removed =>
    by_cases hempty : removed.items.isEmpty = true
    · -- a set without items takes nothing out of the union
      intro u hu
      simp only [hempty, if_true] at hu
      rw [h u hu]
      refine ItemSet.ext_contains fun item => ?_
      rw [Bool.eq_iff_iff, contains_recomputed, contains_recomputed]
      constructor
      · rintro ⟨key, set, hkey, hset⟩
        have hne : key ≠ tag := by
          intro heq
          rw [heq, hget, Option.some.injEq] at hkey
          rw [← hkey, ItemSet.isEmpty_iff.1 hempty] at hset
          exact Bool.false_ne_true hset
        refine ⟨key, set, ?_, hset⟩
        rw [TagMap.get?_erase, if_neg hne, hkey]
      · rintro ⟨key, set, hkey, hset⟩
        rw [TagMap.get?_erase] at hkey
        split at hkey
        · exact absurd hkey.symm (Option.some_ne_none _)
        · exact ⟨key, set, hkey, hset⟩
    · -- the union may have been larger because of the set, and is dropped
      simp only [hempty]
      exact cacheSound_none _

/-- Adding items to one set adds them to the union. -/
theorem recomputed_insert_union {r : Roster} {tag : TagId} {set : PackedSet}
    (hget : r.sets.get? tag = some set) (items : ItemSet) (known : Option ItemSet) :
    (Roster.mk (r.sets.insert tag (set.addAll items)) known).recomputed
      = r.recomputed ∪ items := by
  refine ItemSet.ext_contains fun item => ?_
  rw [Bool.eq_iff_iff, ItemSet.contains_union, Bool.or_eq_true, contains_recomputed,
    contains_recomputed]
  constructor
  · rintro ⟨key, other, hkey, hother⟩
    rw [TagMap.get?_insert] at hkey
    split at hkey
    · -- the item is in the set that was changed: it was there before, or has been added
      rw [← Option.some.inj hkey, PackedSet.items_addAll, ItemSet.contains_union,
        Bool.or_eq_true] at hother
      rcases hother with hother | hother
      · exact .inl ⟨tag, set, hget, hother⟩
      · exact .inr hother
    · exact .inl ⟨key, other, hkey, hother⟩
  · rintro (⟨key, other, hkey, hother⟩ | hitem)
    · by_cases heq : key = tag
      · -- the set has grown, so what was in it is in it still
        subst heq
        rw [hget, Option.some.injEq] at hkey
        refine ⟨key, set.addAll items, ?_, ?_⟩
        · rw [TagMap.get?_insert, if_pos rfl]
        · rw [PackedSet.items_addAll, ItemSet.contains_union, hkey, hother, Bool.true_or]
      · refine ⟨key, other, ?_, hother⟩
        rw [TagMap.get?_insert, if_neg heq, hkey]
    · refine ⟨tag, set.addAll items, ?_, ?_⟩
      · rw [TagMap.get?_insert, if_pos rfl]
      · rw [PackedSet.items_addAll, ItemSet.contains_union, hitem, Bool.or_true]

theorem cacheSound_addMembers {r r' : Roster} (h : r.CacheSound) {tag : TagId} {items : ItemSet}
    (hadd : r.addMembers tag items = .ok r') : r'.CacheSound := by
  unfold addMembers at hadd
  cases hget : r.sets.get? tag with
  | none => simp [hget] at hadd
  | some set =>
    simp only [hget, Except.ok.injEq] at hadd
    subst hadd
    intro u hu
    rw [recomputed_insert_union hget]
    -- the items are added to a union that is known, and to the union of the sets
    rcases Option.map_eq_some_iff.1 hu with ⟨old, hold, rfl⟩
    rw [h old hold]

theorem cacheSound_unionAll {r : Roster} (h : r.CacheSound) : r.unionAll.2.CacheSound := by
  intro u hu
  have hunion : r.union = u := Option.some.inj hu
  rw [← hunion, union_eq_recomputed h]
  rfl

/-! ## What the changes leave behind -/

theorem fst_removeTag (r : Roster) (tag : TagId) : (r.removeTag tag).1 = r.sets.get? tag := by
  unfold removeTag
  cases r.sets.get? tag <;> rfl

theorem forget_removeTag (r : Roster) (tag : TagId) :
    (r.removeTag tag).2.forget = r.forget.erase tag := by
  unfold removeTag
  cases hget : r.sets.get? tag with
  | none =>
    -- there is nothing to take away
    show r.forget = r.forget.erase tag
    refine TagMap.ext_get? fun key => ?_
    rw [TagMap.get?_erase, get?_forget]
    split
    · rename_i heq
      rw [heq, hget]
      rfl
    · rfl
  | some set => exact forget_erase r tag _

theorem forget_insertTag (r : Roster) (tag : TagId) :
    (r.insertTag tag).forget
      = if r.forget.contains tag then r.forget else r.forget.insert tag ∅ := by
  rw [contains_forget]
  unfold insertTag
  split
  · rfl
  · exact forget_insert r tag ∅ r.known

/-- A change of one set is refused, or changes the corresponding finite set. -/
theorem replace_refines (r : Roster) (tag : TagId) {change : PackedSet → PackedSet}
    {f : Finset ItemId → Finset ItemId} (known : Option ItemSet)
    (hchange : ∀ set, (change set).items.toFinset = f set.items.toFinset)
    {result : Except StoreError Roster}
    (hresult : result = match r.sets.get? tag with
      | none => .error (.unknownTag tag)
      | some set => .ok ⟨r.sets.insert tag (change set), known⟩) :
    (outcomeOf r result).1 = (outcomeOf r.forget (PlainRoster.update r.forget tag f)).1 ∧
      (outcomeOf r result).2.forget
        = (outcomeOf r.forget (PlainRoster.update r.forget tag f)).2 := by
  subst hresult
  unfold PlainRoster.update
  rw [get?_forget]
  cases r.sets.get? tag with
  | none => exact ⟨rfl, rfl⟩
  | some set =>
    refine ⟨rfl, ?_⟩
    simp only [outcomeOf, Option.map_some]
    rw [forget_insert, hchange]

theorem addMembers_refines (r : Roster) (tag : TagId) (items : List ItemId) :
    (outcomeOf r (r.addMembers tag (.ofList items))).1
        = (outcomeOf r.forget (PlainRoster.update r.forget tag (· ∪ items.toFinset))).1 ∧
      (outcomeOf r (r.addMembers tag (.ofList items))).2.forget
        = (outcomeOf r.forget (PlainRoster.update r.forget tag (· ∪ items.toFinset))).2 := by
  have hchange (set : PackedSet) : (set.addAll (.ofList items)).items.toFinset
      = set.items.toFinset ∪ items.toFinset := by
    rw [PackedSet.items_addAll, ItemSet.toFinset_union, ItemSet.toFinset_ofList]
  exact replace_refines r tag _ hchange rfl

theorem removeMembers_refines (r : Roster) (tag : TagId) (items : List ItemId) :
    (outcomeOf r (r.removeMembers tag (.ofList items))).1
        = (outcomeOf r.forget (PlainRoster.update r.forget tag (· \ items.toFinset))).1 ∧
      (outcomeOf r (r.removeMembers tag (.ofList items))).2.forget
        = (outcomeOf r.forget (PlainRoster.update r.forget tag (· \ items.toFinset))).2 := by
  have hchange (set : PackedSet) : (set.removeAll (.ofList items)).items.toFinset
      = set.items.toFinset \ items.toFinset := by
    rw [PackedSet.items_removeAll, ItemSet.toFinset_difference, ItemSet.toFinset_ofList]
  exact replace_refines r tag _ hchange rfl

/-! ## What the questions answer -/

theorem holds_forget (r : Roster) (item : ItemId) (tag : TagId) :
    PlainRoster.holds r.forget item tag = r.contains item tag := by
  rw [PlainRoster.holds, get?_forget, contains]
  cases r.sets.get? tag with
  | none => rfl
  | some set => simp

theorem tagsOf_forget (r : Roster) (item : ItemId) :
    (r.forget.entries.filter fun e => decide (item ∈ e.2)).map (·.1) = r.tagsOf item := by
  simp [forget, TagMap.mapWithKey, tagsOf, List.filter_map, Function.comp_def]

theorem unionOf_forget (r : Roster) (tags : List TagId) :
    PlainRoster.unionOf r.forget tags = (r.unionOf tags).toFinset := by
  rw [PlainRoster.unionOf, unionOf, ItemSet.toFinset_unionOf, List.map_map, List.map_filterMap]
  have hget : r.forget.get? = fun tag => (r.sets.get? tag).map (·.items.toFinset) :=
    funext fun tag => get?_forget r tag
  rw [hget]
  rfl

theorem toFinset_upTo (last : ItemId) : (ItemSet.upTo last).toFinset = PlainRoster.upTo last := by
  ext item
  rw [ItemSet.mem_toFinset, ItemSet.contains_upTo, decide_eq_true_eq, PlainRoster.upTo,
    Finset.mem_image]
  constructor
  · intro hle
    have hlt : item.toNat < last.toNat + 1 := Nat.lt_succ_of_le (UInt32.le_iff_toNat_le.1 hle)
    exact ⟨item.toNat, Finset.mem_range.2 hlt, UInt32.ofNat_toNat⟩
  · rintro ⟨x, hx, rfl⟩
    have hx' := Finset.mem_range.1 hx
    have hlast := last.toNat_lt_size
    rw [UInt32.le_iff_toNat_le, UInt32.toNat_ofNat_of_lt' (by omega)]
    omega

/-- Whether the union is known or not, membership in it is membership in some set. -/
theorem inAny_forget {r : Roster} (h : r.CacheSound) (item : ItemId) :
    (TagMap.values r.forget).any (fun set => decide (item ∈ set)) = r.inAny item := by
  have hvalues : (TagMap.values r.forget).any (fun set => decide (item ∈ set))
      = r.recomputed.contains item := by
    simp [forget, TagMap.values, TagMap.mapWithKey, recomputed, List.any_map, Function.comp_def]
  rw [hvalues, inAny]
  cases hknown : r.known with
  | none => rw [recomputed, ItemSet.contains_unionOf, List.any_map]; rfl
  | some u => rw [h u hknown]

/-! ## One operation, and runs -/

/-- On a roster with a sound cache, every operation answers as on the plain roster and leads to the
corresponding one, with a sound cache again. -/
theorem exec_refines (op : RosterOp) {r : Roster} (h : r.CacheSound) :
    (r.exec op).1 = (PlainRoster.exec op r.forget).1 ∧
      (r.exec op).2.forget = (PlainRoster.exec op r.forget).2 ∧ (r.exec op).2.CacheSound := by
  cases op with
  | insertTag tag => exact ⟨rfl, forget_insertTag r tag, cacheSound_insertTag h tag⟩
  | removeTag tag =>
    refine ⟨?_, forget_removeTag r tag, cacheSound_removeTag h tag⟩
    simp only [exec, PlainRoster.exec]
    rw [fst_removeTag, get?_forget]
  | addMembers tag items =>
    rcases addMembers_refines r tag items with ⟨hanswer, hstate⟩
    refine ⟨hanswer, hstate, ?_⟩
    simp only [exec]
    cases hadd : r.addMembers tag (.ofList items) with
    | error e => exact h
    | ok r' => exact cacheSound_addMembers h hadd
  | removeMembers tag items =>
    rcases removeMembers_refines r tag items with ⟨hanswer, hstate⟩
    refine ⟨hanswer, hstate, ?_⟩
    simp only [exec, removeMembers]
    cases r.sets.get? tag with
    | none => exact h
    | some set =>
      -- other sets may hold the items too, so the union is dropped
      exact cacheSound_none _
  | unionAll =>
    refine ⟨?_, rfl, cacheSound_unionAll h⟩
    simp only [exec, PlainRoster.exec, unionAll]
    rw [all_forget, union_eq_recomputed h]
  | inAny item =>
    refine ⟨?_, rfl, h⟩
    simp only [exec, PlainRoster.exec]
    rw [inAny_forget h]
  | contains item tag =>
    refine ⟨?_, rfl, h⟩
    simp only [exec, PlainRoster.exec]
    rw [holds_forget]
  | containsAny item tags =>
    refine ⟨?_, rfl, h⟩
    have hholds : PlainRoster.holds r.forget item = r.contains item :=
      funext fun tag => holds_forget r item tag
    simp only [exec, PlainRoster.exec, containsAny]
    rw [hholds]
  | tagsOf item =>
    refine ⟨?_, rfl, h⟩
    simp only [exec, PlainRoster.exec]
    rw [tagsOf_forget]
  | cardinality tag =>
    refine ⟨?_, rfl, h⟩
    simp only [exec, PlainRoster.exec, cardinality?]
    rw [get?_forget, Option.map_map]
    simp [Function.comp_def, ItemSet.card_toFinset]
  | unionOf tags =>
    refine ⟨?_, rfl, h⟩
    simp only [exec, PlainRoster.exec]
    rw [unionOf_forget]
  | unionOfOrUntagged tags last =>
    refine ⟨?_, rfl, cacheSound_unionAll h⟩
    simp only [exec, PlainRoster.exec, unionOfOrUntagged, unionAll]
    rw [ItemSet.toFinset_union, ItemSet.toFinset_difference, toFinset_upTo, unionOf_forget,
      all_forget, union_eq_recomputed h]

/-- A roster as it is made: without tags, or out of given sets. -/
def opened : Option (TagMap PackedSet) → Roster
  | none => .empty
  | some sets => .ofSets sets

theorem cacheSound_opened (given : Option (TagMap PackedSet)) : (opened given).CacheSound := by
  cases given <;> exact cacheSound_none _

/-- From any start and over every list of operations, a roster answers as the finite map that it
stands for; and whenever it knows a union then, that is the union of its sets. -/
theorem answers_eq_plain (given : Option (TagMap PackedSet)) (ops : List RosterOp) :
    (run exec ops (opened given)).1 = (run PlainRoster.exec ops (opened given).forget).1 ∧
      ∀ u, (run exec ops (opened given)).2.known = some u →
        u = ItemSet.unionOf ((run exec ops (opened given)).2.sets.values.map (·.items)) := by
  have hstep : ∀ op (r : Roster) (m : PlainRoster), r.CacheSound ∧ r.forget = m →
      (r.exec op).1 = (PlainRoster.exec op m).1 ∧
        (r.exec op).2.CacheSound ∧ (r.exec op).2.forget = (PlainRoster.exec op m).2 := by
    rintro op r m ⟨h, rfl⟩
    rcases exec_refines op h with ⟨hanswer, hstate, hsound⟩
    exact ⟨hanswer, hsound, hstate⟩
  have hstart : (opened given).CacheSound ∧ (opened given).forget = (opened given).forget :=
    ⟨cacheSound_opened given, rfl⟩
  rcases run_simulation hstep ops hstart with ⟨hanswers, hsound, -⟩
  exact ⟨hanswers, hsound⟩

end Roster

end EvidenceTags
