import EvidenceTags.Proofs.LegacyMembers

/-!
# What the bits of a legacy state say

A legacy state may come out of any file. It can have bits for more or for fewer items than the
universe has, each item can have a width of its own, and bits can be set for tags without a name.

`LegacySnapshot.Unpacks` says what such a state means in the current layout. There is one such
snapshot, and it is what a migration makes (`migrate_eq_iff_unpacks`). The migration goes through
the items that have bits; this is the same as to ask for every item of the universe in turn
(`holders_eq_ofList_filter`).
-/

namespace EvidenceTags

namespace LegacySnapshot

/-! ## The items of one tag -/

/-- The items of the universe, in turn. -/
def itemsTo (last : ItemId) : List ItemId := (List.range (last.toNat + 1)).map UInt32.ofNat

/-- The last item is among them, also if no further number exists. -/
theorem mem_itemsTo {last item : ItemId} : item ∈ itemsTo last ↔ item ≤ last := by
  rw [itemsTo, List.mem_map, UInt32.le_iff_toNat_le]
  constructor
  · rintro ⟨i, hi, rfl⟩
    have hle : i ≤ last.toNat := Nat.le_of_lt_succ (List.mem_range.1 hi)
    have hlimit : i < 2 ^ 32 := Nat.lt_of_le_of_lt hle last.toNat_lt
    rwa [UInt32.toNat_ofNat_of_lt' hlimit]
  · intro hle
    exact ⟨item.toNat, List.mem_range.2 (Nat.lt_succ_of_le hle), UInt32.ofNat_toNat⟩

/-- No item is lost or invented by going through the items that have bits only. -/
theorem holders_eq_ofList_filter (members : List TagBits) (last : ItemId) (tag : TagId) :
    holders members last tag
      = .ofList ((itemsTo last).filter fun item => members[item.toNat]?.any (·.contains tag)) := by
  apply ItemSet.ext_contains
  intro item
  rw [Bool.eq_iff_iff, ItemSet.contains_ofList, decide_eq_true_iff, List.mem_filter, mem_itemsTo,
    Option.any_eq_true]
  exact mem_holders

/-- The bit of a tag is one of those of its byte, and the byte has to be there. -/
theorem mem_holders_iff_testBit {members : List TagBits} {last item : ItemId} {tag : TagId} :
    item ∈ holders members last tag ↔ item ≤ last ∧ ∃ bits byte, members[item.toNat]? = some bits
      ∧ bits.bytes[tag.value.toNat / 8]? = some byte
      ∧ byte.toNat.testBit (tag.value.toNat % 8) = true := by
  simp only [mem_holders, TagBits.contains_iff, TagBits.byteIndex, TagBits.tagsPerByte,
    exists_and_left]

/-! ## The whole state -/

/-- The snapshot says in the current layout what the legacy state `s` says about the items up to
`last`. -/
structure Unpacks (s : LegacySnapshot) (last : ItemId) (snapshot : Snapshot) : Prop where
  /-- The tags with a set are those with a name, whatever tags have bits. -/
  named : ∀ tag, snapshot.members.contains tag = s.registry.names.contains tag
  /-- An item is in the set of a tag if it belongs to the universe, there are bits for it, they are
  wide enough for the tag, and the bit of the tag is set. -/
  members : ∀ tag set, snapshot.members.get? tag = some set → ∀ item, item ∈ set.items
    ↔ item ≤ last ∧ ∃ bits byte, s.members[item.toNat]? = some bits
      ∧ bits.bytes[tag.value.toNat / 8]? = some byte
      ∧ byte.toNat.testBit (tag.value.toNat % 8) = true
  /-- The sets are packed as their sizes ask for. -/
  packed : ∀ tag set, snapshot.members.get? tag = some set → set = .ofItems set.items
  checked : snapshot.checked = s.checked
  registry : snapshot.registry = s.registry
  typedWords : snapshot.typedWords = s.typedWords
  checkedCount : snapshot.checkedCount = s.checkedCount

/-- Every set of a migrated state is that of the items whose bits have its tag. -/
theorem get?_members_migrate (s : LegacySnapshot) (last : ItemId) (tag : TagId) :
    (s.migrate last).members.get? tag
      = (s.registry.names.get? tag).map fun _ => .ofItems (holders s.members last tag) :=
  TagMap.get?_mapWithKey _ _ _

theorem unpacks_migrate (s : LegacySnapshot) (last : ItemId) : s.Unpacks last (s.migrate last) := by
  have hset : ∀ {tag set}, (s.migrate last).members.get? tag = some set →
      set = .ofItems (holders s.members last tag) := by
    intro tag set hget
    rw [get?_members_migrate] at hget
    obtain ⟨name, -, rfl⟩ := Option.map_eq_some_iff.1 hget
    rfl
  constructor
  · intro tag
    rw [TagMap.contains, get?_members_migrate, Option.isSome_map]
    rfl
  · intro tag set hget item
    rw [hset hget]
    exact mem_holders_iff_testBit
  · intro tag set hget
    rw [hset hget]
    rfl
  all_goals rfl

/-- What a legacy state says is one snapshot. -/
theorem Unpacks.eq {s : LegacySnapshot} {last : ItemId} {a b : Snapshot} (ha : s.Unpacks last a)
    (hb : s.Unpacks last b) : a = b := by
  have hmembers : a.members = b.members := by
    refine TagMap.ext_get? fun tag => ?_
    have hnamed : a.members.contains tag = b.members.contains tag :=
      (ha.named tag).trans (hb.named tag).symm
    cases hget : a.members.get? tag with
    | none =>
      rw [TagMap.contains_eq_false_iff.2 hget] at hnamed
      exact (TagMap.contains_eq_false_iff.1 hnamed.symm).symm
    | some set =>
      rw [TagMap.contains_eq_true_iff.2 ⟨set, hget⟩] at hnamed
      obtain ⟨other, hother⟩ := TagMap.contains_eq_true_iff.1 hnamed.symm
      have hitems : set.items = other.items := by
        apply ItemSet.ext_contains
        intro item
        rw [Bool.eq_iff_iff]
        exact (ha.members tag set hget item).trans (hb.members tag other hother item).symm
      rw [hother, ha.packed tag set hget, hb.packed tag other hother, hitems]
  cases a
  cases b
  obtain rfl := hmembers
  obtain rfl := ha.checked.trans hb.checked.symm
  obtain rfl := ha.registry.trans hb.registry.symm
  obtain rfl := ha.typedWords.trans hb.typedWords.symm
  obtain rfl := ha.checkedCount.trans hb.checkedCount.symm
  rfl

/-- A migration reads the bits exactly: what it makes of a legacy state, of whatever size and
widths, is the one snapshot that says the same about the items of the universe. -/
theorem migrate_eq_iff_unpacks (s : LegacySnapshot) (last : ItemId) (snapshot : Snapshot) :
    s.migrate last = snapshot ↔ s.Unpacks last snapshot := by
  constructor
  · rintro rfl
    exact unpacks_migrate s last
  · exact (unpacks_migrate s last).eq

/-- The bit of the eighth tag is the first of the second byte, which the second item does not have;
the bits of the third item are beyond the universe, and the tag of the bit that is next to it has no
name. -/
example :
    let bits : List TagBits := [⟨[2, 3]⟩, ⟨[255]⟩, ⟨[0, 1]⟩]
    let names := TagMap.ofList [(⟨1⟩, "a"), (⟨8⟩, "b")]
    let legacy : LegacySnapshot := { ofSize 0 0 with members := bits, registry.names := names }
    ((legacy.migrate 1).members.entries.map fun e => (e.1, e.2.items.indices))
      = [(⟨1⟩, [0, 1]), (⟨8⟩, [0])] := by
  decide

end LegacySnapshot

end EvidenceTags
