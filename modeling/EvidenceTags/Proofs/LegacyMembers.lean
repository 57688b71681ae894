import EvidenceTags.Proofs.Wire.SnapshotRoundTrip
import Mathlib.Data.Nat.Bitwise

/-!
# Tag bits and sets of items say the same

The legacy layout tells by bits which item carries which tag, and the current one by sets. A legacy
state that has been given some pairs of an item and a tag, in any order, holds exactly those pairs
for which it has room (`LegacySnapshot.Holding`); this is kept by each single pair.

`LegacySnapshot.migrate_built` takes such a state through its file and into the current layout: what
comes out are the sets that can be made directly of the pairs.
-/

namespace EvidenceTags

/-! ## The bits of one item -/

namespace TagBits

/-- The mask of a tag is one bit, so it asks for this bit. -/
theorem toNat_mask (tag : TagId) : (mask tag).toNat = 2 ^ (tag.value.toNat % tagsPerByte) := by
  have hbit : ∀ k < 8, ((1 : UInt8) <<< UInt8.ofNat k).toNat = 2 ^ k := by decide
  exact hbit _ (Nat.mod_lt _ (by decide))

theorem and_mask_ne_zero (byte : UInt8) (tag : TagId) :
    (byte &&& mask tag != 0) = byte.toNat.testBit (tag.value.toNat % tagsPerByte) := by
  have hand : (byte &&& mask tag).toNat
      = (byte.toNat.testBit (tag.value.toNat % tagsPerByte)).toNat
        * 2 ^ (tag.value.toNat % tagsPerByte) := by
    rw [UInt8.toNat_and, toNat_mask, Nat.and_two_pow]
  rw [Bool.eq_iff_iff, bne_iff_ne, ne_eq, ← UInt8.toNat_inj, hand]
  cases byte.toNat.testBit (tag.value.toNat % tagsPerByte) <;> simp

theorem contains_iff {bits : TagBits} {tag : TagId} :
    bits.contains tag = true ↔ ∃ byte, bits.bytes[byteIndex tag]? = some byte
      ∧ byte.toNat.testBit (tag.value.toNat % tagsPerByte) = true := by
  unfold contains
  cases bits.bytes[byteIndex tag]? with
  | none => simp
  | some byte => simp [and_mask_ne_zero]

theorem contains_ofSlots (slots : Nat) (tag : TagId) : (ofSlots slots).contains tag = false := by
  rw [← Bool.not_eq_true, contains_iff]
  rintro ⟨byte, hbyte, hbit⟩
  have hzero : byte = 0 := (List.mem_replicate.1 (List.mem_of_getElem? hbyte)).2
  rw [hzero] at hbit
  simp at hbit

/-- A tag that fits is set, and no other bit changes. -/
theorem contains_insert {bits : TagBits} {tag key : TagId} :
    (bits.insert tag).contains key = true
      ↔ bits.contains key = true ∨ key = tag ∧ byteIndex tag < bits.bytes.length := by
  simp only [contains_iff, insert, List.getElem?_modify]
  by_cases hindex : byteIndex tag = byteIndex key
  · -- both bits are in one byte
    have hsame : key = tag ↔
        tag.value.toNat % tagsPerByte = key.value.toNat % tagsPerByte := by
      constructor
      · intro h
        rw [h]
      · intro hmod
        have hvalue : key.value.toNat = tag.value.toNat := by
          rw [← Nat.div_add_mod key.value.toNat tagsPerByte,
            ← Nat.div_add_mod tag.value.toNat tagsPerByte, hmod]
          exact congrArg (tagsPerByte * · + _) hindex.symm
        cases key
        cases tag
        exact congrArg TagId.mk (UInt32.toNat_inj.1 hvalue)
    rw [hindex]
    cases hbyte : bits.bytes[byteIndex key]? with
    | none =>
      have hout : bits.bytes.length ≤ byteIndex key := List.getElem?_eq_none_iff.1 hbyte
      simp [Nat.not_lt.2 hout]
    | some byte =>
      have hin : byteIndex key < bits.bytes.length := (List.getElem?_eq_some_iff.1 hbyte).1
      simp [hin, hsame, toNat_mask, Nat.testBit_two_pow]
  · have hne : key ≠ tag := fun h => hindex (congrArg byteIndex h.symm)
    simp [hindex, hne]

end TagBits

namespace LegacySnapshot

/-! ## The bits of all items -/

/-- There are bits for `items` items, of `width` bytes each, and the tags of each item are those
that `pairs` gives to it, if they fit into its bits. -/
structure Holding (items width : Nat) (pairs : List (ItemId × TagId)) (members : List TagBits) :
    Prop where
  length : members.length = items
  widths : ∀ bits ∈ members, bits.bytes.length = width
  contains : ∀ i bits, members[i]? = some bits → ∀ tag, bits.contains tag = true
    ↔ (∃ item, (item, tag) ∈ pairs ∧ item.toNat = i) ∧ TagBits.byteIndex tag < width

theorem holding_ofSize (items slots : Nat) :
    Holding items ((slots + 7) / 8) [] (ofSize items slots).members where
  length := List.length_replicate
  widths := by
    intro bits hbits
    rw [(List.mem_replicate.1 hbits).2]
    exact List.length_replicate
  contains := by
    intro i bits hbits tag
    rw [(List.mem_replicate.1 (List.mem_of_getElem? hbits)).2, TagBits.contains_ofSlots]
    simp

/-- A further pair is added to those that are held. -/
theorem Holding.setMember {items width : Nat} {pairs : List (ItemId × TagId)} {s : LegacySnapshot}
    (h : Holding items width pairs s.members) (item : ItemId) (tag : TagId) :
    Holding items width (pairs ++ [(item, tag)]) (s.setMember item tag).members where
  length := (List.length_modify _ _ _).trans h.length
  widths := by
    intro bits hbits
    obtain ⟨i, hi⟩ := List.getElem?_of_mem hbits
    obtain ⟨old, hold, rfl⟩ : ∃ old, s.members[i]? = some old
        ∧ (if item.toNat = i then old.insert tag else old) = bits := by
      simpa [LegacySnapshot.setMember, List.getElem?_modify] using hi
    have hwidth := h.widths old (List.mem_of_getElem? hold)
    split
    · rw [TagBits.length_insert, hwidth]
    · exact hwidth
  contains := by
    intro i bits hbits key
    obtain ⟨old, hold, rfl⟩ : ∃ old, s.members[i]? = some old
        ∧ (if item.toNat = i then old.insert tag else old) = bits := by
      simpa [LegacySnapshot.setMember, List.getElem?_modify] using hbits
    have hwidth := h.widths old (List.mem_of_getElem? hold)
    by_cases hi : item.toNat = i
    · rw [if_pos hi, TagBits.contains_insert, h.contains i old hold, hwidth]
      constructor
      · rintro (⟨⟨other, hother, hat⟩, hfits⟩ | ⟨rfl, hfits⟩)
        · exact ⟨⟨other, List.mem_append_left _ hother, hat⟩, hfits⟩
        · exact ⟨⟨item, List.mem_append_right _ (List.mem_singleton.2 rfl), hi⟩, hfits⟩
      · rintro ⟨⟨other, hother, hat⟩, hfits⟩
        rcases List.mem_append.1 hother with hother | hnew
        · exact .inl ⟨⟨other, hother, hat⟩, hfits⟩
        · have hkey : key = tag := congrArg Prod.snd (List.mem_singleton.1 hnew)
          exact .inr ⟨hkey, hkey ▸ hfits⟩
    · -- the bits are those of another item
      rw [if_neg hi, h.contains i old hold]
      constructor
      · rintro ⟨⟨other, hother, hat⟩, hfits⟩
        exact ⟨⟨other, List.mem_append_left _ hother, hat⟩, hfits⟩
      · rintro ⟨⟨other, hother, hat⟩, hfits⟩
        rcases List.mem_append.1 hother with hother | hnew
        · exact ⟨⟨other, hother, hat⟩, hfits⟩
        · have hsame : other = item := congrArg Prod.fst (List.mem_singleton.1 hnew)
          exact absurd (hsame ▸ hat) hi

/-- A legacy state of so many items, with named tags, that is given pairs one after another. -/
def built (items slots : Nat) (names : TagMap String) (pairs : List (ItemId × TagId)) :
    LegacySnapshot :=
  pairs.foldl (fun s p => s.setMember p.1 p.2)
    { ofSize items slots with registry := { Registry.empty with names } }

/-- All pairs are held, whatever their order. -/
theorem holding_built (items slots : Nat) (names : TagMap String)
    (pairs : List (ItemId × TagId)) :
    Holding items ((slots + 7) / 8) pairs (built items slots names pairs).members := by
  suffices hrun : ∀ (later earlier : List (ItemId × TagId)) (s : LegacySnapshot),
      Holding items ((slots + 7) / 8) earlier s.members →
      Holding items ((slots + 7) / 8) (earlier ++ later)
        (later.foldl (fun s p => s.setMember p.1 p.2) s).members by
    exact hrun pairs [] _ (holding_ofSize items slots)
  intro later
  induction later with
  | nil =>
    intro earlier s h
    rw [List.append_nil]
    exact h
  | cons p later ih =>
    intro earlier s h
    have hnext := ih (earlier ++ [p]) (s.setMember p.1 p.2) (h.setMember p.1 p.2)
    rwa [List.append_assoc, List.singleton_append] at hnext

/-- Giving tags to items changes nothing else. -/
theorem built_eq (items slots : Nat) (names : TagMap String) (pairs : List (ItemId × TagId)) :
    built items slots names pairs = ⟨.unset items, (built items slots names pairs).members,
      { Registry.empty with names }, [], 0⟩ := by
  suffices hrun : ∀ (pairs : List (ItemId × TagId)) (s : LegacySnapshot),
      pairs.foldl (fun s p => s.setMember p.1 p.2) s
        = { s with members := (pairs.foldl (fun s p => s.setMember p.1 p.2) s).members } by
    exact hrun pairs _
  intro pairs
  induction pairs with
  | nil =>
    intro s
    rfl
  | cons p pairs ih =>
    intro s
    exact ih (s.setMember p.1 p.2)

/-! ## From bits to sets -/

theorem mem_holders {members : List TagBits} {last item : ItemId} {tag : TagId} :
    item ∈ holders members last tag
      ↔ item ≤ last ∧ ∃ bits, members[item.toNat]? = some bits ∧ bits.contains tag = true := by
  show (holders members last tag).contains item = true ↔ _
  rw [holders, ItemSet.contains_ofList, decide_eq_true_iff, List.mem_map]
  constructor
  · rintro ⟨⟨bits, i⟩, hmem, hitem⟩
    obtain ⟨hzip, hbit⟩ := List.mem_filter.1 hmem
    have hget := List.mem_zipIdx_iff_getElem?.1 hzip
    rw [List.getElem?_take] at hget
    split at hget
    · rename_i hi
      have hlimit : i < 2 ^ 32 := Nat.lt_of_lt_of_le hi last.toNat_lt
      have hnat : item.toNat = i := by
        rw [← hitem]
        exact UInt32.toNat_ofNat_of_lt' hlimit
      refine ⟨UInt32.le_iff_toNat_le.2 (by omega), bits, ?_, hbit⟩
      rw [hnat]
      exact hget
    · cases hget
  · rintro ⟨hle, bits, hget, hbit⟩
    have hlt : item.toNat < last.toNat + 1 := Nat.lt_succ_of_le (UInt32.le_iff_toNat_le.1 hle)
    refine ⟨(bits, item.toNat), List.mem_filter.2 ⟨List.mem_zipIdx_iff_getElem?.2 ?_, hbit⟩, ?_⟩
    · rw [List.getElem?_take, if_pos hlt]
      exact hget
    · exact UInt32.ofNat_toNat

/-! ## Through a file -/

open Wire

/-- The pair is for an item that has bits and is in the universe, and its tag has a bit: bits come
in whole bytes, so there may be more of them than slots. -/
def HasRoom (items slots : Nat) (last : ItemId) (p : ItemId × TagId) : Prop :=
  p.1.toNat < items ∧ p.1 ≤ last ∧ p.2.value.toNat < 8 * ((slots + 7) / 8)

instance (items slots : Nat) (last : ItemId) (p : ItemId × TagId) :
    Decidable (HasRoom items slots last p) :=
  inferInstanceAs (Decidable (_ ∧ _ ∧ _))

/-- The sets of named tags, made directly of the pairs that have room. -/
def setsOf (items slots : Nat) (last : ItemId) (names : TagMap String)
    (pairs : List (ItemId × TagId)) : TagMap PackedSet :=
  names.mapWithKey fun tag _ => .ofItems (.ofList
    ((pairs.filter fun p => p.2 = tag ∧ HasRoom items slots last p).map (·.1)))

theorem mem_setsOf {items slots : Nat} {last : ItemId} {names : TagMap String}
    {pairs : List (ItemId × TagId)} {tag : TagId} {set : PackedSet} {item : ItemId}
    (h : (setsOf items slots last names pairs).get? tag = some set) :
    item ∈ set.items ↔ (item, tag) ∈ pairs ∧ HasRoom items slots last (item, tag) := by
  rw [setsOf, TagMap.get?_mapWithKey] at h
  obtain ⟨name, -, rfl⟩ := Option.map_eq_some_iff.1 h
  show (ItemSet.ofList _).contains item = true ↔ _
  rw [ItemSet.contains_ofList, decide_eq_true_iff, List.mem_map]
  constructor
  · rintro ⟨p, hmem, rfl⟩
    obtain ⟨hpair, hkept⟩ := List.mem_filter.1 hmem
    obtain ⟨rfl, hroom⟩ := of_decide_eq_true hkept
    exact ⟨hpair, hroom⟩
  · rintro ⟨hpair, hroom⟩
    exact ⟨(item, tag), List.mem_filter.2 ⟨hpair, decide_eq_true ⟨rfl, hroom⟩⟩, rfl⟩

theorem keys_setsOf (items slots : Nat) (last : ItemId) (names : TagMap String)
    (pairs : List (ItemId × TagId)) : (setsOf items slots last names pairs).keys = names.keys := by
  rw [setsOf, TagMap.keys, TagMap.mapWithKey, List.map_map]
  rfl

/-- The items whose bits have a tag are those of the pairs that have room. -/
theorem mem_holders_built {items slots : Nat} {last item : ItemId} {names : TagMap String}
    {pairs : List (ItemId × TagId)} {tag : TagId} :
    item ∈ holders (built items slots names pairs).members last tag
      ↔ (item, tag) ∈ pairs ∧ HasRoom items slots last (item, tag) := by
  have hheld := holding_built items slots names pairs
  have hwidth : TagBits.byteIndex tag < (slots + 7) / 8
      ↔ tag.value.toNat < 8 * ((slots + 7) / 8) := by
    rw [TagBits.byteIndex, TagBits.tagsPerByte]
    omega
  rw [mem_holders, HasRoom, ← hwidth]
  constructor
  · rintro ⟨hle, bits, hget, hbit⟩
    have hlength := (List.getElem?_eq_some_iff.1 hget).1
    obtain ⟨⟨other, hpair, hat⟩, hfits⟩ := (hheld.contains _ bits hget tag).1 hbit
    rw [UInt32.toNat_inj.1 hat] at hpair
    exact ⟨hpair, hheld.length ▸ hlength, hle, hfits⟩
  · rintro ⟨hpair, hlt, hle, hfits⟩
    have hlength : item.toNat < (built items slots names pairs).members.length :=
      hheld.length.symm ▸ hlt
    have hget := List.getElem?_eq_getElem hlength
    exact ⟨hle, _, hget, (hheld.contains _ _ hget tag).2 ⟨⟨item, hpair, rfl⟩, hfits⟩⟩

/-- The migrated sets are those that are made directly of the pairs. -/
theorem migrate_built (items slots : Nat) (last : ItemId) (names : TagMap String)
    (pairs : List (ItemId × TagId)) :
    (built items slots names pairs).migrate last
      = ⟨(built items slots names pairs).checked, setsOf items slots last names pairs,
        (built items slots names pairs).registry, (built items slots names pairs).typedWords,
        (built items slots names pairs).checkedCount⟩ := by
  have hnames : (built items slots names pairs).registry.names = names := by
    rw [built_eq]
  have hsets : (names.mapWithKey fun tag _ => PackedSet.ofItems
      (holders (built items slots names pairs).members last tag))
        = setsOf items slots last names pairs := by
    refine TagMap.ext_get? fun tag => ?_
    rw [TagMap.get?_mapWithKey]
    cases hset : (setsOf items slots last names pairs).get? tag with
    | none =>
      rw [setsOf, TagMap.get?_mapWithKey, Option.map_eq_none_iff] at hset
      rw [hset]
      rfl
    | some set =>
      have hmem : ∀ item, item ∈ set.items
          ↔ (item, tag) ∈ pairs ∧ HasRoom items slots last (item, tag) := by
        intro item
        exact mem_setsOf hset
      rw [setsOf, TagMap.get?_mapWithKey] at hset
      obtain ⟨name, hname, rfl⟩ := Option.map_eq_some_iff.1 hset
      rw [hname, Option.map_some]
      apply congrArg fun items => some (PackedSet.ofItems items)
      apply ItemSet.ext_contains
      intro item
      rw [Bool.eq_iff_iff]
      exact mem_holders_built.trans (hmem item).symm
  rw [migrate, hnames, hsets]

/-- The lengths in the file of a built state have eight bytes. -/
theorem fits_built {items slots : Nat} {names : TagMap String} (hitems : items < lengthLimit)
    (hslots : slots < lengthLimit) (hnames : ∀ e ∈ names.entries, TextFits e.2)
    (pairs : List (ItemId × TagId)) :
    (StoredSnapshot.legacy (built items slots names pairs)).Fits := by
  have hheld := holding_built items slots names pairs
  have hbytes : (slots + 7) / 8 < lengthLimit := by
    unfold lengthLimit at hslots ⊢
    omega
  have hbits : BitsFit (built items slots names pairs).members := by
    constructor
    · rw [hheld.length]
      exact hitems
    · intro bits hbits
      rw [hheld.widths bits hbits]
      exact hbytes
  show StateFits BitsFit (built items slots names pairs)
  rw [built_eq]
  constructor
  · exact hitems
  · exact hbits
  · exact ⟨hnames, by simp [Registry.empty, EmptyCollection.emptyCollection, TagMap.empty],
      by simp [Registry.empty, EmptyCollection.emptyCollection, TagMap.empty]⟩
  · exact Nat.two_pow_pos 64
  · intro word hword
    exact absurd hword List.not_mem_nil

/-- A legacy state that was given pairs of an item and a tag, in any order, comes out of its file
with exactly the sets that are made directly of the pairs that have room, and otherwise as it
was. -/
theorem toCurrent_decode_built {items slots : Nat} (last : ItemId) {names : TagMap String}
    (hitems : items < lengthLimit) (hslots : slots < lengthLimit)
    (hnames : ∀ e ∈ names.entries, TextFits e.2) (pairs : List (ItemId × TagId)) :
    let legacy := built items slots names pairs
    let sets := setsOf items slots last names pairs
    (StoredSnapshot.decode (StoredSnapshot.legacy legacy).encode).map (·.toCurrent last)
        = .ok ⟨legacy.checked, sets, legacy.registry, legacy.typedWords, legacy.checkedCount⟩
      ∧ sets.keys = names.keys
      ∧ ∀ tag set, sets.get? tag = some set → ∀ item, item ∈ set.items
        ↔ (item, tag) ∈ pairs ∧ item.toNat < items ∧ item ≤ last
          ∧ tag.value.toNat < 8 * ((slots + 7) / 8) := by
  intro legacy sets
  refine ⟨?_, keys_setsOf items slots last names pairs, fun tag set hset item => mem_setsOf hset⟩
  rw [StoredSnapshot.decode_encode_of_fits (fits_built hitems hslots hnames pairs)]
  exact congrArg Except.ok (migrate_built items slots last names pairs)

/-- Five slots make a byte, so the eighth tag has a bit. The third item is beyond the universe, and
there is no bit for the tenth tag. -/
theorem toCurrent_decode_built_sample :
    let names := TagMap.ofList [(⟨0⟩, "a"), (⟨7⟩, "b")]
    let pairs : List (ItemId × TagId) := [(1, ⟨7⟩), (2, ⟨0⟩), (0, ⟨9⟩)]
    let legacy := built 3 5 names pairs
    let sets := TagMap.ofList [(⟨0⟩, ∅), (⟨7⟩, PackedSet.ofItems (ItemSet.singleton 1))]
    (StoredSnapshot.decode (StoredSnapshot.legacy legacy).encode).map (·.toCurrent 1)
      = .ok ⟨legacy.checked, sets, legacy.registry, legacy.typedWords, legacy.checkedCount⟩ := by
  intro names pairs legacy sets
  have hsets : setsOf 3 5 1 names pairs = sets := by decide
  have hnames : ∀ e ∈ names.entries, TextFits e.2 := by decide
  have hread := (toCurrent_decode_built 1 (by decide : 3 < lengthLimit)
    (by decide : 5 < lengthLimit) hnames pairs).1
  rw [hsets] at hread
  exact hread

end LegacySnapshot

end EvidenceTags
