import EvidenceTags.Flags.Lemmas
import EvidenceTags.Proofs.Wire.SetLayoutRoundTrip
import EvidenceTags.Proofs.Wire.Utf8RoundTrip
import EvidenceTags.TagMap.Lemmas
import EvidenceTags.Wire.SnapshotFile

/-!
# Snapshots are read back from their files

Both versions of a snapshot file are read back as what was written
(`StoredSnapshot.decode_encode_of_fits`). Field by field, the reader takes exactly the bytes of the
field, whatever comes after them. A file `Fits` if the lengths in it have eight bytes, and if the
sets of items are packed as their sizes ask for.
-/

namespace EvidenceTags

/-! ## Maps from their entries -/

namespace TagMap

variable {α β : Type}

/-- The tags of a map are different, so its entries can be read from either end. -/
theorem lookup_reverse {l : List (TagId × α)} (h : l.Pairwise (fun a b => a.1 < b.1))
    (tag : TagId) :
    lookup tag l.reverse = lookup tag l := by
  induction l with
  | nil => rfl
  | cons x rest ih =>
    obtain ⟨-, hrest⟩ := List.pairwise_cons.1 h
    rw [List.reverse_cons, lookup_append, ih hrest, lookup, lookup, lookup]
    by_cases hx : x.1 = tag
    · -- no later entry has the tag of the first one
      rw [lookup_tail h (.inr hx.symm), if_pos hx]
      rfl
    · rw [if_neg hx, if_neg hx, Option.or_none]

/-- A map is made up again of its entries. -/
theorem ofList_entries (m : TagMap α) : ofList m.entries = m := by
  refine ext_get? fun tag => ?_
  rw [get?_ofList, lookup_reverse m.ascending]
  rfl

theorem mapWithKey_self (m : TagMap α) : m.mapWithKey (fun _ a => a) = m := by
  refine ext_get? fun tag => ?_
  rw [get?_mapWithKey, Option.map_id']

/-- A map has at most one entry for each of the `2 ^ 32` tags. -/
theorem length_entries_lt (m : TagMap α) : m.entries.length < Wire.lengthLimit := by
  have hascending : (m.entries.map (·.1.value.toNat)).Pairwise (· < ·) :=
    List.pairwise_map.2 (m.ascending.imp fun hlt => UInt32.lt_iff_toNat_lt.1 hlt)
  have hbound : ∀ n ∈ m.entries.map (·.1.value.toNat), n < 2 ^ 32 := by
    intro n hn
    rcases List.mem_map.1 hn with ⟨e, -, rfl⟩
    exact e.1.value.toNat_lt
  have hle := Ascending.length_le hascending hbound
  rw [List.length_map] at hle
  unfold Wire.lengthLimit
  omega

end TagMap

namespace Wire

variable {α β : Type}

/-! ## Flags, texts and tags -/

theorem takes_readFlag (value : Bool) : Takes readFlag (flag value) value := by
  intro rest
  cases value <;> rfl

/-- A text whose length has eight bytes. -/
def TextFits (s : String) : Prop := (Utf8.encode s).length < lengthLimit

instance (s : String) : Decidable (TextFits s) :=
  inferInstanceAs (Decidable ((Utf8.encode s).length < lengthLimit))

theorem takes_readText {s : String} (h : TextFits s) : Takes readText (text s) s := by
  refine takes_bind (takes_length h) ?_
  -- the bytes are taken first, and read as a text then, which takes no more bytes
  rw [← List.append_nil (Utf8.encode s)]
  refine takes_bind (by simpa using takes_readBytes .textTooLong (Utf8.encode s)) ?_
  rw [Utf8.decode_encode]
  exact takes_pure s

theorem takes_readTag (t : TagId) : Takes readTag (tag t) t := by
  have hread := takes_bind_pure (takes_readNumber .endOfInput 4 t.value.toNat_lt)
    fun n => TagId.mk (UInt32.ofNat n)
  rwa [UInt32.ofNat_toNat] at hread

theorem takes_readColor (c : Color) :
    Takes ((fun n => Color.mk (UInt32.ofNat n)) <$> readNumber .endOfInput 4)
      (number 4 c.value.toNat) c := by
  have hread := takes_map (takes_readNumber .endOfInput 4 c.value.toNat_lt)
    fun n => Color.mk (UInt32.ofNat n)
  rwa [UInt32.ofNat_toNat] at hread

/-! ## Maps -/

/-- Entries may stand in any order. If the values are read as their images under `f`, so is the
map. -/
theorem takes_readTagMap_ofList {read : Reader β} {write : α → Bytes} {f : α → β}
    {l : List (TagId × α)}
    (hlength : l.length < lengthLimit) (h : ∀ e ∈ l, Takes read (write e.2) (f e.2)) :
    Takes (readTagMap read) (sequence (fun e => tag e.1 ++ write e.2) l)
      (TagMap.ofList (l.map fun e => (e.1, f e.2))) := by
  refine takes_bind_pure (takes_readSequence hlength fun e he => ?_) TagMap.ofList
  exact takes_bind (takes_readTag e.1) (takes_bind_pure (h e he) fun value => (e.1, value))

theorem takes_readTagMap {read : Reader β} {write : α → Bytes} {f : α → β} {m : TagMap α}
    (h : ∀ e ∈ m.entries, Takes read (write e.2) (f e.2)) :
    Takes (readTagMap read) (tagMap write m) (m.mapWithKey fun _ => f) := by
  have hmap := takes_readTagMap_ofList m.length_entries_lt h
  have hentries : m.entries.map (fun e => (e.1, f e.2)) = (m.mapWithKey fun _ => f).entries := rfl
  rwa [hentries, TagMap.ofList_entries] at hmap

theorem takes_readTagMap_self {read : Reader α} {write : α → Bytes} {m : TagMap α}
    (h : ∀ e ∈ m.entries, Takes read (write e.2) e.2) :
    Takes (readTagMap read) (tagMap write m) m := by
  have hmap := takes_readTagMap (f := fun a => a) h
  rwa [TagMap.mapWithKey_self] at hmap

/-! ## The registry -/

/-- The lengths in the names and attributes of tags have eight bytes. -/
structure RegistryFits (r : Registry) : Prop where
  names : ∀ e ∈ r.names.entries, TextFits e.2
  comments : ∀ e ∈ r.comments.entries, TextFits e.2
  keyBindings : ∀ e ∈ r.keyBindings.entries, e.2.bytes.length < lengthLimit

/-- The maps of a registry are read one after another. -/
theorem takes_readRegistry_of {r : Registry} {names comments keyBindings colors inReport : Bytes}
    (hnames : Takes (readTagMap readText) names r.names)
    (hcomments : Takes (readTagMap readText) comments r.comments)
    (hkeys : Takes (readTagMap (KeyBinding.mk <$> readBlock)) keyBindings r.keyBindings)
    (hcolors : Takes
      (readTagMap ((fun n => Color.mk (UInt32.ofNat n)) <$> readNumber .endOfInput 4))
      colors r.colors)
    (hreport : Takes (readTagMap (pure ())) inReport r.inReport) :
    Takes readRegistry (names ++ comments ++ keyBindings ++ colors ++ inReport) r := by
  have hlast := takes_bind_pure hreport fun inReport =>
    Registry.mk r.names r.comments r.keyBindings r.colors inReport
  simp only [List.append_assoc]
  exact takes_bind hnames (takes_bind hcomments (takes_bind hkeys (takes_bind hcolors hlast)))

theorem takes_readRegistry {r : Registry} (h : RegistryFits r) :
    Takes readRegistry (registry r) r := by
  refine takes_readRegistry_of ?_ ?_ ?_ ?_ ?_
  · exact takes_readTagMap_self fun e he => takes_readText (h.names e he)
  · exact takes_readTagMap_self fun e he => takes_readText (h.comments e he)
  · exact takes_readTagMap_self
      fun e he => takes_map (takes_readBlock (h.keyBindings e he)) KeyBinding.mk
  · exact takes_readTagMap_self fun e _ => takes_readColor e.2
  · exact takes_readTagMap_self fun _ _ => takes_pure ()

/-! ## The saved state -/

/-- The lengths in a saved state have eight bytes; `members` says so of the field that tells which
items carry which tags. -/
structure StateFits {μ : Type} (members : μ → Prop) (s : SavedState μ) : Prop where
  checked : s.checked.size < lengthLimit
  members : members s.members
  registry : RegistryFits s.registry
  typedWords : s.typedWords.length < lengthLimit
  typedWord : ∀ word ∈ s.typedWords, TextFits word

theorem takes_readSavedState {μ : Type} {fits : μ → Prop} {readMembers : Reader μ}
    {members : μ → Bytes} {s : SavedState μ} (h : StateFits fits s)
    (hmembers : fits s.members → Takes readMembers (members s.members) s.members) :
    Takes (readSavedState readMembers) (savedState members s) s := by
  have hchecked := takes_readSequence_self (l := s.checked.toList)
    ((Flags.length_toList s.checked).symm ▸ h.checked) fun b _ => takes_readFlag b
  have hwords := takes_readSequence_self h.typedWords fun word hword =>
    takes_readText (h.typedWord word hword)
  have hcount := takes_bind_pure
    (takes_readNumber .endOfInput 8 s.checkedCount.toNat_lt) fun n =>
      SavedState.mk (.ofList s.checked.toList) s.members s.registry s.typedWords (UInt64.ofNat n)
  have hlast : SavedState.mk (.ofList s.checked.toList) s.members s.registry s.typedWords
      (UInt64.ofNat s.checkedCount.toNat) = s := by
    rw [Flags.ofList_toList, UInt64.ofNat_toNat]
  rw [hlast] at hcount
  unfold savedState
  simp only [List.append_assoc]
  exact takes_bind hchecked (takes_bind (hmembers h.members)
    (takes_bind (takes_readRegistry h.registry) (takes_bind hwords hcount)))

/-! ## Sets of items and tag bits -/

/-- The blocks of a map of sets are taken apart into the sets. -/
theorem decodeSets_encode {l : List (TagId × PackedSet)} (h : ∀ e ∈ l, e.2.BySize) :
    decodeSets (l.map fun e => (e.1, SetLayout.encode e.2)) = .ok l := by
  induction l with
  | nil => rfl
  | cons e rest ih =>
    have he := SetLayout.decode_encode (h e List.mem_cons_self)
    rw [List.map_cons, decodeSets, he, ih fun d hd => h d (List.mem_cons_of_mem _ hd)]
    rfl

/-- Each set is packed as its size asks for. -/
def SetsFit (sets : TagMap PackedSet) : Prop := ∀ e ∈ sets.entries, e.2.BySize

instance (sets : TagMap PackedSet) : Decidable (SetsFit sets) :=
  inferInstanceAs (Decidable (∀ e ∈ sets.entries, e.2.BySize))

theorem takes_readMemberSets {sets : TagMap PackedSet} (h : SetsFit sets) :
    Takes readMemberSets (memberSets sets) sets := by
  have hblocks : Takes (readTagMap readBlock) (memberSets sets)
      (sets.mapWithKey fun _ => SetLayout.encode) :=
    takes_readTagMap fun e _ => takes_readBlock (SetLayout.length_encode_lt e.2)
  have hsets : decodeSets (sets.mapWithKey fun _ => SetLayout.encode).entries = .ok sets.entries :=
    decodeSets_encode h
  rw [← List.append_nil (memberSets sets)]
  refine takes_bind hblocks ?_
  -- the blocks have been taken, and all of them are sets
  rw [hsets]
  show Takes (pure (TagMap.ofList sets.entries)) [] sets
  rw [TagMap.ofList_entries]
  exact takes_pure sets

/-- There are fewer than `2 ^ 64` items, and as many bytes for each at most. -/
structure BitsFit (bits : List TagBits) : Prop where
  length : bits.length < lengthLimit
  width : ∀ b ∈ bits, b.bytes.length < lengthLimit

theorem takes_readMemberBits {bits : List TagBits} (h : BitsFit bits) :
    Takes readMemberBits (memberBits bits) bits :=
  takes_readSequence_self h.length fun b hb => takes_map (takes_readBlock (h.width b hb)) TagBits.mk

end Wire

/-! ## Whole files -/

namespace StoredSnapshot

open Wire

/-- The lengths in the file have eight bytes, and sets of items are packed by size. -/
def Fits : StoredSnapshot → Prop
  | .legacy s => StateFits BitsFit s
  | .current s => StateFits SetsFit s

/-- Bytes after the last field do not matter, and here there are none. -/
theorem decodeBody_of_takes {α : Type} {read : Reader α} {bytes : Bytes} {value : α}
    (h : Takes read bytes value) : decodeBody read bytes = .ok value := by
  have hread := h []
  rw [List.append_nil] at hread
  rw [decodeBody, hread]

/-- What was written to a file is read back from it, in either version. -/
theorem decode_encode_of_fits {stored : StoredSnapshot} (h : stored.Fits) :
    decode stored.encode = .ok stored := by
  cases stored with
  | legacy s =>
    have hbody := decodeBody_of_takes (takes_readSavedState h takes_readMemberBits)
    show StoredSnapshot.legacy <$> decodeBody (readSavedState readMemberBits)
      (savedState memberBits s) = _
    rw [hbody]
    rfl
  | current s =>
    have hbody := decodeBody_of_takes (takes_readSavedState h takes_readMemberSets)
    show StoredSnapshot.current <$> decodeBody (readSavedState readMemberSets)
      (savedState memberSets s) = _
    rw [hbody]
    rfl

/-- Two tags, one on more items of a block than are listed. -/
def sampleSets : TagMap PackedSet :=
  TagMap.ofList [(⟨0⟩, .ofItems (ItemSet.interval 60000 70000)),
    (⟨7⟩, .ofItems (ItemSet.singleton 3))]

/-- The names of the two tags and some attributes. -/
def sampleRegistry : Registry where
  names := TagMap.ofList [(⟨0⟩, "ä"), (⟨7⟩, "")]
  comments := TagMap.ofList [(⟨7⟩, "x")]
  keyBindings := TagMap.ofList [(⟨0⟩, ⟨[1, 2]⟩)]
  colors := TagMap.ofList [(⟨0⟩, ⟨4294967295⟩)]
  inReport := TagMap.ofList [(⟨7⟩, ())]

theorem registryFits_sample : RegistryFits sampleRegistry where
  names := by decide
  comments := by decide
  keyBindings := by decide

/-- Both versions of a state with two tags are read back. -/
theorem decode_encode_sample :
    let current : Snapshot := ⟨.ofList [true, false], sampleSets, sampleRegistry, ["w"], 1⟩
    let legacy : LegacySnapshot := ⟨.unset 2, [⟨[128]⟩, ⟨[]⟩], sampleRegistry, [], 0⟩
    decode (encode (.current current)) = .ok (.current current)
      ∧ decode (encode (.legacy legacy)) = .ok (.legacy legacy) := by
  intro current legacy
  have hcurrent : Fits (.current current) :=
    ⟨by decide, by decide, registryFits_sample, by decide, by decide⟩
  have hlegacy : Fits (.legacy legacy) :=
    ⟨by decide, ⟨by decide, by decide⟩, registryFits_sample, by decide, by decide⟩
  exact ⟨decode_encode_of_fits hcurrent, decode_encode_of_fits hlegacy⟩

end StoredSnapshot

end EvidenceTags
