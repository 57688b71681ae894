import EvidenceTags.Proofs.Wire.WrittenFile

/-!
# Files whose maps are written in any order

A file of the current version may hold the entries of its maps in any order, and several entries for
a tag. A `Body` is what such a file says, field by field, with the entries as they stand.

`Body.readsLastEntries`: what is read for a tag is its last entry. Sets are taken apart after all
entries of their map have been read, so only last entries have to be sets, and the fault of the
lowest tag whose last entry is none decides, whatever comes after the map.
-/

namespace EvidenceTags

/-! ## Last entries -/

namespace TagMap

variable {α : Type} {l l' : List (TagId × α)} {tag : TagId} {value : α}

/-- The last entry of a tag has this value. -/
def IsLast (l : List (TagId × α)) (tag : TagId) (value : α) : Prop :=
  ∃ before after, l = before ++ (tag, value) :: after ∧ ∀ e ∈ after, e.1 ≠ tag

theorem lookup_reverse_of_isLast (h : IsLast l tag value) : lookup tag l.reverse = some value := by
  rcases h with ⟨before, after, rfl, hafter⟩
  have hnone : lookup tag after.reverse = none :=
    lookup_eq_none fun e he => hafter e (List.mem_reverse.1 he)
  rw [List.reverse_append, List.reverse_cons, List.append_assoc, lookup_append, hnone,
    Option.none_or, List.singleton_append, lookup, if_pos rfl]

theorem ne_of_lookup_eq_none (h : lookup tag l = none) : ∀ e ∈ l, e.1 ≠ tag := by
  induction l with
  | nil => nofun
  | cons x rest ih =>
    unfold lookup at h
    split at h
    · cases h
    · rename_i hx
      intro e he
      rcases List.mem_cons.1 he with rfl | he
      · exact hx
      · exact ih h e he

theorem isLast_of_lookup_reverse (h : lookup tag l.reverse = some value) : IsLast l tag value := by
  induction l with
  | nil => cases h
  | cons e rest ih =>
    rw [List.reverse_cons, lookup_append] at h
    cases hrest : lookup tag rest.reverse with
    | some last =>
      rw [hrest, Option.some_or] at h
      cases h
      rcases ih hrest with ⟨before, after, rfl, hafter⟩
      exact ⟨e :: before, after, rfl, hafter⟩
    | none =>
      rw [hrest, Option.none_or] at h
      have hafter : ∀ d ∈ rest, d.1 ≠ tag := fun d hd =>
        ne_of_lookup_eq_none hrest d (List.mem_reverse.2 hd)
      unfold lookup at h
      split at h
      · rename_i htag
        cases h
        exact ⟨[], rest, by rw [← htag]; rfl, hafter⟩
      · cases h

/-- A map reads the last entry of each tag. -/
theorem get?_ofList_iff_isLast : (ofList l).get? tag = some value ↔ IsLast l tag value := by
  rw [get?_ofList]
  exact ⟨isLast_of_lookup_reverse, lookup_reverse_of_isLast⟩

/-- In a set of tags that is written as a list, every tag of the list has a last entry. -/
theorem isLast_keys_iff {tags : List TagId} :
    IsLast (tags.map fun t => (t, ())) tag () ↔ tag ∈ tags := by
  constructor
  · rintro ⟨before, after, heq, -⟩
    have hentry : (tag, ()) ∈ tags.map fun t => (t, ()) := by
      rw [heq]
      exact List.mem_append_right _ List.mem_cons_self
    rcases List.mem_map.1 hentry with ⟨t, ht, htag⟩
    cases htag
    exact ht
  · intro ht
    apply isLast_of_lookup_reverse
    cases hlast : lookup tag (tags.map fun t => (t, ())).reverse with
    | some _ => rfl
    | none =>
      have hentry : (tag, ()) ∈ (tags.map fun t => (t, ())).reverse :=
        List.mem_reverse.2 (List.mem_map.2 ⟨tag, ht, rfl⟩)
      exact absurd rfl (ne_of_lookup_eq_none hlast _ hentry)

/-- Lists with the same last entries make the same map. -/
theorem ofList_congr (h : ∀ tag value, IsLast l tag value ↔ IsLast l' tag value) :
    ofList l = ofList l' := by
  refine ext_get? fun tag => Option.ext fun value => ?_
  rw [get?_ofList_iff_isLast, get?_ofList_iff_isLast]
  exact h tag value

end TagMap

namespace Wire

/-! ## Sets taken apart -/

variable {l : List (TagId × Bytes)} {sets : List (TagId × PackedSet)}

/-- The tags stay, and each set is that of the block of its tag. -/
theorem lookup_of_decodeSets (h : decodeSets l = .ok sets) (tag : TagId) :
    TagMap.lookup tag sets
      = (TagMap.lookup tag l).bind fun block => (SetLayout.decode block).toOption := by
  induction l generalizing sets with
  | nil =>
    cases h
    rfl
  | cons e rest ih =>
    rcases exists_of_bind_eq_ok h with ⟨set, hset, hrest⟩
    rcases exists_of_bind_eq_ok hrest with ⟨others, hothers, hsets⟩
    cases hsets
    rw [TagMap.lookup, TagMap.lookup, ih hothers]
    split
    · rw [Option.bind_some, hset]
      rfl
    · rfl

theorem keys_of_decodeSets (h : decodeSets l = .ok sets) : sets.map (·.1) = l.map (·.1) := by
  induction l generalizing sets with
  | nil =>
    cases h
    rfl
  | cons e rest ih =>
    rcases exists_of_bind_eq_ok h with ⟨set, -, hrest⟩
    rcases exists_of_bind_eq_ok hrest with ⟨others, hothers, hsets⟩
    cases hsets
    rw [List.map_cons, List.map_cons, ih hothers]

/-- All blocks are taken apart, or the first that is no set stops. -/
theorem exists_decodeSets_iff :
    (∃ sets, decodeSets l = .ok sets) ↔ ∀ e ∈ l, ∃ set, SetLayout.decode e.2 = .ok set := by
  induction l with
  | nil => exact ⟨fun _ => nofun, fun _ => ⟨[], rfl⟩⟩
  | cons e rest ih =>
    rw [List.forall_mem_cons, ← ih]
    constructor
    · rintro ⟨sets, h⟩
      rcases exists_of_bind_eq_ok h with ⟨set, hset, hrest⟩
      rcases exists_of_bind_eq_ok hrest with ⟨others, hothers, -⟩
      exact ⟨⟨set, hset⟩, ⟨others, hothers⟩⟩
    · rintro ⟨⟨set, hset⟩, ⟨others, hothers⟩⟩
      refine ⟨(e.1, set) :: others, ?_⟩
      rw [decodeSets, hset, hothers]
      rfl

theorem decodeSets_eq_error {before after : List (TagId × Bytes)} {tag : TagId} {block : Bytes}
    {fault : DecodeFault} (hbefore : ∀ e ∈ before, ∃ set, SetLayout.decode e.2 = .ok set)
    (hblock : SetLayout.decode block = .error fault) :
    decodeSets (before ++ (tag, block) :: after) = .error fault := by
  induction before with
  | nil =>
    rw [List.nil_append, decodeSets, hblock]
    rfl
  | cons e before ih =>
    rcases hbefore e List.mem_cons_self with ⟨set, hset⟩
    rw [List.cons_append, decodeSets, hset, ih fun d hd => hbefore d (List.mem_cons_of_mem _ hd)]
    rfl

/-- What stops is the first block that is no set. -/
theorem exists_of_decodeSets_eq_error {fault : DecodeFault} (h : decodeSets l = .error fault) :
    ∃ before tag block after, l = before ++ (tag, block) :: after
      ∧ (∀ e ∈ before, ∃ set, SetLayout.decode e.2 = .ok set)
      ∧ SetLayout.decode block = .error fault := by
  induction l with
  | nil => cases h
  | cons e rest ih =>
    rw [decodeSets] at h
    cases hset : SetLayout.decode e.2 with
    | error other =>
      rw [hset] at h
      cases h
      have hnone : ∀ e ∈ ([] : List (TagId × Bytes)), ∃ set, SetLayout.decode e.2 = .ok set :=
        fun e he => absurd he List.not_mem_nil
      exact ⟨[], e.1, e.2, rest, rfl, hnone, hset⟩
    | ok set =>
      cases hothers : decodeSets rest with
      | ok others =>
        rw [hset, hothers] at h
        cases h
      | error other =>
        rw [hset, hothers] at h
        cases h
        rcases ih hothers with ⟨before, tag, block, after, rfl, hbefore, hblock⟩
        exact ⟨e :: before, tag, block, after, rfl,
          List.forall_mem_cons.2 ⟨⟨set, hset⟩, hbefore⟩, hblock⟩

/-! ## Bodies -/

/-- A map, as entries in any order. -/
def entryList {α : Type} (write : α → Bytes) (l : List (TagId × α)) : Bytes :=
  sequence (fun e => tag e.1 ++ write e.2) l

/-- What a file of the current version says, field by field. The entries of maps stand in any order,
and there may be several for a tag. -/
structure Body where
  checked : List Bool
  blocks : List (TagId × Bytes)
  names : List (TagId × String)
  comments : List (TagId × String)
  keyBindings : List (TagId × KeyBinding)
  colors : List (TagId × Color)
  inReport : List TagId
  typedWords : List String
  checkedCount : UInt64

namespace Body

/-- The file up to the end of the sets of items. -/
def front (b : Body) : Bytes :=
  snapshotMagic ++ number 2 2 ++ (sequence flag b.checked ++ entryList block b.blocks)

/-- The names and attributes of tags. -/
def attributes (b : Body) : Bytes :=
  entryList text b.names ++ entryList text b.comments
    ++ entryList (fun k => block k.bytes) b.keyBindings
    ++ entryList (fun c => number 4 c.value.toNat) b.colors
    ++ entryList (fun _ => []) (b.inReport.map fun t => (t, ()))

/-- The rest of the file. -/
def back (b : Body) : Bytes :=
  b.attributes ++ (sequence text b.typedWords ++ number 8 b.checkedCount.toNat)

/-- The whole file. -/
def file (b : Body) : Bytes := b.front ++ b.back

/-- The number of entries, and the length of each block, has eight bytes. -/
structure BlocksFit (blocks : List (TagId × Bytes)) : Prop where
  length : blocks.length < lengthLimit
  block : ∀ e ∈ blocks, e.2.length < lengthLimit

/-- The lengths in a file have eight bytes. -/
structure Fits (b : Body) : Prop where
  checked : b.checked.length < lengthLimit
  blocks : BlocksFit b.blocks
  names : b.names.length < lengthLimit ∧ ∀ e ∈ b.names, TextFits e.2
  comments : b.comments.length < lengthLimit ∧ ∀ e ∈ b.comments, TextFits e.2
  keyBindings : b.keyBindings.length < lengthLimit
    ∧ ∀ e ∈ b.keyBindings, e.2.bytes.length < lengthLimit
  colors : b.colors.length < lengthLimit
  inReport : b.inReport.length < lengthLimit
  typedWords : b.typedWords.length < lengthLimit ∧ ∀ word ∈ b.typedWords, TextFits word

end Body

/-! ## Reading a body -/

/-- Of several entries for a tag the last is taken. -/
theorem takes_entryList {α : Type} {read : Reader α} {write : α → Bytes} {l : List (TagId × α)}
    (hlength : l.length < lengthLimit) (h : ∀ e ∈ l, Takes read (write e.2) e.2) :
    Takes (readTagMap read) (entryList write l) (TagMap.ofList l) := by
  have hmap := takes_readTagMap_ofList (f := fun a => a) hlength h
  rwa [List.map_id'] at hmap

namespace Body

variable {b : Body}

/-- The names and attributes that a body gives to tags. -/
def registry (b : Body) : Registry :=
  ⟨.ofList b.names, .ofList b.comments, .ofList b.keyBindings, .ofList b.colors,
    .ofList (b.inReport.map fun t => (t, ()))⟩

/-- The state that a body describes, if these are its sets of items. -/
def withSets (b : Body) (members : TagMap PackedSet) : Snapshot :=
  ⟨.ofList b.checked, members, b.registry, b.typedWords, b.checkedCount⟩

/-- The blocks that count, in the order of their tags. -/
def survivors (b : Body) : List (TagId × Bytes) := (TagMap.ofList b.blocks).entries

theorem mem_survivors {tag : TagId} {block : Bytes} :
    (tag, block) ∈ b.survivors ↔ TagMap.IsLast b.blocks tag block := by
  rw [survivors, TagMap.mem_entries, TagMap.get?_ofList_iff_isLast]

theorem takes_checked (h : b.Fits) :
    Takes (readSequence readFlag) (sequence flag b.checked) b.checked :=
  takes_readSequence_self h.checked fun value _ => takes_readFlag value

theorem readMemberSets_apply (h : BlocksFit b.blocks) (rest : Bytes) :
    readMemberSets (entryList block b.blocks ++ rest) = match decodeSets b.survivors with
      | .ok sets => .ok (TagMap.ofList sets, rest)
      | .error fault => .error fault := by
  have hblocks : Takes (readTagMap readBlock) (entryList block b.blocks) (TagMap.ofList b.blocks) :=
    takes_entryList h.length fun e he => takes_readBlock (h.block e he)
  exact readMemberSets_of_takes hblocks rest

theorem takes_registry (h : b.Fits) : Takes readRegistry b.attributes b.registry := by
  have hreport : (b.inReport.map fun t => (t, ())).length < lengthLimit := by
    rw [List.length_map]
    exact h.inReport
  refine takes_readRegistry_of ?_ ?_ ?_ ?_ ?_
  · exact takes_entryList h.names.1 fun e he => takes_readText (h.names.2 e he)
  · exact takes_entryList h.comments.1 fun e he => takes_readText (h.comments.2 e he)
  · exact takes_entryList h.keyBindings.1 fun e he =>
      takes_map (takes_readBlock (h.keyBindings.2 e he)) KeyBinding.mk
  · exact takes_entryList h.colors fun e _ => takes_readColor e.2
  · exact takes_entryList hreport fun _ _ => takes_pure ()

/-- What is read after the sets of items. -/
def readRest (checked : List Bool) (members : TagMap PackedSet) : Reader Snapshot := do
  let registry ← readRegistry
  let typedWords ← readSequence readText
  let checkedCount ← readNumber .endOfInput 8
  pure ⟨.ofList checked, members, registry, typedWords, UInt64.ofNat checkedCount⟩

theorem takes_readRest (h : b.Fits) (members : TagMap PackedSet) :
    Takes (readRest b.checked members) b.back (b.withSets members) := by
  have hwords := takes_readSequence_self h.typedWords.1 fun word hword =>
    takes_readText (h.typedWords.2 word hword)
  have hcount := takes_bind_pure (takes_readNumber .endOfInput 8 b.checkedCount.toNat_lt) fun n =>
    SavedState.mk (.ofList b.checked) members b.registry b.typedWords (UInt64.ofNat n)
  rw [UInt64.ofNat_toNat] at hcount
  exact takes_bind (takes_registry h) (takes_bind hwords hcount)

/-- The blocks that count are taken apart, and only then it matters what comes after them. -/
theorem readSavedState_apply (h : b.Fits) (rest : Bytes) :
    readSavedState readMemberSets (sequence flag b.checked ++ (entryList block b.blocks ++ rest))
      = match decodeSets b.survivors with
        | .ok sets => readRest b.checked (.ofList sets) rest
        | .error fault => .error fault := by
  have hmembers := readMemberSets_apply h.blocks rest
  unfold readSavedState
  rw [bind_of_takes (takes_checked h)]
  cases hsets : decodeSets b.survivors with
  | error fault =>
    rw [hsets] at hmembers
    exact bind_of_error hmembers _
  | ok sets =>
    rw [hsets] at hmembers
    exact bind_of_ok hmembers _

/-- The first letters and the version tell how the rest is read. -/
theorem decode_front (h : b.Fits) (rest : Bytes) :
    StoredSnapshot.decode (b.front ++ rest) = match decodeSets b.survivors with
      | .ok sets => StoredSnapshot.current
        <$> StoredSnapshot.decodeBody (readRest b.checked (.ofList sets)) rest
      | .error fault => .error (.decode fault) := by
  have hdecode : StoredSnapshot.decode (b.front ++ rest) = StoredSnapshot.current
      <$> StoredSnapshot.decodeBody (readSavedState readMemberSets)
        (sequence flag b.checked ++ entryList block b.blocks ++ rest) := rfl
  rw [hdecode, List.append_assoc, StoredSnapshot.decodeBody, readSavedState_apply h]
  cases decodeSets b.survivors <;> rfl

theorem decode_of_sets (h : b.Fits) {sets : List (TagId × PackedSet)}
    (hsets : decodeSets b.survivors = .ok sets) (rest : Bytes) :
    StoredSnapshot.decode (b.file ++ rest) = .ok (.current (b.withSets (.ofList sets))) := by
  rw [file, List.append_assoc, decode_front h, hsets]
  simp only [StoredSnapshot.decodeBody, takes_readRest h (.ofList sets) rest]
  rfl

theorem decode_of_fault (h : b.Fits) {fault : DecodeFault}
    (hsets : decodeSets b.survivors = .error fault)
    (rest : Bytes) : StoredSnapshot.decode (b.front ++ rest) = .error (.decode fault) := by
  rw [decode_front h, hsets]

/-! ## Last entries are what is read -/

/-- The state in which each tag has the value of its last entry, and the set that its last block
holds. -/
structure Describes (b : Body) (s : Snapshot) : Prop where
  checked : s.checked.toList = b.checked
  members : ∀ tag set, s.members.get? tag = some set
    ↔ ∃ block, TagMap.IsLast b.blocks tag block ∧ SetLayout.decode block = .ok set
  names : ∀ tag name, s.registry.names.get? tag = some name ↔ TagMap.IsLast b.names tag name
  comments : ∀ tag comment, s.registry.comments.get? tag = some comment
    ↔ TagMap.IsLast b.comments tag comment
  keyBindings : ∀ tag key, s.registry.keyBindings.get? tag = some key
    ↔ TagMap.IsLast b.keyBindings tag key
  colors : ∀ tag color, s.registry.colors.get? tag = some color ↔ TagMap.IsLast b.colors tag color
  inReport : ∀ tag, s.registry.isInReport tag = true ↔ tag ∈ b.inReport
  typedWords : s.typedWords = b.typedWords
  checkedCount : s.checkedCount = b.checkedCount

theorem isInReport_registry (b : Body) (tag : TagId) :
    b.registry.isInReport tag = true ↔ tag ∈ b.inReport := by
  rw [← TagMap.isLast_keys_iff, ← TagMap.get?_ofList_iff_isLast]
  exact TagMap.contains_eq_true_iff.trans ⟨fun ⟨_, h⟩ => h, fun h => ⟨(), h⟩⟩

theorem get?_sets {sets : List (TagId × PackedSet)} (hsets : decodeSets b.survivors = .ok sets)
    (tag : TagId)
    (set : PackedSet) : (TagMap.ofList sets).get? tag = some set
      ↔ ∃ block, TagMap.IsLast b.blocks tag block ∧ SetLayout.decode block = .ok set := by
  have hascending : sets.Pairwise (fun a b => a.1 < b.1) := by
    have hkeys := TagMap.keys_ascending (TagMap.ofList b.blocks)
    rw [TagMap.keys, ← survivors, ← keys_of_decodeSets hsets] at hkeys
    exact List.pairwise_map.1 hkeys
  rw [TagMap.get?_ofList, TagMap.lookup_reverse hascending, lookup_of_decodeSets hsets,
    Option.bind_eq_some_iff]
  have hblock (block : Bytes) :
      TagMap.lookup tag b.survivors = some block ↔ TagMap.IsLast b.blocks tag block :=
    TagMap.get?_ofList_iff_isLast
  constructor
  · rintro ⟨block, hlast, hset⟩
    refine ⟨block, (hblock block).1 hlast, ?_⟩
    cases hdecode : SetLayout.decode block with
    | error e =>
      rw [hdecode] at hset
      cases hset
    | ok found =>
      rw [hdecode] at hset
      cases hset
      rfl
  · rintro ⟨block, hlast, hset⟩
    exact ⟨block, (hblock block).2 hlast, by rw [hset]; rfl⟩

theorem describes_withSets {sets : List (TagId × PackedSet)}
    (hsets : decodeSets b.survivors = .ok sets) :
    b.Describes (b.withSets (.ofList sets)) where
  checked := Flags.toList_ofList b.checked
  members := get?_sets hsets
  names _ _ := TagMap.get?_ofList_iff_isLast
  comments _ _ := TagMap.get?_ofList_iff_isLast
  keyBindings _ _ := TagMap.get?_ofList_iff_isLast
  colors _ _ := TagMap.get?_ofList_iff_isLast
  inReport := b.isInReport_registry
  typedWords := rfl
  checkedCount := rfl

/-- The last block of every tag holds a set. -/
def AllSets (b : Body) : Prop :=
  ∀ tag block, TagMap.IsLast b.blocks tag block → ∃ set, SetLayout.decode block = .ok set

theorem exists_sets_iff : (∃ sets, decodeSets b.survivors = .ok sets) ↔ b.AllSets := by
  rw [exists_decodeSets_iff]
  constructor
  · intro h tag block hlast
    exact h (tag, block) (mem_survivors.2 hlast)
  · rintro h ⟨tag, block⟩ hmem
    exact h tag block (mem_survivors.1 hmem)

/-- The lowest tag whose last block holds no set has this fault. -/
def LowestFault (b : Body) (fault : DecodeFault) : Prop :=
  ∃ tag block, TagMap.IsLast b.blocks tag block ∧ SetLayout.decode block = .error fault
    ∧ ∀ lower other, lower < tag → TagMap.IsLast b.blocks lower other →
      ∃ set, SetLayout.decode other = .ok set

theorem decodeSets_of_lowestFault {fault : DecodeFault} (h : b.LowestFault fault) :
    decodeSets b.survivors = .error fault := by
  rcases h with ⟨tag, block, hlast, hblock, hlower⟩
  rcases List.append_of_mem (mem_survivors.2 hlast) with ⟨before, after, heq⟩
  rw [heq]
  refine decodeSets_eq_error ?_ hblock
  rintro ⟨lower, other⟩ hmem
  have hascending : (before ++ (tag, block) :: after).Pairwise (fun a b => a.1 < b.1) :=
    heq ▸ (TagMap.ofList b.blocks).ascending
  have hlt : lower < tag :=
    (List.pairwise_append.1 hascending).2.2 _ hmem _ List.mem_cons_self
  have hother : (lower, other) ∈ b.survivors := by
    rw [heq]
    exact List.mem_append_left _ hmem
  exact hlower lower other hlt (mem_survivors.1 hother)

theorem lowestFault_of_decodeSets {fault : DecodeFault}
    (h : decodeSets b.survivors = .error fault) :
    b.LowestFault fault := by
  rcases exists_of_decodeSets_eq_error h with ⟨before, tag, block, after, heq, hbefore, hblock⟩
  have hmem : (tag, block) ∈ b.survivors := by
    rw [heq]
    exact List.mem_append_right _ List.mem_cons_self
  refine ⟨tag, block, mem_survivors.1 hmem, hblock, ?_⟩
  intro lower other hlower hlast
  have hother := mem_survivors.2 hlast
  have hascending : (before ++ (tag, block) :: after).Pairwise (fun a b => a.1 < b.1) :=
    heq ▸ (TagMap.ofList b.blocks).ascending
  rw [heq] at hother
  -- a lower tag comes before
  rcases List.mem_append.1 hother with hbefore' | hafter
  · exact hbefore _ hbefore'
  · rcases List.mem_cons.1 hafter with heq' | hafter
    · cases heq'
      exact absurd hlower (TagId.lt_irrefl _)
    · have hlt := (List.pairwise_cons.1 (List.pairwise_append.1 hascending).2.1).1 _ hafter
      exact absurd hlower (TagId.lt_asymm hlt)

/-- Two bodies say the same except for the order of entries, and for entries that are not the last
of their tag. -/
structure SameLast (b b' : Body) : Prop where
  checked : b'.checked = b.checked
  blocks : ∀ tag block, TagMap.IsLast b'.blocks tag block ↔ TagMap.IsLast b.blocks tag block
  names : ∀ tag name, TagMap.IsLast b'.names tag name ↔ TagMap.IsLast b.names tag name
  comments : ∀ tag comment, TagMap.IsLast b'.comments tag comment
    ↔ TagMap.IsLast b.comments tag comment
  keyBindings : ∀ tag key, TagMap.IsLast b'.keyBindings tag key
    ↔ TagMap.IsLast b.keyBindings tag key
  colors : ∀ tag color, TagMap.IsLast b'.colors tag color ↔ TagMap.IsLast b.colors tag color
  inReport : ∀ tag, tag ∈ b'.inReport ↔ tag ∈ b.inReport
  typedWords : b'.typedWords = b.typedWords
  checkedCount : b'.checkedCount = b.checkedCount

theorem SameLast.withSets {b' : Body} (h : b.SameLast b') (members : TagMap PackedSet) :
    b'.withSets members = b.withSets members := by
  have hreport : TagMap.ofList (b'.inReport.map fun t => (t, ()))
      = TagMap.ofList (b.inReport.map fun t => (t, ())) :=
    TagMap.ofList_congr fun tag _ =>
      TagMap.isLast_keys_iff.trans ((h.inReport tag).trans TagMap.isLast_keys_iff.symm)
  rw [Body.withSets, Body.withSets, registry, registry, TagMap.ofList_congr h.names,
    TagMap.ofList_congr h.comments, TagMap.ofList_congr h.keyBindings, TagMap.ofList_congr h.colors,
    hreport, h.checked, h.typedWords, h.checkedCount]

theorem survivors_congr {b' : Body}
    (h : ∀ tag block, TagMap.IsLast b'.blocks tag block ↔ TagMap.IsLast b.blocks tag block) :
    b'.survivors = b.survivors := by
  rw [survivors, survivors, TagMap.ofList_congr h]

/-- How a file is read whose maps have their entries in any order, with several for a tag. Bytes
after the last field do not matter. -/
structure ReadsLastEntries (b : Body) : Prop where
  /-- The file is read exactly if all last blocks are sets. -/
  accepted : ∀ rest, (∃ stored, StoredSnapshot.decode (b.file ++ rest) = .ok stored) ↔ b.AllSets
  /-- For each tag the last entry is read. -/
  described : ∀ rest stored, StoredSnapshot.decode (b.file ++ rest) = .ok stored →
    ∃ s, stored = .current s ∧ b.Describes s
  /-- The lowest tag whose last block is no set decides on the fault, whatever comes after the
  blocks. -/
  refused : ∀ fault, b.LowestFault fault →
    ∀ rest, StoredSnapshot.decode (b.front ++ rest) = .error (.decode fault)
  /-- No other fault is found. -/
  faulty : ∀ rest error, StoredSnapshot.decode (b.file ++ rest) = .error error →
    ∃ fault, error = .decode fault ∧ b.LowestFault fault
  /-- Blocks that are not the last of their tag do not matter, whatever comes after the blocks. -/
  unexamined : ∀ blocks, BlocksFit blocks →
    (∀ tag block, TagMap.IsLast blocks tag block ↔ TagMap.IsLast b.blocks tag block) →
    ∀ rest, StoredSnapshot.decode (({ b with blocks } : Body).front ++ rest)
      = StoredSnapshot.decode (b.front ++ rest)
  /-- The order of entries does not matter, nor do entries that are not the last of their tag. -/
  reordered : ∀ b' : Body, b'.Fits → b.SameLast b' →
    ∀ rest, StoredSnapshot.decode (b'.file ++ rest) = StoredSnapshot.decode (b.file ++ rest)

/-- However the entries of maps are written, their last entries are read. -/
theorem readsLastEntries (h : b.Fits) : b.ReadsLastEntries := by
  constructor
  case accepted =>
    intro rest
    rw [← exists_sets_iff]
    constructor
    · rintro ⟨stored, hstored⟩
      cases hsets : decodeSets b.survivors with
      | ok sets => exact ⟨sets, rfl⟩
      | error fault =>
        rw [file, List.append_assoc, decode_of_fault h hsets] at hstored
        cases hstored
    · rintro ⟨sets, hsets⟩
      exact ⟨_, decode_of_sets h hsets rest⟩
  case described =>
    intro rest stored hstored
    cases hsets : decodeSets b.survivors with
    | ok sets =>
      rw [decode_of_sets h hsets] at hstored
      exact ⟨_, (Except.ok.inj hstored).symm, describes_withSets hsets⟩
    | error fault =>
      rw [file, List.append_assoc, decode_of_fault h hsets] at hstored
      cases hstored
  case refused =>
    intro fault hfault
    exact decode_of_fault h (decodeSets_of_lowestFault hfault)
  case faulty =>
    intro rest error herror
    cases hsets : decodeSets b.survivors with
    | ok sets =>
      rw [decode_of_sets h hsets] at herror
      cases herror
    | error fault =>
      rw [file, List.append_assoc, decode_of_fault h hsets] at herror
      cases herror
      exact ⟨fault, rfl, lowestFault_of_decodeSets hsets⟩
  case unexamined =>
    intro blocks hblocks hsame rest
    have hfits : ({ b with blocks } : Body).Fits := { h with blocks := hblocks }
    have hsurvivors : ({ b with blocks } : Body).survivors = b.survivors := survivors_congr hsame
    rw [decode_front hfits, decode_front h, hsurvivors]
  case reordered =>
    intro b' hfits hsame rest
    have hsurvivors := survivors_congr hsame.blocks
    cases hsets : decodeSets b.survivors with
    | ok sets =>
      rw [decode_of_sets hfits (by rw [hsurvivors, hsets]), decode_of_sets h hsets, hsame.withSets]
    | error fault =>
      rw [file, file, List.append_assoc, List.append_assoc, decode_of_fault h hsets,
        decode_of_fault hfits (by rw [hsurvivors, hsets])]

/-- An entry for tag 7 that holds no set is overwritten by a later one that does, so the file is
read. If tag 3 has no set either, its fault is found first, although it comes later and the rest of
the file is missing. -/
theorem readsLastEntries_sample :
    let empty : Bytes := SetLayout.encode (.ofItems .empty)
    let read : Body :=
      ⟨[true, false], [(⟨7⟩, [1]), (⟨3⟩, empty), (⟨7⟩, empty)],
        [(⟨7⟩, "b"), (⟨3⟩, "c"), (⟨7⟩, "a")], [], [(⟨3⟩, ⟨[1, 2]⟩)], [], [⟨7⟩, ⟨3⟩, ⟨7⟩], ["w"], 1⟩
    let unread : Body := { read with blocks := [(⟨7⟩, empty), (⟨7⟩, [1]), (⟨3⟩, [0, 0, 0, 0])] }
    read.Fits ∧ (∃ stored, StoredSnapshot.decode (read.file ++ [0]) = .ok stored)
      ∧ unread.Fits
      ∧ StoredSnapshot.decode (unread.front ++ []) = .error (.decode .unknownSetLayout) := by
  intro empty read unread
  have hread : read.Fits :=
    ⟨by decide, ⟨by decide, by decide⟩, by decide, by decide, by decide, by decide,
    by decide, by decide⟩
  have hunread : unread.Fits := { hread with blocks := ⟨by decide, by decide⟩ }
  have hsets : read.AllSets := exists_sets_iff.1 ⟨_, rfl⟩
  refine ⟨hread, ((readsLastEntries hread).accepted [0]).2 hsets, hunread, ?_⟩
  refine (readsLastEntries hunread).refused .unknownSetLayout ?_ []
  refine ⟨⟨3⟩, [0, 0, 0, 0], ⟨[(⟨7⟩, empty), (⟨7⟩, [1])], [], rfl, nofun⟩, rfl, ?_⟩
  rintro lower other hlower ⟨before, after, heq, -⟩
  -- no tag of the file is lower
  have hmem : (lower, other) ∈ unread.blocks := by
    rw [heq]
    exact List.mem_append_right _ List.mem_cons_self
  have hnot : ∀ e ∈ unread.blocks, ¬ e.1 < ⟨3⟩ := by decide
  exact absurd hlower (hnot _ hmem)

end Body

end Wire

end EvidenceTags
