import EvidenceTags.Proofs.FilterMeaning
import EvidenceTags.Proofs.LiveTags

/-!
# Names that tags share

What is shown for an item are the names of all tags that it carries. A search by name goes the other
way: the name stands for the lowest tag that has it, and the items of this tag are found. Nothing
keeps a tag from getting a name that another tag has already, and then the two ways differ.

* `CaseState.mem_namesOf_iff` holds in every state: the names that are shown for an item are those
  by which it is found, and those that it has only from a tag that is passed over
  (`CaseState.PassedOver`).
* `Registry.NamesApart` is the invariant of cases in which no tag is renamed to a name that is
  taken: `CaseState.namesApart_perform` is the step lemma, and in such a case nothing is passed
  over.
* `Store.shown_iff_found` puts both together, and `Store.shown_but_not_found` is a run in which an
  item is shown with a name by which it is not found.
-/

namespace EvidenceTags

/-! ## Tags of a name -/

namespace Registry

/-- No two tags have the same name. -/
def NamesApart (r : Registry) : Prop :=
  ∀ tag other name, r.names.get? tag = some name → r.names.get? other = some name → tag = other

variable {r : Registry}

/-- A name that some tag has stands for one of the tags that have it. -/
theorem exists_standsFor {tag : TagId} {name : String} (h : r.names.get? tag = some name) :
    ∃ low, r.StandsFor name low := by
  have hsome : (r.names.entries.find? (·.2 = name)).isSome = true := by
    rw [List.find?_isSome]
    exact ⟨(tag, name), TagMap.mem_entries.2 h, by simp⟩
  rcases Option.isSome_iff_exists.1 hsome with ⟨entry, hfind⟩
  refine ⟨entry.1, standsFor_of_idOf? ?_⟩
  rw [idOf?, hfind]
  rfl

theorem idOf?_eq_none_iff {name : String} :
    r.idOf? name = none ↔ ∀ tag, r.names.get? tag ≠ some name := by
  constructor
  · intro hnone tag htag
    rcases exists_standsFor htag with ⟨low, hlow⟩
    rw [idOf?_eq_some_iff.2 hlow] at hnone
    exact Option.some_ne_none low hnone
  · intro hfree
    cases hid : r.idOf? name with
    | none => rfl
    | some tag => exact absurd (standsFor_of_idOf? hid).1 (hfree tag)

theorem namesApart_empty : Registry.empty.NamesApart := by
  intro tag other name htag
  exact absurd htag (Option.some_ne_none name).symm

/-- Only the names matter. -/
theorem NamesApart.congr (h : r.NamesApart) {r' : Registry} (hnames : r'.names = r.names) :
    r'.NamesApart := by
  rw [NamesApart, hnames]
  exact h

theorem NamesApart.remove (h : r.NamesApart) (tag : TagId) : (r.remove tag).NamesApart := by
  have hget (key : TagId) (name : String) (hkey : (r.remove tag).names.get? key = some name) :
      r.names.get? key = some name := by
    rw [Registry.remove, TagMap.get?_erase] at hkey
    split at hkey
    · cases hkey
    · exact hkey
  intro first second name hfirst hsecond
  exact h first second name (hget first name hfirst) (hget second name hsecond)

/-- A tag gets a name that no other tag has. -/
theorem NamesApart.name (h : r.NamesApart) {tag : TagId} {name : String}
    (hfree : ∀ other, r.names.get? other = some name → other = tag) :
    ({ r with names := r.names.insert tag name } : Registry).NamesApart := by
  intro first second text hfirst hsecond
  simp only [TagMap.get?_insert] at hfirst hsecond
  split at hfirst <;> split at hsecond
  · rename_i hf hs
    rw [hf, hs]
  · -- the second tag has the name that the first one has got
    rename_i hf hs
    cases hfirst
    exact absurd (hfree second hsecond) hs
  · rename_i hf hs
    cases hsecond
    exact absurd (hfree first hfirst) hf
  · exact h first second text hfirst hsecond

/-- A tag that is registered has its name, and all other tags keep theirs. -/
theorem names_insert (r : Registry) (tag : TagId) (name : String) :
    (r.insert tag name).names = r.names.insert tag name := by
  apply TagMap.ext_get?
  intro key
  simp only [Registry.insert, Registry.remove, TagMap.get?_insert, TagMap.get?_erase]
  split <;> rfl

theorem NamesApart.insert (h : r.NamesApart) (tag : TagId) {name : String}
    (hfree : ∀ other, r.names.get? other ≠ some name) : (r.insert tag name).NamesApart := by
  have hnamed : ({ r with names := r.names.insert tag name } : Registry).NamesApart := by
    apply h.name
    intro other hother
    exact absurd hother (hfree other)
  exact hnamed.congr (r.names_insert tag name)

theorem NamesApart.rename (h : r.NamesApart) {tag : TagId} {name : String}
    (hfree : r.isLive tag = true → ∀ other, r.names.get? other = some name → other = tag) :
    (r.rename tag name).NamesApart := by
  unfold Registry.rename
  split
  · rename_i hlive
    exact h.name (hfree hlive)
  · exact h

/-- To give attributes to a tag, or to refuse to, leaves the names as they are. -/
theorem names_of_whenLive {tag : TagId} {change : Registry → Registry}
    (hchange : ChangesAttributesOf tag change) {r' : Registry}
    (h : r.whenLive tag change = .ok r') : r'.names = r.names := by
  unfold whenLive at h
  split at h
  · cases h
    exact hchange.names r
  · cases h

end Registry

/-! ## Shown and found -/

namespace CaseState

variable {s : CaseState} {item : ItemId} {name : String}

theorem mem_tagsOf {tag : TagId} : tag ∈ s.roster.tagsOf item ↔ s.Carries item tag := by
  simp only [Roster.tagsOf, List.mem_map, List.mem_filter]
  constructor
  · rintro ⟨entry, ⟨hentry, hitem⟩, rfl⟩
    exact ⟨entry.2, TagMap.mem_entries.1 hentry, hitem⟩
  · rintro ⟨set, hget, hitem⟩
    exact ⟨(tag, set), ⟨TagMap.mem_entries.2 hget, hitem⟩, rfl⟩

/-- The names that are shown for an item are those of the tags that it carries. -/
theorem mem_namesOf :
    name ∈ s.namesOf item ↔ ∃ tag, s.registry.names.get? tag = some name ∧ s.Carries item tag := by
  rw [namesOf, Ascending.mem_ofList, List.mem_filterMap]
  constructor
  · rintro ⟨tag, htag, hname⟩
    exact ⟨tag, hname, mem_tagsOf.1 htag⟩
  · rintro ⟨tag, hname, hcarries⟩
    exact ⟨tag, mem_tagsOf.2 hcarries, hname⟩

/-- The items that are found by a name are those of the tag that it stands for. -/
theorem contains_unionOf_singleton :
    (s.unionOf [name]).contains item = true
      ↔ ∃ tag, s.registry.StandsFor name tag ∧ s.Carries item tag := by
  simp only [contains_unionOf, CarriesNamed, List.mem_singleton, exists_eq_left]

/-- The item carries a tag of this name, but not the lowest one, which the name stands for. -/
def PassedOver (s : CaseState) (name : String) (item : ItemId) : Prop :=
  ∃ low tag, s.registry.StandsFor name low ∧ low < tag ∧ s.registry.names.get? tag = some name
    ∧ s.Carries item tag ∧ ¬ s.Carries item low

/-- What is found by a name is not passed over. -/
theorem not_passedOver_of_contains (h : (s.unionOf [name]).contains item = true) :
    ¬ s.PassedOver name item := by
  rintro ⟨low, tag, hlow, -, -, -, hnot⟩
  rcases contains_unionOf_singleton.1 h with ⟨found, hfound, hcarries⟩
  rw [hfound.unique hlow] at hcarries
  exact hnot hcarries

/-- An item is shown with the names by which it is found, and with those for which it is passed
over. -/
theorem mem_namesOf_iff :
    name ∈ s.namesOf item
      ↔ (s.unionOf [name]).contains item = true ∨ s.PassedOver name item := by
  rw [mem_namesOf, contains_unionOf_singleton]
  constructor
  · rintro ⟨tag, htag, hcarries⟩
    rcases Registry.exists_standsFor htag with ⟨low, hlow⟩
    by_cases hfound : s.Carries item low
    · exact .inl ⟨low, hlow, hfound⟩
    · right
      -- the tag is not the lowest one, which the item does not carry
      have hlt : low < tag := by
        rcases TagId.lt_or_eq_or_gt low tag with hlt | heq | hgt
        · exact hlt
        · exact absurd (heq ▸ hcarries) hfound
        · exact absurd hgt (hlow.2 tag htag)
      exact ⟨low, tag, hlow, hlt, htag, hcarries, hfound⟩
  · rintro (⟨tag, hstands, hcarries⟩ | ⟨low, tag, -, -, htag, hcarries, -⟩)
    · exact ⟨tag, hstands.1, hcarries⟩
    · exact ⟨tag, htag, hcarries⟩

/-- If no two tags have the same name, nothing is passed over. -/
theorem not_passedOver_of_namesApart (h : s.registry.NamesApart) : ¬ s.PassedOver name item := by
  rintro ⟨low, tag, hlow, hlt, htag, -, -⟩
  exact TagId.ne_of_lt hlt (h low tag name hlow.1 htag)

/-! ## Names that stay apart -/

theorem namesApart_settle (h : s.registry.NamesApart) {tag : TagId} {change : Registry → Registry}
    (hchange : Registry.ChangesAttributesOf tag change) :
    (s.settle (s.changeRegistry (·.whenLive tag change))).2.registry.NamesApart := by
  refine settle_changeRegistry (I := fun s => s.registry.NamesApart) h _ ?_
  intro registry hregistry
  exact h.congr (Registry.names_of_whenLive hchange hregistry)

/-- Every operation keeps names apart, if a tag is only renamed to a name that no other tag has, and
a snapshot that replaces the state has names apart. -/
theorem namesApart_perform (h : s.registry.NamesApart) (domain : Domain) {op : Operation}
    (hrename : ∀ tag name, op = .renameTag tag name → s.registry.isLive tag = true →
      ∀ other, s.registry.names.get? other = some name → other = tag)
    (hrestore : ∀ snapshot, op = .restore snapshot → snapshot.registry.NamesApart) :
    (s.perform domain op).2.registry.NamesApart := by
  cases op with
  | createTag name =>
    show (s.createTag name).2.registry.NamesApart
    unfold createTag
    split
    · exact h
    · -- a tag is made only if no tag has the name
      rename_i hnone
      exact h.insert _ (Registry.idOf?_eq_none_iff.1 hnone)
  | deleteTag tag => exact h.remove tag
  | renameTag tag name => exact h.rename (hrename tag name rfl)
  | addMembers items tag | removeMembers items tag =>
    exact settle_roster (I := fun s => s.registry.NamesApart) h fun _ _ => h
  | setComment tag comment =>
    exact namesApart_settle h (Registry.changesAttributesOf_comment tag comment)
  | setKeyBinding tag key =>
    exact namesApart_settle h (Registry.changesAttributesOf_keyBinding tag key)
  | setColor tag color => exact namesApart_settle h (Registry.changesAttributesOf_color tag color)
  | setInReport tag value =>
    exact namesApart_settle h (Registry.changesAttributesOf_inReport tag value)
  | addTypedWord word =>
    show (s.addTypedWord word).2.registry.NamesApart
    unfold addTypedWord
    split <;> exact h
  | restore snapshot => exact hrestore snapshot rfl
  -- key bindings, the selection and unions that become known are no part of it
  | _ => exact h

end CaseState

namespace Store

/-- Tags are made, deleted and renamed, and items are added to them and taken from them. -/
def OnTags (_ : Store) (_ : Machine) : StoreOp → Prop
  | .state (.createTag _) | .state (.deleteTag _) | .state (.renameTag ..)
  | .state (.addMembers ..) | .state (.removeMembers ..) => True
  | _ => False

/-- No tag is renamed to a name that another tag has, and in no snapshot that replaces the state do
two tags have the same name. -/
structure KeepsNamesApart (s : Store) (m : Machine) (op : StoreOp) : Prop where
  rename : ∀ tag name, op = .state (.renameTag tag name) → s.state.registry.isLive tag = true →
    ∀ other, s.state.registry.names.get? other = some name → other = tag
  sources : SourcesHave (fun snapshot => snapshot.registry.NamesApart) s m op

theorem namesApart_of_reachable {s : Store} {m : Machine} (h : Reachable KeepsNamesApart s m) :
    s.state.registry.NamesApart := by
  refine invariant_of_effect (I := fun s => s.registry.NamesApart)
    (fun _ => Registry.namesApart_empty) ?_ h
  intro s m op state hs hop heffect
  cases heffect with
  | none => exact hs
  | state o ho =>
    subst ho
    refine CaseState.namesApart_perform hs s.domain ?_ ?_
    · intro tag name heq
      exact hop.rename tag name (congrArg StoreOp.state heq)
    · intro snapshot heq
      subst heq
      exact hop.sources
  | loadFrom path stored ho hholds =>
    subst ho
    exact hop.sources stored hholds
  | load path stored ho hsource hholds =>
    subst ho
    exact hop.sources path stored hsource hholds

/-- In every state, an item is shown with the names by which it is found, and beyond them with those
for which it is passed over. As long as no tag gets a name that another tag has, an item is shown
with a name exactly if it is found by it, and exactly these hits are kept by the filter for this
name. -/
theorem shown_iff_found :
    (∀ (s : CaseState) (item : ItemId) (name : String),
      (name ∈ s.namesOf item
          ↔ (s.unionOf [name]).contains item = true ∨ s.PassedOver name item)
        ∧ ((s.unionOf [name]).contains item = true → ¬ s.PassedOver name item))
      ∧ ∀ {s : Store} {m : Machine}, Reachable KeepsNamesApart s m → ∀ name,
        (∀ item, name ∈ s.state.namesOf item ↔ (s.state.unionOf [name]).contains item = true)
          ∧ ∀ hits, s.state.filterByTags hits [name]
            = hits.keeping fun item => name ∈ s.state.namesOf item := by
  refine ⟨?_, ?_⟩
  · intro s item name
    exact ⟨CaseState.mem_namesOf_iff, CaseState.not_passedOver_of_contains⟩
  · intro s m h name
    have hapart := namesApart_of_reachable h
    have hagree (item : ItemId) :
        name ∈ s.state.namesOf item ↔ (s.state.unionOf [name]).contains item = true := by
      rw [CaseState.mem_namesOf_iff]
      exact or_iff_left (CaseState.not_passedOver_of_namesApart hapart)
    refine ⟨hagree, ?_⟩
    intro hits
    exact Hits.retain_eq_keeping (fun item => (hagree item).symm) hits

/-- Two tags are made, and the second one is renamed to a third name and gets an item. -/
theorem shown_iff_found_sample :
    let machine : Machine := ⟨⟨[([], ⟨none, 0⟩)]⟩, 0, [], ⟨"/"⟩, 1, 0, []⟩
    let opened := (openCase (.dense 9) .default : StateM Machine _) machine
    let first := opened.1.perform (.state (.createTag "a")) opened.2
    let second := first.1.2.perform (.state (.createTag "b")) first.2
    let renamed := second.1.2.perform (.state (.renameTag ⟨1⟩ "c")) second.2
    let added := renamed.1.2.perform (.state (.addMembers [5] ⟨1⟩)) renamed.2
    "c" ∈ added.1.2.state.namesOf 5 ∧ (added.1.2.state.unionOf ["c"]).contains 5 = true := by
  intro machine opened first second renamed added
  have hopened : Reachable KeepsNamesApart opened.1 opened.2 := .opened (.dense 9) .default machine
  have hfirst : Reachable KeepsNamesApart first.1.2 first.2 :=
    .performed _ hopened ⟨nofun, trivial⟩
  have hsecond : Reachable KeepsNamesApart second.1.2 second.2 :=
    .performed _ hfirst ⟨nofun, trivial⟩
  have hfree : second.1.2.state.registry.idOf? "c" = none := by decide
  have hrenamed : Reachable KeepsNamesApart renamed.1.2 renamed.2 := by
    refine .performed _ hsecond ⟨?_, trivial⟩
    intro tag name heq _ other hother
    cases heq
    exact absurd hother (Registry.idOf?_eq_none_iff.1 hfree other)
  have hadded : Reachable KeepsNamesApart added.1.2 added.2 :=
    .performed _ hrenamed ⟨nofun, trivial⟩
  have hshown : "c" ∈ added.1.2.state.namesOf 5 := by decide
  exact ⟨hshown, ((shown_iff_found.2 hadded "c").1 5).1 hshown⟩

/-- A tag is renamed to the name of a lower tag, and gets an item. The item is shown with this name,
but it is not found by it. -/
theorem shown_but_not_found :
    ¬ ∀ (s : Store) (m : Machine), Reachable OnTags s m → ∀ (item : ItemId) (name : String),
      name ∈ s.state.namesOf item ↔ (s.state.unionOf [name]).contains item = true := by
  intro hagree
  let machine : Machine := ⟨⟨[([], ⟨none, 0⟩)]⟩, 0, [], ⟨"/"⟩, 1, 0, []⟩
  let opened := (openCase (.dense 9) .default : StateM Machine _) machine
  let first := opened.1.perform (.state (.createTag "a")) opened.2
  let second := first.1.2.perform (.state (.createTag "b")) first.2
  let renamed := second.1.2.perform (.state (.renameTag ⟨1⟩ "a")) second.2
  let added := renamed.1.2.perform (.state (.addMembers [5] ⟨1⟩)) renamed.2
  have hopened : Reachable OnTags opened.1 opened.2 := .opened (.dense 9) .default machine
  have hfirst : Reachable OnTags first.1.2 first.2 := .performed _ hopened trivial
  have hsecond : Reachable OnTags second.1.2 second.2 := .performed _ hfirst trivial
  have hrenamed : Reachable OnTags renamed.1.2 renamed.2 := .performed _ hsecond trivial
  have hadded : Reachable OnTags added.1.2 added.2 := .performed _ hrenamed trivial
  have hshown : "a" ∈ added.1.2.state.namesOf 5 := by decide
  have hfound := (hagree added.1.2 added.2 hadded 5 "a").1 hshown
  exact absurd hfound (by decide)

end Store

end EvidenceTags
