import EvidenceTags.Proofs.Operations
import EvidenceTags.TagMap.Lemmas

/-!
# Roster and registry agree on the live tags

A tag is live twice: in the roster, where it has a set of items, and in the registry, where it has a
name. Its attributes are kept in maps of their own.

* `Coherent` is the invariant: the same tags have sets and names, and no other tag has attributes.
* `CaseState.coherent_perform` is the step lemma: every operation on the state in memory keeps it,
  if a snapshot that replaces the state is coherent itself.
* `Store.coherent_of_reachable` follows for stores on a machine, with all that they save and load.
-/

namespace EvidenceTags

/-! ## The invariant -/

/-- Whether `tag` has a comment, a key binding or a colour, or goes into the report. -/
def Registry.hasAttribute (r : Registry) (tag : TagId) : Bool :=
  r.comments.contains tag || r.keyBindings.contains tag || r.colors.contains tag
    || r.inReport.contains tag

/-- The tags that have sets of items are those that have names, and only they have attributes. -/
structure Coherent (sets : TagMap PackedSet) (r : Registry) : Prop where
  live : ∀ tag, sets.contains tag = r.isLive tag
  attributes : ∀ tag, r.hasAttribute tag = true → r.isLive tag = true

/-- A state whose roster and registry agree on the live tags. -/
def CaseState.Coherent (s : CaseState) : Prop := EvidenceTags.Coherent s.roster.sets s.registry

/-- A snapshot of such a state. -/
def Snapshot.Coherent (s : Snapshot) : Prop := EvidenceTags.Coherent s.members s.registry

/-! ## The registry -/

namespace Registry

theorem isLive_remove (r : Registry) (tag key : TagId) :
    (r.remove tag).isLive key = (!decide (key = tag) && r.isLive key) := by
  simp [isLive, remove]

theorem isLive_insert (r : Registry) (tag key : TagId) (name : String) :
    (r.insert tag name).isLive key = (decide (key = tag) || r.isLive key) := by
  by_cases h : key = tag <;> simp [isLive, insert, remove, h]

theorem isLive_rename (r : Registry) (tag key : TagId) (name : String) :
    (r.rename tag name).isLive key = r.isLive key := by
  unfold rename
  split
  · rename_i hlive
    by_cases h : key = tag
    · -- the name is replaced, and the tag was live before
      subst h
      rw [hlive]
      simp [isLive]
    · simp [isLive, h]
  · rfl

theorem hasAttribute_remove (r : Registry) (tag key : TagId) :
    (r.remove tag).hasAttribute key = (!decide (key = tag) && r.hasAttribute key) := by
  by_cases h : key = tag <;> simp [hasAttribute, remove, h]

/-- A new tag has none of the attributes that an earlier tag of that number had. -/
theorem hasAttribute_insert (r : Registry) (tag key : TagId) (name : String) :
    (r.insert tag name).hasAttribute key = (!decide (key = tag) && r.hasAttribute key) :=
  hasAttribute_remove r tag key

theorem hasAttribute_rename (r : Registry) (tag key : TagId) (name : String) :
    (r.rename tag name).hasAttribute key = r.hasAttribute key := by
  unfold rename
  split <;> rfl

theorem hasAttribute_removeKeyBinding {r : Registry} {tag key : TagId}
    (h : (r.removeKeyBinding tag).hasAttribute key = true) : r.hasAttribute key = true := by
  revert h
  simp only [hasAttribute, removeKeyBinding, TagMap.contains_erase, Bool.or_eq_true,
    Bool.and_eq_true]
  intro h
  rcases h with ((h | h) | h) | h
  · exact .inl (.inl (.inl h))
  · -- a key binding that is left was there before
    exact .inl (.inl (.inr h.2))
  · exact .inl (.inr h)
  · exact .inr h

/-- A change that leaves all names alone, and all attributes of tags other than `tag`. -/
structure ChangesAttributesOf (tag : TagId) (change : Registry → Registry) : Prop where
  names : ∀ r, (change r).names = r.names
  others : ∀ r key, key ≠ tag → (change r).hasAttribute key = r.hasAttribute key

theorem changesAttributesOf_comment (tag : TagId) (comment : Option String) :
    ChangesAttributesOf tag fun r => match comment with
      | some text => { r with comments := r.comments.insert tag text }
      | none => { r with comments := r.comments.erase tag } := by
  constructor
  · intro r
    cases comment <;> rfl
  · intro r key hkey
    cases comment <;> simp [hasAttribute, hkey]

theorem changesAttributesOf_keyBinding (tag : TagId) (key : KeyBinding) :
    ChangesAttributesOf tag fun r => { r with keyBindings := r.keyBindings.insert tag key } := by
  constructor
  · intro r
    rfl
  · intro r key hkey
    simp [hasAttribute, hkey]

theorem changesAttributesOf_color (tag : TagId) (color : Option Color) :
    ChangesAttributesOf tag fun r => match color with
      | some color => { r with colors := r.colors.insert tag color }
      | none => { r with colors := r.colors.erase tag } := by
  constructor
  · intro r
    cases color <;> rfl
  · intro r key hkey
    cases color <;> simp [hasAttribute, hkey]

theorem changesAttributesOf_inReport (tag : TagId) (value : Bool) :
    ChangesAttributesOf tag fun r =>
      if value then { r with inReport := r.inReport.insert tag () }
      else { r with inReport := r.inReport.erase tag } := by
  constructor
  · intro r
    cases value <;> rfl
  · intro r key hkey
    cases value <;> simp [hasAttribute, hkey]

end Registry

/-! ## The roster -/

namespace Roster

theorem get?_insertTag (r : Roster) (tag key : TagId) :
    (r.insertTag tag).sets.get? key
      = if key = tag then some ((r.sets.get? key).getD ∅) else r.sets.get? key := by
  unfold insertTag isLive TagMap.contains
  by_cases hkey : key = tag
  · subst hkey
    cases hset : r.sets.get? key with
    | none => simp [TagMap.get?_insert]
    | some set => simp [hset]
  · cases r.sets.get? tag with
    | none => simp [TagMap.get?_insert, hkey]
    | some set => simp [hkey]

theorem get?_removeTag (r : Roster) (tag key : TagId) :
    (r.removeTag tag).2.sets.get? key = if key = tag then none else r.sets.get? key := by
  unfold removeTag
  cases hset : r.sets.get? tag with
  | some set => exact TagMap.get?_erase _ _ _
  | none =>
    -- what is not there need not be forgotten
    by_cases hkey : key = tag
    · rw [if_pos hkey, hkey]
      exact hset
    · rw [if_neg hkey]

theorem isLive_insertTag (r : Roster) (tag key : TagId) :
    (r.insertTag tag).isLive key = (decide (key = tag) || r.isLive key) := by
  unfold isLive TagMap.contains
  rw [get?_insertTag]
  by_cases h : key = tag
  · simp [h]
  · simp [h]

theorem isLive_removeTag (r : Roster) (tag key : TagId) :
    (r.removeTag tag).2.isLive key = (!decide (key = tag) && r.isLive key) := by
  unfold isLive TagMap.contains
  rw [get?_removeTag]
  by_cases h : key = tag
  · simp [h]
  · simp [h]

/-- To replace the set of a live tag makes no tag live. -/
theorem contains_insert_of_get? {sets : TagMap PackedSet} {tag : TagId} {old : PackedSet}
    (h : sets.get? tag = some old) (set : PackedSet) (key : TagId) :
    (sets.insert tag set).contains key = sets.contains key := by
  rw [TagMap.contains_insert]
  by_cases hkey : key = tag
  · simp [hkey, TagMap.contains, h]
  · simp [hkey]

theorem isLive_addMembers {r r' : Roster} {tag : TagId} {items : ItemSet}
    (h : r.addMembers tag items = .ok r') (key : TagId) : r'.isLive key = r.isLive key := by
  unfold addMembers at h
  split at h
  · cases h
  · rename_i set hset
    cases h
    exact contains_insert_of_get? hset _ key

theorem isLive_removeMembers {r r' : Roster} {tag : TagId} {items : ItemSet}
    (h : r.removeMembers tag items = .ok r') (key : TagId) : r'.isLive key = r.isLive key := by
  unfold removeMembers at h
  split at h
  · cases h
  · rename_i set hset
    cases h
    exact contains_insert_of_get? hset _ key

end Roster

/-! ## Both together -/

namespace Coherent

variable {sets sets' : TagMap PackedSet} {r : Registry}

theorem empty : Coherent ∅ Registry.empty := by
  constructor
  · intro tag
    rfl
  · intro tag h
    exact absurd h (by simp [Registry.hasAttribute, Registry.empty])

/-- Only which tags have a set matters. -/
theorem congr (h : Coherent sets r) (hsets : ∀ key, sets'.contains key = sets.contains key) :
    Coherent sets' r := by
  constructor
  · intro key
    rw [hsets key, h.live key]
  · exact h.attributes

/-- A tag comes to both, whether or not it was there. -/
theorem insert (h : Coherent sets r) {tag : TagId} (name : String)
    (hsets : ∀ key, sets'.contains key = (decide (key = tag) || sets.contains key)) :
    Coherent sets' (r.insert tag name) := by
  constructor
  · intro key
    rw [hsets key, Registry.isLive_insert, h.live key]
  · -- the attributes that the number had are gone, so they are those of a tag that was live
    intro key hkey
    rw [Registry.hasAttribute_insert, Bool.and_eq_true] at hkey
    rw [Registry.isLive_insert, h.attributes key hkey.2, Bool.or_true]

/-- A tag goes from both. -/
theorem remove (h : Coherent sets r) {tag : TagId}
    (hsets : ∀ key, sets'.contains key = (!decide (key = tag) && sets.contains key)) :
    Coherent sets' (r.remove tag) := by
  constructor
  · intro key
    rw [hsets key, Registry.isLive_remove, h.live key]
  · intro key hkey
    rw [Registry.hasAttribute_remove, Bool.and_eq_true] at hkey
    rw [Registry.isLive_remove, hkey.1, h.attributes key hkey.2, Bool.and_true]

theorem rename (h : Coherent sets r) (tag : TagId) (name : String) :
    Coherent sets (r.rename tag name) := by
  constructor
  · intro key
    rw [Registry.isLive_rename, h.live key]
  · intro key hkey
    rw [Registry.hasAttribute_rename] at hkey
    rw [Registry.isLive_rename, h.attributes key hkey]

theorem removeKeyBinding (h : Coherent sets r) (tag : TagId) :
    Coherent sets (r.removeKeyBinding tag) := by
  constructor
  · exact h.live
  · intro key hkey
    exact h.attributes key (Registry.hasAttribute_removeKeyBinding hkey)

/-- Attributes are only given to a tag that has been found live. -/
theorem whenLive (h : Coherent sets r) {tag : TagId} {change : Registry → Registry}
    (hchange : Registry.ChangesAttributesOf tag change) {r' : Registry}
    (hr : r.whenLive tag change = .ok r') : Coherent sets r' := by
  unfold Registry.whenLive at hr
  split at hr
  · rename_i htag
    cases hr
    have hlive (key : TagId) : (change r).isLive key = r.isLive key := by
      rw [Registry.isLive, hchange.names, Registry.isLive]
    constructor
    · intro key
      rw [hlive, h.live key]
    · intro key hkey
      rw [hlive]
      by_cases heq : key = tag
      · -- the tag itself was found live
        rw [heq, htag]
      · rw [hchange.others r key heq] at hkey
        exact h.attributes key hkey
  · cases hr

end Coherent

/-! ## Operations on the state in memory -/

namespace CaseState

variable {s : CaseState}

theorem coherent_empty (last : ItemId) : (empty last).Coherent := EvidenceTags.Coherent.empty

theorem coherent_createTag (h : s.Coherent) (name : String) : (s.createTag name).2.Coherent := by
  unfold createTag
  split
  · exact h
  · exact EvidenceTags.Coherent.insert h name (s.roster.isLive_insertTag s.roster.nextFree)

theorem coherent_deleteTag (h : s.Coherent) (tag : TagId) : (s.deleteTag tag).Coherent :=
  EvidenceTags.Coherent.remove h (s.roster.isLive_removeTag tag)

/-- A change of the roster that makes no tag live; a refused one leaves the state as it was. -/
theorem coherent_ofRoster (h : s.Coherent) {result : Except StoreError Roster}
    (hlive : ∀ r', result = .ok r' → ∀ key, r'.isLive key = s.roster.isLive key) :
    (s.settle (result.map fun roster => { s with roster })).2.Coherent := by
  cases result with
  | ok r' => exact EvidenceTags.Coherent.congr h (hlive r' rfl)
  | error e => exact h

/-- A change of the attributes of a tag. -/
theorem coherent_changeRegistry (h : s.Coherent) {tag : TagId} {change : Registry → Registry}
    (hchange : Registry.ChangesAttributesOf tag change) :
    (s.settle (s.changeRegistry (·.whenLive tag change))).2.Coherent := by
  show (s.settle
    ((s.registry.whenLive tag change).map fun registry => { s with registry })).2.Coherent
  cases hr : s.registry.whenLive tag change with
  | ok r' => exact EvidenceTags.Coherent.whenLive h hchange hr
  | error e => exact h

/-- Every operation on the state keeps it coherent, if a snapshot that replaces it is coherent. -/
theorem coherent_perform (h : s.Coherent) (domain : Domain) {op : Operation}
    (hop : ∀ snapshot, op = .restore snapshot → snapshot.Coherent) :
    (s.perform domain op).2.Coherent := by
  cases op with
  | createTag name => exact coherent_createTag h name
  | deleteTag tag => exact coherent_deleteTag h tag
  | renameTag tag name => exact EvidenceTags.Coherent.rename h tag name
  | addMembers items tag => exact coherent_ofRoster h fun r' hr => Roster.isLive_addMembers hr
  | removeMembers items tag => exact coherent_ofRoster h fun r' hr => Roster.isLive_removeMembers hr
  | setComment tag comment =>
    exact coherent_changeRegistry h (Registry.changesAttributesOf_comment tag comment)
  | setKeyBinding tag key =>
    exact coherent_changeRegistry h (Registry.changesAttributesOf_keyBinding tag key)
  | removeKeyBinding tag => exact EvidenceTags.Coherent.removeKeyBinding h tag
  | setColor tag color =>
    exact coherent_changeRegistry h (Registry.changesAttributesOf_color tag color)
  | setInReport tag value =>
    exact coherent_changeRegistry h (Registry.changesAttributesOf_inReport tag value)
  | addTypedWord word =>
    show ((s.addTypedWord word).2).Coherent
    unfold addTypedWord
    split <;> exact h
  | restore snapshot => exact hop snapshot rfl
  -- unions that become known, checked items and answers are no part of it
  | _ => exact h

end CaseState

/-! ## Stores on a machine -/

namespace Store

/-- Whatever replaces the state is coherent: a snapshot that is restored, or one that is loaded from
a file. -/
def CoherentSources (s : Store) (m : Machine) : StoreOp → Prop
  | .state (.restore snapshot) => snapshot.Coherent
  | .loadFrom path =>
    ∀ stored, m.Holds path stored → Snapshot.Coherent (stored.toCurrent s.lastId)
  | .load =>
    ∀ path stored, s.source m = some path → m.Holds path stored →
      Snapshot.Coherent (stored.toCurrent s.lastId)
  | _ => True

/-- One operation of a store keeps its state coherent. -/
theorem coherent_store_perform {s : Store} {m : Machine} {op : StoreOp} (h : s.state.Coherent)
    (hop : CoherentSources s m op) : (s.perform op m).1.2.state.Coherent := by
  have heffect := perform_effect s m op
  generalize (s.perform op m).1.2.state = state at heffect
  cases heffect with
  | none => exact h
  | state o ho =>
    subst ho
    have hsnapshot : ∀ snapshot, o = .restore snapshot → snapshot.Coherent := by
      intro snapshot heq
      subst heq
      exact hop
    exact CaseState.coherent_perform h s.domain hsnapshot
  | loadFrom path stored ho hholds =>
    subst ho
    exact hop stored hholds
  | load path stored ho hsource hholds =>
    subst ho
    exact hop path stored hsource hholds

/-- In every state that a store can reach, roster and registry agree on the live tags, and so do the
snapshots that are taken of it. -/
theorem coherent_of_reachable {s : Store} {m : Machine} (h : Reachable CoherentSources s m) :
    s.state.Coherent ∧ s.state.snapshot.Coherent := by
  -- a snapshot takes over sets and registry as they are
  suffices hstate : s.state.Coherent by exact ⟨hstate, hstate⟩
  induction h with
  | opened domain settings m =>
    rw [state_openCase]
    exact CaseState.coherent_empty domain.lastId
  | performed op _ hop ih => exact coherent_store_perform ih hop
  | outside _ _ ih =>
    -- what others do to the files does not reach the state in memory
    exact ih

/-- A tag is made, and then the state is replaced by that of another case. -/
theorem coherent_of_reachable_sample :
    let machine : Machine := ⟨⟨[([], ⟨none, 0⟩)]⟩, 0, [], ⟨"/"⟩, 1, 0, []⟩
    let opened := (openCase (.dense 3) .default : StateM Machine _) machine
    let made := opened.1.perform (.state (.createTag "a")) opened.2
    let other := ((CaseState.empty 9).createTag "b").2
    let restored := made.1.2.perform (.state (.restore other.snapshot)) made.2
    restored.1.2.state.Coherent ∧ restored.1.2.state.snapshot.Coherent := by
  intro machine opened made other restored
  have hopened : Reachable CoherentSources opened.1 opened.2 := .opened (.dense 3) .default machine
  have hmade : Reachable CoherentSources made.1.2 made.2 := .performed _ hopened trivial
  have hother : other.snapshot.Coherent :=
    CaseState.coherent_createTag (CaseState.coherent_empty 9) "b"
  exact coherent_of_reachable (.performed _ hmade hother)

end Store

end EvidenceTags
