import EvidenceTags.Proofs.LiveTags
import EvidenceTags.Proofs.NewTags

/-!
# Sets and names for the same tags

`CaseState.LiveChange` says once what an operation can do to the tags that are live: a tag comes, in
the roster and in the registry, or a tag goes from both, or the same tags are live as before.

`SameTags` is what is kept in this way: the tags that have sets are those that have names.
Attributes are left out of it, so it asks less of a snapshot than `Coherent` does.
-/

namespace EvidenceTags

/-! ## What an operation does to the live tags -/

namespace CaseState

variable {s : CaseState}

/-- How the live tags of a state follow from those of the state before. -/
inductive LiveChange (s : CaseState) (op : Operation) (s' : CaseState) : Prop
  | same (hroster : ∀ tag, s'.roster.isLive tag = s.roster.isLive tag)
      (hregistry : ∀ tag, s'.registry.isLive tag = s.registry.isLive tag)
  | made (name : String) (hop : op = .createTag name) (hfree : s.registry.idOf? name = none)
      (hroster : ∀ tag,
        s'.roster.isLive tag = (decide (tag = s.roster.nextFree) || s.roster.isLive tag))
      (hregistry : ∀ tag,
        s'.registry.isLive tag = (decide (tag = s.roster.nextFree) || s.registry.isLive tag))
  | gone (old : TagId) (hop : op = .deleteTag old)
      (hroster : ∀ tag, s'.roster.isLive tag = (!decide (tag = old) && s.roster.isLive tag))
      (hregistry : ∀ tag, s'.registry.isLive tag = (!decide (tag = old) && s.registry.isLive tag))

theorem LiveChange.refl (s : CaseState) (op : Operation) : LiveChange s op s := by
  refine .same ?_ ?_
  · intro tag
    rfl
  · intro tag
    rfl

/-- A roster that comes instead has sets for the same tags. -/
theorem liveChange_roster (op : Operation) {result : Except StoreError Roster}
    (hlive : ∀ r', result = .ok r' → ∀ tag, r'.isLive tag = s.roster.isLive tag) :
    LiveChange s op (s.settle (result.map fun roster => { s with roster })).2 := by
  refine settle_roster (LiveChange.refl s op) ?_
  intro r' hr
  refine .same (hlive r' hr) ?_
  intro tag
  rfl

/-- An attribute is given to a tag, or refused. -/
theorem liveChange_attribute (op : Operation) {tag : TagId} {change : Registry → Registry}
    (hchange : Registry.ChangesAttributesOf tag change) :
    LiveChange s op (s.settle (s.changeRegistry (·.whenLive tag change))).2 := by
  refine settle_changeRegistry (LiveChange.refl s op) _ ?_
  intro registry hregistry
  refine .same (fun _ => rfl) ?_
  intro key
  show registry.names.contains key = s.registry.names.contains key
  rw [Registry.names_of_whenLive hchange hregistry]

/-- An operation makes a tag live for which a name is new, or ends the life of the tag that it
deletes, or leaves the live tags as they are. -/
theorem liveChange_perform (s : CaseState) (domain : Domain) {op : Operation}
    (hop : ∀ snapshot, op ≠ .restore snapshot) : LiveChange s op (s.perform domain op).2 := by
  cases op with
  | createTag name =>
    show LiveChange s _ (s.createTag name).2
    cases hid : s.registry.idOf? name with
    | some tag =>
      rw [createTag, hid]
      exact LiveChange.refl s _
    | none =>
      rw [createTag, hid]
      refine .made name rfl hid (s.roster.isLive_insertTag _) ?_
      intro tag
      exact s.registry.isLive_insert _ tag name
  | deleteTag tag =>
    exact .gone tag rfl (s.roster.isLive_removeTag tag) (s.registry.isLive_remove tag)
  | renameTag tag name =>
    refine .same (fun _ => rfl) ?_
    intro key
    exact s.registry.isLive_rename tag key name
  | addMembers items tag => exact liveChange_roster _ fun r' hr => Roster.isLive_addMembers hr
  | removeMembers items tag => exact liveChange_roster _ fun r' hr => Roster.isLive_removeMembers hr
  | setComment tag comment =>
    exact liveChange_attribute _ (Registry.changesAttributesOf_comment tag comment)
  | setKeyBinding tag key =>
    exact liveChange_attribute _ (Registry.changesAttributesOf_keyBinding tag key)
  | setColor tag color =>
    exact liveChange_attribute _ (Registry.changesAttributesOf_color tag color)
  | setInReport tag value =>
    exact liveChange_attribute _ (Registry.changesAttributesOf_inReport tag value)
  | addTypedWord word =>
    show LiveChange s _ (s.addTypedWord word).2
    unfold addTypedWord
    split
    · exact LiveChange.refl s _
    · exact .same (fun _ => rfl) (fun _ => rfl)
  | restore snapshot => exact absurd rfl (hop snapshot)
  -- key bindings, the selection and unions that become known are no part of it
  | _ => exact .same (fun _ => rfl) (fun _ => rfl)

end CaseState

/-! ## The same tags in both -/

/-- The tags that have sets of items are those that have names. -/
def SameTags (sets : TagMap PackedSet) (r : Registry) : Prop :=
  ∀ tag, sets.contains tag = r.isLive tag

/-- A snapshot with sets and names for the same tags. -/
def Snapshot.SameTags (s : Snapshot) : Prop := EvidenceTags.SameTags s.members s.registry

/-- There are as many sets as names, if they are those of the same tags. -/
theorem SameTags.keys_eq {sets : TagMap PackedSet} {r : Registry} (h : SameTags sets r) :
    sets.keys = r.names.keys := by
  apply Ascending.eq_of_mem_iff TagId.lt_asymm (TagMap.keys_ascending _) (TagMap.keys_ascending _)
  intro tag
  rw [TagMap.mem_keys, TagMap.mem_keys]
  exact Bool.eq_iff_iff.1 (h tag)

namespace CaseState

variable {s : CaseState}

/-- A state with sets and names for the same tags. -/
def SameTags (s : CaseState) : Prop := EvidenceTags.SameTags s.roster.sets s.registry

theorem sameTags_empty (last : ItemId) : (empty last).SameTags := by
  intro tag
  rfl

theorem LiveChange.sameTags {op : Operation} {s' : CaseState} (hchange : LiveChange s op s')
    (h : s.SameTags) : s'.SameTags := by
  have hlive (tag : TagId) : s.roster.isLive tag = s.registry.isLive tag := h tag
  intro tag
  show s'.roster.isLive tag = s'.registry.isLive tag
  rcases hchange with ⟨hroster, hregistry⟩ | ⟨_, _, _, hroster, hregistry⟩ |
    ⟨_, _, hroster, hregistry⟩
  all_goals rw [hroster tag, hregistry tag, hlive tag]

/-- Every operation keeps the tags the same, if they are in a snapshot that replaces the state. -/
theorem sameTags_perform (h : s.SameTags) (domain : Domain) {op : Operation}
    (hop : ∀ snapshot, op = .restore snapshot → snapshot.SameTags) :
    (s.perform domain op).2.SameTags := by
  by_cases hrestore : ∃ snapshot, op = .restore snapshot
  · rcases hrestore with ⟨snapshot, rfl⟩
    exact hop snapshot rfl
  · have hchange := liveChange_perform s domain (not_exists.1 hrestore)
    exact hchange.sameTags h

end CaseState

/-- In every state that a store can reach, the tags that have sets are those that have names, if it
is so in the snapshots that replace the state. -/
theorem Store.sameTags_of_reachable {s : Store} {m : Machine}
    (h : Reachable (SourcesHave Snapshot.SameTags) s m) : s.state.SameTags :=
  invariant_of_reachable CaseState.sameTags_empty
    (fun _ domain _ hstate hop => CaseState.sameTags_perform hstate domain hop) h

end EvidenceTags
