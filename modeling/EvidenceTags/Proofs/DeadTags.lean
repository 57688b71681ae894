import EvidenceTags.Proofs.LiveTags

/-!
# Dead tags

Nine operations change one tag. Six of them demand that it is live: adding and removing items ask
the roster, and setting an attribute asks the registry. The other three pass over a dead tag
(`Operation.demands?`, `Operation.spares?`).

Roster and registry agree in every state that a store can reach, so the six refuse the same tags,
and none of the nine changes anything where the tag is dead (`Store.refusesDead_of_reachable`). That
the three change nothing needs more than the agreement: an attribute of a dead tag would be taken
away.
-/

namespace EvidenceTags

/-! ## Which tag has to be live -/

namespace Operation

/-- The tag that an operation changes, if it is refused where the tag is dead. -/
def demands? : Operation → Option TagId
  | .addMembers _ tag | .removeMembers _ tag | .setComment tag _ | .setKeyBinding tag
      _ | .setColor tag _
  | .setInReport tag _ => some tag
  | _ => none

/-- The tag that an operation changes, if it passes over it where the tag is dead. -/
def spares? : Operation → Option TagId
  | .deleteTag tag | .renameTag tag _ | .removeKeyBinding tag => some tag
  | _ => none

end Operation

/-! ## Registry and roster -/

namespace Registry

variable {r : Registry} {tag : TagId}

theorem rename_of_dead (h : r.isLive tag = false) (name : String) : r.rename tag name = r := by
  rw [rename, h]
  rfl

/-- A tag without attributes has none of each kind. -/
theorem contains_of_not_hasAttribute (h : r.hasAttribute tag = false) :
    r.comments.contains tag = false ∧ r.keyBindings.contains tag = false
      ∧ r.colors.contains tag = false ∧ r.inReport.contains tag = false := by
  simpa [hasAttribute, and_assoc] using h

theorem removeKeyBinding_of_not_hasAttribute (h : r.hasAttribute tag = false) :
    r.removeKeyBinding tag = r := by
  rw [removeKeyBinding, TagMap.erase_of_not_contains (contains_of_not_hasAttribute h).2.1]

theorem remove_of_dead (h : r.isLive tag = false) (hattribute : r.hasAttribute tag = false) :
    r.remove tag = r := by
  obtain ⟨hcomment, hkey, hcolor, hreport⟩ := contains_of_not_hasAttribute hattribute
  rw [remove, TagMap.erase_of_not_contains h, TagMap.erase_of_not_contains hcomment,
    TagMap.erase_of_not_contains hkey, TagMap.erase_of_not_contains hcolor,
    TagMap.erase_of_not_contains hreport]

end Registry

/-- The union stays known, if it was. -/
theorem Roster.removeTag_of_dead {r : Roster} {tag : TagId} (h : r.isLive tag = false) :
    (r.removeTag tag).2 = r := by
  rw [removeTag, TagMap.contains_eq_false_iff.1 h]

/-! ## The state in memory -/

namespace CaseState

variable {s : CaseState} {tag : TagId} {op : Operation}

/-- A change of a tag that has to be live is made, or it is refused with the number of the tag and
nothing happens. -/
structure Demands (s : CaseState) (tag : TagId) (result : Reply × CaseState) : Prop where
  granted : s.registry.isLive tag = true → result.1 = .outcome (.ok ())
  refused : s.registry.isLive tag = false → result = (.outcome (.error (.unknownTag tag)), s)

/-- The roster looks for the set of the tag, and the registry knows the same tags. -/
theorem demands_roster (hlive : s.roster.isLive tag = s.registry.isLive tag)
    {result : Except StoreError Roster} {change : PackedSet → Roster}
    (hresult : result = match s.roster.sets.get? tag with
      | none => .error (.unknownTag tag)
      | some set => .ok (change set)) :
    s.Demands tag (s.settle (result.map fun roster => { s with roster })) := by
  subst hresult
  constructor
  · intro hnamed
    obtain ⟨set, hset⟩ := TagMap.contains_eq_true_iff.1 (hlive.trans hnamed)
    rw [hset]
    rfl
  · intro hdead
    rw [TagMap.contains_eq_false_iff.1 (hlive.trans hdead)]
    rfl

theorem demands_whenLive (s : CaseState) (tag : TagId) (change : Registry → Registry) :
    s.Demands tag (s.settle (s.changeRegistry (·.whenLive tag change))) := by
  constructor
  · intro hlive
    rw [changeRegistry, Registry.whenLive, hlive]
    rfl
  · intro hdead
    rw [changeRegistry, Registry.whenLive, hdead]
    rfl

/-- The six operations refuse the same tags. -/
theorem demands_perform (h : s.Coherent) (domain : Domain) (hop : op.demands? = some tag) :
    s.Demands tag (s.perform domain op) := by
  cases op with
  | addMembers items other =>
    cases hop
    exact demands_roster (h.live tag) rfl
  | removeMembers items other =>
    cases hop
    exact demands_roster (h.live tag) rfl
  | setComment other comment =>
    cases hop
    exact demands_whenLive s tag _
  | setKeyBinding other key =>
    cases hop
    exact demands_whenLive s tag _
  | setColor other color =>
    cases hop
    exact demands_whenLive s tag _
  | setInReport other value =>
    cases hop
    exact demands_whenLive s tag _
  | _ => cases hop

/-- The other three change nothing where the tag is dead. -/
theorem perform_of_spares (h : s.Coherent) (domain : Domain) (hop : op.spares? = some tag)
    (hdead : s.registry.isLive tag = false) : (s.perform domain op).2 = s := by
  have hattribute : s.registry.hasAttribute tag = false := by
    rw [← Bool.not_eq_true]
    intro hattribute
    rw [h.attributes tag hattribute] at hdead
    cases hdead
  cases op with
  | deleteTag other =>
    cases hop
    show s.deleteTag tag = s
    rw [deleteTag, Roster.removeTag_of_dead ((h.live tag).trans hdead),
      Registry.remove_of_dead hdead hattribute]
  | renameTag other name =>
    cases hop
    show s.renameTag tag name = s
    rw [renameTag, Registry.rename_of_dead hdead]
  | removeKeyBinding other =>
    cases hop
    show { s with registry := s.registry.removeKeyBinding tag } = s
    rw [Registry.removeKeyBinding_of_not_hasAttribute hattribute]
  | _ => cases hop

end CaseState

/-! ## Stores on a machine -/

namespace Store

variable {s : Store} {m : Machine} {tag : TagId} {op : Operation}

/-- A store changes one tag as its state does, and leaves the machine alone. -/
theorem perform_of_addressed (hop : op.demands? = some tag ∨ op.spares? = some tag) (s : Store)
    (m : Machine) :
    s.perform (.state op) m = (((s.state.perform s.domain op).1,
      { s with state := (s.state.perform s.domain op).2 }), m) := by
  cases op with
  | addTypedWord word => rcases hop with hop | hop <;> cases hop
  | restore snapshot => rcases hop with hop | hop <;> cases hop
  | _ => rfl

/-- What a store does with a tag that it does not list: what demands a live tag is refused, and only
then, and nothing that is asked for changes the store or the machine. -/
structure RefusesDead (s : Store) (m : Machine) (tag : TagId) : Prop where
  refused_iff : ∀ op : Operation, op.demands? = some tag →
    ((s.perform (.state op) m).1.1 = .outcome (.error (.unknownTag tag))
      ↔ tag ∉ s.state.registry.names.keys)
  granted : ∀ op : Operation, op.demands? = some tag → tag ∈ s.state.registry.names.keys →
    (s.perform (.state op) m).1.1 = .outcome (.ok ())
  unchanged : tag ∉ s.state.registry.names.keys → ∀ op : Operation,
    op.demands? = some tag ∨ op.spares? = some tag →
    (s.perform (.state op) m).1.2 = s ∧ (s.perform (.state op) m).2 = m

theorem refusesDead_of_coherent (h : s.state.Coherent) (m : Machine) (tag : TagId) :
    RefusesDead s m tag := by
  have hlive : tag ∈ s.state.registry.names.keys ↔ s.state.registry.isLive tag = true :=
    TagMap.mem_keys
  have hdead : tag ∉ s.state.registry.names.keys ↔ s.state.registry.isLive tag = false := by
    rw [hlive, Bool.not_eq_true]
  constructor
  case refused_iff =>
    intro op hop
    have hdemands := CaseState.demands_perform h s.domain hop
    rw [perform_of_addressed (.inl hop), hdead]
    constructor
    · intro hrefused
      rw [← Bool.not_eq_true]
      intro hnamed
      have hgranted := (hdemands.granted hnamed).symm.trans hrefused
      cases hgranted
    · intro hunknown
      rw [hdemands.refused hunknown]
  case granted =>
    intro op hop htag
    rw [perform_of_addressed (.inl hop)]
    exact (CaseState.demands_perform h s.domain hop).granted (hlive.1 htag)
  case unchanged =>
    intro htag op hop
    have hsame : (s.state.perform s.domain op).2 = s.state := by
      rcases hop with hop | hop
      · rw [(CaseState.demands_perform h s.domain hop).refused (hdead.1 htag)]
      · exact CaseState.perform_of_spares h s.domain hop (hdead.1 htag)
    rw [perform_of_addressed hop, hsame]
    exact ⟨rfl, rfl⟩

/-- In every state that a store can reach, if the snapshots that replace its state are coherent,
changes of dead tags are refused alike and change nothing. -/
theorem refusesDead_of_reachable (h : Reachable (SourcesHave Snapshot.Coherent) s m) (tag : TagId) :
    RefusesDead s m tag := by
  have hcoherent : s.state.Coherent := invariant_of_reachable CaseState.coherent_empty
    (fun _ domain _ hstate hop => CaseState.coherent_perform hstate domain hop) h
  exact refusesDead_of_coherent hcoherent m tag

/-- Of three tags the first is deleted, after it was given a comment and an item. -/
theorem refusesDead_of_reachable_sample :
    let machine : Machine := ⟨⟨[([], ⟨none, 0⟩)]⟩, 0, [], ⟨"/"⟩, 1, 0, []⟩
    let opened := (openCase (.dense 9) .default : StateM Machine _) machine
    let other := ((((CaseState.empty 9).createTag "a").2.createTag "b").2.createTag "c").2
    let restored := opened.1.perform (.state (.restore other.snapshot)) opened.2
    let noted := restored.1.2.perform (.state (.setComment ⟨0⟩ (some "x"))) restored.2
    let added := noted.1.2.perform (.state (.addMembers [3, 3] ⟨0⟩)) noted.2
    let deleted := added.1.2.perform (.state (.deleteTag ⟨0⟩)) added.2
    ⟨0⟩ ∉ deleted.1.2.state.registry.names.keys ∧ RefusesDead deleted.1.2 deleted.2 ⟨0⟩ := by
  intro machine opened other restored noted added deleted
  have hopened : Reachable (SourcesHave Snapshot.Coherent) opened.1 opened.2 :=
    .opened (.dense 9) .default machine
  have hother : other.snapshot.Coherent :=
    CaseState.coherent_createTag (CaseState.coherent_createTag
    (CaseState.coherent_createTag (CaseState.coherent_empty 9) "a") "b") "c"
  have hrestored : Reachable (SourcesHave Snapshot.Coherent) restored.1.2 restored.2 :=
    .performed _ hopened hother
  have hnoted : Reachable (SourcesHave Snapshot.Coherent) noted.1.2 noted.2 :=
    .performed _ hrestored trivial
  have hadded : Reachable (SourcesHave Snapshot.Coherent) added.1.2 added.2 :=
    .performed _ hnoted trivial
  have hdeleted : Reachable (SourcesHave Snapshot.Coherent) deleted.1.2 deleted.2 :=
    .performed _ hadded trivial
  exact ⟨by decide +kernel, refusesDead_of_reachable hdeleted ⟨0⟩⟩

end Store

end EvidenceTags
