import EvidenceTags.Proofs.SharedNames

/-!
# Making a tag

To make a tag of a name is to find the lowest tag that has it or, if there is none, to give the name
to a tag that was not there before. Either way items can be added to it, and no other tag is touched
(`CaseState.MakesTag`).

The name is looked up in the registry and the number of a new tag is taken from the roster, so this
holds exactly if the two agree on the tags in question (`CaseState.makesTag_iff`). They do in every
store all of whose snapshots come from such stores (`Store.ready_of_reachable`). A file may hold
names without sets, though: it is loaded, and the next new tag takes the number of a tag that has a
name, which is lost (`Store.makesTag_overwrites`).
-/

namespace EvidenceTags

/-! ## The number of a new tag -/

namespace Roster

variable {r : Roster} {tag : TagId}

/-- The search never goes back. -/
theorem le_firstGap (next : Nat) (l : List TagId) : next ≤ firstGap next l := by
  induction l generalizing next with
  | nil => exact Nat.le_refl next
  | cons tag rest ih =>
    unfold firstGap
    split
    · exact Nat.le_of_succ_le (ih (next + 1))
    · exact Nat.le_refl next

/-- What is searched for in an ascending list is the first number that it leaves out. -/
theorem firstGap_spec {next : Nat} {l : List TagId} (hasc : l.Pairwise (· < ·))
    (hle : ∀ tag ∈ l, next ≤ tag.value.toNat) :
    (∀ tag ∈ l, tag.value.toNat ≠ firstGap next l)
      ∧ ∀ n, next ≤ n → n < firstGap next l → ∃ tag ∈ l, tag.value.toNat = n := by
  induction l generalizing next with
  | nil =>
    refine ⟨nofun, ?_⟩
    intro n hge hlt
    exact absurd hlt (Nat.not_lt.2 hge)
  | cons first rest ih =>
    rcases List.pairwise_cons.1 hasc with ⟨hfirst, hrest⟩
    have hlater : ∀ tag ∈ rest, first.value.toNat < tag.value.toNat := by
      intro tag htag
      exact UInt32.lt_iff_toNat_lt.1 (hfirst tag htag)
    unfold firstGap
    split
    · -- the number is taken, and the search goes on behind it
      rename_i heq
      have hbehind : ∀ tag ∈ rest, next + 1 ≤ tag.value.toNat := by
        intro tag htag
        rw [← heq]
        exact hlater tag htag
      rcases ih hrest hbehind with ⟨hnot, hall⟩
      have hge := le_firstGap (next + 1) rest
      constructor
      · intro tag htag
        rcases List.mem_cons.1 htag with rfl | htag
        · omega
        · exact hnot tag htag
      · intro n hn hlt
        rcases Nat.eq_or_lt_of_le hn with rfl | hn
        · exact ⟨first, List.mem_cons_self, heq⟩
        · rcases hall n hn hlt with ⟨tag, htag, hvalue⟩
          exact ⟨tag, List.mem_cons_of_mem _ htag, hvalue⟩
    · rename_i hne
      constructor
      · intro tag htag
        rcases List.mem_cons.1 htag with rfl | htag
        · exact hne
        · have hbound := hle first List.mem_cons_self
          have hgt := hlater tag htag
          omega
      · intro n hge hlt
        exact absurd hlt (Nat.not_lt.2 hge)

theorem mem_keys_iff : tag ∈ r.sets.keys ↔ r.isLive tag = true := TagMap.mem_keys

/-- The lowest tag without a set. If every number has one, they start over. -/
def IsNext (r : Roster) (tag : TagId) : Prop :=
  (r.isLive tag = false ∧ ∀ lower, lower < tag → r.isLive lower = true)
    ∨ (∀ other, r.isLive other = true) ∧ tag = ⟨0⟩

/-- All numbers before the first gap are taken. -/
theorem isLive_of_lt_firstGap {lower : TagId} (hlt : lower.value.toNat < firstGap 0 r.sets.keys) :
    r.isLive lower = true := by
  rcases firstGap_spec (TagMap.keys_ascending r.sets) (fun _ _ => Nat.zero_le _) with ⟨-, hall⟩
  rcases hall _ (Nat.zero_le _) hlt with ⟨tag, htag, hvalue⟩
  have hsame : tag = lower := congrArg TagId.mk (UInt32.toNat_inj.1 hvalue)
  exact mem_keys_iff.1 (hsame ▸ htag)

/-- The first gap is a free number, if it is the number of a tag. -/
theorem isLive_of_eq_firstGap (hvalue : tag.value.toNat = firstGap 0 r.sets.keys) :
    r.isLive tag = false := by
  rcases firstGap_spec (TagMap.keys_ascending r.sets) (fun _ _ => Nat.zero_le _) with ⟨hnot, -⟩
  rw [← Bool.not_eq_true]
  intro hlive
  exact hnot tag (mem_keys_iff.2 hlive) hvalue

theorem isNext_nextFree (r : Roster) : r.IsNext r.nextFree := by
  by_cases hroom : firstGap 0 r.sets.keys < UInt32.size
  · left
    have hvalue : r.nextFree.value.toNat = firstGap 0 r.sets.keys :=
      UInt32.toNat_ofNat_of_lt' hroom
    refine ⟨isLive_of_eq_firstGap hvalue, ?_⟩
    intro lower hlt
    apply isLive_of_lt_firstGap
    rw [← hvalue]
    exact UInt32.lt_iff_toNat_lt.1 hlt
  · right
    -- no number is left out, and the first one that is too large is `0` again
    have hlive : ∀ other, r.isLive other = true := by
      intro other
      exact isLive_of_lt_firstGap (Nat.lt_of_lt_of_le other.value.toNat_lt (Nat.not_lt.1 hroom))
    refine ⟨hlive, ?_⟩
    have hsize : firstGap 0 r.sets.keys = UInt32.size := by
      rcases firstGap_spec (TagMap.keys_ascending r.sets) (fun _ _ => Nat.zero_le _) with ⟨-, hall⟩
      apply Nat.le_antisymm _ (Nat.not_lt.1 hroom)
      apply Nat.not_lt.1
      intro hgt
      rcases hall UInt32.size (Nat.zero_le _) hgt with ⟨tag, -, hvalue⟩
      exact absurd hvalue (Nat.ne_of_lt tag.value.toNat_lt)
    rw [nextFree, hsize]
    rfl

theorem IsNext.unique {other : TagId} (h : r.IsNext tag) (hother : r.IsNext other) :
    tag = other := by
  rcases h with ⟨hfree, hlower⟩ | ⟨hall, rfl⟩
  · rcases hother with ⟨hfree', hlower'⟩ | ⟨hall, -⟩
    · rcases TagId.lt_or_eq_or_gt tag other with hlt | heq | hgt
      · rw [hlower' tag hlt] at hfree
        cases hfree
      · exact heq
      · rw [hlower other hgt] at hfree'
        cases hfree'
    · rw [hall tag] at hfree
      cases hfree
  · rcases hother with ⟨hfree, -⟩ | ⟨-, rfl⟩
    · rw [hall other] at hfree
      cases hfree
    · rfl

/-- The number that a new tag gets. -/
theorem isNext_iff : r.IsNext tag ↔ tag = r.nextFree := by
  constructor
  · intro h
    exact h.unique (isNext_nextFree r)
  · rintro rfl
    exact isNext_nextFree r

/-- Items can be added to the tags that have a set, and to no other. -/
theorem exists_addMembers_iff (items : ItemSet) :
    (∃ r', r.addMembers tag items = .ok r') ↔ r.isLive tag = true := by
  unfold addMembers
  rw [isLive, TagMap.contains]
  cases r.sets.get? tag with
  | none => simp
  | some set => simp

end Roster

/-! ## Names and numbers -/

namespace CaseState

variable {s : CaseState} {name : String}

/-- To make a tag of a name yields a tag that items can be added to. If tags have the name, it is
the lowest of them, and nothing changes; otherwise it is a tag that had no name, and it is named. -/
structure MakesTag (s : CaseState) (name : String) : Prop where
  usable : ∀ items, ∃ s', (s.createTag name).2.addMembers (s.createTag name).1 items = .ok s'
  known : ∀ tag, s.registry.names.get? tag = some name →
    s.registry.StandsFor name (s.createTag name).1 ∧ (s.createTag name).2 = s
  new : (∀ tag, s.registry.names.get? tag ≠ some name) →
    s.registry.names.get? (s.createTag name).1 = none
      ∧ (s.createTag name).2.registry.names = s.registry.names.insert (s.createTag name).1 name

/-- The tag that the name stands for has a set. If no tag has the name, the lowest tag without a set
has no name either. -/
structure ReadyFor (s : CaseState) (name : String) : Prop where
  known : ∀ tag, s.registry.StandsFor name tag → s.roster.isLive tag = true
  new : (∀ tag, s.registry.names.get? tag ≠ some name) →
    ∀ tag, s.roster.IsNext tag → s.registry.isLive tag = false

theorem exists_addMembers_iff {tag : TagId} {items : ItemSet} :
    (∃ s', s.addMembers tag items = .ok s') ↔ s.roster.isLive tag = true := by
  rw [← Roster.exists_addMembers_iff items, addMembers]
  cases s.roster.addMembers tag items with
  | error e => simp [Except.map]
  | ok roster => simp [Except.map]

theorem createTag_of_standsFor {tag : TagId} (h : s.registry.StandsFor name tag) :
    s.createTag name = (tag, s) := by
  rw [createTag, Registry.idOf?_eq_some_iff.2 h]

theorem createTag_of_free (h : ∀ tag, s.registry.names.get? tag ≠ some name) :
    s.createTag name = (s.roster.nextFree, { s with
      roster := s.roster.insertTag s.roster.nextFree
      registry := s.registry.insert s.roster.nextFree name }) := by
  rw [createTag, Registry.idOf?_eq_none_iff.2 h]

/-- A tag that has a set is found by its name, and nothing changes. -/
theorem makesTag_of_standsFor {low : TagId} (hlow : s.registry.StandsFor name low)
    (hlive : s.roster.isLive low = true) : s.MakesTag name := by
  have hcreate := createTag_of_standsFor hlow
  constructor
  case usable =>
    intro items
    rw [hcreate]
    exact exists_addMembers_iff.2 hlive
  case known =>
    intro _ _
    rw [hcreate]
    exact ⟨hlow, rfl⟩
  case new =>
    intro hfree
    exact absurd hlow.1 (hfree low)

/-- A name that no tag has goes to the lowest tag without a set, if that has no name. -/
theorem makesTag_of_free (hfree : ∀ tag, s.registry.names.get? tag ≠ some name)
    (hnameless : s.registry.isLive s.roster.nextFree = false) : s.MakesTag name := by
  have hcreate := createTag_of_free hfree
  constructor
  case usable =>
    intro items
    rw [hcreate]
    apply exists_addMembers_iff.2
    rw [Roster.isLive_insertTag]
    simp
  case known =>
    intro tag htag
    exact absurd htag (hfree tag)
  case new =>
    intro _
    rw [hcreate]
    refine ⟨?_, Registry.names_insert _ _ _⟩
    rwa [Registry.isLive, TagMap.contains, Option.isSome_eq_false_iff,
      Option.isNone_iff_eq_none] at hnameless

theorem MakesTag.readyFor (h : s.MakesTag name) : s.ReadyFor name := by
  constructor
  case known =>
    intro tag htag
    have husable := h.usable ∅
    rw [createTag_of_standsFor htag] at husable
    exact exists_addMembers_iff.1 husable
  case new =>
    intro hfree tag htag
    have hnone := (h.new hfree).1
    rw [createTag_of_free hfree, ← Roster.isNext_iff.1 htag] at hnone
    rw [Registry.isLive, TagMap.contains, hnone]
    rfl

theorem makesTag_iff (s : CaseState) (name : String) : s.MakesTag name ↔ s.ReadyFor name := by
  constructor
  · exact MakesTag.readyFor
  · intro h
    by_cases hnamed : ∃ tag, s.registry.names.get? tag = some name
    · rcases hnamed with ⟨tag, htag⟩
      rcases Registry.exists_standsFor htag with ⟨low, hlow⟩
      exact makesTag_of_standsFor hlow (h.known low hlow)
    · have hfree : ∀ tag, s.registry.names.get? tag ≠ some name := not_exists.1 hnamed
      exact makesTag_of_free hfree (h.new hfree _ s.roster.isNext_nextFree)

end CaseState

/-! ## Stores on a machine -/

namespace Store

/-- In a store all of whose snapshots have sets and names for the same tags, a tag can be made of
every name, as long as a number is left. -/
theorem ready_of_reachable {s : Store} {m : Machine}
    (h : Reachable (SourcesHave Snapshot.Coherent) s m)
    (hroom : ∃ tag, s.state.roster.isLive tag = false) (name : String) : s.state.ReadyFor name := by
  have hcoherent : s.state.Coherent :=
    invariant_of_reachable CaseState.coherent_empty
      (fun _ domain _ hstate hop => CaseState.coherent_perform hstate domain hop) h
  constructor
  case known =>
    intro tag htag
    have hlive : s.state.registry.isLive tag = true := by
      rw [Registry.isLive, TagMap.contains, htag.1]
      rfl
    exact (hcoherent.live tag).trans hlive
  case new =>
    intro _ tag htag
    rcases htag with ⟨hfree, -⟩ | ⟨hall, -⟩
    · exact (hcoherent.live tag).symm.trans hfree
    · rcases hroom with ⟨other, hother⟩
      rw [hall other] at hother
      cases hother

/-- A snapshot with a name for a tag that has no set. -/
def nameWithoutSet : Snapshot :=
  ⟨.unset 1, ∅, { Registry.empty with names := TagMap.ofList [(⟨0⟩, "a")] }, [], 0⟩

/-- Such a snapshot is loaded, and then a new tag overwrites the one that it names. -/
theorem makesTag_overwrites :
    ¬ ∀ (s : Store) (m : Machine), Reachable (fun _ _ _ => True) s m → ∀ name,
      s.state.MakesTag name := by
  intro hmakes
  let machine : Machine :=
    ⟨⟨[([], ⟨none, 0⟩), (["s"], ⟨some nameWithoutSet.encode, 0⟩)]⟩, 0, [], ⟨"/"⟩, 1, 0, []⟩
  let opened := (openCase (.dense 0) .default : StateM Machine _) machine
  let loaded := opened.1.perform (.loadFrom ⟨"s"⟩) opened.2
  have hopened : Reachable (fun _ _ _ => True) opened.1 opened.2 :=
    .opened (.dense 0) .default machine
  have hloaded : Reachable (fun _ _ _ => True) loaded.1.2 loaded.2 := .performed _ hopened trivial
  have hfree : loaded.1.2.state.registry.idOf? "b" = none := by decide +kernel
  have hnew := (hmakes _ _ hloaded "b").new (Registry.idOf?_eq_none_iff.1 hfree)
  have htaken : loaded.1.2.state.registry.names.get? (loaded.1.2.state.createTag "b").1
      = some "a" := by
    decide +kernel
  rw [hnew.1] at htaken
  cases htaken

end Store

end EvidenceTags
