import EvidenceTags.Proofs.SameTags
import EvidenceTags.Proofs.SnapshotDetermines
import Mathlib.Data.List.TFAE
import Mathlib.Data.Set.Card
import Mathlib.Data.String.Basic
import Mathlib.Tactic.TFAE

/-!
# What is said about an item

A store can be asked in many ways whether an item carries tags and which: the union of all sets is
read if it is known and searched for otherwise, the sets are looked through tag by tag, the names
come from the registry, and the filters go by the union again.

`Account` gathers all these answers of one moment. `Account.Consistent` says that they are about one
and the same relation between items and tags, that of `Account.contains`, and
`Store.account_consistent` proves it for every state that a store can reach: the known union has to
be the right one (`Roster.CacheSound`), and the tags with sets have to be those with names
(`SameTags`).
-/

namespace EvidenceTags

/-! ## Hits and names -/

/-- The items that a hit can name are those whose numbers are below `2 ^ 31`. -/
theorem Hit.exists_names_iff {item : ItemId} :
    (∃ hit : Hit, hit.Names item) ↔ item.toNat < 2 ^ 31 := by
  constructor
  · rintro ⟨hit, hnames⟩
    have hlt := hit.id.toInt_lt
    rw [hnames] at hlt
    omega
  · intro hlt
    refine ⟨⟨item.toInt32, 0⟩, ?_⟩
    show item.toInt32.toInt = item.toNat
    rw [← Int32.toInt_toBitVec, UInt32.toBitVec_toInt32, BitVec.toInt_eq_toNat_of_lt]
    · rfl
    · show 2 * item.toNat < 2 ^ 32
      omega

/-- What the filter for untagged items drops of the hits that name items are those in the union. -/
theorem CaseState.notMem_filterUntagged {s : CaseState} {hits : Hits} {hit : Hit} {item : ItemId}
    (hmem : hit ∈ hits.list) (hnames : hit.Names item) :
    hit ∉ (s.filterUntagged hits).1.list ↔ s.roster.union.contains item = true := by
  have hkeeping : hits.retainNotIn s.roster.union
      = hits.keeping fun item => ¬ s.roster.union.contains item = true :=
    Hits.retain_eq_keeping (by simp) hits
  show hit ∉ (hits.retainNotIn s.roster.union).list ↔ _
  rw [hkeeping, Hits.keeping, List.mem_filter, @decide_eq_true_iff _ (Classical.propDecidable _)]
  simp only [not_and, not_exists, not_not]
  constructor
  · intro h
    exact h hmem item hnames
  · intro hin _ other hother
    -- a hit names one item
    have hsame : other = item := (Hit.names_iff.1 hother).2.symm.trans (Hit.names_iff.1 hnames).2
    rw [hsame]
    exact hin

/-! ## The answers of one moment -/

/-- What a store answers to the questions about items and their tags. -/
structure Account where
  hasAnyTag : ItemId → Bool
  tagIdsOf : ItemId → List TagId
  tagsOf : ItemId → List String
  unionAll : ItemSet
  filterUntagged : Hits → Hits
  contains : ItemId → TagId → Bool
  containsAny : ItemId → List TagId → Bool
  cardinality : TagId → Option Nat
  tags : TagMap String

/-- The answers that a store gives on a machine, whichever of its questions it is asked there. -/
structure Store.Gives (s : Store) (m : Machine) (a : Account) : Prop where
  hasAnyTag : ∀ item, (s.perform (.state (.hasAnyTag item)) m).1.1 = .truth (a.hasAnyTag item)
  tagIdsOf : ∀ item, (s.perform (.state (.tagIdsOf item)) m).1.1 = .tags (a.tagIdsOf item)
  tagsOf : ∀ item, (s.perform (.state (.tagsOf item)) m).1.1 = .texts (a.tagsOf item)
  unionAll : (s.perform (.state .unionAll) m).1.1 = .items a.unionAll
  filterUntagged : ∀ hits,
    (s.perform (.state (.filterUntagged hits)) m).1.1 = .hits (a.filterUntagged hits)
  contains : ∀ item tag,
    (s.perform (.state (.contains item tag)) m).1.1 = .truth (a.contains item tag)
  containsAny : ∀ item tags,
    (s.perform (.state (.containsAny item tags)) m).1.1 = .truth (a.containsAny item tags)
  cardinality : ∀ tag,
    (s.perform (.state (.cardinality tag)) m).1.1 = .maybeSize (a.cardinality tag)
  tags : (s.perform (.state .tags) m).1.1 = .names a.tags

/-- All answers follow from which item carries which tag, and which names the tags have. -/
structure Account.Consistent (a : Account) : Prop where
  tagged : ∀ item, List.TFAE [
    a.hasAnyTag item = true,
    a.tagIdsOf item ≠ [],
    a.tagsOf item ≠ [],
    item ∈ a.unionAll,
    ∃ tag, a.tags.contains tag = true ∧ a.contains item tag = true]
  dropped : ∀ hits hit item, hit ∈ hits.list → hit.Names item →
    (hit ∉ (a.filterUntagged hits).list ↔ a.hasAnyTag item = true)
  tagIds_ascending : ∀ item, (a.tagIdsOf item).Pairwise (· < ·)
  mem_tagIds : ∀ item tag, tag ∈ a.tagIdsOf item ↔ a.contains item tag = true
  names_ascending : ∀ item, (a.tagsOf item).Pairwise (· < ·)
  mem_names : ∀ item name, name ∈ a.tagsOf item ↔
    ∃ tag, a.contains item tag = true ∧ a.tags.get? tag = some name
  named : ∀ item tag, a.contains item tag = true → ∃ name, a.tags.get? tag = some name
  containsAny : ∀ item tags, a.containsAny item tags = true ↔ ∃ tag ∈ tags, tag ∈ a.tagIdsOf item
  cardinality : ∀ tag, a.cardinality tag =
    if a.tags.contains tag then some {item | a.contains item tag = true}.ncard else none

/-- The answers that are computed from a state. -/
def CaseState.account (s : CaseState) : Account where
  hasAnyTag := s.roster.inAny
  tagIdsOf := s.roster.tagsOf
  tagsOf := s.namesOf
  unionAll := s.unionAll.1
  filterUntagged hits := (s.filterUntagged hits).1
  contains := s.roster.contains
  containsAny := s.roster.containsAny
  cardinality := s.roster.cardinality?
  tags := s.registry.names

theorem Store.gives_account (s : Store) (m : Machine) : s.Gives m s.state.account := by
  constructor
  all_goals intros; rfl

/-! ## Each answer by itself -/

namespace CaseState

variable {s : CaseState} {item : ItemId} {tag : TagId}

theorem contains_iff_carries : s.roster.contains item tag = true ↔ s.Carries item tag := by
  unfold Roster.contains Carries
  cases s.roster.sets.get? tag with
  | none => simp
  | some set =>
    constructor
    · intro hitem
      exact ⟨set, rfl, hitem⟩
    · rintro ⟨other, hother, hitem⟩
      cases hother
      exact hitem

/-- The union, whether it is known or not, has the items that carry a tag. -/
theorem contains_union_iff (h : s.roster.CacheSound) :
    s.roster.union.contains item = true ↔ ∃ tag, s.Carries item tag := by
  rw [Roster.union_eq_recomputed h, Roster.contains_recomputed]
  rfl

/-- So does the search that goes through the sets where the union is not known. -/
theorem inAny_eq_contains_union : s.roster.inAny item = s.roster.union.contains item := by
  unfold Roster.inAny Roster.union
  cases s.roster.known with
  | some union => rfl
  | none =>
    rw [Option.getD_none, ItemSet.contains_unionOf, List.any_map]
    rfl

/-- A tag that an item carries is live, and has a name. -/
theorem exists_name_of_carries (h : s.SameTags) (hcarries : s.Carries item tag) :
    ∃ name, s.registry.names.get? tag = some name := by
  rcases hcarries with ⟨set, hset, -⟩
  have hlive : s.registry.names.contains tag = true := by
    rw [← Registry.isLive, ← h tag, TagMap.contains, hset]
    rfl
  exact Option.isSome_iff_exists.1 hlive

theorem tagsOf_ascending (s : CaseState) (item : ItemId) :
    (s.roster.tagsOf item).Pairwise (· < ·) := by
  apply List.pairwise_map.2
  exact s.roster.sets.ascending.filter _

theorem namesOf_ascending (s : CaseState) (item : ItemId) :
    (s.namesOf item).Pairwise (· < ·) :=
  Ascending.pairwise_ofList String.lt_trans lt_trichotomy _

/-- The tags of an item, their names and the union tell alike whether there are any. -/
theorem account_tagged (hcache : s.roster.CacheSound) (htags : s.SameTags) (item : ItemId) :
    List.TFAE [
      s.account.hasAnyTag item = true,
      s.account.tagIdsOf item ≠ [],
      s.account.tagsOf item ≠ [],
      item ∈ s.account.unionAll,
      ∃ tag, s.account.tags.contains tag = true ∧ s.account.contains item tag = true] := by
  have hunion : item ∈ s.account.unionAll ↔ ∃ tag, s.Carries item tag := contains_union_iff hcache
  tfae_have 1 ↔ 4 := by
    show s.roster.inAny item = true ↔ s.roster.union.contains item = true
    rw [inAny_eq_contains_union]
  tfae_have 4 ↔ 2 := by
    rw [hunion]
    constructor
    · rintro ⟨tag, hcarries⟩
      exact List.ne_nil_of_mem (mem_tagsOf.2 hcarries)
    · intro hne
      rcases List.exists_mem_of_ne_nil _ hne with ⟨tag, htag⟩
      exact ⟨tag, mem_tagsOf.1 htag⟩
  tfae_have 4 ↔ 3 := by
    rw [hunion]
    constructor
    · rintro ⟨tag, hcarries⟩
      rcases exists_name_of_carries htags hcarries with ⟨name, hname⟩
      exact List.ne_nil_of_mem (mem_namesOf.2 ⟨tag, hname, hcarries⟩)
    · intro hne
      rcases List.exists_mem_of_ne_nil _ hne with ⟨name, hname⟩
      rcases mem_namesOf.1 hname with ⟨tag, -, hcarries⟩
      exact ⟨tag, hcarries⟩
  tfae_have 4 ↔ 5 := by
    rw [hunion]
    constructor
    · rintro ⟨tag, hcarries⟩
      refine ⟨tag, ?_, contains_iff_carries.2 hcarries⟩
      exact Option.isSome_iff_exists.2 (exists_name_of_carries htags hcarries)
    · rintro ⟨tag, -, hcontains⟩
      exact ⟨tag, contains_iff_carries.1 hcontains⟩
  tfae_finish

/-- The size of the set of a live tag is the number of the items that carry it. -/
theorem cardinality_eq_ncard (htags : s.SameTags) (tag : TagId) :
    s.roster.cardinality? tag = if s.registry.names.contains tag
      then some {item | s.roster.contains item tag = true}.ncard else none := by
  have hlive : s.roster.sets.contains tag = s.registry.names.contains tag := htags tag
  rw [← hlive, TagMap.contains, Roster.cardinality?]
  cases hset : s.roster.sets.get? tag with
  | none => rfl
  | some set =>
    have hitems : {item | s.roster.contains item tag = true} = set.items.toFinset := by
      ext item
      simp [Roster.contains, hset]
    rw [hitems, Set.ncard_coe_finset, ItemSet.card_toFinset]
    rfl

/-- The answers of a state are consistent, if the union that it knows is the right one and the tags
with sets are those with names. -/
theorem consistent_account (hcache : s.roster.CacheSound) (htags : s.SameTags) :
    s.account.Consistent where
  tagged := account_tagged hcache htags
  dropped := by
    intro hits hit item hmem hnames
    show _ ↔ s.roster.inAny item = true
    rw [inAny_eq_contains_union]
    exact notMem_filterUntagged hmem hnames
  tagIds_ascending := s.tagsOf_ascending
  mem_tagIds := by
    intro item tag
    exact mem_tagsOf.trans contains_iff_carries.symm
  names_ascending := s.namesOf_ascending
  mem_names := by
    intro item name
    refine mem_namesOf.trans (exists_congr fun tag => ?_)
    rw [and_comm]
    exact and_congr_left' contains_iff_carries.symm
  named := by
    intro item tag hcontains
    exact exists_name_of_carries htags (contains_iff_carries.1 hcontains)
  containsAny := by
    intro item tags
    refine List.any_eq_true.trans (exists_congr fun tag => and_congr_right' ?_)
    exact contains_iff_carries.trans mem_tagsOf.symm
  cardinality := cardinality_eq_ncard htags

end CaseState

/-! ## Stores on a machine -/

namespace Store

/-- In every state that a store can reach, its answers about items and tags are consistent, if each
snapshot that replaces the state has sets and names for the same tags. -/
theorem account_consistent {s : Store} {m : Machine}
    (h : Reachable (SourcesHave Snapshot.SameTags) s m) : ∃ a, s.Gives m a ∧ a.Consistent :=
  ⟨s.state.account, s.gives_account m,
    CaseState.consistent_account (sound_of_reachable h).cache (sameTags_of_reachable h)⟩

/-- A tag is made and gets items, the union is asked for, the state is replaced by that of another
case, and the tag of that case is deleted and made once more. -/
theorem account_consistent_sample :
    let machine : Machine := ⟨⟨[([], ⟨none, 0⟩)]⟩, 0, [], ⟨"/"⟩, 1, 0, []⟩
    let opened := (openCase (.dense 9) .default : StateM Machine _) machine
    let made := opened.1.perform (.state (.createTag "a")) opened.2
    let added := made.1.2.perform (.state (.addMembers [5, 2] ⟨0⟩)) made.2
    let asked := added.1.2.perform (.state .unionAll) added.2
    let other := ((CaseState.empty 9).createTag "b").2
    let restored := asked.1.2.perform (.state (.restore other.snapshot)) asked.2
    let deleted := restored.1.2.perform (.state (.deleteTag ⟨0⟩)) restored.2
    let again := deleted.1.2.perform (.state (.createTag "c")) deleted.2
    (∃ a, asked.1.2.Gives asked.2 a ∧ a.Consistent
        ∧ a.contains 5 ⟨0⟩ = true ∧ a.tagsOf 5 = ["a"] ∧ a.unionAll = .ofList [2, 5])
      ∧ ∃ a, again.1.2.Gives again.2 a ∧ a.Consistent
        ∧ a.contains 5 ⟨0⟩ = false ∧ a.tags.get? ⟨0⟩ = some "c" ∧ a.unionAll = .empty := by
  intro machine opened made added asked other restored deleted again
  have hopened : Reachable (SourcesHave Snapshot.SameTags) opened.1 opened.2 :=
    .opened (.dense 9) .default machine
  have hmade : Reachable (SourcesHave Snapshot.SameTags) made.1.2 made.2 :=
    .performed _ hopened trivial
  have hadded : Reachable (SourcesHave Snapshot.SameTags) added.1.2 added.2 :=
    .performed _ hmade trivial
  have hasked : Reachable (SourcesHave Snapshot.SameTags) asked.1.2 asked.2 :=
    .performed _ hadded trivial
  have hother : other.snapshot.SameTags := by
    have hcreated : (CaseState.perform (.dense 9) (.empty 9) (.createTag "b")).2.SameTags :=
      CaseState.sameTags_perform (CaseState.sameTags_empty 9) (.dense 9) nofun
    exact hcreated
  have hrestored : Reachable (SourcesHave Snapshot.SameTags) restored.1.2 restored.2 :=
    .performed _ hasked hother
  have hdeleted : Reachable (SourcesHave Snapshot.SameTags) deleted.1.2 deleted.2 :=
    .performed _ hrestored trivial
  have hagain : Reachable (SourcesHave Snapshot.SameTags) again.1.2 again.2 :=
    .performed _ hdeleted trivial
  have hunion : asked.1.2.state.unionAll.1 = .ofList [2, 5] := by decide +kernel
  have hunion' : again.1.2.state.unionAll.1 = .empty := by decide +kernel
  have hname : again.1.2.state.registry.names.get? ⟨0⟩ = some "c" := by decide +kernel
  have hcontains : asked.1.2.state.roster.contains 5 ⟨0⟩ = true := by decide +kernel
  have hcontains' : again.1.2.state.roster.contains 5 ⟨0⟩ = false := by decide +kernel
  have hnames : asked.1.2.state.namesOf 5 = ["a"] := by decide +kernel
  rcases account_consistent hasked with ⟨a, hgives, hconsistent⟩
  rcases account_consistent hagain with ⟨b, hgives', hconsistent'⟩
  refine ⟨⟨a, hgives, hconsistent, ?_, ?_, ?_⟩, b, hgives', hconsistent', ?_, ?_, ?_⟩
  · exact (Reply.truth.inj (hgives.contains 5 ⟨0⟩)).symm.trans hcontains
  · exact (Reply.texts.inj (hgives.tagsOf 5)).symm.trans hnames
  · exact (Reply.items.inj hgives.unionAll).symm.trans hunion
  · exact (Reply.truth.inj (hgives'.contains 5 ⟨0⟩)).symm.trans hcontains'
  · rw [← Reply.names.inj hgives'.tags]
    exact hname
  · exact (Reply.items.inj hgives'.unionAll).symm.trans hunion'

end Store

end EvidenceTags
