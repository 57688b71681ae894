import EvidenceTags.Proofs.SoundState

/-!
# What the filters keep

Filtering marks the hits that fail and then moves the others together. What comes out is described
here without marks and moves: `Hits.keeping keep` are the hits, in order and with their scores, that
stand for an item with the property `keep`.

* `Hits.list_compact` is the law of moving the hits together, by an invariant of the loop:
  below the place `kept` stands what has been kept, and from the place `next` on nothing has
  changed.
* `Hits.retainM_eq_mapM` is the law of asking: each live hit is asked about once, in order, whatever
  the answers do, and the accepted ones are kept. `Hits.retain_eq_keeping` follows for answers that
  do nothing.
* `Store.filters_keep` says for every store that can be reached what each of its filters asks.
-/

namespace EvidenceTags

/-! ## Moving hits together -/

namespace Hit

/-- The hit stands for an item: its number is that of the item. -/
def Names (hit : Hit) (item : ItemId) : Prop := hit.id.toInt = item.toNat

theorem isLive_iff {hit : Hit} : hit.isLive = true ↔ 0 ≤ hit.id.toInt := by
  rw [isLive, decide_eq_true_iff, Int32.le_iff_toInt_le]
  rfl

/-- A number that is not negative is not changed when it is taken as that of an item. -/
theorem toNat_item {hit : Hit} (h : hit.isLive = true) : (hit.item.toNat : Int) = hit.id.toInt := by
  have hle : 0 ≤ hit.id := of_decide_eq_true h
  have hnat : hit.item.toNat = hit.id.toInt.toNat := Int32.toNat_toUInt32_of_le hle
  rw [hnat, Int.toNat_of_nonneg (isLive_iff.1 h)]

theorem names_iff {hit : Hit} {item : ItemId} :
    hit.Names item ↔ hit.isLive = true ∧ hit.item = item := by
  constructor
  · intro h
    have hlive : hit.isLive = true := by
      rw [isLive_iff, h]
      exact Int.natCast_nonneg _
    refine ⟨hlive, UInt32.toNat_inj.1 ?_⟩
    have hitem := toNat_item hlive
    rw [h] at hitem
    exact Int.ofNat_inj.1 hitem
  · rintro ⟨hlive, rfl⟩
    exact (toNat_item hlive).symm

/-- An excluded hit names no item. -/
@[simp] theorem isLive_exclude (hit : Hit) : hit.exclude.isLive = false := by
  show decide (0 ≤ excludedId) = false
  decide

end Hit

namespace Hits

/-- Up to the place of a write, the list ends with what was written. -/
theorem take_succ_set {α : Type} {list : List α} {place : Nat} (h : place < list.length) (a : α) :
    (list.set place a).take (place + 1) = list.take place ++ [a] := by
  have hlength : (list.take place).length = place := List.length_take_of_le (Nat.le_of_lt h)
  rw [List.take_set, List.take_succ_eq_append_getElem h,
    List.set_append_right place _ (Nat.le_of_eq hlength), hlength, Nat.sub_self]
  rfl

/-- While hits are moved, those below `kept` are done, and those from `next` on are as they were. -/
theorem toList_compactFrom (hits : Array Hit) (kept next : Nat) (h : kept ≤ next) :
    (compactFrom hits kept next h).toList
      = hits.toList.take kept ++ (hits.toList.drop next).filter Hit.isLive := by
  fun_induction compactFrom hits kept next h with
  | case1 hits kept next h hnext hlive ih =>
    -- the hit is written at `kept`, which is not behind what is still to be looked at
    have hdrop : hits.toList.drop next = hits[next] :: hits.toList.drop (next + 1) :=
      List.drop_eq_getElem_cons hnext
    have hkept : kept < hits.toList.length := Nat.lt_of_le_of_lt h hnext
    rw [ih, Array.toList_set, take_succ_set hkept, List.drop_set_of_lt (Nat.lt_succ_of_le h), hdrop,
      List.filter_cons_of_pos hlive, List.append_assoc, List.singleton_append]
  | case2 hits kept next h hnext hlive ih =>
    have hdrop : hits.toList.drop next = hits[next] :: hits.toList.drop (next + 1) :=
      List.drop_eq_getElem_cons hnext
    rw [ih, hdrop, List.filter_cons_of_neg hlive]
  | case3 hits kept next h hnext =>
    have hdone : hits.toList.drop next = [] := List.drop_eq_nil_of_le (Nat.le_of_not_lt hnext)
    rw [Array.toList_shrink, hdone, List.filter_nil, List.append_nil]

/-- What is left are the hits that name items, in order. -/
theorem list_compact (h : Hits) : h.compact.list = h.list.filter Hit.isLive := by
  rw [compact, toList_compactFrom]
  rfl

/-- Hits with marks where the live ones, in order, were answered `false`. -/
def markBy : List Hit → List Bool → List Hit
  | [], _ => []
  | hit :: rest, answers =>
    if hit.isLive
      then (if answers.headD false then hit else hit.exclude) :: markBy rest answers.tail
    else hit :: markBy rest answers

/-- The hits that were answered `true`. -/
def accepted (hits : List Hit) (answers : List Bool) : List Hit :=
  ((hits.zip answers).filter (·.2)).map (·.1)

theorem map_score_markBy (hits : List Hit) (answers : List Bool) :
    (markBy hits answers).map Hit.score = hits.map Hit.score := by
  induction hits generalizing answers with
  | nil => rfl
  | cons hit rest ih =>
    unfold markBy
    split
    · rw [List.map_cons, List.map_cons, ih]
      cases answers.headD false <;> rfl
    · rw [List.map_cons, List.map_cons, ih]

/-- What is not marked of the live hits are those that were accepted. -/
theorem filter_markBy (hits : List Hit) (answers : List Bool) :
    (markBy hits answers).filter Hit.isLive = accepted (hits.filter Hit.isLive) answers := by
  induction hits generalizing answers with
  | nil => rfl
  | cons hit rest ih =>
    unfold markBy
    by_cases hlive : hit.isLive = true
    · rw [if_pos hlive, List.filter_cons_of_pos hlive]
      cases answers with
      | nil => simp [ih, accepted]
      | cons answer answers =>
        cases answer <;> simp [ih, accepted, hlive]
    · rw [if_neg hlive, List.filter_cons_of_neg hlive, List.filter_cons_of_neg hlive, ih]

variable {m : Type → Type} [Monad m] [LawfulMonad m]

/-- Marking asks about each live hit once, in order, and about no other. -/
theorem mark_eq_mapM (keep : ItemId → m Bool) (hits : List Hit) :
    mark keep hits
      = markBy hits <$> (hits.filter Hit.isLive).mapM fun hit => keep hit.item := by
  induction hits with
  | nil => simp [mark, markBy]
  | cons hit rest ih =>
    by_cases hlive : hit.isLive = true
    · rw [List.filter_cons_of_pos hlive, List.mapM_cons]
      simp only [mark, markBy, hlive, ih, if_true, map_bind, map_pure, bind_map_left]
      refine bind_congr fun answer => ?_
      cases answer <;> simp
    · rw [List.filter_cons_of_neg hlive]
      simp [mark, markBy, hlive, ih]

/-- Of the live hits, which are asked about one after another, the accepted ones are kept. -/
theorem retainM_eq_mapM (keep : ItemId → m Bool) (h : Hits) :
    h.retainM keep = (fun answers => ⟨accepted (h.list.filter Hit.isLive) answers⟩)
      <$> (h.list.filter Hit.isLive).mapM fun hit => keep hit.item := by
  rw [retainM, mark_eq_mapM, bind_map_left]
  rw [← bind_pure_comp]
  refine bind_congr fun answers => ?_
  have hlist := list_compact ⟨markBy h.list answers⟩
  rw [filter_markBy] at hlist
  exact congrArg (fun list => pure (Hits.mk list)) hlist

theorem list_retain (keep : ItemId → Bool) (h : Hits) :
    (h.retain keep).list = h.list.filter fun hit => hit.isLive && keep hit.item := by
  have haccepted (hits : List Hit) :
      accepted hits (hits.map fun hit => keep hit.item) = hits.filter fun hit => keep hit.item := by
    induction hits with
    | nil => rfl
    | cons hit rest ih =>
      unfold accepted at ih ⊢
      cases hkeep : keep hit.item <;> simp [hkeep, ih]
  rw [retain, retainM_eq_mapM, List.mapM_pure]
  show accepted _ ((h.list.filter Hit.isLive).map fun hit => keep hit.item) = _
  rw [haccepted, List.filter_filter]
  simp only [Bool.and_comm]

/-- The hits that stand for an item with the property `keep`, in order and with their scores. -/
noncomputable def keeping (keep : ItemId → Prop) (h : Hits) : Hits :=
  ⟨h.list.filter fun hit =>
    @decide (∃ item, hit.Names item ∧ keep item) (Classical.propDecidable _)⟩

theorem retain_eq_keeping {ask : ItemId → Bool} {keep : ItemId → Prop}
    (hask : ∀ item, ask item = true ↔ keep item) (h : Hits) : h.retain ask = h.keeping keep := by
  have hsame : ∀ hit ∈ h.list, (hit.isLive && ask hit.item) = true ↔
      ∃ item, hit.Names item ∧ keep item := by
    intro hit _
    rw [Bool.and_eq_true, hask]
    constructor
    · rintro ⟨hlive, hkeep⟩
      exact ⟨hit.item, Hit.names_iff.2 ⟨hlive, rfl⟩, hkeep⟩
    · rintro ⟨item, hnames, hkeep⟩
      obtain ⟨hlive, rfl⟩ := Hit.names_iff.1 hnames
      exact ⟨hlive, hkeep⟩
  show Hits.mk (h.retain ask).list = _
  rw [list_retain, keeping]
  apply congrArg Hits.mk
  apply List.filter_congr
  intro hit hmem
  rw [Bool.eq_iff_iff, hsame hit hmem]
  exact (@decide_eq_true_iff _ (Classical.propDecidable _)).symm

end Hits

/-! ## What names and tags mean -/

namespace Registry

/-- A name stands for the lowest tag that has exactly this name. -/
def StandsFor (r : Registry) (name : String) (tag : TagId) : Prop :=
  r.names.get? tag = some name ∧ ∀ other, r.names.get? other = some name → ¬ other < tag

theorem standsFor_of_idOf? {r : Registry} {name : String} {tag : TagId}
    (h : r.idOf? name = some tag) : r.StandsFor name tag := by
  obtain ⟨⟨first, text⟩, hfind, rfl⟩ := Option.map_eq_some_iff.1 h
  obtain ⟨htext, before, after, hentries, hbefore⟩ := List.find?_eq_some_iff_append.1 hfind
  have hname : text = name := of_decide_eq_true htext
  subst hname
  have hmem : (first, text) ∈ r.names.entries := by
    rw [hentries]
    exact List.mem_append_right before List.mem_cons_self
  refine ⟨TagMap.mem_entries.1 hmem, ?_⟩
  intro other hother hlt
  have hlater := List.pairwise_append.1 (hentries ▸ r.names.ascending)
  rcases List.mem_append.1 (hentries ▸ TagMap.mem_entries.2 hother) with hin | hin
  · -- the entries before the one that was found have other names
    have hnot := hbefore _ hin
    simp at hnot
  · rcases List.mem_cons.1 hin with heq | hin
    · have hsame : other = first := congrArg Prod.fst heq
      rw [hsame] at hlt
      exact TagId.lt_irrefl first hlt
    · have hgt := (List.pairwise_cons.1 hlater.2.1).1 _ hin
      exact TagId.lt_asymm hgt hlt

theorem StandsFor.unique {r : Registry} {name : String} {tag other : TagId}
    (h : r.StandsFor name tag) (hother : r.StandsFor name other) : tag = other := by
  rcases TagId.lt_or_eq_or_gt tag other with hlt | heq | hgt
  · exact absurd hlt (hother.2 tag h.1)
  · exact heq
  · exact absurd hgt (h.2 other hother.1)

theorem idOf?_eq_some_iff {r : Registry} {name : String} {tag : TagId} :
    r.idOf? name = some tag ↔ r.StandsFor name tag := by
  constructor
  · exact standsFor_of_idOf?
  · intro h
    -- something is found, and it can only be the lowest
    have hsome : (r.names.entries.find? (·.2 = name)).isSome = true := by
      rw [List.find?_isSome]
      exact ⟨(tag, name), TagMap.mem_entries.2 h.1, by simp⟩
    obtain ⟨entry, hfind⟩ := Option.isSome_iff_exists.1 hsome
    have hfound : r.idOf? name = some entry.1 := by
      rw [idOf?, hfind]
      rfl
    rw [hfound, (standsFor_of_idOf? hfound).unique h]

end Registry

namespace CaseState

/-- The item is in the set of the tag. -/
def Carries (s : CaseState) (item : ItemId) (tag : TagId) : Prop :=
  ∃ set, s.roster.sets.get? tag = some set ∧ item ∈ set.items

/-- The item carries the tag that one of the names stands for. -/
def CarriesNamed (s : CaseState) (names : List String) (item : ItemId) : Prop :=
  ∃ name ∈ names, ∃ tag, s.registry.StandsFor name tag ∧ s.Carries item tag

/-- The item carries no tag. -/
def Untagged (s : CaseState) (item : ItemId) : Prop := ∀ tag, ¬ s.Carries item tag

/-- The item has a flag, and it is set. -/
def Checked (s : CaseState) (item : ItemId) : Prop :=
  s.selection.flags.toList[item.toNat]? = some true

/-- The item carries a tag of the report. -/
def InReport (s : CaseState) (item : ItemId) : Prop :=
  ∃ tag, s.Carries item tag ∧ s.registry.inReport.contains tag = true

variable {s : CaseState} {item : ItemId}

theorem contains_unionOf {names : List String} :
    (s.unionOf names).contains item = true ↔ s.CarriesNamed names item := by
  rw [unionOf, Roster.unionOf, ItemSet.contains_unionOf]
  simp only [tagsNamed, List.any_map, List.any_eq_true, List.mem_filterMap, Function.comp_apply]
  constructor
  · rintro ⟨set, ⟨tag, ⟨name, hname, hid⟩, hget⟩, hitem⟩
    exact ⟨name, hname, tag, Registry.idOf?_eq_some_iff.1 hid, set, hget, hitem⟩
  · rintro ⟨name, hname, tag, hstands, set, hget, hitem⟩
    exact ⟨set, ⟨tag, ⟨name, hname, Registry.idOf?_eq_some_iff.2 hstands⟩, hget⟩, hitem⟩

/-- The union of all sets leaves out what carries no tag, whether it is known or not. -/
theorem not_contains_union (h : s.roster.CacheSound) :
    (!s.roster.union.contains item) = true ↔ s.Untagged item := by
  rw [Roster.union_eq_recomputed h, Bool.not_eq_true', ← Bool.not_eq_true,
    Roster.contains_recomputed]
  constructor
  · rintro hnone tag ⟨set, hget, hitem⟩
    exact hnone ⟨tag, set, hget, hitem⟩
  · rintro huntagged ⟨tag, set, hget, hitem⟩
    exact huntagged tag ⟨set, hget, hitem⟩

theorem contains_unionOfOrUntagged (h : s.roster.CacheSound) {last : ItemId} {names : List String} :
    (s.unionOfOrUntagged last names).1.contains item = true
      ↔ s.CarriesNamed names item ∨ item ≤ last ∧ s.Untagged item := by
  show (s.unionOf names ∪ (ItemSet.upTo last \ s.roster.union)).contains item = true ↔ _
  rw [ItemSet.contains_union, ItemSet.contains_difference, ItemSet.contains_upTo, Bool.or_eq_true,
    Bool.and_eq_true, contains_unionOf, not_contains_union h, decide_eq_true_iff]

theorem isChecked_iff {last : ItemId} (h : s.selection.Counts (last.toNat + 1)) :
    s.selection.isChecked item = true ↔ item ≤ last ∧ s.Checked item := by
  have hsize : s.selection.flags.size = last.toNat + 1 := h.size
  rw [Selection.isChecked, Checked, Flags.toList_eq, UInt32.le_iff_toNat_le]
  by_cases hin : item.toNat < s.selection.flags.size
  · have hle : item.toNat ≤ last.toNat := by omega
    simp [hin, hle]
  · -- there is no flag, and the item is beyond the universe
    have hgt : ¬ item.toNat ≤ last.toNat := by omega
    simp [hgt, Flags.isSet_of_size_le (Nat.le_of_not_lt hin)]

theorem any_tagsOf : (s.roster.tagsOf item).any s.registry.isInReport = true ↔ s.InReport item := by
  simp only [Roster.tagsOf, Registry.isInReport, List.any_map, List.any_filter, List.any_eq_true,
    Function.comp_apply, Bool.and_eq_true]
  constructor
  · rintro ⟨entry, hentry, hitem, hreport⟩
    exact ⟨entry.1, ⟨entry.2, TagMap.mem_entries.1 hentry, hitem⟩, hreport⟩
  · rintro ⟨tag, ⟨set, hget, hitem⟩, hreport⟩
    exact ⟨(tag, set), TagMap.mem_entries.2 hget, hitem, hreport⟩

end CaseState

namespace Store

/-- What each filter keeps, in every state that a store can reach. -/
theorem filters_keep {anything : Store → Machine → StoreOp → Prop} {s : Store} {m : Machine}
    (h : Reachable anything s m) (hits : Hits) (names : List String) :
    (s.perform (.state (.filterByTags hits names)) m).1.1
        = .hits (hits.keeping (s.state.CarriesNamed names))
      ∧ (s.perform (.state (.filterByTagsOrUntagged hits names)) m).1.1
        = .hits (hits.keeping fun item =>
          s.state.CarriesNamed names item ∨ item ≤ s.lastId ∧ s.state.Untagged item)
      ∧ (s.perform (.state (.filterUntagged hits)) m).1.1 = .hits (hits.keeping s.state.Untagged)
      ∧ (s.perform (.state (.filterChecked hits)) m).1.1
        = .hits (hits.keeping fun item => item ≤ s.lastId ∧ s.state.Checked item)
      ∧ s.perform (.state (.filterInReport hits)) m
        = ((.hits (hits.keeping s.state.InReport), s), m) := by
  have hsound := sound_of_reachable h
  refine ⟨?_, ?_, ?_, ?_, ?_⟩
  · have hkept :
        hits.retainIn (s.state.unionOf names) = hits.keeping (s.state.CarriesNamed names) :=
      Hits.retain_eq_keeping (fun _ => CaseState.contains_unionOf) hits
    exact congrArg Reply.hits hkept
  · have hkept : hits.retainIn (s.state.unionOfOrUntagged s.lastId names).1 = _ :=
      Hits.retain_eq_keeping (fun _ => CaseState.contains_unionOfOrUntagged hsound.cache) hits
    exact congrArg Reply.hits hkept
  · have hkept : hits.retainNotIn s.state.roster.union = hits.keeping s.state.Untagged :=
      Hits.retain_eq_keeping (fun _ => CaseState.not_contains_union hsound.cache) hits
    exact congrArg Reply.hits hkept
  · have hkept : hits.retainChecked s.state.selection = _ :=
      Hits.retain_eq_keeping (fun _ => CaseState.isChecked_iff hsound.selection) hits
    exact congrArg Reply.hits hkept
  · have hkept : s.state.filterInReport hits = hits.keeping s.state.InReport :=
      Hits.retain_eq_keeping (fun _ => CaseState.any_tagsOf) hits
    rw [← hkept]
    rfl

/-- One of two items of a tag is found twice, and one place is excluded. -/
theorem filters_keep_sample :
    let machine : Machine := ⟨⟨[([], ⟨none, 0⟩)]⟩, 0, [], ⟨"/"⟩, 1, 0, []⟩
    let opened := (openCase (.dense 3) .default : StateM Machine _) machine
    let made := opened.1.perform (.state (.createTag "a")) opened.2
    let added := made.1.2.perform (.state (.addMembers [1, 2] ⟨0⟩)) made.2
    let hits : Hits := .ofScored [2, -1, 3, 2, 7] [5, 6, 7, 8, 9]
    (added.1.2.perform (.state (.filterByTags hits ["a"])) added.2).1.1
      = .hits (hits.keeping (added.1.2.state.CarriesNamed ["a"])) := by
  intro machine opened made added hits
  have hopened : Reachable (fun _ _ _ => True) opened.1 opened.2 :=
    .opened (.dense 3) .default machine
  have hmade : Reachable (fun _ _ _ => True) made.1.2 made.2 := .performed _ hopened trivial
  have hadded : Reachable (fun _ _ _ => True) added.1.2 added.2 := .performed _ hmade trivial
  exact (filters_keep hadded hits ["a"]).1

end Store

end EvidenceTags
