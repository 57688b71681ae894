import EvidenceTags.Proofs.FilterMeaning
import EvidenceTags.Proofs.SnapshotDetermines
import Mathlib.Data.List.Dedup

/-!
# Filters one after another

Hits can go through several filters of a store. Each asks its own question about the items
(`CaseState.Passes`), and none can tell what others have done: a filter that reads the union makes
it known, which changes no answer, and where a hit stands among others is of no matter.

* `CaseState.perform_filter` is the step lemma: a filter keeps the hits that pass it, and leaves a
  state that differs at most in what is known of the union.
* `Store.sift_cons` follows by induction: filters keep the hits that pass all of them.
* `Store.sift_in_any_order` says what that means for the order of filters and for repetitions.
-/

namespace EvidenceTags

/-- The filters of a store. -/
inductive Filter where
  | byTags (names : List String)
  | byTagsOrUntagged (names : List String)
  | untagged
  | checked
  | inReport
deriving DecidableEq

/-- To ask a store to filter hits. -/
def Filter.on (hits : Hits) : Filter → Operation
  | .byTags names => .filterByTags hits names
  | .byTagsOrUntagged names => .filterByTagsOrUntagged hits names
  | .untagged => .filterUntagged hits
  | .checked => .filterChecked hits
  | .inReport => .filterInReport hits

/-- The hits of a reply. -/
def Reply.hits? : Reply → Option Hits
  | .hits kept => some kept
  | _ => none

/-! ## Keeping what was kept -/

namespace Hits

variable {keep keep' : ItemId → Prop}

theorem keeping_congr (h : ∀ item, keep item ↔ keep' item) (hits : Hits) :
    hits.keeping keep = hits.keeping keep' := by
  have hkeep : keep = keep' := funext fun item => propext (h item)
  rw [hkeep]

/-- To keep some of what was kept is to keep what has both properties. -/
theorem keeping_keeping (hits : Hits) (keep keep' : ItemId → Prop) :
    (hits.keeping keep).keeping keep' = hits.keeping fun item => keep item ∧ keep' item := by
  unfold keeping
  rw [List.filter_filter]
  refine congrArg Hits.mk (List.filter_congr fun hit _ => ?_)
  rw [Bool.eq_iff_iff, Bool.and_eq_true]
  simp only [@decide_eq_true_iff _ (Classical.propDecidable _)]
  constructor
  · rintro ⟨⟨other, hother, hkeep'⟩, item, hitem, hkeep⟩
    -- a hit names one item
    have hsame : other = item := (Hit.names_iff.1 hother).2.symm.trans (Hit.names_iff.1 hitem).2
    rw [hsame] at hkeep'
    exact ⟨item, hitem, hkeep, hkeep'⟩
  · rintro ⟨item, hitem, hkeep, hkeep'⟩
    exact ⟨⟨item, hitem, hkeep'⟩, item, hitem, hkeep⟩

end Hits

/-! ## One filter -/

namespace CaseState

/-- What a filter asks about an item, in a case with items up to `last`. -/
def Passes (s : CaseState) (last : ItemId) : Filter → ItemId → Prop
  | .byTags names, item => s.CarriesNamed names item
  | .byTagsOrUntagged names, item => s.CarriesNamed names item ∨ item ≤ last ∧ s.Untagged item
  | .untagged, item => s.Untagged item
  | .checked, item => item ≤ last ∧ s.Checked item
  | .inReport, item => s.InReport item

variable {s : CaseState}

/-- No filter asks for what is known of the union. -/
theorem passes_withKnown (s : CaseState) (known : Option ItemSet) (last : ItemId) (f : Filter) :
    (s.withKnown known).Passes last f = s.Passes last f := by
  cases f <;> rfl

/-- A filter keeps the hits that pass it, and changes at most what is known of the union. -/
theorem perform_filter {domain : Domain} (h : s.Sound domain.lastId) (f : Filter) (hits : Hits) :
    (s.perform domain (f.on hits)).1 = .hits (hits.keeping (s.Passes domain.lastId f))
      ∧ ∃ known, (s.perform domain (f.on hits)).2 = s.withKnown known := by
  cases f with
  | byTags names =>
    have hkept : hits.retainIn (s.unionOf names) = hits.keeping (s.CarriesNamed names) :=
      Hits.retain_eq_keeping (fun _ => contains_unionOf) hits
    exact ⟨congrArg Reply.hits hkept, s.roster.known, rfl⟩
  | byTagsOrUntagged names =>
    have hkept : hits.retainIn (s.unionOfOrUntagged domain.lastId names).1 = _ :=
      Hits.retain_eq_keeping (fun _ => contains_unionOfOrUntagged h.cache) hits
    exact ⟨congrArg Reply.hits hkept, some s.roster.union, rfl⟩
  | untagged =>
    have hkept : hits.retainNotIn s.roster.union = hits.keeping s.Untagged :=
      Hits.retain_eq_keeping (fun _ => not_contains_union h.cache) hits
    exact ⟨congrArg Reply.hits hkept, some s.roster.union, rfl⟩
  | checked =>
    have hkept : hits.retainChecked s.selection = _ :=
      Hits.retain_eq_keeping (fun _ => isChecked_iff h.selection) hits
    exact ⟨congrArg Reply.hits hkept, s.roster.known, rfl⟩
  | inReport =>
    have hkept : s.filterInReport hits = hits.keeping s.InReport :=
      Hits.retain_eq_keeping (fun _ => any_tagsOf) hits
    exact ⟨congrArg Reply.hits hkept, s.roster.known, rfl⟩

end CaseState

/-! ## Filters of a store -/

namespace Store

/-- Asks a store to filter hits by one filter after another. There is no result if a reply has no
hits. -/
def sift : List Filter → Hits → Store × Machine → Option Hits
  | [], hits, _ => some hits
  | f :: rest, hits, p => do
    let kept ← (exec (f.on hits) p).1.hits?
    sift rest kept (exec (f.on hits) p).2

/-- The hits that are left have passed all filters, which all ask what they would have asked
first. -/
theorem sift_cons {p : Store × Machine} (h : p.1.state.Sound p.1.lastId) (f : Filter)
    (rest : List Filter) (hits : Hits) : sift (f :: rest) hits p
      = some (hits.keeping fun item => ∀ g ∈ f :: rest, p.1.state.Passes p.1.lastId g item) := by
  induction rest generalizing f hits p with
  | nil =>
    obtain ⟨hreply, -⟩ := CaseState.perform_filter h f hits
    rw [sift, reply_exec, hreply]
    show some _ = _
    refine congrArg some (Hits.keeping_congr (fun item => ?_) hits)
    simp [lastId]
  | cons g rest ih =>
    obtain ⟨hreply, known, hstate⟩ := CaseState.perform_filter h f hits
    have hstate' : (exec (f.on hits) p).2.1.state = p.1.state.withKnown known := by
      rw [state_exec, hstate]
    have hnext := ih (sound_exec h (f.on hits)) g (hits.keeping (p.1.state.Passes p.1.lastId f))
    rw [hstate', lastId_exec] at hnext
    simp only [CaseState.passes_withKnown] at hnext
    rw [sift, reply_exec, hreply]
    show sift (g :: rest) (hits.keeping (p.1.state.Passes p.1.lastId f)) _ = _
    rw [hnext, Hits.keeping_keeping]
    refine congrArg some (Hits.keeping_congr (fun item => ?_) hits)
    simp only [List.forall_mem_cons]

/-- Only which filters are asked counts. -/
theorem sift_congr {p : Store × Machine} (h : p.1.state.Sound p.1.lastId)
    {filters others : List Filter}
    (hne : filters ≠ []) (hsame : ∀ f, f ∈ others ↔ f ∈ filters) (hits : Hits) :
    sift others hits p = sift filters hits p := by
  cases filters with
  | nil => exact absurd rfl hne
  | cons f rest =>
    cases others with
    | nil => exact absurd ((hsame f).2 List.mem_cons_self) List.not_mem_nil
    | cons g others =>
      rw [sift_cons h, sift_cons h]
      refine congrArg some (Hits.keeping_congr (fun item => ?_) hits)
      simp only [hsame]

/-- In every state that a store can reach, filters asked one after another keep, in one pass, the
hits that pass all of them as the state is. So they may be asked in any order, and no filter has to
be asked twice. -/
theorem sift_in_any_order {anything : Store → Machine → StoreOp → Prop} {p : Store × Machine}
    (h : Reachable anything p.1 p.2) (hits : Hits) {filters : List Filter} (hne : filters ≠ []) :
    sift filters hits p = some (hits.keeping fun item =>
        ∀ f ∈ filters, p.1.state.Passes p.1.lastId f item)
      ∧ (∀ others, others.Perm filters → sift others hits p = sift filters hits p)
      ∧ sift filters.dedup hits p = sift filters hits p := by
  have hsound := sound_of_reachable h
  refine ⟨?_, ?_, ?_⟩
  · obtain ⟨f, rest, rfl⟩ := List.exists_cons_of_ne_nil hne
    exact sift_cons hsound f rest hits
  · intro others hperm
    exact sift_congr hsound hne (fun f => hperm.mem_iff) hits
  · exact sift_congr hsound hne (fun f => List.mem_dedup) hits

/-- The union is not known before the first of four filters, of which one comes twice. -/
theorem sift_in_any_order_sample :
    let machine : Machine := ⟨⟨[([], ⟨none, 0⟩)]⟩, 0, [], ⟨"/"⟩, 1, 0, []⟩
    let opened := (openCase (.dense 3) .default : StateM Machine _) machine
    let p :=
      (run exec [.createTag "a", .addMembers [1, 2] ⟨0⟩, .setChecked 3 true, .setChecked 0 true]
      opened).2
    let hits : Hits := .ofScored [3, -1, 2, 0, 3, 9] [5, 6, 7, 8, 9, 10]
    let filters : List Filter := [.byTagsOrUntagged ["b"], .checked, .untagged, .checked]
    let kept : Hits := .ofScored [3, 0, 3] [5, 8, 9]
    sift filters hits p = some kept ∧ sift filters.reverse hits p = some kept
      ∧ sift filters.dedup hits p = some kept := by
  intro machine opened p hits filters kept
  have hopened : Reachable (fun _ _ _ => True) opened.1 opened.2 :=
    .opened (.dense 3) .default machine
  have hp : Reachable (fun _ _ _ => True) p.1 p.2 := reachable_run (by simp) _ hopened
  have hne : filters ≠ [] := List.cons_ne_nil _ _
  obtain ⟨-, hperm, hdedup⟩ := sift_in_any_order hp hits hne
  have hsift : sift filters hits p = some kept := by decide +kernel
  exact ⟨hsift, (hperm _ (List.reverse_perm filters)).trans hsift, hdedup.trans hsift⟩

end Store

end EvidenceTags
