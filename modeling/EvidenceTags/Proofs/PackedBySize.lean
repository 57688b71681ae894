import EvidenceTags.Proofs.Operations
import EvidenceTags.Proofs.Wire.WrittenFile

/-!
# Sets stay packed by size

No operation makes a set that is packed otherwise than the sizes of its blocks ask for, so such a
set can only come into a state with a snapshot that replaces it. Neither a file in the legacy layout
nor one that a store has written has such sets (`LegacySnapshot.setsFit_migrate`,
`Snapshot.setsFit_of_written`), and the state of a store that gets no other snapshots has none in
any run (`Store.packed_of_reachable`).
-/

namespace EvidenceTags

theorem PackedSet.BySize.changeTo {s : PackedSet} (h : s.BySize) (items : ItemSet) :
    (s.changeTo items).BySize :=
  exceptions_changeTo_of_nil h items

/-! ## Maps of sets -/

namespace Wire.SetsFit

variable {sets : TagMap PackedSet} {tag : TagId} {set : PackedSet}

theorem empty : SetsFit ∅ := fun _ he => absurd he List.not_mem_nil

theorem get? (h : SetsFit sets) (hget : sets.get? tag = some set) : set.BySize :=
  h (tag, set) (TagMap.mem_entries.2 hget)

theorem insert (h : SetsFit sets) (tag : TagId) (hset : set.BySize) :
    SetsFit (sets.insert tag set) := by
  intro e he
  rcases TagMap.mem_place he with rfl | he
  · exact hset
  · exact h e he

theorem erase (h : SetsFit sets) (tag : TagId) : SetsFit (sets.erase tag) := by
  intro e he
  exact h e (List.mem_filter.1 he).1

end Wire.SetsFit

open Wire

/-! ## Snapshots out of files -/

/-- The sets that are made out of tag bits are packed by size. -/
theorem LegacySnapshot.setsFit_migrate (s : LegacySnapshot) (last : ItemId) :
    SetsFit (s.migrate last).members := by
  intro e he
  obtain ⟨named, -, rfl⟩ := List.mem_map.1 he
  exact PackedSet.bySize_ofItems _

/-- Whatever snapshot was written, what is read of it is packed by size. -/
theorem Snapshot.setsFit_of_written {s : Snapshot} (h : s.LengthsFit) {stored : StoredSnapshot}
    (hdecode : StoredSnapshot.decode s.encode = .ok stored) (last : ItemId) :
    SetsFit (stored.toCurrent last).members := by
  obtain ⟨sets, hsets, rfl⟩ := exists_of_decode h hdecode
  exact hsets

/-! ## Operations -/

namespace Roster

variable {r r' : Roster} {tag : TagId} {items : ItemSet}

theorem setsFit_insertTag (h : SetsFit r.sets) (tag : TagId) : SetsFit (r.insertTag tag).sets := by
  unfold insertTag
  split
  · exact h
  · exact h.insert tag (PackedSet.bySize_ofItems ∅)

theorem setsFit_removeTag (h : SetsFit r.sets) (tag : TagId) :
    SetsFit (r.removeTag tag).2.sets := by
  unfold removeTag
  split
  · exact h
  · exact h.erase tag

theorem setsFit_addMembers (h : SetsFit r.sets) (hr : r.addMembers tag items = .ok r') :
    SetsFit r'.sets := by
  unfold addMembers at hr
  split at hr
  · cases hr
  · rename_i set hset
    cases hr
    exact h.insert tag ((h.get? hset).changeTo _)

theorem setsFit_removeMembers (h : SetsFit r.sets) (hr : r.removeMembers tag items = .ok r') :
    SetsFit r'.sets := by
  unfold removeMembers at hr
  split at hr
  · cases hr
  · rename_i set hset
    cases hr
    exact h.insert tag ((h.get? hset).changeTo _)

end Roster

namespace CaseState

/-- All sets of the state are packed by size. -/
def PackedBySize (s : CaseState) : Prop := SetsFit s.roster.sets

variable {s : CaseState}

/-- The registry is no part of it. -/
theorem packed_changeRegistry (h : s.PackedBySize)
    (change : Registry → Except StoreError Registry) :
    (s.settle (s.changeRegistry change)).2.PackedBySize :=
  settle_changeRegistry h change fun _ _ => h

/-- Every operation keeps the sets packed by size, if those of a snapshot that replaces the state
are. -/
theorem packed_perform (h : s.PackedBySize) (domain : Domain) {op : Operation}
    (hop : ∀ snapshot, op = .restore snapshot → SetsFit snapshot.members) :
    (s.perform domain op).2.PackedBySize := by
  cases op with
  | createTag name =>
    show (s.createTag name).2.PackedBySize
    unfold createTag
    split
    · exact h
    · exact Roster.setsFit_insertTag h _
  | deleteTag tag => exact Roster.setsFit_removeTag h tag
  | addMembers items tag =>
    exact settle_roster (I := PackedBySize) h fun r' hr => Roster.setsFit_addMembers h hr
  | removeMembers items tag =>
    exact settle_roster (I := PackedBySize) h fun r' hr => Roster.setsFit_removeMembers h hr
  | setComment tag comment => exact packed_changeRegistry h (·.setComment tag comment)
  | setKeyBinding tag key => exact packed_changeRegistry h (·.setKeyBinding tag key)
  | setColor tag color => exact packed_changeRegistry h (·.setColor tag color)
  | setInReport tag value => exact packed_changeRegistry h (·.setInReport tag value)
  | addTypedWord word =>
    show (s.addTypedWord word).2.PackedBySize
    unfold addTypedWord
    split <;> exact h
  | restore snapshot => exact hop snapshot rfl
  -- names, checked items and answers are no part of it
  | _ => exact h

end CaseState

/-! ## Stores on a machine -/

/-- If every snapshot that replaces the state is packed by size, so is every state that is
reached. -/
theorem Store.packed_of_reachable {s : Store} {m : Machine}
    (h : Reachable (SourcesHave fun snapshot => SetsFit snapshot.members) s m) :
    s.state.PackedBySize := by
  refine invariant_of_reachable (I := CaseState.PackedBySize) ?_ ?_ h
  · intro last
    exact SetsFit.empty
  · intro state domain op hpacked hop
    exact CaseState.packed_perform hpacked domain hop

end EvidenceTags
