import EvidenceTags.Proofs.CheckedCount
import EvidenceTags.Proofs.Operations
import EvidenceTags.Proofs.PlainRoster

/-!
# What a store remembers is right

A state in memory keeps two things that could be computed again: the union of all sets of items, and
the count of checked items. `CaseState.Sound` says that they are what a computation would find, and
that there is a flag for each item of the universe.

* `CaseState.sound_perform` is the step lemma: every operation on the state keeps it sound. A
  snapshot that replaces the state may hold anything, since the union is then unknown and the flags
  are fitted and counted again.
* `Store.sound_of_reachable` follows for every run of a store, with whatever files are loaded, since
  the case itself stays the same (`Store.continues_perform`).
-/

namespace EvidenceTags

namespace CaseState

/-- The union that is known is that of all sets, and the checked items of a universe that ends with
`last` are counted. -/
structure Sound (last : ItemId) (s : CaseState) : Prop where
  cache : s.roster.CacheSound
  selection : s.selection.Counts (last.toNat + 1)

theorem sound_empty (last : ItemId) : (empty last).Sound last where
  cache := Roster.cacheSound_none ∅
  selection := Selection.counts_ofLength _

/-- A state that comes from a snapshot is sound, whatever the snapshot says. -/
theorem sound_ofSnapshot (last : ItemId) (snapshot : Snapshot) :
    (ofSnapshot last snapshot).Sound last where
  cache := Roster.cacheSound_none snapshot.members
  selection := (Selection.counts_ofLength _).restore snapshot.checked

variable {s : CaseState} {last : ItemId}

namespace Sound

theorem createTag (h : s.Sound last) (name : String) : (s.createTag name).2.Sound last := by
  unfold CaseState.createTag
  split
  · exact h
  · exact ⟨Roster.cacheSound_insertTag h.cache _, h.selection⟩

theorem deleteTag (h : s.Sound last) (tag : TagId) : (s.deleteTag tag).Sound last :=
  ⟨Roster.cacheSound_removeTag h.cache tag, h.selection⟩

/-- A change of the roster that keeps its cache sound. -/
theorem ofRoster (h : s.Sound last) {result : Except StoreError Roster}
    (hcache : ∀ r', result = .ok r' → r'.CacheSound) :
    (s.settle (result.map fun roster => { s with roster })).2.Sound last := by
  refine settle_roster (I := CaseState.Sound last) h ?_
  intro r' hr
  exact ⟨hcache r' hr, h.selection⟩

theorem changeRegistry (h : s.Sound last) (change : Registry → Except StoreError Registry) :
    (s.settle (s.changeRegistry change)).2.Sound last := by
  refine settle_changeRegistry (I := CaseState.Sound last) h change ?_
  intro registry _
  exact ⟨h.cache, h.selection⟩

theorem addTypedWord (h : s.Sound last) (word : String) : (s.addTypedWord word).2.Sound last := by
  unfold CaseState.addTypedWord
  split
  · exact h
  · exact ⟨h.cache, h.selection⟩

/-- A reader makes the union known. -/
theorem unionAll (h : s.Sound last) : s.unionAll.2.Sound last :=
  ⟨Roster.cacheSound_unionAll h.cache, h.selection⟩

end Sound

/-- Every operation keeps the state sound. -/
theorem sound_perform (h : s.Sound last) {domain : Domain} (hlast : domain.lastId = last)
    (op : Operation) : (s.perform domain op).2.Sound last := by
  cases op with
  | createTag name => exact h.createTag name
  | deleteTag tag => exact h.deleteTag tag
  | renameTag tag name => exact ⟨h.cache, h.selection⟩
  | addMembers items tag => exact h.ofRoster fun r' hr => Roster.cacheSound_addMembers h.cache hr
  | removeMembers items tag =>
    refine h.ofRoster fun r' hr => ?_
    unfold Roster.removeMembers at hr
    split at hr
    · cases hr
    · cases hr
      exact Roster.cacheSound_none _
  | unionAll | unionOfOrUntagged names | filterByTagsOrUntagged hits names | filterUntagged hits =>
    exact h.unionAll
  | setComment tag comment => exact h.changeRegistry (·.setComment tag comment)
  | setKeyBinding tag key => exact h.changeRegistry (·.setKeyBinding tag key)
  | removeKeyBinding tag => exact ⟨h.cache, h.selection⟩
  | setColor tag color => exact h.changeRegistry (·.setColor tag color)
  | setInReport tag value => exact h.changeRegistry (·.setInReport tag value)
  | setChecked item value => exact ⟨h.cache, h.selection.setChecked item value⟩
  | checkAll => exact ⟨h.cache, h.selection.checkAll domain⟩
  | clearChecked => exact ⟨h.cache, h.selection.clearAll⟩
  | addTypedWord word => exact h.addTypedWord word
  | restore snapshot =>
    rw [← hlast]
    exact sound_ofSnapshot domain.lastId snapshot
  -- questions leave the state as it is
  | _ => exact h

end CaseState

namespace Store

open Machine

/-! ## What every operation leaves alone -/

/-- The case and its places are the same, and no write of the worker has been left unfinished. -/
structure Continues (s s' : Store) : Prop where
  same : { s with state := s'.state, cookie := s'.cookie, queue := s'.queue } = s'
  inFlight : s.queue.inFlight = false → s'.queue.inFlight = false

namespace Continues

theorem refl (s : Store) : Continues s s := ⟨rfl, id⟩

theorem domain {s s' : Store} (h : Continues s s') : s'.domain = s.domain := by
  rw [← h.same]

theorem trans {s s' s'' : Store} (h : Continues s s') (h' : Continues s' s'') :
    Continues s s'' where
  same := by
    rw [← h'.same, ← h.same]
  inFlight hidle := h'.inFlight (h.inFlight hidle)

/-- The state in memory is no part of it. -/
theorem withState {s s' : Store} (h : Continues s s') (state : CaseState) :
    Continues s { s' with state } :=
  ⟨congrArg (fun t : Store => { t with state }) h.same, h.inFlight⟩

end Continues

theorem domain_openCase (domain : Domain) (settings : Settings) (m : Machine) :
    ((openCase domain settings : StateM Machine _) m).1.domain = domain := by
  rw [openCase_apply]

theorem queue_openCase (domain : Domain) (settings : Settings) (m : Machine) :
    ((openCase domain settings : StateM Machine _) m).1.queue = .empty := by
  rw [openCase_apply]

theorem continues_saveTo (s : Store) (m : Machine) (path : Path) (sync : Bool) :
    Continues s ((s.saveTo path sync : StateM Machine _) m).1.2 := by
  cases sync with
  | true => exact .refl s
  | false =>
    -- a job that is submitted is not yet being written
    exact ⟨rfl, id⟩

theorem continues_save (s : Store) (m : Machine) (sync : Bool) :
    Continues s ((s.save sync : StateM Machine _) m).1 := by
  rw [(save_apply s m sync).1]
  exact continues_saveTo s _ _ _

theorem continues_addTypedWord (s : Store) (m : Machine) (word : String) :
    Continues s ((s.addTypedWord word : StateM Machine _) m).1 := by
  unfold addTypedWord
  rcases s.state.addTypedWord word with ⟨isNew, state⟩
  cases isNew with
  | true =>
    have hsaved := continues_save { s with state } m false
    exact ⟨hsaved.same, hsaved.inFlight⟩
  | false => exact (Continues.refl s).withState state

theorem continues_restore (s : Store) (m : Machine) (snapshot : Snapshot) :
    Continues s ((s.restore snapshot : StateM Machine _) m).1 := by
  simp only [restore]
  split <;> exact (Continues.refl s).withState _

theorem continues_loadFrom (s : Store) (m : Machine) (path : Path) :
    Continues s ((s.loadFrom path : StateM Machine _) m).1.2 := by
  simp only [loadFrom, bind_apply, log_apply]
  rcases readSnapshot_cases { m with events := .loading path :: m.events } path with
    ⟨e, hread⟩ | ⟨stored, -, hread⟩
  · simp only [hread, pure_apply]
    exact .refl s
  · simp only [hread, bind_apply, pure_apply]
    exact continues_restore s _ _

theorem continues_load (s : Store) (m : Machine) :
    Continues s ((s.load : StateM Machine _) m).1 := by
  simp only [load, bind_apply, loadSource_apply]
  cases ((loadSource s.stateFile s.cookie : StateM Machine _) m).1 with
  | none => exact .refl s
  | some path =>
    have hloaded := continues_loadFrom s m path
    simp only [bind_apply]
    cases ((s.loadFrom path : StateM Machine _) m).1.1 <;> exact hloaded

/-- A job that the worker takes is finished before `flush` returns. -/
theorem continues_flush (s : Store) (m : Machine) :
    Continues s ((s.flush : StateM Machine _) m).1 := by
  refine ⟨rfl, fun hidle => ?_⟩
  simp only [flush, bind_apply, SaveQueue.flush]
  cases s.queue.take? with
  | none => exact hidle
  | some taken =>
    obtain ⟨job, queue⟩ := taken
    simp only [bind_apply]
    cases ((SaveQueue.write job : StateM Machine _) m).1 <;> rfl

/-- The case stays the same under every operation of its store, and no write is left unfinished. -/
theorem continues_perform (s : Store) (m : Machine) (op : StoreOp) :
    Continues s (s.perform op m).1.2 := by
  cases op with
  | state o =>
    cases o with
    | addTypedWord word => exact continues_addTypedWord s m word
    | restore snapshot => exact continues_restore s m snapshot
    | _ => exact (Continues.refl s).withState _
  | save sync => exact continues_save s m sync
  | saveTo path sync => exact continues_saveTo s m path sync
  | load => exact continues_load s m
  | loadFrom path => exact continues_loadFrom s m path
  | flush => exact continues_flush s m
  | refreshCookie => exact ⟨rfl, id⟩

/-! ## Stores on a machine -/

theorem sound_store_perform {s : Store} (h : s.state.Sound s.lastId) (m : Machine) (op : StoreOp) :
    (s.perform op m).1.2.state.Sound (s.perform op m).1.2.lastId := by
  have hlast : (s.perform op m).1.2.lastId = s.lastId := by
    rw [lastId, (continues_perform s m op).domain, lastId]
  rw [hlast]
  have heffect := perform_effect s m op
  generalize (s.perform op m).1.2.state = state at heffect
  cases heffect with
  | none => exact h
  | state o ho => exact CaseState.sound_perform h rfl o
  | loadFrom path stored ho hholds => exact CaseState.sound_ofSnapshot _ _
  | load path stored ho hsource hholds => exact CaseState.sound_ofSnapshot _ _

/-- In every state that a store can reach, what it remembers is right. -/
theorem sound_of_reachable {admits : Store → Machine → StoreOp → Prop} {s : Store} {m : Machine}
    (h : Reachable admits s m) : s.state.Sound s.lastId := by
  induction h with
  | opened domain settings m =>
    rw [state_openCase, lastId, domain_openCase]
    exact CaseState.sound_empty domain.lastId
  | @performed s m op _ _ ih => exact sound_store_perform ih m op
  | outside _ _ ih => exact ih

/-- Between two operations no write of the worker is under way. -/
theorem inFlight_of_reachable {admits : Store → Machine → StoreOp → Prop} {s : Store} {m : Machine}
    (h : Reachable admits s m) : s.queue.inFlight = false := by
  induction h with
  | opened domain settings m =>
    rw [queue_openCase]
    rfl
  | @performed s m op _ _ ih => exact (continues_perform s m op).inFlight ih
  | outside _ _ ih => exact ih

end Store

end EvidenceTags
