import EvidenceTags.Proofs.OnMachine

/-!
# Operations on an open case

All that can be asked of an open case is gathered in two types: an `Operation` is about the state in
memory, and a `StoreOp` may also save or load. Each answers with a `Reply` and leaves a state.

`Store.Reachable` are the stores that runs lead to, on a machine on which others may change anything
between two operations. Whatever is asked of a store, its state in memory is only changed by an
operation on it or by loading (`Store.perform_effect`).
-/

namespace EvidenceTags

/-! ## The state in memory -/

/-- Changes of the state in memory and questions about it. Items are given as a list, in any order
and with repetitions. -/
inductive Operation where
  | createTag (name : String)
  | deleteTag (tag : TagId)
  | renameTag (tag : TagId) (name : String)
  | tagId (name : String)
  | tagName (tag : TagId)
  | tags
  | addMembers (items : List ItemId) (tag : TagId)
  | removeMembers (items : List ItemId) (tag : TagId)
  | contains (item : ItemId) (tag : TagId)
  | containsAny (item : ItemId) (tags : List TagId)
  | hasAnyTag (item : ItemId)
  | tagsOf (item : ItemId)
  | tagIdsOf (item : ItemId)
  | cardinality (tag : TagId)
  | unionAll
  | unionOf (names : List String)
  | unionOfOrUntagged (names : List String)
  | setComment (tag : TagId) (comment : Option String)
  | comment (tag : TagId)
  | setKeyBinding (tag : TagId) (key : KeyBinding)
  | removeKeyBinding (tag : TagId)
  | keyBinding (tag : TagId)
  | setColor (tag : TagId) (color : Option Color)
  | color (tag : TagId)
  | usedColors
  | setInReport (tag : TagId) (value : Bool)
  | isInReport (tag : TagId)
  | setChecked (item : ItemId) (value : Bool)
  | isChecked (item : ItemId)
  | checkAll
  | clearChecked
  | checkedCount
  | filterByTags (hits : Hits) (names : List String)
  | filterByTagsOrUntagged (hits : Hits) (names : List String)
  | filterUntagged (hits : Hits)
  | filterChecked (hits : Hits)
  | filterInReport (hits : Hits)
  | addTypedWord (word : String)
  | typedWords
  | snapshot
  | restore (snapshot : Snapshot)

/-- What an operation answers. -/
inductive Reply where
  | done
  | outcome (result : Except StoreError Unit)
  | tag (tag : TagId)
  | maybeTag (tag : Option TagId)
  | maybeText (text : Option String)
  | maybeKey (key : Option KeyBinding)
  | maybeColor (color : Option Color)
  | maybeSize (size : Option Nat)
  | names (names : TagMap String)
  | truth (value : Bool)
  | texts (list : List String)
  | tags (list : List TagId)
  | colors (list : List Color)
  | count (n : Nat)
  | items (set : ItemSet)
  | hits (hits : Hits)
  | snapshot (snapshot : Snapshot)

namespace CaseState

/-- The reply to a change that may be refused, and the state that it leaves. -/
def settle (s : CaseState) : Except StoreError CaseState → Reply × CaseState
  | .ok s' => (.outcome (.ok ()), s')
  | .error e => (.outcome (.error e), s)

/-- Carries out an operation, in a case of the given domain. -/
def perform (domain : Domain) (s : CaseState) : Operation → Reply × CaseState
  | .createTag name => (.tag (s.createTag name).1, (s.createTag name).2)
  | .deleteTag tag => (.done, s.deleteTag tag)
  | .renameTag tag name => (.done, s.renameTag tag name)
  | .tagId name => (.maybeTag (s.registry.idOf? name), s)
  | .tagName tag => (.maybeText (s.registry.names.get? tag), s)
  | .tags => (.names s.registry.names, s)
  | .addMembers items tag => s.settle (s.addMembers tag (.ofList items))
  | .removeMembers items tag => s.settle (s.removeMembers tag (.ofList items))
  | .contains item tag => (.truth (s.roster.contains item tag), s)
  | .containsAny item tags => (.truth (s.roster.containsAny item tags), s)
  | .hasAnyTag item => (.truth (s.roster.inAny item), s)
  | .tagsOf item => (.texts (s.namesOf item), s)
  | .tagIdsOf item => (.tags (s.roster.tagsOf item), s)
  | .cardinality tag => (.maybeSize (s.roster.cardinality? tag), s)
  | .unionAll => (.items s.unionAll.1, s.unionAll.2)
  | .unionOf names => (.items (s.unionOf names), s)
  | .unionOfOrUntagged names =>
    (.items (s.unionOfOrUntagged domain.lastId names).1,
      (s.unionOfOrUntagged domain.lastId names).2)
  | .setComment tag comment => s.settle (s.changeRegistry (·.setComment tag comment))
  | .comment tag => (.maybeText (s.registry.comments.get? tag), s)
  | .setKeyBinding tag key => s.settle (s.changeRegistry (·.setKeyBinding tag key))
  | .removeKeyBinding tag => (.done, { s with registry := s.registry.removeKeyBinding tag })
  | .keyBinding tag => (.maybeKey (s.registry.keyBindings.get? tag), s)
  | .setColor tag color => s.settle (s.changeRegistry (·.setColor tag color))
  | .color tag => (.maybeColor (s.registry.colors.get? tag), s)
  | .usedColors => (.colors s.registry.usedColors, s)
  | .setInReport tag value => s.settle (s.changeRegistry (·.setInReport tag value))
  | .isInReport tag => (.truth (s.registry.isInReport tag), s)
  | .setChecked item value => (.done, s.setChecked item value)
  | .isChecked item => (.truth (s.selection.isChecked item), s)
  | .checkAll => (.done, s.checkAll domain)
  | .clearChecked => (.done, s.clearChecked)
  | .checkedCount => (.count s.selection.count, s)
  | .filterByTags hits names => (.hits (s.filterByTags hits names), s)
  | .filterByTagsOrUntagged hits names =>
    (.hits (s.filterByTagsOrUntagged domain.lastId hits names).1,
      (s.filterByTagsOrUntagged domain.lastId hits names).2)
  | .filterUntagged hits => (.hits (s.filterUntagged hits).1, (s.filterUntagged hits).2)
  | .filterChecked hits => (.hits (s.filterChecked hits), s)
  | .filterInReport hits => (.hits (s.filterInReport hits), s)
  | .addTypedWord word => (.done, (s.addTypedWord word).2)
  | .typedWords => (.texts s.typedWords, s)
  | .snapshot => (.snapshot s.snapshot, s)
  | .restore snapshot => (.done, ofSnapshot domain.lastId snapshot)

/-! What holds of a state holds after a change that may be refused, if it holds of what the change
makes: a refusal leaves the state as it was. -/

variable {I : CaseState → Prop} {s : CaseState}

theorem settle_roster (h : I s) {result : Except StoreError Roster}
    (hresult : ∀ roster, result = .ok roster → I { s with roster }) :
    I (s.settle (result.map fun roster => { s with roster })).2 := by
  cases result with
  | ok roster => exact hresult roster rfl
  | error e => exact h

theorem settle_changeRegistry (h : I s) (change : Registry → Except StoreError Registry)
    (hresult : ∀ registry, change s.registry = .ok registry → I { s with registry }) :
    I (s.settle (s.changeRegistry change)).2 := by
  unfold changeRegistry
  cases hchange : change s.registry with
  | ok registry => exact hresult registry hchange
  | error e => exact h

end CaseState

/-! ## The store -/

/-- What can be asked of a store on a machine. -/
inductive StoreOp where
  | state (op : Operation)
  | save (sync : Bool)
  | saveTo (path : Path) (sync : Bool)
  | load
  | loadFrom (path : Path)
  | flush
  | refreshCookie

namespace Store

/-- Carries out an operation of a store. A typed word that is new leads to a save, and a snapshot
whose count is off to a line in the log. -/
def perform (s : Store) : StoreOp → StateM Machine (Reply × Store)
  | .state (.addTypedWord word) => do
    let s ← s.addTypedWord word
    pure (.done, s)
  | .state (.restore snapshot) => do
    let s ← s.restore snapshot
    pure (.done, s)
  | .state op =>
    let (reply, state) := s.state.perform s.domain op
    pure (reply, { s with state })
  | .save sync => do
    let s ← s.save sync
    pure (.done, s)
  | .saveTo path sync => do
    let (result, s) ← s.saveTo path sync
    pure (.outcome result, s)
  | .load => do
    let s ← s.load
    pure (.done, s)
  | .loadFrom path => do
    let (result, s) ← s.loadFrom path
    pure (.outcome result, s)
  | .flush => do
    let s ← s.flush
    pure (.done, s)
  | .refreshCookie => do
    let s ← s.refreshCookie
    pure (.done, s)

/-- What an operation of a store does to the state in memory. -/
inductive Effect (s : Store) (m : Machine) (op : StoreOp) : CaseState → Prop
  | none : Effect s m op s.state
  | state (o : Operation) (h : op = .state o) : Effect s m op (s.state.perform s.domain o).2
  | loadFrom (path : Path) (stored : StoredSnapshot) (h : op = .loadFrom path)
      (hholds : m.Holds path stored) :
      Effect s m op (.ofSnapshot s.lastId (stored.toCurrent s.lastId))
  | load (path : Path) (stored : StoredSnapshot) (h : op = .load) (hsource : s.source m = some path)
      (hholds : m.Holds path stored) :
      Effect s m op (.ofSnapshot s.lastId (stored.toCurrent s.lastId))

/-- The state in memory is changed by an operation on it or by loading, and by nothing else. -/
theorem perform_effect (s : Store) (m : Machine) (op : StoreOp) :
    Effect s m op (s.perform op m).1.2.state := by
  cases op with
  | state o =>
    have hstate : (s.perform (.state o) m).1.2.state = (s.state.perform s.domain o).2 := by
      cases o with
      | addTypedWord word => exact state_addTypedWord s m word
      | restore snapshot => exact state_restore s m snapshot
      | _ => rfl
    rw [hstate]
    exact .state o rfl
  | save sync =>
    have hstate : (s.perform (.save sync) m).1.2.state = s.state := state_save s m sync
    rw [hstate]
    exact .none
  | saveTo path sync =>
    have hstate : (s.perform (.saveTo path sync) m).1.2.state = s.state :=
      state_saveTo s m path sync
    rw [hstate]
    exact .none
  | load =>
    show Effect s m .load ((s.load : StateM Machine _) m).1.state
    rcases state_load s m with hsame | ⟨path, stored, hsource, hholds, hstate⟩
    · rw [hsame]
      exact .none
    · rw [hstate]
      exact .load path stored rfl hsource hholds
  | loadFrom path =>
    show Effect s m (.loadFrom path) ((s.loadFrom path : StateM Machine _) m).1.2.state
    rcases state_loadFrom s m path with hsame | ⟨stored, hholds, hstate⟩
    · rw [hsame]
      exact .none
    · rw [hstate]
      exact .loadFrom path stored rfl hholds
  | flush => exact .none
  | refreshCookie => exact .none

/-! ## Runs -/

/-- The stores that are reached from a store that has just been opened, by operations that `admits`
allows where they come. Between two operations the machine may have become another. -/
inductive Reachable (admits : Store → Machine → StoreOp → Prop) : Store → Machine → Prop
  | opened (domain : Domain) (settings : Settings) (m : Machine) :
      Reachable admits ((openCase domain settings : StateM Machine _) m).1
        ((openCase domain settings : StateM Machine _) m).2
  | performed {s : Store} {m : Machine} (op : StoreOp) (h : Reachable admits s m)
      (hop : admits s m op) : Reachable admits (s.perform op m).1.2 (s.perform op m).2
  | outside {s : Store} {m : Machine} (m' : Machine) (h : Reachable admits s m) :
      Reachable admits s m'

/-- Whatever snapshot replaces the state has a property: one that is restored, or one that is loaded
from a file. -/
def SourcesHave (P : Snapshot → Prop) (s : Store) (m : Machine) : StoreOp → Prop
  | .state (.restore snapshot) => P snapshot
  | .loadFrom path => ∀ stored, m.Holds path stored → P (stored.toCurrent s.lastId)
  | .load =>
    ∀ path stored, s.source m = some path → m.Holds path stored → P (stored.toCurrent s.lastId)
  | _ => True

/-- What holds of an empty state, and is kept by whatever an admitted operation of a store does to
the state in memory, holds of every state that a store can reach. -/
theorem invariant_of_effect {admits : Store → Machine → StoreOp → Prop} {I : CaseState → Prop}
    (hempty : ∀ last, I (.empty last))
    (hstep : ∀ s m op state, I s.state → admits s m op → Effect s m op state → I state)
    {s : Store} {m : Machine} (h : Reachable admits s m) : I s.state := by
  induction h with
  | opened domain settings m =>
    rw [state_openCase]
    exact hempty domain.lastId
  | @performed s m op _ hop ih => exact hstep s m op _ ih hop (perform_effect s m op)
  | outside _ _ ih =>
    -- what others do to the files does not reach the state in memory
    exact ih

/-- What holds of an empty state, and is kept by every operation on the state in memory, holds of
every state that a store can reach. -/
theorem invariant_of_reachable {P : Snapshot → Prop} {I : CaseState → Prop}
    (hempty : ∀ last, I (.empty last))
    (hstep : ∀ state domain op, I state → (∀ snapshot, op = .restore snapshot → P snapshot) →
      I (state.perform domain op).2)
    {s : Store} {m : Machine} (h : Reachable (SourcesHave P) s m) : I s.state := by
  refine invariant_of_effect hempty ?_ h
  intro s m op state hs hop heffect
  -- to load a snapshot is to restore it
  have hrestore (snapshot : Snapshot) (hP : P snapshot) : I (.ofSnapshot s.lastId snapshot) := by
    refine hstep s.state s.domain (.restore snapshot) hs ?_
    intro other heq
    cases heq
    exact hP
  cases heffect with
  | none => exact hs
  | state o ho =>
    subst ho
    refine hstep s.state s.domain o hs ?_
    intro snapshot heq
    subst heq
    exact hop
  | loadFrom path stored ho hholds =>
    subst ho
    exact hrestore _ (hop stored hholds)
  | load path stored ho hsource hholds =>
    subst ho
    exact hrestore _ (hop path stored hsource hholds)

end Store

end EvidenceTags
