import EvidenceTags.Machine
import EvidenceTags.Store

/-!
# Host programs on a machine

A program over a host is, on a machine, a function from the machine to an answer and a machine. The
laws here carry out such a program step by step, and say what the programs do that only look at the
machine: reading a snapshot and choosing what to load leave it as it was.
-/

namespace EvidenceTags

namespace Machine

variable {α β : Type}

/-! ## Single steps -/

theorem bind_apply (x : StateM Machine α) (f : α → StateM Machine β) (m : Machine) :
    (x >>= f) m = f (x m).1 (x m).2 := rfl

theorem pure_apply (a : α) (m : Machine) : (pure a : StateM Machine α) m = (a, m) := rfl

theorem log_apply (event : LogEvent) (m : Machine) :
    (Host.log event : StateM Machine Unit) m = ((), { m with events := event :: m.events }) := rfl

theorem read_apply (path : Path) (m : Machine) :
    (Host.read path : StateM Machine _) m = (m.read path, m) := rfl

theorem status_apply (path : Path) (m : Machine) :
    (Host.status path : StateM Machine _) m = (m.status? path, m) := rfl

/-! ## Programs that only look -/

/-- The file at a path holds a snapshot. -/
def Holds (m : Machine) (path : Path) (stored : StoredSnapshot) : Prop :=
  ∃ bytes, m.read path = .ok bytes ∧ StoredSnapshot.decode bytes = .ok stored

/-- A snapshot is read exactly if the file holds it. -/
theorem readSnapshot_cases (m : Machine) (path : Path) :
    (∃ e, (readSnapshot path : StateM Machine _) m = (.error e, m))
      ∨ ∃ stored, m.Holds path stored
        ∧ (readSnapshot path : StateM Machine _) m = (.ok stored, m) := by
  simp only [readSnapshot, bind_apply, read_apply]
  cases hread : m.read path with
  | error e => exact .inl ⟨_, rfl⟩
  | ok bytes =>
    cases hdecode : StoredSnapshot.decode bytes with
    | error e =>
      refine .inl ⟨e, ?_⟩
      simp only [pure_apply, hdecode]
    | ok stored =>
      refine .inr ⟨stored, ⟨bytes, hread, hdecode⟩, ?_⟩
      simp only [pure_apply, hdecode]

theorem currentSnapshot_apply (stored : StoredSnapshot) (last : ItemId) (m : Machine) :
    ((currentSnapshot stored last : StateM Machine _) m).1 = stored.toCurrent last := by
  cases stored <;> rfl

theorem loadSource_apply (stateFile cookie : Path) (m : Machine) :
    ((loadSource stateFile cookie : StateM Machine _) m).2 = m := by
  simp only [loadSource, bind_apply, status_apply]
  cases m.status? cookie <;> cases m.status? stateFile <;> rfl

end Machine

namespace Store

open Machine

/-- A case is opened by looking: at what the state file is called, and at the time of the index. -/
theorem openCase_apply (domain : Domain) (settings : Settings) (m : Machine) :
    (openCase domain settings : StateM Machine _) m
      = (let indexDir := settings.moduleDir.join "index"
         let stateFile := settings.moduleDir.join "bookmarks.tix"
         let cookieDir := settings.tempDir.getD m.temporaryDir
         ⟨.empty domain.lastId, domain, settings.syncSave, indexDir,
           (m.canonical? stateFile).getD stateFile, cookieDir,
           ((cookiePath indexDir cookieDir : StateM Machine _) m).1, .empty⟩, m) := by
  simp only [openCase, bind_apply]
  cases settings.tempDir <;> rfl

/-! ## What becomes of the state in memory -/

theorem state_openCase (domain : Domain) (settings : Settings) (m : Machine) :
    ((openCase domain settings : StateM Machine _) m).1.state = .empty domain.lastId := by
  rw [openCase_apply]

theorem state_saveTo (s : Store) (m : Machine) (path : Path) (sync : Bool) :
    ((s.saveTo path sync : StateM Machine _) m).1.2.state = s.state := by
  cases sync <;> rfl

/-- Where a store would save its case. -/
def target (s : Store) (m : Machine) : Path :=
  ((saveTarget s.stateFile s.cookie : StateM Machine _) m).1

/-- The machine on which that has been found out. -/
def probed (s : Store) (m : Machine) : Machine :=
  ((saveTarget s.stateFile s.cookie : StateM Machine _) m).2

/-- The store and, after a success, the machine are left by `save` as they are left by `saveTo`. -/
theorem save_apply (s : Store) (m : Machine) (sync : Bool) :
    ((s.save sync : StateM Machine _) m).1
        = ((s.saveTo (s.target m) (sync || s.syncSave) : StateM Machine _) (s.probed m)).1.2
      ∧ (((s.saveTo (s.target m) (sync || s.syncSave) : StateM Machine _) (s.probed m)).1.1
        = .ok () →
        ((s.save sync : StateM Machine _) m).2
          = ((s.saveTo (s.target m) (sync || s.syncSave) : StateM Machine _) (s.probed m)).2) := by
  unfold target probed
  simp only [save, bind_apply]
  generalize (saveTarget s.stateFile s.cookie : StateM Machine _) m = chosen
  rcases (s.saveTo chosen.1 (sync || s.syncSave) : StateM Machine _) chosen.2
    with ⟨⟨result, s'⟩, m'⟩
  cases result with
  | error e => exact ⟨rfl, nofun⟩
  | ok _ => exact ⟨rfl, fun _ => rfl⟩

theorem state_save (s : Store) (m : Machine) (sync : Bool) :
    ((s.save sync : StateM Machine _) m).1.state = s.state := by
  rw [(save_apply s m sync).1]
  exact state_saveTo s _ _ _

/-- Whether or not a new word is saved, it is remembered. -/
theorem state_addTypedWord (s : Store) (m : Machine) (word : String) :
    ((s.addTypedWord word : StateM Machine _) m).1.state = (s.state.addTypedWord word).2 := by
  unfold addTypedWord
  rcases s.state.addTypedWord word with ⟨isNew, state⟩
  cases isNew with
  | true => exact state_save { s with state } m false
  | false => rfl

theorem state_restore (s : Store) (m : Machine) (snapshot : Snapshot) :
    ((s.restore snapshot : StateM Machine _) m).1.state = .ofSnapshot s.lastId snapshot := by
  simp only [restore]
  split <;> rfl

/-- Loading leaves the state alone, or replaces it by that of a snapshot that the file holds. -/
theorem state_loadFrom (s : Store) (m : Machine) (path : Path) :
    ((s.loadFrom path : StateM Machine _) m).1.2.state = s.state
      ∨ ∃ stored, m.Holds path stored
        ∧ ((s.loadFrom path : StateM Machine _) m).1.2.state
          = .ofSnapshot s.lastId (stored.toCurrent s.lastId) := by
  simp only [loadFrom, bind_apply, log_apply]
  -- the line in the log is no part of what the path leads to
  rcases readSnapshot_cases { m with events := .loading path :: m.events } path with
    ⟨e, hread⟩ | ⟨stored, hholds, hread⟩
  · left
    simp only [hread, pure_apply]
  · right
    refine ⟨stored, hholds, ?_⟩
    simp only [hread, bind_apply, pure_apply, state_restore, currentSnapshot_apply]

/-- The file that `load` goes to. -/
def source (s : Store) (m : Machine) : Option Path :=
  ((loadSource s.stateFile s.cookie : StateM Machine _) m).1

theorem state_load (s : Store) (m : Machine) :
    ((s.load : StateM Machine _) m).1.state = s.state
      ∨ ∃ path stored, s.source m = some path ∧ m.Holds path stored
        ∧ ((s.load : StateM Machine _) m).1.state
          = .ofSnapshot s.lastId (stored.toCurrent s.lastId) := by
  simp only [load, bind_apply, loadSource_apply]
  cases hsource : ((loadSource s.stateFile s.cookie : StateM Machine _) m).1 with
  | none => exact .inl rfl
  | some path =>
    simp only [bind_apply]
    rcases state_loadFrom s m path with hsame | ⟨stored, hholds, hstate⟩
    · left
      cases ((s.loadFrom path : StateM Machine _) m).1.1 <;> exact hsame
    · right
      refine ⟨path, stored, hsource, hholds, ?_⟩
      cases ((s.loadFrom path : StateM Machine _) m).1.1 <;> exact hstate

end Store

end EvidenceTags
