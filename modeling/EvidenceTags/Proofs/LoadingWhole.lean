import EvidenceTags.Proofs.SaveAndLoad
import EvidenceTags.Proofs.SnapshotDetermines

/-!
# Loading is all or nothing

A file can be missing, or a directory, or hold any bytes, and these can stop being a snapshot at any
place. A store that loads it either takes over what the whole file decodes to, fitted to its
universe, or is the same store as before (`Store.Loading`). The count of checked items in the file
is not taken over: it is counted again.

`load` chooses between two files and ends as loading the chosen one does, but writes a line into the
log where that fails (`Store.LoadedCase`).
-/

namespace EvidenceTags

namespace Store

open Machine

variable {s : Store} {m : Machine} {path : Path}

/-! ## One path -/

/-- How a store and a machine are left when a path has been loaded, with the answer. Either the path
leads to bytes that decode to a snapshot, which replaces the state as a whole, so that nothing is
remembered of what was there before; or it does not, and nothing happens but that the attempt is
logged. -/
inductive Loading (s : Store) (m : Machine) (path : Path) :
    Except StoreError Unit → Store → Machine → Prop
  | whole {bytes : Wire.Bytes} {stored : StoredSnapshot} {state : CaseState} {news : List LogEvent}
      (hread : m.read path = .ok bytes) (hdecode : StoredSnapshot.decode bytes = .ok stored)
      (hfitted : Snapshot.FittedTo s.lastId (stored.toCurrent s.lastId) state.snapshot)
      (hsound : state.Sound s.lastId) :
      Loading s m path (.ok ()) { s with state }
        { m with events := news ++ .loading path :: m.events }
  | unreadable {error : OsError} (hread : m.read path = .error error) :
      Loading s m path (.error (.io path (.system error))) s
        { m with events := .loading path :: m.events }
  | undecodable {bytes : Wire.Bytes} {error : StoreError} (hread : m.read path = .ok bytes)
      (hdecode : StoredSnapshot.decode bytes = .error error) :
      Loading s m path (.error error) s { m with events := .loading path :: m.events }

/-- To bring a snapshot to the current version changes at most the log. -/
theorem exists_currentSnapshot (stored : StoredSnapshot) (last : ItemId) (m : Machine) :
    ∃ news, (currentSnapshot stored last : StateM Machine _) m
      = (stored.toCurrent last, { m with events := news ++ m.events }) := by
  cases stored with
  | legacy legacy => exact ⟨[_], rfl⟩
  | current snapshot => exact ⟨[], rfl⟩

/-- To restore a snapshot replaces the state, and changes at most the log. -/
theorem exists_restore (s : Store) (snapshot : Snapshot) (m : Machine) :
    ∃ news, (s.restore snapshot : StateM Machine _) m
      = ({ s with state := .ofSnapshot s.lastId snapshot },
        { m with events := news ++ m.events }) := by
  simp only [restore]
  split
  · exact ⟨[_], rfl⟩
  · exact ⟨[], rfl⟩

theorem loading_loadFrom (s : Store) (m : Machine) (path : Path) :
    Loading s m path ((s.loadFrom path : StateM Machine _) m).1.1
      ((s.loadFrom path : StateM Machine _) m).1.2 ((s.loadFrom path : StateM Machine _) m).2 := by
  -- the line in the log is no part of what the path leads to
  have hlogged : Machine.read { m with events := .loading path :: m.events } path = m.read path :=
    rfl
  simp only [loadFrom, readSnapshot, bind_apply, log_apply, read_apply, hlogged]
  cases hread : m.read path with
  | error error => exact .unreadable hread
  | ok bytes =>
    cases hdecode : StoredSnapshot.decode bytes with
    | error error =>
      simp only [pure_apply, hdecode]
      exact .undecodable hread hdecode
    | ok stored =>
      simp only [pure_apply, hdecode, bind_apply]
      obtain ⟨migrated, hcurrent⟩ := exists_currentSnapshot stored s.lastId
        { m with events := .loading path :: m.events }
      rw [hcurrent]
      obtain ⟨counted, hrestore⟩ := exists_restore s (stored.toCurrent s.lastId)
        { m with events := migrated ++ .loading path :: m.events }
      rw [hrestore, ← List.append_assoc]
      exact .whole hread hdecode (CaseState.fittedTo_ofSnapshot s.lastId _)
        (CaseState.sound_ofSnapshot s.lastId _)

/-- A path is loaded exactly if it holds a snapshot. -/
theorem Loading.eq_ok_iff {result : Except StoreError Unit} {s' : Store} {m' : Machine}
    (h : Loading s m path result s' m') : result = .ok () ↔ ∃ stored, m.Holds path stored := by
  constructor
  · rintro rfl
    cases h with
    | whole hread hdecode _ _ => exact ⟨_, _, hread, hdecode⟩
  · rintro ⟨stored, bytes, hbytes, hstored⟩
    cases h with
    | whole _ _ _ _ => rfl
    | unreadable hread =>
      rw [hread] at hbytes
      cases hbytes
    | undecodable hread hdecode =>
      rw [hread] at hbytes
      cases hbytes
      rw [hdecode] at hstored
      cases hstored

/-! ## What can be asked afterwards -/

/-- The files and the log do not show in what is answered. -/
theorem alike_of_state_eq {p q : Store × Machine} (hdomain : p.1.domain = q.1.domain)
    (hstate : p.1.state = q.1.state) : Alike p q := by
  intro ops
  have hstep : ∀ op (p q : Store × Machine), p.1.domain = q.1.domain ∧ p.1.state = q.1.state →
      (exec op p).1 = (exec op q).1 ∧ (exec op p).2.1.domain = (exec op q).2.1.domain
        ∧ (exec op p).2.1.state = (exec op q).2.1.state := by
    intro op p q h
    rw [reply_exec, reply_exec, domain_exec, domain_exec, state_exec, state_exec, h.1, h.2]
    exact ⟨rfl, rfl, rfl⟩
  obtain ⟨hanswers, -, hlast⟩ := run_simulation hstep ops ⟨hdomain, hstate⟩
  exact ⟨hanswers, congrArg CaseState.snapshot hlast⟩

/-- After a failure, the store is the one that it was before. -/
theorem Loading.alike {error : StoreError} {s' : Store} {m' m'' : Machine}
    (h : Loading s m path (.error error) s' m') : Alike (s', m'') (s, m) := by
  cases h with
  | unreadable _ => exact alike_of_state_eq rfl rfl
  | undecodable _ _ => exact alike_of_state_eq rfl rfl

/-! ## The file of the case -/

/-- How a store and a machine are left when the state of the case has been loaded. There is nothing
to load, or the chosen file is loaded; where that fails, it is logged. -/
inductive LoadedCase (s : Store) (m : Machine) : Store → Machine → Prop
  | nothing (hsource : s.source m = none) : LoadedCase s m s m
  | whole {path : Path} {s' : Store} {m' : Machine} (hsource : s.source m = some path)
      (hloading : Loading s m path (.ok ()) s' m') : LoadedCase s m s' m'
  | failed {path : Path} {error : StoreError} {s' : Store} {m' : Machine}
      (hsource : s.source m = some path) (hloading : Loading s m path (.error error) s' m') :
      LoadedCase s m s' { m' with events := .loadFailed path error :: m'.events }

theorem loadedCase_load (s : Store) (m : Machine) :
    LoadedCase s m ((s.load : StateM Machine _) m).1 ((s.load : StateM Machine _) m).2 := by
  have hsame := loadSource_apply s.stateFile s.cookie m
  simp only [load, bind_apply, hsame]
  cases hsource : ((loadSource s.stateFile s.cookie : StateM Machine _) m).1 with
  | none => exact .nothing hsource
  | some path =>
    have hloading := loading_loadFrom s m path
    simp only [bind_apply]
    generalize (s.loadFrom path : StateM Machine _) m = left at hloading ⊢
    rcases left with ⟨⟨result, s'⟩, m'⟩
    cases result with
    | ok _ => exact .whole hsource hloading
    | error error => exact .failed hsource hloading

/-- Whatever can be loaded is loaded as a whole, and whatever can not be loaded leaves all answers
as they were. -/
structure AllOrNothing (s : Store) (m : Machine) : Prop where
  loading : ∀ path, Loading s m path ((s.loadFrom path : StateM Machine _) m).1.1
    ((s.loadFrom path : StateM Machine _) m).1.2 ((s.loadFrom path : StateM Machine _) m).2
  accepts : ∀ path, ((s.loadFrom path : StateM Machine _) m).1.1 = .ok ()
    ↔ ∃ stored, m.Holds path stored
  keeps : ∀ path, (¬ ∃ stored, m.Holds path stored) →
    Alike (((s.loadFrom path : StateM Machine _) m).1.2,
      ((s.loadFrom path : StateM Machine _) m).2) (s, m)
  loadedCase : LoadedCase s m ((s.load : StateM Machine _) m).1 ((s.load : StateM Machine _) m).2
  keepsCase : (∀ path, s.source m = some path → ¬ ∃ stored, m.Holds path stored) →
    Alike ((s.load : StateM Machine _) m) (s, m)

/-- Loading is all or nothing, in every state of a store and on every machine. -/
theorem loads_all_or_nothing (s : Store) (m : Machine) : AllOrNothing s m := by
  have haccepts (path : Path) := (loading_loadFrom s m path).eq_ok_iff
  constructor
  case loading => exact loading_loadFrom s m
  case accepts => exact haccepts
  case keeps =>
    intro path hholds
    have hloading := loading_loadFrom s m path
    cases hresult : ((s.loadFrom path : StateM Machine _) m).1.1 with
    | ok _ => exact absurd ((haccepts path).1 hresult) hholds
    | error error =>
      rw [hresult] at hloading
      exact hloading.alike
  case loadedCase => exact loadedCase_load s m
  case keepsCase =>
    intro hholds
    have hload := loadedCase_load s m
    generalize (s.load : StateM Machine _) m = left at hload ⊢
    rcases left with ⟨s', m'⟩
    cases hload with
    | nothing _ => exact alike_of_state_eq rfl rfl
    | whole hsource hloading => exact absurd (hloading.eq_ok_iff.1 rfl) (hholds _ hsource)
    | failed hsource hloading => exact hloading.alike

/-- A file is loaded that gives a wrong count of the checked items and checks one beyond the
universe. What the store knew before is gone. -/
example :
    let machine : Machine := ⟨⟨[([], ⟨none, 0⟩)]⟩, 0, [], ⟨"/"⟩, 1, 0, []⟩
    let opened := (openCase (.dense 3) .default : StateM Machine _) machine
    let s := (opened.1.perform (.state (.createTag "a")) opened.2).1.2
    let other :=
      ((((CaseState.empty 9).createTag "b").2.setChecked 2 true).setChecked 7 true).snapshot
    let bytes := Snapshot.encode { other with checkedCount := 5 }
    let m : Machine := ⟨⟨[([], ⟨none, 0⟩), (["f"], ⟨some bytes, 0⟩)]⟩, 0, [], ⟨"/"⟩, 1, 0, []⟩
    let loaded := ((s.loadFrom ⟨"f"⟩ : StateM Machine _) m).1
    loaded.1 = .ok () ∧ loaded.2.state.registry.idOf? "a" = none
      ∧ loaded.2.state.registry.idOf? "b" = some ⟨0⟩ ∧ loaded.2.state.selection.count = 1 := by
  decide +kernel

end Store

end EvidenceTags
