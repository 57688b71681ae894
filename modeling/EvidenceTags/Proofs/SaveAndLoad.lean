import EvidenceTags.Proofs.FileContent
import EvidenceTags.Proofs.PackedBySize
import EvidenceTags.Proofs.SoundState

/-!
# What is loaded is what was saved

A store that loads a file into which a store has saved gets the snapshot of that store, with the
flags fitted to its own universe (`Snapshot.FittedTo`), if and only if all sets of the saved
snapshot are packed by size (`Store.loads_saved_iff`). They are as long as no set that is packed
otherwise comes into the store from outside (`Store.loads_saved_of_packed`). A set that came out of
a file with runs need not be packed so, and what is then saved cannot be loaded
(`Store.loaded_runs_not_loaded_again`).

* `Store.read_of_saved`: after a save the file holds the snapshot of the moment of the call, be it
  written at once or in the background.
* `Store.loadFrom_of_holds`: loading replaces the state by what the file holds.
-/

namespace EvidenceTags

/-! ## Fitting flags to a universe -/

/-- `loaded` is `saved` with the flags cut or extended by unset ones to those of a universe that
ends with `last`, and counted. -/
structure Snapshot.FittedTo (last : ItemId) (saved loaded : Snapshot) : Prop where
  checked : loaded.checked.toList = saved.checked.toList.take (last.toNat + 1)
    ++ List.replicate (last.toNat + 1 - saved.checked.toList.length) false
  checkedCount : loaded.checkedCount.toNat = loaded.checked.toList.count true
  members : loaded.members = saved.members
  registry : loaded.registry = saved.registry
  typedWords : loaded.typedWords = saved.typedWords

namespace CaseState

/-- A state that was made out of a snapshot has the flags that fit, and all else of the snapshot. -/
theorem fittedTo_ofSnapshot (last : ItemId) (s : Snapshot) :
    s.FittedTo last (ofSnapshot last s).snapshot where
  checked := Flags.toList_resize s.checked (last.toNat + 1)
  checkedCount := by
    have hle : (s.checked.resize (last.toNat + 1)).count ≤ last.toNat + 1 := Flags.count_le_size _
    have hlimit : last.toNat + 1 ≤ 2 ^ 32 := last.toNat_lt
    show (UInt64.ofNat (s.checked.resize (last.toNat + 1)).count).toNat
      = (s.checked.resize (last.toNat + 1)).toList.count true
    rw [UInt64.toNat_ofNat_of_lt' (by simp only [UInt64.size]; omega), Flags.count_eq_count_toList]
  members := rfl
  registry := rfl
  typedWords := rfl

/-- In the universe that a sound state is for, its snapshot is that of the state made out of it. -/
theorem snapshot_ofSnapshot {s : CaseState} {last : ItemId} (h : s.Sound last) :
    (ofSnapshot last s.snapshot).snapshot = s.snapshot := by
  have hsize : s.selection.flags.size = last.toNat + 1 := h.selection.size
  have hflags : s.selection.flags.resize (last.toNat + 1) = s.selection.flags := by
    rw [← hsize, Flags.resize_self]
  show SavedState.mk (s.selection.flags.resize (last.toNat + 1)) _ _ _
    (UInt64.ofNat (s.selection.flags.resize (last.toNat + 1)).count) = _
  rw [hflags, ← h.selection.count]
  rfl

end CaseState

namespace Store

open Machine Wire SetLayout

/-! ## Saving -/

/-- Machines on which a store has saved into a file: at once, or by handing its snapshot to the
worker, which has written it before `flush` returned. Until then anything may happen to the machine,
and to the store all that submits no other job. -/
inductive Saved (s : Store) (path : Path) : Machine → Prop
  | atOnce {m : Machine} (h : ((s.saveTo path true : StateM Machine _) m).1.1 = .ok ()) :
      Saved s path ((s.saveTo path true : StateM Machine _) m).2
  | inBackground {m m' : Machine} {later : Store}
      (hqueue : later.queue = ((s.saveTo path false : StateM Machine _) m).1.2.queue)
      (h : ((SaveQueue.write ⟨s.state.snapshot, path⟩ : StateM Machine _) m').1 = .ok ()) :
      Saved s path ((later.flush : StateM Machine _) m').2

/-- A worker that has nothing in hand writes the job that was submitted last. -/
theorem flush_submit {q : SaveQueue} (h : q.inFlight = false) (job : SaveJob) {m : Machine}
    (hwrite : ((SaveQueue.write job : StateM Machine _) m).1 = .ok ()) :
    (((q.submit job).flush : StateM Machine _) m).2
      = ((SaveQueue.write job : StateM Machine _) m).2 := by
  have htake : (q.submit job).take?
      = some (job, { q.submit job with pending := none, inFlight := true }) := by
    rw [SaveQueue.take?, SaveQueue.submit, if_neg (by rw [h]; exact Bool.false_ne_true)]
    rfl
  rcases hwritten : (SaveQueue.write job : StateM Machine _) m with ⟨result, written⟩
  rw [hwritten] at hwrite
  have hok : result = .ok () := hwrite
  subst hok
  simp only [SaveQueue.flush, htake, bind_apply, hwritten, pure_apply]

/-- A save that is made at once replaces the file, after a line in the log. -/
theorem saveTo_true (s : Store) (path : Path) (m : Machine) :
    (s.saveTo path true : StateM Machine _) m
      = ((((replaceFile path s.state.snapshot.encode : StateM Machine _)
          { m with events := .saving true path :: m.events }).1, s),
        ((replaceFile path s.state.snapshot.encode : StateM Machine _)
          { m with events := .saving true path :: m.events }).2) := by
  simp only [saveTo, bind_apply, log_apply, if_true, pure_apply]

/-- After a save the file holds the snapshot of the moment of the call. -/
theorem read_of_saved {s : Store} (hidle : s.queue.inFlight = false) {path : Path} {m : Machine}
    (h : Saved s path m) : m.read path = .ok s.state.snapshot.encode := by
  cases h with
  | @atOnce m h =>
    rw [saveTo_true] at h ⊢
    exact read_of_replaceFile h
  | @inBackground m m' later hqueue h =>
    have hflush : ((later.flush : StateM Machine _) m').2
        = ((SaveQueue.write ⟨s.state.snapshot, path⟩ : StateM Machine _) m').2 := by
      show ((later.queue.flush : StateM Machine _) m').2 = _
      rw [hqueue]
      exact flush_submit hidle _ h
    rw [hflush]
    exact read_of_replaceFile h

/-! ## Loading -/

/-- A file that holds a snapshot is loaded. -/
theorem loadFrom_of_holds {m : Machine} {path : Path} {stored : StoredSnapshot}
    (h : m.Holds path stored) (s : Store) :
    ((s.loadFrom path : StateM Machine _) m).1.1 = .ok ()
      ∧ ((s.loadFrom path : StateM Machine _) m).1.2.state
        = .ofSnapshot s.lastId (stored.toCurrent s.lastId) := by
  obtain ⟨bytes, hread, hdecode⟩ := h
  have hlogged :
      (readSnapshot path : StateM Machine _) { m with events := .loading path :: m.events }
      = (.ok stored, { m with events := .loading path :: m.events }) := by
    -- the line in the log is no part of what the path leads to
    have hread' : Machine.read { m with events := .loading path :: m.events } path = .ok bytes :=
      hread
    simp only [readSnapshot, bind_apply, read_apply, hread', pure_apply, hdecode]
  simp only [loadFrom, bind_apply, log_apply, hlogged, pure_apply, state_restore,
    currentSnapshot_apply, and_self]

/-- Only a file that holds a snapshot is loaded. -/
theorem holds_of_loadFrom {m : Machine} {path : Path} {s : Store}
    (h : ((s.loadFrom path : StateM Machine _) m).1.1 = .ok ()) :
    ∃ stored, m.Holds path stored := by
  simp only [loadFrom, bind_apply, log_apply] at h
  rcases readSnapshot_cases { m with events := .loading path :: m.events } path with
    ⟨e, hread⟩ | ⟨stored, hholds, -⟩
  · rw [hread] at h
    cases h
  · exact ⟨stored, hholds⟩

/-! ## Saving and loading -/

/-- What is loaded from a file into which a store has saved: it is the snapshot of that store,
fitted to the universe of the one that loads. In a universe of the same size it is the same
snapshot. -/
structure LoadsBack (s t : Store) (path : Path) (m : Machine) : Prop where
  outcome : ((t.loadFrom path : StateM Machine _) m).1.1 = .ok ()
  fitted : s.state.snapshot.FittedTo t.lastId
    ((t.loadFrom path : StateM Machine _) m).1.2.state.snapshot
  same : s.lastId = t.lastId →
    ((t.loadFrom path : StateM Machine _) m).1.2.state.snapshot = s.state.snapshot

/-- The file of a snapshot is loaded as this snapshot if its sets are packed by size, and not if
some set is packed otherwise. -/
theorem loadsBack_iff {s : Store} (hsound : s.state.Sound s.lastId)
    (hlengths : s.state.snapshot.LengthsFit) {path : Path} {m : Machine}
    (hread : m.read path = .ok s.state.snapshot.encode) (t : Store) :
    LoadsBack s t path m ↔ SetsFit s.state.roster.sets := by
  constructor
  · intro h
    obtain ⟨stored, bytes, hbytes, hdecode⟩ := holds_of_loadFrom h.outcome
    have hstate := (loadFrom_of_holds ⟨bytes, hbytes, hdecode⟩ t).2
    rw [hread] at hbytes
    cases hbytes
    have hmembers := h.fitted.members
    rw [hstate] at hmembers
    exact Snapshot.setsFit_of_decode hlengths hdecode t.lastId hmembers
  · intro hsets
    have hdecode := (Snapshot.decode_encode_iff hlengths).2 hsets
    obtain ⟨houtcome, hstate⟩ := loadFrom_of_holds ⟨_, hread, hdecode⟩ t
    constructor
    · exact houtcome
    · rw [hstate]
      exact CaseState.fittedTo_ofSnapshot t.lastId s.state.snapshot
    · intro hlast
      rw [hstate, ← hlast]
      exact CaseState.snapshot_ofSnapshot hsound

/-- A store that has got no sets that are packed otherwise than by size is loaded back. -/
theorem loads_saved_of_packed {s : Store} {m : Machine}
    (h : Reachable (SourcesHave fun snapshot => SetsFit snapshot.members) s m)
    (hlengths : s.state.snapshot.LengthsFit) {path : Path} {saved : Machine}
    (hsaved : Saved s path saved) (t : Store) : LoadsBack s t path saved := by
  have hread := read_of_saved (inFlight_of_reachable h) hsaved
  exact (loadsBack_iff (sound_of_reachable h) hlengths hread t).2 (packed_of_reachable h)

/-- Whatever has happened to a store, if it has saved into a file and the file has not been changed
since, any store loads the snapshot back if and only if all sets in it are packed by size. -/
theorem loads_saved_iff {anything : Store → Machine → StoreOp → Prop} {s : Store} {m : Machine}
    (h : Reachable anything s m) (hlengths : s.state.snapshot.LengthsFit) {path : Path}
    {saved : Machine} (hsaved : Saved s path saved) {later : Machine}
    (hkept : later.read path = saved.read path) (t : Store) :
    LoadsBack s t path later ↔ SetsFit s.state.roster.sets := by
  have hread : later.read path = .ok s.state.snapshot.encode :=
    hkept.trans (read_of_saved (inFlight_of_reachable h) hsaved)
  exact loadsBack_iff (sound_of_reachable h) hlengths hread t

/-- Two items of four carry a tag, and are loaded into a universe of two. -/
theorem loads_saved_iff_sample :
    let machine : Machine := ⟨⟨[([], ⟨none, 0⟩)]⟩, 0, [], ⟨"/"⟩, 1, 0, []⟩
    let opened := (openCase (.dense 3) .default : StateM Machine _) machine
    let made := opened.1.perform (.state (.createTag "a")) opened.2
    let added := made.1.2.perform (.state (.addMembers [1, 2] ⟨0⟩)) made.2
    let s := added.1.2
    let saved := ((s.saveTo ⟨"o"⟩ true : StateM Machine _) added.2).2
    let other := ((openCase (.dense 1) .default : StateM Machine _) machine).1
    LoadsBack s other ⟨"o"⟩ saved := by
  intro machine opened made added s saved other
  have hopened : Reachable (fun _ _ _ => True) opened.1 opened.2 :=
    .opened (.dense 3) .default machine
  have hmade : Reachable (fun _ _ _ => True) made.1.2 made.2 := .performed _ hopened trivial
  have hadded : Reachable (fun _ _ _ => True) s added.2 := .performed _ hmade trivial
  have hregistry : RegistryFits s.state.registry := ⟨by decide, by decide, by decide⟩
  have hlengths : s.state.snapshot.LengthsFit :=
    ⟨by decide, trivial, hregistry, by decide, by decide⟩
  have houtcome : ((s.saveTo ⟨"o"⟩ true : StateM Machine _) added.2).1.1 = .ok () := by
    decide +kernel
  have hsaved : Saved s ⟨"o"⟩ saved := @Saved.atOnce s ⟨"o"⟩ added.2 houtcome
  have hsets : SetsFit s.state.roster.sets := by decide
  -- the values have been computed, and the rest does not depend on them
  clear_value other saved s
  exact (loads_saved_iff hadded hlengths hsaved rfl other).2 hsets

/-- The layout of a set that is one run: its first item, `0`, and the number of further ones,
`4096`. -/
def runLayout : Bytes :=
  number 4 runMark ++ [1] ++ number 2 0 ++ number 2 0 ++ number 2 1 ++ number 2 0 ++ number 2 4096

/-- A snapshot file with one tag, `t0`, whose set is that run. -/
def runFile : Bytes :=
  snapshotMagic ++ number 2 2
    ++ savedState (fun layout => tagMap block (TagMap.ofList [(⟨0⟩, layout)]))
    ⟨.unset 0, runLayout, { Registry.empty with names := TagMap.ofList [(⟨0⟩, "t0")] }, [], 0⟩

/-- The run has one item more than a block may list, but it is kept as a list. After it has been
saved, it cannot be loaded back. -/
theorem loaded_runs_not_loaded_again :
    let machine : Machine :=
      ⟨⟨[([], ⟨none, 0⟩), (["s"], ⟨some runFile, 0⟩)]⟩, 0, [], ⟨"/"⟩, 1, 0, []⟩
    let opened := (openCase (.dense 9000) .default : StateM Machine _) machine
    let loaded := opened.1.perform (.loadFrom ⟨"s"⟩) opened.2
    let s := loaded.1.2
    let saved := ((s.saveTo ⟨"o"⟩ true : StateM Machine _) loaded.2).2
    Reachable (fun _ _ _ => True) s loaded.2 ∧ Saved s ⟨"o"⟩ saved
      ∧ ∀ t, ¬ LoadsBack s t ⟨"o"⟩ saved := by
  intro machine opened loaded s saved
  have hopened : Reachable (fun _ _ _ => True) opened.1 opened.2 :=
    .opened (.dense 9000) .default machine
  have hloaded : Reachable (fun _ _ _ => True) s loaded.2 := .performed _ hopened trivial
  have hregistry : RegistryFits s.state.registry :=
    ⟨by decide +kernel, by decide +kernel, by decide +kernel⟩
  have hlengths : s.state.snapshot.LengthsFit :=
    ⟨by decide +kernel, trivial, hregistry, by decide +kernel, by decide +kernel⟩
  have houtcome : ((s.saveTo ⟨"o"⟩ true : StateM Machine _) loaded.2).1.1 = .ok () := by
    decide +kernel
  have hsaved : Saved s ⟨"o"⟩ saved := @Saved.atOnce s ⟨"o"⟩ loaded.2 houtcome
  have hread := read_of_saved (inFlight_of_reachable hloaded) hsaved
  have hsets : ¬ SetsFit s.state.roster.sets := by decide +kernel
  clear_value saved s
  refine ⟨hloaded, hsaved, ?_⟩
  intro t hback
  exact hsets ((loadsBack_iff (sound_of_reachable hloaded) hlengths hread t).1 hback)

end Store

end EvidenceTags
