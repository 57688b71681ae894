import EvidenceTags.Proofs.KeptDirectories
import EvidenceTags.Proofs.SaveAndLoad

/-!
# A case that is opened again

A store chooses twice: where it saves, by what can be written, and where it loads from, by what is
newer. `Store.load_reopened_iff` says that the second choice falls on the file of the first. After a
case has been saved, a store that is opened for it reads the file that was written, wherever that
is, and its snapshot is the saved one if and only if all sets in it are packed by size, so that the
file can be read at all (`SaveAndLoad`).

The file has to be newer than what is at the other place (`Machine.Newest`), and the index must have
the time after which the cookie was named (`Store.IndexKept`). Others may do anything else
meanwhile, except that they take no directory away (`Store.RunFrom`): then the state file is found
again, whether or not it had a canonical path when the first store was opened.
-/

namespace EvidenceTags

namespace Machine

variable {m : Machine} {p q target : Path} {l : Location}

/-! ## Two paths to one place -/

theorem read_congr (h : m.locate p = m.locate q) : m.read p = m.read q := by
  unfold read
  rw [h]

theorem status?_congr (h : m.locate p = m.locate q) : m.status? p = m.status? q := by
  unfold status? entry?
  rw [h]

/-- What can be read is somewhere, and has a time. -/
theorem exists_of_read {bytes : Wire.Bytes} (h : m.read p = .ok bytes) :
    ∃ l status, m.locate p = .ok l ∧ m.status? p = some status := by
  rcases exists_of_bind_eq_ok h with ⟨l, hlocate, h⟩
  cases hentry : m.tree.get? l with
  | none =>
    rw [hentry] at h
    cases h
  | some entry =>
    refine ⟨l, ⟨entry.content.isNone, entry.modified⟩, hlocate, ?_⟩
    simp only [status?, entry?, hlocate, hentry, Option.map_some]

/-- What is at the other path is the same, or older. -/
def Newest (m : Machine) (target other : Path) : Prop :=
  m.locate other = m.locate target ∨ ∀ status written,
    m.status? other = some status → m.status? target = some written →
      status.modified < written.modified

theorem newest_of_older {other : Path} {status written : FileStatus}
    (hother : m.status? other = some status)
    (htarget : m.status? target = some written) (hold : status.modified < written.modified) :
    m.Newest target other := by
  right
  intro status' written' hother' htarget'
  rw [hother] at hother'
  rw [htarget] at htarget'
  cases hother'
  cases htarget'
  exact hold

theorem newest_of_nothing {other : Path} (h : m.status? other = none) : m.Newest target other := by
  right
  intro status written hstatus
  rw [h] at hstatus
  cases hstatus

theorem Newest.locate {other : Path} {status written : FileStatus} (h : m.Newest target other)
    (hl : m.locate target = .ok l) (hother : m.status? other = some status)
    (hwritten : m.status? target = some written) (hlate : written.modified ≤ status.modified) :
    m.locate other = .ok l := by
  rcases h with hsame | holder
  · rw [hsame, hl]
  · exact absurd (holder status written hother hwritten) (Int.not_lt.2 hlate)

/-- The name of a cookie tells no more than the time of the index. -/
theorem cookiePath_congr {m' : Machine} {index : Path}
    (h : (m.status? index).map FileStatus.modified = (m'.status? index).map FileStatus.modified)
    (directory : Path) : ((cookiePath index directory : StateM Machine _) m).1
      = ((cookiePath index directory : StateM Machine _) m').1 := by
  simp only [cookiePath, bind_apply, status_apply, pure_apply]
  cases hthen : m.status? index with
  | none =>
    cases hnow : m'.status? index with
    | none => rfl
    | some status =>
      rw [hthen, hnow] at h
      cases h
  | some status =>
    cases hnow : m'.status? index with
    | none =>
      rw [hthen, hnow] at h
      cases h
    | some status' =>
      rw [hthen, hnow] at h
      have hsame : status.modified = status'.modified := Option.some.inj h
      simp only [hsame]

end Machine

namespace Store

open Machine Wire

/-! ## The choices -/

theorem target_eq (s : Store) (m : Machine) : s.target m = s.stateFile ∨ s.target m = s.cookie := by
  -- whatever has been found out before, in the end one of the two is chosen
  have hchoice (creatable : Bool) (m : Machine) (path : Path)
      (h : ((do
        if (← canWrite s.stateFile) || creatable then pure s.stateFile else pure s.cookie :
          StateM Machine Path) m).1 = path) : path = s.stateFile ∨ path = s.cookie := by
    rw [bind_apply] at h
    split at h
    · exact .inl h.symm
    · exact .inr h.symm
  unfold target saveTarget
  rw [bind_apply]
  cases ((pathExists s.stateFile : StateM Machine _) m).1 with
  | true => exact hchoice false _ _ rfl
  | false =>
    cases s.stateFile.parent? with
    | none => exact hchoice false _ _ rfl
    | some parent => exact hchoice _ _ _ rfl

/-- Of the two files that a case can be loaded from, the newest is chosen. -/
theorem source_of_newest {s : Store} {m : Machine} {target : Path} {l : Location}
    {written : FileStatus} (hl : m.locate target = .ok l)
    (hwritten : m.status? target = some written)
    (hplace : m.locate s.stateFile = .ok l ∨ m.locate s.cookie = .ok l)
    (hstate : m.Newest target s.stateFile) (hcookie : m.Newest target s.cookie) :
    ∃ path, s.source m = some path ∧ m.locate path = .ok l := by
  -- the target has the time of the place that it is at
  have hstatus {p : Path} (h : m.locate p = .ok l) : m.status? p = some written := by
    rw [status?_congr (h.trans hl.symm), hwritten]
  unfold source
  simp only [loadSource, bind_apply, status_apply]
  cases hc : m.status? s.cookie with
  | none =>
    rcases hplace with hplace | hplace
    · rw [hstatus hplace]
      exact ⟨s.stateFile, rfl, hplace⟩
    · rw [hstatus hplace] at hc
      cases hc
  | some c =>
    cases hs : m.status? s.stateFile with
    | none =>
      rcases hplace with hplace | hplace
      · rw [hstatus hplace] at hs
        cases hs
      · exact ⟨s.cookie, rfl, hplace⟩
    | some f =>
      by_cases holder : f.modified < c.modified
      · refine ⟨s.cookie, congrArg some (if_pos holder), ?_⟩
        rcases hplace with hplace | hplace
        · rw [hstatus hplace] at hs
          cases hs
          exact hcookie.locate hl hc hwritten (Int.le_of_lt holder)
        · exact hplace
      · refine ⟨s.stateFile, congrArg some (if_neg holder), ?_⟩
        rcases hplace with hplace | hplace
        · exact hplace
        · rw [hstatus hplace] at hc
          cases hc
          exact hstate.locate hl hs hwritten (Int.not_lt.1 holder)

/-! ## The first store -/

/-- Stores that are reached from one that was opened on a machine, while no directory was taken away
by others. -/
inductive RunFrom (domain : Domain) (settings : Settings) (start : Machine) : Store → Machine → Prop
  | opened :
      RunFrom domain settings start ((openCase domain settings : StateM Machine _) start).1 start
  | performed {s : Store} {m : Machine} (op : StoreOp) (h : RunFrom domain settings start s m) :
      RunFrom domain settings start (s.perform op m).1.2 (s.perform op m).2
  | outside {s : Store} {m : Machine} (m' : Machine) (h : RunFrom domain settings start s m)
      (hkeeps : m.Keeps m') : RunFrom domain settings start s m'

variable {domain : Domain} {settings : Settings} {start : Machine} {s : Store} {m : Machine}

theorem RunFrom.reachable (h : RunFrom domain settings start s m) :
    Reachable (fun _ _ _ => True) s m := by
  induction h with
  | opened =>
    have hopened : Reachable (fun _ _ _ => True) _ _ := .opened domain settings start
    rw [openCase_apply] at hopened ⊢
    exact hopened
  | performed op _ ih => exact .performed op ih trivial
  | outside m' _ _ ih => exact .outside m' ih

/-- The places of a store are those that were found when it was opened. -/
theorem RunFrom.continues (h : RunFrom domain settings start s m) :
    Continues ((openCase domain settings : StateM Machine _) start).1 s := by
  induction h with
  | opened => exact .refl _
  | @performed s m op _ ih => exact ih.trans (continues_perform s m op)
  | outside _ _ _ ih => exact ih

theorem RunFrom.keeps (h : RunFrom domain settings start s m) : start.Keeps m := by
  induction h with
  | opened => exact .refl start
  | @performed s m op _ ih => exact ih.trans (s.leaves_perform op m)
  | outside m' _ hkeeps ih => exact ih.trans hkeeps

theorem RunFrom.lastId (h : RunFrom domain settings start s m) : s.lastId = domain.lastId := by
  rw [Store.lastId, h.continues.domain, openCase_apply]

theorem RunFrom.indexDir (h : RunFrom domain settings start s m) :
    s.indexDir = settings.moduleDir.join "index" := by
  rw [← h.continues.same, openCase_apply]

theorem RunFrom.cookieDir (h : RunFrom domain settings start s m) :
    s.cookieDir = settings.tempDir.getD start.temporaryDir := by
  rw [← h.continues.same, openCase_apply]

theorem RunFrom.stateFile (h : RunFrom domain settings start s m) :
    s.stateFile = (start.canonical? (settings.moduleDir.join "bookmarks.tix")).getD
      (settings.moduleDir.join "bookmarks.tix") := by
  rw [← h.continues.same, openCase_apply]

/-- A case that has been saved, at once or by the worker, before whose write others may have done
what takes no directory away. -/
inductive SavedCase (s : Store) (m : Machine) (sync : Bool) : Machine → Prop
  | atOnce (hsync : (sync || s.syncSave) = true)
      (h : ((s.saveTo (s.target m) true : StateM Machine _) (s.probed m)).1.1 = .ok ()) :
      SavedCase s m sync ((s.save sync : StateM Machine _) m).2
  | inBackground {m' : Machine} {later : Store} (hsync : (sync || s.syncSave) = false)
      (hkeeps : ((s.save sync : StateM Machine _) m).2.Keeps m')
      (hqueue : later.queue = ((s.save sync : StateM Machine _) m).1.queue)
      (h : ((SaveQueue.write ⟨s.state.snapshot, s.target m⟩ : StateM Machine _) m').1 = .ok ()) :
      SavedCase s m sync ((later.flush : StateM Machine _) m').2

theorem SavedCase.saved {sync : Bool} {saved : Machine} (h : SavedCase s m sync saved) :
    Saved s (s.target m) saved := by
  have happly := save_apply s m sync
  cases h with
  | atOnce hsync h =>
    rw [hsync] at happly
    rw [happly.2 h]
    exact .atOnce h
  | inBackground hsync _ hqueue h =>
    rw [hsync] at happly
    rw [happly.1] at hqueue
    exact .inBackground hqueue h

theorem SavedCase.keeps {sync : Bool} {saved : Machine} (h : SavedCase s m sync saved) :
    m.Keeps saved := by
  have hsave := s.leaves_save sync m
  cases h with
  | atOnce => exact hsave
  | @inBackground m' later _ hkeeps _ _ => exact (hsave.trans hkeeps).trans (later.leaves_flush m')

/-! ## The second store -/

/-- The index has the time that it had on a machine where the cookie of the store got its name. -/
def IndexKept (s : Store) (m : Machine) : Prop :=
  ∃ made : Machine, s.cookie = ((cookiePath s.indexDir s.cookieDir : StateM Machine _) made).1
    ∧ (made.status? s.indexDir).map FileStatus.modified
      = (m.status? s.indexDir).map FileStatus.modified

/-- The cookie is called as before. -/
theorem cookie_reopened (h : RunFrom domain settings start s m) {later : Machine}
    (hkeeps : start.Keeps later) (hindex : s.IndexKept later) (again : Domain) :
    ((openCase again settings : StateM Machine _) later).1.cookie = s.cookie := by
  rcases hindex with ⟨made, hnamed, htime⟩
  rw [openCase_apply, hnamed, cookiePath_congr htime, h.indexDir, h.cookieDir,
    ← hkeeps.temporaryDir]

/-- The state file is where it was. -/
theorem stateFile_reopened (h : RunFrom domain settings start s m) {later : Machine}
    (hkeeps : start.Keeps later) (hrooted : later.Rooted) {l : Location}
    (hl : later.locate s.stateFile = .ok l) (again : Domain) :
    later.locate ((openCase again settings : StateM Machine _) later).1.stateFile = .ok l := by
  have hname : IsName "bookmarks.tix" := by
    constructor <;> decide
  rw [h.stateFile] at hl
  rw [openCase_apply]
  exact locate_getD_canonical hkeeps hrooted hname
    (Path.getLast?_segments_join _ hname.noSeparator) hl

/-- A file that holds a snapshot is loaded, if it is chosen. -/
theorem load_of_holds {path : Path} {stored : StoredSnapshot} (hsource : s.source m = some path)
    (hholds : m.Holds path stored) : ((s.load : StateM Machine _) m).1.state
      = .ofSnapshot s.lastId (stored.toCurrent s.lastId) := by
  have hsource : ((loadSource s.stateFile s.cookie : StateM Machine _) m).1 = some path := hsource
  rcases loadFrom_of_holds hholds s with ⟨houtcome, hstate⟩
  simp only [load, bind_apply, loadSource_apply, hsource, houtcome, pure_apply]
  exact hstate

/-- A store that has loaded nothing yet, and whose source is the file of a snapshot, loads that
snapshot if and only if its sets are packed by size. -/
theorem load_encoded_iff {fresh : Store} (hempty : fresh.state = .empty fresh.lastId)
    (hlast : s.lastId = fresh.lastId) (hsound : s.state.Sound s.lastId)
    (hlengths : s.state.snapshot.LengthsFit) {path : Path} (hsource : fresh.source m = some path)
    (hread : m.read path = .ok s.state.snapshot.encode) :
    ((fresh.load : StateM Machine _) m).1.state.snapshot = s.state.snapshot
      ↔ SetsFit s.state.roster.sets := by
  constructor
  · intro hback
    rcases state_load fresh m with hsame |
      ⟨path', stored, hsource', ⟨bytes, hbytes, hdecode⟩, hstate⟩
    · -- nothing was loaded, so the saved state has no sets
      rw [hsame, hempty] at hback
      have hmembers : (∅ : TagMap PackedSet) = s.state.roster.sets :=
        congrArg SavedState.members hback
      rw [← hmembers]
      exact SetsFit.empty
    · rw [hsource] at hsource'
      cases hsource'
      rw [hread] at hbytes
      cases hbytes
      rw [hstate] at hback
      have hmembers :
          (CaseState.ofSnapshot fresh.lastId (stored.toCurrent fresh.lastId)).snapshot.members
          = s.state.snapshot.members := by rw [hback]
      exact Snapshot.setsFit_of_decode hlengths hdecode fresh.lastId hmembers
  · intro hsets
    have hdecode := (Snapshot.decode_encode_iff hlengths).2 hsets
    rw [load_of_holds hsource ⟨_, hread, hdecode⟩, ← hlast]
    exact CaseState.snapshot_ofSnapshot hsound

/-- After a case has been saved, a store that is opened for it chooses the file that was written,
and has the saved snapshot after loading it if and only if all sets in it are packed by size. -/
theorem load_reopened_iff (h : RunFrom domain settings start s m)
    (hlengths : s.state.snapshot.LengthsFit) {sync : Bool} {saved : Machine}
    (hsaved : SavedCase s m sync saved) {later : Machine} (hkeeps : saved.Keeps later)
    (hkept : later.read (s.target m) = saved.read (s.target m)) (hrooted : later.Rooted)
    (hindex : s.IndexKept later) {again : Domain} (hlast : again.lastId = domain.lastId)
    {fresh : Store}
    (hfresh : fresh = ((openCase again settings : StateM Machine _) later).1)
    (hstate : later.Newest (s.target m) fresh.stateFile)
    (hcookie : later.Newest (s.target m) fresh.cookie) :
    (∃ path l, fresh.source later = some path ∧ later.locate path = .ok l
      ∧ later.locate (s.target m) = .ok l)
      ∧ (((fresh.load : StateM Machine _) later).1.state.snapshot = s.state.snapshot
        ↔ SetsFit s.state.roster.sets) := by
  have hread : later.read (s.target m) = .ok s.state.snapshot.encode :=
    hkept.trans (read_of_saved (inFlight_of_reachable h.reachable) hsaved.saved)
  have hstart : start.Keeps later := (h.keeps.trans hsaved.keeps).trans hkeeps
  rcases exists_of_read hread with ⟨l, written, hl, hwritten⟩
  -- the file is at one of the two places that the fresh store looks at
  have hplace : later.locate fresh.stateFile = .ok l ∨ later.locate fresh.cookie = .ok l := by
    rcases s.target_eq m with htarget | htarget
    · left
      rw [htarget] at hl
      rw [hfresh]
      exact stateFile_reopened h hstart hrooted hl again
    · right
      rw [htarget] at hl
      rw [hfresh, cookie_reopened h hstart hindex again]
      exact hl
  rcases source_of_newest hl hwritten hplace hstate hcookie with ⟨path, hsource, hpath⟩
  refine ⟨⟨path, l, hsource, hpath, hl⟩, ?_⟩
  have hempty : fresh.state = .empty fresh.lastId := by
    rw [hfresh, state_openCase, Store.lastId, domain_openCase]
  have hsame : s.lastId = fresh.lastId := by
    rw [h.lastId, hfresh, Store.lastId, domain_openCase, hlast]
  exact load_encoded_iff hempty hsame (sound_of_reachable h.reachable) hlengths hsource
    ((read_congr (hpath.trans hl.symm)).trans hread)

/-- The state file is a directory, so the worker writes the cookie, and the next store loads it. -/
theorem load_reopened_sample :
    let settings : Settings := ⟨⟨"m"⟩, some ⟨"t"⟩, false⟩
    let machine : Machine :=
      ⟨⟨[([], ⟨none, 0⟩), (["m"], ⟨none, 0⟩), (["m", "bookmarks.tix"], ⟨none, 0⟩),
      (["t"], ⟨none, 0⟩)]⟩, 1, [], ⟨"/"⟩, 1, 0, []⟩
    let opened := ((openCase (.dense 3) settings : StateM Machine _) machine).1
    let made := opened.perform (.state (.createTag "a")) machine
    let added := made.1.2.perform (.state (.addMembers [1, 2] ⟨0⟩)) made.2
    let s := added.1.2
    let submitted := (s.save false : StateM Machine _) added.2
    let saved := ((submitted.1.flush : StateM Machine _) submitted.2).2
    let fresh := ((openCase (.dense 3) settings : StateM Machine _) saved).1
    ((fresh.load : StateM Machine _) saved).1.state.snapshot = s.state.snapshot := by
  intro settings machine opened made added s submitted saved fresh
  have hopened : RunFrom (.dense 3) settings machine opened machine := .opened
  have hmade : RunFrom (.dense 3) settings machine made.1.2 made.2 := .performed _ hopened
  have hadded : RunFrom (.dense 3) settings machine s added.2 := .performed _ hmade
  have hregistry : RegistryFits s.state.registry := ⟨by decide, by decide, by decide⟩
  have hlengths : s.state.snapshot.LengthsFit :=
    ⟨by decide, trivial, hregistry, by decide, by decide⟩
  have hwritten : ((SaveQueue.write ⟨s.state.snapshot, s.target added.2⟩ : StateM Machine _)
      submitted.2).1 = .ok () := by
    decide +kernel
  have hsync : (false || s.syncSave) = false := by decide +kernel
  have hsubmitted : (s.save false : StateM Machine _) added.2 = submitted := rfl
  have hkeeps : ((s.save false : StateM Machine _) added.2).2.Keeps submitted.2 := by
    rw [hsubmitted]
    exact .refl submitted.2
  have hqueue : submitted.1.queue = ((s.save false : StateM Machine _) added.2).1.queue := by
    rw [hsubmitted]
  have hsaved : SavedCase s added.2 false saved :=
    @SavedCase.inBackground s added.2 false submitted.2 submitted.1 hsync hkeeps hqueue hwritten
  have hrooted : saved.Rooted := rooted_of_root (by decide +kernel)
  have hindex : s.IndexKept saved := ⟨machine, by decide +kernel, by decide +kernel⟩
  have hold : saved.status? fresh.stateFile = some ⟨true, 0⟩ := by decide +kernel
  have hnew : saved.status? (s.target added.2) = some ⟨false, 1⟩ := by decide +kernel
  have hstate : saved.Newest (s.target added.2) fresh.stateFile :=
    newest_of_older hold hnew (by decide)
  have hcookie : saved.Newest (s.target added.2) fresh.cookie := .inl (by decide +kernel)
  have hsets : SetsFit s.state.roster.sets := by decide +kernel
  have hfresh : fresh = ((openCase (.dense 3) settings : StateM Machine _) saved).1 := rfl
  -- the values have been computed, and the rest does not depend on them
  clear_value fresh saved submitted s added made opened
  exact (load_reopened_iff hadded hlengths hsaved (.refl saved) rfl hrooted hindex rfl hfresh hstate
    hcookie).2.2 hsets

/-- What came out of a file with runs is saved into the state file, and the next store that is
opened for the case chooses that file, but cannot read it. -/
theorem loaded_runs_not_reopened :
    let machine : Machine :=
      ⟨⟨[([], ⟨none, 0⟩), (["s"], ⟨some runFile, 0⟩)]⟩, 1, [], ⟨"/"⟩, 1, 0, []⟩
    let opened := ((openCase (.dense 9000) .default : StateM Machine _) machine).1
    let loaded := opened.perform (.loadFrom ⟨"s"⟩) machine
    let s := loaded.1.2
    let saved := ((s.save true : StateM Machine _) loaded.2).2
    let fresh := ((openCase (.dense 9000) .default : StateM Machine _) saved).1
    RunFrom (.dense 9000) .default machine s loaded.2 ∧ SavedCase s loaded.2 true saved
      ∧ saved.Rooted ∧ s.IndexKept saved ∧ saved.Newest (s.target loaded.2) fresh.stateFile
      ∧ saved.Newest (s.target loaded.2) fresh.cookie
      ∧ ((fresh.load : StateM Machine _) saved).1.state.snapshot ≠ s.state.snapshot := by
  intro machine opened loaded s saved fresh
  have hopened : RunFrom (.dense 9000) .default machine opened machine := .opened
  have hloaded : RunFrom (.dense 9000) .default machine s loaded.2 := .performed _ hopened
  have houtcome : ((s.saveTo (s.target loaded.2) true : StateM Machine _) (s.probed loaded.2)).1.1
      = .ok () := by
    decide +kernel
  have hsaved : SavedCase s loaded.2 true saved := .atOnce rfl houtcome
  have hrooted : saved.Rooted := rooted_of_root (by decide +kernel)
  have hindex : s.IndexKept saved := ⟨machine, by decide +kernel, by decide +kernel⟩
  have hstate : saved.locate fresh.stateFile = saved.locate (s.target loaded.2) := by decide +kernel
  have hcookie : saved.status? fresh.cookie = none := by decide +kernel
  have hsource : fresh.source saved = some fresh.stateFile := by decide +kernel
  have hlast : s.lastId = fresh.lastId := by decide +kernel
  have hempty : fresh.state = .empty fresh.lastId := by decide +kernel
  have hregistry : RegistryFits s.state.registry :=
    ⟨by decide +kernel, by decide +kernel, by decide +kernel⟩
  have hlengths : s.state.snapshot.LengthsFit :=
    ⟨by decide +kernel, trivial, hregistry, by decide +kernel, by decide +kernel⟩
  have hsets : ¬ SetsFit s.state.roster.sets := by decide +kernel
  clear_value fresh saved s loaded opened
  refine ⟨hloaded, hsaved, hrooted, hindex, .inl hstate, newest_of_nothing hcookie, ?_⟩
  have hread := read_of_saved (inFlight_of_reachable hloaded.reachable) hsaved.saved
  rw [← read_congr hstate] at hread
  intro hback
  have hsound := sound_of_reachable hloaded.reachable
  exact hsets ((load_encoded_iff hempty hlast hsound hlengths hsource hread).1 hback)

end Store

end EvidenceTags
