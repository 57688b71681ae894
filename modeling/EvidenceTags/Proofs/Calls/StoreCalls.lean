import EvidenceTags.Proofs.Calls.NeatPrograms
import EvidenceTags.Proofs.Calls.TypedCalls

/-!
# Operations of a store call by call

Every operation of a store is a program that saves at most once, and leaves no file behind that it
has made for itself (`Store.writing_record`). What has been saved, or is handed to the worker, is
the snapshot of the store that the operation returns (`Store.Answered`).
-/

namespace EvidenceTags

open FileTree Machine

variable {process : Nat} {α : Type}

/-! ## Neat programs -/

namespace Program

/-- What is known of all answers is known of the answers of a neat program. -/
theorem Neat.of_quiet {Q : α → Prop} {hand : Hand process} {p : Program α}
    (h : p.Neat (fun _ => True) hand) (hquiet : p.Quiet Q) : p.Neat Q hand := by
  induction h with
  | done _ => exact .done hquiet
  | @look hand request next hlooks _ ih =>
    refine .look hlooks fun answer => ih answer (hquiet.2 answer ?_)
    cases request with
    | scratchMark => cases hlooks
    | _ => trivial
  | mark _ ih => exact .mark fun n => ih n (hquiet.2 _ (isMark_numbers process n))
  | make _ _ ihmade ihrefused =>
    exact .make (ihmade (hquiet.2 _ trivial)) fun error => ihrefused error (hquiet.2 _ trivial)
  | remove _ ih => exact .remove fun answer => ih answer (hquiet.2 _ trivial)

theorem neat_call (request : Request) (h : request.Looks) :
    (call request).Neat (fun _ => True) (.empty : Hand process) :=
  .look h fun _ => .done trivial

/-- The file of a probe is removed as soon as it has been made. -/
theorem neat_canCreateIn (directory : Path) :
    (canCreateIn directory : Program Bool).Neat (fun _ => True) (.empty : Hand process) := by
  unfold canCreateIn
  apply neat_bind (neat_call (.status directory) trivial)
  intro (status : Option FileStatus) _
  rcases status with _ | ⟨isDirectory, modified⟩
  · exact .done trivial
  cases isDirectory with
  | false => exact .done trivial
  | true =>
    refine .mark fun n => ?_
    have hplain : '/' ∉ (markOf process n).toList :=
      (isMark_numbers process n).notMem (by decide) (by decide)
    let file : OwnFile process := ⟨n, directory.join (Path.probeName (markOf process n)),
      Path.probeName (markOf process n),
      Path.getLast?_segments_join _ (Path.notMem_probeName hplain), .inr rfl⟩
    refine @Neat.make process Bool (fun _ => True) file _ ?_ fun _ => .done trivial
    exact @Neat.remove process Bool (fun _ => True) file _ fun _ => .done trivial

theorem inherited_neat :
    Inherited fun {α} (p : Program α) => p.Neat (fun _ => True) (.empty : Hand process) := by
  constructor
  case pure => exact fun _ => .done trivial
  case bind => exact fun hx hf => neat_bind hx fun answer _ => hf answer
  case status => exact fun path => neat_call (.status path) trivial
  case read => exact fun path => neat_call (.read path) trivial
  case canAppend => exact fun path => neat_call (.canAppend path) trivial
  case log => exact fun event => neat_call (.log event) trivial
  case canCreateIn => exact neat_canCreateIn

end Program

/-! ## What operations return -/

namespace Store

/-- The paths that are chosen from when a store saves. -/
structure Aims (s : Store) (T : Path → Prop) : Prop where
  stateFile : T s.stateFile
  cookie : T s.cookie

/-- What an operation returns, after these saves have ended. -/
structure Answered (T : Path → Prop) (ended : List Attempt) (answer : List Attempt × Store) :
    Prop where
  tried : answer.1 = ended
  aims : answer.2.Aims T
  /-- What has been saved or is to be saved is the state that the store has now. -/
  saved : ∀ job ∈ ended.map Attempt.toSaveJob ++ answer.2.queue.pending.toList,
    T job.path ∧ job.snapshot = answer.2.state.snapshot

variable {s s' : Store} {T : Path → Prop} {path : Path} {sync : Bool} {m : Machine}

/-- Another state is taken over, and nothing else changes. -/
def Restated (s s' : Store) : Prop := ∃ state, s' = { s with state }

/-- Nothing has been saved. -/
theorem answered_nothing (haims : s.Aims T) (hqueue : s.queue = .empty) :
    Answered T [] ([], s) := by
  refine ⟨rfl, haims, ?_⟩
  rw [hqueue]
  exact nofun

theorem answered_restated (haims : s.Aims T) (hqueue : s.queue = .empty) (h : s.Restated s') :
    Answered T [] ([], s') := by
  rcases h with ⟨state, rfl⟩
  exact answered_nothing ⟨haims.stateFile, haims.cookie⟩ hqueue

/-- A save at once has ended. -/
theorem answered_saved (haims : s.Aims T) (hqueue : s.queue = .empty) (hpath : T path)
    (result : Except StoreError Unit) :
    Answered T [⟨⟨s.state.snapshot, path⟩, result⟩] ([⟨⟨s.state.snapshot, path⟩, result⟩], s) := by
  refine ⟨rfl, haims, ?_⟩
  rw [hqueue]
  intro job hjob
  rw [List.mem_singleton.1 hjob]
  exact ⟨hpath, rfl⟩

/-- A snapshot is handed to the worker. -/
theorem answered_handed (haims : s.Aims T) (hpath : T path) :
    Answered T [] ([], { s with queue := s.queue.submit ⟨s.state.snapshot, path⟩ }) := by
  refine ⟨rfl, ⟨haims.stateFile, haims.cookie⟩, ?_⟩
  intro job hjob
  rw [List.mem_singleton.1 hjob]
  exact ⟨hpath, rfl⟩

/-! ## Operations that load -/

section

variable (s)

theorem neat_restore (snapshot : Snapshot) :
    (s.restore snapshot : Program Store).Neat s.Restated (.empty : Hand process) := by
  simp only [restore]
  split
  · exact Program.neat_bind (Program.inherited_neat.log _) fun _ _ => .done ⟨_, rfl⟩
  · exact .done ⟨_, rfl⟩

theorem neat_loadFrom (path : Path) :
    (s.loadFrom path : Program _).Neat (fun answer => s.Restated answer.2)
      (.empty : Hand process) := by
  unfold loadFrom
  apply Program.neat_bind (Program.inherited_neat.log _)
  intro _ _
  apply Program.neat_bind (Program.inherited_neat.readSnapshot path)
  intro found _
  cases found with
  | error e => exact .done ⟨s.state, rfl⟩
  | ok stored =>
    apply Program.neat_bind (Program.inherited_neat.currentSnapshot stored s.lastId)
    intro snapshot _
    exact Program.neat_bind (s.neat_restore snapshot) fun _ hrestated => .done hrestated

theorem neat_load : (s.load : Program Store).Neat s.Restated (.empty : Hand process) := by
  unfold load
  apply Program.neat_bind (Program.inherited_neat.loadSource s.stateFile s.cookie)
  intro source _
  cases source with
  | none => exact .done ⟨s.state, rfl⟩
  | some path =>
    apply Program.neat_bind (s.neat_loadFrom path)
    rintro ⟨result, s'⟩ hrestated
    cases result with
    | error e => exact Program.neat_bind (Program.inherited_neat.log _) fun _ _ => .done hrestated
    | ok _ => exact .done hrestated

/-- The cookie is a target on every host. -/
theorem neat_refreshCookie :
    (s.refreshCookie : Program Store).Neat
      (fun s' => ∃ cookie, cookie.IsTarget ∧ s' = { s with cookie }) (.empty : Hand process) := by
  unfold refreshCookie
  have hcookie : (cookiePath s.indexDir s.cookieDir : Program Path).Neat Path.IsTarget
      (.empty : Hand process) :=
    (Program.neat_bind (Program.inherited_neat.status _) fun _ _ => .done trivial).of_quiet
      (quiet_cookiePath s.indexDir s.cookieDir)
  exact Program.neat_bind hcookie fun cookie htarget => .done ⟨cookie, htarget, rfl⟩

end

/-! ## Operations that save -/

theorem Aims.neat_saveTarget (h : s.Aims T) :
    (saveTarget s.stateFile s.cookie : Program Path).Neat T (.empty : Hand process) := by
  apply (Program.inherited_neat.saveTarget s.stateFile s.cookie).of_quiet
  refine (Program.quiet_saveTarget s.stateFile s.cookie).mono ?_
  rintro path (rfl | rfl)
  · exact h.stateFile
  · exact h.cookie

/-- It is logged how a save has ended. -/
theorem neat_tellSaved {ended : List Attempt} {result : Except StoreError Unit} (job : SaveJob)
    (h : Answered T ended ([⟨job, result⟩], s)) :
    (s.tellSaved job result).Neat (Answered T ended) (.empty : Hand process) := by
  unfold tellSaved
  cases result with
  | error e => exact Program.neat_bind (Program.inherited_neat.log _) fun _ _ => .done h
  | ok _ => exact .done h

theorem Aims.writing_recordSave (h : s.Aims T) (hqueue : s.queue = .empty) (sync : Bool)
    (m : Machine) :
    Writing T (Answered T) m (.empty : Hand process) (s.recordSave sync) [] := by
  cases hsync : sync || s.syncSave with
  | true =>
    rw [recordSave_eq hsync]
    apply Writing.before
    apply Program.neat_bind h.neat_saveTarget
    intro path hpath
    apply Program.neat_bind (Program.inherited_neat.log _)
    intro _ _
    exact .done ⟨hpath, fun result => neat_tellSaved _ (answered_saved h hqueue hpath result)⟩
  | false =>
    apply Writing.after
    unfold recordSave
    rw [hsync]
    apply Program.neat_bind h.neat_saveTarget
    intro path hpath
    apply Program.neat_bind (Program.inherited_neat.log _)
    intro _ _
    exact .done (answered_handed h hpath)

theorem Aims.writing_recordSaveTo (h : s.Aims T) (hqueue : s.queue = .empty) (hpath : T path)
    (sync : Bool) (m : Machine) :
    Writing T (Answered T) m (.empty : Hand process) (s.recordSaveTo path sync) [] := by
  cases sync with
  | true =>
    have hprogram : (s.recordSaveTo path true : Program _)
        = (Host.log (.saving true path) >>= fun _ => pure ⟨s.state.snapshot, path⟩) >>= fun job =>
          SaveQueue.write job >>= fun result => pure ([⟨job, result⟩], s) := by
      unfold recordSaveTo saveTo
      rw [Program.bind_assoc, Program.bind_assoc]
      refine bind_congr fun _ => ?_
      show (replaceFile path s.state.snapshot.encode >>= fun result => pure (result, s)) >>= _ = _
      rw [Program.bind_assoc]
      rfl
    rw [hprogram]
    apply Writing.before
    apply Program.neat_bind (Program.inherited_neat.log _)
    intro _ _
    exact .done ⟨hpath, fun result => .done (answered_saved h hqueue hpath result)⟩
  | false =>
    apply Writing.after
    apply Program.neat_bind (Program.inherited_neat.log _)
    intro _ _
    exact .done (answered_handed h hpath)

/-- Any operation saves at most once, and leaves no file behind that it has made for itself. -/
theorem writing_record (h : s.Aims T) (hqueue : s.queue = .empty) {op : StoreOp}
    (hop : ∀ path sync, op = .saveTo path sync → T path)
    (hvisible : ∀ path : Path, path.IsTarget → T path) (m : Machine) :
    Writing T (Answered T) m (.empty : Hand process) (s.record op) [] := by
  have hrestated {p : Program Store} (hp : p.Neat s.Restated (.empty : Hand process)) :
      Writing T (Answered T) m (.empty : Hand process) (Prod.mk [] <$> p) [] :=
    .after (Program.neat_bind hp fun _ hs => .done (answered_restated h hqueue hs))
  cases op with
  | state o =>
    cases o with
    | addTypedWord word =>
      show Writing T _ m _ (s.recordTypedWord word) []
      unfold recordTypedWord
      rcases s.state.addTypedWord word with ⟨isNew, state⟩
      have haims : Aims { s with state } T := ⟨h.stateFile, h.cookie⟩
      cases isNew with
      | true => exact haims.writing_recordSave hqueue false m
      | false => exact .after (.done (answered_nothing haims hqueue))
    | restore snapshot => exact hrestated (s.neat_restore snapshot)
    | _ => exact .after (.done (answered_restated h hqueue ⟨_, rfl⟩))
  | save sync => exact h.writing_recordSave hqueue sync m
  | saveTo path sync => exact h.writing_recordSaveTo hqueue (hop path sync rfl) sync m
  | load => exact hrestated s.neat_load
  | loadFrom path =>
    apply hrestated
    exact Program.neat_bind (s.neat_loadFrom path) fun _ hs => .done hs
  | refreshCookie =>
    apply Writing.after
    apply Program.neat_bind s.neat_refreshCookie
    rintro s' ⟨cookie, htarget, rfl⟩
    exact .done (answered_nothing ⟨h.stateFile, hvisible cookie htarget⟩ hqueue)
  | flush =>
    apply Writing.after
    have hrecord : (s.record .flush : Program _) = .done ([], s) := by
      show (s.recordFlush : Program _) = _
      unfold recordFlush
      rw [hqueue]
      rfl
    rw [hrecord]
    exact .done (answered_nothing h hqueue)

/-- So does the worker when it writes a job. -/
theorem writing_recordWrite {job : SaveJob} (h : T job.path) (m : Machine) :
    Writing T (fun saves result => saves = [⟨job, result⟩]) m (.empty : Hand process)
      (recordWrite job) [] := by
  apply Writing.before (x := pure job)
  refine .done ⟨h, ?_⟩
  intro result
  cases result with
  | error e => exact Program.neat_bind (Program.inherited_neat.log _) fun _ _ => .done rfl
  | ok _ => exact .done rfl

end Store

end EvidenceTags
