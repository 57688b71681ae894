import EvidenceTags.Proofs.SavingPrograms

/-!
# Saving touches only its targets

Whatever goes wrong on a machine, as long as files can be removed, a run of a store changes the tree
only where a save has succeeded, and there the file holds a whole snapshot that the store had during
the run (`Store.onlySaves_of_session`).

A `Store.Session` is such a run, with the saves that it has tried and the states that the store has
gone through. Its worker takes a job that waits and writes it between any two operations, however
much later. (In `OpenCase.Served` the single calls of a host that both make are interleaved.) What
operations and the worker leave of the tree is known (`TroubledMachine.saves_record`). It remains to
follow the snapshots: what is saved has waited before, or is the snapshot of the store at the time
(`Store.origins_record`).
-/

namespace EvidenceTags

namespace Store

open FileTree TroubledMachine

/-! ## Where what is saved comes from -/

/-- What is saved, or waits to be saved, after an operation has waited before, or is the snapshot of
the store before or after the operation. -/
def Origin (s s' : Store) (job : SaveJob) : Prop :=
  s.queue.pending = some job ∨ job.snapshot = s.state.snapshot ∨ job.snapshot = s'.state.snapshot

/-- The saves that an operation has tried, and the one that waits then, have an origin. -/
structure Origins (s : Store) (answer : List Attempt × Store) : Prop where
  tried : ∀ a ∈ answer.1, s.Origin answer.2 a.toSaveJob
  waiting : ∀ job, answer.2.queue.pending = some job → s.Origin answer.2 job

/-- Nothing has been tried, and nothing new waits. -/
theorem origins_of_queue_eq {s s' : Store} (h : s'.queue = s.queue) : s.Origins ([], s') := by
  constructor
  · nofun
  · intro job hjob
    left
    rw [← h]
    exact hjob

/-- What is saved after a change of the state is the new one. -/
theorem Origins.of_state {s : Store} {state : CaseState} {answer : List Attempt × Store}
    (h : Origins { s with state } answer) (hstate : answer.2.state = state) : s.Origins answer := by
  have horigin {job : SaveJob} (h : Origin { s with state } answer.2 job) :
      s.Origin answer.2 job := by
    rcases h with h | h | h
    · exact .inl h
    · right
      right
      rw [h, hstate]
    · exact .inr (.inr h)
  exact ⟨fun a ha => horigin (h.tried a ha), fun job hjob => horigin (h.waiting job hjob)⟩

variable (s : Store) (t : TroubledMachine)

theorem queue_restore (snapshot : Snapshot) :
    ((s.restore snapshot : StateM TroubledMachine _) t).1.queue = s.queue := by
  simp only [restore]
  split <;> rfl

theorem queue_loadFrom (path : Path) :
    ((s.loadFrom path : StateM TroubledMachine _) t).1.2.queue = s.queue := by
  simp only [loadFrom, bind_troubled]
  rcases (readSnapshot path : StateM TroubledMachine _) _ with ⟨found, t'⟩
  cases found with
  | error e => rfl
  | ok stored => exact queue_restore s _ _

theorem queue_load : ((s.load : StateM TroubledMachine _) t).1.queue = s.queue := by
  simp only [load, bind_troubled]
  rcases (loadSource s.stateFile s.cookie : StateM TroubledMachine _) t with ⟨source, t'⟩
  cases source with
  | none => rfl
  | some path =>
    rw [← queue_loadFrom s t' path]
    simp only [bind_troubled]
    rcases (s.loadFrom path : StateM TroubledMachine _) t' with ⟨⟨result, s'⟩, t''⟩
    cases result <;> rfl

/-- What is saved into a file, or handed to the worker, is the snapshot of the store. -/
theorem origins_saveTo (path : Path) (sync : Bool) :
    let answer := ((s.saveTo path sync : StateM TroubledMachine _) t).1
    s.Origins (s.tried path sync answer.1, answer.2) ∧ answer.2.state = s.state := by
  cases sync with
  | true =>
    refine ⟨⟨?_, fun job hjob => .inl hjob⟩, rfl⟩
    intro a ha
    rw [List.mem_singleton.1 ha]
    exact .inr (.inl rfl)
  | false =>
    refine ⟨⟨nofun, ?_⟩, rfl⟩
    intro job hjob
    cases hjob
    exact .inr (.inl rfl)

theorem origins_recordSave (sync : Bool) :
    s.Origins ((s.recordSave sync : StateM TroubledMachine _) t).1
      ∧ ((s.recordSave sync : StateM TroubledMachine _) t).1.2.state = s.state := by
  simp only [recordSave, bind_troubled]
  generalize (saveTarget s.stateFile s.cookie : StateM TroubledMachine _) t = chosen
  have horigins := origins_saveTo s chosen.2 chosen.1 (sync || s.syncSave)
  revert horigins
  rcases (s.saveTo chosen.1 (sync || s.syncSave) : StateM TroubledMachine _) chosen.2
    with ⟨⟨result, s'⟩, t'⟩
  cases result <;> exact id

theorem origins_record (op : StoreOp) :
    s.Origins ((s.record op : StateM TroubledMachine _) t).1 := by
  cases op with
  | state o =>
    cases o with
    | addTypedWord word =>
      simp only [record, recordTypedWord]
      rcases s.state.addTypedWord word with ⟨isNew, state⟩
      cases isNew with
      | false => exact origins_of_queue_eq rfl
      | true =>
        simp only [if_true]
        rcases origins_recordSave { s with state } t false with ⟨horigins, hstate⟩
        exact horigins.of_state hstate
    | restore snapshot => exact origins_of_queue_eq (queue_restore s t snapshot)
    | _ => exact origins_of_queue_eq rfl
  | save sync => exact (origins_recordSave s t sync).1
  | saveTo path sync => exact (origins_saveTo s t path sync).1
  | load => exact origins_of_queue_eq (queue_load s t)
  | loadFrom path => exact origins_of_queue_eq (queue_loadFrom s t path)
  | refreshCookie => exact origins_of_queue_eq rfl
  | flush =>
    simp only [record, recordFlush]
    cases htake : s.queue.take? with
    | none => exact origins_of_queue_eq rfl
    | some taken =>
      rcases taken with ⟨job, queue⟩
      rcases SaveQueue.take?_eq_some htake with ⟨-, hpending, rfl⟩
      simp only [bind_troubled, pure_troubled]
      generalize (recordWrite job : StateM TroubledMachine _) t = written
      constructor
      · intro a ha
        rw [List.mem_singleton.1 ha]
        exact .inl hpending
      · intro waiting hwaiting
        cases hwaiting

/-! ## Sessions -/

/-- A store at work: what its worker is writing, the machine, the saves that have been tried, and
the states that the store has had, the latest first. -/
structure Working where
  store : Store
  writing : Option SaveJob
  host : TroubledMachine
  attempts : List Attempt
  past : List CaseState

/-- Carries out an operation. -/
def Working.perform (w : Working) (op : StoreOp) : Working :=
  let answer := (w.store.record op : StateM TroubledMachine _) w.host
  { w with
    store := answer.1.2
    host := answer.2
    attempts := w.attempts ++ answer.1.1
    past := answer.1.2.state :: w.past }

/-- The worker writes the job that it has taken. -/
def Working.write (w : Working) (job : SaveJob) : Working :=
  let answer := (recordWrite job : StateM TroubledMachine _) w.host
  { w with
    store := { w.store with queue := w.store.queue.finish }
    writing := none
    host := answer.2
    attempts := w.attempts ++ [⟨job, answer.1⟩] }

/-- Runs of operations on a store and of its worker. When a session starts nothing is left to be
saved. Between two operations the worker may take the job that waits, or write the one that it has
taken, and a call of `flush` does not return before that. -/
inductive Session (start : TroubledMachine) : Working → Prop
  | begun (s : Store) (h : s.queue.isIdle = true) : Session start ⟨s, none, start, [], [s.state]⟩
  | performed {w : Working} (op : StoreOp) (h : Session start w) (hflush : op = .flush →
      w.writing = none) :
      Session start (w.perform op)
  | taken {w : Working} {job : SaveJob} {queue : SaveQueue} (h : Session start w)
      (htake : w.store.queue.take? = some (job, queue)) :
      Session start { w with store := { w.store with queue }, writing := some job }
  | written {w : Working} {job : SaveJob} (h : Session start w) (hjob : w.writing = some job) :
      Session start (w.write job)

/-- The snapshot of a job is that of one of these states. -/
def FromPast (past : List CaseState) (job : SaveJob) : Prop :=
  ∃ state ∈ past, job.snapshot = state.snapshot

/-- A tree differs from what it was only by what was saved of these states. -/
structure OnlySaves (start m : Machine) (attempts : List Attempt) (past : List CaseState) :
    Prop where
  /-- Where something has changed, a save has succeeded, and its snapshot is there. -/
  changed : ∀ l, m.tree.content? l ≠ start.tree.content? l →
    ∃ a ∈ attempts, a.HoldsAt m l ∧ FromPast past a.toSaveJob
  /-- Where a save has succeeded, the snapshot of some save is there, unless the file is called like
  a scratch file. -/
  saved : ∀ a ∈ attempts, a.result = .ok () →
    (∀ name, a.path.fileName? = some name → ¬ start.OwnName name) →
    ∃ l, m.locate a.path = .ok l ∧ ∃ b ∈ attempts, b.HoldsAt m l ∧ FromPast past b.toSaveJob
  /-- What is called like a scratch file has been saved under this name. -/
  scratch : ∀ l, start.OwnScratch l → m.tree.content? l ≠ none → ∃ a ∈ attempts, a.HoldsAt m l
  /-- If no save has succeeded, nothing has changed. -/
  unchanged : (∀ a ∈ attempts, a.result ≠ .ok ()) → ∀ l, m.tree.content? l = start.tree.content? l

/-- Whatever has been saved, waits to be saved or is being written is the snapshot of a state that
the store has had. -/
structure Working.Traced (w : Working) : Prop where
  state : w.store.state ∈ w.past
  tried : ∀ a ∈ w.attempts, FromPast w.past a.toSaveJob
  waiting : ∀ job, w.store.queue.pending = some job → FromPast w.past job
  writing : ∀ job, w.writing = some job → FromPast w.past job

section

variable {start : TroubledMachine} {w : Working}

theorem FromPast.cons {past : List CaseState} {job : SaveJob} (h : FromPast past job)
    (state : CaseState) :
    FromPast (state :: past) job := by
  rcases h with ⟨old, hmem, heq⟩
  exact ⟨old, List.mem_cons_of_mem _ hmem, heq⟩

theorem Working.Traced.perform (h : w.Traced) (op : StoreOp) : (w.perform op).Traced := by
  have horigins := origins_record w.store w.host op
  have hfrom {job : SaveJob} (horigin : w.store.Origin (w.perform op).store job) :
      FromPast (w.perform op).past job := by
    rcases horigin with hwaiting | hbefore | hafter
    · exact (h.waiting job hwaiting).cons _
    · exact ⟨w.store.state, List.mem_cons_of_mem _ h.state, hbefore⟩
    · exact ⟨(w.perform op).store.state, List.mem_cons_self, hafter⟩
  constructor
  case state => exact List.mem_cons_self
  case tried =>
    intro a ha
    rcases List.mem_append.1 ha with ha | ha
    · exact (h.tried a ha).cons _
    · exact hfrom (horigins.tried a ha)
  case waiting =>
    intro job hjob
    exact hfrom (horigins.waiting job hjob)
  case writing =>
    intro job hjob
    exact (h.writing job hjob).cons _

theorem traced_of_session (h : Session start w) : w.Traced := by
  induction h with
  | begun s hidle =>
    constructor
    case state => exact List.mem_singleton_self _
    case tried => nofun
    case waiting =>
      intro job hjob
      rw [SaveQueue.isIdle, hjob] at hidle
      cases hidle
    case writing => nofun
  | performed op _ _ ih => exact ih.perform op
  | @taken w job queue _ htake ih =>
    rcases SaveQueue.take?_eq_some htake with ⟨-, hpending, rfl⟩
    refine ⟨ih.state, ih.tried, nofun, ?_⟩
    intro other hother
    cases hother
    exact ih.waiting job hpending
  | @written w job _ hjob ih =>
    refine ⟨ih.state, ?_, ih.waiting, nofun⟩
    intro a ha
    rcases List.mem_append.1 ha with ha | ha
    · exact ih.tried a ha
    · rw [List.mem_singleton.1 ha]
      exact ih.writing job hjob

theorem leaves_of_session (h : Session start w) (hremoves : start.Removes) :
    start.Leaves w.attempts w.host := by
  induction h with
  | begun s _ => exact leaves_of_becomes ⟨.refl start, rfl⟩
  | @performed w op _ _ ih =>
    have hoperation := saves_record w.store op w.host (ih.follows.removes hremoves)
    exact ih.trans hoperation
  | taken _ _ ih => exact ih
  | @written w job _ _ ih =>
    have hwrite := saves_recordWrite job w.host (ih.follows.removes hremoves)
    simp only [Working.write]
    exact ih.trans hwrite

/-- Whatever goes wrong in a session, as long as files can be removed: if nothing was called like a
scratch file when it started, only saves have changed the tree. -/
theorem onlySaves_of_session (h : Session start w) (hremoves : start.Removes)
    (hfree : ∀ l, start.machine.OwnScratch l → start.machine.tree.content? l = none) :
    OnlySaves start.machine w.host.machine w.attempts w.past := by
  have hleaves := leaves_of_session h hremoves
  have hpast := (traced_of_session h).tried
  have hchanged (l : Location)
      (hl : w.host.machine.tree.content? l ≠ start.machine.tree.content? l) :
      ∃ a ∈ w.attempts, a.HoldsAt w.host.machine l := by
    rcases hleaves.places l with hsame | ⟨hscratch, hnone⟩ | hholds
    · exact absurd hsame hl
    · -- nothing was there in the first place
      rw [hnone, hfree l hscratch] at hl
      exact absurd rfl hl
    · exact hholds
  constructor
  case changed =>
    intro l hl
    rcases hchanged l hl with ⟨a, ha, hholds⟩
    exact ⟨a, ha, hholds, hpast a ha⟩
  case saved =>
    intro a ha hresult hown
    rcases hleaves.targets a ha hresult with ⟨name, hname, hkept⟩
    rcases hkept (hown name hname) with ⟨l, hlocate, b, hb, hholds⟩
    exact ⟨l, hlocate, b, hb, hholds, hpast b hb⟩
  case scratch =>
    intro l hscratch hl
    apply hchanged l
    rw [hfree l hscratch]
    exact hl
  case unchanged =>
    intro hfailed l
    by_contra hl
    rcases hchanged l hl with ⟨a, ha, hholds⟩
    exact hfailed a ha hholds.succeeded

/-- A new case is saved, cannot be saved into a directory that is not there, and cannot be saved in
the background either as long as the disk is full. -/
theorem onlySaves_of_session_sample :
    let machine : Machine := ⟨⟨[([], ⟨none, 0⟩), (["m"], ⟨none, 0⟩)]⟩, 0, [], ⟨"/"⟩, 1, 0, []⟩
    let full : HostCall → Nat → Option Trouble := fun call n =>
      if call = .append ∧ n = 15 then
        some ⟨.other "No space left on device (os error 28)", 3⟩
      else none
    ∃ w, Session ⟨machine, 0, full⟩ w
      ∧ w.attempts.map (fun a => (a.path.text, a.result.isOk))
        = [("m/bookmarks.tix", true), ("a/x", false), ("m/bookmarks.tix", false)]
      ∧ OnlySaves machine w.host.machine w.attempts w.past := by
  intro machine full
  let store : Store := ⟨.empty ⟨9⟩, .dense ⟨9⟩, false, ⟨"m/index"⟩, ⟨"m/bookmarks.tix"⟩, ⟨"t"⟩,
    ⟨"t/indexer0.tix"⟩, .empty⟩
  have hbegun : Session ⟨machine, 0, full⟩ ⟨store, none, ⟨machine, 0, full⟩, [], [store.state]⟩ :=
    .begun store rfl
  have hsession := ((((hbegun.performed (.state (.createTag "x")) nofun).performed (.save true)
    nofun).performed (.saveTo ⟨"a/x"⟩ true) nofun).performed (.save false) nofun).performed .flush
    fun _ => rfl
  refine ⟨_, hsession, by decide +kernel, onlySaves_of_session hsession ?_ ?_⟩
  · intro n
    simp [full]
  · exact Machine.free_of_short (by decide)

end

end Store

end EvidenceTags
