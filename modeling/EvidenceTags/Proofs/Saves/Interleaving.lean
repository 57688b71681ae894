import EvidenceTags.Proofs.OnMachine
import Mathlib.Logic.Function.Basic

/-!
# Saves of several clients into one file

Clients of a store change its state and save it into a file, while the worker of its queue writes in
the background. A step here is what the locks of a store keep undivided:

* a background save captures its snapshot while it holds the state, and hands it to the worker
  later, when others may have changed and saved the state;
* a save that waits for its write captures and writes while it holds the state, but it does not
  look at the queue;
* the worker takes a job, writes it and finishes it, and never holds the state.

All writes succeed, and a write replaces the file at once. The state at each version is given by a
`history`, and next to the state of the store the versions are recorded that were saved, handed over
and written.
-/

namespace EvidenceTags

namespace Saves

/-! ## Clients -/

/-- What clients do. -/
inductive ClientStep where
  /-- The state goes on to its next version. -/
  | mutate
  /-- A background save captures its snapshot. -/
  | capture (call : Nat)
  /-- A background save hands its snapshot to the worker. -/
  | submit (call : Nat)
  /-- A save captures its snapshot and writes it. -/
  | saveNow
  /-- A call of `flush` returns. -/
  | flush
deriving DecidableEq, Repr

/-- What clients have done so far. -/
structure Clients where
  /-- The version of the state. -/
  version : Nat
  /-- The versions captured by the background saves that are in progress. -/
  calls : Nat → Option Nat
  /-- The versions of all saves, the latest first. -/
  saves : List Nat
  /-- The versions handed to the worker or written at once, the latest first. -/
  handed : List Nat
  /-- The versions handed to the worker since a flush returned, the latest first. -/
  since : List Nat

namespace Clients

/-- Nothing has been saved. -/
def start : Clients := ⟨0, fun _ => none, [], [], []⟩

/-- The clients after a step. A call that is in progress is not made again, and one that is not in
progress has nothing to hand over. -/
def step (c : Clients) : ClientStep → Clients
  | .mutate => { c with version := c.version + 1 }
  | .capture call =>
    match c.calls call with
    | some _ => c
    | none =>
      { c with
        calls := Function.update c.calls call (some c.version)
        saves := c.version :: c.saves }
  | .submit call =>
    match c.calls call with
    | some v =>
      { c with
        calls := Function.update c.calls call none
        handed := v :: c.handed
        since := v :: c.since }
    | none => c
  | .saveNow => { c with saves := c.version :: c.saves, handed := c.version :: c.handed }
  | .flush => { c with since := [] }

/-- The clients after a program. -/
def after (c : Clients) (program : List ClientStep) : Clients := program.foldl step c

/-- No background save is in progress. -/
def NoneInProgress (c : Clients) : Prop := ∀ call, c.calls call = none

/-- The newest version that any save was called at. -/
def NewestSaved (c : Clients) (v : Nat) : Prop := v ∈ c.saves ∧ ∀ w ∈ c.saves, w ≤ v

end Clients

/-! ## The worker and the file -/

/-- What the worker does. -/
inductive WorkerStep where
  | take
  | write
  | finish
deriving DecidableEq, Repr

/-- A step of a client or of the worker. -/
inductive Event where
  | client (step : ClientStep)
  | worker (step : WorkerStep)
deriving DecidableEq, Repr

/-- The steps of the clients in a run. -/
def clientPart : List Event → List ClientStep
  | [] => []
  | .client e :: rest => e :: clientPart rest
  | .worker _ :: rest => clientPart rest

/-- The clients with the queue, its worker and the files. -/
structure Saving where
  clients : Clients
  queue : SaveQueue
  /-- The version of the job that was submitted last. -/
  waiting : Nat
  /-- The job that the worker has taken and not written yet, with its version. -/
  writing : Option (SaveJob × Nat)
  files : Path → Option Wire.Bytes
  /-- The versions that were written, the latest first. -/
  writes : List Nat

namespace Saving

/-- Nothing has been saved, and the files are as they are found. -/
def start (files : Path → Option Wire.Bytes) : Saving := ⟨.start, .empty, 0, none, files, []⟩

/-- Writes a job of a version. -/
def put (s : Saving) (job : SaveJob) (version : Nat) : Saving :=
  { s with
    files := Function.update s.files job.path (some job.snapshot.encode)
    writes := version :: s.writes }

/-- A step of the worker. It does nothing if there is nothing to do. -/
def work (s : Saving) : WorkerStep → Saving
  | .take =>
    match s.queue.take? with
    | some (job, queue) => { s with queue, writing := some (job, s.waiting) }
    | none => s
  | .write =>
    match s.writing with
    | some (job, version) => { s.put job version with writing := none }
    | none => s
  | .finish =>
    if s.queue.inFlight = true ∧ s.writing = none then { s with queue := s.queue.finish } else s

/-- The worker is at no job. -/
def Free (s : Saving) : Prop := s.writing = none ∧ s.queue.inFlight = false

/-- No save is in progress, and a call of `flush` may return. -/
def Quiet (s : Saving) : Prop := s.clients.NoneInProgress ∧ s.queue.isIdle = true

end Saving

section Steps

variable (history : Nat → CaseState) (target : Path)

/-- The job that saves a version into the file. -/
def jobOf (version : Nat) : SaveJob := ⟨(history version).snapshot, target⟩

/-- A step of a client. A call of `flush` does not return before the queue is idle. -/
def Saving.client (s : Saving) (e : ClientStep) : Option Saving :=
  match e with
  | .mutate | .capture _ => some { s with clients := s.clients.step e }
  | .submit call =>
    match s.clients.calls call with
    | some v =>
      some { s with
        clients := s.clients.step e
        queue := s.queue.submit (jobOf history target v)
        waiting := v }
    | none => some { s with clients := s.clients.step e }
  | .saveNow =>
    some { s.put (jobOf history target s.clients.version) s.clients.version with
      clients := s.clients.step e }
  | .flush => if s.queue.isIdle then some { s with clients := s.clients.step e } else none

/-- A step of a client or of the worker. -/
def Saving.step (s : Saving) : Event → Option Saving
  | .client e => s.client history target e
  | .worker e => some (s.work e)

/-- A run, if every call of `flush` in it may return. -/
def execute : List Event → Saving → Option Saving
  | [], s => some s
  | e :: rest, s => (s.step history target e).bind (execute rest)

/-- The file never goes back: no write follows that of a newer version, and when all is quiet the
file has the newest version that was saved. -/
structure Saving.Forward (s : Saving) : Prop where
  order : s.writes.Pairwise (· ≥ ·)
  newest : s.Quiet → ∀ v, s.clients.NewestSaved v →
    s.files target = some (history v).snapshot.encode

end Steps

/-! ## Runs -/

section Runs

variable {history : Nat → CaseState} {target : Path}

@[simp] theorem clientPart_client (e : ClientStep) (rest : List Event) :
    clientPart (.client e :: rest) = e :: clientPart rest := rfl

@[simp] theorem clientPart_worker (e : WorkerStep) (rest : List Event) :
    clientPart (.worker e :: rest) = clientPart rest := rfl

theorem clientPart_append (first second : List Event) :
    clientPart (first ++ second) = clientPart first ++ clientPart second := by
  induction first with
  | nil => rfl
  | cons e rest ih =>
    cases e with
    | client e => rw [List.cons_append, clientPart_client, ih, clientPart_client, List.cons_append]
    | worker e => rw [List.cons_append, clientPart_worker, ih, clientPart_worker]

theorem execute_append (first second : List Event) (s : Saving) :
    execute history target (first ++ second) s
      = (execute history target first s).bind (execute history target second) := by
  induction first generalizing s with
  | nil => rfl
  | cons e rest ih =>
    rw [List.cons_append, execute, execute]
    cases s.step history target e with
    | none => rfl
    | some t => exact ih t

/-- Two runs one after the other. -/
theorem execute_trans {first second : List Event} {s t r : Saving}
    (hfirst : execute history target first s = some t)
    (hsecond : execute history target second t = some r) :
    execute history target (first ++ second) s = some r := by
  rw [execute_append, hfirst]
  exact hsecond

theorem execute_client {s t : Saving} {e : ClientStep} (h : s.client history target e = some t) :
    execute history target [.client e] s = some t := by
  rw [execute, Saving.step, h]
  rfl

/-- What a step of a client does to the clients is independent of the worker. -/
theorem clients_client {s t : Saving} {e : ClientStep} (h : s.client history target e = some t) :
    t.clients = s.clients.step e := by
  cases e with
  | mutate | capture call | saveNow =>
    cases h
    rfl
  | submit call =>
    simp only [Saving.client] at h
    split at h <;> cases h <;> rfl
  | flush =>
    simp only [Saving.client] at h
    split at h
    · cases h
      rfl
    · cases h

@[simp] theorem clients_work (s : Saving) (e : WorkerStep) : (s.work e).clients = s.clients := by
  cases e <;> simp only [Saving.work] <;> split <;> rfl

/-- After a run the clients are where their part of it leads. -/
theorem clients_execute {events : List Event} {s r : Saving}
    (h : execute history target events s = some r) :
    r.clients = s.clients.after (clientPart events) := by
  induction events generalizing s with
  | nil =>
    cases h
    rfl
  | cons e rest ih =>
    obtain ⟨t, ht, hrest⟩ := Option.bind_eq_some_iff.1 h
    rw [ih hrest]
    cases e with
    | client e => rw [clients_client ht, clientPart_client, Clients.after, Clients.after,
        List.foldl_cons]
    | worker e =>
      cases ht
      rw [clients_work, clientPart_worker]

/-! ## Operations of a store, left alone -/

/-- The steps of a save. -/
def saveSteps (call : Nat) : Bool → List Event
  | true => [.client .saveNow]
  | false => [.client (.capture call), .client (.submit call)]

/-- A save that nothing comes between does to the queue what `saveTo` does. -/
theorem queue_saveTo {s : Saving} {store : Store} {call : Nat}
    (hfree : s.clients.calls call = none) (hstate : store.state = history s.clients.version)
    (hqueue : store.queue = s.queue) (m : Machine) (sync : Bool) :
    ∃ t, execute history target (saveSteps call sync) s = some t
      ∧ t.queue = ((store.saveTo target sync : StateM Machine _) m).1.2.queue := by
  cases sync with
  | true => exact ⟨_, rfl, hqueue.symm⟩
  | false =>
    -- what is handed over was captured in the same state
    have hcall : (s.clients.step (.capture call)).calls call = some s.clients.version := by
      simp only [Clients.step, hfree]
      exact Function.update_self ..
    have hjob : jobOf history target s.clients.version = ⟨store.state.snapshot, target⟩ := by
      rw [jobOf, hstate]
    simp only [saveSteps, execute, Saving.step, Saving.client, Option.bind_some, hcall]
    refine ⟨_, rfl, ?_⟩
    show s.queue.submit _ = store.queue.submit _
    rw [hjob, hqueue]

/-- A worker that nothing comes between does to the queue what `flush` does. -/
theorem queue_flush {s : Saving} (hfree : s.Free) {store : Store} (hqueue : store.queue = s.queue)
    (m : Machine) :
    (((s.work .take).work .write).work .finish).queue
      = ((store.flush : StateM Machine _) m).1.queue := by
  show _ = ((store.queue.flush : StateM Machine _) m).1
  rw [hqueue, SaveQueue.flush]
  cases htake : s.queue.take? with
  | none =>
    -- there is nothing to take, to write or to finish
    simp only [Saving.work, htake, hfree.1, hfree.2, Bool.false_eq_true, false_and, if_false]
    rfl
  | some p =>
    obtain ⟨job, queue⟩ := p
    have hbusy : queue.inFlight = true := by
      rw [(SaveQueue.take?_eq_some htake).2.2]
    simp only [Saving.work, htake, Saving.put, hbusy, and_self, if_true, Machine.bind_apply]
    -- a write that fails is logged, and the job is done all the same
    cases ((SaveQueue.write job : StateM Machine _) m).1 <;> rfl

end Runs

end Saves

end EvidenceTags
