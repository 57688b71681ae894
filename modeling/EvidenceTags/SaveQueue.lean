import EvidenceTags.ReplaceFile
import EvidenceTags.Wire.SnapshotFile

/-!
# The queue of background saves

Saves that nobody waits for are handed to a worker. There is room for one job that waits: a job that
is submitted while another waits takes its place. So at most one job is being written and at most
one waits behind it, and the last job to be submitted is never dropped.

A queue changes by four steps: a job is submitted, the worker takes the waiting job, it finishes the
job that it took, and the queue is told to stop. A stopped worker leaves only when no job waits.
-/

namespace EvidenceTags

/-- A snapshot on its way to a file. -/
structure SaveJob where
  snapshot : Snapshot
  path : Path
deriving DecidableEq

/-- The jobs of a background worker. -/
structure SaveQueue where
  /-- The job that waits. -/
  pending : Option SaveJob
  /-- Whether a job is being written. -/
  inFlight : Bool
  /-- Whether the worker is to leave. -/
  stopping : Bool
  /-- Number of jobs that have been written or have failed. -/
  completed : Nat
deriving DecidableEq

namespace SaveQueue

/-- The queue of a worker that has just been started. -/
def empty : SaveQueue := ⟨none, false, false, 0⟩

instance : Inhabited SaveQueue := ⟨empty⟩

/-- Lets a job wait, in the place of one that waits already. -/
def submit (q : SaveQueue) (job : SaveJob) : SaveQueue := { q with pending := some job }

/-- The worker takes the job that waits. -/
def take? (q : SaveQueue) : Option (SaveJob × SaveQueue) :=
  if q.inFlight then none
  else q.pending.map fun job => (job, { q with pending := none, inFlight := true })

/-- The worker takes a job only if it is at none. -/
theorem take?_eq_some {q queue : SaveQueue} {job : SaveJob} (h : q.take? = some (job, queue)) :
    q.inFlight = false ∧ q.pending = some job
      ∧ queue = { q with pending := none, inFlight := true } := by
  unfold take? at h
  split at h
  · cases h
  · rename_i hidle
    obtain ⟨waiting, hwaiting, heq⟩ := Option.map_eq_some_iff.1 h
    cases heq
    exact ⟨Bool.not_eq_true _ ▸ hidle, hwaiting, rfl⟩

/-- The worker is done with the job that it took. -/
def finish (q : SaveQueue) : SaveQueue := { q with inFlight := false, completed := q.completed + 1 }

/-- The worker is told to leave. -/
def stop (q : SaveQueue) : SaveQueue := { q with stopping := true }

/-- Whether nothing waits and nothing is being written. -/
def isIdle (q : SaveQueue) : Bool := q.pending.isNone && !q.inFlight

/-- Whether the worker leaves. -/
def mayLeave (q : SaveQueue) : Bool := q.stopping && q.isIdle

variable {m : Type → Type} [Monad m] [Host m]

/-- Writes the snapshot of a job into its file. -/
def write (job : SaveJob) : m (Except StoreError Unit) := replaceFile job.path job.snapshot.encode

/-- Lets the worker go on until the queue is idle, while nobody submits anything. -/
def flush (q : SaveQueue) : m SaveQueue := do
  match q.take? with
  | none => pure q
  | some (job, q) =>
    match ← write job with
    | .error error => Host.log (.saveFailed job.path error)
    | .ok () => pure ()
    pure q.finish

end SaveQueue

end EvidenceTags
