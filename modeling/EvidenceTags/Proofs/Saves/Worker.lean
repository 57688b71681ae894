import EvidenceTags.Proofs.OnMachine

/-!
# The worker of a queue, step by step

Any number of clients submit jobs to a queue and wait for it to become idle, and in the end its
owner drops it. Between any two of their steps the worker may take one of its own. A step is what
happens while the queue is locked once:

* a client submits a job, or a call of `flush` finds the queue idle and returns;
* the owner drops the queue, which tells the worker to leave;
* the worker takes the job that waits, or finishes the job that it took;
* the worker leaves, since it finds nothing to take and has been told to;

and the write of a job is a step too, during which the queue is not locked. A write may fail, and
what it finds on the host may differ from what the last one left.

Jobs may be equal, so submissions are numbered. Next to the queue is recorded what has become of
them: which were submitted, taken, replaced and finished. Where jobs come from is left open, so that
nothing is said here of the versions of a store, which `Saves.Saving` is about.
-/

namespace EvidenceTags

/-- A job as it was handed over: the first one has number `0`. -/
structure Submission where
  number : Nat
  job : SaveJob
deriving DecidableEq

/-- Where the thread of a worker is while the queue is not locked. -/
inductive WorkerPlace where
  /-- It is about to look for a job, or sleeps until it does. -/
  | looking
  /-- It has taken a job. -/
  | writing (taken : Submission)
  /-- It has written its job, or has failed to. -/
  | written (taken : Submission) (result : Except StoreError Unit)
  /-- It has come to its end. -/
  | gone

/-- The job that the worker has taken and not finished. -/
def WorkerPlace.job? : WorkerPlace → Option Submission
  | .writing taken | .written taken _ => some taken
  | .looking | .gone => none

/-- A queue with its worker and their past. -/
structure SaveWorker where
  queue : SaveQueue
  place : WorkerPlace
  /-- The host as the last write left it. -/
  machine : Machine
  /-- The number of the job that waits, if one does. -/
  waiting : Nat
  /-- All submissions, the latest first. -/
  submitted : List Submission
  /-- The submissions that the worker took, the latest first. -/
  taken : List Submission
  /-- The submissions that lost their place while they waited, each with the one that took it. -/
  replaced : List (Submission × Submission)
  /-- The submissions that the worker finished, with what came of their writes, the latest first. -/
  finished : List (Submission × Except StoreError Unit)

/-- What clients, the owner and the worker do. -/
inductive WorkerEvent where
  | submit (job : SaveJob)
  | flush
  | drop
  | take
  | write
  | finish
  | leave

namespace SaveWorker

/-- A worker that has just been started. -/
def start (m : Machine) : SaveWorker := ⟨.empty, .looking, m, 0, [], [], [], []⟩

/-- The submission that waits. -/
def next? (w : SaveWorker) : Option Submission := w.queue.pending.map fun job => ⟨w.waiting, job⟩

/-- A client lets a job wait, in the place of one that waits already. -/
def submit (w : SaveWorker) (job : SaveJob) : SaveWorker :=
  let new : Submission := ⟨w.submitted.length, job⟩
  { w with
    queue := w.queue.submit job
    waiting := new.number
    submitted := new :: w.submitted
    replaced := w.next?.toList.map (fun old => (old, new)) ++ w.replaced }

/-- What a write of a job may lead to. A write that is carried out leaves what it makes of the host
that it finds, and one that fails may leave anything. -/
inductive Writes (job : SaveJob) : Except StoreError Unit → Machine → Prop
  | carriedOut (found : Machine)
      (hok : ((SaveQueue.write job : StateM Machine _) found).1 = .ok ()) :
      Writes job (.ok ()) ((SaveQueue.write job : StateM Machine _) found).2
  | failed (error : StoreError) (left : Machine) : Writes job (.error error) left

/-- The steps of clients, owner and worker. -/
inductive Step (w : SaveWorker) : WorkerEvent → SaveWorker → Prop
  | submit (job : SaveJob) : Step w (.submit job) (w.submit job)
  | flush (hidle : w.queue.isIdle = true) : Step w .flush w
  | drop : Step w .drop { w with queue := w.queue.stop }
  | take {job : SaveJob} {queue : SaveQueue} (hplace : w.place = .looking)
      (htake : w.queue.take? = some (job, queue)) :
      Step w .take
        { w with
          queue
          place := .writing ⟨w.waiting, job⟩
          taken := ⟨w.waiting, job⟩ :: w.taken }
  | write {taken : Submission} {result : Except StoreError Unit} {left : Machine}
      (hplace : w.place = .writing taken) (hwrites : Writes taken.job result left) :
      Step w .write { w with place := .written taken result, machine := left }
  | finish {taken : Submission} {result : Except StoreError Unit}
      (hplace : w.place = .written taken result) :
      Step w .finish
        { w with
          queue := w.queue.finish
          place := .looking
          finished := (taken, result) :: w.finished }
  | leave (hplace : w.place = .looking) (hnone : w.queue.take? = none)
      (hstop : w.queue.stopping = true) : Step w .leave { w with place := .gone }

/-- The states that are reached from the start by steps that `admits` allows where they come. -/
inductive Reachable (admits : SaveWorker → WorkerEvent → Prop) : SaveWorker → Prop
  | started (m : Machine) : Reachable admits (start m)
  | step {w w' : SaveWorker} {e : WorkerEvent} (h : Reachable admits w) (hstep : Step w e w')
      (hadmits : admits w e) : Reachable admits w'

variable {admits : SaveWorker → WorkerEvent → Prop} {w w' : SaveWorker} {e : WorkerEvent}

/-- What holds at the start and is kept by every admitted step holds in every reachable state. What
has been shown of reachable states may be used. -/
theorem invariant_of_reachable {I : SaveWorker → Prop} (hstart : ∀ m, I (start m))
    (hstep : ∀ w e w', Reachable admits w → I w → Step w e w' → admits w e → I w')
    (h : Reachable admits w) : I w := by
  induction h with
  | started m => exact hstart m
  | step h hs hadmits ih => exact hstep _ _ _ h ih hs hadmits

/-- The worker takes, writes and finishes a job, and nothing comes between: this is what `flush`
does to the queue and to the host where nobody else is at work. -/
theorem exists_steps_of_flush {job : SaveJob} {queue : SaveQueue} (hplace : w.place = .looking)
    (htake : w.queue.take? = some (job, queue)) :
    ∃ w₁ w₂ w', Step w .take w₁ ∧ Step w₁ .write w₂ ∧ Step w₂ .finish w'
      ∧ w'.place = .looking
      ∧ (w'.queue, w'.machine) = (w.queue.flush : StateM Machine _) w.machine := by
  simp only [SaveQueue.flush, htake, Machine.bind_apply]
  rcases hrun : (SaveQueue.write job : StateM Machine _) w.machine with ⟨result, left⟩
  -- the result of the write decides what the log gets, but not what becomes of the queue
  cases result with
  | ok _ =>
    have hwrites : Writes job (.ok ()) left := by
      have hleft := congrArg Prod.snd hrun
      subst hleft
      exact .carriedOut w.machine (congrArg Prod.fst hrun)
    exact ⟨_, _, _, .take hplace htake, .write rfl hwrites, .finish rfl, rfl, rfl⟩
  | error error =>
    exact ⟨_, _, _, .take hplace htake, .write rfl (.failed error _), .finish rfl, rfl, rfl⟩

end SaveWorker

end EvidenceTags
