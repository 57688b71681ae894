import EvidenceTags.Proofs.Saves.LastSave
import Mathlib.Data.Finset.Basic
import Mathlib.Logic.Function.Basic

/-!
# No wakeup is lost

A queue has one lock, and one condition on which its worker and the calls of `flush` sleep, each
until something else. Here every thread goes through its program step by step:

* a thread that has to look at the queue waits until the lock is free, and locks it;
* the holder of the lock does one of the steps of `SaveWorker` and unlocks, or it finds that it has
  to wait, and then it unlocks and falls asleep in one step;
* who submits a job, tells the worker to leave or finishes a job wakes all sleepers before the lock
  is free. To take a job, to leave, and to return from `flush` wakes nobody;
* a sleeper may also wake up by itself. Whoever is awake again has to lock the queue before it
  looks.

What a thread does while it holds the lock is one step, since nobody else can see the queue
meanwhile. The owner may drop the queue at any time, also while calls are in progress.

`SharedQueue.Orderly` is the invariant: sleepers are those that would have to wait if they looked.
`SharedQueue.noLostWakeup_of_reachable` puts it together with what it is for, namely that as long as
anything is left to be done, some thread that is awake can go on.
-/

namespace EvidenceTags

/-- The threads that use a queue: its worker, and its clients by their numbers. -/
inductive QueueThread where
  | worker
  | client (number : Nat)
deriving DecidableEq

/-- What a client may be in the middle of. -/
inductive QueueCall where
  | submit (job : SaveJob)
  | flush
  | drop
  /-- The worker has been told to leave, and its end is waited for. -/
  | join
deriving DecidableEq

/-- A queue with its worker, its lock, and the threads that use it. -/
structure SharedQueue where
  /-- The queue, and where its worker is. -/
  worker : SaveWorker
  /-- The thread that holds the lock. -/
  holder : Option QueueThread
  /-- The threads that sleep on the condition. -/
  asleep : Finset QueueThread
  /-- The calls that clients are in. -/
  calls : Nat → Option QueueCall

/-- What happens to the threads of a queue. -/
inductive ThreadEvent where
  /-- A client makes a call. -/
  | calls (number : Nat) (call : QueueCall)
  /-- A thread goes on in its program. -/
  | runs (thread : QueueThread)
  /-- A sleeper wakes up, and nobody has woken it. -/
  | wakes (thread : QueueThread)

namespace SharedQueue

/-- A queue that nobody has used yet. -/
def start (m : Machine) : SharedQueue := ⟨.start m, none, ∅, fun _ => none⟩

/-- The lock is given back, with the queue as it has become. -/
def unlock (q : SharedQueue) (worker : SaveWorker) : SharedQueue :=
  { q with worker, holder := none }

/-- All sleepers are woken. -/
def wakeAll (q : SharedQueue) : SharedQueue := { q with asleep := ∅ }

/-- The holder of the lock gives it back and falls asleep. -/
def fallAsleep (q : SharedQueue) (x : QueueThread) : SharedQueue :=
  { q with holder := none, asleep := insert x q.asleep }

/-- A client goes into a call, or comes out of one. -/
def setCall (q : SharedQueue) (n : Nat) (call : Option QueueCall) : SharedQueue :=
  { q with calls := Function.update q.calls n call }

/-- A thread cannot go on without the lock: the worker looks for a job or has written one, and a
client is in a call. -/
def NeedsLock (q : SharedQueue) : QueueThread → Prop
  | .worker => q.worker.place = .looking ∨ ∃ taken result, q.worker.place = .written taken result
  | .client n => ∃ call, q.calls n = some call ∧ call ≠ .join

/-- The steps of the threads. -/
inductive Step (q : SharedQueue) : ThreadEvent → SharedQueue → Prop
  | call {n : Nat} {call : QueueCall} (hfree : q.calls n = none) (hcall : call ≠ .join) :
      Step q (.calls n call) (q.setCall n (some call))
  | wake {x : QueueThread} (hasleep : x ∈ q.asleep) :
      Step q (.wakes x) { q with asleep := q.asleep.erase x }
  | lock {x : QueueThread} (hfree : q.holder = none) (hawake : x ∉ q.asleep)
      (hneeds : q.NeedsLock x) : Step q (.runs x) { q with holder := some x }
  | submit {n : Nat} {job : SaveJob} {w : SaveWorker} (hholds : q.holder = some (.client n))
      (hcall : q.calls n = some (.submit job)) (hstep : q.worker.Step (.submit job) w) :
      Step q (.runs (.client n)) ((q.unlock w).wakeAll.setCall n none)
  | flush {n : Nat} {w : SaveWorker} (hholds : q.holder = some (.client n))
      (hcall : q.calls n = some .flush) (hstep : q.worker.Step .flush w) :
      Step q (.runs (.client n)) ((q.unlock w).setCall n none)
  | flushWaits {n : Nat} (hholds : q.holder = some (.client n)) (hcall : q.calls n = some .flush)
      (hbusy : q.worker.queue.isIdle = false) :
      Step q (.runs (.client n)) (q.fallAsleep (.client n))
  | drop {n : Nat} {w : SaveWorker} (hholds : q.holder = some (.client n))
      (hcall : q.calls n = some .drop) (hstep : q.worker.Step .drop w) :
      Step q (.runs (.client n)) ((q.unlock w).wakeAll.setCall n (some .join))
  | join {n : Nat} (hcall : q.calls n = some .join) (hgone : q.worker.place = .gone) :
      Step q (.runs (.client n)) (q.setCall n none)
  | take {w : SaveWorker} (hholds : q.holder = some .worker) (hstep : q.worker.Step .take w) :
      Step q (.runs .worker) (q.unlock w)
  | leave {w : SaveWorker} (hholds : q.holder = some .worker) (hstep : q.worker.Step .leave w) :
      Step q (.runs .worker) (q.unlock w)
  | workerWaits (hholds : q.holder = some .worker) (hplace : q.worker.place = .looking)
      (hnone : q.worker.queue.take? = none) (hstay : q.worker.queue.stopping = false) :
      Step q (.runs .worker) (q.fallAsleep .worker)
  | write {w : SaveWorker} (hstep : q.worker.Step .write w) :
      Step q (.runs .worker) { q with worker := w }
  | finish {w : SaveWorker} (hholds : q.holder = some .worker) (hstep : q.worker.Step .finish w) :
      Step q (.runs .worker) (q.unlock w).wakeAll

/-- The states that are reached by any interleaving of the threads. -/
inductive Reachable : SharedQueue → Prop
  | started (m : Machine) : Reachable (start m)
  | step {q q' : SharedQueue} {e : ThreadEvent} (h : Reachable q) (hstep : Step q e q') :
      Reachable q'

variable {q q' : SharedQueue} {e : ThreadEvent}

/-- Whether there is something for the worker to do: a job, or to leave. -/
def HasWork (q : SharedQueue) : Prop :=
  q.worker.place ≠ .gone ∧ (q.worker.queue.pending ≠ none ∨ q.worker.queue.inFlight = true
    ∨ q.worker.queue.stopping = true)

/-- A thread can take a step, or whoever holds the lock that it needs can; and that one is awake. -/
def GoesOn (q : SharedQueue) (x : QueueThread) : Prop :=
  ∃ y, (y = x ∨ q.holder = some y) ∧ y ∉ q.asleep ∧ ∃ q', Step q (.runs y) q'

/-! ## The queue without its lock -/

/-- A step of a thread is one of the steps of `SaveWorker`, or leaves the queue and its worker
alone. -/
theorem worker_of_step (h : Step q e q') :
    (∃ e', q.worker.Step e' q'.worker) ∨ q'.worker = q.worker := by
  cases h with
  | submit _ _ hstep | flush _ _ hstep | drop _ _ hstep | take _ hstep | leave _ hstep
  | write hstep | finish _ hstep => exact .inl ⟨_, hstep⟩
  | call _ _ | wake _ | lock _ _ _ | flushWaits _ _ _ | join _ _ | workerWaits _ _ _ _ =>
    exact .inr rfl

/-- So whatever holds of a queue and its worker in all runs holds here. -/
theorem reachable_worker (h : Reachable q) :
    SaveWorker.Reachable (fun _ _ => True) q.worker := by
  induction h with
  | started m => exact .started m
  | step _ hstep ih =>
    rcases worker_of_step hstep with ⟨e', hworker⟩ | hsame
    · exact ih.step hworker trivial
    · rw [hsame]
      exact ih

/-! ## Sleepers would have to wait -/

/-- The holder of the lock is awake and knows what to do with it, and whoever sleeps would have to
wait if it looked at the queue. -/
structure Orderly (q : SharedQueue) : Prop where
  holder : ∀ x, q.holder = some x → x ∉ q.asleep ∧ q.NeedsLock x
  worker : .worker ∈ q.asleep → q.worker.place = .looking ∧ q.worker.queue.pending = none
    ∧ q.worker.queue.stopping = false
  client : ∀ n, .client n ∈ q.asleep → q.calls n = some .flush ∧ q.worker.queue.isIdle = false
  /-- Whoever waits for the end of the worker has told it to leave. -/
  join : ∀ n, q.calls n = some .join → q.worker.queue.stopping = true

/-- Nothing makes a worker stay that has been told to leave. -/
theorem stopping_of_step {w w' : SaveWorker} {e : WorkerEvent} (h : w.Step e w')
    (hstop : w.queue.stopping = true) : w'.queue.stopping = true := by
  cases h with
  | take _ htake =>
    rcases SaveQueue.take?_eq_some htake with ⟨-, -, rfl⟩
    exact hstop
  | drop => rfl
  | submit _ | flush _ | write _ _ | finish _ | leave _ _ _ => exact hstop

/-- After all sleepers have been woken and the lock is free, there is nobody of whom anything is
asked. -/
theorem orderly_of_awake (hfree : q.holder = none) (hawake : q.asleep = ∅)
    (hjoin : ∀ n, q.calls n = some .join → q.worker.queue.stopping = true) : q.Orderly := by
  refine ⟨?_, ?_, ?_, hjoin⟩
  · intro x hx
    rw [hfree] at hx
    cases hx
  · intro hworker
    rw [hawake] at hworker
    exact absurd hworker (Finset.notMem_empty _)
  · intro n hclient
    rw [hawake] at hclient
    exact absurd hclient (Finset.notMem_empty _)

/-- So the steps that wake all sleepers owe nothing to anybody. -/
theorem Orderly.wakeAll (h : q.Orderly) {w : SaveWorker} {e : WorkerEvent}
    (hstep : q.worker.Step e w) : ((q.unlock w).wakeAll).Orderly := by
  apply orderly_of_awake rfl rfl
  intro n hn
  exact stopping_of_step hstep (h.join n hn)

theorem calls_setCall {n k : Nat} {call : Option QueueCall} (hne : k ≠ n) :
    (q.setCall n call).calls k = q.calls k :=
  Function.update_of_ne hne _ _

theorem calls_setCall_self {n : Nat} {call : Option QueueCall} :
    (q.setCall n call).calls n = call :=
  Function.update_self _ _ _

/-- A client that is in no call, or has found what it waited for, may go into another call or out of
its call, and nobody else is concerned. -/
theorem Orderly.setCall (h : q.Orderly) {n : Nat} {call : Option QueueCall}
    (hholder : q.holder ≠ some (.client n)) (hawake : .client n ∉ q.asleep)
    (hjoin : call = some .join → q.worker.queue.stopping = true) : (q.setCall n call).Orderly := by
  refine ⟨?_, h.worker, ?_, ?_⟩
  · intro x hx
    rcases h.holder x hx with ⟨hxawake, hneeds⟩
    refine ⟨hxawake, ?_⟩
    cases x with
    | worker => exact hneeds
    | client k =>
      have hne : k ≠ n := fun heq => hholder (heq ▸ hx)
      rw [NeedsLock, calls_setCall hne]
      exact hneeds
  · intro k hk
    have hne : k ≠ n := fun heq => hawake (heq ▸ hk)
    rw [calls_setCall hne]
    exact h.client k hk
  · intro k hk
    by_cases heq : k = n
    · rw [heq, calls_setCall_self] at hk
      exact hjoin hk
    · rw [calls_setCall heq] at hk
      exact h.join k hk

/-- A thread that holds the lock gives it back, and the queue has become one at which whoever sleeps
would have to wait as before. -/
theorem Orderly.unlock (h : q.Orderly) {w : SaveWorker}
    (hworker : .worker ∈ q.asleep → w.place = .looking ∧ w.queue.pending = none
      ∧ w.queue.stopping = false)
    (hclient : ∀ n, .client n ∈ q.asleep → w.queue.isIdle = false)
    (hstop : q.worker.queue.stopping = true → w.queue.stopping = true) : (q.unlock w).Orderly := by
  refine ⟨?_, hworker, ?_, ?_⟩
  · intro x hx
    cases hx
  · intro n hn
    exact ⟨(h.client n hn).1, hclient n hn⟩
  · intro n hn
    exact hstop (h.join n hn)

/-- Who falls asleep has just found that it has to wait. -/
theorem Orderly.fallAsleep (h : q.Orderly) {x : QueueThread}
    (hworker : x = .worker → q.worker.place = .looking ∧ q.worker.queue.pending = none
      ∧ q.worker.queue.stopping = false)
    (hclient : ∀ n, x = .client n → q.calls n = some .flush ∧ q.worker.queue.isIdle = false) :
    (q.fallAsleep x).Orderly := by
  refine ⟨?_, ?_, ?_, h.join⟩
  · intro y hy
    cases hy
  · intro hmem
    rcases Finset.mem_insert.1 hmem with heq | hmem
    · exact hworker heq.symm
    · exact h.worker hmem
  · intro n hmem
    rcases Finset.mem_insert.1 hmem with heq | hmem
    · exact hclient n heq.symm
    · exact h.client n hmem

/-- Only a client that waits for the queue to be idle sleeps. -/
theorem Orderly.awake_client (h : q.Orderly) {n : Nat} (hcall : q.calls n ≠ some .flush) :
    .client n ∉ q.asleep := by
  intro hasleep
  exact hcall (h.client n hasleep).1

/-- A client that is in no call, or waits for the end of the worker, does not hold the lock. -/
theorem Orderly.holder_ne_client (h : q.Orderly) {n : Nat}
    (hcall : ∀ call, q.calls n = some call → call = .join) : q.holder ≠ some (.client n) := by
  intro hholds
  rcases (h.holder _ hholds).2 with ⟨call, hsame, hne⟩
  exact hne (hcall call hsame)

/-- To wake up leaves fewer sleepers. -/
theorem Orderly.wake (h : q.Orderly) (x : QueueThread) :
    ({ q with asleep := q.asleep.erase x } : SharedQueue).Orderly := by
  refine ⟨?_, ?_, ?_, h.join⟩
  · intro y hy
    rcases h.holder y hy with ⟨hawake, hneeds⟩
    exact ⟨fun hmem => hawake (Finset.mem_of_mem_erase hmem), hneeds⟩
  · intro hmem
    exact h.worker (Finset.mem_of_mem_erase hmem)
  · intro n hmem
    exact h.client n (Finset.mem_of_mem_erase hmem)

/-- The worker writes its job without the lock, and then needs the lock to say so. -/
theorem Orderly.write (h : q.Orderly) {w : SaveWorker} (hstep : q.worker.Step .write w) :
    ({ q with worker := w } : SharedQueue).Orderly := by
  cases hstep with
  | @write taken result left hplace hwrites =>
    refine ⟨?_, ?_, h.client, h.join⟩
    · intro x hx
      rcases h.holder x hx with ⟨hawake, hneeds⟩
      refine ⟨hawake, ?_⟩
      cases x with
      | worker => exact .inr ⟨taken, result, rfl⟩
      | client k => exact hneeds
    · intro hasleep
      have hlooking := (h.worker hasleep).1
      rw [hplace] at hlooking
      cases hlooking

theorem Orderly.step (h : q.Orderly) (hwork : q.worker.OneAtWork) (hstep : Step q e q') :
    q'.Orderly := by
  cases hstep with
  | @call n call hfree hcall =>
    -- the client was in no call
    apply h.setCall
    · apply h.holder_ne_client
      intro other hother
      rw [hfree] at hother
      cases hother
    · apply h.awake_client
      rw [hfree]
      nofun
    · intro heq
      exact absurd (Option.some.inj heq) hcall
  | @wake x hasleep => exact h.wake x
  | @lock x hfree hawake hneeds =>
    refine ⟨?_, h.worker, h.client, h.join⟩
    intro y hy
    rcases Option.some.inj hy with rfl
    exact ⟨hawake, hneeds⟩
  | @submit n job w hholds hcall hstep =>
    exact (h.wakeAll hstep).setCall nofun (Finset.notMem_empty _) nofun
  | @drop n w hholds hcall hstep =>
    apply (h.wakeAll hstep).setCall nofun (Finset.notMem_empty _)
    intro _
    cases hstep
    rfl
  | finish hholds hstep => exact h.wakeAll hstep
  | @flush n w hholds hcall hstep =>
    cases hstep with
    | flush hidle =>
      have hunlocked : (q.unlock q.worker).Orderly :=
        h.unlock h.worker (fun k hk => (h.client k hk).2) id
      exact hunlocked.setCall nofun (h.holder _ hholds).1 nofun
  | @flushWaits n hholds hcall hbusy =>
    refine h.fallAsleep nofun ?_
    intro k hk
    cases hk
    exact ⟨hcall, hbusy⟩
  | @join n hcall hgone =>
    apply h.setCall
    · apply h.holder_ne_client
      intro call hsame
      rw [hcall] at hsame
      exact (Option.some.inj hsame).symm
    · apply h.awake_client
      rw [hcall]
      nofun
    · nofun
  | take hholds hstep =>
    cases hstep with
    | take hplace htake =>
      rcases SaveQueue.take?_eq_some htake with ⟨-, -, rfl⟩
      apply h.unlock
      · intro hasleep
        exact absurd hasleep (h.holder _ hholds).1
      · -- the job is no longer pending but in flight
        intro _ _
        exact Bool.and_false _
      · exact id
  | leave hholds hstep =>
    cases hstep with
    | leave hplace hnone hstop =>
      apply h.unlock
      · intro hasleep
        exact absurd hasleep (h.holder _ hholds).1
      · intro k hk
        exact (h.client k hk).2
      · exact id
  | workerWaits hholds hplace hnone hstay =>
    apply h.fallAsleep
    · intro _
      exact ⟨hplace, (SaveWorker.take?_eq_none_iff hwork hplace).1 hnone, hstay⟩
    · nofun
  | write hstep => exact h.write hstep

theorem orderly_start (m : Machine) : (start m).Orderly :=
  orderly_of_awake rfl rfl nofun

theorem orderly_of_reachable (h : Reachable q) : q.Orderly := by
  induction h with
  | started m => exact orderly_start m
  | step hreach hstep ih =>
    exact ih.step (SaveWorker.oneAtWork_of_reachable (reachable_worker hreach)) hstep

/-! ## Whoever is awake goes on -/

/-- The holder of the lock has a step to take, whatever it finds. -/
theorem exists_step_of_holder (h : q.Orderly) {x : QueueThread} (hholds : q.holder = some x) :
    ∃ q', Step q (.runs x) q' := by
  rcases h.holder x hholds with ⟨-, hneeds⟩
  cases x with
  | worker =>
    rcases hneeds with hplace | ⟨taken, result, hplace⟩
    · cases htake : q.worker.queue.take? with
      | some p => exact ⟨_, .take hholds (.take hplace htake)⟩
      | none =>
        cases hstop : q.worker.queue.stopping with
        | true => exact ⟨_, .leave hholds (.leave hplace htake hstop)⟩
        | false => exact ⟨_, .workerWaits hholds hplace htake hstop⟩
    · exact ⟨_, .finish hholds (.finish hplace)⟩
  | client n =>
    rcases hneeds with ⟨call, hcall, hne⟩
    cases call with
    | submit job => exact ⟨_, .submit hholds hcall (.submit job)⟩
    | flush =>
      cases hidle : q.worker.queue.isIdle with
      | true => exact ⟨_, .flush hholds hcall (.flush hidle)⟩
      | false => exact ⟨_, .flushWaits hholds hcall hidle⟩
    | drop => exact ⟨_, .drop hholds hcall .drop⟩
    | join => exact absurd rfl hne

theorem goesOn_of_step {x : QueueThread} (hawake : x ∉ q.asleep) (hstep : Step q (.runs x) q') :
    q.GoesOn x :=
  ⟨x, .inl rfl, hawake, q', hstep⟩

/-- Who is awake and needs the lock can have it, or waits for one that is awake. -/
theorem goesOn_of_needsLock (h : q.Orderly) {x : QueueThread} (hawake : x ∉ q.asleep)
    (hneeds : q.NeedsLock x) : q.GoesOn x := by
  cases hholder : q.holder with
  | none => exact goesOn_of_step hawake (.lock hholder hawake hneeds)
  | some y => exact ⟨y, .inr hholder, (h.holder y hholder).1, exists_step_of_holder h hholder⟩

/-- A worker that has not left and does not sleep goes on, also when it has nothing to do yet. -/
theorem goesOn_worker (h : q.Orderly) (hawake : .worker ∉ q.asleep)
    (hplace : q.worker.place ≠ .gone) :
    q.GoesOn .worker := by
  cases hp : q.worker.place with
  | looking => exact goesOn_of_needsLock h hawake (.inl hp)
  | writing taken =>
    -- whatever the file system does, a write comes to an end
    exact goesOn_of_step hawake
      (.write (.write hp (.failed (.io taken.job.path .noFileName) q.worker.machine)))
  | written taken result => exact goesOn_of_needsLock h hawake (.inr ⟨taken, result, hp⟩)
  | gone => exact absurd hp hplace

/-- A worker that has something to do is awake. -/
theorem awake_of_hasWork (h : q.Orderly) (hwork : q.worker.OneAtWork) (hhas : q.HasWork) :
    .worker ∉ q.asleep := by
  intro hasleep
  rcases h.worker hasleep with ⟨hplace, hpending, hstay⟩
  rcases hhas with ⟨-, hwaits | hflight | hstop⟩
  · exact hwaits hpending
  · -- a worker that sleeps has no job in its hands
    rw [SaveWorker.inFlight_of_looking hwork hplace] at hflight
    cases hflight
  · rw [hstay] at hstop
    cases hstop

theorem isIdle_eq_false_iff {queue : SaveQueue} :
    queue.isIdle = false ↔ queue.pending ≠ none ∨ queue.inFlight = true := by
  rw [SaveQueue.isIdle, Bool.and_eq_false_iff, Bool.not_eq_false', ← Bool.not_eq_true,
    Option.isNone_iff_eq_none]

/-- Nobody sleeps who has something to do, and as long as there is something to do somebody can go
on. -/
structure NoLostWakeup (q : SharedQueue) : Prop where
  worker : .worker ∈ q.asleep → q.worker.queue.pending = none ∧ q.worker.queue.stopping = false
  flush : ∀ n, .client n ∈ q.asleep → q.calls n = some .flush
    ∧ (q.worker.queue.pending ≠ none ∨ q.worker.queue.inFlight = true)
  /-- What there is to do for the worker is done by the worker. -/
  work : q.HasWork → .worker ∉ q.asleep ∧ q.GoesOn .worker
  /-- A call of `flush` that may return does. -/
  satisfied : ∀ n, q.calls n = some .flush → q.worker.queue.isIdle = true →
    .client n ∉ q.asleep ∧ q.GoesOn (.client n)
  /-- As long as a client is in a call, not everybody is stuck: except that nobody carries out what
  is submitted after the worker has left. -/
  unfinished : (q.worker.place = .gone → q.worker.queue.pending = none) →
    ∀ n call, q.calls n = some call → q.GoesOn (.client n) ∨ q.GoesOn .worker

/-- In whatever order the threads take their steps, no wakeup is lost. -/
theorem noLostWakeup_of_reachable (h : Reachable q) : q.NoLostWakeup := by
  have horderly := orderly_of_reachable h
  have hwork := SaveWorker.oneAtWork_of_reachable (reachable_worker h)
  have hdoes (hhas : q.HasWork) : .worker ∉ q.asleep ∧ q.GoesOn .worker := by
    have hawake := awake_of_hasWork horderly hwork hhas
    exact ⟨hawake, goesOn_worker horderly hawake hhas.1⟩
  have hsatisfied (n : Nat) (hcall : q.calls n = some .flush)
      (hidle : q.worker.queue.isIdle = true) :
      .client n ∉ q.asleep ∧ q.GoesOn (.client n) := by
    have hawake : .client n ∉ q.asleep := by
      intro hasleep
      rw [(horderly.client n hasleep).2] at hidle
      cases hidle
    exact ⟨hawake, goesOn_of_needsLock horderly hawake ⟨.flush, hcall, nofun⟩⟩
  refine ⟨?worker, ?flush, hdoes, hsatisfied, ?unfinished⟩
  case worker => exact fun hasleep => (horderly.worker hasleep).2
  case flush =>
    intro n hasleep
    rcases horderly.client n hasleep with ⟨hcall, hbusy⟩
    exact ⟨hcall, isIdle_eq_false_iff.1 hbusy⟩
  case unfinished =>
    intro hgone n call hcall
    by_cases hasleep : .client n ∈ q.asleep
    · -- it waits for the worker, which has not left
      right
      have hbusy := isIdle_eq_false_iff.1 (horderly.client n hasleep).2
      have hplace : q.worker.place ≠ .gone := by
        intro hp
        rcases hbusy with hwaits | hflight
        · exact hwaits (hgone hp)
        · rw [hwork.inFlight, hp] at hflight
          cases hflight
      exact (hdoes ⟨hplace, hbusy.imp_right .inl⟩).2
    · by_cases hjoin : call = .join
      · -- it waits for the end of the worker, which has been told to leave
        by_cases hplace : q.worker.place = .gone
        · exact .inl (goesOn_of_step hasleep (.join (hjoin ▸ hcall) hplace))
        · exact .inr (hdoes ⟨hplace, .inr (.inr (horderly.join n (hjoin ▸ hcall)))⟩).2
      · exact .inl (goesOn_of_needsLock horderly hasleep ⟨call, hcall, hjoin⟩)

/-- The worker falls asleep before there is a job. One client submits a job, which wakes it, and
before it has the lock another client calls `flush` and falls asleep. -/
theorem noLostWakeup_sample :
    let m : Machine := ⟨⟨[([], ⟨none, 0⟩)]⟩, 0, [], ⟨"/"⟩, 1, 0, []⟩
    let job : SaveJob := ⟨(CaseState.empty 0).snapshot, ⟨"p"⟩⟩
    let q : SharedQueue :=
      { worker := (SaveWorker.start m).submit job
        holder := none
        asleep := {.client 1}
        calls := Function.update (fun _ => none) 1 (some .flush) }
    Reachable q ∧ q.NoLostWakeup ∧ q.HasWork ∧ q.GoesOn .worker := by
  intro m job q
  have hlooks : (start m).NeedsLock .worker := .inl rfl
  have hsleeps := (((Reachable.started m).step (.lock rfl (Finset.notMem_empty _) hlooks)).step
    (.workerWaits rfl rfl rfl rfl))
  have hcalls := hsleeps.step (e := .calls 0 (.submit job)) (.call rfl nofun)
  have hlocks := hcalls.step (.lock (x := .client 0) rfl (by decide) ⟨.submit job, rfl, nofun⟩)
  have hsubmitted := hlocks.step (.submit (n := 0) rfl rfl (.submit job))
  have hflushes := hsubmitted.step (e := .calls 1 .flush) (.call rfl nofun)
  have hlocked := hflushes.step
    (.lock (x := .client 1) rfl (Finset.notMem_empty _) ⟨.flush, rfl, nofun⟩)
  have hwaits := hlocked.step (.flushWaits (n := 1) rfl rfl rfl)
  have hreached : Reachable q := by
    -- the first client is in no call again
    have hback : Function.update (Function.update (start m).calls 0 (some (.submit job))) 0 none
        = (start m).calls := by
      rw [Function.update_idem]
      exact Function.update_eq_self 0 _
    have hstate := congrArg
      (fun calls => { q with calls := Function.update calls 1 (some .flush) }) hback
    exact (congrArg Reachable hstate).mp hwaits
  have hwork : q.HasWork := ⟨nofun, .inl nofun⟩
  have hlost := noLostWakeup_of_reachable hreached
  exact ⟨hreached, hlost, hwork, (hlost.work hwork).2⟩

end SharedQueue

end EvidenceTags
