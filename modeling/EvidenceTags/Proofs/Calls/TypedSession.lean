import EvidenceTags.Proofs.Calls.TypedCalls

/-!
# Typed words reach the disk

A client types words and does with an open case whatever neither loads nor saves, while a worker
writes in the background what is handed to it. Calls and writes are programs, and between any two
calls of a host that one of them makes, the other may make some (`OpenCase.Reached`). Any call of a
host may fail.

The client calls one operation after the other. A new word is saved before the call returns if the
case saves at once. If not, the snapshot is handed to the worker when the call returns, in the place
of one that still waits.

* The jobs that were written, that is being written and that waits, in this order, are
  `OpenCase.jobs`. The last of them holds the words of the case (`Recorded`).
* If the saves that have ended have all succeeded under one path, the last of them is found there
  (`Going`).

When the queue is idle, as it is when `flush` returns (`OpenCase.isIdle_of_flush`), these are the
same, so then the file holds the words (`OpenCase.typedWords_of_reached`).
-/

namespace EvidenceTags

open Machine Wire

/-- Passes on the job that a call hands over, if it does. -/
def SaveQueue.hand (q : SaveQueue) : Option SaveJob → SaveQueue
  | some job => q.submit job
  | none => q

/-- An open case, with the call that its client is waiting for and the job that its worker is
writing. -/
structure OpenCase where
  store : Store
  call : Option (StoreOp × Program (List Attempt × Store))
  writing : Option (SaveJob × Program (Except StoreError Unit))
  machine : Machine
  /-- The texts that have been passed to be remembered. -/
  passed : List String
  /-- The saves that have ended, the latest last. -/
  saves : List Attempt

namespace OpenCase

/-- A case that has just been opened. -/
def opened (domain : Domain) (settings : Settings) (m : Machine) : OpenCase :=
  let answer := (Store.openCase domain settings : StateM Machine _) m
  ⟨answer.1, none, none, answer.2, [], []⟩

/-- An operation is called. What it hands to the worker is put into a queue of its own until it
returns. -/
def begin (c : OpenCase) (op : StoreOp) : OpenCase :=
  { c with call := some (op, ({ c.store with queue := .empty } : Store).record op) }

/-- An operation returns. -/
def receive (c : OpenCase) (op : StoreOp) (answer : List Attempt × Store) : OpenCase :=
  { c with
    store := { answer.2 with queue := c.store.queue.hand answer.2.queue.pending }
    call := none
    passed := c.passed ++ op.typed
    saves := c.saves ++ answer.1 }

/-- The worker takes a job. -/
def take (c : OpenCase) (job : SaveJob) (queue : SaveQueue) : OpenCase :=
  { c with store := { c.store with queue }, writing := some (job, Store.recordWrite job) }

/-- The worker is done with its job. -/
def finish (c : OpenCase) (job : SaveJob) (result : Except StoreError Unit) : OpenCase :=
  { c with
    store := { c.store with queue := c.store.queue.finish }
    writing := none
    saves := c.saves ++ [⟨job, result⟩] }

/-- The states of a case on which a client carries out plain operations, where the calls of a host
may fail that `fails` tells. A call of `flush` does not begin before the queue is idle. -/
inductive Reached (fails : Request → Prop) : OpenCase → Prop
  | opened (domain : Domain) (settings : Settings) (m : Machine) :
      Reached fails (opened domain settings m)
  | called {c : OpenCase} (op : StoreOp) (h : Reached fails c) (hcall : c.call = none)
      (hop : op.Plain)
      (hflush : op = .flush → c.store.queue.isIdle = true) : Reached fails (c.begin op)
  | asked {c : OpenCase} {op : StoreOp} {p p' : Program (List Attempt × Store)} {m : Machine}
      (h : Reached fails c) (hcall : c.call = some (op, p))
      (hstep : Program.Step fails p c.machine p' m) :
      Reached fails { c with call := some (op, p'), machine := m }
  | returned {c : OpenCase} {op : StoreOp} {answer : List Attempt × Store} (h : Reached fails c)
      (hcall : c.call = some (op, .done answer)) : Reached fails (c.receive op answer)
  | taken {c : OpenCase} {job : SaveJob} {queue : SaveQueue} (h : Reached fails c)
      (htake : c.store.queue.take? = some (job, queue)) : Reached fails (c.take job queue)
  | wrote {c : OpenCase} {job : SaveJob} {p p' : Program (Except StoreError Unit)} {m : Machine}
      (h : Reached fails c) (hwriting : c.writing = some (job, p))
      (hstep : Program.Step fails p c.machine p' m) :
      Reached fails { c with writing := some (job, p'), machine := m }
  | finished {c : OpenCase} {job : SaveJob} {result : Except StoreError Unit} (h : Reached fails c)
      (hwriting : c.writing = some (job, .done result)) : Reached fails (c.finish job result)

/-! ## Jobs -/

/-- The jobs that were written, that is being written and that waits. -/
def jobs (c : OpenCase) : List SaveJob :=
  c.saves.map Attempt.toSaveJob ++ (c.writing.map Prod.fst).toList ++ c.store.queue.pending.toList

/-- The words in the last of some jobs. -/
def lastWords (jobs : List SaveJob) : List String :=
  match jobs.getLast? with
  | some job => job.snapshot.typedWords
  | none => []

/-- The words are remembered as they should be, and the last job holds them. -/
structure Recorded (c : OpenCase) : Prop where
  fit : c.store.Fit
  firstUse : FirstUse c.passed c.store.state.typedWords
  fits : ∀ job ∈ c.jobs, job.path.IsTarget ∧ SetsFit job.snapshot.members
  words : lastWords c.jobs = c.store.state.typedWords
  inFlight : c.store.queue.inFlight = c.writing.isSome
  atOnce : c.store.syncSave = true → c.writing = none ∧ c.store.queue.pending = none

variable {c : OpenCase} {op : StoreOp} {job : SaveJob} {queue : SaveQueue} {m : Machine}
  {answer : List Attempt × Store} {result : Except StoreError Unit}

theorem recorded_opened (domain : Domain) (settings : Settings) (m : Machine) :
    (opened domain settings m).Recorded := by
  have hstore : (opened domain settings m).store = _ :=
    congrArg Prod.fst (Store.openCase_apply domain settings m)
  have hqueue : (opened domain settings m).store.queue = .empty := by rw [hstore]
  have hstate : (opened domain settings m).store.state = .empty domain.lastId := by rw [hstore]
  have hjobs : (opened domain settings m).jobs = [] := by
    rw [jobs, hqueue]
    rfl
  constructor
  case fit =>
    rw [hstore]
    exact ⟨SetsFit.empty, isTarget_stateFile m _, isTarget_cookie m _ _⟩
  case firstUse =>
    rw [hstate]
    exact FirstUse.empty
  case fits =>
    rw [hjobs]
    exact fun _ hjob => absurd hjob List.not_mem_nil
  case words =>
    rw [hjobs, hstate]
    rfl
  case inFlight =>
    rw [hqueue]
    rfl
  case atOnce =>
    rw [hqueue]
    exact fun _ => ⟨rfl, rfl⟩

/-- It matters which job is being written, and not how far the write has got. -/
theorem Recorded.congr {c' : OpenCase} (h : c.Recorded) (hstore : c'.store = c.store)
    (hpassed : c'.passed = c.passed) (hsaves : c'.saves = c.saves)
    (hwriting : c'.writing.map Prod.fst = c.writing.map Prod.fst) : c'.Recorded := by
  have hjobs : c'.jobs = c.jobs := by rw [jobs, hstore, hsaves, hwriting, jobs]
  constructor
  case fit => exact hstore ▸ h.fit
  case firstUse =>
    rw [hstore, hpassed]
    exact h.firstUse
  case fits => exact hjobs ▸ h.fits
  case words =>
    rw [hjobs, hstore]
    exact h.words
  case inFlight =>
    rw [hstore, ← Option.isSome_map (f := Prod.fst), hwriting, Option.isSome_map]
    exact h.inFlight
  case atOnce =>
    rw [hstore]
    intro hsync
    rcases h.atOnce hsync with ⟨hnone, hpending⟩
    rw [hnone] at hwriting
    exact ⟨Option.map_eq_none_iff.1 hwriting, hpending⟩

theorem inFlight_hand (q : SaveQueue) (job : Option SaveJob) :
    (q.hand job).inFlight = q.inFlight := by
  cases job <;> rfl

/-- The jobs of a call that returns. -/
def newJobs (answer : List Attempt × Store) : List SaveJob :=
  answer.1.map Attempt.toSaveJob ++ answer.2.queue.pending.toList

theorem mem_jobs_receive (h : job ∈ (c.receive op answer).jobs) :
    job ∈ c.jobs ∨ job ∈ newJobs answer := by
  simp only [jobs, receive, List.map_append, List.mem_append] at h
  simp only [jobs, newJobs, List.mem_append]
  rcases h with ((hold | hnew) | hwriting) | hwaiting
  · exact .inl (.inl (.inl hold))
  · exact .inr (.inl hnew)
  · exact .inl (.inl (.inr hwriting))
  · cases hpending : answer.2.queue.pending with
    | none =>
      rw [hpending] at hwaiting
      exact .inl (.inr hwaiting)
    | some other =>
      rw [hpending] at hwaiting
      exact .inr (.inr hwaiting)

/-- The new jobs come last: those that were saved at once, or the one that is handed to the
worker. -/
theorem getLast?_jobs_receive (hsaves : c.store.syncSave = false → answer.1 = [])
    (hpending : c.store.syncSave = true → answer.2.queue.pending = none)
    (hatOnce : c.store.syncSave = true → c.writing = none ∧ c.store.queue.pending = none) :
    (c.receive op answer).jobs.getLast? = (newJobs answer).getLast?.or c.jobs.getLast? := by
  cases hsync : c.store.syncSave with
  | true =>
    rcases hatOnce hsync with ⟨hwriting, hwaiting⟩
    simp [jobs, receive, newJobs, hpending hsync, SaveQueue.hand, hwriting, hwaiting]
  | false =>
    cases hjob : answer.2.queue.pending with
    | none => simp [jobs, receive, newJobs, hsaves hsync, hjob, SaveQueue.hand]
    | some job =>
      simp [jobs, receive, newJobs, hsaves hsync, hjob, SaveQueue.hand, SaveQueue.submit]

theorem Recorded.receive {saves : List Attempt} (h : c.Recorded)
    (hreturned : Store.Returned c.store.state c.store.syncSave op.typed saves answer)
    (hsaves : c.store.syncSave = false → answer.1 = []) : (c.receive op answer).Recorded := by
  have hnew (job : SaveJob) (hjob : job ∈ newJobs answer) :
      job.path.IsTarget ∧ job.snapshot = answer.2.state.snapshot := by
    rw [newJobs, hreturned.tried] at hjob
    exact hreturned.saved job hjob
  constructor
  case fit => exact hreturned.fit.withQueue _
  case firstUse => exact hreturned.firstUse c.passed h.firstUse
  case fits =>
    intro job hjob
    rcases mem_jobs_receive hjob with hold | hjob
    · exact h.fits job hold
    · rcases hnew job hjob with ⟨htarget, hsnapshot⟩
      rw [hsnapshot]
      exact ⟨htarget, hreturned.fit.packed⟩
  case words =>
    rw [lastWords, getLast?_jobs_receive hsaves hreturned.atOnce h.atOnce]
    cases hlast : (newJobs answer).getLast? with
    | none =>
      have hnone : newJobs answer = [] := List.getLast?_eq_none_iff.1 hlast
      rw [newJobs, hreturned.tried] at hnone
      exact h.words.trans (hreturned.unsaved hnone).symm
    | some job =>
      have hjob := hnew job (List.mem_of_getLast? hlast)
      show job.snapshot.typedWords = answer.2.state.typedWords
      rw [hjob.2]
      rfl
  case inFlight =>
    show (c.store.queue.hand answer.2.queue.pending).inFlight = _
    rw [inFlight_hand]
    exact h.inFlight
  case atOnce =>
    intro hsync
    have hsync : c.store.syncSave = true := hreturned.syncSave.symm.trans hsync
    refine ⟨(h.atOnce hsync).1, ?_⟩
    show (c.store.queue.hand answer.2.queue.pending).pending = none
    rw [hreturned.atOnce hsync]
    exact (h.atOnce hsync).2

/-- A job that the worker takes is the one that waits, and goes into a target. -/
theorem Recorded.take (h : c.Recorded) (htake : c.store.queue.take? = some (job, queue)) :
    c.writing = none ∧ job.path.IsTarget ∧ (c.take job queue).Recorded := by
  rcases SaveQueue.take?_eq_some htake with ⟨hidle, hpending, rfl⟩
  have hwriting : c.writing = none := by
    have hinFlight := h.inFlight
    rw [hidle] at hinFlight
    exact Option.not_isSome_iff_eq_none.1 (by rw [← hinFlight]; exact Bool.false_ne_true)
  have hjobs : (c.take job { c.store.queue with pending := none, inFlight := true }).jobs
      = c.jobs := by
    simp [jobs, OpenCase.take, hwriting, hpending]
  have hmem : job ∈ c.jobs := by simp [jobs, hpending]
  refine ⟨hwriting, (h.fits job hmem).1, h.fit.withQueue _, h.firstUse, ?_, ?_, rfl, ?_⟩
  · rw [hjobs]
    exact h.fits
  · rw [hjobs]
    exact h.words
  · intro hsync
    rw [(h.atOnce hsync).2] at hpending
    cases hpending

theorem Recorded.finish {p : Program (Except StoreError Unit)} (h : c.Recorded)
    (hwriting : c.writing = some (job, p))
    (result : Except StoreError Unit) : (c.finish job result).Recorded := by
  have hjobs : (c.finish job result).jobs = c.jobs := by
    simp [jobs, OpenCase.finish, SaveQueue.finish, hwriting]
  refine ⟨h.fit.withQueue _, h.firstUse, ?_, ?_, rfl, ?_⟩
  · rw [hjobs]
    exact h.fits
  · rw [hjobs]
    exact h.words
  · intro hsync
    rw [(h.atOnce hsync).1] at hwriting
    cases hwriting

/-! ## Calls and writes that are going on -/

/-- How far the call and the write have got, and which of their saves have ended. -/
structure Going (c : OpenCase) (written called : List Attempt) : Prop where
  call : ∀ op p, c.call = some (op, p) →
    Store.Calling c.store.state op.typed c.machine c.store.syncSave p called
  noCall : c.call = none → called = []
  write : ∀ job p, c.writing = some (job, p) →
    Saving (fun saves result => saves = [⟨job, result⟩]) p c.machine written
  noWrite : c.writing = none → written = []
  kept : Kept c.machine (c.saves ++ (written ++ called))

variable {written called saves : List Attempt} {fails : Request → Prop}

/-- The worker has something to write only if the case does not save at once. -/
theorem Recorded.syncSave_eq_false {p : Program (Except StoreError Unit)} (h : c.Recorded)
    (hwriting : c.writing = some (job, p)) : c.store.syncSave = false := by
  cases hsync : c.store.syncSave with
  | false => rfl
  | true =>
    rw [(h.atOnce hsync).1] at hwriting
    cases hwriting

/-- What the client does while the worker writes goes on in the same way on any machine. -/
theorem Going.while_writing {p : Program (Except StoreError Unit)} (h : c.Going written called)
    (hrecorded : c.Recorded) (hwriting : c.writing = some (job, p)) (m : Machine) :
    called = [] ∧ ∀ op p, c.call = some (op, p) →
      Store.Calling c.store.state op.typed m c.store.syncSave p called := by
  have hsync := hrecorded.syncSave_eq_false hwriting
  have hcall := h.call
  rw [hsync] at hcall ⊢
  cases hcalled : c.call with
  | none => exact ⟨h.noCall hcalled, nofun⟩
  | some call =>
    rcases (hcall call.1 call.2 hcalled).of_handed m with ⟨hnil, hcalling⟩
    refine ⟨hnil, ?_⟩
    intro op p heq
    cases heq
    exact hcalling

theorem going_opened (domain : Domain) (settings : Settings) (m : Machine) :
    (opened domain settings m).Going [] [] :=
  ⟨nofun, fun _ => rfl, nofun, fun _ => rfl, kept_nil _⟩

theorem Going.begin (h : c.Going written called) (hrecorded : c.Recorded) (hcall : c.call = none)
    (hop : op.Plain) : (c.begin op).Going written [] := by
  have hkept := h.kept
  rw [h.noCall hcall] at hkept
  refine ⟨?_, fun _ => rfl, h.write, h.noWrite, hkept⟩
  intro op' p heq
  cases heq
  exact Store.calling_record (hrecorded.fit.withQueue .empty) rfl hop c.machine

theorem Going.ask {p p' : Program (List Attempt × Store)} (h : c.Going written called)
    (hrecorded : c.Recorded) (hcall : c.call = some (op, p))
    (hstep : Program.Step fails p c.machine p' m) :
    ∃ called', Going { c with call := some (op, p'), machine := m } written called' := by
  rcases (h.call op p hcall).step hstep with ⟨called', hcalling, hlands, hprobed⟩
  have hkept := h.kept
  rw [← List.append_assoc] at hkept
  refine ⟨called', ?_, nofun, ?_, h.noWrite, ?_⟩
  · intro op' q heq
    cases heq
    exact hcalling
  · intro job q hwriting
    exact (h.write job q hwriting).stable (hprobed (hrecorded.syncSave_eq_false hwriting))
  · rw [← List.append_assoc]
    exact hkept.lands hlands

theorem Going.receive (h : c.Going written called) (hrecorded : c.Recorded)
    (hcall : c.call = some (op, .done answer)) :
    (c.receive op answer).Recorded ∧ (c.receive op answer).Going written [] := by
  have hcalling := h.call op _ hcall
  have hreturned := hcalling.of_done
  have hsaves : c.store.syncSave = false → answer.1 = [] := by
    intro hsync
    rw [hsync] at hcalling
    exact hreturned.tried.trans (hcalling.of_handed c.machine).1
  refine ⟨hrecorded.receive hreturned hsaves, nofun, fun _ => rfl, h.write, h.noWrite, ?_⟩
  have hkept := h.kept
  rw [← hreturned.tried] at hkept
  show Kept c.machine (c.saves ++ answer.1 ++ (written ++ []))
  -- either the client has saved or the worker
  cases hsync : c.store.syncSave with
  | true =>
    rw [h.noWrite (hrecorded.atOnce hsync).1] at hkept ⊢
    simpa using hkept
  | false =>
    rw [hsaves hsync] at hkept ⊢
    simpa using hkept

theorem Going.take (h : c.Going written called) (hwriting : c.writing = none)
    (htarget : job.path.IsTarget)
    (queue : SaveQueue) : (c.take job queue).Going written called := by
  refine ⟨h.call, h.noCall, ?_, nofun, h.kept⟩
  rintro other p heq
  cases heq
  rw [h.noWrite hwriting]
  apply Saving.before (x := pure job)
  refine ⟨htarget, ?_⟩
  intro result
  cases result with
  | error e => exact Program.quiet_bind (Program.inherited_quiet.log _) fun _ _ => rfl
  | ok _ => exact rfl

theorem Going.wrote {p p' : Program (Except StoreError Unit)} (h : c.Going written called)
    (hrecorded : c.Recorded) (hwriting : c.writing = some (job, p))
    (hstep : Program.Step fails p c.machine p' m) :
    ∃ written', Going { c with writing := some (job, p'), machine := m } written' called := by
  rcases (h.write job p hwriting).step hstep with ⟨written', hsaving, hlands⟩
  rcases h.while_writing hrecorded hwriting m with ⟨rfl, hcall⟩
  have hkept := h.kept
  rw [List.append_nil] at hkept
  refine ⟨written', hcall, fun _ => rfl, ?_, nofun, ?_⟩
  · intro other q heq
    cases heq
    exact hsaving
  · rw [List.append_nil]
    exact hkept.lands hlands

theorem Going.finish (h : c.Going written called)
    (hwriting : c.writing = some (job, .done result)) :
    (c.finish job result).Going [] called := by
  have hwritten : written = [⟨job, result⟩] := (h.write job _ hwriting).of_done
  refine ⟨h.call, h.noCall, nofun, fun _ => rfl, ?_⟩
  have hkept := h.kept
  rw [hwritten] at hkept
  show Kept c.machine (c.saves ++ [⟨job, result⟩] ++ ([] ++ called))
  simpa using hkept

/-! ## The words of a case -/

theorem recorded_of_reached (h : Reached fails c) :
    c.Recorded ∧ ∃ written called, c.Going written called := by
  induction h with
  | opened domain settings m =>
    exact ⟨recorded_opened domain settings m, [], [], going_opened domain settings m⟩
  | called op _ hcall hop _ ih =>
    rcases ih with ⟨hrecorded, written, called, hgoing⟩
    exact ⟨hrecorded.congr rfl rfl rfl rfl, written, [], hgoing.begin hrecorded hcall hop⟩
  | asked _ hcall hstep ih =>
    rcases ih with ⟨hrecorded, written, called, hgoing⟩
    rcases hgoing.ask hrecorded hcall hstep with ⟨called', hgoing'⟩
    exact ⟨hrecorded.congr rfl rfl rfl rfl, written, called', hgoing'⟩
  | returned _ hcall ih =>
    rcases ih with ⟨hrecorded, written, called, hgoing⟩
    rcases hgoing.receive hrecorded hcall with ⟨hrecorded', hgoing'⟩
    exact ⟨hrecorded', written, [], hgoing'⟩
  | @taken c job queue _ htake ih =>
    rcases ih with ⟨hrecorded, written, called, hgoing⟩
    rcases hrecorded.take htake with ⟨hwriting, htarget, hrecorded'⟩
    exact ⟨hrecorded', written, called, hgoing.take hwriting htarget queue⟩
  | wrote _ hwriting hstep ih =>
    rcases ih with ⟨hrecorded, written, called, hgoing⟩
    rcases hgoing.wrote hrecorded hwriting hstep with ⟨written', hgoing'⟩
    exact ⟨hrecorded.congr rfl rfl rfl (by rw [hwriting]; rfl), written', called, hgoing'⟩
  | finished _ hwriting ih =>
    rcases ih with ⟨hrecorded, written, called, hgoing⟩
    exact ⟨hrecorded.finish hwriting _, [], called, hgoing.finish hwriting⟩

/-- While `flush` is called, the queue is idle, and nothing is handed to it. -/
theorem flush_of_reached {p : Program (List Attempt × Store)} (h : Reached fails c)
    (hcall : c.call = some (.flush, p)) :
    c.store.queue.isIdle = true ∧ ∃ s : Store, p = .done ([], s) ∧ s.queue.pending = none := by
  induction h generalizing p with
  | opened | returned => cases hcall
  | @called c op _ _ _ hflush =>
    cases hcall
    exact ⟨hflush rfl, { c.store with queue := .empty }, rfl, rfl⟩
  | asked _ hbefore hstep ih =>
    cases hcall
    rcases ih hbefore with ⟨-, s, rfl, -⟩
    cases hstep
  | taken _ htake ih =>
    rcases SaveQueue.take?_eq_some htake with ⟨-, hpending, -⟩
    have hidle := (ih hcall).1
    rw [SaveQueue.isIdle, hpending] at hidle
    cases hidle
  | wrote _ _ _ ih => exact ih hcall
  | finished h hwriting ih =>
    have hinFlight := (recorded_of_reached h).1.inFlight
    have hidle := (ih hcall).1
    rw [SaveQueue.isIdle, hinFlight, hwriting, Option.isSome_some, Bool.not_true,
      Bool.and_false] at hidle
    cases hidle

/-- When `flush` returns, the queue is idle. -/
theorem isIdle_of_flush (h : Reached fails c) (hcall : c.call = some (.flush, .done answer)) :
    (c.receive .flush answer).store.queue.isIdle = true := by
  rcases flush_of_reached h hcall with ⟨hidle, s, hanswer, hpending⟩
  cases hanswer
  show (c.store.queue.hand s.queue.pending).isIdle = true
  rw [hpending]
  exact hidle

/-- The typed words are those that have been passed, in the order of their first use. Whenever no
operation is called and the queue is idle, and all saves have succeeded under one path, the file
holds them. -/
theorem typedWords_of_reached (h : Reached fails c) :
    FirstUse c.passed c.store.state.typedWords
      ∧ ∀ path, c.call = none → c.store.queue.isIdle = true → c.store.state.typedWords ≠ [] →
        (∀ a ∈ c.saves, a.path = path ∧ a.result = .ok ()) →
          (∀ a ∈ c.saves, a.snapshot.LengthsFit) →
        ∃ snapshot, c.machine.Holds path (.current snapshot)
          ∧ snapshot.typedWords = c.store.state.typedWords := by
  rcases recorded_of_reached h with ⟨hrecorded, written, called, hgoing⟩
  refine ⟨hrecorded.firstUse, ?_⟩
  intro path hcall hidle hwords hsaves hlengths
  rcases Bool.and_eq_true_iff.1 hidle with ⟨hpending, hinFlight⟩
  have hpending : c.store.queue.pending = none := Option.isNone_iff_eq_none.1 hpending
  have hwriting : c.writing = none := by
    rw [hrecorded.inFlight] at hinFlight
    cases hwriting : c.writing with
    | none => rfl
    | some job =>
      rw [hwriting] at hinFlight
      cases hinFlight
  -- all that was to be saved has been saved
  have hjobs : c.jobs = c.saves.map Attempt.toSaveJob := by simp [jobs, hwriting, hpending]
  have hkept : Kept c.machine c.saves := by
    have hkept := hgoing.kept
    rw [hgoing.noWrite hwriting, hgoing.noCall hcall] at hkept
    simpa using hkept
  have hlast := hrecorded.words
  rw [hjobs, lastWords, List.getLast?_map] at hlast
  cases hsave : c.saves.getLast? with
  | none =>
    rw [hsave] at hlast
    exact absurd hlast.symm hwords
  | some a =>
    rw [hsave] at hlast
    have hmem := List.mem_of_getLast? hsave
    have hfits : SetsFit a.snapshot.members := by
      refine (hrecorded.fits a.toSaveJob ?_).2
      rw [hjobs]
      exact List.mem_map_of_mem hmem
    refine ⟨a.snapshot, ⟨a.snapshot.encode, ?_, ?_⟩, hlast⟩
    · exact read_eq_ok_iff.2 (hkept.last path hsaves a hsave)
    · exact (Snapshot.decode_encode_iff (hlengths a hmem)).2 hfits

/-! ## Runs -/

/-- A call may be carried out while the worker rests. -/
theorem Reached.carryOut {p p' : Program (List Attempt × Store)} (h : Reached fails c)
    (hcall : c.call = some (op, p)) (hreaches : Program.Reaches fails (p, c.machine) (p', m)) :
    Reached fails { c with call := some (op, p'), machine := m } := by
  refine hreaches.preserves
    (P := fun p m => Reached fails { c with call := some (op, p), machine := m }) ?_ ?_
  · exact fun _ _ _ _ hbefore hstep => hbefore.asked rfl hstep
  · rw [← hcall]
    exact h

/-- A job may be written while the client rests. -/
theorem Reached.writeOut {p p' : Program (Except StoreError Unit)} (h : Reached fails c)
    (hwriting : c.writing = some (job, p))
    (hreaches : Program.Reaches fails (p, c.machine) (p', m)) :
    Reached fails { c with writing := some (job, p'), machine := m } := by
  refine hreaches.preserves
    (P := fun p m => Reached fails { c with writing := some (job, p), machine := m }) ?_ ?_
  · exact fun _ _ _ _ hbefore hstep => hbefore.wrote rfl hstep
  · rw [← hwriting]
    exact h

/-- Carries out an operation at once. -/
def perform (c : OpenCase) (op : StoreOp) : OpenCase :=
  let answer := (({ c.store with queue := .empty } : Store).record op : Program _).run c.machine
  { c with machine := answer.2 }.receive op answer.1

/-- Writes the job that waits at once. -/
def work (c : OpenCase) : OpenCase :=
  match c.store.queue.take? with
  | none => c
  | some (job, queue) =>
    let answer := (Store.recordWrite job : Program _).run c.machine
    { c.take job queue with machine := answer.2 }.finish job answer.1

theorem Reached.perform (h : Reached fails c) (hcall : c.call = none) {op : StoreOp}
    (hop : op.Plain)
    (hflush : op = .flush → c.store.queue.isIdle = true) : Reached fails (c.perform op) := by
  have hbegun := Reached.called op h hcall hop hflush
  have hdone := hbegun.carryOut rfl (Program.reaches_run _ c.machine)
  exact hdone.returned rfl

theorem Reached.work (h : Reached fails c) : Reached fails c.work := by
  unfold OpenCase.work
  cases htake : c.store.queue.take? with
  | none => exact h
  | some taken =>
    rcases taken with ⟨job, queue⟩
    have htaken := h.taken htake
    have hdone := htaken.writeOut rfl (Program.reaches_run _ c.machine)
    exact hdone.finished rfl

/-- Of two saves the first has been superseded before it was written, and the file holds both
words. -/
theorem typedWords_of_reached_sample :
    ∃ c, Reached (fun _ => True) c ∧ c.call = none ∧ c.store.queue.isIdle = true
      ∧ c.passed = ["b", " ", "a", "b"] ∧ c.store.state.typedWords = ["b", "a"]
      ∧ c.saves.map (fun a => (a.path.text, a.result.isOk)) = [("m/bookmarks.tix", true)]
      ∧ FirstUse c.passed c.store.state.typedWords
      ∧ ∃ snapshot, c.machine.Holds ⟨"m/bookmarks.tix"⟩ (.current snapshot)
        ∧ snapshot.typedWords = c.store.state.typedWords := by
  let machine : Machine := ⟨⟨[([], ⟨none, 0⟩), (["m"], ⟨none, 0⟩)]⟩, 0, [], ⟨"/"⟩, 1, 0, []⟩
  let type (c : OpenCase) (word : String) : OpenCase := c.perform (.state (.addTypedWord word))
  have htype {c : OpenCase} (h : Reached (fun _ => True) c) (hcall : c.call = none)
      (word : String) : Reached (fun _ => True) (type c word) :=
    h.perform hcall (.state _ nofun) nofun
  let c₀ := opened (.dense 3) ⟨⟨"m"⟩, none, false⟩ machine
  let c := (type (type (type (type c₀ "b") " ") "a") "b").work
  have hreached : Reached (fun _ => True) c :=
    (htype (htype (htype (htype (.opened _ _ _) rfl _) rfl _) rfl _) rfl _).work
  have hcall : c.call = none := by decide +kernel
  have hidle : c.store.queue.isIdle = true := by decide +kernel
  have hwords : c.store.state.typedWords = ["b", "a"] := by decide +kernel
  have hsaves : ∀ a ∈ c.saves, a.path = ⟨"m/bookmarks.tix"⟩ ∧ a.result = .ok () := by decide +kernel
  have hsnapshots : ∀ a ∈ c.saves,
      a.snapshot
        = { (CaseState.empty ⟨3⟩).snapshot with typedWords := ["b", "a"] } := by decide +kernel
  have hlengths : ∀ a ∈ c.saves, a.snapshot.LengthsFit := by
    intro a ha
    rw [hsnapshots a ha]
    exact ⟨by decide, trivial, ⟨by decide, by decide, by decide⟩, by decide, by decide⟩
  rcases typedWords_of_reached hreached with ⟨hfirst, hholds⟩
  refine ⟨c, hreached, hcall, hidle, by decide +kernel, hwords, by decide +kernel, hfirst, ?_⟩
  exact hholds ⟨"m/bookmarks.tix"⟩ hcall hidle (by rw [hwords]; simp) hsaves hlengths

end OpenCase

end EvidenceTags
