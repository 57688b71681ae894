import EvidenceTags.Proofs.Saves.Order
import Mathlib.Data.List.Induction

/-!
# When the saved file goes back in time

Out of order, a worker that is fast everywhere else and slow at one job brings the file back
(`Saving.exists_not_forward`). Fast is a worker that is done with all there is before each step of a
client (`Saving.eager`): the versions are written as they are handed over then, so an older one that
is handed over late is written late. Slow is a worker that took a job when it was handed over and is
at it still: a save that waits does not see it, and is overwritten once the worker goes on.

So the file never goes back exactly if the clients are in order (`forward_iff_inOrder`), and they
are not bound to be (`older_version_overwrites`).
-/

namespace EvidenceTags

namespace Saves

section

variable {history : Nat → CaseState} {target : Path}

namespace Saving

/-! ## A worker left to itself -/

/-- Steps of the worker one after another. -/
def workAll (s : Saving) (steps : List WorkerStep) : Saving := steps.foldl work s

theorem sound_workAll {s : Saving} (h : s.Sound history target) (steps : List WorkerStep) :
    (s.workAll steps).Sound history target := by
  induction steps generalizing s with
  | nil => exact h
  | cons e rest ih => exact ih (sound_work h e)

theorem trail_workAll {s : Saving} (h : s.Sound history target) (steps : List WorkerStep) :
    (s.workAll steps).trail = s.trail := by
  induction steps generalizing s with
  | nil => rfl
  | cons e rest ih =>
    calc ((s.work e).workAll rest).trail = (s.work e).trail := ih (sound_work h e)
      _ = s.trail := trail_work h e

theorem clients_workAll (s : Saving) (steps : List WorkerStep) :
    (s.workAll steps).clients = s.clients := by
  induction steps generalizing s with
  | nil => rfl
  | cons e rest ih =>
    calc ((s.work e).workAll rest).clients = (s.work e).clients := ih (s.work e)
      _ = s.clients := clients_work s e

theorem execute_worker (steps : List WorkerStep) (s : Saving) :
    execute history target (steps.map .worker) s = some (s.workAll steps) := by
  induction steps generalizing s with
  | nil => rfl
  | cons e rest ih => exact ih (s.work e)

theorem clientPart_worker_map (steps : List WorkerStep) :
    clientPart (steps.map .worker) = [] := by
  induction steps with
  | nil => rfl
  | cons e rest ih => exact ih

/-- The steps after which the queue is idle: the worker finishes the job that it is at, and the one
that waits. -/
def drain : List WorkerStep := [.write, .finish, .take, .write, .finish]

theorem writing_write (s : Saving) : (s.work .write).writing = none := by
  simp only [work]
  split
  · rfl
  · rename_i hnone
    exact hnone

theorem free_finish {s : Saving} (h : s.writing = none) : (s.work .finish).Free := by
  simp only [work]
  split
  · exact ⟨h, rfl⟩
  · -- with nothing to write, the worker only stays if it was at no job
    rename_i hdone
    exact ⟨h, by simpa [h] using hdone⟩

theorem pending_take {s : Saving} (h : s.Free) : (s.work .take).queue.pending = none := by
  simp only [work]
  split
  · rename_i job queue htake
    obtain ⟨-, -, rfl⟩ := SaveQueue.take?_eq_some htake
    rfl
  · rename_i hnone
    simpa [SaveQueue.take?, h.2] using hnone

theorem pending_write (s : Saving) : (s.work .write).queue.pending = s.queue.pending := by
  simp only [work]
  split <;> rfl

theorem pending_finish (s : Saving) : (s.work .finish).queue.pending = s.queue.pending := by
  simp only [work]
  split <;> rfl

theorem idle_drain (s : Saving) : (s.workAll drain).queue.isIdle = true := by
  have hfree := free_finish (writing_write s)
  have hlast := free_finish (writing_write (((s.work .write).work .finish).work .take))
  rw [SaveQueue.isIdle, Bool.and_eq_true, Option.isNone_iff_eq_none, Bool.not_eq_true']
  refine ⟨?_, hlast.2⟩
  show (((((s.work .write).work .finish).work .take).work .write).work .finish).queue.pending = none
  rw [pending_finish, pending_write, pending_take hfree]

/-- Everything on its way has been written by then. -/
theorem writes_drain {s : Saving} (h : s.Sound history target) :
    (s.workAll drain).writes = s.trail := by
  rw [← trail_of_idle (sound_workAll h drain) (idle_drain s), trail_workAll h]

/-- A step of a client can be taken, unless it is a flush that has to wait. -/
theorem exists_client (history : Nat → CaseState) (target : Path) (s : Saving) {e : ClientStep}
    (h : e ≠ .flush ∨ s.queue.isIdle = true) :
    ∃ t, s.client history target e = some t := by
  cases e with
  | mutate | capture call | saveNow => exact ⟨_, rfl⟩
  | submit call =>
    simp only [client]
    split <;> exact ⟨_, rfl⟩
  | flush =>
    have hidle := h.resolve_left fun hne => hne rfl
    exact ⟨_, if_pos hidle⟩

theorem writing_client {s t : Saving} {e : ClientStep}
    (ht : s.client history target e = some t) : t.writing = s.writing := by
  cases e with
  | mutate | capture call | saveNow =>
    cases ht
    rfl
  | submit call | flush =>
    simp only [client] at ht
    split at ht <;> cases ht <;> rfl

/-- What was written stays written. -/
theorem writes_step {s t : Saving} {e : Event} (ht : s.step history target e = some t) :
    s.writes <:+ t.writes := by
  cases e with
  | client e =>
    cases e with
    | mutate | capture call =>
      cases ht
      exact List.suffix_refl _
    | submit call | flush =>
      simp only [step, client] at ht
      split at ht <;> cases ht <;> exact List.suffix_refl _
    | saveNow =>
      cases ht
      exact List.suffix_cons _ _
  | worker e =>
    cases ht
    cases e with
    | take | finish =>
      simp only [work]
      split <;> exact List.suffix_refl _
    | write =>
      simp only [work]
      split
      · exact List.suffix_cons _ _
      · exact List.suffix_refl _

theorem writes_execute {events : List Event} {s r : Saving}
    (hr : execute history target events s = some r) : s.writes <:+ r.writes := by
  induction events generalizing s with
  | nil =>
    cases hr
    exact List.suffix_refl _
  | cons e rest ih =>
    rcases Option.bind_eq_some_iff.1 hr with ⟨t, ht, hrest⟩
    exact (writes_step ht).trans (ih hrest)

/-- The worker is done with all that there is before each step of a client. -/
def eager : List ClientStep → List Event
  | [] => []
  | e :: rest => drain.map .worker ++ .client e :: eager rest

theorem clientPart_eager (program : List ClientStep) : clientPart (eager program) = program := by
  induction program with
  | nil => rfl
  | cons e rest ih =>
    rw [eager, clientPart_append, clientPart_worker_map, clientPart_client, ih, List.nil_append]

/-- With such a worker, a program can be run from any state. -/
theorem exists_eager (history : Nat → CaseState) (target : Path) (program : List ClientStep)
    (s : Saving) :
    ∃ r, execute history target (eager program) s = some r := by
  induction program generalizing s with
  | nil => exact ⟨s, rfl⟩
  | cons e rest ih =>
    -- the queue is idle before the step, so even a flush may return
    rcases exists_client history target (s.workAll drain) (.inr (idle_drain s)) with ⟨t, ht⟩
    rcases ih t with ⟨r, hr⟩
    have hdrain : execute history target (drain.map .worker) s = some (s.workAll drain) :=
      execute_worker drain s
    exact ⟨r, execute_trans hdrain (execute_trans (execute_client ht) hr)⟩

/-- If nothing is left to write, a step of a client puts on the way what it hands over. -/
theorem trail_client_of_idle {s t : Saving} {e : ClientStep} (h : s.Sound history target)
    (hidle : s.queue.isIdle = true) (htrail : s.trail = s.clients.handed)
    (ht : s.client history target e = some t) : t.trail = t.clients.handed := by
  have hnone := unwritten_of_idle h hidle
  have hwriting := (List.append_eq_nil_iff.1 hnone).2
  have hwrites : s.writes = s.clients.handed := (trail_of_idle h hidle).symm.trans htrail
  cases e with
  | mutate =>
    cases ht
    exact htrail
  | capture call =>
    cases ht
    exact htrail.trans (Clients.handed_capture s.clients call).symm
  | submit call =>
    cases hcall : s.clients.calls call with
    | some v =>
      simp only [client, hcall, Option.some.injEq] at ht
      subst ht
      -- nobody waits and nothing is being written, so the job is right before the writes
      simp [trail, unwritten, SaveQueue.submit, Clients.step, hcall, hwriting, hwrites]
    | none =>
      simp only [client, hcall, Clients.step, Option.some.injEq] at ht
      exact ht ▸ htrail
  | saveNow =>
    cases ht
    show s.unwritten ++ s.clients.version :: s.writes = s.clients.version :: s.clients.handed
    rw [hnone, hwrites, List.nil_append]
  | flush =>
    rw [client, if_pos hidle] at ht
    cases ht
    exact htrail

/-- With such a worker, the versions are written as they are handed over. -/
theorem trail_eager {program : List ClientStep} {s r : Saving} (h : s.Sound history target)
    (htrail : s.trail = s.clients.handed)
    (hr : execute history target (eager program) s = some r) :
    r.Sound history target ∧ r.trail = r.clients.handed := by
  induction program generalizing s with
  | nil =>
    cases hr
    exact ⟨h, htrail⟩
  | cons e rest ih =>
    rw [eager, execute_append, execute_worker, Option.bind_some] at hr
    rcases Option.bind_eq_some_iff.1 hr with ⟨t, ht, hrest⟩
    have hdrain := sound_workAll h drain
    have hbefore : (s.workAll drain).trail = (s.workAll drain).clients.handed := by
      rw [trail_workAll h, htrail, clients_workAll]
    have hafter : t.trail = t.clients.handed :=
      trail_client_of_idle hdrain (idle_drain s) hbefore ht
    exact ih (sound_client hdrain ht) hafter hrest

/-- A run that has gone back can be continued by any program, and has gone back then, too. -/
theorem not_forward_of_writes {events : List Event} {s t : Saving} (rest : List ClientStep)
    (ht : execute history target events s = some t) (hback : ¬ t.writes.Pairwise (· ≥ ·)) :
    ∃ all r, clientPart all = clientPart events ++ rest ∧ execute history target all s = some r
      ∧ ¬ r.Forward history target := by
  rcases exists_eager history target rest t with ⟨r, hr⟩
  refine ⟨events ++ eager rest, r, ?_, execute_trans ht hr, ?_⟩
  · rw [clientPart_append, clientPart_eager]
  · intro hforward
    apply hback
    exact hforward.order.sublist (writes_execute hr).sublist

/-- A worker that is fast before a step has handed over everything by then. -/
theorem exists_caught_up (history : Nat → CaseState) (target : Path) (program : List ClientStep)
    (files : Path → Option Wire.Bytes) :
    ∃ s, execute history target (eager program ++ drain.map .worker) (start files) = some s
      ∧ s.Sound history target ∧ s.clients = Clients.start.after program
      ∧ s.queue.isIdle = true ∧ s.writes = s.clients.handed := by
  rcases exists_eager history target program (start files) with ⟨t, ht⟩
  rcases trail_eager (sound_start files) rfl ht with ⟨hsound, htrail⟩
  have hclients := clients_execute ht
  rw [clientPart_eager] at hclients
  -- what the last step handed over is written after it
  refine ⟨t.workAll drain, execute_trans ht (execute_worker drain t),
    sound_workAll hsound drain, ?_, idle_drain t, ?_⟩
  · rw [clients_workAll, hclients]
    rfl
  · rw [writes_drain hsound, htrail, clients_workAll]

/-- A job that was submitted since a flush is of a call at the end of the program, or was so
before. -/
theorem mem_since_step {c : Clients} {e : ClientStep} {v : Nat} (hv : v ∈ (c.step e).since) :
    (e ≠ .flush ∧ v ∈ c.since) ∨ ∃ call, e = .submit call ∧ c.calls call = some v := by
  cases e with
  | mutate | saveNow => exact .inl ⟨by simp, hv⟩
  | capture call =>
    rw [Clients.since_capture] at hv
    exact .inl ⟨by simp, hv⟩
  | submit call =>
    simp only [Clients.step] at hv
    split at hv
    · rename_i w hcall
      rcases List.mem_cons.1 hv with rfl | hv
      · exact .inr ⟨call, rfl, hcall⟩
      · exact .inl ⟨by simp, hv⟩
    · exact .inl ⟨by simp, hv⟩
  | flush => exact absurd hv List.not_mem_nil

/-- The worker may still be at any job that was submitted since a flush: it took the job at once and
was slow from then on. -/
theorem exists_held (history : Nat → CaseState) (target : Path) {program : List ClientStep}
    {v : Nat} (files : Path → Option Wire.Bytes) (hv : v ∈ (Clients.start.after program).since) :
    ∃ events s, clientPart events = program ∧ execute history target events (start files) = some s
      ∧ ∃ job, s.writing = some (job, v) := by
  induction program using List.reverseRecOn with
  | nil => exact absurd hv List.not_mem_nil
  | append_singleton program e ih =>
    rw [Clients.after_append] at hv
    rcases mem_since_step hv with ⟨hne, hbefore⟩ | ⟨call, rfl, hcall⟩
    · -- the job was taken before, and the worker is still at it
      rcases ih hbefore with ⟨events, s, hpart, hs, job, hjob⟩
      rcases exists_client history target s (.inl hne) with ⟨t, ht⟩
      refine ⟨events ++ [.client e], t, ?_, execute_trans hs (execute_client ht), job, ?_⟩
      · rw [clientPart_append, hpart]
        rfl
      · rw [writing_client ht, hjob]
    · -- the job is handed over now, to a worker that has nothing else to do
      rcases exists_caught_up history target program files with ⟨s, hs, -, hclients, hidle, -⟩
      simp only [SaveQueue.isIdle, Bool.and_eq_true, Bool.not_eq_true'] at hidle
      rw [← hclients] at hcall
      have hclient : s.client history target (.submit call) = some { s with
          clients := s.clients.step (.submit call)
          queue := s.queue.submit (jobOf history target v)
          waiting := v } := by
        simp only [client, hcall]
      refine ⟨(eager program ++ drain.map .worker) ++ ([.client (.submit call)] ++ [.worker .take]),
        _, ?_, execute_trans hs (execute_trans (execute_client hclient) rfl),
        jobOf history target v, ?_⟩
      · rw [clientPart_append, clientPart_append, clientPart_eager, clientPart_worker_map,
          List.append_nil]
        rfl
      · simp [work, SaveQueue.take?, SaveQueue.submit, hidle.2]

/-- Out of order, a run of the program takes the file back. -/
theorem exists_not_forward {program : List ClientStep} (files : Path → Option Wire.Bytes)
    (h : ¬ Clients.InOrder program .start) :
    ∃ events r, clientPart events = program ∧ execute history target events (start files) = some r
      ∧ ¬ r.Forward history target := by
  rcases Clients.exists_not_allowed h with ⟨before, e, rest, rfl, hnot⟩
  cases e with
  | mutate | capture call | flush => exact absurd trivial hnot
  | submit call =>
    -- the worker is fast all the time, and writes the older version after the newer one
    simp only [Clients.Allowed, not_forall] at hnot
    rcases hnot with ⟨v, hcall, w, hw, hnewer⟩
    rcases exists_caught_up history target (before ++ [.submit call]) files with
      ⟨s, hs, -, hclients, -, hwrites⟩
    have hhanded : s.writes = v :: (Clients.start.after before).handed := by
      rw [hwrites, hclients, Clients.after_append, Clients.after_cons, Clients.after_nil]
      simp only [Clients.step, Option.mem_def.1 hcall]
    have hunordered : ¬ s.writes.Pairwise (· ≥ ·) := by
      intro hdescending
      rw [hhanded] at hdescending
      exact hnewer ((List.pairwise_cons.1 hdescending).1 w hw)
    rcases not_forward_of_writes rest hs hunordered with ⟨all, r, hpart, hr, hback⟩
    refine ⟨all, r, ?_, hr, hback⟩
    rw [hpart, clientPart_append, clientPart_eager, clientPart_worker_map, List.append_nil,
      List.append_assoc]
    rfl
  | saveNow =>
    -- the worker is at an older job while the newer version is written past it
    simp only [Clients.Allowed, not_forall] at hnot
    rcases hnot with ⟨v, hv, holder⟩
    rcases exists_held history target files hv with ⟨events, s, hpart, hs, job, hjob⟩
    have hclients := clients_execute hs
    rw [hpart] at hclients
    have hversion : s.clients.version = (Clients.start.after before).version :=
      congrArg Clients.version hclients
    obtain ⟨t, ht, hwrites⟩ : ∃ t, execute history target [.client .saveNow, .worker .write] s
        = some t ∧ t.writes = v :: s.clients.version :: s.writes := by
      refine ⟨_, rfl, ?_⟩
      simp only [work, put, hjob]
    have hunordered : ¬ t.writes.Pairwise (· ≥ ·) := by
      intro hdescending
      rw [hwrites, hversion] at hdescending
      exact holder ((List.pairwise_cons.1 hdescending).1 _ List.mem_cons_self)
    rcases not_forward_of_writes rest (execute_trans hs ht) hunordered with
      ⟨all, r, hall, hr, hback⟩
    refine ⟨all, r, ?_, hr, hback⟩
    rw [hall, clientPart_append, hpart, List.append_assoc]
    rfl

end Saving

/-- The file never goes back, however the steps of the worker fall between those of the clients,
exactly if the clients' program is in order. -/
theorem forward_iff_inOrder (history : Nat → CaseState) (target : Path)
    (files : Path → Option Wire.Bytes) (program : List ClientStep) :
    (∀ events r, clientPart events = program
        → execute history target events (.start files) = some r → r.Forward history target)
      ↔ Clients.InOrder program .start := by
  constructor
  · intro hall
    by_contra hnot
    rcases Saving.exists_not_forward files hnot with ⟨events, r, hpart, hr, hback⟩
    exact hback (hall events r hpart hr)
  · intro horder events r hpart hr
    have hstart := Saving.inStep_start history target files
    have hend := Saving.inStep_execute hstart (hpart ▸ horder) hr
    exact Saving.forward_of_inStep hend

/-- A case with a tag from its second version on. -/
def taggedLater (version : Nat) : CaseState :=
  if version = 0 then .empty 0 else ((CaseState.empty 0).createTag "x").2

/-- A background save captures the first version, and hands it over after the second one was
saved. -/
def overtaken : List Event :=
  [.client (.capture 0), .client .mutate, .client (.capture 1), .client (.submit 1), .worker .take,
    .worker .write, .worker .finish, .client .flush, .client (.submit 0), .worker .take,
    .worker .write, .worker .finish, .client .flush]

/-- The overtaken save takes the file back: all is quiet, and the tag of the second version is
gone. -/
theorem older_version_overwrites :
    ¬ ∀ events r, execute taggedLater ⟨"p.tix"⟩ events (.start fun _ => none) = some r
      → r.Forward taggedLater ⟨"p.tix"⟩ := by
  intro hall
  have hforward := hall overtaken _ rfl
  -- neither of the two calls is in progress at the end
  have hnone : Clients.NoneInProgress (Clients.start.after (clientPart overtaken)) := by
    intro call
    show Function.update (Function.update (Function.update (Function.update (fun _ => none) 0
      (some 0)) 1 (some 1)) 1 none) 0 none call = none
    by_cases h0 : call = 0
    · rw [h0, Function.update_self]
    · rw [Function.update_of_ne h0]
      by_cases h1 : call = 1
      · rw [h1, Function.update_self]
      · rw [Function.update_of_ne h1, Function.update_of_ne h1, Function.update_of_ne h0]
  have hsaved : Clients.NewestSaved (Clients.start.after (clientPart overtaken)) 1 := by
    constructor <;> decide
  have hfile := hforward.newest ⟨hnone, rfl⟩ 1 hsaved
  exact absurd hfile (by decide)

end

end Saves

end EvidenceTags
