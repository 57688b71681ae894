import EvidenceTags.Proofs.FileContent
import EvidenceTags.Proofs.Saves.MostRecent
import Mathlib.Control.Monad.Basic

/-!
# The last save is not lost

Once a call of `flush` may return, and once the thread of the worker has come to its end, the last
job that was submitted has been written or has failed (`lastSaveDone_of_reachable`).

Three facts meet there. A submission that waits or was taken last is the latest one
(`Accounted.latest`), the queue is idle, and the host is as the last write left it
(`WriteStands`). That the queue is idle when the worker has left needs that nobody submits a job
after the drop: the worker looks for a job before it looks whether it has to leave, so at that
moment nothing waits, and later nothing can.
-/

namespace EvidenceTags

namespace SaveWorker

variable {admits : SaveWorker → WorkerEvent → Prop} {w w' : SaveWorker} {e : WorkerEvent}

/-- Who drops a queue is the last one to have it: no call is made from then on. -/
def CallsBeforeDrop (w : SaveWorker) : WorkerEvent → Prop
  | .submit _ | .flush | .drop => w.queue.stopping = false
  | .take | .write | .finish | .leave => True

/-! ## The end of the worker -/

theorem inFlight_of_looking (h : w.OneAtWork) (hplace : w.place = .looking) :
    w.queue.inFlight = false := by
  rw [h.inFlight, hplace]
  rfl

/-- A worker that looks for a job takes whatever waits. -/
theorem take?_eq_none_iff (h : w.OneAtWork) (hplace : w.place = .looking) :
    w.queue.take? = none ↔ w.queue.pending = none := by
  rw [SaveQueue.take?, inFlight_of_looking h hplace, if_neg Bool.false_ne_true,
    Option.map_eq_none_iff]

/-- The worker leaves exactly if it has been told to and the queue is idle. -/
theorem leaves_iff_mayLeave (h : Reachable admits w) (hplace : w.place = .looking) :
    (∃ w', Step w .leave w') ↔ w.queue.mayLeave = true := by
  have hwork := oneAtWork_of_reachable h
  rw [SaveQueue.mayLeave, SaveQueue.isIdle, inFlight_of_looking hwork hplace, Bool.not_false,
    Bool.and_true, Bool.and_eq_true, Option.isNone_iff_eq_none, ← take?_eq_none_iff hwork hplace]
  constructor
  · rintro ⟨_, hstep⟩
    cases hstep with
    | leave _ hnone hstop => exact ⟨hstop, hnone⟩
  · rintro ⟨hstop, hnone⟩
    exact ⟨_, .leave hplace hnone hstop⟩

/-- A worker that has left was told to, and nothing waits. -/
theorem nothing_waits_of_gone (h : Reachable CallsBeforeDrop w) :
    w.place = .gone → w.queue.stopping = true ∧ w.queue.pending = none := by
  refine invariant_of_reachable
    (I := fun w => w.place = .gone → w.queue.stopping = true ∧ w.queue.pending = none) ?_ ?_ h
  · intro m hgone
    cases hgone
  intro w e w' hreach hw hstep hadmits hgone
  cases hstep with
  | submit job =>
    -- the worker could have left only after the drop
    obtain ⟨hstop, -⟩ := hw hgone
    exact absurd (hadmits.symm.trans hstop) Bool.false_ne_true
  | flush _ => exact hw hgone
  | drop => exact ⟨rfl, (hw hgone).2⟩
  | take _ _ | write _ _ | finish _ => cases hgone
  | leave hplace hnone hstop =>
    exact ⟨hstop, (take?_eq_none_iff (oneAtWork_of_reachable hreach) hplace).1 hnone⟩

/-- As long as the queue is not idle the worker has something to do. -/
theorem exists_step_of_not_idle (h : Reachable CallsBeforeDrop w) (hbusy : w.queue.isIdle = false) :
    ∃ e w', e ∈ [.take, .write, .finish] ∧ Step w e w' := by
  have hwork := oneAtWork_of_reachable h
  cases hplace : w.place with
  | looking =>
    cases htake : w.queue.take? with
    | some p => exact ⟨_, _, by simp, .take hplace htake⟩
    | none =>
      -- a queue with nothing to take for a worker that is free is idle
      have hnone := (take?_eq_none_iff hwork hplace).1 htake
      rw [SaveQueue.isIdle, hnone, inFlight_of_looking hwork hplace] at hbusy
      cases hbusy
  | writing taken =>
    -- whatever the file system does, a write comes to an end
    exact ⟨_, _, by simp, .write hplace (.failed (.io taken.job.path .noFileName) w.machine)⟩
  | written taken result => exact ⟨_, _, by simp, .finish hplace⟩
  | gone =>
    have hflight := hwork.inFlight
    rw [hplace] at hflight
    rw [SaveQueue.isIdle, (nothing_waits_of_gone h hplace).2, hflight] at hbusy
    cases hbusy

/-! ## What the last write left -/

/-- The last write that came to its end, with its result. -/
def lastWrite? (w : SaveWorker) : Option (Submission × Except StoreError Unit) :=
  match w.place with
  | .written taken result => some (taken, result)
  | .looking | .writing _ | .gone => w.finished.head?

/-- If the last write succeeded, its file holds its snapshot. -/
def WriteStands (w : SaveWorker) : Prop :=
  ∀ x, w.lastWrite? = some (x, .ok ()) → w.machine.read x.job.path = .ok x.job.snapshot.encode

theorem Writes.read {job : SaveJob} {left : Machine} (h : Writes job (.ok ()) left) :
    left.read job.path = .ok job.snapshot.encode := by
  cases h with
  | carriedOut found hok => exact Machine.read_of_replaceFile hok

/-- A step is a write, or leaves the last write the last one and the host as it was. -/
theorem lastWrite?_of_step (h : Step w e w') :
    (∃ x result, w'.lastWrite? = some (x, result) ∧ Writes x.job result w'.machine)
      ∨ (w'.lastWrite? = w.lastWrite? ∧ w'.machine = w.machine) := by
  cases h with
  | submit _ | flush _ | drop => exact .inr ⟨rfl, rfl⟩
  | write _ hwrites => exact .inl ⟨_, _, rfl, hwrites⟩
  | take hplace _ | finish hplace | leave hplace _ _ =>
    right
    refine ⟨?_, rfl⟩
    simp only [lastWrite?, hplace, List.head?_cons]

theorem writeStands_of_reachable (h : Reachable admits w) : w.WriteStands := by
  refine invariant_of_reachable ?_ ?_ h
  · intro m x hx
    cases hx
  · intro w e w' _ hw hstep _ x hx
    rcases lastWrite?_of_step hstep with ⟨y, result, hlast, hwrites⟩ | ⟨hlast, hmachine⟩
    · rw [hlast] at hx
      cases hx
      exact hwrites.read
    · rw [hmachine]
      exact hw x (hlast ▸ hx)

/-! ## The last save -/

/-- The last save has been carried out as far as it ever will be. -/
structure LastSaveDone (w : SaveWorker) : Prop where
  idle : w.queue.pending = none ∧ w.queue.inFlight = false
  /-- The last submission has been taken last, and its write was the last one to be finished. -/
  finished : ∀ x, w.submitted.head? = some x →
    w.taken.head? = some x ∧ ∃ result, w.finished.head? = some (x, result)
  /-- If the last write succeeded, the file of the last submission holds its snapshot. -/
  content : ∀ x y, w.submitted.head? = some x → w.finished.head? = some (y, .ok ()) →
    w.machine.read x.job.path = .ok x.job.snapshot.encode

/-- Whatever has been submitted, and whichever writes have failed: where a call of `flush` may
return, and where the worker has left, the last save is not lost. -/
theorem lastSaveDone_of_reachable (h : Reachable CallsBeforeDrop w)
    (hend : (∃ w', Step w .flush w') ∨ w.place = .gone) : w.LastSaveDone := by
  have hwork := oneAtWork_of_reachable h
  have hidle : w.queue.pending = none ∧ w.queue.inFlight = false := by
    rcases hend with ⟨_, hflush⟩ | hgone
    · cases hflush with
      | flush hidle => simpa [SaveQueue.isIdle] using hidle
    · have hflight := hwork.inFlight
      rw [hgone] at hflight
      exact ⟨(nothing_waits_of_gone h hgone).2, hflight⟩
  -- the worker is at no job, and so it has finished all that it took
  have hnone : w.place.job? = none := by
    rw [← Option.not_isSome_iff_eq_none, ← hwork.inFlight, hidle.2]
    exact Bool.false_ne_true
  have htaken : w.taken = w.finished.map Prod.fst := by
    rw [hwork.taken, hnone]
    rfl
  have hlatest : w.submitted.head? = w.taken.head? := by
    rw [← (accounted_of_reachable h).latest, kept, next?, hidle.1]
    rfl
  have hfinished : ∀ x, w.submitted.head? = some x →
      ∃ result, w.finished.head? = some (x, result) := by
    intro x hx
    rw [hlatest, htaken, List.head?_map] at hx
    obtain ⟨⟨y, result⟩, hy, rfl⟩ := Option.map_eq_some_iff.1 hx
    exact ⟨result, hy⟩
  refine ⟨hidle, fun x hx => ⟨hlatest ▸ hx, hfinished x hx⟩, ?_⟩
  intro x y hx hy
  obtain ⟨result, hresult⟩ := hfinished x hx
  have hsame := hresult.symm.trans hy
  cases hsame
  apply writeStands_of_reachable h
  -- the worker is not between a write and its end
  cases hplace : w.place with
  | written taken result => rw [hplace] at hnone; cases hnone
  | looking | writing _ | gone => simp only [lastWrite?, hplace, hy]

/-- The second job replaces the first one and is written. Then a call of `flush` may return, and
after the drop the worker leaves. -/
theorem lastSaveDone_sample :
    let m : Machine := ⟨⟨[([], ⟨none, 0⟩)]⟩, 0, [], ⟨"/"⟩, 1, 0, []⟩
    let job (word : String) : SaveJob :=
      ⟨{ (CaseState.empty 0).snapshot with typedWords := [word] }, ⟨"p"⟩⟩
    let left : Machine := ((SaveQueue.write (job "b") : StateM Machine _) m).2
    let idle : SaveWorker :=
      { queue := ⟨none, false, false, 1⟩
        place := .looking
        machine := left
        waiting := 1
        submitted := [⟨1, job "b"⟩, ⟨0, job "a"⟩]
        taken := [⟨1, job "b"⟩]
        replaced := [(⟨0, job "a"⟩, ⟨1, job "b"⟩)]
        finished := [(⟨1, job "b"⟩, .ok ())] }
    let gone : SaveWorker := { idle with queue := ⟨none, false, true, 1⟩, place := .gone }
    Reachable CallsBeforeDrop idle ∧ Step idle .flush idle ∧ idle.LastSaveDone
      ∧ Reachable CallsBeforeDrop gone ∧ gone.LastSaveDone
      ∧ left.read ⟨"p"⟩ = .ok (job "b").snapshot.encode := by
  intro m job left idle gone
  have hok : ((SaveQueue.write (job "b") : StateM Machine _) m).1 = .ok () := by decide +kernel
  have hwrites : Writes (job "b") (.ok ()) left := .carriedOut m hok
  -- the write has been computed, and the rest does not depend on what it leaves
  clear_value left
  have hwaits : Reachable CallsBeforeDrop (((start m).submit (job "a")).submit (job "b")) :=
    ((Reachable.started m).step (.submit (job "a")) rfl).step (.submit (job "b")) rfl
  have htaken := hwaits.step (.take rfl rfl) trivial
  have hwritten := htaken.step (.write rfl hwrites) trivial
  have hidle : Reachable CallsBeforeDrop idle := hwritten.step (.finish rfl) trivial
  have hdropped := hidle.step .drop rfl
  have hgone : Reachable CallsBeforeDrop gone := hdropped.step (.leave rfl rfl rfl) trivial
  have hflush : Step idle .flush idle := .flush rfl
  have hdone := lastSaveDone_of_reachable hidle (.inl ⟨idle, hflush⟩)
  exact ⟨hidle, hflush, hdone, hgone, lastSaveDone_of_reachable hgone (.inr rfl),
    hdone.content _ _ rfl rfl⟩

end SaveWorker

end EvidenceTags
