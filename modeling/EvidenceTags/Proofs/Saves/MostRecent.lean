import EvidenceTags.Proofs.Saves.Worker

/-!
# The most recent job wins

A submission that has not lost its place to a later one is kept: it waits, or the worker took it.
Only a submission changes what is kept and what is replaced (`submissions_of_step`), since to take a
job is to move it among the kept ones. So one lemma about submissions (`Accounted.submit`) carries
the whole account of what becomes of them. What the worker does to the jobs that it took is a
second, independent account (`OneAtWork`).
-/

namespace EvidenceTags

namespace SaveWorker

variable {admits : SaveWorker → WorkerEvent → Prop} {w w' : SaveWorker} {e : WorkerEvent}

/-! ## What becomes of submissions -/

/-- The submissions that no later one replaced, the latest first. -/
def kept (w : SaveWorker) : List Submission := w.next?.toList ++ w.taken

/-- Every submission is kept or replaced. -/
structure Accounted (w : SaveWorker) : Prop where
  /-- The number of the next submission is new. -/
  below : ∀ x ∈ w.submitted, x.number < w.submitted.length
  numbered : w.submitted.Pairwise (·.number > ·.number)
  inOrder : w.kept.Sublist w.submitted
  /-- The last submission is kept. -/
  latest : w.kept.head? = w.submitted.head?
  parted : w.submitted.Perm (w.kept ++ w.replaced.map Prod.fst)
  later : ∀ x y, (x, y) ∈ w.replaced → y ∈ w.submitted ∧ x.number < y.number

theorem accounted_start (m : Machine) : (start m).Accounted := by
  refine ⟨?below, .nil, .slnil, rfl, .nil, ?later⟩
  case below =>
    intro x hx
    cases hx
  case later =>
    intro x y hxy
    cases hxy

/-- What is kept and what is replaced changes with submissions only. -/
theorem submissions_of_step (h : Step w e w') :
    (∃ job, w' = w.submit job)
      ∨ (w'.submitted = w.submitted ∧ w'.kept = w.kept ∧ w'.replaced = w.replaced) := by
  cases h with
  | submit job => exact .inl ⟨job, rfl⟩
  | take hplace htake =>
    right
    obtain ⟨-, hpending, rfl⟩ := SaveQueue.take?_eq_some htake
    refine ⟨rfl, ?_, rfl⟩
    -- the job that waited is the last one that was taken
    simp only [kept, next?, hpending, Option.map_none, Option.map_some, Option.toList_none,
      Option.toList_some, List.nil_append, List.singleton_append]
  | flush _ | drop | write _ _ | finish _ | leave _ _ _ => exact .inr ⟨rfl, rfl, rfl⟩

/-- A submission is kept, and only the one that waited is kept no longer. -/
theorem Accounted.submit (h : w.Accounted) (job : SaveJob) : (w.submit job).Accounted := by
  have hkept : (w.submit job).kept = ⟨w.submitted.length, job⟩ :: w.taken := rfl
  have hreplaced : (w.submit job).replaced.map Prod.fst
      = w.next?.toList ++ w.replaced.map Prod.fst := by
    simp only [SaveWorker.submit, List.map_append, List.map_map, Function.comp_def, List.map_id']
  have hmem (x : Submission) (hx : x ∈ w.kept) : x.number < w.submitted.length :=
    h.below x (h.inOrder.subset hx)
  refine ⟨?below, ?numbered, ?inOrder, rfl, ?parted, ?later⟩
  case below =>
    intro x hx
    rcases List.mem_cons.1 hx with rfl | hx
    · exact Nat.lt_succ_self _
    · exact Nat.lt_succ_of_lt (h.below x hx)
  case numbered => exact List.pairwise_cons.2 ⟨h.below, h.numbered⟩
  case inOrder =>
    rw [hkept]
    exact ((List.sublist_append_right _ _).trans h.inOrder).cons_cons _
  case parted =>
    -- what waited goes from the kept ones to the replaced ones
    rw [hkept, hreplaced, List.cons_append]
    refine List.Perm.cons _ (h.parted.trans ?_)
    rw [kept, ← List.append_assoc]
    exact List.perm_append_comm.append_right _
  case later =>
    intro x y hxy
    rcases List.mem_append.1 hxy with hxy | hxy
    · obtain ⟨old, hold, heq⟩ := List.mem_map.1 hxy
      cases heq
      exact ⟨List.mem_cons_self, hmem _ (List.mem_append_left _ hold)⟩
    · obtain ⟨hy, hlt⟩ := h.later x y hxy
      exact ⟨List.mem_cons_of_mem _ hy, hlt⟩

theorem accounted_of_reachable (h : Reachable admits w) : w.Accounted := by
  refine invariant_of_reachable accounted_start ?_ h
  intro w e w' _ hw hstep _
  rcases submissions_of_step hstep with ⟨job, rfl⟩ | ⟨hsubmitted, hkept, hreplaced⟩
  · exact hw.submit job
  · refine ⟨?_, ?_, ?_, ?_, ?_, ?_⟩ <;> rw [hsubmitted]
    · exact hw.below
    · exact hw.numbered
    · exact hkept ▸ hw.inOrder
    · exact hkept ▸ hw.latest
    · exact hkept ▸ hreplaced ▸ hw.parted
    · exact hreplaced ▸ hw.later

/-! ## What the worker does -/

/-- The worker finishes what it took before it takes anything else, and while it is at a job the
queue says so. -/
structure OneAtWork (w : SaveWorker) : Prop where
  taken : w.taken = w.place.job?.toList ++ w.finished.map Prod.fst
  inFlight : w.queue.inFlight = w.place.job?.isSome
  completed : w.queue.completed = w.finished.length

theorem OneAtWork.step (h : w.OneAtWork) (hstep : Step w e w') : w'.OneAtWork := by
  obtain ⟨htaken, hflight, hcompleted⟩ := h
  cases hstep with
  | submit _ | flush _ | drop => exact ⟨htaken, hflight, hcompleted⟩
  | take hplace htake =>
    obtain ⟨-, -, rfl⟩ := SaveQueue.take?_eq_some htake
    rw [hplace] at htaken
    exact ⟨congrArg (List.cons _) htaken, rfl, hcompleted⟩
  | write hplace _ =>
    -- the worker stays at its job
    rw [hplace] at htaken hflight
    exact ⟨htaken, hflight, hcompleted⟩
  | finish hplace =>
    rw [hplace] at htaken
    exact ⟨htaken, rfl, congrArg (· + 1) hcompleted⟩
  | leave hplace _ _ =>
    rw [hplace] at htaken hflight
    exact ⟨htaken, hflight, hcompleted⟩

theorem oneAtWork_of_reachable (h : Reachable admits w) : w.OneAtWork :=
  invariant_of_reachable (fun _ => ⟨rfl, rfl, rfl⟩) (fun _ _ _ _ hw hstep _ => hw.step hstep) h

/-! ## The account -/

/-- What has become of the jobs of a worker. -/
structure MostRecentWins (w : SaveWorker) : Prop where
  /-- Submissions are numbered as they come, so that no two are the same. -/
  numbered : w.submitted.Pairwise (·.number > ·.number)
  /-- Jobs are taken in the order in which they were submitted, each at most once. -/
  inOrder : w.taken.Sublist w.submitted
  /-- All that was taken is finished, but for the job that the worker is at, if it is at one. -/
  oneAtWork : w.taken = w.place.job?.toList ++ w.finished.map Prod.fst
  inFlight : w.queue.inFlight = w.place.job?.isSome
  /-- What was neither taken nor waits was replaced by a later submission. -/
  superseded : ∀ x ∈ w.submitted, x ∉ w.taken → w.next? ≠ some x →
    ∃ y ∈ w.submitted, x.number < y.number ∧ (x, y) ∈ w.replaced
  /-- What was replaced has never been taken. -/
  beforeTaken : ∀ x y, (x, y) ∈ w.replaced → x ∉ w.taken ∧ w.next? ≠ some x
  counted : w.submitted.length
    = w.taken.length + w.replaced.length + if w.queue.pending.isSome then 1 else 0
  completed : w.queue.completed = w.finished.length

theorem mem_kept {x : Submission} : x ∈ w.kept ↔ w.next? = some x ∨ x ∈ w.taken := by
  rw [kept, List.mem_append, Option.mem_toList]

theorem length_kept :
    w.kept.length = w.taken.length + if w.queue.pending.isSome then 1 else 0 := by
  rw [kept, next?, List.length_append, Nat.add_comm]
  cases w.queue.pending <;> rfl

/-- In whatever order clients, owner and worker take their steps, the most recent job wins. -/
theorem mostRecentWins_of_reachable (h : Reachable admits w) : w.MostRecentWins := by
  obtain ⟨hbelow, hnumbered, hinOrder, -, hparted, hlater⟩ := accounted_of_reachable h
  obtain ⟨htaken, hflight, hcompleted⟩ := oneAtWork_of_reachable h
  have hdistinct : (w.kept ++ w.replaced.map Prod.fst).Nodup := by
    refine hparted.nodup_iff.1 (hnumbered.imp ?_)
    intro x y hgt heq
    exact Nat.lt_irrefl _ (heq ▸ hgt)
  refine ⟨hnumbered, (List.sublist_append_right _ _).trans hinOrder, htaken, hflight, ?superseded,
    ?beforeTaken, ?counted, hcompleted⟩
  case superseded =>
    intro x hx hnotTaken hnotWaiting
    rcases List.mem_append.1 (hparted.subset hx) with hkept | hreplaced
    · -- what is kept waits or was taken
      rcases mem_kept.1 hkept with hwaits | hwasTaken
      · exact absurd hwaits hnotWaiting
      · exact absurd hwasTaken hnotTaken
    · obtain ⟨⟨x, y⟩, hxy, rfl⟩ := List.mem_map.1 hreplaced
      obtain ⟨hy, hlt⟩ := hlater x y hxy
      exact ⟨y, hy, hlt, hxy⟩
  case beforeTaken =>
    intro x y hxy
    have hnotKept : x ∉ w.kept := by
      intro hx
      exact (List.nodup_append.1 hdistinct).2.2 x hx x (List.mem_map_of_mem hxy) rfl
    exact ⟨fun hx => hnotKept (mem_kept.2 (.inr hx)), fun hx => hnotKept (mem_kept.2 (.inl hx))⟩
  case counted =>
    rw [hparted.length_eq, List.length_append, List.length_map, length_kept]
    exact Nat.add_right_comm _ _ _

/-- The second job replaces the first one, the third comes while the second is being written, and
after that write has failed the worker, which has been told to leave, has still to take the
third. -/
theorem mostRecentWins_sample :
    let m : Machine := ⟨⟨[([], ⟨none, 0⟩)]⟩, 0, [], ⟨"/"⟩, 1, 0, []⟩
    let job (word : String) : SaveJob :=
      ⟨{ (CaseState.empty 0).snapshot with typedWords := [word] }, ⟨"p"⟩⟩
    let failure : StoreError := .io ⟨"p"⟩ .noFileName
    let w : SaveWorker :=
      { queue := ⟨some (job "c"), false, true, 1⟩
        place := .looking
        machine := m
        waiting := 2
        submitted := [⟨2, job "c"⟩, ⟨1, job "b"⟩, ⟨0, job "a"⟩]
        taken := [⟨1, job "b"⟩]
        replaced := [(⟨0, job "a"⟩, ⟨1, job "b"⟩)]
        finished := [(⟨1, job "b"⟩, .error failure)] }
    Reachable (fun _ _ => True) w ∧ w.MostRecentWins := by
  intro m job failure w
  have hwaits : Reachable (fun _ _ => True) (((start m).submit (job "a")).submit (job "b")) :=
    ((Reachable.started m).step (.submit (job "a")) trivial).step (.submit (job "b")) trivial
  have htaken := hwaits.step (.take rfl rfl) trivial
  have hthird := htaken.step (.submit (job "c")) trivial
  have hfailed := hthird.step (.write rfl (.failed failure m)) trivial
  have hdropped := hfailed.step .drop trivial
  have hw : Reachable (fun _ _ => True) w := hdropped.step (.finish rfl) trivial
  exact ⟨hw, mostRecentWins_of_reachable hw⟩

end SaveWorker

end EvidenceTags
