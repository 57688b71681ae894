import EvidenceTags.Proofs.Calls.SharedTree
import EvidenceTags.Proofs.Calls.StoreCalls
import EvidenceTags.Proofs.Calls.TypedSession
import EvidenceTags.Proofs.TouchedFiles

/-!
# Saving touches only its targets, call by call

A `Store.Session` carries out a whole operation, or a whole write of the worker, at once. Here both
are programs, and between any two calls of a host that one of them makes, the other may make some
(`OpenCase.Served`). Any call may fail, but for the removal of a file.

* At any moment every file that is not called like a scratch file is as it was, or holds a snapshot
  as a whole (`OpenCase.whole_of_served`).
* When neither an operation nor a write is going on, the tree has changed only where saves have
  succeeded, just as in a session (`OpenCase.touched_of_served`).

Both follow from what the two programs have in hand (`OpenCase.AtWork`). Neither is disturbed by the
other, as no state is saved under the name of a scratch file.
-/

namespace EvidenceTags

open FileTree Machine

namespace OpenCase

/-- The moments of a store at work, with the states that it has had, the latest first. A store
begins when nothing is left to be saved. The calls of a host may fail that `fails` tells. -/
inductive Served (fails : Request → Prop) (start : Machine) : OpenCase → List CaseState → Prop
  | begun (s : Store) (hidle : s.queue.isIdle = true) (haims : s.Aims start.Foreign) :
      Served fails start ⟨s, none, none, start, [], []⟩ [s.state]
  | called {c : OpenCase} {past : List CaseState} (op : StoreOp) (h : Served fails start c past)
      (hcall : c.call = none) (hop : ∀ path sync, op = .saveTo path sync → start.Foreign path)
      (hflush : op = .flush → c.store.queue.isIdle = true) : Served fails start (c.begin op) past
  | asked {c : OpenCase} {past : List CaseState} {op : StoreOp}
      {p p' : Program (List Attempt × Store)} {m : Machine} (h : Served fails start c past)
      (hcall : c.call = some (op, p)) (hstep : Program.Step fails p c.machine p' m) :
      Served fails start { c with call := some (op, p'), machine := m } past
  | returned {c : OpenCase} {past : List CaseState} {op : StoreOp} {answer : List Attempt × Store}
      (h : Served fails start c past) (hcall : c.call = some (op, .done answer)) :
      Served fails start (c.receive op answer) (answer.2.state :: past)
  | taken {c : OpenCase} {past : List CaseState} {job : SaveJob} {queue : SaveQueue}
      (h : Served fails start c past) (htake : c.store.queue.take? = some (job, queue)) :
      Served fails start (c.take job queue) past
  | wrote {c : OpenCase} {past : List CaseState} {job : SaveJob}
      {p p' : Program (Except StoreError Unit)} {m : Machine} (h : Served fails start c past)
      (hwriting : c.writing = some (job, p)) (hstep : Program.Step fails p c.machine p' m) :
      Served fails start { c with writing := some (job, p'), machine := m } past
  | finished {c : OpenCase} {past : List CaseState} {job : SaveJob}
      {result : Except StoreError Unit} (h : Served fails start c past)
      (hwriting : c.writing = some (job, .done result)) :
      Served fails start (c.finish job result) past

/-! ## Where what is saved comes from -/

/-- Whatever has been saved, waits to be saved or is being written is the snapshot of a state that
the store has had, and goes where no scratch file is made. -/
structure Traced (start : Machine) (c : OpenCase) (past : List CaseState) : Prop where
  aims : c.store.Aims start.Foreign
  saved : ∀ a ∈ c.saves, Store.FromPast past a.toSaveJob
  waiting : ∀ job, c.store.queue.pending = some job →
    start.Foreign job.path ∧ Store.FromPast past job
  writing : ∀ job p, c.writing = some (job, p) → Store.FromPast past job
  inFlight : c.store.queue.inFlight = c.writing.isSome

section

variable {start : Machine} {c : OpenCase} {past : List CaseState} {op : StoreOp} {job : SaveJob}
  {queue : SaveQueue} {answer : List Attempt × Store} {result : Except StoreError Unit}

theorem traced_begun {s : Store} (hidle : s.queue.isIdle = true) (haims : s.Aims start.Foreign)
    (m : Machine) : Traced start ⟨s, none, none, m, [], []⟩ [s.state] := by
  rw [SaveQueue.isIdle, Bool.and_eq_true, Option.isNone_iff_eq_none, Bool.not_eq_true'] at hidle
  constructor
  case aims => exact haims
  case saved => exact fun a ha => absurd ha List.not_mem_nil
  case waiting =>
    intro job hjob
    rw [hidle.1] at hjob
    cases hjob
  case writing =>
    intro job p hjob
    cases hjob
  case inFlight => exact hidle.2

/-- It does not matter how far a call or a write has got. -/
theorem Traced.congr {c' : OpenCase} (h : c.Traced start past) (hstore : c'.store = c.store)
    (hsaves : c'.saves = c.saves) (hwriting : c'.writing.map Prod.fst = c.writing.map Prod.fst) :
    c'.Traced start past := by
  refine ⟨hstore ▸ h.aims, hsaves ▸ h.saved, hstore ▸ h.waiting, ?_, ?_⟩
  · intro job p hjob
    rw [hjob, Option.map_some] at hwriting
    rcases Option.map_eq_some_iff.1 hwriting.symm with ⟨⟨other, q⟩, hother, rfl⟩
    exact h.writing other q hother
  · rw [hstore, ← Option.isSome_map (f := Prod.fst), hwriting, Option.isSome_map]
    exact h.inFlight

theorem Traced.receive {ended : List Attempt} (h : c.Traced start past)
    (hanswer : Store.Answered start.Foreign ended answer) :
    (c.receive op answer).Traced start (answer.2.state :: past) := by
  have hnew (job : SaveJob)
      (hjob : job ∈ ended.map Attempt.toSaveJob ++ answer.2.queue.pending.toList) :
      start.Foreign job.path ∧ Store.FromPast (answer.2.state :: past) job := by
    rcases hanswer.saved job hjob with ⟨hpath, hsnapshot⟩
    exact ⟨hpath, answer.2.state, List.mem_cons_self, hsnapshot⟩
  constructor
  case aims => exact ⟨hanswer.aims.stateFile, hanswer.aims.cookie⟩
  case saved =>
    intro a ha
    rcases List.mem_append.1 ha with ha | ha
    · exact (h.saved a ha).cons _
    · rw [hanswer.tried] at ha
      exact (hnew a.toSaveJob (List.mem_append_left _ (List.mem_map_of_mem ha))).2
  case waiting =>
    intro job hjob
    change (c.store.queue.hand answer.2.queue.pending).pending = some job at hjob
    cases hpending : answer.2.queue.pending with
    | none =>
      rw [hpending] at hjob
      rcases h.waiting job hjob with ⟨hpath, hpast⟩
      exact ⟨hpath, hpast.cons _⟩
    | some other =>
      rw [hpending] at hjob
      cases hjob
      exact hnew job (List.mem_append_right _ (by rw [hpending]; exact List.mem_singleton_self _))
  case writing => exact fun job p hjob => (h.writing job p hjob).cons _
  case inFlight =>
    show (c.store.queue.hand answer.2.queue.pending).inFlight = _
    rw [inFlight_hand]
    exact h.inFlight

theorem Traced.take (h : c.Traced start past) (htake : c.store.queue.take? = some (job, queue)) :
    c.writing = none ∧ start.Foreign job.path ∧ (c.take job queue).Traced start past := by
  rcases SaveQueue.take?_eq_some htake with ⟨hidle, hpending, rfl⟩
  have hwriting : c.writing = none := by
    rw [← Option.not_isSome_iff_eq_none, ← h.inFlight, hidle]
    exact Bool.false_ne_true
  rcases h.waiting job hpending with ⟨hpath, hpast⟩
  refine ⟨hwriting, hpath, ⟨h.aims.stateFile, h.aims.cookie⟩, h.saved, nofun, ?_, rfl⟩
  rintro other p heq
  cases heq
  exact hpast

theorem Traced.finish {p : Program (Except StoreError Unit)} (h : c.Traced start past)
    (hwriting : c.writing = some (job, p)) : (c.finish job result).Traced start past := by
  refine ⟨⟨h.aims.stateFile, h.aims.cookie⟩, ?_, h.waiting, nofun, rfl⟩
  intro a ha
  rcases List.mem_append.1 ha with ha | ha
  · exact h.saved a ha
  · rw [List.mem_singleton.1 ha]
    exact h.writing job p hwriting

end

/-! ## Calls and writes that are going on -/

theorem perm_ended (saves called written : List Attempt) :
    (saves ++ (called ++ written)).Perm (saves ++ written ++ called) := by
  rw [List.append_assoc]
  exact List.perm_append_comm.append_left saves

/-- How far the call and the write have got, what they have in hand, and which of their saves have
ended. -/
structure AtWork (start : Machine) (c : OpenCase) (hand other : Hand start.process)
    (called written : List Attempt) : Prop where
  call : ∀ op p, c.call = some (op, p) →
    Writing start.Foreign (Store.Answered start.Foreign) c.machine hand p called
  noCall : c.call = none → hand = .empty ∧ called = []
  write : ∀ job p, c.writing = some (job, p) →
    Writing start.Foreign (fun saves result => saves = [⟨job, result⟩]) c.machine other p written
  noWrite : c.writing = none → other = .empty ∧ written = []
  shared : Shared start c.machine hand other (c.saves ++ (called ++ written))

section

variable {fails : Request → Prop} {start m : Machine} {c : OpenCase} {past : List CaseState}
  {hand other : Hand start.process} {called written : List Attempt} {op : StoreOp} {job : SaveJob}
  {answer : List Attempt × Store} {result : Except StoreError Unit}

theorem atWork_begun (hfree : ∀ l, start.OwnScratch l → start.tree.content? l = none) (s : Store) :
    AtWork start ⟨s, none, none, start, [], []⟩ .empty .empty [] [] :=
  ⟨nofun, fun _ => ⟨rfl, rfl⟩, nofun, fun _ => ⟨rfl, rfl⟩, .refl hfree⟩

theorem AtWork.begin (h : c.AtWork start hand other called written)
    (haims : c.store.Aims start.Foreign) (hcall : c.call = none)
    (hop : ∀ path sync, op = .saveTo path sync → start.Foreign path) :
    (c.begin op).AtWork start hand other called written := by
  rcases h.noCall hcall with ⟨rfl, rfl⟩
  refine ⟨?_, nofun, h.write, h.noWrite, h.shared⟩
  intro op' p heq
  cases heq
  have haims : Store.Aims { c.store with queue := .empty } start.Foreign :=
    ⟨haims.stateFile, haims.cookie⟩
  exact Store.writing_record haims rfl hop (fun path htarget => htarget.foreign start) c.machine

theorem AtWork.ask {p p' : Program (List Attempt × Store)}
    (h : c.AtWork start hand other called written)
    (hfree : ∀ l, start.OwnScratch l → start.tree.content? l = none)
    (hremoves : ∀ path, ¬ fails (.remove path)) (hcall : c.call = some (op, p))
    (hstep : Program.Step fails p c.machine p' m) : ∃ hand' called',
      AtWork start { c with call := some (op, p'), machine := m } hand' other called' written := by
  have hshared := h.shared.perm (perm_ended _ _ _)
  rcases (h.call op p hcall).step h.shared.process hremoves (h.shared.plain hfree) hstep with
    ⟨hand', called', hwriting, hdeed⟩
  refine ⟨hand', called', ?_, nofun, ?_, h.noWrite, ?_⟩
  · intro op' q heq
    cases heq
    exact hwriting
  · intro job q hjob
    exact (h.write job q hjob).stable hdeed.differs fun name => h.shared.apart_names
  · exact (hshared.deed hdeed).perm (perm_ended _ _ _).symm

theorem AtWork.wrote {p p' : Program (Except StoreError Unit)}
    (h : c.AtWork start hand other called written)
    (hfree : ∀ l, start.OwnScratch l → start.tree.content? l = none)
    (hremoves : ∀ path, ¬ fails (.remove path)) (hjob : c.writing = some (job, p))
    (hstep : Program.Step fails p c.machine p' m) : ∃ other' written',
      AtWork start { c with writing := some (job, p'), machine := m } hand other' called
        written' := by
  have hshared := h.shared.symm
  rw [← List.append_assoc] at hshared
  rcases (h.write job p hjob).step hshared.process hremoves (hshared.plain hfree) hstep with
    ⟨other', written', hwriting, hdeed⟩
  refine ⟨other', written', ?_, h.noCall, ?_, nofun, ?_⟩
  · intro op q hcall
    exact (h.call op q hcall).stable hdeed.differs fun name => hshared.apart_names
  · intro job' q heq
    cases heq
    exact hwriting
  · have hshared' := (hshared.deed hdeed).symm
    rwa [List.append_assoc] at hshared'

theorem AtWork.receive (h : c.AtWork start hand other called written)
    (hcall : c.call = some (op, .done answer)) :
    Store.Answered start.Foreign answer.1 answer
      ∧ (c.receive op answer).AtWork start .empty other [] written := by
  rcases (h.call op _ hcall).of_done with ⟨ended, hanswer, hdeed⟩
  have hshared := (h.shared.perm (perm_ended _ _ _)).deed hdeed
  rw [← hanswer.tried] at hshared hanswer
  refine ⟨hanswer, nofun, fun _ => ⟨rfl, rfl⟩, h.write, h.noWrite, ?_⟩
  show Shared start c.machine .empty other (c.saves ++ answer.1 ++ ([] ++ written))
  rw [List.append_assoc]
  exact hshared.perm (perm_ended _ _ _).symm

theorem AtWork.take (h : c.AtWork start hand other called written) (hwriting : c.writing = none)
    (hpath : start.Foreign job.path) (queue : SaveQueue) :
    (c.take job queue).AtWork start hand other called written := by
  rcases h.noWrite hwriting with ⟨rfl, rfl⟩
  refine ⟨h.call, h.noCall, ?_, nofun, h.shared⟩
  intro job' p heq
  cases heq
  exact Store.writing_recordWrite hpath c.machine

theorem AtWork.finish (h : c.AtWork start hand other called written)
    (hwriting : c.writing = some (job, .done result)) :
    (c.finish job result).AtWork start hand .empty called [] := by
  rcases (h.write job _ hwriting).of_done with ⟨ended, rfl, hdeed⟩
  have hshared := h.shared.symm
  rw [← List.append_assoc] at hshared
  have hshared' := (hshared.deed hdeed).symm
  rw [List.append_assoc] at hshared'
  refine ⟨h.call, h.noCall, nofun, fun _ => ⟨rfl, rfl⟩, ?_⟩
  show Shared start c.machine hand .empty (c.saves ++ [⟨job, result⟩] ++ (called ++ []))
  rw [List.append_nil]
  exact hshared'.perm (perm_ended _ _ _)

/-! ## All moments -/

theorem atWork_of_served (h : Served fails start c past)
    (hremoves : ∀ path, ¬ fails (.remove path))
    (hfree : ∀ l, start.OwnScratch l → start.tree.content? l = none) :
    c.Traced start past
      ∧ ∃ hand other called written, c.AtWork start hand other called written := by
  induction h with
  | begun s hidle haims =>
    exact ⟨traced_begun hidle haims start, _, _, _, _, atWork_begun hfree s⟩
  | called op _ hcall hop _ ih =>
    rcases ih with ⟨htraced, _, _, _, _, hwork⟩
    exact ⟨htraced.congr rfl rfl rfl, _, _, _, _, hwork.begin htraced.aims hcall hop⟩
  | asked _ hcall hstep ih =>
    rcases ih with ⟨htraced, _, _, _, _, hwork⟩
    rcases hwork.ask hfree hremoves hcall hstep with ⟨_, _, hwork'⟩
    exact ⟨htraced.congr rfl rfl rfl, _, _, _, _, hwork'⟩
  | returned _ hcall ih =>
    rcases ih with ⟨htraced, _, _, _, _, hwork⟩
    rcases hwork.receive hcall with ⟨hanswer, hwork'⟩
    exact ⟨htraced.receive hanswer, _, _, _, _, hwork'⟩
  | @taken c past job queue _ htake ih =>
    rcases ih with ⟨htraced, _, _, _, _, hwork⟩
    rcases htraced.take htake with ⟨hwriting, hpath, htraced'⟩
    exact ⟨htraced', _, _, _, _, hwork.take hwriting hpath queue⟩
  | wrote _ hwriting hstep ih =>
    rcases ih with ⟨htraced, _, _, _, _, hwork⟩
    rcases hwork.wrote hfree hremoves hwriting hstep with ⟨_, _, hwork'⟩
    refine ⟨htraced.congr rfl rfl ?_, _, _, _, _, hwork'⟩
    rw [hwriting]
    rfl
  | finished _ hwriting ih =>
    rcases ih with ⟨htraced, _, _, _, _, hwork⟩
    exact ⟨htraced.finish hwriting, _, _, _, _, hwork.finish hwriting⟩

/-- At any moment, even in the middle of a save, a file that is not called like a scratch file is as
it was, or holds a snapshot as a whole. -/
theorem whole_of_served (h : Served fails start c past) (hremoves : ∀ path, ¬ fails (.remove path))
    (hfree : ∀ l, start.OwnScratch l → start.tree.content? l = none) (l : Location)
    (hl : ¬ start.OwnScratch l) :
    c.machine.tree.content? l = start.tree.content? l ∨ ∃ a : Attempt, a.HoldsAt c.machine l := by
  rcases atWork_of_served h hremoves hfree with ⟨-, _, _, _, _, hwork⟩
  rcases hwork.shared.places l hl with hsame | ⟨a, -, hholds⟩
  · exact .inl hsame
  · exact .inr ⟨a, hholds⟩

/-- When nothing is going on, only saves have changed the tree. -/
theorem touched_of_served (h : Served fails start c past)
    (hremoves : ∀ path, ¬ fails (.remove path))
    (hfree : ∀ l, start.OwnScratch l → start.tree.content? l = none) (hcall : c.call = none)
    (hwriting : c.writing = none) : Store.OnlySaves start c.machine c.saves past := by
  rcases atWork_of_served h hremoves hfree with ⟨htraced, hand, other, called, written, hwork⟩
  rcases hwork.noCall hcall with ⟨rfl, rfl⟩
  rcases hwork.noWrite hwriting with ⟨rfl, rfl⟩
  have hshared := hwork.shared
  rw [List.append_nil, List.append_nil] at hshared
  -- nothing is in hand
  have hscratch (l : Location) (hl : start.OwnScratch l) : c.machine.tree.content? l = none := by
    by_contra hthere
    rcases hshared.scratch l hl hthere with hat | hat
    · exact Hand.not_at_empty hat
    · exact Hand.not_at_empty hat
  have hchanged (l : Location) (hl : c.machine.tree.content? l ≠ start.tree.content? l) :
      ∃ a ∈ c.saves, a.HoldsAt c.machine l := by
    have hown : ¬ start.OwnScratch l := by
      intro hown
      rw [hscratch l hown, hfree l hown] at hl
      exact hl rfl
    rcases hshared.places l hown with hsame | hsaved
    · exact absurd hsame hl
    · exact hsaved
  constructor
  case changed =>
    intro l hl
    rcases hchanged l hl with ⟨a, ha, hholds⟩
    exact ⟨a, ha, hholds, htraced.saved a ha⟩
  case saved =>
    intro a ha hok _
    rcases hshared.targets a ha hok with ⟨_, l, -, hlocate, b, hb, hholds⟩
    exact ⟨l, hlocate, b, hb, hholds, htraced.saved b hb⟩
  case scratch => exact fun l hl hthere => absurd (hscratch l hl) hthere
  case unchanged =>
    intro hfailed l
    by_contra hl
    rcases hchanged l hl with ⟨a, ha, hholds⟩
    exact hfailed a ha hholds.succeeded

/-! ## Runs -/

/-- The worker takes a job, makes some calls for it, and rests. -/
def workOn (c : OpenCase) (n : Nat) : OpenCase :=
  match c.store.queue.take? with
  | none => c
  | some (job, queue) =>
    let stopped := (Store.recordWrite job : Program _).calls n c.machine
    { c.take job queue with writing := some (job, stopped.1), machine := stopped.2 }

/-- The worker writes the rest of its job. -/
def workOut (c : OpenCase) : OpenCase :=
  match c.writing with
  | none => c
  | some (job, p) =>
    let answer := p.run c.machine
    { c with machine := answer.2 }.finish job answer.1

/-- A call may be carried out while the worker rests. -/
theorem Served.perform (h : Served fails start c past) (hcall : c.call = none) (op : StoreOp)
    (hop : ∀ path sync, op = .saveTo path sync → start.Foreign path)
    (hflush : op = .flush → c.store.queue.isIdle = true) :
    Served fails start (c.perform op) ((c.perform op).store.state :: past) := by
  have hdone := (Program.reaches_run _ c.machine).preserves
    (P := fun p m => Served fails start { c with call := some (op, p), machine := m } past)
    (fun _ _ _ _ hbefore hstep => hbefore.asked rfl hstep) (h.called op hcall hop hflush)
  exact hdone.returned rfl

/-- A job may be written while the client rests. -/
theorem Served.writeOut {p p' : Program (Except StoreError Unit)} (h : Served fails start c past)
    (hwriting : c.writing = some (job, p))
    (hreaches : Program.Reaches fails (p, c.machine) (p', m)) :
    Served fails start { c with writing := some (job, p'), machine := m } past := by
  refine hreaches.preserves
    (P := fun p m => Served fails start { c with writing := some (job, p), machine := m } past)
    ?_ ?_
  · exact fun _ _ _ _ hbefore hstep => hbefore.wrote rfl hstep
  · rw [← hwriting]
    exact h

theorem Served.workOn (h : Served fails start c past) (n : Nat) :
    Served fails start (c.workOn n) past := by
  unfold OpenCase.workOn
  cases htake : c.store.queue.take? with
  | none => exact h
  | some taken =>
    rcases taken with ⟨job, queue⟩
    exact (h.taken htake).writeOut rfl (Program.reaches_calls n _ c.machine)

theorem Served.workOut (h : Served fails start c past) : Served fails start c.workOut past := by
  unfold OpenCase.workOut
  cases hwriting : c.writing with
  | none => exact h
  | some job =>
    exact (h.writeOut hwriting (Program.reaches_run _ c.machine)).finished rfl

/-- When the worker has filled its scratch file, the client saves into the same file. Then the
worker moves its own file there. -/
theorem touched_of_served_sample :
    let machine : Machine := ⟨⟨[([], ⟨none, 0⟩), (["m"], ⟨none, 0⟩)]⟩, 0, [], ⟨"/"⟩, 1, 0, []⟩
    let fails (request : Request) : Prop := ∀ path, request ≠ .remove path
    ∃ c past, Served fails machine c past
      ∧ c.saves.map (fun a => (a.path.text, a.snapshot.members.size, a.result.isOk))
        = [("m/bookmarks.tix", 1, true), ("m/bookmarks.tix", 0, true)]
      ∧ Store.OnlySaves machine c.machine c.saves past := by
  intro machine fails
  let store : Store := ⟨.empty ⟨9⟩, .dense ⟨9⟩, false, ⟨"m/index"⟩, ⟨"m/bookmarks.tix"⟩, ⟨"t"⟩,
    ⟨"t/indexer0.tix"⟩, .empty⟩
  have hstateFile : store.stateFile.IsTarget :=
    ⟨"bookmarks.tix", by decide +kernel, 'b', by decide +kernel, by decide⟩
  have hcookie : store.cookie.IsTarget :=
    ⟨"indexer0.tix", by decide +kernel, 'i', by decide +kernel, by decide⟩
  have hbegun : Served fails machine ⟨store, none, none, machine, [], []⟩ [store.state] :=
    .begun store rfl ⟨hstateFile.foreign machine, hcookie.foreign machine⟩
  have hfilled := (hbegun.perform rfl (.state (.addTypedWord "a")) nofun nofun).workOn 4
  have hnamed := hfilled.perform (by decide +kernel) (.state (.createTag "x")) nofun nofun
  have hsaved := hnamed.perform (by decide +kernel) (.save true) nofun nofun
  refine ⟨_, _, hsaved.workOut, by decide +kernel, ?_⟩
  have hremoves (path : Path) : ¬ fails (.remove path) := fun hfails => hfails path rfl
  exact touched_of_served hsaved.workOut hremoves (Machine.free_of_short (by decide))
    (by decide +kernel) (by decide +kernel)

end

end OpenCase

end EvidenceTags
