import EvidenceTags.Proofs.Saves.Interleaving

/-!
# Saves in order

A background save captures its snapshot before it hands it over, so an older snapshot can be handed
over after a newer one was; and a save that waits for its write passes by the jobs of the worker,
which may hold older snapshots and write them later. Clients that do neither are in order
(`Clients.InOrder`): a background save hands over no version older than one handed over before, and
a save that waits is not called while a job of an older version may be left.

* `Clients.Consistent` and `Saving.Sound` hold in every run: saves are in progress or handed over,
  and jobs and files have the snapshots of their versions.
* `Saving.Ordered` holds in order: the versions that wait, that are being written and that were
  written descend from one to the next.
* `Saving.inStep_step` carries all three through one step and `Saving.inStep_execute` through a run;
  `Saving.forward_of_inStep` says what this means for the file.
-/

namespace EvidenceTags

namespace Saves

/-! ## Programs in order -/

namespace Clients

/-- A step that cannot bring an older version behind a newer one. -/
def Allowed (c : Clients) : ClientStep → Prop
  | .submit call => ∀ v ∈ c.calls call, ∀ w ∈ c.handed, w ≤ v
  | .saveNow => ∀ v ∈ c.since, c.version ≤ v
  | _ => True

/-- A program all of whose steps are allowed when they come. -/
def InOrder : List ClientStep → Clients → Prop
  | [], _ => True
  | e :: rest, c => c.Allowed e ∧ InOrder rest (c.step e)

@[simp] theorem after_nil (c : Clients) : c.after [] = c := rfl

@[simp] theorem after_cons (c : Clients) (e : ClientStep) (rest : List ClientStep) :
    c.after (e :: rest) = (c.step e).after rest := rfl

theorem after_append (c : Clients) (first second : List ClientStep) :
    c.after (first ++ second) = (c.after first).after second :=
  List.foldl_append

/-- What is captured is not handed over yet. -/
@[simp] theorem handed_capture (c : Clients) (call : Nat) :
    (c.step (.capture call)).handed = c.handed := by
  simp only [step]
  split <;> rfl

@[simp] theorem since_capture (c : Clients) (call : Nat) :
    (c.step (.capture call)).since = c.since := by
  simp only [step]
  split <;> rfl

/-- A program out of order has a first step that is not allowed. -/
theorem exists_not_allowed {program : List ClientStep} {c : Clients} (h : ¬ InOrder program c) :
    ∃ before e rest, program = before ++ e :: rest ∧ ¬ (c.after before).Allowed e := by
  induction program generalizing c with
  | nil => exact absurd trivial h
  | cons e rest ih =>
    by_cases he : c.Allowed e
    · have hrest : ¬ InOrder rest (c.step e) := by
        intro hrest
        exact h ⟨he, hrest⟩
      rcases ih hrest with ⟨before, f, after, heq, hf⟩
      refine ⟨e :: before, f, after, ?_, hf⟩
      rw [heq, List.cons_append]
    · exact ⟨[], e, rest, rfl, he⟩

/-- What was captured or handed over was saved, and every save is in progress or handed over. -/
structure Consistent (c : Clients) : Prop where
  saves_le : ∀ v ∈ c.saves, v ≤ c.version
  calls_saved : ∀ call, ∀ v ∈ c.calls call, v ∈ c.saves
  handed_saved : ∀ v ∈ c.handed, v ∈ c.saves
  saved : ∀ v ∈ c.saves, v ∈ c.handed ∨ ∃ call, c.calls call = some v

theorem consistent_start : Consistent start := by
  constructor <;> simp [start]

theorem consistent_capture {c : Clients} (h : c.Consistent) (call : Nat) :
    (c.step (.capture call)).Consistent := by
  simp only [step]
  split
  · -- the call is in progress already
    exact h
  · rename_i hfree
    constructor
    case saves_le =>
      intro v hv
      rcases List.mem_cons.1 hv with rfl | hv
      · exact Nat.le_refl _
      · exact h.saves_le v hv
    case calls_saved =>
      intro other v hv
      by_cases hcall : other = call
      · subst hcall
        simp only [Function.update_self, Option.mem_some_iff] at hv
        exact hv ▸ List.mem_cons_self
      · simp only [Function.update_of_ne hcall] at hv
        exact List.mem_cons_of_mem _ (h.calls_saved other v hv)
    case handed_saved =>
      intro v hv
      exact List.mem_cons_of_mem _ (h.handed_saved v hv)
    case saved =>
      intro v hv
      rcases List.mem_cons.1 hv with rfl | hv
      · exact .inr ⟨call, Function.update_self ..⟩
      · rcases h.saved v hv with hhanded | ⟨other, hother⟩
        · exact .inl hhanded
        · -- the call is another one, since this one was not in progress
          have hne : other ≠ call := by
            intro heq
            rw [heq, hfree] at hother
            exact Option.some_ne_none v hother.symm
          exact .inr ⟨other, (Function.update_of_ne hne ..).trans hother⟩

theorem consistent_submit {c : Clients} (h : c.Consistent) (call : Nat) :
    (c.step (.submit call)).Consistent := by
  simp only [step]
  split
  · rename_i v hcall
    constructor
    case saves_le => exact h.saves_le
    case calls_saved =>
      intro other w hw
      by_cases hne : other = call
      · -- this call is over
        subst hne
        simp at hw
      · simp only [Function.update_of_ne hne] at hw
        exact h.calls_saved other w hw
    case handed_saved =>
      intro w hw
      rcases List.mem_cons.1 hw with rfl | hw
      · exact h.calls_saved call w hcall
      · exact h.handed_saved w hw
    case saved =>
      intro w hw
      rcases h.saved w hw with hhanded | ⟨other, hother⟩
      · exact .inl (List.mem_cons_of_mem _ hhanded)
      · by_cases hne : other = call
        · -- what this call had captured is handed over now
          subst hne
          rw [hcall] at hother
          cases hother
          exact .inl List.mem_cons_self
        · exact .inr ⟨other, (Function.update_of_ne hne ..).trans hother⟩
  · exact h

theorem consistent_step {c : Clients} (h : c.Consistent) (e : ClientStep) :
    (c.step e).Consistent := by
  cases e with
  | mutate =>
    constructor
    case saves_le =>
      intro v hv
      exact Nat.le_succ_of_le (h.saves_le v hv)
    case calls_saved => exact h.calls_saved
    case handed_saved => exact h.handed_saved
    case saved => exact h.saved
  | capture call => exact consistent_capture h call
  | submit call => exact consistent_submit h call
  | saveNow =>
    constructor
    case saves_le =>
      intro v hv
      rcases List.mem_cons.1 hv with rfl | hv
      · exact Nat.le_refl _
      · exact h.saves_le v hv
    case calls_saved =>
      intro call v hv
      exact List.mem_cons_of_mem _ (h.calls_saved call v hv)
    case handed_saved =>
      intro v hv
      rcases List.mem_cons.1 hv with rfl | hv
      · exact List.mem_cons_self
      · exact List.mem_cons_of_mem _ (h.handed_saved v hv)
    case saved =>
      intro v hv
      rcases List.mem_cons.1 hv with rfl | hv
      · -- the version is written at once
        exact .inl List.mem_cons_self
      · exact (h.saved v hv).imp_left (List.mem_cons_of_mem _)
  | flush =>
    -- which jobs were submitted since is no part of it
    exact ⟨h.saves_le, h.calls_saved, h.handed_saved, h.saved⟩

theorem Consistent.handed_le {c : Clients} (h : c.Consistent) {v : Nat} (hv : v ∈ c.handed) :
    v ≤ c.version :=
  h.saves_le v (h.handed_saved v hv)

/-- An allowed step hands over nothing older than what was handed over before. -/
theorem descending_step {c : Clients} (h : c.Consistent) (hd : c.handed.Pairwise (· ≥ ·))
    {e : ClientStep} (he : c.Allowed e) : (c.step e).handed.Pairwise (· ≥ ·) := by
  cases e with
  | mutate | flush => exact hd
  | capture call =>
    rw [handed_capture]
    exact hd
  | submit call =>
    simp only [step]
    split
    · rename_i v hcall
      have hnewest : ∀ w ∈ c.handed, w ≤ v := he v hcall
      exact List.pairwise_cons.2 ⟨hnewest, hd⟩
    · exact hd
  | saveNow =>
    -- no version is newer than that of the state
    have hnewest : ∀ v ∈ c.handed, v ≤ c.version := by
      intro v hv
      exact h.handed_le hv
    exact List.pairwise_cons.2 ⟨hnewest, hd⟩

end Clients

/-! ## Jobs and files -/

section

variable {history : Nat → CaseState} {target : Path}

/-- Every job has the snapshot of its version, and the file has that of the last write. -/
structure Saving.Sound (history : Nat → CaseState) (target : Path) (s : Saving) : Prop where
  pending : ∀ job ∈ s.queue.pending, job = jobOf history target s.waiting
  writing : ∀ p ∈ s.writing, p.1 = jobOf history target p.2
  busy : s.writing.isSome = true → s.queue.inFlight = true
  file : ∀ v ∈ s.writes.head?, s.files target = some (history v).snapshot.encode

namespace Saving

theorem sound_start (files : Path → Option Wire.Bytes) : Sound history target (start files) := by
  constructor <;> simp [start, SaveQueue.empty]

/-- After a write the file has the snapshot that was written. -/
theorem file_put (s : Saving) (version : Nat) :
    ∀ v ∈ (s.put (jobOf history target version) version).writes.head?,
      (s.put (jobOf history target version) version).files target
        = some (history v).snapshot.encode := by
  intro v hv
  cases hv
  exact Function.update_self ..

theorem sound_client {s t : Saving} {e : ClientStep} (h : s.Sound history target)
    (ht : s.client history target e = some t) : t.Sound history target := by
  cases e with
  | mutate | capture call =>
    cases ht
    exact ⟨h.pending, h.writing, h.busy, h.file⟩
  | submit call =>
    simp only [client] at ht
    split at ht
    · cases ht
      constructor
      case pending =>
        -- the job that waits is the one that was handed over
        intro job hjob
        cases hjob
        rfl
      case writing => exact h.writing
      case busy => exact h.busy
      case file => exact h.file
    · cases ht
      exact ⟨h.pending, h.writing, h.busy, h.file⟩
  | saveNow =>
    cases ht
    exact ⟨h.pending, h.writing, h.busy, file_put s _⟩
  | flush =>
    simp only [client] at ht
    split at ht
    · cases ht
      exact ⟨h.pending, h.writing, h.busy, h.file⟩
    · cases ht

theorem sound_work {s : Saving} (h : s.Sound history target) (e : WorkerStep) :
    (s.work e).Sound history target := by
  cases e with
  | take =>
    simp only [work]
    split
    · rename_i job queue htake
      rcases SaveQueue.take?_eq_some htake with ⟨-, hpending, rfl⟩
      constructor
      case pending => simp
      case writing =>
        -- the job that waited is being written now
        intro p hp
        cases hp
        exact h.pending job hpending
      case busy =>
        intro _
        rfl
      case file => exact h.file
    · exact h
  | write =>
    simp only [work]
    split
    · rename_i job version hwriting
      have hjob : job = jobOf history target version := h.writing _ hwriting
      subst hjob
      exact ⟨h.pending, by simp, by simp, file_put s version⟩
    · exact h
  | finish =>
    simp only [work]
    split
    · rename_i hdone
      exact ⟨h.pending, h.writing, by simp [hdone.2], h.file⟩
    · exact h

/-! ## Versions on their way -/

/-- The versions that the worker still has to write, the one that waits first. -/
def unwritten (s : Saving) : List Nat :=
  (s.queue.pending.map fun _ => s.waiting).toList ++ (s.writing.map (·.2)).toList

/-- All versions on their way to the file, from the one that waits to the first one written. -/
def trail (s : Saving) : List Nat := s.unwritten ++ s.writes

theorem writing_of_idle {s : Saving} (h : s.Sound history target)
    (hidle : s.queue.inFlight = false) : s.writing = none := by
  cases hwriting : s.writing with
  | none => rfl
  | some p =>
    have hbusy := h.busy (by rw [hwriting]; rfl)
    rw [hidle] at hbusy
    exact absurd hbusy Bool.false_ne_true

/-- A step of the worker moves versions on, and leaves their order. -/
theorem trail_work {s : Saving} (h : s.Sound history target) (e : WorkerStep) :
    (s.work e).trail = s.trail := by
  cases e with
  | take =>
    simp only [work]
    split
    · rename_i job queue htake
      rcases SaveQueue.take?_eq_some htake with ⟨hidle, hpending, rfl⟩
      -- a worker that takes a job is at none, so the version goes to an empty place
      have hnone : s.writing = none := writing_of_idle h hidle
      simp [trail, unwritten, hpending, hnone]
    · rfl
  | write =>
    simp only [work]
    split
    · rename_i job version hwriting
      simp [trail, unwritten, put, hwriting]
    · rfl
  | finish =>
    simp only [work]
    split <;> rfl

theorem unwritten_work {s : Saving} (e : WorkerStep) {v : Nat} (hv : v ∈ (s.work e).unwritten) :
    v ∈ s.unwritten := by
  cases e with
  | take =>
    simp only [work] at hv
    split at hv
    · rename_i job queue htake
      rcases SaveQueue.take?_eq_some htake with ⟨-, hpending, rfl⟩
      have heq : v = s.waiting := by simpa [unwritten] using hv
      simp [unwritten, hpending, heq]
    · exact hv
  | write =>
    simp only [work] at hv
    split at hv
    · -- what waits has not been touched
      apply List.mem_append_left
      simpa [unwritten, put] using hv
    · exact hv
  | finish =>
    simp only [work] at hv
    split at hv <;> exact hv

/-- Once the queue is idle, nothing is left to write. -/
theorem unwritten_of_idle {s : Saving} (h : s.Sound history target)
    (hidle : s.queue.isIdle = true) :
    s.unwritten = [] := by
  simp only [SaveQueue.isIdle, Bool.and_eq_true, Option.isNone_iff_eq_none,
    Bool.not_eq_true'] at hidle
  have hnone : s.writing = none := writing_of_idle h hidle.2
  simp [unwritten, hidle.1, hnone]

theorem trail_of_idle {s : Saving} (h : s.Sound history target) (hidle : s.queue.isIdle = true) :
    s.trail = s.writes := by
  rw [trail, unwritten_of_idle h hidle, List.nil_append]

/-! ## In order, the file only goes forward -/

/-- The versions on their way descend, up to the one that was handed over last; and the worker has
nothing to write that was handed over before the last flush. -/
structure Ordered (s : Saving) : Prop where
  descending : s.trail.Pairwise (· ≥ ·)
  latest : s.trail.head? = s.clients.handed.head?
  handed : ∀ v ∈ s.trail, v ∈ s.clients.handed
  since : ∀ v ∈ s.unwritten, v ∈ s.clients.since

/-- What holds of clients, jobs and versions in every state of a run in order. -/
structure InStep (history : Nat → CaseState) (target : Path) (s : Saving) : Prop where
  consistent : s.clients.Consistent
  descending : s.clients.handed.Pairwise (· ≥ ·)
  sound : s.Sound history target
  ordered : s.Ordered

theorem inStep_start (history : Nat → CaseState) (target : Path)
    (files : Path → Option Wire.Bytes) : InStep history target (start files) where
  consistent := Clients.consistent_start
  descending := .nil
  sound := sound_start files
  ordered := by constructor <;> simp [start, trail, unwritten, SaveQueue.empty, Clients.start]

theorem ordered_work {s : Saving} (h : s.InStep history target) (e : WorkerStep) :
    (s.work e).Ordered := by
  have htrail := trail_work h.sound e
  constructor
  case descending =>
    rw [htrail]
    exact h.ordered.descending
  case latest =>
    rw [htrail, clients_work]
    exact h.ordered.latest
  case handed =>
    rw [htrail, clients_work]
    exact h.ordered.handed
  case since =>
    intro v hv
    rw [clients_work]
    exact h.ordered.since v (unwritten_work e hv)

/-- A job that is handed over takes the place of the one that waits, and is newer than all
others. -/
theorem ordered_submit {s : Saving} (h : s.InStep history target) {call v : Nat}
    (hcall : s.clients.calls call = some v) (he : s.clients.Allowed (.submit call)) {t : Saving}
    (ht : s.client history target (.submit call) = some t) : t.Ordered := by
  have hall : ∀ w ∈ s.clients.handed, w ≤ v := he v hcall
  simp only [client, hcall, Option.some.injEq] at ht
  subst ht
  -- all that is left of the old trail lies behind the job that waited, if one did
  have hsuffix : (s.writing.map (·.2)).toList ++ s.writes <:+ s.trail := by
    rw [trail, unwritten, List.append_assoc]
    exact List.suffix_append _ _
  constructor
  case descending =>
    have hnewest : ∀ w ∈ (s.writing.map (·.2)).toList ++ s.writes, w ≤ v := by
      intro w hw
      exact hall w (h.ordered.handed w (hsuffix.subset hw))
    exact List.pairwise_cons.2 ⟨hnewest, h.ordered.descending.sublist hsuffix.sublist⟩
  case latest => simp [trail, unwritten, SaveQueue.submit, Clients.step, hcall]
  case handed =>
    intro w hw
    simp only [Clients.step, hcall]
    rcases List.mem_cons.1 hw with rfl | hw
    · exact List.mem_cons_self
    · exact List.mem_cons_of_mem _ (h.ordered.handed w (hsuffix.subset hw))
  case since =>
    intro w hw
    simp only [Clients.step, hcall]
    rcases List.mem_cons.1 hw with rfl | hw
    · exact List.mem_cons_self
    · exact List.mem_cons_of_mem _ (h.ordered.since w (List.mem_append_right _ hw))

/-- What the worker still has to write is of the version that is written now. -/
theorem ordered_saveNow {s : Saving} (h : s.InStep history target)
    (he : s.clients.Allowed .saveNow) {t : Saving}
    (ht : s.client history target .saveNow = some t) : t.Ordered := by
  cases ht
  -- a job that is left was submitted since a flush, and such a job is not older than the state
  have hunwritten : ∀ u ∈ s.unwritten, u = s.clients.version := by
    intro u hu
    have hge := he u (h.ordered.since u hu)
    have hle := h.consistent.handed_le (h.ordered.handed u (List.mem_append_left _ hu))
    exact Nat.le_antisymm hle hge
  have hwrites : ∀ w ∈ s.writes, w ≤ s.clients.version := by
    intro w hw
    exact h.consistent.handed_le (h.ordered.handed w (List.mem_append_right _ hw))
  rcases List.pairwise_append.1 h.ordered.descending with ⟨hfirst, hlast, -⟩
  constructor
  case descending =>
    apply List.pairwise_append.2
    refine ⟨hfirst, List.pairwise_cons.2 ⟨hwrites, hlast⟩, ?_⟩
    intro u hu w hw
    rw [hunwritten u hu]
    rcases List.mem_cons.1 hw with rfl | hw
    · exact Nat.le_refl _
    · exact hwrites w hw
  case latest =>
    show (s.unwritten ++ s.clients.version :: s.writes).head? = some s.clients.version
    cases hu : s.unwritten with
    | nil => rfl
    | cons u rest => exact congrArg some (hunwritten u (hu ▸ List.mem_cons_self))
  case handed =>
    intro v hv
    rcases List.mem_append.1 hv with hu | hw
    · rw [hunwritten v hu]
      exact List.mem_cons_self
    · rcases List.mem_cons.1 hw with rfl | hw
      · exact List.mem_cons_self
      · exact List.mem_cons_of_mem _ (h.ordered.handed v (List.mem_append_right _ hw))
  case since => exact h.ordered.since

theorem ordered_client {s t : Saving} {e : ClientStep} (h : s.InStep history target)
    (he : s.clients.Allowed e) (ht : s.client history target e = some t) : t.Ordered := by
  have ho := h.ordered
  cases e with
  | mutate =>
    cases ht
    exact ⟨ho.descending, ho.latest, ho.handed, ho.since⟩
  | capture call =>
    cases ht
    have hhanded := Clients.handed_capture s.clients call
    have hsince := Clients.since_capture s.clients call
    exact ⟨ho.descending, hhanded ▸ ho.latest, hhanded ▸ ho.handed, hsince ▸ ho.since⟩
  | submit call =>
    cases hcall : s.clients.calls call with
    | some v => exact ordered_submit h hcall he ht
    | none =>
      simp only [client, hcall, Clients.step, Option.some.injEq] at ht
      exact ht ▸ ⟨ho.descending, ho.latest, ho.handed, ho.since⟩
  | saveNow => exact ordered_saveNow h he ht
  | flush =>
    simp only [client] at ht
    split at ht
    · rename_i hidle
      cases ht
      constructor
      case descending => exact ho.descending
      case latest => exact ho.latest
      case handed => exact ho.handed
      case since =>
        -- the flush returned because nothing is left to write
        intro v hv
        have hnone : v ∈ s.unwritten := hv
        rw [unwritten_of_idle h.sound hidle] at hnone
        exact absurd hnone List.not_mem_nil
    · cases ht

theorem inStep_step {s t : Saving} {e : Event} (h : s.InStep history target)
    (he : ∀ step, e = .client step → s.clients.Allowed step)
    (ht : s.step history target e = some t) : t.InStep history target := by
  cases e with
  | client e =>
    have hallowed := he e rfl
    have hclients := clients_client ht
    constructor
    case consistent =>
      rw [hclients]
      exact Clients.consistent_step h.consistent e
    case descending =>
      rw [hclients]
      exact Clients.descending_step h.consistent h.descending hallowed
    case sound => exact sound_client h.sound ht
    case ordered => exact ordered_client h hallowed ht
  | worker e =>
    cases ht
    constructor
    case consistent =>
      rw [clients_work]
      exact h.consistent
    case descending =>
      rw [clients_work]
      exact h.descending
    case sound => exact sound_work h.sound e
    case ordered => exact ordered_work h e

/-- A run in order keeps everything in step. -/
theorem inStep_execute {events : List Event} {s r : Saving} (h : s.InStep history target)
    (horder : Clients.InOrder (clientPart events) s.clients)
    (hr : execute history target events s = some r) : r.InStep history target := by
  induction events generalizing s with
  | nil =>
    cases hr
    exact h
  | cons e rest ih =>
    rcases Option.bind_eq_some_iff.1 hr with ⟨t, ht, hrest⟩
    cases e with
    | client e =>
      have hallowed : ∀ step, Event.client e = .client step → s.clients.Allowed step := by
        intro step hstep
        cases hstep
        exact horder.1
      have hstep := inStep_step h hallowed ht
      refine ih hstep ?_ hrest
      rw [clients_client ht]
      exact horder.2
    | worker e =>
      have hallowed : ∀ step, Event.worker e = .client step → s.clients.Allowed step := by
        intro step hstep
        cases hstep
      have hstep := inStep_step h hallowed ht
      -- the worker does not change what is asked of the clients
      cases ht
      refine ih hstep ?_ hrest
      rw [clients_work]
      exact horder

/-- In step, the file has not gone back, and has the newest version when all is quiet. -/
theorem forward_of_inStep {s : Saving} (h : s.InStep history target) :
    s.Forward history target := by
  constructor
  case order => exact h.ordered.descending.sublist (List.sublist_append_right _ _)
  case newest =>
    rintro ⟨hnone, hidle⟩ v ⟨hsaved, hnewest⟩
    have hhanded : v ∈ s.clients.handed := by
      rcases h.consistent.saved v hsaved with hhanded | ⟨call, hcall⟩
      · exact hhanded
      · rw [hnone call] at hcall
        exact absurd hcall.symm (Option.some_ne_none v)
    -- the newest version was handed over last, since versions are handed over in order
    have hhead : s.clients.handed.head? = some v := by
      have hdescending := h.descending
      cases hlist : s.clients.handed with
      | nil =>
        rw [hlist] at hhanded
        exact absurd hhanded List.not_mem_nil
      | cons top rest =>
        have htop : top ≤ v := by
          apply hnewest top
          apply h.consistent.handed_saved top
          rw [hlist]
          exact List.mem_cons_self
        rw [hlist] at hhanded hdescending
        rcases List.mem_cons.1 hhanded with rfl | hrest
        · rfl
        · have hge := (List.pairwise_cons.1 hdescending).1 v hrest
          exact congrArg some (Nat.le_antisymm htop hge)
    -- and it was written last, since nothing is left on its way
    apply h.sound.file v
    rw [← trail_of_idle h.sound hidle, h.ordered.latest, hhead]
    rfl

end Saving

end

end Saves

end EvidenceTags
