import EvidenceTags.Proofs.Operations

/-!
# Operations that tell what they tried to save

An operation of a store does not tell all that it has saved: `save` logs a failure, and the worker
saves what was handed to it earlier. `Store.record` does what the operations do and tells in
addition which saves have been tried, and how each of them ended. What it leaves of the store, and
of the host, is what the operations leave (`Store.snd_record`, `Store.act_eq_perform`).
-/

namespace EvidenceTags

/-- A save that was tried, and how it ended. -/
structure Attempt extends SaveJob where
  result : Except StoreError Unit

namespace Store

variable {m : Type → Type} [Monad m] [Host m]

/-- What an operation makes of a store. -/
def act (s : Store) : StoreOp → m Store
  | .state (.addTypedWord word) => s.addTypedWord word
  | .state (.restore snapshot) => s.restore snapshot
  | .state op => pure { s with state := (s.state.perform s.domain op).2 }
  | .save sync => s.save sync
  | .saveTo path sync => Prod.snd <$> s.saveTo path sync
  | .load => s.load
  | .loadFrom path => Prod.snd <$> s.loadFrom path
  | .flush => s.flush
  | .refreshCookie => s.refreshCookie

/-- What a save into a file has tried itself: nothing, if it was handed to the worker. -/
def tried (s : Store) (path : Path) (sync : Bool) (result : Except StoreError Unit) :
    List Attempt :=
  if sync then [⟨⟨s.state.snapshot, path⟩, result⟩] else []

/-- Saves into a file. -/
def recordSaveTo (s : Store) (path : Path) (sync : Bool) : m (List Attempt × Store) := do
  let (result, s') ← s.saveTo path sync
  pure (s.tried path sync result, s')

/-- Saves into the state file or the cookie. -/
def recordSave (s : Store) (sync : Bool) : m (List Attempt × Store) := do
  let path ← saveTarget s.stateFile s.cookie
  let (result, s') ← s.saveTo path (sync || s.syncSave)
  match result with
  | .error error => Host.log (.saveFailed path error)
  | .ok () => pure ()
  pure (s.tried path (sync || s.syncSave) result, s')

/-- Remembers a typed word, and saves if it was new. -/
def recordTypedWord (s : Store) (word : String) : m (List Attempt × Store) := do
  let (isNew, state) := s.state.addTypedWord word
  let s := { s with state }
  if isNew then s.recordSave false else pure ([], s)

/-- The worker writes a job. A failure is logged. -/
def recordWrite (job : SaveJob) : m (Except StoreError Unit) := do
  let result ← SaveQueue.write job
  match result with
  | .error error => Host.log (.saveFailed job.path error)
  | .ok () => pure ()
  pure result

/-- Waits for the background saves. -/
def recordFlush (s : Store) : m (List Attempt × Store) := do
  match s.queue.take? with
  | none => pure ([], s)
  | some (job, queue) =>
    let result ← recordWrite job
    pure ([⟨job, result⟩], { s with queue := queue.finish })

/-- Carries out an operation of a store, and tells which saves it has tried. -/
def record (s : Store) : StoreOp → m (List Attempt × Store)
  | .state (.addTypedWord word) => s.recordTypedWord word
  | .save sync => s.recordSave sync
  | .saveTo path sync => s.recordSaveTo path sync
  | .flush => s.recordFlush
  | op => Prod.mk [] <$> s.act op

/-! ## They leave what the operations leave -/

section

variable [LawfulMonad m] (s : Store)

theorem snd_recordSave (sync : Bool) : Prod.snd <$> (s.recordSave sync : m _) = s.save sync := by
  unfold recordSave save
  simp only [map_bind]
  apply bind_congr
  intro path
  apply bind_congr
  rintro ⟨result, s'⟩
  cases result <;> simp

theorem snd_recordTypedWord (word : String) :
    Prod.snd <$> (s.recordTypedWord word : m _) = s.addTypedWord word := by
  unfold recordTypedWord addTypedWord
  rcases s.state.addTypedWord word with ⟨isNew, state⟩
  cases isNew with
  | true => exact snd_recordSave _ false
  | false => exact map_pure _ _

theorem snd_recordFlush : Prod.snd <$> (s.recordFlush : m _) = s.flush := by
  unfold recordFlush recordWrite flush SaveQueue.flush
  cases htake : s.queue.take? with
  | none => simp
  | some taken =>
    rcases taken with ⟨job, queue⟩
    simp only [map_bind, bind_assoc]
    apply bind_congr
    intro result
    cases result <;> simp

/-- What is told beside changes nothing. -/
theorem snd_record (op : StoreOp) : Prod.snd <$> (s.record op : m _) = s.act op := by
  have hquiet (op : StoreOp) : Prod.snd <$> (Prod.mk ([] : List Attempt) <$> (s.act op : m _))
      = s.act op := by
    simp
  cases op with
  | state o =>
    cases o with
    | addTypedWord word => exact s.snd_recordTypedWord word
    | _ => exact hquiet _
  | save sync => exact s.snd_recordSave sync
  | saveTo path sync =>
    simp only [record, recordSaveTo, act, map_bind, map_pure]
    exact (map_eq_pure_bind _ _).symm
  | flush => exact s.snd_recordFlush
  | load | loadFrom path | refreshCookie => exact hquiet _

end

/-- On a machine they are the operations whose replies are known. -/
theorem act_eq_perform (s : Store) (op : StoreOp) (machine : Machine) :
    (s.act op : StateM Machine _) machine
      = ((s.perform op machine).1.2, (s.perform op machine).2) := by
  cases op with
  | state o => cases o <;> rfl
  | _ => rfl

end Store

end EvidenceTags
