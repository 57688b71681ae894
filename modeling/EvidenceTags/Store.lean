import EvidenceTags.CaseState
import EvidenceTags.Placement
import EvidenceTags.SaveQueue
import EvidenceTags.Settings

/-!
# The store of an open case

A store holds the state of a case together with the places that its files are kept in and the queue
of its background saves. It starts out empty; loading replaces its state as a whole or, if that
fails, not at all.
-/

namespace EvidenceTags

/-- An open case. -/
structure Store where
  state : CaseState
  domain : Domain
  syncSave : Bool
  indexDir : Path
  stateFile : Path
  cookieDir : Path
  cookie : Path
  queue : SaveQueue
deriving DecidableEq

variable {m : Type → Type} [Monad m] [Host m]

/-- What a snapshot file holds. -/
def readSnapshot (path : Path) : m (Except StoreError StoredSnapshot) := do
  match ← Host.read path with
  | .error error => pure (.error (.io path (.system error)))
  | .ok bytes => pure (StoredSnapshot.decode bytes)

/-- The state in a stored snapshot, over a universe that ends with `last`. A migration is logged. -/
def currentSnapshot (stored : StoredSnapshot) (last : ItemId) : m Snapshot := do
  match stored with
  | .current snapshot => pure snapshot
  | .legacy legacy =>
    let snapshot := legacy.migrate last
    Host.log (.migrated snapshot.members.size)
    pure snapshot

/-- The settings in a file; without the file, the default ones. -/
def loadSettings (path : Path) : m (Except StoreError Settings) := do
  match ← Host.read path with
  | .error .notFound => pure (.ok Settings.default)
  | .error error => pure (.error (.io path (.system error)))
  | .ok bytes =>
    match Utf8.decode bytes with
    | .error _ => pure (.error (.io path .notText))
    | .ok text => pure (Settings.ofText text)

namespace Store

/-- The highest item of the case. -/
def lastId (s : Store) : ItemId := s.domain.lastId

/-- Opens a case without loading its state. -/
def openCase (domain : Domain) (settings : Settings) : m Store := do
  let indexDir := settings.moduleDir.join "index"
  let stateFile := settings.moduleDir.join "bookmarks.tix"
  let stateFile := (← Host.canonical stateFile).getD stateFile
  let cookieDir ← match settings.tempDir with
    | some directory => pure directory
    | none => Host.temporaryDir
  let cookie ← cookiePath indexDir cookieDir
  pure ⟨.empty domain.lastId, domain, settings.syncSave, indexDir, stateFile, cookieDir, cookie,
    .empty⟩

/-- Names the cookie after the time at which the index was last changed by now. -/
def refreshCookie (s : Store) : m Store := do
  let cookie ← cookiePath s.indexDir s.cookieDir
  pure { s with cookie }

/-- Saves into a file: at once, or by handing the snapshot to the worker. -/
def saveTo (s : Store) (path : Path) (sync : Bool) : m (Except StoreError Unit × Store) := do
  Host.log (.saving sync path)
  if sync then
    let result ← replaceFile path s.state.snapshot.encode
    pure (result, s)
  else pure (.ok (), { s with queue := s.queue.submit ⟨s.state.snapshot, path⟩ })

/-- Saves into the state file or the cookie. A failure is logged. -/
def save (s : Store) (sync : Bool) : m Store := do
  let path ← saveTarget s.stateFile s.cookie
  let (result, s) ← s.saveTo path (sync || s.syncSave)
  match result with
  | .error error => Host.log (.saveFailed path error)
  | .ok () => pure ()
  pure s

/-- Remembers a typed word, and saves if it was new. -/
def addTypedWord (s : Store) (word : String) : m Store := do
  let (isNew, state) := s.state.addTypedWord word
  let s := { s with state }
  if isNew then s.save false else pure s

/-- Replaces the state by that of a snapshot. A count that differs from the flags is logged. -/
def restore (s : Store) (snapshot : Snapshot) : m Store := do
  let state := CaseState.ofSnapshot s.lastId snapshot
  if state.selection.count ≠ snapshot.checkedCount.toNat then
    Host.log (.countDiffers snapshot.checkedCount state.selection.count)
  pure { s with state }

/-- Loads the state from a file of either version. -/
def loadFrom (s : Store) (path : Path) : m (Except StoreError Unit × Store) := do
  Host.log (.loading path)
  match ← readSnapshot path with
  | .error error => pure (.error error, s)
  | .ok stored =>
    let s ← s.restore (← currentSnapshot stored s.lastId)
    pure (.ok (), s)

/-- Loads the state from the cookie or the state file, if there is one. A failure is logged. -/
def load (s : Store) : m Store := do
  match ← loadSource s.stateFile s.cookie with
  | none => pure s
  | some path =>
    let (result, s) ← s.loadFrom path
    match result with
    | .error error => Host.log (.loadFailed path error)
    | .ok () => pure ()
    pure s

/-- Waits for the background saves. -/
def flush (s : Store) : m Store := do
  let queue ← s.queue.flush
  pure { s with queue }

end Store

end EvidenceTags
