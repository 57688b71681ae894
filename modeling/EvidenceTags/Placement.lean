import EvidenceTags.Host

/-!
# Where state is saved and loaded

State belongs into the state file of a case. Where that can not be written, it goes into a cookie
instead: a file in another directory, whose name holds the time at which the search index of the
case was last changed. State is loaded from whichever of the two is newer.
-/

namespace EvidenceTags

variable {m : Type → Type} [Monad m] [Host m]

/-- Whether anything is at a path. -/
def pathExists (path : Path) : m Bool := do
  return (← Host.status path).isSome

/-- Whether a path leads to a file that could be extended. -/
def canWrite (path : Path) : m Bool := do
  match ← Host.status path with
  | some ⟨false, _⟩ => Host.canAppend path
  | _ => pure false

/-- Whether a path leads to a directory in which files can be made, which is found out by making
one. -/
def canCreateIn (directory : Path) : m Bool := do
  match ← Host.status directory with
  | some ⟨true, _⟩ =>
    let scratch := directory.join (".tagindex-scratch." ++ (← Host.scratchMark))
    match ← Host.createNew scratch with
    | .ok () =>
      let _ ← Host.remove scratch
      pure true
    | .error _ => pure false
  | _ => pure false

/-- Where state is to be saved: into the state file if it can be written or made, else into the
cookie. -/
def saveTarget (stateFile cookie : Path) : m Path := do
  let creatable ←
    if ← pathExists stateFile then pure false
    else
      match stateFile.parent? with
      | some parent => canCreateIn parent
      | none => pure false
  if (← canWrite stateFile) || creatable then pure stateFile else pure cookie

/-- Where state is to be loaded from: the cookie if it is newer than the state file or the only one
there is, else the state file, if it exists. -/
def loadSource (stateFile cookie : Path) : m (Option Path) := do
  match ← Host.status cookie, ← Host.status stateFile with
  | some c, some s => pure (some (if s.modified < c.modified then cookie else stateFile))
  | some _, none => pure (some cookie)
  | none, some _ => pure (some stateFile)
  | none, none => pure none

/-- The cookie of a case with this search index, among the cookies of a directory. An index that
does not exist or was changed before the epoch counts as changed at the epoch. -/
def cookiePath (index directory : Path) : m Path := do
  let millis := match ← Host.status index with
    | some status => status.modified.toNat / 1000000
    | none => 0
  pure (directory.join ("indexer" ++ toString millis ++ ".tix"))

end EvidenceTags
