import EvidenceTags.Host

/-!
# Replacing a file as a whole

The new content is first written to a scratch file in the same directory, which is then moved over
the target. So the target holds its old content or the new one, at every moment and also after a
failure, of which no scratch file is left.
-/

namespace EvidenceTags

variable {m : Type → Type} [Monad m] [Host m]

/-- The directory that holds what is at a path. -/
def Path.directory (p : Path) : Path :=
  match p.parent? with
  | some parent => if parent.text = "" then ⟨"."⟩ else parent
  | none => ⟨"."⟩

/-- The scratch file for a target. -/
def Path.scratch (p : Path) (name mark : String) : Path :=
  p.directory.join ("." ++ name ++ "." ++ mark ++ ".tmp")

/-- Makes a file with the given content. -/
def fillFile (path : Path) (bytes : Wire.Bytes) : m (Except OsError Unit) := do
  match ← Host.create path with
  | .error error => pure (.error error)
  | .ok () =>
    match ← Host.append path bytes with
    | .error error => pure (.error error)
    | .ok () => Host.sync path

/-- Gives a file new content, all at once. -/
def replaceFile (path : Path) (bytes : Wire.Bytes) : m (Except StoreError Unit) := do
  match path.fileName? with
  | none => pure (.error (.io path .noFileName))
  | some name =>
    let scratch := path.scratch name (← Host.scratchMark)
    match ← fillFile scratch bytes with
    | .error error =>
      let _ ← Host.remove scratch
      pure (.error (.io scratch (.system error)))
    | .ok () =>
      match ← Host.rename scratch path with
      | .error error =>
        let _ ← Host.remove scratch
        pure (.error (.io path (.system error)))
      | .ok () => pure (.ok ())

end EvidenceTags
