import EvidenceTags.Error
import EvidenceTags.Wire.Reader

/-!
# What a store asks of its host

A store reads and writes files and keeps a log, and that is all it does to the world around it. What
it needs is gathered in one interface, so that the same definitions run on a real system and on a
`Machine`, the host about which theorems are stated.

Each operation is a single step that may fail or be the last one to happen, which is why writing a
file is divided into its parts.
-/

namespace EvidenceTags

/-- What is worth a line in the log. -/
inductive LogEvent where
  | saving (sync : Bool) (path : Path)
  | loading (path : Path)
  | migrated (tags : Nat)
  | countDiffers (declared : UInt64) (found : Nat)
  | saveFailed (path : Path) (error : StoreError)
  | loadFailed (path : Path) (error : StoreError)
deriving DecidableEq, Repr

/-- How much a line of the log matters. -/
inductive LogLevel where
  | info
  | warn
  | error
deriving DecidableEq, Repr

namespace LogEvent

/-- How much an event matters. -/
def level : LogEvent → LogLevel
  | .saving .. | .loading .. | .migrated .. => .info
  | .countDiffers .. => .warn
  | .saveFailed .. | .loadFailed .. => .error

/-- The text of an event. -/
def text : LogEvent → String
  | .saving sync path => "Saving state sync=" ++ toString sync ++ " to file " ++ path.text
  | .loading path => "Loading state from file " ++ path.text
  | .migrated tags => "Migrated " ++ toString tags ++ " tags from legacy snapshot"
  | .countDiffers declared found =>
    "Snapshot checked count " ++ toString declared.toNat ++ " differs from its flags; using "
      ++ toString found
  | .saveFailed path error => "Failed to save state to " ++ path.text ++ ": " ++ error.message
  | .loadFailed path error => "Failed to load state from " ++ path.text ++ ": " ++ error.message

end LogEvent

/-- What can be learned about a file or a directory without opening it. The time of its last change
is counted in nanoseconds and may lie before the epoch. -/
structure FileStatus where
  isDirectory : Bool
  modified : Int
deriving DecidableEq, Repr

/-- The operations that a host offers to a store. -/
class Host (m : Type → Type) where
  /-- The status of what is at a path, if there is anything. -/
  status : Path → m (Option FileStatus)
  /-- The absolute path, without detours, of what is at a path. -/
  canonical : Path → m (Option Path)
  /-- The content of a file. -/
  read : Path → m (Except OsError Wire.Bytes)
  /-- Makes an empty file, or empties the one that is there. -/
  create : Path → m (Except OsError Unit)
  /-- Makes an empty file where nothing is yet. -/
  createNew : Path → m (Except OsError Unit)
  /-- Whether a file could be extended. -/
  canAppend : Path → m Bool
  /-- Extends a file. -/
  append : Path → Wire.Bytes → m (Except OsError Unit)
  /-- Waits until the content of a file is on the disk. -/
  sync : Path → m (Except OsError Unit)
  /-- Moves a file to another path, where it replaces a file that is there. -/
  rename : Path → Path → m (Except OsError Unit)
  /-- Removes a file. -/
  remove : Path → m (Except OsError Unit)
  /-- A text that no other scratch file of the host has in its name. -/
  scratchMark : m String
  /-- The system's directory for temporary files. -/
  temporaryDir : m Path
  /-- Adds to the log. -/
  log : LogEvent → m Unit

end EvidenceTags
