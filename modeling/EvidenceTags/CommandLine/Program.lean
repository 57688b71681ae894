import EvidenceTags.CommandLine.Arguments
import EvidenceTags.Store

/-!
# The program

The program shows and migrates snapshot files, and lists the tags of a case. It answers with an exit
code, what it prints, and, if it fails, what went wrong.
-/

namespace EvidenceTags

namespace CommandLine

/-- How the program ends. -/
structure Outcome where
  code : UInt32
  output : String
  /-- What to report of a failure. -/
  failure : Option String
deriving DecidableEq, Repr

/-- The program ends well, with this output. -/
def Outcome.ok (output : String) : Outcome := ⟨0, output, none⟩

/-- The program fails for the given reason. -/
def Outcome.failed (what : String) (path : Path) (reason : StoreError) : Outcome :=
  ⟨1, "", some ("Error: " ++ what ++ " " ++ path.text ++ "\n\nCaused by:\n    " ++ reason.message)⟩

/-- The arguments make no sense. -/
def Outcome.misused (usage : String) : Outcome := ⟨2, "", some usage⟩

/-- Text with blanks in front, at least `width` characters in all. -/
def padLeft (width : Nat) (s : String) : String :=
  String.ofList (List.replicate (width - s.length) ' ') ++ s

/-- Text with blanks behind it, at least `width` characters in all. -/
def padRight (width : Nat) (s : String) : String :=
  s ++ String.ofList (List.replicate (width - s.length) ' ')

/-- The line for a tag: its number, its name, how many items it has, and a remark. -/
def tagLine (tag : TagId) (name : String) (size : Nat) (remark : String) : String :=
  padLeft 4 (toString tag) ++ "  " ++ padRight 32 name ++ " " ++ padLeft 8 (toString size) ++ remark
    ++ "\n"

/-- The report on a snapshot. -/
def snapshotReport (format : UInt16) (s : Snapshot) : String :=
  let head := "format:  v" ++ toString format.toNat ++ "\nchecked: "
    ++ toString s.checkedCount.toNat ++ "\nwords:   " ++ toString s.typedWords.length ++ "\n"
  let line (e : TagId × String) : String :=
    tagLine e.1 e.2 ((s.members.get? e.1).elim 0 (·.items.size))
      (if s.registry.isInReport e.1 then " [report]" else "")
  head ++ String.join (s.registry.names.entries.map line)

/-- The report on the tags of a case. -/
def caseReport (s : CaseState) : String :=
  let line (e : TagId × String) : String :=
    tagLine e.1 e.2 ((s.roster.cardinality? e.1).getD 0) ""
  String.join (s.registry.names.entries.map line) ++ "checked: " ++ toString s.selection.count
    ++ "\n"

variable {m : Type → Type} [Monad m] [Host m]

/-- Carries out a command. The settings are at `defaultSettings` unless the command says where. -/
def Command.run (defaultSettings : Path) : Command → m Outcome
  | .inspect file last => do
    match ← readSnapshot file with
    | .error error => pure (.failed "Failed to read snapshot" file error)
    | .ok stored => do
      let snapshot ← currentSnapshot stored last
      pure (.ok (snapshotReport stored.format snapshot))
  | .migrate input output last => do
    match ← readSnapshot input with
    | .error error => pure (.failed "Failed to read snapshot" input error)
    | .ok stored => do
      let snapshot ← currentSnapshot stored last
      match ← replaceFile output snapshot.encode with
      | .error error => pure (.failed "Failed to write" output error)
      | .ok () => pure (.ok "")
  | .tags settings last => do
    let path := settings.getD defaultSettings
    match ← loadSettings path with
    | .error error => pure (.failed "Failed to load config" path error)
    | .ok settings => do
      let store ← Store.openCase (.dense last) settings
      let store ← store.load
      pure (.ok (caseReport store.state))

/-- How the program is called. -/
def usage : String :=
  "Usage: tagindex inspect --last-id <LAST_ID> <FILE>\n" ++
  "       tagindex migrate --last-id <LAST_ID> <INPUT> <OUTPUT>\n" ++
  "       tagindex tags [--config <CONFIG>] --last-id <LAST_ID>\n"

/-- Runs the program with these arguments. -/
def run (defaultSettings : Path) (args : List String) : m Outcome :=
  match Request.ofArguments? args with
  | some (.run command) => command.run defaultSettings
  | some .version => pure (.ok "tagindex 0.1.0\n")
  | some .help => pure (.ok usage)
  | none => pure (.misused usage)

end CommandLine

end EvidenceTags
