import EvidenceTags.CommandLine.Program

/-!
# The command line program

Runs the program on the real system: files are those of the disk, errors of the log go to the error
stream, and what the program prints goes to its output.
-/

namespace EvidenceTags

namespace Disk

/-- The answer of the system as far as a store tells answers apart. -/
def answerOf : IO.Error → OsError
  | .noFileOrDirectory .. => .notFound
  | .alreadyExists .. => .exists
  | .resourceBusy .. => .busy
  | .inappropriateType _ code details =>
    if code = 20 then .notDirectory else if code = 21 then .isDirectory else .other details
  | .invalidArgument _ code details =>
    if code = 36 then .nameTooLong else if code = 40 then .tooManyLinks else .other details
  | error => .other (toString error)

/-- The value of an action, or what the system answers to it. -/
def attempt {α : Type} (action : IO α) : IO (Except OsError α) := do
  try
    return .ok (← action)
  catch error => return .error (answerOf error)

instance : Host IO where
  status p := do
    let found ← attempt do
      let file ← IO.FS.realPath ⟨p.text⟩
      file.metadata
    return found.toOption.map fun data =>
      ⟨data.type == .dir, data.modified.sec * 1000000000 + data.modified.nsec.toNat⟩
  canonical p := do
    let found ← attempt (IO.FS.realPath ⟨p.text⟩)
    return found.toOption.map fun file => ⟨file.toString⟩
  read p := attempt do return (← IO.FS.readBinFile ⟨p.text⟩).toList
  create p := attempt (IO.FS.writeBinFile ⟨p.text⟩ .empty)
  createNew p := attempt do
    let _ ← IO.FS.Handle.mk ⟨p.text⟩ .writeNew
  canAppend p := do
    let handle ← attempt (IO.FS.Handle.mk ⟨p.text⟩ .append)
    return handle.toOption.isSome
  append p bytes := attempt do
    let handle ← IO.FS.Handle.mk ⟨p.text⟩ .append
    handle.write ⟨bytes.toArray⟩
    handle.flush
  sync _ := return .ok ()
  rename source goal := attempt (IO.FS.rename ⟨source.text⟩ ⟨goal.text⟩)
  remove p := attempt (IO.FS.removeFile ⟨p.text⟩)
  scratchMark := do return toString (← IO.monoNanosNow) ++ "-" ++ toString (← IO.rand 0 999999)
  temporaryDir := do return ⟨(← IO.getEnv "TMPDIR").getD "/tmp"⟩
  log event := do
    if event.level = .error then IO.eprintln event.text

end Disk

end EvidenceTags

/-- Runs the program with the arguments and the environment of the process. -/
def main (args : List String) : IO UInt32 := do
  let settings := EvidenceTags.Settings.defaultPath (← IO.getEnv "XDG_CONFIG_HOME")
    (← IO.getEnv "HOME") "/"
  let outcome : EvidenceTags.CommandLine.Outcome ← EvidenceTags.CommandLine.run settings args
  IO.print outcome.output
  match outcome.failure with
  | some text => IO.eprintln text
  | none => pure ()
  return outcome.code
