import EvidenceTags.Path
import EvidenceTags.Tag

/-!
# Arguments of the command line

A command has a name, operands and options. An option takes a value, which is the next argument or
follows an equals sign; it may be given once. What begins with a hyphen is an option, except for a
hyphen alone and for what comes after two hyphens.

Arguments are read one after another, and the first that makes no sense ends that, as does a request
for help.
-/

namespace EvidenceTags

namespace CommandLine

/-- What the program is asked to do. -/
inductive Command where
  /-- Show the tags in a snapshot file. -/
  | inspect (file : Path) (last : ItemId)
  /-- Write a snapshot file again in the current version. -/
  | migrate (input output : Path) (last : ItemId)
  /-- Show the tags of the case that the settings name. -/
  | tags (settings : Option Path) (last : ItemId)
deriving DecidableEq, Repr

/-- What the arguments ask for. -/
inductive Request where
  | run (command : Command)
  | version
  | help
deriving DecidableEq, Repr

/-- Arguments of a command, sorted out. -/
structure Arguments where
  operands : List Path
  last : Option ItemId
  settings : Option Path
deriving DecidableEq, Repr

/-- What a command takes: how many operands, and whether it takes the option for settings. -/
structure Shape where
  operands : Nat
  hasSettings : Bool
deriving DecidableEq, Repr

/-- Whether an argument has to be an option. -/
def isOption (arg : String) : Bool := arg.toList.head? == some '-' && arg != "-"

/-- An argument up to its first equals sign, and what follows that sign. -/
def splitOption (arg : String) : String × Option String :=
  let name := arg.toList.takeWhile (· ≠ '=')
  let rest := arg.toList.drop (name.length + 1)
  (String.ofList name, if arg.toList.contains '=' then some (String.ofList rest) else none)

/-- The path that an argument gives; it must not be empty. -/
def path? (arg : String) : Option Path := if arg = "" then none else some ⟨arg⟩

/-- The item that an argument gives in decimal digits. A sign is allowed where it changes
nothing. -/
def item? (arg : String) : Option ItemId :=
  let (negative, digits) := match arg.toList with
    | '-' :: digits => (true, digits)
    | '+' :: digits => (false, digits)
    | digits => (false, digits)
  if digits.isEmpty ∨ ¬ digits.all (fun c => '0' ≤ c && c ≤ '9') then none
  else
    let n := digits.foldl (fun n c => 10 * n + (c.toNat - '0'.toNat)) 0
    if (negative ∧ n ≠ 0) ∨ 4294967296 ≤ n then none else some (UInt32.ofNat n)

/-- Takes an operand, if the command has room for it. -/
def readOperand (shape : Shape) (found : Arguments) (arg : String) : Option Arguments := do
  guard (found.operands.length < shape.operands)
  some { found with operands := found.operands ++ [← path? arg] }

/-- Takes an option with its value, if the command knows it and does not have it yet. -/
def readOption (shape : Shape) (found : Arguments) (name value : String) : Option Arguments :=
  match name with
  | "--last-id" => do
    guard found.last.isNone
    some { found with last := some (← item? value) }
  | "--config" => do
    guard (shape.hasSettings ∧ found.settings.isNone)
    some { found with settings := some (← path? value) }
  | _ => none

/-- Sorts out arguments; a request for help ends that at once. -/
def sortOut (shape : Shape) (found : Arguments) : List String → Option (Arguments ⊕ Unit)
  | [] => some (.inl found)
  | "--" :: rest => .inl <$> rest.foldlM (readOperand shape) found
  | arg :: rest =>
    if ¬ isOption arg then do sortOut shape (← readOperand shape found arg) rest
    else if arg = "--help" ∨ "-h".toList.isPrefixOf arg.toList then some (.inr ())
    else
      let (name, attached) := splitOption arg
      match attached, rest with
      | some value, rest => do sortOut shape (← readOption shape found name value) rest
      | none, value :: rest =>
        -- a value that looks like an option has to follow an equals sign
        if isOption value then none
        else do sortOut shape (← readOption shape found name value) rest
      | none, [] => none

/-- The command of a name with sorted arguments. -/
def command? (name : String) (a : Arguments) : Option Command := do
  let last ← a.last
  match name, a.operands with
  | "inspect", [file] => some (.inspect file last)
  | "migrate", [input, output] => some (.migrate input output last)
  | "tags", [] => some (.tags a.settings last)
  | _, _ => none

/-- What the command of a name takes. -/
def Shape.ofName? : String → Option Shape
  | "inspect" => some ⟨1, false⟩
  | "migrate" => some ⟨2, false⟩
  | "tags" => some ⟨0, true⟩
  | _ => none

/-- Whether help can be given about what arguments name: everything, or one command. -/
def isTopic : List String → Bool
  | [] => true
  | [name] => name == "help" || (Shape.ofName? name).isSome
  | _ => false

/-- What arguments ask for, if they can be made sense of. -/
def Request.ofArguments? : List String → Option Request
  | [] => none
  | arg :: rest =>
    if arg = "--version" ∨ "-V".toList.isPrefixOf arg.toList then some .version
    else if arg = "--help" ∨ "-h".toList.isPrefixOf arg.toList then some .help
    else if arg = "help" then if isTopic rest then some .help else none
    else do
      match ← sortOut (← Shape.ofName? arg) ⟨[], none, none⟩ rest with
      | .inl found => Request.run <$> command? arg found
      | .inr () => some .help

end CommandLine

end EvidenceTags
