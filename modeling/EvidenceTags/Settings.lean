import EvidenceTags.Error
import EvidenceTags.Toml.Document

/-!
# Settings

Where a store keeps its files, and whether it waits for them to be written. Settings are read from a
text; what the text does not mention keeps its default, and what no setting is called by is ignored.
-/

namespace EvidenceTags

/-- How a store is opened. -/
structure Settings where
  /-- Where the state file and the search index are. -/
  moduleDir : Path
  /-- Where cookies go, if not into the system's directory for temporary files. -/
  tempDir : Option Path
  /-- Whether every save is written before it returns. -/
  syncSave : Bool
deriving DecidableEq, Repr

namespace Settings

/-- The settings that hold where nothing is said. -/
def default : Settings := ⟨⟨"."⟩, none, false⟩

instance : Inhabited Settings := ⟨default⟩

/-- The path that a key is set to, if it is set at all. -/
def path? (entries : Toml.Entries) (key : String) : Except StoreError (Option Path) :=
  match entries.get? key with
  | none => .ok none
  | some (.value (.text s)) => .ok (some ⟨s⟩)
  | some _ => .error (.config (key ++ " is not a text"))

/-- The truth value that a key is set to, if it is set at all. -/
def truth? (entries : Toml.Entries) (key : String) : Except StoreError (Option Bool) :=
  match entries.get? key with
  | none => .ok none
  | some (.value (.truth b)) => .ok (some b)
  | some _ => .error (.config (key ++ " is not a truth value"))

/-- The settings that a text describes. -/
def ofText (text : String) : Except StoreError Settings :=
  match Toml.read? text with
  | none => .error (.config "not a text of settings")
  | some entries => do
    let moduleDir ← path? entries "module_dir"
    let tempDir ← path? entries "temp_dir"
    let syncSave ← truth? entries "sync_save"
    pure ⟨moduleDir.getD default.moduleDir, tempDir, syncSave.getD default.syncSave⟩

/-- The home directory of a user: the one that the environment names, if it names one, else that of
the account. -/
def homeDir (home : Option String) (accountHome : String) : Path :=
  match home with
  | some dir => if dir = "" then ⟨accountHome⟩ else ⟨dir⟩
  | none => ⟨accountHome⟩

/-- Where the configuration files of a user go. The directory that the environment names for them
counts only if its path is absolute; otherwise they are below the home directory. -/
def configDir (configHome home : Option String) (accountHome : String) : Path :=
  let below := (homeDir home accountHome).join ".config"
  match configHome with
  | some dir => if Path.isAbsolute ⟨dir⟩ then ⟨dir⟩ else below
  | none => below

/-- Where the settings of a user are, given what the environment names. -/
def defaultPath (configHome home : Option String) (accountHome : String) : Path :=
  ((configDir configHome home accountHome).join "tagindex").join "config.toml"

end Settings

end EvidenceTags
