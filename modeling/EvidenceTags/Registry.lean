import EvidenceTags.Ascending
import EvidenceTags.Error
import EvidenceTags.TagMap.Basic

/-!
# The registry: what is known about each tag

The registry keeps the name of every live tag, and the attributes that an investigator may add: a
comment, a key binding, a colour, and whether the tag goes into the report. A tag is live here when
it has a name, and only live tags can be given attributes. Names need not be distinct; a name stands
for the lowest tag that has it.
-/

namespace EvidenceTags

/-- A key combination, kept as the bytes it was given as. -/
structure KeyBinding where
  bytes : List UInt8
deriving DecidableEq, Repr, Inhabited

/-- A display colour, kept as the number it was given as. -/
structure Color where
  value : UInt32
deriving DecidableEq, Repr, Inhabited

instance : LT Color := ⟨fun a b => a.value < b.value⟩

instance : DecidableLT Color := fun a b => inferInstanceAs (Decidable (a.value < b.value))

/-- Names and attributes of tags. -/
structure Registry where
  names : TagMap String
  comments : TagMap String
  keyBindings : TagMap KeyBinding
  colors : TagMap Color
  inReport : TagSet
deriving DecidableEq

namespace Registry

/-- The registry without tags. -/
def empty : Registry := ⟨∅, ∅, ∅, ∅, ∅⟩

instance : Inhabited Registry := ⟨empty⟩

/-- Whether `tag` is live. -/
def isLive (r : Registry) (tag : TagId) : Bool := r.names.contains tag

/-- Changes the registry if `tag` is live. -/
def whenLive (r : Registry) (tag : TagId) (change : Registry → Registry) :
    Except StoreError Registry :=
  if r.isLive tag then .ok (change r) else .error (.unknownTag tag)

/-- Forgets the name and all attributes of `tag`. -/
def remove (r : Registry) (tag : TagId) : Registry :=
  ⟨r.names.erase tag, r.comments.erase tag, r.keyBindings.erase tag, r.colors.erase tag,
    r.inReport.erase tag⟩

/-- Registers `tag` under a name, without attributes. -/
def insert (r : Registry) (tag : TagId) (name : String) : Registry :=
  let r := r.remove tag
  { r with names := r.names.insert tag name }

/-- The lowest tag with exactly this name. -/
def idOf? (r : Registry) (name : String) : Option TagId :=
  (r.names.entries.find? (·.2 = name)).map (·.1)

/-- Gives a live tag another name. Another tag may have that name already. -/
def rename (r : Registry) (tag : TagId) (name : String) : Registry :=
  if r.isLive tag then { r with names := r.names.insert tag name } else r

/-- Sets or clears the comment of a live tag. -/
def setComment (r : Registry) (tag : TagId) (comment : Option String) :
    Except StoreError Registry :=
  r.whenLive tag fun r => match comment with
    | some text => { r with comments := r.comments.insert tag text }
    | none => { r with comments := r.comments.erase tag }

/-- Sets the key binding of a live tag. -/
def setKeyBinding (r : Registry) (tag : TagId) (key : KeyBinding) : Except StoreError Registry :=
  r.whenLive tag fun r => { r with keyBindings := r.keyBindings.insert tag key }

/-- Clears the key binding of `tag`. -/
def removeKeyBinding (r : Registry) (tag : TagId) : Registry :=
  { r with keyBindings := r.keyBindings.erase tag }

/-- Sets or clears the colour of a live tag. -/
def setColor (r : Registry) (tag : TagId) (color : Option Color) : Except StoreError Registry :=
  r.whenLive tag fun r => match color with
    | some color => { r with colors := r.colors.insert tag color }
    | none => { r with colors := r.colors.erase tag }

/-- Puts a live tag into the report, or takes it out. -/
def setInReport (r : Registry) (tag : TagId) (value : Bool) : Except StoreError Registry :=
  r.whenLive tag fun r =>
    if value then { r with inReport := r.inReport.insert tag () }
    else { r with inReport := r.inReport.erase tag }

/-- Whether `tag` goes into the report. -/
def isInReport (r : Registry) (tag : TagId) : Bool := r.inReport.contains tag

/-- The colours that some tag has, each once, ascending. -/
def usedColors (r : Registry) : List Color := Ascending.ofList r.colors.values

end Registry

end EvidenceTags
