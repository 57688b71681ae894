import EvidenceTags.Snapshot
import EvidenceTags.Wire.SetLayout
import EvidenceTags.Wire.Utf8

/-!
# Snapshot files

A snapshot file begins with four letters and a version number, and goes on with the fields of the
saved state in a fixed order. The two versions differ in the field that tells which items carry
which tags, as the two layouts of a snapshot do.

Maps are written in ascending order of the tag. When read, the entries may come in any order, and of
several entries for a tag the last counts. The sets of the current version are laid out as blocks of
bytes, which are taken apart once the whole map has been read, in ascending order of the tag. Bytes
after the last field are ignored.
-/

namespace EvidenceTags

namespace Wire

/-- A flag. -/
def flag (value : Bool) : Bytes := [if value then 1 else 0]

/-- A text. -/
def text (s : String) : Bytes := block (Utf8.encode s)

/-- A tag. -/
def tag (t : TagId) : Bytes := number 4 t.value.toNat

/-- A map, as the list of its entries. -/
def tagMap {α : Type} (write : α → Bytes) (m : TagMap α) : Bytes :=
  sequence (fun e => tag e.1 ++ write e.2) m.entries

/-- The names and attributes of tags. -/
def registry (r : Registry) : Bytes :=
  tagMap text r.names ++ tagMap text r.comments ++ tagMap (fun k => block k.bytes) r.keyBindings
    ++ tagMap (fun c => number 4 c.value.toNat) r.colors ++ tagMap (fun _ => []) r.inReport

/-- A saved state. -/
def savedState {μ : Type} (members : μ → Bytes) (s : SavedState μ) : Bytes :=
  sequence flag s.checked.toList ++ members s.members ++ registry s.registry
    ++ sequence text s.typedWords ++ number 8 s.checkedCount.toNat

/-- The sets of items of the current version. -/
def memberSets (sets : TagMap PackedSet) : Bytes :=
  tagMap (fun s => block (SetLayout.encode s)) sets

/-- The tag bits of the legacy version. -/
def memberBits (bits : List TagBits) : Bytes := sequence (fun b => block b.bytes) bits

/-- Takes a flag. -/
def readFlag : Reader Bool := do
  let byte ← readByte .endOfInput
  if byte = 0 then pure false
  else if byte = 1 then pure true
  else fail (.notBool byte)

/-- Takes a text. -/
def readText : Reader String := do
  let n ← readNumber .endOfInput 8
  let bytes ← readBytes .textTooLong n
  match Utf8.decode bytes with
  | .ok s => pure s
  | .error fault => fail (.notText fault)

/-- Takes a tag. -/
def readTag : Reader TagId := do
  let n ← readNumber .endOfInput 4
  pure ⟨UInt32.ofNat n⟩

/-- Takes a map. -/
def readTagMap {α : Type} (read : Reader α) : Reader (TagMap α) := do
  let entries ← readSequence do
    let key ← readTag
    let value ← read
    pure (key, value)
  pure (TagMap.ofList entries)

/-- Takes the names and attributes of tags. -/
def readRegistry : Reader Registry := do
  let names ← readTagMap readText
  let comments ← readTagMap readText
  let keyBindings ← readTagMap (KeyBinding.mk <$> readBlock)
  let colors ← readTagMap ((fun n => Color.mk (UInt32.ofNat n)) <$> readNumber .endOfInput 4)
  let inReport ← readTagMap (pure ())
  pure ⟨names, comments, keyBindings, colors, inReport⟩

/-- Takes a saved state. -/
def readSavedState {μ : Type} (readMembers : Reader μ) : Reader (SavedState μ) := do
  let checked ← readSequence readFlag
  let members ← readMembers
  let registry ← readRegistry
  let typedWords ← readSequence readText
  let checkedCount ← readNumber .endOfInput 8
  pure ⟨.ofList checked, members, registry, typedWords, UInt64.ofNat checkedCount⟩

/-- Takes the blocks of a map apart, in the order of their tags. -/
def decodeSets : List (TagId × Bytes) → Except DecodeFault (List (TagId × PackedSet))
  | [] => .ok []
  | (key, bytes) :: rest => do
    let set ← SetLayout.decode bytes
    let others ← decodeSets rest
    pure ((key, set) :: others)

/-- Takes the sets of items of the current version. -/
def readMemberSets : Reader (TagMap PackedSet) := do
  let blocks ← readTagMap readBlock
  match decodeSets blocks.entries with
  | .ok sets => pure (TagMap.ofList sets)
  | .error fault => fail fault

/-- Takes the tag bits of the legacy version. -/
def readMemberBits : Reader (List TagBits) := readSequence (TagBits.mk <$> readBlock)

end Wire

/-- The letters that every snapshot file begins with. -/
def snapshotMagic : Wire.Bytes := [0x54, 0x49, 0x44, 0x58]

/-- The file of a snapshot. -/
def Snapshot.encode (s : Snapshot) : Wire.Bytes :=
  snapshotMagic ++ Wire.number 2 2 ++ Wire.savedState Wire.memberSets s

/-- The file of a legacy snapshot. -/
def LegacySnapshot.encode (s : LegacySnapshot) : Wire.Bytes :=
  snapshotMagic ++ Wire.number 2 1 ++ Wire.savedState Wire.memberBits s

namespace StoredSnapshot

/-- The file of what was stored, in its own version. -/
def encode : StoredSnapshot → Wire.Bytes
  | .legacy s => s.encode
  | .current s => s.encode

/-- The value that a reader takes from the front of `bytes`. -/
def decodeBody {α : Type} (read : Wire.Reader α) (bytes : Wire.Bytes) : Except StoreError α :=
  match read bytes with
  | .ok (value, _) => .ok value
  | .error fault => .error (.decode fault)

/-- What a file holds. The version decides how the rest of the file is read. -/
def decode (bytes : Wire.Bytes) : Except StoreError StoredSnapshot :=
  if bytes.take 4 = snapshotMagic then
    match bytes.drop 4 with
    | low :: high :: body =>
      match low.toNat + 256 * high.toNat with
      | 1 => .legacy <$> decodeBody (Wire.readSavedState Wire.readMemberBits) body
      | 2 => .current <$> decodeBody (Wire.readSavedState Wire.readMemberSets) body
      | version => .error (.unsupportedVersion (UInt16.ofNat version))
    | _ => .error .badMagic
  else .error .badMagic

end StoredSnapshot

end EvidenceTags
