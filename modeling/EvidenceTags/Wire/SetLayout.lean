import EvidenceTags.PackedSet
import EvidenceTags.Wire.Reader

/-!
# The layout of a set of items

A set is laid out in containers, one for each block of 65536 consecutive numbers that has items. A
container names its block and says how many items it holds; its data are the lower halves of the
items in ascending order, or else one bit for each number of the block, as the block is packed. A
header lists the containers and where their data begin.

When read, a container is a list of up to 4096 items, or else has bits, by its announced size. So a
set with blocks that are packed otherwise is not read back as it was written, if at all. A container
may also be a list of runs, of which the first item and the number of further items are given. Runs
may overlap and come in any order; the sum of their further items decides how the block is packed
from then on. The places given in the header are not looked at, since the containers follow one
another anyway.
-/

namespace EvidenceTags

namespace Wire

namespace SetLayout

/-- Marks a layout without runs. -/
def plainMark : Nat := 12346

/-- Marks, in the lower half, a layout whose containers may be lists of runs. -/
def runMark : Nat := 12347

/-- From this many containers on, a layout with runs says where the data begin. -/
def placesFrom : Nat := 4

/-- The items of one block, by their lower halves. -/
structure Container where
  block : Nat
  lows : List Nat
deriving DecidableEq, Repr

/-- Puts an index that is lower than all others into the container of its block. -/
def Container.put (x : Nat) : List Container → List Container
  | [] => [⟨x / blockSize, [x % blockSize]⟩]
  | c :: rest =>
    if c.block = x / blockSize then ⟨c.block, x % blockSize :: c.lows⟩ :: rest
    else ⟨x / blockSize, [x % blockSize]⟩ :: c :: rest

/-- Splits ascending indices into the blocks that they fall into. -/
def containersOf (indices : List Nat) : List Container := indices.foldr Container.put []

/-- The next `n` bytes of the bits of ascending numbers, of which `base` is the lowest possible. -/
def bitBytes : Nat → Nat → List Nat → Bytes
  | 0, _, _ => []
  | n + 1, base, lows =>
    let byte :=
      (lows.takeWhile (· < base + 8)).foldl (fun sum low => sum + Nat.pow 2 (low - base)) 0
    UInt8.ofNat byte :: bitBytes n (base + 8) (lows.dropWhile (· < base + 8))

/-- The data of a container that is packed in the given way. -/
def Container.data (c : Container) : Packing → Bytes
  | .listed => c.lows.flatMap (number 2)
  | .mapped => bitBytes (blockSize / 8) 0 c.lows

/-- Where data of the given lengths begin, if the first begin at `start`. -/
def places (start : Nat) : List Nat → List Nat
  | [] => []
  | length :: rest => start :: places (start + length) rest

/-- The bytes of a set. -/
def encode (s : PackedSet) : Bytes :=
  let containers := containersOf s.items.indices
  let data := containers.map fun c => c.data (s.packing c.block c.lows.length)
  number 4 plainMark ++ number 4 containers.length
    ++ containers.flatMap (fun c => number 2 c.block ++ number 2 (c.lows.length - 1))
    ++ (places (8 + 8 * containers.length) (data.map List.length)).flatMap (number 4)
    ++ data.flatten

/-- What the header says about a container. -/
structure Description where
  block : Nat
  cardinality : Nat
deriving DecidableEq, Repr

/-- Takes a description. -/
def readDescription : Reader Description := do
  let block ← readNumber .setTooShort 2
  let cardinality ← readNumber .setTooShort 2
  pure ⟨block, cardinality + 1⟩

/-- The items of a block with the given lower halves. -/
def itemsAt (block : Nat) (lows : List Nat) : ItemSet :=
  ItemSet.ofList (lows.map fun low => UInt32.ofNat (block * blockSize + low))

/-- The first place at which numbers do not ascend strictly, where `previous` stands at `index`. -/
def firstDisorder (previous index : Nat) : List Nat → Option DecodeFault
  | [] => none
  | low :: rest =>
    if previous < low then firstDisorder low (index + 1) rest
    else if previous = low then some (.duplicateItem (index + 1))
    else some (.unorderedItem (index + 1))

/-- Takes the data of a container that lists its items. -/
def readListed (d : Description) : Reader ItemSet := do
  let lows ← readMany d.cardinality (readNumber .setTooShort 2)
  match lows with
  | [] => pure ∅
  | low :: rest =>
    match firstDisorder low 0 rest with
    | some fault => fail fault
    | none => pure (itemsAt d.block lows)

/-- The numbers whose bits are set, where the first byte holds the bits from `base` on. -/
def setBits (base : Nat) : Bytes → List Nat → List Nat
  | [], acc => acc.reverse
  | byte :: rest, acc =>
    setBits (base + 8) rest
      (((List.range 8).filter (fun i => byte.toNat.testBit i)).foldl
        (fun acc i => (base + i) :: acc) acc)

/-- Takes the data of a container that has a bit for each number. -/
def readBits (d : Description) : Reader ItemSet := do
  let bytes ← readBytes .setTooShort (blockSize / 8)
  let lows := setBits 0 bytes []
  if lows.length = d.cardinality then pure (itemsAt d.block lows)
  else fail (.cardinality d.cardinality lows.length)

/-- Takes a run: its first item and the number of further ones. -/
def readRun : Reader (Nat × Nat) := do
  let start ← readNumber .setTooShort 2
  let further ← readNumber .setTooShort 2
  pure (start, further)

/-- The items of a block in a run. -/
def runAt (block : Nat) (run : Nat × Nat) : ItemSet :=
  let first := block * blockSize + run.1
  ItemSet.interval first (first + run.2 + 1)

/-- Takes the data of a container that lists runs. The block is packed as a block asks for that has
as many items as the runs have further ones, overlaps not taken off. -/
def readRuns (d : Description) : Reader PackedBlock := do
  let n ← readNumber .setTooShort 2
  let runs ← readMany n readRun
  if runs.any (fun r => blockSize ≤ r.1 + r.2) then fail .runTooLong
  else
    let further := runs.foldl (fun sum r => sum + r.2) 0
    pure ⟨d.block, .ofSize further, ItemSet.unionOf (runs.map (runAt d.block))⟩

/-- Takes the data of a container. -/
def readData (d : Description) (isRuns : Bool) : Reader PackedBlock :=
  if isRuns then readRuns d
  else
    match Packing.ofSize d.cardinality with
    | .listed => PackedBlock.mk d.block .listed <$> readListed d
    | .mapped => PackedBlock.mk d.block .mapped <$> readBits d

/-- Takes the data of the described containers, of which the first is number `index`; `flags` has a
bit for each container, set if it lists runs. -/
def readContainers (flags : Bytes) (index : Nat) : List Description → Reader (List PackedBlock)
  | [] => pure []
  | d :: rest => do
    let isRuns := match flags[index / 8]? with
      | some byte => byte.toNat.testBit (index % 8)
      | none => false
    let block ← readData d isRuns
    let others ← readContainers flags (index + 1) rest
    pure (block :: others)

/-- Takes `n` containers with their descriptions. -/
def readLayout (n : Nat) (flags : Bytes) (hasPlaces : Bool) : Reader PackedSet := do
  if blockSize < n then fail .tooManyContainers
  else
    let descriptions ← readMany n readDescription
    -- the containers follow one another, so nothing has to be looked up in the places
    if hasPlaces then
      let _ ← readBytes .setTooShort (4 * n)
    let blocks ← readContainers flags 0 descriptions
    pure (.ofBlocks blocks)

/-- Takes a set. -/
def read : Reader PackedSet := do
  let mark ← readNumber .setTooShort 4
  if mark = plainMark then
    let n ← readNumber .setTooShort 4
    readLayout n [] true
  else if mark % 65536 = runMark then
    let n := mark / 65536 + 1
    let flags ← readBytes .setTooShort ((n + 7) / 8)
    readLayout n flags (decide (placesFrom ≤ n))
  else fail .unknownSetLayout

/-- The set that bytes begin with. -/
def decode (bytes : Bytes) : Except DecodeFault PackedSet := (read bytes).map (·.1)

end SetLayout

end Wire

end EvidenceTags
