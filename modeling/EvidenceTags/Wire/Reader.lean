import EvidenceTags.Error

/-!
# Reading bytes from front to back

A reader takes a value from the front of the input and leaves the rest, or finds a fault and stops.
Nothing is ever looked at twice, so what a reader has taken is all that its answer depends on.

Numbers are written with a fixed width, lowest byte first; a list is its length in eight bytes
followed by the elements.
-/

namespace EvidenceTags

namespace Wire

/-- Bytes of a file. -/
abbrev Bytes := List UInt8

/-- Takes a value from the front of the input. -/
abbrev Reader := StateT Bytes (Except DecodeFault)

/-- The `width` lowest bytes of a number, lowest first. -/
def number : Nat → Nat → Bytes
  | 0, _ => []
  | width + 1, n => UInt8.ofNat (n % 256) :: number width (n / 256)

/-- A list, with its length in front. -/
def sequence {α : Type} (write : α → Bytes) (l : List α) : Bytes :=
  number 8 l.length ++ l.flatMap write

/-- A block of bytes, with its length in front. -/
def block (bytes : Bytes) : Bytes := number 8 bytes.length ++ bytes

/-- Stops with a fault. -/
def fail {α : Type} (fault : DecodeFault) : Reader α := fun _ => .error fault

/-- Takes one byte, or stops with `short` at the end of the input. -/
def readByte (short : DecodeFault) : Reader UInt8
  | [] => .error short
  | byte :: rest => .ok (byte, rest)

/-- Takes a number of `width` bytes, or stops with `short` if the input ends before. -/
def readNumber (short : DecodeFault) : Nat → Reader Nat
  | 0 => pure 0
  | width + 1 => do
    let low ← readByte short
    let high ← readNumber short width
    pure (low.toNat + 256 * high)

/-- Takes `n` bytes at once, or stops with `short` if there are fewer. -/
def readBytes (short : DecodeFault) (n : Nat) : Reader Bytes := fun input =>
  let taken := input.take n
  if taken.length < n then .error short else .ok (taken, input.drop n)

/-- Takes `n` values one after another, behind the reversed list `acc`. -/
def readManyOnto {α : Type} (read : Reader α) : Nat → List α → Reader (List α)
  | 0, acc => fun input => .ok (acc.reverse, input)
  | n + 1, acc => fun input =>
    match read input with
    | .error fault => .error fault
    | .ok (value, rest) => readManyOnto read n (value :: acc) rest

/-- Takes `n` values one after another. -/
def readMany {α : Type} (n : Nat) (read : Reader α) : Reader (List α) := readManyOnto read n []

/-- Takes a length and as many values. -/
def readSequence {α : Type} (read : Reader α) : Reader (List α) := do
  let n ← readNumber .endOfInput 8
  readMany n read

/-- Takes a length and as many bytes, one by one. -/
def readBlock : Reader Bytes := readSequence (readByte .endOfInput)

end Wire

end EvidenceTags
