import EvidenceTags.Tag

/-!
# Packed tag bits

The older snapshot layout keeps, for each item, a vector of bytes with one bit per tag. Tag `t` is
bit `t % 8` of byte `t / 8`. The width never changes after creation: a tag beyond it reads as unset
and can not be set.
-/

namespace EvidenceTags

/-- One bit per tag, eight tags to a byte. -/
structure TagBits where
  bytes : List UInt8
deriving DecidableEq, Repr, Inhabited

namespace TagBits

/-- Number of tags that share one byte. -/
def tagsPerByte : Nat := 8

/-- A vector without any tag, wide enough for `slots` tags. -/
def ofSlots (slots : Nat) : TagBits :=
  ⟨List.replicate ((slots + tagsPerByte - 1) / tagsPerByte) 0⟩

/-- Index of the byte that holds `tag`. -/
def byteIndex (tag : TagId) : Nat := tag.value.toNat / tagsPerByte

/-- The byte whose only set bit is that of `tag`. -/
def mask (tag : TagId) : UInt8 := 1 <<< UInt8.ofNat (tag.value.toNat % tagsPerByte)

/-- Whether `tag` is set. -/
def contains (bits : TagBits) (tag : TagId) : Bool :=
  match bits.bytes[byteIndex tag]? with
  | some byte => byte &&& mask tag != 0
  | none => false

/-- Sets `tag`, if the vector is wide enough for it. -/
def insert (bits : TagBits) (tag : TagId) : TagBits :=
  ⟨bits.bytes.modify (byteIndex tag) (· ||| mask tag)⟩

/-- Setting a tag never changes the width. -/
theorem length_insert (bits : TagBits) (tag : TagId) :
    (bits.insert tag).bytes.length = bits.bytes.length := by
  simp [insert]

end TagBits

end EvidenceTags
