import EvidenceTags.Error

/-!
# Text as UTF-8

A character is written as one to four bytes. Reading follows the table of well-formed sequences: the
first byte decides how many bytes follow and how far the second one may reach, which leaves out
overlong forms, surrogates, and numbers beyond the last character. A fault says how long the
well-formed start is and how many bytes of the next sequence could still have begun one.
-/

namespace EvidenceTags

namespace Utf8

/-- The bytes of a character. -/
def encodeChar (c : Char) : List UInt8 :=
  let n := c.toNat
  if n < 0x80 then [UInt8.ofNat n]
  else if n < 0x800 then [UInt8.ofNat (0xC0 + n / 64), UInt8.ofNat (0x80 + n % 64)]
  else if n < 0x10000 then
    [UInt8.ofNat (0xE0 + n / 4096), UInt8.ofNat (0x80 + n / 64 % 64), UInt8.ofNat (0x80 + n % 64)]
  else
    [UInt8.ofNat (0xF0 + n / 262144), UInt8.ofNat (0x80 + n / 4096 % 64),
      UInt8.ofNat (0x80 + n / 64 % 64), UInt8.ofNat (0x80 + n % 64)]

/-- The bytes of a text. -/
def encode (s : String) : List UInt8 := s.toList.flatMap encodeChar

/-- What a first byte announces: how many bytes follow, and the range of the second one. -/
inductive Lead where
  | one
  | two
  | three (lo hi : Nat)
  | four (lo hi : Nat)
  | none
deriving DecidableEq, Repr

/-- What the byte with the value `a` announces as a first byte. -/
def lead (a : Nat) : Lead :=
  if a < 0x80 then .one
  else if a < 0xC2 then .none
  else if a < 0xE0 then .two
  else if a = 0xE0 then .three 0xA0 0xBF
  else if a = 0xED then .three 0x80 0x9F
  else if a < 0xF0 then .three 0x80 0xBF
  else if a = 0xF0 then .four 0x90 0xBF
  else if a < 0xF4 then .four 0x80 0xBF
  else if a = 0xF4 then .four 0x80 0x8F
  else .none

/-- Whether a byte lies in a range. -/
def inRange (lo hi : Nat) (b : UInt8) : Bool := lo ≤ b.toNat && b.toNat ≤ hi

/-- Whether a byte continues a sequence. -/
def isContinuation (b : UInt8) : Bool := inRange 0x80 0xBF b

/-- Reads characters behind the reversed list `acc`, where `index` bytes have been read. -/
def decodeOnto (index : Nat) (acc : List Char) : List UInt8 → Except TextFault (List Char)
  | [] => .ok acc.reverse
  | a :: rest =>
    match lead a.toNat with
    | .one => decodeOnto (index + 1) (Char.ofNat a.toNat :: acc) rest
    | .two =>
      match rest with
      | [] => .error (.incomplete index)
      | b :: rest =>
        if isContinuation b then
          decodeOnto (index + 2) (Char.ofNat ((a.toNat - 0xC0) * 64 + (b.toNat - 0x80)) :: acc) rest
        else .error (.illFormed 1 index)
    | .three lo hi =>
      match rest with
      | [] => .error (.incomplete index)
      | b :: rest =>
        if inRange lo hi b then
          match rest with
          | [] => .error (.incomplete index)
          | c :: rest =>
            if isContinuation c then
              decodeOnto (index + 3) (Char.ofNat ((a.toNat - 0xE0) * 4096
                + (b.toNat - 0x80) * 64 + (c.toNat - 0x80)) :: acc) rest
            else .error (.illFormed 2 index)
        else .error (.illFormed 1 index)
    | .four lo hi =>
      match rest with
      | [] => .error (.incomplete index)
      | b :: rest =>
        if inRange lo hi b then
          match rest with
          | [] => .error (.incomplete index)
          | c :: rest =>
            if isContinuation c then
              match rest with
              | [] => .error (.incomplete index)
              | d :: rest =>
                if isContinuation d then
                  decodeOnto (index + 4) (Char.ofNat ((a.toNat - 0xF0) * 262144
                    + (b.toNat - 0x80) * 4096 + (c.toNat - 0x80) * 64 + (d.toNat - 0x80)) :: acc)
                    rest
                else .error (.illFormed 3 index)
            else .error (.illFormed 2 index)
        else .error (.illFormed 1 index)
    | .none => .error (.illFormed 1 index)

/-- The text that bytes spell. -/
def decode (bytes : List UInt8) : Except TextFault String :=
  (decodeOnto 0 [] bytes).map String.ofList

end Utf8

end EvidenceTags
