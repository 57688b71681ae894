import EvidenceTags.Toml.Quoted

/-!
# Numbers and dates

Numbers and dates are only told apart from what is not a number or a date; no setting takes one.
Whole numbers have 64 bits with a sign. A number with a fraction or an exponent has to be less than
what would be rounded to infinity.
-/

namespace EvidenceTags

namespace Toml

open Grammar

/-- A decimal digit. -/
def isDigit (c : Char) : Bool := '0' ≤ c && c ≤ '9'

/-- The number that digits spell in a base, where `value?` knows the digits. -/
def natOf (base : Nat) (value? : Char → Option Nat) (digits : List Char) : Nat :=
  digits.foldl (fun n c => base * n + (value? c).getD 0) 0

/-- The number that decimal digits spell. -/
def decimal (digits : List Char) : Nat := natOf 10 hexValue? digits

/-- One digit or more, with single underscores allowed between them. -/
def digits (isOne : Char → Bool) : Grammar (List Char) := do
  let first ← oneOf isOne
  let others ← repeated (oneOf isOne <|> (do char '_'; oneOf isOne))
  pure (first :: others)

/-- Decimal digits that do not begin with a superfluous zero. -/
def plainDigits : Grammar (List Char) := do
  if (← peek) == some '0' then
    char '0'
    pure ['0']
  else digits isDigit

/-- A sign; the answer tells whether it is a minus. -/
def sign : Grammar Bool :=
  (do char '-'; pure true) <|> (do char '+'; pure false) <|> pure false

/-- A whole number in a base other than ten. -/
def basedInteger (mark : String) (base : Nat) : Grammar Unit := do
  word mark
  let spelled ← digits fun c => (hexValue? c).any (· < base)
  require (natOf base hexValue? spelled < 9223372036854775808)

/-- A whole number. -/
def integer : Grammar Unit :=
  basedInteger "0x" 16 <|> basedInteger "0o" 8 <|> basedInteger "0b" 2 <|> do
    let negative ← sign
    let spelled ← plainDigits
    require (decimal spelled < 9223372036854775808 + if negative then 1 else 0)

/-- Whether the number that digits spell, times `10 ^ exponent`, is at least `2 ^ 1024 - 2 ^ 970`,
from where on rounding to 53 binary digits leads to infinity. The powers are only computed if the
number of digits leaves the question open. -/
def isHuge (spelled : List Char) (exponent : Int) : Bool :=
  let significant := spelled.dropWhile (· = '0')
  let magnitude : Int := significant.length + exponent
  if significant.isEmpty ∨ magnitude < 309 then false
  else if magnitude > 310 then true
  else
    let bound := Nat.pow 2 1024 - Nat.pow 2 970
    if 0 ≤ exponent then bound ≤ decimal significant * Nat.pow 10 exponent.toNat
    else bound * Nat.pow 10 (-exponent).toNat ≤ decimal significant

/-- The number that the digits of an exponent spell. Once they have come to `2 ^ 16` or more,
further digits do not count. -/
def exponentSize (digits : List Char) : Nat :=
  digits.foldl (fun n c => if n < 65536 then 10 * n + (hexValue? c).getD 0 else n) 0

/-- The exponent of a number. -/
def exponent : Grammar Int := do
  let _ ← oneOf fun c => c == 'e' || c == 'E'
  let negative ← sign
  let size := exponentSize (← digits isDigit)
  pure (if negative then -(size : Int) else size)

/-- The fraction of a number. -/
def fraction : Grammar (List Char) := do
  char '.'
  digits isDigit

/-- A number with a fraction, an exponent or both, or one of the words for infinity and no
number. -/
def float : Grammar Unit := do
  let negative ← sign
  word "inf" <|> word "nan" <|> do
    let whole ← plainDigits
    let (places, power) ← (do
      let power ← exponent
      pure ([], power)) <|> (do
      let places ← fraction
      let power ← optional exponent
      pure (places, power.getD 0))
    require (negative || !isHuge (whole ++ places) (power - places.length))

/-- A number of exactly `n` decimal digits. -/
def fixedDigits (n : Nat) : Grammar Nat := fun text =>
  let taken := text.take n
  if taken.length = n ∧ taken.all isDigit then some (decimal taken, text.drop n) else none

/-- Number of days of a month. -/
def daysOfMonth (year month : Nat) : Nat :=
  if month = 2 then
    if year % 4 = 0 ∧ (year % 100 ≠ 0 ∨ year % 400 = 0) then 29 else 28
  else if month = 4 ∨ month = 6 ∨ month = 9 ∨ month = 11 then 30
  else 31

/-- A calendar date. -/
def date : Grammar Unit := do
  let year ← fixedDigits 4
  char '-'
  let month ← fixedDigits 2
  require (1 ≤ month && month ≤ 12)
  char '-'
  let day ← fixedDigits 2
  require (1 ≤ day && day ≤ daysOfMonth year month)

/-- Hours and minutes. -/
def hourAndMinute : Grammar Unit := do
  let hour ← fixedDigits 2
  require (hour ≤ 23)
  char ':'
  let minute ← fixedDigits 2
  require (minute ≤ 59)

/-- A time of day. The sixtieth second is allowed. -/
def time : Grammar Unit := do
  hourAndMinute
  char ':'
  let second ← fixedDigits 2
  require (second ≤ 60)
  let _ ← optional do
    char '.'
    let _ ← oneOf isDigit
    takeWhile isDigit

/-- The distance of a time from the universal one. -/
def offset : Grammar Unit :=
  (do let _ ← oneOf fun c => c == 'Z' || c == 'z') <|> do
    let _ ← oneOf fun c => c == '+' || c == '-'
    hourAndMinute

/-- A date, a time, or both. -/
def dateTime : Grammar Unit :=
  (do
    date
    let _ ← optional do
      let _ ← oneOf fun c => c == 'T' || c == 't' || c == ' '
      time
      optional offset) <|> time

/-- Anything that begins with a digit or a sign. -/
def numberOrDate : Grammar Unit := dateTime <|> float <|> integer

end Toml

end EvidenceTags
