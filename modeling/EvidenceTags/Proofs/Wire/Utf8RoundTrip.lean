import EvidenceTags.Wire.Utf8

/-!
# Texts are read back from their bytes

The bytes of a character announce how many of them there are, and lie in the ranges that the table
of well-formed sequences allows; so reading them gives the character, in front of anything. A text
is read back from its bytes character by character (`decode_encode`).
-/

namespace EvidenceTags

namespace Utf8

/-- A character is no surrogate and lies below the end of the code space. -/
theorem toNat_valid (c : Char) : c.toNat < 0xD800 ∨ (0xDFFF < c.toNat ∧ c.toNat < 0x110000) :=
  c.valid

theorem toNat_byte {n : Nat} (h : n < 256) : (UInt8.ofNat n).toNat = n := by
  simp [Nat.mod_eq_of_lt h]

/-! ## What first bytes announce -/

theorem lead_one {n : Nat} (h : n < 0x80) : lead n = .one := by
  rw [lead, if_pos h]

theorem lead_two {n : Nat} (hlo : 0x80 ≤ n) (hhi : n < 0x800) : lead (0xC0 + n / 64) = .two := by
  unfold lead
  rw [if_neg (by omega), if_neg (by omega), if_pos (by omega)]

/-- The second of three bytes lies in the range that the first one allows. -/
theorem lead_three {n : Nat} (hlo : 0x800 ≤ n) (hhi : n < 0x10000)
    (hvalid : n < 0xD800 ∨ 0xDFFF < n) :
    ∃ lo hi, lead (0xE0 + n / 4096) = .three lo hi ∧
      lo ≤ 0x80 + n / 64 % 64 ∧ 0x80 + n / 64 % 64 ≤ hi := by
  unfold lead
  rw [if_neg (by omega), if_neg (by omega), if_neg (by omega)]
  by_cases hfirst : 0xE0 + n / 4096 = 0xE0
  · -- shorter forms are left out
    exact ⟨0xA0, 0xBF, if_pos hfirst, by omega, by omega⟩
  · rw [if_neg hfirst]
    by_cases hsurrogate : 0xE0 + n / 4096 = 0xED
    · -- surrogates are left out
      exact ⟨0x80, 0x9F, if_pos hsurrogate, by omega, by omega⟩
    · rw [if_neg hsurrogate]
      exact ⟨0x80, 0xBF, if_pos (by omega), by omega, by omega⟩

/-- The second of four bytes lies in the range that the first one allows. -/
theorem lead_four {n : Nat} (hlo : 0x10000 ≤ n) (hhi : n < 0x110000) :
    ∃ lo hi, lead (0xF0 + n / 262144) = .four lo hi ∧
      lo ≤ 0x80 + n / 4096 % 64 ∧ 0x80 + n / 4096 % 64 ≤ hi := by
  unfold lead
  rw [if_neg (by omega), if_neg (by omega), if_neg (by omega), if_neg (by omega),
    if_neg (by omega), if_neg (by omega)]
  by_cases hfirst : 0xF0 + n / 262144 = 0xF0
  · exact ⟨0x90, 0xBF, if_pos hfirst, by omega, by omega⟩
  · rw [if_neg hfirst]
    by_cases hmiddle : 0xF0 + n / 262144 < 0xF4
    · exact ⟨0x80, 0xBF, if_pos hmiddle, by omega, by omega⟩
    · rw [if_neg hmiddle]
      exact ⟨0x80, 0x8F, if_pos (by omega), by omega, by omega⟩

theorem inRange_of_le {lo hi n : Nat} (hlo : lo ≤ n) (hhi : n ≤ hi) (hbyte : n < 256) :
    inRange lo hi (UInt8.ofNat n) = true := by
  rw [inRange, toNat_byte hbyte]
  simp [hlo, hhi]

/-- A byte with six bits of a number. -/
theorem toNat_low (n : Nat) : (UInt8.ofNat (0x80 + n % 64)).toNat = 0x80 + n % 64 :=
  toNat_byte (by omega)

/-- A byte with six bits of a number continues a sequence. -/
theorem isContinuation_low (n : Nat) : isContinuation (UInt8.ofNat (0x80 + n % 64)) = true :=
  inRange_of_le (by omega) (by omega) (by omega)

/-! ## Sequences of one to four bytes -/

section Sequences

variable {n : Nat} (index : Nat) (acc : List Char) (rest : List UInt8)

theorem decodeOnto_one (hhi : n < 0x80) :
    decodeOnto index acc (UInt8.ofNat n :: rest)
      = decodeOnto (index + 1) (Char.ofNat n :: acc) rest := by
  have ha : (UInt8.ofNat n).toNat = n := toNat_byte (by omega)
  rw [decodeOnto.eq_def]
  simp only [ha, lead_one hhi]

theorem decodeOnto_two (hlo : 0x80 ≤ n) (hhi : n < 0x800) :
    decodeOnto index acc (UInt8.ofNat (0xC0 + n / 64) :: UInt8.ofNat (0x80 + n % 64) :: rest)
      = decodeOnto (index + 2) (Char.ofNat n :: acc) rest := by
  have ha : (UInt8.ofNat (0xC0 + n / 64)).toNat = 0xC0 + n / 64 := toNat_byte (by omega)
  have hn : (0xC0 + n / 64 - 0xC0) * 64 + (0x80 + n % 64 - 0x80) = n := by
    omega
  rw [decodeOnto.eq_def]
  simp only [ha, lead_two hlo hhi, isContinuation_low, if_true, toNat_low, hn]

theorem decodeOnto_three (hlo : 0x800 ≤ n) (hhi : n < 0x10000) (hvalid : n < 0xD800 ∨ 0xDFFF < n) :
    decodeOnto index acc (UInt8.ofNat (0xE0 + n / 4096) :: UInt8.ofNat (0x80 + n / 64 % 64)
        :: UInt8.ofNat (0x80 + n % 64) :: rest)
      = decodeOnto (index + 3) (Char.ofNat n :: acc) rest := by
  rcases lead_three hlo hhi hvalid with ⟨lo, hi, hlead, hfrom, hto⟩
  have ha : (UInt8.ofNat (0xE0 + n / 4096)).toNat = 0xE0 + n / 4096 := toNat_byte (by omega)
  have hsecond : inRange lo hi (UInt8.ofNat (0x80 + n / 64 % 64)) = true :=
    inRange_of_le hfrom hto (by omega)
  have hn : (0xE0 + n / 4096 - 0xE0) * 4096 + (0x80 + n / 64 % 64 - 0x80) * 64
      + (0x80 + n % 64 - 0x80) = n := by
    omega
  rw [decodeOnto.eq_def]
  simp only [ha, hlead, hsecond, isContinuation_low, if_true, toNat_low, hn]

theorem decodeOnto_four (hlo : 0x10000 ≤ n) (hhi : n < 0x110000) :
    decodeOnto index acc (UInt8.ofNat (0xF0 + n / 262144) :: UInt8.ofNat (0x80 + n / 4096 % 64)
        :: UInt8.ofNat (0x80 + n / 64 % 64) :: UInt8.ofNat (0x80 + n % 64) :: rest)
      = decodeOnto (index + 4) (Char.ofNat n :: acc) rest := by
  rcases lead_four hlo hhi with ⟨lo, hi, hlead, hfrom, hto⟩
  have ha : (UInt8.ofNat (0xF0 + n / 262144)).toNat = 0xF0 + n / 262144 := toNat_byte (by omega)
  have hsecond : inRange lo hi (UInt8.ofNat (0x80 + n / 4096 % 64)) = true :=
    inRange_of_le hfrom hto (by omega)
  have hn : (0xF0 + n / 262144 - 0xF0) * 262144 + (0x80 + n / 4096 % 64 - 0x80) * 4096
      + (0x80 + n / 64 % 64 - 0x80) * 64 + (0x80 + n % 64 - 0x80) = n := by
    omega
  rw [decodeOnto.eq_def]
  simp only [ha, hlead, hsecond, isContinuation_low, if_true, toNat_low, hn]

end Sequences

/-! ## One character, and a text -/

/-- The bytes of a character are read as that character. -/
theorem decodeOnto_encodeChar (c : Char) (index : Nat) (acc : List Char) (rest : List UInt8) :
    decodeOnto index acc (encodeChar c ++ rest)
      = decodeOnto (index + (encodeChar c).length) (c :: acc) rest := by
  have hvalid := toNat_valid c
  have hchar : Char.ofNat c.toNat = c := Char.ofNat_toNat c
  unfold encodeChar
  dsimp only
  by_cases h1 : c.toNat < 0x80
  · rw [if_pos h1]
    have hone := decodeOnto_one index acc rest h1
    rwa [hchar] at hone
  · rw [if_neg h1]
    by_cases h2 : c.toNat < 0x800
    · rw [if_pos h2]
      have htwo := decodeOnto_two index acc rest (Nat.not_lt.1 h1) h2
      rwa [hchar] at htwo
    · rw [if_neg h2]
      by_cases h3 : c.toNat < 0x10000
      · rw [if_pos h3]
        -- no character is a surrogate
        have hthree := decodeOnto_three index acc rest (Nat.not_lt.1 h2) h3 (by omega)
        rwa [hchar] at hthree
      · rw [if_neg h3]
        have hfour := decodeOnto_four index acc rest (Nat.not_lt.1 h3) (by omega)
        rwa [hchar] at hfour

theorem decodeOnto_flatMap (chars : List Char) (index : Nat) (acc : List Char) :
    decodeOnto index acc (chars.flatMap encodeChar) = .ok (acc.reverse ++ chars) := by
  induction chars generalizing index acc with
  | nil => rw [List.flatMap_nil, decodeOnto.eq_def, List.append_nil]
  | cons c rest ih =>
    rw [List.flatMap_cons, decodeOnto_encodeChar, ih, List.reverse_cons, List.append_assoc,
      List.singleton_append]

/-- A text is read back from its bytes. -/
theorem decode_encode (s : String) : decode (encode s) = .ok s := by
  rw [decode, encode, decodeOnto_flatMap]
  simp [Except.map]

end Utf8

end EvidenceTags
