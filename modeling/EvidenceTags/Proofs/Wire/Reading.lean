import EvidenceTags.Wire.Reader
import Mathlib.Tactic.NormNum

/-!
# Reading back what was written

`Takes read bytes value` says that `read` takes exactly `bytes` for `value`, whatever comes after
them. The rules below put readers together as they are put together in the formats: fields one after
another, numbers of a fixed width, sequences and blocks with their length in front.
-/

namespace EvidenceTags

namespace Wire

variable {α β : Type}

/-- In front of anything, `read` takes `bytes` for `value`. -/
def Takes (read : Reader α) (bytes : Bytes) (value : α) : Prop :=
  ∀ rest, read (bytes ++ rest) = .ok (value, rest)

/-! ## Putting readers together -/

theorem takes_pure (value : α) : Takes (pure value) [] value := fun _ => rfl

theorem takes_bind {read : Reader α} {next : α → Reader β} {first second : Bytes} {a : α} {b : β}
    (ha : Takes read first a) (hb : Takes (next a) second b) :
    Takes (read >>= next) (first ++ second) b := by
  intro rest
  show (read (first ++ second ++ rest) >>= fun p => next p.1 p.2) = _
  rw [List.append_assoc, ha]
  exact hb rest

/-- The value may be changed after it was taken. -/
theorem takes_bind_pure {read : Reader α} {bytes : Bytes} {a : α} (h : Takes read bytes a)
    (f : α → β) : Takes (do let a ← read; pure (f a)) bytes (f a) := by
  have hpure : Takes (do let a ← read; pure (f a)) (bytes ++ []) (f a) :=
    takes_bind h (takes_pure (f a))
  rwa [List.append_nil] at hpure

theorem takes_map {read : Reader α} {bytes : Bytes} {a : α} (h : Takes read bytes a)
    (f : α → β) : Takes (f <$> read) bytes (f a) := by
  intro rest
  show (read (bytes ++ rest) >>= fun p => pure (f p.1, p.2)) = _
  rw [h]
  rfl

/-! ## Bytes and numbers -/

theorem takes_readByte (short : DecodeFault) (byte : UInt8) :
    Takes (readByte short) [byte] byte := fun _ => rfl

theorem takes_readBytes (short : DecodeFault) (bytes : Bytes) :
    Takes (readBytes short bytes.length) bytes bytes := by
  intro rest
  simp [readBytes]

@[simp] theorem length_number (width n : Nat) : (number width n).length = width := by
  induction width generalizing n with
  | zero => rfl
  | succ width ih => rw [number, List.length_cons, ih]

theorem takes_readNumber (short : DecodeFault) (width : Nat) {n : Nat} (h : n < 256 ^ width) :
    Takes (readNumber short width) (number width n) n := by
  induction width generalizing n with
  | zero =>
    have hzero : n = 0 := by simpa using h
    rw [hzero]
    exact takes_pure 0
  | succ width ih =>
    have hhigh : n / 256 < 256 ^ width := by
      rw [Nat.div_lt_iff_lt_mul (by decide)]
      rwa [Nat.pow_succ] at h
    have hlow : (UInt8.ofNat (n % 256)).toNat = n % 256 := by
      simp
    have hvalue : (UInt8.ofNat (n % 256)).toNat + 256 * (n / 256) = n := by
      rw [hlow]
      exact Nat.mod_add_div n 256
    have hrest := takes_bind_pure (ih hhigh) fun high =>
      (UInt8.ofNat (n % 256)).toNat + 256 * high
    rw [hvalue] at hrest
    show Takes (readByte short >>= fun low => do
      let high ← readNumber short width
      pure (low.toNat + 256 * high)) ([UInt8.ofNat (n % 256)] ++ number width (n / 256)) n
    exact takes_bind (takes_readByte short _) hrest

/-! ## Sequences and blocks -/

theorem takes_readManyOnto {read : Reader β} {write : α → Bytes} {f : α → β} {l : List α}
    (h : ∀ a ∈ l, Takes read (write a) (f a)) (acc : List β) :
    Takes (readManyOnto read l.length acc) (l.flatMap write) (acc.reverse ++ l.map f) := by
  induction l generalizing acc with
  | nil =>
    intro rest
    simp [readManyOnto]
  | cons a l ih =>
    intro rest
    have ha := h a List.mem_cons_self (l.flatMap write ++ rest)
    have hl := ih (fun b hb => h b (List.mem_cons_of_mem _ hb)) (f a :: acc) rest
    rw [List.flatMap_cons, List.append_assoc, List.length_cons, readManyOnto]
    simp only [ha, hl, List.reverse_cons, List.map_cons, List.append_assoc, List.singleton_append]

theorem takes_readMany {read : Reader β} {write : α → Bytes} {f : α → β} {l : List α}
    (h : ∀ a ∈ l, Takes read (write a) (f a)) :
    Takes (readMany l.length read) (l.flatMap write) (l.map f) :=
  takes_readManyOnto h []

/-- A length has eight bytes. -/
def lengthLimit : Nat := 2 ^ 64

theorem takes_length {n : Nat} (h : n < lengthLimit) :
    Takes (readNumber .endOfInput 8) (number 8 n) n := by
  have hpow : (256 : Nat) ^ 8 = lengthLimit := by norm_num [lengthLimit]
  exact takes_readNumber _ 8 (hpow ▸ h)

theorem takes_readSequence {read : Reader β} {write : α → Bytes} {f : α → β} {l : List α}
    (hlength : l.length < lengthLimit) (h : ∀ a ∈ l, Takes read (write a) (f a)) :
    Takes (readSequence read) (sequence write l) (l.map f) :=
  takes_bind (takes_length hlength) (takes_readMany h)

theorem takes_readSequence_self {read : Reader α} {write : α → Bytes} {l : List α}
    (hlength : l.length < lengthLimit) (h : ∀ a ∈ l, Takes read (write a) a) :
    Takes (readSequence read) (sequence write l) l := by
  have hread := takes_readSequence (f := id) hlength h
  rwa [List.map_id] at hread

theorem takes_readBlock {bytes : Bytes} (h : bytes.length < lengthLimit) :
    Takes readBlock (block bytes) bytes := by
  have hread : Takes readBlock (sequence (fun b => [b]) bytes) bytes :=
    takes_readSequence_self h fun b _ => takes_readByte .endOfInput b
  rw [sequence, List.flatMap_singleton'] at hread
  exact hread

end Wire

end EvidenceTags
