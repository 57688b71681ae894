import EvidenceTags.Proofs.Wire.Packing
import EvidenceTags.Wire.SnapshotFile

/-!
# A file cut short is not read

A reader that takes a value takes the same bytes for it whatever comes after them, and finds a fault
if they are cut short anywhere. This is `Exact`, and it says nothing of how the bytes came about: a
map may name a tag twice or in any order, a set may have runs, and so on.

Readers are exact because those of single bytes are, and because of the way they are put together.
What is only looked at once everything has been taken (the text in a block, the sets behind a map)
may turn a value down, but cannot make a reader content with less. So a snapshot file has one length
that decides what it is read as (`StoredSnapshot.decode_exact`).
-/

namespace EvidenceTags

namespace Wire

variable {α β : Type}

/-- `read` takes `used` for `value`, and finds a fault wherever `used` is cut short. -/
structure TakesExactly (read : Reader α) (used : Bytes) (value : α) : Prop where
  takes : Takes read used value
  short : ∀ k < used.length, ∃ fault, read (used.take k) = .error fault

/-- Whatever `read` makes of an input, it makes of the bytes that it takes, and of no fewer. -/
def Exact (read : Reader α) : Prop :=
  ∀ input value rest, read input = .ok (value, rest) →
    ∃ used, input = used ++ rest ∧ TakesExactly read used value

/-! ## Putting readers together -/

theorem exact_pure (value : α) : Exact (pure value) := by
  intro input taken rest h
  cases h
  exact ⟨[], rfl, takes_pure value, nofun⟩

theorem exact_fail {fault : DecodeFault} : Exact (fail fault : Reader α) := by
  intro input value rest h
  cases h

/-- The input may end in the part of the first reader or in that of the second. -/
theorem TakesExactly.bind {read : Reader α} {next : α → Reader β} {first second : Bytes} {a : α}
    {b : β} (ha : TakesExactly read first a) (hb : TakesExactly (next a) second b) :
    TakesExactly (read >>= next) (first ++ second) b := by
  refine ⟨takes_bind ha.takes hb.takes, ?_⟩
  intro k hk
  show ∃ fault, (read ((first ++ second).take k) >>= fun p => next p.1 p.2) = .error fault
  rcases Nat.lt_or_ge k first.length with hlt | hge
  · rcases ha.short k hlt with ⟨fault, hfault⟩
    refine ⟨fault, ?_⟩
    rw [List.take_append_of_le_length (Nat.le_of_lt hlt), hfault]
    rfl
  · rw [List.length_append] at hk
    rcases hb.short (k - first.length) (by omega) with ⟨fault, hfault⟩
    refine ⟨fault, ?_⟩
    rw [List.take_append, List.take_of_length_le hge, ha.takes]
    exact hfault

theorem Exact.bind {read : Reader α} {next : α → Reader β} (h : Exact read)
    (hnext : ∀ a, Exact (next a)) : Exact (read >>= next) := by
  intro input b rest hread
  rcases exists_of_read_bind hread with ⟨a, mid, ha, hb⟩
  rcases h input a mid ha with ⟨first, rfl, hfirst⟩
  rcases hnext a mid b rest hb with ⟨second, rfl, hsecond⟩
  exact ⟨first ++ second, (List.append_assoc _ _ _).symm, hfirst.bind hsecond⟩

theorem Exact.map {read : Reader α} (h : Exact read) (f : α → β) : Exact (f <$> read) := by
  rw [map_eq_pure_bind]
  exact h.bind fun a => exact_pure (f a)

/-! ## Bytes and numbers -/

theorem exact_readByte (short : DecodeFault) : Exact (readByte short) := by
  intro input byte rest h
  cases input with
  | nil => cases h
  | cons first others =>
    cases h
    refine ⟨[byte], rfl, takes_readByte short byte, ?_⟩
    intro k hk
    have hzero : k = 0 := Nat.lt_one_iff.1 hk
    rw [hzero]
    exact ⟨short, rfl⟩

theorem exact_readNumber (short : DecodeFault) (width : Nat) : Exact (readNumber short width) := by
  induction width with
  | zero => exact exact_pure 0
  | succ width ih =>
    exact (exact_readByte short).bind fun low => ih.bind fun high => exact_pure _

/-- Bytes that are taken at once are there in full number or not at all. -/
theorem exact_readBytes (short : DecodeFault) (n : Nat) : Exact (readBytes short n) := by
  intro input bytes rest h
  have hlength := yields_readBytes short n input bytes rest h
  have hinput : input = bytes ++ rest := by
    unfold readBytes at h
    by_cases hshort : (input.take n).length < n
    · rw [if_pos hshort] at h
      cases h
    · rw [if_neg hshort] at h
      cases h
      exact (List.take_append_drop n input).symm
  refine ⟨bytes, hinput, ?_, ?_⟩
  · rw [← hlength]
    exact takes_readBytes short bytes
  · intro k hk
    refine ⟨short, if_pos ?_⟩
    rw [List.length_take, List.length_take]
    omega

/-! ## Sequences and blocks -/

theorem exact_readManyOnto {read : Reader α} (h : Exact read) (n : Nat) (acc : List α) :
    Exact (readManyOnto read n acc) := by
  induction n generalizing acc with
  | zero => exact exact_pure acc.reverse
  | succ n ih =>
    have hbind : readManyOnto read (n + 1) acc
        = (do let value ← read; readManyOnto read n (value :: acc)) := by
      funext input
      show readManyOnto read (n + 1) acc input
        = (read input >>= fun p => readManyOnto read n (p.1 :: acc) p.2)
      rw [readManyOnto]
      beta_reduce
      cases read input <;> rfl
    rw [hbind]
    exact h.bind fun value => ih (value :: acc)

theorem exact_readMany {read : Reader α} (h : Exact read) (n : Nat) : Exact (readMany n read) :=
  exact_readManyOnto h n []

theorem exact_readSequence {read : Reader α} (h : Exact read) : Exact (readSequence read) :=
  (exact_readNumber _ 8).bind fun n => exact_readMany h n

theorem exact_readBlock : Exact readBlock := exact_readSequence (exact_readByte _)

/-! ## The fields of a snapshot -/

theorem exact_readFlag : Exact readFlag := by
  refine (exact_readByte _).bind ?_
  intro byte
  split
  · exact exact_pure false
  · split
    · exact exact_pure true
    · exact exact_fail

/-- A text is taken before it is known to be one. -/
theorem exact_readText : Exact readText := by
  refine (exact_readNumber _ 8).bind fun n => (exact_readBytes _ n).bind ?_
  intro bytes
  split
  · exact exact_pure _
  · exact exact_fail

theorem exact_readTag : Exact readTag :=
  (exact_readNumber _ 4).bind fun _ => exact_pure _

theorem exact_readTagMap {read : Reader α} (h : Exact read) : Exact (readTagMap read) := by
  have hentry : Exact (do let key ← readTag; let value ← read; pure (key, value)) :=
    exact_readTag.bind fun key => h.bind fun value => exact_pure (key, value)
  exact (exact_readSequence hentry).bind fun entries => exact_pure _

theorem exact_readRegistry : Exact readRegistry := by
  refine (exact_readTagMap exact_readText).bind fun names => ?_
  refine (exact_readTagMap exact_readText).bind fun comments => ?_
  refine (exact_readTagMap (exact_readBlock.map _)).bind fun keyBindings => ?_
  refine (exact_readTagMap ((exact_readNumber _ 4).map _)).bind fun colors => ?_
  refine (exact_readTagMap (exact_pure ())).bind fun inReport => ?_
  exact exact_pure _

/-- The blocks of all sets are taken before the first set is looked at, so what is in them decides
only whether they are turned down. -/
theorem exact_readMemberSets : Exact readMemberSets := by
  refine (exact_readTagMap exact_readBlock).bind ?_
  intro blocks
  split
  · exact exact_pure _
  · exact exact_fail

theorem exact_readMemberBits : Exact readMemberBits := exact_readSequence (exact_readBlock.map _)

theorem exact_readSavedState {readMembers : Reader α} (h : Exact readMembers) :
    Exact (readSavedState readMembers) := by
  refine (exact_readSequence exact_readFlag).bind fun checked => ?_
  refine h.bind fun members => exact_readRegistry.bind fun registry => ?_
  refine (exact_readSequence exact_readText).bind fun typedWords => ?_
  exact (exact_readNumber _ 8).bind fun checkedCount => exact_pure _

end Wire

namespace StoredSnapshot

open Wire

variable {α β : Type}

/-- The first `n` bytes of an input decide what is decoded, and fewer are not enough. -/
structure DecidedBy (decode : Bytes → Except StoreError α) (bytes : Bytes) (n : Nat) (value : α) :
    Prop where
  length : n ≤ bytes.length
  same : ∀ other, bytes.take n <+: other → decode other = .ok value
  short : ∀ k < n, ∃ fault, decode (bytes.take k) = .error (.decode fault)

/-- The bytes that the reader takes decide, and what comes after them is ignored. -/
theorem decidedBy_of_decodeBody {read : Reader α} (hexact : Exact read) (wrap : α → β)
    {bytes : Bytes} {value : β} (h : wrap <$> decodeBody read bytes = .ok value) :
    ∃ n, DecidedBy (fun bytes => wrap <$> decodeBody read bytes) bytes n value := by
  cases hread : read bytes with
  | error fault =>
    rw [decodeBody, hread] at h
    cases h
  | ok taken =>
    rcases taken with ⟨inner, rest⟩
    rw [decodeBody, hread] at h
    cases h
    rcases hexact bytes inner rest hread with ⟨used, rfl, htakes, hshort⟩
    refine ⟨used.length, ?_, ?_, ?_⟩
    · rw [List.length_append]
      exact Nat.le_add_right _ _
    · intro other hother
      rw [List.take_left] at hother
      rcases hother with ⟨more, rfl⟩
      show wrap <$> decodeBody read (used ++ more) = .ok (wrap inner)
      rw [decodeBody, htakes more]
      rfl
    · intro k hk
      rcases hshort k hk with ⟨fault, hfault⟩
      refine ⟨fault, ?_⟩
      show wrap <$> decodeBody read ((used ++ rest).take k) = .error (.decode fault)
      rw [List.take_append_of_le_length (Nat.le_of_lt hk), decodeBody, hfault]
      rfl

/-- How the rest of a file is read that has the given version. -/
def decodeVersion (version : Nat) (body : Bytes) : Except StoreError StoredSnapshot :=
  match version with
  | 1 => .legacy <$> decodeBody (readSavedState readMemberBits) body
  | 2 => .current <$> decodeBody (readSavedState readMemberSets) body
  | version => .error (.unsupportedVersion (UInt16.ofNat version))

theorem decode_header (low high : UInt8) (body : Bytes) :
    decode (snapshotMagic ++ low :: high :: body)
      = decodeVersion (low.toNat + 256 * high.toNat) body :=
  if_pos rfl

/-- What is read at all has letters and a version number in front. -/
theorem header_of_decode {bytes : Bytes} {stored : StoredSnapshot} (h : decode bytes = .ok stored) :
    ∃ low high body, bytes = snapshotMagic ++ low :: high :: body := by
  unfold decode at h
  split at h
  · rename_i hmagic
    split at h
    · rename_i low high body hdrop
      refine ⟨low, high, body, ?_⟩
      rw [← hdrop, ← hmagic]
      exact (List.take_append_drop 4 bytes).symm
    · cases h
  · cases h

theorem decidedBy_of_decodeVersion {version : Nat} {body : Bytes} {stored : StoredSnapshot}
    (h : decodeVersion version body = .ok stored) :
    ∃ n, DecidedBy (decodeVersion version) body n stored := by
  match version, h with
  | 1, h => exact decidedBy_of_decodeBody (exact_readSavedState exact_readMemberBits) legacy h
  | 2, h => exact decidedBy_of_decodeBody (exact_readSavedState exact_readMemberSets) current h

/-- Too short for a header. -/
theorem decode_short {bytes : Bytes} (h : bytes.length < 6) : decode bytes = .error .badMagic := by
  unfold decode
  split
  · split
    · rename_i low high body hdrop
      have hlength := congrArg List.length hdrop
      simp only [List.length_drop, List.length_cons] at hlength
      omega
    · rfl
  · rfl

/-- Whatever file is read, canonical or not, one length decides what it is read as: all that begins
with so many of its bytes is read as the same, and what is shorter is not read. -/
theorem decode_exact {bytes : Bytes} {stored : StoredSnapshot} (h : decode bytes = .ok stored) :
    ∃ n ≤ bytes.length, (∀ other, bytes.take n <+: other → decode other = .ok stored)
      ∧ (∀ k, 6 ≤ k → k < n → ∃ fault, decode (bytes.take k) = .error (.decode fault))
      ∧ ∀ k < 6, decode (bytes.take k) = .error .badMagic := by
  rcases header_of_decode h with ⟨low, high, body, rfl⟩
  rw [decode_header] at h
  rcases decidedBy_of_decodeVersion h with ⟨n, hlength, hsame, hshort⟩
  have htake (k : Nat) : (snapshotMagic ++ low :: high :: body).take (k + 6)
      = snapshotMagic ++ low :: high :: body.take k := rfl
  refine ⟨n + 6, Nat.add_le_add_right hlength 6, ?_, ?_, ?_⟩
  · intro other hother
    rw [htake] at hother
    rcases hother with ⟨more, rfl⟩
    rw [List.append_assoc, List.cons_append, List.cons_append, decode_header]
    exact hsame _ (List.prefix_append _ _)
  · intro k hheader hk
    rcases hshort (k - 6) (by omega) with ⟨fault, hfault⟩
    refine ⟨fault, ?_⟩
    rw [← Nat.sub_add_cancel hheader, htake, decode_header]
    exact hfault
  · intro k hk
    apply decode_short
    rw [List.length_take]
    omega

/-- The names come in no order and one tag is named twice, both sets are runs, and a byte
follows. -/
theorem decode_exact_sample :
    let names := sequence (fun e => tag e.1 ++ text e.2) [(⟨3⟩, "b"), (⟨1⟩, "a"), (⟨3⟩, "c")]
    let layout := number 4 SetLayout.runMark ++ [1] ++ number 2 0 ++ number 2 2
      ++ number 2 1 ++ number 2 5 ++ number 2 2
    let sets := sequence (fun t => tag t ++ block layout) [⟨3⟩, ⟨1⟩]
    let file := snapshotMagic ++ number 2 2 ++ sequence flag [true] ++ sets ++ names
      ++ (List.replicate 5 (number 8 0)).flatten ++ number 8 1
    let set := PackedSet.ofItems (ItemSet.ofList [5, 6, 7])
    let stored : StoredSnapshot := .current
      { checked := .ofList [true]
        members := TagMap.ofList [(⟨1⟩, set), (⟨3⟩, set)]
        registry := { Registry.empty with names := TagMap.ofList [(⟨1⟩, "a"), (⟨3⟩, "c")] }
        typedWords := []
        checkedCount := 1 }
    decode (file ++ [7]) = .ok stored
      ∧ ∃ n ≤ (file ++ [7]).length,
        (∀ other, (file ++ [7]).take n <+: other → decode other = .ok stored)
          ∧ (∀ k, 6 ≤ k → k < n → ∃ fault, decode ((file ++ [7]).take k) = .error (.decode fault))
          ∧ ∀ k < 6, decode ((file ++ [7]).take k) = .error .badMagic := by
  intro names layout sets file set stored
  have hdecode : decode (file ++ [7]) = .ok stored := by decide +kernel
  exact ⟨hdecode, decode_exact hdecode⟩

end StoredSnapshot

end EvidenceTags
