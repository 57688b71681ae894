import EvidenceTags.Proofs.Wire.WrittenFile

/-!
# What was read can be written

Whatever is read from a file has lengths that fit into a file: a list is as long as the number in
front of it says, and a text takes no more bytes than it was read from. So for a snapshot that was
read, of either version, nothing has to be known about lengths
(`StoredSnapshot.lengthsFit_of_decode`).
-/

namespace EvidenceTags

namespace Utf8

/-! ## Texts take no more bytes than they were read from -/

theorem toNat_ofNat_le (n : Nat) : (Char.ofNat n).toNat ≤ n := by
  by_cases h : n.isValidChar
  · rw [Char.ofNat, dif_pos h]
    exact Nat.le_refl n
  · rw [Char.ofNat, dif_neg h]
    exact Nat.zero_le n

/-- Lower characters take fewer bytes. -/
theorem length_encodeChar_le {c : Char} :
    (encodeChar c).length ≤ 4
      ∧ (c.toNat < 0x10000 → (encodeChar c).length ≤ 3)
      ∧ (c.toNat < 0x800 → (encodeChar c).length ≤ 2)
      ∧ (c.toNat < 0x80 → (encodeChar c).length ≤ 1) := by
  unfold encodeChar
  simp only
  split
  · simp
  · split
    · simp
      omega
    · split
      · simp
        omega
      · simp
        omega

/-- The character that the bytes behind `acc` begin with is written in as many bytes at most. -/
theorem length_flatMap_cons {c : Char} {acc : List Char} {taken total : Nat}
    (hc : (encodeChar c).length ≤ taken) {chars : List Char}
    (h : (chars.flatMap encodeChar).length ≤ ((c :: acc).flatMap encodeChar).length + total) :
    (chars.flatMap encodeChar).length ≤ (acc.flatMap encodeChar).length + (total + taken) := by
  rw [List.flatMap_cons, List.length_append] at h
  omega

theorem lt_of_lead_one {a : Nat} (h : lead a = .one) : a < 0x80 := by
  unfold lead at h
  by_contra hlarge
  rw [if_neg hlarge] at h
  split_ifs at h

theorem lt_of_lead_two {a : Nat} (h : lead a = .two) : a < 0xE0 := by
  unfold lead at h
  by_contra hlarge
  rw [if_neg (by omega), if_neg (by omega), if_neg hlarge] at h
  split_ifs at h

theorem lt_of_lead_three {a lo hi : Nat} (h : lead a = .three lo hi) : a < 0xF0 ∧ hi ≤ 0xBF := by
  unfold lead at h
  split_ifs at h
  all_goals
    cases h
    omega

theorem of_inRange {lo hi : Nat} {b : UInt8} (h : inRange lo hi b = true) :
    lo ≤ b.toNat ∧ b.toNat ≤ hi := by
  rw [inRange, Bool.and_eq_true, decide_eq_true_iff, decide_eq_true_iff] at h
  exact h

/-- What is read behind `acc` is written in as many bytes as were left, at most. -/
theorem length_le_of_decodeOnto {index : Nat} {acc chars : List Char} {bytes : List UInt8}
    (h : decodeOnto index acc bytes = .ok chars) :
    (chars.flatMap encodeChar).length ≤ (acc.flatMap encodeChar).length + bytes.length := by
  fun_induction decodeOnto index acc bytes
  -- most cases are faults
  all_goals first | cases h | skip
  case case1 =>
    rw [List.length_flatMap, List.length_flatMap, List.map_reverse, List.sum_reverse]
    omega
  case case2 a rest hlead ih =>
    have hvalue := toNat_ofNat_le a.toNat
    have hfirst := lt_of_lead_one hlead
    exact length_flatMap_cons (length_encodeChar_le.2.2.2 (by omega)) (ih h)
  case case4 a hlead b rest hb ih =>
    have hvalue := toNat_ofNat_le ((a.toNat - 0xC0) * 64 + (b.toNat - 0x80))
    have hfirst := lt_of_lead_two hlead
    have hsecond := of_inRange hb
    exact length_flatMap_cons (length_encodeChar_le.2.2.1 (by omega)) (ih h)
  case case8 a lo hi hlead b hb c rest hc ih =>
    have hvalue := toNat_ofNat_le
      ((a.toNat - 0xE0) * 4096 + (b.toNat - 0x80) * 64 + (c.toNat - 0x80))
    have hfirst := lt_of_lead_three hlead
    have hsecond := of_inRange hb
    have hthird := of_inRange hc
    exact length_flatMap_cons (length_encodeChar_le.2.1 (by omega)) (ih h)
  case case14 ih =>
    -- no character takes more than four bytes
    exact length_flatMap_cons length_encodeChar_le.1 (ih h)

theorem length_le_of_decode {s : String} {bytes : List UInt8} (h : decode bytes = .ok s) :
    (encode s).length ≤ bytes.length := by
  rw [decode] at h
  cases hchars : decodeOnto 0 [] bytes with
  | error fault =>
    rw [hchars] at h
    cases h
  | ok chars =>
    rw [hchars] at h
    cases h
    have hle := length_le_of_decodeOnto hchars
    rw [List.flatMap_nil, List.length_nil, Nat.zero_add] at hle
    rw [encode, String.toList_ofList]
    exact hle

end Utf8

namespace Wire

variable {α : Type}

/-! ## What readers yield -/

theorem yields_readSequence {read : Reader α} {P : α → Prop} (h : Yields read P) :
    Yields (readSequence read) fun l => l.length < lengthLimit ∧ ∀ a ∈ l, P a := by
  refine (yields_readNumber .endOfInput 8).bind fun n hn => ?_
  intro input l rest hread
  rcases yields_readMany h n input l rest hread with ⟨hlength, hall⟩
  rw [hlength]
  exact ⟨hn, hall⟩

/-- A map that was read has values with the property that all values have that are read. -/
theorem yields_readTagMap {read : Reader α} {P : α → Prop} (h : Yields read P) :
    Yields (readTagMap read) fun m => ∀ e ∈ m.entries, P e.2 := by
  have hentry : Yields (do
      let key ← readTag
      let value ← read
      pure (key, value)) fun e => P e.2 := by
    have hkey : Yields readTag fun _ => True := fun _ _ _ _ => trivial
    exact hkey.bind fun key _ => h.bind fun value hvalue => yields_pure hvalue
  refine (yields_readSequence hentry).bind fun entries hentries => yields_pure ?_
  intro e he
  exact hentries.2 e (TagMap.mem_of_mem_ofList he)

theorem yields_readText : Yields readText TextFits := by
  refine (yields_readNumber .endOfInput 8).bind fun n hn => ?_
  refine (yields_readBytes .textTooLong n).bind fun bytes hbytes => ?_
  cases hdecode : Utf8.decode bytes with
  | error fault => exact yields_fail
  | ok s =>
    have hle := Utf8.length_le_of_decode hdecode
    rw [hbytes] at hle
    exact yields_pure (Nat.lt_of_le_of_lt hle hn)

theorem yields_readBlock : Yields readBlock fun bytes => bytes.length < lengthLimit := by
  intro input bytes rest hread
  exact (yields_readSequence (yields_readByte .endOfInput) input bytes rest hread).1

theorem yields_readRegistry : Yields readRegistry RegistryFits := by
  have hkey : Yields (KeyBinding.mk <$> readBlock) fun key => key.bytes.length < lengthLimit := by
    rw [map_eq_pure_bind]
    exact yields_readBlock.bind fun bytes hbytes => yields_pure hbytes
  have hcolor : Yields ((fun n => Color.mk (UInt32.ofNat n)) <$> readNumber .endOfInput 4)
      fun _ => True := fun _ _ _ _ => trivial
  have hmark : Yields (pure () : Reader Unit) fun _ => True := fun _ _ _ _ => trivial
  refine (yields_readTagMap yields_readText).bind fun names hnames => ?_
  refine (yields_readTagMap yields_readText).bind fun comments hcomments => ?_
  refine (yields_readTagMap hkey).bind fun keyBindings hkeys => ?_
  refine (yields_readTagMap hcolor).bind fun colors _ => ?_
  refine (yields_readTagMap hmark).bind fun inReport _ => yields_pure ?_
  exact ⟨hnames, hcomments, hkeys⟩

/-- However the members are read, all else in a state that was read can be written. -/
theorem yields_readSavedState {μ : Type} (readMembers : Reader μ) :
    Yields (readSavedState readMembers) (StateFits fun _ => True) := by
  have hflag : Yields readFlag fun _ => True := fun _ _ _ _ => trivial
  have hmembers : Yields readMembers fun _ => True := fun _ _ _ _ => trivial
  refine (yields_readSequence hflag).bind fun checked hchecked => ?_
  refine hmembers.bind fun members _ => ?_
  refine yields_readRegistry.bind fun registry hregistry => ?_
  refine (yields_readSequence yields_readText).bind fun words hwords => ?_
  refine (yields_readNumber .endOfInput 8).bind fun count _ => yields_pure ?_
  constructor
  case checked =>
    show (Flags.ofList checked).size < lengthLimit
    rw [← Flags.length_toList, Flags.toList_ofList]
    exact hchecked.1
  case members => trivial
  case registry => exact hregistry
  case typedWords => exact hwords.1
  case typedWord => exact hwords.2

end Wire

namespace StoredSnapshot

open Wire

theorem stateFits_of_decodeBody {μ : Type} {readMembers : Reader μ} {bytes : Bytes}
    {s : SavedState μ} (h : decodeBody (readSavedState readMembers) bytes = .ok s) :
    StateFits (fun _ => True) s := by
  unfold decodeBody at h
  split at h
  · rename_i value rest hread
    cases h
    exact yields_readSavedState readMembers bytes s rest hread
  · cases h

/-- A snapshot that was read from a file, of either version, can be written to one. -/
theorem lengthsFit_of_decode {bytes : Bytes} {stored : StoredSnapshot}
    (h : decode bytes = .ok stored) (last : ItemId) : (stored.toCurrent last).LengthsFit := by
  unfold decode at h
  split at h
  · split at h
    · split at h
      · rcases exists_of_bind_eq_ok ((map_eq_pure_bind _ _).symm.trans h) with ⟨s, hbody, hstored⟩
        cases hstored
        -- migration changes nothing but the members
        have hfits := stateFits_of_decodeBody hbody
        exact ⟨hfits.checked, trivial, hfits.registry, hfits.typedWords, hfits.typedWord⟩
      · rcases exists_of_bind_eq_ok ((map_eq_pure_bind _ _).symm.trans h) with ⟨s, hbody, hstored⟩
        cases hstored
        exact stateFits_of_decodeBody hbody
      · cases h
    · cases h
  · cases h

end StoredSnapshot

end EvidenceTags
