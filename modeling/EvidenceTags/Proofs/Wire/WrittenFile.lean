import EvidenceTags.Proofs.Wire.Packing
import EvidenceTags.Proofs.Wire.SnapshotRoundTrip

/-!
# What the file of a snapshot is read as

A snapshot can be written however its sets are packed. Its file is read as the same snapshot exactly
if all of its sets are packed by size (`Snapshot.decode_encode_iff`). If some set is not, reading
fails or gives another set in its place (`Snapshot.setsFit_of_decode`).
-/

namespace EvidenceTags

namespace TagMap

variable {α : Type}

theorem mem_of_lookup {tag : TagId} {value : α} {l : List (TagId × α)}
    (h : lookup tag l = some value) : (tag, value) ∈ l := by
  induction l with
  | nil => cases h
  | cons e rest ih =>
    unfold lookup at h
    split at h
    · rename_i htag
      cases h
      subst htag
      exact List.mem_cons_self
    · exact List.mem_cons_of_mem e (ih h)

/-- A map that is made of a list has no entries beyond those of the list. -/
theorem mem_of_mem_ofList {l : List (TagId × α)} {e : TagId × α} (h : e ∈ (ofList l).entries) :
    e ∈ l := by
  have hget := mem_entries.1 h
  rw [get?_ofList] at hget
  exact List.mem_reverse.1 (mem_of_lookup hget)

end TagMap

namespace Wire

/-- What a reader finds is handed to the next one, with the rest. -/
theorem bind_of_ok {α β : Type} {read : Reader α} {input rest : Bytes} {a : α}
    (h : read input = .ok (a, rest))
    (next : α → Reader β) : (read >>= next) input = next a rest := by
  show (read input >>= fun p => next p.1 p.2) = _
  rw [h]
  rfl

theorem bind_of_takes {α β : Type} {read : Reader α} {bytes : Bytes} {a : α}
    (h : Takes read bytes a) (next : α → Reader β) (rest : Bytes) :
    (read >>= next) (bytes ++ rest) = next a rest :=
  bind_of_ok (h rest) next

/-- A reader that stops stops all that comes after it. -/
theorem bind_of_error {α β : Type} {read : Reader α} {input : Bytes} {fault : DecodeFault}
    (h : read input = .error fault) (next : α → Reader β) :
    (read >>= next) input = .error fault := by
  show (read input >>= fun p => next p.1 p.2) = _
  rw [h]
  rfl

/-- The layouts of the sets of a map, in the order of their tags. -/
def layouts (sets : TagMap PackedSet) : List (TagId × Bytes) :=
  sets.entries.map fun e => (e.1, SetLayout.encode e.2)

/-- All blocks of a map are taken before the first of them is taken apart. -/
theorem readMemberSets_of_takes {bytes : Bytes} {blocks : TagMap Bytes}
    (h : Takes (readTagMap readBlock) bytes blocks) (rest : Bytes) :
    readMemberSets (bytes ++ rest) = match decodeSets blocks.entries with
      | .ok l => .ok (TagMap.ofList l, rest)
      | .error fault => .error fault := by
  unfold readMemberSets
  rw [bind_of_takes h]
  cases decodeSets blocks.entries <;> rfl

theorem readMemberSets_apply (sets : TagMap PackedSet) (rest : Bytes) :
    readMemberSets (memberSets sets ++ rest) = match decodeSets (layouts sets) with
      | .ok l => .ok (TagMap.ofList l, rest)
      | .error fault => .error fault := by
  have hblocks : Takes (readTagMap readBlock) (memberSets sets)
      (sets.mapWithKey fun _ => SetLayout.encode) :=
    takes_readTagMap fun e _ => takes_readBlock (SetLayout.length_encode_lt e.2)
  exact readMemberSets_of_takes hblocks rest

/-- Sets that are read from layouts without runs are packed by size. -/
theorem bySize_of_decodeSets {entries : List (TagId × PackedSet)} {l : List (TagId × PackedSet)}
    (h : decodeSets (entries.map fun e => (e.1, SetLayout.encode e.2)) = .ok l) :
    ∀ e ∈ l, e.2.BySize := by
  induction entries generalizing l with
  | nil =>
    cases h
    intro e he
    exact absurd he List.not_mem_nil
  | cons d entries ih =>
    obtain ⟨set, hset, hrest⟩ := exists_of_bind_eq_ok h
    obtain ⟨others, hothers, hl⟩ := exists_of_bind_eq_ok hrest
    cases hl
    intro e he
    rcases List.mem_cons.1 he with rfl | he
    · exact SetLayout.bySize_of_decode_encode hset
    · exact ih hothers e he

/-- If the sets cannot be taken apart, the state is not read. -/
theorem readSavedState_error {s : Snapshot} (h : StateFits (fun _ => True) s) {fault : DecodeFault}
    (hsets : decodeSets (layouts s.members) = .error fault) :
    readSavedState readMemberSets (savedState memberSets s) = .error fault := by
  have hchecked := takes_readSequence_self (l := s.checked.toList)
    ((Flags.length_toList s.checked).symm ▸ h.checked) fun b _ => takes_readFlag b
  unfold savedState readSavedState
  simp only [List.append_assoc]
  rw [bind_of_takes hchecked]
  -- the flags have been taken, and the sets come next
  have hmembers (rest : Bytes) : readMemberSets (memberSets s.members ++ rest) = .error fault := by
    rw [readMemberSets_apply, hsets]
  exact bind_of_error (hmembers _) _

/-- If they can, they are the sets of the state that is read. -/
theorem takes_readSavedState_sets {s : Snapshot} (h : StateFits (fun _ => True) s)
    {l : List (TagId × PackedSet)} (hsets : decodeSets (layouts s.members) = .ok l) :
    Takes (readSavedState readMemberSets) (savedState memberSets s)
      { s with members := TagMap.ofList l } := by
  have hmembers : Takes readMemberSets (memberSets s.members) (TagMap.ofList l) := by
    intro rest
    rw [readMemberSets_apply, hsets]
  have hfits : StateFits (fun _ => True) { s with members := TagMap.ofList l } :=
    ⟨h.checked, trivial, h.registry, h.typedWords, h.typedWord⟩
  -- the bytes of the sets are those of `s`, whatever is read of them
  have hread : Takes (readSavedState readMemberSets)
      (savedState (fun _ => memberSets s.members) { s with members := TagMap.ofList l })
      { s with members := TagMap.ofList l } :=
    takes_readSavedState hfits fun _ => hmembers
  exact hread

end Wire

namespace Snapshot

open Wire

/-- The lengths in a snapshot have eight bytes, as those of all texts and lists in memory do. -/
def LengthsFit (s : Snapshot) : Prop := StateFits (fun _ => True) s

variable {s : Snapshot}

/-- A file is not read, or the sets that are read are packed by size, and all else is as written. -/
theorem exists_of_decode (h : s.LengthsFit) {stored : StoredSnapshot}
    (hdecode : StoredSnapshot.decode s.encode = .ok stored) :
    ∃ sets, (∀ e ∈ TagMap.entries sets, e.2.BySize)
      ∧ stored = .current { s with members := sets } := by
  have hbody : StoredSnapshot.decode s.encode
      = StoredSnapshot.current
        <$> StoredSnapshot.decodeBody (readSavedState readMemberSets) (savedState memberSets s) :=
          rfl
  rw [hbody] at hdecode
  cases hsets : decodeSets (layouts s.members) with
  | error fault =>
    rw [StoredSnapshot.decodeBody, readSavedState_error h hsets] at hdecode
    cases hdecode
  | ok l =>
    rw [StoredSnapshot.decodeBody_of_takes (takes_readSavedState_sets h hsets)] at hdecode
    refine ⟨TagMap.ofList l, fun e he => ?_, (Except.ok.inj hdecode).symm⟩
    exact bySize_of_decodeSets hsets e (TagMap.mem_of_mem_ofList he)

/-- If the sets are read as they were, they are packed by size. -/
theorem setsFit_of_decode (h : s.LengthsFit) {stored : StoredSnapshot}
    (hdecode : StoredSnapshot.decode s.encode = .ok stored) (last : ItemId)
    (hmembers : (stored.toCurrent last).members = s.members) : SetsFit s.members := by
  obtain ⟨sets, hsize, rfl⟩ := exists_of_decode h hdecode
  have hsame : sets = s.members := hmembers
  rw [← hsame]
  exact hsize

/-- The file of a snapshot is read as this snapshot if and only if all sets are packed by size. -/
theorem decode_encode_iff (h : s.LengthsFit) :
    StoredSnapshot.decode s.encode = .ok (.current s) ↔ SetsFit s.members := by
  constructor
  · intro hdecode
    exact setsFit_of_decode h hdecode 0 rfl
  · intro hsets
    have hfits : (StoredSnapshot.current s).Fits :=
      ⟨h.checked, hsets, h.registry, h.typedWords, h.typedWord⟩
    have hround := StoredSnapshot.decode_encode_of_fits hfits
    rw [StoredSnapshot.encode] at hround
    exact hround

end Snapshot

end EvidenceTags
