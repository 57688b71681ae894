import EvidenceTags.Proofs.ItemFinset
import EvidenceTags.Proofs.Wire.SetLayoutRoundTrip

/-!
# A layout without runs is packed by size

The announced size of a container decides how its data are read, and if there are no runs, the data
are items of that number. So a set that was read from such a layout is packed as the sizes of its
blocks ask for (`SetLayout.bySize_of_decode_encode`), however the set was packed that was written.
Hence exactly the sets that are packed by size are read back as they were
(`SetLayout.decode_encode_iff`).
-/

namespace EvidenceTags

namespace Wire

variable {α β : Type}

/-! ## What a reader has taken -/

theorem exists_of_read_bind {read : Reader α} {next : α → Reader β} {input rest : Bytes} {b : β}
    (h : (read >>= next) input = .ok (b, rest)) :
    ∃ a mid, read input = .ok (a, mid) ∧ next a mid = .ok (b, rest) := by
  obtain ⟨⟨a, mid⟩, hread, hnext⟩ := exists_of_bind_eq_ok h
  exact ⟨a, mid, hread, hnext⟩

/-- What a reader takes has a property, whatever the input is. -/
def Yields (read : Reader α) (P : α → Prop) : Prop :=
  ∀ input a rest, read input = .ok (a, rest) → P a

theorem Yields.bind {read : Reader α} {next : α → Reader β} {P : α → Prop} {Q : β → Prop}
    (h : Yields read P) (hnext : ∀ a, P a → Yields (next a) Q) : Yields (read >>= next) Q := by
  intro input b rest hread
  obtain ⟨a, mid, ha, hb⟩ := exists_of_read_bind hread
  exact hnext a (h input a mid ha) mid b rest hb

theorem yields_pure {a : α} {P : α → Prop} (h : P a) : Yields (pure a) P := by
  intro input b rest hread
  cases hread
  exact h

theorem yields_fail {fault : DecodeFault} {P : α → Prop} : Yields (fail fault) P := by
  intro input a rest hread
  cases hread

theorem yields_readByte (short : DecodeFault) : Yields (readByte short) fun _ => True := by
  intro input a rest _
  trivial

theorem yields_readNumber (short : DecodeFault) (width : Nat) :
    Yields (readNumber short width) (· < 256 ^ width) := by
  induction width with
  | zero => exact yields_pure (by simp)
  | succ width ih =>
    refine (yields_readByte short).bind fun low _ => ih.bind fun high hhigh => yields_pure ?_
    have hlow : low.toNat < 256 := low.toNat_lt
    rw [Nat.pow_succ]
    omega

theorem yields_readBytes (short : DecodeFault) (n : Nat) :
    Yields (readBytes short n) fun bytes => bytes.length = n := by
  intro input bytes rest hread
  unfold readBytes at hread
  by_cases hshort : (input.take n).length < n
  · rw [if_pos hshort] at hread
    cases hread
  · rw [if_neg hshort] at hread
    cases hread
    have hle : (input.take n).length ≤ n := List.length_take_le n input
    omega

theorem yields_readManyOnto {read : Reader α} {P : α → Prop} (h : Yields read P) (n : Nat)
    (acc : List α) (hacc : ∀ a ∈ acc, P a) :
    Yields (readManyOnto read n acc) fun l => l.length = acc.length + n ∧ ∀ a ∈ l, P a := by
  induction n generalizing acc with
  | zero =>
    intro input l rest hread
    cases hread
    constructor
    · exact List.length_reverse
    · intro a ha
      exact hacc a (List.mem_reverse.1 ha)
  | succ n ih =>
    intro input l rest hread
    unfold readManyOnto at hread
    cases hvalue : read input with
    | error fault =>
      rw [hvalue] at hread
      cases hread
    | ok taken =>
      obtain ⟨value, mid⟩ := taken
      rw [hvalue] at hread
      have hvalues : ∀ a ∈ value :: acc, P a := by
        intro a ha
        rcases List.mem_cons.1 ha with rfl | ha
        · exact h input _ mid hvalue
        · exact hacc a ha
      obtain ⟨hlength, hall⟩ := ih (value :: acc) hvalues mid l rest hread
      rw [List.length_cons] at hlength
      exact ⟨by omega, hall⟩

theorem yields_readMany {read : Reader α} {P : α → Prop} (h : Yields read P) (n : Nat) :
    Yields (readMany n read) fun l => l.length = n ∧ ∀ a ∈ l, P a := by
  have hmany := yields_readManyOnto h n [] fun a ha => absurd ha List.not_mem_nil
  simp only [List.length_nil, Nat.zero_add] at hmany
  exact hmany

namespace SetLayout

/-! ## Items of one block -/

theorem size_ofList_le (items : List ItemId) : (ItemSet.ofList items).size ≤ items.length := by
  rw [← ItemSet.card_toFinset, ItemSet.toFinset_ofList]
  exact List.toFinset_card_le items

/-- As many items as are listed at most: up to that many, none is lost. -/
theorem yields_readListed (d : Description) :
    Yields (readListed d) fun items => items.size ≤ d.cardinality := by
  refine (yields_readMany (yields_readNumber _ 2) d.cardinality).bind ?_
  rintro lows ⟨hlength, -⟩
  cases lows with
  | nil => exact yields_pure (Nat.zero_le _)
  | cons low rest =>
    simp only
    cases firstDisorder low 0 rest with
    | some fault => exact yields_fail
    | none =>
      refine yields_pure ?_
      have hsize :=
        size_ofList_le ((low :: rest).map fun low => UInt32.ofNat (d.block * blockSize + low))
      rw [List.length_map, hlength] at hsize
      exact hsize

/-- The set bits are in ascending order. -/
theorem pairwise_setBits (base : Nat) (bytes : Bytes) (acc : List Nat)
    (hacc : acc.reverse.Pairwise (· < ·)) (hlow : ∀ x ∈ acc, x < base) :
    (setBits base bytes acc).Pairwise (· < ·)
      ∧ ∀ x ∈ setBits base bytes acc, x < base + 8 * bytes.length := by
  induction bytes generalizing base acc with
  | nil =>
    refine ⟨hacc, fun x hx => ?_⟩
    have hlt := hlow x (List.mem_reverse.1 hx)
    rw [List.length_nil]
    omega
  | cons byte rest ih =>
    have hfold (places : List Nat) : places.foldl (fun acc i => (base + i) :: acc) acc
        = (places.map (base + ·)).reverse ++ acc := by
      simp
    have hplaces : ∀ x ∈ ((List.range 8).filter fun i => byte.toNat.testBit i).map (base + ·),
        base ≤ x ∧ x < base + 8 := by
      intro x hx
      obtain ⟨i, hi, rfl⟩ := List.mem_map.1 hx
      have hlt := List.mem_range.1 (List.mem_filter.1 hi).1
      omega
    rw [setBits, hfold, List.length_cons]
    have hnext := ih (base + 8)
      ((((List.range 8).filter fun i => byte.toNat.testBit i).map (base + ·)).reverse ++ acc) ?_ ?_
    · refine ⟨hnext.1, fun x hx => ?_⟩
      have hlt := hnext.2 x hx
      omega
    · rw [List.reverse_append, List.reverse_reverse]
      refine List.pairwise_append.2 ⟨hacc, ?_, fun x hx y hy => ?_⟩
      · have hrange : ((List.range 8).filter fun i => byte.toNat.testBit i).Pairwise (· < ·) :=
          List.pairwise_lt_range.filter _
        exact List.pairwise_map.2 (hrange.imp fun hlt => Nat.add_lt_add_left hlt base)
      · exact Nat.lt_of_lt_of_le (hlow x (List.mem_reverse.1 hx)) (hplaces y hy).1
    · intro x hx
      rcases List.mem_append.1 hx with hx | hx
      · exact (hplaces x (List.mem_reverse.1 hx)).2
      · exact Nat.lt_of_lt_of_le (hlow x hx) (Nat.le_add_right base 8)

/-- The bits stand for exactly as many items as announced. -/
theorem yields_readBits {d : Description} (hblock : d.block < blockSize)
    (hpos : 0 < d.cardinality) :
    Yields (readBits d) fun items => items.size = d.cardinality := by
  refine (yields_readBytes _ _).bind fun bytes hlength => ?_
  have hbits := pairwise_setBits 0 bytes [] .nil fun x hx => absurd hx List.not_mem_nil
  rw [hlength, Nat.zero_add] at hbits
  by_cases hcount : (setBits 0 bytes []).length = d.cardinality
  · rw [if_pos hcount]
    refine yields_pure ?_
    have hformed : Container.WellFormed ⟨d.block, setBits 0 bytes []⟩ := by
      refine ⟨?_, hbits.1, hbits.2⟩
      intro hnil
      rw [show setBits 0 bytes [] = [] from hnil, List.length_nil] at hcount
      omega
    have hlimit : ∀ x ∈ Container.indices ⟨d.block, setBits 0 bytes []⟩, x < ItemSet.limit := by
      intro x hx
      obtain ⟨low, hlow, rfl⟩ := List.mem_map.1 hx
      have hlt := hbits.2 low hlow
      have hsquare : ItemSet.limit = 65536 * 65536 := rfl
      have hsize : blockSize = 65536 := rfl
      show d.block * blockSize + low < ItemSet.limit
      rw [hsize] at hblock hlt ⊢
      rw [hsquare]
      omega
    exact (size_itemsAt hformed hlimit).trans hcount
  · rw [if_neg hcount]
    exact yields_fail

/-! ## Whole layouts -/

/-- The block is packed as its size asks for. -/
def SizeAsks (b : PackedBlock) : Prop := b.packing = .ofSize b.items.size

theorem yields_readData {d : Description} (hblock : d.block < blockSize)
    (hpos : 0 < d.cardinality) :
    Yields (readData d false) SizeAsks := by
  unfold readData
  simp only [Bool.false_eq_true, if_false]
  cases hpacking : Packing.ofSize d.cardinality with
  | listed =>
    have hsmall : d.cardinality ≤ Packing.listLimit := by
      by_contra hlarge
      rw [Packing.ofSize, if_neg hlarge] at hpacking
      cases hpacking
    rw [map_eq_pure_bind]
    refine (yields_readListed d).bind fun items hsize => yields_pure ?_
    exact (if_pos (Nat.le_trans hsize hsmall)).symm
  | mapped =>
    rw [map_eq_pure_bind]
    refine (yields_readBits hblock hpos).bind fun items hsize => yields_pure ?_
    rw [SizeAsks, hsize, hpacking]

theorem yields_readDescription :
    Yields readDescription fun d => d.block < blockSize ∧ 0 < d.cardinality := by
  refine (yields_readNumber _ 2).bind fun block hblock => ?_
  refine (yields_readNumber _ 2).bind fun cardinality _ => ?_
  exact yields_pure ⟨hblock, Nat.succ_pos cardinality⟩

/-- Without flags there are no runs. -/
theorem yields_readContainers {ds : List Description}
    (h : ∀ d ∈ ds, d.block < blockSize ∧ 0 < d.cardinality) (index : Nat) :
    Yields (readContainers [] index ds) fun blocks => ∀ b ∈ blocks, SizeAsks b := by
  induction ds generalizing index with
  | nil =>
    refine yields_pure fun b hb => ?_
    exact absurd hb List.not_mem_nil
  | cons d rest ih =>
    obtain ⟨hblock, hpos⟩ := h d List.mem_cons_self
    have hrest := ih (fun e he => h e (List.mem_cons_of_mem _ he)) (index + 1)
    refine (yields_readData hblock hpos).bind fun block hsize => ?_
    refine hrest.bind fun others hothers => yields_pure fun b hb => ?_
    rcases List.mem_cons.1 hb with rfl | hb
    · exact hsize
    · exact hothers b hb

theorem yields_readLayout (n : Nat) : Yields (readLayout n [] true) PackedSet.BySize := by
  unfold readLayout
  by_cases hn : blockSize < n
  · rw [if_pos hn]
    exact yields_fail
  · rw [if_neg hn]
    refine (yields_readMany yields_readDescription n).bind fun ds hds => ?_
    refine (yields_readBytes _ _).bind fun _ _ => ?_
    refine (yields_readContainers hds.2 0).bind fun blocks hblocks => yields_pure ?_
    have hnone : blocks.filter (fun b => b.packing ≠ .ofSize b.items.size) = [] := by
      apply List.filter_eq_nil_iff.2
      intro b hb
      have hsize : b.packing = .ofSize b.items.size := hblocks b hb
      simp [hsize]
    rw [PackedSet.BySize, PackedSet.ofBlocks, hnone]
    rfl

/-- Sets are written without runs, so what is read of them is packed by size. -/
theorem bySize_of_decode_encode {s t : PackedSet} (h : decode (encode s) = .ok t) : t.BySize := by
  obtain ⟨⟨_, rest⟩, hread, rfl⟩ : ∃ p, read (encode s) = .ok p ∧ p.1 = t := by
    unfold decode at h
    cases hread : read (encode s) with
    | error fault =>
      rw [hread] at h
      cases h
    | ok p =>
      rw [hread] at h
      exact ⟨p, rfl, Except.ok.inj h⟩
  unfold read encode at hread
  simp only [List.append_assoc] at hread
  obtain ⟨mark, mid, hmark, hread⟩ := exists_of_read_bind hread
  rw [takes_readNumber .setTooShort 4 (by decide)] at hmark
  cases hmark
  rw [if_pos rfl] at hread
  obtain ⟨n, mid, -, hread⟩ := exists_of_read_bind hread
  exact yields_readLayout n mid _ rest hread

/-- A set is read back as it was written if and only if it is packed by size. -/
theorem decode_encode_iff {s : PackedSet} : decode (encode s) = .ok s ↔ s.BySize :=
  ⟨bySize_of_decode_encode, decode_encode⟩

end SetLayout

end Wire

end EvidenceTags
