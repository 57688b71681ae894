import EvidenceTags.ItemSet.Lemmas
import EvidenceTags.Proofs.Wire.Reading
import EvidenceTags.Wire.SetLayout
import Mathlib.Data.List.Sublists
import Mathlib.Data.List.TakeWhile

/-!
# Containers, and their data read back

Ascending indices are split into containers, one for each block that has items (`Split`,
`split_containersOf`). The data of a container are the lower halves of its items, either listed or
as bits. Both are read back: the list because it ascends (`takes_readListed`), the bits because each
byte has exactly the bits of the lower halves that fall into it (`testBit_byteOf`,
`setBits_bitBytes`).
-/

namespace EvidenceTags

namespace Ascending

/-- Strictly ascending numbers below `n` are at most `n`. -/
theorem length_le {l : List Nat} {n : Nat} (h : l.Pairwise (· < ·))
    (hn : ∀ a ∈ l, a < n) : l.length ≤ n := by
  have hnodup : l.Nodup := h.imp fun hlt => Nat.ne_of_lt hlt
  have hsub : l ⊆ List.range n := by
    intro a ha
    exact List.mem_range.2 (hn a ha)
  have hle := (List.subperm_of_subset hnodup hsub).length_le
  rwa [List.length_range] at hle

end Ascending

namespace Wire

namespace SetLayout

/-! ## Splitting into blocks -/

/-- The numbers of the items of a container. -/
def Container.indices (c : Container) : List Nat :=
  c.lows.map fun low => c.block * blockSize + low

/-- A container has items, in ascending order, and they fall into its block. -/
structure Container.WellFormed (c : Container) : Prop where
  nonempty : c.lows ≠ []
  ascending : c.lows.Pairwise (· < ·)
  bounded : ∀ low ∈ c.lows, low < blockSize

/-- The indices are those of the containers, and each block has one container at most. -/
structure Split (indices : List Nat) (cs : List Container) : Prop where
  wellFormed : ∀ c ∈ cs, c.WellFormed
  ascending : cs.Pairwise (fun c d => c.block < d.block)
  covers : cs.flatMap Container.indices = indices

theorem div_add_mod_block (x : Nat) : x / blockSize * blockSize + x % blockSize = x :=
  Nat.div_add_mod' x blockSize

theorem mod_lt_blockSize (x : Nat) : x % blockSize < blockSize := Nat.mod_lt x (by decide)

/-- One index has a container of its own. -/
theorem wellFormed_single (x : Nat) : Container.WellFormed ⟨x / blockSize, [x % blockSize]⟩ where
  nonempty := List.cons_ne_nil _ _
  ascending := List.pairwise_singleton _ _
  bounded := by
    intro low hlow
    rw [List.mem_singleton.1 hlow]
    exact mod_lt_blockSize x

/-- A number below an index of a container falls into its block or into an earlier one. -/
theorem div_le_block {c : Container} {x : Nat} (hc : c.WellFormed) (h : ∀ y ∈ c.indices, x < y) :
    x / blockSize ≤ c.block := by
  obtain ⟨low, hlow⟩ := List.exists_mem_of_ne_nil _ hc.nonempty
  have hx := h _ (List.mem_map.2 ⟨low, hlow, rfl⟩)
  have hbound := hc.bounded low hlow
  have hblock : x < (c.block + 1) * blockSize := by
    rw [Nat.add_mul, Nat.one_mul]
    omega
  exact Nat.lt_succ_iff.1 ((Nat.div_lt_iff_lt_mul (by decide)).2 hblock)

/-- A lower index of its block can be put in front of the items of a container. -/
theorem Container.WellFormed.cons {c : Container} (hc : c.WellFormed) {x : Nat}
    (hblock : x / blockSize = c.block) (hx : ∀ y ∈ c.indices, x < y) :
    Container.WellFormed ⟨c.block, x % blockSize :: c.lows⟩ := by
  constructor
  case nonempty => exact List.cons_ne_nil _ _
  case ascending =>
    have hfirst : ∀ low ∈ c.lows, x % blockSize < low := by
      intro low hlow
      have hlt := hx _ (List.mem_map.2 ⟨low, hlow, rfl⟩)
      have hsplit := div_add_mod_block x
      rw [hblock] at hsplit
      omega
    exact List.pairwise_cons.2 ⟨hfirst, hc.ascending⟩
  case bounded =>
    intro low hlow
    rcases List.mem_cons.1 hlow with rfl | hlow
    · exact mod_lt_blockSize x
    · exact hc.bounded low hlow

/-- A lower index is put in front, into the first container or into a new one. -/
theorem Split.put {indices : List Nat} {cs : List Container} (h : Split indices cs) {x : Nat}
    (hx : ∀ y ∈ indices, x < y) : Split (x :: indices) (Container.put x cs) := by
  cases cs with
  | nil =>
    have hnil : indices = [] := h.covers.symm
    subst hnil
    constructor
    case wellFormed =>
      intro c hc
      rw [List.mem_singleton.1 hc]
      exact wellFormed_single x
    case ascending => exact List.pairwise_singleton _ _
    case covers => simp [Container.put, Container.indices, div_add_mod_block]
  | cons c rest =>
    have hc := h.wellFormed c List.mem_cons_self
    have hrest : ∀ d ∈ rest, d.WellFormed := by
      intro d hd
      exact h.wellFormed d (List.mem_cons_of_mem _ hd)
    rcases List.pairwise_cons.1 h.ascending with ⟨hfirst, hasc⟩
    have hbelow : ∀ y ∈ c.indices, x < y := by
      intro y hy
      apply hx y
      rw [← h.covers, List.flatMap_cons]
      exact List.mem_append_left _ hy
    have hcovers := h.covers
    rw [Container.put]
    split
    · -- the index falls into the block of the first container
      rename_i hblock
      constructor
      case wellFormed =>
        intro d hd
        rcases List.mem_cons.1 hd with rfl | hd
        · exact hc.cons hblock.symm hbelow
        · exact hrest d hd
      case ascending => exact List.pairwise_cons.2 ⟨hfirst, hasc⟩
      case covers =>
        rw [List.flatMap_cons] at hcovers ⊢
        rw [← hcovers, Container.indices, List.map_cons, hblock, div_add_mod_block]
        simp [Container.indices, hblock]
    · -- the index falls into an earlier block
      rename_i hblock
      have hlt : x / blockSize < c.block := by
        apply Nat.lt_of_le_of_ne (div_le_block hc hbelow)
        exact Ne.symm hblock
      constructor
      case wellFormed =>
        intro d hd
        rcases List.mem_cons.1 hd with rfl | hd
        · exact wellFormed_single x
        · exact h.wellFormed d hd
      case ascending =>
        have hnew : ∀ d ∈ c :: rest, x / blockSize < d.block := by
          intro d hd
          rcases List.mem_cons.1 hd with rfl | hd
          · exact hlt
          · exact Nat.lt_trans hlt (hfirst d hd)
        exact List.pairwise_cons.2 ⟨hnew, h.ascending⟩
      case covers =>
        rw [List.flatMap_cons, hcovers]
        simp [Container.indices, div_add_mod_block]

/-- Ascending indices are split into the containers of their blocks. -/
theorem split_containersOf {indices : List Nat} (h : indices.Pairwise (· < ·)) :
    Split indices (containersOf indices) := by
  induction indices with
  | nil => exact ⟨by simp [containersOf], .nil, rfl⟩
  | cons x rest ih =>
    obtain ⟨hx, hrest⟩ := List.pairwise_cons.1 h
    exact (ih hrest).put hx

/-! ## How many there can be -/

theorem Container.WellFormed.length_pos {c : Container} (h : c.WellFormed) : 0 < c.lows.length :=
  List.length_pos_of_ne_nil h.nonempty

theorem Container.WellFormed.length_le {c : Container} (h : c.WellFormed) :
    c.lows.length ≤ blockSize :=
  Ascending.length_le h.ascending h.bounded

theorem Split.mem_of_mem {indices : List Nat} {cs : List Container} (h : Split indices cs)
    {c : Container} (hc : c ∈ cs) {x : Nat} (hx : x ∈ c.indices) : x ∈ indices := by
  rw [← h.covers]
  exact List.mem_flatMap.2 ⟨c, hc, hx⟩

/-- There are as many blocks as there are numbers in one. -/
theorem Split.block_lt {indices : List Nat} {cs : List Container} (h : Split indices cs)
    (hlimit : ∀ x ∈ indices, x < ItemSet.limit) {c : Container} (hc : c ∈ cs) :
    c.block < blockSize := by
  obtain ⟨low, hlow⟩ := List.exists_mem_of_ne_nil _ (h.wellFormed c hc).nonempty
  have hx := hlimit _ (h.mem_of_mem hc (List.mem_map.2 ⟨low, hlow, rfl⟩))
  have hsquare : ItemSet.limit = blockSize * blockSize := rfl
  rw [hsquare] at hx
  exact Nat.lt_of_mul_lt_mul_right (Nat.lt_of_le_of_lt (Nat.le_add_right _ low) hx)

theorem Split.length_le {indices : List Nat} {cs : List Container} (h : Split indices cs)
    (hlimit : ∀ x ∈ indices, x < ItemSet.limit) : cs.length ≤ blockSize := by
  have hblocks : ∀ b ∈ cs.map (·.block), b < blockSize := by
    intro b hb
    rcases List.mem_map.1 hb with ⟨c, hc, rfl⟩
    exact h.block_lt hlimit hc
  have hle := Ascending.length_le (List.pairwise_map.2 h.ascending) hblocks
  rwa [List.length_map] at hle

/-! ## Items of a block -/

/-- The items at the lower halves of a container are those with its indices. -/
theorem contains_itemsAt {c : Container} (h : ∀ x ∈ c.indices, x < ItemSet.limit) (item : ItemId) :
    (itemsAt c.block c.lows).contains item = decide (item.toNat ∈ c.indices) := by
  rw [itemsAt, ItemSet.contains_ofList]
  refine decide_eq_decide.2 ?_
  constructor
  · intro hitem
    obtain ⟨low, hlow, rfl⟩ := List.mem_map.1 hitem
    have hmem : c.block * blockSize + low ∈ c.indices := List.mem_map.2 ⟨low, hlow, rfl⟩
    rwa [UInt32.toNat_ofNat_of_lt' (h _ hmem)]
  · intro hitem
    obtain ⟨low, hlow, heq⟩ := List.mem_map.1 hitem
    refine List.mem_map.2 ⟨low, hlow, ?_⟩
    rw [heq, UInt32.ofNat_toNat]

theorem Container.WellFormed.indices_ascending {c : Container} (h : c.WellFormed) :
    c.indices.Pairwise (· < ·) :=
  List.pairwise_map.2 (h.ascending.imp fun hlt => Nat.add_lt_add_left hlt _)

/-- The items of a container are as many as its lower halves. -/
theorem size_itemsAt {c : Container} (hc : c.WellFormed) (h : ∀ x ∈ c.indices, x < ItemSet.limit) :
    (itemsAt c.block c.lows).size = c.lows.length := by
  have hindices : (itemsAt c.block c.lows).indices = c.indices := by
    refine Ascending.eq_of_mem_iff Nat.lt_asymm (ItemSet.pairwise_indices _)
      hc.indices_ascending fun x => ?_
    -- a number from the limit on is in neither list
    by_cases hx : x < ItemSet.limit
    · have hitem := ItemSet.contains_iff_mem_indices (itemsAt c.block c.lows) (UInt32.ofNat x)
      rw [contains_itemsAt h, UInt32.toNat_ofNat_of_lt' hx, decide_eq_true_eq] at hitem
      exact hitem.symm
    · constructor
      · intro hmem
        exact absurd (ItemSet.lt_limit_of_mem_indices _ hmem) hx
      · intro hmem
        exact absurd (h x hmem) hx
  rw [ItemSet.size_eq_length, hindices, Container.indices, List.length_map]

/-! ## Listed items -/

theorem firstDisorder_eq_none {previous : Nat} {lows : List Nat} (index : Nat)
    (h : (previous :: lows).Pairwise (· < ·)) : firstDisorder previous index lows = none := by
  induction lows generalizing previous index with
  | nil => rfl
  | cons low rest ih =>
    obtain ⟨hprev, hrest⟩ := List.pairwise_cons.1 h
    rw [firstDisorder, if_pos (hprev low List.mem_cons_self)]
    exact ih (index + 1) hrest

theorem takes_readListed {c : Container} (h : c.WellFormed) :
    Takes (readListed ⟨c.block, c.lows.length⟩) (c.lows.flatMap (number 2))
      (itemsAt c.block c.lows) := by
  have hlows : Takes (readMany c.lows.length (readNumber .setTooShort 2))
      (c.lows.flatMap (number 2)) (c.lows.map id) :=
    takes_readMany fun low hlow => takes_readNumber _ 2 (h.bounded low hlow)
  rw [List.map_id] at hlows
  rw [← List.append_nil (c.lows.flatMap (number 2))]
  refine takes_bind hlows ?_
  obtain ⟨low, rest, hcons⟩ := List.exists_cons_of_ne_nil h.nonempty
  have hascending := h.ascending
  rw [hcons] at hascending ⊢
  simp only [firstDisorder_eq_none 0 hascending]
  exact takes_pure _

/-! ## Items as bits -/

/-- The number whose bits stand for ascending numbers, of which `base` is the lowest possible. -/
def byteOf (base : Nat) (lows : List Nat) : Nat :=
  lows.foldl (fun sum low => sum + Nat.pow 2 (low - base)) 0

/-- The bits are those of the numbers, and none is left over. The last number has the highest bit,
so the others are below it when it is added. -/
theorem byteOf_spec {base width : Nat} {lows : List Nat} (h : lows.Pairwise (· < ·))
    (hlo : ∀ low ∈ lows, base ≤ low) (hhi : ∀ low ∈ lows, low < base + width) :
    byteOf base lows < 2 ^ width
      ∧ ∀ i, (byteOf base lows).testBit i = decide (base + i ∈ lows) := by
  induction lows using List.reverseRecOn generalizing width with
  | nil => simp [byteOf]
  | append_singleton lows last ih =>
    rcases List.pairwise_append.1 h with ⟨hlows, -, hbefore⟩
    have hlast : last ∈ lows ++ [last] := List.mem_append_right _ (List.mem_singleton_self _)
    have hbase := hlo last hlast
    have hwidth := hhi last hlast
    have hlowsLo : ∀ low ∈ lows, base ≤ low := by
      intro low hlow
      exact hlo low (List.mem_append_left _ hlow)
    have hlowsHi : ∀ low ∈ lows, low < base + (last - base) := by
      intro low hlow
      have hlt := hbefore low hlow last (List.mem_singleton_self _)
      omega
    rcases ih hlows hlowsLo hlowsHi with ⟨hlt, hbits⟩
    have hsum : byteOf base (lows ++ [last]) = 2 ^ (last - base) ||| byteOf base lows := by
      have hor := Nat.two_pow_add_eq_or_of_lt hlt 1
      rw [Nat.mul_one] at hor
      rw [← hor, byteOf, List.foldl_append, Nat.add_comm]
      rfl
    rw [hsum]
    constructor
    · -- the sum has no bit above that of the last number
      have htop : last - base < width := by omega
      exact Nat.or_lt_two_pow (Nat.pow_lt_pow_right (by decide) htop)
        (Nat.lt_trans hlt (Nat.pow_lt_pow_right (by decide) htop))
    · -- and no bit but those of the other numbers and its own
      intro i
      rw [Nat.testBit_or, Nat.testBit_two_pow, hbits i]
      by_cases hi : last - base = i
      · have heq : base + i = last := by omega
        simp [hi, heq]
      · have hne : base + i ≠ last := by omega
        simp [hi, hne]

/-- What is left of an ascending list behind the numbers below `top`. -/
theorem le_of_mem_dropWhile {lows : List Nat} {top low : Nat} (h : lows.Pairwise (· < ·))
    (hlow : low ∈ lows.dropWhile (· < top)) : top ≤ low := by
  induction lows with
  | nil => exact absurd hlow List.not_mem_nil
  | cons first rest ih =>
    obtain ⟨hfirst, hrest⟩ := List.pairwise_cons.1 h
    by_cases hlt : first < top
    · rw [List.dropWhile_cons_of_pos (by simpa using hlt)] at hlow
      exact ih hrest hlow
    · rw [List.dropWhile_cons_of_neg (by simpa using hlt)] at hlow
      rcases List.mem_cons.1 hlow with rfl | hmem
      · exact Nat.not_lt.1 hlt
      · exact Nat.le_trans (Nat.not_lt.1 hlt) (Nat.le_of_lt (hfirst low hmem))

/-- The places of the bits that are set, counted from `base`. -/
theorem setPlaces_byteOf (base : Nat) {lows : List Nat} (h : lows.Pairwise (· < ·))
    (hlo : ∀ low ∈ lows, base ≤ low) (hhi : ∀ low ∈ lows, low < base + 8) :
    ((List.range 8).filter fun i => (UInt8.ofNat (byteOf base lows)).toNat.testBit i).map (base + ·)
      = lows := by
  obtain ⟨hlt, hbits⟩ := byteOf_spec h hlo hhi
  have hbyte : (UInt8.ofNat (byteOf base lows)).toNat = byteOf base lows := by
    simpa using hlt
  simp only [hbyte, hbits]
  refine Ascending.eq_of_mem_iff Nat.lt_asymm ?_ h fun low => ?_
  · exact List.pairwise_map.2
      ((List.pairwise_lt_range.filter _).imp fun hij => Nat.add_lt_add_left hij base)
  · simp only [List.mem_map, List.mem_filter, List.mem_range, decide_eq_true_eq]
    constructor
    · rintro ⟨i, ⟨-, hmem⟩, rfl⟩
      exact hmem
    · intro hmem
      have hle := hlo low hmem
      have htop := hhi low hmem
      have heq : base + (low - base) = low := by omega
      refine ⟨low - base, ⟨by omega, ?_⟩, heq⟩
      rwa [heq]

@[simp] theorem length_bitBytes (n base : Nat) (lows : List Nat) :
    (bitBytes n base lows).length = n := by
  induction n generalizing base lows with
  | zero => rfl
  | succ n ih => rw [bitBytes, List.length_cons, ih]

/-- The bits of ascending numbers are read as those numbers, byte after byte. -/
theorem setBits_bitBytes {n base : Nat} {lows : List Nat} (acc : List Nat)
    (h : lows.Pairwise (· < ·)) (hlo : ∀ low ∈ lows, base ≤ low)
    (hhi : ∀ low ∈ lows, low < base + 8 * n) :
    setBits base (bitBytes n base lows) acc = acc.reverse ++ lows := by
  induction n generalizing base lows acc with
  | zero =>
    have hnil : lows = [] := by
      apply List.eq_nil_iff_forall_not_mem.2
      intro low hlow
      have hle := hlo low hlow
      have hlt := hhi low hlow
      omega
    rw [hnil, bitBytes, setBits, List.append_nil]
  | succ n ih =>
    have hsplit : lows.takeWhile (· < base + 8) ++ lows.dropWhile (· < base + 8) = lows :=
      List.takeWhile_append_dropWhile
    have htake : (lows.takeWhile (· < base + 8)).Sublist lows := List.takeWhile_sublist _
    have hdrop : (lows.dropWhile (· < base + 8)).Sublist lows := List.dropWhile_sublist _
    -- the first byte has the numbers below its end, and the other bytes have the rest
    have hfirstLo : ∀ low ∈ lows.takeWhile (· < base + 8), base ≤ low := by
      intro low hlow
      exact hlo low (htake.subset hlow)
    have hfirstHi : ∀ low ∈ lows.takeWhile (· < base + 8), low < base + 8 := by
      intro low hlow
      simpa using List.mem_takeWhile_imp hlow
    have hrestLo : ∀ low ∈ lows.dropWhile (· < base + 8), base + 8 ≤ low := by
      intro low hlow
      exact le_of_mem_dropWhile h hlow
    have hrestHi : ∀ low ∈ lows.dropWhile (· < base + 8), low < base + 8 + 8 * n := by
      intro low hlow
      have hlt := hhi low (hdrop.subset hlow)
      omega
    have hplaces := setPlaces_byteOf base (h.sublist htake) hfirstLo hfirstHi
    have hrest := ih ((lows.takeWhile (· < base + 8)).reverse ++ acc) (h.sublist hdrop)
      hrestLo hrestHi
    have hfold (places : List Nat) : places.foldl (fun acc i => (base + i) :: acc) acc
        = (places.map (base + ·)).reverse ++ acc := by
      simp
    rw [bitBytes, setBits, hfold, ← byteOf, hplaces, hrest, List.reverse_append,
      List.reverse_reverse, List.append_assoc, hsplit]

theorem takes_readBits {c : Container} (h : c.WellFormed) :
    Takes (readBits ⟨c.block, c.lows.length⟩) (bitBytes (blockSize / 8) 0 c.lows)
      (itemsAt c.block c.lows) := by
  have hbytes := takes_readBytes .setTooShort (bitBytes (blockSize / 8) 0 c.lows)
  rw [length_bitBytes] at hbytes
  rw [← List.append_nil (bitBytes (blockSize / 8) 0 c.lows)]
  refine takes_bind hbytes ?_
  have hbound : ∀ low ∈ c.lows, low < 0 + 8 * (blockSize / 8) := by
    intro low hlow
    rw [Nat.zero_add]
    exact h.bounded low hlow
  have hlows : setBits 0 (bitBytes (blockSize / 8) 0 c.lows) [] = c.lows :=
    setBits_bitBytes [] h.ascending (fun low _ => Nat.zero_le low) hbound
  simp only [hlows, if_true]
  exact takes_pure _

/-- The data of a container are read back, if it is packed as its size asks for. -/
theorem takes_readData {c : Container} (h : c.WellFormed) :
    Takes (readData ⟨c.block, c.lows.length⟩ false) (c.data (.ofSize c.lows.length))
      ⟨c.block, .ofSize c.lows.length, itemsAt c.block c.lows⟩ := by
  unfold readData Container.data
  simp only [Bool.false_eq_true, if_false]
  cases Packing.ofSize c.lows.length with
  | listed => exact takes_map (takes_readListed h) _
  | mapped => exact takes_map (takes_readBits h) _

end SetLayout

end Wire

end EvidenceTags
