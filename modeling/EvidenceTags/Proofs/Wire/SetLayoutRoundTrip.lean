import EvidenceTags.Proofs.Wire.Containers

/-!
# Sets of items are read back from their layout

A set whose blocks are packed as their sizes ask for is read back from its bytes, in front of
anything (`takes_read`, `decode_encode`). The header announces the containers, each with its block
and size; the size alone decides how the data are read, which is how they were written. The blocks
that were read make up the set again (`ofBlocks_containers`).
-/

namespace EvidenceTags

namespace PackedSet

/-- No block is packed otherwise than its size asks for. -/
def BySize (s : PackedSet) : Prop := s.exceptions = []

instance (s : PackedSet) : Decidable s.BySize := inferInstanceAs (Decidable (s.exceptions = []))

theorem ext {s t : PackedSet} (hitems : s.items = t.items)
    (hexceptions : s.exceptions = t.exceptions) :
    s = t := by
  cases s
  cases t
  congr

theorem bySize_ofItems (items : ItemSet) : (ofItems items).BySize := rfl

theorem BySize.packing {s : PackedSet} (h : s.BySize) (block size : Nat) :
    s.packing block size = .ofSize size := by
  rw [PackedSet.packing, h]
  exact if_neg List.not_mem_nil

end PackedSet

namespace Wire

namespace SetLayout

/-! ## The blocks make up the set -/

/-- The block that the data of a container are read as. -/
def Container.packed (c : Container) : PackedBlock :=
  ⟨c.block, .ofSize c.lows.length, itemsAt c.block c.lows⟩

/-- The blocks of the containers of a set make up the set. -/
theorem ofBlocks_containers {s : PackedSet} (h : s.BySize) {cs : List Container}
    (hsplit : Split s.items.indices cs) : PackedSet.ofBlocks (cs.map Container.packed) = s := by
  have hlimit : ∀ c ∈ cs, ∀ x ∈ c.indices, x < ItemSet.limit := by
    intro c hc x hx
    exact ItemSet.lt_limit_of_mem_indices _ (hsplit.mem_of_mem hc hx)
  apply PackedSet.ext
  · -- an item is in one of the blocks if its number is in one of the containers
    refine ItemSet.ext_contains fun item => ?_
    rw [PackedSet.items_ofBlocks, ItemSet.contains_unionOf, List.map_map, List.any_map,
      Bool.eq_iff_iff, List.any_eq_true, ItemSet.contains_iff_mem_indices, ← hsplit.covers,
      List.mem_flatMap]
    refine exists_congr fun c => and_congr_right fun hc => ?_
    show (itemsAt c.block c.lows).contains item = true ↔ _
    rw [contains_itemsAt (hlimit c hc), decide_eq_true_eq]
  · -- each block is packed as the size of its items asks for
    have hnone : (cs.map Container.packed).filter (fun b => b.packing ≠ .ofSize b.items.size)
        = [] := by
      apply List.filter_eq_nil_iff.2
      intro b hb
      rcases List.mem_map.1 hb with ⟨c, hc, rfl⟩
      simp [Container.packed, size_itemsAt (hsplit.wellFormed c hc) (hlimit c hc)]
    rw [h, PackedSet.ofBlocks, hnone]
    rfl

/-! ## Headers -/

/-- What the header says about a container. -/
def Container.description (c : Container) : Description := ⟨c.block, c.lows.length⟩

theorem takes_readDescription {c : Container} (hc : c.WellFormed) (hblock : c.block < blockSize) :
    Takes readDescription (number 2 c.block ++ number 2 (c.lows.length - 1)) c.description := by
  have hpos := hc.length_pos
  have hle := hc.length_le
  have hlast : c.lows.length - 1 < 256 ^ 2 := Nat.lt_of_lt_of_le (by omega) hle
  have hrest := takes_bind_pure (takes_readNumber .setTooShort 2 hlast) fun n =>
    Description.mk c.block (n + 1)
  rw [Nat.sub_add_cancel hpos] at hrest
  exact takes_bind (takes_readNumber .setTooShort 2 hblock) hrest

@[simp] theorem length_places (start : Nat) (lengths : List Nat) :
    (places start lengths).length = lengths.length := by
  induction lengths generalizing start with
  | nil => rfl
  | cons length rest ih => rw [places, List.length_cons, ih, List.length_cons]

/-- Numbers of one width take that width each. -/
theorem length_flatMap_number (width : Nat) (l : List Nat) :
    (l.flatMap (number width)).length = width * l.length := by
  induction l with
  | nil => rfl
  | cons n l ih =>
    rw [List.flatMap_cons, List.length_append, length_number, ih, List.length_cons, Nat.mul_succ,
      Nat.add_comm]

/-! ## The whole set -/

/-- Without runs, the containers are read one after another. -/
theorem takes_readContainers {cs : List Container} (h : ∀ c ∈ cs, c.WellFormed) (index : Nat) :
    Takes (readContainers [] index (cs.map Container.description))
      (cs.flatMap fun c => c.data (.ofSize c.lows.length)) (cs.map Container.packed) := by
  induction cs generalizing index with
  | nil => exact takes_pure _
  | cons c rest ih =>
    have hdata := takes_readData (h c List.mem_cons_self)
    have hrest := ih (fun d hd => h d (List.mem_cons_of_mem _ hd)) (index + 1)
    exact takes_bind hdata (takes_bind_pure hrest _)

theorem takes_readLayout {s : PackedSet} (h : s.BySize) {cs : List Container}
    (hsplit : Split s.items.indices cs) {starts : Bytes} (hstarts : starts.length = 4 * cs.length) :
    Takes (readLayout cs.length [] true)
      (cs.flatMap (fun c => number 2 c.block ++ number 2 (c.lows.length - 1)) ++ (starts
        ++ cs.flatMap fun c => c.data (.ofSize c.lows.length))) s := by
  have hlimit : ∀ x ∈ s.items.indices, x < ItemSet.limit := by
    intro x hx
    exact ItemSet.lt_limit_of_mem_indices _ hx
  have hdescriptions := takes_readMany fun c hc =>
    takes_readDescription (hsplit.wellFormed c hc) (hsplit.block_lt hlimit hc)
  -- the places are passed over, whatever they say
  have hplaces := takes_readBytes .setTooShort starts
  rw [hstarts] at hplaces
  have hblocks := takes_bind_pure (takes_readContainers hsplit.wellFormed 0) PackedSet.ofBlocks
  rw [ofBlocks_containers h hsplit] at hblocks
  have hcount : ¬ blockSize < cs.length := Nat.not_lt.2 (hsplit.length_le hlimit)
  unfold readLayout
  rw [if_neg hcount]
  exact takes_bind hdescriptions (takes_bind hplaces hblocks)

/-- A set is read back from its layout, in front of anything. -/
theorem takes_read {s : PackedSet} (h : s.BySize) : Takes read (encode s) s := by
  have hsplit := split_containersOf (ItemSet.pairwise_indices s.items)
  have hlimit : ∀ x ∈ s.items.indices, x < ItemSet.limit := by
    intro x hx
    exact ItemSet.lt_limit_of_mem_indices _ hx
  have hcount : (containersOf s.items.indices).length < 256 ^ 4 :=
    Nat.lt_of_le_of_lt (hsplit.length_le hlimit) (by decide)
  unfold encode
  simp only [h.packing, ← List.flatMap_def, List.append_assoc]
  -- the first number tells that there are no runs, and the second one counts the containers
  refine takes_bind (takes_readNumber .setTooShort 4 (by decide)) ?_
  rw [if_pos rfl]
  refine takes_bind (takes_readNumber .setTooShort 4 hcount) ?_
  apply takes_readLayout h hsplit
  rw [length_flatMap_number, length_places, List.length_map, List.length_map]

theorem decode_encode {s : PackedSet} (h : s.BySize) : decode (encode s) = .ok s := by
  have hread := takes_read h []
  rw [List.append_nil] at hread
  rw [decode, hread]
  rfl

/-! ## How long a layout is -/

/-- The data of a container take up to two bytes for each item, or one for eight numbers. -/
theorem length_data_le {c : Container} (h : c.WellFormed) (packing : Packing) :
    (c.data packing).length ≤ 2 * blockSize := by
  cases packing with
  | listed =>
    rw [Container.data, length_flatMap_number]
    exact Nat.mul_le_mul_left 2 h.length_le
  | mapped =>
    rw [Container.data, length_bitBytes]
    decide

theorem length_flatMap_le {α : Type} {write : α → Bytes} {most : Nat} {l : List α}
    (h : ∀ a ∈ l, (write a).length ≤ most) : (l.flatMap write).length ≤ l.length * most := by
  induction l with
  | nil => exact Nat.zero_le _
  | cons a l ih =>
    have ha := h a List.mem_cons_self
    have hl := ih fun b hb => h b (List.mem_cons_of_mem _ hb)
    rw [List.flatMap_cons, List.length_append, List.length_cons, Nat.succ_mul]
    omega

/-- The layout of a set is never too long for a block, however it is packed. -/
theorem length_encode_lt (s : PackedSet) : (encode s).length < lengthLimit := by
  have hsplit := split_containersOf (ItemSet.pairwise_indices s.items)
  have hcount := hsplit.length_le fun x hx => ItemSet.lt_limit_of_mem_indices _ hx
  have hheader : ((containersOf s.items.indices).flatMap fun c =>
      number 2 c.block ++ number 2 (c.lows.length - 1)).length
        ≤ (containersOf s.items.indices).length * 4 := length_flatMap_le (by simp)
  have hdata : ((containersOf s.items.indices).flatMap fun c =>
      c.data (s.packing c.block c.lows.length)).length
        ≤ (containersOf s.items.indices).length * (2 * blockSize) :=
    length_flatMap_le fun c hc => length_data_le (hsplit.wellFormed c hc) _
  unfold encode
  simp only [← List.flatMap_def, List.length_append, length_number,
    length_flatMap_number, length_places, List.length_map]
  have hblock : blockSize = 65536 := rfl
  rw [hblock] at hcount hdata
  unfold lengthLimit
  omega

end SetLayout

end Wire

end EvidenceTags
