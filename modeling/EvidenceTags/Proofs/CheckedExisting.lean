import EvidenceTags.Proofs.CheckedCount
import EvidenceTags.Proofs.ItemFinset
import EvidenceTags.Proofs.SoundState

/-!
# Checking all items that exist

There is a flag for each number up to the last item, also where no item exists. Such a flag is set
like any other: nobody asks the domain whether an item exists before it is checked, and flags that
are taken over from a snapshot are taken over as they are.

So what is checked after all existing items have been checked are these and the strays, which had
been checked without existing (`Selection.strays`), and the count is that of both
(`Selection.ChecksExisting`). It is the total number of items if and only if there are no strays and
the total, which has 32 bits, can tell the number.
-/

namespace EvidenceTags

/-! ## The items of a domain -/

namespace Domain

variable {domain : Domain} {item last : ItemId}

theorem mem_dense : item ∈ (dense last).items ↔ item ≤ last := by
  show (ItemSet.upTo last).contains item = true ↔ _
  rw [ItemSet.contains_upTo, decide_eq_true_iff]

/-- Each number up to the last one is one item. -/
theorem size_dense (last : ItemId) : (dense last).items.size = last.toNat + 1 := by
  have hindices : (dense last).items.indices.toFinset = Finset.range (last.toNat + 1) := by
    ext place
    rw [List.mem_toFinset, ItemSet.mem_indices_iff_exists, Finset.mem_range, Nat.lt_succ_iff]
    constructor
    · rintro ⟨item, hitem, rfl⟩
      exact UInt32.le_iff_toNat_le.1 (mem_dense.1 hitem)
    · intro hle
      have hnat : (UInt32.ofNat place).toNat = place :=
        UInt32.toNat_ofNat_of_lt' (Nat.lt_of_le_of_lt hle last.toNat_lt)
      refine ⟨UInt32.ofNat place, mem_dense.2 (UInt32.le_iff_toNat_le.2 ?_), hnat⟩
      rw [hnat]
      exact hle
  rw [← ItemSet.card_indices, hindices, Finset.card_range]

/-- An item of a list is one item, however often it is named. -/
theorem size_ofItems (items : List ItemId) : (ofItems items).items.size = items.toFinset.card := by
  rw [← ItemSet.card_toFinset, ofItems, ItemSet.toFinset_ofList]

/-- No item is above the last one. -/
theorem le_lastId (h : item ∈ domain.items) : item ≤ domain.lastId := by
  obtain ⟨run, hrun, -, hle⟩ := (ItemSet.contains_iff_runs domain.items item).1 h
  unfold lastId
  cases hlast : domain.items.runs.getLast? with
  | none =>
    rw [List.getLast?_eq_none_iff.1 hlast] at hrun
    cases hrun
  | some top =>
    obtain ⟨front, hruns⟩ := List.getLast?_eq_some_iff.1 hlast
    have hascend : (front ++ [top]).Pairwise fun r q => r.2 < q.2 :=
      hruns ▸ Flips.pairwise_runsOnto domain.items.ascending
    have hend : run.2 ≤ top.2 := by
      rw [hruns] at hrun
      rcases List.mem_append.1 hrun with hfront | htop
      · exact Nat.le_of_lt
          ((List.pairwise_append.1 hascend).2.2 run hfront top (List.mem_singleton.2 rfl))
      · rw [List.mem_singleton.1 htop]
    -- the last run ends below a flip, and flips do not go beyond the numbers that items have
    have hlimit : top.2 < ItemSet.limit := by
      have htop : top ∈ domain.items.runs :=
        hruns ▸ List.mem_append_right front (List.mem_singleton.2 rfl)
      obtain ⟨-, bound, hbound, heq⟩ := Flips.mem_runsOnto_bounds htop
      have hle : bound ≤ ItemSet.limit := domain.items.bounded bound hbound
      rw [heq]
      unfold ItemSet.limit at hle ⊢
      omega
    show item ≤ UInt32.ofNat top.2
    rw [UInt32.le_iff_toNat_le, UInt32.toNat_ofNat_of_lt' hlimit]
    exact Nat.le_trans hle hend

/-- The total is the number of items, or the highest number that it can be. -/
theorem toNat_totalItems (domain : Domain) :
    domain.totalItems.toNat = min domain.items.size (ItemSet.limit - 1) := by
  apply UInt32.toNat_ofNat_of_lt'
  exact Nat.lt_of_le_of_lt (Nat.min_le_right _ _) (by decide)

end Domain

/-! ## Checking them -/

namespace Selection

variable {s : Selection} {domain : Domain} {last item : ItemId}

/-- The places of the checked items that do not exist. -/
def strays (s : Selection) (domain : Domain) : Finset Nat :=
  s.flags.places \ domain.items.indices.toFinset

theorem mem_strays :
    item.toNat ∈ s.strays domain ↔ s.isChecked item = true ∧ item ∉ domain.items := by
  rw [strays, Finset.mem_sdiff, Flags.mem_places, List.mem_toFinset,
    ← ItemSet.contains_iff_mem_indices]
  exact Iff.rfl

/-- All checked items exist exactly if no place is that of a stray. -/
theorem strays_eq_empty_iff (h : s.Counts (last.toNat + 1)) :
    s.strays domain = ∅ ↔ ∀ item, s.isChecked item = true → item ∈ domain.items := by
  constructor
  · intro hempty item hchecked
    by_contra hmissing
    have hstray := mem_strays.2 ⟨hchecked, hmissing⟩
    rw [hempty] at hstray
    exact Finset.notMem_empty _ hstray
  · intro hexist
    refine Finset.eq_empty_of_forall_notMem fun place hplace => ?_
    -- a place with a flag is the number of an item
    have hset : s.flags.isSet place = true := Flags.mem_places.1 (Finset.mem_sdiff.1 hplace).1
    have hin : place < s.flags.size := by
      refine Nat.lt_of_not_le fun hout => ?_
      rw [Flags.isSet_of_size_le hout] at hset
      exact Bool.false_ne_true hset
    have hsize : s.flags.size = last.toNat + 1 := h.size
    have hlimit : place < UInt32.size := by
      rw [hsize] at hin
      exact Nat.lt_of_lt_of_le hin last.toNat_lt
    have hnat : (UInt32.ofNat place).toNat = place := UInt32.toNat_ofNat_of_lt' hlimit
    rw [← hnat] at hplace
    obtain ⟨hchecked, hmissing⟩ := mem_strays.1 hplace
    exact hmissing (hexist _ hchecked)

/-- What it is to check all items of a domain: they are checked beside those that were checked
before, and counted beside the strays. -/
structure ChecksExisting (domain : Domain) (s s' : Selection) : Prop where
  checked : ∀ item, s'.isChecked item = true ↔ item ∈ domain.items ∨ s.isChecked item = true
  count : s'.count = domain.items.size + (s.strays domain).card
  total : s'.count = domain.totalItems.toNat
    ↔ (∀ item, s.isChecked item = true → item ∈ domain.items) ∧ domain.items.size < ItemSet.limit

/-- Where all items of the domain have flags, their places join those of the flags that were set
before. -/
theorem places_checkAll (h : s.Counts (last.toNat + 1))
    (hlast : ∀ item ∈ domain.items, item ≤ last) :
    (s.checkAll domain).flags.places = s.flags.places ∪ domain.items.indices.toFinset := by
  have hsize : s.flags.size = last.toNat + 1 := h.size
  ext place
  show place ∈ (s.flags.setAll domain.items).places ↔ _
  rw [Flags.mem_places, Flags.isSet_setAll, Bool.and_eq_true, Bool.or_eq_true, decide_eq_true_iff,
    ← ItemSet.mem_indices, Finset.mem_union, Flags.mem_places, List.mem_toFinset]
  constructor
  · rintro ⟨-, hplace⟩
    exact hplace
  · intro hplace
    refine ⟨Nat.lt_of_not_le fun hout => ?_, hplace⟩
    rcases hplace with hset | hindex
    · rw [Flags.isSet_of_size_le hout] at hset
      exact Bool.false_ne_true hset
    · obtain ⟨item, hitem, rfl⟩ := (ItemSet.mem_indices_iff_exists _ _).1 hindex
      have hle := UInt32.le_iff_toNat_le.1 (hlast item hitem)
      omega

/-- Checking all items of a domain counts them and the strays. -/
theorem checksExisting_checkAll (h : s.Counts (last.toNat + 1))
    (hlast : ∀ item ∈ domain.items, item ≤ last) : ChecksExisting domain s (s.checkAll domain) := by
  have hplaces := places_checkAll h hlast
  have hcount : (s.checkAll domain).count = domain.items.size + (s.strays domain).card := by
    calc (s.checkAll domain).count
        = (s.flags.places ∪ domain.items.indices.toFinset).card := by
          rw [(h.checkAll domain).count, ← Flags.card_places, hplaces]
      _ = (s.strays domain).card + domain.items.indices.toFinset.card :=
          (Finset.card_sdiff_add_card _ _).symm
      _ = domain.items.size + (s.strays domain).card := by
          rw [ItemSet.card_indices, Nat.add_comm]
  constructor
  case checked =>
    intro item
    show (s.checkAll domain).flags.isSet item.toNat = true ↔ _
    rw [← Flags.mem_places, hplaces, Finset.mem_union, Flags.mem_places, List.mem_toFinset,
      ← ItemSet.contains_iff_mem_indices]
    exact or_comm
  case count => exact hcount
  case total =>
    rw [hcount, Domain.toNat_totalItems, ← strays_eq_empty_iff h, ← Finset.card_eq_zero]
    have hpositive : 0 < ItemSet.limit := by decide
    omega

/-- Of the items of a list each is counted once, whatever their order and however often they are
named. -/
theorem count_checkAll_ofItems (h : s.Counts (last.toNat + 1)) {items : List ItemId}
    (hlast : ∀ item ∈ (Domain.ofItems items).items, item ≤ last) :
    (s.checkAll (.ofItems items)).count
      = items.toFinset.card + (s.strays (.ofItems items)).card := by
  rw [(checksExisting_checkAll h hlast).count, Domain.size_ofItems]

/-- A dense domain leaves out no number of the universe, so there are no strays. -/
theorem count_checkAll_dense (h : s.Counts (last.toNat + 1)) :
    (s.checkAll (.dense last)).count = last.toNat + 1 := by
  have hlast : ∀ item ∈ (Domain.dense last).items, item ≤ last := fun _ => Domain.mem_dense.1
  have hstrays : s.strays (.dense last) = ∅ := by
    refine (strays_eq_empty_iff h).2 fun item hchecked => Domain.mem_dense.2 ?_
    rw [UInt32.le_iff_toNat_le]
    refine Nat.le_of_lt_succ (Nat.lt_of_not_le fun hout => ?_)
    rw [isChecked, Flags.isSet_of_size_le (h.size.trans_le hout)] at hchecked
    exact Bool.false_ne_true hchecked
  rw [(checksExisting_checkAll h hlast).count, hstrays, Domain.size_dense, Finset.card_empty,
    Nat.add_zero]

end Selection

/-! ## Stores -/

namespace Store

/-- Whatever has happened to a store, to check all items of its case is to check those that exist
beside those that were checked before. -/
theorem checksExisting_of_reachable {anything : Store → Machine → StoreOp → Prop} {s : Store}
    {m : Machine}
    (h : Reachable anything s m) : Selection.ChecksExisting s.domain s.state.selection
      (s.perform (.state .checkAll) m).1.2.state.selection :=
  Selection.checksExisting_checkAll (sound_of_reachable h).selection fun _ => Domain.le_lastId

/-- Of the items `0` to `7` three exist; another one has been checked, and stays so. -/
theorem checksExisting_of_reachable_sample :
    let machine : Machine := ⟨⟨[([], ⟨none, 0⟩)]⟩, 0, [], ⟨"/"⟩, 1, 0, []⟩
    let opened := (openCase (.ofItems [7, 2, 7, 0]) .default : StateM Machine _) machine
    let marked := opened.1.perform (.state (.setChecked 5 true)) opened.2
    let s := marked.1.2
    let all := (s.perform (.state .checkAll) marked.2).1.2
    Selection.ChecksExisting s.domain s.state.selection all.state.selection := by
  intro machine opened marked s all
  have hopened : Reachable (fun _ _ _ => True) opened.1 opened.2 :=
    .opened (.ofItems [7, 2, 7, 0]) .default machine
  have hmarked : Reachable (fun _ _ _ => True) s marked.2 := .performed _ hopened trivial
  exact checksExisting_of_reachable hmarked

/-- The count need not be the total number of items: an item that does not exist may have been
checked before, and the total cannot tell that all numbers are items. -/
theorem checkAll_counts_more_than_total :
    let machine : Machine := ⟨⟨[([], ⟨none, 0⟩)]⟩, 0, [], ⟨"/"⟩, 1, 0, []⟩
    let opened := (openCase (.ofItems [0, 2]) .default : StateM Machine _) machine
    let marked := opened.1.perform (.state (.setChecked 1 true)) opened.2
    let all := marked.1.2.perform (.state .checkAll) marked.2
    let full := (openCase (.dense 4294967295) .default : StateM Machine _) machine
    let whole := full.1.perform (.state .checkAll) full.2
    Reachable (fun _ _ _ => True) all.1.2 all.2 ∧ all.1.2.state.selection.count = 3
      ∧ all.1.2.domain.totalItems = 2
      ∧ Reachable (fun _ _ _ => True) whole.1.2 whole.2
      ∧ whole.1.2.state.selection.count = 4294967296
      ∧ whole.1.2.domain.totalItems = 4294967295 := by
  intro machine opened marked all full whole
  have hopened : Reachable (fun _ _ _ => True) opened.1 opened.2 :=
    .opened (.ofItems [0, 2]) .default machine
  have hmarked : Reachable (fun _ _ _ => True) marked.1.2 marked.2 := .performed _ hopened trivial
  have hfull : Reachable (fun _ _ _ => True) full.1 full.2 :=
    .opened (.dense 4294967295) .default machine
  refine ⟨.performed _ hmarked trivial, ?_, ?_, .performed _ hfull trivial, ?_, ?_⟩
  all_goals decide +kernel

end Store

end EvidenceTags
