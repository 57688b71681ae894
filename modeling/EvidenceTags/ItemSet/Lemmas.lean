import EvidenceTags.Flips.Lemmas
import EvidenceTags.ItemSet.Basic

/-!
# Laws of item sets

Every operation on an `ItemSet` is described by which items it contains: `contains_union`,
`contains_difference`, `contains_interval`, `contains_ofList`. A set has one representation, so sets
with the same items are equal (`ext_contains`). The runs and the indices of a set list its items in
ascending order (`mem_indices`, `pairwise_indices`), and `size` counts them (`size_eq_length`).
-/

namespace EvidenceTags

namespace ItemSet

open Flips

theorem toNat_lt_limit (item : ItemId) : item.toNat < limit := item.toNat_lt

@[simp] theorem contains_empty (item : ItemId) : (∅ : ItemSet).contains item = false := rfl

theorem contains_combine (f : Bool → Bool → Bool) (hf : f false false = false) (a b : ItemSet)
    (item : ItemId) :
    (combine f hf a b).contains item = f (a.contains item) (b.contains item) :=
  within_combine hf item.toNat a.ascending b.ascending

@[simp] theorem contains_union (a b : ItemSet) (item : ItemId) :
    (a ∪ b).contains item = (a.contains item || b.contains item) :=
  contains_combine _ rfl a b item

@[simp] theorem contains_difference (a b : ItemSet) (item : ItemId) :
    (a \ b).contains item = (a.contains item && !b.contains item) :=
  contains_combine _ rfl a b item

@[simp] theorem contains_inter (a b : ItemSet) (item : ItemId) :
    (a ∩ b).contains item = (a.contains item && b.contains item) :=
  contains_combine _ rfl a b item

theorem contains_interval (lo hi : Nat) (hhi : hi ≤ limit) (item : ItemId) :
    (interval lo hi).contains item = decide (lo ≤ item.toNat ∧ item.toNat < hi) := by
  unfold interval
  by_cases h : lo < hi
  · rw [dif_pos ⟨h, hhi⟩]
    simp only [contains, within]
    by_cases h1 : item.toNat < lo
    · simp [h1, Nat.not_le.2 h1]
    · by_cases h2 : item.toNat < hi <;> simp [h1, h2, Nat.not_lt.1 h1]
  · rw [dif_neg fun hc => h hc.1]
    exact (decide_eq_false (by omega)).symm

@[simp] theorem contains_singleton (i item : ItemId) :
    (singleton i).contains item = decide (item = i) := by
  unfold singleton
  rw [contains_interval _ _ (Nat.succ_le_of_lt (toNat_lt_limit i))]
  refine decide_eq_decide.2 ⟨fun h => UInt32.toNat_inj.1 (by omega), fun h => ?_⟩
  subst h
  omega

@[simp] theorem contains_upTo (last item : ItemId) :
    (upTo last).contains item = decide (item ≤ last) := by
  unfold upTo
  rw [contains_interval _ _ (Nat.succ_le_of_lt (toNat_lt_limit last))]
  refine decide_eq_decide.2 ?_
  rw [UInt32.le_iff_toNat_le]
  omega

theorem contains_foldl_union (counter : List (Option ItemSet)) (u : ItemSet) (item : ItemId) :
    (counter.foldl (fun u s => s.getD ∅ ∪ u) u).contains item
      = (counter.any (fun s => (s.getD ∅).contains item) || u.contains item) := by
  induction counter generalizing u with
  | nil => simp
  | cons s rest ih =>
    rw [List.foldl_cons, ih, contains_union, List.any_cons]
    cases (s.getD ∅).contains item <;> simp

theorem any_carry (s : ItemSet) (counter : List (Option ItemSet)) (item : ItemId) :
    (carry s counter).any (fun s => (s.getD ∅).contains item)
      = (s.contains item || counter.any (fun s => (s.getD ∅).contains item)) := by
  induction counter generalizing s with
  | nil => simp [carry]
  | cons t rest ih =>
    cases t with
    | none => simp [carry]
    | some t =>
      simp only [carry, List.any_cons, Option.getD_none, contains_empty, Bool.false_or, ih,
        contains_union, Option.getD_some]
      cases s.contains item <;> cases t.contains item <;> simp

@[simp] theorem contains_unionOf (sets : List ItemSet) (item : ItemId) :
    (unionOf sets).contains item = sets.any (·.contains item) := by
  suffices h : ∀ counter : List (Option ItemSet),
      (sets.foldl (fun counter s => carry s counter) counter).any
        (fun s => (s.getD ∅).contains item)
      = (sets.any (·.contains item) || counter.any (fun s => (s.getD ∅).contains item)) by
    rw [unionOf, contains_foldl_union, h []]
    simp
  intro counter
  induction sets generalizing counter with
  | nil => simp
  | cons s rest ih =>
    rw [List.foldl_cons, ih, any_carry, List.any_cons]
    cases s.contains item <;> simp

@[simp] theorem contains_ofList (items : List ItemId) (item : ItemId) :
    (ofList items).contains item = decide (item ∈ items) := by
  rw [ofList, contains_unionOf, List.any_map]
  induction items with
  | nil => simp
  | cons i rest ih =>
    rw [List.any_cons, ih]
    simp

/-- Nothing from `2 ^ 32` on is inside. -/
theorem within_of_limit_le (s : ItemSet) {x : Nat} (hx : limit ≤ x) :
    within false s.bounds x = false :=
  (within_of_le (fun b hb => Nat.le_trans (s.bounded b hb) hx) s.bounded).trans s.closed

/-- Sets with the same items are equal. -/
theorem ext_contains {a b : ItemSet} (h : ∀ item, a.contains item = b.contains item) : a = b := by
  have hb : a.bounds = b.bounds := by
    refine ext_within false a.ascending b.ascending fun x => ?_
    by_cases hx : x < limit
    · have := h (UInt32.ofNat x)
      rwa [contains, contains, UInt32.toNat_ofNat_of_lt' hx] at this
    · rw [within_of_limit_le a (Nat.not_lt.1 hx), within_of_limit_le b (Nat.not_lt.1 hx)]
  cases a
  cases b
  congr

theorem mem_union {a b : ItemSet} {item : ItemId} : item ∈ a ∪ b ↔ item ∈ a ∨ item ∈ b := by
  show (a ∪ b).contains item = true ↔ a.contains item = true ∨ b.contains item = true
  rw [contains_union, Bool.or_eq_true]

theorem union_comm (a b : ItemSet) : a ∪ b = b ∪ a := by
  refine ext_contains fun item => ?_
  rw [contains_union, contains_union, Bool.or_comm]

theorem union_assoc (a b c : ItemSet) : a ∪ b ∪ c = a ∪ (b ∪ c) := by
  refine ext_contains fun item => ?_
  simp only [contains_union, Bool.or_assoc]

/-- The runs cover exactly the items. -/
theorem contains_iff_runs (s : ItemSet) (item : ItemId) :
    s.contains item = true ↔ ∃ r ∈ s.runs, r.1 ≤ item.toNat ∧ item.toNat ≤ r.2 :=
  within_iff_runs s.ascending s.bounded s.closed

/-- The indices are exactly the numbers inside. -/
theorem mem_indices (s : ItemSet) (x : Nat) : x ∈ s.indices ↔ within false s.bounds x = true := by
  rw [within_iff_runs s.ascending s.bounded s.closed]
  simp only [indices, ItemSet.runs, Flips.runs, List.mem_flatMap, List.mem_range'_1]
  constructor
  · rintro ⟨r, hr, hx⟩
    exact ⟨r, hr, by omega, by omega⟩
  · rintro ⟨r, hr, hx⟩
    exact ⟨r, hr, by omega, by omega⟩

/-- Every index is the number of an item. -/
theorem lt_limit_of_mem_indices (s : ItemSet) {x : Nat} (h : x ∈ s.indices) : x < limit := by
  refine Nat.lt_of_not_le fun hx => ?_
  rw [mem_indices, within_of_limit_le s hx] at h
  exact Bool.false_ne_true h

theorem contains_iff_mem_indices (s : ItemSet) (item : ItemId) :
    s.contains item = true ↔ item.toNat ∈ s.indices :=
  (mem_indices s item.toNat).symm

/-- The indices are the numbers of the items. -/
theorem mem_indices_iff_exists (s : ItemSet) (x : Nat) :
    x ∈ s.indices ↔ ∃ item ∈ s, item.toNat = x := by
  constructor
  · intro hx
    have hnat : (UInt32.ofNat x).toNat = x :=
      UInt32.toNat_ofNat_of_lt' (s.lt_limit_of_mem_indices hx)
    refine ⟨UInt32.ofNat x, ?_, hnat⟩
    apply (s.contains_iff_mem_indices _).2
    rw [hnat]
    exact hx
  · rintro ⟨item, hitem, rfl⟩
    exact (s.contains_iff_mem_indices item).1 hitem

/-- The indices ascend strictly. -/
theorem pairwise_indices (s : ItemSet) : s.indices.Pairwise (· < ·) :=
  pairwise_indices_of s.ascending

/-- The size is the number of items. -/
theorem size_eq_length (s : ItemSet) : s.size = s.indices.length := runsSize_eq_length s.runs

end ItemSet

end EvidenceTags
