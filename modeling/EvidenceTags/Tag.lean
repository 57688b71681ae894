/-!
# Tags and items

Evidence items and tags are both named by dense 32-bit numbers. An item number is used as it is; a
tag number is wrapped, so that a tag can not be passed where an item is meant. Tags are compared by
their number, and every listing by tag is in that order.
-/

namespace EvidenceTags

/-- An evidence item inside the universe of a case. -/
abbrev ItemId := UInt32

/-- A tag. The number of a deleted tag may be given to a later one. -/
structure TagId where
  value : UInt32
deriving DecidableEq, Repr, Inhabited

namespace TagId

instance : LT TagId := ⟨fun a b => a.value < b.value⟩

instance (a b : TagId) : Decidable (a < b) :=
  inferInstanceAs (Decidable (a.value < b.value))

instance : ToString TagId := ⟨fun t => toString t.value.toNat⟩

theorem lt_irrefl (a : TagId) : ¬ a < a := UInt32.lt_irrefl a.value

theorem lt_trans {a b c : TagId} (hab : a < b) (hbc : b < c) : a < c :=
  UInt32.lt_trans hab hbc

theorem lt_asymm {a b : TagId} (h : a < b) : ¬ b < a := fun h' => lt_irrefl a (lt_trans h h')

theorem ne_of_lt {a b : TagId} (h : a < b) : a ≠ b := fun e => lt_irrefl b (e ▸ h)

/-- Any two tags are in order, equal, or in the reverse order. -/
theorem lt_or_eq_or_gt (a b : TagId) : a < b ∨ a = b ∨ b < a := by
  cases a with | mk a =>
  cases b with | mk b =>
  change a < b ∨ _ ∨ b < a
  rcases Nat.lt_trichotomy a.toNat b.toNat with h | h | h
  · exact .inl (UInt32.lt_iff_toNat_lt.2 h)
  · exact .inr (.inl (congrArg TagId.mk (UInt32.toNat_inj.1 h)))
  · exact .inr (.inr (UInt32.lt_iff_toNat_lt.2 h))

end TagId

end EvidenceTags
