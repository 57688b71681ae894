import EvidenceTags.Tag

/-!
# Maps keyed by tags

A `TagMap` holds at most one value per tag, as a list of entries in strictly ascending order of the
tag. The order is an invariant of the type, so a map has one representation only: two maps with the
same value for every tag are equal (`TagMap.ext_get?`, beside the other laws of reading after a
write in `EvidenceTags.TagMap.Lemmas`). Listings by tag are the list of entries as it stands.
-/

namespace EvidenceTags

/-- A finite map from tags, its entries in strictly ascending order. -/
structure TagMap (α : Type) where
  entries : List (TagId × α)
  ascending : entries.Pairwise (fun a b => a.1 < b.1)

namespace TagMap

variable {α β : Type}

instance [DecidableEq α] : DecidableEq (TagMap α) := fun a b =>
  decidable_of_iff (a.entries = b.entries) (by cases a; cases b; simp)

/-- The map without entries. -/
def empty : TagMap α := ⟨[], .nil⟩

instance : EmptyCollection (TagMap α) := ⟨empty⟩

instance : Inhabited (TagMap α) := ⟨empty⟩

/-- The value of `tag` in a list of entries. -/
def lookup (tag : TagId) : List (TagId × α) → Option α
  | [] => none
  | (key, value) :: rest => if key = tag then some value else lookup tag rest

/-- The value of `tag`. -/
def get? (m : TagMap α) (tag : TagId) : Option α := lookup tag m.entries

/-- Whether `tag` has a value. -/
def contains (m : TagMap α) (tag : TagId) : Bool := (m.get? tag).isSome

/-- Puts an entry in its place, over any earlier entry of its tag. -/
def place (tag : TagId) (value : α) : List (TagId × α) → List (TagId × α)
  | [] => [(tag, value)]
  | (key, old) :: rest =>
    if tag < key then (tag, value) :: (key, old) :: rest
    else if tag = key then (tag, value) :: rest
    else (key, old) :: place tag value rest

theorem mem_place {tag : TagId} {value : α} {l : List (TagId × α)} {e : TagId × α}
    (h : e ∈ place tag value l) : e = (tag, value) ∨ e ∈ l := by
  induction l with
  | nil => exact .inl (List.mem_singleton.1 h)
  | cons x rest ih =>
    unfold place at h
    split at h
    · exact List.mem_cons.1 h
    · split at h
      · exact (List.mem_cons.1 h).imp_right (List.mem_cons_of_mem _)
      · rcases List.mem_cons.1 h with h | h
        · exact .inr (h ▸ List.mem_cons_self)
        · exact (ih h).imp_right (List.mem_cons_of_mem _)

theorem ascending_place (tag : TagId) (value : α) {l : List (TagId × α)}
    (h : l.Pairwise (fun a b => a.1 < b.1)) :
    (place tag value l).Pairwise (fun a b => a.1 < b.1) := by
  induction l with
  | nil => exact List.pairwise_singleton _ _
  | cons x rest ih =>
    obtain ⟨hx, hrest⟩ := List.pairwise_cons.1 h
    unfold place
    split
    · rename_i hlt
      refine List.pairwise_cons.2 ⟨fun e he => ?_, h⟩
      rcases List.mem_cons.1 he with rfl | he
      · exact hlt
      · exact TagId.lt_trans hlt (hx e he)
    · rename_i hge
      split
      · rename_i heq
        exact List.pairwise_cons.2 ⟨fun e he => heq ▸ hx e he, hrest⟩
      · rename_i hne
        refine List.pairwise_cons.2 ⟨fun e he => ?_, ih hrest⟩
        rcases mem_place he with rfl | he
        · exact ((TagId.lt_or_eq_or_gt tag x.1).resolve_left hge).resolve_left hne
        · exact hx e he

/-- Gives `tag` the value `value`. -/
def insert (m : TagMap α) (tag : TagId) (value : α) : TagMap α :=
  ⟨place tag value m.entries, ascending_place tag value m.ascending⟩

/-- Drops the entry of `tag`, if there is one. -/
def erase (m : TagMap α) (tag : TagId) : TagMap α :=
  ⟨m.entries.filter (·.1 ≠ tag), m.ascending.filter _⟩

/-- The map of a list of entries in any order. Of several entries for a tag the last counts. -/
def ofList (l : List (TagId × α)) : TagMap α :=
  l.foldl (fun m e => m.insert e.1 e.2) ∅

/-- The tags that have a value, ascending. -/
def keys (m : TagMap α) : List TagId := m.entries.map (·.1)

/-- The values, in the order of their tags. -/
def values (m : TagMap α) : List α := m.entries.map (·.2)

/-- Number of entries. -/
def size (m : TagMap α) : Nat := m.entries.length

/-- Changes every value by a function of the tag and the value. -/
def mapWithKey (f : TagId → α → β) (m : TagMap α) : TagMap β :=
  ⟨m.entries.map (fun e => (e.1, f e.1 e.2)), List.pairwise_map.2 m.ascending⟩

end TagMap

/-- A finite set of tags: a map that says nothing beyond its keys. -/
abbrev TagSet := TagMap Unit

end EvidenceTags
