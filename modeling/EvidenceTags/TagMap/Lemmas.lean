import EvidenceTags.TagMap.Basic

/-!
# Laws of tag maps

Every operation on a `TagMap` is described by what `get?` reads afterwards: `get?_insert`,
`get?_erase`, `get?_ofList` and `get?_mapWithKey`; which tags have a value, `contains` tells. Since
a map has one representation, maps that read the same are equal (`ext_get?`).
-/

namespace EvidenceTags

namespace TagMap

variable {α β : Type}

@[simp] theorem get?_empty (tag : TagId) : (∅ : TagMap α).get? tag = none := rfl

theorem lookup_eq_none {tag : TagId} {l : List (TagId × α)} (h : ∀ e ∈ l, e.1 ≠ tag) :
    lookup tag l = none := by
  induction l with
  | nil => rfl
  | cons x rest ih =>
    have hx := h x List.mem_cons_self
    simp only [lookup, if_neg hx]
    exact ih fun e he => h e (List.mem_cons_of_mem _ he)

/-- Below the first tag of an ascending list, nothing is found in the rest. -/
theorem lookup_tail {x : TagId × α} {rest : List (TagId × α)} {tag : TagId}
    (h : (x :: rest).Pairwise (fun a b => a.1 < b.1)) (hle : tag < x.1 ∨ tag = x.1) :
    lookup tag rest = none := by
  refine lookup_eq_none fun e he heq => ?_
  have hlt := (List.pairwise_cons.1 h).1 e he
  rw [heq] at hlt
  rcases hle with hle | hle
  · exact TagId.lt_asymm hle hlt
  · exact TagId.lt_irrefl tag (hle ▸ hlt)

theorem lookup_eq_some_iff {tag : TagId} {value : α} {l : List (TagId × α)}
    (h : l.Pairwise (fun a b => a.1 < b.1)) : lookup tag l = some value ↔ (tag, value) ∈ l := by
  induction l with
  | nil => simp [lookup]
  | cons x rest ih =>
    have hrest := (List.pairwise_cons.1 h).2
    by_cases hx : x.1 = tag
    · have hnone := lookup_tail h (.inr hx.symm)
      have hnot : (tag, value) ∉ rest := fun hm => by
        rw [(ih hrest).2 hm] at hnone
        exact Option.some_ne_none _ hnone
      simp only [lookup, if_pos hx, List.mem_cons, hnot, or_false]
      constructor
      · intro hv
        rw [← hx, ← Option.some.inj hv]
      · intro hv
        rw [← hv]
    · simp only [lookup, if_neg hx, List.mem_cons, ih hrest]
      refine ⟨.inr, fun hm => hm.resolve_left fun he => hx ?_⟩
      rw [← he]

/-- The entries are the tags with their values. -/
theorem mem_entries {m : TagMap α} {tag : TagId} {value : α} :
    (tag, value) ∈ m.entries ↔ m.get? tag = some value :=
  (lookup_eq_some_iff m.ascending).symm

theorem mem_keys {m : TagMap α} {tag : TagId} : tag ∈ m.keys ↔ (m.get? tag).isSome := by
  simp only [keys, List.mem_map, Option.isSome_iff_exists, ← mem_entries]
  exact ⟨fun ⟨e, he, h⟩ => ⟨e.2, h ▸ he⟩, fun ⟨v, hv⟩ => ⟨(tag, v), hv, rfl⟩⟩

theorem keys_ascending (m : TagMap α) : m.keys.Pairwise (· < ·) :=
  List.pairwise_map.2 m.ascending

theorem lookup_place {tag key : TagId} {value : α} {l : List (TagId × α)}
    (h : l.Pairwise (fun a b => a.1 < b.1)) :
    lookup key (place tag value l) = if key = tag then some value else lookup key l := by
  induction l with
  | nil => simp [place, lookup, eq_comm]
  | cons x rest ih =>
    have hrest := (List.pairwise_cons.1 h).2
    unfold place
    split
    · rename_i hlt
      simp only [lookup, eq_comm]
    · rename_i hge
      split
      · rename_i heq
        simp only [lookup, ← heq, eq_comm (a := tag)]
        split <;> rfl
      · rename_i hne
        simp only [lookup, ih hrest]
        split
        · rename_i hx
          have hk : key ≠ tag := fun hk => hne (hk.symm.trans hx.symm)
          rw [if_neg hk]
        · rfl

/-- Reading after a write. -/
theorem get?_insert (m : TagMap α) (tag key : TagId) (value : α) :
    (m.insert tag value).get? key = if key = tag then some value else m.get? key :=
  lookup_place m.ascending

theorem lookup_filter {tag key : TagId} {l : List (TagId × α)} :
    lookup key (l.filter (·.1 ≠ tag)) = if key = tag then none else lookup key l := by
  induction l with
  | nil => simp [lookup]
  | cons x rest ih =>
    by_cases hx : x.1 = tag
    · rw [List.filter_cons_of_neg (by simp [hx]), ih]
      split
      · rfl
      · rename_i hk
        simp only [lookup]
        have hxk : x.1 ≠ key := fun hxk => hk (hxk.symm.trans hx)
        rw [if_neg hxk]
    · rw [List.filter_cons_of_pos (by simp [hx])]
      simp only [lookup, ih]
      split
      · rename_i hxk
        have hk : key ≠ tag := fun hk => hx (hxk.trans hk)
        rw [if_neg hk]
      · rfl

/-- Reading after a removal. -/
theorem get?_erase (m : TagMap α) (tag key : TagId) :
    (m.erase tag).get? key = if key = tag then none else m.get? key :=
  lookup_filter

theorem contains_eq_true_iff {m : TagMap α} {tag : TagId} :
    m.contains tag = true ↔ ∃ value, m.get? tag = some value :=
  Option.isSome_iff_exists

theorem contains_eq_false_iff {m : TagMap α} {tag : TagId} :
    m.contains tag = false ↔ m.get? tag = none :=
  Option.isSome_eq_false_iff.trans Option.isNone_iff_eq_none

@[simp] theorem contains_empty (tag : TagId) : (∅ : TagMap α).contains tag = false := rfl

@[simp] theorem contains_insert (m : TagMap α) (tag key : TagId) (value : α) :
    (m.insert tag value).contains key = (decide (key = tag) || m.contains key) := by
  rw [contains, contains, get?_insert]
  by_cases h : key = tag <;> simp [h]

@[simp] theorem contains_erase (m : TagMap α) (tag key : TagId) :
    (m.erase tag).contains key = (!decide (key = tag) && m.contains key) := by
  rw [contains, contains, get?_erase]
  by_cases h : key = tag <;> simp [h]

/-- Reading after every value was changed. -/
theorem get?_mapWithKey (f : TagId → α → β) (m : TagMap α) (tag : TagId) :
    (m.mapWithKey f).get? tag = (m.get? tag).map (f tag) := by
  unfold get? mapWithKey
  simp only
  induction m.entries with
  | nil => rfl
  | cons x rest ih =>
    simp only [List.map_cons, lookup, ih]
    split
    · rename_i hx
      rw [hx]
      rfl
    · rfl

theorem lookup_append {tag : TagId} {l r : List (TagId × α)} :
    lookup tag (l ++ r) = (lookup tag l).or (lookup tag r) := by
  induction l with
  | nil => rfl
  | cons x rest ih =>
    simp only [List.cons_append, lookup, ih]
    split <;> rfl

/-- Of several entries for a tag, the last one is read. -/
theorem get?_foldl_insert (l : List (TagId × α)) (m : TagMap α) (tag : TagId) :
    (l.foldl (fun m e => m.insert e.1 e.2) m).get? tag
      = (lookup tag l.reverse).or (m.get? tag) := by
  induction l generalizing m with
  | nil => rfl
  | cons e l ih =>
    rw [List.foldl_cons, ih, get?_insert, List.reverse_cons, lookup_append, Option.or_assoc]
    congr 1
    simp only [lookup, eq_comm (a := e.1)]
    split <;> rfl

/-- A map built from a list reads the last entry of each tag. -/
theorem get?_ofList (l : List (TagId × α)) (tag : TagId) :
    (ofList l).get? tag = lookup tag l.reverse := by
  rw [ofList, get?_foldl_insert, get?_empty, Option.or_none]

theorem entries_ext {a b : List (TagId × α)} (ha : a.Pairwise (fun x y => x.1 < y.1))
    (hb : b.Pairwise (fun x y => x.1 < y.1)) (h : ∀ tag, lookup tag a = lookup tag b) : a = b := by
  induction a generalizing b with
  | nil =>
    cases b with
    | nil => rfl
    | cons y b =>
      have := h y.1
      simp [lookup] at this
  | cons x a ih =>
    cases b with
    | nil =>
      have := h x.1
      simp [lookup] at this
    | cons y b =>
      have hfirst : x = y := by
        rcases TagId.lt_or_eq_or_gt x.1 y.1 with hlt | heq | hgt
        · have hx := h x.1
          simp only [lookup, if_true, if_neg (TagId.ne_of_lt hlt).symm] at hx
          rw [lookup_tail hb (.inl hlt)] at hx
          exact absurd hx (Option.some_ne_none _)
        · have hx := h x.1
          simp only [lookup, if_true, if_pos heq.symm, Option.some.injEq] at hx
          exact Prod.ext heq hx
        · have hy := h y.1
          simp only [lookup, if_true, if_neg (TagId.ne_of_lt hgt).symm] at hy
          rw [lookup_tail ha (.inl hgt)] at hy
          exact absurd hy.symm (Option.some_ne_none _)
      subst hfirst
      refine congrArg (x :: ·) (ih (List.pairwise_cons.1 ha).2 (List.pairwise_cons.1 hb).2 ?_)
      intro tag
      by_cases hx : x.1 = tag
      · rw [lookup_tail ha (.inr hx.symm), lookup_tail hb (.inr hx.symm)]
      · have := h tag
        simpa only [lookup, if_neg hx] using this

/-- Maps that read the same everywhere are equal. -/
theorem ext_get? {a b : TagMap α} (h : ∀ tag, a.get? tag = b.get? tag) : a = b := by
  cases a with | mk ea ha =>
  cases b with | mk eb hb =>
  congr
  exact entries_ext ha hb h

/-- What is not there need not be taken away. -/
theorem erase_of_not_contains {m : TagMap α} {tag : TagId} (h : m.contains tag = false) :
    m.erase tag = m := by
  refine ext_get? fun key => ?_
  rw [get?_erase]
  split
  · rename_i hkey
    rw [hkey, contains_eq_false_iff.1 h]
  · rfl

end TagMap

end EvidenceTags
