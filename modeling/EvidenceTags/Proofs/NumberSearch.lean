import EvidenceTags.Proofs.NewTags
import Mathlib.Logic.Relation
import Mathlib.Order.Bounds.Defs

/-!
# The search for the number of a new tag

The number of a new tag is found by a counter that goes along the live tags in ascending order. A
tag whose number is that of the counter is passed, and the counter goes up by one; at any other tag,
or behind the last one, the search is over (`NumberSearch.turn`). The counter has 32 bits, as the
numbers of tags have, so it may overflow. `Roster.nextFree` counts without such a limit instead.

What a count without a limit would find from here on is the same at every moment of the search
(`NumberSearch.goal_of_reaches`). So the counter overflows exactly if every number is taken
(`Roster.overflows_iff`). If a number is free, the search ends at the lowest one that is
(`Roster.search_finds_least`).
-/

namespace EvidenceTags

/-- A moment of the search: the counter, and the live tags that it has not passed. -/
structure NumberSearch where
  counter : UInt32
  ahead : List TagId

namespace NumberSearch

/-- What comes of one turn of the search. -/
inductive Turn where
  /-- No tag has the number of the counter. -/
  | found (tag : TagId)
  /-- The number is taken, and the next one is tried. -/
  | goesOn (next : NumberSearch)
  /-- The number is taken, and it was the last one. -/
  | overflows

/-- One turn of the search. -/
def turn (s : NumberSearch) : Turn :=
  match s.ahead with
  | [] => .found ⟨s.counter⟩
  | tag :: rest =>
    if tag.value ≠ s.counter then .found ⟨s.counter⟩
    else if s.counter.toNat + 1 < UInt32.size then .goesOn ⟨s.counter + 1, rest⟩
    else .overflows

/-- The search gets from one moment to another. -/
def Reaches : NumberSearch → NumberSearch → Prop :=
  Relation.ReflTransGen fun s next => s.turn = .goesOn next

/-- The number that is found from here on if the counter has no limit. -/
def goal (s : NumberSearch) : Nat := Roster.firstGap s.counter.toNat s.ahead

variable {s t : NumberSearch}

/-! ## One turn -/

/-- Everything that a turn can do. -/
inductive Turns (s : NumberSearch) : Turn → Prop
  | found (hfree : ∀ tag rest, s.ahead = tag :: rest → tag.value ≠ s.counter) :
      Turns s (.found ⟨s.counter⟩)
  | goesOn {tag : TagId} {rest : List TagId} (hahead : s.ahead = tag :: rest)
      (htaken : tag.value = s.counter) (hnext : (s.counter + 1).toNat = s.counter.toNat + 1) :
      Turns s (.goesOn ⟨s.counter + 1, rest⟩)
  | overflows {tag : TagId} {rest : List TagId} (hahead : s.ahead = tag :: rest)
      (htaken : tag.value = s.counter) (hlast : UInt32.size ≤ s.counter.toNat + 1) :
      Turns s .overflows

theorem turns (s : NumberSearch) : s.Turns s.turn := by
  unfold turn
  split
  · rename_i hahead
    refine .found ?_
    intro tag rest hcons
    rw [hahead] at hcons
    cases hcons
  · rename_i tag rest hahead
    split
    · rename_i hne
      refine .found ?_
      intro first rest' hcons
      rw [hahead] at hcons
      cases hcons
      exact hne
    · rename_i htaken
      split
      · rename_i hroom
        refine .goesOn hahead (not_not.1 htaken) ?_
        rw [UInt32.toNat_add]
        exact Nat.mod_eq_of_lt hroom
      · rename_i hlast
        exact .overflows hahead (not_not.1 htaken) (Nat.not_lt.1 hlast)

/-- The number of a tag that is passed is not the one that is looked for. -/
theorem goal_of_taken {tag : TagId} {rest : List TagId} (hahead : s.ahead = tag :: rest)
    (htaken : tag.value = s.counter) : s.goal = Roster.firstGap (s.counter.toNat + 1) rest := by
  rw [goal, hahead, Roster.firstGap, if_pos (congrArg UInt32.toNat htaken)]

theorem goal_of_goesOn (hturn : s.turn = .goesOn t) : t.goal = s.goal := by
  have hcases := s.turns
  rw [hturn] at hcases
  cases hcases with
  | goesOn hahead htaken hnext => rw [goal_of_taken hahead htaken, goal, hnext]

theorem goal_of_found {tag : TagId} (hturn : s.turn = .found tag) : tag.value.toNat = s.goal := by
  have hcases := s.turns
  rw [hturn] at hcases
  cases hcases with
  | found hfree =>
    rw [goal]
    cases hahead : s.ahead with
    | nil => rfl
    | cons first rest =>
      have hne : first.value.toNat ≠ s.counter.toNat := by
        intro heq
        exact hfree first rest hahead (UInt32.toNat_inj.1 heq)
      rw [Roster.firstGap, if_neg hne]

/-- Without a limit the counter would go on to a number that no tag has. -/
theorem size_le_goal (hturn : s.turn = .overflows) : UInt32.size ≤ s.goal := by
  have hcases := s.turns
  rw [hturn] at hcases
  cases hcases with
  | overflows hahead htaken hlast =>
    rw [goal_of_taken hahead htaken]
    exact Nat.le_trans hlast (Roster.le_firstGap _ _)

/-! ## The whole search -/

theorem goal_of_reaches (h : s.Reaches t) : t.goal = s.goal := by
  induction h with
  | refl => rfl
  | tail _ hturn ih => exact (goal_of_goesOn hturn).trans ih

/-- The counter counts the tags that are passed. -/
theorem passed_of_reaches (h : s.Reaches t) :
    t.counter.toNat + t.ahead.length = s.counter.toNat + s.ahead.length := by
  induction h with
  | refl => rfl
  | @tail t next _ hturn ih =>
    have hcases := t.turns
    rw [hturn] at hcases
    cases hcases with
    | @goesOn tag rest hahead _ hnext =>
      rw [hahead, List.length_cons] at ih
      show (t.counter + 1).toNat + rest.length = _
      omega

/-- The search comes to an end, since it passes a tag with every turn. -/
theorem exists_last (s : NumberSearch) : ∃ t, s.Reaches t ∧ ∀ next, t.turn ≠ .goesOn next := by
  rcases s with ⟨counter, ahead⟩
  induction ahead generalizing counter with
  | nil => exact ⟨⟨counter, []⟩, .refl, nofun⟩
  | cons tag rest ih =>
    by_cases hend : ∃ next, turn ⟨counter, tag :: rest⟩ = .goesOn next
    · rcases hend with ⟨next, hturn⟩
      have hcases := turns ⟨counter, tag :: rest⟩
      rw [hturn] at hcases
      cases hcases with
      | goesOn hahead _ _ =>
        cases hahead
        rcases ih (counter + 1) with ⟨t, hreaches, hlast⟩
        exact ⟨t, .head hturn hreaches, hlast⟩
    · exact ⟨_, .refl, not_exists.1 hend⟩

end NumberSearch

namespace Roster

variable {r : Roster} {s : NumberSearch} {tag : TagId}

/-- The search for the number of a new tag. -/
def numberSearch (r : Roster) : NumberSearch := ⟨0, r.sets.keys⟩

theorem goal_of_moment (h : r.numberSearch.Reaches s) : s.goal = firstGap 0 r.sets.keys :=
  NumberSearch.goal_of_reaches h

/-- What the search finds is the number of a new tag, and it is free. -/
theorem eq_nextFree_of_found (h : r.numberSearch.Reaches s) (hturn : s.turn = .found tag) :
    tag = r.nextFree ∧ r.isLive tag = false := by
  have hvalue : tag.value.toNat = firstGap 0 r.sets.keys :=
    (NumberSearch.goal_of_found hturn).trans (goal_of_moment h)
  constructor
  · rw [nextFree, ← hvalue, UInt32.ofNat_toNat]
  · exact isLive_of_eq_firstGap hvalue

/-- The counter overflows if every number is taken, and only then. -/
theorem overflows_iff : (∃ s, r.numberSearch.Reaches s ∧ s.turn = .overflows)
    ↔ ∀ tag, r.isLive tag = true := by
  constructor
  · rintro ⟨s, hreaches, hturn⟩ tag
    have hsize := NumberSearch.size_le_goal hturn
    rw [goal_of_moment hreaches] at hsize
    exact isLive_of_lt_firstGap (Nat.lt_of_lt_of_le tag.value.toNat_lt hsize)
  · intro hall
    rcases r.numberSearch.exists_last with ⟨s, hreaches, hlast⟩
    refine ⟨s, hreaches, ?_⟩
    cases hturn : s.turn with
    | found tag =>
      have hfree := (eq_nextFree_of_found hreaches hturn).2
      rw [hall tag] at hfree
      cases hfree
    | goesOn next => exact absurd hturn (hlast next)
    | overflows => rfl

/-- If a number is free, the search ends with the number of a new tag. Until then the counter is the
number of the tags that are passed, and never overflows. What is found is the lowest free number, so
that all numbers below are taken. -/
theorem search_finds_least (r : Roster) (hroom : ∃ tag, r.isLive tag = false) :
    (∃ s, r.numberSearch.Reaches s ∧ s.turn = .found r.nextFree)
      ∧ (∀ s, r.numberSearch.Reaches s →
        s.counter.toNat + s.ahead.length = r.sets.keys.length ∧ s.turn ≠ .overflows)
      ∧ IsLeast {number | r.isLive ⟨number⟩ = false} r.nextFree.value
      ∧ ∀ lower, lower < r.nextFree → r.isLive lower = true := by
  have hnotAll : ¬ ∀ tag, r.isLive tag = true := by
    rcases hroom with ⟨tag, hfree⟩
    intro hall
    rw [hall tag] at hfree
    cases hfree
  have hnever : ∀ s, r.numberSearch.Reaches s → s.turn ≠ .overflows := by
    intro s hreaches hturn
    exact hnotAll (overflows_iff.1 ⟨s, hreaches, hturn⟩)
  rcases r.isNext_nextFree with ⟨hfree, hlower⟩ | ⟨hall, -⟩
  · refine ⟨?_, ?_, ⟨hfree, ?_⟩, hlower⟩
    · rcases r.numberSearch.exists_last with ⟨s, hreaches, hlast⟩
      refine ⟨s, hreaches, ?_⟩
      cases hturn : s.turn with
      | found tag => rw [(eq_nextFree_of_found hreaches hturn).1]
      | goesOn next => exact absurd hturn (hlast next)
      | overflows => exact absurd hturn (hnever s hreaches)
    · intro s hreaches
      refine ⟨?_, hnever s hreaches⟩
      rw [NumberSearch.passed_of_reaches hreaches]
      exact Nat.zero_add _
    · intro number hnumber
      apply UInt32.not_lt.1
      intro hlt
      have hlive : r.isLive ⟨number⟩ = true := hlower ⟨number⟩ hlt
      rw [hnumber] at hlive
      cases hlive
  · exact absurd hall hnotAll

/-- The tags `0`, `1` and `3` are live, and so is the one with the highest number. -/
theorem search_finds_least_sample :
    let r : Roster := .ofSets (TagMap.ofList
      [(⟨4294967295⟩, ∅), (⟨3⟩, ∅), (⟨0⟩, ∅), (⟨1⟩, ∅)])
    r.isLive ⟨7⟩ = false
      ∧ (∃ s, r.numberSearch.Reaches s ∧ s.turn = .found ⟨2⟩)
      ∧ (∀ s, r.numberSearch.Reaches s → s.counter.toNat + s.ahead.length = 4 ∧ s.turn ≠ .overflows)
      ∧ IsLeast {number | r.isLive ⟨number⟩ = false} 2
      ∧ ∀ lower, lower < ⟨2⟩ → r.isLive lower = true := by
  intro r
  have hfree : r.isLive ⟨7⟩ = false := by decide
  have hnext : r.nextFree = ⟨2⟩ := by decide
  have hfinds := search_finds_least r ⟨⟨7⟩, hfree⟩
  rw [hnext] at hfinds
  exact ⟨hfree, hfinds⟩

end Roster

end EvidenceTags
