import EvidenceTags.Proofs.SameTags

/-!
# The numbers of tags stay small

A new tag gets the lowest number that no live tag has. So its number is at most the number of the
live tags: the search for it stops at the first gap, and it passes one live tag for each number
below.

Deleting tags leaves gaps, and the highest numbers may be those of tags that are still live, so no
live state alone bounds its numbers. What does is the history: `Store.Grown` are the stores of runs
in which nothing is restored or loaded, with the largest number of tags that were live at once.
Every live tag has a number below it (`Store.numbers_dense`).
-/

namespace EvidenceTags

namespace Roster

/-- The search for a gap passes one tag for each number. -/
theorem firstGap_le (next : Nat) (l : List TagId) : firstGap next l ≤ next + l.length := by
  induction l generalizing next with
  | nil => exact Nat.le_refl next
  | cons tag rest ih =>
    unfold firstGap
    rw [List.length_cons]
    split
    · have hrest := ih (next + 1)
      omega
    · omega

theorem nextFree_le (r : Roster) : r.nextFree.value.toNat ≤ r.sets.keys.length := by
  have hgap := firstGap_le 0 r.sets.keys
  have hmod : r.nextFree.value.toNat ≤ firstGap 0 r.sets.keys := by
    rw [nextFree, UInt32.toNat_ofNat']
    exact Nat.mod_le _ _
  omega

end Roster

namespace CaseState

variable {s s' : CaseState}

/-- How many tags are live. -/
def tagCount (s : CaseState) : Nat := s.registry.names.size

theorem tagCount_eq_length (s : CaseState) : s.tagCount = s.registry.names.keys.length := by
  rw [tagCount, TagMap.size, TagMap.keys, List.length_map]

/-- A state with a tag more that was not live has more tags. -/
theorem tagCount_lt {tag : TagId} (hfree : s.registry.isLive tag = false)
    (hlive : s'.registry.isLive tag = true)
    (hkept : ∀ other, s.registry.isLive other = true → s'.registry.isLive other = true) :
    s.tagCount < s'.tagCount := by
  rw [tagCount_eq_length, tagCount_eq_length]
  have hnotMem : tag ∉ s.registry.names.keys := by
    rw [TagMap.mem_keys]
    exact Bool.not_eq_true _ ▸ hfree
  have hnodup : (tag :: s.registry.names.keys).Nodup := by
    refine List.nodup_cons.2 ⟨hnotMem, ?_⟩
    exact s.registry.names.keys_ascending.imp TagId.ne_of_lt
  have hsubset : tag :: s.registry.names.keys ⊆ s'.registry.names.keys := by
    intro other hother
    rcases List.mem_cons.1 hother with rfl | hother
    · exact TagMap.mem_keys.2 hlive
    · exact TagMap.mem_keys.2 (hkept other (TagMap.mem_keys.1 hother))
  exact (hnodup.subperm hsubset).length_le

/-- A new tag gets a number that is at most the number of the live tags. -/
theorem nextFree_le_tagCount (h : s.SameTags) : s.roster.nextFree.value.toNat ≤ s.tagCount := by
  have hkeys : s.roster.sets.keys = s.registry.names.keys := EvidenceTags.SameTags.keys_eq h
  rw [tagCount_eq_length, ← hkeys]
  exact s.roster.nextFree_le

/-- If a number is left, the new tag is the lowest one that is not live. -/
theorem nextFree_spec (h : s.SameTags) (hroom : s.tagCount < UInt32.size) :
    s.registry.isLive s.roster.nextFree = false
      ∧ ∀ lower, lower < s.roster.nextFree → s.registry.isLive lower = true := by
  have hlive (tag : TagId) : s.roster.isLive tag = s.registry.isLive tag := h tag
  rcases s.roster.isNext_nextFree with ⟨hfree, hlower⟩ | ⟨hall, -⟩
  · refine ⟨?_, ?_⟩
    · rw [← hlive]
      exact hfree
    · intro lower hlt
      rw [← hlive]
      exact hlower lower hlt
  · -- then all numbers are taken, and the search passes them all
    exfalso
    have hkeys : s.roster.sets.keys = s.registry.names.keys := EvidenceTags.SameTags.keys_eq h
    have hle := Roster.firstGap_le 0 s.roster.sets.keys
    rw [hkeys, ← tagCount_eq_length] at hle
    have hlt : Roster.firstGap 0 s.roster.sets.keys < UInt32.size := by
      rw [hkeys]
      exact Nat.lt_of_le_of_lt (by omega) hroom
    have hfree := Roster.isLive_of_eq_firstGap (UInt32.toNat_ofNat_of_lt' hlt)
    rw [hall] at hfree
    cases hfree

/-- If all live tags had numbers below a bound, they still have numbers below it or below the number
of tags that are live now. -/
theorem LiveChange.lt_max {op : Operation} (hchange : LiveChange s op s') (h : s.SameTags)
    {peak : Nat}
    (hpeak : ∀ tag, s.registry.isLive tag = true → tag.value.toNat < peak) {tag : TagId}
    (hlive : s'.registry.isLive tag = true) : tag.value.toNat < max peak s'.tagCount := by
  have hbefore (hold : s.registry.isLive tag = true) : tag.value.toNat < max peak s'.tagCount :=
    Nat.lt_of_lt_of_le (hpeak tag hold) (Nat.le_max_left _ _)
  cases hchange with
  | same _ hregistry =>
    rw [hregistry tag] at hlive
    exact hbefore hlive
  | gone old _ _ hregistry =>
    rw [hregistry tag, Bool.and_eq_true] at hlive
    exact hbefore hlive.2
  | made name _ _ _ hregistry =>
    cases hold : s.registry.isLive tag with
    | true => exact hbefore hold
    | false =>
      -- the tag is the new one, and it adds to the number of tags
      have hnew : tag = s.roster.nextFree := by
        rw [hregistry tag, hold, Bool.or_false] at hlive
        exact of_decide_eq_true hlive
      have hmore : s.tagCount < s'.tagCount := by
        refine tagCount_lt hold hlive ?_
        intro other hother
        rw [hregistry other, hother, Bool.or_true]
      have hle : tag.value.toNat ≤ s.tagCount := by
        rw [hnew]
        exact nextFree_le_tagCount h
      omega

end CaseState

namespace Store

/-- A store of a run in which nothing is restored, and nothing found to be loaded, with the largest
number of tags that were live at once so far. -/
inductive Grown : Store → Machine → Nat → Prop
  | opened (domain : Domain) (settings : Settings) (m : Machine) :
      Grown ((openCase domain settings : StateM Machine _) m).1
        ((openCase domain settings : StateM Machine _) m).2 0
  | performed {s : Store} {m : Machine} {peak : Nat} (op : StoreOp) (h : Grown s m peak)
      (hop : SourcesHave (fun _ => False) s m op) :
      Grown (s.perform op m).1.2 (s.perform op m).2 (max peak (s.perform op m).1.2.state.tagCount)
  | outside {s : Store} {m : Machine} {peak : Nat} (m' : Machine) (h : Grown s m peak) :
      Grown s m' peak

variable {s : Store} {m : Machine} {peak : Nat}

/-- One operation keeps the numbers below the peak, and the same tags in roster and registry. -/
theorem numbers_perform {op : StoreOp} (htags : s.state.SameTags)
    (hpeak : ∀ tag, s.state.registry.isLive tag = true → tag.value.toNat < peak)
    (hop : SourcesHave (fun _ => False) s m op) :
    (s.perform op m).1.2.state.SameTags
      ∧ ∀ tag, (s.perform op m).1.2.state.registry.isLive tag = true →
        tag.value.toNat < max peak (s.perform op m).1.2.state.tagCount := by
  have heffect := perform_effect s m op
  generalize (s.perform op m).1.2.state = state at heffect
  cases heffect with
  | none =>
    refine ⟨htags, ?_⟩
    intro tag htag
    exact Nat.lt_of_lt_of_le (hpeak tag htag) (Nat.le_max_left _ _)
  | state o ho =>
    subst ho
    have hrestore : ∀ snapshot, o ≠ .restore snapshot := by
      rintro snapshot rfl
      exact hop
    have hchange := CaseState.liveChange_perform s.state s.domain hrestore
    exact ⟨hchange.sameTags htags, fun tag => hchange.lt_max htags hpeak⟩
  | loadFrom path stored ho hholds =>
    subst ho
    exact (hop stored hholds).elim
  | load path stored ho hsource hholds =>
    subst ho
    exact (hop path stored hsource hholds).elim

theorem numbers_of_grown (h : Grown s m peak) :
    s.state.SameTags ∧ ∀ tag, s.state.registry.isLive tag = true → tag.value.toNat < peak := by
  induction h with
  | opened domain settings m =>
    rw [state_openCase]
    refine ⟨CaseState.sameTags_empty _, ?_⟩
    intro tag htag
    cases htag
  | performed op _ hop ih => exact numbers_perform ih.1 ih.2 hop
  | outside _ _ ih => exact ih

/-- In a run in which nothing is restored or loaded, a name that no tag has makes a tag that was not
live. Its number is at most the number of the live tags, and all lower tags are live. And at any
time all live tags have numbers below the largest number of tags that were live at once so far. -/
theorem numbers_dense (h : Grown s m peak) :
    (∀ name, (∀ tag, s.state.registry.names.get? tag ≠ some name) → s.state.tagCount < UInt32.size →
        ∃ tag, (s.perform (.state (.createTag name)) m).1.1 = .tag tag
          ∧ s.state.registry.isLive tag = false
          ∧ tag.value.toNat ≤ s.state.tagCount
          ∧ ∀ lower, lower < tag → s.state.registry.isLive lower = true)
      ∧ ∀ tag, s.state.registry.isLive tag = true → tag.value.toNat < peak := by
  rcases numbers_of_grown h with ⟨htags, hpeak⟩
  refine ⟨?_, hpeak⟩
  intro name hname hroom
  rcases CaseState.nextFree_spec htags hroom with ⟨hfree, hlower⟩
  refine ⟨s.state.roster.nextFree, ?_, hfree, CaseState.nextFree_le_tagCount htags, hlower⟩
  show Reply.tag (s.state.createTag name).1 = _
  rw [CaseState.createTag_of_free hname]

/-- Of two tags the first is deleted, and then another one is made, which gets its number. -/
theorem numbers_dense_sample :
    let machine : Machine := ⟨⟨[([], ⟨none, 0⟩)]⟩, 0, [], ⟨"/"⟩, 1, 0, []⟩
    let opened := (openCase (.dense 9) .default : StateM Machine _) machine
    let first := opened.1.perform (.state (.createTag "a")) opened.2
    let second := first.1.2.perform (.state (.createTag "b")) first.2
    let deleted := second.1.2.perform (.state (.deleteTag ⟨0⟩)) second.2
    let again := deleted.1.2.perform (.state (.createTag "c")) deleted.2
    (∃ tag, again.1.1 = .tag tag
        ∧ deleted.1.2.state.registry.isLive tag = false
        ∧ tag.value.toNat ≤ deleted.1.2.state.tagCount
        ∧ ∀ lower, lower < tag → deleted.1.2.state.registry.isLive lower = true)
      ∧ again.1.1 = .tag ⟨0⟩
      ∧ again.1.2.state.registry.isLive ⟨0⟩ = true
      ∧ ∀ tag, again.1.2.state.registry.isLive tag = true → tag.value.toNat < 2 := by
  intro machine opened first second deleted again
  have hopened : Grown opened.1 opened.2 0 := .opened (.dense 9) .default machine
  have hfirst : Grown first.1.2 first.2 _ := .performed _ hopened trivial
  have hsecond : Grown second.1.2 second.2 _ := .performed _ hfirst trivial
  have hdeleted : Grown deleted.1.2 deleted.2 _ := .performed _ hsecond trivial
  have hcount : max (max (max (max 0 first.1.2.state.tagCount) second.1.2.state.tagCount)
      deleted.1.2.state.tagCount) again.1.2.state.tagCount = 2 := by decide +kernel
  have hagain : Grown again.1.2 again.2 2 := hcount ▸ .performed _ hdeleted trivial
  have hfree : deleted.1.2.state.registry.idOf? "c" = none := by decide +kernel
  have hroom : deleted.1.2.state.tagCount < UInt32.size := by decide +kernel
  have hnew := (numbers_dense hdeleted).1 "c" (Registry.idOf?_eq_none_iff.1 hfree) hroom
  have hzero : (deleted.1.2.state.createTag "c").1 = ⟨0⟩ := by decide +kernel
  have hlive : again.1.2.state.registry.isLive ⟨0⟩ = true := by decide +kernel
  exact ⟨hnew, congrArg Reply.tag hzero, hlive, (numbers_dense hagain).2⟩

end Store

end EvidenceTags
