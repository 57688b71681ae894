import EvidenceTags.Proofs.Run
import EvidenceTags.Proofs.SoundState

/-!
# A snapshot determines all that can be observed

The state of a case holds more than a snapshot of it says: the union of all sets may be known or
not. No question can tell, since a union that is known is the right one.

* `CaseState.perform_withKnown` is the step lemma: if only what is known of the union differs, an
  operation answers alike, and only what is known of the union differs afterwards.
* `Store.alike_of_snapshot_eq` follows for runs: stores of one case with equal snapshots can not be
  told apart, whatever happened to them before, and neither can stores into which one snapshot has
  been restored.
-/

namespace EvidenceTags

namespace Roster

/-! ## Changes that do not look at the union -/

theorem insertTag_mk (r : Roster) (known : Option ItemSet) (tag : TagId) :
    (Roster.mk r.sets known).insertTag tag = ⟨(r.insertTag tag).sets, known⟩ := by
  unfold insertTag isLive
  split <;> rfl

theorem exists_removeTag_mk (r : Roster) (known : Option ItemSet) (tag : TagId) :
    ∃ known', ((Roster.mk r.sets known).removeTag tag).2 = ⟨(r.removeTag tag).2.sets, known'⟩ := by
  unfold removeTag
  cases r.sets.get? tag with
  | none => exact ⟨known, rfl⟩
  | some set => exact ⟨_, rfl⟩

theorem addMembers_mk (r : Roster) (known : Option ItemSet) (tag : TagId) (items : ItemSet) :
    (Roster.mk r.sets known).addMembers tag items
      = (r.addMembers tag items).map fun r' => ⟨r'.sets, known.map (· ∪ items)⟩ := by
  unfold addMembers
  cases r.sets.get? tag <;> rfl

theorem removeMembers_mk (r : Roster) (known : Option ItemSet) (tag : TagId) (items : ItemSet) :
    (Roster.mk r.sets known).removeMembers tag items
      = (r.removeMembers tag items).map fun r' => ⟨r'.sets, none⟩ := by
  unfold removeMembers
  cases r.sets.get? tag <;> rfl

/-! ## Questions about the union -/

variable {r : Roster} {known : Option ItemSet}

theorem union_mk (h : r.CacheSound) (hknown : (Roster.mk r.sets known).CacheSound) :
    (Roster.mk r.sets known).union = r.union := by
  rw [union_eq_recomputed h, union_eq_recomputed hknown]
  rfl

theorem inAny_mk (h : r.CacheSound) (hknown : (Roster.mk r.sets known).CacheSound) (item : ItemId) :
    (Roster.mk r.sets known).inAny item = r.inAny item := by
  rw [← inAny_forget h, ← inAny_forget hknown]
  rfl

end Roster

namespace CaseState

/-- The same state with another memory of the union. -/
def withKnown (s : CaseState) (known : Option ItemSet) : CaseState :=
  { s with roster := ⟨s.roster.sets, known⟩ }

/-- The replies are equal, and only what is known of the union differs afterwards. -/
def Matches (a b : Reply × CaseState) : Prop := a.1 = b.1 ∧ ∃ known, a.2 = b.2.withKnown known

variable {s : CaseState} {known : Option ItemSet}

theorem matches_addMembers (items : ItemSet) (tag : TagId) :
    Matches ((s.withKnown known).settle ((s.withKnown known).addMembers tag items))
      (s.settle (s.addMembers tag items)) := by
  unfold addMembers
  show Matches ((s.withKnown known).settle
    (((Roster.mk s.roster.sets known).addMembers tag items).map _)) _
  rw [Roster.addMembers_mk]
  cases s.roster.addMembers tag items with
  | ok r' => exact ⟨rfl, _, rfl⟩
  | error e => exact ⟨rfl, known, rfl⟩

theorem matches_removeMembers (items : ItemSet) (tag : TagId) :
    Matches ((s.withKnown known).settle ((s.withKnown known).removeMembers tag items))
      (s.settle (s.removeMembers tag items)) := by
  unfold removeMembers
  show Matches ((s.withKnown known).settle
    (((Roster.mk s.roster.sets known).removeMembers tag items).map _)) _
  rw [Roster.removeMembers_mk]
  cases s.roster.removeMembers tag items with
  | ok r' => exact ⟨rfl, none, rfl⟩
  | error e => exact ⟨rfl, known, rfl⟩

theorem matches_changeRegistry (change : Registry → Except StoreError Registry) :
    Matches ((s.withKnown known).settle ((s.withKnown known).changeRegistry change))
      (s.settle (s.changeRegistry change)) := by
  unfold changeRegistry
  show Matches ((s.withKnown known).settle ((change s.registry).map _)) _
  cases change s.registry with
  | ok r' => exact ⟨rfl, known, rfl⟩
  | error e => exact ⟨rfl, known, rfl⟩

/-- The number of a new tag is read off the sets. -/
theorem createTag_withKnown (s : CaseState) (known : Option ItemSet) (name : String) :
    (s.withKnown known).createTag name
      = ((s.createTag name).1, (s.createTag name).2.withKnown known) := by
  have hname : (s.withKnown known).registry.idOf? name = s.registry.idOf? name := rfl
  unfold createTag
  rw [hname]
  cases s.registry.idOf? name with
  | some tag => rfl
  | none =>
    have hinsert : (s.withKnown known).roster.insertTag s.roster.nextFree
        = ⟨(s.roster.insertTag s.roster.nextFree).sets, known⟩ :=
      Roster.insertTag_mk s.roster known s.roster.nextFree
    refine Prod.ext rfl ?_
    show CaseState.mk ((s.withKnown known).roster.insertTag s.roster.nextFree) _ _ _ = _
    rw [hinsert]
    rfl

theorem addTypedWord_withKnown (word : String) : (s.withKnown known).addTypedWord word
    = ((s.addTypedWord word).1, (s.addTypedWord word).2.withKnown known) := by
  have hwords : (s.withKnown known).typedWords = s.typedWords := rfl
  unfold addTypedWord
  rw [hwords]
  split <;> rfl

/-- If only what is known of the union differs, every operation answers alike. -/
theorem perform_withKnown (h : s.roster.CacheSound)
    (hknown : (s.withKnown known).roster.CacheSound) (domain : Domain) (op : Operation) :
    Matches ((s.withKnown known).perform domain op) (s.perform domain op) := by
  have hunion : (s.withKnown known).roster.union = s.roster.union := Roster.union_mk h hknown
  cases op with
  | createTag name =>
    have hcreate := createTag_withKnown s known name
    have htag : ((s.withKnown known).createTag name).1 = (s.createTag name).1 := by
      rw [hcreate]
    exact ⟨congrArg Reply.tag htag, known, congrArg Prod.snd hcreate⟩
  | deleteTag tag =>
    obtain ⟨known', hremove⟩ := Roster.exists_removeTag_mk s.roster known tag
    refine ⟨rfl, known', ?_⟩
    show CaseState.mk ((Roster.mk s.roster.sets known).removeTag tag).2 _ _ _ = _
    rw [hremove]
    rfl
  | addMembers items tag => exact matches_addMembers _ tag
  | removeMembers items tag => exact matches_removeMembers _ tag
  | hasAnyTag item =>
    have hany : (s.withKnown known).roster.inAny item = s.roster.inAny item :=
      Roster.inAny_mk h hknown item
    refine ⟨?_, known, rfl⟩
    show Reply.truth ((s.withKnown known).roster.inAny item) = _
    rw [hany]
    rfl
  | unionAll =>
    refine ⟨?_, some (s.withKnown known).roster.union, rfl⟩
    show Reply.items (s.withKnown known).roster.union = _
    rw [hunion]
    rfl
  | unionOfOrUntagged names =>
    refine ⟨?_, some (s.withKnown known).roster.union, rfl⟩
    show Reply.items (s.unionOf names
      ∪ (ItemSet.upTo domain.lastId \ (s.withKnown known).roster.union)) = _
    rw [hunion]
    rfl
  | filterByTagsOrUntagged hits names =>
    refine ⟨?_, some (s.withKnown known).roster.union, rfl⟩
    show Reply.hits (hits.retainIn (s.unionOf names
      ∪ (ItemSet.upTo domain.lastId \ (s.withKnown known).roster.union))) = _
    rw [hunion]
    rfl
  | filterUntagged hits =>
    refine ⟨?_, some (s.withKnown known).roster.union, rfl⟩
    show Reply.hits (hits.retainNotIn (s.withKnown known).roster.union) = _
    rw [hunion]
    rfl
  | setComment tag comment => exact matches_changeRegistry (·.setComment tag comment)
  | setKeyBinding tag key => exact matches_changeRegistry (·.setKeyBinding tag key)
  | setColor tag color => exact matches_changeRegistry (·.setColor tag color)
  | setInReport tag value => exact matches_changeRegistry (·.setInReport tag value)
  | addTypedWord word =>
    exact ⟨rfl, known, congrArg Prod.snd (addTypedWord_withKnown word)⟩
  | restore snapshot =>
    -- the union of what is restored is not known in either case
    exact ⟨rfl, none, rfl⟩
  -- all else does not come near the union
  | _ => exact ⟨rfl, known, rfl⟩

/-! ## States with equal snapshots -/

/-- Sound states with equal snapshots differ at most in what is known of the union. -/
theorem eq_withKnown_of_snapshot_eq {t : CaseState} {last : ItemId} (hs : s.Sound last)
    (ht : t.Sound last) (h : s.snapshot = t.snapshot) : t = s.withKnown t.roster.known := by
  have hflags : s.selection.flags = t.selection.flags := congrArg SavedState.checked h
  have hsets : s.roster.sets = t.roster.sets := congrArg SavedState.members h
  have hregistry : s.registry = t.registry := congrArg SavedState.registry h
  have hwords : s.typedWords = t.typedWords := congrArg SavedState.typedWords h
  -- the counts are those of the flags, and nothing else is left to differ
  have hcount : s.selection.count = t.selection.count := by
    rw [hs.selection.count, ht.selection.count, hflags]
  have hselection : s.selection = t.selection := by
    rcases hselected : s.selection with ⟨flags, count⟩
    rcases hselected' : t.selection with ⟨flags', count'⟩
    rw [hselected, hselected'] at hflags hcount
    rw [show flags = flags' from hflags, show count = count' from hcount]
  rcases t with ⟨⟨sets, known⟩, registry, selection, words⟩
  rcases s with ⟨⟨sets', known'⟩, registry', selection', words'⟩
  subst hsets hregistry hwords hselection
  rfl

/-- On sound states with equal snapshots every operation answers alike, and the snapshots are equal
afterwards. -/
theorem perform_of_snapshot_eq {t : CaseState} {last : ItemId} (hs : s.Sound last)
    (ht : t.Sound last) (h : s.snapshot = t.snapshot) (domain : Domain) (op : Operation) :
    (s.perform domain op).1 = (t.perform domain op).1
      ∧ (s.perform domain op).2.snapshot = (t.perform domain op).2.snapshot := by
  have heq := eq_withKnown_of_snapshot_eq hs ht h
  have hcache := ht.cache
  rw [heq] at hcache
  obtain ⟨hreply, known, hstate⟩ := perform_withKnown hs.cache hcache domain op
  rw [← heq] at hreply hstate
  refine ⟨hreply.symm, ?_⟩
  rw [hstate]
  rfl

end CaseState

namespace Store

/-! ## Runs of stores -/

/-- Carries out an operation on the state of a store on a machine. -/
def exec (op : Operation) (p : Store × Machine) : Reply × (Store × Machine) :=
  let result := p.1.perform (.state op) p.2
  (result.1.1, result.1.2, result.2)

/-- A store answers as its state does. -/
theorem reply_exec (op : Operation) (p : Store × Machine) :
    (exec op p).1 = (p.1.state.perform p.1.domain op).1 := by
  cases op <;> rfl

theorem state_exec (op : Operation) (p : Store × Machine) :
    (exec op p).2.1.state = (p.1.state.perform p.1.domain op).2 := by
  cases op with
  | addTypedWord word => exact state_addTypedWord p.1 p.2 word
  | restore snapshot => exact state_restore p.1 p.2 snapshot
  | _ => rfl

theorem domain_exec (op : Operation) (p : Store × Machine) :
    (exec op p).2.1.domain = p.1.domain := (continues_perform p.1 p.2 (.state op)).domain

theorem lastId_exec (op : Operation) (p : Store × Machine) :
    (exec op p).2.1.lastId = p.1.lastId := by
  rw [lastId, domain_exec, lastId]

theorem sound_exec {p : Store × Machine} (h : p.1.state.Sound p.1.lastId) (op : Operation) :
    (exec op p).2.1.state.Sound (exec op p).2.1.lastId :=
  sound_store_perform h p.2 (.state op)

/-- What operations on the state lead to can be reached. -/
theorem reachable_run {admits : Store → Machine → StoreOp → Prop} (hall : ∀ s m op, admits s m op)
    (ops : List Operation) {p : Store × Machine} (h : Reachable admits p.1 p.2) :
    Reachable admits (run exec ops p).2.1 (run exec ops p).2.2 := by
  have hstep : ∀ op (p : Store × Machine), Reachable admits p.1 p.2 →
      Reachable admits (exec op p).2.1 (exec op p).2.2 := by
    intro op p hp
    exact .performed (.state op) hp (hall p.1 p.2 (.state op))
  exact run_invariant hstep ops h

theorem domain_run (ops : List Operation) (p : Store × Machine) :
    (run exec ops p).2.1.domain = p.1.domain := by
  have hstep : ∀ op (q : Store × Machine), q.1.domain = p.1.domain →
      (exec op q).2.1.domain = p.1.domain := by
    intro op q hq
    rw [domain_exec, hq]
  exact run_invariant hstep ops rfl

theorem sound_run (ops : List Operation) {p : Store × Machine} (h : p.1.state.Sound p.1.lastId) :
    (run exec ops p).2.1.state.Sound p.1.domain.lastId := by
  have hstep : ∀ op (q : Store × Machine), q.1.state.Sound q.1.lastId →
      (exec op q).2.1.state.Sound (exec op q).2.1.lastId := by
    intro op q hq
    exact sound_exec hq op
  have hrun := run_invariant hstep ops h
  rwa [lastId, domain_run] at hrun

/-- No operations can tell two stores apart: all answers are the same, and so are the snapshots in
the end. -/
def Alike (p q : Store × Machine) : Prop :=
  ∀ ops, (run exec ops p).1 = (run exec ops q).1
    ∧ (run exec ops p).2.1.state.snapshot = (run exec ops q).2.1.state.snapshot

/-- What has to be equal for stores to be alike. -/
structure Corresponds (p q : Store × Machine) : Prop where
  domain : p.1.domain = q.1.domain
  left : p.1.state.Sound p.1.lastId
  right : q.1.state.Sound p.1.lastId
  snapshot : p.1.state.snapshot = q.1.state.snapshot

theorem corresponds_exec {p q : Store × Machine} (h : Corresponds p q) (op : Operation) :
    (exec op p).1 = (exec op q).1 ∧ Corresponds (exec op p).2 (exec op q).2 := by
  have halike := CaseState.perform_of_snapshot_eq h.left h.right h.snapshot p.1.domain op
  have hlast := lastId_exec op p
  constructor
  · rw [reply_exec, reply_exec, ← h.domain]
    exact halike.1
  · constructor
    · rw [domain_exec, domain_exec, h.domain]
    · rw [state_exec, hlast]
      exact CaseState.sound_perform h.left rfl op
    · rw [state_exec, hlast, ← h.domain]
      exact CaseState.sound_perform h.right rfl op
    · rw [state_exec, state_exec, ← h.domain]
      exact halike.2

theorem alike_of_corresponds {p q : Store × Machine} (h : Corresponds p q) : Alike p q := by
  intro ops
  have hstep : ∀ op p q, Corresponds p q →
      (exec op p).1 = (exec op q).1 ∧ Corresponds (exec op p).2 (exec op q).2 := by
    intro op p q hpq
    exact corresponds_exec hpq op
  obtain ⟨hanswers, hlast⟩ := run_simulation hstep ops h
  exact ⟨hanswers, hlast.snapshot⟩

/-- Stores of one case with equal snapshots are alike, whatever led to them; and so are any two
stores of the case after one and the same snapshot has been restored into both. -/
theorem alike_of_snapshot_eq {anything : Store → Machine → StoreOp → Prop} {p q : Store × Machine}
    (hp : Reachable anything p.1 p.2) (hq : Reachable anything q.1 q.2)
    (hdomain : p.1.domain = q.1.domain) :
    (p.1.state.snapshot = q.1.state.snapshot → Alike p q)
      ∧ ∀ snapshot, Alike (exec (.restore snapshot) p).2 (exec (.restore snapshot) q).2 := by
  have hlast : q.1.lastId = p.1.lastId := by
    rw [lastId, ← hdomain, lastId]
  have hsound : q.1.state.Sound p.1.lastId := hlast ▸ sound_of_reachable hq
  constructor
  · intro hsnapshot
    exact alike_of_corresponds ⟨hdomain, sound_of_reachable hp, hsound, hsnapshot⟩
  · intro snapshot
    apply alike_of_corresponds
    constructor
    · rw [domain_exec, domain_exec, hdomain]
    · rw [state_exec, lastId, domain_exec]
      exact CaseState.sound_ofSnapshot p.1.domain.lastId snapshot
    · rw [state_exec, lastId, domain_exec, hdomain]
      exact CaseState.sound_ofSnapshot q.1.domain.lastId snapshot
    · -- what a state becomes by a snapshot does not depend on what it was
      rw [state_exec, state_exec, hdomain]
      rfl

/-- One store knows the union of its tags, and the other has used the number of the tag before. A
snapshot makes the first one like the store at its beginning, which differs from it. -/
theorem alike_of_snapshot_eq_sample :
    let machine : Machine := ⟨⟨[([], ⟨none, 0⟩)]⟩, 0, [], ⟨"/"⟩, 1, 0, []⟩
    let opened := (openCase (.dense 3) .default : StateM Machine _) machine
    let s := (run exec [.createTag "a", .addMembers [2, 3] ⟨0⟩, .unionAll] opened).2
    let t := (run exec [.createTag "b", .addMembers [1] ⟨0⟩, .deleteTag ⟨0⟩, .createTag "a",
      .addMembers [3, 2] ⟨0⟩] opened).2
    let other := ((CaseState.empty 3).createTag "c").2.snapshot
    (s.1.state ≠ t.1.state ∧ s.1.state.snapshot = t.1.state.snapshot ∧ Alike s t)
      ∧ s.1.state.snapshot ≠ opened.1.state.snapshot
      ∧ Alike (exec (.restore other) s).2 (exec (.restore other) opened).2 := by
  intro machine opened s t other
  have hopened : Reachable (fun _ _ _ => True) opened.1 opened.2 :=
    .opened (.dense 3) .default machine
  have hs : Reachable (fun _ _ _ => True) s.1 s.2 := reachable_run (by simp) _ hopened
  have ht : Reachable (fun _ _ _ => True) t.1 t.2 := reachable_run (by simp) _ hopened
  have hdomain : s.1.domain = t.1.domain := by
    rw [domain_run, domain_run]
  have hdomain' : s.1.domain = opened.1.domain := domain_run _ _
  have hsnapshot : s.1.state.snapshot = t.1.state.snapshot := by decide
  have hstate : s.1.state ≠ t.1.state := by decide
  have hother : s.1.state.snapshot ≠ opened.1.state.snapshot := by decide
  exact ⟨⟨hstate, hsnapshot, (alike_of_snapshot_eq hs ht hdomain).1 hsnapshot⟩, hother,
    (alike_of_snapshot_eq hs hopened hdomain').2 other⟩

end Store

end EvidenceTags
