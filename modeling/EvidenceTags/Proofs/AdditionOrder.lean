import EvidenceTags.Proofs.CheckedRuns
import EvidenceTags.Proofs.ItemFinset
import EvidenceTags.Proofs.SnapshotDetermines

/-!
# Additions in any order

Items can be added to a tag, an item to those that are checked, and a tag to the report
(`Addition`). Each of them makes a snapshot larger by itself, whatever else is added before or
after, and a tag that has been unknown stays so. Questions in between are answered, and may leave
behind what they have found out about the union, but a snapshot of the state is the same as before.

* `Snapshot.add` says what an addition does to a snapshot, and `Snapshot.add_comm` that any two of
  them can change places.
* `CaseState.perform_addition` and `CaseState.perform_question` are the step lemmas: an addition
  does that to the snapshot of a state, and a question nothing.
* `Store.additions_run` follows by induction, and `Store.additions_in_any_order` says what it means
  for two runs with the same additions.
-/

namespace EvidenceTags

/-! ## Adding twice -/

namespace ItemSet

/-- A set has no items in a block if all its items are in other blocks. -/
theorem isEmpty_block_iff {s : ItemSet} {b : Nat} : (s.block b).isEmpty = true
    ↔ ∀ item ∈ s, item ∉ interval (b * blockSize) ((b + 1) * blockSize) := by
  rw [isEmpty_iff]
  constructor
  · intro hempty item hitem hblock
    have hin : (s.block b).contains item = true := by
      rw [block, contains_inter, hitem, hblock, Bool.true_and]
    rw [hempty, contains_empty] at hin
    exact Bool.false_ne_true hin
  · intro hother
    refine ext_contains fun item => ?_
    rw [contains_empty, Bool.eq_false_iff, block, contains_inter, ne_eq, Bool.and_eq_true, not_and]
    exact hother item

theorem isEmpty_block_union {s t : ItemSet} {b : Nat} : ((s ∪ t).block b).isEmpty = true
    ↔ (s.block b).isEmpty = true ∧ (t.block b).isEmpty = true := by
  simp only [isEmpty_block_iff, mem_union, or_imp, forall_and]

end ItemSet

namespace PackedSet

theorem ext_exceptions {s t : PackedSet} (hitems : s.items = t.items)
    (h : ∀ b, b ∈ s.exceptions ↔ b ∈ t.exceptions) : s = t := by
  have hexceptions : s.exceptions = t.exceptions :=
    Ascending.eq_of_mem_iff Nat.lt_asymm s.ascending t.ascending h
  cases s
  cases t
  simp_all

/-- A block stays an exception if it has all the items that fall into it. -/
theorem mem_exceptions_addAll {s : PackedSet} {items : ItemSet} {b : Nat} :
    b ∈ (s.addAll items).exceptions
      ↔ b ∈ s.exceptions ∧ ((items \ s.items).block b).isEmpty = true := by
  have hchanged : (s.items \ (s.items ∪ items)) ∪ ((s.items ∪ items) \ s.items)
      = items \ s.items := by
    refine ItemSet.ext_contains fun item => ?_
    simp only [ItemSet.contains_union, ItemSet.contains_difference]
    cases s.items.contains item <;> simp
  -- a block that had items has them still
  have hgrown (hb : b ∈ s.exceptions) : ((s.items ∪ items).block b).isEmpty = false := by
    have hinhabited := s.inhabited b hb
    rw [Bool.eq_false_iff, ne_eq, ItemSet.isEmpty_block_iff] at hinhabited ⊢
    intro hother
    refine hinhabited fun item hitem => hother item ?_
    show (s.items ∪ items).contains item = true
    rw [ItemSet.contains_union, hitem, Bool.true_or]
  show b ∈ (Ascending.ofList (s.exceptions.filter _)).filter _ ↔ _
  rw [hchanged, List.mem_filter, Ascending.mem_ofList, List.mem_filter]
  constructor
  · rintro ⟨hkept, -⟩
    exact hkept
  · intro hkept
    refine ⟨hkept, ?_⟩
    rw [hgrown hkept.1, Bool.not_false]

/-- To add items and then others is to add all of them at once. -/
theorem addAll_addAll (s : PackedSet) (items others : ItemSet) :
    (s.addAll items).addAll others = s.addAll (items ∪ others) := by
  have hnew : (items ∪ others) \ s.items = (items \ s.items) ∪ (others \ (s.items ∪ items)) := by
    refine ItemSet.ext_contains fun item => ?_
    simp only [ItemSet.contains_union, ItemSet.contains_difference]
    cases s.items.contains item <;> cases items.contains item <;> simp
  refine ext_exceptions (ItemSet.union_assoc s.items items others) fun b => ?_
  rw [mem_exceptions_addAll, mem_exceptions_addAll, mem_exceptions_addAll, hnew,
    ItemSet.isEmpty_block_union, items_addAll, and_assoc]

end PackedSet

namespace TagMap

/-- Adds items to the set of a tag, if it has one. -/
def addItems (sets : TagMap PackedSet) (tag : TagId) (items : ItemSet) : TagMap PackedSet :=
  match sets.get? tag with
  | some set => sets.insert tag (set.addAll items)
  | none => sets

variable {sets : TagMap PackedSet}

theorem get?_addItems {tag key : TagId} {items : ItemSet} : (sets.addItems tag items).get? key
    = if key = tag then (sets.get? key).map (·.addAll items) else sets.get? key := by
  unfold addItems
  split
  · rename_i set hget
    rw [get?_insert]
    split
    · rename_i hkey
      rw [hkey, hget]
      rfl
    · rfl
  · rename_i hget
    split
    · rename_i hkey
      rw [hkey, hget]
      rfl
    · rfl

theorem addItems_of_not_contains {tag : TagId} (h : sets.contains tag = false) (items : ItemSet) :
    sets.addItems tag items = sets := by
  have hget : sets.get? tag = none := by simpa [contains] using h
  rw [addItems, hget]

theorem contains_addItems {tag key : TagId} {items : ItemSet} :
    (sets.addItems tag items).contains key = sets.contains key := by
  rw [contains, contains, get?_addItems]
  split
  · rw [Option.isSome_map]
  · rfl

theorem addItems_comm (sets : TagMap PackedSet) (tag tag' : TagId) (items items' : ItemSet) :
    (sets.addItems tag items).addItems tag' items'
      = (sets.addItems tag' items').addItems tag items := by
  refine ext_get? fun key => ?_
  simp only [get?_addItems]
  split <;> split
  · rw [Option.map_map, Option.map_map]
    refine congrArg (Option.map · _) (funext fun set => ?_)
    simp only [Function.comp_apply]
    rw [PackedSet.addAll_addAll, PackedSet.addAll_addAll, ItemSet.union_comm]
  · rfl
  · rfl
  · rfl

end TagMap

theorem Roster.addMembers_eq (r : Roster) (tag : TagId) (items : ItemSet) : r.addMembers tag items
    = if r.isLive tag then .ok ⟨r.sets.addItems tag items, r.known.map (· ∪ items)⟩
      else .error (.unknownTag tag) := by
  unfold addMembers isLive TagMap.contains TagMap.addItems
  cases r.sets.get? tag <;> rfl

namespace Registry

/-- Puts a tag into the report, if it is live. -/
def report (r : Registry) (tag : TagId) : Registry :=
  { r with inReport := if r.isLive tag then r.inReport.insert tag () else r.inReport }

theorem get?_report (r : Registry) (tag key : TagId) : (r.report tag).inReport.get? key
    = if key = tag ∧ r.isLive tag = true then some () else r.inReport.get? key := by
  show (if r.isLive tag = true then r.inReport.insert tag () else r.inReport).get? key = _
  by_cases hlive : r.isLive tag = true
  · rw [if_pos hlive, TagMap.get?_insert]
    simp only [hlive, and_true]
  · rw [if_neg hlive, if_neg fun h => hlive h.2]

theorem report_comm (r : Registry) (tag tag' : TagId) :
    (r.report tag).report tag' = (r.report tag').report tag := by
  -- to be live is to have a name, and the names are not touched
  have hlive (tag key : TagId) : (r.report tag).isLive key = r.isLive key := rfl
  have hinReport :
      ((r.report tag).report tag').inReport = ((r.report tag').report tag).inReport := by
    refine TagMap.ext_get? fun key => ?_
    simp only [get?_report, hlive]
    split <;> split <;> rfl
  exact congrArg (fun inReport => { r with inReport }) hinReport

theorem setInReport_true (r : Registry) (tag : TagId) : r.setInReport tag true
    = if r.isLive tag then .ok (r.report tag) else .error (.unknownTag tag) := by
  unfold setInReport whenLive report
  split <;> rfl

theorem report_of_not_isLive {r : Registry} {tag : TagId} (h : r.isLive tag = false) :
    r.report tag = r := by
  simp [report, h]

end Registry

/-! ## Additions and questions -/

/-- What can be added to a case. -/
inductive Addition where
  | members (items : List ItemId) (tag : TagId)
  | checked (item : ItemId)
  | inReport (tag : TagId)
deriving DecidableEq

/-- The operation that adds. -/
def Addition.op : Addition → Operation
  | .members items tag => .addMembers items tag
  | .checked item => .setChecked item true
  | .inReport tag => .setInReport tag true

namespace Operation

/-- What an operation adds, if that is what it does. -/
def addition? : Operation → Option Addition
  | .addMembers items tag => some (.members items tag)
  | .setChecked item true => some (.checked item)
  | .setInReport tag true => some (.inReport tag)
  | _ => none

/-- Whether an operation changes nothing that is in a snapshot. -/
def isQuestion : Operation → Bool
  | .createTag _ | .deleteTag _ | .renameTag _ _ | .addMembers _ _ | .removeMembers _ _
  | .setComment _ _ | .setKeyBinding _ _ | .removeKeyBinding _ | .setColor _ _ | .setInReport _ _
  | .setChecked _ _ | .checkAll | .clearChecked | .addTypedWord _ | .restore _ => false
  | _ => true

/-- An addition or a question. -/
def AddsOrAsks (op : Operation) : Prop := op.addition?.isSome = true ∨ op.isQuestion = true

instance (op : Operation) : Decidable op.AddsOrAsks :=
  inferInstanceAs (Decidable (op.addition?.isSome = true ∨ op.isQuestion = true))

theorem eq_of_addition? {op : Operation} {a : Addition} (h : op.addition? = some a) :
    op = a.op := by
  unfold addition? at h
  split at h <;> cases h <;> rfl

end Operation

namespace Snapshot

/-- Adds to a snapshot. The count is that of the flags. -/
def add (s : Snapshot) : Addition → Snapshot
  | .members items tag => { s with members := s.members.addItems tag (.ofList items) }
  | .checked item =>
    let checked := s.checked.set item.toNat true
    { s with checked, checkedCount := UInt64.ofNat checked.count }
  | .inReport tag => { s with registry := s.registry.report tag }

/-- How an addition is answered. Only tags that are live can be added to. -/
def reply (s : Snapshot) : Addition → Reply
  | .members _ tag => .outcome (if s.members.contains tag then .ok () else .error (.unknownTag tag))
  | .checked _ => .done
  | .inReport tag => .outcome (if s.registry.isLive tag then .ok () else .error (.unknownTag tag))

/-- What has been added makes no difference to an answer. -/
theorem reply_add (s : Snapshot) (a b : Addition) : (s.add a).reply b = s.reply b := by
  cases b with
  | members items tag =>
    have hlive : (s.add a).members.contains tag = s.members.contains tag := by
      cases a with
      | members items' tag' => exact TagMap.contains_addItems
      | checked item | inReport tag' => rfl
    simp only [reply, hlive]
  | checked item => rfl
  | inReport tag =>
    have hlive : (s.add a).registry.isLive tag = s.registry.isLive tag := by
      cases a <;> rfl
    simp only [reply, hlive]

theorem add_comm (s : Snapshot) (a b : Addition) : (s.add a).add b = (s.add b).add a := by
  -- additions of different kinds are made to different parts
  cases a with
  | members items tag =>
    cases b with
    | members items' tag' =>
      exact congrArg (fun members => { s with members }) (TagMap.addItems_comm s.members _ _ _ _)
    | checked item | inReport tag' => rfl
  | checked item =>
    cases b with
    | checked item' =>
      exact congrArg
        (fun checked : Flags =>
          { s with checked, checkedCount := UInt64.ofNat checked.count })
        (Flags.set_comm s.checked _ _ true)
    | members items tag | inReport tag => rfl
  | inReport tag =>
    cases b with
    | inReport tag' =>
      exact congrArg (fun registry => { s with registry }) (Registry.report_comm s.registry _ _)
    | members items tag' | checked item => rfl

instance : RightCommutative Snapshot.add := ⟨add_comm⟩

end Snapshot

namespace CaseState

variable {s : CaseState} {domain : Domain}

/-- An addition is answered as the snapshot says, and makes a snapshot that much larger. -/
theorem perform_addition (h : s.Sound domain.lastId) (a : Addition) :
    (s.perform domain a.op).1 = s.snapshot.reply a
      ∧ (s.perform domain a.op).2.snapshot = s.snapshot.add a := by
  cases a with
  | members items tag =>
    show (s.settle ((s.roster.addMembers tag _).map _)).1
      = .outcome (if s.roster.isLive tag then _ else _)
      ∧ (s.settle ((s.roster.addMembers tag _).map _)).2.snapshot = _
    rw [Roster.addMembers_eq]
    cases hlive : s.roster.isLive tag with
    | true => exact ⟨rfl, rfl⟩
    | false =>
      -- a refusal leaves the state, and nothing is added to the snapshot
      have hsame := TagMap.addItems_of_not_contains hlive (.ofList items)
      exact ⟨rfl, congrArg (fun members => { s.snapshot with members }) hsame.symm⟩
  | checked item =>
    refine ⟨rfl, ?_⟩
    have hcount := (h.selection.setChecked item true).count
    have hflags := Selection.flags_setChecked s.selection item true
    show SavedState.mk (s.selection.setChecked item true).2.flags _ _ _
      (UInt64.ofNat (s.selection.setChecked item true).2.count) = _
    rw [hcount, hflags]
    rfl
  | inReport tag =>
    show (s.settle ((s.registry.setInReport tag true).map _)).1
        = .outcome (if s.registry.isLive tag then _ else _)
      ∧ (s.settle ((s.registry.setInReport tag true).map _)).2.snapshot = _
    rw [Registry.setInReport_true]
    cases hlive : s.registry.isLive tag with
    | true => exact ⟨rfl, rfl⟩
    | false =>
      have hsame := Registry.report_of_not_isLive hlive
      exact ⟨rfl, congrArg (fun registry => { s.snapshot with registry }) hsame.symm⟩

/-- A question may make the union known, which is not in a snapshot. -/
theorem perform_question {op : Operation} (hop : op.isQuestion = true) :
    (s.perform domain op).2.snapshot = s.snapshot := by
  cases op with
  | createTag | deleteTag | renameTag | addMembers | removeMembers | setComment | setKeyBinding
  | removeKeyBinding | setColor | setInReport | setChecked | checkAll | clearChecked | addTypedWord
  | restore => exact absurd hop Bool.false_ne_true
  | _ => rfl

end CaseState

/-! ## Runs -/

namespace Store

/-- What operations add, in their order. -/
def additions (ops : List Operation) : List Addition := ops.filterMap Operation.addition?

/-- What operations add to a store, each with the answer. -/
def answered (ops : List Operation) (p : Store × Machine) : List (Addition × Reply) :=
  (ops.zip (run exec ops p).1).filterMap fun e => e.1.addition?.map (·, e.2)

theorem additions_cons (op : Operation) (rest : List Operation) :
    additions (op :: rest) = op.addition?.toList ++ additions rest := by
  unfold additions
  rw [List.filterMap_cons]
  cases op.addition? <;> rfl

theorem answered_cons (op : Operation) (rest : List Operation) (p : Store × Machine) :
    answered (op :: rest) p
      = op.addition?.toList.map (·, (exec op p).1) ++ answered rest (exec op p).2 := by
  unfold answered
  rw [run_cons, List.zip_cons_cons, List.filterMap_cons]
  cases op.addition? <;> rfl

/-- In a run of additions and questions, every addition is answered as it would have been at first,
and the snapshot in the end is the one at first with all additions. -/
theorem additions_run {p : Store × Machine} (h : p.1.state.Sound p.1.lastId) {ops : List Operation}
    (hops : ∀ op ∈ ops, op.AddsOrAsks) :
    answered ops p = (additions ops).map (fun a => (a, p.1.state.snapshot.reply a))
      ∧ (run exec ops p).2.1.state.snapshot
        = (additions ops).foldl Snapshot.add p.1.state.snapshot := by
  induction ops generalizing p with
  | nil => exact ⟨rfl, rfl⟩
  | cons op rest ih =>
    obtain ⟨hanswers, hsnapshot⟩ :=
      ih (sound_exec h op) fun op' hop' => hops op' (List.mem_cons_of_mem op hop')
    rw [answered_cons, additions_cons, run_cons]
    cases hadd : op.addition? with
    | none =>
      -- what is not an addition is a question, and the rest of the run finds the same snapshot
      have hquestion : op.isQuestion = true := by
        rcases hops op List.mem_cons_self with h | h
        · rw [hadd] at h
          exact absurd h Bool.false_ne_true
        · exact h
      have hsame : (exec op p).2.1.state.snapshot = p.1.state.snapshot := by
        rw [state_exec, CaseState.perform_question hquestion]
      rw [hsame] at hanswers hsnapshot
      exact ⟨hanswers, hsnapshot⟩
    | some a =>
      -- the rest of the run finds a larger snapshot, which answers alike
      obtain rfl := Operation.eq_of_addition? hadd
      obtain ⟨hreply, hgrown⟩ := CaseState.perform_addition h a
      rw [← state_exec] at hgrown
      rw [← reply_exec] at hreply
      rw [hgrown] at hanswers hsnapshot
      simp only [Snapshot.reply_add] at hanswers
      rw [hanswers, hreply]
      exact ⟨rfl, hsnapshot⟩

/-- In every state that a store can reach, additions can be made in any order, with any questions
asked before, between and after them. Each is answered as it would be at once, the snapshot in the
end is the same, and so is the union. -/
theorem additions_in_any_order {anything : Store → Machine → StoreOp → Prop} {p : Store × Machine}
    (h : Reachable anything p.1 p.2) {ops others : List Operation}
    (hops : ∀ op ∈ ops, op.AddsOrAsks)
    (hothers : ∀ op ∈ others, op.AddsOrAsks) (hsame : (additions others).Perm (additions ops)) :
    (∀ e ∈ answered ops p, e.2 = (exec e.1.op p).1)
      ∧ (answered others p).Perm (answered ops p)
      ∧ (run exec others p).2.1.state.snapshot = (run exec ops p).2.1.state.snapshot
      ∧ (exec .unionAll (run exec others p).2).1 = (exec .unionAll (run exec ops p).2).1 := by
  have hsound := sound_of_reachable h
  obtain ⟨hanswers, hsnapshot⟩ := additions_run hsound hops
  obtain ⟨hanswers', hsnapshot'⟩ := additions_run hsound hothers
  have hequal : (run exec others p).2.1.state.snapshot = (run exec ops p).2.1.state.snapshot := by
    rw [hsnapshot, hsnapshot']
    exact hsame.foldl_eq p.1.state.snapshot
  refine ⟨?_, ?_, hequal, ?_⟩
  · rw [hanswers]
    intro e he
    obtain ⟨a, -, rfl⟩ := List.mem_map.1 he
    rw [reply_exec]
    exact (CaseState.perform_addition hsound a).1.symm
  · rw [hanswers, hanswers']
    exact hsame.map _
  · have hunion :=
      CaseState.perform_of_snapshot_eq (sound_run others hsound) (sound_run ops hsound) hequal
      p.1.domain .unionAll
    rw [reply_exec, reply_exec, domain_run, domain_run]
    exact hunion.1

/-- Two clients add to the same tags in the other order, and ask at other times. The tag `7` is not
live. -/
theorem additions_in_any_order_sample :
    let machine : Machine := ⟨⟨[([], ⟨none, 0⟩)]⟩, 0, [], ⟨"/"⟩, 1, 0, []⟩
    let opened := (openCase (.dense 5) .default : StateM Machine _) machine
    let p := (run exec [.createTag "a", .createTag "b"] opened).2
    let ops : List Operation := [.addMembers [2, 5] ⟨0⟩, .unionAll, .setChecked 3 true,
      .addMembers [1] ⟨7⟩, .setInReport ⟨1⟩ true, .addMembers [2, 4] ⟨1⟩, .setChecked 3 true]
    let others : List Operation := [.unionAll, .setChecked 3 true, .addMembers [2, 4] ⟨1⟩,
      .setInReport ⟨1⟩ true, .checkedCount, .addMembers [1] ⟨7⟩, .unionAll, .setChecked 3 true,
      .addMembers [2, 5] ⟨0⟩]
    let last := (run exec others p).2
    (answered others p).Perm (answered ops p)
      ∧ last.1.state.snapshot = (run exec ops p).2.1.state.snapshot
      ∧ (exec .unionAll last).1 = .items (.ofList [2, 4, 5])
      ∧ (exec (.isInReport ⟨0⟩) last).1 = .truth false
      ∧ (exec (.isInReport ⟨1⟩) last).1 = .truth true
      ∧ (exec (.isChecked 3) last).1 = .truth true ∧ (exec .checkedCount last).1 = .count 1 := by
  intro machine opened p ops others last
  have hopened : Reachable (fun _ _ _ => True) opened.1 opened.2 :=
    .opened (.dense 5) .default machine
  have hp : Reachable (fun _ _ _ => True) p.1 p.2 := reachable_run (by simp) _ hopened
  have hops : ∀ op ∈ ops, op.AddsOrAsks := by decide
  have hothers : ∀ op ∈ others, op.AddsOrAsks := by decide
  have hsame : (additions others).Perm (additions ops) := by decide
  obtain ⟨-, hanswers, hsnapshot, hunion⟩ := additions_in_any_order hp hops hothers hsame
  have hall : (run exec ops p).2.1.state.unionAll.1 = .ofList [2, 4, 5] := by decide +kernel
  have hreport : last.1.state.registry.isInReport ⟨0⟩ = false
      ∧ last.1.state.registry.isInReport ⟨1⟩ = true := by decide +kernel
  have hchecked : last.1.state.selection.isChecked 3 = true
      ∧ last.1.state.selection.count = 1 := by decide +kernel
  refine ⟨hanswers, hsnapshot, hunion.trans ?_, ?_⟩
  · rw [reply_exec]
    exact congrArg Reply.items hall
  · simp only [reply_exec]
    exact ⟨congrArg Reply.truth hreport.1, congrArg Reply.truth hreport.2,
      congrArg Reply.truth hchecked.1, congrArg Reply.count hchecked.2⟩

end Store

end EvidenceTags
