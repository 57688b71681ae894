import EvidenceTags.Proofs.SnapshotDetermines
import EvidenceTags.Proofs.TagRecord

/-!
# Tags do not interfere

What is reported of a tag is what has been made of it since it was made, and nothing else: not what
was done to other tags, and not what was done to an earlier tag of the same number.

The life of a tag is read off the history of a store (`TagLife.of`), and in every state that a store
comes to without loading or restoring anything the tag is reported as its life says
(`Store.reports_of_lived`). A life holds only what was addressed to the tag. There is one exception:
where every number is that of a live tag, a new name takes the number `0` from the tag that has it,
and the items stay.
-/

namespace EvidenceTags

/-! ## Lives in a history -/

namespace TagLife

/-- The life of `tag` in a history of operations with their answers, the latest first, if it is live
in the end. -/
def of (tag : TagId) : List (Operation × Reply) → Option TagLife
  | [] => none
  | (op, reply) :: past => next tag (of tag past) op reply

/-- All that has happened to the tag was addressed to it. -/
def Addressed (tag : TagId) (life : TagLife) : Prop :=
  ∀ op ∈ life.since, op.addressee? = some tag

/-- Before some operation of a history, every number was that of a live tag. -/
def NumbersRanOut (history : List (Operation × Reply)) : Prop :=
  ∃ past, past <:+ history ∧ ∀ tag, (of tag past).isSome = true

theorem NumbersRanOut.cons {past : List (Operation × Reply)} (h : NumbersRanOut past)
    (entry : Operation × Reply) : NumbersRanOut (entry :: past) := by
  rcases h with ⟨before, hsuffix, hall⟩
  exact ⟨before, hsuffix.trans (List.suffix_cons entry past), hall⟩

/-- A life goes on as it was, or it has just begun, or something addressed to the tag has happened,
or the tag has been made once more under another name. -/
theorem next_cases {tag : TagId} {life : Option TagLife} {op : Operation} {reply : Reply}
    {new : TagLife}
    (h : next tag life op reply = some new) :
    life = some new ∨ new.since = [] ∨ (∃ old, life = some old ∧ new = old.after op
        ∧ op.addressee? = some tag)
      ∨ ∃ old name, life = some old ∧ new = old.after op ∧ op = .createTag name ∧ reply = .tag tag
        ∧ old.record.name ≠ name := by
  unfold next at h
  split at h
  · rename_i name made
    split at h
    · rename_i htag
      cases life with
      | none =>
        cases h
        exact .inr (.inl rfl)
      | some old =>
        simp only at h
        split at h
        · exact .inl h
        · rename_i hname
          cases h
          exact .inr (.inr (.inr ⟨old, name, rfl, rfl, rfl, congrArg Reply.tag htag, hname⟩))
    · exact .inl h
  · split at h
    · cases h
    · exact .inl h
  · split at h
    · rename_i hto
      rcases Option.map_eq_some_iff.1 h with ⟨old, hold, rfl⟩
      exact .inr (.inr (.inl ⟨old, hold, rfl, hto⟩))
    · exact .inl h

end TagLife

/-- A tag that is made is given the number of a live one only if every number is. -/
theorem CaseState.all_live_of_createTag {s : CaseState} {name : String}
    (hlive : s.roster.isLive (s.createTag name).1 = true)
    (hname : s.registry.names.get? (s.createTag name).1 ≠ some name) (tag : TagId) :
    s.roster.isLive tag = true := by
  by_cases hnamed : ∃ named, s.registry.names.get? named = some name
  · rcases hnamed with ⟨named, hnamed⟩
    rcases Registry.exists_standsFor hnamed with ⟨low, hlow⟩
    rw [createTag_of_standsFor hlow] at hname
    exact absurd hlow.1 hname
  · rw [createTag_of_free (not_exists.1 hnamed)] at hlive
    rcases s.roster.isNext_nextFree with ⟨hfree, -⟩ | ⟨hall, -⟩
    · rw [hfree] at hlive
      cases hlive
    · exact hall tag

deriving instance DecidableEq for Reply

namespace Store

/-- The operation writes files at most. -/
def OnlyWrites : StoreOp → Prop
  | .save _ | .saveTo _ _ | .flush | .refreshCookie => True
  | .state _ | .load | .loadFrom _ => False

/-- A store with a history: it has been opened, and since then operations have been carried out on
its state, which are recorded with their answers, the latest first. Meanwhile it may have saved, and
others may have changed the machine. No snapshot has been restored, and nothing loaded. -/
inductive Lived : Store → Machine → List (Operation × Reply) → Prop
  | opened (domain : Domain) (settings : Settings) (m : Machine) :
      Lived ((openCase domain settings : StateM Machine _) m).1
        ((openCase domain settings : StateM Machine _) m).2 []
  | operation {s : Store} {m : Machine} {past : List (Operation × Reply)} (op : Operation)
      (h : Lived s m past) (hop : ∀ snapshot, op ≠ .restore snapshot) :
      Lived (s.perform (.state op) m).1.2 (s.perform (.state op) m).2
        ((op, (s.perform (.state op) m).1.1) :: past)
  | writing {s : Store} {m : Machine} {past : List (Operation × Reply)} (op : StoreOp)
      (h : Lived s m past)
      (hop : OnlyWrites op) : Lived (s.perform op m).1.2 (s.perform op m).2 past
  | outside {s : Store} {m : Machine} {past : List (Operation × Reply)} (m' : Machine)
      (h : Lived s m past) : Lived s m' past

theorem state_of_onlyWrites (s : Store) (m : Machine) {op : StoreOp} (h : OnlyWrites op) :
    (s.perform op m).1.2.state = s.state := by
  have heffect := perform_effect s m op
  generalize (s.perform op m).1.2.state = state at heffect
  cases heffect with
  | none => rfl
  | state _ heq | loadFrom _ _ heq _ | load _ _ heq _ _ =>
    rw [heq] at h
    cases h

variable {s : Store} {m : Machine} {history : List (Operation × Reply)}

/-- In every state of a store the record of each tag is that of its life. -/
theorem reports_life (h : Lived s m history) (tag : TagId) :
    s.state.Reports tag ((TagLife.of tag history).map TagLife.record) := by
  induction h with
  | opened domain settings m =>
    rw [state_openCase]
    exact CaseState.reports_empty domain.lastId tag
  | @operation s m past op _ hop ih =>
    have hreply : (s.perform (.state op) m).1.1 = (s.state.perform s.domain op).1 :=
      reply_exec op (s, m)
    have hstate : (s.perform (.state op) m).1.2.state = (s.state.perform s.domain op).2 :=
      state_exec op (s, m)
    rw [hreply, hstate]
    exact ih.perform s.domain hop
  | @writing s m past op _ hop ih =>
    rw [state_of_onlyWrites s m hop]
    exact ih
  | outside _ _ ih => exact ih

/-- Only what is addressed to a tag is part of its life, as long as numbers are left for new
tags. -/
theorem addressed_or_ranOut (h : Lived s m history) (tag : TagId) {life : TagLife}
    (hlife : TagLife.of tag history = some life) :
    life.Addressed tag ∨ TagLife.NumbersRanOut history := by
  induction h generalizing life with
  | opened _ _ _ => cases hlife
  | @operation s m past op h hop ih =>
    rcases TagLife.next_cases hlife with hsame | hnew | ⟨old, hold, rfl, hto⟩
      | ⟨old, name, hold, rfl, rfl, hreply, hname⟩
    · exact (ih hsame).imp_right fun hout => hout.cons _
    · left
      intro op hop
      rw [hnew] at hop
      cases hop
    · rcases ih hold with haddressed | hout
      · left
        intro op hop
        rcases List.mem_cons.1 hop with rfl | hop
        · exact hto
        · exact haddressed op hop
      · exact .inr (hout.cons _)
    · -- the tag was live, so no number was left
      right
      have hmade : (s.state.createTag name).1 = tag := Reply.tag.inj hreply
      have hreports := reports_life h
      have hlive : s.state.roster.isLive (s.state.createTag name).1 = true := by
        rw [hmade, (hreports tag).isLive_roster, hold]
        rfl
      have hother : s.state.registry.names.get? (s.state.createTag name).1 ≠ some name := by
        rw [hmade, (hreports tag).name, hold]
        intro heq
        exact hname (Option.some.inj heq)
      refine ⟨past, List.suffix_cons _ _, ?_⟩
      intro any
      have hany := CaseState.all_live_of_createTag hlive hother any
      rwa [(hreports any).isLive_roster, Option.isSome_map] at hany
  | writing _ _ _ ih => exact ih hlife
  | outside _ _ ih => exact ih hlife

/-- A run is lived through if it restores nothing. -/
theorem lived_run (ops : List Operation) (hops : ∀ op ∈ ops, ∀ snapshot, op ≠ .restore snapshot)
    {p : Store × Machine} (h : Lived p.1 p.2 history) :
    Lived (run exec ops p).2.1 (run exec ops p).2.2
      ((ops.zip (run exec ops p).1).reverse ++ history) := by
  induction ops generalizing p history with
  | nil => exact h
  | cons op ops ih =>
    have hnext := Lived.operation op h (hops op List.mem_cons_self)
    have hrest := ih (fun op hop => hops op (List.mem_cons_of_mem _ hop)) (p := (exec op p).2) hnext
    rw [run_cons, List.zip_cons_cons, List.reverse_cons, List.append_assoc]
    exact hrest

/-- What is reported of a tag is the record of its life: what was addressed to it, in order, since
it was made with a name and nothing else. So a tag with the same life is reported alike in any two
stores, whatever happened to other tags and to earlier tags of that number. Only where all numbers
were taken at some time may it be that a live tag has been made anew. -/
theorem reports_of_lived (h : Lived s m history) (tag : TagId) :
    s.state.Reports tag ((TagLife.of tag history).map TagLife.record)
      ∧ (∀ life, TagLife.of tag history = some life →
          life.Addressed tag ∨ TagLife.NumbersRanOut history)
      ∧ ∀ s' m' history', Lived s' m' history' → TagLife.of tag history' = TagLife.of tag history →
          ∃ record, s.state.Reports tag record ∧ s'.state.Reports tag record := by
  refine ⟨reports_life h tag, ?_, ?_⟩
  · intro life hlife
    exact addressed_or_ranOut h tag hlife
  · intro s' m' history' h' hsame
    refine ⟨_, reports_life h tag, ?_⟩
    rw [← hsame]
    exact reports_life h' tag

/-- The first tag of number `0` has items and a comment, and is deleted. The second one is given an
item, and another tag comes into the report. Another store has made no tag but the second one. -/
theorem reports_of_lived_sample :
    let machine : Machine := ⟨⟨[([], ⟨none, 0⟩)]⟩, 0, [], ⟨"/"⟩, 1, 0, []⟩
    let opened := (openCase (.dense 9) .default : StateM Machine _) machine
    let long : List Operation := [.createTag "a", .addMembers [1] ⟨0⟩, .setComment ⟨0⟩ (some "c"),
      .deleteTag ⟨0⟩, .createTag "b", .createTag "d", .setInReport ⟨1⟩ true, .addMembers [2] ⟨0⟩]
    let short : List Operation := [.createTag "b", .addMembers [2] ⟨0⟩]
    let s := (run exec long opened).2.1
    let t := (run exec short opened).2.1
    let record : TagRecord := { TagRecord.new "b" with members := .ofItems (.ofList [2]) }
    s.state.Reports ⟨0⟩ (some record) ∧ ∃ same, s.state.Reports ⟨0⟩ same
      ∧ t.state.Reports ⟨0⟩ same := by
  intro machine opened long short s t record
  have hopened : Lived opened.1 opened.2 [] := .opened (.dense 9) .default machine
  have hs := lived_run long (by simp [long]) (p := opened) hopened
  have ht := lived_run short (by simp [short]) (p := opened) hopened
  have hlong : (run exec long opened).1 = [.tag ⟨0⟩, .outcome (.ok ()), .outcome (.ok ()), .done,
      .tag ⟨0⟩, .tag ⟨1⟩, .outcome (.ok ()), .outcome (.ok ())] := by decide +kernel
  have hshort : (run exec short opened).1 = [.tag ⟨0⟩, .outcome (.ok ())] := by decide +kernel
  rw [hlong] at hs
  rw [hshort] at ht
  -- the answers have been computed, and the lives are read off them
  rcases reports_of_lived hs ⟨0⟩ with ⟨hreports, -, hsame⟩
  exact ⟨hreports, hsame _ _ _ ht rfl⟩

end Store

end EvidenceTags
