import EvidenceTags.Proofs.NewTags

/-!
# One tag by itself

What a case keeps about a tag is spread over its roster and the maps of its registry. Here it is put
together in one record, and the operations that are addressed to the tag are carried out on this
record alone.

* `TagLife` is what has happened to a tag: the name that it was made with, and the operations
  addressed to it since. `TagLife.record` is what has become of the tag by them.
* `CaseState.Reports` says that a state keeps a record of a tag, or nothing at all.
* `CaseState.Reports.perform` is the step lemma: if a state keeps the record of a tag's life, it
  does so after any operation, which may be addressed to the tag, or to another one, or to none.
-/

namespace EvidenceTags

/-! ## One tag by itself -/

/-- What is kept about a tag. -/
structure TagRecord where
  name : String
  members : PackedSet
  comment : Option String
  keyBinding : Option KeyBinding
  color : Option Color
  inReport : Bool
deriving DecidableEq

/-- The tag that an operation is addressed to. -/
def Operation.addressee? : Operation → Option TagId
  | .renameTag tag _ | .addMembers _ tag | .removeMembers _ tag | .setComment tag _
  | .setKeyBinding tag _ | .removeKeyBinding tag | .setColor tag _ | .setInReport tag _ => some tag
  | _ => none

namespace TagRecord

/-- A tag that has just been made. -/
def new (name : String) : TagRecord := ⟨name, ∅, none, none, none, false⟩

/-- Carries out an operation that is addressed to the tag. -/
def apply (r : TagRecord) : Operation → TagRecord
  | .renameTag _ name => { r with name }
  | .addMembers items _ => { r with members := r.members.addAll (.ofList items) }
  | .removeMembers items _ => { r with members := r.members.removeAll (.ofList items) }
  | .setComment _ comment => { r with comment }
  | .setKeyBinding _ key => { r with keyBinding := some key }
  | .removeKeyBinding _ => { r with keyBinding := none }
  | .setColor _ color => { r with color }
  | .setInReport _ value => { r with inReport := value }
  -- a new name goes to a tag that is live only where no number is left
  | .createTag name => { new name with members := r.members }
  | _ => r

end TagRecord

/-- What has happened to a tag since it was made. -/
structure TagLife where
  /-- The name that it was made with. -/
  name : String
  /-- The operations on it, the latest first. -/
  since : List Operation

namespace TagLife

/-- The record of the tag after all that has happened to it. -/
def record (life : TagLife) : TagRecord :=
  life.since.foldr (fun op r => r.apply op) (.new life.name)

/-- Another operation on the tag. -/
def after (life : TagLife) (op : Operation) : TagLife := { life with since := op :: life.since }

/-- What an operation does to the life of `tag`. To make a tag of a name that it has is to find
it. -/
def next (tag : TagId) (life : Option TagLife) : Operation → Reply → Option TagLife
  | .createTag name, .tag made =>
    if made = tag then
      match life with
      | none => some ⟨name, []⟩
      | some old => if old.record.name = name then some old else some (old.after (.createTag name))
    else life
  | .deleteTag deleted, _ => if deleted = tag then none else life
  | op, _ => if op.addressee? = some tag then life.map (·.after op) else life

/-- An operation that is addressed to a tag is one more in its life, if it is live. -/
theorem map_record_next {tag addressee : TagId} {life : Option TagLife} {op : Operation}
    {reply : Reply}
    (h : op.addressee? = some addressee) :
    (next tag life op reply).map record
      = if addressee = tag then (life.map record).map (·.apply op) else life.map record := by
  have hnext : next tag life op reply
      = if op.addressee? = some tag then life.map (·.after op) else life := by
    cases op with
    | createTag _ | deleteTag _ => cases h
    | _ => rfl
  rw [hnext, h]
  by_cases htag : addressee = tag
  · rw [if_pos htag, if_pos (congrArg some htag), Option.map_map, Option.map_map]
    rfl
  · rw [if_neg htag, if_neg fun heq => htag (Option.some.inj heq)]

end TagLife

/-! ## What a state keeps of a tag -/

namespace CaseState

/-- The state keeps this record of a tag, and if there is none, it keeps nothing under its
number. -/
structure Reports (s : CaseState) (tag : TagId) (record : Option TagRecord) : Prop where
  name : s.registry.names.get? tag = record.map (·.name)
  members : s.roster.sets.get? tag = record.map (·.members)
  comment : s.registry.comments.get? tag = record.bind (·.comment)
  keyBinding : s.registry.keyBindings.get? tag = record.bind (·.keyBinding)
  color : s.registry.colors.get? tag = record.bind (·.color)
  inReport : s.registry.isInReport tag = record.any (·.inReport)

variable {s : CaseState} {tag other : TagId} {record : Option TagRecord}

theorem reports_empty (last : ItemId) (tag : TagId) : (empty last).Reports tag none :=
  ⟨rfl, rfl, rfl, rfl, rfl, rfl⟩

theorem Reports.isLive (h : s.Reports tag record) : s.registry.isLive tag = record.isSome := by
  rw [Registry.isLive, TagMap.contains, h.name, Option.isSome_map]

theorem Reports.isLive_roster (h : s.Reports tag record) : s.roster.isLive tag = record.isSome := by
  rw [Roster.isLive, TagMap.contains, h.members, Option.isSome_map]

/-- A state that has the same about a tag reports the same. -/
theorem Reports.of_same {t : CaseState} (h : s.Reports tag record)
    (hname : t.registry.names.get? tag = s.registry.names.get? tag)
    (hmembers : t.roster.sets.get? tag = s.roster.sets.get? tag)
    (hcomment : t.registry.comments.get? tag = s.registry.comments.get? tag)
    (hkey : t.registry.keyBindings.get? tag = s.registry.keyBindings.get? tag)
    (hcolor : t.registry.colors.get? tag = s.registry.colors.get? tag)
    (hreport : t.registry.isInReport tag = s.registry.isInReport tag) : t.Reports tag record where
  name := hname.trans h.name
  members := hmembers.trans h.members
  comment := hcomment.trans h.comment
  keyBinding := hkey.trans h.keyBinding
  color := hcolor.trans h.color
  inReport := hreport.trans h.inReport

theorem Reports.congr {t : CaseState} (h : s.Reports tag record)
    (hregistry : t.registry = s.registry)
    (hsets : t.roster.sets = s.roster.sets) : t.Reports tag record := by
  apply h.of_same
  all_goals simp only [hregistry, hsets]

/-! ## Operations that are addressed to a tag -/

/-- A change of attributes concerns the tag that it is addressed to, if that is live. -/
theorem Reports.settle_whenLive (h : s.Reports tag record) {change : Registry → Registry}
    {f : TagRecord → TagRecord}
    (hself : ∀ r, other = tag → record = some r →
      ({ s with registry := change s.registry }).Reports tag (some (f r)))
    (hothers : other ≠ tag → ({ s with registry := change s.registry }).Reports tag record) :
    (s.settle (s.changeRegistry (·.whenLive other change))).2.Reports tag
      (if other = tag then record.map f else record) := by
  simp only [changeRegistry, Registry.whenLive]
  by_cases htag : other = tag
  · rw [if_pos htag, htag, h.isLive]
    cases record with
    | none => exact h
    | some r => exact hself r htag rfl
  · rw [if_neg htag]
    cases s.registry.isLive other with
    | true => exact hothers htag
    | false => exact h

theorem Reports.setComment (h : s.Reports tag record) (comment : Option String) :
    (s.settle (s.changeRegistry (·.setComment other comment))).2.Reports tag
      (if other = tag then record.map ({ · with comment }) else record) := by
  apply h.settle_whenLive
  · rintro r rfl rfl
    cases comment with
    | none => exact { h with comment := by simp [TagMap.get?_erase] }
    | some text => exact { h with comment := by simp [TagMap.get?_insert] }
  · intro hne
    cases comment with
    | none => exact { h with comment := by simpa [TagMap.get?_erase, hne.symm] using h.comment }
    | some text =>
      exact { h with comment := by simpa [TagMap.get?_insert, hne.symm] using h.comment }

theorem Reports.setKeyBinding (h : s.Reports tag record) (key : KeyBinding) :
    (s.settle (s.changeRegistry (·.setKeyBinding other key))).2.Reports tag
      (if other = tag then record.map ({ · with keyBinding := some key }) else record) := by
  apply h.settle_whenLive
  · rintro r rfl rfl
    exact { h with keyBinding := by simp [TagMap.get?_insert] }
  · intro hne
    exact { h with keyBinding := by simpa [TagMap.get?_insert, hne.symm] using h.keyBinding }

theorem Reports.setColor (h : s.Reports tag record) (color : Option Color) :
    (s.settle (s.changeRegistry (·.setColor other color))).2.Reports tag
      (if other = tag then record.map ({ · with color }) else record) := by
  apply h.settle_whenLive
  · rintro r rfl rfl
    cases color with
    | none => exact { h with color := by simp [TagMap.get?_erase] }
    | some color => exact { h with color := by simp [TagMap.get?_insert] }
  · intro hne
    cases color with
    | none => exact { h with color := by simpa [TagMap.get?_erase, hne.symm] using h.color }
    | some color => exact { h with color := by simpa [TagMap.get?_insert, hne.symm] using h.color }

theorem Reports.setInReport (h : s.Reports tag record) (value : Bool) :
    (s.settle (s.changeRegistry (·.setInReport other value))).2.Reports tag
      (if other = tag then record.map ({ · with inReport := value }) else record) := by
  apply h.settle_whenLive
  · rintro r rfl rfl
    cases value with
    | false => exact { h with inReport := by simp [Registry.isInReport] }
    | true => exact { h with inReport := by simp [Registry.isInReport] }
  · intro hne
    have hreport := h.inReport
    unfold Registry.isInReport at hreport
    cases value with
    | false => exact { h with inReport := by simpa [Registry.isInReport, hne.symm] using hreport }
    | true => exact { h with inReport := by simpa [Registry.isInReport, hne.symm] using hreport }

/-- To take a key binding away, the tag need not be live. -/
theorem Reports.removeKeyBinding (h : s.Reports tag record) (other : TagId) :
    CaseState.Reports { s with registry := s.registry.removeKeyBinding other } tag
      (if other = tag then record.map ({ · with keyBinding := none }) else record) := by
  by_cases htag : other = tag
  · rw [if_pos htag, htag]
    cases record with
    | none => exact { h with keyBinding := by simp [Registry.removeKeyBinding, TagMap.get?_erase] }
    | some r =>
      exact { h with keyBinding := by simp [Registry.removeKeyBinding, TagMap.get?_erase] }
  · rw [if_neg htag]
    have hkey : (s.registry.keyBindings.erase other).get? tag = record.bind (·.keyBinding) := by
      rw [TagMap.get?_erase, if_neg (Ne.symm htag)]
      exact h.keyBinding
    exact { h with keyBinding := hkey }

theorem Reports.renameTag (h : s.Reports tag record) (other : TagId) (name : String) :
    (s.renameTag other name).Reports tag
      (if other = tag then record.map ({ · with name }) else record) := by
  unfold CaseState.renameTag Registry.rename
  by_cases htag : other = tag
  · rw [if_pos htag, htag, h.isLive]
    cases record with
    | none => exact h
    | some r => exact { h with name := by simp [TagMap.get?_insert] }
  · rw [if_neg htag]
    cases s.registry.isLive other with
    | true => exact { h with name := by simpa [TagMap.get?_insert, Ne.symm htag] using h.name }
    | false => exact h

/-- A change of the items of a tag, if it is live. -/
theorem Reports.settle_members (h : s.Reports tag record) {result : Except StoreError Roster}
    {g : PackedSet → PackedSet}
    (hnone : s.roster.sets.get? other = none → ∃ error, result = .error error)
    (hsome : ∀ set, s.roster.sets.get? other = some set →
      ∃ known, result = .ok ⟨s.roster.sets.insert other (g set), known⟩) :
    (s.settle (result.map fun roster => { s with roster })).2.Reports tag
      (if other = tag then record.map (fun r => { r with members := g r.members }) else record) :=
        by
  cases hset : s.roster.sets.get? other with
  | none =>
    rcases hnone hset with ⟨error, rfl⟩
    by_cases htag : other = tag
    · -- the tag is not live, so there is no record to change
      rw [if_pos htag]
      have hmembers := h.members
      rw [← htag, hset] at hmembers
      cases record with
      | none => exact h
      | some r => cases hmembers
    · rw [if_neg htag]
      exact h
  | some set =>
    rcases hsome set hset with ⟨known, rfl⟩
    by_cases htag : other = tag
    · subst htag
      have hmembers := h.members
      rw [hset] at hmembers
      cases record with
      | none => cases hmembers
      | some r =>
        rcases Option.some.inj hmembers
        rw [if_pos rfl]
        exact { h with members := by simp [settle, Except.map, TagMap.get?_insert] }
    · rw [if_neg htag]
      exact { h with
        members := by
          simpa [settle, Except.map, TagMap.get?_insert, Ne.symm htag] using h.members }

theorem Reports.addMembers (h : s.Reports tag record) (other : TagId) (items : ItemSet) :
    (s.settle (s.addMembers other items)).2.Reports tag
      (if other = tag then record.map (fun r => { r with members := r.members.addAll items })
        else record) := by
  refine h.settle_members (g := (·.addAll items)) ?_ ?_
  · intro hnone
    exact ⟨.unknownTag other, by rw [Roster.addMembers, hnone]⟩
  · intro set hset
    exact ⟨_, by rw [Roster.addMembers, hset]⟩

theorem Reports.removeMembers (h : s.Reports tag record) (other : TagId) (items : ItemSet) :
    (s.settle (s.removeMembers other items)).2.Reports tag
      (if other = tag then record.map (fun r => { r with members := r.members.removeAll items })
        else record) := by
  refine h.settle_members (g := (·.removeAll items)) ?_ ?_
  · intro hnone
    exact ⟨.unknownTag other, by rw [Roster.removeMembers, hnone]⟩
  · intro set hset
    exact ⟨_, by rw [Roster.removeMembers, hset]⟩

/-! ## Tags that come and go -/

/-- A deleted tag leaves nothing under its number. -/
theorem Reports.deleteTag (h : s.Reports tag record) (other : TagId) :
    (s.deleteTag other).Reports tag (if other = tag then none else record) := by
  by_cases htag : other = tag
  · subst htag
    rw [if_pos rfl]
    constructor
    all_goals
      simp [CaseState.deleteTag, Registry.remove, Registry.isInReport, TagMap.get?_erase,
        Roster.get?_removeTag]
  · rw [if_neg htag]
    have hne : tag ≠ other := Ne.symm htag
    apply h.of_same
    all_goals
      simp only [CaseState.deleteTag, Registry.remove, Registry.isInReport, TagMap.get?_erase,
        TagMap.contains_erase, Roster.get?_removeTag, if_neg hne, decide_eq_false hne,
        Bool.not_false, Bool.true_and]

/-- A tag that is made has a name and nothing else, except that a number that is live keeps its
items. -/
theorem Reports.insert (h : s.Reports tag record) (other : TagId) (name : String) :
    CaseState.Reports { s with
        roster := s.roster.insertTag other
        registry := s.registry.insert other name } tag
      (if other
        = tag then some { TagRecord.new name with members := (record.map (·.members)).getD ∅ }
        else record) := by
  by_cases htag : other = tag
  · subst htag
    rw [if_pos rfl]
    constructor
    all_goals
      simp [Registry.insert, Registry.remove, Registry.isInReport, TagMap.get?_erase,
        TagMap.get?_insert, Roster.get?_insertTag, h.members, TagRecord.new]
  · rw [if_neg htag]
    have hne : tag ≠ other := Ne.symm htag
    apply h.of_same
    all_goals
      simp only [Registry.insert, Registry.remove, Registry.isInReport, TagMap.get?_erase,
        TagMap.get?_insert, TagMap.contains_erase, Roster.get?_insertTag, if_neg hne,
        decide_eq_false hne, Bool.not_false, Bool.true_and]

/-- A name that is known is found, and then nothing changes; another one begins a life. -/
theorem Reports.createTag {life : Option TagLife} (h : s.Reports tag (life.map TagLife.record))
    (name : String) :
    (s.createTag name).2.Reports tag
      ((TagLife.next tag life (.createTag name) (.tag (s.createTag name).1)).map TagLife.record) :=
        by
  by_cases hnamed : ∃ named, s.registry.names.get? named = some name
  · rcases hnamed with ⟨named, hname⟩
    rcases Registry.exists_standsFor hname with ⟨low, hlow⟩
    rw [createTag_of_standsFor hlow]
    have hsame : TagLife.next tag life (.createTag name) (.tag low) = life := by
      unfold TagLife.next
      by_cases htag : low = tag
      · have hrecord := h.name
        rw [← htag, hlow.1] at hrecord
        cases life with
        | none => cases hrecord
        | some old => exact (if_pos htag).trans (if_pos (Option.some.inj hrecord).symm)
      · exact if_neg htag
    rw [hsame]
    exact h
  · have hfree : ∀ named, s.registry.names.get? named ≠ some name := not_exists.1 hnamed
    have hinsert := h.insert s.roster.nextFree name
    rw [createTag_of_free hfree]
    unfold TagLife.next
    by_cases htag : s.roster.nextFree = tag
    · simp only [if_pos htag] at hinsert ⊢
      cases life with
      | none => exact hinsert
      | some old =>
        -- the number is live, and the tag that has it has another name
        have hother : old.record.name ≠ name := by
          intro heq
          exact hfree tag (heq ▸ h.name)
        simp only [if_neg hother]
        exact hinsert
    · simp only [if_neg htag] at hinsert ⊢
      exact hinsert

/-- A state that keeps the record of a tag's life keeps it after any operation but the replacement
of the whole state. -/
theorem Reports.perform {life : Option TagLife} (h : s.Reports tag (life.map TagLife.record))
    (domain : Domain) {op : Operation} (hop : ∀ snapshot, op ≠ .restore snapshot) :
    (s.perform domain op).2.Reports tag
      ((TagLife.next tag life op (s.perform domain op).1).map TagLife.record) := by
  cases op with
  | createTag name => exact h.createTag name
  | deleteTag deleted =>
    show (s.deleteTag deleted).Reports tag
      ((if deleted = tag then none else life).map TagLife.record)
    rw [apply_ite (Option.map TagLife.record)]
    exact h.deleteTag deleted
  | renameTag other name =>
    rw [TagLife.map_record_next rfl]
    exact h.renameTag other name
  | addMembers items other =>
    rw [TagLife.map_record_next rfl]
    exact h.addMembers other (.ofList items)
  | removeMembers items other =>
    rw [TagLife.map_record_next rfl]
    exact h.removeMembers other (.ofList items)
  | setComment other comment =>
    rw [TagLife.map_record_next rfl]
    exact h.setComment comment
  | setKeyBinding other key =>
    rw [TagLife.map_record_next rfl]
    exact h.setKeyBinding key
  | removeKeyBinding other =>
    rw [TagLife.map_record_next rfl]
    exact h.removeKeyBinding other
  | setColor other color =>
    rw [TagLife.map_record_next rfl]
    exact h.setColor color
  | setInReport other value =>
    rw [TagLife.map_record_next rfl]
    exact h.setInReport value
  | addTypedWord word =>
    show (s.addTypedWord word).2.Reports tag (life.map TagLife.record)
    unfold addTypedWord
    split <;> exact h.congr rfl rfl
  | restore snapshot => exact absurd rfl (hop snapshot)
  -- what is asked or checked has nothing to do with any tag
  | _ => exact h.congr rfl rfl

end CaseState

end EvidenceTags
