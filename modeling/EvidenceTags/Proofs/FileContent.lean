import EvidenceTags.Proofs.OnMachine

/-!
# What a replaced file holds

`Machine.read_of_replaceFile`: if the content of a file was replaced, that content is read under its
path. The content takes two ways: to a scratch file, which is written step by step, and from there
to its place.

A path leads where it led before as long as the directories stay (`FileTree.KeepsDirectories`), and
none of the steps takes a directory away.
-/

namespace EvidenceTags

namespace FileTree

/-! ## Looking after a change -/

/-- What is at a location, whenever it was changed: a directory has no content. -/
def content? (t : FileTree) (l : Location) : Option (Option Wire.Bytes) :=
  (t.get? l).map Entry.content

theorem lookup_filter_ne {β : Type} (entries : List (Location × β)) (l x : Location) :
    (entries.filter (·.1 ≠ l)).lookup x = if x = l then none else entries.lookup x := by
  induction entries with
  | nil => simp
  | cons e rest ih =>
    by_cases he : e.1 = l
    · rw [List.filter_cons_of_neg (by simp [he]), ih, List.lookup_cons]
      by_cases hx : x = l
      · rw [if_pos hx, if_pos hx]
      · have hne : (x == e.1) = false := by
          rw [he]
          exact beq_false_of_ne hx
        rw [if_neg hx, if_neg hx, hne]
    · rw [List.filter_cons_of_pos (by simp [he]), List.lookup_cons, List.lookup_cons, ih]
      by_cases hx : x = l
      · have hne : (x == e.1) = false := by
          rw [hx]
          exact beq_false_of_ne fun h => he h.symm
        rw [hne, if_pos hx]
      · rw [if_neg hx, if_neg hx]

theorem get?_erase (t : FileTree) (l x : Location) :
    (t.erase l).get? x = if x = l then none else t.get? x := lookup_filter_ne t.entries l x

theorem get?_put (t : FileTree) (l x : Location) (entry : Entry) :
    (t.put l entry).get? x = if x = l then some entry else t.get? x := by
  show ((l, entry) :: (t.erase l).entries).lookup x = _
  rw [List.lookup_cons]
  by_cases hx : x = l
  · simp [hx]
  · rw [if_neg hx, beq_false_of_ne hx]
    exact (get?_erase t l x).trans (if_neg hx)

@[simp] theorem content?_erase (t : FileTree) (l x : Location) :
    (t.erase l).content? x = if x = l then none else t.content? x := by
  rw [content?, get?_erase]
  split <;> rfl

@[simp] theorem content?_put (t : FileTree) (l x : Location) (entry : Entry) :
    (t.put l entry).content? x = if x = l then some entry.content else t.content? x := by
  rw [content?, get?_put]
  split <;> rfl

/-- A change of a time is no change of content. -/
@[simp] theorem content?_touch (t : FileTree) (l x : Location) (now : Int) :
    (t.touch l now).content? x = t.content? x := by
  unfold touch
  cases hget : t.get? l with
  | none => rfl
  | some entry =>
    simp only [content?_put]
    split
    · rename_i hx
      rw [content?, hx, hget]
      rfl
    · rfl

@[simp] theorem content?_add (t : FileTree) (l x : Location) (entry : Entry) :
    (t.add l entry).content? x = if x = l then some entry.content else t.content? x := by
  rw [add, content?_touch, content?_put]

theorem isDirectory_iff {t : FileTree} {l : Location} :
    t.isDirectory l = true ↔ t.content? l = some none := by
  unfold isDirectory content?
  cases t.get? l with
  | none => simp
  | some entry => simp

theorem isSome_get? (t : FileTree) (l : Location) : (t.get? l).isSome = (t.content? l).isSome := by
  rw [content?, Option.isSome_map]

/-! ## Where paths lead -/

/-- No directory has been taken away. -/
def KeepsDirectories (t t' : FileTree) : Prop :=
  ∀ l, t.content? l = some none → t'.content? l = some none

theorem KeepsDirectories.trans {t u v : FileTree} (h : KeepsDirectories t u)
    (h' : KeepsDirectories u v) : KeepsDirectories t v := fun l hl => h' l (h l hl)

/-- Where one step of a path leads. -/
def next (l : Location) (step : String) : Location :=
  if step = "" ∨ step = "." then l else if step = ".." then l.dropLast else l ++ [step]

theorem follow_nil_eq_ok {t : FileTree} {l d : Location} :
    t.follow l [] = .ok d ↔ (t.content? l).isSome = true ∧ l = d := by
  unfold follow
  rw [isSome_get?]
  by_cases h : (t.content? l).isSome = true
  · simp [h]
  · simp [h]

/-- A step is taken in a directory, and its name is not too long. -/
theorem follow_cons_eq_ok {t : FileTree} {l d : Location} {step : String} {rest : List String} :
    t.follow l (step :: rest) = .ok d
      ↔ t.content? l = some none ∧ step.utf8ByteSize ≤ nameLimit
        ∧ t.follow (next l step) rest = .ok d := by
  unfold next content?
  rw [follow]
  cases t.get? l with
  | none => simp
  | some entry =>
    cases hcontent : entry.content with
    | some content => simp [hcontent]
    | none =>
      simp only [hcontent, Option.isSome_none, Bool.false_eq_true, if_false, Option.map_some,
        true_and]
      by_cases hstay : step = "" ∨ step = "."
      · -- the steps that are no names are short
        have hshort : step.utf8ByteSize ≤ nameLimit := by
          rcases hstay with rfl | rfl <;> decide
        simp only [if_pos hstay, hshort, true_and]
      · by_cases hup : step = ".."
        · have hshort : step.utf8ByteSize ≤ nameLimit := by
            rw [hup]
            decide
          simp only [if_neg hstay, if_pos hup, hshort, true_and]
        · by_cases hlong : nameLimit < step.utf8ByteSize
          · simp [hstay, hup, hlong, Nat.not_le.2 hlong]
          · simp [hstay, hup, hlong, Nat.le_of_not_lt hlong]

theorem follow_append {t : FileTree} {l d e : Location} {steps more : List String}
    (h : t.follow l steps = .ok d) (hmore : t.follow d more = .ok e) :
    t.follow l (steps ++ more) = .ok e := by
  induction steps generalizing l with
  | nil =>
    obtain ⟨-, rfl⟩ := follow_nil_eq_ok.1 h
    exact hmore
  | cons step rest ih =>
    obtain ⟨hdirectory, hshort, hrest⟩ := follow_cons_eq_ok.1 h
    exact follow_cons_eq_ok.2 ⟨hdirectory, hshort, ih hrest⟩

/-- A path leads where it led before if the directories on it are still there, and so is its end. -/
theorem follow_of_keeps {t t' : FileTree} {l d : Location} {steps : List String}
    (h : t.follow l steps = .ok d) (hkeeps : KeepsDirectories t t')
    (hend : (t'.content? d).isSome = true) : t'.follow l steps = .ok d := by
  induction steps generalizing l with
  | nil =>
    obtain ⟨-, rfl⟩ := follow_nil_eq_ok.1 h
    exact follow_nil_eq_ok.2 ⟨hend, rfl⟩
  | cons step rest ih =>
    obtain ⟨hdirectory, hshort, hrest⟩ := follow_cons_eq_ok.1 h
    exact follow_cons_eq_ok.2 ⟨hkeeps l hdirectory, hshort, ih hrest⟩

/-- An entry can be made under a path that ends in a name, in a directory. -/
theorem exists_of_target {t : FileTree} {base l : Location} {p : Path} {unnamed : OsError}
    (h : t.target base p unnamed = .ok l) : checkPath p = .ok () ∧ ∃ d name,
      t.follow (start base p) p.segments.dropLast = .ok d ∧ t.content? d = some none
        ∧ p.segments.getLast? = some name ∧ name.utf8ByteSize ≤ nameLimit
        ∧ next d name = d ++ [name] ∧ l = d ++ [name] := by
  obtain ⟨⟨⟩, hcheck, h⟩ := exists_of_bind_eq_ok h
  obtain ⟨d, hfollow, h⟩ := exists_of_bind_eq_ok h
  by_cases hdirectory : t.isDirectory d = true
  · rw [if_neg (not_not_intro hdirectory)] at h
    split at h
    · rename_i name hlast
      split at h
      · cases h
      · rename_i hname
        split at h
        · cases h
        · rename_i hshort
          cases h
          have hnext : next d name = d ++ [name] := by
            have hstay : ¬ (name = "" ∨ name = ".") := fun h => hname (h.imp_right .inl)
            have hup : name ≠ ".." := fun h => hname (.inr (.inr h))
            rw [next, if_neg hstay, if_neg hup]
          exact ⟨hcheck, d, name, hfollow, isDirectory_iff.1 hdirectory, hlast,
            Nat.le_of_not_lt hshort, hnext, rfl⟩
    · cases h
  · rw [if_pos hdirectory] at h
    cases h

/-- A path under which an entry could be made leads to that entry once it is there. -/
theorem locate_of_target {t t' : FileTree} {base l : Location} {p : Path} {unnamed : OsError}
    (h : t.target base p unnamed = .ok l) (hkeeps : KeepsDirectories t t')
    (hend : (t'.content? l).isSome = true) : t'.locate base p = .ok l := by
  obtain ⟨hcheck, d, name, hfollow, hdirectory, hlast, hshort, hnext, rfl⟩ := exists_of_target h
  have hd : t'.content? d = some none := hkeeps d hdirectory
  have hfollow' : t'.follow (start base p) p.segments.dropLast = .ok d :=
    follow_of_keeps hfollow hkeeps (by rw [hd]; rfl)
  have hsegments : p.segments.dropLast ++ [name] = p.segments := by
    obtain ⟨front, hfront⟩ := List.getLast?_eq_some_iff.1 hlast
    rw [hfront, List.dropLast_concat]
  have hstep : t'.follow d [name] = .ok (d ++ [name]) :=
    follow_cons_eq_ok.2 ⟨hd, hshort, follow_nil_eq_ok.2 ⟨hnext ▸ hend, hnext⟩⟩
  rw [locate, hcheck, ← hsegments]
  exact follow_append hfollow' hstep

/-! ## What the changes do

Times are no content, so only the entries count that are made, moved or taken away. -/

section

variable {t t' t'' : FileTree} {l : Location} {now : Int}

/-- Only the content of one place differs. -/
def ChangesTo (t : FileTree) (l : Location) (content : Option (Option Wire.Bytes)) (t' : FileTree) :
    Prop := ∀ x, t'.content? x = if x = l then content else t.content? x

variable {content content' : Option (Option Wire.Bytes)}

theorem ChangesTo.here (h : t.ChangesTo l content t') : t'.content? l = content := by
  rw [h l, if_pos rfl]

theorem ChangesTo.then (h : t.ChangesTo l content t') (h' : t'.ChangesTo l content' t'') :
    t.ChangesTo l content' t'' := by
  intro x
  rw [h' x, h x]
  split
  · rfl
  · rfl

/-- Where no directory was, none is lost. -/
theorem ChangesTo.keeps (h : t.ChangesTo l content t') (hfile : t.content? l ≠ some none) :
    KeepsDirectories t t' := by
  intro x hx
  have hne : x ≠ l := by
    rintro rfl
    exact hfile hx
  rw [h x, if_neg hne]
  exact hx

theorem changesTo_of_create (h : t.create now l = .ok t') :
    t.content? l ≠ some none ∧ t.ChangesTo l (some (some [])) t' := by
  unfold create at h
  cases hget : t.get? l with
  | none =>
    rw [hget] at h
    cases h
    constructor
    · simp [content?, hget]
    · intro x
      exact content?_add t l x _
  | some entry =>
    simp only [hget] at h
    split at h
    · cases h
    · rename_i hfile
      cases h
      constructor
      · simpa [content?, hget] using hfile
      · intro x
        exact content?_put t l x _

theorem changesTo_of_append {bytes : Wire.Bytes} (h : t.append now l bytes = .ok t') :
    ∃ old, t.content? l = some (some old) ∧ t.ChangesTo l (some (some (old ++ bytes))) t' := by
  unfold append at h
  split at h
  · cases h
  · cases h
  · rename_i old time hget
    cases h
    refine ⟨old, ?_, ?_⟩
    · rw [content?, hget]
      rfl
    · intro x
      exact content?_put t l x _

/-- A file that was made empty holds what it is then extended by. -/
theorem ChangesTo.extended {bytes : Wire.Bytes} (hempty : t.ChangesTo l (some (some [])) t')
    (h : t'.append now l bytes = .ok t'') : t.ChangesTo l (some (some bytes)) t'' := by
  rcases changesTo_of_append h with ⟨old, hold, hfull⟩
  have hnil : old = [] := by
    rw [hempty.here] at hold
    exact (Option.some.inj (Option.some.inj hold)).symm
  rw [hnil, List.nil_append] at hfull
  exact hempty.then hfull

theorem changesTo_of_remove (h : t.remove now l = .ok t') :
    t.content? l ≠ some none ∧ t.ChangesTo l none t' := by
  unfold remove at h
  split at h
  · cases h
  · rename_i entry hget
    split at h
    · cases h
    · rename_i hfile
      cases h
      constructor
      · simpa [content?, hget] using hfile
      · intro x
        rw [content?_touch, content?_erase]

/-- Where a file is, it can be removed. -/
theorem exists_remove {bytes : Wire.Bytes} (h : t.content? l = some (some bytes)) (now : Int) :
    ∃ t', t.remove now l = .ok t' := by
  rcases Option.map_eq_some_iff.1 h with ⟨⟨content, time⟩, hget, hcontent⟩
  have hcontent : content = some bytes := hcontent
  refine ⟨(t.erase l).touch l.dropLast now, ?_⟩
  rw [remove, hget, hcontent]
  rfl

theorem moves_of_rename {goal : Location} {bytes : Wire.Bytes}
    (hsource : t.content? l = some (some bytes)) (h : t.rename now l goal = .ok t') :
    t.content? goal ≠ some none ∧ ∀ x, t'.content? x
      = if x = goal then some (some bytes) else if x = l then none else t.content? x := by
  rcases Option.map_eq_some_iff.1 hsource with ⟨entry, hget, hcontent⟩
  unfold rename at h
  simp only [hget] at h
  split at h
  · cases h
  · rename_i hgoal
    cases h
    constructor
    · intro hdirectory
      exact hgoal (isDirectory_iff.2 hdirectory)
    · intro x
      rw [content?_touch, content?_touch, content?_put, content?_erase, hcontent]

/-- Neither the file that is moved nor what it replaces is a directory. -/
theorem keeps_of_moves {goal : Location} {bytes : Wire.Bytes} (hgoal : t.content? goal ≠ some none)
    (hfile : t.content? l ≠ some none) (hmoves : ∀ x, t'.content? x
      = if x = goal then some (some bytes) else if x = l then none else t.content? x) :
    KeepsDirectories t t' := by
  intro x hx
  have hne : x ≠ goal := by
    rintro rfl
    exact hgoal hx
  have hne' : x ≠ l := by
    rintro rfl
    exact hfile hx
  rw [hmoves x, if_neg hne, if_neg hne']
  exact hx

theorem keeps_of_rename {goal : Location} {bytes : Wire.Bytes}
    (hsource : t.content? l = some (some bytes))
    (h : t.rename now l goal = .ok t') : KeepsDirectories t t' := by
  rcases moves_of_rename hsource h with ⟨hgoal, hmoves⟩
  have hfile : t.content? l ≠ some none := by
    rw [hsource]
    simp
  exact keeps_of_moves hgoal hfile hmoves

end

end FileTree

namespace Machine

open FileTree

/-- The file at a path holds these bytes. -/
theorem read_eq_ok {m : Machine} {path : Path} {l : Location} {bytes : Wire.Bytes}
    (hlocate : m.locate path = .ok l) (hcontent : m.tree.content? l = some (some bytes)) :
    m.read path = .ok bytes := by
  obtain ⟨⟨content, time⟩, hget, hbytes⟩ := Option.map_eq_some_iff.1 hcontent
  have hbytes : content = some bytes := hbytes
  subst hbytes
  simp only [read, hlocate, bind, Except.bind, hget]

/-- What is read is the content of the file that the path leads to. -/
theorem exists_content_of_read {m : Machine} {path : Path} {bytes : Wire.Bytes}
    (h : m.read path = .ok bytes) :
    ∃ d, m.locate path = .ok d ∧ m.tree.content? d = some (some bytes) := by
  rcases exists_of_bind_eq_ok h with ⟨d, hlocate, h⟩
  refine ⟨d, hlocate, ?_⟩
  rw [content?]
  split at h
  · cases h
  · cases h
  · rename_i content time hget
    cases h
    rw [hget]
    rfl

/-- A change that succeeds leaves its tree. -/
theorem exists_of_change {m m' : Machine} {result : Except OsError FileTree}
    (h : m.change result = (.ok (), m')) : ∃ tree, result = .ok tree ∧ m' = { m with tree } := by
  cases result with
  | error e => cases h
  | ok tree =>
    cases h
    exact ⟨tree, rfl, rfl⟩

/-- A new file is empty, and made where nothing was. -/
theorem exists_of_createNew {m : Machine} {path : Path} {tree : FileTree}
    (h : m.createNew path = .ok tree) :
    ∃ l, m.tree.target m.workingDir path .isDirectory = .ok l ∧ m.tree.content? l = none
      ∧ m.tree.ChangesTo l (some (some [])) tree := by
  rcases exists_of_bind_eq_ok h with ⟨l, htarget, h⟩
  split at h
  · cases h
  · rename_i hfree
    rw [isSome_get?, Bool.not_eq_true, Option.isSome_eq_false_iff,
      Option.isNone_iff_eq_none] at hfree
    exact ⟨l, htarget, hfree, (changesTo_of_create h).2⟩

/-- A file that was filled is found under its path. -/
theorem exists_of_fillFile {m m' : Machine} {path : Path} {bytes : Wire.Bytes}
    (h : (fillFile path bytes : StateM Machine _) m = (.ok (), m')) :
    ∃ l, m'.locate path = .ok l ∧ m'.tree.content? l = some (some bytes) := by
  unfold fillFile at h
  rw [bind_apply] at h
  rcases hcreate : (Host.create path : StateM Machine _) m with ⟨created, m₁⟩
  rw [hcreate] at h
  cases created with
  | error e => cases h
  | ok _ =>
    simp only [bind_apply] at h
    rcases happend : (Host.append path bytes : StateM Machine _) m₁ with ⟨appended, m₂⟩
    rw [happend] at h
    cases appended with
    | error e => cases h
    | ok _ =>
      cases h
      -- the file is made empty, found again and extended
      obtain ⟨tree₁, hmade, rfl⟩ := exists_of_change hcreate
      obtain ⟨l, htarget, hmade⟩ := exists_of_bind_eq_ok hmade
      obtain ⟨hfile, hempty⟩ := changesTo_of_create hmade
      obtain ⟨tree₂, hextended, rfl⟩ := exists_of_change happend
      obtain ⟨l', hlocate, hextended⟩ := exists_of_bind_eq_ok hextended
      have hfound : tree₁.locate m.workingDir path = .ok l :=
        locate_of_target htarget (hempty.keeps hfile) (by rw [hempty.here]; rfl)
      have hsame : l' = l := Except.ok.inj (hlocate.symm.trans hfound)
      subst hsame
      have hboth := hempty.extended hextended
      exact ⟨l', locate_of_target htarget (hboth.keeps hfile) (by rw [hboth.here]; rfl), hboth.here⟩

/-- What is renamed is moved to where the new path leads, which has no separators at its end. -/
theorem exists_of_rename {m : Machine} {source goal : Path} {tree : FileTree}
    (h : m.rename source goal = .ok tree) : ∃ l g, m.locate source = .ok l
      ∧ m.tree.target m.workingDir goal .busy = .ok g ∧ m.tree.rename m.now l g = .ok tree := by
  rcases exists_of_bind_eq_ok h with ⟨⟨⟩, -, h⟩
  rcases exists_of_bind_eq_ok h with ⟨l, hlocate, h⟩
  rcases exists_of_bind_eq_ok h with ⟨g, htarget, h⟩
  split at h
  · cases h
  · rename_i htrimmed
    rw [Decidable.not_not.1 htrimmed] at htarget
    exact ⟨l, g, hlocate, htarget, h⟩

/-- A file that was moved is read under its new path. -/
theorem read_of_rename {m m' : Machine} {source goal : Path} {l : Location} {bytes : Wire.Bytes}
    (hlocate : m.locate source = .ok l) (hcontent : m.tree.content? l = some (some bytes))
    (h : (Host.rename source goal : StateM Machine _) m = (.ok (), m')) :
    m'.read goal = .ok bytes := by
  obtain ⟨tree, hrename, rfl⟩ := exists_of_change h
  obtain ⟨l', g, hlocate', htarget, hrename⟩ := exists_of_rename hrename
  have hsame : l' = l := Except.ok.inj (hlocate'.symm.trans hlocate)
  subst hsame
  have hkeeps := keeps_of_rename hcontent hrename
  obtain ⟨-, hmoves⟩ := moves_of_rename hcontent hrename
  have hmoved : tree.content? g = some (some bytes) := by rw [hmoves g, if_pos rfl]
  exact read_eq_ok (locate_of_target htarget hkeeps (by rw [hmoved]; rfl)) hmoved

/-- A file whose content was replaced holds the new content. -/
theorem read_of_replaceFile {m : Machine} {path : Path} {bytes : Wire.Bytes}
    (h : ((replaceFile path bytes : StateM Machine _) m).1 = .ok ()) :
    ((replaceFile path bytes : StateM Machine _) m).2.read path = .ok bytes := by
  rcases hrun : (replaceFile path bytes : StateM Machine _) m with ⟨result, m'⟩
  rw [hrun] at h
  have hok : result = .ok () := h
  subst hok
  unfold replaceFile at hrun
  cases hname : path.fileName? with
  | none =>
    rw [hname] at hrun
    cases hrun
  | some name =>
    simp only [hname, bind_apply] at hrun
    rcases hmark : (Host.scratchMark : StateM Machine _) m with ⟨mark, m₀⟩
    rw [hmark] at hrun
    rcases hfill : (fillFile (path.scratch name mark) bytes : StateM Machine _) m₀ with ⟨filled, m₁⟩
    rw [hfill] at hrun
    cases filled with
    | error e => cases hrun
    | ok _ =>
      simp only [bind_apply] at hrun
      rcases hrename : (Host.rename (path.scratch name mark) path : StateM Machine _) m₁
        with ⟨renamed, m₂⟩
      rw [hrename] at hrun
      cases renamed with
      | error e => cases hrun
      | ok _ =>
        cases hrun
        obtain ⟨l, hlocate, hcontent⟩ := exists_of_fillFile hfill
        exact read_of_rename hlocate hcontent hrename

end Machine

end EvidenceTags
