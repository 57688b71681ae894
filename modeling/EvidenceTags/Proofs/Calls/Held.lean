import EvidenceTags.Proofs.ScratchFiles

/-!
# What a path leads to, while other places change

`Machine.held` is what is found under a path: nothing, a directory, or a file with some content.
While files come and go elsewhere, it stays what it is. Where they come and go is told by their
names (`Machine.DiffersAt`): a path that leads to a file of another name still leads there, and to
the same content (`Machine.DiffersAt.held`).
-/

namespace EvidenceTags

/-- A file that a path leads to bears this name. -/
def Path.LeadsTo (path : Path) (name : String) : Prop :=
  ∀ (t : FileTree) (base d : Location), t.locate base path = .ok d → t.content? d ≠ some none →
    d.getLast? = some name

theorem Path.leadsTo_of_getLast? {path : Path} {name : String} (hmove : ¬ FileTree.IsMove name)
    (h : path.segments.getLast? = some name) : path.LeadsTo name :=
  fun _ _ _ hlocate _ => FileTree.getLast?_of_locate hmove h hlocate

namespace Machine

open FileTree

variable {m m' m'' : Machine} {path : Path} {l : Location}

/-- What is found under a path. A directory has no content. -/
def held (m : Machine) (path : Path) : Option (Option Wire.Bytes) :=
  (m.entry? path).map Entry.content

theorem held_of_locate (h : m.locate path = .ok l) : m.held path = m.tree.content? l := by
  rw [held, entry?, h]
  rfl

theorem held_of_error {e : OsError} (h : m.locate path = .error e) : m.held path = none := by
  rw [held, entry?, h]
  rfl

theorem held_eq_none : m.held path = none ↔ ∀ l, m.locate path ≠ .ok l := by
  cases hlocate : m.locate path with
  | error e => exact iff_of_true (held_of_error hlocate) nofun
  | ok l =>
    have hend := isSome_end_of_follow (follow_of_locate hlocate).2
    rw [held_of_locate hlocate]
    refine iff_of_false ?_ fun hall => hall l rfl
    intro hnone
    rw [hnone] at hend
    cases hend

theorem exists_of_held {content : Option Wire.Bytes} (h : m.held path = some content) :
    ∃ l, m.locate path = .ok l ∧ m.tree.content? l = some content := by
  cases hlocate : m.locate path with
  | ok l =>
    rw [held_of_locate hlocate] at h
    exact ⟨l, rfl, h⟩
  | error e =>
    rw [held_of_error hlocate] at h
    cases h

/-- A file is read exactly if it is found. -/
theorem read_eq_ok_iff {bytes : Wire.Bytes} :
    m.read path = .ok bytes ↔ m.held path = some (some bytes) := by
  constructor
  · intro h
    rcases exists_content_of_read h with ⟨d, hlocate, hcontent⟩
    rw [held_of_locate hlocate, hcontent]
  · intro h
    rcases exists_of_held h with ⟨l, hlocate, hcontent⟩
    exact read_eq_ok hlocate hcontent

/-- Two machines have the same files but for some with these names, and the same directories. -/
structure DiffersAt (names : String → Prop) (m m' : Machine) : Prop where
  content : ∀ l, m'.tree.content? l ≠ m.tree.content? l →
    ∃ name, l.getLast? = some name ∧ names name
  keeps : KeepsDirectories m.tree m'.tree
  adds : KeepsDirectories m'.tree m.tree
  workingDir : m'.workingDir = m.workingDir

variable {names others : String → Prop}

theorem differsAt_of_tree (htree : m'.tree = m.tree) (hbase : m'.workingDir = m.workingDir) :
    DiffersAt names m m' := by
  refine ⟨?_, ?_, ?_, hbase⟩
  · intro l hl
    rw [htree] at hl
    exact absurd rfl hl
  · rw [htree]
    exact fun _ h => h
  · rw [htree]
    exact fun _ h => h

theorem DiffersAt.refl (m : Machine) : DiffersAt names m m := differsAt_of_tree rfl rfl

theorem DiffersAt.symm (h : DiffersAt names m m') : DiffersAt names m' m :=
  ⟨fun l hl => h.content l hl.symm, h.adds, h.keeps, h.workingDir.symm⟩

theorem DiffersAt.mono (h : DiffersAt names m m') (hnames : ∀ name, names name → others name) :
    DiffersAt others m m' := by
  refine ⟨?_, h.keeps, h.adds, h.workingDir⟩
  intro l hl
  rcases h.content l hl with ⟨name, hlast, hname⟩
  exact ⟨name, hlast, hnames name hname⟩

/-- One place has changed, where no directory was or is. -/
theorem differsAt_of_changesTo {left : Option Wire.Bytes} {name : String}
    (hchange : m.tree.ChangesTo l (left.map some) m'.tree) (hfile : m.tree.content? l ≠ some none)
    (hlast : l.getLast? = some name) (hname : names name) (hbase : m'.workingDir = m.workingDir) :
    DiffersAt names m m' := by
  have halike := hchange.alikeBut hfile
  refine ⟨?_, halike.keeps, halike.symm.keeps, hbase⟩
  intro x hx
  have hplace : x = l := by
    by_contra hne
    exact hx (halike.content x hne)
  rw [hplace]
  exact ⟨name, hlast, hname⟩

/-- A path leads on to a place, if the directories are still there. -/
theorem locate_of_keeps (hlocate : m.locate path = .ok l) (hbase : m'.workingDir = m.workingDir)
    (hkeeps : KeepsDirectories m.tree m'.tree) (hthere : m'.tree.content? l ≠ none) :
    m'.locate path = .ok l := by
  rcases follow_of_locate hlocate with ⟨hcheck, hfollow⟩
  rw [Machine.locate, hbase, FileTree.locate, hcheck]
  exact follow_of_keeps hfollow hkeeps (Option.isSome_iff_ne_none.2 hthere)

/-- What is where a path led is found under it, if the directories are still there. -/
theorem held_of_keeps {content : Option Wire.Bytes} (hlocate : m.locate path = .ok l)
    (hbase : m'.workingDir = m.workingDir) (hkeeps : KeepsDirectories m.tree m'.tree)
    (hcontent : m'.tree.content? l = some content) : m'.held path = some content := by
  have hlocate' := locate_of_keeps hlocate hbase hkeeps (by rw [hcontent]; exact nofun)
  rw [held_of_locate hlocate', hcontent]

/-- Where a path leads is read off its steps. -/
theorem locate_unique {l' : Location} (hlocate : m.locate path = .ok l)
    (hbase : m'.workingDir = m.workingDir) (hlocate' : m'.locate path = .ok l') : l = l' := by
  have hfollow' := (follow_of_locate hlocate').2
  rw [hbase] at hfollow'
  exact (foldl_next_of_follow (follow_of_locate hlocate).2).symm.trans
    (foldl_next_of_follow hfollow')

/-- Where nothing is any more, nothing is found under a path that led there. -/
theorem held_of_gone (hlocate : m.locate path = .ok l) (hbase : m'.workingDir = m.workingDir)
    (hgone : m'.tree.content? l = none) : m'.held path = none := by
  rw [held_eq_none]
  intro l' hlocate'
  have hend := isSome_end_of_follow (follow_of_locate hlocate').2
  rw [← locate_unique hlocate hbase hlocate', hgone] at hend
  cases hend

/-- A file of another name is still found. -/
theorem DiffersAt.locate (h : DiffersAt names m m') {name : String} (hleads : path.LeadsTo name)
    (hname : ¬ names name) (hlocate : m.locate path = .ok l) :
    m'.locate path = .ok l ∧ m'.tree.content? l = m.tree.content? l := by
  have hsame : m'.tree.content? l = m.tree.content? l := by
    by_cases hdirectory : m.tree.content? l = some none
    · rw [hdirectory]
      exact h.keeps l hdirectory
    · have hlast := hleads m.tree m.workingDir l hlocate hdirectory
      by_contra hne
      rcases h.content l hne with ⟨other, hother, hnames⟩
      rw [hlast] at hother
      cases hother
      exact hname hnames
  have hthere : m'.tree.content? l ≠ none := by
    rw [hsame]
    exact Option.isSome_iff_ne_none.1 (isSome_end_of_follow (follow_of_locate hlocate).2)
  exact ⟨locate_of_keeps hlocate h.workingDir h.keeps hthere, hsame⟩

theorem DiffersAt.held (h : DiffersAt names m m') {name : String} (hleads : path.LeadsTo name)
    (hname : ¬ names name) : m'.held path = m.held path := by
  cases hlocate : m.locate path with
  | ok l =>
    rcases h.locate hleads hname hlocate with ⟨hlocate', hsame⟩
    rw [held_of_locate hlocate', held_of_locate hlocate, hsame]
  | error e =>
    rw [held_of_error hlocate, held_eq_none]
    intro l hlocate'
    rw [(h.symm.locate hleads hname hlocate').1] at hlocate
    cases hlocate

/-! ## Files that come and go -/

/-- A file has been made, changed or removed where a path leads, and now this is left of it. -/
structure PutAt (m : Machine) (path : Path) (l : Location) (left : Option Wire.Bytes)
    (m' : Machine) : Prop where
  change : m.tree.ChangesTo l (left.map some) m'.tree
  file : m.tree.content? l ≠ some none
  workingDir : m'.workingDir = m.workingDir
  process : m'.process = m.process
  serial : m'.serial = m.serial
  located : m.locate path = .ok l ∨ m'.locate path = .ok l

variable {left : Option Wire.Bytes} {tree : FileTree} {name : String}

theorem PutAt.held (h : m.PutAt path l left m') : m'.held path = left.map some := by
  rcases h.located with hlocate | hlocate
  · have hhere := h.change.here
    cases left with
    | none => exact held_of_gone hlocate h.workingDir hhere
    | some bytes => exact held_of_keeps hlocate h.workingDir (h.change.keeps h.file) hhere
  · rw [held_of_locate hlocate]
    exact h.change.here

theorem PutAt.differsAt (h : m.PutAt path l left m') (hleads : path.LeadsTo name)
    (hname : names name) : m.DiffersAt names m' := by
  have hlast : l.getLast? = some name := by
    rcases h.located with hlocate | hlocate
    · exact hleads _ _ l hlocate h.file
    · exact hleads _ _ l hlocate (h.change.alikeBut h.file).after
  exact differsAt_of_changesTo h.change h.file hlast hname h.workingDir

/-- The path leads to what has been put there. -/
theorem PutAt.locate {bytes : Wire.Bytes} (h : m.PutAt path l (some bytes) m') :
    m'.locate path = .ok l := by
  rcases exists_of_held h.held with ⟨l', hlocate', -⟩
  rcases h.located with hlocate | hlocate
  · rw [locate_unique hlocate h.workingDir hlocate']
    exact hlocate'
  · exact hlocate

/-- An empty file is put where one can be made. -/
theorem putAt_of_made {unnamed : OsError}
    (htarget : m.tree.target m.workingDir path unnamed = .ok l)
    (hfile : m.tree.content? l ≠ some none)
    (hchange : m.tree.ChangesTo l (some (some [])) tree) :
    m.PutAt path l (some []) { m with tree } :=
  ⟨hchange, hfile, rfl, rfl, rfl,
    .inr (locate_of_target htarget (hchange.keeps hfile) (by rw [hchange.here]; rfl))⟩

theorem putAt_of_create (h : m.create path = .ok tree) :
    ∃ l, m.PutAt path l (some []) { m with tree } := by
  rcases exists_of_bind_eq_ok h with ⟨l, htarget, hcreate⟩
  rcases changesTo_of_create hcreate with ⟨hfile, hchange⟩
  exact ⟨l, putAt_of_made htarget hfile hchange⟩

theorem putAt_of_createNew (h : m.createNew path = .ok tree) :
    ∃ l, m.PutAt path l (some []) { m with tree } := by
  rcases exists_of_createNew h with ⟨l, htarget, hnone, hchange⟩
  have hfile : m.tree.content? l ≠ some none := by
    rw [hnone]
    exact nofun
  exact ⟨l, putAt_of_made htarget hfile hchange⟩

theorem putAt_of_append {old bytes : Wire.Bytes} (hold : m.held path = some (some old))
    (h : (do m.tree.append m.now (← m.locate path) bytes) = .ok tree) :
    ∃ l, m.PutAt path l (some (old ++ bytes)) { m with tree } := by
  rcases exists_of_bind_eq_ok h with ⟨l, hlocate, happend⟩
  rcases changesTo_of_append happend with ⟨content, hcontent, hchange⟩
  rw [held_of_locate hlocate, hcontent] at hold
  cases hold
  have hfile : m.tree.content? l ≠ some none := by
    rw [hcontent]
    simp
  exact ⟨l, hchange, hfile, rfl, rfl, rfl, .inl hlocate⟩

theorem putAt_of_remove (h : (do m.tree.remove m.now (← m.locate path)) = .ok tree) :
    ∃ l, m.PutAt path l none { m with tree } := by
  rcases exists_of_bind_eq_ok h with ⟨l, hlocate, hremove⟩
  rcases changesTo_of_remove hremove with ⟨hfile, hchange⟩
  exact ⟨l, hchange, hfile, rfl, rfl, rfl, .inl hlocate⟩

/-- A file that is found can be removed. -/
theorem exists_remove_of_held {bytes : Wire.Bytes} (h : m.held path = some (some bytes)) :
    ∃ tree, (do m.tree.remove m.now (← m.locate path)) = .ok tree := by
  rcases exists_of_held h with ⟨l, hlocate, hcontent⟩
  rcases exists_remove hcontent m.now with ⟨tree, htree⟩
  refine ⟨tree, ?_⟩
  rw [hlocate]
  exact htree

end Machine

end EvidenceTags
