import EvidenceTags.Proofs.OnMachine
import EvidenceTags.Proofs.ParentDirectory
import Mathlib.Data.String.Basic

/-!
# Finding out whether a file can be written, and writing it

Before state is saved, a file is made and removed again in the directory of the state file, to find
out whether the state file can be made. To write it, a scratch file is made in the same directory
and renamed. Where nothing is at the path of the state file, the two succeed under conditions that
are much alike (`Machine.saveTarget_eq_iff`, `Machine.replaceFile_eq_ok_iff`), and
`Machine.saveTarget_agrees_iff` compares them:

* both need a directory, a name for their own file that is not too long, and a place for it that is
  not taken, where the probe also gives way to a file;
* the probe refuses the empty path for the working directory, which the writer takes for `.`;
* the writer needs the path of the state file itself, of whose length the probe learns nothing.
-/

namespace EvidenceTags

namespace Machine

open FileTree

variable {m m' : Machine} {dir cookie path : Path} {name : String} {d l : Location}
    {bytes : Wire.Bytes}

/-! ## Making a file -/

/-- Neither the path of a file in a directory nor its name is refused. -/
structure Admits (dir : Path) (name : String) : Prop where
  path : checkPath (dir.join name) = .ok ()
  short : name.utf8ByteSize ≤ nameLimit

theorem target_join_eq_ok {unnamed : OsError} (hmove : ¬ IsMove name) (hname : '/' ∉ name.toList) :
    m.tree.target m.workingDir (dir.join name) unnamed = .ok l
      ↔ Admits dir name ∧ ∃ d, m.tree.Enters m.workingDir dir d ∧ l = d ++ [name] := by
  rw [target_join hmove hname, ← and_assoc]
  constructor
  · rintro ⟨⟨hpath, hshort⟩, hd⟩
    exact ⟨⟨hpath, hshort⟩, hd⟩
  · rintro ⟨⟨hpath, hshort⟩, hd⟩
    exact ⟨⟨hpath, hshort⟩, hd⟩

/-- A file is made or emptied where no directory is. -/
theorem exists_tree_create {t : FileTree} {now : Int} :
    (∃ t', t.create now l = .ok t') ↔ t.content? l ≠ some none := by
  constructor
  · rintro ⟨t', h⟩
    exact (changesTo_of_create h).1
  · intro h
    unfold FileTree.create
    unfold content? at h
    cases hget : t.get? l with
    | none => exact ⟨_, rfl⟩
    | some entry =>
      cases hcontent : entry.content with
      | none => simp [hget, hcontent] at h
      | some content =>
        simp only [hcontent, Option.isNone_some, Bool.false_eq_true, if_false]
        exact ⟨_, rfl⟩

theorem exists_create : (∃ tree, m.create path = .ok tree)
    ↔ ∃ l, m.tree.target m.workingDir path .isDirectory = .ok l
      ∧ m.tree.content? l ≠ some none := by
  constructor
  · rintro ⟨tree, h⟩
    rcases exists_of_bind_eq_ok h with ⟨l, htarget, hcreate⟩
    exact ⟨l, htarget, exists_tree_create.1 ⟨tree, hcreate⟩⟩
  · rintro ⟨l, htarget, hfile⟩
    rcases exists_tree_create.2 hfile with ⟨tree, htree⟩
    refine ⟨tree, ?_⟩
    rw [create, htarget]
    exact htree

theorem exists_createNew : (∃ tree, m.createNew path = .ok tree)
    ↔ ∃ l, m.tree.target m.workingDir path .isDirectory = .ok l ∧ m.tree.content? l = none := by
  constructor
  · rintro ⟨tree, h⟩
    rcases exists_of_createNew h with ⟨l, htarget, hnone, -⟩
    exact ⟨l, htarget, hnone⟩
  · rintro ⟨l, htarget, hnone⟩
    have hget : ¬ (m.tree.get? l).isSome = true := by
      rw [isSome_get?, hnone]
      exact Bool.false_ne_true
    have hfile : m.tree.content? l ≠ some none := by
      rw [hnone]
      exact nofun
    rcases exists_tree_create.2 hfile with ⟨tree, htree⟩
    refine ⟨tree, ?_⟩
    rw [createNew, htarget]
    show (if _ then _ else _) = _
    rw [if_neg hget]
    exact htree

/-! ## Filling a scratch file -/

theorem exists_tree_append {t : FileTree} {now : Int} {old : Wire.Bytes}
    (h : t.content? l = some (some old))
    (bytes : Wire.Bytes) : ∃ t', t.append now l bytes = .ok t' := by
  rcases Option.map_eq_some_iff.1 h with ⟨⟨content, time⟩, hget, hcontent⟩
  have hcontent : content = some old := hcontent
  refine ⟨t.put l ⟨some (old ++ bytes), now⟩, ?_⟩
  rw [FileTree.append, hget, hcontent]

/-- Once a file is made, nothing keeps it from being filled. -/
theorem fillFile_of_target (htarget : m.tree.target m.workingDir path .isDirectory = .ok l)
    (hfile : m.tree.content? l ≠ some none) (bytes : Wire.Bytes) :
    ∃ m', (fillFile path bytes : StateM Machine _) m = (.ok (), m') ∧ m'.workingDir = m.workingDir
      ∧ m'.locate path = .ok l ∧ m.tree.ChangesTo l (some (some bytes)) m'.tree := by
  rcases exists_tree_create.2 hfile with ⟨tree₁, hmade⟩
  rcases changesTo_of_create hmade with ⟨-, hempty⟩
  have hcreate : m.create path = .ok tree₁ := by
    rw [create, htarget]
    exact hmade
  have hfound : tree₁.locate m.workingDir path = .ok l :=
    locate_of_target htarget (hempty.keeps hfile) (by rw [hempty.here]; rfl)
  rcases exists_tree_append hempty.here bytes with ⟨tree₂, hextended⟩
  have hboth := hempty.extended hextended
  refine ⟨{ m with tree := tree₂ }, ?_, rfl, ?_, hboth⟩
  · have happend : (do tree₁.append m.now (← tree₁.locate m.workingDir path) bytes)
      = .ok tree₂ := by
      rw [hfound]
      exact hextended
    have hcreated :
        (Host.create path : StateM Machine _) m = (.ok (), { m with tree := tree₁ }) := by
      show m.change (m.create path) = _
      rw [hcreate]
      rfl
    have happended : (Host.append path bytes : StateM Machine _) { m with tree := tree₁ }
        = (.ok (), { m with tree := tree₂ }) := by
      show Machine.change _ (do tree₁.append m.now (← tree₁.locate m.workingDir path) bytes) = _
      rw [happend]
      rfl
    rw [fillFile, bind_apply, hcreated]
    simp only [bind_apply, happended]
    rfl
  · exact locate_of_target htarget (hboth.keeps hfile) (by rw [hboth.here]; rfl)

/-- A file is filled exactly if it can be made. -/
theorem fillFile_eq_ok_iff : ((fillFile path bytes : StateM Machine _) m).1 = .ok ()
    ↔ ∃ l, m.tree.target m.workingDir path .isDirectory = .ok l
      ∧ m.tree.content? l ≠ some none := by
  constructor
  · intro h
    apply exists_create.1
    cases hcreate : m.create path with
    | ok tree => exact ⟨tree, rfl⟩
    | error e =>
      have hcreated : (Host.create path : StateM Machine _) m = (.error e, m) := by
        show m.change (m.create path) = _
        rw [hcreate]
        rfl
      rw [fillFile, bind_apply, hcreated] at h
      cases h
  · rintro ⟨l, htarget, hfile⟩
    rcases fillFile_of_target htarget hfile bytes with ⟨m', hfill, -⟩
    rw [hfill]

/-! ## Moving it over a file -/

/-- A file is moved to a path that is not refused and does not lead to a directory. -/
theorem exists_rename {source : Path} (hmove : ¬ IsMove name) (hname : '/' ∉ name.toList)
    (hlocate : m.locate source = .ok l) (hcontent : m.tree.content? l = some (some bytes)) :
    (∃ tree, m.rename source (dir.join name) = .ok tree)
      ↔ ∃ g, m.tree.target m.workingDir (dir.join name) .busy = .ok g
        ∧ m.tree.content? g ≠ some none := by
  have htrimmed :
      (⟨String.ofList ((dir.join name).text.toList.reverse.dropWhile (· = '/')).reverse⟩ : Path)
      = dir.join name := by
    have hnonempty : name ≠ "" := fun hempty => hmove (.inl hempty)
    rw [Path.dropWhile_join hnonempty hname, List.reverse_reverse, String.ofList_toList]
  constructor
  · rintro ⟨tree, h⟩
    rcases exists_of_rename h with ⟨l', g, hlocate', htarget, hrename⟩
    have hsame : l' = l := Except.ok.inj (hlocate'.symm.trans hlocate)
    rw [hsame] at hrename
    exact ⟨g, htarget, (moves_of_rename hcontent hrename).1⟩
  · rintro ⟨g, htarget, hfile⟩
    have hdirectory : ¬ m.tree.isDirectory g = true := fun h => hfile (isDirectory_iff.1 h)
    rcases Option.map_eq_some_iff.1 hcontent with ⟨entry, hget, -⟩
    have hcheck := (exists_of_target htarget).1
    rw [rename, hcheck, hlocate]
    simp only [bind, Except.bind, htrimmed, htarget, ne_eq, not_true_eq_false, if_false,
      FileTree.rename, hget, hdirectory]
    exact ⟨_, rfl⟩

/-- A file is replaced if its scratch file is filled and moved. -/
theorem replaceFile_eq_ok_iff_moved (hname : path.fileName? = some name) :
    ((replaceFile path bytes : StateM Machine _) m).1 = .ok ()
      ↔ ∃ m', (fillFile (path.scratch name (m.markAt m.serial)) bytes : StateM Machine _)
          { m with serial := m.serial + 1 } = (.ok (), m')
        ∧ ∃ tree, m'.rename (path.scratch name (m.markAt m.serial)) path = .ok tree := by
  have hmark : (Host.scratchMark : StateM Machine _) m
      = (m.markAt m.serial, { m with serial := m.serial + 1 }) := rfl
  rw [replaceFile, hname]
  simp only [bind_apply, hmark]
  rcases (fillFile (path.scratch name (m.markAt m.serial)) bytes : StateM Machine _)
    { m with serial := m.serial + 1 } with ⟨filled, m'⟩
  cases filled with
  | error e =>
    refine iff_of_false nofun ?_
    rintro ⟨_, heq, -⟩
    cases heq
  | ok _ =>
    have hrename : (Host.rename (path.scratch name (m.markAt m.serial)) path : StateM Machine _) m'
        = m'.change (m'.rename (path.scratch name (m.markAt m.serial)) path) := rfl
    simp only [bind_apply, hrename]
    cases hmoved : m'.rename (path.scratch name (m.markAt m.serial)) path with
    | ok tree => exact iff_of_true rfl ⟨m', rfl, tree, hmoved⟩
    | error e =>
      refine iff_of_false nofun ?_
      rintro ⟨_, heq, tree, htree⟩
      cases heq
      rw [hmoved] at htree
      cases htree

/-- A file in a directory is replaced exactly if neither its path nor that of the scratch file is
refused, and none of the two leads to a directory. -/
theorem replaceFile_eq_ok_iff (hmove : ¬ IsMove name) (hname : '/' ∉ name.toList)
    (bytes : Wire.Bytes) :
    ((replaceFile (dir.join name) bytes : StateM Machine _) m).1 = .ok ()
      ↔ ∃ d, m.tree.Enters m.workingDir dir d
        ∧ Admits (dir.join name).directory (Path.scratchName name (m.markAt m.serial))
        ∧ m.tree.content? (d ++ [Path.scratchName name (m.markAt m.serial)]) ≠ some none
        ∧ Admits dir name ∧ m.tree.content? (d ++ [name]) ≠ some none := by
  let mark := m.markAt m.serial
  let marked : Machine := { m with serial := m.serial + 1 }
  -- where the scratch file is made
  have hscratch (l : Location) :
      marked.tree.target marked.workingDir ((dir.join name).scratch name mark) .isDirectory = .ok l
        ↔ Admits (dir.join name).directory (Path.scratchName name mark)
          ∧ ∃ d, m.tree.Enters m.workingDir dir d ∧ l = d ++ [Path.scratchName name mark] := by
    refine (target_join_eq_ok (Path.not_isMove_scratchName name mark)
      (Path.notMem_scratchName hname (m.notMem_markAt m.serial))).trans
        (and_congr_right fun _ => ?_)
    exact exists_congr fun d => and_congr_left' (enters_directory hmove hname)
  -- it is in the way neither of the directory nor of the file
  have hmoved {d : Location} (henters : m.tree.Enters m.workingDir dir d)
      (hfile : m.tree.content? (d ++ [Path.scratchName name mark]) ≠ some none) {filled : Machine}
      (hbase : filled.workingDir = m.workingDir)
      (hlocate : filled.locate ((dir.join name).scratch name mark)
        = .ok (d ++ [Path.scratchName name mark]))
      (hchange : m.tree.ChangesTo (d ++ [Path.scratchName name mark]) ((some bytes).map some)
        filled.tree) :
      (∃ tree, filled.rename ((dir.join name).scratch name mark) (dir.join name) = .ok tree)
        ↔ Admits dir name ∧ m.tree.content? (d ++ [name]) ≠ some none := by
    have halike := hchange.alikeBut hfile
    have hne : d ++ [name] ≠ d ++ [Path.scratchName name mark] := fun heq =>
      Path.scratchName_ne name mark (List.singleton_inj.1 (List.append_cancel_left heq))
    rw [exists_rename hmove hname hlocate hchange.here, ← halike.content _ hne]
    constructor
    · rintro ⟨g, htarget, hfree⟩
      rcases (target_join_eq_ok hmove hname).1 htarget with ⟨hadmits, d', henters', rfl⟩
      rw [hbase] at henters'
      rw [henters.unique (henters'.keeps halike.symm.keeps)]
      exact ⟨hadmits, hfree⟩
    · rintro ⟨hadmits, hfree⟩
      have henters' : filled.tree.Enters filled.workingDir dir d := by
        rw [hbase]
        exact henters.keeps halike.keeps
      exact ⟨_, (target_join_eq_ok hmove hname).2 ⟨hadmits, d, henters', rfl⟩, hfree⟩
  rw [replaceFile_eq_ok_iff_moved (Path.fileName?_join hmove hname)]
  constructor
  · rintro ⟨filled, hfill, hrename⟩
    rcases fillFile_eq_ok_iff.1 (congrArg Prod.fst hfill) with ⟨l, htarget, hfile⟩
    rcases fillFile_of_target htarget hfile bytes with ⟨m', hfill', hbase, hlocate, hchange⟩
    rcases (hscratch l).1 htarget with ⟨hadmits, d, henters, rfl⟩
    cases hfill'.symm.trans hfill
    rcases (hmoved henters hfile hbase hlocate hchange).1 hrename with ⟨hadmits', hfree⟩
    exact ⟨d, henters, hadmits, hfile, hadmits', hfree⟩
  · rintro ⟨d, henters, hadmits, hfile, hadmits', hfree⟩
    have htarget := (hscratch _).2 ⟨hadmits, d, henters, rfl⟩
    rcases fillFile_of_target htarget hfile bytes with ⟨filled, hfill, hbase, hlocate, hchange⟩
    exact ⟨filled, hfill, (hmoved henters hfile hbase hlocate hchange).2 ⟨hadmits', hfree⟩⟩

/-! ## Probing a directory -/

/-- The same files and directories are there, and paths start from where they started. -/
structure Alike (m m' : Machine) : Prop where
  content : ∀ l, m'.tree.content? l = m.tree.content? l
  workingDir : m'.workingDir = m.workingDir

theorem Alike.keeps (h : Alike m m') : KeepsDirectories m.tree m'.tree := by
  intro l hl
  rw [h.content l]
  exact hl

theorem Alike.symm (h : Alike m m') : Alike m' m := ⟨fun l => (h.content l).symm, h.workingDir.symm⟩

theorem Alike.enters (h : Alike m m') :
    m'.tree.Enters m'.workingDir path d ↔ m.tree.Enters m.workingDir path d := by
  rw [h.workingDir]
  exact ⟨fun henters => henters.keeps h.symm.keeps, fun henters => henters.keeps h.keeps⟩

/-- Paths lead where they led. -/
theorem Alike.locate (h : Alike m m') (hlocate : m.locate path = .ok l) :
    m'.locate path = .ok l := by
  rcases follow_of_locate hlocate with ⟨hcheck, hfollow⟩
  have hend : (m'.tree.content? l).isSome = true := by
    rw [h.content l]
    exact isSome_end_of_follow hfollow
  rw [Machine.locate, FileTree.locate, hcheck, h.workingDir]
  exact follow_of_keeps hfollow h.keeps hend

/-- Nothing is at a path exactly if it leads nowhere. -/
theorem status?_eq_none : m.status? path = none ↔ ∀ l, m.locate path ≠ .ok l := by
  rw [status?, Option.map_eq_none_iff, entry?]
  cases hlocate : m.locate path with
  | error e => simp
  | ok l =>
    have hend := isSome_end_of_follow (follow_of_locate hlocate).2
    have hget : m.tree.get? l ≠ none := by
      intro hnone
      rw [content?, hnone] at hend
      cases hend
    exact iff_of_false hget fun hall => hall l rfl

theorem Alike.status?_eq_none (h : Alike m m') (hnone : m.status? path = none) :
    m'.status? path = none := by
  rw [Machine.status?_eq_none] at hnone ⊢
  intro l hlocate
  exact hnone l (h.symm.locate hlocate)

/-- A directory is at a path exactly if the path is not refused and leads to one. -/
theorem exists_status?_directory : (∃ time, m.status? path = some ⟨true, time⟩)
    ↔ checkPath path = .ok () ∧ ∃ d, m.tree.Enters m.workingDir path d := by
  constructor
  · rintro ⟨time, hstatus⟩
    rcases Option.map_eq_some_iff.1 hstatus with ⟨entry, hentry, heq⟩
    unfold entry? at hentry
    split at hentry
    · rename_i l hlocate
      rcases follow_of_locate hlocate with ⟨hcheck, hfollow⟩
      refine ⟨hcheck, l, hfollow, ?_⟩
      have hnone : entry.content = none := Option.isNone_iff_eq_none.1 (FileStatus.mk.inj heq).1
      rw [content?, hentry, Option.map_some, hnone]
    · cases hentry
  · rintro ⟨hcheck, d, hfollow, hd⟩
    have hlocate : m.locate path = .ok d := by
      rw [Machine.locate, FileTree.locate, hcheck]
      exact hfollow
    rcases Option.map_eq_some_iff.1 hd with ⟨entry, hget, hnone⟩
    refine ⟨entry.modified, ?_⟩
    rw [status?, entry?, hlocate]
    show (m.tree.get? d).map _ = _
    rw [hget, Option.map_some, hnone]
    rfl

/-- What a probe does in a directory. -/
theorem canCreateIn_cases {time : Int} (hstatus : m.status? dir = some ⟨true, time⟩) {probe : Path}
    (hprobe : dir.join (Path.probeName (m.markAt m.serial)) = probe) :
    (∃ made, m.createNew probe = .ok made ∧ ((canCreateIn dir : StateM Machine Bool) m).1 = true
        ∧ ((canCreateIn dir : StateM Machine Bool) m).2 = ((Host.remove probe : StateM Machine _)
          { m with tree := made, serial := m.serial + 1 }).2)
      ∨ (∀ made, m.createNew probe ≠ .ok made)
        ∧ (canCreateIn dir : StateM Machine Bool) m
          = (false, { m with serial := m.serial + 1 }) := by
  have hmark : (Host.scratchMark : StateM Machine _) m
      = (m.markAt m.serial, { m with serial := m.serial + 1 }) := rfl
  have hmake : (Host.createNew probe : StateM Machine _) { m with serial := m.serial + 1 }
      = Machine.change { m with serial := m.serial + 1 } (m.createNew probe) := rfl
  unfold Path.probeName at hprobe
  simp only [canCreateIn, bind_apply, status_apply, hstatus, hmark, hprobe, hmake]
  cases m.createNew probe with
  | ok made => exact .inl ⟨made, rfl, rfl, rfl⟩
  | error e => exact .inr ⟨nofun, rfl⟩

/-- A file that was made where nothing was is removed, and then everything is as it was. -/
theorem alike_remove {made : FileTree} (hmade : m.createNew path = .ok made) (serial : Nat) :
    Alike m
      ((Host.remove path : StateM Machine _) { m with tree := made, serial := serial }).2 := by
  rcases exists_of_createNew hmade with ⟨l, htarget, hnone, hchange⟩
  have hfile : m.tree.content? l ≠ some none := by
    rw [hnone]
    exact nofun
  have hlocate : made.locate m.workingDir path = .ok l :=
    locate_of_target htarget (hchange.keeps hfile) (by rw [hchange.here]; rfl)
  rcases exists_remove hchange.here m.now with ⟨gone, hgone⟩
  have hremove : (Host.remove path : StateM Machine _) { m with tree := made, serial := serial }
      = (.ok (), { m with tree := gone, serial := serial }) := by
    show Machine.change _ (do made.remove m.now (← made.locate m.workingDir path)) = _
    rw [hlocate]
    show Machine.change _ (made.remove m.now l) = _
    rw [hgone]
    rfl
  rw [hremove]
  refine ⟨fun x => ?_, rfl⟩
  show gone.content? x = _
  rw [hchange.then (changesTo_of_remove hgone).2 x]
  split
  · rename_i hx
    rw [hx, hnone]
  · rfl

/-- Where there is no directory, nothing is probed. -/
theorem canCreateIn_of_not (h : ¬ ∃ time, m.status? dir = some ⟨true, time⟩) :
    (canCreateIn dir : StateM Machine Bool) m = (false, m) := by
  rw [canCreateIn, bind_apply, status_apply]
  rcases hstatus : m.status? dir with _ | ⟨_ | _, time⟩
  · rfl
  · rfl
  · exact absurd ⟨time, hstatus⟩ h

/-- A probe finds out whether a file of its name could be made. -/
theorem canCreateIn_eq_true_iff : ((canCreateIn dir : StateM Machine Bool) m).1 = true
    ↔ checkPath dir = .ok () ∧ ∃ d, m.tree.Enters m.workingDir dir d
      ∧ Admits dir (Path.probeName (m.markAt m.serial))
      ∧ m.tree.content? (d ++ [Path.probeName (m.markAt m.serial)]) = none := by
  have hmade : (∃ made, m.createNew (dir.join (Path.probeName (m.markAt m.serial))) = .ok made)
      ↔ ∃ d, m.tree.Enters m.workingDir dir d ∧ Admits dir (Path.probeName (m.markAt m.serial))
        ∧ m.tree.content? (d ++ [Path.probeName (m.markAt m.serial)]) = none := by
    rw [exists_createNew]
    simp only [target_join_eq_ok (Path.not_isMove_probeName _)
      (Path.notMem_probeName (m.notMem_markAt _))]
    constructor
    · rintro ⟨_, ⟨hadmits, d, henters, rfl⟩, hnone⟩
      exact ⟨d, henters, hadmits, hnone⟩
    · rintro ⟨d, henters, hadmits, hnone⟩
      exact ⟨_, ⟨hadmits, d, henters, rfl⟩, hnone⟩
  rw [← hmade]
  by_cases hdirectory : ∃ time, m.status? dir = some ⟨true, time⟩
  · have hcheck := (exists_status?_directory.1 hdirectory).1
    rcases hdirectory with ⟨time, hstatus⟩
    rcases canCreateIn_cases hstatus rfl with ⟨made, hmade, htrue, -⟩ | ⟨hnot, heq⟩
    · exact iff_of_true htrue ⟨hcheck, made, hmade⟩
    · rw [heq]
      refine iff_of_false nofun ?_
      rintro ⟨-, made, hmade⟩
      exact hnot made hmade
  · rw [canCreateIn_of_not hdirectory]
    refine iff_of_false nofun ?_
    rintro ⟨hcheck, hexists⟩
    rcases hmade.1 hexists with ⟨d, henters, -⟩
    exact hdirectory (exists_status?_directory.2 ⟨hcheck, d, henters⟩)

/-- Whatever a probe finds out, it leaves everything as it was. -/
theorem alike_canCreateIn (m : Machine) (dir : Path) :
    Alike m ((canCreateIn dir : StateM Machine Bool) m).2 := by
  by_cases hdirectory : ∃ time, m.status? dir = some ⟨true, time⟩
  · rcases hdirectory with ⟨time, hstatus⟩
    rcases canCreateIn_cases hstatus rfl with ⟨made, hmade, -, heq⟩ | ⟨-, heq⟩
    · rw [heq]
      exact alike_remove hmade _
    · rw [heq]
      exact ⟨fun _ => rfl, rfl⟩
  · rw [canCreateIn_of_not hdirectory]
    exact ⟨fun _ => rfl, rfl⟩

/-! ## The state file of a case -/

theorem not_isMove_stateFile : ¬ IsMove "bookmarks.tix" := not_isMove_of_length (by decide +kernel)

theorem notMem_stateFile : '/' ∉ "bookmarks.tix".toList := by decide +kernel

/-- What the probe asks of the directory of the state file. -/
structure Probes (m : Machine) (dir : Path) (d : Location) : Prop where
  named : dir.text ≠ ""
  admits : Admits dir.trimmed (Path.probeName (m.markAt m.serial))
  free : m.tree.content? (d ++ [Path.probeName (m.markAt m.serial)]) = none

/-- What the writer asks of it, where nothing is at the path of the state file. -/
structure Writes (m : Machine) (dir : Path) (d : Location) : Prop where
  admits : Admits (dir.join "bookmarks.tix").directory
    (Path.scratchName "bookmarks.tix" (m.markAt m.serial))
  free : m.tree.content? (d ++ [Path.scratchName "bookmarks.tix" (m.markAt m.serial)]) ≠ some none
  path : checkPath (dir.join "bookmarks.tix") = .ok ()

/-- Where nothing is at a path, the probe of the parent decides. -/
theorem saveTarget_of_nothing {parent : Path} (hnothing : m.status? path = none)
    (hparent : path.parent? = some parent) (cookie : Path) :
    (saveTarget path cookie : StateM Machine Path) m
      = (if ((canCreateIn parent : StateM Machine Bool) m).1 then path else cookie,
        ((canCreateIn parent : StateM Machine Bool) m).2) := by
  have hexists : (pathExists path : StateM Machine Bool) m = (false, m) := by
    rw [pathExists, bind_apply, status_apply, hnothing]
    rfl
  have hafter := (alike_canCreateIn m parent).status?_eq_none hnothing
  have hwrite :
      (canWrite path : StateM Machine Bool) ((canCreateIn parent : StateM Machine Bool) m).2
      = (false, ((canCreateIn parent : StateM Machine Bool) m).2) := by
    rw [canWrite, bind_apply, status_apply, hafter]
    rfl
  rw [saveTarget, bind_apply, hexists, hparent]
  show (canCreateIn parent >>= fun creatable => do
    if (← canWrite path) || creatable then pure path else pure cookie : StateM Machine Path) m = _
  rw [bind_apply, bind_apply, hwrite]
  cases ((canCreateIn parent : StateM Machine Bool) m).1 <;> rfl

theorem alike_saveTarget (hnothing : m.status? (dir.join "bookmarks.tix") = none) (cookie : Path) :
    Alike m ((saveTarget (dir.join "bookmarks.tix") cookie : StateM Machine Path) m).2 := by
  rw [saveTarget_of_nothing hnothing (Path.parent?_join not_isMove_stateFile notMem_stateFile)]
  exact alike_canCreateIn m dir.trimmed

theorem saveTarget_eq_iff (hnothing : m.status? (dir.join "bookmarks.tix") = none)
    (hcookie : cookie ≠ dir.join "bookmarks.tix") :
    ((saveTarget (dir.join "bookmarks.tix") cookie : StateM Machine Path) m).1
      = dir.join "bookmarks.tix"
      ↔ ∃ d, m.tree.Enters m.workingDir dir d ∧ m.Probes dir d := by
  rw [saveTarget_of_nothing hnothing (Path.parent?_join not_isMove_stateFile notMem_stateFile)]
  have hprobe := @canCreateIn_eq_true_iff m dir.trimmed
  simp only [enters_trimmed] at hprobe
  constructor
  · intro h
    have hmade : ((canCreateIn dir.trimmed : StateM Machine Bool) m).1 = true := by
      by_contra hnot
      rw [if_neg hnot] at h
      exact hcookie h
    rcases hprobe.1 hmade with ⟨hcheck, d, henters, hadmits, hfree⟩
    exact ⟨d, henters, mt Path.text_trimmed_eq_empty.2 (checkPath_eq_ok.1 hcheck).2.2,
      hadmits, hfree⟩
  · rintro ⟨d, henters, hnamed, hadmits, hfree⟩
    have hcheck : checkPath dir.trimmed = .ok () :=
      checkPath_of_join (Path.notMem_probeName (m.notMem_markAt m.serial))
        (mt Path.text_trimmed_eq_empty.1 hnamed) hadmits.path
    exact if_pos (hprobe.2 ⟨hcheck, d, henters, hadmits, hfree⟩)

/-- Where nothing is at the path of the state file, it is written if the writer is not refused. -/
theorem replaceFile_stateFile_iff (hnothing : m.status? (dir.join "bookmarks.tix") = none)
    (bytes : Wire.Bytes) :
    ((replaceFile (dir.join "bookmarks.tix") bytes : StateM Machine _) m).1 = .ok ()
      ↔ ∃ d, m.tree.Enters m.workingDir dir d ∧ m.Writes dir d := by
  rw [replaceFile_eq_ok_iff not_isMove_stateFile notMem_stateFile]
  refine exists_congr fun d => and_congr_right fun henters => ?_
  constructor
  · rintro ⟨hadmits, hfree, hpath, -⟩
    exact ⟨hadmits, hfree, hpath.path⟩
  · rintro ⟨hadmits, hfree, hpath⟩
    have hshort : Admits dir "bookmarks.tix" := ⟨hpath, by decide +kernel⟩
    refine ⟨hadmits, hfree, hshort, ?_⟩
    -- a directory at this place would be something at the path
    intro hdirectory
    have htarget : m.tree.target m.workingDir (dir.join "bookmarks.tix") .busy
        = .ok (d ++ ["bookmarks.tix"]) :=
      (target_join_eq_ok not_isMove_stateFile notMem_stateFile).2 ⟨hshort, d, henters, rfl⟩
    refine status?_eq_none.1 hnothing (d ++ ["bookmarks.tix"]) ?_
    exact locate_of_target htarget (fun _ h => h) (by rw [hdirectory]; rfl)

/-- Where nothing is at the path of the state file, the choice between it and the cookie agrees with
whether it can be written afterwards, if and only if the probe and the writer are refused alike in
the directory that is to hold it. -/
theorem saveTarget_agrees_iff (hnothing : m.status? (dir.join "bookmarks.tix") = none)
    (hcookie : cookie ≠ dir.join "bookmarks.tix") (bytes : Wire.Bytes) :
    (((saveTarget (dir.join "bookmarks.tix") cookie : StateM Machine Path) m).1
      = dir.join "bookmarks.tix"
        ↔ ((replaceFile (dir.join "bookmarks.tix") bytes : StateM Machine _)
          ((saveTarget (dir.join "bookmarks.tix") cookie : StateM Machine Path) m).2).1 = .ok ())
      ↔ ∀ d, m.tree.Enters m.workingDir dir d →
        (m.Probes dir d
          ↔ ((saveTarget (dir.join "bookmarks.tix") cookie : StateM Machine Path) m).2.Writes dir
            d) := by
  have halike := alike_saveTarget hnothing cookie
  rw [saveTarget_eq_iff hnothing hcookie,
    replaceFile_stateFile_iff (halike.status?_eq_none hnothing)]
  simp only [halike.enters]
  constructor
  · intro h d henters
    constructor
    · intro hprobes
      rcases h.1 ⟨d, henters, hprobes⟩ with ⟨d', henters', hwrites⟩
      rwa [henters.unique henters']
    · intro hwrites
      rcases h.2 ⟨d, henters, hwrites⟩ with ⟨d', henters', hprobes⟩
      rwa [henters.unique henters']
  · intro h
    exact exists_congr fun d => and_congr_right fun henters => h d henters

/-- A directory in the working directory: both find that the state file can be written there. -/
theorem saveTarget_agrees_sample :
    let m : Machine := ⟨⟨[([], ⟨none, 0⟩), (["m"], ⟨none, 0⟩)]⟩, 1, [], ⟨"/"⟩, 1, 0, []⟩
    let chosen := (saveTarget ((⟨"m"⟩ : Path).join "bookmarks.tix") ⟨"c"⟩ : StateM Machine Path) m
    m.status? ((⟨"m"⟩ : Path).join "bookmarks.tix") = none
      ∧ (⟨"c"⟩ : Path) ≠ (⟨"m"⟩ : Path).join "bookmarks.tix"
      ∧ (chosen.1 = (⟨"m"⟩ : Path).join "bookmarks.tix"
        ↔ ((replaceFile ((⟨"m"⟩ : Path).join "bookmarks.tix") [7] : StateM Machine _) chosen.2).1
          = .ok ()) := by
  intro m chosen
  have hnothing : m.status? ((⟨"m"⟩ : Path).join "bookmarks.tix") = none := by decide +kernel
  have hcookie : (⟨"c"⟩ : Path) ≠ (⟨"m"⟩ : Path).join "bookmarks.tix" := by decide +kernel
  refine ⟨hnothing, hcookie, (saveTarget_agrees_iff hnothing hcookie [7]).2 ?_⟩
  intro d henters
  have hd : m.tree.Enters m.workingDir ⟨"m"⟩ ["m"] := ⟨by decide +kernel, by decide +kernel⟩
  rw [henters.unique hd]
  have hprobes : m.Probes ⟨"m"⟩ ["m"] :=
    ⟨by decide +kernel, ⟨by decide +kernel, by decide +kernel⟩, by decide +kernel⟩
  have hwrites : chosen.2.Writes ⟨"m"⟩ ["m"] :=
    ⟨⟨by decide +kernel, by decide +kernel⟩, by decide +kernel, by decide +kernel⟩
  exact iff_of_true hprobes hwrites

/-- A directory under a path that goes on with separators. -/
def separated (separators : Nat) : Path := ⟨"m" ++ String.ofList (List.replicate separators '/')⟩

theorem trimmed_separated (n : Nat) : (separated n).trimmed = ⟨"m"⟩ := by
  have htrim : Path.trimEnd (List.replicate n '/' ++ ['m']) = ['m'] := by
    induction n with
    | zero => rfl
    | succ n ih =>
      rw [List.replicate_succ, List.cons_append, Path.trimEnd_cons_separator (by simp), ih]
  have hm : "m".toList = ['m'] := rfl
  rw [Path.trimmed, separated, String.toList_append, List.reverse_append, String.toList_ofList,
    List.reverse_replicate, hm, List.reverse_singleton, htrim]
  rfl

theorem size_separated (n : Nat) : (separated n).text.utf8ByteSize = n + 1 := by
  have hslashes : String.utf8Len (List.replicate n '/') = n := by
    induction n with
    | zero => rfl
    | succ n ih =>
      rw [List.replicate_succ, String.utf8Len_cons, ih]
      rfl
  have hm : "m".utf8ByteSize = 1 := rfl
  unfold separated
  rw [String.utf8ByteSize_append, String.utf8ByteSize_ofList (List.replicate n '/'), hslashes, hm,
    Nat.add_comm]

/-- The path of the state file is refused where that of its directory is too long. -/
theorem checkPath_separated {n : Nat} (h : pathLimit ≤ n) :
    checkPath ((separated n).join "bookmarks.tix") ≠ .ok () := by
  intro hcheck
  have hnamed : (separated n).text ≠ "" := by
    intro hempty
    have hsize := size_separated n
    rw [hempty] at hsize
    cases hsize
  have hshort := (checkPath_eq_ok.1 (checkPath_of_join notMem_stateFile hnamed hcheck)).2.1
  rw [size_separated] at hshort
  omega

/-- A path that is too long for the writer is not too long for the probe. -/
theorem saveTarget_separated {n : Nat} (h : pathLimit ≤ n) (hcookie : checkPath cookie = .ok ())
    (hm : m.tree.Enters m.workingDir ⟨"m"⟩ d)
    (hadmits : Admits ⟨"m"⟩ (Path.probeName (m.markAt m.serial)))
    (hfree : m.tree.content? (d ++ [Path.probeName (m.markAt m.serial)]) = none)
    (bytes : Wire.Bytes) :
    let state := (separated n).join "bookmarks.tix"
    let chosen := (saveTarget state cookie : StateM Machine Path) m
    m.status? state = none ∧ chosen.1 = state
      ∧ ((replaceFile state bytes : StateM Machine _) chosen.2).1 ≠ .ok () := by
  intro state chosen
  have hlong : checkPath state ≠ .ok () := checkPath_separated h
  have hnothing : m.status? state = none := by
    apply status?_eq_none.2
    intro l hlocate
    exact hlong (follow_of_locate hlocate).1
  have hother : cookie ≠ state := by
    intro heq
    rw [heq] at hcookie
    exact hlong hcookie
  refine ⟨hnothing, (saveTarget_eq_iff hnothing hother).2 ⟨d, ?_, ?_⟩, ?_⟩
  · rw [← enters_trimmed, trimmed_separated]
    exact hm
  · have hnamed : (separated n).trimmed.text ≠ "" := by
      rw [trimmed_separated]
      exact nofun
    refine ⟨mt Path.text_trimmed_eq_empty.2 hnamed, ?_, hfree⟩
    rw [trimmed_separated]
    exact hadmits
  · intro hwritten
    have hafter := (alike_saveTarget hnothing cookie).status?_eq_none hnothing
    rcases (replaceFile_stateFile_iff hafter bytes).1 hwritten with ⟨d', -, hwrites⟩
    exact hlong hwrites.path

/-- The working directory under the empty path, where the state file could be written and is not to
be; and a directory whose path goes on with separators, where it is to be written and can not be. -/
theorem saveTarget_disagrees :
    let m : Machine := ⟨⟨[([], ⟨none, 0⟩), (["m"], ⟨none, 0⟩)]⟩, 1, [], ⟨"/"⟩, 1, 0, []⟩
    let here := (⟨""⟩ : Path).join "bookmarks.tix"
    let atHere := (saveTarget here ⟨"c"⟩ : StateM Machine Path) m
    let far := (separated 5000).join "bookmarks.tix"
    let atFar := (saveTarget far ⟨"c"⟩ : StateM Machine Path) m
    (m.status? here = none ∧ atHere.1 = ⟨"c"⟩
        ∧ ((replaceFile here [7] : StateM Machine _) atHere.2).1 = .ok ())
      ∧ m.status? far = none ∧ atFar.1 = far
        ∧ ((replaceFile far [7] : StateM Machine _) atFar.2).1 ≠ .ok () := by
  intro m here atHere
  have hm : m.tree.Enters m.workingDir ⟨"m"⟩ ["m"] := ⟨by decide +kernel, by decide +kernel⟩
  have hadmits : Admits ⟨"m"⟩ (Path.probeName (m.markAt m.serial)) :=
    ⟨by decide +kernel, by decide +kernel⟩
  refine ⟨by decide +kernel, ?_⟩
  exact saveTarget_separated (by decide) (by decide +kernel) hm hadmits (by decide +kernel) [7]

end Machine

end EvidenceTags
