import EvidenceTags.Proofs.ScratchFiles
import EvidenceTags.Proofs.Troubles

/-!
# What a try to replace a file leaves

Whatever goes wrong while a file is replaced, there is at most one other place than the goal that
differs afterwards, and it bears the name of the scratch file (`Replacement`): after a success it is
empty, and after a failure too, unless the scratch file could not be removed. The goal differs only
after a success. `TroubledMachine.replacement_replaceFile` proves this of `replaceFile`, step by
step.

So after a success the new content is read, and after a failure the old one (`Replacement.read`,
`Replacement.unchanged`).
-/

namespace EvidenceTags

namespace TroubledMachine

open FileTree Machine

variable {t t' : TroubledMachine} {path : Path} {bytes : Wire.Bytes}

/-! ## Filling a file -/

/-- What a try to make a file with some content leaves: nothing, or a file with some content, which
after a success is the one that was to be written. -/
inductive Filling (t : TroubledMachine) (path : Path) (bytes : Wire.Bytes)
    (result : Except OsError Unit) (t' : TroubledMachine) : Prop
  | nothing (e : OsError) (hresult : result = .error e) (h : t.Becomes t.machine.tree t')
  | made (l : Location) (content : Wire.Bytes) (follows : t.Follows t')
      (hfile : t.machine.tree.content? l ≠ some none) (hlocate : t'.machine.locate path = .ok l)
      (hchange : t.machine.tree.ChangesTo l (some (some content)) t'.machine.tree)
      (hfull : result = .ok () → content = bytes)

theorem filling_fillFile (path : Path) (bytes : Wire.Bytes) (t : TroubledMachine) :
    t.Filling path bytes ((fillFile path bytes : StateM TroubledMachine _) t).1
      ((fillFile path bytes : StateM TroubledMachine _) t).2 := by
  unfold fillFile
  rw [bind_troubled]
  rcases change_cases .create (fun m => m.create path) t with
    ⟨tree₁, t₁, (hcreate : (Host.create path : StateM TroubledMachine _) t = _), hmade, h₁⟩
    | ⟨e, t₁, (hcreate : (Host.create path : StateM TroubledMachine _) t = _), h₁, -⟩
  · rcases exists_of_bind_eq_ok hmade with ⟨l, htarget, hmade⟩
    rcases changesTo_of_create hmade with ⟨hfile, hempty⟩
    rw [← h₁.tree] at hempty
    -- the file is found under its path, now that it has been made
    have hfound (t₂ : TroubledMachine) (h₂ : t.Follows t₂) {content : Wire.Bytes}
        (hchange : t.machine.tree.ChangesTo l (some (some content)) t₂.machine.tree) :
        t₂.machine.locate path = .ok l := by
      rw [Machine.locate, h₂.workingDir]
      exact locate_of_target htarget (hchange.keeps hfile) (by rw [hchange.here]; rfl)
    rw [hcreate]
    simp only [bind_troubled]
    rcases append_cases path bytes t₁ with ⟨extended, t₂, happend, hcases⟩
    rw [happend]
    rcases hcases with ⟨e, rfl, h₂⟩ | ⟨part, tree₂, hextended, h₂, hpart⟩
    · have hsame := hempty
      rw [← h₂.tree] at hsame
      have hfollows := h₁.follows.trans h₂.follows
      refine .made l [] hfollows hfile (hfound t₂ hfollows hsame) hsame ?_
      intro hok
      cases hok
    · rcases exists_of_bind_eq_ok hextended with ⟨l', hlocate, hextended⟩
      have hl : l' = l := Except.ok.inj (hlocate.symm.trans (hfound t₁ h₁.follows hempty))
      rw [hl] at hextended
      have hboth := hempty.extended hextended
      rw [← h₂.tree] at hboth
      have hfollows := h₁.follows.trans h₂.follows
      cases extended with
      | error e =>
        refine .made l part hfollows hfile (hfound t₂ hfollows hboth) hboth ?_
        intro hok
        cases hok
      | ok _ =>
        -- to wait for the disk changes nothing
        have h₃ : t₂.Becomes t₂.machine.tree ((Host.sync path : StateM TroubledMachine _) t₂).2 :=
          becomes_of_looking (fun _ => rfl) (fun _ _ => rfl) t₂
        rw [← h₃.tree] at hboth
        have hfollows := hfollows.trans h₃.follows
        exact .made l part hfollows hfile (hfound _ hfollows hboth) hboth fun _ => hpart rfl
  · rw [hcreate]
    exact .nothing e rfl h₁

/-! ## Replacing a file -/

/-- A place with the name of a scratch file for a path, and with a mark that has not been used
yet. -/
def IsScratchFor (t : TroubledMachine) (path : Path) (l : Location) : Prop :=
  ∃ name serial, path.fileName? = some name ∧ t.machine.serial ≤ serial
    ∧ l.getLast? = some (Path.scratchName name (t.machine.markAt serial))

/-- What a try to replace a file leaves. If it fails, either nothing differs, or a place of a
scratch file: it is empty, unless the file could not be removed. If it succeeds, the place of the
scratch file is empty, and the path leads to the new content. -/
inductive Replacement (t : TroubledMachine) (path : Path) (bytes : Wire.Bytes)
    (result : Except StoreError Unit) (t' : TroubledMachine) : Prop
  | nothing (e : StoreError) (hresult : result = .error e) (h : t.Becomes t.machine.tree t')
  | failed (e : StoreError) (l : Location) (left : Option Wire.Bytes) (hresult : result = .error e)
      (follows : t.Follows t') (hscratch : t.IsScratchFor path l)
      (hfile : t.machine.tree.content? l ≠ some none)
      (hchange : t.machine.tree.ChangesTo l (left.map some) t'.machine.tree)
      (hleft : t.Removes → left = none)
  | done (goal l : Location) (hresult : result = .ok ()) (follows : t.Follows t')
      (hscratch : t.IsScratchFor path l) (hfile : t.machine.tree.content? l ≠ some none)
      (hgoal : t.machine.tree.content? goal ≠ some none)
      (hlocate : t'.machine.locate path = .ok goal)
      (hchange : ∀ x, t'.machine.tree.content? x
        = if x = goal then some (some bytes) else if x = l then none else t.machine.tree.content? x)

/-- A file is removed, or it stays: because there is none, or because something goes wrong. -/
theorem remove_cases (path : Path) (t : TroubledMachine) :
    ∃ result t', (Host.remove path : StateM TroubledMachine _) t = (result, t') ∧ t.Follows t'
      ∧ ((∃ l, t.machine.locate path = .ok l ∧ t.machine.tree.content? l ≠ some none
          ∧ t.machine.tree.ChangesTo l none t'.machine.tree)
        ∨ t'.machine.tree = t.machine.tree
          ∧ ∀ l content, t.machine.locate path = .ok l →
            t.machine.tree.content? l = some (some content)
            → ¬ t.Removes) := by
  rcases change_cases .remove (fun m => do m.tree.remove m.now (← m.locate path)) t with
    ⟨tree, t', hremove, hgone, h⟩ | ⟨e, t', hremove, h, hwhy⟩
  · refine ⟨_, t', hremove, h.follows, .inl ?_⟩
    rcases exists_of_bind_eq_ok hgone with ⟨l, hlocate, hgone⟩
    rcases changesTo_of_remove hgone with ⟨hfile, hchange⟩
    rw [← h.tree] at hchange
    exact ⟨l, hlocate, hfile, hchange⟩
  · refine ⟨_, t', hremove, h.follows, .inr ⟨h.tree, ?_⟩⟩
    intro l content hlocate hcontent hremoves
    rcases hwhy with hnot | ⟨trouble, htrouble⟩
    · rcases exists_remove hcontent t.machine.now with ⟨tree, htree⟩
      apply hnot tree
      rw [hlocate]
      exact htree
    · rw [hremoves] at htrouble
      cases htrouble

section

variable {name : String} {serial : Nat}

theorem isScratchFor_of_locate (hname : path.fileName? = some name)
    (hserial : t.machine.serial ≤ serial) {m : Machine} {l : Location}
    (hlocate : m.locate (path.scratch name (t.machine.markAt serial)) = .ok l) :
    t.IsScratchFor path l := by
  have hlast := Path.getLast?_segments_scratch (p := path) (Path.notMem_of_fileName? hname)
    (t.machine.notMem_markAt serial)
  exact ⟨name, serial, hname, hserial,
    getLast?_of_locate (Path.not_isMove_scratchName _ _) hlast hlocate⟩

/-- A scratch file that was filled, or could not be, is removed after a failure. -/
theorem replacement_of_remove (hname : path.fileName? = some name)
    (hserial : t.machine.serial ≤ serial) {filled : TroubledMachine} (hfollows : t.Follows filled)
    (hfilled : filled.machine.tree = t.machine.tree ∨ ∃ l content,
      t.machine.tree.content? l ≠ some none
        ∧ filled.machine.locate (path.scratch name (t.machine.markAt serial)) = .ok l
        ∧ t.machine.tree.ChangesTo l (some (some content)) filled.machine.tree) (e : StoreError) :
    t.Replacement path bytes (.error e)
      ((Host.remove (path.scratch name (t.machine.markAt serial)) : StateM TroubledMachine _)
        filled).2 := by
  rcases remove_cases (path.scratch name (t.machine.markAt serial)) filled with
    ⟨_, t', hremove, hfollows', hcases⟩
  rw [hremove]
  have hall := hfollows.trans hfollows'
  rcases hcases with ⟨l, hlocate, hfile, hgone⟩ | ⟨hsame, hwhy⟩
  · have hscratch : t.IsScratchFor path l := isScratchFor_of_locate hname hserial hlocate
    rcases hfilled with htree | ⟨l', content, hfile', hlocate', hchange⟩
    · rw [htree] at hfile hgone
      exact .failed e l none rfl hall hscratch hfile hgone fun _ => rfl
    · -- what is removed is the file that was made
      have hl : l' = l := Except.ok.inj (hlocate'.symm.trans hlocate)
      rw [hl] at hfile' hchange
      exact .failed e l none rfl hall hscratch hfile' (hchange.then hgone) fun _ => rfl
  · rcases hfilled with htree | ⟨l, content, hfile, hlocate, hchange⟩
    · exact .nothing e rfl ⟨hall, hsame.trans htree⟩
    · have hscratch : t.IsScratchFor path l := isScratchFor_of_locate hname hserial hlocate
      have hnot : ¬ t.Removes := fun hremoves =>
        hwhy l content hlocate hchange.here (hfollows.removes hremoves)
      rw [← hsame] at hchange
      exact .failed e l (some content) rfl hall hscratch hfile hchange fun hremoves =>
        absurd hremoves hnot

end

theorem replacement_replaceFile (path : Path) (bytes : Wire.Bytes) (t : TroubledMachine) :
    t.Replacement path bytes ((replaceFile path bytes : StateM TroubledMachine _) t).1
      ((replaceFile path bytes : StateM TroubledMachine _) t).2 := by
  unfold replaceFile
  cases hname : path.fileName? with
  | none => exact .nothing _ rfl ⟨.refl t, rfl⟩
  | some name =>
    simp only [bind_troubled]
    let marked : TroubledMachine :=
      { t with machine := { t.machine with serial := t.machine.serial + 1 } }
    have hmark : (Host.scratchMark : StateM TroubledMachine _) t
        = (t.machine.markAt t.machine.serial, marked) := rfl
    have hmarked : t.Follows marked := ⟨rfl, rfl, Nat.le_succ _, rfl⟩
    rw [hmark]
    rcases hrun : (fillFile (path.scratch name (t.machine.markAt t.machine.serial)) bytes :
      StateM TroubledMachine _) marked with ⟨filled, t₁⟩
    have hfill :=
      filling_fillFile (path.scratch name (t.machine.markAt t.machine.serial)) bytes marked
    rw [hrun] at hfill
    rcases hfill with ⟨e, rfl, h₁⟩ | ⟨l, content, h₁, hfile, hlocate, hchange, hfull⟩
    · exact replacement_of_remove hname (Nat.le_refl _) (hmarked.trans h₁.follows) (.inl h₁.tree) _
    · have hfollows := hmarked.trans h₁
      have hscratch : t.IsScratchFor path l :=
        isScratchFor_of_locate hname (Nat.le_refl _) hlocate
      -- as long as the tree does not change any more, the scratch file is there to be removed
      have hfail (t₂ : TroubledMachine) (h₂ : t₁.Becomes t₁.machine.tree t₂) (e : StoreError) :
          t.Replacement path bytes (.error e)
            ((Host.remove (path.scratch name (t.machine.markAt t.machine.serial)) :
              StateM TroubledMachine _) t₂).2 := by
        refine replacement_of_remove hname (Nat.le_refl _) (hfollows.trans h₂.follows) (.inr ?_) e
        refine ⟨l, content, hfile, ?_, ?_⟩
        · rw [Machine.locate, h₂.tree, h₂.follows.workingDir]
          exact hlocate
        · rw [h₂.tree]
          exact hchange
      cases filled with
      | error e => exact hfail t₁ ⟨.refl t₁, rfl⟩ _
      | ok _ =>
        have hcontent : content = bytes := hfull rfl
        rw [hcontent] at hchange
        simp only [bind_troubled]
        rcases change_cases .rename
            (fun m => m.rename (path.scratch name (t.machine.markAt t.machine.serial)) path) t₁ with
          ⟨tree, t₂, (hrename : (Host.rename _ path : StateM TroubledMachine _) t₁ = _), hmoved, h₂⟩
          | ⟨e, t₂, (hrename : (Host.rename _ path : StateM TroubledMachine _) t₁ = _), h₂, -⟩
        · rw [hrename]
          show t.Replacement path bytes (.ok ()) t₂
          rcases exists_of_rename hmoved with ⟨l', goal, hlocate', htarget, hmoved⟩
          have hl : l' = l := Except.ok.inj (hlocate'.symm.trans hlocate)
          rw [hl] at hmoved
          rcases moves_of_rename hchange.here hmoved with ⟨hgoal, hmoves⟩
          have hkeeps : KeepsDirectories t₁.machine.tree tree :=
            keeps_of_rename hchange.here hmoved
          have hlocate' : t₂.machine.locate path = .ok goal := by
            rw [Machine.locate, h₂.tree, h₂.follows.workingDir]
            exact locate_of_target htarget hkeeps (by rw [hmoves goal, if_pos rfl]; rfl)
          have hgoal' : t.machine.tree.content? goal ≠ some none := by
            rw [hchange goal] at hgoal
            split at hgoal
            · rename_i heq
              rw [heq]
              exact hfile
            · exact hgoal
          refine .done goal l rfl (hfollows.trans h₂.follows) hscratch hfile hgoal' hlocate' ?_
          intro x
          rw [h₂.tree, hmoves x, hchange x]
          -- what the scratch file held has been moved away
          by_cases hx : x = l
          · simp only [hx, if_true]
          · simp only [hx, if_false]
            rfl
        · rw [hrename]
          exact hfail t₂ h₂ _

/-! ## What is read -/

variable {result : Except StoreError Unit}

/-- After a success the new content is read. -/
theorem Replacement.read (h : t.Replacement path bytes result t') (hresult : result = .ok ()) :
    t'.machine.read path = .ok bytes := by
  rcases h with ⟨e, heq, -⟩ | ⟨e, _, _, heq, -⟩ | ⟨goal, l, -, -, -, -, -, hlocate, hchange⟩
  · rw [heq] at hresult
    cases hresult
  · rw [heq] at hresult
    cases hresult
  · refine read_eq_ok hlocate ?_
    rw [hchange goal, if_pos rfl]

/-- After a failure the old content is read, if there was any. -/
theorem Replacement.unchanged (h : t.Replacement path bytes result t') (hresult : result ≠ .ok ()) :
    (t'.machine.read path).toOption = (t.machine.read path).toOption := by
  have hboth (hto : ∀ content, t.machine.read path = .ok content →
      t'.machine.read path = .ok content)
      (hfrom : ∀ content, t'.machine.read path = .ok content → t.machine.read path = .ok content) :
      (t'.machine.read path).toOption = (t.machine.read path).toOption := by
    cases hold : t.machine.read path with
    | ok content => rw [hto content hold]
    | error e =>
      cases hnew : t'.machine.read path with
      | ok content =>
        have heq := hfrom content hnew
        rw [hold] at heq
        cases heq
      | error e' => rfl
  rcases h with ⟨e, -, hbecomes⟩ | ⟨e, l, left, -, follows, hscratch, hfile, hchange, -⟩ |
    ⟨_, _, heq, -⟩
  · have hsame : t'.machine.read path = t.machine.read path := by
      rw [Machine.read, Machine.locate, hbecomes.tree, hbecomes.follows.workingDir]
      rfl
    rw [hsame]
  · rcases hscratch with ⟨name, serial, hname, -, hlast⟩
    have halike := hchange.alikeBut hfile
    apply hboth
    · intro content
      exact read_of_alikeBut follows.workingDir halike hname hlast
    · intro content
      exact read_of_alikeBut follows.workingDir.symm halike.symm hname hlast
  · exact absurd heq hresult

end TroubledMachine

end EvidenceTags
