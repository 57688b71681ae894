import EvidenceTags.Proofs.CanonicalPath
import EvidenceTags.Proofs.HostPrograms
import EvidenceTags.Proofs.Operations

/-!
# A store takes no directory away

A store makes files, replaces them and removes them, and that is all that it changes in a tree. So
no directory is gone after an operation (`Store.leaves_perform`), and paths lead where they led.

A rename could move a directory away. Files are only renamed after they have been filled, so what is
moved is a file (`Machine.leaves_replaceFile`).
-/

namespace EvidenceTags

namespace Machine

open FileTree

variable {α β : Type}

/-! ## Programs -/

/-- A program that takes no directory away, whatever machine it runs on. -/
def LeavesDirectories (x : StateM Machine α) : Prop := ∀ m : Machine, m.Keeps (x m).2

theorem leaves_pure (a : α) : LeavesDirectories (pure a) := Keeps.refl

theorem leaves_bind {x : StateM Machine α} {f : α → StateM Machine β} (hx : LeavesDirectories x)
    (hf : ∀ a, LeavesDirectories (f a)) : LeavesDirectories (x >>= f) :=
  fun m => (hx m).trans (hf (x m).1 (x m).2)

/-- The answer may be changed. -/
theorem leaves_bind_pure {x : StateM Machine α} (hx : LeavesDirectories x) (f : α → β) :
    LeavesDirectories (do let a ← x; pure (f a)) :=
  leaves_bind hx fun a => leaves_pure (f a)

/-- A program that only looks. -/
theorem leaves_of_same {x : StateM Machine α} (h : ∀ m, (x m).2 = m) : LeavesDirectories x := by
  intro m
  rw [h m]
  exact .refl m

theorem leaves_status (path : Path) : LeavesDirectories (Host.status path) :=
  leaves_of_same fun _ => rfl

theorem leaves_read (path : Path) : LeavesDirectories (Host.read path) :=
  leaves_of_same fun _ => rfl

theorem leaves_canAppend (path : Path) : LeavesDirectories (Host.canAppend path) :=
  leaves_of_same fun _ => rfl

theorem leaves_log (event : LogEvent) : LeavesDirectories (Host.log event) :=
  fun _ => ⟨fun _ h => h, rfl, rfl⟩

theorem leaves_scratchMark : LeavesDirectories Host.scratchMark := fun _ => ⟨fun _ h => h, rfl, rfl⟩

/-- A change that fails leaves everything as it is, so only the trees that are made count. -/
theorem keeps_change {m : Machine} {result : Except OsError FileTree}
    (h : ∀ tree, result = .ok tree → KeepsDirectories m.tree tree) :
    m.Keeps (m.change result).2 := by
  cases result with
  | error e => exact .refl m
  | ok tree => exact ⟨h tree rfl, rfl, rfl⟩

theorem leaves_create (path : Path) : LeavesDirectories (Host.create path) := by
  intro m
  apply keeps_change
  intro tree htree
  rcases exists_of_bind_eq_ok htree with ⟨l, -, hcreate⟩
  rcases changesTo_of_create hcreate with ⟨hfile, hchange⟩
  exact hchange.keeps hfile

theorem leaves_createNew (path : Path) : LeavesDirectories (Host.createNew path) := by
  intro m
  apply keeps_change
  intro tree htree
  rcases exists_of_bind_eq_ok htree with ⟨l, -, hcreate⟩
  split at hcreate
  · cases hcreate
  · rcases changesTo_of_create hcreate with ⟨hfile, hchange⟩
    exact hchange.keeps hfile

theorem leaves_append (path : Path) (bytes : Wire.Bytes) :
    LeavesDirectories (Host.append path bytes) := by
  intro m
  apply keeps_change
  intro tree htree
  rcases exists_of_bind_eq_ok htree with ⟨l, -, happend⟩
  rcases changesTo_of_append happend with ⟨old, hold, hchange⟩
  apply hchange.keeps
  rw [hold]
  simp

theorem leaves_remove (path : Path) : LeavesDirectories (Host.remove path) := by
  intro m
  apply keeps_change
  intro tree htree
  rcases exists_of_bind_eq_ok htree with ⟨l, -, hremove⟩
  rcases changesTo_of_remove hremove with ⟨hfile, hchange⟩
  exact hchange.keeps hfile

/-- A file that is renamed is no directory. -/
theorem keeps_rename {m : Machine} {source : Path} {l : Location} {bytes : Wire.Bytes}
    (hlocate : m.locate source = .ok l) (hcontent : m.tree.content? l = some (some bytes))
    (goal : Path) : m.Keeps ((Host.rename source goal : StateM Machine _) m).2 := by
  apply keeps_change
  intro tree htree
  rcases exists_of_rename htree with ⟨l', g, hlocate', -, htree⟩
  have hsame : l' = l := Except.ok.inj (hlocate'.symm.trans hlocate)
  rw [hsame] at htree
  exact keeps_of_rename hcontent htree

/-! ## Files -/

theorem leaves_fillFile (path : Path) (bytes : Wire.Bytes) :
    LeavesDirectories (fillFile path bytes) := by
  unfold fillFile
  apply leaves_bind (leaves_create path)
  intro made
  cases made with
  | error e => exact leaves_pure _
  | ok _ =>
    apply leaves_bind (leaves_append path bytes)
    intro extended
    cases extended with
    | error e => exact leaves_pure _
    | ok _ => exact leaves_of_same fun _ => rfl

theorem leaves_replaceFile (path : Path) (bytes : Wire.Bytes) :
    LeavesDirectories (replaceFile path bytes) := by
  unfold replaceFile
  cases path.fileName? with
  | none => exact leaves_pure _
  | some name =>
    apply leaves_bind leaves_scratchMark
    intro mark m
    have hfill := leaves_fillFile (path.scratch name mark) bytes m
    rw [bind_apply]
    rcases hrun : (fillFile (path.scratch name mark) bytes : StateM Machine _) m with ⟨filled, m₁⟩
    rw [hrun] at hfill
    cases filled with
    | error e => exact hfill.trans (leaves_bind_pure (leaves_remove _) _ m₁)
    | ok _ =>
      rcases exists_of_fillFile hrun with ⟨l, hlocate, hcontent⟩
      have hrename := keeps_rename hlocate hcontent path
      simp only [bind_apply]
      rcases hmove : (Host.rename (path.scratch name mark) path : StateM Machine _) m₁
        with ⟨renamed, m₂⟩
      rw [hmove] at hrename
      have hmoved := hfill.trans hrename
      cases renamed with
      | error e => exact hmoved.trans (leaves_bind_pure (leaves_remove _) _ m₂)
      | ok _ => exact hmoved

theorem leaves_canCreateIn (directory : Path) : LeavesDirectories (canCreateIn directory) := by
  unfold canCreateIn
  apply leaves_bind (leaves_status directory)
  intro status
  split
  · apply leaves_bind leaves_scratchMark
    intro mark
    apply leaves_bind (leaves_createNew _)
    intro made
    cases made with
    | error e => exact leaves_pure false
    | ok _ => exact leaves_bind_pure (leaves_remove _) _
  · exact leaves_pure false

theorem inherited_leavesDirectories : Inherited (@LeavesDirectories) := by
  constructor
  case pure => exact leaves_pure
  case bind => exact leaves_bind
  case status => exact leaves_status
  case read => exact leaves_read
  case canAppend => exact leaves_canAppend
  case log => exact leaves_log
  case canCreateIn => exact leaves_canCreateIn

end Machine

/-! ## Stores -/

namespace Store

open Machine

variable (s : Store)

theorem leaves_save (sync : Bool) : LeavesDirectories (s.save sync) :=
  inherited_leavesDirectories.save s leaves_replaceFile sync

theorem leaves_flush : LeavesDirectories s.flush :=
  inherited_leavesDirectories.flush s leaves_replaceFile

/-- No operation of a store takes a directory away. -/
theorem leaves_perform (op : StoreOp) : LeavesDirectories (s.perform op) := by
  have h := inherited_leavesDirectories
  cases op with
  | state o =>
    cases o with
    | addTypedWord word => exact h.bind_pure (h.addTypedWord s leaves_replaceFile word) _
    | restore snapshot => exact h.bind_pure (h.restore s snapshot) _
    | _ => exact h.pure _
  | save sync => exact h.bind_pure (s.leaves_save sync) _
  | saveTo path sync => exact h.bind_pure (h.saveTo s leaves_replaceFile path sync) _
  | load => exact h.bind_pure (h.load s) _
  | loadFrom path => exact h.bind_pure (h.loadFrom s path) _
  | flush => exact h.bind_pure s.leaves_flush _
  | refreshCookie => exact h.bind_pure (h.refreshCookie s) _

end Store

end EvidenceTags
