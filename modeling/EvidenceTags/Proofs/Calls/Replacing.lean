import EvidenceTags.Proofs.Calls.Held
import EvidenceTags.Proofs.Calls.Stages

/-!
# Scratch files of a file that is replaced

On a machine without links, what the stages of replacing a file hold is told by names:

* a step that does not move the scratch file leaves everything but scratch files of this name as it
  is (`Replacing.Advances.differsAt`);
* the scratch file holds what has been written so far, and is moved only when that is everything
  (`Replacing.Advances.ready`).
-/

namespace EvidenceTags

open FileTree

namespace Replacing

/-! ## What holds at a stage -/

/-- The name of the scratch file. -/
def ScratchNamed (r : Replacing) (name : String) : Prop := name = Path.scratchName r.name r.mark

theorem scratchNamed (r : Replacing) : r.ScratchNamed (Path.scratchName r.name r.mark) := rfl

theorem scratch_leadsTo (r : Replacing) : r.scratch.LeadsTo (Path.scratchName r.name r.mark) :=
  Path.leadsTo_of_getLast? (Path.not_isMove_scratchName _ _)
    (Path.getLast?_segments_scratch (Path.notMem_of_fileName? r.named) r.plain)

variable {r : Replacing} {fails : Request → Prop}

variable {m m' : Machine} {stage stage' : Stage}

/-- The scratch file is moved with all that it holds. -/
theorem rename_scratch {bytes : Wire.Bytes} (hheld : m.held r.scratch = some (some bytes))
    (h : (Host.rename r.scratch r.path : StateM Machine _) m = (.ok (), m')) :
    m'.held r.path = some (some bytes) := by
  rcases Machine.exists_of_change h with ⟨tree, hmoved, rfl⟩
  rcases Machine.exists_of_held hheld with ⟨l, hlocate, hcontent⟩
  rcases Machine.exists_of_rename hmoved with ⟨l', goal, hlocate', htarget, hrename⟩
  have hl : l' = l := Except.ok.inj (hlocate'.symm.trans hlocate)
  rw [hl] at hrename
  rcases moves_of_rename hcontent hrename with ⟨-, hmoves⟩
  have hkeeps := keeps_of_rename hcontent hrename
  have hthere : tree.content? goal = some (some bytes) := by rw [hmoves goal, if_pos rfl]
  have hgoal : ({ m with tree := tree } : Machine).locate r.path = .ok goal :=
    locate_of_target htarget hkeeps (by rw [hthere]; rfl)
  rw [Machine.held_of_locate hgoal]
  exact hthere

/-- The scratch file is made. -/
theorem putAt_of_created (h : (Host.create r.scratch : StateM Machine _) m = (.ok (), m')) :
    ∃ l, m.PutAt r.scratch l (some []) m' := by
  rcases Machine.exists_of_change h with ⟨tree, hmade, rfl⟩
  exact Machine.putAt_of_create hmade

/-- The scratch file is extended. -/
theorem putAt_of_extended {old bytes : Wire.Bytes} (hold : m.held r.scratch = some (some old))
    (h : (Host.append r.scratch bytes : StateM Machine _) m = (.ok (), m')) :
    ∃ l, m.PutAt r.scratch l (some (old ++ bytes)) m' := by
  rcases Machine.exists_of_change h with ⟨tree, hextended, rfl⟩
  exact Machine.putAt_of_append hold hextended

theorem Advances.ready (h : r.Advances fails stage m stage' m') (hready : r.Ready m.held stage) :
    r.Ready m'.held stage' := by
  cases h with
  | made h =>
    rcases putAt_of_created h with ⟨l, hput⟩
    exact ⟨hput.held, rfl⟩
  | wrote written rest count h =>
    rcases putAt_of_extended hready.1 h with ⟨l, hput⟩
    refine ⟨hput.held, ?_⟩
    rw [List.append_assoc, List.take_append_drop]
    exact hready.2
  | filled written rest h =>
    rcases putAt_of_extended hready.1 h with ⟨l, hput⟩
    rw [hready.2] at hput
    exact hput.held
  | synced h =>
    cases h
    exact hready
  | moved h => exact rename_scratch hready h
  | notMade | notFilled | notSynced | notMoved | cleaned | notCleaned => trivial

/-- As long as the scratch file is not moved, nothing else changes. -/
theorem Advances.putAt (h : r.Advances fails stage m stage' m') (hready : r.Ready m.held stage)
    (hnot : stage' ≠ .replaced) : m' = m ∨ ∃ l left, m.PutAt r.scratch l left m' := by
  cases h with
  | made h => exact .inr ((putAt_of_created h).imp fun l hput => ⟨_, hput⟩)
  | wrote written rest count h =>
    exact .inr ((putAt_of_extended hready.1 h).imp fun l hput => ⟨_, hput⟩)
  | filled written rest h =>
    exact .inr ((putAt_of_extended hready.1 h).imp fun l hput => ⟨_, hput⟩)
  | moved h => exact absurd rfl hnot
  | cleaned error h =>
    rcases Machine.exists_of_change h with ⟨tree, hgone, rfl⟩
    exact .inr ((Machine.putAt_of_remove hgone).imp fun l hput => ⟨_, hput⟩)
  | synced h =>
    cases h
    exact .inl rfl
  | notMade | notFilled | notSynced | notMoved | notCleaned => exact .inl rfl

theorem Advances.differsAt (h : r.Advances fails stage m stage' m') (hready : r.Ready m.held stage)
    (hnot : stage' ≠ .replaced) : m.DiffersAt r.ScratchNamed m' := by
  rcases h.putAt hready hnot with rfl | ⟨l, left, hput⟩
  · exact .refl m'
  · exact hput.differsAt r.scratch_leadsTo r.scratchNamed

end Replacing

end EvidenceTags
