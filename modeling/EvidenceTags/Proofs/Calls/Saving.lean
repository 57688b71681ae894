import EvidenceTags.Proofs.Calls.Replacing
import EvidenceTags.Proofs.Calls.Targets
import EvidenceTags.Proofs.RecordedSaves

/-!
# Programs that save once

A store that is asked to save, and a worker that writes a job, first do what changes no target, then
write one file, and then only tell how that has ended. `Saving` says how far such a program has got,
and which saves have ended so far. What a step of it does is said once (`Saving.step`): nothing is
seen of it under any target, or the save has ended, and if it has succeeded its snapshot is found
(`Lands`). Other programs that only probe do not disturb it (`Saving.stable`).

So if saves end one after the other and all of them succeed under one path, the last of them is
found there (`Kept.lands`).
-/

namespace EvidenceTags

open Machine

variable {m m' : Machine}

namespace Replacing

/-- How the replacing of a file has ended. -/
def Stage.ending : Stage → Option (Except StoreError Unit)
  | .replaced => some (.ok ())
  | .failed error => some (.error error)
  | _ => none

variable {r : Replacing} {stage : Stage}

theorem program_of_ending {result : Except StoreError Unit} (h : stage.ending = some result) :
    r.program stage = .done result := by
  cases stage with
  | replaced | failed error =>
    cases h
    rfl
  | _ => cases h

theorem ending_of_done {result : Except StoreError Unit} (h : r.program stage = .done result) :
    stage.ending = some result := by
  rcases stage_of_done h with ⟨rfl, rfl⟩ | ⟨error, rfl, rfl⟩
  · rfl
  · rfl

theorem Ready.of_ending (h : r.Ready m.held stage) (hending : stage.ending = some (.ok ())) :
    m.held r.path = some (some r.bytes) := by
  cases stage with
  | replaced => exact h
  | _ => cases hending

/-- Files of other names are not in the way of the scratch file. -/
theorem Ready.stable {names : String → Prop} (h : r.Ready m.held stage)
    (hopen : stage.ending = none)
    (hdiffers : m.DiffersAt names m') (hnot : ¬ names (Path.scratchName r.name r.mark)) :
    r.Ready m'.held stage := by
  have hscratch : m'.held r.scratch = m.held r.scratch := hdiffers.held r.scratch_leadsTo hnot
  cases stage with
  | filling written rest => exact ⟨hscratch.trans h.1, h.2⟩
  | syncing | moving => exact hscratch.trans h
  | making | cleaning error => trivial
  | replaced | failed error => cases hopen

/-- How the file of a job is replaced, with the next mark of a machine. -/
def ofJob (m : Machine) (job : SaveJob) {name : String} (hname : job.path.fileName? = some name) :
    Replacing :=
  ⟨job.path, job.snapshot.encode, name, m.markAt m.serial, hname, m.notMem_markAt m.serial⟩

/-- The first step of a save takes a mark, and then the scratch file is to be made. -/
theorem step_write {α : Type} {fails : Request → Prop} {job : SaveJob} {name : String}
    {k : Except StoreError Unit → Program α} {p : Program α}
    (hname : job.path.fileName? = some name)
    (h : Program.Step fails (SaveQueue.write job >>= k) m p m') :
    p = (ofJob m job hname).program .making >>= k ∧ m' = { m with serial := m.serial + 1 } := by
  rw [SaveQueue.write, replaceFile_eq hname] at h
  rcases Program.step_bind_cases h with ⟨q, hmark, rfl⟩ | ⟨answer, hdone, -⟩
  · rcases Program.step_mark hmark with ⟨rfl, rfl⟩
    exact ⟨rfl, rfl⟩
  · cases hdone

end Replacing

/-! ## Programs -/

section

variable {α : Type}

/-- How far a program has got that saves once, and which saves have ended. In the end, its answer
and these saves are to meet a condition. -/
inductive Saving (Q : List Attempt → α → Prop) : Program α → Machine → List Attempt → Prop
  /-- It is found out what is to be saved, and where. -/
  | before {x : Program SaveJob} {k : SaveJob → Except StoreError Unit → Program α} {m : Machine}
      (h : x.Quiet fun job =>
        job.path.IsTarget ∧ ∀ result, (k job result).Quiet (Q [⟨job, result⟩])) :
      Saving Q (x >>= fun job => SaveQueue.write job >>= k job) m []
  /-- The file is being replaced. -/
  | writing {r : Replacing} {stage : Replacing.Stage} {job : SaveJob} {k : Except StoreError Unit →
      Program α}
      {m : Machine} (hpath : r.path = job.path) (hbytes : r.bytes = job.snapshot.encode)
      (hopen : stage.ending = none) (hready : r.Ready m.held stage) (htarget : job.path.IsTarget)
      (h : ∀ result, (k result).Quiet (Q [⟨job, result⟩])) : Saving Q (r.program stage >>= k) m []
  /-- Nothing is saved any more. -/
  | after {p : Program α} {m : Machine} {l : List Attempt} (h : p.Quiet (Q l)) : Saving Q p m l

/-- What a step makes of the saves that have ended, and what is seen of it under targets. -/
inductive Lands (m m' : Machine) : List Attempt → List Attempt → Prop
  | nothing {l : List Attempt} (h : m.DiffersAt Hidden m') : Lands m m' l l
  | ended (a : Attempt) (htarget : a.path.IsTarget)
      (h : a.result = .ok () → m'.held a.path = some (some a.snapshot.encode)) : Lands m m' [] [a]

variable {Q : List Attempt → α → Prop} {fails : Request → Prop} {p p' : Program α}
    {l : List Attempt}

theorem Lands.probed (h : m.DiffersAt ProbeNamed m') : Lands m m' l l :=
  .nothing (h.mono fun _ hprobe => hprobe.hidden)

/-- The first step of a save changes no files. -/
theorem Saving.begin {job : SaveJob} {k : Except StoreError Unit → Program α}
    (htarget : job.path.IsTarget)
    (h : ∀ result, (k result).Quiet (Q [⟨job, result⟩]))
    (hstep : Program.Step fails (SaveQueue.write job >>= k) m p' m') :
    Saving Q p' m' [] ∧ m.DiffersAt ProbeNamed m' := by
  rcases htarget.exists_fileName? with ⟨name, hname, -⟩
  rcases Replacing.step_write hname hstep with ⟨rfl, rfl⟩
  exact ⟨.writing rfl rfl rfl trivial htarget h, differsAt_of_tree rfl rfl⟩

theorem Saving.step (h : Saving Q p m l) (hstep : Program.Step fails p m p' m') :
    ∃ l', Saving Q p' m' l' ∧ Lands m m' l l' := by
  cases h with
  | before h =>
    rcases Program.step_bind_cases hstep with ⟨x', hfirst, rfl⟩ | ⟨job, rfl, hwrite⟩
    · rcases h.step hfirst with ⟨hquiet, hprobed⟩
      exact ⟨[], .before hquiet, .probed hprobed⟩
    · rcases Saving.begin h.1 h.2 hwrite with ⟨hsaving, hprobed⟩
      exact ⟨[], hsaving, .probed hprobed⟩
  | @writing r stage job k m hpath hbytes hopen hready htarget h =>
    rcases Program.step_bind_cases hstep with ⟨q, hfirst, rfl⟩ | ⟨result, hdone, -⟩
    · rcases Replacing.advances_of_step hfirst with ⟨stage', rfl, hadvances⟩
      have hready' := hadvances.ready hready
      cases hending : stage'.ending with
      | none =>
        have hnot : stage' ≠ .replaced := by
          rintro rfl
          cases hending
        have hhidden : m.DiffersAt Hidden m' :=
          (hadvances.differsAt hready hnot).mono fun _ hname => hname ▸ hidden_scratchName _ _
        exact ⟨[], .writing hpath hbytes hending hready' htarget h, .nothing hhidden⟩
      | some result =>
        rw [Replacing.program_of_ending hending, Program.done_bind]
        refine ⟨[⟨job, result⟩], .after (h result), .ended _ htarget ?_⟩
        intro hok
        have hok : result = .ok () := hok
        rw [hok] at hending
        have hheld := hready'.of_ending hending
        rw [hpath, hbytes] at hheld
        exact hheld
    · rw [Replacing.ending_of_done hdone] at hopen
      cases hopen
  | after h =>
    rcases h.step hstep with ⟨hquiet, hprobed⟩
    exact ⟨l, .after hquiet, .probed hprobed⟩

/-- Another program that only probes does not disturb it. -/
theorem Saving.stable (h : Saving Q p m l) (hprobed : m.DiffersAt ProbeNamed m') :
    Saving Q p m' l := by
  cases h with
  | before h => exact .before h
  | writing hpath hbytes hopen hready htarget h =>
    refine .writing hpath hbytes hopen (hready.stable hopen hprobed ?_) htarget h
    exact fun hprobe => hprobe.ne_scratchName _ _ rfl
  | after h => exact .after h

/-- An answer is given after the save has ended. -/
theorem Saving.of_done {answer : α} (h : Saving Q (.done answer) m l) : Q l answer := by
  generalize hp : Program.done answer = p at h
  cases h with
  | @before x k m h =>
    cases x with
    | ask request next => cases hp
    | done job =>
      rcases h.1.exists_fileName? with ⟨name, hname, -⟩
      rw [Program.done_bind, SaveQueue.write, Replacing.replaceFile_eq hname] at hp
      cases hp
  | @writing r stage job k m hpath hbytes hopen hready htarget h =>
    cases hprogram : r.program stage with
    | ask request next =>
      rw [hprogram] at hp
      cases hp
    | done result =>
      rw [Replacing.ending_of_done hprogram] at hopen
      cases hopen
  | after h =>
    rw [← hp] at h
    exact h

end

/-! ## Saves one after the other -/

/-- The saves went to targets, and if all of them have succeeded under one path, the last of them is
found there. -/
structure Kept (m : Machine) (saves : List Attempt) : Prop where
  targets : ∀ a ∈ saves, a.path.IsTarget
  last : ∀ path, (∀ a ∈ saves, a.path = path ∧ a.result = .ok ()) →
    ∀ a, saves.getLast? = some a → m.held path = some (some a.snapshot.encode)

variable {saves l l' : List Attempt}

theorem kept_nil (m : Machine) : Kept m [] := ⟨nofun, fun _ _ => nofun⟩

theorem Kept.of_hidden (h : Kept m saves) (hhidden : m.DiffersAt Hidden m') : Kept m' saves := by
  refine ⟨h.targets, ?_⟩
  intro path hall a ha
  have hmem := List.mem_of_getLast? ha
  have htarget : path.IsTarget := (hall a hmem).1 ▸ h.targets a hmem
  rw [held_of_hidden hhidden htarget]
  exact h.last path hall a ha

theorem Kept.lands (h : Kept m (saves ++ l)) (hlands : Lands m m' l l') :
    Kept m' (saves ++ l') := by
  cases hlands with
  | nothing hhidden => exact h.of_hidden hhidden
  | ended a htarget hheld =>
    rw [List.append_nil] at h
    constructor
    case targets =>
      intro b hb
      rcases List.mem_append.1 hb with hb | hb
      · exact h.targets b hb
      · rw [List.mem_singleton.1 hb]
        exact htarget
    case last =>
      intro path hall b hb
      rw [List.getLast?_concat] at hb
      cases hb
      rcases hall a (by simp) with ⟨hpath, hok⟩
      rw [← hpath]
      exact hheld hok

end EvidenceTags
