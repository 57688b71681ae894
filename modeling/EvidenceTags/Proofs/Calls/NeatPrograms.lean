import EvidenceTags.Proofs.Calls.OwnFiles
import EvidenceTags.Proofs.Calls.Saving

/-!
# Programs that leave nothing behind

A program is `Program.Neat` if it probes at most: it may make a file, but then it removes it. A
program is `Writing` if besides it replaces one file. Both are told together with what the program
has in hand, and a step of either is a `Deed` (`Program.Neat.step`, `Writing.step`), as long as
files can be removed.

What others do to files that the program does not have in hand is no matter to it
(`Writing.stable`).
-/

namespace EvidenceTags

open FileTree Machine

/-- A call that looks at the machine, or writes to the log. -/
def Request.Looks : Request → Prop
  | .status _ | .canonical _ | .read _ | .canAppend _ | .temporaryDir | .log _ => True
  | _ => False

variable {process : Nat} {α β : Type} {fails : Request → Prop} {hand : Hand process}
  {file : OwnFile process} {m m' : Machine} {T : Path → Prop}

theorem Request.Looks.deed {request : Request} (h : request.Looks) (ended : List Attempt) :
    Deed T hand hand ended ended m (request.serve m).2 := by
  cases request with
  | status | canonical | read | canAppend | temporaryDir => exact .refl hand ended m
  | log event =>
    exact deed_of_tree rfl rfl rfl (Nat.le_refl _) (fun _ hn => .inl hn) fun _ hat _ => hat
  | _ => cases h

theorem Machine.error_of_change {result : Except OsError FileTree} {e : OsError}
    (h : m.change result = (.error e, m')) : result = .error e := by
  cases result with
  | ok tree => cases h
  | error other =>
    cases h
    rfl

/-- Nothing is in hand that cannot be removed. -/
theorem lost_of_refused {e : OsError}
    (hplain : ∀ l, (Hand.holding file).At m l → m.tree.content? l ≠ some none)
    (h : (do m.tree.remove m.now (← m.locate file.path)) = .error e) (l : Location)
    (hat : (Hand.holding file).At m l) : m.tree.content? l = none := by
  have hfile := hplain l hat
  rcases hat with ⟨other, heq, hlocate⟩
  cases heq
  cases hcontent : m.tree.content? l with
  | none => rfl
  | some content =>
    cases content with
    | none => exact absurd hcontent hfile
    | some bytes =>
      rcases exists_remove_of_held ((held_of_locate hlocate).trans hcontent) with ⟨tree, hremoved⟩
      rw [h] at hremoved
      cases hremoved

/-! ## Programs that only probe -/

namespace Program

/-- The program has this in hand and makes no file but for a probe, which it removes. Its answer
meets a condition. -/
inductive Neat (Q : α → Prop) : Hand process → Program α → Prop
  | done {answer : α} (h : Q answer) : Neat Q .empty (.done answer)
  | look {hand : Hand process} {request : Request} {next : request.Answer → Program α}
      (hlooks : request.Looks) (h : ∀ answer, Neat Q hand (next answer)) :
      Neat Q hand (.ask request next)
  | mark {next : String → Program α} (h : ∀ n, Neat Q (.numbered n) (next (markOf process n))) :
      Neat Q .empty (.ask .scratchMark next)
  | make {file : OwnFile process} {next : Except OsError Unit → Program α}
      (hmade : Neat Q (.holding file) (next (.ok ())))
      (hrefused : ∀ error, Neat Q .empty (next (.error error))) :
      Neat Q (.numbered file.number) (.ask (.createNew file.path) next)
  | remove {file : OwnFile process} {next : Except OsError Unit → Program α}
      (h : ∀ answer, Neat Q .empty (next answer)) :
      Neat Q (.holding file) (.ask (.remove file.path) next)

variable {Q : α → Prop} {R : β → Prop}

theorem neat_bind {x : Program α} {f : α → Program β} (hx : Neat Q hand x)
    (hf : ∀ answer, Q answer → Neat R (.empty : Hand process) (f answer)) :
    Neat R hand (x >>= f) := by
  induction hx with
  | done h => exact hf _ h
  | look hlooks _ ih => exact .look hlooks ih
  | mark _ ih => exact .mark ih
  | make _ _ ihmade ihrefused => exact .make ihmade ihrefused
  | remove _ ih => exact .remove ih

theorem Neat.step {p p' : Program α} (h : Neat Q hand p) (hprocess : m.process = process)
    (hremoves : ∀ path, ¬ fails (.remove path))
    (hplain : ∀ l, hand.At m l → m.tree.content? l ≠ some none) (hstep : Step fails p m p' m') :
    ∃ hand', Neat Q hand' p' ∧ ∀ ended, Deed T hand hand' ended ended m m' := by
  cases h with
  | done => cases hstep
  | look hlooks h =>
    cases hstep with
    | served => exact ⟨hand, h _, fun ended => hlooks.deed ended⟩
    | failed => exact ⟨hand, h _, fun ended => .refl hand ended m⟩
    | part => cases hlooks
  | @mark next h =>
    cases hstep with
    | served =>
      have hmark : m.markAt m.serial = markOf process m.serial := by rw [markAt_eq, hprocess]
      refine ⟨.numbered m.serial, ?_, fun ended => deed_of_numbered rfl⟩
      show Neat Q _ (next (m.markAt m.serial))
      rw [hmark]
      exact h m.serial
    | failed _ _ _ _ _ hrefusal => cases hrefusal
  | @make file next hmade hrefused =>
    cases hstep with
    | served =>
      have hserve : Request.serve (.createNew file.path) m = m.change (m.createNew file.path) := rfl
      rw [hserve]
      cases hresult : m.createNew file.path with
      | error e =>
        refine ⟨.empty, hrefused e, fun ended => ?_⟩
        exact deed_of_lost fun l hat => absurd hat Hand.not_at_numbered
      | ok tree =>
        rcases putAt_of_createNew hresult with ⟨l, hput⟩
        exact ⟨.holding file, hmade, fun ended => deed_of_put hput rfl nofun⟩
    | failed _ _ _ answer _ hrefusal =>
      rcases hrefusal with ⟨e, rfl⟩
      refine ⟨.empty, hrefused e, fun ended => ?_⟩
      exact deed_of_lost fun l hat => absurd hat Hand.not_at_numbered
  | @remove file next h =>
    cases hstep with
    | served =>
      refine ⟨.empty, h _, fun ended => ?_⟩
      show Deed T _ _ ended ended m (m.change (do m.tree.remove m.now (← m.locate file.path))).2
      cases hresult : (do m.tree.remove m.now (← m.locate file.path) : Except OsError FileTree) with
      | error e => exact deed_of_lost (lost_of_refused hplain hresult)
      | ok tree =>
        rcases putAt_of_remove hresult with ⟨l, hput⟩
        exact deed_of_gone hput
    | failed _ _ _ _ hfails => exact absurd hfails (hremoves file.path)

/-- Nothing is in hand when a program is done. -/
theorem Neat.of_done {answer : α} (h : Neat Q hand (.done answer)) : hand = .empty ∧ Q answer := by
  cases h with
  | done h => exact ⟨rfl, h⟩

end Program

/-! ## Replacing a file -/

namespace Replacing

variable {r : Replacing} {stage stage' : Stage} {job : SaveJob}

/-- A step of replacing a file, with the scratch file in hand. In the end the save has succeeded or
not. -/
theorem Advances.deed (h : r.Advances fails stage m stage' m') (hready : r.Ready m.held stage)
    (hfile : file.path = r.scratch) (hpath : r.path = job.path)
    (hbytes : r.bytes = job.snapshot.encode) (htarget : T job.path)
    (hremoves : ∀ path, ¬ fails (.remove path))
    (hplain : ∀ l, (Hand.holding file).At m l → m.tree.content? l ≠ some none) :
    match stage'.ending with
    | none => Deed T (.holding file) (.holding file) [] [] m m'
    | some result => Deed T (.holding file) .empty [] [⟨job, result⟩] m m' := by
  have hput {l : Location} {bytes : Wire.Bytes} (hput : m.PutAt r.scratch l (some bytes) m') :
      Deed T (.holding file) (.holding file) [] [] m m' := by
    rw [← hfile] at hput
    exact deed_of_put hput rfl fun other heq => (Hand.holding.inj heq).symm
  cases h with
  | made h => exact hput (putAt_of_created h).choose_spec
  | wrote written rest count h => exact hput (putAt_of_extended hready.1 h).choose_spec
  | filled written rest h => exact hput (putAt_of_extended hready.1 h).choose_spec
  | synced h =>
    cases h
    exact .refl _ _ _
  | moved h =>
    have hheld : m.held r.scratch = some (some r.bytes) := hready
    rw [← hfile, hbytes] at hheld
    rw [← hfile, hpath] at h
    exact deed_of_moved hheld htarget (hpath ▸ r.named) h
  | cleaned error h =>
    rcases Machine.exists_of_change h with ⟨tree, hgone, rfl⟩
    rcases putAt_of_remove hgone with ⟨l, hgone⟩
    rw [← hfile] at hgone
    exact (deed_of_gone hgone).failed htarget _
  | notCleaned _ error hwhy =>
    have hlost : ∀ l, (Hand.holding file).At m l → m.tree.content? l = none := by
      rcases hwhy with hfails | ⟨e, hrefused⟩
      · exact absurd hfails (hremoves _)
      · have hresult := error_of_change hrefused
        rw [← hfile] at hresult
        exact lost_of_refused hplain hresult
    exact (deed_of_lost hlost).failed htarget _
  | notMade | notFilled | notSynced | notMoved => exact .refl _ _ _

end Replacing

/-! ## Programs that save once

`Saving` says what is found under the targets of such programs, whether or not files can be removed.
Here the scratch file matters. -/

/-- How far a program has got that saves once, what it has in hand, and which saves have ended. -/
inductive Writing (T : Path → Prop) (Q : List Attempt → α → Prop) (m : Machine) :
    Hand process → Program α → List Attempt → Prop
  /-- It is found out what is to be saved, and where. -/
  | before {hand : Hand process} {x : Program SaveJob}
      {k : SaveJob → Except StoreError Unit → Program α}
      (h : x.Neat (fun job => T job.path
        ∧ ∀ result, (k job result).Neat (Q [⟨job, result⟩]) (.empty : Hand process)) hand) :
      Writing T Q m hand (x >>= fun job => SaveQueue.write job >>= k job) []
  /-- The file is being replaced. -/
  | writing {file : OwnFile process} {r : Replacing} {stage : Replacing.Stage} {job : SaveJob}
      {k : Except StoreError Unit → Program α} (hfile : file.path = r.scratch)
      (hname : file.name = Path.scratchName r.name r.mark) (hpath : r.path = job.path)
      (hbytes : r.bytes = job.snapshot.encode) (hopen : stage.ending = none)
      (hready : r.Ready m.held stage) (htarget : T job.path)
      (h : ∀ result, (k result).Neat (Q [⟨job, result⟩]) (.empty : Hand process)) :
      Writing T Q m (.holding file) (r.program stage >>= k) []
  /-- Nothing is saved any more. -/
  | after {hand : Hand process} {p : Program α} {ended : List Attempt} (h : p.Neat (Q ended) hand) :
      Writing T Q m hand p ended

namespace Writing

variable {Q : List Attempt → α → Prop} {p p' : Program α} {ended : List Attempt}

/-- The first step of a save takes a number, unless the path cannot be that of a file. -/
theorem begin {job : SaveJob} {k : Except StoreError Unit → Program α} (htarget : T job.path)
    (h : ∀ result, (k result).Neat (Q [⟨job, result⟩]) (.empty : Hand process))
    (hprocess : m.process = process) (hremoves : ∀ path, ¬ fails (.remove path))
    (hstep : Program.Step fails (SaveQueue.write job >>= k) m p' m') :
    ∃ hand' ended', Writing T Q m' hand' p' ended'
      ∧ Deed T (.empty : Hand process) hand' [] ended' m m' := by
  cases hname : job.path.fileName? with
  | none =>
    rw [SaveQueue.write, Replacing.replaceFile_of_unnamed hname, Program.done_bind] at hstep
    have hplain (l : Location) (hat : (Hand.empty : Hand process).At m l) :
        m.tree.content? l ≠ some none := absurd hat Hand.not_at_empty
    rcases (h _).step hprocess hremoves hplain hstep with ⟨hand', hneat, hdeed⟩
    exact ⟨hand', _, .after hneat, (hdeed []).failed htarget _⟩
  | some name =>
    rcases Replacing.step_write hname hstep with ⟨rfl, rfl⟩
    let r := Replacing.ofJob m job hname
    have hmark : m.markAt m.serial = markOf process m.serial := by rw [markAt_eq, hprocess]
    let file : OwnFile process := ⟨m.serial, r.scratch, Path.scratchName name (m.markAt m.serial),
      Path.getLast?_segments_scratch (Path.notMem_of_fileName? hname) r.plain,
      .inl ⟨name, by rw [hmark]⟩⟩
    have hwriting : Writing T Q { m with serial := m.serial + 1 } (.holding file)
        (r.program .making >>= k) [] :=
      .writing rfl rfl rfl rfl rfl trivial htarget h
    exact ⟨_, _, hwriting, deed_of_numbered rfl⟩

theorem step (h : Writing T Q m hand p ended) (hprocess : m.process = process)
    (hremoves : ∀ path, ¬ fails (.remove path))
    (hplain : ∀ l, hand.At m l → m.tree.content? l ≠ some none)
    (hstep : Program.Step fails p m p' m') :
    ∃ hand' ended', Writing T Q m' hand' p' ended' ∧ Deed T hand hand' ended ended' m m' := by
  cases h with
  | before h =>
    rcases Program.step_bind_cases hstep with ⟨x', hfirst, rfl⟩ | ⟨job, rfl, hwrite⟩
    · rcases h.step hprocess hremoves hplain hfirst with ⟨hand', hneat, hdeed⟩
      exact ⟨hand', [], .before hneat, hdeed []⟩
    · rcases h.of_done with ⟨rfl, htarget, hneat⟩
      exact begin htarget hneat hprocess hremoves hwrite
  | @writing file r stage job k hfile hname hpath hbytes hopen hready htarget h =>
    rcases Program.step_bind_cases hstep with ⟨q, hfirst, rfl⟩ | ⟨result, hdone, -⟩
    · rcases Replacing.advances_of_step hfirst with ⟨stage', rfl, hadvances⟩
      have hready' := hadvances.ready hready
      have hdeed := hadvances.deed hready hfile hpath hbytes htarget hremoves hplain
      cases hending : stage'.ending with
      | none =>
        rw [hending] at hdeed
        exact ⟨_, _, .writing hfile hname hpath hbytes hending hready' htarget h, hdeed⟩
      | some result =>
        rw [hending] at hdeed
        rw [Replacing.program_of_ending hending, Program.done_bind]
        exact ⟨_, _, .after (h result), hdeed⟩
    · rw [Replacing.ending_of_done hdone] at hopen
      cases hopen
  | after h =>
    rcases h.step hprocess hremoves hplain hstep with ⟨hand', hneat, hdeed⟩
    exact ⟨hand', ended, .after hneat, hdeed ended⟩

/-- What happens to files that are not in hand does not disturb it. -/
theorem stable {names : String → Prop} (h : Writing T Q m hand p ended)
    (hdiffers : m.DiffersAt names m') (hnot : ∀ name, hand.Names name → ¬ names name) :
    Writing T Q m' hand p ended := by
  cases h with
  | before h => exact .before h
  | writing hfile hname hpath hbytes hopen hready htarget h =>
    have hother := hnot _ (Hand.names_file _)
    rw [hname] at hother
    exact .writing hfile hname hpath hbytes hopen (hready.stable hopen hdiffers hother) htarget h
  | after h => exact .after h

/-- An answer is given after the save has ended, and then nothing is in hand. -/
theorem of_done {answer : α} (h : Writing T Q m hand (.done answer) ended) :
    ∃ ended', Q ended' answer ∧ Deed T hand .empty ended ended' m m := by
  generalize hp : Program.done answer = p at h
  cases h with
  | @before hand x k h =>
    cases x with
    | ask request next => cases hp
    | done job =>
      rcases h.of_done with ⟨rfl, htarget, hneat⟩
      rw [Program.done_bind] at hp
      cases hname : job.path.fileName? with
      | none =>
        rw [SaveQueue.write, Replacing.replaceFile_of_unnamed hname, Program.done_bind] at hp
        have hlast := hneat (.error (.io job.path .noFileName))
        rw [← hp] at hlast
        exact ⟨_, hlast.of_done.2, (Deed.refl _ _ m).failed htarget _⟩
      | some name =>
        rw [SaveQueue.write, Replacing.replaceFile_eq hname] at hp
        cases hp
  | @writing file r stage job k hfile hname hpath hbytes hopen hready htarget h =>
    cases hprogram : r.program stage with
    | ask request next =>
      rw [hprogram] at hp
      cases hp
    | done result =>
      rw [Replacing.ending_of_done hprogram] at hopen
      cases hopen
  | after h =>
    rw [← hp] at h
    rcases h.of_done with ⟨rfl, hanswer⟩
    exact ⟨ended, hanswer, .refl _ _ m⟩

end Writing

end EvidenceTags
