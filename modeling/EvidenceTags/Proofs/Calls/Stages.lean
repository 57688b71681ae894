import EvidenceTags.Proofs.Calls.Programs
import EvidenceTags.ReplaceFile

/-!
# Replacing a file, call by call

A file is replaced by way of a scratch file, and between any two calls the program may be stopped, a
call may fail, and of the new content any part may have been written. Where the program has got to
is its `Stage`. What one step can do, on whatever host, is said once (`Replacing.advances_of_step`).
-/

namespace EvidenceTags

/-- A file that is to be replaced, with its name and the mark of its scratch file. -/
structure Replacing where
  path : Path
  bytes : Wire.Bytes
  name : String
  mark : String
  named : path.fileName? = some name
  plain : '/' ∉ mark.toList

namespace Replacing

/-- How far a file has been replaced. -/
inductive Stage where
  /-- The scratch file is to be made. -/
  | making
  /-- The scratch file is to be extended. -/
  | filling (written rest : Wire.Bytes)
  /-- The scratch file is complete, and is to be brought to the disk. -/
  | syncing
  /-- The scratch file is to be moved. -/
  | moving
  /-- Something has gone wrong, and the scratch file is to be removed. -/
  | cleaning (error : StoreError)
  | failed (error : StoreError)
  | replaced

/-! ## The program of a stage -/

/-- After a failure the scratch file is removed. -/
def cleanUp (scratch : Path) (error : StoreError) : Program (Except StoreError Unit) := do
  let _ ← Host.remove scratch
  pure (.error error)

/-- What follows after the scratch file has been filled, or could not be. -/
def afterFilling (scratch path : Path) : Except OsError Unit → Program (Except StoreError Unit)
  | .error error => cleanUp scratch (.io scratch (.system error))
  | .ok () => do
    match ← Host.rename scratch path with
    | .error error => cleanUp scratch (.io path (.system error))
    | .ok () => pure (.ok ())

/-- Nothing is done under a path that cannot be that of a file. -/
theorem replaceFile_of_unnamed {path : Path} (hname : path.fileName? = none) (bytes : Wire.Bytes) :
    (replaceFile path bytes : Program _) = .done (.error (.io path .noFileName)) := by
  rw [replaceFile, hname]
  rfl

theorem replaceFile_eq {path : Path} {name : String} (hname : path.fileName? = some name)
    (bytes : Wire.Bytes) : (replaceFile path bytes : Program _) = Host.scratchMark >>= fun mark =>
      fillFile (path.scratch name mark) bytes >>= afterFilling (path.scratch name mark) path := by
  unfold replaceFile
  rw [hname]
  refine bind_congr fun mark => bind_congr fun filled => ?_
  cases filled with
  | error e => rfl
  | ok _ =>
    refine bind_congr fun moved => ?_
    cases moved <;> rfl

theorem run_fillFile {σ : Type} [Host (StateM σ)] (path : Path) (bytes : Wire.Bytes) :
    ((fillFile path bytes : Program _).run : StateM σ _) = fillFile path bytes := by
  unfold fillFile
  rw [Program.run_bind]
  refine bind_congr fun made => ?_
  cases made with
  | error e => rfl
  | ok _ =>
    rw [Program.run_bind]
    refine bind_congr fun extended => ?_
    cases extended <;> rfl

/-- Call by call, a file is replaced as it is on a host at once. -/
theorem run_replaceFile {σ : Type} [Host (StateM σ)] (path : Path) (bytes : Wire.Bytes) :
    ((replaceFile path bytes : Program _).run : StateM σ _) = replaceFile path bytes := by
  unfold replaceFile
  cases path.fileName? with
  | none => rfl
  | some name =>
    rw [Program.run_bind]
    refine bind_congr fun mark => ?_
    rw [Program.run_bind, run_fillFile]
    refine bind_congr fun filled => ?_
    cases filled with
    | error e => rfl
    | ok _ =>
      rw [Program.run_bind]
      refine bind_congr fun moved => ?_
      cases moved <;> rfl

variable (r : Replacing)

/-- The scratch file. -/
def scratch : Path := r.path.scratch r.name r.mark

/-- What is left to do. -/
def program : Stage → Program (Except StoreError Unit)
  | .making => fillFile r.scratch r.bytes >>= afterFilling r.scratch r.path
  | .filling _ rest => (do
      match ← Host.append r.scratch rest with
      | .error error => pure (.error error)
      | .ok () => Host.sync r.scratch) >>= afterFilling r.scratch r.path
  | .syncing => Host.sync r.scratch >>= afterFilling r.scratch r.path
  | .moving => afterFilling r.scratch r.path (.ok ())
  | .cleaning error => cleanUp r.scratch error
  | .failed error => .done (.error error)
  | .replaced => .done (.ok ())

/-- What is found at a stage, where `held` tells what is found under a path: nothing, a directory,
or a file with some content. -/
def Ready (held : Path → Option (Option Wire.Bytes)) : Stage → Prop
  | .filling written rest => held r.scratch = some (some written) ∧ written ++ rest = r.bytes
  | .syncing | .moving => held r.scratch = some (some r.bytes)
  | .replaced => held r.path = some (some r.bytes)
  | .making | .cleaning _ | .failed _ => True

/-! ## One step -/

section

variable {σ : Type} [Host (StateM σ)] (fails : Request → Prop)

/-- What a step does. -/
inductive Advances : Stage → σ → Stage → σ → Prop
  | made {m m' : σ} (h : (Host.create r.scratch : StateM σ _) m = (.ok (), m')) :
      Advances .making m (.filling [] r.bytes) m'
  | notMade (m : σ) (error : OsError) :
      Advances .making m (.cleaning (.io r.scratch (.system error))) m
  | wrote {m m' : σ} (written rest : Wire.Bytes) (count : Nat)
      (h : (Host.append r.scratch (rest.take count) : StateM σ _) m = (.ok (), m')) :
      Advances (.filling written rest) m
        (.filling (written ++ rest.take count) (rest.drop count)) m'
  | filled {m m' : σ} (written rest : Wire.Bytes)
      (h : (Host.append r.scratch rest : StateM σ _) m = (.ok (), m')) :
      Advances (.filling written rest) m .syncing m'
  | notFilled (m : σ) (written rest : Wire.Bytes) (error : OsError) :
      Advances (.filling written rest) m (.cleaning (.io r.scratch (.system error))) m
  | synced {m m' : σ} (h : (Host.sync r.scratch : StateM σ _) m = (.ok (), m')) :
      Advances .syncing m .moving m'
  | notSynced (m : σ) (error : OsError) :
      Advances .syncing m (.cleaning (.io r.scratch (.system error))) m
  | moved {m m' : σ} (h : (Host.rename r.scratch r.path : StateM σ _) m = (.ok (), m')) :
      Advances .moving m .replaced m'
  | notMoved (m : σ) (error : OsError) :
      Advances .moving m (.cleaning (.io r.path (.system error))) m
  | cleaned {m m' : σ} (error : StoreError)
      (h : (Host.remove r.scratch : StateM σ _) m = (.ok (), m')) :
      Advances (.cleaning error) m (.failed error) m'
  | notCleaned (m : σ) (error : StoreError)
      (h : fails (.remove r.scratch)
        ∨ ∃ e, (Host.remove r.scratch : StateM σ _) m = (.error e, m)) :
      Advances (.cleaning error) m (.failed error) m

end

variable {r : Replacing}

/-- A call that fails is not followed by the stage that follows its success. -/
def next (r : Replacing) (success : Stage) (path : Path) :
    Except OsError Unit → Program (Except StoreError Unit)
  | .error error => r.program (.cleaning (.io path (.system error)))
  | .ok () => r.program success

theorem program_making :
    r.program .making = .ask (.create r.scratch) (r.next (.filling [] r.bytes) r.scratch) := by
  refine congrArg (Program.ask (.create r.scratch)) (funext fun made => ?_)
  cases made <;> rfl

theorem program_filling (written rest : Wire.Bytes) :
    r.program (.filling written rest)
      = .ask (.append r.scratch rest) (r.next .syncing r.scratch) := by
  refine congrArg (Program.ask (.append r.scratch rest)) (funext fun extended => ?_)
  cases extended <;> rfl

theorem program_syncing :
    r.program .syncing = .ask (.sync r.scratch) (r.next .moving r.scratch) := by
  refine congrArg (Program.ask (.sync r.scratch)) (funext fun synced => ?_)
  cases synced <;> rfl

theorem program_moving :
    r.program .moving = .ask (.rename r.scratch r.path) (r.next .replaced r.path) := by
  refine congrArg (Program.ask (.rename r.scratch r.path)) (funext fun moved => ?_)
  cases moved <;> rfl

variable {σ : Type} [Host (StateM σ)] {fails : Request → Prop} {stage : Stage} {m m' : σ}

omit [Host (StateM σ)] in
/-- A call succeeds, or it fails and changes nothing. -/
theorem served_cases (call : StateM σ (Except OsError Unit))
    (hsteady : (∃ e, (call m).1 = .error e) → (call m).2 = m) :
    (∃ m', call m = (.ok (), m')) ∨ ∃ e, call m = (.error e, m) := by
  rcases hcall : call m with ⟨answer, m'⟩
  rw [hcall] at hsteady
  cases answer with
  | ok _ => exact .inl ⟨m', rfl⟩
  | error e =>
    have hsame : m' = m := hsteady ⟨e, rfl⟩
    exact .inr ⟨e, by rw [hsame]⟩

theorem advances_of_step [SteadyHost σ] {p : Program (Except StoreError Unit)}
    (h : Program.Step fails (r.program stage) m p m') :
    ∃ stage', p = r.program stage' ∧ r.Advances fails stage m stage' m' := by
  cases stage with
  | making =>
    rw [program_making] at h
    cases h with
    | served =>
      show ∃ stage', r.next _ _ ((Host.create r.scratch : StateM σ _) m).1 = _
        ∧ r.Advances fails _ _ _ ((Host.create r.scratch : StateM σ _) m).2
      rcases served_cases (Host.create r.scratch) (SteadyHost.unchanged (.create r.scratch) m)
        with ⟨m', hserved⟩ | ⟨e, hserved⟩
      · rw [hserved]
        exact ⟨_, rfl, .made hserved⟩
      · rw [hserved]
        exact ⟨_, rfl, .notMade m e⟩
    | failed _ _ _ answer hfails hanswer =>
      rcases hanswer with ⟨e, rfl⟩
      exact ⟨_, rfl, .notMade m e⟩
  | filling written rest =>
    rw [program_filling] at h
    cases h with
    | served =>
      show ∃ stage', r.next _ _ ((Host.append r.scratch rest : StateM σ _) m).1 = _
        ∧ r.Advances fails _ _ _ ((Host.append r.scratch rest : StateM σ _) m).2
      rcases served_cases (Host.append r.scratch rest)
        (SteadyHost.unchanged (.append r.scratch rest) m)
        with ⟨m', hserved⟩ | ⟨e, hserved⟩
      · rw [hserved]
        exact ⟨_, rfl, .filled written rest hserved⟩
      · rw [hserved]
        exact ⟨_, rfl, .notFilled m written rest e⟩
    | failed _ _ _ answer hfails hanswer =>
      rcases hanswer with ⟨e, rfl⟩
      exact ⟨_, rfl, .notFilled m written rest e⟩
    | part _ _ count _ _ _ hwritten =>
      refine ⟨_, ?_, .wrote written rest count hwritten⟩
      rw [program_filling]
  | syncing =>
    rw [program_syncing] at h
    cases h with
    | served =>
      show ∃ stage', r.next _ _ ((Host.sync r.scratch : StateM σ _) m).1 = _
        ∧ r.Advances fails _ _ _ ((Host.sync r.scratch : StateM σ _) m).2
      rcases served_cases (Host.sync r.scratch) (SteadyHost.unchanged (.sync r.scratch) m)
        with ⟨m', hserved⟩ | ⟨e, hserved⟩
      · rw [hserved]
        exact ⟨_, rfl, .synced hserved⟩
      · rw [hserved]
        exact ⟨_, rfl, .notSynced m e⟩
    | failed _ _ _ answer hfails hanswer =>
      rcases hanswer with ⟨e, rfl⟩
      exact ⟨_, rfl, .notSynced m e⟩
  | moving =>
    rw [program_moving] at h
    cases h with
    | served =>
      show ∃ stage', r.next _ _ ((Host.rename r.scratch r.path : StateM σ _) m).1 = _
        ∧ r.Advances fails _ _ _ ((Host.rename r.scratch r.path : StateM σ _) m).2
      rcases served_cases (Host.rename r.scratch r.path)
        (SteadyHost.unchanged (.rename r.scratch r.path) m)
        with ⟨m', hserved⟩ | ⟨e, hserved⟩
      · rw [hserved]
        exact ⟨_, rfl, .moved hserved⟩
      · rw [hserved]
        exact ⟨_, rfl, .notMoved m e⟩
    | failed _ _ _ answer hfails hanswer =>
      rcases hanswer with ⟨e, rfl⟩
      exact ⟨_, rfl, .notMoved m e⟩
  | cleaning error =>
    have hprogram : r.program (.cleaning error)
        = .ask (.remove r.scratch) fun _ => r.program (.failed error) := rfl
    rw [hprogram] at h
    cases h with
    | served =>
      show ∃ stage', r.program (.failed error) = _
        ∧ r.Advances fails _ _ _ ((Host.remove r.scratch : StateM σ _) m).2
      rcases served_cases (Host.remove r.scratch) (SteadyHost.unchanged (.remove r.scratch) m)
        with ⟨m', hserved⟩ | ⟨e, hserved⟩
      · rw [hserved]
        exact ⟨_, rfl, .cleaned error hserved⟩
      · rw [hserved]
        exact ⟨_, rfl, .notCleaned m error (.inr ⟨e, hserved⟩)⟩
    | failed _ _ _ answer hfails hanswer =>
      exact ⟨_, rfl, .notCleaned m error (.inl hfails)⟩
  | failed error => cases h
  | replaced => cases h

/-- What the first two calls come to: a mark is taken, and the scratch file is made. -/
def made (r : Replacing) (m₀ : σ) : Except OsError Unit × σ :=
  (Host.create r.scratch : StateM σ _) ((Host.scratchMark : StateM σ _) m₀).2

theorem reaches_filling (r : Replacing) {m₀ : σ}
    (hmark : r.mark = ((Host.scratchMark : StateM σ _) m₀).1)
    (hmade : (r.made m₀).1 = .ok ()) :
    Program.Reaches fails (replaceFile r.path r.bytes, m₀)
      (r.program (.filling [] r.bytes), (r.made m₀).2) := by
  have hmarked : Program.Step fails (replaceFile r.path r.bytes) m₀ (r.program .making)
      ((Host.scratchMark : StateM σ _) m₀).2 := by
    rw [replaceFile_eq r.named, program, scratch, hmark]
    exact .served .scratchMark _ m₀
  have hstep : Program.Step fails (r.program .making) ((Host.scratchMark : StateM σ _) m₀).2
      (r.next (.filling [] r.bytes) r.scratch (r.made m₀).1) (r.made m₀).2 := by
    rw [program_making]
    exact .served (.create r.scratch) _ _
  rw [hmade] at hstep
  exact ((Program.Reaches.refl _ m₀).step hmarked).step hstep

/-- A part of what is left is written. -/
theorem reaches_part {start : Program (Except StoreError Unit) × σ} {written rest : Wire.Bytes}
    (count : Nat) (h : Program.Reaches fails start (r.program (.filling written rest), m))
    (hwritten : ((Host.append r.scratch (rest.take count) : StateM σ _) m).1 = .ok ()) :
    Program.Reaches fails start
      (r.program (.filling (written ++ rest.take count) (rest.drop count)),
      ((Host.append r.scratch (rest.take count) : StateM σ _) m).2) := by
  have hstep : Program.Step fails (r.program (.filling written rest)) m
      (r.program (.filling (written ++ rest.take count) (rest.drop count)))
      ((Host.append r.scratch (rest.take count) : StateM σ _) m).2 := by
    rw [program_filling, program_filling]
    exact .part r.scratch rest count _ m _ (Prod.ext hwritten rfl)
  exact h.step hstep

/-- A scratch file that cannot be extended is removed. -/
theorem reaches_failed {start : Program (Except StoreError Unit) × σ} {written rest : Wire.Bytes}
    (h : Program.Reaches fails start (r.program (.filling written rest), m))
    (hfails : fails (.append r.scratch rest)) (error : OsError) :
    Program.Reaches fails start (.done (.error (.io r.scratch (.system error))),
      ((Host.remove r.scratch : StateM σ _) m).2) := by
  have hrefused : Program.Step fails (r.program (.filling written rest)) m
      (r.program (.cleaning (.io r.scratch (.system error)))) m := by
    rw [program_filling]
    exact .failed (.append r.scratch rest) _ m (Except.error error) hfails ⟨error, rfl⟩
  exact (h.step hrefused).step (.served (.remove r.scratch) _ m)

/-- A program that has come to its end has replaced the file, or has failed. -/
theorem stage_of_done {stage : Stage} {answer : Except StoreError Unit}
    (h : r.program stage = .done answer) :
    (stage = .replaced ∧ answer = .ok ()) ∨ ∃ error, stage = .failed error
      ∧ answer = .error error := by
  cases stage with
  | making => cases program_making.symm.trans h
  | filling written rest => cases (program_filling written rest).symm.trans h
  | syncing => cases program_syncing.symm.trans h
  | moving => cases program_moving.symm.trans h
  | cleaning error => cases h
  | failed error =>
    cases h
    exact .inr ⟨error, rfl, rfl⟩
  | replaced =>
    cases h
    exact .inl ⟨rfl, rfl⟩

end Replacing

end EvidenceTags
