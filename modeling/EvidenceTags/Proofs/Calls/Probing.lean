import EvidenceTags.Proofs.Calls.Held
import EvidenceTags.Proofs.Calls.Programs
import EvidenceTags.Proofs.HostPrograms

/-!
# Programs that only probe

Before anything is saved, a program looks at the machine, writes to the log, and makes and removes a
file to find out whether files can be made. Such a program is `Program.Quiet`, whatever its calls
answer and wherever it is stopped. A step of it changes no files but those that are named like the
file of the probe (`Program.Quiet.step`).
-/

namespace EvidenceTags

open FileTree Machine

/-- The name of a file that is made to find out whether files can be made. -/
def ProbeNamed (name : String) : Prop := ∃ mark, Path.IsMark mark ∧ name = Path.probeName mark

/-! ## Calls -/

namespace Request

/-- What may be answered to a call. It matters only that marks are marks. -/
def Possible : (request : Request) → request.Answer → Prop
  | .scratchMark, mark => Path.IsMark mark
  | _, _ => True

variable {request : Request}

theorem possible_serve (request : Request) (m : Machine) :
    request.Possible (request.serve m).1 := by
  cases request with
  | scratchMark => exact m.isMark_markAt m.serial
  | _ => trivial

theorem possible_of_refusal {answer : request.Answer} (h : request.Refusal answer) :
    request.Possible answer := by
  cases request with
  | scratchMark => cases h
  | _ => trivial

/-- A call that looks, writes to the log, or makes or removes a file that is named for a probe. -/
def Quiet : Request → Prop
  | .createNew path | .remove path =>
    ∃ directory mark, Path.IsMark mark ∧ path = Path.join directory (Path.probeName mark)
  | .create _ | .append _ _ | .sync _ | .rename _ _ => False
  | _ => True

theorem leadsTo_probe {mark : String} (hmark : Path.IsMark mark) (directory : Path) :
    (directory.join (Path.probeName mark)).LeadsTo (Path.probeName mark) := by
  have hplain : '/' ∉ mark.toList := hmark.notMem (by decide) (by decide)
  exact Path.leadsTo_of_getLast? (Path.not_isMove_probeName mark)
    (Path.getLast?_segments_join _ (Path.notMem_probeName hplain))

theorem Quiet.differsAt (h : request.Quiet) (m : Machine) :
    m.DiffersAt ProbeNamed (request.serve m).2 := by
  cases request with
  | createNew path =>
    rcases h with ⟨directory, mark, hmark, rfl⟩
    show m.DiffersAt ProbeNamed (m.change (m.createNew _)).2
    cases hmade : m.createNew (directory.join (Path.probeName mark)) with
    | error e => exact .refl m
    | ok tree =>
      rcases putAt_of_createNew hmade with ⟨l, hput⟩
      exact hput.differsAt (leadsTo_probe hmark directory) ⟨mark, hmark, rfl⟩
  | remove path =>
    rcases h with ⟨directory, mark, hmark, rfl⟩
    show m.DiffersAt ProbeNamed (m.change _).2
    cases hremoved : (do m.tree.remove m.now (← m.locate (directory.join (Path.probeName mark))) :
        Except OsError FileTree) with
    | error e => exact .refl m
    | ok tree =>
      rcases putAt_of_remove hremoved with ⟨l, hput⟩
      exact hput.differsAt (leadsTo_probe hmark directory) ⟨mark, hmark, rfl⟩
  | create path | append path bytes | sync path | rename source goal => cases h
  | _ => exact differsAt_of_tree rfl rfl

end Request

/-! ## Programs -/

namespace Program

variable {α β : Type} {Q : α → Prop} {R : β → Prop}

/-- All calls of the program are quiet, and its answer meets a condition. -/
def Quiet (Q : α → Prop) : Program α → Prop
  | .done answer => Q answer
  | .ask request next => request.Quiet ∧ ∀ answer, request.Possible answer → (next answer).Quiet Q

theorem quiet_bind {x : Program α} {f : α → Program β} (hx : x.Quiet Q)
    (hf : ∀ answer, Q answer → (f answer).Quiet R) : (x >>= f).Quiet R := by
  induction x with
  | done answer => exact hf answer hx
  | ask request next ih => exact ⟨hx.1, fun answer hanswer => ih answer (hx.2 answer hanswer)⟩

theorem quiet_call (request : Request) (h : request.Quiet) :
    (call request).Quiet request.Possible :=
  ⟨h, fun _ hanswer => hanswer⟩

/-- A step of a quiet program leaves a quiet program, and changes only files of probes. -/
theorem Quiet.step {fails : Request → Prop} {p p' : Program α} {m m' : Machine} (h : p.Quiet Q)
    (hstep : Step fails p m p' m') : p'.Quiet Q ∧ m.DiffersAt ProbeNamed m' := by
  cases hstep with
  | served request next m => exact ⟨h.2 _ (request.possible_serve m), h.1.differsAt m⟩
  | failed request next m answer hfails hanswer =>
    exact ⟨h.2 _ (Request.possible_of_refusal hanswer), .refl m⟩
  | part path bytes count next m tree hwritten => exact h.1.elim

/-! ## What a store does before it saves -/

theorem Quiet.mono {x : Program α} {Q' : α → Prop} (h : x.Quiet Q)
    (hQ : ∀ answer, Q answer → Q' answer) :
    x.Quiet Q' := by
  induction x with
  | done answer => exact hQ answer h
  | ask request next ih => exact ⟨h.1, fun answer hanswer => ih answer (h.2 answer hanswer)⟩

theorem quiet_canCreateIn (directory : Path) :
    (canCreateIn directory : Program Bool).Quiet fun _ => True := by
  unfold canCreateIn
  apply quiet_bind (quiet_call (.status directory) trivial)
  intro (status : Option FileStatus) _
  rcases status with _ | ⟨isDirectory, modified⟩
  · trivial
  cases isDirectory with
  | false => trivial
  | true =>
    apply quiet_bind (quiet_call .scratchMark trivial)
    intro (mark : String) hmark
    have hprobe : ∃ d mark', Path.IsMark mark'
        ∧ directory.join (".tagindex-scratch." ++ mark) = Path.join d (Path.probeName mark') :=
      ⟨directory, mark, hmark, rfl⟩
    apply quiet_bind (quiet_call (.createNew _) hprobe)
    intro (made : Except OsError Unit) _
    cases made with
    | error e => trivial
    | ok _ => exact quiet_bind (quiet_call (.remove _) hprobe) fun _ _ => trivial

theorem inherited_quiet : Inherited fun {α} (p : Program α) => p.Quiet fun _ => True := by
  constructor
  case pure => exact fun _ => trivial
  case bind => exact fun hx hf => quiet_bind hx fun answer _ => hf answer
  case status => exact fun _ => ⟨trivial, fun _ _ => trivial⟩
  case read => exact fun _ => ⟨trivial, fun _ _ => trivial⟩
  case canAppend => exact fun _ => ⟨trivial, fun _ _ => trivial⟩
  case log => exact fun _ => ⟨trivial, fun _ _ => trivial⟩
  case canCreateIn => exact quiet_canCreateIn

/-- One of two paths is chosen. -/
theorem quiet_saveTarget (stateFile cookie : Path) :
    (saveTarget stateFile cookie : Program Path).Quiet
      fun path => path = stateFile ∨ path = cookie := by
  have h := inherited_quiet
  have hchoice (creatable : Bool) : (do
      if (← canWrite stateFile) || creatable then pure stateFile else pure cookie :
          Program Path).Quiet
        fun path => path = stateFile ∨ path = cookie := by
    apply quiet_bind (h.canWrite stateFile)
    intro writable _
    split
    · exact .inl rfl
    · exact .inr rfl
  apply quiet_bind (h.bind_pure (h.status stateFile) Option.isSome)
  intro here _
  cases here with
  | true => exact hchoice false
  | false =>
    cases stateFile.parent? with
    | none => exact hchoice false
    | some parent => exact quiet_bind (h.canCreateIn parent) fun creatable _ => hchoice creatable

end Program

end EvidenceTags
