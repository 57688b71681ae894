import EvidenceTags.Machine
import Mathlib.Logic.Relation

/-!
# Programs call by call

The programs of a store run on any host. On the host of this module nothing is carried out: a
program becomes the calls that it makes, one after the other, with what it goes on to do after each
answer (`Program`). On a host that is a value, such as a machine, it takes one call at a time
(`Program.Step`):

* the host serves the call;
* the call fails, and the host stays as it is;
* a part of the bytes is written that a file is to be extended by, and the rest is still to be
  written.

So wherever a program is stopped, what it has done so far is a number of steps. Without failures and
parts they are the run of the program on the host (`Program.reaches_run`).
-/

namespace EvidenceTags

/-! ## Calls -/

/-- A call of a host. -/
inductive Request where
  | status (path : Path)
  | canonical (path : Path)
  | read (path : Path)
  | create (path : Path)
  | createNew (path : Path)
  | canAppend (path : Path)
  | append (path : Path) (bytes : Wire.Bytes)
  | sync (path : Path)
  | rename (source goal : Path)
  | remove (path : Path)
  | scratchMark
  | temporaryDir
  | log (event : LogEvent)

namespace Request

/-- What a call answers. -/
def Answer : Request → Type
  | .status _ => Option FileStatus
  | .canonical _ => Option Path
  | .read _ => Except OsError Wire.Bytes
  | .canAppend _ => Bool
  | .create _ | .createNew _ | .append _ _ | .sync _ | .rename _ _ | .remove _ =>
    Except OsError Unit
  | .scratchMark => String
  | .temporaryDir => Path
  | .log _ => Unit

/-- Carries out a call. -/
def serve {σ : Type} [Host (StateM σ)] : (request : Request) → StateM σ request.Answer
  | .status path => Host.status path
  | .canonical path => Host.canonical path
  | .read path => Host.read path
  | .create path => Host.create path
  | .createNew path => Host.createNew path
  | .canAppend path => Host.canAppend path
  | .append path bytes => Host.append path bytes
  | .sync path => Host.sync path
  | .rename source goal => Host.rename source goal
  | .remove path => Host.remove path
  | .scratchMark => Host.scratchMark
  | .temporaryDir => Host.temporaryDir
  | .log event => Host.log event

/-- An answer that tells that a call has failed. Marks, the directory for temporary files and the
log are no matter of the file system. -/
def Refusal : (request : Request) → request.Answer → Prop
  | .status _, answer => answer = none
  | .canonical _, answer => answer = none
  | .canAppend _, answer => answer = false
  | .read _, answer => ∃ error, answer = .error error
  | .create _, answer | .createNew _, answer | .append _ _, answer | .sync _, answer
  | .rename _ _, answer | .remove _, answer => ∃ error, answer = .error error
  | .scratchMark, _ | .temporaryDir, _ | .log _, _ => False

end Request

/-- A host that is a value, and stays as it is when a call fails. -/
class SteadyHost (σ : Type) [Host (StateM σ)] : Prop where
  unchanged : ∀ (request : Request) (m : σ),
    request.Refusal (request.serve m).1 → (request.serve m).2 = m

instance : SteadyHost Machine := by
  constructor
  intro request m hrefusal
  have hchange (result : Except OsError FileTree) (h : ∃ e, (m.change result).1 = .error e) :
      (m.change result).2 = m := by
    cases result with
    | ok tree =>
      rcases h with ⟨e, he⟩
      cases he
    | error e => rfl
  cases request with
  | create path | createNew path | append path bytes | rename source goal | remove path =>
    exact hchange _ hrefusal
  | scratchMark | log event => exact hrefusal.elim
  | _ => rfl

/-! ## Programs -/

/-- A program by the calls that it makes. -/
inductive Program (α : Type) where
  | done (answer : α)
  | ask (request : Request) (next : request.Answer → Program α)

namespace Program

variable {α β : Type}

/-- One program after the other. -/
def bind : Program α → (α → Program β) → Program β
  | .done answer, f => f answer
  | .ask request next, f => .ask request fun answer => (next answer).bind f

instance : Monad Program where
  pure := .done
  bind := Program.bind

/-- A program that makes one call. -/
def call (request : Request) : Program request.Answer := .ask request .done

instance : Host Program where
  status path := call (.status path)
  canonical path := call (.canonical path)
  read path := call (.read path)
  create path := call (.create path)
  createNew path := call (.createNew path)
  canAppend path := call (.canAppend path)
  append path bytes := call (.append path bytes)
  sync path := call (.sync path)
  rename source goal := call (.rename source goal)
  remove path := call (.remove path)
  scratchMark := call .scratchMark
  temporaryDir := call .temporaryDir
  log event := call (.log event)

theorem done_bind (answer : α) (f : α → Program β) : (Program.done answer >>= f) = f answer := rfl

theorem ask_bind (request : Request) (next : request.Answer → Program α) (f : α → Program β) :
    (Program.ask request next >>= f) = .ask request fun answer => next answer >>= f := rfl

theorem bind_assoc {γ : Type} (x : Program α) (f : α → Program β) (g : β → Program γ) :
    x >>= f >>= g = x >>= fun answer => f answer >>= g := by
  induction x with
  | done answer => rfl
  | ask request next ih => exact congrArg (Program.ask request) (funext ih)

section

variable {σ : Type} [Host (StateM σ)]

/-- Carries out a program. -/
def run : Program α → StateM σ α
  | .done answer => pure answer
  | .ask request next => do (next (← request.serve)).run

/-- Carries out the first calls of a program. -/
def calls : Nat → Program α → StateM σ (Program α)
  | n + 1, .ask request next => do (next (← request.serve)).calls n
  | _, p => pure p

theorem run_bind (p : Program α) (f : α → Program β) :
    ((p >>= f).run : StateM σ β) = p.run >>= fun answer => (f answer).run := by
  induction p with
  | done answer => rfl
  | ask request next ih =>
    rw [ask_bind]
    funext m
    exact congrFun (ih (request.serve m).1) (request.serve m).2

end

/-! ## Steps -/

section

variable {σ : Type} [Host (StateM σ)] (fails : Request → Prop)

/-- One step of a program on a host, where the calls may fail that `fails` tells. -/
inductive Step : Program α → σ → Program α → σ → Prop
  | served (request : Request) (next : request.Answer → Program α) (m : σ) :
      Step (.ask request next) m (next (request.serve m).1) (request.serve m).2
  | failed (request : Request) (next : request.Answer → Program α) (m : σ)
      (answer : request.Answer) (hfails : fails request) (hanswer : request.Refusal answer) :
      Step (.ask request next) m (next answer) m
  | part (path : Path) (bytes : Wire.Bytes) (count : Nat)
      (next : (Request.append path bytes).Answer → Program α) (m m' : σ)
      (hwritten : (Host.append path (bytes.take count) : StateM σ _) m = (.ok (), m')) :
      Step (.ask (.append path bytes) next) m (.ask (.append path (bytes.drop count)) next) m'

/-- Any number of steps. -/
def Reaches (start stop : Program α × σ) : Prop :=
  Relation.ReflTransGen (fun c c' => Step fails c.1 c.2 c'.1 c'.2) start stop

end

variable {σ : Type} [Host (StateM σ)] {fails : Request → Prop}

theorem Reaches.refl (p : Program α) (m : σ) : Reaches fails (p, m) (p, m) :=
  Relation.ReflTransGen.refl

theorem Reaches.step {start : Program α × σ} {p p' : Program α} {m m' : σ}
    (h : Reaches fails start (p, m))
    (hstep : Step fails p m p' m') : Reaches fails start (p', m') :=
  Relation.ReflTransGen.tail h hstep

/-- What every step preserves is preserved by any number of steps. -/
theorem Reaches.preserves {P : Program α → σ → Prop} {p p' : Program α} {m m' : σ}
    (h : Reaches fails (p, m) (p', m'))
    (hstep : ∀ q n q' n', P q n → Step fails q n q' n' → P q' n') (hstart : P p m) : P p' m' := by
  have hall (stop : Program α × σ) (h : Reaches fails (p, m) stop) : P stop.1 stop.2 := by
    induction h with
    | refl => exact hstart
    | tail _ hnext ih => exact hstep _ _ _ _ ih hnext
  exact hall _ h

/-- What a program does without failures is one of the ways that it may go. -/
theorem reaches_run (p : Program α) (m : σ) :
    Reaches fails (p, m) (.done (p.run m).1, (p.run m).2) := by
  induction p generalizing m with
  | done answer => exact Reaches.refl _ m
  | ask request next ih =>
    have hstep : Step fails (.ask request next) m (next (request.serve m).1) (request.serve m).2 :=
      .served request next m
    exact Relation.ReflTransGen.head hstep (ih (request.serve m).1 (request.serve m).2)

theorem reaches_calls (n : Nat) (p : Program α) (m : σ) :
    Reaches fails (p, m) ((p.calls n : StateM σ _) m) := by
  induction n generalizing p m with
  | zero => exact Reaches.refl p m
  | succ n ih =>
    cases p with
    | done answer => exact Reaches.refl _ m
    | ask request next =>
      have hstep :
          Step fails (.ask request next) m (next (request.serve m).1) (request.serve m).2 :=
        .served request next m
      exact Relation.ReflTransGen.head hstep (ih (next (request.serve m).1) (request.serve m).2)

/-- A mark is taken, which does not fail. -/
theorem step_mark {f : String → Program α} {m m' : σ} {p : Program α}
    (h : Step fails (Host.scratchMark >>= f) m p m') :
    p = f ((Host.scratchMark : StateM σ _) m).1 ∧ m' = ((Host.scratchMark : StateM σ _) m).2 := by
  have hprogram : (Host.scratchMark >>= f : Program α) = .ask .scratchMark f := rfl
  rw [hprogram] at h
  cases h with
  | served => exact ⟨rfl, rfl⟩
  | failed _ _ _ _ _ hanswer => cases hanswer

/-- A step of one program after the other is one of the first, or the first is done. -/
theorem step_bind_cases {x : Program α} {f : α → Program β} {p : Program β} {m m' : σ}
    (h : Step fails (x >>= f) m p m') :
    (∃ x', Step fails x m x' m' ∧ p = x' >>= f)
      ∨ ∃ answer, x = .done answer ∧ Step fails (f answer) m p m' := by
  cases x with
  | done answer => exact .inr ⟨answer, rfl, h⟩
  | ask request next =>
    left
    rw [ask_bind] at h
    cases h with
    | served => exact ⟨_, .served request next m, rfl⟩
    | failed _ _ _ answer hfails hanswer =>
      exact ⟨_, .failed request next m answer hfails hanswer, rfl⟩
    | part path bytes count _ _ _ hwritten =>
      exact ⟨_, .part path bytes count next m m' hwritten, rfl⟩

end Program

end EvidenceTags
