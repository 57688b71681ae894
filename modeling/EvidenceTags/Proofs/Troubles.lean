import EvidenceTags.Proofs.FileContent

/-!
# Machines in trouble

A machine refuses a call only for reasons that can be seen in its file tree. A real host has others:
the disk is full, a medium is gone, a permission is missing. A `TroubledMachine` is a machine with a
plan of what goes wrong: for each kind of call and each number, whether the call of this number
fails if it is of this kind. What holds whatever the plan is holds whatever goes wrong.

A call that fails leaves the machine as it was. Only a file that was to be extended may have got a
part of the bytes.
-/

namespace EvidenceTags

/-- The kinds of calls that a host may refuse. -/
inductive HostCall where
  | status
  | canonical
  | read
  | create
  | createNew
  | canAppend
  | append
  | sync
  | rename
  | remove
deriving DecidableEq

/-- How a call fails: the answer of the system, and how many bytes had been written before. -/
structure Trouble where
  error : OsError
  written : Nat

/-- A machine, the number of the next call, and what goes wrong with the calls of each kind. -/
structure TroubledMachine where
  machine : Machine
  calls : Nat
  trouble? : HostCall → Nat → Option Trouble

namespace TroubledMachine

/-- Carries out a call, or fails if the plan says so. -/
def attempt {α : Type} (call : HostCall) (granted : StateM Machine α)
    (refused : Trouble → StateM Machine α) : StateM TroubledMachine α := fun t =>
  let (answer, machine) := match t.trouble? call t.calls with
    | none => granted t.machine
    | some trouble => refused trouble t.machine
  (answer, { t with machine, calls := t.calls + 1 })

/-- Does what no plan prevents. -/
def always {α : Type} (granted : StateM Machine α) : StateM TroubledMachine α := fun t =>
  let (answer, machine) := granted t.machine
  (answer, { t with machine })

/-- Fails with the answer of the system. -/
def refuse {α : Type} (trouble : Trouble) : StateM Machine (Except OsError α) :=
  pure (.error trouble.error)

instance : Host (StateM TroubledMachine) where
  status p := attempt .status (Host.status p) fun _ => pure none
  canonical p := attempt .canonical (Host.canonical p) fun _ => pure none
  read p := attempt .read (Host.read p) refuse
  create p := attempt .create (Host.create p) refuse
  createNew p := attempt .createNew (Host.createNew p) refuse
  canAppend p := attempt .canAppend (Host.canAppend p) fun _ => pure false
  append p bytes := attempt .append (Host.append p bytes) fun trouble => do
    -- what has been written stays
    let _ ← Host.append p (bytes.take trouble.written)
    refuse trouble
  sync p := attempt .sync (Host.sync p) refuse
  rename source goal := attempt .rename (Host.rename source goal) refuse
  remove p := attempt .remove (Host.remove p) refuse
  scratchMark := always Host.scratchMark
  temporaryDir := always Host.temporaryDir
  log event := always (Host.log event)

/-- A machine on which nothing goes wrong that cannot be seen in its tree. -/
def ofMachine (m : Machine) : TroubledMachine := ⟨m, 0, fun _ _ => none⟩

/-- Whatever else goes wrong, files can be removed. -/
def Removes (t : TroubledMachine) : Prop := ∀ n, t.trouble? .remove n = none

/-! ## Programs on a troubled machine -/

variable {α β : Type}

theorem bind_troubled (x : StateM TroubledMachine α) (f : α → StateM TroubledMachine β)
    (t : TroubledMachine) : (x >>= f) t = f (x t).1 (x t).2 := rfl

theorem pure_troubled (a : α) (t : TroubledMachine) :
    (pure a : StateM TroubledMachine α) t = (a, t) := rfl

/-- What stays, whatever a program does: the place that paths start from, the name of the process,
and the plan. Marks for scratch files are used up. -/
structure Follows (t t' : TroubledMachine) : Prop where
  workingDir : t'.machine.workingDir = t.machine.workingDir
  process : t'.machine.process = t.machine.process
  serial : t.machine.serial ≤ t'.machine.serial
  plan : t'.trouble? = t.trouble?

namespace Follows

variable {t t' t'' : TroubledMachine}

theorem refl (t : TroubledMachine) : t.Follows t := ⟨rfl, rfl, Nat.le_refl _, rfl⟩

theorem trans (h : t.Follows t') (h' : t'.Follows t'') : t.Follows t'' :=
  ⟨h'.workingDir.trans h.workingDir, h'.process.trans h.process, Nat.le_trans h.serial h'.serial,
    h'.plan.trans h.plan⟩

theorem removes (h : t.Follows t') (hremoves : t.Removes) : t'.Removes := by
  rw [Removes, h.plan]
  exact hremoves

end Follows

/-! ## Single calls -/

/-- The tree of a troubled machine has become another, and nothing else has changed that matters. -/
structure Becomes (t : TroubledMachine) (tree : FileTree) (t' : TroubledMachine) : Prop where
  follows : t.Follows t'
  tree : t'.machine.tree = tree

/-- A call is granted, or something goes wrong with it. -/
theorem attempt_cases (call : HostCall) (granted : StateM Machine α)
    (refused : Trouble → StateM Machine α) (t : TroubledMachine) :
    attempt call granted refused t
        = ((granted t.machine).1, { t with machine := (granted t.machine).2, calls := t.calls + 1 })
      ∨ ∃ trouble, t.trouble? call t.calls = some trouble
        ∧ attempt call granted refused t = ((refused trouble t.machine).1,
          { t with machine := (refused trouble t.machine).2, calls := t.calls + 1 }) := by
  unfold attempt
  cases htrouble : t.trouble? call t.calls with
  | none => exact .inl rfl
  | some trouble => exact .inr ⟨trouble, rfl, rfl⟩

/-- A call that only looks leaves the tree as it was, whether it is granted or not. -/
theorem becomes_of_looking {call : HostCall} {granted : StateM Machine α}
    {refused : Trouble → StateM Machine α} (hgranted : ∀ m, (granted m).2 = m)
    (hrefused : ∀ trouble m, (refused trouble m).2 = m) (t : TroubledMachine) :
    t.Becomes t.machine.tree (attempt call granted refused t).2 := by
  rcases attempt_cases call granted refused t with heq | ⟨trouble, -, heq⟩
  · rw [heq]
    simp only [hgranted]
    exact ⟨⟨rfl, rfl, Nat.le_refl _, rfl⟩, rfl⟩
  · rw [heq]
    simp only [hrefused]
    exact ⟨⟨rfl, rfl, Nat.le_refl _, rfl⟩, rfl⟩

/-- A change of the tree is made, or it is refused and the tree stays as it was. It is only refused
where the tree does not allow it, or where something goes wrong. -/
theorem change_cases (call : HostCall) (change : Machine → Except OsError FileTree)
    (t : TroubledMachine) :
    (∃ tree t', attempt call (fun m => m.change (change m)) refuse t = (.ok (), t')
        ∧ change t.machine = .ok tree ∧ t.Becomes tree t')
      ∨ ∃ e t', attempt call (fun m => m.change (change m)) refuse t = (.error e, t')
        ∧ t.Becomes t.machine.tree t'
        ∧ ((∀ tree, change t.machine ≠ .ok tree)
          ∨ ∃ trouble, t.trouble? call t.calls = some trouble) := by
  rcases attempt_cases call (fun m => m.change (change m)) refuse t with heq |
    ⟨trouble, htrouble, heq⟩
  · rw [heq]
    cases hchange : change t.machine with
    | ok tree =>
      left
      exact ⟨tree, _, rfl, rfl, ⟨rfl, rfl, Nat.le_refl _, rfl⟩, rfl⟩
    | error e =>
      right
      exact ⟨e, _, rfl, ⟨⟨rfl, rfl, Nat.le_refl _, rfl⟩, rfl⟩, .inl nofun⟩
  · rw [heq]
    right
    exact ⟨trouble.error, _, rfl, ⟨⟨rfl, rfl, Nat.le_refl _, rfl⟩, rfl⟩, .inr ⟨trouble, htrouble⟩⟩

/-- A file is extended, or a part of the bytes may have been written when something went wrong. -/
theorem append_cases (path : Path) (bytes : Wire.Bytes) (t : TroubledMachine) :
    ∃ result t', (Host.append path bytes : StateM TroubledMachine _) t = (result, t')
      ∧ ((∃ e, result = .error e ∧ t.Becomes t.machine.tree t')
        ∨ ∃ part tree, (do t.machine.tree.append t.machine.now (← t.machine.locate path) part)
          = .ok tree
          ∧ t.Becomes tree t' ∧ (result = .ok () → part = bytes)) := by
  have hchange (part : Wire.Bytes) : (Host.append path part : StateM Machine _) t.machine
      = t.machine.change (do t.machine.tree.append t.machine.now (← t.machine.locate path) part) :=
        rfl
  rcases attempt_cases .append (Host.append path bytes) (fun trouble => do
      let _ ← Host.append path (bytes.take trouble.written)
      refuse trouble) t with heq | ⟨trouble, -, heq⟩
  · refine ⟨_, _, heq, ?_⟩
    rw [hchange bytes]
    cases hresult : (do t.machine.tree.append t.machine.now (← t.machine.locate path) bytes) with
    | error e =>
      left
      exact ⟨e, rfl, ⟨rfl, rfl, Nat.le_refl _, rfl⟩, rfl⟩
    | ok tree =>
      right
      exact ⟨bytes, tree, hresult, ⟨⟨rfl, rfl, Nat.le_refl _, rfl⟩, rfl⟩, fun _ => rfl⟩
  · refine ⟨_, _, heq, ?_⟩
    rw [Machine.bind_apply, hchange (bytes.take trouble.written)]
    cases hresult : (do
        t.machine.tree.append t.machine.now (← t.machine.locate path)
          (bytes.take trouble.written)) with
    | error e =>
      left
      exact ⟨trouble.error, rfl, ⟨rfl, rfl, Nat.le_refl _, rfl⟩, rfl⟩
    | ok tree =>
      right
      exact ⟨_, tree, hresult, ⟨⟨rfl, rfl, Nat.le_refl _, rfl⟩, rfl⟩, nofun⟩

end TroubledMachine

end EvidenceTags
