import EvidenceTags.Proofs.Links.Unlinked

/-!
# Machines with and without links

Without links a `LinkedMachine` does what a `Machine` does. What is compared is what is found under
paths, and what calls answer; times are left out, and so are the calls that ask for them. One call
keeps two machines alike (`Shows.serve`), and so does a program (`Shows.run`), such as the one that
replaces a file (`Shows.replaceFile`).
-/

namespace EvidenceTags

open FileTree (IsMove checkPath nameLimit start)

/-- Both fail in the same way, or what they answer is related. -/
def Agree {α β : Type} (R : α → β → Prop) : Except OsError α → Except OsError β → Prop
  | .ok a, .ok b => R a b
  | .error e, .error e' => e = e'
  | _, _ => False

theorem agree_bind {α β γ : Type} {R : α → β → Prop} {x y : Except OsError γ}
    {f : γ → Except OsError α} {g : γ → Except OsError β} (h : x = y)
    (hnext : ∀ a, x = .ok a → Agree R (f a) (g a)) : Agree R (x >>= f) (y >>= g) := by
  cases x with
  | error e =>
    rw [← h]
    exact rfl
  | ok a =>
    rw [← h]
    exact hnext a rfl

/-- A tree without links has the same files and directories as a file tree, whatever their times. -/
structure ShowsTree (t : FileTree) (lt : LinkedTree) : Prop extends lt.Unlinked where
  contents : ∀ l, lt.content? l = t.content? l

namespace ShowsTree

variable {t : FileTree} {lt : LinkedTree} {base l : Location} {p : Path} {last : Bool}

/-- What is at a place, told in both ways. -/
inductive There (t : FileTree) (lt : LinkedTree) (l : Location) : Prop
  | nothing (hnode : lt.node? l = none) (hget : t.get? l = none)
  | directory (time : Int) (hnode : lt.node? l = some .directory)
      (hget : t.get? l = some ⟨none, time⟩)
  | file (number : Nat) (time : Int) (hnode : lt.node? l = some (.file number))
      (hget : t.get? l = some ⟨some (lt.files number).content, time⟩)

theorem there (h : ShowsTree t lt) (l : Location) : There t lt l := by
  have hcontents := h.contents l
  unfold LinkedTree.content? FileTree.content? at hcontents
  cases hnode : lt.node? l with
  | none =>
    rw [hnode] at hcontents
    exact .nothing hnode (Option.map_eq_none_iff.1 hcontents.symm)
  | some node =>
    rw [hnode] at hcontents
    cases node with
    | directory =>
      rcases Option.map_eq_some_iff.1 hcontents.symm with ⟨⟨content, time⟩, hget, rfl⟩
      exact .directory time hnode hget
    | file number =>
      rcases Option.map_eq_some_iff.1 hcontents.symm with ⟨⟨content, time⟩, hget, hcontent⟩
      have hcontent : content = some (lt.files number).content := hcontent
      rw [hcontent] at hget
      exact .file number time hnode hget
    | link goal => exact absurd hnode (h.plain l goal)

/-! ## Where paths lead -/

/-- The end of a way, if there is anything. -/
def found (lt : LinkedTree) (way : Except OsError Location) : Except OsError Location := do
  let d ← way
  if (lt.node? d).isSome then .ok d else .error .notFound

theorem found_stepsFrom (h : ShowsTree t lt)
    (jump : Location → Path → List String → Except OsError Location) (steps : List String) :
    found lt (LinkedTree.stepsFrom lt.node? last jump l steps) = t.follow l steps := by
  induction steps generalizing l with
  | nil =>
    rw [LinkedTree.stepsFrom_nil h.plain, FileTree.follow]
    show (if (lt.node? l).isSome then _ else _) = _
    rcases h.there l with ⟨hnode, hget⟩ | ⟨time, hnode, hget⟩ | ⟨number, time, hnode, hget⟩
    · rw [hnode, hget]
      rfl
    · rw [hnode, hget]
      rfl
    · rw [hnode, hget]
      rfl
  | cons step rest ih =>
    rw [LinkedTree.stepsFrom, FileTree.follow]
    rcases h.there l with ⟨hnode, hget⟩ | ⟨time, hnode, hget⟩ | ⟨number, time, hnode, hget⟩
    · rw [hnode, hget]
      rfl
    · rw [hnode, hget]
      simp only [Option.isSome_none, Bool.false_eq_true, if_false]
      split_ifs
      · exact ih
      · exact ih
      · rfl
      · exact ih
    · rw [hnode, hget]
      rfl

theorem find_eq (h : ShowsTree t lt) : lt.find base p last = t.locate base p := by
  unfold LinkedTree.find LinkedTree.leads FileTree.locate
  cases checkPath p with
  | error e => rfl
  | ok _ =>
    rcases LinkedTree.exists_walk_eq lt.node? last LinkedTree.linkLimit with ⟨jump, hjump⟩
    show found lt (LinkedTree.walk _ _ _ _ _) = _
    rw [hjump, h.found_stepsFrom]
    rfl

/-- The place of a name in a directory. -/
def under (t : FileTree) (name : String) (d : Location) : Except OsError Location :=
  if ¬ t.isDirectory d then .error .notDirectory
  else if nameLimit < name.utf8ByteSize then .error .nameTooLong
  else .ok (d ++ [name])

/-- The last step leads to the place of a name in a directory. -/
theorem stepsFrom_concat (h : ShowsTree t lt)
    (jump : Location → Path → List String → Except OsError Location) {name : String}
    (hname : ¬ IsMove name) (front : List String) :
    LinkedTree.stepsFrom lt.node? last jump l (front ++ [name])
      = t.follow l front >>= under t name := by
  induction front generalizing l with
  | nil =>
    rw [List.nil_append, LinkedTree.stepsFrom, FileTree.follow]
    rcases h.there l with ⟨hnode, hget⟩ | ⟨time, hnode, hget⟩ | ⟨number, time, hnode, hget⟩
    · rw [hnode, hget]
      rfl
    · have hstay : ¬ (name = "" ∨ name = ".") := fun hstay => hname (hstay.imp_right .inl)
      have hup : ¬ name = ".." := fun hup => hname (.inr (.inr hup))
      rw [hnode, hget]
      simp only [if_neg hstay, if_neg hup, LinkedTree.stepsFrom_nil h.plain]
      show _ = under t name l
      rw [under, FileTree.isDirectory, hget]
      rfl
    · rw [hnode, hget]
      show _ = under t name l
      rw [under, FileTree.isDirectory, hget]
      rfl
  | cons first front ih =>
    rw [List.cons_append, LinkedTree.stepsFrom, FileTree.follow]
    rcases h.there l with ⟨hnode, hget⟩ | ⟨time, hnode, hget⟩ | ⟨number, time, hnode, hget⟩
    · rw [hnode, hget]
      rfl
    · rw [hnode, hget]
      simp only [Option.isSome_none, Bool.false_eq_true, if_false]
      split_ifs
      · exact ih
      · exact ih
      · rfl
      · exact ih
    · rw [hnode, hget]
      rfl

theorem spot_eq (h : ShowsTree t lt) (unnamed : OsError) :
    lt.spot base p last unnamed = t.target base p unnamed := by
  unfold LinkedTree.spot LinkedTree.leads FileTree.target
  cases hcheck : checkPath p with
  | error e => rfl
  | ok _ =>
    rcases LinkedTree.exists_walk_eq lt.node? last LinkedTree.linkLimit with ⟨jump, hjump⟩
    rcases LinkedTree.exists_walk_eq lt.node? true LinkedTree.linkLimit with ⟨jump', hjump'⟩
    rcases List.getLast?_eq_some_iff.1 (Path.getLast?_segments p) with ⟨front, hfront⟩
    rw [hjump, hjump', hfront, List.getLast?_concat, List.dropLast_concat]
    generalize Path.lastOf p.text.toList.reverse = name
    by_cases hname : name = "" ∨ name = "." ∨ name = ".."
    · simp only [if_pos hname]
      rw [← h.found_stepsFrom jump' front]
      cases LinkedTree.stepsFrom lt.node? true jump' (start base p) front with
      | error e => rfl
      | ok d =>
        simp only [found, bind, Except.bind, FileTree.isDirectory]
        rcases h.there d with ⟨hnode, hget⟩ | ⟨time, hnode, hget⟩ | ⟨number, time, hnode, hget⟩
        · simp [hnode]
        · simp [hnode, hget]
        · simp [hnode, hget]
    · simp only [if_neg hname]
      show LinkedTree.stepsFrom lt.node? last jump (start base p) (front ++ [name]) = _
      rw [h.stepsFrom_concat jump hname front]
      rfl

/-! ## Changes -/

variable {t' : FileTree} {lt' : LinkedTree} {now now' : Int} {bytes : Wire.Bytes} {number : Nat}

/-- A file is written. -/
theorem write (h : ShowsTree t lt) (hnode : lt.node? l = some (.file number)) (body : FileBody)
    (hchange : t.ChangesTo l (some (some body.content)) t') :
    ShowsTree t' (lt.write number body) := by
  refine ⟨⟨h.plain, h.once⟩, ?_⟩
  intro x
  rw [hchange x]
  split
  · rename_i hx
    rw [LinkedTree.content?_of_file (hx ▸ hnode)]
    simp [LinkedTree.write]
  · rename_i hx
    rw [← h.contents x]
    refine LinkedTree.content?_congr rfl ?_
    intro other hother
    have hne : other ≠ number := by
      rintro rfl
      exact hx (h.once x l other hother hnode)
    exact congrArg FileBody.content (if_neg hne)

/-- A file is made. -/
theorem make (h : ShowsTree t lt) (d : Location) (hchange : t.ChangesTo l (some (some [])) t') :
    ShowsTree t' (((lt.put l (.file lt.fresh)).write lt.fresh ⟨[], now⟩).touch d now) := by
  have hnode (x : Location) :
      (((lt.put l (.file lt.fresh)).write lt.fresh ⟨[], now⟩).touch d now).node? x
        = if x = l then some (.file lt.fresh) else lt.node? x := by simp
  constructor
  case toUnlinked =>
    constructor
    case plain =>
      intro x goal hx
      rw [hnode] at hx
      split at hx
      · cases hx
      · exact h.plain x goal hx
    case once =>
      intro x y other hx hy
      rw [hnode] at hx hy
      -- no file had the number of the new one
      split at hx
      · rename_i hxl
        cases hx
        split at hy
        · rename_i hyl
          exact hxl.trans hyl.symm
        · exact absurd (LinkedTree.lt_fresh hy) (Nat.lt_irrefl _)
      · split at hy
        · cases hy
          exact absurd (LinkedTree.lt_fresh hx) (Nat.lt_irrefl _)
        · exact h.once x y other hx hy
  case contents =>
    intro x
    rw [hchange x]
    split
    · rename_i hx
      have hhere := hnode x
      rw [if_pos hx] at hhere
      rw [LinkedTree.content?_of_file hhere]
      simp [LinkedTree.write, LinkedTree.touch]
    · rename_i hx
      have hthere := hnode x
      rw [if_neg hx] at hthere
      rw [← h.contents x]
      refine LinkedTree.content?_congr hthere ?_
      intro other hother
      exact congrArg FileBody.content (if_neg (Nat.ne_of_lt (LinkedTree.lt_fresh hother)))

theorem create (h : ShowsTree t lt) (l : Location) :
    Agree ShowsTree (t.create now l) (lt.create now' l) := by
  unfold LinkedTree.create
  rcases h.there l with ⟨hnode, hget⟩ | ⟨time, hnode, hget⟩ | ⟨number, time, hnode, hget⟩
  · have hmade : t.create now l = .ok (t.add l ⟨some [], now⟩) := by rw [FileTree.create, hget]
    rw [hnode, hmade]
    exact h.make l.dropLast (FileTree.changesTo_of_create hmade).2
  · rw [hnode, FileTree.create, hget]
    rfl
  · have hmade : t.create now l = .ok (t.put l ⟨some [], now⟩) := by
      rw [FileTree.create, hget]
      rfl
    rw [hnode, hmade]
    exact h.write hnode ⟨[], now'⟩ (FileTree.changesTo_of_create hmade).2

theorem append (h : ShowsTree t lt) (l : Location) (bytes : Wire.Bytes) :
    Agree ShowsTree (t.append now l bytes) (lt.append now' l bytes) := by
  unfold LinkedTree.append
  rcases h.there l with ⟨hnode, hget⟩ | ⟨time, hnode, hget⟩ | ⟨number, time, hnode, hget⟩
  · rw [hnode, FileTree.append, hget]
    rfl
  · rw [hnode, FileTree.append, hget]
    rfl
  · rw [hnode, FileTree.append, hget]
    exact h.write hnode ⟨(lt.files number).content ++ bytes, now'⟩
      fun x => FileTree.content?_put t l x _

theorem remove (h : ShowsTree t lt) (l : Location) :
    Agree ShowsTree (t.remove now l) (lt.remove now' l) := by
  have hgone :
      ShowsTree ((t.erase l).touch l.dropLast now) ((lt.erase l).touch l.dropLast now') := by
    have hnode (x : Location) : ((lt.erase l).touch l.dropLast now').node? x
        = if x = l then none else lt.node? x := by simp
    constructor
    case toUnlinked =>
      constructor
      case plain =>
        intro x goal hx
        rw [hnode] at hx
        split at hx
        · cases hx
        · exact h.plain x goal hx
      case once =>
        intro x y other hx hy
        rw [hnode] at hx hy
        split_ifs at hx hy
        exact h.once x y other hx hy
    case contents =>
      intro x
      rw [FileTree.content?_touch, FileTree.content?_erase]
      have hx := hnode x
      split
      · rename_i hxl
        rw [if_pos hxl] at hx
        exact LinkedTree.content?_of_none hx
      · rename_i hxl
        rw [if_neg hxl] at hx
        rw [← h.contents x]
        exact LinkedTree.content?_congr hx fun _ _ => rfl
  unfold LinkedTree.remove
  rcases h.there l with ⟨hnode, hget⟩ | ⟨time, hnode, hget⟩ | ⟨number, time, hnode, hget⟩
  · rw [hnode, FileTree.remove, hget]
    rfl
  · rw [hnode, FileTree.remove, hget]
    rfl
  · rw [hnode, FileTree.remove, hget]
    exact hgone

/-- What is at a place moves to another. -/
theorem move (h : ShowsTree t lt) {source goal : Location} {node : Node}
    {content : Option Wire.Bytes}
    (hnode : lt.node? source = some node) (hcontent : t.content? source = some content)
    (hchange : ∀ x, t'.content? x
      = if x = goal then some content else if x = source then none else t.content? x) :
    ShowsTree t' (lt.move now source goal node) := by
  have hnodes (x : Location) := lt.node?_move x node now source goal
  -- the node at the goal is that at the source, where there is none any more
  have hfrom {x : Location} {other : Node}
      (hx : (lt.move now source goal node).node? x = some other) :
      lt.node? (if x = goal then source else x) = some other ∧ (x = source → x = goal) := by
    rw [hnodes] at hx
    split_ifs at hx with hxg hxs
    · cases hx
      rw [if_pos hxg]
      exact ⟨hnode, fun _ => hxg⟩
    · rw [if_neg hxg]
      exact ⟨hx, fun hxs' => absurd hxs' hxs⟩
  constructor
  case toUnlinked =>
    constructor
    case plain =>
      intro x goal' hx
      exact h.plain _ goal' (hfrom hx).1
    case once =>
      intro x y number hx hy
      have hsame := h.once _ _ number (hfrom hx).1 (hfrom hy).1
      split_ifs at hsame with hxg hyg hyg
      · exact hxg.trans hyg.symm
      · exact hxg.trans ((hfrom hy).2 hsame.symm).symm
      · exact ((hfrom hx).2 hsame).trans hyg.symm
      · exact hsame
  case contents =>
    intro x
    rw [hchange x]
    have hx := hnodes x
    split_ifs at hx ⊢ with hxg hxs
    · rw [← hcontent, ← h.contents source]
      unfold LinkedTree.content?
      rw [hx, hnode]
      rfl
    · exact LinkedTree.content?_of_none hx
    · rw [← h.contents x]
      exact LinkedTree.content?_congr hx fun _ _ => rfl

/-- What is there moves, unless the goal is a directory. -/
theorem rename_there (h : ShowsTree t lt) {source goal : Location} {node : Node} {entry : Entry}
    (hnode : lt.node? source = some node) (hget : t.get? source = some entry) :
    Agree ShowsTree (t.rename now source goal) (lt.rename now' source goal) := by
  have hcontent : t.content? source = some entry.content := by
    rw [FileTree.content?, hget]
    rfl
  let moved := (((t.erase source).put goal entry).touch source.dropLast now).touch goal.dropLast now
  have hmoved (x : Location) : moved.content? x
      = if x = goal then some entry.content else if x = source then none else t.content? x := by
    rw [FileTree.content?_touch, FileTree.content?_touch, FileTree.content?_put,
      FileTree.content?_erase]
  -- a file that has the name already stays as it is
  have hstays (hsame : node.isFile = true ∧ lt.node? goal = some node) : ShowsTree moved lt := by
    refine ⟨h.toUnlinked, fun x => ?_⟩
    have hplace : goal = source := by
      cases node with
      | file number => exact h.once goal source number hsame.2 hnode
      | directory | link goal => cases hsame.1
    rw [hmoved x, hplace, h.contents x]
    split_ifs with hx
    · rw [hx, hcontent]
    · rfl
  have hgoal (hfile : t.isDirectory goal = false)
      (hnone : ∀ there, lt.node? goal = some there → there ≠ .directory) :
      Agree ShowsTree (t.rename now source goal) (lt.rename now' source goal) := by
    have hrename : t.rename now source goal = .ok moved := by
      rw [FileTree.rename, hget]
      simp only [hfile, Bool.false_eq_true, if_false]
      rfl
    have hlinked : lt.rename now' source goal
        = if node.isFile ∧ lt.node? goal = some node then .ok lt
          else .ok (lt.move now' source goal node) := by
      unfold LinkedTree.rename
      rw [hnode]
      cases hthere : lt.node? goal with
      | none => rfl
      | some there =>
        cases there with
        | directory => exact absurd rfl (hnone _ hthere)
        | file number | link goal' => rfl
    rw [hrename, hlinked]
    split_ifs with hsame
    · exact hstays hsame
    · exact h.move hnode hcontent hmoved
  rcases h.there goal with ⟨hthere, hfound⟩ | ⟨time, hthere, hfound⟩ |
    ⟨number, time, hthere, hfound⟩
  · apply hgoal
    · rw [FileTree.isDirectory, hfound]
    · rw [hthere]
      intro there heq
      cases heq
  · rw [LinkedTree.rename, hnode, hthere, FileTree.rename, hget, FileTree.isDirectory, hfound]
    rfl
  · apply hgoal
    · rw [FileTree.isDirectory, hfound]
      rfl
    · rw [hthere]
      rintro there heq rfl
      cases heq

theorem rename (h : ShowsTree t lt) (source goal : Location) :
    Agree ShowsTree (t.rename now source goal) (lt.rename now' source goal) := by
  rcases h.there source with ⟨hnode, hget⟩ | ⟨time, hnode, hget⟩ | ⟨number, time, hnode, hget⟩
  · rw [LinkedTree.rename, hnode, FileTree.rename, hget]
    rfl
  · exact h.rename_there hnode hget
  · exact h.rename_there hnode hget

end ShowsTree

/-! ## Calls -/

/-- A call that asks for no time. -/
def Request.Untimed : Request → Prop
  | .status _ | .canonical _ => False
  | _ => True

/-- A machine without links is like a machine, but for times. -/
structure Shows (m : Machine) (lm : LinkedMachine) : Prop where
  tree : ShowsTree m.tree lm.tree
  workingDir : lm.workingDir = m.workingDir
  temporaryDir : lm.temporaryDir = m.temporaryDir
  process : lm.process = m.process
  serial : lm.serial = m.serial

namespace Shows

variable {m : Machine} {lm : LinkedMachine}

theorem locate (h : Shows m lm) (path : Path) (last : Bool) :
    m.locate path = lm.locate path last := by
  rw [Machine.locate, LinkedMachine.locate, h.workingDir]
  exact h.tree.find_eq.symm

theorem target (h : Shows m lm) (path : Path) (last : Bool) (unnamed : OsError) :
    m.tree.target m.workingDir path unnamed = lm.tree.spot lm.workingDir path last unnamed := by
  rw [h.workingDir]
  exact (h.tree.spot_eq unnamed).symm

theorem change (h : Shows m lm) {made : Except OsError FileTree} {made' : Except OsError LinkedTree}
    (hmade : Agree ShowsTree made made') :
    (m.change made).1 = (lm.change made').1 ∧ Shows (m.change made).2 (lm.change made').2 := by
  cases made with
  | ok tree =>
    cases made' with
    | ok tree' => exact ⟨rfl, hmade, h.workingDir, h.temporaryDir, h.process, h.serial⟩
    | error e => exact hmade.elim
  | error e =>
    cases made' with
    | ok tree' => exact hmade.elim
    | error e' =>
      cases hmade
      exact ⟨rfl, h⟩

theorem read (h : Shows m lm) (path : Path) : m.read path = lm.read path := by
  unfold Machine.read LinkedMachine.read
  rw [h.locate path true]
  cases lm.locate path true with
  | error e => rfl
  | ok l =>
    simp only [bind, Except.bind]
    rcases h.tree.there l with ⟨hnode, hget⟩ | ⟨time, hnode, hget⟩ | ⟨number, time, hnode, hget⟩
    · rw [hnode, hget]
    · rw [hnode, hget]
    · rw [hnode, hget]

theorem canAppend (h : Shows m lm) (path : Path) :
    ((m.entry? path).bind Entry.content).isSome = lm.canAppend path := by
  rw [LinkedMachine.canAppend, ← h.read, Machine.read, Machine.entry?]
  cases m.locate path with
  | error e => rfl
  | ok l =>
    simp only [bind, Except.bind]
    cases m.tree.get? l with
    | none => rfl
    | some entry =>
      rcases entry with ⟨content, time⟩
      cases content <;> rfl

/-- A call is answered alike, and leaves the machines alike. -/
theorem serve (h : Shows m lm) {request : Request} (huntimed : request.Untimed) :
    (request.serve m).1 = (request.serve lm).1
      ∧ Shows (request.serve m).2 (request.serve lm).2 := by
  cases request with
  | status path | canonical path => cases huntimed
  | read path => exact ⟨h.read path, h⟩
  | canAppend path => exact ⟨h.canAppend path, h⟩
  | create path =>
    exact h.change (agree_bind (h.target path true .isDirectory) fun l _ => h.tree.create l)
  | createNew path =>
    refine h.change (agree_bind (h.target path false .isDirectory) fun l _ => ?_)
    have hthere : (m.tree.get? l).isSome = (lm.tree.node? l).isSome := by
      rcases h.tree.there l with ⟨hnode, hget⟩ | ⟨time, hnode, hget⟩ | ⟨number, time, hnode, hget⟩
      · rw [hnode, hget]
        rfl
      · rw [hnode, hget]
        rfl
      · rw [hnode, hget]
        rfl
    rw [hthere]
    split
    · exact rfl
    · exact h.tree.create l
  | append path bytes =>
    exact h.change (agree_bind (h.locate path true) fun l _ => h.tree.append l bytes)
  | remove path => exact h.change (agree_bind (h.locate path false) fun l _ => h.tree.remove l)
  | rename source goal =>
    refine h.change (agree_bind rfl fun _ _ => ?_)
    refine agree_bind (h.locate source false) fun l _ => ?_
    refine agree_bind (h.target _ false .busy) fun g _ => ?_
    split
    · exact rfl
    · exact h.tree.rename l g
  | sync path => exact ⟨rfl, h⟩
  | temporaryDir => exact ⟨h.temporaryDir.symm, h⟩
  | log event => exact ⟨rfl, h.tree, h.workingDir, h.temporaryDir, h.process, h.serial⟩
  | scratchMark =>
    refine ⟨?_, h.tree, h.workingDir, h.temporaryDir, h.process, ?_⟩
    · show toString m.process ++ "-" ++ toString m.serial
        = toString lm.process ++ "-" ++ toString lm.serial
      rw [h.process, h.serial]
    · show lm.serial + 1 = m.serial + 1
      rw [h.serial]

end Shows

/-! ## Programs -/

namespace Program

variable {α β : Type}

/-- No call of the program asks for a time. -/
def Untimed : Program α → Prop
  | .done _ => True
  | .ask request next => request.Untimed ∧ ∀ answer, (next answer).Untimed

theorem untimed_bind {x : Program α} {f : α → Program β} (hx : x.Untimed)
    (hf : ∀ answer, (f answer).Untimed) : (x >>= f).Untimed := by
  induction x with
  | done answer => exact hf answer
  | ask request next ih => exact ⟨hx.1, fun answer => ih answer (hx.2 answer)⟩

theorem untimed_call (request : Request) (h : request.Untimed) : (call request).Untimed :=
  ⟨h, fun _ => trivial⟩

theorem untimed_fillFile (path : Path) (bytes : Wire.Bytes) :
    (fillFile path bytes : Program _).Untimed := by
  apply untimed_bind (untimed_call (.create path) trivial)
  intro (made : Except OsError Unit)
  cases made with
  | error e => trivial
  | ok _ =>
    apply untimed_bind (untimed_call (.append path bytes) trivial)
    intro (extended : Except OsError Unit)
    cases extended with
    | error e => trivial
    | ok _ => exact untimed_call (.sync path) trivial

theorem untimed_replaceFile (path : Path) (bytes : Wire.Bytes) :
    (replaceFile path bytes : Program _).Untimed := by
  cases hname : path.fileName? with
  | none =>
    rw [replaceFile, hname]
    trivial
  | some name =>
    rw [Replacing.replaceFile_eq hname]
    apply untimed_bind (untimed_call .scratchMark trivial)
    intro mark
    have hclean (error : StoreError) :
        (Replacing.cleanUp (path.scratch name mark) error).Untimed :=
      untimed_bind (untimed_call (.remove _) trivial) fun _ => trivial
    apply untimed_bind (untimed_fillFile _ bytes)
    intro filled
    cases filled with
    | error e => exact hclean _
    | ok _ =>
      apply untimed_bind (untimed_call (.rename _ path) trivial)
      intro (moved : Except OsError Unit)
      cases moved with
      | error e => exact hclean _
      | ok _ => trivial

end Program

namespace Shows

variable {α : Type} {m : Machine} {lm : LinkedMachine}

/-- A program ends alike, and leaves the machines alike. -/
theorem run (h : Shows m lm) {p : Program α} (huntimed : p.Untimed) :
    (p.run m).1 = (p.run lm).1 ∧ Shows (p.run m).2 (p.run lm).2 := by
  induction p generalizing m lm with
  | done answer => exact ⟨rfl, h⟩
  | ask request next ih =>
    rcases h.serve huntimed.1 with ⟨hanswer, hserved⟩
    have hnext := ih (request.serve m).1 hserved (huntimed.2 _)
    show ((next (request.serve m).1).run (request.serve m).2).1
        = ((next (request.serve lm).1).run (request.serve lm).2).1
      ∧ Shows ((next (request.serve m).1).run (request.serve m).2).2
        ((next (request.serve lm).1).run (request.serve lm).2).2
    rw [← hanswer]
    exact hnext

/-- A file is replaced alike. -/
theorem replaceFile (h : Shows m lm) (path : Path) (bytes : Wire.Bytes) :
    ((EvidenceTags.replaceFile path bytes : StateM Machine _) m).1
        = ((EvidenceTags.replaceFile path bytes : StateM LinkedMachine _) lm).1
      ∧ Shows ((EvidenceTags.replaceFile path bytes : StateM Machine _) m).2
        ((EvidenceTags.replaceFile path bytes : StateM LinkedMachine _) lm).2 := by
  have hrun := h.run (Program.untimed_replaceFile path bytes)
  rw [Replacing.run_replaceFile, Replacing.run_replaceFile] at hrun
  exact hrun

end Shows

/-! ## Every machine is shown -/

namespace FileTree

/-- The names of some entries, where a file is numbered by the entries after it. -/
def numbered : List (Location × Entry) → List (Location × Node)
  | [] => []
  | (l, ⟨none, _⟩) :: rest => (l, .directory) :: numbered rest
  | (l, ⟨some _, _⟩) :: rest => (l, .file rest.length) :: numbered rest

/-- The tree without links that has the same files and directories. -/
def linked (t : FileTree) : LinkedTree where
  nodes := numbered t.entries
  files n := ⟨((t.entries.reverse[n]?).bind fun e => e.2.content).getD [], 0⟩
  changed _ := 0

/-- What is found under a name is what is found in the tree. -/
theorem lookup_numbered (entries : List (Location × Entry)) (l : Location) :
    ((numbered entries).lookup l = none ∧ entries.lookup l = none)
      ∨ (∃ time, (numbered entries).lookup l = some .directory
        ∧ entries.lookup l = some ⟨none, time⟩)
      ∨ ∃ n content time, (numbered entries).lookup l = some (.file n)
        ∧ entries.lookup l = some ⟨some content, time⟩
        ∧ entries.reverse[n]? = some (l, ⟨some content, time⟩) := by
  induction entries with
  | nil => exact .inl ⟨rfl, rfl⟩
  | cons first rest ih =>
    rcases first with ⟨x, content, time⟩
    by_cases hx : l = x
    · right
      rw [hx]
      cases content with
      | none => exact .inl ⟨time, by simp [numbered], by simp⟩
      | some content =>
        have hlast : (rest.reverse ++ [(x, (⟨some content, time⟩ : Entry))])[rest.length]?
            = some (x, ⟨some content, time⟩) := by
          have hlength : rest.length = rest.reverse.length := List.length_reverse.symm
          rw [hlength, List.getElem?_concat_length]
        exact .inr ⟨rest.length, content, time, by simp [numbered], by simp,
          List.reverse_cons ▸ hlast⟩
    · have hne : (l == x) = false := beq_false_of_ne hx
      have hsame : (numbered ((x, ⟨content, time⟩) :: rest)).lookup l
          = (numbered rest).lookup l := by
        cases content <;> simp [numbered, List.lookup_cons, hne]
      have hsame' : ((x, (⟨content, time⟩ : Entry)) :: rest).lookup l = rest.lookup l := by
        simp [List.lookup_cons, hne]
      rw [hsame, hsame']
      rcases ih with hnothing | hdirectory | ⟨n, old, time', hnode, hget, hplace⟩
      · exact .inl hnothing
      · exact .inr (.inl hdirectory)
      · refine .inr (.inr ⟨n, old, time', hnode, hget, ?_⟩)
        rw [List.reverse_cons, List.getElem?_append_left (List.getElem?_eq_some_iff.1 hplace).1]
        exact hplace

theorem showsTree_linked (t : FileTree) : ShowsTree t t.linked := by
  have hnodes (l : Location) := lookup_numbered t.entries l
  -- a file is found by its number
  have hfile {l : Location} {number : Nat} (hl : t.linked.node? l = some (.file number)) :
      ∃ entry, t.entries.reverse[number]? = some (l, entry) := by
    have hl : (numbered t.entries).lookup l = some (.file number) := hl
    rcases hnodes l with ⟨h, -⟩ | ⟨time, h, -⟩ | ⟨n, content, time, h, -, hplace⟩
    · rw [hl] at h
      cases h
    · rw [hl] at h
      cases h
    · rw [hl] at h
      cases h
      exact ⟨_, hplace⟩
  constructor
  case toUnlinked =>
    constructor
    case plain =>
      intro l goal hlink
      have hlink : (numbered t.entries).lookup l = some (.link goal) := hlink
      rcases hnodes l with ⟨h, -⟩ | ⟨time, h, -⟩ | ⟨n, content, time, h, -⟩
      all_goals
        rw [hlink] at h
        cases h
    case once =>
      intro l l' number hl hl'
      rcases hfile hl with ⟨entry, hentry⟩
      rcases hfile hl' with ⟨entry', hentry'⟩
      rw [hentry] at hentry'
      cases hentry'
      rfl
  case contents =>
    intro l
    rcases hnodes l with ⟨hnode, hget⟩ | ⟨time, hnode, hget⟩ |
      ⟨n, content, time, hnode, hget, hplace⟩
    · have hnode : t.linked.node? l = none := hnode
      rw [LinkedTree.content?_of_none hnode, FileTree.content?, FileTree.get?, hget]
      rfl
    · have hnode : t.linked.node? l = some .directory := hnode
      rw [LinkedTree.content?, hnode, FileTree.content?, FileTree.get?, hget]
      rfl
    · have hnode : t.linked.node? l = some (.file n) := hnode
      have hbody : (t.linked.files n).content = content := by
        show ((t.entries.reverse[n]?).bind fun e => e.2.content).getD [] = content
        rw [hplace]
        rfl
      rw [LinkedTree.content?_of_file hnode, hbody, FileTree.content?, FileTree.get?, hget]
      rfl

end FileTree

/-- Every machine is like a machine without links. -/
theorem exists_shows (m : Machine) : ∃ lm, Shows m lm :=
  ⟨⟨m.tree.linked, m.now, m.workingDir, m.temporaryDir, m.process, m.serial, m.events⟩,
    m.tree.showsTree_linked, rfl, rfl, rfl, rfl⟩

end EvidenceTags
