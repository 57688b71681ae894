import EvidenceTags.Proofs.Calls.Programs
import EvidenceTags.Proofs.Links.OnePlace

/-!
# A scratch file where there are links

What is found under a path is its file, whatever links are on the way (`LinkedMachine.held`). A file
and a scratch file may be one and the same, or one may be on the way to the other. They have nothing
to do with each other (`LinkedMachine.Apart`) if

* no symbolic link has the name of the scratch file;
* the two paths do not lead to one file, be it there already or still to be made;
* if the path of the file is that of a symbolic link, the way to its directory does not lead over
  this link.

Then all that is done to the scratch file is seen under its path only
(`LinkedMachine.AlikeBut.held`), and when it is moved to the path of the file it is found there
(`LinkedMachine.AlikeBut.held_goal`).
-/

namespace EvidenceTags

namespace LinkedMachine

open LinkedTree (Passes)

variable {m m' m₀ : LinkedMachine} {path scratch : Path} {l s : Location} {bytes : Wire.Bytes}

/-! ## What is found under a path -/

/-- Where a path leads, whether there is anything or not. -/
def leads (m : LinkedMachine) (p : Path) (last : Bool) : Except OsError Location :=
  m.tree.leads m.workingDir p last

/-- What is found under a path: nothing, a directory, or a file with some content. -/
def held (m : LinkedMachine) (p : Path) : Option (Option Wire.Bytes) :=
  match m.leads p true with
  | .ok l => m.tree.content? l
  | .error _ => none

/-- What the name that a path ends in stands for. -/
def named? (m : LinkedMachine) (p : Path) : Option Node :=
  match m.leads p false with
  | .ok l => m.tree.node? l
  | .error _ => none

/-- The mark that a process uses next. -/
def mark (m : LinkedMachine) : String := toString m.process ++ "-" ++ toString m.serial

theorem held_of_leads (h : m.leads path true = .ok l) : m.held path = m.tree.content? l := by
  rw [held, h]

theorem named?_of_leads (h : m.leads path false = .ok l) : m.named? path = m.tree.node? l := by
  rw [named?, h]

theorem exists_of_held {content : Option Wire.Bytes} (h : m.held path = some content) :
    ∃ l, m.leads path true = .ok l ∧ m.tree.content? l = some content := by
  unfold held at h
  split at h
  · rename_i l hleads
    exact ⟨l, hleads, h⟩
  · cases h

/-- A file is read exactly if it is found. -/
theorem read_eq_ok_iff : m.read path = .ok bytes ↔ m.held path = some (some bytes) := by
  constructor
  · intro h
    rcases exists_of_bind_eq_ok h with ⟨l, hlocate, hread⟩
    have hleads : m.leads path true = .ok l := (LinkedTree.find_eq_ok.1 hlocate).1
    rw [held_of_leads hleads, LinkedTree.content?]
    split at hread
    · cases hread
    · rename_i number hnumber
      cases hread
      rw [hnumber]
    · cases hread
  · intro h
    rcases exists_of_held h with ⟨l, hleads, hcontent⟩
    rcases LinkedTree.exists_file_of_content? hcontent with ⟨number, hnumber, rfl⟩
    have hlocate : m.locate path true = .ok l := by
      refine LinkedTree.find_eq_ok.2 ⟨hleads, ?_⟩
      rw [hnumber]
      rfl
    simp only [read, hlocate, bind, Except.bind, hnumber]

theorem exists_of_change {result : Except OsError LinkedTree}
    (h : m.change result = (.ok (), m')) : ∃ tree, result = .ok tree ∧ m' = { m with tree } := by
  cases result with
  | ok tree =>
    cases h
    exact ⟨tree, rfl, rfl⟩
  | error e => cases h

instance : SteadyHost LinkedMachine := by
  constructor
  intro request m hrefusal
  have hchange (result : Except OsError LinkedTree) (h : ∃ e, (m.change result).1 = .error e) :
      (m.change result).2 = m := by
    cases result with
    | ok tree =>
      rcases h with ⟨e, he⟩
      cases he
    | error e => rfl
  cases request with
  | create path | createNew path | append path bytes | rename source goal | remove path =>
    exact hchange _ hrefusal
  | scratchMark | log event => exact hrefusal.elim
  | _ => rfl

/-! ## A file and its scratch file -/

/-- A file and its scratch file have nothing to do with each other. -/
structure Apart (m : LinkedMachine) (path scratch : Path) : Prop where
  /-- No symbolic link has the name of the scratch file. -/
  plain : ∀ goal, m.named? scratch ≠ some (.link goal)
  /-- The two paths do not lead to one file. -/
  apart : ∀ l s, m.leads path true = .ok l → m.leads scratch false = .ok s → ¬ m.tree.SameFile l s
  /-- If the path is that of a symbolic link, its directory is found without this link. -/
  free : ∀ l goal, m.leads path false = .ok l → m.tree.node? l = some (.link goal) →
    (m.tree.erase l).leads m.workingDir path false = .ok l

/-- Only the file at a path has changed, under whatever name. -/
structure AlikeBut (p : Path) (m m' : LinkedMachine) : Prop where
  workingDir : m'.workingDir = m.workingDir
  tree : LinkedTree.AlikeBut (m.leads p false) m.tree m'.tree

theorem AlikeBut.leads (h : AlikeBut scratch m₀ m) {last : Bool} :
    m.leads path last = .ok l ↔ m₀.leads path last = .ok l := by
  rw [LinkedMachine.leads, h.workingDir]
  exact h.tree.leads

/-- What is done to the scratch file is not seen under the path. -/
theorem AlikeBut.held (h : AlikeBut scratch m₀ m) (hapart : m₀.Apart path scratch) :
    m.held path = m₀.held path := by
  cases hleads : m₀.leads path true with
  | ok l =>
    rw [held_of_leads hleads, held_of_leads (h.leads.2 hleads)]
    exact h.tree.contents l fun s => hapart.apart l s hleads
  | error e =>
    have hnone : m₀.held path = none := by rw [LinkedMachine.held, hleads]
    rw [hnone]
    unfold LinkedMachine.held
    split
    · rename_i l hl
      rw [h.leads.1 hl] at hleads
      cases hleads
    · rfl

/-- The scratch file is where its path leads, be links followed or not. -/
theorem AlikeBut.place (h : AlikeBut scratch m₀ m) (hapart : m₀.Apart path scratch)
    (hleads : m.leads scratch true = .ok l) :
    m₀.leads scratch false = .ok l ∧ m.leads scratch false = .ok l := by
  have htrue := h.leads.1 hleads
  rcases LinkedTree.exists_leads htrue with ⟨s, hs⟩
  have hplain : ∀ goal, m₀.tree.node? s ≠ some (.link goal) := by
    intro goal hlink
    apply hapart.plain goal
    rw [named?_of_leads hs, hlink]
  have hsame : s = l :=
    Except.ok.inj ((LinkedTree.leads_true_of_false hs hplain).symm.trans htrue)
  rw [hsame] at hs
  exact ⟨hs, h.leads.2 hs⟩

/-- The scratch file that is found is found by its name. -/
theorem AlikeBut.file (h : AlikeBut scratch m₀ m) (hapart : m₀.Apart path scratch)
    (hheld : m.held scratch = some (some bytes)) :
    ∃ s number, m₀.leads scratch false = .ok s ∧ m.leads scratch false = .ok s
      ∧ m.tree.node? s = some (.file number) ∧ (m.tree.files number).content = bytes := by
  rcases exists_of_held hheld with ⟨s, hleads, hcontent⟩
  rcases LinkedTree.exists_file_of_content? hcontent with ⟨number, hnumber, hbytes⟩
  rcases h.place hapart hleads with ⟨hs₀, hs⟩
  exact ⟨s, number, hs₀, hs, hnumber, hbytes⟩

/-- What holds when the scratch file has been changed at its place. -/
theorem AlikeBut.of_tree {tree : LinkedTree} (h : AlikeBut scratch m₀ m)
    (htree : LinkedTree.AlikeBut (m₀.leads scratch false) m₀.tree tree) :
    AlikeBut scratch m₀ { m with tree } :=
  ⟨h.workingDir, htree⟩

theorem AlikeBut.held_scratch (h : AlikeBut scratch m₀ m) (hs : m₀.leads scratch false = .ok s)
    {number : Nat} (hnumber : m.tree.node? s = some (.file number)) :
    m.held scratch = some (some (m.tree.files number).content) := by
  have hplain : ∀ goal, m.tree.node? s ≠ some (.link goal) := by
    intro goal
    rw [hnumber]
    exact nofun
  have hleads : m.leads scratch true = .ok s :=
    LinkedTree.leads_true_of_false (h.leads.2 hs) hplain
  rw [held_of_leads hleads, LinkedTree.content?_of_file hnumber]

/-! ## The calls -/

/-- The scratch file is made, or emptied. -/
theorem AlikeBut.create (h : AlikeBut scratch m₀ m) (hapart : m₀.Apart path scratch)
    (hserved : (Host.create scratch : StateM LinkedMachine _) m = (.ok (), m')) :
    AlikeBut scratch m₀ m' ∧ m'.held scratch = some (some []) := by
  rcases exists_of_change hserved with ⟨tree, hmade, rfl⟩
  rcases exists_of_bind_eq_ok hmade with ⟨s, hspot, hmade⟩
  rcases h.place hapart (LinkedTree.leads_of_spot hspot) with ⟨hs, -⟩
  unfold LinkedTree.create at hmade
  split at hmade
  · rename_i hnone
    cases hmade
    have halike := h.of_tree (h.tree.make hs hnone ⟨[], m.now⟩ s.dropLast m.now)
    have hhere : (((m.tree.put s (.file m.tree.fresh)).write m.tree.fresh ⟨[], m.now⟩).touch
        s.dropLast m.now).node? s = some (.file m.tree.fresh) := by simp
    refine ⟨halike, ?_⟩
    rw [halike.held_scratch hs hhere]
    simp [LinkedTree.write, LinkedTree.touch]
  · rename_i number hnumber
    cases hmade
    have halike := h.of_tree (h.tree.write hs hnumber ⟨[], m.now⟩)
    refine ⟨halike, ?_⟩
    rw [halike.held_scratch hs hnumber]
    simp [LinkedTree.write]
  · cases hmade

/-- The scratch file is extended. -/
theorem AlikeBut.append {old : Wire.Bytes} (h : AlikeBut scratch m₀ m)
    (hapart : m₀.Apart path scratch) (hold : m.held scratch = some (some old))
    (hserved : (Host.append scratch bytes : StateM LinkedMachine _) m = (.ok (), m')) :
    AlikeBut scratch m₀ m' ∧ m'.held scratch = some (some (old ++ bytes)) := by
  rcases exists_of_change hserved with ⟨tree, hextended, rfl⟩
  rcases exists_of_bind_eq_ok hextended with ⟨l, hlocate, hextended⟩
  rcases h.file hapart hold with ⟨s, number, hs₀, hs, hnumber, rfl⟩
  have hl : l = s := by
    have hplace := h.place hapart (LinkedTree.find_eq_ok.1 hlocate).1
    exact Except.ok.inj (hplace.2.symm.trans hs)
  rw [hl, LinkedTree.append, hnumber] at hextended
  cases hextended
  have halike := h.of_tree
    (h.tree.write hs₀ hnumber ⟨(m.tree.files number).content ++ bytes, m.now⟩)
  refine ⟨halike, ?_⟩
  rw [halike.held_scratch hs₀ hnumber]
  simp [LinkedTree.write]

/-- The scratch file is removed. -/
theorem AlikeBut.remove (h : AlikeBut scratch m₀ m) (hapart : m₀.Apart path scratch)
    (hserved : (Host.remove scratch : StateM LinkedMachine _) m = (.ok (), m')) :
    AlikeBut scratch m₀ m' ∧ m'.named? scratch = none := by
  rcases exists_of_change hserved with ⟨tree, hgone, rfl⟩
  rcases exists_of_bind_eq_ok hgone with ⟨s, hlocate, hgone⟩
  have hs : m₀.leads scratch false = .ok s := h.leads.1 (LinkedTree.find_eq_ok.1 hlocate).1
  have hclosed : m.tree.Closed s := by
    intro node hnode
    cases node with
    | file number => rfl
    | directory =>
      rw [LinkedTree.remove, hnode] at hgone
      cases hgone
    | link goal =>
      have hlink := h.tree.after s (.link goal) rfl hnode
      rw [← named?_of_leads hs] at hlink
      exact absurd hlink (hapart.plain goal)
  have htree : tree = (m.tree.erase s).touch s.dropLast m.now := by
    unfold LinkedTree.remove at hgone
    split at hgone
    · cases hgone
    · cases hgone
    · cases hgone
      rfl
  rw [htree]
  have halike := h.of_tree (h.tree.remove hs hclosed s.dropLast m.now)
  refine ⟨halike, ?_⟩
  rw [named?_of_leads (halike.leads.2 hs)]
  simp

/-- What is no directory can be removed. -/
theorem exists_remove_of_named? {node : Node} (h : m.named? scratch = some node)
    (hnode : node ≠ .directory) :
    ∃ m', (Host.remove scratch : StateM LinkedMachine _) m = (.ok (), m') := by
  unfold named? at h
  split at h
  · rename_i s hleads
    have hlocate : m.locate scratch false = .ok s := by
      refine LinkedTree.find_eq_ok.2 ⟨hleads, ?_⟩
      rw [h]
      rfl
    have hremove : m.remove scratch = m.tree.remove m.now s := by
      rw [remove, hlocate]
      rfl
    show ∃ m', m.change (m.remove scratch) = _
    rw [hremove, LinkedTree.remove, h]
    cases node with
    | directory => exact absurd rfl hnode
    | file number => exact ⟨_, rfl⟩
    | link goal => exact ⟨_, rfl⟩
  · cases h

/-- What a rename has found when it succeeds. -/
theorem exists_of_rename {tree : LinkedTree} (h : m.rename scratch path = .ok tree) :
    ∃ s g, m.leads scratch false = .ok s ∧ m.leads path false = .ok g
      ∧ m.tree.rename m.now s g = .ok tree := by
  rcases exists_of_bind_eq_ok h with ⟨⟨⟩, -, h⟩
  rcases exists_of_bind_eq_ok h with ⟨s, hlocate, h⟩
  rcases exists_of_bind_eq_ok h with ⟨g, hspot, h⟩
  split at h
  · cases h
  · rename_i hsame
    rw [Decidable.not_not.1 hsame] at hspot
    exact ⟨s, g, (LinkedTree.find_eq_ok.1 hlocate).1, LinkedTree.leads_of_spot hspot, h⟩

/-- The place that the scratch file is moved to is that of another file, and is found without the
name that is replaced. -/
theorem Apart.goal (hapart : m₀.Apart path scratch) (h : AlikeBut scratch m₀ m) {g : Location}
    {number : Nat} (hs : m₀.leads scratch false = .ok s) (hg : m₀.leads path false = .ok g)
    (hnumber : m.tree.node? s = some (.file number)) :
    g ≠ s ∧ m.tree.node? g ≠ some (.file number)
      ∧ (m.tree.node? g ≠ some .directory →
        (m₀.tree.erase g).leads m₀.workingDir path false = .ok g) := by
  by_cases hlink : ∃ goal, m₀.tree.node? g = some (.link goal)
  · rcases hlink with ⟨goal, hgoal⟩
    have hgoal' := h.tree.before g (.link goal) rfl hgoal
    refine ⟨?_, ?_, fun _ => hapart.free g goal hg hgoal⟩
    · rintro rfl
      apply hapart.plain goal
      rw [named?_of_leads hs, hgoal]
    · rw [hgoal']
      exact nofun
  · have hplain : ∀ goal, m₀.tree.node? g ≠ some (.link goal) := fun goal hgoal =>
      hlink ⟨goal, hgoal⟩
    have hother : ¬ m₀.tree.SameFile g s :=
      hapart.apart g s (LinkedTree.leads_true_of_false hg hplain) hs
    refine ⟨h.tree.ne (LinkedTree.closed_of_file hnumber) hother, ?_, ?_⟩
    · intro hsame
      exact h.tree.number_ne hs hnumber hother hsame rfl
    · intro hdirectory
      have hclosed : m₀.tree.Closed g := by
        intro node hnode
        cases node with
        | file other => rfl
        | directory => exact absurd (h.tree.before g .directory rfl hnode) hdirectory
        | link goal => exact absurd hnode (hplain goal)
      exact LinkedTree.leads_of_leads hclosed.passes_erase nofun hg

/-- A file has got the name at `g` and has lost the one at `s`. -/
structure Moved (m : LinkedMachine) (s g : Location) (number : Nat) (m' : LinkedMachine) :
    Prop where
  source : m.tree.node? s = some (.file number)
  ne : g ≠ s
  effect : m' = { m with tree := m.tree.move m.now s g (.file number) }

/-- The scratch file is moved. -/
theorem AlikeBut.rename (h : AlikeBut scratch m₀ m) (hapart : m₀.Apart path scratch)
    (hheld : m.held scratch = some (some bytes))
    (hserved : (Host.rename scratch path : StateM LinkedMachine _) m = (.ok (), m')) :
    ∃ s g number, Moved m s g number m' ∧ m.leads scratch false = .ok s
      ∧ (m.tree.files number).content = bytes
      ∧ (m₀.tree.erase g).leads m₀.workingDir path false = .ok g := by
  rcases exists_of_change hserved with ⟨tree, hmoved, rfl⟩
  rcases exists_of_rename hmoved with ⟨s', g, hs', hg, hmoved⟩
  rcases h.file hapart hheld with ⟨s, number, hs₀, hs, hnumber, hbytes⟩
  have hsame : s' = s := Except.ok.inj (hs'.symm.trans hs)
  rw [hsame] at hmoved
  rcases hapart.goal h hs₀ (h.leads.1 hg) hnumber with ⟨hne, hother, hfree⟩
  rcases LinkedTree.move_of_rename hnumber hother hmoved with ⟨hdirectory, rfl⟩
  exact ⟨s, g, number, ⟨hnumber, hne, rfl⟩, hs, hbytes, hfree hdirectory⟩

theorem Moved.node? {g : Location} {number : Nat} (h : Moved m s g number m') (x : Location) :
    m'.tree.node? x
      = if x = g then some (.file number) else if x = s then none else m.tree.node? x := by
  rw [h.effect]
  exact m.tree.node?_move x (.file number) m.now s g

/-- All that the scratch file holds is found under the path. -/
theorem AlikeBut.held_goal (h : AlikeBut scratch m₀ m) {g : Location} {number : Nat}
    (hmoved : Moved m s g number m')
    (hfree : (m₀.tree.erase g).leads m₀.workingDir path false = .ok g) :
    m'.held path = some (some (m.tree.files number).content) := by
  -- the way to the goal leads over nothing that has been moved
  have hpass : Passes (m₀.tree.erase g).node? m'.tree.node? := by
    intro x node hplain hx
    rw [LinkedTree.node?_erase] at hx
    split at hx
    · cases hx
    · rename_i hxg
      have hx' := h.tree.before x node hplain hx
      have hxs : x ≠ s := (LinkedTree.closed_of_file hmoved.source).ne_of_passed hplain hx'
      rw [hmoved.node?, if_neg hxg, if_neg hxs]
      exact hx'
  have hthere : m'.tree.node? g = some (.file number) := by rw [hmoved.node?, if_pos rfl]
  have hplain : ∀ goal, m'.tree.node? g ≠ some (.link goal) := by
    intro goal
    rw [hthere]
    exact nofun
  have hbase : m'.workingDir = m₀.workingDir := by
    rw [hmoved.effect]
    exact h.workingDir
  have hleads : m'.tree.leads m'.workingDir path false = .ok g := by
    rw [hbase]
    exact LinkedTree.leads_of_leads hpass nofun hfree
  have hleads' : m'.leads path true = .ok g := LinkedTree.leads_true_of_false hleads hplain
  have hcontent : (m'.tree.files number).content = (m.tree.files number).content := by
    rw [hmoved.effect]
    rfl
  rw [held_of_leads hleads', LinkedTree.content?_of_file hthere, hcontent]

/-- The scratch file is not there any more. -/
theorem Moved.named? {g : Location} {number : Nat} (hmoved : Moved m s g number m')
    (hs : m.leads scratch false = .ok s) : m'.named? scratch = none := by
  have hpass : Passes m'.tree.node? m.tree.node? := by
    intro x node hplain hx
    rw [hmoved.node?] at hx
    split_ifs at hx
    · cases hx
      cases hplain
    · exact hx
  have hbase : m'.workingDir = m.workingDir := by rw [hmoved.effect]
  unfold LinkedMachine.named?
  split
  · rename_i x hx
    have hx' : m.leads scratch false = .ok x := by
      refine LinkedTree.leads_of_leads hpass nofun ?_
      rw [← hbase]
      exact hx
    have hsame : x = s := Except.ok.inj (hx'.symm.trans hs)
    rw [hsame, hmoved.node?, if_neg hmoved.ne.symm, if_pos rfl]
  · rfl

end LinkedMachine

end EvidenceTags
