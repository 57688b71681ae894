import EvidenceTags.Proofs.HostPrograms
import EvidenceTags.Proofs.RecordedSaves
import EvidenceTags.Proofs.ReplacedFile

/-!
# What programs leave of a file tree

Saving makes scratch files, and to find out where state can be saved a file is made and removed. As
long as files can be removed, none of them is left, whatever else goes wrong on the machine.

* `Leaves` is what a piece of a run leaves: at each place what was there, or nothing if it is that
  of a scratch file, or what a save that succeeded has written. Pieces are put together by
  `Leaves.trans`.
* `Saves` says it of programs whose answer tells which saves they have tried. Programs that have
  tried none are `Quiet`.

`TroubledMachine.saves_record` says it of all operations of a store.
-/

namespace EvidenceTags

open FileTree

/-- A name that a process gives to a scratch file, with a mark that it has not used yet. -/
def Machine.OwnName (m : Machine) (name : String) : Prop :=
  ∃ serial, m.serial ≤ serial ∧ ((∃ file, name = Path.scratchName file (m.markAt serial))
    ∨ name = Path.probeName (m.markAt serial))

/-- Names of scratch files are long. -/
theorem Machine.not_ownName {m : Machine} {name : String} (h : name.length < 6) :
    ¬ m.OwnName name := by
  rintro ⟨serial, -, ⟨file, rfl⟩ | rfl⟩
  · rw [Path.length_scratchName] at h
    omega
  · rw [Path.length_probeName] at h
    omega

/-- A place with such a name. -/
def Machine.OwnScratch (m : Machine) (l : Location) : Prop :=
  ∃ name, l.getLast? = some name ∧ m.OwnName name

/-- Where all names are short, nothing is called like a scratch file. -/
theorem Machine.free_of_short {m : Machine}
    (h : ∀ e ∈ m.tree.entries, ∀ name ∈ e.1.getLast?, name.length < 6) (l : Location)
    (hl : m.OwnScratch l) : m.tree.content? l = none := by
  rcases hl with ⟨name, hlast, hname⟩
  cases hentry : m.tree.entries.lookup l with
  | none =>
    rw [content?, get?, hentry]
    rfl
  | some entry =>
    rcases List.lookup_eq_some_iff.1 hentry with ⟨front, back, heq, -⟩
    have hmem : (l, entry) ∈ m.tree.entries := by rw [heq]; simp
    exact absurd hname (Machine.not_ownName (h _ hmem name hlast))

/-- The save has succeeded, its path leads to this place, and there is what it has written. -/
structure Attempt.HoldsAt (a : Attempt) (m : Machine) (l : Location) : Prop where
  succeeded : a.result = .ok ()
  located : m.locate a.path = .ok l
  content : m.tree.content? l = some (some a.snapshot.encode)

namespace TroubledMachine

variable {t t' t'' : TroubledMachine} {attempts others : List Attempt}

/-! ## Pieces of a run -/

theorem Follows.ownName (h : t.Follows t') {name : String} (hname : t'.machine.OwnName name) :
    t.machine.OwnName name := by
  rcases hname with ⟨serial, hserial, hname⟩
  have hmark : t'.machine.markAt serial = t.machine.markAt serial := by
    rw [Machine.markAt, h.process]
    rfl
  rw [hmark] at hname
  exact ⟨serial, Nat.le_trans h.serial hserial, hname⟩

theorem Follows.ownScratch (h : t.Follows t') {l : Location} (hl : t'.machine.OwnScratch l) :
    t.machine.OwnScratch l := by
  rcases hl with ⟨name, hlast, hname⟩
  exact ⟨name, hlast, h.ownName hname⟩

theorem IsScratchFor.ownScratch {path : Path} {l : Location} (h : t.IsScratchFor path l) :
    t.machine.OwnScratch l := by
  rcases h with ⟨name, serial, -, hserial, hlast⟩
  exact ⟨_, hlast, serial, hserial, .inl ⟨name, rfl⟩⟩

/-- The path of a save leads to a file, and there is what some save has written. -/
def Kept (attempts : List Attempt) (m : Machine) (path : Path) : Prop :=
  ∃ l, m.locate path = .ok l ∧ ∃ a ∈ attempts, a.HoldsAt m l

/-- What a piece of a run leaves that has tried these saves. -/
structure Leaves (t : TroubledMachine) (attempts : List Attempt) (t' : TroubledMachine) : Prop where
  follows : t.Follows t'
  directories : KeepsDirectories t.machine.tree t'.machine.tree
  places : ∀ l, t'.machine.tree.content? l = t.machine.tree.content? l
    ∨ t.machine.OwnScratch l ∧ t'.machine.tree.content? l = none
    ∨ ∃ a ∈ attempts, a.HoldsAt t'.machine l
  targets : ∀ a ∈ attempts, a.result = .ok () → ∃ name, a.path.fileName? = some name
    ∧ (¬ t.machine.OwnName name → Kept attempts t'.machine a.path)

theorem leaves_of_same (h : t.Follows t')
    (hsame : ∀ l, t'.machine.tree.content? l = t.machine.tree.content? l) : t.Leaves [] t' := by
  refine ⟨h, ?_, fun l => .inl (hsame l), by simp⟩
  intro l hl
  rw [hsame l]
  exact hl

theorem leaves_of_becomes (h : t.Becomes t.machine.tree t') : t.Leaves [] t' := by
  apply leaves_of_same h.follows
  intro l
  rw [h.tree]

/-- A file that is still there is still found. -/
theorem Leaves.locate (h : t.Leaves attempts t') {path : Path} {l : Location}
    (hlocate : t.machine.locate path = .ok l)
    (hthere : (t'.machine.tree.content? l).isSome = true) :
    t'.machine.locate path = .ok l := by
  rcases follow_of_locate hlocate with ⟨hcheck, hfollow⟩
  rw [Machine.locate, h.follows.workingDir, FileTree.locate, hcheck]
  exact follow_of_keeps hfollow h.directories hthere

/-- What was written stays where it was written, as long as it is there. -/
theorem Leaves.holdsAt (h : t.Leaves attempts t') {a : Attempt} {l : Location}
    (hholds : a.HoldsAt t.machine l)
    (hsame : t'.machine.tree.content? l = t.machine.tree.content? l) : a.HoldsAt t'.machine l := by
  have hcontent : t'.machine.tree.content? l = some (some a.snapshot.encode) :=
    hsame.trans hholds.content
  exact ⟨hholds.succeeded, h.locate hholds.located (by rw [hcontent]; rfl), hcontent⟩

/-- A path leads on to what was written, unless it is called like a scratch file. -/
theorem Leaves.kept (h : t.Leaves others t') {path : Path} {name : String}
    (hname : path.fileName? = some name) (hown : ¬ t.machine.OwnName name)
    (hkept : Kept attempts t.machine path) : Kept (attempts ++ others) t'.machine path := by
  rcases hkept with ⟨l, hlocate, a, ha, hholds⟩
  have hthere (hend : (t'.machine.tree.content? l).isSome = true) :
      t'.machine.locate path = .ok l :=
    h.locate hlocate hend
  rcases h.places l with hsame | ⟨hscratch, -⟩ | ⟨b, hb, hholds'⟩
  · have hholds' := h.holdsAt hholds hsame
    exact ⟨l, hthere (by rw [hholds'.content]; rfl), a, List.mem_append_left _ ha, hholds'⟩
  · -- the file bears the name that its path ends in
    rcases hscratch with ⟨scratch, hlast, hscratch⟩
    have hfile : t.machine.tree.content? l ≠ some none := by
      rw [hholds.content]
      simp
    have hlast' := FileTree.getLast?_of_fileName? hname hlocate hfile
    rw [hlast] at hlast'
    cases hlast'
    exact absurd hscratch hown
  · exact ⟨l, hthere (by rw [hholds'.content]; rfl), b, List.mem_append_right _ hb, hholds'⟩

theorem Leaves.trans (h : t.Leaves attempts t') (h' : t'.Leaves others t'') :
    t.Leaves (attempts ++ others) t'' := by
  refine ⟨h.follows.trans h'.follows, h.directories.trans h'.directories, ?_, ?_⟩
  · intro l
    rcases h'.places l with hsame | ⟨hscratch, hnone⟩ | ⟨a, ha, hholds⟩
    · rw [hsame]
      rcases h.places l with hsame' | ⟨hscratch, hnone⟩ | ⟨a, ha, hholds⟩
      · exact .inl hsame'
      · exact .inr (.inl ⟨hscratch, hnone⟩)
      · exact .inr (.inr ⟨a, List.mem_append_left _ ha, h'.holdsAt hholds hsame⟩)
    · exact .inr (.inl ⟨h.follows.ownScratch hscratch, hnone⟩)
    · exact .inr (.inr ⟨a, List.mem_append_right _ ha, hholds⟩)
  · intro a ha hresult
    rcases List.mem_append.1 ha with ha | ha
    · rcases h.targets a ha hresult with ⟨name, hname, hkept⟩
      refine ⟨name, hname, fun hown => ?_⟩
      exact h'.kept hname (fun hown' => hown (h.follows.ownName hown')) (hkept hown)
    · rcases h'.targets a ha hresult with ⟨name, hname, hkept⟩
      refine ⟨name, hname, fun hown => ?_⟩
      rcases hkept fun hown' => hown (h.follows.ownName hown') with ⟨l, hlocate, b, hb, hholds⟩
      exact ⟨l, hlocate, b, List.mem_append_right _ hb, hholds⟩

/-- A save that failed leaves no more than is left without it. -/
theorem Leaves.failed (h : t.Leaves [] t') {a : Attempt} (ha : a.result ≠ .ok ()) :
    t.Leaves [a] t' := by
  refine ⟨h.follows, h.directories, ?_, ?_⟩
  · intro l
    rcases h.places l with hsame | hscratch | ⟨_, hmem, -⟩
    · exact .inl hsame
    · exact .inr (.inl hscratch)
    · cases hmem
  · intro b hb hresult
    rw [List.mem_singleton.1 hb] at hresult
    exact absurd hresult ha

/-- A file that a save has replaced, or has tried to. -/
theorem Replacement.leaves {snapshot : Snapshot} {path : Path} {result : Except StoreError Unit}
    (h : t.Replacement path snapshot.encode result t') (hremoves : t.Removes) :
    t.Leaves [⟨⟨snapshot, path⟩, result⟩] t' := by
  rcases h with ⟨e, rfl, hbecomes⟩ | ⟨e, l, left, rfl, follows, hscratch, hfile, hchange, hleft⟩
    | ⟨goal, l, hresult, follows, hscratch, hfile, hgoal, hlocate, hchange⟩
  · exact (leaves_of_becomes hbecomes).failed nofun
  · rw [hleft hremoves] at hchange
    have hnothing : t.Leaves [] t' := by
      refine ⟨follows, hchange.keeps hfile, ?_, by simp⟩
      intro x
      by_cases hx : x = l
      · rw [hx]
        exact .inr (.inl ⟨hscratch.ownScratch, hchange.here⟩)
      · left
        rw [hchange x, if_neg hx]
    exact hnothing.failed nofun
  · have hholds : (⟨⟨snapshot, path⟩, result⟩ : Attempt).HoldsAt t'.machine goal := by
      refine ⟨hresult, hlocate, ?_⟩
      rw [hchange goal, if_pos rfl]
    refine ⟨follows, keeps_of_moves hgoal hfile hchange, ?_, ?_⟩
    · intro x
      by_cases hx : x = goal
      · rw [hx]
        exact .inr (.inr ⟨_, List.mem_singleton_self _, hholds⟩)
      · by_cases hx' : x = l
        · rw [hx']
          rw [hx'] at hx
          refine .inr (.inl ⟨hscratch.ownScratch, ?_⟩)
          rw [hchange l, if_neg hx, if_pos rfl]
        · left
          rw [hchange x, if_neg hx, if_neg hx']
    · intro a ha _
      rw [List.mem_singleton.1 ha]
      rcases hscratch with ⟨name, -, hname, -, -⟩
      exact ⟨name, hname, fun _ => ⟨goal, hlocate, _, List.mem_singleton_self _, hholds⟩⟩

/-! ## Programs -/

variable {α β : Type}

/-- The program has tried the saves that are read off its answer, whatever machine it runs on. -/
def Saves (x : StateM TroubledMachine α) (tried : α → List Attempt) : Prop :=
  ∀ t : TroubledMachine, t.Removes → t.Leaves (tried (x t).1) (x t).2

/-- The program saves nothing. -/
def Quiet (x : StateM TroubledMachine α) : Prop := Saves x fun _ => []

theorem quiet_pure (a : α) : Quiet (pure a) := fun t _ => leaves_of_becomes ⟨.refl t, rfl⟩

/-- What has been tried in the end is put together from the parts. -/
theorem saves_bind {x : StateM TroubledMachine α} {f : α → StateM TroubledMachine β}
    {first : α → List Attempt} {second : α → β → List Attempt} {tried : β → List Attempt}
    (hx : Saves x first) (hf : ∀ a, Saves (f a) (second a))
    (htried : ∀ a t, tried (f a t).1 = first a ++ second a (f a t).1) : Saves (x >>= f) tried := by
  intro t hremoves
  have hfirst := hx t hremoves
  have hsecond := hf (x t).1 (x t).2 (hfirst.follows.removes hremoves)
  rw [bind_troubled, htried]
  exact hfirst.trans hsecond

theorem saves_of_quiet_bind {x : StateM TroubledMachine α} {f : α → StateM TroubledMachine β}
    {tried : β → List Attempt} (hx : Quiet x)
    (hf : ∀ a, Saves (f a) tried) : Saves (x >>= f) tried :=
  saves_bind hx hf fun _ _ => rfl

/-! ## Programs that save nothing -/

theorem quiet_of_looking {call : HostCall} {granted : StateM Machine α}
    {refused : Trouble → StateM Machine α} (hgranted : ∀ m, (granted m).2 = m)
    (hrefused : ∀ trouble m, (refused trouble m).2 = m) : Quiet (attempt call granted refused) :=
  fun t _ => leaves_of_becomes (becomes_of_looking hgranted hrefused t)

theorem quiet_log (event : LogEvent) : Quiet (Host.log event) :=
  fun _ _ => leaves_of_becomes ⟨⟨rfl, rfl, Nat.le_refl _, rfl⟩, rfl⟩

/-- A file that was made where nothing was is removed, and then nothing is there again. -/
theorem leaves_probe {path : Path} {tree : FileTree} (h : t.Becomes tree t')
    (hmade : t.machine.createNew path = .ok tree) (hremoves : t.Removes) :
    t.Leaves [] ((Host.remove path : StateM TroubledMachine _) t').2 := by
  rcases Machine.exists_of_createNew hmade with ⟨l, htarget, hnone, hchange⟩
  rw [← h.tree] at hchange
  have hfile : t.machine.tree.content? l ≠ some none := by
    rw [hnone]
    exact nofun
  have hlocate : t'.machine.locate path = .ok l := by
    rw [Machine.locate, h.follows.workingDir]
    exact locate_of_target htarget (hchange.keeps hfile) (by rw [hchange.here]; rfl)
  rcases remove_cases path t' with ⟨_, t'', hremove, hfollows, hcases⟩
  rw [hremove]
  rcases hcases with ⟨l', hlocate', -, hgone⟩ | ⟨-, hwhy⟩
  · have hl : l' = l := Except.ok.inj (hlocate'.symm.trans hlocate)
    rw [hl] at hgone
    apply leaves_of_same (h.follows.trans hfollows)
    intro x
    rw [hchange.then hgone x]
    split
    · rename_i hx
      rw [hx, hnone]
    · rfl
  · exact absurd (h.follows.removes hremoves) (hwhy l [] hlocate hchange.here)

theorem quiet_canCreateIn (directory : Path) : Quiet (canCreateIn directory) := by
  unfold canCreateIn
  apply saves_of_quiet_bind (quiet_of_looking (fun _ => rfl) fun _ _ => rfl)
  intro status
  split
  · have hmark : Quiet (Host.scratchMark : StateM TroubledMachine _) :=
      fun _ _ => leaves_of_becomes ⟨⟨rfl, rfl, Nat.le_succ _, rfl⟩, rfl⟩
    apply saves_of_quiet_bind hmark
    intro mark t hremoves
    rw [bind_troubled]
    rcases change_cases .createNew
      (fun m => m.createNew (directory.join (".tagindex-scratch." ++ mark))) t
      with ⟨tree, t', (hmake : (Host.createNew _ : StateM TroubledMachine _) t = _), hmade, h⟩
        | ⟨e, t', (hmake : (Host.createNew _ : StateM TroubledMachine _) t = _), h, -⟩
    · rw [hmake]
      exact leaves_probe h hmade hremoves
    · rw [hmake]
      exact leaves_of_becomes h
  · exact quiet_pure false

theorem inherited_quiet : Inherited (@Quiet) := by
  constructor
  case pure => exact quiet_pure
  case bind => exact saves_of_quiet_bind
  case status => exact fun _ => quiet_of_looking (fun _ => rfl) fun _ _ => rfl
  case read => exact fun _ => quiet_of_looking (fun _ => rfl) fun _ _ => rfl
  case canAppend => exact fun _ => quiet_of_looking (fun _ => rfl) fun _ _ => rfl
  case log => exact quiet_log
  case canCreateIn => exact quiet_canCreateIn

/-! ## Programs that save -/

theorem saves_replaceFile (snapshot : Snapshot) (path : Path) :
    Saves (replaceFile path snapshot.encode) fun result => [⟨⟨snapshot, path⟩, result⟩] := by
  intro t hremoves
  exact (replacement_replaceFile path snapshot.encode t).leaves hremoves

/-- What follows a save saves nothing more, and tells what the save has tried. -/
theorem saves_then {x : StateM TroubledMachine α} {f : α → StateM TroubledMachine β}
    {first : α → List Attempt} {tried : β → List Attempt} (hx : Saves x first)
    (hf : ∀ a, Quiet (f a))
    (htried : ∀ a t, tried (f a t).1 = first a) : Saves (x >>= f) tried := by
  apply saves_bind hx hf
  intro a t
  rw [htried, List.append_nil]

theorem saves_saveTo (s : Store) (path : Path) (sync : Bool) :
    Saves (s.saveTo path sync) fun answer => s.tried path sync answer.1 := by
  apply saves_of_quiet_bind (quiet_log _)
  intro _
  cases sync with
  | true =>
    apply saves_then (saves_replaceFile s.state.snapshot path)
    · intro result
      exact quiet_pure _
    · intro result t
      rfl
  | false => exact quiet_pure _

theorem saves_recordSaveTo (s : Store) (path : Path) (sync : Bool) :
    Saves (s.recordSaveTo path sync) Prod.fst := by
  apply saves_then (saves_saveTo s path sync)
  · rintro ⟨result, s'⟩
    exact quiet_pure _
  · rintro ⟨result, s'⟩ t
    rfl

theorem saves_recordSave (s : Store) (sync : Bool) : Saves (s.recordSave sync) Prod.fst := by
  apply saves_of_quiet_bind (inherited_quiet.saveTarget s.stateFile s.cookie)
  intro path
  apply saves_then (saves_saveTo s path (sync || s.syncSave))
  · rintro ⟨result, s'⟩
    cases result with
    | error e => exact inherited_quiet.bind_pure (quiet_log _) _
    | ok _ => exact quiet_pure _
  · rintro ⟨result, s'⟩ t
    cases result <;> rfl

theorem saves_recordTypedWord (s : Store) (word : String) :
    Saves (s.recordTypedWord word) Prod.fst := by
  unfold Store.recordTypedWord
  rcases s.state.addTypedWord word with ⟨isNew, state⟩
  cases isNew with
  | true => exact saves_recordSave _ false
  | false => exact quiet_pure _

theorem saves_recordWrite (job : SaveJob) :
    Saves (Store.recordWrite job) fun result => [⟨job, result⟩] := by
  apply saves_then (saves_replaceFile job.snapshot job.path)
  · intro result
    cases result with
    | error e => exact inherited_quiet.bind_pure (quiet_log _) _
    | ok _ => exact quiet_pure _
  · intro result t
    cases result <;> rfl

theorem saves_recordFlush (s : Store) : Saves s.recordFlush Prod.fst := by
  unfold Store.recordFlush
  split
  · exact quiet_pure _
  · rename_i job queue _
    apply saves_then (saves_recordWrite job)
    · intro result
      exact quiet_pure _
    · intro result t
      rfl

/-- What an operation of a store leaves. -/
theorem saves_record (s : Store) (op : StoreOp) : Saves (s.record op) Prod.fst := by
  -- the others save nothing, and tell so
  have hquiet {x : StateM TroubledMachine Store} (hx : Quiet x) :
      Saves (Prod.mk ([] : List Attempt) <$> x) Prod.fst :=
    saves_then hx (fun _ => quiet_pure _) fun _ _ => rfl
  have h := inherited_quiet
  cases op with
  | state o =>
    cases o with
    | addTypedWord word => exact saves_recordTypedWord s word
    | restore snapshot => exact hquiet (h.restore s snapshot)
    | _ => exact hquiet (quiet_pure _)
  | save sync => exact saves_recordSave s sync
  | saveTo path sync => exact saves_recordSaveTo s path sync
  | load => exact hquiet (h.load s)
  | loadFrom path => exact hquiet (h.bind_pure (h.loadFrom s path) Prod.snd)
  | flush => exact saves_recordFlush s
  | refreshCookie => exact hquiet (h.refreshCookie s)

end TroubledMachine

end EvidenceTags
