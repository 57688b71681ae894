import EvidenceTags.Proofs.Links.WholeFile

/-!
# Machines without links

Where there are no symbolic links and each file has one name, a path leads to the place that it
spells. So a file and a scratch file for it, which are spelled differently, have nothing to do with
each other (`LinkedMachine.apart_of_unlinked`), and a file is always replaced as a whole.
-/

namespace EvidenceTags

open FileTree (IsMove)

namespace LinkedTree

/-- There are no symbolic links, and each file has one name. -/
structure Unlinked (t : LinkedTree) : Prop where
  plain : ∀ l goal, t.node? l ≠ some (.link goal)
  once : ∀ l l' number, t.node? l = some (.file number) → t.node? l' = some (.file number) → l = l'

/-! ## Places that paths spell -/

section

variable {f : Location → Option Node} {last : Bool} {l d : Location} {step : String}
  {front : List String} {jump : Location → Path → List String → Except OsError Location}
  (hplain : ∀ l goal, f l ≠ some (.link goal))

include hplain

theorem stepsFrom_nil (l : Location) : stepsFrom f last jump l [] = .ok l := by
  rw [stepsFrom]
  split
  · rename_i goal hlink
    exact absurd hlink (hplain l goal)
  · rfl

/-- The last step is taken in a directory. -/
theorem exists_of_stepsFrom_concat (h : stepsFrom f last jump l (front ++ [step]) = .ok d) :
    ∃ mid, f mid = some .directory ∧ d = FileTree.next mid step := by
  induction front generalizing l with
  | nil =>
    rw [List.nil_append, stepsFrom] at h
    split at h
    · cases h
    · cases h
    · rename_i goal hlink
      exact absurd hlink (hplain l goal)
    · rename_i hdirectory
      refine ⟨l, hdirectory, ?_⟩
      unfold FileTree.next
      split_ifs at h ⊢
      · rw [stepsFrom_nil hplain] at h
        exact (Except.ok.inj h).symm
      · rw [stepsFrom_nil hplain] at h
        exact (Except.ok.inj h).symm
      · rw [stepsFrom_nil hplain] at h
        exact (Except.ok.inj h).symm
  | cons first front ih =>
    rw [List.cons_append, stepsFrom] at h
    split at h
    · cases h
    · cases h
    · rename_i goal hlink
      exact absurd hlink (hplain l goal)
    · split_ifs at h
      · exact ih h
      · exact ih h
      · exact ih h

end

/-- A way is a number of steps, with jumps where links are. -/
theorem exists_walk_eq (f : Location → Option Node) (last : Bool) (budget : Nat) :
    ∃ jump, ∀ l steps, walk f last budget l steps = stepsFrom f last jump l steps := by
  cases budget with
  | zero => exact ⟨_, fun _ _ => rfl⟩
  | succ budget => exact ⟨_, fun _ _ => rfl⟩

variable {t : LinkedTree} {base l d : Location} {p : Path} {name : String} {last : Bool}

theorem Unlinked.exists_of_leads (h : t.Unlinked) {step : String}
    (hlast : p.segments.getLast? = some step) (hleads : t.leads base p last = .ok d) :
    ∃ mid, t.node? mid = some .directory ∧ d = FileTree.next mid step := by
  rcases List.getLast?_eq_some_iff.1 hlast with ⟨front, hfront⟩
  have hwalk := (leads_eq_ok.1 hleads).2
  rcases exists_walk_eq t.node? last linkLimit with ⟨jump, hjump⟩
  rw [hjump, hfront] at hwalk
  exact exists_of_stepsFrom_concat h.plain hwalk

/-- A path leads to a place of its last name. -/
theorem Unlinked.getLast?_of_leads (h : t.Unlinked) (hmove : ¬ IsMove name)
    (hlast : p.segments.getLast? = some name) (hleads : t.leads base p last = .ok d) :
    d.getLast? = some name := by
  rcases h.exists_of_leads hlast hleads with ⟨mid, -, hd⟩
  rw [hd, FileTree.next_of_not_isMove hmove, List.getLast?_concat]

/-- What is no directory bears the file name of the path that leads there. -/
theorem Unlinked.getLast?_of_fileName? (h : t.Unlinked) (hname : p.fileName? = some name)
    (hleads : t.leads base p last = .ok d) (hd : t.node? d ≠ some .directory) :
    d.getLast? = some name := by
  -- a separator or a dot at the end of the path leads only to a directory
  have hnot {step : String} (hlast : p.segments.getLast? = some step)
      (hstay : step = "" ∨ step = ".") :
      False := by
    rcases h.exists_of_leads hlast hleads with ⟨mid, hmid, hnext⟩
    rw [FileTree.next, if_pos hstay] at hnext
    rw [hnext] at hd
    exact hd hmid
  rcases Path.getLast?_of_fileName? hname with hlast | hlast | hlast
  · exact h.getLast?_of_leads (Path.not_isMove_of_fileName? hname) hlast hleads
  · exact (hnot hlast (.inl rfl)).elim
  · exact (hnot hlast (.inr rfl)).elim

end LinkedTree

namespace LinkedMachine

/-- Without links a file and a scratch file for it are apart. -/
theorem apart_of_unlinked {m : LinkedMachine} (h : m.tree.Unlinked) {path : Path}
    {name mark : String}
    (hname : path.fileName? = some name) (hmark : '/' ∉ mark.toList) :
    m.Apart path (path.scratch name mark) := by
  constructor
  case plain =>
    intro goal hlink
    unfold named? at hlink
    split at hlink
    · rename_i s _
      exact h.plain s goal hlink
    · cases hlink
  case apart =>
    intro l s hl hs hsame
    have hscratch : s.getLast? = some (Path.scratchName name mark) :=
      h.getLast?_of_leads (Path.not_isMove_scratchName name mark)
        (Path.getLast?_segments_scratch (Path.notMem_of_fileName? hname) hmark) hs
    have hplace : l = s ∧ m.tree.node? l ≠ some .directory := by
      rcases hsame with hplace | ⟨number, hnumber, hnumber'⟩
      · exact hplace
      · refine ⟨h.once l s number hnumber hnumber', ?_⟩
        rw [hnumber]
        exact nofun
    have hfile : l.getLast? = some name := h.getLast?_of_fileName? hname hl hplace.2
    rw [hplace.1, hscratch] at hfile
    exact Path.scratchName_ne name mark (Option.some.inj hfile).symm
  case free =>
    intro l goal _ hlink
    exact absurd hlink (h.plain l goal)

end LinkedMachine

end EvidenceTags
