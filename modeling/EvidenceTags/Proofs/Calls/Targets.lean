import EvidenceTags.Placement
import EvidenceTags.Proofs.Calls.Probing

/-!
# Paths that state is saved under

The files that are made on the way, to probe a directory or to be moved over a target, all have
names that begin with a dot. The paths that a store saves under end in another name
(`Path.IsTarget`): those of the state file and of cookies do. So what is found under them stays
while scratch files come and go (`Machine.held_of_hidden`).
-/

namespace EvidenceTags

open FileTree

/-- A name that begins with a dot. -/
def Hidden (name : String) : Prop := name.toList.head? = some '.'

/-- A name that begins otherwise. -/
def Visible (name : String) : Prop := ∃ c, name.toList.head? = some c ∧ c ≠ '.'

section

variable {name : String}

theorem Visible.not_hidden (h : Visible name) : ¬ Hidden name := by
  rcases h with ⟨c, hc, hne⟩
  intro hdot
  rw [Hidden, hc] at hdot
  exact hne (Option.some.inj hdot)

theorem Visible.not_isMove (h : Visible name) : ¬ IsMove name := by
  rintro (rfl | rfl | rfl)
  · rcases h with ⟨c, hc, -⟩
    cases hc
  · exact h.not_hidden rfl
  · exact h.not_hidden rfl

theorem ProbeNamed.hidden (h : ProbeNamed name) : Hidden name := by
  rcases h with ⟨mark, -, rfl⟩
  unfold Hidden Path.probeName
  rw [String.toList_append, List.head?_append]
  rfl

theorem hidden_scratchName (name mark : String) : Hidden (Path.scratchName name mark) := by
  unfold Hidden Path.scratchName
  simp only [String.toList_append, List.head?_append]
  rfl

/-- No file is made for a probe under the name of a file that is to be moved. -/
theorem ProbeNamed.ne_scratchName (h : ProbeNamed name) (file mark : String) :
    name ≠ Path.scratchName file mark := by
  rcases h with ⟨probe, hprobe, rfl⟩
  intro heq
  have hlast := congrArg (fun text => text.toList.getLast?) heq
  unfold Path.probeName Path.scratchName at hlast
  simp only [String.toList_append, List.getLast?_append] at hlast
  cases hmark : probe.toList.getLast? with
  | none =>
    rw [hmark] at hlast
    cases hlast
  | some c =>
    rw [hmark] at hlast
    have hc : c = 'p' := Option.some.inj hlast
    have hmem := List.mem_of_getLast? hmark
    rw [hc] at hmem
    exact hprobe.notMem (by decide) (by decide) hmem

end

namespace Path

variable {path : Path} {name : String}

/-- The path ends in a name that no scratch file has. -/
def IsTarget (path : Path) : Prop := ∃ name, path.segments.getLast? = some name ∧ Visible name

theorem IsTarget.exists_fileName? (h : path.IsTarget) :
    ∃ name, path.fileName? = some name ∧ Visible name := by
  rcases h with ⟨name, hlast, hvisible⟩
  rw [getLast?_segments] at hlast
  have hname : lastOf path.text.toList.reverse = name := Option.some.inj hlast
  have hmove := hvisible.not_isMove
  have htrim : trimEnd path.text.toList.reverse = path.text.toList.reverse := by
    rcases trimEnd_cases path.text.toList.reverse with htrim | hempty | hdot
    · exact htrim
    · exact absurd (.inl (hname.symm.trans hempty)) hmove
    · exact absurd (.inr (.inl (hname.symm.trans hdot))) hmove
  refine ⟨name, ?_, hvisible⟩
  have hsplit : path.splitLast.2 = name := by
    rw [splitLast, htrim]
    exact hname
  rw [fileName?, hsplit]
  exact if_neg hmove

theorem IsTarget.exists_leadsTo (h : path.IsTarget) :
    ∃ name, path.LeadsTo name ∧ ¬ Hidden name := by
  rcases h with ⟨name, hlast, hvisible⟩
  exact ⟨name, leadsTo_of_getLast? hvisible.not_isMove hlast, hvisible.not_hidden⟩

theorem isTarget_join (directory : Path) (hplain : '/' ∉ name.toList) (hvisible : Visible name) :
    (directory.join name).IsTarget :=
  ⟨name, getLast?_segments_join directory hplain, hvisible⟩

/-- The text of a list of names ends in the last one. -/
theorem exists_intercalate_concat (front : List (List Char)) (last : List Char) :
    ∃ text, '/' :: "/".toList.intercalate (front ++ [last]) = text ++ '/' :: last := by
  induction front with
  | nil => exact ⟨[], by rw [List.nil_append, List.intercalate_singleton, List.nil_append]⟩
  | cons first rest ih =>
    rcases ih with ⟨text, htext⟩
    refine ⟨'/' :: (first ++ text), ?_⟩
    rw [List.cons_append, List.intercalate_cons_of_ne_nil (by simp), List.append_assoc]
    show '/' :: (first ++ '/' :: "/".toList.intercalate (rest ++ [last])) = _
    rw [htext, List.cons_append, List.append_assoc]

theorem isTarget_pathOf (l : Location) (hplain : '/' ∉ name.toList) (hvisible : Visible name) :
    (Machine.pathOf (l ++ [name])).IsTarget := by
  rcases exists_intercalate_concat (l.map String.toList) name.toList with ⟨text, htext⟩
  have hpath : (Machine.pathOf (l ++ [name])).text.toList = text ++ '/' :: name.toList := by
    rw [Machine.pathOf, String.toList_append, String.toList_intercalate, List.map_append, ← htext]
    rfl
  refine ⟨name, ?_, hvisible⟩
  rw [segments, hpath, (getLast?_cutOnto hplain text).2, String.ofList_toList]

end Path

namespace Machine

variable {m m' : Machine} {path : Path}

/-- What is found under a target stays while files with other names come and go. -/
theorem held_of_hidden (h : m.DiffersAt Hidden m') (htarget : path.IsTarget) :
    m'.held path = m.held path := by
  rcases htarget.exists_leadsTo with ⟨name, hleads, hname⟩
  exact h.held hleads hname

/-- The canonical path of a file ends in its name. -/
theorem isTarget_canonical {name : String} (hplain : '/' ∉ name.toList) (hvisible : Visible name)
    (directory : Path) :
    ((m.canonical? (directory.join name)).getD (directory.join name)).IsTarget := by
  cases hcanonical : m.canonical? (directory.join name) with
  | none => exact Path.isTarget_join directory hplain hvisible
  | some canonical =>
    rcases canonical?_eq_some hcanonical with ⟨l, hresolve, -, rfl⟩
    have hfollow :
        m.tree.follow (start m.workingDir (directory.join name)) (directory.join name).segments
        = .ok l := by
      rcases exists_of_bind_eq_ok hresolve with ⟨⟨⟩, -, hmore⟩
      split at hmore
      · cases hmore
      · exact hmore
    have hlast :=
      getLast?_of_follow hvisible.not_isMove (Path.getLast?_segments_join directory hplain) hfollow
    rcases List.getLast?_eq_some_iff.1 hlast with ⟨front, rfl⟩
    exact Path.isTarget_pathOf front hplain hvisible

end Machine

/-! ## The state file and cookies -/

theorem isTarget_stateFile (m : Machine) (directory : Path) :
    ((m.canonical? (directory.join "bookmarks.tix")).getD
      (directory.join "bookmarks.tix")).IsTarget :=
  m.isTarget_canonical (by decide +kernel) ⟨'b', by decide +kernel, by decide⟩ directory

/-- The name of a cookie. -/
theorem isTarget_indexer (directory : Path) (n : Nat) :
    (directory.join ("indexer" ++ toString n ++ ".tix")).IsTarget := by
  apply Path.isTarget_join
  · have hfront : '/' ∉ "indexer".toList := by decide +kernel
    have hback : '/' ∉ ".tix".toList := by decide +kernel
    simp only [String.toList_append, List.mem_append, hfront, hback, Machine.notMem_toString,
      or_self, not_false_eq_true]
  · refine ⟨'i', ?_, by decide⟩
    simp only [String.toList_append, List.head?_append]
    rfl

/-- On every host the cookie is a target. -/
theorem quiet_cookiePath (index directory : Path) :
    (cookiePath index directory : Program Path).Quiet Path.IsTarget := by
  apply Program.quiet_bind (Program.quiet_call (.status index) trivial)
  intro (status : Option FileStatus) _
  cases status with
  | none => exact isTarget_indexer directory 0
  | some status => exact isTarget_indexer directory _

theorem isTarget_cookie (m : Machine) (index directory : Path) :
    ((cookiePath index directory : StateM Machine Path) m).1.IsTarget := by
  unfold cookiePath
  rw [Machine.bind_apply]
  exact isTarget_indexer directory _

end EvidenceTags
