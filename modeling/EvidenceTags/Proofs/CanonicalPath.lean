import EvidenceTags.Proofs.FileContent

/-!
# A canonical path leads to the same place

The canonical path of a file is made of the names on the way to it. It leads to the file from
anywhere (`FileTree.locate_pathOf`), as long as those names are names (`IsName`) and lead there from
the root (`FileTree.Stands`). Both hold of whatever a path leads to, if they hold of the place that
it starts from.

So it does not matter whether a file is looked up under a path or under the canonical path that was
found for it once: `Machine.locate_of_canonical` replaces the first by the second, and
`Machine.canonical?_of_kept` says that the second is found again, if no directory has been taken
away meanwhile.
-/

namespace EvidenceTags

/-! ## Texts and their segments -/

/-- A step that leads to something of this name, and that can be part of a path. -/
structure IsName (name : String) : Prop where
  notEmpty : name ≠ ""
  notHere : name ≠ "."
  notUp : name ≠ ".."
  noSeparator : '/' ∉ name.toList
  noNul : '\x00' ∉ name.toList

namespace Path

/-- A text is cut at a separator wherever it stands. -/
theorem cutOnto_append (name front back : List Char) :
    cutOnto name (front ++ '/' :: back) = cutOnto name front ++ cutOnto [] back := by
  induction front generalizing name with
  | nil => rw [List.nil_append, cutOnto, cutOnto, List.singleton_append]
  | cons c front ih =>
    rw [List.cons_append]
    by_cases hc : c = '/'
    · rw [hc, cutOnto, cutOnto, ih, List.cons_append]
    · rw [cutOnto, cutOnto, ih]
      · exact hc
      · exact hc

/-- A text without separators is one segment. -/
theorem cutOnto_of_notMem (name text : List Char) (h : '/' ∉ text) :
    cutOnto name text = [String.ofList (name.reverse ++ text)] := by
  induction text generalizing name with
  | nil => rw [cutOnto, List.append_nil]
  | cons c text ih =>
    have hc : c ≠ '/' := fun heq => h (heq ▸ List.mem_cons_self)
    rw [cutOnto, ih (c :: name) fun hmem => h (List.mem_cons_of_mem _ hmem), List.reverse_cons,
      List.append_assoc, List.singleton_append]
    exact hc

/-- Segments hold no separators, and nothing that the text does not hold. -/
theorem of_mem_cutOnto {name text : List Char} (hname : '/' ∉ name) {segment : String}
    (h : segment ∈ cutOnto name text) {c : Char} (hc : c ∈ segment.toList) :
    c ≠ '/' ∧ (c ∈ name ∨ c ∈ text) := by
  induction text generalizing name with
  | nil =>
    rw [cutOnto, List.mem_singleton] at h
    rw [h, String.toList_ofList, List.mem_reverse] at hc
    exact ⟨fun heq => hname (heq ▸ hc), .inl hc⟩
  | cons d text ih =>
    by_cases hd : d = '/'
    · rw [hd, cutOnto] at h
      rcases List.mem_cons.1 h with rfl | h
      · rw [String.toList_ofList, List.mem_reverse] at hc
        exact ⟨fun heq => hname (heq ▸ hc), .inl hc⟩
      · rcases ih (List.not_mem_nil) h with ⟨hne, hnone | htext⟩
        · exact absurd hnone List.not_mem_nil
        · exact ⟨hne, .inr (List.mem_cons_of_mem _ htext)⟩
    · rw [cutOnto] at h
      · have hname' : '/' ∉ d :: name := by
          intro hmem
          rcases List.mem_cons.1 hmem with heq | hmem
          · exact hd heq.symm
          · exact hname hmem
        rcases ih hname' h with ⟨hne, hmem | htext⟩
        · refine ⟨hne, ?_⟩
          rcases List.mem_cons.1 hmem with rfl | hmem
          · exact .inr List.mem_cons_self
          · exact .inl hmem
        · exact ⟨hne, .inr (List.mem_cons_of_mem _ htext)⟩
      · exact hd

/-- The segments of names that are put together are the names. -/
theorem cutOnto_intercalate {names : List String} (hnil : names ≠ [])
    (h : ∀ name ∈ names, '/' ∉ name.toList) :
    cutOnto [] ("/".intercalate names).toList = names := by
  rw [String.toList_intercalate]
  induction names with
  | nil => exact absurd rfl hnil
  | cons name rest ih =>
    have hname := h name List.mem_cons_self
    cases rest with
    | nil =>
      rw [List.map_singleton, List.intercalate_singleton, cutOnto_of_notMem [] _ hname]
      simp
    | cons second rest =>
      have hrest :=
        ih (List.cons_ne_nil _ _) fun other hother => h other (List.mem_cons_of_mem _ hother)
      rw [List.map_cons] at hrest
      rw [List.map_cons, List.map_cons, List.intercalate_cons_cons, List.append_assoc]
      show cutOnto []
        (name.toList ++ '/' :: "/".toList.intercalate (second.toList :: rest.map String.toList)) = _
      rw [cutOnto_append, cutOnto_of_notMem [] _ hname, hrest]
      simp

/-- What stands in a text that is put together stands in one of its parts, or parts them. -/
theorem mem_intercalate {texts : List (List Char)} {c : Char}
    (h : c ∈ "/".toList.intercalate texts) : c = '/' ∨ ∃ text ∈ texts, c ∈ text := by
  induction texts with
  | nil => cases h
  | cons text rest ih =>
    cases rest with
    | nil =>
      rw [List.intercalate_singleton] at h
      exact .inr ⟨text, List.mem_cons_self, h⟩
    | cons second rest =>
      rw [List.intercalate_cons_cons, List.append_assoc] at h
      rcases List.mem_append.1 h with htext | h
      · exact .inr ⟨text, List.mem_cons_self, htext⟩
      · rcases List.mem_append.1 h with hseparator | h
        · exact .inl (List.mem_singleton.1 hseparator)
        · rcases ih h with heq | ⟨other, hother, hc⟩
          · exact .inl heq
          · exact .inr ⟨other, List.mem_cons_of_mem _ hother, hc⟩

theorem isAbsolute_pathOf (l : Location) : (Machine.pathOf l).isAbsolute = true := by
  simp [isAbsolute, Machine.pathOf, String.toList_append]

theorem segments_pathOf {l : Location} (hnil : l ≠ []) (h : ∀ name ∈ l, '/' ∉ name.toList) :
    (Machine.pathOf l).segments = "" :: l := by
  rw [segments, Machine.pathOf, String.toList_append]
  show cutOnto [] ('/' :: ("/".intercalate l).toList) = _
  rw [cutOnto, cutOnto_intercalate hnil h]
  rfl

/-- A file in a directory has its own name for its last segment. -/
theorem getLast?_segments_join (base : Path) {name : String} (h : '/' ∉ name.toList) :
    (base.join name).segments.getLast? = some name := by
  have hlast : cutOnto [] name.toList = [name] := by
    rw [cutOnto_of_notMem [] _ h]
    simp
  have hrelative : ¬ name.toList.head? = some '/' := by
    intro heq
    exact h (List.mem_of_mem_head? heq)
  -- whatever stands before the last separator makes up the segments before the last one
  have hcut (front : List Char) : (cutOnto [] (front ++ '/' :: name.toList)).getLast?
      = some name := by
    rw [cutOnto_append, hlast, List.getLast?_concat]
  rw [join, if_neg hrelative, segments]
  by_cases hend : base.text = "" ∨ base.text.toList.getLast? = some '/'
  · rw [if_pos hend, String.toList_append]
    rcases hend with hempty | hseparator
    · rw [hempty]
      show (cutOnto [] name.toList).getLast? = some name
      rw [hlast]
      rfl
    · rcases List.getLast?_eq_some_iff.1 hseparator with ⟨front, hfront⟩
      rw [hfront, List.append_assoc]
      exact hcut front
  · rw [if_neg hend, String.toList_append, String.toList_append, List.append_assoc]
    exact hcut base.text.toList

end Path

/-! ## Where names lead -/

namespace FileTree

variable {t t' : FileTree} {l d : Location} {steps : List String}

theorem next_of_isName {name : String} (h : IsName name) (l : Location) :
    next l name = l ++ [name] := by
  have hstay : ¬ (name = "" ∨ name = ".") := by
    rintro (hempty | hhere)
    · exact h.notEmpty hempty
    · exact h.notHere hhere
  rw [next, if_neg hstay, if_neg h.notUp]

/-- Where a path leads is read off its steps. -/
theorem foldl_next_of_follow (h : t.follow l steps = .ok d) : steps.foldl next l = d := by
  induction steps generalizing l with
  | nil => exact (follow_nil_eq_ok.1 h).2
  | cons step rest ih => exact ih (follow_cons_eq_ok.1 h).2.2

theorem isSome_of_follow (h : t.follow l steps = .ok d) : (t.content? l).isSome = true := by
  cases steps with
  | nil => exact (follow_nil_eq_ok.1 h).1
  | cons step rest =>
    rw [(follow_cons_eq_ok.1 h).1]
    rfl

/-- The end of a path is there. -/
theorem isSome_end_of_follow (h : t.follow l steps = .ok d) : (t.content? d).isSome = true := by
  induction steps generalizing l with
  | nil =>
    rcases follow_nil_eq_ok.1 h with ⟨hsome, rfl⟩
    exact hsome
  | cons step rest ih => exact ih (follow_cons_eq_ok.1 h).2.2

theorem foldl_next_names {names : List String} (h : ∀ name ∈ names, IsName name) :
    names.foldl next l = l ++ names := by
  induction names generalizing l with
  | nil => exact (List.append_nil l).symm
  | cons name rest ih =>
    rw [List.foldl_cons, next_of_isName (h name List.mem_cons_self),
      ih fun other hother => h other (List.mem_cons_of_mem _ hother), List.append_assoc]
    rfl

/-- A path that ends in a name does not lead to the root. -/
theorem foldl_next_ne_nil {name : String} (h : IsName name) :
    (steps ++ [name]).foldl next l ≠ [] := by
  rw [List.foldl_append, List.foldl_cons, next_of_isName h]
  exact List.append_ne_nil_of_right_ne_nil _ (List.cons_ne_nil _ _)

/-- A text that can be part of a path. -/
def IsStep (step : String) : Prop := '/' ∉ step.toList ∧ '\x00' ∉ step.toList

theorem isName_of_mem_next (hl : ∀ name ∈ l, IsName name) {step : String} (hstep : IsStep step) :
    ∀ name ∈ next l step, IsName name := by
  intro name hname
  unfold next at hname
  split at hname
  · exact hl name hname
  · rename_i hstay
    split at hname
    · exact hl name (List.dropLast_subset l hname)
    · rename_i hup
      rcases List.mem_append.1 hname with hname | hname
      · exact hl name hname
      · rcases List.mem_singleton.1 hname with rfl
        exact ⟨fun h => hstay (.inl h), fun h => hstay (.inr h), hup, hstep.1, hstep.2⟩

/-- The way from names leads over names. -/
theorem isName_of_mem_foldl (hl : ∀ name ∈ l, IsName name) (hsteps : ∀ step ∈ steps, IsStep step) :
    ∀ name ∈ steps.foldl next l, IsName name := by
  induction steps generalizing l with
  | nil => exact hl
  | cons step rest ih =>
    apply ih (isName_of_mem_next hl (hsteps step List.mem_cons_self))
    intro other hother
    exact hsteps other (List.mem_cons_of_mem _ hother)

/-- A location whose names lead to it from the root. -/
structure Stands (t : FileTree) (l : Location) : Prop where
  names : ∀ name ∈ l, IsName name
  found : t.follow [] l = .ok l

theorem stands_root (h : (t.content? []).isSome = true) : t.Stands [] :=
  ⟨nofun, follow_nil_eq_ok.2 ⟨h, rfl⟩⟩

theorem exists_follow_front {more : List String} (h : t.follow l (steps ++ more) = .ok d) :
    ∃ mid, t.follow l steps = .ok mid ∧ t.follow mid more = .ok d := by
  induction steps generalizing l with
  | nil => exact ⟨l, follow_nil_eq_ok.2 ⟨isSome_of_follow h, rfl⟩, h⟩
  | cons step rest ih =>
    rcases follow_cons_eq_ok.1 h with ⟨hdirectory, hshort, hrest⟩
    rcases ih hrest with ⟨mid, hmid, hmore⟩
    exact ⟨mid, follow_cons_eq_ok.2 ⟨hdirectory, hshort, hmid⟩, hmore⟩

/-- The directory that holds what stands somewhere stands there as well. -/
theorem Stands.dropLast (h : t.Stands l) : t.Stands l.dropLast := by
  have hnames : ∀ name ∈ l.dropLast, IsName name := fun name hname =>
    h.names name (List.dropLast_subset l hname)
  refine ⟨hnames, ?_⟩
  rcases List.eq_nil_or_concat l with rfl | ⟨front, last, rfl⟩
  · exact h.found
  · rw [List.concat_eq_append, List.dropLast_concat] at hnames ⊢
    have hfound := h.found
    rw [List.concat_eq_append] at hfound
    rcases exists_follow_front hfound with ⟨mid, hmid, -⟩
    have hend := foldl_next_of_follow hmid
    rw [foldl_next_names hnames, List.nil_append] at hend
    rw [hmid, hend]

theorem Stands.next (h : t.Stands l) {step : String} (hstep : IsStep step)
    (hdirectory : t.content? l = some none) (hshort : step.utf8ByteSize ≤ nameLimit)
    (hsome : (t.content? (next l step)).isSome = true) : t.Stands (next l step) := by
  refine ⟨isName_of_mem_next h.names hstep, ?_⟩
  have hlast : t.follow l [step] = .ok (FileTree.next l step) :=
    follow_cons_eq_ok.2 ⟨hdirectory, hshort, follow_nil_eq_ok.2 ⟨hsome, rfl⟩⟩
  have hwalk := follow_append h.found hlast
  unfold FileTree.next at hwalk ⊢
  split
  · exact h.found
  · split
    · exact h.dropLast.found
    · rename_i hstay hup
      rwa [if_neg hstay, if_neg hup] at hwalk

/-- A path that starts from where something stands leads to where something stands. -/
theorem Stands.follow (h : t.Stands l) (hsteps : ∀ step ∈ steps, IsStep step)
    (hfollow : t.follow l steps = .ok d) : t.Stands d := by
  induction steps generalizing l with
  | nil =>
    rcases follow_nil_eq_ok.1 hfollow with ⟨-, rfl⟩
    exact h
  | cons step rest ih =>
    rcases follow_cons_eq_ok.1 hfollow with ⟨hdirectory, hshort, hrest⟩
    have hnext := h.next (hsteps step List.mem_cons_self) hdirectory hshort (isSome_of_follow hrest)
    exact ih hnext (fun other hother => hsteps other (List.mem_cons_of_mem _ hother)) hrest

/-- An absolute path starts at the root. -/
theorem start_pathOf (l base : Location) : start base (Machine.pathOf l) = [] := by
  rw [start, if_pos (Path.isAbsolute_pathOf l)]

theorem checkPath_pathOf (hnames : ∀ name ∈ l, IsName name)
    (hfits : (Machine.pathOf l).text.utf8ByteSize ≤ pathLimit) :
    checkPath (Machine.pathOf l) = .ok () := by
  have htext :
      (Machine.pathOf l).text.toList = '/' :: "/".toList.intercalate (l.map String.toList) := by
    rw [Machine.pathOf, String.toList_append, String.toList_intercalate]
    rfl
  have hnul : (Machine.pathOf l).text.toList.contains '\x00' = false := by
    rw [htext, ← Bool.not_eq_true, List.contains_iff_mem]
    intro hmem
    rcases List.mem_cons.1 hmem with heq | hmem
    · exact absurd heq (by decide)
    · rcases Path.mem_intercalate hmem with heq | ⟨text, htext, hmem⟩
      · exact absurd heq (by decide)
      · rcases List.mem_map.1 htext with ⟨name, hname, rfl⟩
        exact (hnames name hname).noNul hmem
  have hempty : (Machine.pathOf l).text ≠ "" := by
    intro heq
    rw [heq] at htext
    cases htext
  rw [checkPath, checkText, hnul]
  show (if pathLimit < _ then _ else _) = _
  rw [if_neg (Nat.not_lt.2 hfits), if_neg hempty]

/-- A canonical path that is short enough leads to where it is from. -/
theorem locate_pathOf (h : t.Stands l) (hnil : l ≠ [])
    (hfits : (Machine.pathOf l).text.utf8ByteSize ≤ pathLimit) (base : Location) :
    t.locate base (Machine.pathOf l) = .ok l := by
  have hsegments := Path.segments_pathOf hnil fun name hname => (h.names name hname).noSeparator
  rw [locate, checkPath_pathOf h.names hfits, start_pathOf, hsegments]
  -- the empty segment before the first separator stays at the root
  have hroot : t.content? [] = some none := by
    cases l with
    | nil => exact absurd rfl hnil
    | cons name rest => exact (follow_cons_eq_ok.1 h.found).1
  exact follow_cons_eq_ok.2 ⟨hroot, by decide, h.found⟩

/-- If a canonical path leads anywhere, it leads to where it is from. -/
theorem isSome_of_locate_pathOf (hnames : ∀ name ∈ d, IsName name) (hnil : d ≠ []) {base : Location}
    (h : t.locate base (Machine.pathOf d) = .ok l) : (t.content? d).isSome = true := by
  rcases exists_of_bind_eq_ok h with ⟨⟨⟩, -, hfollow⟩
  rw [start_pathOf, Path.segments_pathOf hnil fun name hname => (hnames name hname).noSeparator]
    at hfollow
  -- the empty segment before the first separator stays at the root
  have hspelled : d.foldl next [] = l := foldl_next_of_follow (follow_cons_eq_ok.1 hfollow).2.2
  rw [foldl_next_names hnames, List.nil_append] at hspelled
  rw [hspelled]
  exact isSome_end_of_follow hfollow

/-- The segments of a path that is looked up can be part of a path. -/
theorem isStep_of_mem_segments {p : Path} (h : checkText p = .ok ()) :
    ∀ step ∈ p.segments, IsStep step := by
  have hnul : '\x00' ∉ p.text.toList := by
    unfold checkText at h
    split at h
    · cases h
    · rename_i hnot
      intro hmem
      exact hnot (List.contains_iff_mem.2 hmem)
  intro step hstep
  constructor
  · intro hmem
    exact (Path.of_mem_cutOnto List.not_mem_nil hstep hmem).1 rfl
  · intro hmem
    rcases (Path.of_mem_cutOnto List.not_mem_nil hstep hmem).2 with hnone | htext
    · cases hnone
    · exact hnul htext

end FileTree

/-! ## On a machine -/

namespace Machine

open FileTree

variable {m m' : Machine} {p c : Path} {l : Location}

/-- The way to the working directory is made of names, and if the directory is there, they lead to
it from the root. -/
structure Rooted (m : Machine) : Prop where
  names : ∀ name ∈ m.workingDir, IsName name
  found : m.tree.content? m.workingDir = some none →
    m.tree.follow [] m.workingDir = .ok m.workingDir

theorem rooted_of_root (h : m.workingDir = []) : m.Rooted := by
  constructor
  · rw [h]
    exact nofun
  · intro hdirectory
    rw [h] at hdirectory ⊢
    refine follow_nil_eq_ok.2 ⟨?_, rfl⟩
    rw [hdirectory]
    rfl

/-- No directory has been taken away, and paths start from where they started. -/
structure Keeps (m m' : Machine) : Prop where
  directories : KeepsDirectories m.tree m'.tree
  workingDir : m'.workingDir = m.workingDir
  temporaryDir : m'.temporaryDir = m.temporaryDir

theorem Keeps.refl (m : Machine) : m.Keeps m := ⟨fun _ h => h, rfl, rfl⟩

theorem Keeps.trans {m'' : Machine} (h : m.Keeps m') (h' : m'.Keeps m'') : m.Keeps m'' :=
  ⟨h.directories.trans h'.directories, h'.workingDir.trans h.workingDir,
    h'.temporaryDir.trans h.temporaryDir⟩

/-- Where the next step is checked, it has been checked where the way goes on. -/
theorem fitsAlong_of_cons {step : String} {rest : List String}
    (h : fitsAlong l (step :: rest) = true) : fitsAlong (next l step) rest = true := by
  unfold fitsAlong at h
  unfold next
  split at h
  · rename_i hstay
    rwa [if_pos hstay]
  · rename_i hstay
    rw [if_neg hstay]
    split at h
    · rename_i hup
      rwa [if_pos hup]
    · rename_i hup
      rw [if_neg hup]
      exact (Bool.and_eq_true_iff.1 h).2

/-- If the last step is a name, the path of the end has been checked. -/
theorem fits_of_fitsAlong {steps : List String} {name : String} (hname : IsName name)
    (h : fitsAlong l (steps ++ [name]) = true) :
    (pathOf ((steps ++ [name]).foldl next l)).text.utf8ByteSize ≤ pathLimit := by
  induction steps generalizing l with
  | nil =>
    have hstay : ¬ (name = "" ∨ name = ".") := by
      rintro (hempty | hhere)
      · exact hname.notEmpty hempty
      · exact hname.notHere hhere
    rw [List.nil_append, fitsAlong, if_neg hstay, if_neg hname.notUp] at h
    rw [List.nil_append, List.foldl_cons, next_of_isName hname]
    exact of_decide_eq_true (Bool.and_eq_true_iff.1 h).1
  | cons step rest ih => exact ih (fitsAlong_of_cons h)

theorem canonical?_eq_some (h : m.canonical? p = some c) :
    ∃ l, m.tree.resolve m.workingDir p = .ok l
      ∧ fitsAlong (start m.workingDir p) p.segments = true ∧ c = pathOf l := by
  unfold canonical? at h
  split at h
  · rename_i l hresolve
    split at h
    · rename_i hfits
      exact ⟨l, hresolve, hfits, (Option.some.inj h).symm⟩
    · cases h
  · cases h

theorem Rooted.stands_start (h : m.Rooted) {l : Location} {steps : List String} {step : String}
    (hfollow : m.tree.follow (start m.workingDir p) (step :: steps) = .ok l) :
    m.tree.Stands (start m.workingDir p) := by
  have hdirectory := (follow_cons_eq_ok.1 hfollow).1
  unfold start at hdirectory ⊢
  split
  · rename_i habsolute
    rw [if_pos habsolute] at hdirectory
    apply stands_root
    rw [hdirectory]
    rfl
  · rename_i hrelative
    rw [if_neg hrelative] at hdirectory
    exact ⟨h.names, h.found hdirectory⟩

/-- What is found under a path that ends in a name is found under its canonical path. -/
theorem locate_of_canonical (hrooted : m.Rooted) {name : String} (hname : IsName name)
    (hlast : p.segments.getLast? = some name) (hlocate : m.locate p = .ok l)
    (hcanonical : m.canonical? p = some c) : m.locate c = .ok l := by
  rcases exists_of_bind_eq_ok hlocate with ⟨⟨⟩, hcheck, hfollow⟩
  rcases exists_of_bind_eq_ok hcheck with ⟨⟨⟩, htext, -⟩
  rcases canonical?_eq_some hcanonical with ⟨l', hresolve, hfits, rfl⟩
  rcases List.getLast?_eq_some_iff.1 hlast with ⟨front, hsegments⟩
  -- both ways of looking a path up follow its segments
  have hsame : l' = l := by
    rcases exists_of_bind_eq_ok hresolve with ⟨⟨⟩, -, hresolve⟩
    split at hresolve
    · cases hresolve
    · exact Except.ok.inj (hresolve.symm.trans hfollow)
  have hend := foldl_next_of_follow hfollow
  have hstands : m.tree.Stands l := by
    have hstart : m.tree.Stands (start m.workingDir p) := by
      cases hsteps : p.segments with
      | nil =>
        rw [hsteps] at hlast
        cases hlast
      | cons step steps =>
        rw [hsteps] at hfollow
        exact hrooted.stands_start hfollow
    exact hstart.follow (isStep_of_mem_segments htext) hfollow
  have hnil : l ≠ [] := by
    rw [← hend, hsegments]
    exact foldl_next_ne_nil hname
  rw [hsegments] at hfits
  have hshort := fits_of_fitsAlong hname hfits
  rw [← hsegments, hend] at hshort
  rw [hsame]
  exact locate_pathOf hstands hnil hshort m.workingDir

/-- A canonical path that was found once is found again while something is there. -/
theorem canonical?_of_kept (hkeeps : m.Keeps m') (hnames : ∀ name ∈ m.workingDir, IsName name)
    {name : String} (hname : IsName name) (hlast : p.segments.getLast? = some name)
    (hcanonical : m.canonical? p = some c) (hlocate : m'.locate c = .ok l) :
    m'.canonical? p = some c := by
  rcases canonical?_eq_some hcanonical with ⟨d, hresolve, hfits, rfl⟩
  rcases exists_of_bind_eq_ok hresolve with ⟨⟨⟩, htext, hfollow⟩
  rcases List.getLast?_eq_some_iff.1 hlast with ⟨front, hsegments⟩
  split at hfollow
  · cases hfollow
  · rename_i hnonempty
    have hend := foldl_next_of_follow hfollow
    have hstart : ∀ name ∈ start m.workingDir p, IsName name := by
      unfold start
      split
      · exact nofun
      · exact hnames
    have hl : ∀ name ∈ d, IsName name := by
      rw [← hend]
      exact isName_of_mem_foldl hstart (isStep_of_mem_segments htext)
    have hnil : d ≠ [] := by
      rw [← hend, hsegments]
      exact foldl_next_ne_nil hname
    have hthere : (m'.tree.content? d).isSome = true := isSome_of_locate_pathOf hl hnil hlocate
    have hagain := follow_of_keeps hfollow hkeeps.directories hthere
    have hresolve' : m'.tree.resolve m'.workingDir p = .ok d := by
      rw [resolve, htext, hkeeps.workingDir]
      show (if p.text = "" then _ else _) = _
      rw [if_neg hnonempty, hagain]
    rw [canonical?, hresolve', hkeeps.workingDir]
    exact if_pos hfits

/-- A path is replaced by its canonical path where that can be found. If this is done once more,
after no directory has been taken away, it still leads to the same place. -/
theorem locate_getD_canonical (hkeeps : m.Keeps m') (hrooted : m'.Rooted) {name : String}
    (hname : IsName name) (hlast : p.segments.getLast? = some name)
    (hlocate : m'.locate ((m.canonical? p).getD p) = .ok l) :
    m'.locate ((m'.canonical? p).getD p) = .ok l := by
  cases hfirst : m.canonical? p with
  | some c =>
    rw [hfirst, Option.getD_some] at hlocate
    have hnames : ∀ name ∈ m.workingDir, IsName name := by
      rw [← hkeeps.workingDir]
      exact hrooted.names
    rw [canonical?_of_kept hkeeps hnames hname hlast hfirst hlocate]
    exact hlocate
  | none =>
    rw [hfirst, Option.getD_none] at hlocate
    cases hagain : m'.canonical? p with
    | none => exact hlocate
    | some c => exact locate_of_canonical hrooted hname hlast hlocate hagain

end Machine

end EvidenceTags
