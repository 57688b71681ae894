import EvidenceTags.Proofs.ScratchFiles

/-!
# The directory of a file

The path of a file is taken apart in two ways: its text is cut at the last component, and its
segments are followed one by one. Both lead to the same directory. The text that is left of
`base.join name` without the name is that of `base` up to separators and dots at its end
(`Path.parent?_join`), which lead nowhere else (`FileTree.enters_trimmed`), and the segments of
`base.join name` up to the last lead where `base` leads (`FileTree.target_join`).

The empty path is the exception. It is no path to a directory, and still a file under a path that is
a bare name is a file in the working directory.
-/

namespace EvidenceTags

/-! ## Texts -/

namespace Path

variable {base : Path} {name : String}

/-- The path without what trails its last component. -/
def trimmed (p : Path) : Path := ⟨String.ofList (trimEnd p.text.toList.reverse).reverse⟩

/-- What stands before a name in a directory. -/
def before (base : Path) : String :=
  if base.text = "" ∨ base.text.toList.getLast? = some '/' then base.text else base.text ++ "/"

theorem text_join (hname : '/' ∉ name.toList) : (base.join name).text = base.before ++ name := by
  have hrelative : ¬ name.toList.head? = some '/' := fun heq => hname (List.mem_of_mem_head? heq)
  rw [join, before, if_neg hrelative]
  split <;> rfl

/-- Before a name there is nothing, or a separator. -/
theorem before_cases (base : Path) :
    base.before = "" ∨ ∃ front, base.before.toList = front ++ ['/'] := by
  unfold before
  split
  · rename_i hend
    rcases hend with hempty | hseparator
    · exact .inl hempty
    · exact .inr (List.getLast?_eq_some_iff.1 hseparator)
  · right
    exact ⟨base.text.toList, String.toList_append⟩

/-- A separator at the end is dropped, unless it is the root. -/
theorem trimEnd_cons_separator {reversed : List Char} (h : reversed ≠ []) :
    trimEnd ('/' :: reversed) = trimEnd reversed := by
  rw [trimEnd]
  exact h

theorem trimEnd_before (base : Path) :
    trimEnd base.before.toList.reverse = trimEnd base.text.toList.reverse := by
  unfold before
  split
  · rfl
  · rename_i hend
    have hnonempty : base.text.toList.reverse ≠ [] := by
      intro hnil
      exact hend (.inl (String.toList_eq_nil_iff.1 (List.reverse_eq_nil_iff.1 hnil)))
    rw [String.toList_append, List.reverse_append]
    exact trimEnd_cons_separator hnonempty

theorem lastOf_join (base : Path) (hname : '/' ∉ name.toList) :
    lastOf (base.join name).text.toList.reverse = name := by
  have hlast := getLast?_segments_join base hname
  rw [getLast?_segments] at hlast
  exact Option.some.inj hlast

/-- No separator stands at the end. -/
theorem dropWhile_join (hnonempty : name ≠ "") (hname : '/' ∉ name.toList) :
    (base.join name).text.toList.reverse.dropWhile (· = '/')
      = (base.join name).text.toList.reverse := by
  have hlast := lastOf_join base hname
  cases hreversed : (base.join name).text.toList.reverse with
  | nil => rfl
  | cons c rest =>
    have hc : c ≠ '/' := by
      rintro rfl
      rw [hreversed] at hlast
      exact hnonempty hlast.symm
    exact List.dropWhile_cons_of_neg (by simpa using hc)

theorem splitLast_join (hmove : ¬ FileTree.IsMove name) (hname : '/' ∉ name.toList) :
    (base.join name).splitLast = (base.before, name) := by
  have hlast : lastOf (base.join name).text.toList.reverse = name := lastOf_join base hname
  have htrim : trimEnd (base.join name).text.toList.reverse
      = (base.join name).text.toList.reverse := by
    rcases trimEnd_cases (base.join name).text.toList.reverse with hsame | hempty | hdot
    · exact hsame
    · exact absurd (.inl (hlast.symm.trans hempty)) hmove
    · exact absurd (.inr (.inl (hlast.symm.trans hdot))) hmove
  have hdrop : (base.join name).text.toList.reverse.dropWhile (· ≠ '/')
      = base.before.toList.reverse := by
    have hall : ∀ c ∈ name.toList.reverse, (c ≠ '/') = true := by
      intro c hc
      simp only [ne_eq, eq_iff_iff, iff_true]
      rintro rfl
      exact hname (List.mem_reverse.1 hc)
    rw [text_join hname, String.toList_append, List.reverse_append,
      List.dropWhile_append_of_pos (by simpa using hall)]
    rcases base.before_cases with hempty | ⟨front, hfront⟩
    · rw [hempty]
      rfl
    · rw [hfront, List.reverse_append]
      rfl
  rw [splitLast, htrim, hdrop, List.reverse_reverse, String.ofList_toList]
  exact congrArg (Prod.mk base.before) hlast

/-- The parent of a file in a directory is the directory. -/
theorem parent?_join (hmove : ¬ FileTree.IsMove name) (hname : '/' ∉ name.toList) :
    (base.join name).parent? = some base.trimmed := by
  have hnonempty : name ≠ "" := fun hempty => hmove (.inl hempty)
  rw [parent?, splitLast_join hmove hname]
  show (if name = "" then none else some (Path.mk _)) = _
  rw [if_neg hnonempty, trimEnd_before, trimmed]

theorem fileName?_join (hmove : ¬ FileTree.IsMove name) (hname : '/' ∉ name.toList) :
    (base.join name).fileName? = some name := by
  unfold fileName?
  rw [splitLast_join hmove hname]
  exact if_neg hmove

/-- Something is left of a text that is not empty, and the first character stays the first. -/
theorem getLast?_trimEnd (reversed : List Char) :
    (trimEnd reversed).getLast? = reversed.getLast? := by
  fun_induction trimEnd reversed with
  | case1 | case2 | case6 => rfl
  | case3 rest hrest ih => rw [ih, List.getLast?_cons_of_ne_nil hrest]
  | case4 => rfl
  | case5 rest hrest ih =>
    have hne : rest ≠ [] := hrest
    rw [ih, List.getLast?_cons_of_ne_nil (List.cons_ne_nil _ _), List.getLast?_cons_of_ne_nil hne]

theorem isAbsolute_trimmed (p : Path) : p.trimmed.isAbsolute = p.isAbsolute := by
  rw [isAbsolute, isAbsolute, trimmed, String.toList_ofList, List.head?_reverse, getLast?_trimEnd,
    List.getLast?_reverse]

theorem text_trimmed_eq_empty {p : Path} : p.trimmed.text = "" ↔ p.text = "" := by
  rw [← String.toList_eq_nil_iff, ← String.toList_eq_nil_iff, trimmed, String.toList_ofList,
    List.reverse_eq_nil_iff, ← List.getLast?_eq_none_iff, getLast?_trimEnd,
    List.getLast?_eq_none_iff, List.reverse_eq_nil_iff]

theorem isAbsolute_join (hname : '/' ∉ name.toList) :
    (base.join name).isAbsolute = base.isAbsolute := by
  have hrelative : name.toList.head? ≠ some '/' := fun heq => hname (List.mem_of_mem_head? heq)
  rw [isAbsolute, isAbsolute, text_join hname, before, String.toList_append]
  split
  · cases htext : base.text.toList with
    | nil => simpa using hrelative
    | cons c rest => rfl
  · rename_i hend
    cases htext : base.text.toList with
    | nil => exact absurd (.inl (String.toList_eq_nil_iff.1 htext)) hend
    | cons c rest =>
      rw [String.toList_append, htext]
      rfl

/-- The segments of a directory make up those of a file in it, up to one that is empty. -/
theorem segments_join (base : Path) (hname : '/' ∉ name.toList) :
    (base.join name).segments = base.segments ++ [name]
      ∨ ∃ steps, base.segments = steps ++ [""] ∧ (base.join name).segments = steps ++ [name] := by
  have hlast : cutOnto [] name.toList = [name] := by
    rw [cutOnto_of_notMem [] _ hname]
    simp
  rw [segments, segments, text_join hname, before, String.toList_append]
  split
  · rename_i hend
    right
    rcases hend with hempty | hseparator
    · refine ⟨[], ?_, ?_⟩
      · rw [hempty]
        rfl
      · rw [hempty]
        exact hlast
    · rcases List.getLast?_eq_some_iff.1 hseparator with ⟨front, hfront⟩
      refine ⟨cutOnto [] front, ?_, ?_⟩
      · rw [hfront, cutOnto_append]
        rfl
      · rw [hfront, List.append_assoc, List.singleton_append, cutOnto_append, hlast]
  · left
    rw [String.toList_append, List.append_assoc]
    show cutOnto [] (base.text.toList ++ '/' :: name.toList) = _
    rw [cutOnto_append, hlast]

end Path

/-! ## Where they lead -/

namespace FileTree

variable {t t' : FileTree} {base l d : Location} {p dir : Path} {name : String}

/-- A path leads to a directory, however long the path is. -/
def Enters (t : FileTree) (base : Location) (p : Path) (d : Location) : Prop :=
  t.follow (start base p) p.segments = .ok d ∧ t.content? d = some none

theorem Enters.keeps (h : t.Enters base p d) (hkeeps : KeepsDirectories t t') :
    t'.Enters base p d := by
  have hd : t'.content? d = some none := hkeeps d h.2
  refine ⟨follow_of_keeps h.1 hkeeps ?_, hd⟩
  rw [hd]
  rfl

/-- A path leads to one directory. -/
theorem Enters.unique {d' : Location} (h : t.Enters base p d) (h' : t.Enters base p d') : d = d' :=
  Except.ok.inj (h.1.symm.trans h'.1)

/-- In a directory a step that stays may be added. -/
theorem follow_concat_stay (steps : List String) {step : String} (hstay : step = "" ∨ step = ".") :
    (t.follow l (steps ++ [step]) = .ok d ∧ t.content? d = some none)
      ↔ (t.follow l steps = .ok d ∧ t.content? d = some none) := by
  have hnext : next d step = d := if_pos hstay
  have hshort : step.utf8ByteSize ≤ nameLimit := by
    rcases hstay with rfl | rfl <;> decide
  constructor
  · rintro ⟨hfollow, hd⟩
    rcases exists_follow_front hfollow with ⟨mid, hmid, hmore⟩
    have hend := (follow_nil_eq_ok.1 (follow_cons_eq_ok.1 hmore).2.2).2
    have hsame : mid = d := by rwa [next, if_pos hstay] at hend
    exact ⟨hsame ▸ hmid, hd⟩
  · rintro ⟨hfollow, hd⟩
    have hsome : (t.content? (next d step)).isSome = true := by
      rw [hnext, hd]
      rfl
    exact ⟨follow_append hfollow (follow_cons_eq_ok.2 ⟨hd, hshort,
      follow_nil_eq_ok.2 ⟨hsome, hnext⟩⟩), hd⟩

/-- What trails the last component of a path leads nowhere else, as long as the path leads to a
directory. -/
theorem follow_trimEnd (reversed : List Char) :
    (t.follow l (Path.cutOnto [] (Path.trimEnd reversed).reverse) = .ok d
      ∧ t.content? d = some none)
      ↔ (t.follow l (Path.cutOnto [] reversed.reverse) = .ok d ∧ t.content? d = some none) := by
  fun_induction Path.trimEnd reversed with
  | case1 | case2 | case6 => exact Iff.rfl
  | case3 rest hrest ih =>
    rw [ih, List.reverse_cons, Path.cutOnto_append]
    exact (follow_concat_stay _ (.inl rfl)).symm
  | case4 =>
    exact (follow_concat_stay [""] (.inl rfl)).trans (follow_concat_stay [""] (.inr rfl)).symm
  | case5 rest hrest ih =>
    rw [ih, List.reverse_cons, List.reverse_cons, List.append_assoc, List.singleton_append,
      Path.cutOnto_append]
    exact (follow_concat_stay _ (.inr rfl)).symm

theorem enters_trimmed : t.Enters base p.trimmed d ↔ t.Enters base p d := by
  have htext : p.trimmed.text.toList = (Path.trimEnd p.text.toList.reverse).reverse :=
    String.toList_ofList
  rw [Enters, Enters, start, start, Path.isAbsolute_trimmed, Path.segments, Path.segments, htext,
    follow_trimEnd, List.reverse_reverse]

/-- The directory of a file is the one that the file is in, also if it is the working directory. -/
theorem enters_directory (hmove : ¬ IsMove name) (hname : '/' ∉ name.toList) :
    t.Enters base (dir.join name).directory d ↔ t.Enters base dir d := by
  rw [Path.directory, Path.parent?_join hmove hname]
  show t.Enters base (if dir.trimmed.text = "" then ⟨"."⟩ else dir.trimmed) d ↔ _
  by_cases hempty : dir.text = ""
  · have hdir : dir = ⟨""⟩ := congrArg Path.mk hempty
    rw [if_pos (Path.text_trimmed_eq_empty.2 hempty), hdir]
    exact (follow_concat_stay [] (.inr rfl)).trans (follow_concat_stay [] (.inl rfl)).symm
  · rw [if_neg (mt Path.text_trimmed_eq_empty.1 hempty)]
    exact enters_trimmed

/-- An entry can be made in a directory if its path and its name are not too long. -/
theorem target_join {unnamed : OsError} (hmove : ¬ IsMove name) (hname : '/' ∉ name.toList) :
    t.target base (dir.join name) unnamed = .ok l
      ↔ checkPath (dir.join name) = .ok () ∧ name.utf8ByteSize ≤ nameLimit
        ∧ ∃ d, t.Enters base dir d ∧ l = d ++ [name] := by
  have hlast := Path.getLast?_segments_join dir hname
  have hstart : start base (dir.join name) = start base dir := by
    rw [start, start, Path.isAbsolute_join hname]
  have hdirectory (d : Location) :
      (t.follow (start base dir) (dir.join name).segments.dropLast = .ok d
      ∧ t.content? d = some none) ↔ t.Enters base dir d := by
    rcases Path.segments_join dir hname with hsegments | ⟨steps, hdir, hsegments⟩
    · rw [hsegments, List.dropLast_concat]
      exact Iff.rfl
    · rw [hsegments, List.dropLast_concat, Enters, hdir]
      exact (follow_concat_stay _ (.inl rfl)).symm
  constructor
  · intro h
    rcases exists_of_target h with ⟨hcheck, d, name', hfollow, hd, hlast', hshort, -, rfl⟩
    rw [hlast] at hlast'
    cases hlast'
    rw [hstart] at hfollow
    exact ⟨hcheck, hshort, d, (hdirectory d).1 ⟨hfollow, hd⟩, rfl⟩
  · rintro ⟨hcheck, hshort, d, henters, rfl⟩
    rcases (hdirectory d).2 henters with ⟨hfollow, hd⟩
    have hnot : ¬ (name = "" ∨ name = "." ∨ name = "..") := hmove
    rw [← hstart] at hfollow
    simp only [target, hcheck, hfollow, bind, Except.bind, isDirectory_iff.2 hd, not_true_eq_false,
      if_false, hlast, if_neg hnot, if_neg (Nat.not_lt.2 hshort)]

/-- A path is refused if it holds a NUL, is too long, or is empty. -/
theorem checkPath_eq_ok : checkPath p = .ok ()
    ↔ '\x00' ∉ p.text.toList ∧ p.text.utf8ByteSize ≤ pathLimit ∧ p.text ≠ "" := by
  unfold checkPath checkText
  by_cases hnul : '\x00' ∈ p.text.toList
  · simp [hnul, bind, Except.bind]
  · by_cases hlong : pathLimit < p.text.utf8ByteSize
    · simp [hnul, hlong, Nat.not_le.2 hlong, bind, Except.bind]
    · simp [hnul, hlong, bind, Except.bind, Nat.le_of_not_lt hlong]

/-- Where the path of a file is not refused, that of its directory is not, unless it is empty. -/
theorem checkPath_of_join (hname : '/' ∉ name.toList) (hdir : dir.text ≠ "")
    (h : checkPath (dir.join name) = .ok ()) : checkPath dir = .ok () := by
  rcases checkPath_eq_ok.1 h with ⟨hnul, hshort, -⟩
  have htext : ∃ more, (dir.join name).text = dir.text ++ more := by
    rw [Path.text_join hname, Path.before]
    split
    · exact ⟨_, rfl⟩
    · exact ⟨_, String.append_assoc⟩
  rcases htext with ⟨more, htext⟩
  rw [htext, String.toList_append, List.mem_append, not_or] at hnul
  rw [htext, String.utf8ByteSize_append] at hshort
  exact checkPath_eq_ok.2 ⟨hnul.1, Nat.le_of_add_right_le hshort, hdir⟩

end FileTree

end EvidenceTags
