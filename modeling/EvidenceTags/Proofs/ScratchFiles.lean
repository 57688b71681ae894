import EvidenceTags.Proofs.CanonicalPath
import Mathlib.Data.List.TakeWhile

/-!
# Scratch files beside a file

A file is replaced by way of a scratch file in the same directory, whose name is made of that of the
file and a mark. Where a path leads is read off its segments, so the place that the path of a
scratch file leads to bears its name (`FileTree.getLast?_of_locate`), and so does the place of a
file itself (`FileTree.getLast?_of_fileName?`). The first name is longer, so these are two places.

Hence nothing that happens at the place of the scratch file is seen under the path of the file, as
long as it is no directory (`Machine.read_of_alikeBut`).
-/

namespace EvidenceTags

/-! ## Where last names lead -/

namespace FileTree

variable {t t' : FileTree} {l d : Location}

/-- A step that leads into a directory or back. -/
def IsMove (step : String) : Prop := step = "" ∨ step = "." ∨ step = ".."

theorem next_of_not_isMove {step : String} (h : ¬ IsMove step) (l : Location) :
    next l step = l ++ [step] := by
  have hstay : ¬ (step = "" ∨ step = ".") := fun hstep => h (hstep.imp_right .inl)
  rw [next, if_neg hstay, if_neg fun hup => h (.inr (.inr hup))]

/-- What a path leads to bears the last name of the path. -/
theorem getLast?_of_follow {steps : List String} {name : String} (hname : ¬ IsMove name)
    (hlast : steps.getLast? = some name)
    (h : t.follow l steps = .ok d) : d.getLast? = some name := by
  rcases List.getLast?_eq_some_iff.1 hlast with ⟨front, rfl⟩
  have hend := foldl_next_of_follow h
  rw [List.foldl_append, List.foldl_cons, List.foldl_nil, next_of_not_isMove hname] at hend
  rw [← hend, List.getLast?_concat]

theorem follow_of_locate {base : Location} {p : Path} (h : t.locate base p = .ok d) :
    checkPath p = .ok () ∧ t.follow (start base p) p.segments = .ok d := by
  rcases exists_of_bind_eq_ok h with ⟨⟨⟩, hcheck, hfollow⟩
  exact ⟨hcheck, hfollow⟩

theorem getLast?_of_locate {base : Location} {p : Path} {name : String} (hname : ¬ IsMove name)
    (hlast : p.segments.getLast? = some name) (h : t.locate base p = .ok d) :
    d.getLast? = some name :=
  getLast?_of_follow hname hlast (follow_of_locate h).2

theorem not_isMove_of_length {step : String} (h : 2 < step.length) : ¬ IsMove step := by
  rintro (rfl | rfl | rfl)
  all_goals exact absurd h (by decide)

end FileTree

/-! ## Names of scratch files -/

namespace Path

variable {p : Path} {name mark : String}

/-- A file name holds no separator. -/
theorem notMem_of_fileName? (h : p.fileName? = some name) : '/' ∉ name.toList := by
  unfold fileName? at h
  simp only at h
  split at h
  · cases h
  · cases h
    intro hmem
    rw [splitLast, String.toList_ofList, List.mem_reverse] at hmem
    have hne := List.mem_takeWhile_imp hmem
    simp at hne

/-- What scratch files are told apart by: a text of digits and hyphens. -/
def IsMark (mark : String) : Prop := ∀ c ∈ mark.toList, c.isDigit = true ∨ c = '-'

theorem IsMark.notMem {c : Char} (h : IsMark mark) (hdigit : c.isDigit = false)
    (hhyphen : c ≠ '-') :
    c ∉ mark.toList := by
  intro hmem
  rcases h c hmem with hc | hc
  · rw [hdigit] at hc
    cases hc
  · exact hhyphen hc

/-- The name of the scratch file for a file. -/
def scratchName (name mark : String) : String := "." ++ name ++ "." ++ mark ++ ".tmp"

/-- The name of the file that is made to find out whether files can be made. -/
def probeName (mark : String) : String := ".tagindex-scratch." ++ mark

theorem length_scratchName (name mark : String) :
    (scratchName name mark).length = name.length + mark.length + 6 := by
  have hdot : ".".length = 1 := rfl
  have htmp : ".tmp".length = 4 := rfl
  rw [scratchName, String.length_append, String.length_append, String.length_append,
    String.length_append, hdot, htmp]
  omega

theorem not_isMove_scratchName (name mark : String) :
    ¬ FileTree.IsMove (scratchName name mark) := by
  apply FileTree.not_isMove_of_length
  rw [length_scratchName]
  omega

theorem length_probeName (mark : String) : (probeName mark).length = mark.length + 18 := by
  have hfront : ".tagindex-scratch.".length = 18 := by decide +kernel
  unfold probeName
  rw [String.length_append, hfront]
  omega

theorem not_isMove_probeName (mark : String) : ¬ FileTree.IsMove (probeName mark) := by
  apply FileTree.not_isMove_of_length
  rw [length_probeName]
  omega

/-- The name of the scratch file is longer. -/
theorem scratchName_ne (name mark : String) : name ≠ scratchName name mark := by
  intro heq
  have hlength := congrArg String.length heq
  rw [length_scratchName] at hlength
  omega

theorem notMem_scratchName (hname : '/' ∉ name.toList) (hmark : '/' ∉ mark.toList) :
    '/' ∉ (scratchName name mark).toList := by
  have hdot : '/' ∉ ".".toList := by simp
  have htmp : '/' ∉ ".tmp".toList := by simp
  simp only [scratchName, String.toList_append, List.mem_append, hname, hmark, hdot, htmp, or_self,
    not_false_eq_true]

theorem notMem_probeName (hmark : '/' ∉ mark.toList) : '/' ∉ (probeName mark).toList := by
  have hfront : '/' ∉ ".tagindex-scratch.".toList := by decide +kernel
  unfold probeName
  rw [String.toList_append, List.mem_append, not_or]
  exact ⟨hfront, hmark⟩

theorem getLast?_segments_scratch (hname : '/' ∉ name.toList) (hmark : '/' ∉ mark.toList) :
    (p.scratch name mark).segments.getLast? = some (scratchName name mark) :=
  getLast?_segments_join _ (notMem_scratchName hname hmark)

end Path

namespace Machine

/-- The mark that a process uses next, after it has used up `serial` marks. -/
def markAt (m : Machine) (serial : Nat) : String := toString m.process ++ "-" ++ toString serial

theorem isDigit_of_mem_toString {n : Nat} {c : Char} (h : c ∈ (toString n).toList) :
    c.isDigit = true := by
  rw [Nat.toString_eq_repr, Nat.toList_repr] at h
  exact Nat.isDigit_of_mem_toDigits (by decide) (by decide) h

theorem notMem_toString (n : Nat) : '/' ∉ (toString n).toList :=
  fun hmem => absurd (isDigit_of_mem_toString hmem) (by decide)

/-- Two numbers make a mark. -/
theorem isMark_numbers (process serial : Nat) :
    Path.IsMark (toString process ++ "-" ++ toString serial) := by
  intro c hc
  simp only [String.toList_append, List.mem_append] at hc
  rcases hc with (hc | hc) | hc
  · exact .inl (isDigit_of_mem_toString hc)
  · exact .inr (List.mem_singleton.1 hc)
  · exact .inl (isDigit_of_mem_toString hc)

theorem isMark_markAt (m : Machine) (serial : Nat) : Path.IsMark (m.markAt serial) :=
  isMark_numbers m.process serial

theorem notMem_markAt (m : Machine) (serial : Nat) : '/' ∉ (m.markAt serial).toList :=
  (m.isMark_markAt serial).notMem (by decide) (by decide)

end Machine

/-! ## Last segments and file names -/

namespace Path

variable {p : Path} {name : String}

/-- What stands behind the last separator of a text, which is given in reverse. -/
def lastOf (reversed : List Char) : String :=
  String.ofList (reversed.takeWhile (· ≠ '/')).reverse

/-- The last segment of a text without separators behind `front`. -/
theorem getLast?_cutOnto {back : List Char} (h : '/' ∉ back) (front : List Char) :
    (cutOnto [] back).getLast? = some (String.ofList back)
      ∧ (cutOnto [] (front ++ '/' :: back)).getLast? = some (String.ofList back) := by
  have hcut : cutOnto [] back = [String.ofList back] := cutOnto_of_notMem [] back h
  rw [cutOnto_append, hcut]
  exact ⟨rfl, List.getLast?_concat⟩

theorem getLast?_segments (p : Path) :
    p.segments.getLast? = some (lastOf p.text.toList.reverse) := by
  have hback : '/' ∉ (p.text.toList.reverse.takeWhile (· ≠ '/')).reverse := by
    intro hmem
    have hne := List.mem_takeWhile_imp (List.mem_reverse.1 hmem)
    simp at hne
  have htext : p.text.toList = (p.text.toList.reverse.dropWhile (· ≠ '/')).reverse
      ++ (p.text.toList.reverse.takeWhile (· ≠ '/')).reverse := by
    rw [← List.reverse_append, List.takeWhile_append_dropWhile, List.reverse_reverse]
  have hhead := List.head?_dropWhile_not (· ≠ '/') p.text.toList.reverse
  rw [segments, lastOf]
  -- the text is cut in two, with a separator in between if there is one
  generalize (p.text.toList.reverse.takeWhile (· ≠ '/')).reverse = back at hback htext ⊢
  generalize p.text.toList.reverse.dropWhile (· ≠ '/') = front at htext hhead
  rw [htext]
  cases front with
  | nil => exact (getLast?_cutOnto hback []).1
  | cons c front =>
    have hc : c = '/' := by simpa using hhead
    rw [hc, List.reverse_cons, List.append_assoc, List.singleton_append]
    exact (getLast?_cutOnto hback front.reverse).2

/-- To drop what trails the last component changes only texts that end in a separator or a dot. -/
theorem trimEnd_cases (reversed : List Char) :
    trimEnd reversed = reversed ∨ lastOf reversed = "" ∨ lastOf reversed = "." := by
  fun_cases trimEnd reversed
  case case1 | case2 | case6 => exact .inl rfl
  case case3 => exact .inr (.inl rfl)
  case case4 | case5 => exact .inr (.inr rfl)

/-- The last segment of a path with a file name is this name, unless the path goes on with a
separator or a dot. -/
theorem getLast?_of_fileName? (h : p.fileName? = some name) :
    p.segments.getLast? = some name ∨ p.segments.getLast? = some ""
      ∨ p.segments.getLast? = some "." := by
  rw [getLast?_segments]
  rcases trimEnd_cases p.text.toList.reverse with htrim | hempty | hdot
  · left
    unfold fileName? at h
    simp only at h
    split at h
    · cases h
    · cases h
      rw [splitLast, htrim, lastOf]
  · rw [hempty]
    exact .inr (.inl rfl)
  · rw [hdot]
    exact .inr (.inr rfl)

theorem not_isMove_of_fileName? (h : p.fileName? = some name) : ¬ FileTree.IsMove name := by
  unfold fileName? at h
  simp only at h
  split at h
  · cases h
  · rename_i hname
    cases h
    exact hname

end Path

namespace FileTree

variable {t t' : FileTree} {l d : Location} {base : Location} {p : Path}

/-- A file bears the file name of the path that leads to it. -/
theorem getLast?_of_fileName? {name : String} (hname : p.fileName? = some name)
    (h : t.locate base p = .ok d) (hfile : t.content? d ≠ some none) : d.getLast? = some name := by
  have hmove := Path.not_isMove_of_fileName? hname
  -- a separator or a dot at the end of the path leads only to a directory
  have hnot {last : String} (hlast : p.segments.getLast? = some last)
      (hstay : last = "" ∨ last = ".") :
      False := by
    have hfollow := (follow_of_locate h).2
    rcases List.getLast?_eq_some_iff.1 hlast with ⟨front, hsegments⟩
    rw [hsegments] at hfollow
    rcases exists_follow_front hfollow with ⟨mid, -, hmore⟩
    rcases follow_cons_eq_ok.1 hmore with ⟨hdirectory, -, hend⟩
    rw [next, if_pos hstay] at hend
    rcases follow_nil_eq_ok.1 hend with ⟨-, rfl⟩
    exact hfile hdirectory
  rcases Path.getLast?_of_fileName? hname with hlast | hlast | hlast
  · exact getLast?_of_locate hmove hlast h
  · exact (hnot hlast (.inl rfl)).elim
  · exact (hnot hlast (.inr rfl)).elim

/-- Only one place differs, and no directory was or is there. -/
structure AlikeBut (l : Location) (t t' : FileTree) : Prop where
  content : ∀ x, x ≠ l → t'.content? x = t.content? x
  before : t.content? l ≠ some none
  after : t'.content? l ≠ some none

theorem AlikeBut.symm (h : AlikeBut l t t') : AlikeBut l t' t :=
  ⟨fun x hx => (h.content x hx).symm, h.after, h.before⟩

theorem ChangesTo.alikeBut {left : Option Wire.Bytes} (h : t.ChangesTo l (left.map some) t')
    (hfile : t.content? l ≠ some none) : AlikeBut l t t' := by
  refine ⟨?_, hfile, ?_⟩
  · intro x hx
    rw [h x, if_neg hx]
  · rw [h.here]
    cases left <;> simp

/-- Since no directory was there, none is gone. -/
theorem AlikeBut.keeps (h : AlikeBut l t t') : KeepsDirectories t t' := by
  intro x hx
  have hne : x ≠ l := by
    rintro rfl
    exact h.before hx
  rw [h.content x hne]
  exact hx

/-- Paths to other places lead there still. -/
theorem AlikeBut.locate (h : AlikeBut l t t') (hlocate : t.locate base p = .ok d) (hd : d ≠ l) :
    t'.locate base p = .ok d := by
  rcases follow_of_locate hlocate with ⟨hcheck, hfollow⟩
  have hend : (t'.content? d).isSome = true := by
    rw [h.content d hd]
    exact isSome_end_of_follow hfollow
  rw [FileTree.locate, hcheck]
  exact follow_of_keeps hfollow h.keeps hend

end FileTree

namespace Machine

open FileTree

variable {m m' : Machine} {path : Path} {bytes : Wire.Bytes} {l : Location}

/-- A file is read as before if only the place of a scratch file for it differs. -/
theorem read_of_alikeBut (hbase : m'.workingDir = m.workingDir) (h : AlikeBut l m.tree m'.tree)
    {name mark : String} (hname : path.fileName? = some name)
    (hscratch : l.getLast? = some (Path.scratchName name mark)) (hread : m.read path = .ok bytes) :
    m'.read path = .ok bytes := by
  rcases exists_content_of_read hread with ⟨d, hlocate, hcontent⟩
  have hlast : d.getLast? = some name := by
    refine getLast?_of_fileName? hname hlocate ?_
    rw [hcontent]
    simp
  have hd : d ≠ l := by
    rintro rfl
    rw [hlast] at hscratch
    exact Path.scratchName_ne name mark (Option.some.inj hscratch)
  have hlocate' : m'.locate path = .ok d := by
    rw [Machine.locate, hbase]
    exact h.locate hlocate hd
  refine read_eq_ok hlocate' ?_
  rw [h.content d hd]
  exact hcontent

end Machine

end EvidenceTags
