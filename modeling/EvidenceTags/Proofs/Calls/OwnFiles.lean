import EvidenceTags.Proofs.Calls.Replacing
import EvidenceTags.Proofs.Calls.Targets
import EvidenceTags.Proofs.SavingPrograms

/-!
# Files that programs make for themselves

While one program saves, another may do so too, or probe whether files can be made. The files that
they make on the way are named by numbers, and no number is used twice. So a program has at most one
file in hand, which it is to move or to remove (`Hand`), and nobody else has it.

What a step of one program is for all others is a `Deed`: it changes only the file in hand, or moves
it to where a save was to go. The deeds of single calls are listed here.
-/

namespace EvidenceTags

open FileTree Machine

/-! ## Names by numbers -/

/-- The mark with a number. -/
def markOf (process number : Nat) : String := toString process ++ "-" ++ toString number

theorem Machine.markAt_eq (m : Machine) (n : Nat) : m.markAt n = markOf m.process n := rfl

/-- The name of a file that a process makes for itself, with this number. -/
def Numbered (process number : Nat) (name : String) : Prop :=
  (∃ file, name = Path.scratchName file (markOf process number))
    ∨ name = Path.probeName (markOf process number)

section

variable {process n k : Nat} {name : String}

theorem markOf_inj (h : markOf process n = markOf process k) : n = k := by
  have htext : toString n = toString k := (String.append_right_inj _).1 h
  have hdigits : Nat.toDigits 10 n = Nat.toDigits 10 k := by
    rw [← Nat.toList_repr, ← Nat.toList_repr, ← Nat.toString_eq_repr, ← Nat.toString_eq_repr, htext]
  rw [← @Nat.ofDigitChars_ten_toDigits n, hdigits, Nat.ofDigitChars_ten_toDigits]

/-- What stands behind the last dot of a text. -/
theorem eq_of_append_dot {front front' back back' : List Char} (h : '.' ∉ back) (h' : '.' ∉ back')
    (heq : front ++ '.' :: back = front' ++ '.' :: back') : back = back' := by
  have hcut {front back : List Char} (h : '.' ∉ back) :
      (front ++ '.' :: back).reverse.takeWhile (· ≠ '.') = back.reverse := by
    rw [List.reverse_append, List.reverse_cons, List.append_assoc, List.takeWhile_append_of_pos]
    · simp
    · intro c hc
      have hne : c ≠ '.' := fun hdot => h (hdot ▸ List.mem_reverse.1 hc)
      exact decide_eq_true hne
  have hreverse := congrArg (fun text => text.reverse.takeWhile (· ≠ '.')) heq
  simp only [hcut h, hcut h'] at hreverse
  exact List.reverse_inj.1 hreverse

theorem notMem_markOf (process n : Nat) : '.' ∉ (markOf process n).toList :=
  (isMark_numbers process n).notMem (by decide) (by decide)

/-- A name has one number. -/
theorem Numbered.unique (h : Numbered process n name) (h' : Numbered process k name) : n = k := by
  have hprobe {n k : Nat} {file : String}
      (h : Path.probeName (markOf process n) = Path.scratchName file (markOf process k)) : False :=
    ProbeNamed.ne_scratchName ⟨_, isMark_numbers process n, rfl⟩ file _ h
  apply @markOf_inj process
  rcases h with ⟨file, rfl⟩ | rfl
  · rcases h' with ⟨file', heq⟩ | heq
    · have htext := (String.append_left_inj ".tmp").1 heq
      have hlist := congrArg String.toList htext
      simp only [String.toList_append] at hlist
      exact String.toList_injective
        (eq_of_append_dot (notMem_markOf process n) (notMem_markOf process k)
          (by simpa using hlist))
    · exact (hprobe heq.symm).elim
  · rcases h' with ⟨file', heq⟩ | heq
    · exact (hprobe heq).elim
    · exact (String.append_right_inj _).1 heq

theorem Numbered.not_isMove (h : Numbered process n name) : ¬ IsMove name := by
  rcases h with ⟨file, rfl⟩ | rfl
  · exact Path.not_isMove_scratchName _ _
  · exact Path.not_isMove_probeName _

end

/-! ## Files in hand -/

/-- A path to a file that is named by a number. -/
structure OwnFile (process : Nat) where
  number : Nat
  path : Path
  name : String
  last : path.segments.getLast? = some name
  numbered : Numbered process number name

/-- What a program has in hand: nothing, a number for a file, or a file that it may have made. -/
inductive Hand (process : Nat)
  | empty
  | numbered (n : Nat)
  | holding (file : OwnFile process)

namespace Hand

variable {process : Nat}

def number : Hand process → Option Nat
  | .empty => none
  | .numbered n => some n
  | .holding file => some file.number

/-- The name is that of a file with the number in hand. -/
def Names (hand : Hand process) (name : String) : Prop :=
  ∃ n, hand.number = some n ∧ Numbered process n name

/-- The file in hand is here. -/
def At (hand : Hand process) (m : Machine) (l : Location) : Prop :=
  ∃ file, hand = .holding file ∧ m.locate file.path = .ok l

end Hand

section

variable {process : Nat} {hand : Hand process} {file : OwnFile process} {m m' : Machine}
  {l : Location}

theorem OwnFile.leadsTo (file : OwnFile process) : file.path.LeadsTo file.name :=
  Path.leadsTo_of_getLast? file.numbered.not_isMove file.last

theorem OwnFile.getLast? (file : OwnFile process) (hlocate : m.locate file.path = .ok l) :
    l.getLast? = some file.name :=
  getLast?_of_locate file.numbered.not_isMove file.last hlocate

theorem Hand.names_file (file : OwnFile process) : (Hand.holding file).Names file.name :=
  ⟨file.number, rfl, file.numbered⟩

theorem Hand.At.exists_name (h : hand.At m l) :
    ∃ name, l.getLast? = some name ∧ hand.Names name := by
  rcases h with ⟨file, rfl, hlocate⟩
  exact ⟨file.name, file.getLast? hlocate, names_file file⟩

theorem Hand.At.unique {l' : Location} (h : hand.At m l) (hbase : m'.workingDir = m.workingDir)
    (h' : hand.At m' l') : l = l' := by
  rcases h with ⟨file, rfl, hlocate⟩
  rcases h' with ⟨file', heq, hlocate'⟩
  cases heq
  exact locate_unique hlocate hbase hlocate'

theorem Hand.not_at_empty : ¬ (Hand.empty : Hand process).At m l := by
  rintro ⟨file, heq, -⟩
  cases heq

theorem Hand.not_at_numbered {n : Nat} : ¬ (Hand.numbered n : Hand process).At m l := by
  rintro ⟨file, heq, -⟩
  cases heq

end

/-! ## Deeds -/

/-- What a step does to the machine, with what is in hand and which saves have ended before and
after. Saves go to paths of which `T` holds. -/
structure Deed {process : Nat} (T : Path → Prop) (hand hand' : Hand process)
    (ended ended' : List Attempt) (m m' : Machine) : Prop where
  differs : m.DiffersAt
    (fun name => hand.Names name ∨ ∃ path, T path ∧ path.fileName? = some name) m'
  process : m'.process = m.process
  serial : m.serial ≤ m'.serial
  /-- A number is kept, or is a new one. -/
  number : ∀ n, hand'.number = some n → hand.number = some n ∨ m.serial ≤ n ∧ n < m'.serial
  /-- What is there was there, or is in hand, or has been saved. -/
  there : ∀ l, m'.tree.content? l ≠ none →
    m'.tree.content? l = m.tree.content? l ∧ ¬ hand.At m l ∨ hand'.At m' l
      ∨ ∃ a name, ended' = ended ++ [a] ∧ T a.path ∧ a.path.fileName? = some name
        ∧ a.HoldsAt m' l
  /-- What is gone was in hand. -/
  gone : ∀ l, m'.tree.content? l = none → m.tree.content? l = none
    ∨ ∃ name, l.getLast? = some name ∧ hand.Names name
  ended : ended' = ended ∨ ∃ a, ended' = ended ++ [a] ∧ T a.path
    ∧ (a.result = .ok () → ∃ name l, a.path.fileName? = some name ∧ a.HoldsAt m' l)

section

variable {process : Nat} {T : Path → Prop} {hand hand' : Hand process} {ended : List Attempt}
  {m m' : Machine} {file : OwnFile process} {l : Location} {bytes : Wire.Bytes}

section

variable {ended' : List Attempt} {a : Attempt} (saves : List Attempt)
  (h : Deed T hand hand' ended ended' m m')

include h

theorem Deed.kept (ha : a ∈ saves ++ ended) : a ∈ saves ++ ended' := by
  rcases h.ended with heq | ⟨b, heq, -⟩
  · rwa [heq]
  · rw [heq, ← List.append_assoc]
    exact List.mem_append_left _ ha

/-- One save may be new. -/
theorem Deed.mem (ha : a ∈ saves ++ ended') : a ∈ saves ++ ended ∨ T a.path
    ∧ (a.result = .ok () → ∃ name l, a.path.fileName? = some name ∧ a.HoldsAt m' l) := by
  rcases h.ended with heq | ⟨b, heq, hb⟩
  · rw [heq] at ha
    exact .inl ha
  · rw [heq, ← List.append_assoc] at ha
    rcases List.mem_append.1 ha with ha | ha
    · exact .inl ha
    · rw [List.mem_singleton.1 ha]
      exact .inr hb

end

/-- Nothing happens to the files. -/
theorem deed_of_tree (htree : m'.tree = m.tree) (hbase : m'.workingDir = m.workingDir)
    (hprocess : m'.process = m.process) (hserial : m.serial ≤ m'.serial)
    (hnumber : ∀ n, hand'.number = some n → hand.number = some n ∨ m.serial ≤ n ∧ n < m'.serial)
    (hkept : ∀ l, hand.At m l → m.tree.content? l ≠ none → hand'.At m' l) :
    Deed T hand hand' ended ended m m' := by
  refine ⟨differsAt_of_tree htree hbase, hprocess, hserial, hnumber, ?_, ?_, .inl rfl⟩
  · intro l hl
    rw [htree] at hl ⊢
    by_cases hat : hand.At m l
    · exact .inr (.inl (hkept l hat hl))
    · exact .inl ⟨rfl, hat⟩
  · intro l hl
    rw [htree] at hl
    exact .inl hl

theorem Deed.refl (hand : Hand process) (ended : List Attempt) (m : Machine) :
    Deed T hand hand ended ended m m :=
  deed_of_tree rfl rfl rfl (Nat.le_refl _) (fun _ h => .inl h) fun _ h _ => h

/-- A number is taken. -/
theorem deed_of_numbered (hnumber : hand'.number = some m.serial) :
    Deed T .empty hand' ended ended m { m with serial := m.serial + 1 } := by
  refine deed_of_tree rfl rfl rfl (Nat.le_succ _) ?_ fun l hat => absurd hat Hand.not_at_empty
  intro n hn
  rw [hnumber] at hn
  cases hn
  exact .inr ⟨Nat.le_refl _, Nat.lt_succ_self _⟩

/-- Nothing is in hand any more, if nothing is there. -/
theorem deed_of_lost (h : ∀ l, hand.At m l → m.tree.content? l = none) :
    Deed T hand .empty ended ended m m :=
  deed_of_tree rfl rfl rfl (Nat.le_refl _) nofun fun l hat hl => absurd (h l hat) hl

/-- The file in hand is made, or changed. -/
theorem deed_of_put (hput : m.PutAt file.path l (some bytes) m')
    (hnumber : hand.number = some file.number)
    (hhand : ∀ other, hand = .holding other → other = file) :
    Deed T hand (.holding file) ended ended m m' := by
  have hnames : hand.Names file.name := ⟨file.number, hnumber, file.numbered⟩
  have hat : (Hand.holding file).At m' l := ⟨file, rfl, hput.locate⟩
  refine ⟨hput.differsAt file.leadsTo (.inl hnames), hput.process, Nat.le_of_eq hput.serial.symm,
    ?_, ?_, ?_, .inl rfl⟩
  · intro n hn
    cases hn
    exact .inl hnumber
  · intro x _
    by_cases hx : x = l
    · exact .inr (.inl (hx ▸ hat))
    · left
      refine ⟨by rw [hput.change x, if_neg hx], ?_⟩
      rintro ⟨other, rfl, hlocate⟩
      rw [hhand other rfl] at hlocate
      exact hx (locate_unique hlocate hput.workingDir hput.locate)
  · intro x hx
    by_cases hxl : x = l
    · exact .inr ⟨file.name, hxl ▸ file.getLast? hput.locate, hnames⟩
    · rw [hput.change x, if_neg hxl] at hx
      exact .inl hx

/-- The file in hand is removed. -/
theorem deed_of_gone (hput : m.PutAt file.path l none m') :
    Deed T (.holding file) .empty ended ended m m' := by
  have hlast : l.getLast? = some file.name := by
    rcases hput.located with hlocate | hlocate
    · exact file.getLast? hlocate
    · exact file.getLast? hlocate
  refine ⟨hput.differsAt file.leadsTo (.inl (Hand.names_file file)), hput.process,
    Nat.le_of_eq hput.serial.symm, nofun, ?_, ?_, .inl rfl⟩
  · intro x hx
    have hne : x ≠ l := by
      rintro rfl
      exact hx hput.change.here
    left
    refine ⟨by rw [hput.change x, if_neg hne], ?_⟩
    intro hat
    -- what is in hand is what has gone
    have hhere : (Hand.holding file).At m l ∨ (Hand.holding file).At m' l :=
      hput.located.imp (fun hlocate => ⟨file, rfl, hlocate⟩) fun hlocate => ⟨file, rfl, hlocate⟩
    rcases hhere with hhere | hhere
    · exact hne (hat.unique rfl hhere)
    · exact hne (hat.unique hput.workingDir hhere)
  · intro x hx
    by_cases hxl : x = l
    · exact .inr ⟨file.name, hxl ▸ hlast, Hand.names_file file⟩
    · rw [hput.change x, if_neg hxl] at hx
      exact .inl hx

/-- The file in hand is moved to where a save was to go. -/
theorem deed_of_moved {snapshot : Snapshot} {path : Path}
    (hheld : m.held file.path = some (some snapshot.encode)) (htarget : T path)
    {name : String} (hname : path.fileName? = some name)
    (hrename : (Host.rename file.path path : StateM Machine _) m = (.ok (), m')) :
    Deed T (.holding file) .empty [] [⟨⟨snapshot, path⟩, .ok ()⟩] m m' := by
  rcases Machine.exists_of_change hrename with ⟨tree, hmoved, rfl⟩
  rcases exists_of_held hheld with ⟨source, hlocate, hcontent⟩
  rcases exists_of_rename hmoved with ⟨source', goal, hlocate', hgoal, htree⟩
  have hsource : source' = source := Except.ok.inj (hlocate'.symm.trans hlocate)
  rw [hsource] at htree
  rcases moves_of_rename hcontent htree with ⟨hfile, hmoves⟩
  have hkeeps := keeps_of_rename hcontent htree
  have hthere : tree.content? goal = some (some snapshot.encode) := by rw [hmoves goal, if_pos rfl]
  have hlocated : ({ m with tree } : Machine).locate path = .ok goal :=
    locate_of_target hgoal hkeeps (by rw [hthere]; rfl)
  have hholds : (⟨⟨snapshot, path⟩, .ok ()⟩ : Attempt).HoldsAt { m with tree } goal :=
    ⟨rfl, hlocated, hthere⟩
  have hscratch := file.getLast? hlocate
  have hlast : goal.getLast? = some name := by
    refine getLast?_of_fileName? hname hlocated ?_
    rw [hthere]
    simp
  refine ⟨⟨?_, hkeeps, ?_, rfl⟩, rfl, Nat.le_refl _, nofun, ?_, ?_,
    .inr ⟨_, rfl, htarget, fun _ => ⟨name, goal, hname, hholds⟩⟩⟩
  · intro x hx
    rw [hmoves x] at hx
    split_ifs at hx with hxg hxs
    · exact ⟨name, hxg ▸ hlast, .inr ⟨path, htarget, hname⟩⟩
    · exact ⟨file.name, hxs ▸ hscratch, .inl (Hand.names_file file)⟩
    · exact absurd rfl hx
  · intro x hx
    have hx' := hmoves x
    rw [hx] at hx'
    split_ifs at hx' with hxg hxs
    · cases hx'
    · exact hx'.symm
  · intro x hx
    rw [hmoves x] at hx ⊢
    split_ifs at hx ⊢ with hxg hxs
    · exact .inr (.inr ⟨_, name, rfl, htarget, hname, hxg ▸ hholds⟩)
    · exact absurd rfl hx
    · left
      refine ⟨rfl, ?_⟩
      intro hat
      exact hxs (hat.unique rfl ⟨file, rfl, hlocate⟩)
  · intro x hx
    rw [hmoves x] at hx
    split_ifs at hx with hxg hxs
    · exact .inr ⟨file.name, hxs ▸ hscratch, Hand.names_file file⟩
    · exact .inl hx

/-- A save ends without success. -/
theorem Deed.failed (h : Deed T hand hand' [] [] m m') {job : SaveJob} (htarget : T job.path)
    (error : StoreError) : Deed T hand hand' [] [⟨job, .error error⟩] m m' := by
  refine ⟨h.differs, h.process, h.serial, h.number, ?_, h.gone, .inr ⟨_, rfl, htarget, ?_⟩⟩
  · intro l hl
    rcases h.there l hl with hsame | hat | ⟨b, name, hb, -⟩
    · exact .inl hsame
    · exact .inr (.inl hat)
    · cases hb
  · intro hok
    cases hok

end

end EvidenceTags
