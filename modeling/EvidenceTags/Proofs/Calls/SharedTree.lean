import EvidenceTags.Proofs.Calls.NeatPrograms

/-!
# Two programs on one file tree

A client and its worker make files for themselves on the same tree, while saves go to places that
are not called like these files (`Machine.Foreign`). `Shared` says what has become of the tree since
they started, and what either of them has in hand. A step of one of them, which is a `Deed`, keeps
it (`Shared.deed`), and leaves alone what the other has in hand (`Shared.apart_names`).
-/

namespace EvidenceTags

open FileTree Machine

/-- The path does not end in a name that files get which a process makes for itself. -/
def Machine.Foreign (m : Machine) (path : Path) : Prop :=
  ∀ name, path.fileName? = some name → ¬ m.OwnName name

theorem Numbered.hidden {process n : Nat} {name : String} (h : Numbered process n name) :
    Hidden name := by
  rcases h with ⟨file, rfl⟩ | rfl
  · exact hidden_scratchName file _
  · exact ProbeNamed.hidden ⟨_, isMark_numbers process n, rfl⟩

theorem Path.IsTarget.foreign {path : Path} (h : path.IsTarget) (m : Machine) : m.Foreign path := by
  rcases h.exists_fileName? with ⟨name, hname, hvisible⟩
  intro other hother hown
  rw [hname] at hother
  cases hother
  rcases hown with ⟨n, -, hnumbered⟩
  exact hvisible.not_hidden (Numbered.hidden hnumbered)

/-- What has become of the tree since two programs were started, what they have in hand, and the
saves that have ended. -/
structure Shared (start m : Machine) (hand other : Hand start.process) (saves : List Attempt) :
    Prop where
  process : m.process = start.process
  serial : start.serial ≤ m.serial
  directories : KeepsDirectories m.tree start.tree
  /-- A number in hand has been taken since then. -/
  numbers : ∀ n, hand.number = some n ∨ other.number = some n → start.serial ≤ n ∧ n < m.serial
  apart : ∀ n, hand.number = some n → other.number ≠ some n
  /-- What is called like a file that a program makes for itself is in hand. -/
  scratch : ∀ l, start.OwnScratch l → m.tree.content? l ≠ none → hand.At m l ∨ other.At m l
  /-- Elsewhere is what was there, or what has been saved. -/
  places : ∀ l, ¬ start.OwnScratch l →
    m.tree.content? l = start.tree.content? l ∨ ∃ a ∈ saves, a.HoldsAt m l
  foreign : ∀ a ∈ saves, start.Foreign a.path
  /-- Where a save has succeeded, some save is found. -/
  targets : ∀ a ∈ saves, a.result = .ok () → ∃ name l, a.path.fileName? = some name
    ∧ m.locate a.path = .ok l ∧ ∃ b ∈ saves, b.HoldsAt m l

namespace Shared

variable {start m m' : Machine} {hand hand' other : Hand start.process}
  {saves saves' ended ended' : List Attempt} {l : Location} {name : String}

/-- Nobody has anything in hand in the beginning, if nothing is called like such a file. -/
theorem refl (hfree : ∀ l, start.OwnScratch l → start.tree.content? l = none) :
    Shared start start .empty .empty [] := by
  refine ⟨rfl, Nat.le_refl _, fun _ h => h, nofun, nofun, ?_, fun _ _ => .inl rfl, nofun, nofun⟩
  exact fun l hscratch hthere => absurd (hfree l hscratch) hthere

theorem symm (h : Shared start m hand other saves) : Shared start m other hand saves :=
  ⟨h.process, h.serial, h.directories, fun n hn => h.numbers n hn.symm,
    fun n hother hhand => h.apart n hhand hother,
    fun l hscratch hthere => (h.scratch l hscratch hthere).symm, h.places, h.foreign, h.targets⟩

/-- The order of the saves does not matter. -/
theorem perm (h : Shared start m hand other saves) (hsaves : saves.Perm saves') :
    Shared start m hand other saves' := by
  have hmem {a : Attempt} : a ∈ saves' ↔ a ∈ saves := hsaves.mem_iff.symm
  refine ⟨h.process, h.serial, h.directories, h.numbers, h.apart, h.scratch, ?_, ?_, ?_⟩
  · simpa only [hmem] using h.places
  · simpa only [hmem] using h.foreign
  · simpa only [hmem] using h.targets

theorem ownName (h : Shared start m hand other saves) (hname : hand.Names name) :
    start.OwnName name := by
  rcases hname with ⟨n, hn, hnumbered⟩
  exact ⟨n, (h.numbers n (.inl hn)).1, hnumbered⟩

theorem ownScratch (h : Shared start m hand other saves) (hat : hand.At m' l) :
    start.OwnScratch l := by
  rcases hat.exists_name with ⟨name, hlast, hname⟩
  exact ⟨name, hlast, h.ownName hname⟩

/-- What is in hand is no directory. -/
theorem plain (h : Shared start m hand other saves)
    (hfree : ∀ l, start.OwnScratch l → start.tree.content? l = none) (l : Location)
    (hat : hand.At m l) : m.tree.content? l ≠ some none := by
  intro hdirectory
  have hnone := hfree l (h.ownScratch hat)
  rw [h.directories l hdirectory] at hnone
  cases hnone

/-- One program does not touch what the other has in hand. -/
theorem apart_names (h : Shared start m hand other saves) (hother : other.Names name) :
    ¬ (hand.Names name ∨ ∃ path, start.Foreign path ∧ path.fileName? = some name) := by
  rintro (⟨n, hn, hnumbered⟩ | ⟨path, hforeign, hname⟩)
  · rcases hother with ⟨k, hk, hnumbered'⟩
    rw [hnumbered.unique hnumbered'] at hn
    exact h.apart k hn hk
  · exact hforeign name hname (h.symm.ownName hother)

/-- Where a save is found, the place is not called like a file that a program makes for itself. -/
theorem not_ownScratch {a b : Attempt} (hforeign : start.Foreign a.path)
    (hname : a.path.fileName? = some name) (hlocate : m.locate a.path = .ok l)
    (hholds : b.HoldsAt m l) : ¬ start.OwnScratch l := by
  rintro ⟨file, hlast, hown⟩
  have hfile : m.tree.content? l ≠ some none := by
    rw [hholds.content]
    simp
  rw [getLast?_of_fileName? hname hlocate hfile] at hlast
  cases hlast
  exact hforeign name hname hown

/-! ## After a step of one of them -/

section

variable (h : Shared start m hand other (saves ++ ended))
  (hdeed : Deed start.Foreign hand hand' ended ended' m m')

include h hdeed

theorem numbers_after (n : Nat) (hn : hand'.number = some n ∨ other.number = some n) :
    start.serial ≤ n ∧ n < m'.serial := by
  have hstart := h.serial
  have hserial := hdeed.serial
  rcases hn with hn | hn
  · rcases hdeed.number n hn with hold | ⟨hle, hlt⟩
    · have hbound := h.numbers n (.inl hold)
      omega
    · omega
  · have hbound := h.numbers n (.inr hn)
    omega

theorem apart_after (n : Nat) (hn : hand'.number = some n) : other.number ≠ some n := by
  intro hother
  rcases hdeed.number n hn with hold | ⟨hle, -⟩
  · exact h.apart n hold hother
  · have hbound := h.numbers n (.inr hother)
    omega

theorem ownScratch_after (hat : hand'.At m' l) : start.OwnScratch l := by
  rcases hat.exists_name with ⟨name, hlast, n, hn, hnumbered⟩
  exact ⟨name, hlast, n, (h.numbers_after hdeed n (.inl hn)).1, hnumbered⟩

theorem other_at_after (hat : other.At m l) : other.At m' l := by
  rcases hat with ⟨file, rfl, hlocate⟩
  have hother := h.apart_names (Hand.names_file file)
  exact ⟨file, rfl, (hdeed.differs.locate file.leadsTo hother hlocate).1⟩

theorem scratch_after (hown : start.OwnScratch l) (hthere : m'.tree.content? l ≠ none) :
    hand'.At m' l ∨ other.At m' l := by
  rcases hdeed.there l hthere with ⟨hsame, hnot⟩ | hat | ⟨a, name, -, hforeign, hname, hholds⟩
  · rw [hsame] at hthere
    rcases h.scratch l hown hthere with hat | hat
    · exact absurd hat hnot
    · exact .inr (h.other_at_after hdeed hat)
  · exact .inl hat
  · exact absurd hown (not_ownScratch hforeign hname hholds.located hholds)

/-- At any other place is what was there, or what has been saved. -/
theorem place_after (hl : ¬ start.OwnScratch l) : m'.tree.content? l = m.tree.content? l
    ∨ ∃ a ∈ saves ++ ended', a.HoldsAt m' l := by
  by_cases hthere : m'.tree.content? l = none
  · rcases hdeed.gone l hthere with hnone | ⟨name, hlast, hname⟩
    · exact .inl (hthere.trans hnone.symm)
    · exact absurd ⟨name, hlast, h.ownName hname⟩ hl
  · rcases hdeed.there l hthere with ⟨hsame, -⟩ | hat | ⟨a, name, heq, -, -, hholds⟩
    · exact .inl hsame
    · exact absurd (h.ownScratch_after hdeed hat) hl
    · exact .inr ⟨a, by rw [heq]; simp, hholds⟩

/-- Where a save was found, one is found still. -/
theorem saved_after {a : Attempt} (ha : a ∈ saves ++ ended) (hl : ¬ start.OwnScratch l)
    (hholds : a.HoldsAt m l) : ∃ b ∈ saves ++ ended', b.HoldsAt m' l := by
  rcases h.place_after hdeed hl with hsame | hsaved
  · have hcontent := hsame.trans hholds.content
    have hlocate := locate_of_keeps hholds.located hdeed.differs.workingDir hdeed.differs.keeps
      (by rw [hcontent]; exact nofun)
    exact ⟨a, hdeed.kept saves ha, hholds.succeeded, hlocate, hcontent⟩
  · exact hsaved

/-- A step of one of the programs. -/
theorem deed : Shared start m' hand' other (saves ++ ended') := by
  constructor
  case process => exact hdeed.process.trans h.process
  case serial => exact Nat.le_trans h.serial hdeed.serial
  case directories => exact fun l hl => h.directories l (hdeed.differs.adds l hl)
  case numbers => exact h.numbers_after hdeed
  case apart => exact h.apart_after hdeed
  case scratch => exact fun l => h.scratch_after hdeed
  case places =>
    intro l hl
    rcases h.place_after hdeed hl with hsame | hsaved
    · rcases h.places l hl with hstart | ⟨a, ha, hholds⟩
      · exact .inl (hsame.trans hstart)
      · exact .inr (h.saved_after hdeed ha hl hholds)
    · exact .inr hsaved
  case foreign =>
    intro a ha
    rcases hdeed.mem saves ha with hold | ⟨hforeign, -⟩
    · exact h.foreign a hold
    · exact hforeign
  case targets =>
    intro a ha hok
    rcases hdeed.mem saves ha with hold | ⟨-, hfound⟩
    · rcases h.targets a hold hok with ⟨name, l, hname, hlocate, b, hb, hholds⟩
      have hl := not_ownScratch (h.foreign a hold) hname hlocate hholds
      rcases h.saved_after hdeed hb hl hholds with ⟨c, hc, hholds'⟩
      have hlocate' := locate_of_keeps hlocate hdeed.differs.workingDir hdeed.differs.keeps
        (by rw [hholds'.content]; exact nofun)
      exact ⟨name, l, hname, hlocate', c, hc, hholds'⟩
    · rcases hfound hok with ⟨name, l, hname, hholds⟩
      exact ⟨name, l, hname, hholds.located, a, ha, hholds⟩

end

end Shared

end EvidenceTags
