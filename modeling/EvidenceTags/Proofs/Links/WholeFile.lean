import EvidenceTags.Proofs.Calls.Stages
import EvidenceTags.Proofs.Links.ScratchFile
import EvidenceTags.Proofs.ScratchFiles

/-!
# Replacing a file where there are links

Whatever fails, and wherever the program is stopped that replaces a file, the path leads to what it
led to before or to the new content as a whole, if the file and the scratch file have nothing to do
with each other. What each call does to the scratch file is known, so
`LinkedMachine.replaceFile_whole` follows stage by stage.

Where the two have to do with each other, a part of the new content may be found under the path, or
nothing though the program has succeeded (`LinkedMachine.replaceFile_not_whole`).
-/

namespace EvidenceTags

/-! ## Stages -/

namespace Replacing

open LinkedMachine

variable {r : Replacing} {fails : Request → Prop} {m m' m₀ : LinkedMachine} {stage stage' : Stage}

/-- What the name of the scratch file stands for, if it stood for nothing at first. -/
def Tidy (r : Replacing) (m : LinkedMachine) : Stage → Prop
  | .making | .failed _ | .replaced => m.named? r.scratch = none
  | .cleaning _ => m.named? r.scratch ≠ some .directory
  | .filling _ _ | .syncing | .moving => True

/-- What holds on the way from the making of the scratch file. -/
structure Since (r : Replacing) (fails : Request → Prop) (m₀ m : LinkedMachine) (stage : Stage) :
    Prop where
  ready : r.Ready m.held stage
  alike : stage ≠ .replaced → AlikeBut r.scratch m₀ m
  tidy : ¬ fails (.remove r.scratch) → m₀.named? r.scratch = none → r.Tidy m stage

/-- After a failure there is no directory under the name of the scratch file. -/
theorem tidy_cleaning (halike : AlikeBut r.scratch m₀ m) (hapart : m₀.Apart r.path r.scratch)
    {bytes : Wire.Bytes} (hheld : m.held r.scratch = some (some bytes)) (error : StoreError) :
    r.Tidy m (.cleaning error) := by
  rcases halike.file hapart hheld with ⟨s, number, -, hs, hnumber, -⟩
  show m.named? r.scratch ≠ some .directory
  rw [named?_of_leads hs, hnumber]
  exact nofun

theorem Advances.since (h : r.Advances fails stage m stage' m') (hapart : m₀.Apart r.path r.scratch)
    (hsince : r.Since fails m₀ m stage) : r.Since fails m₀ m' stage' := by
  cases h with
  | made h =>
    rcases (hsince.alike nofun).create hapart h with ⟨halike, hheld⟩
    exact ⟨⟨hheld, rfl⟩, fun _ => halike, fun _ _ => trivial⟩
  | notMade error =>
    refine ⟨trivial, fun _ => hsince.alike nofun, ?_⟩
    intro hremoves hnone
    have hnone' : m.named? r.scratch = none := hsince.tidy hremoves hnone
    show m.named? r.scratch ≠ some .directory
    rw [hnone']
    exact nofun
  | wrote written rest count h =>
    rcases (hsince.alike nofun).append hapart hsince.ready.1 h with ⟨halike, hheld⟩
    refine ⟨⟨hheld, ?_⟩, fun _ => halike, fun _ _ => trivial⟩
    rw [List.append_assoc, List.take_append_drop]
    exact hsince.ready.2
  | filled written rest h =>
    rcases (hsince.alike nofun).append hapart hsince.ready.1 h with ⟨halike, hheld⟩
    rw [hsince.ready.2] at hheld
    exact ⟨hheld, fun _ => halike, fun _ _ => trivial⟩
  | notFilled written rest error =>
    have halike := hsince.alike nofun
    exact ⟨trivial, fun _ => halike, fun _ _ => tidy_cleaning halike hapart hsince.ready.1 _⟩
  | synced h =>
    cases h
    exact ⟨hsince.ready, fun _ => hsince.alike nofun, fun _ _ => trivial⟩
  | notSynced error | notMoved error =>
    have halike := hsince.alike nofun
    exact ⟨trivial, fun _ => halike, fun _ _ => tidy_cleaning halike hapart hsince.ready _⟩
  | moved h =>
    have halike := hsince.alike nofun
    rcases halike.rename hapart hsince.ready h with ⟨s, g, number, hmoved, hs, hbytes, hfree⟩
    have hheld := halike.held_goal hmoved hfree
    rw [hbytes] at hheld
    exact ⟨hheld, fun hnot => absurd rfl hnot, fun _ _ => hmoved.named? hs⟩
  | cleaned error h =>
    rcases (hsince.alike nofun).remove hapart h with ⟨halike, hnone⟩
    exact ⟨trivial, fun _ => halike, fun _ _ => hnone⟩
  | notCleaned _ error hwhy =>
    refine ⟨trivial, fun _ => hsince.alike nofun, ?_⟩
    intro hremoves hnone
    have hfile : m.named? r.scratch ≠ some .directory := hsince.tidy hremoves hnone
    show m.named? r.scratch = none
    rcases hwhy with hfails | ⟨e, hrefused⟩
    · exact absurd hfails hremoves
    · cases hnamed : m.named? r.scratch with
      | none => rfl
      | some node =>
        have hnode : node ≠ .directory := by
          rintro rfl
          exact hfile hnamed
        rcases exists_remove_of_named? hnamed hnode with ⟨m', hgone⟩
        rw [hrefused] at hgone
        cases hgone

theorem since_of_reaches {c : Program (Except StoreError Unit) × LinkedMachine}
    (hapart : m₀.Apart r.path r.scratch) (h : Program.Reaches fails (r.program .making, m₀) c) :
    ∃ stage, c.1 = r.program stage ∧ r.Since fails m₀ c.2 stage := by
  induction h with
  | refl =>
    have halike : AlikeBut r.scratch m₀ m₀ := ⟨rfl, .refl _ _⟩
    exact ⟨.making, rfl, trivial, fun _ => halike, fun _ hnone => hnone⟩
  | tail _ hstep ih =>
    rcases ih with ⟨stage, hprogram, hsince⟩
    rw [hprogram] at hstep
    rcases advances_of_step hstep with ⟨stage', hprogram', hadvances⟩
    exact ⟨stage', hprogram', hadvances.since hapart hsince⟩

end Replacing

/-! ## Runs -/

namespace LinkedMachine

/-- What is found at any moment while a file is replaced. -/
structure WholeFile (fails : Request → Prop) (path : Path) (bytes : Wire.Bytes)
    (m₀ : LinkedMachine) (p : Program (Except StoreError Unit)) (m : LinkedMachine) : Prop where
  /-- The path leads to what it led to before, or to the new content. -/
  whole : m.held path = m₀.held path ∨ m.held path = some (some bytes)
  succeeded : p = .done (.ok ()) → m.held path = some (some bytes)
  failed : ∀ error, p = .done (.error error) → m.held path = m₀.held path
  /-- At the end there is no scratch file, if nothing had its name and it could be removed. -/
  tidy : ∀ name scratch answer, path.fileName? = some name → scratch = path.scratch name m₀.mark →
    m₀.named? scratch = none → ¬ fails (.remove scratch) → p = .done answer →
    m.named? scratch = none

end LinkedMachine

open LinkedMachine in
/-- The mark of the scratch file has been taken from the machine, which is no change of its
files. -/
theorem Replacing.Since.whole {r : Replacing} {fails : Request → Prop} {m₀ m₁ m : LinkedMachine}
    {stage : Stage} (h : r.Since fails m₁ m stage) (hapart : m₁.Apart r.path r.scratch)
    (hmark : r.mark = m₀.mark) (hheld : ∀ path, m₁.held path = m₀.held path)
    (hnamed : ∀ path, m₁.named? path = m₀.named? path) :
    WholeFile fails r.path r.bytes m₀ (r.program stage) m := by
  have hkept (hnot : stage ≠ .replaced) : m.held r.path = m₀.held r.path :=
    ((h.alike hnot).held hapart).trans (hheld r.path)
  constructor
  case whole =>
    by_cases hstage : stage = .replaced
    · rw [hstage] at h
      exact .inr h.ready
    · exact .inl (hkept hstage)
  case succeeded =>
    intro hdone
    rcases stage_of_done hdone with ⟨rfl, -⟩ | ⟨error, -, heq⟩
    · exact h.ready
    · cases heq
  case failed =>
    intro error hdone
    rcases stage_of_done hdone with ⟨-, heq⟩ | ⟨error', rfl, -⟩
    · cases heq
    · exact hkept nofun
  case tidy =>
    rintro name scratch answer hname rfl hnone hremoves hdone
    have hscratch : r.scratch = r.path.scratch name m₀.mark := by
      rw [r.named] at hname
      cases hname
      rw [Replacing.scratch, hmark]
    rw [← hscratch] at hnone hremoves ⊢
    rw [← hnamed] at hnone
    have htidy := h.tidy hremoves hnone
    rcases stage_of_done hdone with ⟨rfl, -⟩ | ⟨error, rfl, -⟩
    · exact htidy
    · exact htidy

namespace LinkedMachine

variable {fails : Request → Prop} {path : Path} {bytes : Wire.Bytes} {m₀ m : LinkedMachine}
  {p : Program (Except StoreError Unit)}

theorem notMem_mark (m : LinkedMachine) : '/' ∉ m.mark.toList :=
  (Machine.isMark_numbers m.process m.serial).notMem (by decide) (by decide)

/-- Wherever the replacing of a file is stopped, and whatever fails on the way, the path leads to
what it led to before or to the new content as a whole, if the file and the scratch file are
apart. -/
theorem replaceFile_whole
    (hapart : ∀ name, path.fileName? = some name → m₀.Apart path (path.scratch name m₀.mark))
    (h : Program.Reaches fails (replaceFile path bytes, m₀) (p, m)) :
    WholeFile fails path bytes m₀ p m := by
  cases hname : path.fileName? with
  | none =>
    rw [Replacing.replaceFile_of_unnamed hname] at h
    rcases Relation.ReflTransGen.cases_head h with heq | ⟨c, hstep, -⟩
    · cases heq
      refine ⟨.inl rfl, nofun, fun _ _ => rfl, ?_⟩
      intro name scratch answer hname'
      rw [hname] at hname'
      cases hname'
    · cases hstep
  | some name =>
    rw [Replacing.replaceFile_eq hname] at h
    rcases Relation.ReflTransGen.cases_head h with heq | ⟨⟨q, m₁⟩, hstep, hrest⟩
    · cases heq
      refine ⟨.inl rfl, nofun, fun _ hdone => ?_, fun _ _ _ _ _ _ _ hdone => ?_⟩
      · cases hdone
      · cases hdone
    · -- the first step takes the mark
      let r : Replacing := ⟨path, bytes, name, m₀.mark, hname, m₀.notMem_mark⟩
      rcases Program.step_mark hstep with ⟨hq, hm₁⟩
      have hq : q = r.program .making := hq
      have hm₁ : m₁ = { m₀ with serial := m₀.serial + 1 } := hm₁
      have hapart₀ := hapart name hname
      have hapart₁ : m₁.Apart r.path r.scratch := by
        rw [hm₁]
        exact ⟨hapart₀.plain, hapart₀.apart, hapart₀.free⟩
      rw [hq] at hrest
      rcases Replacing.since_of_reaches hapart₁ hrest with ⟨stage, hprogram, hsince⟩
      have hprogram : p = r.program stage := hprogram
      rw [hprogram]
      refine hsince.whole hapart₁ rfl ?_ ?_
      · rw [hm₁]
        exact fun _ => rfl
      · rw [hm₁]
        exact fun _ => rfl

/-- If the file is found by a name that is no link, and nothing has the name of the scratch file,
they are apart. -/
theorem apart_of_found {scratch : Path} (hfound : m₀.held path ≠ none)
    (hplain : ∀ goal, m₀.named? path ≠ some (.link goal)) (hnone : m₀.named? scratch = none) :
    m₀.Apart path scratch := by
  constructor
  case plain =>
    intro goal
    rw [hnone]
    exact nofun
  case apart =>
    intro l s hl hs hsame
    rw [held_of_leads hl] at hfound
    rw [named?_of_leads hs] at hnone
    rcases hsame with ⟨rfl, -⟩ | ⟨number, -, hnumber⟩
    · exact hfound (LinkedTree.content?_of_none hnone)
    · rw [hnone] at hnumber
      cases hnumber
  case free =>
    intro l goal hl hlink
    rw [← named?_of_leads hl] at hlink
    exact absurd hlink (hplain goal)

/-- A machine with these names, where every file holds the same. -/
def ofNames (content : Wire.Bytes) (nodes : List (Location × Node)) : LinkedMachine :=
  ⟨⟨nodes, fun _ => ⟨content, 0⟩, fun _ => 0⟩, 0, [], ⟨"/"⟩, 1, 0, []⟩

/-- A part of the new content has been written when the machine stops. The way to the file leads
over a link, and the file has two names. -/
theorem replaceFile_whole_sample :
    let m₀ := ofNames [9]
      [([], .directory), (["d"], .directory), (["l"], .link ⟨"d"⟩), (["d", "f"], .file 0),
        (["e"], .file 0)]
    (∀ name, (⟨"l/f"⟩ : Path).fileName? = some name →
        m₀.Apart ⟨"l/f"⟩ (Path.scratch ⟨"l/f"⟩ name m₀.mark))
      ∧ ∃ p m, Program.Reaches (fun _ => True) (replaceFile ⟨"l/f"⟩ [1, 2], m₀) (p, m)
        ∧ m.held ⟨"d/.f.1-0.tmp"⟩ = some (some [1]) ∧ m.held ⟨"e"⟩ = some (some [9])
        ∧ WholeFile (fun _ => True) ⟨"l/f"⟩ [1, 2] m₀ p m := by
  intro m₀
  have hname : (⟨"l/f"⟩ : Path).fileName? = some "f" := by decide +kernel
  have hapart : ∀ name, (⟨"l/f"⟩ : Path).fileName? = some name →
      m₀.Apart ⟨"l/f"⟩ (Path.scratch ⟨"l/f"⟩ name m₀.mark) := by
    intro name hname'
    rw [hname] at hname'
    cases hname'
    have hfound : m₀.held ⟨"l/f"⟩ ≠ none := by decide +kernel
    have hnamed : m₀.named? ⟨"l/f"⟩ = some (.file 0) := by decide +kernel
    have hnone : m₀.named? (Path.scratch ⟨"l/f"⟩ "f" m₀.mark) = none := by decide +kernel
    have hplain : ∀ goal, m₀.named? ⟨"l/f"⟩ ≠ some (.link goal) := by
      rw [hnamed]
      exact nofun
    exact apart_of_found hfound hplain hnone
  let r : Replacing := ⟨⟨"l/f"⟩, [1, 2], "f", "1-0", by decide +kernel, by decide +kernel⟩
  have hmark : r.mark = m₀.mark := by decide +kernel
  have hmade : (r.made m₀).1 = .ok () := by decide +kernel
  have hwritten : ((Host.append r.scratch ([1, 2].take 1) : StateM LinkedMachine _) (r.made m₀).2).1
      = .ok () := by decide +kernel
  have hfilling : Program.Reaches (fun _ => True) (replaceFile ⟨"l/f"⟩ [1, 2], m₀)
      (r.program (.filling [] [1, 2]), (r.made m₀).2) := r.reaches_filling hmark hmade
  have hreaches := Replacing.reaches_part 1 hfilling hwritten
  have hpart :
      ((Host.append r.scratch ([1, 2].take 1) : StateM LinkedMachine _) (r.made m₀).2).2.held
      ⟨"d/.f.1-0.tmp"⟩ = some (some [1]) := by decide +kernel
  have hother :
      ((Host.append r.scratch ([1, 2].take 1) : StateM LinkedMachine _) (r.made m₀).2).2.held
      ⟨"e"⟩ = some (some [9]) := by decide +kernel
  exact ⟨hapart, _, _, hreaches, hpart, hother, replaceFile_whole hapart hreaches⟩

/-- Once the scratch file is there, nothing but an empty file is found under the path. -/
theorem not_whole_of_made (r : Replacing) (hmark : r.mark = m₀.mark)
    (hmade : (r.made m₀).1 = .ok ())
    (hbytes : r.bytes ≠ []) (hbefore : m₀.held r.path ≠ some (some []))
    (hafter : (r.made m₀).2.held r.path = some (some [])) :
    ∃ p m, Program.Reaches fails (replaceFile r.path r.bytes, m₀) (p, m)
      ∧ m.held r.path = some (some []) ∧ ¬ WholeFile fails r.path r.bytes m₀ p m := by
  refine ⟨_, _, r.reaches_filling hmark hmade, hafter, ?_⟩
  intro hwhole
  rcases hwhole.whole with hold | hnew
  · exact hbefore (hold.symm.trans hafter)
  · rw [hafter] at hnew
    exact hbytes (Option.some.inj (Option.some.inj hnew)).symm

/-- Where the conditions fail, the file is not replaced as a whole.

If the name of the scratch file is that of a symbolic link to the file, or a second name of it, or
the file is a link to where the scratch file is still to be made, then the path leads to an empty
file as soon as the scratch file is there. In the first two cases it does so also after a failure.

If the way to the file leads over a link of its name, then the link is replaced and the way is gone,
though the program has succeeded. -/
theorem replaceFile_not_whole :
    let linked := ofNames [9] [([], .directory), (["f"], .file 0), ([".f.1-0.tmp"], .link ⟨"f"⟩)]
    let shared := ofNames [9] [([], .directory), (["f"], .file 0), ([".f.1-0.tmp"], .file 0)]
    let dangling := ofNames [9] [([], .directory), (["f"], .link ⟨".f.1-0.tmp"⟩)]
    let crossed := ofNames [9] [([], .directory), (["d"], .directory), (["f"], .link ⟨"d"⟩)]
    (∀ m₀ ∈ [linked, shared, dangling],
      ∃ p m, Program.Reaches (fun _ => True) (replaceFile ⟨"f"⟩ [1, 2], m₀) (p, m)
        ∧ m.held ⟨"f"⟩ = some (some []) ∧ ¬ WholeFile (fun _ => True) ⟨"f"⟩ [1, 2] m₀ p m)
    ∧ (∀ m₀ ∈ [linked, shared],
      ∃ m error,
        Program.Reaches (fun _ => True) (replaceFile ⟨"f"⟩ [1, 2], m₀) (.done (.error error), m)
        ∧ m₀.held ⟨"f"⟩ = some (some [9]) ∧ m.held ⟨"f"⟩ = some (some []))
    ∧ ∃ m, Program.Reaches (fun _ => True) (replaceFile ⟨"f/../f"⟩ [1, 2], crossed)
      (.done (.ok ()), m)
        ∧ m.held ⟨"f/../f"⟩ = none := by
  intro linked shared dangling crossed
  let r : Replacing := ⟨⟨"f"⟩, [1, 2], "f", "1-0", by decide +kernel, by decide +kernel⟩
  have hmark : ∀ m₀ ∈ [linked, shared, dangling], r.mark = m₀.mark := by decide +kernel
  have hmade : ∀ m₀ ∈ [linked, shared, dangling], (r.made m₀).1 = .ok () := by decide +kernel
  have hbefore : ∀ m₀ ∈ [linked, shared, dangling], m₀.held r.path ≠ some (some []) := by
    decide +kernel
  have hafter : ∀ m₀ ∈ [linked, shared, dangling], (r.made m₀).2.held r.path = some (some []) := by
    decide +kernel
  have hgone : ∀ m₀ ∈ [linked, shared], m₀.held ⟨"f"⟩ = some (some [9])
      ∧ ((Host.remove r.scratch : StateM LinkedMachine _) (r.made m₀).2).2.held ⟨"f"⟩
        = some (some []) := by decide +kernel
  have hrun : ((replaceFile ⟨"f/../f"⟩ [1, 2] : StateM LinkedMachine _) crossed).1 = .ok ()
      ∧ ((replaceFile ⟨"f/../f"⟩ [1, 2] : StateM LinkedMachine _) crossed).2.held ⟨"f/../f"⟩
        = none := by decide +kernel
  have hbytes : r.bytes ≠ [] := List.cons_ne_nil 1 [2]
  have hreaches : Program.Reaches (fun _ => True) (replaceFile ⟨"f/../f"⟩ [1, 2], crossed) _ :=
    Program.reaches_run (replaceFile ⟨"f/../f"⟩ [1, 2]) crossed
  rw [Replacing.run_replaceFile, hrun.1] at hreaches
  refine ⟨fun m₀ hm₀ => ?_, fun m₀ hm₀ => ?_, _, hreaches, hrun.2⟩
  · exact not_whole_of_made r (hmark m₀ hm₀) (hmade m₀ hm₀) hbytes (hbefore m₀ hm₀) (hafter m₀ hm₀)
  · have hm₀' : m₀ ∈ [linked, shared, dangling] := List.mem_append_left [dangling] hm₀
    have hfilling : Program.Reaches (fun _ => True) (replaceFile ⟨"f"⟩ [1, 2], m₀)
        (r.program (.filling [] [1, 2]), (r.made m₀).2) :=
      r.reaches_filling (hmark m₀ hm₀') (hmade m₀ hm₀')
    exact ⟨_, _, Replacing.reaches_failed hfilling trivial .notFound, hgone m₀ hm₀⟩

end LinkedMachine

end EvidenceTags
