import EvidenceTags.CommandLine.Program
import EvidenceTags.Proofs.ReplacedFile
import EvidenceTags.Proofs.SaveAndLoad
import EvidenceTags.Proofs.Wire.ReadLengths

/-!
# Migrating a file

The program migrates a file by reading it, bringing it to the current version, and replacing the
output by what it is written as. Whatever goes wrong, the output keeps its content if the program
fails.

If it ends well, the output is meant to be a canonical form of the input (`CanonicalForm`): it
decodes to the migrated snapshot, is written once more byte by byte when it is migrated again, and
is loaded like the input. It is one exactly if all sets of the migrated snapshot are packed by size
(`migrate_canonicalises`). They are if the input is a legacy file, but need not be if sets were read
from runs (`migrated_runs_not_canonical`).
-/

namespace EvidenceTags

namespace TroubledMachine

/-! ## Reading a snapshot -/

/-- What is read depends only on the tree and on where paths start. -/
theorem Becomes.read {t t' : TroubledMachine} (h : t.Becomes t.machine.tree t') (path : Path) :
    t'.machine.read path = t.machine.read path := by
  rw [Machine.read, Machine.locate, h.tree, h.follows.workingDir]
  rfl

/-- A snapshot is read only from a file that holds it. -/
theorem readSnapshot_cases (path : Path) (t : TroubledMachine) :
    ∃ result t', (readSnapshot path : StateM TroubledMachine _) t = (result, t')
      ∧ t.Becomes t.machine.tree t' ∧ ∀ stored, result = .ok stored →
        t.machine.Holds path stored := by
  have hbecomes : t.Becomes t.machine.tree (attempt .read (Host.read path) refuse t).2 :=
    becomes_of_looking (fun _ => rfl) (fun _ _ => rfl) t
  rcases attempt_cases .read (Host.read path) refuse t with heq | ⟨trouble, -, heq⟩
  · have hread : (Host.read path : StateM TroubledMachine _) t
        = (t.machine.read path, (attempt .read (Host.read path) refuse t).2) := by
      rw [heq]
      exact heq
    unfold readSnapshot
    rw [bind_troubled, hread]
    cases hcontent : t.machine.read path with
    | error e => exact ⟨_, _, rfl, hbecomes, nofun⟩
    | ok bytes => exact ⟨_, _, rfl, hbecomes, fun stored hstored => ⟨bytes, hcontent, hstored⟩⟩
  · have hread : (Host.read path : StateM TroubledMachine _) t
        = (.error trouble.error, (attempt .read (Host.read path) refuse t).2) := by
      rw [heq]
      exact heq
    unfold readSnapshot
    rw [bind_troubled, hread]
    exact ⟨_, _, rfl, hbecomes, nofun⟩

theorem currentSnapshot_cases (stored : StoredSnapshot) (last : ItemId) (t : TroubledMachine) :
    ∃ t', (currentSnapshot stored last : StateM TroubledMachine _) t = (stored.toCurrent last, t')
      ∧ t.Becomes t.machine.tree t' := by
  cases stored with
  | legacy legacy => exact ⟨_, rfl, ⟨rfl, rfl, Nat.le_refl _, rfl⟩, rfl⟩
  | current snapshot => exact ⟨t, rfl, .refl t, rfl⟩

end TroubledMachine

namespace CommandLine

open TroubledMachine Wire

variable {settings input output : Path} {last : ItemId}

/-! ## One migration -/

/-- How the program ends after it has tried to write the output. -/
def written (output : Path) : Except StoreError Unit → Outcome
  | .error error => .failed "Failed to write" output error
  | .ok () => .ok ""

theorem code_written {result : Except StoreError Unit} :
    (written output result).code = 0 ↔ result = .ok () := by
  cases result with
  | ok _ => exact ⟨fun _ => rfl, fun _ => rfl⟩
  | error e => exact ⟨nofun, nofun⟩

/-- The program fails and has changed nothing, or the input holds what it tries to write. -/
theorem migrate_cases (settings input output : Path) (last : ItemId) (t : TroubledMachine) :
    ∃ outcome t', (Command.run settings (.migrate input output last) : StateM TroubledMachine _) t
        = (outcome, t')
      ∧ (outcome.code ≠ 0 ∧ t.Becomes t.machine.tree t'
        ∨ ∃ stored ready result, t.machine.Holds input stored ∧ t.Becomes t.machine.tree ready
          ∧ ready.Replacement output (stored.toCurrent last).encode result t'
          ∧ outcome = written output result) := by
  rcases TroubledMachine.readSnapshot_cases input t with ⟨found, t₁, hread, h₁, hholds⟩
  simp only [Command.run, bind_troubled, hread]
  cases found with
  | error e => exact ⟨_, _, rfl, .inl ⟨by simp [Outcome.failed], h₁⟩⟩
  | ok stored =>
    rcases TroubledMachine.currentSnapshot_cases stored last t₁ with ⟨t₂, hcurrent, h₂⟩
    simp only [bind_troubled, hcurrent]
    have hready : t.Becomes t.machine.tree t₂ :=
      ⟨h₁.follows.trans h₂.follows, h₂.tree.trans h₁.tree⟩
    have hreplace := replacement_replaceFile output (stored.toCurrent last).encode t₂
    rcases hrun : (replaceFile output (stored.toCurrent last).encode : StateM TroubledMachine _) t₂
      with ⟨result, t'⟩
    rw [hrun] at hreplace
    refine ⟨written output result, t', ?_,
      .inr ⟨stored, t₂, result, hholds stored rfl, hready, hreplace, rfl⟩⟩
    cases result <;> rfl

/-- What is written is in the current version, so on a machine without further troubles, to migrate
it again is to write the same bytes. -/
theorem migrate_current {bytes : Bytes} {snapshot : Snapshot} {m : Machine}
    (hread : m.read input = .ok bytes)
    (hdecode : StoredSnapshot.decode bytes = .ok (.current snapshot))
    (settings output : Path) (last : ItemId) :
    (Command.run settings (.migrate input output last) : StateM Machine _) m
      = (written output ((replaceFile output snapshot.encode : StateM Machine _) m).1,
        ((replaceFile output snapshot.encode : StateM Machine _) m).2) := by
  have hsnapshot : (readSnapshot input : StateM Machine _) m = (.ok (.current snapshot), m) := by
    simp only [readSnapshot, Machine.bind_apply, Machine.read_apply, hread, Machine.pure_apply,
      hdecode]
  have hcurrent : (currentSnapshot (.current snapshot) last : StateM Machine _) m = (snapshot, m) :=
    rfl
  simp only [Command.run, Machine.bind_apply, hsnapshot, hcurrent]
  cases ((replaceFile output snapshot.encode : StateM Machine _) m).1 <;> rfl

/-! ## Canonical forms -/

/-- Bytes that stand for what was stored in the original ones. They decode to it, in the current
version. If they are migrated again, over whatever universe, the same bytes are written, wherever
that succeeds. And a store of the universe that ends with `last` gets the same snapshot from
both. -/
structure CanonicalForm (stored : StoredSnapshot) (last : ItemId) (original bytes : Bytes) :
    Prop where
  decodes : StoredSnapshot.decode bytes = .ok (.current (stored.toCurrent last))
  again : ∀ (settings input output : Path) (other : ItemId) (t : TroubledMachine),
    t.machine.read input = .ok bytes →
    ((Command.run settings (.migrate input output other) : StateM TroubledMachine _) t).1.code = 0 →
    ((Command.run settings (.migrate input output other)
      : StateM TroubledMachine _) t).2.machine.read output = .ok bytes
  accepted : ∀ (settings input output : Path) (other : ItemId) (m : Machine),
    m.read input = .ok bytes →
    (Command.run settings (.migrate input output other) : StateM Machine _) m
      = (written output ((replaceFile output bytes : StateM Machine _) m).1,
        ((replaceFile output bytes : StateM Machine _) m).2)
  loads : ∀ (s : Store) (m m' : Machine) (path path' : Path), s.lastId = last →
    m.read path = .ok original → m'.read path' = .ok bytes →
    ((s.loadFrom path : StateM Machine _) m).1.1 = .ok ()
      ∧ ((s.loadFrom path' : StateM Machine _) m').1.1 = .ok ()
      ∧ ((s.loadFrom path' : StateM Machine _) m').1.2.state.snapshot
        = ((s.loadFrom path : StateM Machine _) m).1.2.state.snapshot

/-- What was stored is written as a canonical form if and only if all its sets are packed by
size. -/
theorem canonicalForm_iff {original : Bytes} {stored : StoredSnapshot}
    (hstored : StoredSnapshot.decode original = .ok stored) (last : ItemId) :
    CanonicalForm stored last original (stored.toCurrent last).encode
      ↔ SetsFit (stored.toCurrent last).members := by
  have hlengths := StoredSnapshot.lengthsFit_of_decode hstored last
  rw [← Snapshot.decode_encode_iff hlengths]
  constructor
  · exact CanonicalForm.decodes
  · intro hdecodes
    constructor
    case decodes => exact hdecodes
    case again =>
      intro settings input output other t hread hcode
      rcases migrate_cases settings input output other t with
        ⟨outcome, t', hrun,
          ⟨hfailed, -⟩ | ⟨found, ready, result, hholds, hready, hreplace, houtcome⟩⟩
      · rw [hrun] at hcode
        exact absurd hcode hfailed
      · rw [hrun] at hcode ⊢
        rw [houtcome] at hcode
        -- the input is read as what was written, and that is in the current version
        rcases hholds with ⟨content, hcontent, hfound⟩
        rw [hread] at hcontent
        cases hcontent
        rw [hdecodes] at hfound
        cases hfound
        exact hreplace.read (code_written.1 hcode)
    case accepted =>
      intro settings input output other m hread
      exact migrate_current hread hdecodes settings output other
    case loads =>
      intro s m m' path path' hlast horiginal hbytes
      rcases Store.loadFrom_of_holds ⟨original, horiginal, hstored⟩ s with ⟨hok, hstate⟩
      rcases Store.loadFrom_of_holds ⟨_, hbytes, hdecodes⟩ s with ⟨hok', hstate'⟩
      refine ⟨hok, hok', ?_⟩
      rw [hstate, hstate', hlast]
      rfl

/-- If the program fails to migrate a file, the output holds what it held. If it ends well, the
input held a snapshot, and the output holds a canonical form of it, if and only if all sets of the
migrated snapshot are packed by size. -/
theorem migrate_canonicalises (settings input output : Path) (last : ItemId) (t : TroubledMachine) :
    let run := (Command.run settings (.migrate input output last) : StateM TroubledMachine _) t
    (run.1.code ≠ 0 →
        (run.2.machine.read output).toOption = (t.machine.read output).toOption)
      ∧ (run.1.code = 0 → ∃ original stored, t.machine.read input = .ok original
        ∧ StoredSnapshot.decode original = .ok stored
        ∧ run.2.machine.read output = .ok (stored.toCurrent last).encode
        ∧ (CanonicalForm stored last original (stored.toCurrent last).encode
          ↔ SetsFit (stored.toCurrent last).members)) := by
  intro run
  rcases migrate_cases settings input output last t with
    ⟨outcome, t', hrun,
      ⟨hfailed, hbecomes⟩ | ⟨stored, ready, result, hholds, hready, hreplace, houtcome⟩⟩
  · have hsame : t'.machine.read output = t.machine.read output := hbecomes.read output
    have heq : run = (outcome, t') := hrun
    rw [heq]
    refine ⟨fun _ => congrArg _ hsame, ?_⟩
    intro hcode
    exact absurd hcode hfailed
  · have hsame : ready.machine.read output = t.machine.read output := hready.read output
    have heq : run = (outcome, t') := hrun
    rw [heq, houtcome]
    constructor
    · intro hcode
      rw [← hsame]
      exact hreplace.unchanged fun hok => hcode (code_written.2 hok)
    · intro hcode
      rcases hholds with ⟨original, horiginal, hstored⟩
      exact ⟨original, stored, horiginal, hstored, hreplace.read (code_written.1 hcode),
        canonicalForm_iff hstored last⟩

/-- A legacy file with a byte too many is migrated in its place. -/
theorem migrate_canonicalises_sample :
    let legacy : LegacySnapshot :=
      ⟨.unset 2, [⟨[128]⟩, ⟨[]⟩], { Registry.empty with names := TagMap.ofList [(⟨0⟩, "a")] },
        [], 0⟩
    let machine : Machine :=
      ⟨⟨[([], ⟨none, 0⟩), (["s"], ⟨some (legacy.encode ++ [7]), 0⟩)]⟩, 0, [], ⟨"/"⟩, 1, 0, []⟩
    let run :=
      (Command.run ⟨"c"⟩ (.migrate ⟨"s"⟩ ⟨"s"⟩ 1) : StateM TroubledMachine _) (.ofMachine machine)
    ∃ bytes, run.2.machine.read ⟨"s"⟩ = .ok bytes
      ∧ CanonicalForm (.legacy legacy) 1 (legacy.encode ++ [7]) bytes := by
  intro legacy machine run
  have hmain := migrate_canonicalises ⟨"c"⟩ ⟨"s"⟩ ⟨"s"⟩ 1 (.ofMachine machine)
  have hrun :
      (Command.run ⟨"c"⟩ (.migrate ⟨"s"⟩ ⟨"s"⟩ 1) : StateM TroubledMachine _) (.ofMachine machine)
    = run := rfl
  have hcode : run.1.code = 0 := by decide +kernel
  have hread : machine.read ⟨"s"⟩ = .ok (legacy.encode ++ [7]) := by decide +kernel
  have hdecode : StoredSnapshot.decode (legacy.encode ++ [7]) = .ok (.legacy legacy) := by
    decide +kernel
  -- the run has been computed, and the rest does not depend on how
  rw [hrun] at hmain
  clear_value run
  rcases hmain.2 hcode with ⟨original, stored, horiginal, hstored, hbytes, hform⟩
  have hsame : original = legacy.encode ++ [7] := Except.ok.inj (horiginal.symm.trans hread)
  rw [hsame] at hstored hform
  have hlegacy : stored = .legacy legacy := Except.ok.inj (hstored.symm.trans hdecode)
  rw [hlegacy] at hbytes hform
  exact ⟨_, hbytes, hform.2 (legacy.setsFit_migrate 1)⟩

/-- A set that is one run of more items than a block may list is written as a list, and the output
does not hold what the input was migrated to. -/
theorem migrated_runs_not_canonical :
    let machine : Machine :=
      ⟨⟨[([], ⟨none, 0⟩), (["s"], ⟨some Store.runFile, 0⟩)]⟩, 0, [], ⟨"/"⟩, 1, 0, []⟩
    let run := (Command.run ⟨"c"⟩ (.migrate ⟨"s"⟩ ⟨"o"⟩ 9000) : StateM TroubledMachine _)
      (.ofMachine machine)
    run.1.code = 0 ∧ ∃ stored, machine.Holds ⟨"s"⟩ stored
      ∧ ¬ run.2.machine.Holds ⟨"o"⟩ (.current (stored.toCurrent 9000)) := by
  intro machine run
  have hmain := migrate_canonicalises ⟨"c"⟩ ⟨"s"⟩ ⟨"o"⟩ 9000 (.ofMachine machine)
  have hrun : (Command.run ⟨"c"⟩ (.migrate ⟨"s"⟩ ⟨"o"⟩ 9000) : StateM TroubledMachine _)
    (.ofMachine machine) = run := rfl
  have hcode : run.1.code = 0 := by decide +kernel
  have hread : machine.read ⟨"s"⟩ = .ok Store.runFile := by decide +kernel
  have hsets : ((StoredSnapshot.decode Store.runFile).toOption.map fun stored =>
      decide (SetsFit (stored.toCurrent 9000).members)) = some false := by
    decide +kernel
  rw [hrun] at hmain
  clear_value run
  rcases hmain.2 hcode with ⟨original, stored, horiginal, hstored, hbytes, -⟩
  refine ⟨hcode, stored, ⟨original, horiginal, hstored⟩, ?_⟩
  have hsame : original = Store.runFile := Except.ok.inj (horiginal.symm.trans hread)
  rw [hsame] at hstored
  have hnot : ¬ SetsFit (stored.toCurrent 9000).members := by
    rw [hstored] at hsets
    exact of_decide_eq_false (Option.some.inj hsets)
  rintro ⟨content, hcontent, hdecode⟩
  rw [hbytes] at hcontent
  cases hcontent
  have hlengths := StoredSnapshot.lengthsFit_of_decode hstored 9000
  exact hnot ((Snapshot.decode_encode_iff hlengths).1 hdecode)

end CommandLine

end EvidenceTags
