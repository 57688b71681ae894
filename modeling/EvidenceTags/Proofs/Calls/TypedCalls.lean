import EvidenceTags.Proofs.Calls.Saving
import EvidenceTags.Proofs.PackedBySize
import EvidenceTags.Proofs.TypedWords

/-!
# Calls of a client that types words

Of the calls that neither load nor save, only that which passes a new word goes on to save. What
such a call returns is `Returned`: the words are remembered as they should be, and whatever has been
saved or is to be saved is the snapshot of the state that is returned. Where saves are made at once,
the call is a program that saves once, and else it only probes (`Store.calling_record`).
-/

namespace EvidenceTags

open Machine

/-- The texts that an operation of a store passes to be remembered. -/
def StoreOp.typed : StoreOp → List String
  | .state op => op.typed
  | _ => []

/-- An operation that neither loads nor saves. -/
inductive StoreOp.Plain : StoreOp → Prop
  | state (op : Operation) (h : ∀ snapshot, op ≠ .restore snapshot) : Plain (.state op)
  | refreshCookie : Plain .refreshCookie
  | flush : Plain .flush

namespace Store

/-- The sets of a store can be read back when they have been saved, and its paths are those of
targets. -/
structure Fit (s : Store) : Prop where
  packed : s.state.PackedBySize
  stateFile : s.stateFile.IsTarget
  cookie : s.cookie.IsTarget

/-- The queue is no part of it. -/
theorem Fit.withQueue {s : Store} (h : s.Fit) (queue : SaveQueue) : Fit { s with queue } :=
  ⟨h.packed, h.stateFile, h.cookie⟩

/-- What a call returns that has been given a state and some texts, after these saves have ended. -/
structure Returned (state : CaseState) (sync : Bool) (typed : List String) (saves : List Attempt)
    (answer : List Attempt × Store) : Prop where
  tried : answer.1 = saves
  fit : answer.2.Fit
  syncSave : answer.2.syncSave = sync
  firstUse : ∀ passed, FirstUse passed state.typedWords →
    FirstUse (passed ++ typed) answer.2.state.typedWords
  /-- What has been saved or is to be saved is the new state, into a target. -/
  saved : ∀ job ∈ saves.map Attempt.toSaveJob ++ answer.2.queue.pending.toList,
    job.path.IsTarget ∧ job.snapshot = answer.2.state.snapshot
  /-- If there are new words, they have been saved or are to be saved. -/
  unsaved : saves.map Attempt.toSaveJob ++ answer.2.queue.pending.toList = [] →
    answer.2.state.typedWords = state.typedWords
  atOnce : sync = true → answer.2.queue.pending = none

/-- How far a call has got, and which saves have ended. -/
inductive Calling (state : CaseState) (typed : List String) (m : Machine) :
    Bool → Program (List Attempt × Store) → List Attempt → Prop
  | atOnce {p : Program (List Attempt × Store)} {saves : List Attempt}
      (h : Saving (Returned state true typed) p m saves) : Calling state typed m true p saves
  | handed {p : Program (List Attempt × Store)} (h : p.Quiet (Returned state false typed [])) :
      Calling state typed m false p []

variable {s : Store} {state : CaseState} {typed : List String} {m m' : Machine} {sync : Bool}
  {p p' : Program (List Attempt × Store)} {saves : List Attempt} {answer : List Attempt × Store}

/-- A step of a call. One that hands its snapshot to the worker only probes, whatever becomes of the
machine. -/
theorem Calling.step {fails : Request → Prop} (h : Calling state typed m sync p saves)
    (hstep : Program.Step fails p m p' m') :
    ∃ saves', Calling state typed m' sync p' saves' ∧ Lands m m' saves saves'
      ∧ (sync = false → m.DiffersAt ProbeNamed m') := by
  cases h with
  | atOnce h =>
    rcases h.step hstep with ⟨saves', h, hlands⟩
    exact ⟨saves', .atOnce h, hlands, nofun⟩
  | handed h =>
    rcases h.step hstep with ⟨h, hprobed⟩
    exact ⟨[], .handed h, .probed hprobed, fun _ => hprobed⟩

theorem Calling.of_handed (h : Calling state typed m false p saves) (m' : Machine) :
    saves = [] ∧ Calling state typed m' false p saves := by
  cases h with
  | handed h => exact ⟨rfl, .handed h⟩

theorem Calling.of_done (h : Calling state typed m sync (.done answer) saves) :
    Returned state sync typed saves answer := by
  cases h with
  | atOnce h => exact h.of_done
  | handed h => exact h

/-- A call that only probes does so on any machine. -/
theorem calling_of_quiet (h : p.Quiet (Returned state sync typed [])) :
    Calling state typed m sync p [] := by
  cases sync with
  | true => exact .atOnce (.after h)
  | false => exact .handed h

/-! ## Saving new words -/

section

variable (h : s.Fit)
  (hfirst : ∀ passed, FirstUse passed state.typedWords →
    FirstUse (passed ++ typed) s.state.typedWords)

include h

theorem Fit.quiet_saveTarget :
    (saveTarget s.stateFile s.cookie : Program Path).Quiet Path.IsTarget := by
  refine (Program.quiet_saveTarget s.stateFile s.cookie).mono ?_
  rintro path (rfl | rfl)
  · exact h.stateFile
  · exact h.cookie

include hfirst

/-- The snapshot is handed to the worker, to go into a target. -/
theorem quiet_recordSave (hsync : s.syncSave = false) :
    (s.recordSave false : Program _).Quiet (Returned state false typed []) := by
  unfold recordSave
  apply Program.quiet_bind h.quiet_saveTarget
  intro path htarget
  have hlater : (false || s.syncSave) = false := by rw [hsync, Bool.false_or]
  rw [hlater]
  apply Program.quiet_bind (Program.inherited_quiet.log _)
  intro _ _
  refine ⟨rfl, h.withQueue _, hsync, hfirst, ?_, nofun, nofun⟩
  intro job hjob
  rw [List.mem_singleton.1 hjob]
  exact ⟨htarget, rfl⟩

/-- How a save has ended is logged and told. -/
def tellSaved (s : Store) (job : SaveJob) (result : Except StoreError Unit) :
    Program (List Attempt × Store) := do
  match result with
  | .error error => Host.log (.saveFailed job.path error)
  | .ok () => pure ()
  pure ([⟨job, result⟩], s)

omit h hfirst in
theorem recordSave_eq (hsync : (sync || s.syncSave) = true) :
    (s.recordSave sync : Program _) = (saveTarget s.stateFile s.cookie >>= fun path =>
      Host.log (.saving true path) >>= fun _ => pure ⟨s.state.snapshot, path⟩) >>= fun job =>
        SaveQueue.write job >>= s.tellSaved job := by
  unfold recordSave saveTo
  rw [hsync, Program.bind_assoc]
  refine bind_congr fun path => ?_
  rw [Program.bind_assoc, Program.bind_assoc]
  refine bind_congr fun _ => ?_
  show (replaceFile path s.state.snapshot.encode >>= fun result => pure (result, s)) >>= _ = _
  rw [Program.bind_assoc]
  refine bind_congr fun result => ?_
  cases result <;> rfl

/-- The snapshot is saved at once, into a target. -/
theorem saving_recordSave (hsync : s.syncSave = true) (hqueue : s.queue = .empty) (m : Machine) :
    Saving (Returned state true typed) (s.recordSave false) m [] := by
  rw [recordSave_eq (by rw [hsync, Bool.or_true])]
  apply Saving.before
  apply Program.quiet_bind h.quiet_saveTarget
  intro path htarget
  apply Program.quiet_bind (Program.inherited_quiet.log _)
  intro _ _
  refine ⟨htarget, ?_⟩
  intro result
  have hreturned : Returned state true typed [⟨⟨s.state.snapshot, path⟩, result⟩]
      ([⟨⟨s.state.snapshot, path⟩, result⟩], s) := by
    have hpending : s.queue.pending = none := by rw [hqueue, SaveQueue.empty]
    refine ⟨rfl, h, hsync, hfirst, ?_, nofun, fun _ => hpending⟩
    intro job hjob
    rw [hpending] at hjob
    rw [List.mem_singleton.1 hjob]
    exact ⟨htarget, rfl⟩
  cases result with
  | error e => exact Program.quiet_bind (Program.inherited_quiet.log _) fun _ _ => hreturned
  | ok _ => exact hreturned

theorem calling_recordSave (hqueue : s.queue = .empty) (m : Machine) :
    Calling state typed m s.syncSave (s.recordSave false) [] := by
  cases hsync : s.syncSave with
  | true => exact .atOnce (saving_recordSave h hfirst hsync hqueue m)
  | false => exact .handed (quiet_recordSave h hfirst hsync)

/-- Nothing is saved if there are no new words. -/
theorem returned_unsaved (hqueue : s.queue = .empty)
    (hwords : s.state.typedWords = state.typedWords) :
    Returned state s.syncSave typed [] ([], s) := by
  have hpending : s.queue.pending = none := by rw [hqueue, SaveQueue.empty]
  refine ⟨rfl, h, rfl, hfirst, ?_, fun _ => hwords, fun _ => hpending⟩
  intro job hjob
  rw [hpending] at hjob
  cases hjob

end

/-! ## Calls -/

/-- A text is passed to be remembered. -/
theorem calling_recordTypedWord (h : s.Fit) (hqueue : s.queue = .empty) (word : String)
    (m : Machine) :
    Calling s.state [word] m s.syncSave (s.recordTypedWord word) [] := by
  have hfirst (passed : List String) (hpassed : FirstUse passed s.state.typedWords) :=
    CaseState.firstUse_addTypedWord hpassed word
  have hpacked : (s.state.addTypedWord word).2.PackedBySize :=
    @CaseState.packed_perform s.state h.packed s.domain (.addTypedWord word) nofun
  have hold := @CaseState.addTypedWord_of_not_new s.state word
  unfold recordTypedWord
  revert hfirst hpacked hold
  rcases s.state.addTypedWord word with ⟨isNew, state⟩
  intro hfirst hpacked hold
  have hfit : Fit { s with state } := ⟨hpacked, h.stateFile, h.cookie⟩
  cases isNew with
  | true => exact calling_recordSave hfit hfirst hqueue m
  | false =>
    apply calling_of_quiet
    exact returned_unsaved hfit hfirst hqueue (congrArg CaseState.typedWords (hold rfl))

/-- Whatever is called, the words are remembered as they should be, and new ones are saved. -/
theorem calling_record (h : s.Fit) (hqueue : s.queue = .empty) {op : StoreOp} (hop : op.Plain)
    (m : Machine) :
    Calling s.state op.typed m s.syncSave (s.record op) [] := by
  -- without a text that is passed, the words stay as they are
  have hquiet {s' : Store} (hfit : s'.Fit) (hqueue : s'.queue = .empty)
      (hsync : s'.syncSave = s.syncSave)
      (hwords : s'.state.typedWords = s.state.typedWords) :
      Returned s.state s.syncSave [] [] ([], s') := by
    rw [← hsync]
    apply returned_unsaved hfit _ hqueue hwords
    intro passed hpassed
    rw [List.append_nil, hwords]
    exact hpassed
  cases hop with
  | refreshCookie =>
    apply calling_of_quiet
    apply Program.quiet_bind (Q := fun s' : Store => Returned s.state s.syncSave [] [] ([], s'))
    · apply Program.quiet_bind (quiet_cookiePath s.indexDir s.cookieDir)
      intro cookie hcookie
      exact hquiet ⟨h.packed, h.stateFile, hcookie⟩ hqueue rfl rfl
    · exact fun _ hreturned => hreturned
  | flush =>
    apply calling_of_quiet
    have hrecord : (s.record .flush : Program _) = .done ([], s) := by
      show (s.recordFlush : Program _) = _
      unfold recordFlush
      rw [hqueue]
      rfl
    rw [hrecord]
    exact hquiet h hqueue rfl rfl
  | state op hrestore =>
    cases htyped : op.typed with
    | nil =>
      have hrecord : (s.record (.state op) : Program _)
          = .done ([], { s with state := (s.state.perform s.domain op).2 }) := by
        cases op with
        | addTypedWord word => cases htyped
        | restore snapshot => exact absurd rfl (hrestore snapshot)
        | _ => rfl
      have hpacked := CaseState.packed_perform h.packed s.domain
        fun snapshot heq => absurd heq (hrestore snapshot)
      rw [hrecord, StoreOp.typed, htyped]
      apply calling_of_quiet
      exact hquiet ⟨hpacked, h.stateFile, h.cookie⟩ hqueue rfl
        (CaseState.typedWords_perform s.domain htyped hrestore)
    | cons _ _ =>
      cases op with
      | addTypedWord word =>
        exact calling_recordTypedWord h hqueue word m
      | _ => cases htyped

end Store

end EvidenceTags
