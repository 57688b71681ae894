import EvidenceTags.Store

/-!
# Properties that programs inherit

Whatever a store does to its host is put together from a few calls. So a property that these calls
have, and that is kept when programs are put together, is one of all operations of a store. The
programs are gone through here once, for every host and every such property (`Inherited`).

Two pieces are not taken apart: making and removing a scratch file, and replacing a file. A single
call of them need not have the property. The operations that only load have it even if nothing is
known about replacing.
-/

namespace EvidenceTags

variable {m : Type → Type} [Monad m] [Host m]

/-- A property that programs inherit from their parts, and that the calls have which a store makes
before it replaces a file. -/
structure Inherited (P : ∀ {α : Type}, m α → Prop) : Prop where
  pure : ∀ {α : Type} (a : α), P (pure a)
  bind : ∀ {α β : Type} {x : m α} {f : α → m β}, P x → (∀ a, P (f a)) → P (x >>= f)
  status : ∀ path, P (Host.status path)
  read : ∀ path, P (Host.read path)
  canAppend : ∀ path, P (Host.canAppend path)
  log : ∀ event, P (Host.log event)
  canCreateIn : ∀ directory, P (canCreateIn directory)

namespace Inherited

variable {P : ∀ {α : Type}, m α → Prop} (h : Inherited (@P))

include h

/-- The answer may be changed. -/
theorem bind_pure {α β : Type} {x : m α} (hx : P x) (f : α → β) :
    P (do let a ← x; Pure.pure (f a)) :=
  h.bind hx fun a => h.pure (f a)

/-! ## Where state is saved and loaded -/

theorem canWrite (path : Path) : P (canWrite path) := by
  apply h.bind (h.status path)
  intro status
  split
  · exact h.canAppend path
  · exact h.pure false

theorem saveTarget (stateFile cookie : Path) : P (saveTarget stateFile cookie) := by
  -- whether or not a file could be made, the choice is made by looking at the state file
  have hchoice (creatable : Bool) : P (do
      if (← EvidenceTags.canWrite stateFile) || creatable then Pure.pure stateFile
        else Pure.pure cookie) := by
    apply h.bind (h.canWrite stateFile)
    intro writable
    split
    · exact h.pure stateFile
    · exact h.pure cookie
  apply h.bind (h.bind_pure (h.status stateFile) Option.isSome)
  intro here
  cases here with
  | true => exact h.bind (h.pure false) hchoice
  | false =>
    cases stateFile.parent? with
    | none => exact h.bind (h.pure false) hchoice
    | some parent => exact h.bind (h.canCreateIn parent) hchoice

theorem loadSource (stateFile cookie : Path) : P (loadSource stateFile cookie) := by
  apply h.bind (h.status cookie)
  intro c
  apply h.bind (h.status stateFile)
  intro s
  split <;> exact h.pure _

theorem readSnapshot (path : Path) : P (readSnapshot path) := by
  apply h.bind (h.read path)
  intro found
  cases found with
  | error e => exact h.pure _
  | ok bytes => exact h.pure _

theorem currentSnapshot (stored : StoredSnapshot) (last : ItemId) :
    P (currentSnapshot stored last) := by
  cases stored with
  | current snapshot => exact h.pure snapshot
  | legacy legacy => exact h.bind_pure (h.log _) _

/-! ## Operations that load -/

variable (s : Store)

theorem refreshCookie : P s.refreshCookie :=
  h.bind_pure (h.bind (h.status _) fun _ => h.pure _) _

theorem restore (snapshot : Snapshot) : P (s.restore snapshot) := by
  simp only [Store.restore]
  split
  · exact h.bind_pure (h.log _) _
  · exact h.pure _

theorem loadFrom (path : Path) : P (s.loadFrom path) := by
  apply h.bind (h.log _)
  intro _
  apply h.bind (h.readSnapshot path)
  intro found
  cases found with
  | error e => exact h.pure _
  | ok stored =>
    apply h.bind (h.currentSnapshot stored s.lastId)
    intro snapshot
    exact h.bind_pure (h.restore s snapshot) _

theorem load : P s.load := by
  apply h.bind (h.loadSource s.stateFile s.cookie)
  intro source
  cases source with
  | none => exact h.pure s
  | some path =>
    apply h.bind (h.loadFrom s path)
    rintro ⟨result, s'⟩
    cases result with
    | error e => exact h.bind_pure (h.log _) _
    | ok _ => exact h.pure _

/-! ## Operations that save -/

section

variable (hreplace : ∀ path bytes, P (replaceFile path bytes))

include hreplace

theorem saveTo (path : Path) (sync : Bool) : P (s.saveTo path sync) := by
  apply h.bind (h.log _)
  intro _
  split
  · exact h.bind_pure (hreplace path _) _
  · exact h.pure _

theorem save (sync : Bool) : P (s.save sync) := by
  apply h.bind (h.saveTarget _ _)
  intro path
  apply h.bind (h.saveTo s hreplace path _)
  rintro ⟨result, s'⟩
  cases result with
  | error e => exact h.bind_pure (h.log _) _
  | ok _ => exact h.pure _

theorem addTypedWord (word : String) : P (s.addTypedWord word) := by
  unfold Store.addTypedWord
  rcases s.state.addTypedWord word with ⟨isNew, state⟩
  cases isNew with
  | true => exact h.save _ hreplace false
  | false => exact h.pure _

theorem flush : P s.flush := by
  apply h.bind_pure
  unfold SaveQueue.flush
  split
  · exact h.pure _
  · apply h.bind (hreplace _ _)
    intro result
    cases result with
    | error e => exact h.bind_pure (h.log _) _
    | ok _ => exact h.pure _

end

end Inherited

end EvidenceTags
