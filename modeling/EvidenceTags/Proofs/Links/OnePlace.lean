import EvidenceTags.Proofs.Links.Ways

/-!
# Changes of one file where there are links

A file may have many names. While it is changed under one of them, nothing else is: paths lead where
they led, and all other files hold what they held (`LinkedTree.AlikeBut`). This is said once for
whatever is done to the file (`LinkedTree.AlikeBut.changed`); to make, write and remove it are cases
of that.
-/

namespace EvidenceTags

namespace LinkedTree

/-- What is at a location: nothing, a directory, or a file with some content. A link holds
nothing. -/
def content? (t : LinkedTree) (l : Location) : Option (Option Wire.Bytes) :=
  match t.node? l with
  | some .directory => some none
  | some (.file number) => some (some (t.files number).content)
  | some (.link _) | none => none

/-- Two locations are those of one file, which need not be there yet. -/
def SameFile (t : LinkedTree) (l l' : Location) : Prop :=
  (l = l' ∧ t.node? l ≠ some .directory)
    ∨ ∃ number, t.node? l = some (.file number) ∧ t.node? l' = some (.file number)

/-- No way leads on from a location. -/
def Closed (t : LinkedTree) (l : Location) : Prop :=
  ∀ node, t.node? l = some node → node.isFile = true

variable {t t' t'' : LinkedTree} {base l s : Location} {p : Path} {number : Nat}

theorem closed_of_none (h : t.node? l = none) : t.Closed l := by
  intro node hnode
  rw [h] at hnode
  cases hnode

theorem closed_of_file (h : t.node? l = some (.file number)) : t.Closed l := by
  intro node hnode
  rw [h] at hnode
  cases hnode
  rfl

theorem Closed.ne_of_passed (h : t.Closed s) {node : Node} (hplain : node.isFile = false)
    (hl : t.node? l = some node) : l ≠ s := by
  rintro rfl
  rw [h node hl] at hplain
  cases hplain

/-- A name that no way leads over can be taken away. -/
theorem Closed.passes_erase (h : t.Closed l) : Passes t.node? (t.erase l).node? := by
  intro x node hplain hx
  rw [node?_erase, if_neg (h.ne_of_passed hplain hx)]
  exact hx

theorem content?_of_file (h : t.node? l = some (.file number)) :
    t.content? l = some (some (t.files number).content) := by
  rw [content?, h]

theorem content?_of_none (h : t.node? l = none) : t.content? l = none := by
  rw [content?, h]

/-- Only a file holds bytes. -/
theorem exists_file_of_content? {bytes : Wire.Bytes} (h : t.content? l = some (some bytes)) :
    ∃ number, t.node? l = some (.file number) ∧ (t.files number).content = bytes := by
  unfold content? at h
  split at h
  · cases h
  · rename_i number hnumber
    exact ⟨number, hnumber, Option.some.inj (Option.some.inj h)⟩
  · cases h
  · cases h

theorem content?_congr (hnode : t'.node? l = t.node? l)
    (hfile : ∀ number, t.node? l = some (.file number) →
      (t'.files number).content = (t.files number).content) : t'.content? l = t.content? l := by
  rw [content?, content?, hnode]
  split
  · rfl
  · rename_i number hnumber
    rw [hfile number hnumber]
  · rfl
  · rfl

/-- Two trees differ only in a file that has its name at `place`, if the way there can be gone. It
may have been made, written or removed. -/
structure AlikeBut (place : Except OsError Location) (t t' : LinkedTree) : Prop where
  nodes : ∀ l, place ≠ .ok l → t'.node? l = t.node? l
  before : Passes t.node? t'.node?
  after : Passes t'.node? t.node?
  contents : ∀ l, (∀ s, place = .ok s → ¬ t.SameFile l s) → t'.content? l = t.content? l
  /-- A file that has been made there has no other names. -/
  owned : ∀ s number, place = .ok s → t'.node? s = some (.file number) →
    t.node? s = some (.file number) ∨ ∀ l, t.node? l ≠ some (.file number)

variable {place : Except OsError Location}

theorem AlikeBut.refl (place : Except OsError Location) (t : LinkedTree) : AlikeBut place t t :=
  ⟨fun _ _ => rfl, fun _ _ _ h => h, fun _ _ _ h => h, fun _ _ => rfl, fun _ _ _ h => .inl h⟩

/-- Paths lead where they led. -/
theorem AlikeBut.leads (h : AlikeBut place t t') {last : Bool} :
    t'.leads base p last = .ok l ↔ t.leads base p last = .ok l := by
  constructor
  · intro hleads
    refine leads_of_leads h.after ?_ hleads
    rintro rfl goal hlink
    exact leads_ne_link hleads goal (h.before _ _ rfl hlink)
  · intro hleads
    refine leads_of_leads h.before ?_ hleads
    rintro rfl goal hlink
    exact leads_ne_link hleads goal (h.after _ _ rfl hlink)

/-- A location of another file is another location. -/
theorem AlikeBut.ne (h : AlikeBut place t t') (hclosed : t'.Closed s) (hl : ¬ t.SameFile l s) :
    l ≠ s := by
  rintro rfl
  apply hl
  left
  refine ⟨rfl, ?_⟩
  intro hdirectory
  exact hclosed.ne_of_passed rfl (h.before l _ rfl hdirectory) rfl

/-- Something is done to the file: its name may come or go, and of the other files none changes. -/
theorem AlikeBut.changed (h : AlikeBut place t t') (hplace : place = .ok s) (hclosed : t'.Closed s)
    (hclosed' : t''.Closed s) (hnodes : ∀ l, l ≠ s → t''.node? l = t'.node? l)
    (hfiles : ∀ l number, ¬ t.SameFile l s → t'.node? l = some (.file number) →
      (t''.files number).content = (t'.files number).content)
    (howned : ∀ number, t''.node? s = some (.file number) →
      t.node? s = some (.file number) ∨ ∀ l, t.node? l ≠ some (.file number)) :
    AlikeBut place t t'' := by
  constructor
  case nodes =>
    intro l hl
    have hne : l ≠ s := by
      rintro rfl
      exact hl hplace
    exact (hnodes l hne).trans (h.nodes l hl)
  case before =>
    intro l node hplain hl
    have hl' := h.before l node hplain hl
    rw [hnodes l (hclosed.ne_of_passed hplain hl')]
    exact hl'
  case after =>
    intro l node hplain hl
    rw [hnodes l (hclosed'.ne_of_passed hplain hl)] at hl
    exact h.after l node hplain hl
  case contents =>
    intro l hl
    have hother := hl s hplace
    rw [← h.contents l hl]
    exact content?_congr (hnodes l (h.ne hclosed hother)) fun number => hfiles l number hother
  case owned =>
    intro s' number hs' hfile
    have hs : s' = s := Except.ok.inj (hs'.symm.trans hplace)
    rw [hs] at hfile ⊢
    exact howned number hfile

/-- Another file has another number. -/
theorem AlikeBut.number_ne (h : AlikeBut place t t') (hplace : place = .ok s)
    (hfile : t'.node? s = some (.file number)) (hl : ¬ t.SameFile l s) {other : Nat}
    (hother : t'.node? l = some (.file other)) : other ≠ number := by
  rintro rfl
  have hne := h.ne (closed_of_file hfile) hl
  have hnode : place ≠ .ok l := by
    rw [hplace]
    intro heq
    exact hne (Except.ok.inj heq).symm
  rw [h.nodes l hnode] at hother
  rcases h.owned s other hplace hfile with hold | hnew
  · exact hl (.inr ⟨other, hother, hold⟩)
  · exact hnew l hother

/-- The file is written. -/
theorem AlikeBut.write (h : AlikeBut place t t') (hplace : place = .ok s)
    (hfile : t'.node? s = some (.file number)) (body : FileBody) :
    AlikeBut place t (t'.write number body) := by
  have hclosed := closed_of_file hfile
  refine h.changed hplace hclosed hclosed (fun _ _ => rfl) ?_ fun other => h.owned s other hplace
  intro l other hl hother
  exact congrArg FileBody.content (if_neg (h.number_ne hplace hfile hl hother))

/-- The file is made where nothing is. -/
theorem AlikeBut.make (h : AlikeBut place t t') (hplace : place = .ok s) (hnone : t'.node? s = none)
    (body : FileBody) (d : Location) (now : Int) :
    AlikeBut place t (((t'.put s (.file t'.fresh)).write t'.fresh body).touch d now) := by
  have hnodes (l : Location) (hne : l ≠ s) :
      (((t'.put s (.file t'.fresh)).write t'.fresh body).touch d now).node? l = t'.node? l := by
    simp [hne]
  have hhere : (((t'.put s (.file t'.fresh)).write t'.fresh body).touch d now).node? s
      = some (.file t'.fresh) := by simp
  refine h.changed hplace (closed_of_none hnone) (closed_of_file hhere) hnodes ?_ ?_
  · intro l other _ hother
    exact congrArg FileBody.content (if_neg (Nat.ne_of_lt (lt_fresh hother)))
  · intro number hnumber
    rw [hhere] at hnumber
    cases hnumber
    by_cases hold : t.node? s = some (.file t'.fresh)
    · exact .inl hold
    · right
      intro l hl
      have hne : place ≠ .ok l := by
        rw [hplace]
        rintro heq
        cases heq
        exact hold hl
      rw [← h.nodes l hne] at hl
      exact Nat.lt_irrefl _ (lt_fresh hl)

/-- The name of the file is taken away. -/
theorem AlikeBut.remove (h : AlikeBut place t t') (hplace : place = .ok s) (hclosed : t'.Closed s)
    (d : Location) (now : Int) : AlikeBut place t ((t'.erase s).touch d now) := by
  have hhere : ((t'.erase s).touch d now).node? s = none := by simp
  have hnodes (l : Location) (hne : l ≠ s) : ((t'.erase s).touch d now).node? l = t'.node? l := by
    simp [hne]
  refine h.changed hplace hclosed (closed_of_none hhere) hnodes (fun _ _ _ _ => rfl) ?_
  intro number hnumber
  rw [hhere] at hnumber
  cases hnumber

end LinkedTree

end EvidenceTags
