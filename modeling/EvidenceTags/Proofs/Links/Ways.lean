import EvidenceTags.LinkedMachine
import EvidenceTags.Proofs.FileContent
import Mathlib.Tactic.SplitIfs

/-!
# Ways through links

Where a path leads in a tree with links depends on the directories and links that are met on the
way, and not on files. So a way that ends somewhere ends there also in a tree that has these
directories and links, whatever else it has (`LinkedTree.walk_of_walk`).
-/

namespace EvidenceTags

open FileTree (checkPath start)

namespace LinkedTree

/-! ## Steps and jumps -/

section

variable {f g : Location → Option Node} {first last : Bool} {l d : Location} {steps : List String}

/-- All directories and links of the one are there in the other. -/
def Passes (g f : Location → Option Node) : Prop :=
  ∀ l node, node.isFile = false → g l = some node → f l = some node

theorem stepsFrom_of_stepsFrom
    {jump jump' : Location → Path → List String → Except OsError Location}
    (hpass : Passes g f) (hlast : first = true → last = true)
    (hend : last = true → ∀ goal, f d ≠ some (.link goal))
    (hjump : ∀ l goal rest, jump' l goal rest = .ok d → jump l goal rest = .ok d)
    (h : stepsFrom g first jump' l steps = .ok d) : stepsFrom f last jump l steps = .ok d := by
  induction steps generalizing l with
  | nil =>
    -- the way ends here, or at the end of a link
    have hhere (hd : d = l) : stepsFrom f last jump l [] = .ok d := by
      rw [stepsFrom]
      split
      · rename_i goal hlink
        rw [← hd] at hlink
        split
        · rename_i hfollow
          exact absurd hlink (hend hfollow goal)
        · rw [hd]
      · rw [hd]
    rw [stepsFrom] at h
    split at h
    · rename_i goal hlink
      split at h
      · rename_i hfollow
        rw [stepsFrom, hpass l _ rfl hlink]
        simp only [hlast hfollow, if_true]
        exact hjump _ _ _ h
      · exact hhere (Except.ok.inj h).symm
    · exact hhere (Except.ok.inj h).symm
  | cons step rest ih =>
    rw [stepsFrom] at h
    split at h
    · cases h
    · cases h
    · rename_i goal hlink
      rw [stepsFrom, hpass l _ rfl hlink]
      exact hjump _ _ _ h
    · rename_i hdirectory
      rw [stepsFrom, hpass l _ rfl hdirectory]
      simp only
      split_ifs at h ⊢
      · exact ih h
      · exact ih h
      · exact ih h

/-- A way that ends somewhere ends there also where the same directories and links are. -/
theorem walk_of_walk (hpass : Passes g f) (hlast : first = true → last = true)
    (hend : last = true → ∀ goal, f d ≠ some (.link goal)) (budget : Nat)
    (h : walk g first budget l steps = .ok d) : walk f last budget l steps = .ok d := by
  induction budget generalizing l steps with
  | zero => exact stepsFrom_of_stepsFrom hpass hlast hend (fun _ _ _ hjump => hjump) h
  | succ budget ih =>
    refine stepsFrom_of_stepsFrom hpass hlast hend ?_ h
    intro l goal rest hjump
    rcases exists_of_bind_eq_ok hjump with ⟨⟨⟩, hcheck, hjump⟩
    rw [hcheck]
    exact ih hjump

theorem exists_stepsFrom {jump jump' : Location → Path → List String → Except OsError Location}
    (hjump : ∀ l goal rest d, jump' l goal rest = .ok d → ∃ d', jump l goal rest = .ok d')
    (h : stepsFrom f true jump' l steps = .ok d) :
    ∃ d', stepsFrom f false jump l steps = .ok d' := by
  induction steps generalizing l with
  | nil =>
    rw [stepsFrom]
    split <;> exact ⟨l, rfl⟩
  | cons step rest ih =>
    rw [stepsFrom] at h
    split at h
    · cases h
    · cases h
    · rename_i goal hlink
      rw [stepsFrom, hlink]
      exact hjump _ _ _ _ h
    · rename_i hdirectory
      rw [stepsFrom, hdirectory]
      simp only
      split_ifs at h ⊢
      · exact ih h
      · exact ih h
      · exact ih h

/-- If a way can be followed to the end, it can be followed to a link there. -/
theorem exists_walk (budget : Nat) (h : walk f true budget l steps = .ok d) :
    ∃ d', walk f false budget l steps = .ok d' := by
  induction budget generalizing l steps d with
  | zero => exact exists_stepsFrom (fun _ _ _ d hjump => ⟨d, hjump⟩) h
  | succ budget ih =>
    refine exists_stepsFrom ?_ h
    intro l goal rest d hjump
    rcases exists_of_bind_eq_ok hjump with ⟨⟨⟩, hcheck, hjump⟩
    rcases ih hjump with ⟨d', hd'⟩
    exact ⟨d', by rw [hcheck]; exact hd'⟩

theorem stepsFrom_ne_link {jump : Location → Path → List String → Except OsError Location}
    (hjump : ∀ l goal rest, jump l goal rest = .ok d → ∀ goal', f d ≠ some (.link goal'))
    (h : stepsFrom f true jump l steps = .ok d) (goal : Path) : f d ≠ some (.link goal) := by
  induction steps generalizing l with
  | nil =>
    rw [stepsFrom] at h
    split at h
    · exact hjump _ _ _ h goal
    · rename_i hnot
      cases h
      exact hnot goal
  | cons step rest ih =>
    rw [stepsFrom] at h
    split at h
    · cases h
    · cases h
    · exact hjump _ _ _ h goal
    · split_ifs at h
      · exact ih h
      · exact ih h
      · exact ih h

/-- A way that is followed to the end ends at no link. -/
theorem walk_ne_link (budget : Nat) (h : walk f true budget l steps = .ok d) (goal : Path) :
    f d ≠ some (.link goal) := by
  induction budget generalizing l steps goal with
  | zero =>
    refine stepsFrom_ne_link ?_ h goal
    intro _ _ _ hjump
    cases hjump
  | succ budget ih =>
    refine stepsFrom_ne_link ?_ h goal
    intro _ _ _ hjump goal'
    rcases exists_of_bind_eq_ok hjump with ⟨⟨⟩, -, hjump⟩
    exact ih hjump goal'

end

/-! ## Where paths lead -/

variable {t t' : LinkedTree} {base l d : Location} {p : Path} {last : Bool}

theorem leads_eq_ok : t.leads base p last = .ok l
    ↔ checkPath p = .ok () ∧ walk t.node? last linkLimit (start base p) p.segments = .ok l := by
  constructor
  · intro h
    rcases exists_of_bind_eq_ok h with ⟨⟨⟩, hcheck, hwalk⟩
    exact ⟨hcheck, hwalk⟩
  · rintro ⟨hcheck, hwalk⟩
    rw [leads, hcheck]
    exact hwalk

/-- What can be passed on the way is still there. -/
theorem leads_of_leads (hpass : Passes t.node? t'.node?)
    (hend : last = true → ∀ goal, t'.node? l ≠ some (.link goal))
    (h : t.leads base p last = .ok l) :
    t'.leads base p last = .ok l := by
  rcases leads_eq_ok.1 h with ⟨hcheck, hwalk⟩
  exact leads_eq_ok.2 ⟨hcheck, walk_of_walk hpass id hend _ hwalk⟩

/-- What is no link is not followed. -/
theorem leads_true_of_false (h : t.leads base p false = .ok l)
    (hend : ∀ goal, t.node? l ≠ some (.link goal)) : t.leads base p true = .ok l := by
  rcases leads_eq_ok.1 h with ⟨hcheck, hwalk⟩
  have hlast : false = true → true = true := fun _ => rfl
  exact leads_eq_ok.2 ⟨hcheck, walk_of_walk (fun _ _ _ hg => hg) hlast (fun _ => hend) _ hwalk⟩

theorem leads_ne_link (h : t.leads base p true = .ok l) (goal : Path) :
    t.node? l ≠ some (.link goal) :=
  walk_ne_link _ (leads_eq_ok.1 h).2 goal

theorem exists_leads (h : t.leads base p true = .ok l) : ∃ d, t.leads base p false = .ok d := by
  rcases leads_eq_ok.1 h with ⟨hcheck, hwalk⟩
  rcases exists_walk _ hwalk with ⟨d, hd⟩
  exact ⟨d, leads_eq_ok.2 ⟨hcheck, hd⟩⟩

theorem find_eq_ok :
    t.find base p last = .ok l ↔ t.leads base p last = .ok l ∧ (t.node? l).isSome = true := by
  constructor
  · intro h
    rcases exists_of_bind_eq_ok h with ⟨d, hleads, hthere⟩
    split at hthere
    · rename_i hsome
      cases hthere
      exact ⟨hleads, hsome⟩
    · cases hthere
  · rintro ⟨hleads, hsome⟩
    rw [find, hleads]
    exact if_pos hsome

/-- An entry is made where its path leads. -/
theorem leads_of_spot {unnamed : OsError} (h : t.spot base p last unnamed = .ok l) :
    t.leads base p last = .ok l := by
  rcases exists_of_bind_eq_ok h with ⟨⟨⟩, -, h⟩
  split at h
  · split at h
    · rcases exists_of_bind_eq_ok h with ⟨directory, -, h⟩
      split at h <;> cases h
    · exact h
  · cases h

/-! ## Nodes after a change -/

section

variable (t) (x : Location) (node : Node) (now : Int) (number : Nat) (body : FileBody)

@[simp] theorem node?_erase : (t.erase l).node? x = if x = l then none else t.node? x :=
  FileTree.lookup_filter_ne t.nodes l x

@[simp] theorem node?_put : (t.put l node).node? x = if x = l then some node else t.node? x := by
  show List.lookup x ((l, node) :: (t.erase l).nodes) = _
  rw [List.lookup_cons]
  by_cases hx : x = l
  · rw [hx, if_pos rfl, beq_self_eq_true]
  · rw [if_neg hx, beq_false_of_ne hx]
    have herase := t.node?_erase x (l := l)
    rw [if_neg hx] at herase
    exact herase

@[simp] theorem node?_write : (t.write number body).node? x = t.node? x := rfl

@[simp] theorem node?_touch : (t.touch l now).node? x = t.node? x := rfl

@[simp] theorem node?_move (source goal : Location) :
    (t.move now source goal node).node? x
      = if x = goal then some node else if x = source then none else t.node? x := by
  simp [move]

end

/-- What stands for something else than the goal moves there, and the goal is no directory. -/
theorem move_of_rename {source goal : Location} {node : Node} {now : Int}
    (hsource : t.node? source = some node) (hgoal : t.node? goal ≠ some node)
    (h : t.rename now source goal = .ok t') :
    t.node? goal ≠ some .directory ∧ t' = t.move now source goal node := by
  unfold rename at h
  split at h
  · cases h
  · cases h
  · rename_i other hother hdirectory
    rw [hsource] at hother
    cases hother
    refine ⟨hdirectory, ?_⟩
    rw [if_neg fun hthere => hgoal hthere.2] at h
    exact (Except.ok.inj h).symm

/-- The number of a new file is not taken. -/
theorem lt_fresh {number : Nat} (h : t.node? l = some (.file number)) : number < t.fresh := by
  unfold node? at h
  unfold fresh
  generalize t.nodes = nodes at h ⊢
  induction nodes with
  | nil => cases h
  | cons entry nodes ih =>
    rcases entry with ⟨x, node⟩
    simp only [List.foldr_cons]
    simp only [List.lookup_cons] at h
    split at h
    · cases h
      exact Nat.lt_of_lt_of_le (Nat.lt_succ_self number) (Nat.le_max_right _ _)
    · cases node with
      | file other => exact Nat.lt_of_lt_of_le (ih h) (Nat.le_max_left _ _)
      | directory | link goal => exact ih h

end LinkedTree

end EvidenceTags
