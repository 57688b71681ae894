/-!
# Flips

A truth about numbers that changes now and then can be given as the ascending list of the numbers at
which it flips, and the truth below the first of them. Starting from "outside", `[2, 5, 9, 10]` is
the set `{2, 3, 4, 9}`. Long runs of equal truth cost two numbers, however long they are.

All operations on two truths are one function, `merge`, which looks at the flips of both from left
to right and notes where the combined truth changes; `sweep` finds the same in constant stack.
-/

namespace EvidenceTags

namespace Flips

/-- The truth at `x`, where `state` holds below the first of the flips. -/
def within : Bool → List Nat → Nat → Bool
  | state, [], _ => state
  | state, b :: bounds, x => if x < b then state else within (!state) bounds x

/-- A truth that never changes has no flips that could be out of order. -/
theorem pairwise_nil : ([] : List Nat).Pairwise (· < ·) := .nil

/-- Notes a flip at `x` if the truth changes there. -/
def flip (old new : Bool) (x : Nat) (rest : List Nat) : List Nat :=
  if old = new then rest else x :: rest

/-- The flips of `f` applied to two truths that start as `p` and `q` and flip at `l` and `r`. -/
def merge (f : Bool → Bool → Bool) : Bool → Bool → List Nat → List Nat → List Nat
  | _, _, [], [] => []
  | p, q, a :: l, [] => flip (f p q) (f (!p) q) a (merge f (!p) q l [])
  | p, q, [], b :: r => flip (f p q) (f p (!q)) b (merge f p (!q) [] r)
  | p, q, a :: l, b :: r =>
    if a < b then flip (f p q) (f (!p) q) a (merge f (!p) q l (b :: r))
    else if b < a then flip (f p q) (f p (!q)) b (merge f p (!q) (a :: l) r)
    else flip (f p q) (f (!p) (!q)) a (merge f (!p) (!q) l r)
termination_by _ _ l r => l.length + r.length

/-- What `merge` finds once only flips of the right-hand truth are left, in front of `acc` and in
reverse order. -/
def sweepRight (f : Bool → Bool → Bool) (p : Bool) : Bool → List Nat → List Nat → List Nat
  | _, [], acc => acc
  | q, b :: r, acc => sweepRight f p (!q) r (flip (f p q) (f p (!q)) b acc)

/-- Sweeps over the flips of the right-hand truth up to the flip `a` of the left-hand one, and goes
on with `next` from there. -/
def sweepTo (f : Bool → Bool → Bool) (a : Nat)
    (next : Bool → Bool → List Nat → List Nat → List Nat) (p : Bool) :
    Bool → List Nat → List Nat → List Nat
  | q, [], acc => next (!p) q [] (flip (f p q) (f (!p) q) a acc)
  | q, b :: r, acc =>
    if a < b then next (!p) q (b :: r) (flip (f p q) (f (!p) q) a acc)
    else if b < a then sweepTo f a next p (!q) r (flip (f p q) (f p (!q)) b acc)
    else next (!p) (!q) r (flip (f p q) (f (!p) (!q)) a acc)

/-- The flips of `merge` in reverse order in front of `acc`, in constant stack. -/
def sweep (f : Bool → Bool → Bool) :
    List Nat → Bool → Bool → List Nat → List Nat → List Nat
  | [], p, q, r, acc => sweepRight f p q r acc
  | a :: l, p, q, r, acc => sweepTo f a (sweep f l) p q r acc

theorem sweepRight_eq (f : Bool → Bool → Bool) (p q : Bool) (r acc : List Nat) :
    sweepRight f p q r acc = (merge f p q [] r).reverse ++ acc := by
  induction r generalizing q acc with
  | nil => simp [sweepRight, merge]
  | cons b r ih =>
    rw [sweepRight, ih, merge]
    unfold flip
    split <;> simp

/-- The sweep finds the flips of `merge`. -/
theorem sweep_eq (f : Bool → Bool → Bool) (l : List Nat) (p q : Bool) (r acc : List Nat) :
    sweep f l p q r acc = (merge f p q l r).reverse ++ acc := by
  induction l generalizing p q r acc with
  | nil => exact sweepRight_eq f p q r acc
  | cons a l ih =>
    rw [sweep]
    induction r generalizing q acc with
    | nil =>
      rw [sweepTo, ih, merge]
      unfold flip
      split <;> simp
    | cons b r ihr =>
      rw [sweepTo, merge]
      split
      · rw [ih]
        unfold flip
        split <;> simp
      · split
        · rw [ihr]
          unfold flip
          split <;> simp
        · rw [ih]
          unfold flip
          split <;> simp

theorem within_of_lt {state : Bool} {bounds : List Nat} {x : Nat} (h : ∀ b ∈ bounds, x < b) :
    within state bounds x = state := by
  cases bounds with
  | nil => rfl
  | cons b bounds => simp [within, h b List.mem_cons_self]

theorem within_cons_of_le {state : Bool} {b : Nat} {bounds : List Nat} {x : Nat} (h : b ≤ x) :
    within state (b :: bounds) x = within (!state) bounds x := by
  simp [within, Nat.not_lt.2 h]

/-- Below its first flip `b` a truth stays what it was, and from there on it is what comes after. -/
theorem within_flip {old new truth : Bool} {b : Nat} {bounds : List Nat} {x : Nat}
    (hbelow : x < b → within new bounds x = new ∧ truth = old)
    (hfrom : b ≤ x → within new bounds x = truth) :
    within old (flip old new b bounds) x = truth := by
  unfold flip
  split
  case isTrue hsame =>
    -- nothing is noted, since the truth does not change at `b`
    subst hsame
    rcases Nat.lt_or_ge x b with hx | hx
    · obtain ⟨hrest, htruth⟩ := hbelow hx
      rw [hrest, htruth]
    · exact hfrom hx
  case isFalse hchanges =>
    have hnew : new = !old := by
      cases old <;> cases new <;> simp_all
    rcases Nat.lt_or_ge x b with hx | hx
    · rw [within, if_pos hx, (hbelow hx).2]
    · rw [within_cons_of_le hx, ← hnew]
      exact hfrom hx

/-- What is less than the first of ascending numbers is less than all of them. -/
theorem lt_of_lt_head {x a : Nat} {l : List Nat} (h : (a :: l).Pairwise (· < ·)) (hx : x < a) :
    ∀ b ∈ a :: l, x < b := by
  intro b hb
  rcases List.mem_cons.1 hb with rfl | hb
  · exact hx
  · exact Nat.lt_trans hx (List.rel_of_pairwise_cons h hb)

theorem within_merge (f : Bool → Bool → Bool) {p q : Bool} {l r : List Nat} (x : Nat)
    (hl : l.Pairwise (· < ·)) (hr : r.Pairwise (· < ·)) :
    within (f p q) (merge f p q l r) x = f (within p l x) (within q r x) := by
  fun_induction merge f p q l r with
  | case1 p q => rfl
  | case2 p q a l ih =>
    have hrest := ih hl.of_cons hr
    refine within_flip (fun hx => ?_) (fun hx => ?_)
    · have hlt := lt_of_lt_head hl hx
      rw [hrest, within_of_lt hlt, within_of_lt (List.forall_mem_cons.1 hlt).2]
      exact ⟨rfl, rfl⟩
    · rw [hrest, within_cons_of_le hx]
  | case3 p q b r ih =>
    have hrest := ih hl hr.of_cons
    refine within_flip (fun hx => ?_) (fun hx => ?_)
    · have hlt := lt_of_lt_head hr hx
      rw [hrest, within_of_lt hlt, within_of_lt (List.forall_mem_cons.1 hlt).2]
      exact ⟨rfl, rfl⟩
    · rw [hrest, within_cons_of_le hx]
  | case4 p q a l b r hab ih =>
    -- the left-hand truth flips first, and the right-hand one has not flipped below `a`
    have hrest := ih hl.of_cons hr
    refine within_flip (fun hx => ?_) (fun hx => ?_)
    · have hlt := lt_of_lt_head hl hx
      have hlt' := lt_of_lt_head hr (Nat.lt_trans hx hab)
      rw [hrest, within_of_lt hlt, within_of_lt hlt', within_of_lt (List.forall_mem_cons.1 hlt).2]
      exact ⟨rfl, rfl⟩
    · rw [hrest, within_cons_of_le hx]
  | case5 p q a l b r hab hba ih =>
    have hrest := ih hl hr.of_cons
    refine within_flip (fun hx => ?_) (fun hx => ?_)
    · have hlt := lt_of_lt_head hl (Nat.lt_trans hx hba)
      have hlt' := lt_of_lt_head hr hx
      rw [hrest, within_of_lt hlt, within_of_lt hlt', within_of_lt (List.forall_mem_cons.1 hlt').2]
      exact ⟨rfl, rfl⟩
    · rw [hrest, within_cons_of_le hx]
  | case6 p q a l b r hab hba ih =>
    have hsame : a = b := Nat.le_antisymm (Nat.not_lt.1 hba) (Nat.not_lt.1 hab)
    subst hsame
    have hrest := ih hl.of_cons hr.of_cons
    refine within_flip (fun hx => ?_) (fun hx => ?_)
    · have hlt := lt_of_lt_head hl hx
      have hlt' := lt_of_lt_head hr hx
      rw [hrest, within_of_lt hlt, within_of_lt hlt', within_of_lt (List.forall_mem_cons.1 hlt).2,
        within_of_lt (List.forall_mem_cons.1 hlt').2]
      exact ⟨rfl, rfl⟩
    · rw [hrest, within_cons_of_le hx, within_cons_of_le hx]

theorem mem_flip {old new : Bool} {x y : Nat} {rest : List Nat} (h : y ∈ flip old new x rest) :
    y = x ∨ y ∈ rest := by
  unfold flip at h
  split at h
  · exact .inr h
  · exact List.mem_cons.1 h

theorem mem_merge {f : Bool → Bool → Bool} {p q : Bool} {l r : List Nat} {x : Nat}
    (h : x ∈ merge f p q l r) : x ∈ l ∨ x ∈ r := by
  fun_induction merge f p q l r with
  | case1 => simp at h
  | case2 p q a l ih | case3 p q b r ih | case4 p q a l b r _ ih | case5 p q a l b r _ _ ih
  | case6 p q a l b r _ _ ih =>
    rcases mem_flip h with h | h
    · simp [h]
    · have := ih h
      simp only [List.mem_cons] at this ⊢
      grind

theorem pairwise_flip {old new : Bool} {x : Nat} {rest : List Nat} (h : rest.Pairwise (· < ·))
    (hx : ∀ y ∈ rest, x < y) : (flip old new x rest).Pairwise (· < ·) := by
  unfold flip
  split
  · exact h
  · exact List.pairwise_cons.2 ⟨hx, h⟩

theorem pairwise_merge (f : Bool → Bool → Bool) {p q : Bool} {l r : List Nat}
    (hl : l.Pairwise (· < ·)) (hr : r.Pairwise (· < ·)) :
    (merge f p q l r).Pairwise (· < ·) := by
  fun_induction merge f p q l r with
  | case1 => exact .nil
  | case2 p q a l ih =>
    obtain ⟨hal, hl'⟩ := List.pairwise_cons.1 hl
    refine pairwise_flip (ih hl' hr) fun y hy => ?_
    exact hal y ((mem_merge hy).resolve_right List.not_mem_nil)
  | case3 p q b r ih =>
    obtain ⟨hbr, hr'⟩ := List.pairwise_cons.1 hr
    refine pairwise_flip (ih hl hr') fun y hy => ?_
    exact hbr y ((mem_merge hy).resolve_left List.not_mem_nil)
  | case4 p q a l b r hab ih =>
    obtain ⟨hal, hl'⟩ := List.pairwise_cons.1 hl
    refine pairwise_flip (ih hl' hr) fun y hy => ?_
    rcases mem_merge hy with hy | hy
    · exact hal y hy
    · exact lt_of_lt_head hr hab y hy
  | case5 p q a l b r hab hba ih =>
    obtain ⟨hbr, hr'⟩ := List.pairwise_cons.1 hr
    refine pairwise_flip (ih hl hr') fun y hy => ?_
    rcases mem_merge hy with hy | hy
    · exact lt_of_lt_head hl hba y hy
    · exact hbr y hy
  | case6 p q a l b r hab hba ih =>
    obtain ⟨hal, hl'⟩ := List.pairwise_cons.1 hl
    obtain ⟨hbr, hr'⟩ := List.pairwise_cons.1 hr
    refine pairwise_flip (ih hl' hr') fun y hy => ?_
    rcases mem_merge hy with hy | hy
    · exact hal y hy
    · exact Nat.lt_of_le_of_lt (Nat.not_lt.1 hba) (hbr y hy)

/-- The flips of `f` applied to two truths that are false at first. -/
def combine (f : Bool → Bool → Bool) (a b : List Nat) : List Nat :=
  (sweep f a false false b []).reverse

theorem combine_eq (f : Bool → Bool → Bool) (a b : List Nat) :
    combine f a b = merge f false false a b := by
  simp [combine, sweep_eq]

theorem within_combine {f : Bool → Bool → Bool} (hf : f false false = false) {a b : List Nat}
    (x : Nat) (ha : a.Pairwise (· < ·)) (hb : b.Pairwise (· < ·)) :
    within false (combine f a b) x = f (within false a x) (within false b x) := by
  have := within_merge f (p := false) (q := false) x ha hb
  rwa [hf, ← combine_eq] at this

theorem mem_combine {f : Bool → Bool → Bool} {a b : List Nat} {x : Nat}
    (h : x ∈ combine f a b) : x ∈ a ∨ x ∈ b :=
  mem_merge (combine_eq f a b ▸ h)

theorem pairwise_combine (f : Bool → Bool → Bool) {a b : List Nat} (ha : a.Pairwise (· < ·))
    (hb : b.Pairwise (· < ·)) : (combine f a b).Pairwise (· < ·) := by
  rw [combine_eq]
  exact pairwise_merge f ha hb

/-- Pairs up flips as first and last number of a run, behind the reversed list `acc`. -/
def runsOnto : List Nat → List (Nat × Nat) → List (Nat × Nat)
  | lo :: hi :: rest, acc => runsOnto rest ((lo, hi - 1) :: acc)
  | _, acc => acc.reverse

/-- The maximal runs of numbers inside, ascending, each with its first and its last number. -/
def runs (bounds : List Nat) : List (Nat × Nat) := runsOnto bounds []

/-- How many numbers runs have. -/
def runsSize (runs : List (Nat × Nat)) : Nat := runs.foldl (fun n r => n + (r.2 + 1 - r.1)) 0

end Flips

end EvidenceTags
