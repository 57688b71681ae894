/-!
# Ascending lists

A list in strictly ascending order holds each of its members once, so it stands for the set of them.
Such lists are made by putting members into their places one after another: `mem_place` and
`mem_ofList` say that nothing else gets in or out, `pairwise_place` and `pairwise_ofList` that the
order is kept. Each set has one such list (`eq_of_mem_iff`).
-/

namespace EvidenceTags

namespace Ascending

variable {α : Type} [LT α]

/-- Lists in strictly ascending order with the same members are equal. -/
theorem eq_of_mem_iff (asymm : ∀ {a b : α}, a < b → ¬ b < a) {l m : List α}
    (hl : l.Pairwise (· < ·)) (hm : m.Pairwise (· < ·)) (h : ∀ a, a ∈ l ↔ a ∈ m) : l = m := by
  induction l generalizing m with
  | nil => exact (List.eq_nil_iff_forall_not_mem.2 fun a ha => by simpa using (h a).2 ha).symm
  | cons a l ih =>
    obtain ⟨hal, hl'⟩ := List.pairwise_cons.1 hl
    cases m with
    | nil => simpa using (h a).1 List.mem_cons_self
    | cons b m =>
      obtain ⟨hbm, hm'⟩ := List.pairwise_cons.1 hm
      have hab : a = b := by
        rcases List.mem_cons.1 ((h a).1 List.mem_cons_self) with heq | ha
        · exact heq
        · rcases List.mem_cons.1 ((h b).2 List.mem_cons_self) with heq | hb
          · exact heq.symm
          · exact absurd (hal b hb) (asymm (hbm a ha))
      subst hab
      refine congrArg (a :: ·) (ih hl' hm' fun c => ⟨fun hc => ?_, fun hc => ?_⟩)
      · rcases List.mem_cons.1 ((h c).1 (List.mem_cons_of_mem _ hc)) with rfl | hc'
        · exact absurd (hal _ hc) (asymm (hal _ hc))
        · exact hc'
      · rcases List.mem_cons.1 ((h c).2 (List.mem_cons_of_mem _ hc)) with rfl | hc'
        · exact absurd (hbm _ hc) (asymm (hbm _ hc))
        · exact hc'

variable [DecidableLT α] [DecidableEq α]

/-- Puts a member into its place, unless it is there. -/
def place (a : α) : List α → List α
  | [] => [a]
  | b :: rest => if a < b then a :: b :: rest else if a = b then b :: rest else b :: place a rest

/-- The members of a list in ascending order, each once. -/
def ofList (l : List α) : List α := l.foldr place []

@[simp] theorem mem_place {a b : α} {l : List α} : b ∈ place a l ↔ b = a ∨ b ∈ l := by
  induction l with
  | nil => simp [place]
  | cons c rest ih =>
    unfold place
    split
    · simp
    · split
      · rename_i h
        simp [h]
      · simp [ih, or_left_comm]

@[simp] theorem mem_ofList {a : α} {l : List α} : a ∈ ofList l ↔ a ∈ l := by
  induction l with
  | nil => simp [ofList]
  | cons b rest ih =>
    rw [ofList] at ih ⊢
    rw [List.foldr_cons, mem_place, ih, List.mem_cons]

theorem pairwise_place (trans : ∀ {a b c : α}, a < b → b < c → a < c)
    (total : ∀ a b : α, a < b ∨ a = b ∨ b < a) (a : α) {l : List α} (h : l.Pairwise (· < ·)) :
    (place a l).Pairwise (· < ·) := by
  induction l with
  | nil => exact List.pairwise_singleton _ _
  | cons b rest ih =>
    obtain ⟨hb, hrest⟩ := List.pairwise_cons.1 h
    unfold place
    split
    · rename_i hab
      refine List.pairwise_cons.2 ⟨fun c hc => ?_, h⟩
      rcases List.mem_cons.1 hc with rfl | hc
      · exact hab
      · exact trans hab (hb c hc)
    · rename_i hab
      split
      · exact h
      · rename_i hne
        refine List.pairwise_cons.2 ⟨fun c hc => ?_, ih hrest⟩
        rcases mem_place.1 hc with rfl | hc
        · exact ((total _ b).resolve_left hab).resolve_left hne
        · exact hb c hc

theorem pairwise_ofList (trans : ∀ {a b c : α}, a < b → b < c → a < c)
    (total : ∀ a b : α, a < b ∨ a = b ∨ b < a) (l : List α) :
    (ofList l).Pairwise (· < ·) := by
  induction l with
  | nil => exact .nil
  | cons a rest ih => exact pairwise_place trans total a ih

end Ascending

end EvidenceTags
