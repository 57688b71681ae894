import EvidenceTags.Flips.Basic

/-!
# Laws of flips

Ascending flips are determined by the truth that they stand for (`ext_within`). If the truth ends up
outside, their runs cover exactly the numbers inside (`within_iff_runs`) and list them in ascending
order (`pairwise_indices_of`), each once (`runsSize_eq_length`).
-/

namespace EvidenceTags

namespace Flips

theorem within_of_le {state : Bool} {bounds : List Nat} {x : Nat} (h : ∀ b ∈ bounds, b ≤ x) :
    ∀ {y}, (∀ b ∈ bounds, b ≤ y) → within state bounds x = within state bounds y := by
  induction bounds generalizing state with
  | nil => exact fun _ => rfl
  | cons b rest ih =>
    intro y hy
    rw [within_cons_of_le (h b List.mem_cons_self), within_cons_of_le (hy b List.mem_cons_self)]
    exact ih (fun c hc => h c (List.mem_cons_of_mem _ hc))
      (fun c hc => hy c (List.mem_cons_of_mem _ hc))

/-- Above all flips the truth has changed as often as there are flips. -/
theorem within_of_all_le {state : Bool} {bounds : List Nat} {x : Nat} (h : ∀ b ∈ bounds, b ≤ x) :
    within state bounds x = (state ^^ decide (bounds.length % 2 = 1)) := by
  induction bounds generalizing state with
  | nil => simp [within]
  | cons b rest ih =>
    rw [within_cons_of_le (h b List.mem_cons_self), ih fun c hc => h c (List.mem_cons_of_mem _ hc),
      List.length_cons]
    rcases Nat.mod_two_eq_zero_or_one rest.length with h0 | h0 <;> cases state <;>
      simp [h0, Nat.add_mod]

/-- A flip above all others changes the truth from there on. -/
theorem within_append_singleton {state : Bool} {bounds : List Nat} {n x : Nat}
    (h : ∀ b ∈ bounds, b < n) :
    within state (bounds ++ [n]) x
      = if x < n then within state bounds x else !within state bounds x := by
  induction bounds generalizing state with
  | nil => simp [within]
  | cons b rest ih =>
    have hb := h b List.mem_cons_self
    rw [List.cons_append, within, within, ih fun c hc => h c (List.mem_cons_of_mem _ hc)]
    by_cases hx : x < b
    · simp [hx, Nat.lt_trans hx hb]
    · simp [hx]

/-- Flips from `n` on do not matter below `n`. -/
theorem within_filter_lt {state : Bool} {bounds : List Nat} {n x : Nat}
    (h : bounds.Pairwise (· < ·)) (hx : x < n) :
    within state (bounds.filter (· < n)) x = within state bounds x := by
  induction bounds generalizing state with
  | nil => rfl
  | cons b rest ih =>
    obtain ⟨hb, hrest⟩ := List.pairwise_cons.1 h
    by_cases hbn : b < n
    · simp [hbn, within, ih hrest]
    · have hall : ∀ c ∈ b :: rest, n ≤ c := by
        intro c hc
        rcases List.mem_cons.1 hc with rfl | hc
        · omega
        · have := hb c hc
          omega
      rw [List.filter_eq_nil_iff.2 fun c hc => by simpa using hall c hc]
      exact (within_of_lt fun c hc => Nat.lt_of_lt_of_le hx (hall c hc)).symm

/-- The flips of a truth that ascend strictly are determined by it. -/
theorem ext_within (state : Bool) {a b : List Nat} (ha : a.Pairwise (· < ·))
    (hb : b.Pairwise (· < ·)) (h : ∀ x, within state a x = within state b x) : a = b := by
  induction a generalizing state b with
  | nil =>
    cases b with
    | nil => rfl
    | cons y b =>
      have := h y
      rw [within_cons_of_le (Nat.le_refl y), within_of_lt (List.pairwise_cons.1 hb).1] at this
      cases state <;> simp [within] at this
  | cons x a ih =>
    obtain ⟨hxa, ha'⟩ := List.pairwise_cons.1 ha
    cases b with
    | nil =>
      have := h x
      rw [within_cons_of_le (Nat.le_refl x), within_of_lt hxa] at this
      cases state <;> simp [within] at this
    | cons y b =>
      obtain ⟨hyb, hb'⟩ := List.pairwise_cons.1 hb
      have hxy : x = y := by
        rcases Nat.lt_trichotomy x y with hlt | heq | hgt
        · have := h x
          rw [within_cons_of_le (Nat.le_refl x), within_of_lt hxa] at this
          cases state <;> simp [within, hlt] at this
        · exact heq
        · have := h y
          rw [within_cons_of_le (Nat.le_refl y), within_of_lt hyb] at this
          cases state <;> simp [within, hgt] at this
      subst hxy
      refine congrArg (x :: ·) (ih (!state) ha' hb' fun z => ?_)
      by_cases hz : z < x
      · rw [within_of_lt fun c hc => Nat.lt_trans hz (hxa c hc),
          within_of_lt fun c hc => Nat.lt_trans hz (hyb c hc)]
      · have := h z
        rwa [within_cons_of_le (Nat.not_lt.1 hz), within_cons_of_le (Nat.not_lt.1 hz)] at this

theorem runsOnto_eq (bounds : List Nat) (acc : List (Nat × Nat)) :
    runsOnto bounds acc = acc.reverse ++ runsOnto bounds [] := by
  match bounds with
  | [] | [_] => simp [runsOnto]
  | lo :: hi :: rest =>
    rw [runsOnto, runsOnto_eq rest, runsOnto, runsOnto_eq rest [_]]
    simp

/-- The items up to the end of the flips are those of the runs. -/
theorem within_iff_runs {bounds : List Nat} {x : Nat} (h : bounds.Pairwise (· < ·)) {top : Nat}
    (htop : ∀ b ∈ bounds, b ≤ top) (hclosed : within false bounds top = false) :
    within false bounds x = true ↔ ∃ r ∈ runsOnto bounds [], r.1 ≤ x ∧ x ≤ r.2 := by
  match bounds with
  | [] => simp [within, runsOnto]
  | [b] =>
    rw [within_cons_of_le (htop b List.mem_cons_self)] at hclosed
    simp [within] at hclosed
  | lo :: hi :: rest =>
    obtain ⟨hlo, hrest⟩ := List.pairwise_cons.1 h
    obtain ⟨hhi, hrest⟩ := List.pairwise_cons.1 hrest
    have hlohi : lo < hi := hlo hi List.mem_cons_self
    rw [within_cons_of_le (htop lo List.mem_cons_self), within_cons_of_le
      (htop hi (List.mem_cons_of_mem _ List.mem_cons_self))] at hclosed
    have ih := within_iff_runs (x := x) hrest
      (fun b hb => htop b (List.mem_cons_of_mem _ (List.mem_cons_of_mem _ hb))) hclosed
    rw [runsOnto, runsOnto_eq]
    simp only [List.reverse_singleton, List.singleton_append, List.mem_cons, exists_eq_or_imp]
    by_cases hx : x < hi
    · have hnone : within false rest x = false :=
        within_of_lt fun b hb => Nat.lt_trans hx (hhi b hb)
      have : ¬ ∃ r ∈ runsOnto rest [], r.1 ≤ x ∧ x ≤ r.2 := by
        rw [← ih, hnone]
        simp
      simp only [this, or_false]
      by_cases hx' : x < lo
      · simp [within, hx', Nat.not_le.2 hx']
      · simp [within, hx', hx]
        omega
    · rw [within_cons_of_le (by omega), within_cons_of_le (by omega), Bool.not_not, ih]
      refine ⟨.inr, fun h => h.resolve_left ?_⟩
      omega

theorem mem_runsOnto_bounds {bounds : List Nat} {r : Nat × Nat} (h : r ∈ runsOnto bounds []) :
    r.1 ∈ bounds ∧ ∃ hi ∈ bounds, r.2 = hi - 1 := by
  match bounds with
  | [] | [_] => simp [runsOnto] at h
  | lo :: hi :: rest =>
    rw [runsOnto, runsOnto_eq] at h
    simp only [List.reverse_singleton, List.singleton_append, List.mem_cons] at h
    rcases h with rfl | h
    · exact ⟨by simp, hi, by simp, rfl⟩
    · obtain ⟨h1, b, hb, h2⟩ := mem_runsOnto_bounds h
      exact ⟨by simp [h1], b, by simp [hb], h2⟩

/-- Of two runs, the later one ends later. -/
theorem pairwise_runsOnto {bounds : List Nat} (h : bounds.Pairwise (· < ·)) :
    (runsOnto bounds []).Pairwise fun r q => r.2 < q.2 := by
  match bounds with
  | [] | [_] => simp [runsOnto]
  | lo :: hi :: rest =>
    obtain ⟨hlo, hrest⟩ := List.pairwise_cons.1 h
    obtain ⟨hhi, hrest⟩ := List.pairwise_cons.1 hrest
    have hlohi : lo < hi := hlo hi List.mem_cons_self
    rw [runsOnto, runsOnto_eq]
    refine List.pairwise_cons.2 ⟨fun q hq => ?_, pairwise_runsOnto hrest⟩
    obtain ⟨-, top, htop, hend⟩ := mem_runsOnto_bounds hq
    have hlt : hi < top := hhi top htop
    simp only [hend]
    omega

theorem pairwise_indices_of {bounds : List Nat} (h : bounds.Pairwise (· < ·)) :
    ((runsOnto bounds []).flatMap fun r => List.range' r.1 (r.2 + 1 - r.1)).Pairwise (· < ·) := by
  match bounds with
  | [] | [_] => simp [runsOnto]
  | lo :: hi :: rest =>
    obtain ⟨hlo, hrest⟩ := List.pairwise_cons.1 h
    obtain ⟨hhi, hrest⟩ := List.pairwise_cons.1 hrest
    have hlohi : lo < hi := hlo hi List.mem_cons_self
    rw [runsOnto, runsOnto_eq]
    simp only [List.reverse_singleton, List.singleton_append, List.flatMap_cons]
    refine List.pairwise_append.2 ⟨List.pairwise_lt_range', pairwise_indices_of hrest, ?_⟩
    intro x hx y hy
    obtain ⟨r, hr, hy⟩ := List.mem_flatMap.1 hy
    have hlt := hhi r.1 (mem_runsOnto_bounds hr).1
    simp only [List.mem_range'_1] at hx hy
    omega

/-- The size of runs is how many numbers they list. -/
theorem runsSize_eq_length (runs : List (Nat × Nat)) :
    runsSize runs = (runs.flatMap fun r => List.range' r.1 (r.2 + 1 - r.1)).length := by
  suffices h : ∀ n, runs.foldl (fun n r => n + (r.2 + 1 - r.1)) n
      = n + (runs.flatMap fun r => List.range' r.1 (r.2 + 1 - r.1)).length by
    rw [runsSize, h, Nat.zero_add]
  induction runs with
  | nil => simp
  | cons r rest ih =>
    intro n
    rw [List.foldl_cons, ih, List.flatMap_cons, List.length_append, List.length_range']
    omega

end Flips

end EvidenceTags
