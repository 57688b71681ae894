import EvidenceTags.Ascending
import EvidenceTags.Flags.Basic
import EvidenceTags.Flips.Lemmas
import EvidenceTags.ItemSet.Lemmas

/-!
# Laws of rows of flags

Every operation on a row is described by which flags are set: `isSet_set`, `isSet_setAll`,
`isSet_resize`. Rows of one size with the same flags are equal (`ext_isSet`), so a row and the list
of its flags determine each other (`ofList_toList`, `toList_ofList`), the operations do to the list
what they do to the row (`toList_set`, `toList_setAll`, `toList_resize`), and the count is that of
the list (`count_eq_count_toList`).
-/

namespace EvidenceTags

namespace Flags

open Flips

theorem isSet_of_size_le {f : Flags} {place : Nat} (h : f.size ≤ place) :
    f.isSet place = false := by
  simp [isSet, Nat.not_lt.2 h]

@[simp] theorem isSet_unset (size place : Nat) : (unset size).isSet place = false := by
  simp [isSet, unset, within]

theorem isSet_ofFlips {size : Nat} {flips : List Nat} (h : flips.Pairwise (· < ·)) (place : Nat) :
    (ofFlips size flips h).isSet place = (decide (place < size) && within false flips place) := by
  by_cases hp : place < size
  · simp [isSet, ofFlips, hp, within_filter_lt h hp]
  · simp [isSet, ofFlips, hp]

/-- The flips with the one at the end stand for the flags, beyond the row as well. -/
theorem within_bounds (f : Flags) (place : Nat) : within false f.bounds place = f.isSet place := by
  have hend (h : f.size ≤ place) :
      within false f.flips place = decide (f.flips.length % 2 = 1) := by
    rw [within_of_all_le fun b hb => Nat.le_trans (Nat.le_of_lt (f.bounded b hb)) h, Bool.false_xor]
  unfold bounds isSet
  split
  · rename_i heven
    by_cases hp : place < f.size
    · simp [hp]
    · simp [hp, hend (Nat.not_lt.1 hp), heven]
  · rename_i hodd
    rw [within_append_singleton f.bounded]
    by_cases hp : place < f.size
    · simp [hp]
    · simp [hp, hend (Nat.not_lt.1 hp), Nat.mod_two_ne_zero.1 hodd]

@[simp] theorem isSet_set (f : Flags) (place : Nat) (value : Bool) (q : Nat) :
    (f.set place value).isSet q = if q = place ∧ q < f.size then value else f.isSet q := by
  have hhere : within false [place, place + 1] q = decide (q = place) := by
    by_cases h1 : q < place
    · simp [within, h1, Nat.ne_of_lt h1]
    · by_cases h2 : q < place + 1
      · simp [within, h1, h2]
        omega
      · simp [within, h1, h2]
        omega
  rw [set, isSet_ofFlips, within_combine (by cases value <;> rfl) q f.ascending (by simp), hhere,
    isSet]
  by_cases hq : q < f.size
  · by_cases hp : q = place
    · subst hp
      cases value <;> simp [hq]
    · cases value <;> simp [hq, hp]
  · simp [hq]

@[simp] theorem isSet_setAll (f : Flags) (items : ItemSet) (place : Nat) :
    (f.setAll items).isSet place
      = (decide (place < f.size) && (f.isSet place || within false items.bounds place)) := by
  rw [setAll, isSet_ofFlips, within_combine rfl place f.ascending items.ascending, isSet]
  by_cases hp : place < f.size <;> simp [hp]

@[simp] theorem isSet_resize (f : Flags) (size place : Nat) :
    (f.resize size).isSet place = (decide (place < size) && f.isSet place) := by
  rw [resize, isSet_ofFlips, within_bounds]

@[simp] theorem size_set (f : Flags) (place : Nat) (value : Bool) :
    (f.set place value).size = f.size := rfl

@[simp] theorem size_setAll (f : Flags) (items : ItemSet) : (f.setAll items).size = f.size := rfl

@[simp] theorem size_resize (f : Flags) (size : Nat) : (f.resize size).size = size := rfl

/-- Rows of one size with the same flags are equal. -/
theorem ext_isSet {f g : Flags} (hsize : f.size = g.size)
    (h : ∀ place, f.isSet place = g.isSet place) :
    f = g := by
  have hinside (place : Nat) (hp : place < f.size) :
      within false f.flips place = within false g.flips place := by
    have := h place
    simpa [isSet, hp, hsize ▸ hp] using this
  have hflips : f.flips = g.flips := by
    refine ext_within false f.ascending g.ascending fun place => ?_
    by_cases hp : place < f.size
    · exact hinside place hp
    · by_cases h0 : f.size = 0
      · have hf : f.flips = [] :=
          List.eq_nil_iff_forall_not_mem.2 fun b hb => by have := f.bounded b hb; omega
        have hg : g.flips = [] :=
          List.eq_nil_iff_forall_not_mem.2 fun b hb => by have := g.bounded b hb; omega
        rw [hf, hg]
      · have hlast (r : Flags) (hr : r.size = f.size) :
            within false r.flips place = within false r.flips (f.size - 1) :=
          within_of_le (fun b hb => by have := r.bounded b hb; omega)
            (fun b hb => by have := r.bounded b hb; omega)
        rw [hlast f rfl, hlast g hsize.symm, hinside (f.size - 1) (by omega)]
  cases f
  cases g
  simp_all

/-- Flags that get the same value can be set in either order. -/
theorem set_comm (f : Flags) (place place' : Nat) (value : Bool) :
    (f.set place value).set place' value = (f.set place' value).set place value := by
  refine ext_isSet rfl fun q => ?_
  simp only [isSet_set, size_set]
  split <;> split <;> rfl

theorem spreadOnto_eq {flips : List Nat} {top : Nat} (acc : List Bool)
    (h : flips.Pairwise (· > ·)) (htop : ∀ b ∈ flips, b ≤ top) :
    spreadOnto (decide (flips.length % 2 = 1)) top flips acc
      = (List.range top).map (within false flips.reverse) ++ acc := by
  induction flips generalizing top acc with
  | nil =>
    refine congrArg (· ++ acc) (List.ext_getElem (by simp) fun i _ _ => ?_)
    simp [within]
  | cons b rest ih =>
    obtain ⟨hb, hrest⟩ := List.pairwise_cons.1 h
    have hbt := htop b List.mem_cons_self
    have hlt : ∀ c ∈ rest.reverse, c < b := fun c hc => hb c (List.mem_reverse.1 hc)
    have hstate : (!decide ((b :: rest).length % 2 = 1)) = decide (rest.length % 2 = 1) := by
      rcases Nat.mod_two_eq_zero_or_one rest.length with h0 | h0 <;>
        simp [List.length_cons, h0, Nat.add_mod]
    rw [spreadOnto, hstate, ih _ hrest fun c hc => Nat.le_of_lt (hb c hc), ← List.append_assoc]
    refine congrArg (· ++ acc) ?_
    have hsplit : top = b + (top - b) := by omega
    rw [hsplit, List.range_add, List.map_append, List.reverse_cons]
    refine congr (congrArg _ (List.map_congr_left fun x hx => ?_)) ?_
    · rw [within_append_singleton hlt, if_pos (List.mem_range.1 hx)]
    · refine List.ext_getElem (by simp) fun i _ _ => ?_
      simp only [List.getElem_replicate, List.getElem_map, List.getElem_range]
      rw [within_append_singleton hlt, if_neg (by omega),
        within_of_all_le fun c hc => Nat.le_trans (Nat.le_of_lt (hlt c hc)) (Nat.le_add_right b i),
        List.length_reverse, Bool.false_xor, ← hstate, Bool.not_not]

/-- The list has the flags of all places in order. -/
theorem toList_eq (f : Flags) : f.toList = (List.range f.size).map f.isSet := by
  have hspread :
      f.toList = (List.range f.size).map (within false f.flips.reverse.reverse) ++ [] := by
    rw [toList, ← List.length_reverse]
    exact spreadOnto_eq [] (List.pairwise_reverse.2 f.ascending)
      fun b hb => Nat.le_of_lt (f.bounded b (List.mem_reverse.1 hb))
  rw [hspread, List.reverse_reverse, List.append_nil]
  refine List.map_congr_left fun place hp => ?_
  simp [isSet, List.mem_range.1 hp]

@[simp] theorem length_toList (f : Flags) : f.toList.length = f.size := by
  simp [toList_eq]

theorem within_changes {state : Bool} {start : Nat} {flags : List Bool} {i : Nat}
    (h : i < flags.length) : within state (changes state start flags) (start + i) = flags[i] := by
  induction flags generalizing state start i with
  | nil => simp at h
  | cons flag rest ih =>
    have hlow (s : Bool) : ∀ b ∈ changes s (start + 1) rest, start < b :=
      fun b hb => (mem_changes hb).1
    cases i with
    | zero =>
      rw [changes]
      split
      · rename_i heq
        exact (within_of_lt (hlow state)).trans heq.symm
      · rename_i hne
        refine (within_cons_of_le (Nat.le_refl start)).trans ((within_of_lt (hlow flag)).trans ?_)
        revert hne
        cases flag <;> cases state <;> simp
    | succ i =>
      have hi : i < rest.length := Nat.lt_of_succ_lt_succ h
      have hstep : start + (i + 1) = (start + 1) + i := by omega
      rw [changes, hstep]
      split
      · exact ih hi
      · rename_i hne
        rw [within_cons_of_le (by omega)]
        have hflag : (!state) = flag := by
          revert hne
          cases flag <;> cases state <;> simp
        rw [hflag]
        exact ih hi

/-- A row has the flags of the list that it is made of. -/
theorem isSet_ofList (flags : List Bool) (place : Nat) :
    (ofList flags).isSet place = flags[place]?.getD false := by
  unfold isSet ofList
  by_cases hp : place < flags.length
  · have hat : within false (changes false 0 flags) (0 + place) = flags[place] := within_changes hp
    rw [Nat.zero_add] at hat
    simp [hp, changesOnto_eq, hat]
  · simp [hp]

theorem toList_ofList (flags : List Bool) : (ofList flags).toList = flags := by
  have hsize : (ofList flags).size = flags.length := rfl
  refine List.ext_getElem (by simp [hsize]) fun i h1 h2 => ?_
  simp [toList_eq, isSet_ofList, h2]

theorem ofList_toList (f : Flags) : ofList f.toList = f := by
  refine ext_isSet (by simp [ofList]) fun place => ?_
  rw [isSet_ofList, toList_eq]
  by_cases hp : place < f.size
  · simp [hp]
  · simp [hp, isSet_of_size_le (Nat.not_lt.1 hp)]

theorem toList_unset (size : Nat) : (unset size).toList = List.replicate size false := by
  apply List.ext_getElem
  · simp [unset]
  · intro place _ _
    simp [toList_eq]

/-- A place beyond the row is passed over, as it is in the list. -/
theorem toList_set (f : Flags) (place : Nat) (value : Bool) :
    (f.set place value).toList = f.toList.set place value := by
  apply List.ext_getElem
  · simp
  · intro q hq _
    have hin : q < f.size := by simpa using hq
    simp [toList_eq, List.getElem_set, hin, eq_comm (a := q)]

theorem toList_setAll (f : Flags) (items : ItemSet) :
    (f.setAll items).toList = f.toList.mapIdx
      fun place flag => flag || decide (place ∈ items.indices) := by
  apply List.ext_getElem
  · simp
  · intro place hplace _
    have hin : place < f.size := by simpa using hplace
    have hwithin : within false items.bounds place = decide (place ∈ items.indices) := by
      rw [Bool.eq_iff_iff, decide_eq_true_iff, items.mem_indices]
    simp [toList_eq, hin, hwithin]

/-- The flags are cut off, or followed by flags that are not set. -/
theorem toList_resize (f : Flags) (size : Nat) :
    (f.resize size).toList
      = f.toList.take size ++ List.replicate (size - f.toList.length) false := by
  rw [length_toList]
  apply List.ext_getElem?
  intro place
  rw [toList_eq, toList_eq, size_resize]
  by_cases hin : place < size
  · by_cases hhere : place < f.size
    · have hlength : place < (((List.range f.size).map f.isSet).take size).length := by
        rw [List.length_take, List.length_map, List.length_range]
        exact Nat.lt_min.2 ⟨hin, hhere⟩
      rw [List.getElem?_append_left hlength]
      simp [hin, hhere]
    · -- there is no such flag, so it is not set
      have hlength : (((List.range f.size).map f.isSet).take size).length ≤ place := by
        simp
        omega
      rw [List.getElem?_append_right hlength, List.getElem?_replicate_of_lt]
      · simp [hin, isSet_of_size_le (Nat.le_of_not_lt hhere)]
      · simp
        omega
  · have hlength : size ≤ place := Nat.le_of_not_lt hin
    rw [List.getElem?_eq_none (by simpa using hlength), List.getElem?_eq_none]
    simp
    omega

theorem resize_self (f : Flags) : f.resize f.size = f := by
  refine ext_isSet rfl fun place => ?_
  rw [isSet_resize]
  by_cases hin : place < f.size
  · simp [hin]
  · simp [isSet_of_size_le (Nat.le_of_not_lt hin)]

/-- The runs cover exactly the places whose flags are set. -/
theorem isSet_iff_runs (f : Flags) (place : Nat) :
    f.isSet place = true ↔ ∃ r ∈ f.runs, r.1 ≤ place ∧ place ≤ r.2 := by
  have hle : ∀ b ∈ f.bounds, b ≤ f.size := by
    intro b hb
    unfold bounds at hb
    split at hb
    · exact Nat.le_of_lt (f.bounded b hb)
    · rcases List.mem_append.1 hb with hb | hb
      · exact Nat.le_of_lt (f.bounded b hb)
      · exact Nat.le_of_eq (List.mem_singleton.1 hb)
  rw [← within_bounds]
  exact within_iff_runs f.pairwise_bounds hle
    ((within_bounds f f.size).trans (isSet_of_size_le (Nat.le_refl _)))

/-- The count is how many flags of the list are set. -/
theorem count_eq_count_toList (f : Flags) : f.count = f.toList.count true := by
  rw [count, runsSize_eq_length, toList_eq, List.count, List.countP_map,
    List.countP_eq_length_filter]
  refine congrArg List.length (Ascending.eq_of_mem_iff Nat.lt_asymm
    (pairwise_indices_of f.pairwise_bounds) (List.pairwise_lt_range.filter _) fun place => ?_)
  have hruns := isSet_iff_runs f place
  simp only [List.mem_flatMap, List.mem_range'_1, List.mem_filter, List.mem_range,
    Function.comp_apply, beq_true]
  constructor
  · rintro ⟨r, hr, hp⟩
    have hset := hruns.2 ⟨r, hr, by omega, by omega⟩
    refine ⟨Nat.lt_of_not_le fun hle => ?_, hset⟩
    rw [isSet_of_size_le hle] at hset
    exact Bool.false_ne_true hset
  · rintro ⟨_, hset⟩
    obtain ⟨r, hr, hp⟩ := hruns.1 hset
    exact ⟨r, hr, by omega, by omega⟩

theorem count_le_size (f : Flags) : f.count ≤ f.size := by
  rw [count_eq_count_toList, ← length_toList]
  exact List.count_le_length

end Flags

end EvidenceTags
