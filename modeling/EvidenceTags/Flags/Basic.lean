import EvidenceTags.Flips.Basic
import EvidenceTags.ItemSet.Basic

/-!
# Rows of flags

A row of flags has one truth for each place from `0` up to its size. Most rows are long and change
seldom, so a row is kept as its size and its flips. The invariants of the type are that the flips
ascend strictly and lie inside the row; hence rows with the same flags are equal
(`Flags.ext_isSet`, in `EvidenceTags.Flags.Lemmas`), and a row is as good as the list of its flags.
-/

namespace EvidenceTags

/-- A row of flags, as the ascending list of the places at which they flip. -/
structure Flags where
  size : Nat
  flips : List Nat
  ascending : flips.Pairwise (· < ·)
  bounded : ∀ b ∈ flips, b < size

namespace Flags

open Flips

instance : DecidableEq Flags := fun a b =>
  decidable_of_iff (a.size = b.size ∧ a.flips = b.flips) (by cases a; cases b; simp)

/-- The row of a size in which no flag is set. -/
def unset (size : Nat) : Flags := ⟨size, [], pairwise_nil, fun _ h => absurd h List.not_mem_nil⟩

instance : Inhabited Flags := ⟨unset 0⟩

/-- The row of a size that flips at these places, as far as they are inside. -/
def ofFlips (size : Nat) (flips : List Nat) (h : flips.Pairwise (· < ·)) : Flags where
  size := size
  flips := flips.filter (· < size)
  ascending := h.filter _
  bounded := by simp

/-- Whether the flag at a place is set. There is nothing to be set beyond the row. -/
def isSet (f : Flags) (place : Nat) : Bool := decide (place < f.size) && within false f.flips place

/-- The flips of the row, with the one at its end if its last flag is set. -/
def bounds (f : Flags) : List Nat :=
  if f.flips.length % 2 = 0 then f.flips else f.flips ++ [f.size]

theorem pairwise_bounds (f : Flags) : f.bounds.Pairwise (· < ·) := by
  unfold bounds
  split
  · exact f.ascending
  · refine List.pairwise_append.2 ⟨f.ascending, List.pairwise_singleton _ _, fun a ha b hb => ?_⟩
    rw [List.mem_singleton.1 hb]
    exact f.bounded a ha

/-- Sets or unsets the flag at a place of the row. -/
def set (f : Flags) (place : Nat) (value : Bool) : Flags :=
  let here := [place, place + 1]
  let op := if value then fun p q => p || q else fun p q => p && !q
  ofFlips f.size (combine op f.flips here) (pairwise_combine op f.ascending (by simp [here]))

/-- Sets the flags at all items of a set that are places of the row. -/
def setAll (f : Flags) (items : ItemSet) : Flags :=
  ofFlips f.size (combine (· || ·) f.flips items.bounds)
    (pairwise_combine _ f.ascending items.ascending)

/-- The row cut to a size, or made longer by flags that are not set. -/
def resize (f : Flags) (size : Nat) : Flags := ofFlips size f.bounds f.pairwise_bounds

/-- The maximal runs of set flags, ascending, each with its first and its last place. -/
def runs (f : Flags) : List (Nat × Nat) := Flips.runs f.bounds

/-- How many flags are set. -/
def count (f : Flags) : Nat := runsSize f.runs

/-- The flags below `top` in front of `acc`, where `state` holds just below `top` and the flips are
given from the highest to the lowest. -/
def spreadOnto : Bool → Nat → List Nat → List Bool → List Bool
  | state, top, [], acc => List.replicate top state ++ acc
  | state, top, b :: rest, acc =>
    spreadOnto (!state) b rest (List.replicate (top - b) state ++ acc)

/-- The flags one after another. -/
def toList (f : Flags) : List Bool :=
  spreadOnto (decide (f.flips.length % 2 = 1)) f.size f.flips.reverse []

/-- The places from `place` on at which the flags of a list flip, where `state` holds before. -/
def changes : Bool → Nat → List Bool → List Nat
  | _, _, [] => []
  | state, place, flag :: rest =>
    if flag = state then changes state (place + 1) rest
    else place :: changes flag (place + 1) rest

/-- What `changes` finds, behind the reversed list `acc`, in constant stack. -/
def changesOnto : Bool → Nat → List Bool → List Nat → List Nat
  | _, _, [], acc => acc.reverse
  | state, place, flag :: rest, acc =>
    changesOnto flag (place + 1) rest (if flag = state then acc else place :: acc)

theorem changesOnto_eq (state : Bool) (place : Nat) (flags : List Bool) (acc : List Nat) :
    changesOnto state place flags acc = acc.reverse ++ changes state place flags := by
  induction flags generalizing state place acc with
  | nil => simp [changesOnto, changes]
  | cons flag rest ih =>
    rw [changesOnto, ih, changes]
    split
    · rename_i h
      rw [h]
    · simp

theorem mem_changes {state : Bool} {place : Nat} {flags : List Bool} {b : Nat}
    (h : b ∈ changes state place flags) : place ≤ b ∧ b < place + flags.length := by
  induction flags generalizing state place with
  | nil => simp [changes] at h
  | cons flag rest ih =>
    rw [List.length_cons]
    rw [changes] at h
    split at h
    · have := ih h
      omega
    · rcases List.mem_cons.1 h with rfl | h
      · omega
      · have := ih h
        omega

theorem pairwise_changes (state : Bool) (place : Nat) (flags : List Bool) :
    (changes state place flags).Pairwise (· < ·) := by
  induction flags generalizing state place with
  | nil => exact .nil
  | cons flag rest ih =>
    rw [changes]
    split
    · exact ih state (place + 1)
    · exact List.pairwise_cons.2 ⟨fun b hb => (mem_changes hb).1, ih flag (place + 1)⟩

/-- The row of the flags of a list. -/
def ofList (flags : List Bool) : Flags where
  size := flags.length
  flips := changesOnto false 0 flags []
  ascending := by
    simpa [changesOnto_eq] using pairwise_changes false 0 flags
  bounded := by
    intro b hb
    rw [changesOnto_eq] at hb
    simpa using (mem_changes hb).2

end Flags

end EvidenceTags
