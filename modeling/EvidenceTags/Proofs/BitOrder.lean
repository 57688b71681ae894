import EvidenceTags.Proofs.LegacyMembers
import Mathlib.Data.List.Dedup
import Mathlib.Data.List.Perm.Basic

/-!
# Tag bits set in any order

To set a tag is to change one byte by one mask. Masks commute, and the other bytes are not touched,
so tags can be set in any order (`TagBits.insert_comm`), and to set one again changes nothing
(`TagBits.insert_insert`). So what a vector becomes depends on which tags are set, and on nothing
else (`TagBits.insertAll_congr`); which tags it then holds, `TagBits.insertAll_sets` says. A vector
of more than `2 ^ 29` bytes has bits that belong to no tag. That is why the bytes are compared, and
not only the tags that they hold.

The same goes for the pairs of an item and a tag that a legacy state is given: in whatever order
they come, the state is the same (`LegacySnapshot.built_congr`), and so is its file.
-/

namespace EvidenceTags

/-! ## Changes that commute -/

section

variable {α β : Type}

/-- Two changes that commute can be made in either order, at one place of a list or at two. -/
theorem modify_comm {f g : α → α} (h : ∀ a, f (g a) = g (f a)) (l : List α) (i j : Nat) :
    (l.modify i f).modify j g = (l.modify j g).modify i f := by
  by_cases hij : i = j
  · have hboth : g ∘ f = f ∘ g := funext fun a => (h a).symm
    rw [hij, List.modify_modify_eq, List.modify_modify_eq, hboth]
  · exact List.modify_modify_ne f g l hij

theorem modify_modify_self {f : α → α} (h : ∀ a, f (f a) = f a) (l : List α) (i : Nat) :
    (l.modify i f).modify i f = l.modify i f := by
  have honce : f ∘ f = f := funext h
  rw [List.modify_modify_eq, honce]

variable {f : β → α → β} [RightCommutative f] {l l' : List α}

/-- What comes later anyway need not be done first. -/
theorem foldl_apply_of_mem (hagain : ∀ b a, f (f b a) a = f b a) {a : α} (h : a ∈ l) (b : β) :
    l.foldl f (f b a) = l.foldl f b := by
  induction l generalizing b with
  | nil => cases h
  | cons first rest ih =>
    rw [List.foldl_cons, List.foldl_cons]
    rcases List.mem_cons.1 h with rfl | hrest
    · rw [hagain]
    · have hswap : f (f b a) first = f (f b first) a := RightCommutative.right_comm b a first
      rw [hswap, ih hrest]

theorem foldl_dedup [DecidableEq α] (hagain : ∀ b a, f (f b a) a = f b a) (l : List α) (b : β) :
    l.dedup.foldl f b = l.foldl f b := by
  induction l generalizing b with
  | nil => rfl
  | cons first rest ih =>
    by_cases hlater : first ∈ rest
    · rw [List.dedup_cons_of_mem hlater, ih, List.foldl_cons, foldl_apply_of_mem hagain hlater]
    · rw [List.dedup_cons_of_notMem hlater, List.foldl_cons, List.foldl_cons, ih]

/-- If doing something again changes nothing, neither the order nor the number of times matters. -/
theorem foldl_congr_mem [DecidableEq α] (hagain : ∀ b a, f (f b a) a = f b a)
    (h : ∀ a, a ∈ l ↔ a ∈ l') (b : β) : l.foldl f b = l'.foldl f b := by
  have hsame : l.dedup.Perm l'.dedup := by
    rw [List.perm_ext_iff_of_nodup (List.nodup_dedup l) (List.nodup_dedup l')]
    intro a
    rw [List.mem_dedup, List.mem_dedup]
    exact h a
  rw [← foldl_dedup hagain l, ← foldl_dedup hagain l']
  exact hsame.foldl_eq b

end

namespace TagBits

variable {bits : TagBits} {tag : TagId} {tags others : List TagId}

/-! ## Two tags -/

theorem insert_comm (bits : TagBits) (a b : TagId) :
    (bits.insert a).insert b = (bits.insert b).insert a := by
  have hmasks : ∀ byte : UInt8, byte ||| mask b ||| mask a = byte ||| mask a ||| mask b := by
    intro byte
    rw [UInt8.or_assoc, UInt8.or_comm (mask b), ← UInt8.or_assoc]
  exact congrArg TagBits.mk (modify_comm hmasks bits.bytes _ _)

instance : RightCommutative insert := ⟨insert_comm⟩

theorem insert_insert (bits : TagBits) (tag : TagId) :
    (bits.insert tag).insert tag = bits.insert tag := by
  have hmask : ∀ byte : UInt8, byte ||| mask tag ||| mask tag = byte ||| mask tag := by
    intro byte
    rw [UInt8.or_assoc, UInt8.or_self]
  exact congrArg TagBits.mk (modify_modify_self hmask bits.bytes _)

/-- No other tag is touched, whether its bit is in the same byte or in another one. -/
theorem contains_insert_of_ne {other : TagId} (h : other ≠ tag) :
    (bits.insert tag).contains other = bits.contains other := by
  rw [Bool.eq_iff_iff, contains_insert]
  simp [h]

/-! ## Many tags -/

/-- Sets tags one after another. -/
def insertAll (bits : TagBits) (tags : List TagId) : TagBits := tags.foldl insert bits

@[simp] theorem insertAll_nil (bits : TagBits) : bits.insertAll [] = bits := rfl

@[simp] theorem insertAll_cons (bits : TagBits) (tag : TagId) (tags : List TagId) :
    bits.insertAll (tag :: tags) = (bits.insert tag).insertAll tags := rfl

theorem length_insertAll (bits : TagBits) (tags : List TagId) :
    (bits.insertAll tags).bytes.length = bits.bytes.length := by
  induction tags generalizing bits with
  | nil => rfl
  | cons tag rest ih => rw [insertAll_cons, ih, length_insert]

/-- The tags that are set then are those that were, and those of the list that fit. -/
theorem contains_insertAll : (bits.insertAll tags).contains tag = true
    ↔ bits.contains tag = true ∨ tag ∈ tags ∧ byteIndex tag < bits.bytes.length := by
  induction tags generalizing bits with
  | nil => simp
  | cons first rest ih =>
    rw [insertAll_cons, ih, contains_insert, length_insert, List.mem_cons]
    constructor
    · rintro ((hset | ⟨rfl, hfits⟩) | ⟨hrest, hfits⟩)
      · exact .inl hset
      · exact .inr ⟨.inl rfl, hfits⟩
      · exact .inr ⟨.inr hrest, hfits⟩
    · rintro (hset | ⟨rfl | hrest, hfits⟩)
      · exact .inl (.inl hset)
      · exact .inl (.inr ⟨rfl, hfits⟩)
      · exact .inr ⟨hrest, hfits⟩

theorem byteIndex_lt_iff {n : Nat} : byteIndex tag < n ↔ tag.value.toNat < 8 * n := by
  rw [byteIndex, tagsPerByte]
  omega

/-- Neither the order of the tags matters, nor how often each of them is set. -/
theorem insertAll_congr (h : ∀ tag, tag ∈ tags ↔ tag ∈ others) :
    bits.insertAll tags = bits.insertAll others :=
  foldl_congr_mem insert_insert h bits

/-- Setting tags, in any order and as often as one likes, keeps the width. Then the tags are set
that were before, and those of the list that have a bit. The bytes are the same for every order. And
a further tag changes nothing for any other one. -/
theorem insertAll_sets (bits : TagBits) (tags : List TagId) :
    (bits.insertAll tags).bytes.length = bits.bytes.length
      ∧ (∀ tag, (bits.insertAll tags).contains tag = true
        ↔ bits.contains tag = true ∨ tag ∈ tags ∧ tag.value.toNat < 8 * bits.bytes.length)
      ∧ (∀ others : List TagId, others.Perm tags →
        (bits.insertAll others).bytes = (bits.insertAll tags).bytes)
      ∧ ∀ tag other, other ≠ tag →
        ((bits.insertAll tags).insert tag).contains other
          = (bits.insertAll tags).contains other := by
  refine ⟨length_insertAll bits tags, ?_, ?_, ?_⟩
  · intro tag
    rw [contains_insertAll, byteIndex_lt_iff]
  · intro others hperm
    rw [insertAll_congr fun _ => hperm.mem_iff]
  · intro tag other hne
    exact contains_insert_of_ne hne

/-- The tag `11` is set already, and there is no bit for the tag `20`. -/
theorem insertAll_sets_sample :
    let bits : TagBits := ⟨[0, 8]⟩
    let tags : List TagId := [⟨0⟩, ⟨9⟩, ⟨20⟩, ⟨7⟩, ⟨0⟩]
    let others : List TagId := [⟨7⟩, ⟨0⟩, ⟨20⟩, ⟨0⟩, ⟨9⟩]
    bits.insertAll tags = ⟨[129, 10]⟩
      ∧ others.Perm tags
      ∧ (bits.insertAll others).bytes = [129, 10]
      ∧ ((bits.insertAll tags).insert ⟨8⟩).contains ⟨9⟩ = true := by
  intro bits tags others
  have hbytes : bits.insertAll tags = ⟨[129, 10]⟩ := by decide
  have hperm : others.Perm tags := by decide
  obtain ⟨-, hcontains, hsame, hother⟩ := insertAll_sets bits tags
  refine ⟨hbytes, hperm, ?_, ?_⟩
  · rw [hsame others hperm, hbytes]
  · rw [hother ⟨8⟩ ⟨9⟩ (by decide)]
    exact (hcontains ⟨9⟩).2 (.inr ⟨by decide, by decide⟩)

end TagBits

namespace LegacySnapshot

/-! ## The bits of all items -/

/-- Gives an item the tag that it is paired with. -/
def setPair (s : LegacySnapshot) (p : ItemId × TagId) : LegacySnapshot := s.setMember p.1 p.2

theorem setPair_comm (s : LegacySnapshot) (p q : ItemId × TagId) :
    (s.setPair p).setPair q = (s.setPair q).setPair p := by
  have hbits : ∀ bits : TagBits, (bits.insert q.2).insert p.2 = (bits.insert p.2).insert q.2 := by
    intro bits
    exact bits.insert_comm q.2 p.2
  exact congrArg (fun members => { s with members })
    (modify_comm (f := (·.insert p.2)) (g := (·.insert q.2)) hbits s.members _ _)

instance : RightCommutative setPair := ⟨setPair_comm⟩

theorem setPair_setPair (s : LegacySnapshot) (p : ItemId × TagId) :
    (s.setPair p).setPair p = s.setPair p := by
  have hbits : ∀ bits : TagBits, (bits.insert p.2).insert p.2 = bits.insert p.2 := by
    intro bits
    exact bits.insert_insert p.2
  exact congrArg (fun members => { s with members })
    (modify_modify_self (f := (·.insert p.2)) hbits s.members _)

/-- A legacy state that is given the same pairs is the same, whatever their order and however often
each of them is given. -/
theorem built_congr (items slots : Nat) (names : TagMap String)
    {pairs others : List (ItemId × TagId)}
    (h : ∀ p, p ∈ pairs ↔ p ∈ others) :
    built items slots names pairs = built items slots names others :=
  foldl_congr_mem setPair_setPair h _

end LegacySnapshot

end EvidenceTags
