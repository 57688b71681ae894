import EvidenceTags.Proofs.Operations
import Mathlib.Data.List.Nodup
import Mathlib.Data.List.TakeWhile

/-!
# Typed words, in the order of their first use

`FirstUse` says which words are remembered of the texts that have been passed: those that are not
blank, each once and as it was passed, in the order in which they were first passed. A text is blank
if nothing of it is left without the white space at its ends. To pass one more text keeps this
(`CaseState.firstUse_addTypedWord`), and other operations leave the words alone
(`CaseState.typedWords_perform`).
-/

namespace EvidenceTags

/-- A text without the white space at its ends. -/
def trimmed (text : String) : String :=
  String.ofList ((text.toList.dropWhile CaseState.isWhiteSpace).reverse.dropWhile
    CaseState.isWhiteSpace).reverse

/-- Nothing is left exactly of white space. -/
theorem trimmed_eq_empty {text : String} :
    trimmed text = "" ↔ text.toList.all CaseState.isWhiteSpace = true := by
  have hempty : ("" : String) = String.ofList [] := rfl
  rw [trimmed, hempty, String.ofList_inj, List.reverse_eq_nil_iff, List.dropWhile_eq_nil_iff,
    List.all_eq_true]
  constructor
  · intro hrest c hc
    rw [← List.takeWhile_append_dropWhile (p := CaseState.isWhiteSpace) (l := text.toList)] at hc
    rcases List.mem_append.1 hc with hfront | hback
    · exact List.mem_takeWhile_imp hfront
    · exact hrest c (List.mem_reverse.2 hback)
  · intro hall c hc
    exact hall c ((List.dropWhile_sublist _).mem (List.mem_reverse.1 hc))

/-- The words are the texts that are not blank, each once, in the order in which they were first
passed. -/
structure FirstUse (passed words : List String) : Prop where
  mem : ∀ text, text ∈ words ↔ text ∈ passed ∧ trimmed text ≠ ""
  once : words.Nodup
  order : words.Pairwise fun a b => passed.idxOf a < passed.idxOf b

namespace FirstUse

variable {passed words : List String} {word : String}

theorem empty : FirstUse [] [] := ⟨by simp, List.nodup_nil, List.Pairwise.nil⟩

/-- Later texts do not change when a word was first passed. -/
theorem order_concat (h : FirstUse passed words) (word : String) :
    words.Pairwise fun a b => (passed ++ [word]).idxOf a < (passed ++ [word]).idxOf b := by
  refine h.order.imp_of_mem ?_
  intro a b ha hb hlt
  rw [List.idxOf_append_of_mem ((h.mem a).1 ha).1, List.idxOf_append_of_mem ((h.mem b).1 hb).1]
  exact hlt

/-- A text that is blank or known changes nothing. -/
theorem pass_old (h : FirstUse passed words) (hold : trimmed word = "" ∨ word ∈ words) :
    FirstUse (passed ++ [word]) words := by
  refine ⟨?_, h.once, h.order_concat word⟩
  intro text
  rw [List.mem_append, List.mem_singleton]
  constructor
  · intro htext
    have hpassed := (h.mem text).1 htext
    exact ⟨.inl hpassed.1, hpassed.2⟩
  · rintro ⟨hpassed | rfl, hnot⟩
    · exact (h.mem text).2 ⟨hpassed, hnot⟩
    · exact hold.resolve_left hnot

theorem pass_new (h : FirstUse passed words) (hnot : trimmed word ≠ "") (hnew : word ∉ words) :
    FirstUse (passed ++ [word]) (words ++ [word]) := by
  have hfirst : word ∉ passed := fun hpassed => hnew ((h.mem word).2 ⟨hpassed, hnot⟩)
  constructor
  case mem =>
    intro text
    rw [List.mem_append, List.mem_append, List.mem_singleton, h.mem]
    constructor
    · rintro (⟨hpassed, hblank⟩ | rfl)
      · exact ⟨.inl hpassed, hblank⟩
      · exact ⟨.inr rfl, hnot⟩
    · rintro ⟨hpassed | rfl, hblank⟩
      · exact .inl ⟨hpassed, hblank⟩
      · exact .inr rfl
  case once =>
    rw [← List.concat_eq_append]
    exact h.once.concat hnew
  case order =>
    refine List.pairwise_append.2 ⟨h.order_concat word, List.pairwise_singleton _ _, ?_⟩
    intro a ha b hb
    rw [List.mem_singleton.1 hb, List.idxOf_append_of_mem ((h.mem a).1 ha).1,
      List.idxOf_append_of_notMem hfirst]
    exact Nat.lt_add_right _ (List.idxOf_lt_length_of_mem ((h.mem a).1 ha).1)

end FirstUse

/-- The texts that an operation passes to be remembered. -/
def Operation.typed : Operation → List String
  | .addTypedWord word => [word]
  | _ => []

namespace CaseState

variable {s : CaseState}

/-- A text that is passed is remembered as it should be. -/
theorem firstUse_addTypedWord {passed : List String} (h : FirstUse passed s.typedWords)
    (word : String) :
    FirstUse (passed ++ [word]) (s.addTypedWord word).2.typedWords := by
  have hblank := @trimmed_eq_empty word
  unfold addTypedWord
  split
  · rename_i hold
    exact h.pass_old (hold.imp_left hblank.2)
  · rename_i hnew
    exact h.pass_new (fun h => hnew (.inl (hblank.1 h))) fun h => hnew (.inr h)

/-- A text that is not new is no change. -/
theorem addTypedWord_of_not_new {word : String} (h : (s.addTypedWord word).1 = false) :
    (s.addTypedWord word).2 = s := by
  unfold addTypedWord at h ⊢
  split at h
  · rename_i hold
    rw [if_pos hold]
  · cases h

/-- Other operations leave the words alone, unless a snapshot replaces the state. -/
theorem typedWords_perform (domain : Domain) {op : Operation} (hop : op.typed = [])
    (hrestore : ∀ snapshot, op ≠ .restore snapshot) :
    (s.perform domain op).2.typedWords = s.typedWords := by
  cases op with
  | createTag name =>
    show (s.createTag name).2.typedWords = s.typedWords
    unfold createTag
    split <;> rfl
  | addMembers items tag | removeMembers items tag =>
    exact settle_roster (I := fun s' => s'.typedWords = s.typedWords) rfl fun _ _ => rfl
  | setComment tag comment =>
    exact settle_changeRegistry (I := fun s' => s'.typedWords = s.typedWords) rfl
      (·.setComment tag comment) fun _ _ => rfl
  | setKeyBinding tag key =>
    exact settle_changeRegistry (I := fun s' => s'.typedWords = s.typedWords) rfl
      (·.setKeyBinding tag key) fun _ _ => rfl
  | setColor tag color =>
    exact settle_changeRegistry (I := fun s' => s'.typedWords = s.typedWords) rfl
      (·.setColor tag color) fun _ _ => rfl
  | setInReport tag value =>
    exact settle_changeRegistry (I := fun s' => s'.typedWords = s.typedWords) rfl
      (·.setInReport tag value) fun _ _ => rfl
  | addTypedWord word => cases hop
  | restore snapshot => exact absurd rfl (hrestore snapshot)
  | _ => rfl

end CaseState

end EvidenceTags
