import EvidenceTags.Proofs.FilterMeaning

/-!
# Hits in two columns

Hits can be kept as two columns, the numbers and the scores, where what stands at one place belongs
together. `HitColumns` filters such columns in place: it goes through them by places, marks the
numbers that fail, and moves what is left towards the front, each number with its score. To read or
to write outside of a column is an error there, which the result tells.

* `exists_compactFrom?`: the loop that moves rows together does what `Hits.compactFrom` does to a
  list.
* `markFrom?_eq`: the loop that marks numbers asks about each live hit once, in order.
* `filters_in_place`: of columns that are `Built` in any way both are of one length, and what
  filters leave of them is what they leave of the list of hits that is built in the same way.
-/

namespace EvidenceTags

/-- Hits as a column of numbers and a column of scores. -/
structure HitColumns where
  ids : Array Int32
  scores : Array UInt32
deriving DecidableEq

namespace HitColumns

/-! ## Filtering by places -/

/-- Writes a value at a place of a column, if there is that place. -/
def write? {α : Type} (column : Array α) (place : Nat) (value : α) : Option (Array α) :=
  if h : place < column.size then some (column.set place value h) else none

/-- Columns without scores. -/
def ofIds (ids : Array Int32) : HitColumns := ⟨ids, Array.replicate ids.size 0⟩

/-- Columns with scores. The longer one is cut off. -/
def ofScored (ids : Array Int32) (scores : Array UInt32) : HitColumns :=
  let size := min ids.size scores.size
  ⟨ids.shrink size, scores.shrink size⟩

/-- Marks a place as excluded, if there is that place. -/
def exclude (c : HitColumns) (place : Nat) : HitColumns :=
  { c with ids := c.ids.setIfInBounds place Hit.excludedId }

/-- Moves the numbers that are not negative, from the place `next` up to `stop`, down to the place
`kept` and those after it, each with its score; the second part of the result is the place behind
the last of them. There is no result if a place is outside of a column. -/
def compactFrom? (stop : Nat) (c : HitColumns) (kept next : Nat) : Option (HitColumns × Nat) :=
  if next < stop then do
    let id ← c.ids[next]?
    if id < 0 then compactFrom? stop c kept (next + 1)
    else
      let ids ← write? c.ids kept id
      let score ← c.scores[next]?
      let scores ← write? c.scores kept score
      compactFrom? stop ⟨ids, scores⟩ (kept + 1) (next + 1)
  else some (c, kept)
termination_by stop - next

/-- Drops the places of negative numbers. -/
def compact? (c : HitColumns) : Option HitColumns := do
  let (c, kept) ← compactFrom? c.ids.size c 0 0
  some ⟨c.ids.shrink kept, c.scores.shrink kept⟩

variable {m : Type → Type} [Monad m]

/-- Asks `keep` about the numbers from the place `next` up to `stop` that are not negative, and
marks those that it rejects. There is no result if a place is outside of the column. -/
def markFrom? (keep : ItemId → m Bool) (stop : Nat) (ids : Array Int32) (next : Nat) :
    m (Option (Array Int32)) :=
  if next < stop then
    match ids[next]? with
    | none => pure none
    | some id =>
      if 0 ≤ id then do
        if ← keep id.toUInt32 then markFrom? keep stop ids (next + 1)
        else
          match write? ids next Hit.excludedId with
          | none => pure none
          | some ids => markFrom? keep stop ids (next + 1)
      else markFrom? keep stop ids (next + 1)
  else pure (some ids)
termination_by stop - next

/-- Keeps the places whose numbers `keep` accepts. -/
def retain? (keep : ItemId → m Bool) (c : HitColumns) : m (Option HitColumns) := do
  match ← markFrom? keep c.ids.size c.ids 0 with
  | none => pure none
  | some ids => pure (compact? ⟨ids, c.scores⟩)

/-! ## Rows and columns -/

/-- Both columns have the same places. -/
def Even (c : HitColumns) : Prop := c.ids.size = c.scores.size

/-- What stands at each place. -/
def rows (c : HitColumns) : Array Hit := Array.zipWith Hit.mk c.ids c.scores

/-- The columns of a list of hits. -/
def ofList (hits : List Hit) : HitColumns :=
  ⟨(hits.map Hit.id).toArray, (hits.map Hit.score).toArray⟩

theorem size_rows {c : HitColumns} (h : c.Even) : c.rows.size = c.ids.size := by
  rw [rows, Array.size_zipWith, ← h, Nat.min_self]

theorem even_ofList (hits : List Hit) : (ofList hits).Even := by
  simp [Even, ofList]

theorem toList_rows_ofList (hits : List Hit) : (ofList hits).rows.toList = hits := by
  simp [rows, ofList, List.zipWith_map_left, List.zipWith_map_right]

/-- Columns that belong together are those of their rows. -/
theorem ofList_toList_rows {c : HitColumns} (h : c.Even) : ofList c.rows.toList = c := by
  have hsize := size_rows h
  have hids : (c.rows.toList.map Hit.id).toArray = c.ids := by
    apply Array.ext
    · simpa using hsize
    · intro place _ _
      simp [rows]
  have hscores : (c.rows.toList.map Hit.score).toArray = c.scores := by
    apply Array.ext
    · simpa using hsize.trans h
    · intro place _ _
      simp [rows]
  rw [ofList, hids, hscores]

theorem rows_getElem {c : HitColumns} {place : Nat} (hid : place < c.ids.size)
    (hscore : place < c.scores.size) (h : place < c.rows.size) :
    c.rows[place] = ⟨c.ids[place], c.scores[place]⟩ := by
  simp [rows]

/-- To write into both columns is to write a row. -/
theorem rows_set {c : HitColumns} {place : Nat} (hid : place < c.ids.size)
    (hscore : place < c.scores.size) (h : place < c.rows.size) (hit : Hit) :
    rows ⟨c.ids.set place hit.id, c.scores.set place hit.score⟩ = c.rows.set place hit := by
  apply Array.ext
  · simp [rows]
  · intro q _ _
    simp only [rows, Array.getElem_zipWith, Array.getElem_set]
    split <;> rfl

/-! ## Moving rows together -/

/-- The loop over the columns never leaves them, and does to the rows what the loop over a list of
hits does. -/
theorem exists_compactFrom? {c : HitColumns} (h : c.Even) {kept next : Nat} (hle : kept ≤ next) :
    ∃ c' last, compactFrom? c.ids.size c kept next = some (c', last) ∧ c'.Even
      ∧ c'.rows.shrink last = Hits.compactFrom c.rows kept next hle := by
  generalize hrows : c.rows = hits
  fun_induction Hits.compactFrom hits kept next hle generalizing c with
  | case1 hits kept next hle hnext hlive ih =>
    subst hrows
    have hid : next < c.ids.size := size_rows h ▸ hnext
    have hscore : next < c.scores.size := h ▸ hid
    have hrow := rows_getElem hid hscore hnext
    rw [hrow] at hlive ih
    -- the place that is written to is not behind the one that is read
    have hkept : kept < c.ids.size := Nat.lt_of_le_of_lt hle hid
    have hkept' : kept < c.scores.size := h ▸ hkept
    let c' : HitColumns := ⟨c.ids.set kept c.ids[next], c.scores.set kept c.scores[next]⟩
    have hc' : c'.Even := by
      simpa [Even, c'] using h
    have hrows' : c'.rows = c.rows.set kept ⟨c.ids[next], c.scores[next]⟩ :=
      rows_set hkept hkept' (size_rows h ▸ hkept) ⟨c.ids[next], c.scores[next]⟩
    obtain ⟨moved, last, hmoved, heven, hshrunk⟩ := ih hc' hrows'
    refine ⟨moved, last, ?_, heven, ?_⟩
    · have hnot : ¬ c.ids[next] < 0 := by
        rw [Hit.isLive, decide_eq_true_iff] at hlive
        exact Int32.not_lt.2 hlive
      rw [compactFrom?, if_pos hid]
      simp only [Array.getElem?_eq_getElem hid, Option.bind_eq_bind, Option.bind_some, if_neg hnot,
        write?, dif_pos hkept, Array.getElem?_eq_getElem hscore, dif_pos hkept']
      rw [← hmoved]
      simp [c']
    · rw [hshrunk]
      simp only [hrow]
  | case2 hits kept next hle hnext hlive ih =>
    subst hrows
    have hid : next < c.ids.size := size_rows h ▸ hnext
    have hrow := rows_getElem hid (h ▸ hid) hnext
    have hneg : c.ids[next] < 0 := by
      rw [hrow, Hit.isLive, decide_eq_true_iff] at hlive
      exact Int32.not_le.1 hlive
    obtain ⟨moved, last, hmoved, heven, hshrunk⟩ := ih h rfl
    refine ⟨moved, last, ?_, heven, hshrunk⟩
    rw [compactFrom?, if_pos hid]
    simp only [Array.getElem?_eq_getElem hid, Option.bind_eq_bind, Option.bind_some, if_pos hneg]
    exact hmoved
  | case3 hits kept next hle hnext =>
    subst hrows
    have hid : ¬ next < c.ids.size := size_rows h ▸ hnext
    refine ⟨c, kept, ?_, h, rfl⟩
    rw [compactFrom?, if_neg hid]

/-- Columns that belong together are moved together without leaving them, and what is left are the
rows of the live hits. -/
theorem compact?_eq {c : HitColumns} (h : c.Even) :
    c.compact? = some (ofList (c.rows.toList.filter Hit.isLive)) := by
  obtain ⟨c', last, hmoved, heven, hshrunk⟩ := exists_compactFrom? h (Nat.le_refl 0)
  have heven' : Even ⟨c'.ids.shrink last, c'.scores.shrink last⟩ := by
    simpa [Even] using congrArg (min last) heven
  have hrows : (rows ⟨c'.ids.shrink last, c'.scores.shrink last⟩).toList
      = c.rows.toList.filter Hit.isLive := by
    have hleft : (rows ⟨c'.ids.shrink last, c'.scores.shrink last⟩).toList
        = (c'.rows.shrink last).toList := by
      simp [rows, List.take_zipWith]
    rw [hleft, hshrunk, Hits.toList_compactFrom]
    rfl
  rw [compact?, hmoved, ← hrows, ofList_toList_rows heven']
  rfl

/-! ## Marking numbers -/

variable [LawfulMonad m]

theorem drop_rows {c : HitColumns} (h : c.Even) {next : Nat} (hnext : next < c.ids.size)
    (hscore : next < c.scores.size) : c.rows.toList.drop next
      = ⟨c.ids[next], c.scores[next]⟩ :: c.rows.toList.drop (next + 1) := by
  have hrow : next < c.rows.size := size_rows h ▸ hnext
  rw [← rows_getElem hnext hscore hrow]
  exact List.drop_eq_getElem_cons hrow

/-- The loop over the numbers never leaves them. It asks about each that is not negative once, in
order, and marks those that are rejected. -/
theorem markFrom?_eq (keep : ItemId → m Bool) {c : HitColumns} (h : c.Even) (next : Nat) :
    markFrom? keep c.ids.size c.ids next
      = (fun answers => some (c.ids.toList.take next
          ++ (Hits.markBy (c.rows.toList.drop next) answers).map Hit.id).toArray)
        <$> ((c.rows.toList.drop next).filter Hit.isLive).mapM fun hit => keep hit.item := by
  induction hleft : c.ids.size - next generalizing c next with
  | zero =>
    have hend : ¬ next < c.ids.size := by omega
    have hrows : c.rows.toList.drop next = [] := by
      apply List.drop_eq_nil_of_le
      rw [Array.length_toList, size_rows h]
      exact Nat.le_of_not_lt hend
    have hids : c.ids.toList.take next = c.ids.toList :=
      List.take_of_length_le (Nat.le_of_not_lt hend)
    rw [markFrom?, if_neg hend, hrows, hids]
    simp [Hits.markBy]
  | succ left ih =>
    have hin : next < c.ids.size := by omega
    have hleft' : c.ids.size - (next + 1) = left := by omega
    have hscore : next < c.scores.size := h ▸ hin
    have htake : c.ids.toList.take (next + 1) = c.ids.toList.take next ++ [c.ids[next]] :=
      List.take_succ_eq_append_getElem hin
    have hgo := ih h (next + 1) hleft'
    rw [markFrom?, if_pos hin, drop_rows h hin hscore]
    simp only [Array.getElem?_eq_getElem hin]
    by_cases hlive : 0 ≤ c.ids[next]
    · have hhit : Hit.isLive ⟨c.ids[next], c.scores[next]⟩ = true := decide_eq_true hlive
      rw [if_pos hlive, List.filter_cons_of_pos hhit, List.mapM_cons, map_bind]
      refine bind_congr fun answer => ?_
      cases answer with
      | true =>
        rw [if_pos rfl, hgo]
        simp [Hits.markBy, hhit, htake]
      | false =>
        -- the number is overwritten, and what follows it is as it was
        let c' : HitColumns := ⟨c.ids.set next Hit.excludedId, c.scores⟩
        have hc' : c'.Even := by
          simpa [Even, c'] using h
        have hsize' : c'.ids.size = c.ids.size := by
          simp [c']
        have hrows' : c'.rows.toList.drop (next + 1) = c.rows.toList.drop (next + 1) := by
          have hrow : next < c.rows.size := size_rows h ▸ hin
          have hset := rows_set hin hscore hrow ⟨Hit.excludedId, c.scores[next]⟩
          rw [Array.set_getElem_self] at hset
          rw [hset, Array.toList_set, List.drop_set_of_lt (Nat.lt_succ_self next)]
        have htake' :
            c'.ids.toList.take (next + 1) = c.ids.toList.take next ++ [Hit.excludedId] := by
          rw [Array.toList_set]
          exact Hits.take_succ_set hin Hit.excludedId
        have hgo' := ih hc' (next + 1) (hsize' ▸ hleft')
        rw [hsize', hrows', htake'] at hgo'
        simp only [Bool.false_eq_true, if_false, write?, dif_pos hin]
        rw [hgo']
        simp [Hits.markBy, hhit, Hit.exclude]
    · have hhit : ¬ Hit.isLive ⟨c.ids[next], c.scores[next]⟩ = true := by
        rw [Hit.isLive, decide_eq_true_iff]
        exact hlive
      rw [if_neg hlive, List.filter_cons_of_neg hhit, hgo]
      simp [Hits.markBy, hhit, htake]

/-- Columns that belong together are filtered without leaving them. It is asked about each live hit
once, in order, whatever the answers do, and what is left are the rows of those accepted. -/
theorem retain?_eq (keep : ItemId → m Bool) {c : HitColumns} (h : c.Even) :
    c.retain? keep
      = (fun answers => some (ofList (Hits.accepted (c.rows.toList.filter Hit.isLive) answers)))
        <$> (c.rows.toList.filter Hit.isLive).mapM fun hit => keep hit.item := by
  have hids (answers : List Bool) :
      HitColumns.mk ((Hits.markBy c.rows.toList answers).map Hit.id).toArray c.scores
        = ofList (Hits.markBy c.rows.toList answers) := by
    rw [ofList, Hits.map_score_markBy]
    have hcolumns := congrArg scores (ofList_toList_rows h)
    rw [← hcolumns]
    rfl
  rw [retain?, markFrom?_eq keep h 0, bind_map_left, ← bind_pure_comp]
  refine bind_congr fun answers => ?_
  show pure (compact? ⟨((Hits.markBy c.rows.toList answers).map Hit.id).toArray, c.scores⟩) = _
  rw [hids, compact?_eq (even_ofList _), toList_rows_ofList, Hits.filter_markBy]

/-! ## Whatever is built -/

/-- Columns, and the list of hits that is built in the same way: out of numbers with or without
scores, by excluding places, by dropping those excluded, and by asking a judge who may remember what
he was asked. -/
inductive Built : HitColumns → Hits → Prop
  | ofIds (ids : Array Int32) : Built (.ofIds ids) (.ofIds ids.toList)
  | ofScored (ids : Array Int32) (scores : Array UInt32) :
      Built (.ofScored ids scores) (.ofScored ids.toList scores.toList)
  | exclude {c : HitColumns} {h : Hits} (hb : Built c h) (place : Nat) :
      Built (c.exclude place) (h.exclude place)
  | compact {c c' : HitColumns} {h : Hits} (hb : Built c h) (hc : c.compact? = some c') :
      Built c' h.compact
  | retain {σ : Type} (keep : ItemId → StateM σ Bool) (start : σ) {c c' : HitColumns} {h : Hits}
      (hb : Built c h) (hc : (c.retain? keep start).1 = some c') :
      Built c' (h.retainM keep start).1

theorem rows_ofIds (ids : Array Int32) :
    (ofIds ids).rows.toList = (Hits.ofIds ids.toList).list := by
  apply List.ext_getElem
  · simp [rows, ofIds, Hits.ofIds]
  · intro place _ _
    simp [rows, ofIds, Hits.ofIds]

theorem rows_ofScored (ids : Array Int32) (scores : Array UInt32) :
    (ofScored ids scores).rows.toList = (Hits.ofScored ids.toList scores.toList).list := by
  apply List.ext_getElem
  · simp [rows, ofScored, Hits.ofScored]
  · intro place _ _
    simp [rows, ofScored, Hits.ofScored]

theorem rows_exclude (c : HitColumns) (place : Nat) :
    (c.exclude place).rows.toList = c.rows.toList.modify place Hit.exclude := by
  apply List.ext_getElem
  · simp [rows, exclude]
  · intro q hq _
    have hid : q < c.ids.size := by
      rw [Array.length_toList, rows, Array.size_zipWith, exclude, Array.size_setIfInBounds] at hq
      exact Nat.lt_of_lt_of_le hq (Nat.min_le_left _ _)
    simp only [rows, exclude, Array.getElem_toList, Array.getElem_zipWith, List.getElem_modify]
    rw [Array.getElem_setIfInBounds hid]
    split <;> rfl

/-- Columns stay even, and their rows are the list of hits that is built in the same way. -/
theorem Built.rows_eq {c : HitColumns} {h : Hits} (hb : Built c h) :
    c.Even ∧ c.rows.toList = h.list := by
  induction hb with
  | ofIds ids => exact ⟨by simp [Even, HitColumns.ofIds], rows_ofIds ids⟩
  | ofScored ids scores => exact ⟨by simp [Even, HitColumns.ofScored], rows_ofScored ids scores⟩
  | exclude _ place ih =>
    obtain ⟨heven, hrows⟩ := ih
    refine ⟨by simpa [Even, HitColumns.exclude] using heven, ?_⟩
    rw [rows_exclude, hrows]
    rfl
  | @compact c c' h _ hc ih =>
    obtain ⟨heven, hrows⟩ := ih
    rw [compact?_eq heven, hrows, Option.some.injEq] at hc
    subst hc
    exact ⟨even_ofList _, by rw [toList_rows_ofList, Hits.list_compact]⟩
  | @retain σ keep start c c' h _ hc ih =>
    obtain ⟨heven, hrows⟩ := ih
    -- both come from the same answers
    rw [retain?_eq keep heven, hrows] at hc
    have hkept : c' = ofList (h.retainM keep start).1.list := by
      rw [Hits.retainM_eq_mapM]
      exact (Option.some.inj hc).symm
    rw [hkept]
    exact ⟨even_ofList _, toList_rows_ofList _⟩

/-- Whatever has been built, both columns have the same places and no loop ever leaves them.
Dropping leaves the live hits. A filter asks about each live hit once, in order, whatever its
answers do, and leaves those that were accepted. -/
theorem filters_in_place {c : HitColumns} {h : Hits} (hb : Built c h) :
    c.ids.size = c.scores.size ∧ c.rows.toList = h.list
      ∧ c.compact? = some (ofList (h.list.filter Hit.isLive))
      ∧ ∀ {m : Type → Type} [Monad m] [LawfulMonad m] (keep : ItemId → m Bool), c.retain? keep
        = (fun answers => some (ofList (Hits.accepted (h.list.filter Hit.isLive) answers)))
          <$> (h.list.filter Hit.isLive).mapM fun hit => keep hit.item := by
  obtain ⟨heven, hrows⟩ := hb.rows_eq
  rw [← hrows]
  exact ⟨heven, rfl, compact?_eq heven, fun keep => retain?_eq keep heven⟩

/-- Of five places one is negative from the start and one is excluded; of the others every second is
accepted, by a judge who counts. -/
theorem filters_in_place_sample :
    let c := (ofScored #[2, -1, 3, 2, 7, 9] #[5, 6, 7, 8, 9]).exclude 2
    let everySecond : ItemId → StateM Nat Bool := fun _ asked => (asked % 2 = 0, asked + 1)
    c.compact? = some (ofList [⟨2, 5⟩, ⟨2, 8⟩, ⟨7, 9⟩])
      ∧ c.retain? everySecond 0 = (some (ofList [⟨2, 5⟩, ⟨7, 9⟩]), 3) := by
  intro c everySecond
  have hb : Built c ((Hits.ofScored [2, -1, 3, 2, 7, 9] [5, 6, 7, 8, 9]).exclude 2) :=
    .exclude (.ofScored _ _) 2
  obtain ⟨-, -, hcompact, hretain⟩ := filters_in_place hb
  constructor
  · rw [hcompact]
    rfl
  · rw [hretain]
    rfl

end HitColumns

end EvidenceTags
