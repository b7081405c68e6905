import SorobanExplorer.Api.PoolActivitySpec
import SorobanExplorer.Api.SorobanPoolActivity

/-!
# The spans lose no event

The walk stands after some of the wanted events, and all others are ahead of its span or in it
(`Walk.Stands`).  A round finds the next events of the span, all of them if its row cap was not
reached (`Walk.Stands.round`); only then does the span slide on, so nothing is left behind it.
The cap outgrows the table and the spans pass ledger 0 or the tip, so the rounds end, and what
they found is the beginning of the list (`sorobanPoolActivity_first`).
-/

namespace SorobanExplorer

open CutGroups PoolActivity Ranked Slots

namespace SorobanPoolActivity

/-! ## What the page lists -/

/-- The rows of one event have the kind it declared. -/
def OneKind (table : List MovementChRow) : Prop :=
  ∀ a ∈ table, ∀ b ∈ table, a.position = b.position → a.kind = b.kind

/-- The kind of an event of the table. -/
def kindAt (table : List MovementChRow) (position : EventPosition) : UInt8 :=
  ((table.find? (·.position = position)).map (·.kind)).getD 0

def MovementChRow.value (row : MovementChRow) : Option ℤ :=
  (Text.parseI128 row.amount.toList).toOption

section

variable (legs : List Int64) (table : List MovementChRow)

/-- An event with the amount of every leg the table has. -/
def wholeMovement (position : EventPosition) : PoolMovement where
  position
  kind := kindAt table position
  amounts := (List.range legs.length).map fun i =>
    (table.find? fun row => row.position = position ∧ legs.idxOf row.assetId = i).bind
      MovementChRow.value

/-- The events past a cursor in the direction of the walk, each once. -/
def eventsPast (direction : Direction) (cursor : Option PoolActivityCursor) : List PoolMovement :=
  (rowsPast id .desc direction (table.map MovementChRow.position)
    (cursor.map eventOfCursor)).map (wholeMovement legs table)

end

/-- Whether an event is of the wanted kind. -/
def wanted (event : Option PoolEvent) (movement : PoolMovement) : Bool :=
  event.all fun want => movement.kind = kindCode want

/-- The cursor of a served event is its place. -/
theorem eventOfCursor_cursor (movement : PoolMovement) :
    eventOfCursor movement.activity.cursor = movement.position := by
  unfold eventOfCursor PoolMovement.activity ActivityOp.cursor
  rw [UInt16.toUInt16_toInt16]
  rfl

/-! ## One event -/

variable {legs : List Int64} {table rows : List MovementChRow}

theorem kindAt_eq (hkinds : OneKind table) {row : MovementChRow} (hrow : row ∈ table) :
    kindAt table row.position = row.kind := by
  unfold kindAt
  cases hfound : table.find? (·.position = row.position) with
  | none =>
      exact absurd (decide_eq_true rfl) (List.find?_eq_none.mp hfound row hrow)
  | some other =>
      have hposition : other.position = row.position := by simpa using List.find?_some hfound
      exact hkinds other (List.mem_of_find?_eq_some hfound) row hrow hposition

theorem foldl_land (movement : PoolMovement) (rows : List MovementChRow) :
    rows.foldl (PoolMovement.land legs) movement =
      ⟨movement.position, movement.kind, rows.foldl (fill (legSlot legs)) movement.amounts⟩ := by
  induction rows generalizing movement with
  | nil => rfl
  | cons row rows ih => exact ih _

theorem legSlot_eq_some {row : MovementChRow} {i : ℕ} {v : ℤ} :
    legSlot legs row = some (i, v) ↔
      row.assetId ∈ legs ∧ legs.idxOf row.assetId = i ∧ row.value = some v := by
  unfold legSlot MovementChRow.value
  cases Text.parseI128 row.amount.toList with
  | error e => simp [Except.toOption]
  | ok amount =>
      dsimp only
      split_ifs with h
      · simp [h, Except.toOption]
      · simp [h]

theorem eq_of_slot (hcopies : Copies MovementChRow.sortKey table) {a b : MovementChRow}
    (ha : a ∈ table) (hb : b ∈ table) (hposition : a.position = b.position)
    (hleg : a.assetId ∈ legs) (hslot : legs.idxOf a.assetId = legs.idxOf b.assetId) : a = b := by
  have hasset : a.assetId = b.assetId := (List.idxOf_inj hleg).mp hslot
  refine hcopies a ha b hb ?_
  rw [MovementChRow.sortKey, MovementChRow.sortKey, hposition, hasset]

/-- Rows of one event that fill one slot are copies. -/
theorem agree_of_copies (hcopies : Copies MovementChRow.sortKey table) {position : EventPosition}
    (hrows : ∀ row ∈ rows, row ∈ table ∧ row.position = position) :
    Agree (legSlot legs) rows := by
  intro a ha b hb i v w hv hw
  obtain ⟨hleg, hslot, hvalue⟩ := legSlot_eq_some.mp hv
  obtain ⟨_, hslot', hvalue'⟩ := legSlot_eq_some.mp hw
  obtain rfl := eq_of_slot hcopies (hrows a ha).1 (hrows b hb).1
    ((hrows a ha).2.trans (hrows b hb).2.symm) hleg (hslot.trans hslot'.symm)
  exact Option.some.inj (hvalue.symm.trans hvalue')

/-- The amount of a leg, by the slot it fills. -/
theorem find?_leg (hcopies : Copies MovementChRow.sortKey table) (position : EventPosition)
    {i : ℕ} (hi : i < legs.length) :
    (table.find? fun row => row.position = position ∧ legs.idxOf row.assetId = i).bind
        MovementChRow.value =
      valueAt (legSlot legs) (table.filter (·.position = position)) i := by
  apply valueAt_filter
  · exact agree_of_copies hcopies fun row hrow => by simpa using hrow
  · intro row v
    rw [legSlot_eq_some]
    constructor
    · exact fun h => h.2
    · rintro ⟨rfl, hv⟩
      exact ⟨List.idxOf_lt_length_iff.mp hi, rfl, hv⟩
  · rintro a ha b hb rfl hposition hslot hslot'
    have hleg : a.assetId ∈ legs := List.idxOf_lt_length_iff.mp (hslot ▸ hi)
    rw [eq_of_slot hcopies ha hb hposition.symm hleg (hslot.trans hslot'.symm)]

/-- **Grouping the rows of one event**, in whatever order, makes the whole event. -/
theorem assemble_eq_wholeMovement (hcopies : Copies MovementChRow.sortKey table)
    (hkinds : OneKind table) {position : EventPosition}
    (hmem : ∃ row ∈ table, row.position = position)
    (hrows : ∀ row, row ∈ rows ↔ row ∈ table ∧ row.position = position) :
    assemble (startMovement legs) (PoolMovement.land legs) rows =
      some (wholeMovement legs table position) := by
  have hagree : Agree (legSlot legs) rows := agree_of_copies hcopies fun row => (hrows row).mp
  have hsame : ∀ row, row ∈ rows ↔ row ∈ table.filter (·.position = position) := by
    intro row
    rw [hrows, List.mem_filter, decide_eq_true_eq]
  cases rows with
  | nil =>
      obtain ⟨row, hrow, hposition⟩ := hmem
      exact absurd ((hrows row).mpr ⟨hrow, hposition⟩) List.not_mem_nil
  | cons first rest =>
      obtain ⟨hfirst, rfl⟩ := (hrows first).mp List.mem_cons_self
      rw [assemble, foldl_land, startMovement, foldl_fill hagree, wholeMovement,
        kindAt_eq hkinds hfirst]
      congr 2
      apply List.map_congr_left
      intro i hi
      rw [find?_leg hcopies first.position (List.mem_range.mp hi), valueAt_congr hagree hsame]

theorem land_again (movement : PoolMovement) (row : MovementChRow) :
    (movement.land legs row).land legs row = movement.land legs row := by
  unfold PoolMovement.land fill
  cases legSlot legs row with
  | none => rfl
  | some entry => simp only [List.set_set]

theorem groupMovements_eq (hcopies : Copies MovementChRow.sortKey rows) (truncated : Bool) :
    groupMovements legs rows truncated =
      wholeGroups truncated (rows.foldl
        (joinLast PoolMovement.sameEvent (startMovement legs) (PoolMovement.land legs)) []) := by
  have hagain := @joinLast_again _ _ PoolMovement.sameEvent (startMovement legs)
    (PoolMovement.land legs) land_again (fun _ => decide_eq_true rfl) fun _ _ => id
  rw [groupMovements, foldl_skipRepeat hagain hcopies]

/-! ## One round -/

/-- The ledger of an event is in the span. -/
def Walk.covers (state : Walk) (position : EventPosition) : Bool :=
  state.lo < position.ls.toInt ∧ position.ls.toInt ≤ state.hi

/-- The span does not end before the event, in the direction of the walk. -/
def Walk.reaches (direction : Direction) (state : Walk) (position : EventPosition) : Bool :=
  match (keysetSqlDesc direction).2 with
  | .desc => state.lo < position.ls.toInt
  | .asc => position.ls.toInt ≤ state.hi

/-- The span does not begin after it. -/
def Walk.waits (direction : Direction) (state : Walk) (position : EventPosition) : Prop :=
  match (keysetSqlDesc direction).2 with
  | .desc => position.ls.toInt ≤ state.hi
  | .asc => state.lo < position.ls.toInt

/-- The rows of the wanted kind. -/
def wantedRows (event : Option PoolEvent) (table : List MovementChRow) : List MovementChRow :=
  table.filter fun row => event.all fun want => row.kind = kindCode want

section

variable {ρ : Type*} [LinearOrder ρ] {direction : Direction} {rank : EventPosition → ρ}
  {event : Option PoolEvent} {state : Walk}

theorem covers_eq_reaches {position : EventPosition} (h : state.waits direction position) :
    state.covers position = state.reaches direction position := by
  cases direction with
  | next => exact decide_eq_decide.mpr (and_iff_left h)
  | prev => exact decide_eq_decide.mpr (and_iff_right h)

/-- What comes before an event the span reaches is reached. -/
theorem reaches_of_lt (hwalk : WalksBy direction rank) {a b : EventPosition}
    (h : rank a < rank b) (hb : state.reaches direction b = true) :
    state.reaches direction a = true := by
  have hadmits := (hwalk.admits b a).trans (decide_eq_true h)
  cases direction with
  | next =>
      have hle := EventPosition.ls_le (le_of_lt (of_decide_eq_true hadmits : b < a))
      exact decide_eq_true (lt_of_lt_of_le (of_decide_eq_true hb) hle)
  | prev =>
      have hle := EventPosition.ls_le (le_of_lt (of_decide_eq_true hadmits : a < b))
      exact decide_eq_true (hle.trans (of_decide_eq_true hb))

/-- The rows of a read are those of the span past a position. -/
theorem readSpan_eq (hwalk : WalksBy direction rank)
    (order : ReadOrder (keysetSqlDesc direction).2 MovementChRow.sortKey) :
    readSpan direction order table event state =
      (order.arrange ((rowsAfter rank MovementChRow.position (wantedRows event table)
        state.after).filter (state.covers ·.position))).take state.rowCap := by
  unfold readSpan rowsAfter wantedRows Walk.covers
  rw [List.filter_filter, List.filter_filter]
  congr 2
  apply List.filter_congr
  intro row _
  cases state.after with
  | none => simp [Bool.and_comm]
  | some k => simp [hwalk.admits, Bool.and_comm, Bool.and_left_comm, Bool.and_assoc]

/-- Rows in key order are in the order of their events. -/
theorem sorted_arrange (hwalk : WalksBy direction rank)
    (order : ReadOrder (keysetSqlDesc direction).2 MovementChRow.sortKey)
    (rows : List MovementChRow) :
    CutGroups.Sorted rank MovementChRow.position (order.arrange rows) := by
  have hposition : ∀ a b : MovementChRow, a.sortKey ≤ b.sortKey → a.position ≤ b.position := by
    intro a b h
    rcases Prod.Lex.le_iff.mp h with hlt | ⟨heq, _⟩
    · exact le_of_lt hlt
    · exact le_of_eq heq
  refine (order.sorted rows).imp fun {a b} h => (hwalk.le _ _).mp ?_
  cases direction with
  | next => exact hposition b a h
  | prev => exact hposition a b h

/-- One round finds the next whole events of the span: all of them if it was not cut. -/
theorem batch_readSpan (hwalk : WalksBy direction rank)
    (hcopies : Copies MovementChRow.sortKey table) (hkinds : OneKind table)
    (order : ReadOrder (keysetSqlDesc direction).2 MovementChRow.sortKey)
    (hcap : 0 < state.rowCap) :
    let rows := readSpan direction order table event state
    let keys := (keysIn rank MovementChRow.position (rowsAfter rank MovementChRow.position
      (wantedRows event table) state.after)).filter state.covers
    ∃ m, groupMovements legs rows (state.rowCap ≤ rows.length) =
        (keys.take m).map (wholeMovement legs table) ∧
      if state.rowCap ≤ rows.length then m < keys.length else m = keys.length := by
  intro rows keys
  set past := rowsAfter rank MovementChRow.position (wantedRows event table) state.after with hpast
  set span := past.filter (state.covers ·.position) with hspan
  have hrows : rows = (order.arrange span).take state.rowCap := readSpan_eq hwalk order
  have hperm := order.perm span
  have hsorted := sorted_arrange hwalk order span
  have hkeys : keysIn rank MovementChRow.position (order.arrange span) = keys := by
    rw [keysIn_perm hwalk.injective hperm, hspan, keysIn_filter hwalk.injective]
  have hmem : ∀ row, row ∈ order.arrange span ↔ row ∈ table ∧
      (event.all fun want => row.kind = kindCode want) = true ∧
      (state.after.all fun k => rank k < rank row.position) = true ∧
      state.covers row.position = true := by
    intro row
    rw [hperm.mem_iff, hspan, hpast, rowsAfter, wantedRows, List.mem_filter, List.mem_filter,
      List.mem_filter, and_assoc, and_assoc]
  have hcopied : Copies MovementChRow.sortKey rows := by
    intro a ha b hb
    rw [hrows] at ha hb
    exact hcopies a ((hmem a).mp (List.mem_of_mem_take ha)).1 b
      ((hmem b).mp (List.mem_of_mem_take hb)).1
  have hgroups := @map_some_groups _ _ _ _ _ _ _ _ _ (startMovement legs) (PoolMovement.land legs)
    PoolMovement.sameEvent PoolMovement.position hwalk.injective (fun _ => rfl) (fun _ _ => rfl)
    (fun _ _ => decide_eq_true_iff) (hsorted.sublist (List.take_sublist state.rowCap _))
  have hitem : ∀ k ∈ keysIn rank MovementChRow.position (order.arrange span),
      assemble (startMovement legs) (PoolMovement.land legs)
        ((order.arrange span).filter (·.position = k)) = some (wholeMovement legs table k) := by
    intro k hk
    obtain ⟨row, hrow, rfl⟩ := mem_keysIn.mp hk
    obtain ⟨htable, hkind, hplace⟩ := (hmem row).mp hrow
    refine assemble_eq_wholeMovement hcopies hkinds ⟨row, htable, rfl⟩ fun other => ?_
    rw [List.mem_filter, decide_eq_true_eq, hmem]
    constructor
    · exact fun h => ⟨h.1.1, h.2⟩
    · -- all rows of an event are in the read, or none is
      rintro ⟨hother, hposition⟩
      rw [hposition, hkinds other hother row htable hposition]
      exact ⟨⟨hother, hkind, hplace⟩, rfl⟩
  obtain ⟨m, hbatch, hcount⟩ := wholeGroups_eq hwalk.injective hsorted hcap hgroups hitem
  rw [← hrows, hkeys] at hbatch hcount
  exact ⟨m, (groupMovements_eq hcopied _).trans hbatch, hcount⟩

/-- The walk stands after the first `c` of the wanted events: it goes on there, has found these,
and the others are not behind its span. -/
structure Walk.Stands (legs : List Int64) (table : List MovementChRow)
    (cursor : Option EventPosition) (direction : Direction) (keys : List EventPosition) (c : ℕ)
    (state : Walk) : Prop where
  inside : c ≤ keys.length
  after : state.after = resumeAt cursor keys c
  opens : 0 < state.rowCap
  widens : 0 < state.span
  waits : ∀ position ∈ keys.drop c, state.waits direction position
  movements : state.movements = (keys.take c).map (wholeMovement legs table)

/-- **One round** stands further on, and if it was not cut, after all the span reaches. -/
theorem Walk.Stands.round (hwalk : WalksBy direction rank)
    (hcopies : Copies MovementChRow.sortKey table) (hkinds : OneKind table)
    {cursor : Option EventPosition} {keys : List EventPosition}
    (hkeys : keys = keysIn rank MovementChRow.position
      (rowsAfter rank MovementChRow.position (wantedRows event table) cursor))
    (order : ReadOrder (keysetSqlDesc direction).2 MovementChRow.sortKey) {c : ℕ}
    (h : Walk.Stands legs table cursor direction keys c state) :
    let rows := readSpan direction order table event state
    ∃ c', Walk.Stands legs table cursor direction keys c'
        (state.found (groupMovements legs rows (state.rowCap ≤ rows.length))) ∧
      (rows.length < state.rowCap →
        ∀ position ∈ keys.drop c', state.reaches direction position = false) := by
  intro rows
  have hinside := h.inside
  have hrest : keysIn rank MovementChRow.position
      (rowsAfter rank MovementChRow.position (wantedRows event table) state.after) =
        keys.drop c := by
    rw [h.after, hkeys]
    exact keysIn_after hwalk.injective cursor (hkeys ▸ h.inside)
  obtain ⟨m, hbatch, hcount⟩ : ∃ m, groupMovements legs rows (state.rowCap ≤ rows.length) =
        (((keys.drop c).filter state.covers).take m).map (wholeMovement legs table) ∧
      if state.rowCap ≤ rows.length then m < ((keys.drop c).filter state.covers).length
      else m = ((keys.drop c).filter state.covers).length := by
    rw [← hrest]
    exact batch_readSpan hwalk hcopies hkinds order h.opens
  -- the events of the span are the next ones
  have hcovers : (keys.drop c).filter state.covers =
      (keys.drop c).filter (state.reaches direction) :=
    List.filter_congr fun position hposition => covers_eq_reaches (h.waits position hposition)
  have hinc : Increasing rank (keys.drop c) := by
    rw [hkeys]
    exact (increasing_keysIn hwalk.injective _).sublist (List.drop_sublist c _)
  obtain ⟨others, hothers⟩ : (keys.drop c).filter state.covers <+: keys.drop c := by
    rw [hcovers]
    exact hinc.filter_beginning fun a b => reaches_of_lt hwalk
  set covered := (keys.drop c).filter state.covers with hcovered
  have hlength := congrArg List.length hothers
  rw [List.length_append, List.length_drop] at hlength
  have hm : m ≤ covered.length := by
    split_ifs at hcount
    · exact hcount.le
    · exact hcount.le
  have htake : covered.take m = (keys.drop c).take m := by
    rw [← hothers, List.take_append_of_le_length hm]
  rw [htake] at hbatch
  have hlast : (((keys.drop c).take m).map (wholeMovement legs table)).getLast?.map
      PoolMovement.position = ((keys.drop c).take m).getLast? := by
    rw [List.getLast?_map, Option.map_map]
    exact Option.map_id'
  refine ⟨c + m, ⟨by omega, ?_, h.opens, h.widens, ?_, ?_⟩, ?_⟩
  · change ((groupMovements legs rows _).getLast?.map PoolMovement.position).or state.after = _
    rw [hbatch, hlast, h.after]
    exact getLast?_or_resumeAt cursor keys (by omega)
  · intro position hposition
    rw [← List.drop_drop] at hposition
    exact h.waits position (List.mem_of_mem_drop hposition)
  · change state.movements ++ groupMovements legs rows _ = _
    rw [hbatch, h.movements, ← List.map_append, List.take_add]
  · intro hshort position hposition
    rw [if_neg (by omega)] at hcount
    by_contra hreach
    -- what is left comes after an event of the span that was not found
    rw [← List.drop_drop, hcount, ← hothers, List.drop_left] at hposition
    have hmem : position ∈ covered := by
      rw [hcovers, List.mem_filter]
      exact ⟨hothers ▸ List.mem_append_right covered hposition, by simpa using hreach⟩
    have hnodup : (keys.drop c).Nodup := List.Nodup.of_map rank hinc.nodup
    rw [← hothers] at hnodup
    exact List.disjoint_of_nodup_append hnodup hmem hposition

/-- How far the walk may still go: what its span has left before it, and its row cap below the
size of the table. -/
def Walk.left (direction : Direction) (tip : Int64) (size : ℕ) (state : Walk) : ℕ :=
  (match (keysetSqlDesc direction).2 with
    | .desc => (state.lo + 1).toNat
    | .asc => (tip.toInt - state.hi).toNat) + (size + 1 - state.rowCap)

/-- A span behind which no event is left slides on; past ledger 0 or the tip none is left at
all. -/
theorem Walk.Stands.slide {tip : Int64} {cursor : Option EventPosition}
    {keys : List EventPosition}
    (hledgers : ∀ position ∈ keys, 0 ≤ position.ls.toInt ∧ position.ls.toInt ≤ tip.toInt)
    {size c : ℕ} (h : Walk.Stands legs table cursor direction keys c state)
    (hspent : ∀ position ∈ keys.drop c, state.reaches direction position = false) :
    (∀ next, state.slide direction tip = some next →
      Walk.Stands legs table cursor direction keys c next ∧
        next.left direction tip size < state.left direction tip size) ∧
      (state.slide direction tip = none → keys.drop c = []) := by
  obtain ⟨hinside, hafter, hopens, hwidens, hwaits, hmovements⟩ := h
  unfold Walk.slide Walk.left
  cases direction with
  | next =>
      -- a spent span has no event left above its low end
      have hbehind : ∀ position ∈ keys.drop c, position.ls.toInt ≤ state.lo :=
        fun position hposition => not_lt.mp (of_decide_eq_false (hspent position hposition))
      by_cases hover : state.lo < 0
      · refine ⟨fun next hnext => ?_, fun _ => ?_⟩
        · rw [show _ = none from if_pos hover] at hnext
          cases hnext
        · rw [List.eq_nil_iff_forall_not_mem]
          intro position hposition
          have hle := hbehind position hposition
          have hzero := (hledgers position (List.mem_of_mem_drop hposition)).1
          omega
      · refine ⟨fun next hnext => ?_, fun hnone => ?_⟩
        · rw [show _ = some _ from if_neg hover] at hnext
          obtain rfl := Option.some.inj hnext
          refine ⟨⟨hinside, hafter, hopens, by simpa using hwidens, hbehind, hmovements⟩, ?_⟩
          change (state.lo - state.span * 2 + 1).toNat + (size + 1 - state.rowCap) <
            (state.lo + 1).toNat + (size + 1 - state.rowCap)
          omega
        · rw [show _ = some _ from if_neg hover] at hnone
          cases hnone
  | prev =>
      -- nor, upwards, one below its high end
      have hbehind : ∀ position ∈ keys.drop c, state.hi < position.ls.toInt :=
        fun position hposition => not_le.mp (of_decide_eq_false (hspent position hposition))
      by_cases hover : tip.toInt ≤ state.hi
      · refine ⟨fun next hnext => ?_, fun _ => ?_⟩
        · rw [show _ = none from if_pos hover] at hnext
          cases hnext
        · rw [List.eq_nil_iff_forall_not_mem]
          intro position hposition
          have hlt := hbehind position hposition
          have htip := (hledgers position (List.mem_of_mem_drop hposition)).2
          omega
      · refine ⟨fun next hnext => ?_, fun hnone => ?_⟩
        · rw [show _ = some _ from if_neg hover] at hnext
          obtain rfl := Option.some.inj hnext
          refine ⟨⟨hinside, hafter, hopens, by simpa using hwidens, hbehind, hmovements⟩, ?_⟩
          change (tip.toInt - min (state.hi + state.span * 2) tip.toInt).toNat +
              (size + 1 - state.rowCap) <
            (tip.toInt - state.hi).toNat + (size + 1 - state.rowCap)
          omega
        · rw [show _ = some _ from if_neg hover] at hnone
          cases hnone

/-- The walk goes on where it stands, and nearer its end; or it has enough, or stands at the
end. -/
theorem Walk.Stands.next {tip : Int64} {cursor : Option EventPosition}
    {keys : List EventPosition}
    (hledgers : ∀ position ∈ keys, 0 ≤ position.ls.toInt ∧ position.ls.toInt ≤ tip.toInt)
    (limit size : ℕ) (truncated : Bool) {c : ℕ}
    (h : Walk.Stands legs table cursor direction keys c state)
    (hcut : truncated = true → state.rowCap ≤ size)
    (hspent : truncated = false →
      ∀ position ∈ keys.drop c, state.reaches direction position = false) :
    (∀ next, state.next direction tip limit truncated = some next →
      Walk.Stands legs table cursor direction keys c next ∧
        next.left direction tip size < state.left direction tip size) ∧
      (state.next direction tip limit truncated = none →
        limit ≤ state.movements.length ∨ keys.drop c = []) := by
  unfold Walk.next
  by_cases henough : limit ≤ state.movements.length
  · rw [if_pos henough]
    exact ⟨fun next hnext => absurd hnext (by simp), fun _ => Or.inl henough⟩
  · rw [if_neg henough]
    cases truncated with
    | true =>
        -- a truncated read leaves room under the doubled cap
        have hsize := hcut rfl
        have hopens := h.opens
        refine ⟨fun next hnext => ?_, fun hnone => absurd hnone (by simp)⟩
        obtain rfl := Option.some.inj hnext
        refine ⟨⟨h.inside, h.after, Nat.mul_pos h.opens (by decide), h.widens, h.waits,
          h.movements⟩, ?_⟩
        unfold Walk.left
        dsimp only
        omega
    | false =>
        obtain ⟨hnext, hlast⟩ := h.slide hledgers (hspent rfl)
        rw [if_neg Bool.false_ne_true]
        exact ⟨hnext, fun hnone => Or.inr (hlast hnone)⟩

/-! ## The machine's integers

The source keeps the span and its ends in machine words of 64 bits. A span is as wide as all
before it and one more, so it doubles only while it is no wider than what lies behind the walk,
and no word wraps. -/

/-- The walks of a page, whatever its rounds read. -/
inductive Walk.Visited (legs : List Int64) (direction : Direction) (tip : Int64) (limit : ℕ)
    (cursor : Option PoolActivityCursor) : Walk → Prop
  | first : Visited legs direction tip limit cursor (firstWalk legs direction tip limit cursor)
  | round {state next : Walk} {batch : List PoolMovement} {truncated : Bool}
      (visited : Visited legs direction tip limit cursor state)
      (goes : (state.found batch).next direction tip limit truncated = some next) :
      Visited legs direction tip limit cursor next

/-- A walk down from `start`. -/
structure Walk.Descends (tip start : ℤ) (state : Walk) : Prop where
  wide : firstSpan ≤ state.span
  narrow : state.span ≤ max firstSpan (start + firstSpan)
  behind : state.lo + 2 * state.span = start + firstSpan
  above : min 0 (min start tip) ≤ state.hi
  below : state.hi ≤ start

/-- A walk up from `start` to the tip. -/
structure Walk.Ascends (tip start : ℤ) (state : Walk) : Prop where
  wide : firstSpan ≤ state.span
  narrow : state.span ≤ max firstSpan (tip - start + firstSpan)
  behind : state.hi < tip → 2 * state.span ≤ state.hi - start + firstSpan
  starts : start ≤ state.lo ∧ state.lo ≤ max start tip
  ends : min start tip ≤ state.hi ∧ state.hi ≤ tip

/-- Where a walk starts. -/
def walkStart (direction : Direction) (tip : Int64) (cursor : Option PoolActivityCursor) : ℤ :=
  match direction, cursor with
  | .next, some cursor => cursor.ledgerSequence.toInt
  | .next, none => tip.toInt
  | .prev, some cursor => cursor.ledgerSequence.toInt - 1
  | .prev, none => -1

theorem firstSpan_eq : firstSpan = 500000 := rfl

theorem Walk.Descends.next {tip : Int64} {start : ℤ} {limit : ℕ} {truncated : Bool}
    {next : Walk} (h : state.Descends tip.toInt start)
    (hnext : state.next .next tip limit truncated = some next) :
    next.Descends tip.toInt start := by
  have hfirst := firstSpan_eq
  obtain ⟨hwide, hnarrow, hbehind, habove, hbelow⟩ := h
  unfold Walk.next at hnext
  split_ifs at hnext with henough htruncated
  · obtain rfl := Option.some.inj hnext
    exact ⟨hwide, hnarrow, hbehind, habove, hbelow⟩
  · -- a spent span: the next one ends where it began
    by_cases hover : state.lo < 0
    · rw [Walk.slide, show _ = none from if_pos hover] at hnext
      cases hnext
    · rw [Walk.slide, show _ = some _ from if_neg hover] at hnext
      obtain rfl := Option.some.inj hnext
      constructor
      all_goals dsimp only
      all_goals omega

theorem Walk.Ascends.next {tip : Int64} {start : ℤ} {limit : ℕ} {truncated : Bool}
    {next : Walk} (h : state.Ascends tip.toInt start)
    (hnext : state.next .prev tip limit truncated = some next) :
    next.Ascends tip.toInt start := by
  have hfirst := firstSpan_eq
  obtain ⟨hwide, hnarrow, hbehind, hstarts, hends⟩ := h
  unfold Walk.next at hnext
  split_ifs at hnext with henough htruncated
  · obtain rfl := Option.some.inj hnext
    exact ⟨hwide, hnarrow, hbehind, hstarts, hends⟩
  · by_cases hover : tip.toInt ≤ state.hi
    · rw [Walk.slide, show _ = none from if_pos hover] at hnext
      cases hnext
    · rw [Walk.slide, show _ = some _ from if_neg hover] at hnext
      obtain rfl := Option.some.inj hnext
      -- short of the tip, the span is what lies behind and one more
      have hdouble := hbehind (not_le.mp hover)
      constructor
      all_goals dsimp only
      all_goals omega

theorem descends_firstWalk (tip : Int64) (limit : ℕ) (cursor : Option PoolActivityCursor) :
    (firstWalk legs .next tip limit cursor).Descends tip.toInt (walkStart .next tip cursor) := by
  have hfirst := firstSpan_eq
  cases cursor with
  | none =>
      constructor
      all_goals simp only [firstWalk, walkStart, keysetSqlDesc, keysetSql, Option.map_none]
      all_goals omega
  | some cursor =>
      constructor
      all_goals simp only [firstWalk, walkStart, keysetSqlDesc, keysetSql, Option.map_some,
        eventOfCursor]
      all_goals omega

theorem ascends_firstWalk (tip : Int64) (limit : ℕ) (cursor : Option PoolActivityCursor) :
    (firstWalk legs .prev tip limit cursor).Ascends tip.toInt (walkStart .prev tip cursor) := by
  have hfirst := firstSpan_eq
  cases cursor with
  | none =>
      constructor
      all_goals simp only [firstWalk, walkStart, keysetSqlDesc, keysetSql, Option.map_none]
      all_goals omega
  | some cursor =>
      constructor
      all_goals simp only [firstWalk, walkStart, keysetSqlDesc, keysetSql, Option.map_some,
        eventOfCursor]
      all_goals omega

theorem Walk.Visited.descends {tip : Int64} {limit : ℕ} {cursor : Option PoolActivityCursor}
    (h : state.Visited legs .next tip limit cursor) :
    state.Descends tip.toInt (walkStart .next tip cursor) := by
  induction h with
  | first => exact descends_firstWalk tip limit cursor
  | @round state next batch truncated _ goes ih =>
      have hfound : (state.found batch).Descends tip.toInt (walkStart .next tip cursor) :=
        ⟨ih.1, ih.2, ih.3, ih.4, ih.5⟩
      exact hfound.next goes

theorem Walk.Visited.ascends {tip : Int64} {limit : ℕ} {cursor : Option PoolActivityCursor}
    (h : state.Visited legs .prev tip limit cursor) :
    state.Ascends tip.toInt (walkStart .prev tip cursor) := by
  induction h with
  | first => exact ascends_firstWalk tip limit cursor
  | @round state next batch truncated _ goes ih =>
      have hfound : (state.found batch).Ascends tip.toInt (walkStart .prev tip cursor) :=
        ⟨ih.1, ih.2, ih.3, ih.4, ih.5⟩
      exact hfound.next goes

/-- **No word of the walk wraps**, nor one that its next step would take, for a tip and a cursor
within `2 ^ 60`. -/
theorem Walk.Visited.fits {tip : Int64} {limit : ℕ} {cursor : Option PoolActivityCursor}
    (h : state.Visited legs direction tip limit cursor)
    (htip : 0 ≤ tip.toInt ∧ tip.toInt ≤ 2 ^ 60)
    (hcursor : ∀ c, cursor = some c →
      -2 ^ 60 ≤ c.ledgerSequence.toInt ∧ c.ledgerSequence.toInt ≤ 2 ^ 60) :
    ∀ value ∈ [state.lo, state.hi, state.span * 2, state.lo - state.span * 2,
      state.hi + state.span * 2], -2 ^ 63 ≤ value ∧ value < 2 ^ 63 := by
  have hfirst := firstSpan_eq
  have hstart : -2 ^ 60 - 1 ≤ walkStart direction tip cursor ∧
      walkStart direction tip cursor ≤ 2 ^ 60 := by
    unfold walkStart
    cases cursor with
    | none => cases direction <;> dsimp only <;> omega
    | some cursor =>
        have hledger := hcursor cursor rfl
        cases direction <;> dsimp only <;> omega
  intro value hvalue
  simp only [List.mem_cons, List.not_mem_nil, or_false] at hvalue
  cases direction with
  | next =>
      obtain ⟨hwide, hnarrow, hbehind, habove, hbelow⟩ := h.descends
      omega
  | prev =>
      obtain ⟨hwide, hnarrow, hbehind, hstarts, hends⟩ := h.ascends
      omega

/-! ## All rounds -/

/-- The first round stands before all events. -/
theorem stands_firstWalk (hwalk : WalksBy direction rank) {tip : Int64} (limit : ℕ)
    (cursor : Option PoolActivityCursor)
    (hledgers : ∀ row ∈ table, 0 ≤ row.position.ls.toInt ∧ row.position.ls.toInt ≤ tip.toInt)
    {keys : List EventPosition}
    (hkeys : keys = keysIn rank MovementChRow.position (rowsAfter rank MovementChRow.position
      (wantedRows event table) (cursor.map eventOfCursor))) :
    Walk.Stands legs table (cursor.map eventOfCursor) direction keys 0
      (firstWalk legs direction tip limit cursor) := by
  have hcap : 0 < max (limit * max legs.length 1 * 2) 256 :=
    lt_of_lt_of_le (by decide) (le_max_right _ 256)
  refine ⟨Nat.zero_le _, rfl, hcap, show 0 < firstSpan by decide, ?_, rfl⟩
  intro position hposition
  rw [List.drop_zero, hkeys] at hposition
  obtain ⟨row, hrow, rfl⟩ := mem_keysIn.mp hposition
  obtain ⟨hrow, hpast⟩ := List.mem_filter.mp hrow
  obtain ⟨hzero, htip⟩ := hledgers row (List.mem_of_mem_filter hrow)
  unfold Walk.waits firstWalk
  cases cursor with
  | none =>
      cases direction with
      | next => exact htip
      | prev => exact lt_of_lt_of_le (show (-1 : ℤ) < 0 by decide) hzero
  | some cursor =>
      -- rows past the cursor lie on its side of its ledger
      have hadmits := (hwalk.admits row.position (eventOfCursor cursor)).trans hpast
      cases direction with
      | next =>
          have hle := EventPosition.ls_le
            (le_of_lt (of_decide_eq_true hadmits : row.position < eventOfCursor cursor))
          exact le_min hle htip
      | prev =>
          have hle := EventPosition.ls_le
            (le_of_lt (of_decide_eq_true hadmits : eventOfCursor cursor < row.position))
          change (eventOfCursor cursor).ls.toInt - 1 < _
          omega

/-- **The rounds end**: the cap outgrows the table, the spans pass ledger 0 or the tip. -/
theorem rounds_eq (hwalk : WalksBy direction rank)
    (hcopies : Copies MovementChRow.sortKey table) (hkinds : OneKind table) {tip : Int64}
    (hledgers : ∀ row ∈ table, 0 ≤ row.position.ls.toInt ∧ row.position.ls.toInt ≤ tip.toInt)
    {cursor : Option EventPosition} {keys : List EventPosition}
    (hkeys : keys = keysIn rank MovementChRow.position
      (rowsAfter rank MovementChRow.position (wantedRows event table) cursor))
    (orders : ℕ → ReadOrder (keysetSqlDesc direction).2 MovementChRow.sortKey) (limit : ℕ)
    {fuel : ℕ} (round : ℕ) {c : ℕ} (h : Walk.Stands legs table cursor direction keys c state)
    (hfuel : state.left direction tip table.length < fuel) :
    rounds legs direction tip limit
        (fun round => readSpan direction (orders round) table event) fuel round state =
      some ((keys.map (wholeMovement legs table)).take limit) := by
  have hplaces : ∀ position ∈ keys, 0 ≤ position.ls.toInt ∧ position.ls.toInt ≤ tip.toInt := by
    intro position hposition
    rw [hkeys] at hposition
    obtain ⟨row, hrow, rfl⟩ := mem_keysIn.mp hposition
    exact hledgers row (List.mem_of_mem_filter (List.mem_of_mem_filter hrow))
  induction fuel generalizing round state c with
  | zero => omega
  | succ fuel ih =>
      set rows := readSpan direction (orders round) table event state with hrows
      obtain ⟨c', hfound, hspent⟩ := h.round hwalk hcopies hkinds hkeys (orders round)
      rw [← hrows] at hfound hspent
      -- a round reads no more than the table holds, which bounds the caps
      have hread : rows.length ≤ table.length := by
        rw [hrows, readSpan]
        set within := table.filter _
        calc _ ≤ ((orders round).arrange within).length := List.length_take_le' _ _
          _ = within.length := ((orders round).perm within).length_eq
          _ ≤ table.length := List.length_filter_le _ _
      obtain ⟨hnext, hlast⟩ := hfound.next hplaces limit table.length
        (state.rowCap ≤ rows.length)
        (fun hcut => (of_decide_eq_true hcut).trans hread)
        (fun hcut => hspent (not_le.mp (of_decide_eq_false hcut)))
      rw [rounds, ← hrows]
      cases hgo : (state.found (groupMovements legs rows (state.rowCap ≤ rows.length))).next
          direction tip limit (state.rowCap ≤ rows.length) with
      | some next =>
          obtain ⟨hstands, hless⟩ := hnext next hgo
          have hsame : (state.found (groupMovements legs rows
              (state.rowCap ≤ rows.length))).left direction tip table.length =
                state.left direction tip table.length := rfl
          exact ih (round + 1) hstands (by omega)
      | none =>
          -- the events found are the first of the list
          have hbegin : (state.found (groupMovements legs rows
              (state.rowCap ≤ rows.length))).movements <+:
                keys.map (wholeMovement legs table) := by
            rw [hfound.movements]
            exact (List.take_prefix c' keys).map _
          rcases hlast hgo with henough | hend
          · dsimp only
            rw [List.prefix_iff_eq_take.mp (hbegin.take limit), List.length_take,
              Nat.min_eq_left henough, List.take_take, Nat.min_self]
          · dsimp only
            rw [hfound.movements, List.take_of_length_le (List.drop_eq_nil_iff.mp hend)]

/-- The wanted events past a cursor. -/
theorem filter_wanted (hwalk : WalksBy direction rank) (hkinds : OneKind table)
    (cursor : Option EventPosition) :
    ((keysIn rank MovementChRow.position (rowsAfter rank MovementChRow.position table cursor)).map
        (wholeMovement legs table)).filter (wanted event) =
      (keysIn rank MovementChRow.position (rowsAfter rank MovementChRow.position
        (wantedRows event table) cursor)).map (wholeMovement legs table) := by
  have hkind : rowsAfter rank MovementChRow.position (wantedRows event table) cursor =
      (rowsAfter rank MovementChRow.position table cursor).filter fun row =>
        wanted event (wholeMovement legs table row.position) := by
    unfold rowsAfter wantedRows
    rw [List.filter_filter, List.filter_filter]
    apply List.filter_congr
    intro row hrow
    rw [Bool.and_comm]
    unfold wanted wholeMovement
    rw [kindAt_eq hkinds hrow]
  rw [hkind, keysIn_filter hwalk.injective fun position =>
    wanted event (wholeMovement legs table position), List.filter_map]
  rfl

end

/-- **The page is the beginning of the pool's events**: the first past the cursor that have the
wanted kind, each once and with every leg it has.  The cursor of an event stands at it. -/
theorem sorobanPoolActivity_first (legs : List Int64) (direction : Direction)
    (orders : ℕ → ReadOrder (keysetSqlDesc direction).2 MovementChRow.sortKey)
    (table : List MovementChRow) (hcopies : Copies MovementChRow.sortKey table)
    (hkinds : OneKind table) (tip : Int64)
    (hledgers : ∀ row ∈ table, 0 ≤ row.position.ls.toInt ∧ row.position.ls.toInt ≤ tip.toInt)
    (limit : ℕ) (cursor : Option PoolActivityCursor) (event : Option PoolEvent) :
    (∃ enough, ∀ fuel ≥ enough,
      fetchSorobanPoolActivity legs direction orders table tip limit cursor event fuel =
        some ((((eventsPast legs table direction cursor).filter (wanted event)).take limit).map
          PoolMovement.activity)) ∧
    ∀ movement : PoolMovement, eventOfCursor movement.activity.cursor = movement.position := by
  refine ⟨⟨(firstWalk legs direction tip limit cursor).left direction tip table.length + 1,
    fun fuel hfuel => ?_⟩, eventOfCursor_cursor⟩
  have hfuel : (firstWalk legs direction tip limit cursor).left direction tip table.length < fuel :=
    hfuel
  unfold fetchSorobanPoolActivity eventsPast
  cases direction with
  | next =>
      rw [walksBy_next.rowsPast_eq, filter_wanted walksBy_next hkinds,
        rounds_eq walksBy_next hcopies hkinds hledgers rfl orders limit 0
          (stands_firstWalk walksBy_next limit cursor hledgers rfl) hfuel]
      rfl
  | prev =>
      rw [walksBy_prev.rowsPast_eq, filter_wanted walksBy_prev hkinds,
        rounds_eq walksBy_prev hcopies hkinds hledgers rfl orders limit 0
          (stands_firstWalk walksBy_prev limit cursor hledgers rfl) hfuel]
      rfl

/-- The newest trade of a pool that was then quiet for a million ledgers: a leg of it is held
twice. -/
theorem sorobanPoolActivity_first_trade :
    let legs : List Int64 := [101, 102]
    let table : List MovementChRow :=
      [⟨⟨51000000, 1, 0, 4⟩, 0, 101, "500"⟩, ⟨⟨51000000, 1, 0, 4⟩, 0, 102, "-499"⟩,
        ⟨⟨51000000, 1, 0, 4⟩, 0, 102, "-499"⟩, ⟨⟨52000000, 7, 2, 0⟩, 2, 102, "-4999999999"⟩]
    ∃ enough, ∀ fuel ≥ enough,
      fetchSorobanPoolActivity legs .next (fun _ => FetchOrder.desc.stable MovementChRow.sortKey)
          table 52000009 1 none (some .trade) fuel =
        some ((((eventsPast legs table .next none).filter (wanted (some .trade))).take 1).map
          PoolMovement.activity) := by
  intro legs table
  have hcopies : Copies MovementChRow.sortKey table := by
    unfold Copies
    decide
  have hkinds : OneKind table := by
    unfold OneKind
    decide
  exact (sorobanPoolActivity_first legs .next _ table hcopies hkinds 52000009 (by decide) 1 none
    (some .trade)).1

end SorobanPoolActivity

end SorobanExplorer
