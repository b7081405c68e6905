import SorobanExplorer.Api.PoolActivity

/-!
# The window loses no operation

Every pass of the loop finds the next whole operations past the last one
(`batch_readWindow`): all that are left if its window was not full, and otherwise at least the
window is doubled.  So the loop ends, and what it has found is the beginning of the list
(`poolActivity_first`), whatever windows it was read through.
-/

namespace SorobanExplorer

open CutGroups Ranked Slots

/-! ## Directions as ranks -/

/-- A rank that increases in the direction of a walk. -/
structure WalksBy {κ ρ : Type*} [LinearOrder κ] [LinearOrder ρ] (direction : Direction)
    (rank : κ → ρ) : Prop where
  injective : Function.Injective rank
  admits : ∀ a b, (keysetSqlDesc direction).1.admits a b = decide (rank b < rank a)
  le : ∀ a b, (keysetSqlDesc direction).2.le a b ↔ rank a ≤ rank b
  sorted : ∀ l : List κ, (keysetSqlDesc direction).2.sorted id l = sortBy rank l

theorem walksBy_next {κ : Type*} [LinearOrder κ] : WalksBy .next (OrderDual.toDual : κ → κᵒᵈ) :=
  ⟨OrderDual.toDual.injective, fun _ _ => rfl, fun _ _ => Iff.rfl, fun _ => rfl⟩

theorem walksBy_prev {κ : Type*} [LinearOrder κ] : WalksBy .prev (id : κ → κ) :=
  ⟨Function.injective_id, fun _ _ => rfl, fun _ _ => Iff.rfl, fun _ => rfl⟩

section

variable {α κ ρ : Type*} [LinearOrder κ] [LinearOrder ρ] {direction : Direction} {rank : κ → ρ}
  {key : α → κ}

/-- The keys a list is walked by, past a cursor. -/
theorem WalksBy.rowsPast_eq (h : WalksBy direction rank) (l : List α) (cursor : Option κ) :
    rowsPast id .desc direction (l.map key) cursor =
      keysIn rank key (rowsAfter rank key l cursor) := by
  have hpast : (l.map key).filter (fun k =>
      cursor.all ((keysetSqlDesc direction).1.admits (id k))) =
        (rowsAfter rank key l cursor).map key := by
    rw [rowsAfter, List.filter_map]
    congr 1
    apply List.filter_congr
    intro a _
    cases cursor with
    | none => rfl
    | some k => exact h.admits _ _
  change firstBy id ((keysetSqlDesc direction).2.sorted id ((l.map key).filter fun k =>
    cursor.all ((keysetSqlDesc direction).1.admits (id k)))) = _
  rw [hpast, h.sorted, keysIn]

theorem WalksBy.sorted_arrange (h : WalksBy direction rank)
    (order : ReadOrder (keysetSqlDesc direction).2 key) (l : List α) :
    CutGroups.Sorted rank key (order.arrange l) :=
  (order.sorted l).imp fun hle => (h.le _ _).mp hle

end

namespace PoolActivity

/-! ## What the page lists -/

section

variable (legs : List Int64)

/-- An operation with the amount of every leg the table has. -/
def wholeOp (table : List PoolLegChRow) (position : OperationPosition) : PairedOp where
  position
  amounts := (List.range legs.length).map fun i =>
    (table.find? fun row => row.position = position ∧ legs.idxOf row.assetId = i).map (·.amount)

/-- The legs no newer than the newest ledger. -/
def visible (table : List PoolLegChRow) (newest : Int64) : List PoolLegChRow :=
  table.filter (·.position.ls ≤ newest)

/-- The operations past a cursor in the direction of the walk, each once. -/
def operationsPast (direction : Direction) (rows : List PoolLegChRow)
    (cursor : Option PoolActivityCursor) : List PairedOp :=
  (rowsPast id .desc direction (rows.map PoolLegChRow.position)
    (cursor.map PoolActivityCursor.operation)).map (wholeOp legs rows)

end

/-! ## One operation -/

variable {legs : List Int64} {table rows : List PoolLegChRow}

theorem foldl_land (op : PairedOp) (rows : List PoolLegChRow) :
    rows.foldl (PairedOp.land legs) op =
      ⟨op.position, rows.foldl (fill (legSlot legs)) op.amounts⟩ := by
  induction rows generalizing op with
  | nil => rfl
  | cons row rows ih => exact ih _

theorem legSlot_eq_some {row : PoolLegChRow} {i : ℕ} {v : Int64} :
    legSlot legs row = some (i, v) ↔
      row.assetId ∈ legs ∧ legs.idxOf row.assetId = i ∧ row.amount = v := by
  unfold legSlot
  split_ifs with h
  · simp [h]
  · simp [h]

/-- Rows of one operation that fill one slot are copies. -/
theorem agree_of_copies (hcopies : Copies PoolLegChRow.sortKey table)
    {position : OperationPosition}
    (hrows : ∀ row ∈ rows, row ∈ table ∧ row.position = position) :
    Agree (legSlot legs) rows := by
  intro a ha b hb i v w hv hw
  obtain ⟨hleg, hslot, rfl⟩ := legSlot_eq_some.mp hv
  obtain ⟨hleg', hslot', rfl⟩ := legSlot_eq_some.mp hw
  have hasset : a.assetId = b.assetId :=
    (List.idxOf_inj hleg).mp (hslot.trans hslot'.symm)
  have hkey : a.sortKey = b.sortKey :=
    Prod.ext ((hrows a ha).2.trans (hrows b hb).2.symm) hasset
  rw [hcopies a (hrows a ha).1 b (hrows b hb).1 hkey]

/-- The amount of a leg, by the slot it fills. -/
theorem find?_leg (hcopies : Copies PoolLegChRow.sortKey table) (position : OperationPosition)
    {i : ℕ} (hi : i < legs.length) :
    (table.find? fun row => row.position = position ∧ legs.idxOf row.assetId = i).map (·.amount) =
      valueAt (legSlot legs) (table.filter (·.position = position)) i := by
  rw [Option.map_eq_bind]
  apply valueAt_filter
  · exact agree_of_copies hcopies fun row hrow => by simpa using hrow
  · intro row v
    rw [legSlot_eq_some, Function.comp_apply, Option.some_inj]
    constructor
    · exact fun h => h.2
    · rintro ⟨rfl, hv⟩
      exact ⟨List.idxOf_lt_length_iff.mp hi, rfl, hv⟩
  · rintro a ha b hb rfl hposition hslot hslot'
    have hleg : a.assetId ∈ legs := List.idxOf_lt_length_iff.mp (hslot ▸ hi)
    have hasset : a.assetId = b.assetId := (List.idxOf_inj hleg).mp (hslot.trans hslot'.symm)
    rw [hcopies a ha b hb (Prod.ext hposition.symm hasset)]

/-- **Pairing the legs of one operation**, in whatever order, makes the whole operation. -/
theorem assemble_eq_wholeOp (hcopies : Copies PoolLegChRow.sortKey table)
    {position : OperationPosition} (hmem : ∃ row ∈ table, row.position = position)
    (hrows : ∀ row, row ∈ rows ↔ row ∈ table ∧ row.position = position) :
    assemble (startOp legs) (PairedOp.land legs) rows = some (wholeOp legs table position) := by
  have hagree : Agree (legSlot legs) rows := agree_of_copies hcopies fun row => (hrows row).mp
  have hsame : ∀ row, row ∈ rows ↔ row ∈ table.filter (·.position = position) := by
    intro row
    rw [hrows, List.mem_filter, decide_eq_true_eq]
  cases rows with
  | nil =>
      obtain ⟨row, hrow, hposition⟩ := hmem
      exact absurd ((hrows row).mpr ⟨hrow, hposition⟩) List.not_mem_nil
  | cons first rest =>
      have hfirst := ((hrows first).mp List.mem_cons_self).2
      rw [assemble, foldl_land, startOp, foldl_fill hagree, wholeOp, hfirst]
      congr 2
      apply List.map_congr_left
      intro i hi
      rw [find?_leg hcopies position (List.mem_range.mp hi), valueAt_congr hagree hsame]

/-! ## One pass -/

section

variable {ρ : Type*} [LinearOrder ρ] {direction : Direction} {rank : OperationPosition → ρ}
  {newest : Int64}

/-- The rows of a read are those past a position. -/
theorem readWindow_eq (hwalk : WalksBy direction rank)
    (order : ReadOrder (keysetSqlDesc direction).2 PoolLegChRow.position)
    (after : Option OperationPosition) (window : ℕ) :
    readWindow direction order table newest after window =
      (order.arrange
        (rowsAfter rank PoolLegChRow.position (visible table newest) after)).take window := by
  unfold readWindow rowsAfter visible
  rw [List.filter_filter]
  congr 2
  apply List.filter_congr
  intro row _
  cases after with
  | none => simp
  | some k => simp [hwalk.admits, Bool.and_comm]

/-- One pass finds the next whole operations: all that are left if the window was not full. -/
theorem batch_readWindow (hwalk : WalksBy direction rank)
    (hcopies : Copies PoolLegChRow.sortKey table)
    (order : ReadOrder (keysetSqlDesc direction).2 PoolLegChRow.position)
    (after : Option OperationPosition) {window : ℕ} (hwindow : 0 < window) :
    let rows := readWindow direction order table newest after window
    let keys := keysIn rank PoolLegChRow.position
      (rowsAfter rank PoolLegChRow.position (visible table newest) after)
    ∃ m, pairLegs legs rows (!decide (rows.length < window)) =
        (keys.take m).map (wholeOp legs (visible table newest)) ∧
      if rows.length < window then m = keys.length else m < keys.length := by
  intro rows keys
  set past := rowsAfter rank PoolLegChRow.position (visible table newest) after with hpast
  have hrows : rows = (order.arrange past).take window :=
    readWindow_eq hwalk order after window
  have hperm := order.perm past
  have hsorted := hwalk.sorted_arrange order past
  have hkeys : keysIn rank PoolLegChRow.position (order.arrange past) = keys :=
    keysIn_perm hwalk.injective hperm
  have hgroups := @map_some_groups _ _ _ _ _ _ _ _ _ (startOp legs) (PairedOp.land legs)
    PairedOp.sameOp PairedOp.position hwalk.injective (fun _ => rfl) (fun _ _ => rfl)
    (fun _ _ => decide_eq_true_iff) (hsorted.sublist (List.take_sublist window _))
  have hitem : ∀ k ∈ keysIn rank PoolLegChRow.position (order.arrange past),
      assemble (startOp legs) (PairedOp.land legs) ((order.arrange past).filter (·.position = k)) =
        some (wholeOp legs (visible table newest) k) := by
    intro k hk
    obtain ⟨row, hrow, hposition⟩ := mem_keysIn.mp hk
    have hvisible := List.mem_filter.mp (hperm.mem_iff.mp hrow)
    refine assemble_eq_wholeOp (hcopies.filter _) ⟨row, hvisible.1, hposition⟩ fun other => ?_
    rw [List.mem_filter, decide_eq_true_eq, hperm.mem_iff, hpast, rowsAfter, List.mem_filter]
    constructor
    · exact fun h => ⟨h.1.1, h.2⟩
    · -- all rows of an operation are past the position, or none is
      rintro ⟨hmem, rfl⟩
      exact ⟨⟨hmem, by rw [← hposition]; exact hvisible.2⟩, rfl⟩
  obtain ⟨m, hbatch, hcount⟩ := wholeGroups_eq hwalk.injective hsorted hwindow hgroups hitem
  rw [← hrows, hkeys] at hbatch hcount
  have hflag : (!decide (rows.length < window)) = decide (window ≤ rows.length) := by
    by_cases h : rows.length < window
    · simp [h]
    · simp [h, not_lt.mp h]
  refine ⟨m, ?_, ?_⟩
  · rw [hflag, pairLegs]
    exact hbatch
  · by_cases h : rows.length < window
    · rw [if_pos h]
      rwa [if_neg (by omega)] at hcount
    · rw [if_neg h]
      rwa [if_pos (by omega)] at hcount

/-! ## The loop -/

/-- The walk stands after the first `c` operations: it goes on there, and has found the wanted
ones among them. -/
structure Window.Stands (legs : List Int64) (rows : List PoolLegChRow)
    (cursor : Option OperationPosition) (event : Option PoolEvent)
    (keys : List OperationPosition) (c : ℕ) (state : Window) : Prop where
  inside : c ≤ keys.length
  after : state.after = resumeAt cursor keys c
  opens : 0 < state.window
  ops : state.ops = ((keys.take c).map (wholeOp legs rows)).filter (wanted event)

/-- One pass stands further on.  The last one stands at the end or has found enough; any other
filled its window and doubles it. -/
theorem Window.Stands.pass (hwalk : WalksBy direction rank)
    (hcopies : Copies PoolLegChRow.sortKey table) {cursor : Option OperationPosition}
    {keys : List OperationPosition}
    (hkeys : keys = keysIn rank PoolLegChRow.position
      (rowsAfter rank PoolLegChRow.position (visible table newest) cursor))
    (order : ReadOrder (keysetSqlDesc direction).2 PoolLegChRow.position) (limit : ℕ)
    {event : Option PoolEvent} {state : Window} {c : ℕ}
    (h : Window.Stands legs (visible table newest) cursor event keys c state) :
    let rows := readWindow direction order table newest state.after state.window
    let next := state.pass legs limit event rows
    (∃ c', Window.Stands legs (visible table newest) cursor event keys c' next.1 ∧
      (next.2 = true → c' = keys.length ∨ limit ≤ next.1.ops.length)) ∧
      (next.2 = false → state.window ≤ rows.length ∧ next.1.window = state.window * 2) := by
  intro rows next
  -- the window begins behind the events seen so far
  have hrest : keysIn rank PoolLegChRow.position
      (rowsAfter rank PoolLegChRow.position (visible table newest) state.after) = keys.drop c := by
    rw [h.after, hkeys]
    exact keysIn_after hwalk.injective cursor (hkeys ▸ h.inside)
  obtain ⟨m, hbatch, hcount⟩ : ∃ m, pairLegs legs rows (!decide (rows.length < state.window)) =
        ((keys.drop c).take m).map (wholeOp legs (visible table newest)) ∧
      if rows.length < state.window then m = (keys.drop c).length
      else m < (keys.drop c).length := by
    rw [← hrest]
    exact batch_readWindow hwalk hcopies order state.after h.opens
  have hdrop : (keys.drop c).length = keys.length - c := List.length_drop
  -- a window cut short loses its last event, no other
  have hm : m ≤ keys.length - c := by
    rw [← hdrop]
    split_ifs at hcount
    · exact hcount.le
    · exact hcount.le
  have hinside := h.inside
  -- the next pass starts after the last whole event
  have hlast : (((keys.drop c).take m).map (wholeOp legs (visible table newest))).getLast?.map
      PairedOp.position = ((keys.drop c).take m).getLast? := by
    rw [List.getLast?_map, Option.map_map]
    exact Option.map_id'
  refine ⟨⟨c + m, ⟨by omega, ?_, ?_, ?_⟩, ?_⟩, ?_⟩
  · change (((pairLegs legs rows _).getLast?.map PairedOp.position).or state.after) = _
    rw [hbatch, hlast, h.after]
    exact getLast?_or_resumeAt cursor keys (by omega)
  · have hopens := h.opens
    dsimp only [next, Window.pass]
    split_ifs
    · exact hopens
    · exact Nat.mul_pos hopens (by decide)
  · change state.ops ++ (pairLegs legs rows _).filter (wanted event) = _
    rw [hbatch, h.ops, ← List.filter_append, ← List.map_append, List.take_add]
  · intro hover
    rcases (Bool.or_eq_true _ _).mp hover with hshort | henough
    · left
      rw [if_pos (of_decide_eq_true hshort)] at hcount
      omega
    · exact Or.inr (of_decide_eq_true henough)
  · intro hmore
    obtain ⟨hfull, hfew⟩ := (Bool.or_eq_false_iff).mp hmore
    refine ⟨not_lt.mp (of_decide_eq_false hfull), if_neg ?_⟩
    rintro (hshort | henough)
    · exact of_decide_eq_false hfull (of_decide_eq_true hshort)
    · exact of_decide_eq_false hfew henough

/-- **The loop ends**: its windows grow past the rows there are. -/
theorem passes_eq (hwalk : WalksBy direction rank)
    (hcopies : Copies PoolLegChRow.sortKey table) {cursor : Option OperationPosition}
    {keys : List OperationPosition}
    (hkeys : keys = keysIn rank PoolLegChRow.position
      (rowsAfter rank PoolLegChRow.position (visible table newest) cursor))
    (orders : ℕ → ReadOrder (keysetSqlDesc direction).2 PoolLegChRow.position) {limit : ℕ}
    {event : Option PoolEvent} {fuel : ℕ} (round : ℕ) {state : Window} {c : ℕ}
    (h : Window.Stands legs (visible table newest) cursor event keys c state)
    (hfuel : (visible table newest).length + 1 - state.window < fuel) :
    passes legs limit event (fun round => readWindow direction (orders round) table newest) fuel
        round state =
      some (((keys.map (wholeOp legs (visible table newest))).filter (wanted event)).take
        limit) := by
  induction fuel generalizing round state c with
  | zero => omega
  | succ fuel ih =>
      obtain ⟨⟨c', hnext, hover⟩, hmore⟩ := h.pass hwalk hcopies hkeys (orders round) limit
      set next := state.pass legs limit event
        (readWindow direction (orders round) table newest state.after state.window) with hpass
      change (if next.2 then some (next.1.ops.take limit)
        else passes legs limit event _ fuel (round + 1) next.1) = _
      cases hlast : next.2 with
      | true =>
          rw [if_pos rfl]
          -- what was found begins the list
          have hbegin : next.1.ops <+:
              (keys.map (wholeOp legs (visible table newest))).filter (wanted event) := by
            rw [hnext.ops]
            exact ((List.take_prefix c' keys).map _).filter _
          rcases hover hlast with hend | henough
          · rw [hnext.ops, hend, List.take_length]
          · rw [List.prefix_iff_eq_take.mp (hbegin.take limit), List.length_take,
              Nat.min_eq_left henough, List.take_take, Nat.min_self]
      | false =>
          obtain ⟨hfull, hdouble⟩ := hmore hlast
          have hopens := h.opens
          -- a filled window is no wider than the table, so doubling ends
          have hread : (readWindow direction (orders round) table newest state.after
              state.window).length ≤ (visible table newest).length := by
            rw [readWindow_eq hwalk]
            calc _ ≤ ((orders round).arrange (rowsAfter rank PoolLegChRow.position
                    (visible table newest) state.after)).length := List.length_take_le' _ _
              _ = (rowsAfter rank PoolLegChRow.position
                    (visible table newest) state.after).length := ((orders round).perm _).length_eq
              _ ≤ (visible table newest).length := List.length_filter_le _ _
          rw [if_neg Bool.false_ne_true]
          exact ih (round + 1) hnext (by omega)

end

/-- **The page is the beginning of the pool's activity**: the first operations past the cursor
that are of the wanted kind, each once and with every leg it has. -/
theorem poolActivity_first (legs : List Int64) (direction : Direction)
    (orders : ℕ → ReadOrder (keysetSqlDesc direction).2 PoolLegChRow.position)
    (table : List PoolLegChRow) (hcopies : Copies PoolLegChRow.sortKey table) (newest : Int64)
    (limit : ℕ) (cursor : Option PoolActivityCursor) (event : Option PoolEvent) (fuel : ℕ)
    (hfuel : table.length < fuel) :
    fetchPoolActivity legs direction orders table newest limit cursor event fuel =
      some ((((operationsPast legs direction (visible table newest) cursor).filter
        (wanted event)).take limit).map PairedOp.activity) := by
  have hvisible : (visible table newest).length ≤ table.length := List.length_filter_le _ _
  have hwindow : 0 < (firstWindow legs limit cursor).window :=
    lt_of_lt_of_le (by decide) (le_max_right _ 64)
  have hfirst : ∀ keys : List OperationPosition,
      Window.Stands legs (visible table newest) (cursor.map PoolActivityCursor.operation) event
        keys 0 (firstWindow legs limit cursor) :=
    fun keys => ⟨Nat.zero_le _, rfl, hwindow, rfl⟩
  unfold fetchPoolActivity operationsPast
  cases direction with
  | next =>
      rw [walksBy_next.rowsPast_eq,
        passes_eq walksBy_next hcopies rfl orders 0 (hfirst _) (by omega)]
      rfl
  | prev =>
      rw [walksBy_prev.rowsPast_eq,
        passes_eq walksBy_prev hcopies rfl orders 0 (hfirst _) (by omega)]
      rfl

/-- The newest trade of a pool: a leg of it is held twice, and the operation after it is of one
leg and an asset the pool does not have. -/
theorem poolActivity_first_trade :
    let legs : List Int64 := [11, 12]
    let table : List PoolLegChRow :=
      [⟨⟨7, 0, 0⟩, 11, 500⟩, ⟨⟨7, 0, 0⟩, 12, 900⟩, ⟨⟨8, 3, 1⟩, 11, -20⟩, ⟨⟨8, 3, 1⟩, 12, 35⟩,
        ⟨⟨8, 3, 1⟩, 12, 35⟩, ⟨⟨9, 1, 0⟩, 11, 4⟩, ⟨⟨9, 1, 0⟩, 99, 6⟩]
    fetchPoolActivity legs .next (fun _ => FetchOrder.desc.stable PoolLegChRow.position) table 9 1
        none (some .trade) 8 =
      some ((((operationsPast legs .next (visible table 9) none).filter
        (wanted (some .trade))).take 1).map PairedOp.activity) := by
  intro legs table
  have hcopies : Copies PoolLegChRow.sortKey table := by
    unfold Copies
    decide
  exact poolActivity_first legs .next _ table hcopies 9 1 none (some .trade) 8 (by decide)

end PoolActivity

end SorobanExplorer
