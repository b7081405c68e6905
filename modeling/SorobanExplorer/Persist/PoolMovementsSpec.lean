import SorobanExplorer.Persist.PoolMovements
import Mathlib.Algebra.Order.BigOperators.Group.List
import Mathlib.Algebra.Order.Monoid.Canonical.Basic
import Mathlib.Data.List.TakeWhile

/-!
# Exact amounts and whole groups

* `sorobanPoolAmountRows_exact_iff`: the amounts stored are those the events state exactly
  where no event negates the least 128-bit number or nets two amounts past the range;
* `steps_grouping`: the loop takes every event once, and a group is a `sender` event with
  the fields of its event and operation that follow it;
* `poolEvents_eq_of_filter_eq`: only the order within an operation of a contract matters.
-/

namespace SorobanExplorer

open Checked KeyedFold StableSort Text

/-! ## Amounts that wrap -/

namespace Reading

/-- The readings that a 128-bit number does not hold. -/
def Overflows : Reading → Prop
  | int _ => False
  | neg x => (x : ℤ) = -2 ^ 127
  | mul sign x => sign = .leaves ∧ (x : ℤ) = -2 ^ 127
  | sub x y => (x : ℤ) - y < -2 ^ 127 ∨ 2 ^ 127 ≤ (x : ℤ) - y

theorem overflows_iff (reading : Reading) : reading.Overflows ↔ ¬ Range.i128.Has reading.exact := by
  have hbounds : ∀ x : ℤ, Range.i128.Has x ↔ -2 ^ 127 ≤ x ∧ x < 2 ^ 127 := fun x => by
    show _ ∧ x ≤ 2 ^ 127 - 1 ↔ _
    exact and_congr_right fun _ => Int.le_sub_one_iff
  cases reading with
  | int x => exact iff_of_false id (not_not.mpr x.2)
  | neg x =>
      have hx := (hbounds x).mp x.2
      rw [Overflows, exact, hbounds]
      omega
  | mul sign x =>
      have hx := (hbounds x).mp x.2
      cases sign with
      | enters =>
          rw [Overflows, exact, hbounds, LegSign.value, one_mul]
          simp only [reduceCtorEq, false_and, false_iff, not_not]
          exact hx
      | leaves =>
          rw [Overflows, exact, hbounds, LegSign.value]
          simp only [true_and]
          omega
  | sub x y =>
      rw [Overflows, exact, hbounds]
      omega

theorem amount_of_not_overflows {reading : Reading} (h : ¬ reading.Overflows) :
    reading.amount = reading.exact := by
  rw [overflows_iff, not_not] at h
  obtain ⟨hlow, hhigh⟩ := h
  simp only [Range.i128] at hlow hhigh
  exact Int.bmod_eq_of_le (by norm_num; omega) (by norm_num; omega)

end Reading

section

variable [Crates]

/-- The rows of a step by exact arithmetic: none if an amount does not fit. -/
def Step.pushExact (sac : Table Int64 Int64) (step : Step) : List PoolMovementRow :=
  match step.written sac with
  | none => []
  | some (kind, legs) =>
      if ∀ leg ∈ legs, Range.i128.Has leg.2.exact then
        legs.map fun leg => movementRow step.first kind (leg.1, leg.2.exact)
      else []

/-- The rows of the events by exact arithmetic. -/
def exactPoolAmountRows (events : List SorobanEventRow) (pools : Table Int64 SorobanPool)
    (sac : Table Int64 Int64) : List PoolMovementRow :=
  (steps (poolEvents events pools)).flatMap (Step.pushExact sac)

/-- Whether a step writes a leg that overflows. -/
def Step.Wraps (sac : Table Int64 Int64) (step : Step) : Prop :=
  ∃ kind legs, step.written sac = some (kind, legs) ∧ ∃ leg ∈ legs, leg.2.Overflows

theorem Step.push_of_not_wraps {sac : Table Int64 Int64} {step : Step} (h : ¬ step.Wraps sac) :
    step.push sac = step.pushExact sac := by
  unfold Step.push Step.pushExact
  cases hwritten : step.written sac with
  | none => rfl
  | some written =>
      obtain ⟨kind, legs⟩ := written
      have hexact : ∀ leg ∈ legs, ¬ leg.2.Overflows := fun leg hleg hover =>
        h ⟨kind, legs, hwritten, leg, hleg, hover⟩
      have hfits : ∀ leg ∈ legs, Range.i128.Has leg.2.exact := fun leg hleg =>
        not_not.mp ((leg.2.overflows_iff).not.mp (hexact leg hleg))
      simp only [if_pos hfits]
      refine List.map_congr_left fun leg hleg => ?_
      rw [Reading.amount_of_not_overflows (hexact leg hleg)]

theorem Step.length_pushExact_lt {sac : Table Int64 Int64} {step : Step} (h : step.Wraps sac) :
    (step.pushExact sac).length < (step.push sac).length := by
  obtain ⟨kind, legs, hwritten, leg, hleg, hover⟩ := h
  have hfits : ¬ ∀ leg ∈ legs, Range.i128.Has leg.2.exact := fun hall =>
    leg.2.overflows_iff.mp hover (hall leg hleg)
  unfold Step.push Step.pushExact
  simp only [hwritten, if_neg hfits, List.length_nil, List.length_map]
  exact List.length_pos_of_mem hleg

/-- The amounts stored are the exact ones, and an event with an amount that does not fit
is refused, exactly if no written event negates the least number or nets past the
range. -/
theorem sorobanPoolAmountRows_exact_iff (events : List SorobanEventRow)
    (pools : Table Int64 SorobanPool) (sac : Table Int64 Int64) :
    sorobanPoolAmountRows events pools sac = exactPoolAmountRows events pools sac ↔
      ∀ step ∈ steps (poolEvents events pools), ¬ step.Wraps sac := by
  constructor
  · intro h step hstep hwraps
    have hlengths := congrArg List.length h
    rw [sorobanPoolAmountRows, exactPoolAmountRows, List.length_flatMap, List.length_flatMap]
      at hlengths
    have hle : ∀ step ∈ steps (poolEvents events pools),
        (step.pushExact sac).length ≤ (step.push sac).length := by
      intro step _
      by_cases hwraps : step.Wraps sac
      · exact (step.length_pushExact_lt hwraps).le
      · rw [step.push_of_not_wraps hwraps]
    have hlt := List.sum_lt_sum _ _ hle ⟨step, hstep, step.length_pushExact_lt hwraps⟩
    exact absurd hlengths.symm hlt.ne
  · intro h
    rw [sorobanPoolAmountRows, exactPoolAmountRows]
    exact List.flatMap_congr fun step hstep => step.push_of_not_wraps (h step hstep)

/-! ### A trade of the least number -/

/-- An event of a contract at position `(1, 0)` of ledger 100. -/
def eventOf (contractId : Int64) (eventIndex : UInt32) (topics : List Json) (data : Json) :
    SorobanEventRow where
  contractId
  ledgerSequence := 100
  operationIndex := 0
  eventIndex
  applicationOrder := 1
  topicsXdr := some (.arr topics)
  dataXdr := some data

/-- A pool of which nothing but its id is known. -/
def barePool (contractId : Int64) : Table Int64 SorobanPool :=
  AList.insert contractId ⟨9, [], ∅⟩ ∅

/-- A trade that pays out the least number of tokens. -/
def leastTrade : SorobanEventRow :=
  eventOf 7 0
    [typedJson "sym" (.str "trade"), typedJson "address" (.str "CA"), typedJson "address" (.str "CB"),
      typedJson "address" (.str "GA")]
    (typedJson "vec" (.arr [typedJson "i128" (.str "5"),
      typedJson "i128" (.str "-170141183460469231731687303715884105728"),
      typedJson "i128" (.str "0")]))

omit [Crates] in
theorem poolEvents_singleton (ev : SorobanEventRow) (pool : SorobanPool)
    {pools : Table Int64 SorobanPool} (h : pools.lookup ev.contractId = some pool) :
    poolEvents [ev] pools = [(ev, pool)] := by
  rw [poolEvents, List.filterMap_cons_some (by rw [h]; rfl), List.filterMap_nil]
  exact sortByKey_eq_self (List.pairwise_singleton _ _)

omit [Crates] in
/-- The amount stored for it is the least number again. -/
theorem not_sorobanPoolAmountRows_exact :
    ¬ ∀ (_ : Crates) (events : List SorobanEventRow) (pools : Table Int64 SorobanPool)
      (sac : Table Int64 Int64),
      sorobanPoolAmountRows events pools sac = exactPoolAmountRows events pools sac := by
  intro hclaim
  let _ : Crates := Crates.pinned
  have hlengths := congrArg List.length (hclaim Crates.pinned [leastTrade] (barePool 7) ∅)
  have hsteps : steps (poolEvents [leastTrade] (barePool 7)) =
      [.whole (leastTrade, ⟨9, [], ∅⟩) (leastTrade.dataXdr.getD .null)] := by
    rw [poolEvents_singleton leastTrade ⟨9, [], ∅⟩ rfl, steps, steps]
    rfl
  rw [sorobanPoolAmountRows, exactPoolAmountRows, hsteps] at hlengths
  revert hlengths
  decide

end

/-! ## Groups -/

/-- The events a step takes. -/
def Step.events : Step → List PoolEventRow
  | passed ev => [ev]
  | group _ opener members => opener :: members
  | whole ev _ => [ev]

/-- Whether an event adds a field to a step's group. -/
def Step.Continues (step : Step) (next : PoolEventRow) : Prop :=
  match step with
  | group name opener _ => joinsGroup opener.1 name next
  | passed _ | whole _ _ => False

/-- Steps take every event once and in order.  A group is a readable `sender` event and
the fields that follow it in its event and operation, up to the next `sender`. -/
structure Grouping (events : List PoolEventRow) (steps : List Step) : Prop where
  once : steps.flatMap Step.events = events
  opened : ∀ name opener members, .group name opener members ∈ steps →
    phoenixFieldEventName opener.1.topics = some name ∧ opener.1.field = some "sender" ∧
      ∀ member ∈ members, member.1.op = opener.1.op ∧
        phoenixFieldEventName member.1.topics = some name ∧ member.1.field ≠ some "sender"
  closed : steps.IsChain fun step next => ¬ step.Continues next.first
  left : ∀ ev, .passed ev ∈ steps → ev.1.field = some "sender" → ev.1.dataXdr = none ∨
    phoenixFieldEventName ev.1.topics = none
  whole : ∀ ev data, .whole ev data ∈ steps → phoenixFieldEventName ev.1.topics = none

theorem turn_opens {ev : SorobanEventRow} {name : String} (h : ev.turn = .opens name) :
    phoenixFieldEventName ev.topics = some name ∧ ev.field = some "sender" := by
  unfold SorobanEventRow.turn at h
  split at h
  · split at h
    · rename_i found hfound
      by_cases hunbonded : ev.field = some "auto unbonded"
      · rw [if_pos hunbonded] at h
        cases h
      · by_cases hsender : ev.field = some "sender"
        · rw [if_neg hunbonded, if_neg (not_not.mpr hsender)] at h
          cases h
          exact ⟨hfound, hsender⟩
        · rw [if_neg hunbonded, if_pos hsender] at h
          cases h
    · cases h
  · cases h

/-- An event that is neither whole nor opens a group, although a `sender`. -/
theorem unreadable_of_sender {ev : SorobanEventRow} (hsender : ev.field = some "sender")
    (hopens : ∀ name, ev.turn ≠ .opens name) :
    ev.dataXdr = none ∨ phoenixFieldEventName ev.topics = none := by
  by_contra hreadable
  push Not at hreadable
  obtain ⟨hdata, hname⟩ := hreadable
  obtain ⟨data, hdata⟩ := Option.ne_none_iff_exists'.mp hdata
  obtain ⟨name, hname⟩ := Option.ne_none_iff_exists'.mp hname
  have htopics : ∃ topics, ev.topicsXdr = some topics := by
    cases htopics : ev.topicsXdr with
    | none =>
        rw [SorobanEventRow.topics, htopics] at hname
        cases hname
    | some topics => exact ⟨topics, rfl⟩
  obtain ⟨topics, htopics⟩ := htopics
  refine hopens name ?_
  have hsender' : (some "sender" : Option String) ≠ some "auto unbonded" := by decide
  unfold SorobanEventRow.turn
  simp only [htopics, hdata, hname, hsender]
  rw [if_neg hsender', if_neg (not_not.mpr rfl)]

theorem turn_whole {ev : SorobanEventRow} {data : Json} (h : ev.turn = .whole data) :
    phoenixFieldEventName ev.topics = none := by
  unfold SorobanEventRow.turn at h
  split at h
  · split at h
    · split_ifs at h
    · assumption
  · cases h

theorem Step.head?_events (step : Step) : step.events.head? = some step.first := by
  cases step <;> rfl

/-- What a step adds in front of a grouping of the rest. -/
theorem Grouping.cons {step : Step} {rest : List PoolEventRow} {steps : List Step}
    (h : Grouping rest steps)
    (hopened : ∀ name opener members, .group name opener members = step →
      phoenixFieldEventName opener.1.topics = some name ∧ opener.1.field = some "sender" ∧
        ∀ member ∈ members, joinsGroup opener.1 name member)
    (hclosed : ∀ next ∈ rest.head?, ¬ step.Continues next)
    (hleft : ∀ ev, .passed ev = step → ev.1.field = some "sender" → ev.1.dataXdr = none ∨
      phoenixFieldEventName ev.1.topics = none)
    (hwhole : ∀ ev data, .whole ev data = step → phoenixFieldEventName ev.1.topics = none) :
    Grouping (step.events ++ rest) (step :: steps) where
  once := by rw [List.flatMap_cons, h.once]
  opened name opener members hmem := by
    rcases List.mem_cons.mp hmem with hstep | hmem
    · obtain ⟨hname, hsender, hjoins⟩ := hopened name opener members hstep
      exact ⟨hname, hsender, fun member hmember => by simpa [joinsGroup] using hjoins member hmember⟩
    · exact h.opened name opener members hmem
  closed := by
    refine List.isChain_cons.mpr ⟨fun next hnext => hclosed next.first ?_, h.closed⟩
    obtain ⟨later, rfl⟩ : ∃ later, steps = next :: later := List.head?_eq_some_iff.mp hnext
    rw [← h.once, List.flatMap_cons, List.head?_append, next.head?_events]
    rfl
  left ev hmem := by
    rcases List.mem_cons.mp hmem with hstep | hmem
    · exact hleft ev hstep
    · exact h.left ev hmem
  whole ev data hmem := by
    rcases List.mem_cons.mp hmem with hstep | hmem
    · exact hwhole ev data hstep
    · exact h.whole ev data hmem

/-- An event that is passed over. -/
theorem Grouping.passed {ev : PoolEventRow} {rest : List PoolEventRow} {steps : List Step}
    (h : Grouping rest steps) (hopens : ∀ name, ev.1.turn ≠ .opens name) :
    Grouping (ev :: rest) (.passed ev :: steps) := by
  refine @Grouping.cons (.passed ev) _ _ h ?_ ?_ ?_ ?_
  · exact fun name opener members hstep => by cases hstep
  · exact fun _ _ => id
  · rintro _ ⟨⟩ hsender
    exact unreadable_of_sender hsender hopens
  · exact fun _ _ hstep => by cases hstep

theorem steps_grouping (events : List PoolEventRow) : Grouping events (steps events) := by
  induction events using steps.induct with
  | case1 =>
      rw [steps]
      exact ⟨rfl, by simp, .nil, by simp, by simp⟩
  | case2 ev rest name hturn ih =>
      rw [steps, hturn]
      have hcons := @Grouping.cons (.group name ev (rest.takeWhile (joinsGroup ev.1 name))) _ _ ih
        ?_ ?_ ?_ ?_
      · rwa [Step.events, List.cons_append, List.takeWhile_append_dropWhile] at hcons
      · rintro _ _ _ ⟨⟩
        obtain ⟨hname, hsender⟩ := turn_opens hturn
        exact ⟨hname, hsender, fun member hmember => List.mem_takeWhile_imp hmember⟩
      · intro next hnext hcontinues
        -- the run ends where the next event is no field of it
        have hfirst := List.head?_dropWhile_not (joinsGroup ev.1 name) rest
        rw [hnext] at hfirst
        exact absurd hcontinues (by simp only [Step.Continues, hfirst]; decide)
      · exact fun _ hstep => by cases hstep
      · exact fun _ _ hstep => by cases hstep
  | case3 ev rest data hturn ih =>
      rw [steps, hturn]
      refine @Grouping.cons (.whole ev data) _ _ ih ?_ ?_ ?_ ?_
      · exact fun name opener members hstep => by cases hstep
      · exact fun _ _ => id
      · exact fun _ hstep => by cases hstep
      · rintro _ _ ⟨⟩
        exact turn_whole hturn
  | case4 ev rest hturn ih =>
      rw [steps, hturn]
      exact ih.passed (by simp [hturn])
  | case5 ev rest hturn ih =>
      rw [steps, hturn]
      exact ih.passed (by simp [hturn])
  | case6 ev rest hturn ih =>
      rw [steps, hturn]
      exact ih.passed (by simp [hturn])

/-- A step is placed at an event, with the pool of the event's contract. -/
theorem first_of_mem_steps {events : List SorobanEventRow} {pools : Table Int64 SorobanPool}
    {step : Step} (h : step ∈ steps (poolEvents events pools)) :
    step.first.1 ∈ events ∧ pools.lookup step.first.1.contractId = some step.first.2 := by
  have hfirst : step.first ∈ step.events := List.mem_of_head? step.head?_events
  have hmem : step.first ∈ poolEvents events pools := by
    rw [← (steps_grouping (poolEvents events pools)).once]
    exact List.mem_flatMap.mpr ⟨step, h, hfirst⟩
  obtain ⟨ev, hev, hpool⟩ := List.mem_filterMap.mp (sortByKey_perm.mem_iff.mp hmem)
  obtain ⟨pool, hlookup, heq⟩ := Option.map_eq_some_iff.mp hpool
  rw [← heq]
  exact ⟨hev, hlookup⟩

/-! ## The order of events -/

theorem op_of_position {ev : SorobanEventRow} {k : List ℤ} (h : ev.position = k) :
    ev.op = k.dropLast := by
  rw [← h, SorobanEventRow.position, List.dropLast_concat]

/-- Only the order of the events within an operation of a contract matters. -/
theorem poolEvents_eq_of_filter_eq {events events' : List SorobanEventRow}
    (h : ∀ op, events'.filter (·.op = op) = events.filter (·.op = op))
    (pools : Table Int64 SorobanPool) : poolEvents events' pools = poolEvents events pools := by
  have hposition : ∀ (events : List SorobanEventRow) k, events.filter (·.position = k) =
      (events.filter (·.op = k.dropLast)).filter (·.position = k) := by
    intro events k
    rw [List.filter_filter]
    refine List.filter_congr fun ev _ => ?_
    by_cases hk : ev.position = k
    · simp [hk, op_of_position hk]
    · simp [hk]
  have hknown : ∀ (events : List SorobanEventRow) k,
      (events.filterMap fun ev => (pools.lookup ev.contractId).map fun pool => (ev, pool)).filter
          (fun ev => ev.1.position = k) =
        (events.filter (·.position = k)).filterMap fun ev =>
          (pools.lookup ev.contractId).map fun pool => (ev, pool) := by
    intro events k
    rw [List.filter_filterMap, List.filterMap_filter]
    refine List.filterMap_congr fun ev _ => ?_
    cases pools.lookup ev.contractId <;> by_cases hk : ev.position = k <;> simp [hk]
  refine sortByKey_eq_of_filter_eq fun k => ?_
  rw [hknown, hknown, hposition events', hposition events, h]

section

variable [Crates]

/-- The loop takes every event of a known pool once; what it takes at once is one event,
or a `sender` event and the fields of its event and operation after it, up to the next
`sender`.  The rows depend on the order within an operation of a contract alone. -/
theorem sorobanPoolAmountRows_grouped (events : List SorobanEventRow)
    (pools : Table Int64 SorobanPool) (sac : Table Int64 Int64) :
    Grouping (poolEvents events pools) (steps (poolEvents events pools)) ∧
      ∀ events' : List SorobanEventRow,
        (∀ op, events'.filter (·.op = op) = events.filter (·.op = op)) →
          sorobanPoolAmountRows events' pools sac = sorobanPoolAmountRows events pools sac := by
  refine ⟨steps_grouping _, fun events' h => ?_⟩
  rw [sorobanPoolAmountRows, sorobanPoolAmountRows, poolEvents_eq_of_filter_eq h]

/-- A field of a swap. -/
def fieldEvent (eventIndex : UInt32) (field : String) (data : Json) : SorobanEventRow :=
  eventOf 7 eventIndex [typedJson "string" (.str "swap"), typedJson "string" (.str field)] data

omit [Crates] in
/-- A field is passed over, and a field is in a group twice. -/
theorem not_grouped :
    (¬ ∀ (events : List SorobanEventRow) (pools : Table Int64 SorobanPool),
      ∀ ev ∈ poolEvents events pools, phoenixFieldEventName ev.1.topics ≠ none →
        ∃ name opener members, .group name opener members ∈ steps (poolEvents events pools) ∧
          ev ∈ opener :: members) ∧
    ¬ ∀ (events : List SorobanEventRow) (pools : Table Int64 SorobanPool),
      ∀ name opener members, .group name opener members ∈ steps (poolEvents events pools) →
        ((opener :: members).map fun member => member.1.field).Nodup := by
  constructor
  · intro hclaim
    -- a field without an opener is passed over
    let ev := fieldEvent 0 "auto unbonded" (typedJson "i128" (.str "1"))
    have hpool : poolEvents [ev] (barePool 7) = [(ev, ⟨9, [], ∅⟩)] :=
      poolEvents_singleton ev ⟨9, [], ∅⟩ rfl
    obtain ⟨name, opener, members, hgroup, -⟩ :=
      hclaim [ev] (barePool 7) (ev, ⟨9, [], ∅⟩) (by rw [hpool]; exact List.mem_singleton_self _)
        (by decide)
    have hsteps : steps [(ev, (⟨9, [], ∅⟩ : SorobanPool))] = [.passed (ev, ⟨9, [], ∅⟩)] := by
      rw [steps, steps]
      rfl
    rw [hpool, hsteps] at hgroup
    cases List.mem_singleton.mp hgroup
  · intro hclaim
    -- and a group takes a field twice
    let amount := typedJson "i128" (.str "1")
    let pool : SorobanPool := ⟨9, [], ∅⟩
    let sender := fieldEvent 0 "sender" (typedJson "address" (.str "GA"))
    let events := [sender, fieldEvent 1 "offer_amount" amount, fieldEvent 2 "offer_amount" amount]
    have hpool : poolEvents events (barePool 7) = events.map fun ev => (ev, pool) :=
      sortByKey_eq_self (by unfold SortedByKey; decide)
    have hsteps : steps (events.map fun ev => (ev, pool)) =
        [.group "swap" (sender, pool) (events.tail.map fun ev => (ev, pool))] := by
      rw [List.map_cons, steps]
      show Step.group "swap" (sender, pool) _ :: steps [] = _
      rw [steps]
      rfl
    have hnodup := hclaim events (barePool 7) "swap" (sender, pool)
      (events.tail.map fun ev => (ev, pool)) (by rw [hpool, hsteps]; exact List.mem_singleton_self _)
    revert hnodup
    decide

end

end SorobanExplorer
