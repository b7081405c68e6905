import SorobanExplorer.Api.Pagination
import SorobanExplorer.Lib.Collapse

/-!
# Following the cursors of a list

The cursor of a list carries a payload of its own in the common envelope.  A walk
requests the first page and then each page's `next_cursor`; `walksThrough_iff` reads
it as a walk by pages of what each fetch finds.
-/

namespace SorobanExplorer

/-! ## Payloads -/

/-- How a payload is written and read. -/
structure PayloadFormat (P : Type) where
  toJson : P → Json
  fromJson : Json → Option P

section

variable {P : Type} (codec : CursorCodec) (format : PayloadFormat P)

def payloadEnvelope (payload : P) (direction : Direction) : Json :=
  .obj [("dir", direction.toJson), ("p", format.toJson payload)]

/-- An envelope with its two fields and no other. -/
def payloadEnvelopeFromJson : Json → Option (Direction × P)
  | .obj fields =>
      if fields.all fun field => field.1 = "dir" ∨ field.1 = "p" then do
        let direction ← Direction.fromJson (← fieldOnce fields "dir")
        let payload ← format.fromJson (← fieldOnce fields "p")
        some (direction, payload)
      else none
  | .arr [direction, payload] => do
      some (← Direction.fromJson direction, ← format.fromJson payload)
  | _ => none

def CursorCodec.encodePayload (payload : P) (direction : Direction) : String :=
  codec.base64Encode (codec.toVec (payloadEnvelope format payload direction))

def CursorCodec.decodePayload (text : String) : Except CursorError (Direction × P) :=
  match codec.base64Decode text with
  | none => .error .invalidBase64
  | some bytes =>
      match (codec.fromSlice bytes).bind (payloadEnvelopeFromJson format) with
      | none => .error .invalidPayload
      | some envelope => .ok envelope

/-- The direction and the payload of a request; without a cursor it is the first page. -/
def decodePayloadCursor (raw : Option String) : Except CursorError (Direction × Option P) :=
  match raw with
  | none => .ok (.next, none)
  | some text =>
      (codec.decodePayload format text).map fun (direction, payload) => (direction, some payload)

/-- The crates read back what they wrote of the cursors with a payload. -/
def CursorCodec.ReadsBackPayload (payload : P) : Prop :=
  ∀ direction,
    codec.fromSlice (codec.toVec (payloadEnvelope format payload direction)) =
      some (payloadEnvelope format payload direction) ∧
    codec.base64Decode (codec.base64Encode
        (codec.toVec (payloadEnvelope format payload direction))) =
      some (codec.toVec (payloadEnvelope format payload direction))

variable {codec format}

/-- A cursor survives the wire if its payload does. -/
theorem CursorCodec.decodePayload_encodePayload {payload : P}
    (h : codec.ReadsBackPayload format payload)
    (hpayload : format.fromJson (format.toJson payload) = some payload) (direction : Direction) :
    codec.decodePayload format (codec.encodePayload format payload direction) =
      .ok (direction, payload) := by
  obtain ⟨hjson, hbase64⟩ := h direction
  have henvelope : payloadEnvelopeFromJson format (payloadEnvelope format payload direction) =
      some (direction, payload) := by
    simp [payloadEnvelopeFromJson, payloadEnvelope, fieldOnce, Direction.fromJson_toJson, hpayload]
  simp only [CursorCodec.decodePayload, CursorCodec.encodePayload, hbase64, hjson,
    Option.bind_some, henvelope]

end

/-- The page of a list: what is fetched past the cursor, with the payloads of its boundary
rows in the continuations. -/
def pagedList {P : Type} {α : Type*} (codec : CursorCodec) (format : PayloadFormat P) (limit : ℕ)
    (fetch : ℕ → Option P → Direction → List α) (payload : α → P) (raw : Option String) :
    Except CursorError (Page α) :=
  (decodePayloadCursor codec format raw).map fun (direction, cursor) =>
    finalizePage (fetch (limit + 1) cursor direction) limit direction cursor.isSome
      fun direction row => codec.encodePayload format (payload row) direction

/-! ## Walks -/

section

variable {α β γ : Type*} (endpoint : Option String → Except CursorError (Page α))

/-- The `k`-th page along the forward continuations. -/
def walkAt : ℕ → Option (Except CursorError (Page α))
  | 0 => some (endpoint none)
  | k + 1 =>
      match walkAt k with
      | some (.ok page) => page.info.nextCursor.map fun cursor => endpoint (some cursor)
      | _ => none

/-- The rows of the first `n` pages. -/
def walkRows (n : ℕ) : List α :=
  (List.range n).flatMap fun k =>
    match walkAt endpoint k with
    | some (.ok page) => page.rows
    | _ => []

/-- The walk ends, every page of it is served, and the keys of its rows are the list. -/
def WalksThrough (key : α → γ) (expected : List γ) : Prop :=
  ∃ n, walkAt endpoint n = none ∧ (∀ k < n, ∃ page, walkAt endpoint k = some (.ok page)) ∧
    (walkRows endpoint n).map key = expected

variable {endpoint}

/-- Every row of a walk is a row of some page. -/
theorem exists_page_of_mem_walkRows {n : ℕ} {row : α} (h : row ∈ walkRows endpoint n) :
    ∃ raw page, endpoint raw = .ok page ∧ row ∈ page.rows := by
  obtain ⟨k, -, hrow⟩ := List.mem_flatMap.mp h
  cases hat : walkAt endpoint k with
  | none => rw [hat] at hrow; cases hrow
  | some response =>
      cases response with
      | error error => rw [hat] at hrow; cases hrow
      | ok page =>
          rw [hat] at hrow
          suffices hraw : ∃ raw, endpoint raw = .ok page from hraw.imp fun _ hraw => ⟨page, hraw, hrow⟩
          cases k with
          | zero => exact ⟨none, Option.some.inj hat⟩
          | succ k =>
              rw [walkAt] at hat
              split at hat
              · obtain ⟨cursor, -, hcursor⟩ := Option.map_eq_some_iff.mp hat
                exact ⟨some cursor, hcursor⟩
              · cases hat

/-- A response is the page of the `k`-th fetch, with the cursor of its last key if the
fetch found more. -/
def IsFetch (key : α → β) (keys : List β) (limit : ℕ) (found : ℕ → ℕ) (cursor : β → String)
    (k : ℕ) (response : Except CursorError (Page α)) : Prop :=
  ∃ page, response = .ok page ∧
    page.rows.map key = (PageWalk.fetched keys limit found k).take limit ∧
    page.info.nextCursor =
      if limit < (PageWalk.fetched keys limit found k).length then
        ((PageWalk.fetched keys limit found k).take limit).getLast?.map cursor
      else none

/-- A page shows only fetched rows. -/
theorem mem_of_mem_finalizePage {rows : List α} {limit : ℕ} {direction : Direction}
    {hasPredecessor : Bool} {cursorOf : Direction → α → String} {row : α}
    (h : row ∈ (finalizePage rows limit direction hasPredecessor cursorOf).rows) : row ∈ rows := by
  cases direction with
  | next =>
      rw [finalizePage_next] at h
      exact List.mem_of_mem_take h
  | prev =>
      rw [finalizePage_prev] at h
      exact List.mem_of_mem_take (List.mem_reverse.mp h)

theorem isFetch_finalizePage {key : α → β} {keys : List β} {limit : ℕ} {found : ℕ → ℕ}
    {cursor : β → String} {k : ℕ} {rows : List α} {hasPredecessor : Bool}
    {cursorOf : Direction → α → String}
    (hrows : rows.map key = PageWalk.fetched keys limit found k)
    (hcursor : ∀ row, cursorOf .next row = cursor (key row)) :
    IsFetch key keys limit found cursor k
      (.ok (finalizePage rows limit .next hasPredecessor cursorOf)) := by
  refine ⟨_, rfl, ?_, ?_⟩
  · rw [finalizePage_next, List.map_take, hrows]
  · have hcursor : cursorOf .next = cursor ∘ key := funext hcursor
    rw [finalizePage_next, ← hrows, List.length_map, ← List.map_take, List.getLast?_map,
      Option.map_map, ← hcursor]

/-- The first page, and the page after the last key of each full one. -/
structure Walks (endpoint : Option String → Except CursorError (Page α)) (key : α → β)
    (keys : List β) (limit : ℕ) (found : ℕ → ℕ) (cursor : β → String) : Prop where
  first : IsFetch key keys limit found cursor 0 (endpoint none)
  next : ∀ k, ∀ last ∈ keys[(k + 1) * limit - 1]?,
    IsFetch key keys limit found cursor (k + 1) (endpoint (some (cursor last)))

variable {key : α → β} {keys : List β} {limit : ℕ} {found : ℕ → ℕ}
  {cursor : β → String}

/-- The page of the last fetch of a run of full ones. -/
theorem Walks.walkAt_of_goes (h : Walks endpoint key keys limit found cursor)
    (hlimit : 1 ≤ limit) {k : ℕ} (hgoes : PageWalk.Goes keys limit found k) :
    ∃ response, walkAt endpoint k = some response ∧
      IsFetch key keys limit found cursor k response := by
  induction k with
  | zero => exact ⟨_, rfl, h.first⟩
  | succ k ih =>
      obtain ⟨_, hat, page, rfl, -, hnext⟩ := ih fun j hj => hgoes j (Nat.lt_succ_of_lt hj)
      have hlong := hgoes k (Nat.lt_succ_self k)
      have hlast := PageWalk.getLast?_page hlimit hlong
      have hbound : (k + 1) * limit - 1 < keys.length := by
        rw [PageWalk.length_fetched] at hlong
        rw [Nat.succ_mul]
        omega
      rw [List.getElem?_eq_getElem hbound] at hlast
      rw [if_pos hlong, hlast, Option.map_some] at hnext
      refine ⟨_, ?_, h.next k _ (List.getElem?_eq_getElem hbound)⟩
      rw [walkAt, hat]
      simp only [hnext, Option.map_some]

/-- After a short fetch there is no page. -/
theorem Walks.walkAt_eq_none (h : Walks endpoint key keys limit found cursor)
    (hlimit : 1 ≤ limit) {m : ℕ} (hgoes : PageWalk.Goes keys limit found m)
    (hshort : (PageWalk.fetched keys limit found m).length ≤ limit) {n : ℕ} (hn : m < n) :
    walkAt endpoint n = none := by
  obtain ⟨d, rfl⟩ := Nat.exists_eq_add_of_lt hn
  induction d with
  | zero =>
      obtain ⟨_, hat, page, rfl, -, hnext⟩ := h.walkAt_of_goes hlimit hgoes
      rw [if_neg (not_lt.mpr hshort)] at hnext
      simp only [walkAt, hat, hnext, Option.map_none]
  | succ d ih =>
      rw [show m + (d + 1) + 1 = (m + d + 1) + 1 by omega, walkAt, ih (by omega)]

theorem Walks.map_walkRows_of_goes (h : Walks endpoint key keys limit found cursor)
    (hlimit : 1 ≤ limit) {n : ℕ} (hgoes : ∀ k < n, PageWalk.Goes keys limit found k) :
    (walkRows endpoint n).map key = PageWalk.shown keys limit found n := by
  rw [walkRows, PageWalk.shown, List.map_flatMap]
  apply List.flatMap_congr
  intro k hk
  obtain ⟨_, hat, page, rfl, hrows, -⟩ :=
    h.walkAt_of_goes hlimit (hgoes k (List.mem_range.mp hk))
  simp only [hat, hrows]

/-- What the walk has shown once a fetch came back short. -/
theorem Walks.map_walkRows_of_short (h : Walks endpoint key keys limit found cursor)
    (hlimit : 1 ≤ limit) {m n : ℕ} (hgoes : PageWalk.Goes keys limit found m)
    (hshort : (PageWalk.fetched keys limit found m).length ≤ limit) (hn : m < n) :
    (walkRows endpoint n).map key =
      keys.take (m * limit + (PageWalk.fetched keys limit found m).length) := by
  obtain ⟨d, rfl⟩ := Nat.exists_eq_add_of_lt hn
  have hbefore := h.map_walkRows_of_goes hlimit fun k (hk : k < m + 1) j hj => hgoes j (by omega)
  rw [← PageWalk.shown_of_short hgoes hshort, ← hbefore]
  congr 1
  rw [walkRows, walkRows, show m + d + 1 = m + 1 + d by omega, List.range_add,
    List.flatMap_append]
  have htail : ((List.range d).map (m + 1 + ·)).flatMap (fun k =>
      match walkAt endpoint k with
      | some (.ok page) => page.rows
      | _ => []) = [] := by
    rw [List.flatMap_eq_nil_iff]
    intro k hk
    obtain ⟨j, -, rfl⟩ := List.mem_map.mp hk
    rw [h.walkAt_eq_none hlimit hgoes hshort (by omega)]
  rw [htail, List.append_nil]

/-- The walk shows every key exactly if no fetch falls short. -/
theorem Walks.walksThrough_iff (h : Walks endpoint key keys limit found cursor)
    (hlimit : 1 ≤ limit) (view : β → γ) :
    WalksThrough endpoint (fun row => view (key row)) (keys.map view) ↔
      PageWalk.Reaches keys limit found := by
  rw [← PageWalk.complete_iff_reaches hlimit]
  constructor
  · rintro ⟨n, hnone, -, hall⟩
    -- the first short fetch
    have hshort : ∃ m, (PageWalk.fetched keys limit found m).length ≤ limit := by
      by_contra hlong
      push Not at hlong
      obtain ⟨_, hat, -⟩ := h.walkAt_of_goes hlimit fun k _ => hlong k
      rw [hnone] at hat
      cases hat
    classical
    have hgoes : PageWalk.Goes keys limit found (Nat.find hshort) := fun k hk =>
      not_le.mp (Nat.find_min hshort hk)
    have hlast : Nat.find hshort < n := by
      by_contra hle
      obtain ⟨_, hat, -⟩ := h.walkAt_of_goes hlimit fun k (hk : k < n) =>
        hgoes k (hk.trans_le (not_lt.mp hle))
      rw [hnone] at hat
      cases hat
    refine ⟨Nat.find hshort, hgoes, Nat.find_spec hshort, ?_⟩
    rw [PageWalk.shown_of_short hgoes (Nat.find_spec hshort)]
    have hview : (fun row => view (key row)) = view ∘ key := rfl
    rw [hview, ← List.map_map,
      h.map_walkRows_of_short hlimit hgoes (Nat.find_spec hshort) hlast] at hall
    have hlength := congrArg List.length hall
    rw [List.length_map, List.length_map, List.length_take] at hlength
    exact List.take_of_length_le (by omega)
  · rintro ⟨n, hgoes, hshort, hall⟩
    refine ⟨n + 1, h.walkAt_eq_none hlimit hgoes hshort (Nat.lt_succ_self n), ?_, ?_⟩
    · intro k hk
      obtain ⟨_, hat, page, rfl, -⟩ := h.walkAt_of_goes hlimit fun j (hj : j < k) =>
        hgoes j (by omega)
      exact ⟨page, hat⟩
    · calc (walkRows endpoint (n + 1)).map (fun row => view (key row))
          = ((walkRows endpoint (n + 1)).map key).map view := (List.map_map ..).symm
        _ = keys.map view := by
            rw [h.map_walkRows_of_goes hlimit fun k hk j hj => hgoes j (by omega), hall]

end

/-! ## Lists over unmerged tables -/

section

open Collapse

variable {P : Type} {α τ κ ρ γ : Type*} [DecidableEq κ] [LinearOrder ρ] {codec : CursorCodec}
  {format : PayloadFormat P} {limit window : ℕ} {fetch : ℕ → Option P → Direction → List α}
  {payload : α → P} {table : List τ} {key : τ → κ} {rank : τ → ρ} {payloadOf : τ → P}

/-- A list whose fetches collapse a window of a table's rows walks through the distinct
ones. -/
theorem walks_pagedList (hlimit : 1 ≤ limit) (hcopied : Copied key rank table)
    (hcodec : ∀ row ∈ table, codec.ReadsBackPayload format (payloadOf row))
    (hformat : ∀ row ∈ table, format.fromJson (format.toJson (payloadOf row)) =
      some (payloadOf row))
    (hfirst : (fetch (limit + 1) none .next).map payload =
      ((collapse key rank window table).take (limit + 1)).map payloadOf)
    (hnext : ∀ row ∈ table, (fetch (limit + 1) (some (payloadOf row)) .next).map payload =
      ((collapse key rank window (table.filter fun other => rank row < rank other)).take
        (limit + 1)).map payloadOf) :
    Walks (pagedList codec format limit fetch payload) payload
      ((distinct key rank table).map payloadOf) limit (found key rank window limit table)
      fun payload => codec.encodePayload format payload .next := by
  constructor
  · refine isFetch_finalizePage ?_ fun _ => rfl
    have hzero := collapse_restAfter window limit hcopied 0
    rw [Nat.zero_mul, restAfter_zero] at hzero
    rw [hfirst, hzero, PageWalk.fetched_map]
  · intro k last hlast
    rw [Option.mem_def, List.getElem?_map] at hlast
    obtain ⟨row, hrow, rfl⟩ := Option.map_eq_some_iff.mp hlast
    have hmem : row ∈ table := (mem_distinct hcopied).mp (List.mem_of_getElem? hrow)
    have hrest := filter_after hcopied hrow
    rw [show (k + 1) * limit - 1 + 1 = (k + 1) * limit by rw [Nat.succ_mul]; omega] at hrest
    rw [pagedList, decodePayloadCursor,
      codec.decodePayload_encodePayload (hcodec row hmem) (hformat row hmem)]
    refine isFetch_finalizePage ?_ fun _ => rfl
    rw [hnext row hmem, hrest, collapse_restAfter window limit hcopied, PageWalk.fetched_map]

/-- Such a walk is complete exactly if the copies leave room everywhere. -/
theorem walksThrough_pagedList_iff [DecidableEq τ] (hlimit : 1 ≤ limit)
    (hcopied : Copied key rank table)
    (h : Walks (pagedList codec format limit fetch payload) payload
      ((distinct key rank table).map payloadOf) limit (found key rank window limit table)
      fun payload => codec.encodePayload format payload .next) (view : P → γ) :
    WalksThrough (pagedList codec format limit fetch payload) (fun row => view (payload row))
        ((distinct key rank table).map fun row => view (payloadOf row)) ↔
      Room key rank window limit table := by
  have hwalks := h.walksThrough_iff hlimit view
  rw [List.map_map, PageWalk.reaches_map] at hwalks
  rw [← reaches_iff_room hcopied]
  exact hwalks

end

end SorobanExplorer
