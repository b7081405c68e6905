import SorobanExplorer.Lib.Checked
import SorobanExplorer.Lib.Decimal
import SorobanExplorer.Lib.KeyedFold
import SorobanExplorer.Lib.StableSort
import SorobanExplorer.Parser.Json
import SorobanExplorer.Persist.SorobanPools

/-!
# What a contract pool's events moved

Every swap, deposit and withdrawal event of a known pool becomes one row a leg, signed
from the pool's side.  An event carries its amounts whole, or, in the older format of one
family, a field at a time: such fields are gathered into groups, each opened by its
`sender`.  Amounts are 128-bit and computed without overflow checks.
-/

namespace SorobanExplorer

open Checked KeyedFold StableSort Text

/-! ## Amounts -/

abbrev I128 := {x : ℤ // Range.i128.Has x}

def toI128 (x : ℤ) : Option I128 :=
  if h : Range.i128.Has x then some ⟨x, h⟩ else none

/-- What enters a pool, and what leaves it. -/
inductive LegSign
  | enters
  | leaves
  deriving DecidableEq

def LegSign.value : LegSign → ℤ
  | .enters => 1
  | .leaves => -1

/-- How an amount is computed from the integers of an event. -/
inductive Reading
  | int (x : I128)
  | neg (x : I128)
  | mul (sign : LegSign) (x : I128)
  | sub (x y : I128)
  deriving DecidableEq

namespace Reading

def exact : Reading → ℤ
  | int x => x
  | neg x => -x
  | mul sign x => sign.value * x
  | sub x y => x - y

/-- The amount stored: 128-bit arithmetic wraps. -/
def amount (reading : Reading) : ℤ :=
  reading.exact.bmod (2 ^ 128)

end Reading

/-! ## Rows -/

inductive PoolEvent
  | trade
  | deposit
  | withdrawal
  deriving DecidableEq

/-- A staged event; a JSON text that does not parse is none. -/
structure SorobanEventRow where
  contractId : Int64
  ledgerSequence : ℤ
  operationIndex : UInt16
  eventIndex : UInt32
  applicationOrder : Int16
  topicsXdr : Option Json
  dataXdr : Option Json
  deriving DecidableEq

structure PoolMovementRow where
  poolId : Hash
  ledgerSequence : ℤ
  applicationOrder : Int16
  operationIndex : UInt16
  eventIndex : UInt32
  eventKind : PoolEvent
  assetId : Int64
  amount : ℤ
  deriving DecidableEq

structure SorobanPool where
  poolId : Hash
  /-- Empty where nothing shows them. -/
  legs : List Int64
  /-- What the pool paid out in an operation. -/
  payouts : Table (Int16 × UInt16) (List (Int64 × ℤ))

abbrev Legs := List (Int64 × Reading)

/-- An amount event, with its legs when they could be read. -/
abbrev Decoded := PoolEvent × Option Legs

/-! ## Reading typed values -/

def typeOf (v : Json) : Option String :=
  (v.get? "type").bind Json.asStr

def strValue (v : Json) : Option String :=
  (v.get? "value").bind Json.asStr

def intValue (v : Json) : Option I128 :=
  match v.get? "value" with
  | some (.str s) => (parseI128 s.toList).toOption.bind toI128
  | some (.num n) => (parseI128 (toString n).toList).toOption.bind toI128
  | _ => none

def vecItems (data : Json) : Option (List Json) :=
  if typeOf data = some "vec" then (data.get? "value").bind Json.asArray else none

/-- The fields of a map by their names; of two with one name the last. -/
def mapFields (data : Json) : Table String Json :=
  collect ((((data.get? "value").bind Json.asArray).getD []).filterMap fun e => do
    let key ← e.get? "key"
    return (← strValue key, ← e.get? "value"))

/-- The first topic's value, and the second's when it is a symbol. -/
def topicNames (topics : List Json) : Option String × Option String :=
  (topics.head?.bind strValue,
    (topics[1]?.filter fun topic => typeOf topic = some "sym").bind strValue)

/-- The event two strings name a field of. -/
def phoenixFieldEventName (topics : List Json) : Option String :=
  match topics with
  | [name, field] =>
      if typeOf field = some "string" ∧ typeOf name = some "string" then
        (strValue name).filter (["swap", "provide_liquidity", "withdraw_liquidity"].contains ·)
      else none
  | _ => none

/-! ## Legs -/

def pairLegs (pool : SorobanPool) (a b : Reading) : Option Legs :=
  match pool.legs with
  | [legA, legB] => some [(legA, a), (legB, b)]
  | _ => none

/-- Each leg nets its input against its output. -/
def soroswapSwap (data : Json) (pool : SorobanPool) : Option Legs := do
  let f := mapFields data
  let net (input output : String) : Option Reading := do
    return .sub (← intValue (← f.lookup input)) (← intValue (← f.lookup output))
  pairLegs pool (← net "amount_0_in" "amount_0_out") (← net "amount_1_in" "amount_1_out")

def soroswapLiquidity (data : Json) (pool : SorobanPool) (sign : LegSign) : Option Legs := do
  let f := mapFields data
  pairLegs pool (.mul sign (← intValue (← f.lookup "amount_0")))
    (.mul sign (← intValue (← f.lookup "amount_1")))

/-- The asset of the one payout of an amount. -/
def legOf (paid : List (Int64 × ℤ)) (x : I128) : Option Int64 :=
  match paid.filter fun payout => payout.2 = x.val with
  | [(asset, _)] => some asset
  | _ => none

section

variable [Crates]

/-- The trader's input enters, the output leaves. -/
def aquariusTrade (topics : List Json) (data : Json) (sac : Table Int64 Int64) : Option Legs := do
  let amounts ← vecItems data
  let tokenIn := contractTokenAssetId (← strValue (← topics[1]?)) sac
  let tokenOut := contractTokenAssetId (← strValue (← topics[2]?)) sac
  let amountIn ← intValue (← amounts.head?)
  let amountOut ← intValue (← amounts[1]?)
  return [(tokenIn, .int amountIn), (tokenOut, .neg amountOut)]

/-- One amount a token, after the share figure. -/
def aquariusLiquidity (topics : List Json) (data : Json) (sign : LegSign)
    (sac : Table Int64 Int64) : Option Legs := do
  let amounts ← vecItems data
  let tokens := topics.tail
  if amounts.length ≠ tokens.length + 1 then none
  else
    (tokens.zip amounts.tail).mapM fun (token, amount) => do
      return (contractTokenAssetId (← strValue token) sac, .mul sign (← intValue amount))

/-- The fields of a Phoenix event, whichever format carried them. -/
def phoenixLegs (name : String) (f : Table String Json) (pool : SorobanPool) (op : Int16 × UInt16)
    (sac : Table Int64 Int64) : Option Decoded :=
  let token (k : String) : Option Int64 := do
    return contractTokenAssetId (← strValue (← f.lookup k)) sac
  let amount (k : String) : Option I128 := (f.lookup k).bind intValue
  let either (k alt : String) : Option I128 := (amount k).or (amount alt)
  if name = "swap" then
    some (.trade, do
      let sold := (← token "sell_token", .int (← amount "offer_amount"))
      let bought := (← token "buy_token", .neg (← amount "return_amount"))
      return [sold, bought])
  else if name = "provide_liquidity" then
    some (.deposit, do
      let a := (← token "token_a", .int (← either "token_a-amount" "actual_received_a"))
      let b := (← token "token_b", .int (← either "token_b-amount" "actual_received_b"))
      return [a, b])
  else if name = "withdraw_liquidity" then
    some (.withdrawal, do
      let a ← amount "return_amount_a"
      let b ← amount "return_amount_b"
      if pool.legs.length = 2 then pairLegs pool (.neg a) (.neg b)
      else
        -- Without legs, each amount is the asset of its one payout in the operation;
        -- equal amounts cannot be told apart.
        let paid ← pool.payouts.lookup op
        if a = b then none
        else return [(← legOf paid a, .neg a), (← legOf paid b, .neg b)])
  else none

/-- An event that carries its amounts whole.  An event without amounts, known or
unknown, is none. -/
def decodeWhole (topics : List Json) (data : Json) (pool : SorobanPool) (op : Int16 × UInt16)
    (sac : Table Int64 Int64) : Option Decoded :=
  let (name, second) := topicNames topics
  -- Before the routers: `withdraw_liquidity` is a name both families use.
  if name ∈ [some "swap", some "provide_liquidity", some "withdraw_liquidity"] ∧ second = none ∧
      topics.length = 1 ∧ typeOf data = some "map" then
    phoenixLegs (name.getD "") (mapFields data) pool op sac
  else if name = some "trade" then some (.trade, aquariusTrade topics data sac)
  else if name = some "deposit_liquidity" then
    some (.deposit, aquariusLiquidity topics data .enters sac)
  else if name = some "withdraw_liquidity" then
    some (.withdrawal, aquariusLiquidity topics data .leaves sac)
  else if name = some "SoroswapPair" then
    match second with
    | some "swap" => some (.trade, soroswapSwap data pool)
    | some "deposit" => some (.deposit, soroswapLiquidity data pool .enters)
    | some "withdraw" => some (.withdrawal, soroswapLiquidity data pool .leaves)
    | _ => none
  else none

end

/-! ## Groups -/

/-- A staged event of a known pool. -/
abbrev PoolEventRow := SorobanEventRow × SorobanPool

namespace SorobanEventRow

variable (ev : SorobanEventRow)

/-- The operation of a contract. -/
def op : List ℤ :=
  [ev.contractId.toInt, ev.ledgerSequence, ev.applicationOrder.toInt, ev.operationIndex.toNat]

/-- Where an event stands among the events of its contract. -/
def position : List ℤ :=
  ev.op ++ [(ev.eventIndex.toNat : ℤ)]

/-- The operation within its ledger, the key of a pool's payouts. -/
def opOf : Int16 × UInt16 :=
  (ev.applicationOrder, ev.operationIndex)

def topics : List Json :=
  (ev.topicsXdr.bind Json.asArray).getD []

/-- The field a per-field event is about. -/
def field : Option String :=
  ev.topics[1]?.bind strValue

end SorobanEventRow

/-- Whether the next event adds a field to the group that `ev` opened. -/
def joinsGroup (ev : SorobanEventRow) (name : String) (next : PoolEventRow) : Bool :=
  next.1.op = ev.op ∧ phoenixFieldEventName next.1.topics = some name ∧
    next.1.field ≠ some "sender"

/-- What the loop does at an event. -/
inductive Turn
  | unreadable
  /-- Reported before a withdrawal of staked shares; no amount. -/
  | unbonded
  /-- A field outside a `sender` group. -/
  | stray
  | opens (name : String)
  | whole (data : Json)
  deriving DecidableEq

def SorobanEventRow.turn (ev : SorobanEventRow) : Turn :=
  match ev.topicsXdr, ev.dataXdr with
  | some _, some data =>
      match phoenixFieldEventName ev.topics with
      | some name =>
          if ev.field = some "auto unbonded" then .unbonded
          else if ev.field ≠ some "sender" then .stray
          else .opens name
      | none => .whole data
  | _, _ => .unreadable

/-- What the loop took at once. -/
inductive Step
  | passed (ev : PoolEventRow)
  | group (name : String) (opener : PoolEventRow) (members : List PoolEventRow)
  | whole (ev : PoolEventRow) (data : Json)

/-- The loop over a pool's events: a group is taken at once. -/
def steps : List PoolEventRow → List Step
  | [] => []
  | ev :: rest =>
      match ev.1.turn with
      | .opens name =>
          .group name ev (rest.takeWhile (joinsGroup ev.1 name)) ::
            steps (rest.dropWhile (joinsGroup ev.1 name))
      | .whole data => .whole ev data :: steps rest
      | .unreadable | .unbonded | .stray => .passed ev :: steps rest
  termination_by events => events.length
  decreasing_by
    all_goals simp only [List.length_cons]
    · exact Nat.lt_succ_of_le (List.dropWhile_sublist _).length_le
    all_goals exact Nat.lt_succ_self _

/-- The fields of a group; of two with one name the last. -/
def groupFields (members : List PoolEventRow) : Table String Json :=
  collect (members.filterMap fun member => do return (← member.1.field, ← member.1.dataXdr))

section

variable [Crates]

namespace Step

/-- The event its rows are placed at. -/
def first : Step → PoolEventRow
  | passed ev => ev
  | group _ opener _ => opener
  | whole ev _ => ev

def decoded (sac : Table Int64 Int64) : Step → Option Decoded
  | passed _ => none
  | group name opener members =>
      phoenixLegs name (groupFields members) opener.2 opener.1.opOf sac
  | whole ev data => decodeWhole ev.1.topics data ev.2 ev.1.opOf sac

/-- The legs written: all of an event's, unless the pool does not hold one. -/
def written (sac : Table Int64 Int64) (step : Step) : Option (PoolEvent × Legs) := do
  let (kind, legs) ← step.decoded sac
  let legs ← legs
  if step.first.2.legs ≠ [] ∧ ∃ leg ∈ legs, leg.1 ∉ step.first.2.legs then none
  else return (kind, legs)

end Step

/-- The row of a leg. -/
def movementRow (ev : PoolEventRow) (kind : PoolEvent) (leg : Int64 × ℤ) : PoolMovementRow where
  poolId := ev.2.poolId
  ledgerSequence := ev.1.ledgerSequence
  applicationOrder := ev.1.applicationOrder
  operationIndex := ev.1.operationIndex
  eventIndex := ev.1.eventIndex
  eventKind := kind
  assetId := leg.1
  amount := leg.2

/-- One row a leg. -/
def Step.push (sac : Table Int64 Int64) (step : Step) : List PoolMovementRow :=
  match step.written sac with
  | none => []
  | some (kind, legs) => legs.map fun leg => movementRow step.first kind (leg.1, leg.2.amount)

/-- The events of known pools, in the order of the loop. -/
def poolEvents (events : List SorobanEventRow) (pools : Table Int64 SorobanPool) :
    List PoolEventRow :=
  sortByKey (fun ev => ev.1.position)
    (events.filterMap fun ev => (pools.lookup ev.contractId).map fun pool => (ev, pool))

def sorobanPoolAmountRows (events : List SorobanEventRow) (pools : Table Int64 SorobanPool)
    (sac : Table Int64 Int64) : List PoolMovementRow :=
  (steps (poolEvents events pools)).flatMap (Step.push sac)

end

end SorobanExplorer
