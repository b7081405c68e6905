import Mathlib.Data.List.ReduceOption
import SorobanExplorer.Persist.PoolMovementsSpec
import SorobanExplorer.Persist.SacStaging
import SorobanExplorer.Persist.SorobanPoolsSpec
import SorobanExplorer.Persist.ValueFlowSpec

/-!
# One asset for a token contract

In the rows of one ledger a token is keyed where a pool event names it or counts on a pair's
leg, where a withdrawal is read from what the pool paid out, where a pool is registered with
it, and where a holder's balance of it is stored.  The first reads the map handed in, the
last two its copy with the asset contracts of the ledger, and a payout has the asset its
transfer states.  `oneAsset_iff` says when the rows agree.
-/

namespace SorobanExplorer

open KeepLast KeyedFold Persist StableSort

/-! ## The tokens of an event -/

/-- The tokens a Phoenix event names, leg by leg; a withdrawal names none. -/
def phoenixTokens (name : String) (f : Table String Json) : List String :=
  let token (k : String) : Option String := (f.lookup k).bind strValue
  if name = "swap" then [token "sell_token", token "buy_token"].reduceOption
  else if name = "provide_liquidity" then [token "token_a", token "token_b"].reduceOption
  else []

local instance lawfulBEq_optionString : LawfulBEq (Option String) := inferInstance

/-- The tokens an event names that carries its amounts whole. -/
def wholeTokens (topics : List Json) (data : Json) : List String :=
  let (name, second) := topicNames topics
  if name ∈ [some "swap", some "provide_liquidity", some "withdraw_liquidity"] ∧ second = none ∧
      topics.length = 1 ∧ typeOf data = some "map" then
    phoenixTokens (name.getD "") (mapFields data)
  else if name = some "trade" then ((topics.drop 1).take 2).filterMap strValue
  else if name = some "deposit_liquidity" ∨ name = some "withdraw_liquidity" then
    topics.tail.filterMap strValue
  else []

def Step.tokens : Step → List String
  | .passed _ => []
  | .group name _ members => phoenixTokens name (groupFields members)
  | .whole ev data => wholeTokens ev.1.topics data

section

variable [Crates]

/-- Where the legs of an event come from: from the tokens it names, from the pool's own
legs, or from what the pool paid out of an amount. -/
inductive LegSource (tokens : List String) (pool : SorobanPool) (op : Int16 × UInt16)
    (sac : Table Int64 Int64) (legs : Legs) : Prop
  | named (h : legs.map Prod.fst = tokens.map (contractTokenAssetId · sac))
  | placed (hnone : tokens = []) (h : legs.map Prod.fst = pool.legs)
  | paid (hnone : tokens = []) (hlegs : pool.legs.length ≠ 2)
      (h : ∀ leg ∈ legs, ∃ amount : I128, leg.2 = .neg amount ∧
        (leg.1, amount.val) ∈ (pool.payouts.lookup op).getD [])

omit [Crates] in
theorem map_fst_pairLegs {pool : SorobanPool} {a b : Reading} {legs : Legs}
    (h : pairLegs pool a b = some legs) : legs.map Prod.fst = pool.legs := by
  unfold pairLegs at h
  split at h
  · rename_i legA legB hlegs
    cases h
    exact hlegs.symm
  · cases h

omit [Crates] in
theorem mem_of_legOf {paid : List (Int64 × ℤ)} {x : I128} {asset : Int64}
    (h : legOf paid x = some asset) : (asset, x.val) ∈ paid := by
  unfold legOf at h
  split at h
  · rename_i found amount hfilter
    cases h
    have hmem : (asset, amount) ∈ paid.filter fun payout => payout.2 = x.val := by
      rw [hfilter]
      exact List.mem_singleton_self _
    obtain ⟨hpaid, hamount⟩ := List.mem_filter.mp hmem
    rwa [← of_decide_eq_true hamount]
  · cases h

omit [Crates] in
/-- What a withdrawal without legs reads from the payouts. -/
theorem paid_of_legOf {paid : List (Int64 × ℤ)} {a b : I128} {legs : Legs}
    (h : (if a = b then none
      else (legOf paid a).bind fun assetA => (legOf paid b).bind fun assetB =>
        some [(assetA, .neg a), (assetB, .neg b)]) = some legs) :
    ∀ leg ∈ legs, ∃ amount : I128, leg.2 = .neg amount ∧ (leg.1, amount.val) ∈ paid := by
  split_ifs at h
  simp only [Option.bind_eq_some_iff, Option.some.injEq] at h
  obtain ⟨assetA, hassetA, assetB, hassetB, rfl⟩ := h
  intro leg hleg
  simp only [List.mem_cons, List.not_mem_nil, or_false] at hleg
  rcases hleg with rfl | rfl
  · exact ⟨a, rfl, mem_of_legOf hassetA⟩
  · exact ⟨b, rfl, mem_of_legOf hassetB⟩

theorem phoenixLegs_source {name : String} {f : Table String Json} {pool : SorobanPool}
    {op : Int16 × UInt16} {sac : Table Int64 Int64} {kind : PoolEvent} {legs : Legs}
    (h : phoenixLegs name f pool op sac = some (kind, some legs)) :
    LegSource (phoenixTokens name f) pool op sac legs := by
  unfold phoenixLegs at h
  unfold phoenixTokens
  by_cases hswap : name = "swap"
  · simp only [if_pos hswap, Option.some.injEq, Prod.mk.injEq, Option.bind_eq_bind,
      Option.bind_eq_some_iff, Option.pure_def] at h
    obtain ⟨-, _, ⟨_, hlookup, _, hsold, rfl⟩, _, -, _, ⟨_, hlookup', _, hbought, rfl⟩, _, -,
      rfl⟩ := h
    refine .named ?_
    simp [if_pos hswap, hlookup, hsold, hlookup', hbought, List.reduceOption]
  · rw [if_neg hswap] at h
    rw [if_neg hswap]
    by_cases hprovide : name = "provide_liquidity"
    · simp only [if_pos hprovide, Option.some.injEq, Prod.mk.injEq, Option.bind_eq_bind,
        Option.bind_eq_some_iff, Option.pure_def] at h
      obtain ⟨-, _, ⟨_, hlookup, _, htokenA, rfl⟩, _, -, _, ⟨_, hlookup', _, htokenB, rfl⟩, _, -,
        rfl⟩ := h
      refine .named ?_
      simp [if_pos hprovide, hlookup, htokenA, hlookup', htokenB, List.reduceOption]
    · rw [if_neg hprovide] at h
      rw [if_neg hprovide]
      by_cases hwithdraw : name = "withdraw_liquidity"
      · simp only [if_pos hwithdraw, Option.some.injEq, Prod.mk.injEq, Option.bind_eq_bind,
          Option.bind_eq_some_iff, Option.pure_def] at h
        obtain ⟨-, a, -, b, -, hlegs⟩ := h
        -- with both legs known the assets are the pool's, else those paid out
        by_cases htwo : pool.legs.length = 2
        · rw [if_pos htwo] at hlegs
          exact .placed rfl (map_fst_pairLegs hlegs)
        · rw [if_neg htwo] at hlegs
          obtain ⟨paid, hpaid, hlegs⟩ := Option.bind_eq_some_iff.mp hlegs
          refine .paid rfl htwo ?_
          rw [hpaid, Option.getD_some]
          exact paid_of_legOf hlegs
      · rw [if_neg hwithdraw] at h
        cases h

theorem aquariusTrade_named {topics : List Json} {data : Json} {sac : Table Int64 Int64}
    {legs : Legs} (h : aquariusTrade topics data sac = some legs) :
    legs.map Prod.fst =
      (((topics.drop 1).take 2).filterMap strValue).map (contractTokenAssetId · sac) := by
  simp only [aquariusTrade, Option.bind_eq_bind, Option.bind_eq_some_iff, Option.pure_def,
    Option.some.injEq] at h
  obtain ⟨amounts, -, first, hfirst, tokenIn, hin, second, hsecond, tokenOut, hout, _, -, _, -,
    _, -, _, -, rfl⟩ := h
  obtain ⟨label, rest, rfl⟩ : ∃ label rest, topics = label :: first :: second :: rest := by
    rcases topics with _ | ⟨label, _ | ⟨_, _ | ⟨_, rest⟩⟩⟩
    · cases hfirst
    · cases hfirst
    · cases hsecond
    · cases hfirst
      cases hsecond
      exact ⟨label, rest, rfl⟩
  simp [hin, hout]

/-- One leg a token, in the order of the topics. -/
theorem aquariusLiquidity_named {topics : List Json} {data : Json} {sign : LegSign}
    {sac : Table Int64 Int64} {legs : Legs}
    (h : aquariusLiquidity topics data sign sac = some legs) :
    legs.map Prod.fst = (topics.tail.filterMap strValue).map (contractTokenAssetId · sac) := by
  -- each token of the topics has the amount at its place
  have hzip : ∀ (tokens amounts : List Json) (legs : Legs), tokens.length = amounts.length →
      List.Forall₂ (fun (pair : Json × Json) leg => ∃ token, strValue pair.1 = some token ∧
        leg.1 = contractTokenAssetId token sac) (tokens.zip amounts) legs →
      legs.map Prod.fst = (tokens.filterMap strValue).map (contractTokenAssetId · sac) := by
    intro tokens
    induction tokens with
    | nil =>
        intro amounts legs _ hlegs
        cases hlegs
        rfl
    | cons token tokens ih =>
        intro amounts legs hlength hlegs
        cases amounts with
        | nil => cases hlength
        | cons amount amounts =>
            cases hlegs with
            | cons hleg hrest =>
                obtain ⟨text, htext, hkey⟩ := hleg
                rw [List.map_cons, hkey, List.filterMap_cons_some htext, List.map_cons,
                  ih amounts _ (Nat.succ.inj hlength) hrest]
  simp only [aquariusLiquidity, Option.bind_eq_bind] at h
  obtain ⟨amounts, -, hread⟩ := Option.bind_eq_some_iff.mp h
  split_ifs at hread with hlength
  refine hzip topics.tail amounts.tail legs (by simp at hlength ⊢; omega) ?_
  refine (Traverse.mapM_eq_some_iff.mp hread).imp fun pair leg hleg => ?_
  simp only [Option.pure_def, Option.bind_eq_some_iff, Option.some.injEq] at hleg
  obtain ⟨token, htoken, _, -, rfl⟩ := hleg
  exact ⟨token, htoken, rfl⟩

omit [Crates] in
theorem soroswapSwap_placed {data : Json} {pool : SorobanPool} {legs : Legs}
    (h : soroswapSwap data pool = some legs) : legs.map Prod.fst = pool.legs := by
  simp only [soroswapSwap, Option.bind_eq_bind, Option.bind_eq_some_iff] at h
  obtain ⟨_, -, _, -, hlegs⟩ := h
  exact map_fst_pairLegs hlegs

omit [Crates] in
theorem soroswapLiquidity_placed {data : Json} {pool : SorobanPool} {sign : LegSign}
    {legs : Legs} (h : soroswapLiquidity data pool sign = some legs) :
    legs.map Prod.fst = pool.legs := by
  simp only [soroswapLiquidity, Option.bind_eq_bind, Option.bind_eq_some_iff] at h
  obtain ⟨_, -, _, -, _, -, _, -, hlegs⟩ := h
  exact map_fst_pairLegs hlegs

theorem decodeWhole_source {topics : List Json} {data : Json} {pool : SorobanPool}
    {op : Int16 × UInt16} {sac : Table Int64 Int64} {kind : PoolEvent} {legs : Legs}
    (h : decodeWhole topics data pool op sac = some (kind, some legs)) :
    LegSource (wholeTokens topics data) pool op sac legs := by
  unfold decodeWhole at h
  unfold wholeTokens
  generalize topicNames topics = names at h ⊢
  obtain ⟨name, second⟩ := names
  simp only at h ⊢
  by_cases hphoenix : name ∈ [some "swap", some "provide_liquidity", some "withdraw_liquidity"] ∧
      second = none ∧ topics.length = 1 ∧ typeOf data = some "map"
  · rw [if_pos hphoenix] at h ⊢
    exact phoenixLegs_source h
  · rw [if_neg hphoenix] at h ⊢
    by_cases htrade : name = some "trade"
    · rw [if_pos htrade] at h ⊢
      exact .named (aquariusTrade_named (Prod.mk.inj (Option.some.inj h)).2)
    · rw [if_neg htrade] at h ⊢
      by_cases hdeposit : name = some "deposit_liquidity"
      · rw [if_pos hdeposit] at h
        rw [if_pos (.inl hdeposit)]
        exact .named (aquariusLiquidity_named (Prod.mk.inj (Option.some.inj h)).2)
      · rw [if_neg hdeposit] at h
        by_cases hwithdraw : name = some "withdraw_liquidity"
        · rw [if_pos hwithdraw] at h
          rw [if_pos (.inr hwithdraw)]
          exact .named (aquariusLiquidity_named (Prod.mk.inj (Option.some.inj h)).2)
        · rw [if_neg hwithdraw] at h
          rw [if_neg (not_or.mpr ⟨hdeposit, hwithdraw⟩)]
          -- Soroswap names no token: its legs are the pair's
          refine .placed rfl ?_
          split_ifs at h
          split at h
          · exact soroswapSwap_placed (Prod.mk.inj (Option.some.inj h)).2
          · exact soroswapLiquidity_placed (Prod.mk.inj (Option.some.inj h)).2
          · exact soroswapLiquidity_placed (Prod.mk.inj (Option.some.inj h)).2
          · cases h

/-- What is written of an event has one of the three sources. -/
theorem Step.source_of_written {step : Step} {sac : Table Int64 Int64} {kind : PoolEvent}
    {legs : Legs} (h : step.written sac = some (kind, legs)) :
    LegSource step.tokens step.first.2 step.first.1.opOf sac legs := by
  simp only [written, Option.bind_eq_bind, Option.bind_eq_some_iff, Prod.exists] at h
  obtain ⟨kind', decoded, hdecoded, legs', rfl, hlegs⟩ := h
  split_ifs at hlegs
  cases hlegs
  cases step with
  | passed ev => cases hdecoded
  | group name opener members => exact phoenixLegs_source hdecoded
  | whole ev data => exact decodeWhole_source hdecoded

/-! ## The legs of a pool -/

/-- The tokens of the pairs written in a ledger, by the last write of a pair. -/
def PoolLedger.pairTokens (ledger : PoolLedger) : Table Hash (List String) :=
  collect (ledger.factoryPairs.filterMap fun write =>
    (Ids.contractPayload write.state.pair).map fun poolId =>
      (poolId, [write.state.token0, write.state.token1]))

theorem lookup_pairLegs (ledger : PoolLedger) (sacClassic : Table Int64 Int64) (poolId : Hash) :
    (ledger.pairLegs sacClassic).lookup poolId =
      (ledger.pairTokens.lookup poolId).map (·.map (contractTokenAssetId · sacClassic)) := by
  rw [PoolLedger.pairLegs, PoolLedger.pairTokens, lookup_collect, lookup_collect,
    ← lastOf_map_snd, List.map_filterMap]
  congr 1
  refine List.filterMap_congr fun write _ => ?_
  cases Ids.contractPayload write.state.pair <;> rfl

theorem length_of_pairTokens {ledger : PoolLedger} {poolId : Hash} {tokens : List String}
    (h : ledger.pairTokens.lookup poolId = some tokens) : tokens.length = 2 := by
  rw [PoolLedger.pairTokens, lookup_collect] at h
  obtain ⟨write, -, hwrite⟩ := List.mem_filterMap.mp (mem_of_lastOf h)
  obtain ⟨_, -, heq⟩ := Option.map_eq_some_iff.mp hwrite
  cases heq
  rfl

/-- A transfer row is what a contract paid out in an operation. -/
structure AssetTransferRow.Pays (t : AssetTransferRow) (contract : Int64) (op : Int16 × UInt16)
    (paid : Int64 × ℤ) : Prop where
  sender : t.senderId = some contract
  kind : t.senderKind = "C"
  place : (t.applicationOrder, t.opIndex.toUInt16) = op
  asset : t.assetId = paid.1
  amount : t.amount = some paid.2

/-- Where a pool's legs come from: the pair's own instance, or else a registration; and
what it paid out comes from transfers. -/
structure PoolSource (pairLegs : Table Hash (List Int64)) (poolRows : List LiquidityPoolRow)
    (transferRows : List AssetTransferRow) (contract : Int64) (pool : SorobanPool) : Prop where
  legs : pool.legs = (pairLegs.lookup pool.poolId).getD [] ∨
    (pairLegs.lookup pool.poolId).getD [] = [] ∧
      ∃ row ∈ poolRows, row.poolKind = .soroban ∧ row.legs = pool.legs
  payouts : ∀ op, ∀ paid ∈ (pool.payouts.lookup op).getD [],
    ∃ t ∈ transferRows, t.Pays contract op paid

section

variable {pairLegs : Table Hash (List Int64)} {poolRows : List LiquidityPoolRow}
  {transferRows : List AssetTransferRow}

/-- Every pool of a table has its sources. -/
def PoolsSourced (pairLegs : Table Hash (List Int64)) (poolRows : List LiquidityPoolRow)
    (transferRows : List AssetTransferRow) (pools : Table Int64 SorobanPool) : Prop :=
  ∀ contract pool, pools.lookup contract = some pool →
    PoolSource pairLegs poolRows transferRows contract pool

omit [Crates] in
/-- A change of the pools in place keeps the sources if it keeps those of each pool. -/
theorem PoolsSourced.modifyWhere {pools : Table Int64 SorobanPool}
    (h : PoolsSourced pairLegs poolRows transferRows pools) (p : Int64 → Bool)
    {change : SorobanPool → SorobanPool}
    (hchange : ∀ contract pool, p contract = true →
      PoolSource pairLegs poolRows transferRows contract pool →
      PoolSource pairLegs poolRows transferRows contract (change pool)) :
    PoolsSourced pairLegs poolRows transferRows (modifyWhere p change pools) := by
  intro contract pool hpool
  rw [lookup_modifyWhere] at hpool
  split_ifs at hpool with hp
  · obtain ⟨held, hheld, rfl⟩ := Option.map_eq_some_iff.mp hpool
    exact hchange contract held hp (h contract held hheld)
  · exact h contract pool hpool

theorem statePools_sourced (rows : List PoolStateChangeRow) :
    PoolsSourced pairLegs poolRows transferRows (statePools rows pairLegs) := by
  intro contract pool hpool
  rw [statePools, lookup_runAll] at hpool
  refine history_induction ?_ _ (by simp) pool hpool
  intro update hupdate _ held hheld
  obtain ⟨row, -, rfl⟩ := List.mem_map.mp hupdate
  cases held with
  | none => exact ⟨.inl rfl, by simp [sorobanPoolEntry]⟩
  | some held => exact hheld held rfl

theorem addRegisteredLegs_sourced {pools : Table Int64 SorobanPool}
    (h : PoolsSourced pairLegs poolRows transferRows pools) {row : LiquidityPoolRow}
    (hrow : row ∈ poolRows) (hkind : row.poolKind = .soroban) :
    PoolsSourced pairLegs poolRows transferRows (addRegisteredLegs pools row) := by
  refine h.modifyWhere _ fun _ pool _ hpool => ?_
  split_ifs with hempty
  · refine ⟨.inr ⟨?_, row, hrow, hkind, rfl⟩, hpool.payouts⟩
    rcases hpool.legs with hlegs | ⟨hnone, -⟩
    · exact hlegs.symm.trans hempty
    · exact hnone
  · exact hpool

omit [Crates] in
theorem addPayout_sourced {pools : Table Int64 SorobanPool}
    (h : PoolsSourced pairLegs poolRows transferRows pools) {t : AssetTransferRow}
    (ht : t ∈ transferRows) :
    PoolsSourced pairLegs poolRows transferRows (addPayout pools t) := by
  unfold addPayout
  split
  · split_ifs with hkind
    · rename_i sender amount hsender hamount
      refine h.modifyWhere _ fun contract pool hcontract hpool =>
        ⟨hpool.legs, fun op paid hpaid => ?_⟩
      by_cases hop : op = (t.applicationOrder, t.opIndex.toUInt16)
      · subst hop
        rw [SorobanPool.pay, AList.lookup_insert, Option.getD_some] at hpaid
        rcases List.mem_append.mp hpaid with hpaid | hpaid
        · exact hpool.payouts _ _ hpaid
        · rw [List.mem_singleton.mp hpaid, of_decide_eq_true hcontract]
          exact ⟨t, ht, hsender, hkind, rfl, rfl, hamount⟩
      · rw [SorobanPool.pay, AList.lookup_insert_ne hop] at hpaid
        exact hpool.payouts _ _ hpaid
    · exact h
  · exact h

theorem poolsOf_sourced (stateRows : List PoolStateChangeRow) :
    PoolsSourced pairLegs poolRows transferRows
      (poolsOf stateRows poolRows transferRows pairLegs) := by
  have hregistered : PoolsSourced pairLegs poolRows transferRows
      ((poolRows.filter (·.poolKind = .soroban)).foldl addRegisteredLegs
        (statePools stateRows pairLegs)) := by
    refine List.foldlRecOn _ _ (statePools_sourced stateRows) fun pools h row hrow => ?_
    obtain ⟨hmem, hkind⟩ := List.mem_filter.mp hrow
    exact addRegisteredLegs_sourced h hmem (of_decide_eq_true hkind)
  exact List.foldlRecOn _ _ hregistered fun pools h t ht => addPayout_sourced h ht

end

/-! ## The tokens of a registration -/

/-- A row registers a pool with the tokens its announcement or its configuration names. -/
inductive PoolLedger.Registers (ledger : PoolLedger) : LiquidityPoolRow → List String → Prop
  | router {reg : PoolRegistration} {row : LiquidityPoolRow}
      (hreg : reg ∈ detectPoolRegistrations ledger.events) (hadmits : ledger.admitsRouter reg)
      (hrow : (poolRegistryRow reg.event reg.router ledger.ledgerSequence.toNat
        ledger.sacMap).toOption = some row) :
      Registers ledger row reg.event.tokens
  | pair {reg : PairRegistration} {row : LiquidityPoolRow}
      (hreg : reg ∈ detectPairRegistrations ledger.events) (hadmits : ledger.admitsPair reg)
      (hrow : (factoryPairRegistryRow reg ledger.ledgerSequence.toNat
        ledger.sacMap).toOption = some row) :
      Registers ledger row [reg.event.token0, reg.event.token1]
  | config {reg : ConfigPoolRegistration} {config : PoolConfig} {row : LiquidityPoolRow}
      (hreg : reg ∈ ledger.configRegs) (halone : ledger.uncontested reg)
      (hconfig : ledger.createdConfig reg.pool = some config)
      (hrow : (configPoolRegistryRow reg config ledger.ledgerSequence.toNat
        ledger.sacMap).toOption = some row) :
      Registers ledger row [config.tokenA, config.tokenB]

theorem PoolLedger.Registers.legs {ledger : PoolLedger} {row : LiquidityPoolRow}
    {tokens : List String} (h : ledger.Registers row tokens) :
    row.legs = tokens.map (contractTokenAssetId · ledger.sacMap) := by
  cases h with
  | router hreg hadmits hrow =>
      obtain ⟨poolId, fee, -, -, rfl⟩ := poolRegistryRow_eq_some.mp hrow
      rfl
  | pair hreg hadmits hrow =>
      obtain ⟨poolId, -, rfl⟩ := factoryPairRegistryRow_eq_some.mp hrow
      rfl
  | config hreg halone hconfig hrow =>
      obtain ⟨poolId, fee, -, -, rfl⟩ := configPoolRegistryRow_eq_some.mp hrow
      rfl

/-- The registry rows are the rows that register pools. -/
theorem PoolLedger.exists_registers_iff {ledger : PoolLedger} {row : LiquidityPoolRow} :
    (∃ tokens, ledger.Registers row tokens) ↔ row ∈ ledger.registryRows := by
  rw [registryRows, List.mem_append, List.mem_append, mem_routerRows, mem_pairRows,
    mem_configRows]
  constructor
  · rintro ⟨tokens, h⟩
    cases h with
    | router hreg hadmits hrow =>
        exact .inl (.inl ⟨_, hreg, hadmits, poolRegistryRow_eq_some.mp hrow⟩)
    | pair hreg hadmits hrow =>
        exact .inl (.inr ⟨_, hreg, hadmits, factoryPairRegistryRow_eq_some.mp hrow⟩)
    | config hreg halone hconfig hrow =>
        exact .inr ⟨_, hreg, halone, _, hconfig, configPoolRegistryRow_eq_some.mp hrow⟩
  · rintro ((⟨reg, hreg, hadmits, hrow⟩ | ⟨reg, hreg, hadmits, hrow⟩) |
      ⟨reg, hreg, halone, config, hconfig, hrow⟩)
    · exact ⟨_, .router hreg hadmits (poolRegistryRow_eq_some.mpr hrow)⟩
    · exact ⟨_, .pair hreg hadmits (factoryPairRegistryRow_eq_some.mpr hrow)⟩
    · exact ⟨_, .config hreg halone hconfig (configPoolRegistryRow_eq_some.mpr hrow)⟩

/-! ## How a token is keyed -/

omit [Crates] in
theorem mem_zip_map {α β : Type} {f : α → β} {l : List α} {a : α} {b : β} :
    (a, b) ∈ l.zip (l.map f) ↔ a ∈ l ∧ f a = b := by
  have hzip : l.zip (l.map f) = l.map fun a => (a, f a) := by
    simpa using @List.zip_map' _ _ _ id f l
  rw [hzip, List.mem_map]
  constructor
  · rintro ⟨a, ha, ⟨⟩⟩
    exact ⟨ha, rfl⟩
  · rintro ⟨ha, rfl⟩
    exact ⟨a, ha, rfl⟩

namespace StageInputs

variable (inputs : StageInputs) (parts : StagedParts) (sacClassic : Table Int64 Int64)

/-- What the loop takes of the ledger's pool events. -/
def movementSteps : List Step :=
  steps (poolEvents parts.eventRows (inputs.movementPools parts sacClassic))

/-- The ledger with the copy of the map. -/
abbrev seededLedger : PoolLedger :=
  inputs.poolLedger (seededSacMap inputs.assets sacClassic)

/-- A leg of a movement row is keyed for a token the event names, or for the token at its
place in the pair. -/
inductive EventKeys : String → Int64 → Prop
  | named {step : Step} {kind : PoolEvent} {legs : Legs} {token : String} {assetId : Int64}
      (hstep : step ∈ inputs.movementSteps parts sacClassic)
      (hwritten : step.written sacClassic = some (kind, legs))
      (hleg : (token, assetId) ∈ step.tokens.zip (legs.map Prod.fst)) :
      EventKeys token assetId
  | placed {step : Step} {kind : PoolEvent} {legs : Legs} {tokens : List String}
      {token : String} {assetId : Int64}
      (hstep : step ∈ inputs.movementSteps parts sacClassic)
      (hwritten : step.written sacClassic = some (kind, legs)) (hnone : step.tokens = [])
      (hpair : (inputs.seededLedger sacClassic).pairTokens.lookup step.first.2.poolId = some tokens)
      (hleg : (token, assetId) ∈ tokens.zip (legs.map Prod.fst)) :
      EventKeys token assetId

/-- A transfer of the ledger is staged as what a contract paid out in an operation. -/
def PaidOut (transfer : ExtractedAssetTransfer) (contract : Int64) (op : Int16 × UInt16)
    (paid : Int64 × ℤ) : Prop :=
  transfer ∈ inputs.assetTransfers ∧ ∃ orders row, orderByHash inputs.transactions = .ok orders ∧
    assetTransferRow inputs.ledgerSequence.toNat orders transfer = .ok row ∧
      row.Pays contract op paid

/-- A leg of a withdrawal that names no token, of a pool without known legs, is keyed as
the transfer that pays its amount out. -/
def PayoutKeys (transfer : ExtractedAssetTransfer) (assetId : Int64) : Prop :=
  ∃ step ∈ inputs.movementSteps parts sacClassic, ∃ kind legs,
    step.written sacClassic = some (kind, legs) ∧ step.tokens = [] ∧
      step.first.2.legs.length ≠ 2 ∧ ∃ amount : I128, (assetId, .neg amount) ∈ legs ∧
        inputs.PaidOut transfer step.first.1.contractId step.first.1.opOf (assetId, amount.val)

/-- A leg of a registry row, or of a movement row that took it from there, is keyed for a
token the pool is registered with. -/
def RegistryKeys (token : String) (assetId : Int64) : Prop :=
  ∃ row tokens, (inputs.seededLedger sacClassic).Registers row tokens ∧
    (token, assetId) ∈ tokens.zip row.legs

/-- The row of a token balance is keyed for the token. -/
def BalanceKeys (token : String) (assetId : Int64) : Prop :=
  ∃ b ∈ inputs.sorobanTokenBalances, b.contractId = token ∧
    (tokenBalanceRow (seededSacMap inputs.assets sacClassic) b).assetId = assetId

/-- A registry row or a balance row has an asset id for a token contract. -/
def RowKeys (token : String) (assetId : Int64) : Prop :=
  inputs.RegistryKeys sacClassic token assetId ∨ inputs.BalanceKeys sacClassic token assetId

/-- A row of the ledger has an asset id for a token contract; what a transfer moves is the
contract's that emitted it. -/
inductive Keys : String → Int64 → Prop
  | event {token : String} {assetId : Int64} (h : inputs.EventKeys parts sacClassic token assetId) :
      Keys token assetId
  | payout {transfer : ExtractedAssetTransfer} {assetId : Int64}
      (h : inputs.PayoutKeys parts sacClassic transfer assetId) : Keys transfer.emitter assetId
  | row {token : String} {assetId : Int64} (h : inputs.RowKeys sacClassic token assetId) :
      Keys token assetId

/-- The ledger's rows have one asset id for a token contract. -/
def OneAsset : Prop :=
  ∀ token assetId assetId', inputs.Keys parts sacClassic token assetId →
    inputs.Keys parts sacClassic token assetId' → assetId = assetId'

/-- The map does not know the contract, and the ledger shows it as the contract of an asset
with another id than the contract's own. -/
def FirstSeen (token : String) : Prop :=
  sacClassic.lookup (Ids.contractId token) = none ∧
    ∃ assetId, firstOf (Ids.contractId token) (inputs.assets.filterMap sacSeed) = some assetId ∧
      assetId ≠ Ids.contractId token

/-- The asset id of what a transfer states to move. -/
def statedAssetId (transfer : ExtractedAssetTransfer) : Option Int64 :=
  eventAssetSurrogate transfer.asset (some (Ids.contractId transfer.emitter))

/-- A withdrawal's leg is keyed as the transfer. -/
def Pays (transfer : ExtractedAssetTransfer) : Prop :=
  ∃ assetId, inputs.PayoutKeys parts sacClassic transfer assetId

/-- What makes the keys of a token agree: it is not first seen where a pool event and a row
key it, and every payout of it that a withdrawal's leg is keyed as states the asset that the
event, the row and the other payouts of it have. -/
structure KeyedAlike (token : String) : Prop where
  notFirstSeen : (∃ assetId, inputs.EventKeys parts sacClassic token assetId) →
    (∃ assetId, inputs.RowKeys sacClassic token assetId) → ¬ inputs.FirstSeen sacClassic token
  statesEvent : ∀ transfer, inputs.Pays parts sacClassic transfer → transfer.emitter = token →
    (∃ assetId, inputs.EventKeys parts sacClassic token assetId) →
      statedAssetId transfer = some (contractTokenAssetId token sacClassic)
  statesRow : ∀ transfer, inputs.Pays parts sacClassic transfer → transfer.emitter = token →
    (∃ assetId, inputs.RowKeys sacClassic token assetId) →
      statedAssetId transfer =
        some (contractTokenAssetId token (seededSacMap inputs.assets sacClassic))
  statesAlike : ∀ transfer transfer', inputs.Pays parts sacClassic transfer →
    inputs.Pays parts sacClassic transfer' → transfer.emitter = token →
      transfer'.emitter = token → statedAssetId transfer = statedAssetId transfer'

variable {inputs : StageInputs} {parts : StagedParts} {sacClassic : Table Int64 Int64}
  {token : String} {assetId : Int64}

theorem lookup_seededSacMap (assets : List ExtractedAsset) (contract : Int64) :
    (seededSacMap assets sacClassic).lookup contract =
      (sacClassic.lookup contract).or (firstOf contract (assets.filterMap sacSeed)) := by
  rw [seededSacMap, lookup_runAll, history_first]

/-- The two maps key a token alike unless it is first seen in the ledger. -/
theorem contractTokenAssetId_seeded_iff :
    contractTokenAssetId token sacClassic =
      contractTokenAssetId token (seededSacMap inputs.assets sacClassic) ↔
        ¬ inputs.FirstSeen sacClassic token := by
  have hown : Ids.assetId 3 "" 0 (Ids.contractId token) = Ids.contractId token := rfl
  rw [contractTokenAssetId, contractTokenAssetId, lookup_seededSacMap, FirstSeen, hown]
  cases sacClassic.lookup (Ids.contractId token) with
  | some known => simp
  | none =>
      cases firstOf (Ids.contractId token) (inputs.assets.filterMap sacSeed) with
      | none => simp
      | some seed => simp [eq_comm]

/-- Pool events are keyed on the map handed in. -/
theorem EventKeys.eq (h : inputs.EventKeys parts sacClassic token assetId) :
    assetId = contractTokenAssetId token sacClassic := by
  cases h with
  | named hstep hwritten hleg =>
      cases Step.source_of_written hwritten with
      | named hlegs =>
          rw [hlegs] at hleg
          exact (mem_zip_map.mp hleg).2.symm
      | placed hnone => simp [hnone] at hleg
      | paid hnone => simp [hnone] at hleg
  | @placed step _ _ tokens _ _ hstep hwritten hnone hpair hleg =>
      have hpool := (poolsOf_sourced _ _ _ (first_of_mem_steps hstep).2).legs
      rw [lookup_pairLegs, hpair, Option.map_some, Option.getD_some] at hpool
      have htwo := length_of_pairTokens hpair
      -- A pair has its own legs, so a registration adds none.
      have hlegs : step.first.2.legs = tokens.map (contractTokenAssetId · sacClassic) := by
        rcases hpool with hpool | ⟨hempty, -⟩
        · exact hpool
        · rw [List.map_eq_nil_iff.mp hempty] at htwo
          cases htwo
      cases Step.source_of_written hwritten with
      | named hnamed =>
          rw [hnone, List.map_nil] at hnamed
          simp [hnamed] at hleg
      | placed _ hplaced =>
          rw [hplaced, hlegs] at hleg
          exact (mem_zip_map.mp hleg).2.symm
      | paid _ hlength => exact absurd (by rw [hlegs, List.length_map, htwo]) hlength

/-- Registry rows and balances are keyed on the copy. -/
theorem RegistryKeys.eq (h : inputs.RegistryKeys sacClassic token assetId) :
    assetId = contractTokenAssetId token (seededSacMap inputs.assets sacClassic) := by
  obtain ⟨row, tokens, hregisters, hleg⟩ := h
  rw [hregisters.legs] at hleg
  exact (mem_zip_map.mp hleg).2.symm

theorem BalanceKeys.eq (h : inputs.BalanceKeys sacClassic token assetId) :
    assetId = contractTokenAssetId token (seededSacMap inputs.assets sacClassic) := by
  obtain ⟨b, -, rfl, rfl⟩ := h
  rfl

theorem RowKeys.eq (h : inputs.RowKeys sacClassic token assetId) :
    assetId = contractTokenAssetId token (seededSacMap inputs.assets sacClassic) :=
  h.elim RegistryKeys.eq BalanceKeys.eq

theorem PayoutKeys.eq {transfer : ExtractedAssetTransfer}
    (h : inputs.PayoutKeys parts sacClassic transfer assetId) :
    statedAssetId transfer = some assetId := by
  obtain ⟨step, -, kind, legs, -, -, -, amount, -, -, orders, row, -, hrow, hpays⟩ := h
  obtain ⟨-, -, -, hasset, -⟩ := assetTransferRow_eq_ok hrow
  rw [statedAssetId, ← hasset, hpays.asset]

/-- The keys of the ledger agree exactly if those of every token do. -/
theorem oneAsset_iff_keyedAlike :
    inputs.OneAsset parts sacClassic ↔ ∀ token, inputs.KeyedAlike parts sacClassic token := by
  constructor
  · intro halike token
    refine ⟨?_, ?_, ?_, ?_⟩
    · intro ⟨assetId, hevent⟩ ⟨assetId', hrow⟩
      have hsame := halike token assetId assetId' (.event hevent) (.row hrow)
      rw [hevent.eq, hrow.eq] at hsame
      exact contractTokenAssetId_seeded_iff.mp hsame
    · intro transfer ⟨assetId, hpays⟩ hemitter ⟨assetId', hevent⟩
      subst hemitter
      rw [hpays.eq, halike _ assetId assetId' (.payout hpays) (.event hevent), hevent.eq]
    · intro transfer ⟨assetId, hpays⟩ hemitter ⟨assetId', hrow⟩
      subst hemitter
      rw [hpays.eq, halike _ assetId assetId' (.payout hpays) (.row hrow), hrow.eq]
    · intro transfer transfer' ⟨assetId, hpays⟩ ⟨assetId', hpays'⟩ hemitter hemitter'
      subst hemitter
      have hother : inputs.Keys parts sacClassic transfer.emitter assetId' :=
        hemitter' ▸ .payout hpays'
      rw [hpays.eq, hpays'.eq, halike _ assetId assetId' (.payout hpays) hother]
  · intro hkeyed token assetId assetId' h h'
    -- Two keys of one map agree; across the maps the token is not first seen.
    cases h with
    | event hevent =>
        cases h' with
        | event hevent' => rw [hevent.eq, hevent'.eq]
        | payout hpays' =>
            have hstates := (hkeyed _).statesEvent _ ⟨_, hpays'⟩ rfl ⟨_, hevent⟩
            rw [hpays'.eq] at hstates
            rw [hevent.eq, Option.some.inj hstates]
        | row hrow' =>
            rw [hevent.eq, hrow'.eq]
            exact contractTokenAssetId_seeded_iff.mpr
              ((hkeyed token).notFirstSeen ⟨_, hevent⟩ ⟨_, hrow'⟩)
    | @payout transfer _ hpays =>
        generalize hemitter : transfer.emitter = token at h'
        cases h' with
        | event hevent' =>
            have hstates := (hkeyed _).statesEvent _ ⟨_, hpays⟩ hemitter ⟨_, hevent'⟩
            rw [hpays.eq] at hstates
            rw [hevent'.eq, Option.some.inj hstates]
        | payout hpays' =>
            have hstates := (hkeyed _).statesAlike _ _ ⟨_, hpays⟩ ⟨_, hpays'⟩ hemitter rfl
            rw [hpays.eq, hpays'.eq] at hstates
            exact Option.some.inj hstates
        | row hrow' =>
            have hstates := (hkeyed _).statesRow _ ⟨_, hpays⟩ hemitter ⟨_, hrow'⟩
            rw [hpays.eq] at hstates
            rw [hrow'.eq, Option.some.inj hstates]
    | row hrow =>
        cases h' with
        | event hevent' =>
            rw [hrow.eq, hevent'.eq]
            exact (contractTokenAssetId_seeded_iff.mpr
              ((hkeyed token).notFirstSeen ⟨_, hevent'⟩ ⟨_, hrow⟩)).symm
        | payout hpays' =>
            have hstates := (hkeyed _).statesRow _ ⟨_, hpays'⟩ rfl ⟨_, hrow⟩
            rw [hpays'.eq] at hstates
            rw [hrow.eq, Option.some.inj hstates]
        | row hrow' => rw [hrow.eq, hrow'.eq]

/-- What keys a token is stored: in a movement row, a registry row or a balance row. -/
theorem Keys.stored (h : inputs.Keys parts sacClassic token assetId) :
    let staged := inputs.stagedTables parts sacClassic
    (∃ row ∈ staged.poolMovementRows, row.assetId = assetId) ∨
      (∃ row ∈ staged.poolRows, assetId ∈ row.legs) ∨
        ∃ row ∈ staged.unifiedBalanceRows, row.assetId = assetId := by
  have hmovement : ∀ {step : Step} {kind : PoolEvent} {legs : Legs},
      step ∈ inputs.movementSteps parts sacClassic → step.written sacClassic = some (kind, legs) →
      assetId ∈ legs.map Prod.fst →
      ∃ row ∈ (inputs.stagedTables parts sacClassic).poolMovementRows, row.assetId = assetId := by
    intro step kind legs hstep hwritten hmem
    obtain ⟨leg, hleg, rfl⟩ := List.mem_map.mp hmem
    refine ⟨movementRow step.first kind (leg.1, leg.2.amount),
      List.mem_flatMap.mpr ⟨step, hstep, ?_⟩, rfl⟩
    rw [Step.push, hwritten]
    exact List.mem_map_of_mem hleg
  cases h with
  | event hevent =>
      cases hevent with
      | named hstep hwritten hleg =>
          exact .inl (hmovement hstep hwritten (List.of_mem_zip hleg).2)
      | placed hstep hwritten _ _ hleg =>
          exact .inl (hmovement hstep hwritten (List.of_mem_zip hleg).2)
  | payout hpays =>
      obtain ⟨step, hstep, kind, legs, hwritten, -, -, amount, hleg, -⟩ := hpays
      exact .inl (hmovement hstep hwritten (List.mem_map_of_mem hleg))
  | row hrow =>
      rcases hrow with ⟨row, tokens, hregisters, hleg⟩ | ⟨b, hb, rfl, rfl⟩
      · have hrow := PoolLedger.exists_registers_iff.mp ⟨tokens, hregisters⟩
        exact .inr (.inl ⟨row, List.mem_append_right _ hrow, (List.of_mem_zip hleg).2⟩)
      · -- A later balance of the holder may have replaced the row, under the same key.
        let row := tokenBalanceRow (seededSacMap inputs.assets sacClassic) b
        have hkey : (row.holderId, row.assetId) ∈ (buildBalanceRows inputs.sorobanTokenBalances
            (seededSacMap inputs.assets sacClassic)).map fun row => (row.holderId, row.assetId) :=
          mem_map_keepLastByKey.mpr (List.mem_map_of_mem (List.mem_map_of_mem hb))
        obtain ⟨kept, hkept, hsame⟩ := List.mem_map.mp hkey
        exact .inr (.inr ⟨kept, List.mem_append_left _ hkept, (Prod.mk.inj hsame).2⟩)

theorem poolKind_classicPoolRow {pool : ExtractedLiquidityPool} {row : LiquidityPoolRow}
    (h : classicPoolRow pool = .ok (some row)) : row.poolKind = .classic := by
  obtain ⟨poolId, -, h⟩ := Traverse.bind_eq_ok_iff.mp h
  split at h
  · cases h
    rfl
  · cases h

theorem poolKind_buildPoolRows {pools : List ExtractedLiquidityPool}
    {rows : List LiquidityPoolRow} (h : buildPoolRows pools = .ok rows) :
    ∀ row ∈ rows, row.poolKind = .classic := by
  obtain ⟨read, hread, h⟩ := Traverse.bind_eq_ok_iff.mp h
  cases h
  have hclassic : ∀ row ∈ read.reduceOption, row.poolKind = .classic := by
    intro row hrow
    obtain ⟨pool, -, hpool⟩ := Traverse.exists_of_mem_right (Traverse.mapM_eq_ok_iff.mp hread)
      (List.reduceOption_mem_iff.mp hrow)
    exact poolKind_classicPoolRow hpool
  refine List.foldlRecOn (motive := fun (rows : List LiquidityPoolRow) =>
    ∀ row ∈ rows, row.poolKind = .classic) _ _ (by simp) fun rows hrows added hadded row hrow => ?_
  unfold addPoolRow at hrow
  split_ifs at hrow
  · obtain ⟨held, hheld, rfl⟩ := List.mem_map.mp hrow
    split_ifs
    · exact hrows held hheld
    · exact hrows held hheld
  · rcases List.mem_append.mp hrow with hrow | hrow
    · exact hrows row hrow
    · rw [List.mem_singleton.mp hrow]
      exact hclassic added hadded

/-- A payout of a pool was staged of a transfer of the ledger. -/
theorem paidOut_of_payouts (hparts : inputs.stagedParts = .ok parts) {contract : Int64}
    {pool : SorobanPool}
    (hpool : (inputs.movementPools parts sacClassic).lookup contract = some pool)
    {op : Int16 × UInt16} {paid : Int64 × ℤ} (hpaid : paid ∈ (pool.payouts.lookup op).getD []) :
    ∃ transfer, inputs.PaidOut transfer contract op paid := by
  obtain ⟨t, ht, hpays⟩ := (poolsOf_sourced _ _ _ hpool).payouts op paid hpaid
  obtain ⟨-, -, -, orders, horders, hrows⟩ := stagedParts_eq_ok hparts
  obtain ⟨transfer, htransfer, hrow⟩ := Traverse.exists_of_mem_right hrows ht
  exact ⟨transfer, htransfer, orders, t, horders, hrow, hpays⟩

/-- Every movement row is keyed for a token: one of the event, one of the pool's
registration, or one that was paid out. -/
theorem movement_keyed (hparts : inputs.stagedParts = .ok parts) {row : PoolMovementRow}
    (hrow : row ∈ (inputs.stagedTables parts sacClassic).poolMovementRows) :
    ∃ token, inputs.Keys parts sacClassic token row.assetId := by
  obtain ⟨step, hstep, hpush⟩ := List.mem_flatMap.mp hrow
  unfold Step.push at hpush
  split at hpush
  · cases hpush
  · rename_i kind legs hwritten
    obtain ⟨leg, hleg, rfl⟩ := List.mem_map.mp hpush
    have hmem : leg.1 ∈ legs.map Prod.fst := List.mem_map_of_mem hleg
    have hlookup := (first_of_mem_steps hstep).2
    show ∃ token, inputs.Keys parts sacClassic token leg.1
    cases Step.source_of_written hwritten with
    | named hnamed =>
        rw [hnamed] at hmem
        obtain ⟨token, htoken, hkey⟩ := List.mem_map.mp hmem
        refine ⟨token, .event (.named hstep hwritten ?_)⟩
        rw [hnamed]
        exact mem_zip_map.mpr ⟨htoken, hkey⟩
    | placed hnone hplaced =>
        -- the pool's legs come from its factory event, or from its registry row
        rcases (poolsOf_sourced _ _ _ hlookup).legs with
          hown | ⟨-, registered, hregistered, hkind, hlegs⟩
        · rw [lookup_pairLegs] at hown
          cases hpair : (inputs.seededLedger sacClassic).pairTokens.lookup step.first.2.poolId with
          | none =>
              rw [hpair, Option.map_none, Option.getD_none] at hown
              rw [hplaced, hown] at hmem
              cases hmem
          | some tokens =>
              rw [hpair, Option.map_some, Option.getD_some] at hown
              rw [hplaced, hown] at hmem
              obtain ⟨token, htoken, hkey⟩ := List.mem_map.mp hmem
              refine ⟨token, .event (.placed hstep hwritten hnone hpair ?_)⟩
              rw [hplaced, hown]
              exact mem_zip_map.mpr ⟨htoken, hkey⟩
        · have hregistry : registered ∈ (inputs.seededLedger sacClassic).registryRows := by
            refine (List.mem_append.mp hregistered).resolve_left fun hclassic => ?_
            rw [poolKind_buildPoolRows (stagedParts_eq_ok hparts).1 registered hclassic] at hkind
            cases hkind
          obtain ⟨tokens, hregisters⟩ := PoolLedger.exists_registers_iff.mpr hregistry
          rw [hplaced, ← hlegs, hregisters.legs] at hmem
          obtain ⟨token, htoken, hkey⟩ := List.mem_map.mp hmem
          refine ⟨token, .row (.inl ⟨registered, tokens, hregisters, ?_⟩)⟩
          rw [hregisters.legs]
          exact mem_zip_map.mpr ⟨htoken, hkey⟩
    | paid hnone hlength hpaid =>
        obtain ⟨amount, hamount, hpaid⟩ := hpaid leg hleg
        -- what was paid out was transferred, and labelled there
        obtain ⟨transfer, hpaidOut⟩ := paidOut_of_payouts hparts hlookup hpaid
        refine ⟨transfer.emitter, .payout ⟨step, hstep, kind, legs, hwritten, hnone, hlength,
          amount, ?_, hpaidOut⟩⟩
        rwa [← hamount]

/-- The leg of a registry row, and a token's balance, are keyed for a token. -/
theorem row_keyed :
    (∀ row ∈ (inputs.seededLedger sacClassic).registryRows, ∀ assetId ∈ row.legs,
      ∃ token, inputs.Keys parts sacClassic token assetId) ∧
    ∀ row ∈ buildBalanceRows inputs.sorobanTokenBalances (seededSacMap inputs.assets sacClassic),
      ∃ token, inputs.Keys parts sacClassic token row.assetId := by
  constructor
  · intro row hrow assetId hleg
    obtain ⟨tokens, hregisters⟩ := PoolLedger.exists_registers_iff.mpr hrow
    have hmem := hleg
    rw [hregisters.legs] at hmem
    obtain ⟨token, htoken, hkey⟩ := List.mem_map.mp hmem
    refine ⟨token, .row (.inl ⟨row, tokens, hregisters, ?_⟩)⟩
    rw [hregisters.legs]
    exact mem_zip_map.mpr ⟨htoken, hkey⟩
  · intro row hrow
    obtain ⟨b, hb, rfl⟩ := List.mem_map.mp (mem_of_mem_keepLastByKey hrow)
    exact ⟨b.contractId, .row (.inr ⟨b, hb, rfl, rfl⟩)⟩

/-- The rows of a ledger have one asset id for every token contract exactly if no token
that is keyed both by a pool event and by a registration or a balance is first seen in the
ledger, and what is paid out of a token states the asset its rows have.  Every key is
stored, and every row of a movement, a registration or a token's balance has one. -/
theorem oneAsset_iff (hparts : inputs.stagedParts = .ok parts)
    (sacClassic : Table Int64 Int64) :
    (inputs.OneAsset parts sacClassic ↔ ∀ token, inputs.KeyedAlike parts sacClassic token) ∧
    (∀ token assetId, inputs.Keys parts sacClassic token assetId →
      let staged := inputs.stagedTables parts sacClassic
      (∃ row ∈ staged.poolMovementRows, row.assetId = assetId) ∨
        (∃ row ∈ staged.poolRows, assetId ∈ row.legs) ∨
          ∃ row ∈ staged.unifiedBalanceRows, row.assetId = assetId) ∧
    (∀ row ∈ (inputs.stagedTables parts sacClassic).poolMovementRows,
      ∃ token, inputs.Keys parts sacClassic token row.assetId) ∧
    (∀ row ∈ (inputs.seededLedger sacClassic).registryRows, ∀ assetId ∈ row.legs,
      ∃ token, inputs.Keys parts sacClassic token assetId) ∧
    ∀ row ∈ buildBalanceRows inputs.sorobanTokenBalances (seededSacMap inputs.assets sacClassic),
      ∃ token, inputs.Keys parts sacClassic token row.assetId :=
  ⟨oneAsset_iff_keyedAlike, fun _ _ h => h.stored, fun _ hrow => movement_keyed hparts hrow,
    row_keyed⟩

end StageInputs

end

/-! ## A withdrawal keyed as what was paid out -/

def openedPair : String := "CDCN6G3FWWDP7I75YXQCUNJLZ34WO2C2ZNTX55ZUXZUWYJ6XV7DMMP7M"

/-- A contract pays an amount out to an account. -/
def paidOutOf (emitter : String) (asset : EventAsset) (eventPosInOp : UInt32) (amount : ℤ) :
    ExtractedAssetTransfer where
  transactionHash := ""
  opIndex := 0
  eventPosInOp
  kind := .transfer
  sender := some openedPair
  recipient := some Crates.pinnedAccountStrkey
  asset
  emitter
  amount := some amount
  senderMuxedId := none
  recipientMuxedId := none

/-- A pool without known legs gives up two tokens; one is labelled as a classic asset, and
the pool's balance of it is written. -/
def paidWithdrawal : StageInputs where
  ledgerSequence := 64030567
  transactions := [⟨"", Crates.pinnedAccountStrkey, none, none, none, false⟩]
  events := [("", [emittedEvent openedPair [typedJson "string" (.str "withdraw_liquidity")]
    (typedJson "map" (.arr [
      entryJson (symJson "return_amount_a") (typedJson "i128" (.str "300")),
      entryJson (symJson "return_amount_b") (typedJson "i128" (.str "500"))]))])]
  changes := [[
    createdEntry openedPair (typedJson "u32" (.num 1)) (typedJson "i128" (.str "700")),
    createdEntry openedPair (typedJson "u32" (.num 2)) (typedJson "i128" (.str "900"))]]
  accountStates := []
  liquidityPools := []
  assets := []
  sorobanTokenBalances := [⟨pinnedPool, openedPair, 700, 64030567, false⟩]
  assetTransfers := [
    paidOutOf pinnedPool (.credit "USDC" Crates.pinnedAccountStrkey) 0 300,
    paidOutOf pinnedFactory .bespoke 1 500]

/-- The withdrawal and the payouts as they are staged. -/
def withdrawalParts [Crates] : StagedParts where
  classicPoolRows := []
  eventRows := [{
    contractId := 0
    ledgerSequence := 64030567
    operationIndex := 0
    eventIndex := 0
    applicationOrder := 1
    topicsXdr := some (.arr [typedJson "string" (.str "withdraw_liquidity")])
    dataXdr := some (typedJson "map" (.arr [
      entryJson (symJson "return_amount_a") (typedJson "i128" (.str "300")),
      entryJson (symJson "return_amount_b") (typedJson "i128" (.str "500"))])) }]
  accountBalances := []
  transferRows := [(0, -5142557507226545233, 300), (1, -8283827203770785938, 500)].map
    fun (eventPosInOp, assetId, amount) =>
      { ledgerSequence := 64030567
        applicationOrder := 1
        opIndex := 0
        eventPosInOp
        assetId
        amount := some amount
        senderId := some 0
        senderKind := "C"
        senderMuxedId := none
        recipientId := some (Ids.addressId Crates.pinnedAccountStrkey)
        recipientKind := "G"
        recipientMuxedId := none
        verb := "transfer" }

theorem stagedParts_paidWithdrawal :
    let _ : Crates := Crates.pinned
    paidWithdrawal.stagedParts = .ok withdrawalParts := by
  intro _
  have h : paidWithdrawal.stagedParts.toOption.map (fun parts => (parts.classicPoolRows,
      parts.eventRows, parts.accountBalances, parts.transferRows)) =
        some ([], withdrawalParts.eventRows, [], withdrawalParts.transferRows) := by
    decide +kernel
  cases hparts : paidWithdrawal.stagedParts with
  | error e =>
      rw [hparts] at h
      cases h
  | ok parts =>
      rw [hparts] at h
      obtain ⟨classicPoolRows, eventRows, accountBalances, transferRows⟩ := parts
      simp only [Except.toOption, Option.map_some, Option.some.injEq, Prod.mk.injEq] at h
      obtain ⟨rfl, rfl, rfl, rfl⟩ := h
      rfl

/-- The payout of the labelled token is what the withdrawal's first leg is keyed as. -/
theorem pays_paidWithdrawal :
    let _ : Crates := Crates.pinned
    paidWithdrawal.Pays withdrawalParts ∅
      (paidOutOf pinnedPool (.credit "USDC" Crates.pinnedAccountStrkey) 0 300) := by
  intro _
  -- the pool has no legs, and paid two assets
  have hlookup : ((paidWithdrawal.movementPools withdrawalParts ∅).lookup 0).map (fun pool =>
      (pool.poolId, pool.legs, pool.payouts.lookup (1, 0))) = some (Crates.pinnedEvil, [],
        some [(-5142557507226545233, 300), (-8283827203770785938, 500)]) := by
    decide +kernel
  obtain ⟨⟨poolId, legs, payouts⟩, hpool, heq⟩ := Option.map_eq_some_iff.mp hlookup
  simp only [Prod.mk.injEq] at heq
  obtain ⟨rfl, rfl, hpaid⟩ := heq
  let withdrawn : SorobanEventRow := withdrawalParts.eventRows.head (by decide)
  have hstep : .whole (withdrawn, ⟨Crates.pinnedEvil, [], payouts⟩)
      (withdrawn.dataXdr.getD .null) ∈ paidWithdrawal.movementSteps withdrawalParts ∅ := by
    show _ ∈ steps (poolEvents [withdrawn] _)
    rw [poolEvents_singleton withdrawn _ hpool, steps, steps]
    exact List.mem_singleton_self _
  let legs : Legs := [(-5142557507226545233, .neg ⟨300, by decide⟩),
    (-8283827203770785938, .neg ⟨500, by decide⟩)]
  have hwritten : Step.written ∅ (.whole (withdrawn, ⟨Crates.pinnedEvil, [], payouts⟩)
      (withdrawn.dataXdr.getD .null)) = some (.withdrawal, legs) := by
    have hdecoded : decodeWhole withdrawn.topics (withdrawn.dataXdr.getD .null)
        ⟨Crates.pinnedEvil, [], payouts⟩ withdrawn.opOf ∅ = some (.withdrawal, some legs) := by
      show some (PoolEvent.withdrawal, Option.bind (payouts.lookup (1, 0)) _) = _
      rw [hpaid]
      rfl
    rw [Step.written, Step.decoded, hdecoded]
    rfl
  obtain ⟨-, -, -, orders, horders, hrows⟩ :=
    StageInputs.stagedParts_eq_ok stagedParts_paidWithdrawal
  cases hrows with
  | cons hrow _ =>
      exact ⟨-5142557507226545233, _, hstep, .withdrawal, legs, hwritten, rfl,
        show (0 : ℕ) ≠ 2 by decide, ⟨300, by decide⟩, List.mem_cons_self, List.mem_cons_self,
        orders, _, horders, hrow, rfl, rfl, rfl, rfl, rfl⟩

/-- The map that knows the token as the asset its payout is labelled with gives it one id,
a map without it gives it two. -/
theorem oneAsset_iff_paidWithdrawal :
    let _ : Crates := Crates.pinned
    let known : Table Int64 Int64 := (∅ : Table Int64 Int64).insert (Ids.contractId pinnedPool)
      (Ids.creditAssetId "USDC" Crates.pinnedAccountStrkey)
    paidWithdrawal.OneAsset withdrawalParts known ∧
      ¬ paidWithdrawal.OneAsset withdrawalParts ∅ := by
  intro _ known
  have hparts := stagedParts_paidWithdrawal
  constructor
  · -- the label of every payout is its token's id
    have hstates : ∀ transfer ∈ paidWithdrawal.assetTransfers, StageInputs.statedAssetId transfer =
        some (contractTokenAssetId transfer.emitter known) := by
      decide +kernel
    have hmem : ∀ {transfer}, paidWithdrawal.Pays withdrawalParts known transfer →
        transfer ∈ paidWithdrawal.assetTransfers := by
      intro transfer hpays
      obtain ⟨_, _, _, _, _, _, _, _, _, _, hpaid, _⟩ := hpays
      exact hpaid
    refine (StageInputs.oneAsset_iff hparts known).1.mpr fun token => ⟨?_, ?_, ?_, ?_⟩
    · intro _ _ ⟨_, assetId, hseed, _⟩
      cases hseed
    · intro transfer hpays hemitter _
      rw [← hemitter]
      exact hstates transfer (hmem hpays)
    · intro transfer hpays hemitter _
      rw [← hemitter]
      exact hstates transfer (hmem hpays)
    · intro transfer transfer' hpays hpays' hemitter hemitter'
      rw [hstates _ (hmem hpays), hstates _ (hmem hpays'), hemitter, hemitter']
  · intro halike
    -- the balance row of the token, keyed without the map
    have hbalance : paidWithdrawal.RowKeys ∅ pinnedPool 0 :=
      .inr ⟨_, List.mem_cons_self, rfl, by decide +kernel⟩
    have hstates := ((StageInputs.oneAsset_iff hparts ∅).1.mp halike pinnedPool).statesRow _
      pays_paidWithdrawal rfl ⟨0, hbalance⟩
    exact absurd hstates (by decide +kernel)

/-! ## A pair opened with a new asset contract -/

/-- The contract of an asset is deployed, a pair of it is created, and the first liquidity
is deposited, all in one ledger. -/
def pairOpening : StageInputs where
  ledgerSequence := 64030567
  transactions := [⟨"", Crates.pinnedAccountStrkey, none, none, none, false⟩]
  events := [("", [emittedEvent openedPair
    [typedJson "string" (.str "SoroswapPair"), symJson "deposit"]
    (typedJson "map" (.arr [
      entryJson (symJson "amount_0") (typedJson "i128" (.str "1000")),
      entryJson (symJson "amount_1") (typedJson "i128" (.str "2000"))]))])]
  changes := [[createdInstance openedPair (.arr [
    entryJson (typedJson "u32" (.num 0)) (addressJson pinnedPool),
    entryJson (typedJson "u32" (.num 1)) (addressJson pinnedFactory),
    entryJson (typedJson "u32" (.num 2)) (typedJson "i128" (.str "1000")),
    entryJson (typedJson "u32" (.num 3)) (typedJson "i128" (.str "2000")),
    entryJson (typedJson "u32" (.num 4))
      (addressJson "CA4HEQTL2WPEUYKYKCDOHCDNIV4QHNJ7EL4J4NQ6VADP7SYHVRYZ7AW2")])]]
  accountStates := []
  liquidityPools := []
  assets := [{
    assetType := .classicCredit
    assetCode := some "USDC"
    issuerAddress := some Crates.pinnedAccountStrkey
    contractId := none
    sacContractId := some pinnedPool
    sacDeployed := true }]
  sorobanTokenBalances := [⟨pinnedPool, openedPair, 1000, 64030567, false⟩]
  assetTransfers := []

/-- The deposit as it is staged. -/
def openingDeposit : SorobanEventRow where
  contractId := 0
  ledgerSequence := 64030567
  operationIndex := 0
  eventIndex := 0
  applicationOrder := 1
  topicsXdr := some (.arr [typedJson "string" (.str "SoroswapPair"), symJson "deposit"])
  dataXdr := some (typedJson "map" (.arr [
    entryJson (symJson "amount_0") (typedJson "i128" (.str "1000")),
    entryJson (symJson "amount_1") (typedJson "i128" (.str "2000"))]))

/-- The deposit is keyed on the contract, the pair's balance on the asset it wraps. -/
theorem not_oneAsset_pairOpening :
    ¬ ∀ (_ : Crates) (inputs : StageInputs) (parts : StagedParts) (sacClassic : Table Int64 Int64),
      inputs.stagedParts = .ok parts → inputs.OneAsset parts sacClassic := by
  intro hclaim
  let _ : Crates := Crates.pinned
  let parts : StagedParts := ⟨[], [openingDeposit], [], []⟩
  have hparts : pairOpening.stagedParts = .ok parts := rfl
  have hlookup : ((pairOpening.movementPools parts ∅).lookup 0).map (fun pool =>
      (pool.poolId, pool.legs)) = some (Crates.pinnedEvil, [0, -8283827203770785938]) := by
    decide +kernel
  obtain ⟨⟨poolId, legs, payouts⟩, hpool, heq⟩ := Option.map_eq_some_iff.mp hlookup
  obtain ⟨rfl, rfl⟩ : poolId = Crates.pinnedEvil ∧ legs = [0, -8283827203770785938] :=
    Prod.mk.inj heq
  have hstep : .whole (openingDeposit, ⟨Crates.pinnedEvil, [0, -8283827203770785938], payouts⟩)
      (openingDeposit.dataXdr.getD .null) ∈ pairOpening.movementSteps parts ∅ := by
    rw [StageInputs.movementSteps, poolEvents_singleton openingDeposit _ hpool, steps, steps]
    exact List.mem_singleton_self _
  let deposited : Legs := [(0, .mul .enters ⟨1000, by decide⟩),
    (-8283827203770785938, .mul .enters ⟨2000, by decide⟩)]
  -- the leg of the deposit
  have hevent : pairOpening.EventKeys parts ∅ pinnedPool 0 := by
    refine @StageInputs.EventKeys.placed _ _ _ _ _ .deposit deposited [pinnedPool, pinnedFactory]
      _ _ hstep ?_ ?_ ?_ List.mem_cons_self
    · rfl
    · rfl
    · show (pairOpening.seededLedger ∅).pairTokens.lookup Crates.pinnedEvil = _
      decide +kernel
  -- the pair's own balance
  have hbalance : pairOpening.BalanceKeys ∅ pinnedPool (-5142557507226545233) :=
    ⟨_, List.mem_cons_self, rfl, by decide +kernel⟩
  have hsame := hclaim Crates.pinned pairOpening parts ∅ hparts pinnedPool _ _ (.event hevent)
    (.row (.inr hbalance))
  exact absurd hsame (by decide)

end SorobanExplorer
