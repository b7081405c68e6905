import SorobanExplorer.Lib.KeyedFold
import SorobanExplorer.Parser.InvocationSpec
import SorobanExplorer.Persist.Ids

/-!
# Rows of contract activity

One row for each contract a transaction touched, through an event, an invocation or an
operation that names it.  Of an invoked contract the row keeps how often it was called
and who called it first; a call without a caller leaves the row without one
(`contractActivity_faithful_iff`).
-/

namespace SorobanExplorer

open KeyedFold Text

structure ContractActivityRow where
  contractId : Int64
  ledgerSequence : ℤ
  applicationOrder : Int16
  callerId : Option Int64
  callerContractId : Option Int64
  /-- 0 for a contract that was touched and not invoked. -/
  invocationCount : ℤ
  deriving DecidableEq

/-- What an operation's row names. -/
structure TransactionOperationRow where
  applicationOrder : Int16
  contractId : Option Int64

/-- A contract, and the position of a transaction. -/
abbrev ContractPosition := Int64 × Int16

/-- The first caller of a contract in a transaction, and its calls. -/
structure Invoked where
  count : ℤ
  callerId : Option Int64
  callerContractId : Option Int64
  deriving DecidableEq

def saturatingSucc (count : ℤ) : ℤ :=
  min (count + 1) (2 ^ 31 - 1)

section

variable [Crates]

/-- The caller of a call as an account or as a contract. -/
def callerIds (caller : Option String) : Option Int64 × Option Int64 :=
  match caller with
  | some strkey =>
      if isStrkeyAccount strkey then (some (Ids.accountId strkey), none)
      else if strkey.toList.head? = some 'C' then (none, some (Ids.contractId strkey))
      else (none, none)
  | none => (none, none)

def Invoked.add (caller : Option String) : Option Invoked → Invoked
  | none => ⟨1, (callerIds caller).1, (callerIds caller).2⟩
  | some held =>
      if held.callerId = none ∧ held.callerContractId = none then
        ⟨saturatingSucc held.count, (callerIds caller).1, (callerIds caller).2⟩
      else { held with count := saturatingSucc held.count }

end

/-- What staging reads of a ledger for its contract activity. -/
structure ActivityLedger where
  ledgerSequence : ℤ
  invocations : List (String × List ExtractedInvocation)
  appOrderByHash : Table String Int16
  /-- The contract and position of every operation event. -/
  contractTxs : List ContractPosition
  txOperationRows : List TransactionOperationRow

namespace ActivityLedger

variable (ledger : ActivityLedger)

variable [Crates]

/-- The calls of contracts, each with the contract and position it counts for. -/
def calls : List (ContractPosition × Option String) :=
  ledger.invocations.flatMap fun transaction =>
    match ledger.appOrderByHash.lookup transaction.1 with
    | none => []
    | some position => transaction.2.filterMap fun inv =>
        inv.contractId.map fun contract => ((Ids.contractId contract, position), inv.caller)

def invoked : Table ContractPosition Invoked :=
  runAll (ledger.calls.map fun call => ⟨call.1, Invoked.add call.2⟩) ∅

/-- The contracts the operations name. -/
def named : List ContractPosition :=
  ledger.txOperationRows.filterMap fun op =>
    op.contractId.map fun contract => (contract, op.applicationOrder)

/-- By contract, then by position. -/
def contractTxLe (a b : ContractPosition) : Bool :=
  a.1 < b.1 || (a.1 == b.1 && a.2 ≤ b.2)

/-- Everything touched, once. -/
def touched : List ContractPosition :=
  (ledger.contractTxs ++ (pairs ledger.invoked).map Prod.fst ++ ledger.named).dedup.mergeSort
    contractTxLe

def row (key : ContractPosition) : ContractActivityRow :=
  let inv := ledger.invoked.lookup key
  { contractId := key.1
    ledgerSequence := ledger.ledgerSequence
    applicationOrder := key.2
    callerId := inv.bind (·.callerId)
    callerContractId := inv.bind (·.callerContractId)
    invocationCount := (inv.map (·.count)).getD 0 }

def contractActivity : List ContractActivityRow :=
  ledger.touched.map ledger.row

/-! ## What a row counts -/

/-- The callers of the calls of a contract in a transaction, in order. -/
def callersOf (key : ContractPosition) : List (Option String) :=
  (ledger.calls.filter (·.1 = key)).map Prod.snd

/-- Every pair touched has one row, which counts the calls and names a caller of those
it counts. -/
structure Faithful (rows : List ContractActivityRow) : Prop where
  one : (rows.map fun row => (row.contractId, row.applicationOrder)).Nodup
  covers : ∀ key, key ∈ rows.map (fun row => (row.contractId, row.applicationOrder)) ↔
    key ∈ ledger.contractTxs ∨ ledger.callersOf key ≠ [] ∨ key ∈ ledger.named
  counted : ∀ row ∈ rows,
    row.invocationCount = (ledger.callersOf (row.contractId, row.applicationOrder)).length
  called : ∀ row ∈ rows, row.invocationCount ≠ 0 → row.callerId ≠ none ∨ row.callerContractId ≠ none

end ActivityLedger

section

variable [Crates]

/-- Whether a caller is an account's or a contract's address. -/
def IsCaller (caller : Option String) : Prop :=
  callerIds caller ≠ (none, none)

/-- The calls of one contract, folded. -/
def tally (callers : List (Option String)) : Option Invoked :=
  callers.foldl (fun held caller => some (Invoked.add caller held)) none

theorem tally_concat (callers : List (Option String)) (caller : Option String) :
    tally (callers ++ [caller]) = some (Invoked.add caller (tally callers)) := by
  rw [tally, List.foldl_append]
  rfl

/-- The tally of calls counts them up to the largest number, and names a caller if any
of them does. -/
theorem tally_spec {callers : List (Option String)} (hne : callers ≠ []) :
    ∃ inv, tally callers = some inv ∧ inv.count = min (callers.length : ℤ) (2 ^ 31 - 1) ∧
      (inv.callerId ≠ none ∨ inv.callerContractId ≠ none ↔ ∃ caller ∈ callers, IsCaller caller) := by
  induction callers using List.reverseRecOn with
  | nil => exact absurd rfl hne
  | append_singleton callers caller ih =>
      have hnew : ∀ ids : Option Int64 × Option Int64,
          (ids.1 ≠ none ∨ ids.2 ≠ none) ↔ ids ≠ (none, none) := by
        rintro ⟨account, contract⟩
        cases account <;> cases contract <;> simp
      rw [tally_concat]
      rcases eq_or_ne callers [] with rfl | hne
      · refine ⟨_, rfl, by simp [tally, Invoked.add], ?_⟩
        simp only [tally, List.foldl_nil, Invoked.add, List.nil_append, List.mem_singleton,
          exists_eq_left]
        exact hnew (callerIds caller)
      · obtain ⟨held, hheld, hcount, hnamed⟩ := ih hne
        -- the count stops at the largest number
        have hsucc : saturatingSucc held.count =
            min ((callers ++ [caller]).length : ℤ) (2 ^ 31 - 1) := by
          rw [saturatingSucc, hcount, List.length_append, List.length_singleton]
          push_cast
          omega
        rw [hheld]
        by_cases hnone : held.callerId = none ∧ held.callerContractId = none
        · -- no caller named so far: the new one is
          have hearlier : ¬ ∃ caller ∈ callers, IsCaller caller := by
            rw [← hnamed, hnone.1, hnone.2]
            simp
          refine ⟨⟨saturatingSucc held.count, (callerIds caller).1, (callerIds caller).2⟩,
            by rw [Invoked.add, if_pos hnone], hsucc, (hnew (callerIds caller)).trans ?_⟩
          constructor
          · exact fun h => ⟨caller, List.mem_append_right _ List.mem_cons_self, h⟩
          · rintro ⟨other, hother, hcaller⟩
            rcases List.mem_append.mp hother with hother | hother
            · exact absurd ⟨other, hother, hcaller⟩ hearlier
            · rwa [List.mem_singleton.mp hother] at hcaller
        · -- one is named already, and stays
          have hsome : held.callerId ≠ none ∨ held.callerContractId ≠ none := by
            by_contra h
            push Not at h
            exact hnone h
          refine ⟨{ held with count := saturatingSucc held.count },
            by rw [Invoked.add, if_neg hnone], hsucc, iff_of_true hsome ?_⟩
          obtain ⟨other, hother, hcaller⟩ := hnamed.mp hsome
          exact ⟨other, List.mem_append_left _ hother, hcaller⟩

namespace ActivityLedger

variable {ledger : ActivityLedger}

theorem lookup_invoked (key : ContractPosition) :
    ledger.invoked.lookup key = tally (ledger.callersOf key) := by
  rw [invoked, lookup_runAll, history, List.filter_map, List.foldl_map, callersOf, tally,
    List.foldl_map]
  rfl

theorem mem_touched {key : ContractPosition} :
    key ∈ ledger.touched ↔
      key ∈ ledger.contractTxs ∨ ledger.callersOf key ≠ [] ∨ key ∈ ledger.named := by
  have hinvoked : key ∈ (pairs ledger.invoked).map Prod.fst ↔ ledger.callersOf key ≠ [] := by
    constructor
    · intro h
      obtain ⟨⟨_, inv⟩, hinv, rfl⟩ := List.mem_map.mp h
      have hlookup := mem_pairs.mp hinv
      rw [lookup_invoked] at hlookup
      intro hempty
      rw [hempty] at hlookup
      cases hlookup
    · intro h
      obtain ⟨inv, htally, -⟩ := tally_spec h
      rw [← lookup_invoked] at htally
      exact List.mem_map.mpr ⟨(key, inv), mem_pairs.mpr htally, rfl⟩
  rw [touched, (List.mergeSort_perm _ _).mem_iff, List.mem_dedup, List.append_assoc,
    List.mem_append, List.mem_append, hinvoked]

theorem nodup_touched : ledger.touched.Nodup :=
  (List.mergeSort_perm _ _).nodup_iff.mpr (List.nodup_dedup _)

theorem keys_contractActivity :
    ledger.contractActivity.map (fun row => (row.contractId, row.applicationOrder)) =
      ledger.touched := by
  rw [contractActivity, List.map_map]
  exact List.map_id _

/-- The rows are faithful exactly if every invoked contract is called at most `i32::MAX`
times in a transaction, and at least once by an account or a contract. -/
theorem contractActivity_faithful_iff (ledger : ActivityLedger) :
    ledger.Faithful ledger.contractActivity ↔
      ∀ key, ledger.callersOf key ≠ [] → (ledger.callersOf key).length < 2 ^ 31 ∧
        ∃ caller ∈ ledger.callersOf key, IsCaller caller := by
  constructor
  · intro h key hkey
    have hrow : ledger.row key ∈ ledger.contractActivity :=
      List.mem_map_of_mem (mem_touched.mpr (.inr (.inl hkey)))
    obtain ⟨inv, htally, hcount, hnamed⟩ := tally_spec hkey
    rw [← lookup_invoked] at htally
    have hcounted := h.counted _ hrow
    have hread : (ledger.row key).invocationCount = inv.count := by
      rw [row, htally]
      rfl
    have hlength : 0 < (ledger.callersOf key).length := List.length_pos_iff.mpr hkey
    have hkeys : ledger.callersOf ((ledger.row key).contractId, (ledger.row key).applicationOrder) =
        ledger.callersOf key := rfl
    rw [hread, hcount, hkeys] at hcounted
    -- a count above 0 asks for a caller
    have hcalled := h.called _ hrow (by rw [hread, hcount]; omega)
    rw [row, htally] at hcalled
    exact ⟨by omega, hnamed.mp hcalled⟩
  · intro h
    refine ⟨?_, ?_, ?_, ?_⟩
    · rw [keys_contractActivity]
      exact nodup_touched
    · intro key
      rw [keys_contractActivity]
      exact mem_touched
    · intro row hrow
      obtain ⟨key, -, rfl⟩ := List.mem_map.mp hrow
      show ((ledger.invoked.lookup key).map (·.count)).getD 0 = ((ledger.callersOf key).length : ℤ)
      rw [lookup_invoked]
      rcases eq_or_ne (ledger.callersOf key) [] with hempty | hne
      · rw [hempty]
        rfl
      · obtain ⟨inv, htally, hcount, -⟩ := tally_spec hne
        have hfits := (h key hne).1
        rw [htally, Option.map_some, Option.getD_some, hcount]
        omega
    · intro row hrow hcount
      obtain ⟨key, -, rfl⟩ := List.mem_map.mp hrow
      have hne : ledger.callersOf key ≠ [] := by
        intro hempty
        have hnone : ledger.invoked.lookup key = none := by
          rw [lookup_invoked, hempty]
          rfl
        exact hcount (by rw [ActivityLedger.row, hnone]; rfl)
      obtain ⟨inv, htally, -, hnamed⟩ := tally_spec hne
      rw [← lookup_invoked] at htally
      rw [ActivityLedger.row, htally]
      exact hnamed.mpr (h key hne).2

/-- A creation whose constructor calls a contract. -/
def createThenCall : TransactionV0 :=
  let create : CreateContractArgsV2 := ⟨.asset .native, .stellarAsset, []⟩
  let call : SorobanAuthorizedInvocation :=
    .mk (.contractFn ⟨.contract Crates.pinnedContract, [114], []⟩) []
  { sourceAccountEd25519 := Crates.pinnedAccount, fee := 100, seqNum := 1, timeBounds := none
    memo := .none
    operations := [⟨none, .invokeHostFunction (.createContractV2 create)
      [⟨.sourceAccount, .mk (.createContractV2HostFn create) [call]⟩]⟩] }

/-- It succeeded, and left no trace. -/
def untraced : TransactionMeta :=
  .v3 [] [] [] (some ⟨[], .void, []⟩)

/-- A ledger of that transaction alone. -/
def createThenCallLedger : ActivityLedger where
  ledgerSequence := 5
  invocations := [("00", (extractInvocations (.v0 createThenCall) (some untraced) "00" 5 0
    Crates.pinnedAccountStrkey true).invocations)]
  appOrderByHash := AList.insert "00" 1 ∅
  contractTxs := []
  txOperationRows := []

/-- The contract called, in the only transaction. -/
def calledByCreation : ContractPosition :=
  (Ids.contractId (Crates.scAddressStrkey (.contract Crates.pinnedContract)), 1)

theorem callersOf_createThenCall :
    createThenCallLedger.callersOf calledByCreation = [none] := by
  have hrows : (extractInvocations (.v0 createThenCall) (some untraced) "00" 5 0
      Crates.pinnedAccountStrkey true).invocations.filterMap (fun inv =>
        inv.contractId.map fun contract => ((Ids.contractId contract, (1 : Int16)), inv.caller)) =
      [(calledByCreation, none)] := by
    simp [extractInvocations, extractInvocationsFromDiagnostics, diagnosticEvents, containers,
      untraced, walkDiagnostics, flattenAuthTree, authTrees, InnerTxRef.operations,
      createThenCall, flattenTrees, flattenInvocation, DepthFirst.Shape.walk_eq, DepthFirst.Shape.preorder_eq,
      Frame.shape, Frame.children, SorobanAuthorizedInvocation.subInvocations, FlattenCtx.rows,
      FlattenCtx.row, SorobanAuthorizedInvocation.decoded, SorobanAuthorizedInvocation.function,
      decodeAuthorizedFunction, calledByCreation]
  rw [callersOf, calls]
  simp only [createThenCallLedger, List.flatMap_cons, List.flatMap_nil, List.append_nil,
    AList.lookup_insert]
  rw [hrows]
  simp

omit [Crates] in
/-- The called contract counts a call that nobody made. -/
theorem not_contractActivity_faithful :
    ¬ ∀ (_ : Crates) (ledger : ActivityLedger), ledger.Faithful ledger.contractActivity := by
  intro hclaim
  let _ : Crates := Crates.pinned
  have hcallers := callersOf_createThenCall
  have hrow : createThenCallLedger.row calledByCreation ∈ createThenCallLedger.contractActivity :=
    List.mem_map_of_mem (mem_touched.mpr (.inr (.inl (by rw [hcallers]; simp))))
  have hlookup : createThenCallLedger.invoked.lookup calledByCreation = some ⟨1, none, none⟩ := by
    rw [lookup_invoked, hcallers]
    rfl
  have hcalled := (hclaim Crates.pinned createThenCallLedger).called _ hrow
  rw [row, hlookup] at hcalled
  simp at hcalled

end ActivityLedger

end

end SorobanExplorer
