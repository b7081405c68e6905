import SorobanExplorer.Indexer.NativeBalance

/-!
# Account rows

One row for every account a ledger names.  Its sequence number and home domain come from
the account's states, transaction by transaction; a state without one of them, as one
seen on a trustline alone, keeps what is there.  A state does not tell an account without
a home domain from one it did not look at, so a home domain once set in a ledger stays
(`stagesAccount_iff`).
-/

namespace SorobanExplorer

open KeyedFold Text

structure AccountRow where
  id : Int64
  accountId : String
  firstSeenLedger : ℤ
  lastSeenLedger : ℤ
  sequenceNumber : ℤ
  homeDomain : Option String
  deriving DecidableEq

/-- The states of an account, merged. -/
structure AccountOverride where
  sequenceNumber : ℤ
  sequenceSet : Bool
  firstSeenLedger : Option ℤ
  homeDomain : Option String
  lastSeenLedger : Option ℤ

namespace AccountOverride

def fromFirst (state : ExtractedAccountState) : AccountOverride where
  sequenceNumber := state.sequenceNumber
  sequenceSet := 0 ≤ state.sequenceNumber
  firstSeenLedger := state.firstSeenLedger.map fun ledger => (ledger.toNat : ℤ)
  homeDomain := state.homeDomain
  lastSeenLedger := some state.lastSeenLedger.toNat

/-- The smaller of two ledgers, of those there are. -/
def earliest : Option ℤ → Option ℤ → Option ℤ
  | some a, some b => some (min a b)
  | some a, none => some a
  | none, b => b

def add (state : ExtractedAccountState) : Option AccountOverride → AccountOverride
  | none => fromFirst state
  | some existing =>
      let last : ℤ := state.lastSeenLedger.toNat
      { sequenceNumber :=
          if 0 ≤ state.sequenceNumber then state.sequenceNumber else existing.sequenceNumber
        sequenceSet := 0 ≤ state.sequenceNumber || existing.sequenceSet
        firstSeenLedger := earliest existing.firstSeenLedger
          (state.firstSeenLedger.map fun ledger => (ledger.toNat : ℤ))
        homeDomain := state.homeDomain.or existing.homeDomain
        lastSeenLedger := some ((existing.lastSeenLedger.map (max · last)).getD last) }

/-- The sequence number handed on: 0 if none was seen. -/
def publicSequenceNumber (o : AccountOverride) : ℤ :=
  if o.sequenceSet then o.sequenceNumber else 0

end AccountOverride

def mergeAccountStateOverrides (states : List ExtractedAccountState) :
    Table String AccountOverride :=
  runAll (states.map fun st => ⟨st.accountId, AccountOverride.add st⟩) ∅

/-- The issuer a record names, unless empty. -/
def recordIssuer (record : Json) : Option String :=
  ((record.get? "issuer").bind Json.asStr).filter (· ≠ "")

/-- The accounts of the states, with the issuers of what they hold. -/
def stateAccounts (st : ExtractedAccountState) : List String :=
  st.accountId :: (((st.balances.asArray.getD []) ++ st.removedTrustlines).filterMap recordIssuer)

/-- Every account named, once: by its states, or by anything else in the ledger. -/
def accountKeys (named : List String) (states : List ExtractedAccountState) : List String :=
  (named ++ states.flatMap stateAccounts).dedup.filter isStrkeyAccount

variable [Crates]

def accountRow (ledgerSequence : ℤ) (overrides : Table String AccountOverride) (key : String) :
    AccountRow :=
  let ov := overrides.lookup key
  let lastSeenLedger := (ov.bind (·.lastSeenLedger)).getD ledgerSequence
  { id := Ids.accountId key
    accountId := key
    firstSeenLedger := (ov.bind (·.firstSeenLedger)).getD lastSeenLedger
    lastSeenLedger
    sequenceNumber :=
      ((ov.map (·.publicSequenceNumber)).filter (0 ≤ ·)).getD 0
    homeDomain := ov.bind (·.homeDomain) }

/-- The rows; in which order, the hash set decides. -/
def accountRows (order : DrainOrder String) (ledgerSequence : ℤ) (named : List String)
    (states : List ExtractedAccountState) : List AccountRow :=
  (order.drain (accountKeys named states)).map
    (accountRow ledgerSequence (mergeAccountStateOverrides states))

end SorobanExplorer
