import SorobanExplorer.Parser.Json

/-!
# Operations

One extracted operation, as far as the modelled stages read it.
-/

namespace SorobanExplorer

inductive OperationType
  | createAccount
  | payment
  | pathPaymentStrictReceive
  | manageSellOffer
  | createPassiveSellOffer
  | setOptions
  | changeTrust
  | allowTrust
  | accountMerge
  | inflation
  | manageData
  | bumpSequence
  | manageBuyOffer
  | pathPaymentStrictSend
  | createClaimableBalance
  | claimClaimableBalance
  | beginSponsoringFutureReserves
  | endSponsoringFutureReserves
  | revokeSponsorship
  | clawback
  | clawbackClaimableBalance
  | setTrustLineFlags
  | liquidityPoolDeposit
  | liquidityPoolWithdraw
  | invokeHostFunction
  | extendFootprintTtl
  | restoreFootprint
  deriving DecidableEq

/-- Every variant in declaration order. -/
def OperationType.VARIANTS : List OperationType :=
  [.createAccount, .payment, .pathPaymentStrictReceive, .manageSellOffer,
    .createPassiveSellOffer, .setOptions, .changeTrust, .allowTrust, .accountMerge, .inflation,
    .manageData, .bumpSequence, .manageBuyOffer, .pathPaymentStrictSend, .createClaimableBalance,
    .claimClaimableBalance, .beginSponsoringFutureReserves, .endSponsoringFutureReserves,
    .revokeSponsorship, .clawback, .clawbackClaimableBalance, .setTrustLineFlags,
    .liquidityPoolDeposit, .liquidityPoolWithdraw, .invokeHostFunction, .extendFootprintTtl,
    .restoreFootprint]

def OperationType.asStr : OperationType → String
  | .createAccount => "CREATE_ACCOUNT"
  | .payment => "PAYMENT"
  | .pathPaymentStrictReceive => "PATH_PAYMENT_STRICT_RECEIVE"
  | .manageSellOffer => "MANAGE_SELL_OFFER"
  | .createPassiveSellOffer => "CREATE_PASSIVE_SELL_OFFER"
  | .setOptions => "SET_OPTIONS"
  | .changeTrust => "CHANGE_TRUST"
  | .allowTrust => "ALLOW_TRUST"
  | .accountMerge => "ACCOUNT_MERGE"
  | .inflation => "INFLATION"
  | .manageData => "MANAGE_DATA"
  | .bumpSequence => "BUMP_SEQUENCE"
  | .manageBuyOffer => "MANAGE_BUY_OFFER"
  | .pathPaymentStrictSend => "PATH_PAYMENT_STRICT_SEND"
  | .createClaimableBalance => "CREATE_CLAIMABLE_BALANCE"
  | .claimClaimableBalance => "CLAIM_CLAIMABLE_BALANCE"
  | .beginSponsoringFutureReserves => "BEGIN_SPONSORING_FUTURE_RESERVES"
  | .endSponsoringFutureReserves => "END_SPONSORING_FUTURE_RESERVES"
  | .revokeSponsorship => "REVOKE_SPONSORSHIP"
  | .clawback => "CLAWBACK"
  | .clawbackClaimableBalance => "CLAWBACK_CLAIMABLE_BALANCE"
  | .setTrustLineFlags => "SET_TRUST_LINE_FLAGS"
  | .liquidityPoolDeposit => "LIQUIDITY_POOL_DEPOSIT"
  | .liquidityPoolWithdraw => "LIQUIDITY_POOL_WITHDRAW"
  | .invokeHostFunction => "INVOKE_HOST_FUNCTION"
  | .extendFootprintTtl => "EXTEND_FOOTPRINT_TTL"
  | .restoreFootprint => "RESTORE_FOOTPRINT"

/-- The variant of a stored code. -/
def OperationType.tryFrom (v : Int16) : Option OperationType :=
  if 0 ≤ v then OperationType.VARIANTS[v.toInt.toNat]? else none

structure ExtractedOperation where
  transactionHash : String
  /-- Position in the envelope, from 0. -/
  operationIndex : UInt32
  opType : OperationType
  /-- Nothing when the operation inherits the transaction's source. -/
  sourceAccount : Option String
  sourceMuxedId : Option UInt64
  destinationMuxedId : Option UInt64
  details : Json

end SorobanExplorer
