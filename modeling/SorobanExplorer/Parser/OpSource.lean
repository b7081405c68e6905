import SorobanExplorer.Parser.Envelope
import SorobanExplorer.Parser.Sac

/-!
# Who deploys a contract

A transaction names the contracts it may create, and for each the account that
answers for it: the source of a `CreateContract` operation, or the signer of an
authorization whose tree creates the contract.
-/

namespace SorobanExplorer

variable [Crates]

def pushPreimageDeployer (preimage : ContractIdPreimage) (deployer : String)
    (networkId : Hash) : List (String × String) :=
  [(deriveSacContractId preimage networkId, deployer)]

/-- The account that signed an authorization; nothing if a contract did. -/
def credentialsSigner (credentials : SorobanCredentials) (effectiveOpSource : String) :
    Option String :=
  match credentials with
  | .sourceAccount => some effectiveOpSource
  | .address signed | .addressV2 signed | .addressWithDelegates signed _ =>
      match signed.address with
      | .account id => some (Crates.accountStrkey id)
      -- the sub-account id is no key
      | .muxedAccount _ ed25519 => some (Crates.accountStrkey ed25519)
      | .contract _ | .claimableBalance _ | .liquidityPool _ | .muxedContract _ _ => none

/-- The contract an authorized call creates. -/
def authorizedCreate (function : SorobanAuthorizedFunction) (signer : String) (networkId : Hash) :
    List (String × String) :=
  match function with
  | .createContractHostFn args => pushPreimageDeployer args.contractIdPreimage signer networkId
  | .createContractV2HostFn args => pushPreimageDeployer args.contractIdPreimage signer networkId
  | .contractFn _ => []

mutual

/-- Every creation in an authorization tree, a node before its children. -/
def walkAuthForCreates (signer : String) (networkId : Hash) :
    SorobanAuthorizedInvocation → List (String × String)
  | .mk function subInvocations =>
      authorizedCreate function signer networkId ++
        walkSubInvocations signer networkId subInvocations

def walkSubInvocations (signer : String) (networkId : Hash) :
    List SorobanAuthorizedInvocation → List (String × String)
  | [] => []
  | child :: rest =>
      walkAuthForCreates signer networkId child ++ walkSubInvocations signer networkId rest

end

/-- The contract a top-level operation creates. -/
def topLevelCreate (hostFunction : HostFunction) (effectiveSource : String) (networkId : Hash) :
    List (String × String) :=
  match hostFunction with
  | .createContract args => pushPreimageDeployer args.contractIdPreimage effectiveSource networkId
  | .createContractV2 args =>
      pushPreimageDeployer args.contractIdPreimage effectiveSource networkId
  | _ => []

/-- The contracts one operation may create. -/
def opSourcePerContract (txSource : String) (networkId : Hash) (op : Operation) :
    List (String × String) :=
  let effectiveSource := (op.sourceAccount.map muxedToGStrkey).getD txSource
  match op.body with
  | .other _ => []
  | .invokeHostFunction hostFunction auth =>
      topLevelCreate hostFunction effectiveSource networkId ++
        auth.flatMap fun entry =>
          match credentialsSigner entry.credentials effectiveSource with
          | none => []
          | some signer => walkAuthForCreates signer networkId entry.rootInvocation

/-- The contracts a transaction may create, with their deployers. -/
def extractOpSourcePerContract (envelope : InnerTxRef) (txSource : String) (networkId : Hash) :
    List (String × String) :=
  envelope.operations.flatMap (opSourcePerContract txSource networkId)

end SorobanExplorer
