import SorobanExplorer.Lib.DepthFirst
import SorobanExplorer.Parser.Envelope
import SorobanExplorer.Parser.Event

/-!
# Invocations

A Soroban transaction's calls are read from two places.  The authorization entries of its
operations hold trees of authorized calls, rendered as JSON and flattened into rows with
a stack in place of a recursion.  The diagnostic events hold the trace of the calls
made, and where there is one its rows are taken instead.
-/

namespace SorobanExplorer

open DepthFirst

structure ExtractedInvocation where
  transactionHash : String
  /-- None for a creation. -/
  contractId : Option String
  caller : Option String
  functionName : Option String
  functionArgs : Json
  returnValue : Json
  successful : Bool
  invocationIndex : ℕ
  depth : ℕ
  ledgerSequence : UInt32
  createdAt : ℤ
  deriving DecidableEq

/-! ## Authorization trees -/

namespace SorobanAuthorizedInvocation

def function : SorobanAuthorizedInvocation → SorobanAuthorizedFunction
  | .mk function _ => function

def subInvocations : SorobanAuthorizedInvocation → List SorobanAuthorizedInvocation
  | .mk _ subInvocations => subInvocations

mutual

/-- The nodes of a tree. -/
def nodeCount : SorobanAuthorizedInvocation → ℕ
  | .mk _ subInvocations => nodeCounts subInvocations + 1

def nodeCounts : List SorobanAuthorizedInvocation → ℕ
  | [] => 0
  | node :: rest => node.nodeCount + nodeCounts rest

end

theorem sum_nodeCount (nodes : List SorobanAuthorizedInvocation) :
    (nodes.map nodeCount).sum = nodeCounts nodes := by
  induction nodes with
  | nil => rfl
  | cons node rest ih => rw [List.map_cons, List.sum_cons, ih, nodeCounts]

theorem sum_subInvocations_lt (node : SorobanAuthorizedInvocation) :
    (node.subInvocations.map nodeCount).sum < node.nodeCount := by
  obtain ⟨function, subInvocations⟩ := node
  rw [SorobanAuthorizedInvocation.subInvocations, sum_nodeCount, nodeCount]
  exact Nat.lt_succ_self _

end SorobanAuthorizedInvocation

/-- What is shown of an authorized function. -/
@[ext] structure DecodedFunction where
  contractId : Option String
  functionName : Option String
  functionArgs : Json
  deriving DecidableEq

section

variable [Crates]

def formatContractExecutable : ContractExecutable → Json :=
  contractExecutableJson

def decodeAuthorizedFunction : SorobanAuthorizedFunction → DecodedFunction
  | .contractFn args =>
      ⟨some (Crates.scAddressStrkey args.contractAddress), some (utf8OrInvalid args.functionName),
        .arr (args.args.map scvalToTypedJson)⟩
  | .createContractHostFn args =>
      ⟨none, some "createContract", .obj [("type", .str "createContract"),
        ("executable", formatContractExecutable args.executable)]⟩
  | .createContractV2HostFn args =>
      ⟨none, some "createContractV2", .obj [("type", .str "createContractV2"),
        ("executable", formatContractExecutable args.executable),
        ("constructorArgs", .arr (args.constructorArgs.map scvalToTypedJson))]⟩

def SorobanAuthorizedInvocation.decoded (node : SorobanAuthorizedInvocation) : DecodedFunction :=
  decodeAuthorizedFunction node.function

/-! ### Rows -/

structure FlattenCtx where
  transactionHash : String
  ledgerSequence : UInt32
  createdAt : ℤ
  successful : Bool

structure Frame where
  node : SorobanAuthorizedInvocation
  depth : ℕ
  caller : Option String
  returnValue : Json

def Frame.children (frame : Frame) : List Frame :=
  frame.node.subInvocations.map fun child => ⟨child, frame.depth + 1, frame.node.decoded.contractId, .null⟩

def Frame.shape : Shape Frame where
  children := Frame.children
  weight frame := frame.node.nodeCount
  lighter frame := by
    rw [Frame.children, List.map_map]
    exact frame.node.sum_subInvocations_lt

def FlattenCtx.row (ctx : FlattenCtx) (frame : Frame) (index : ℕ) : ExtractedInvocation where
  transactionHash := ctx.transactionHash
  contractId := frame.node.decoded.contractId
  caller := frame.caller
  functionName := frame.node.decoded.functionName
  functionArgs := frame.node.decoded.functionArgs
  returnValue := frame.returnValue
  successful := ctx.successful
  invocationIndex := index
  depth := frame.depth
  ledgerSequence := ctx.ledgerSequence
  createdAt := ctx.createdAt

/-- The rows of frames, numbered from `index`. -/
def FlattenCtx.rows (ctx : FlattenCtx) (index : ℕ) (frames : List Frame) :
    List ExtractedInvocation :=
  (frames.zipIdx index).map fun numbered => ctx.row numbered.1 numbered.2

/-- The rows of a tree, met by popping frames off a stack. -/
def flattenInvocation (ctx : FlattenCtx) (index : ℕ) (root : SorobanAuthorizedInvocation)
    (rootCaller : Option String) (rootReturnValue : Json) : List ExtractedInvocation :=
  ctx.rows index (Frame.shape.walk [⟨root, 0, rootCaller, rootReturnValue⟩])

/-- The authorization trees of a transaction, each with the source its operation has. -/
def authTrees (ops : List Operation) (txSourceAccount : String) :
    List (SorobanAuthorizedInvocation × String) :=
  ops.flatMap fun op =>
    match op.body with
    | .invokeHostFunction _ auth => auth.map fun entry =>
        (entry.rootInvocation, (op.sourceAccount.map muxedToGStrkey).getD txSourceAccount)
    | .other _ => []

/-- The rows of the trees, numbered on. -/
def flattenTrees (ctx : FlattenCtx) (rootReturnValue : Json) (index : ℕ) :
    List (SorobanAuthorizedInvocation × String) → List ExtractedInvocation
  | [] => []
  | (root, caller) :: rest =>
      let rows := flattenInvocation ctx index root (some caller) rootReturnValue
      rows ++ flattenTrees ctx rootReturnValue (index + rows.length) rest

def flattenAuthTree (ctx : FlattenCtx) (ops : List Operation) (txSourceAccount : String)
    (rootReturnValue : Json) : List ExtractedInvocation :=
  flattenTrees ctx rootReturnValue 0 (authTrees ops txSourceAccount)

/-! ### Rendering -/

/-- A node to render, and what its call returned. -/
structure Visit where
  node : SorobanAuthorizedInvocation
  returnValue : Json

def Visit.shape : Shape Visit where
  children visit := visit.node.subInvocations.map fun child => ⟨child, .null⟩
  weight visit := visit.node.nodeCount
  lighter visit := by
    rw [List.map_map]
    exact visit.node.sum_subInvocations_lt

/-- `null` for `None`. -/
def optionJson (text : Option String) : Json :=
  match text with
  | some text => .str text
  | none => .null

def nodeJson (successful : Bool) (visit : Visit) (children : List Json) : Json :=
  .obj [("contractId", optionJson visit.node.decoded.contractId),
    ("functionName", optionJson visit.node.decoded.functionName),
    ("args", visit.node.decoded.functionArgs), ("returnValue", visit.returnValue),
    ("successful", .bool successful), ("children", .arr children)]

/-- The nodes are met in preorder, and rendered from the last to the first: each takes
the renderings of its children off the end of the results. -/
def invocationToJson (root : SorobanAuthorizedInvocation) (rootReturnValue : Json)
    (successful : Bool) : Json :=
  let visits := Visit.shape.walk [⟨root, rootReturnValue⟩]
  ((Visit.shape.rebuild (nodeJson successful) visits.reverse []).getLast?).getD .null

/-! ## The trace -/

/-- A call's contract: its raw hash, or its address. -/
def decodeCallTarget : ScVal → Option String
  | .bytes raw => if raw.length = 32 then
      some (Crates.scAddressStrkey (.contract (Hash.ofBytes raw))) else none
  | .address (.contract id) => some (Crates.scAddressStrkey (.contract id))
  | _ => none

inductive DiagKind
  | fnCall (contractId : String)
  | fnReturn

/-- What a diagnostic event says of the trace, by its topics. -/
def classifyDiagTopic (topics : List ScVal) : Option DiagKind := do
  let head ← topics.head?
  let .symbol name := head | none
  let name ← Text.fromUtf8 name
  if name = "fn_call" then
    let target ← topics[1]?
    return .fnCall (← decodeCallTarget target)
  if name = "fn_return" then return .fnReturn
  none

def diagnosticEvents (txMeta : TransactionMeta) : List ContractEvent :=
  (containers txMeta).diagnostic

def diagRow (ctx : FlattenCtx) (contractId caller : String) (index depth : ℕ) :
    ExtractedInvocation where
  transactionHash := ctx.transactionHash
  contractId := some contractId
  caller := some caller
  functionName := none
  functionArgs := .null
  returnValue := .null
  successful := ctx.successful
  invocationIndex := index
  depth
  ledgerSequence := ctx.ledgerSequence
  createdAt := ctx.createdAt

/-- The rows of a trace; `stack` holds the contracts being called, the innermost
first. -/
def walkDiagnostics (ctx : FlattenCtx) (txSourceAccount : String) (stack : List String)
    (index : ℕ) : List ContractEvent → List ExtractedInvocation
  | [] => []
  | diag :: rest =>
      if diag.type ≠ .diagnostic then walkDiagnostics ctx txSourceAccount stack index rest
      else
        match classifyDiagTopic diag.topics with
        | none => walkDiagnostics ctx txSourceAccount stack index rest
        | some (.fnCall contractId) =>
            diagRow ctx contractId (stack.head?.getD txSourceAccount) index stack.length ::
              walkDiagnostics ctx txSourceAccount (contractId :: stack) (index + 1) rest
        | some .fnReturn => walkDiagnostics ctx txSourceAccount stack.tail index rest

def extractInvocationsFromDiagnostics (ctx : FlattenCtx) (txMeta : TransactionMeta)
    (txSourceAccount : String) : List ExtractedInvocation :=
  walkDiagnostics ctx txSourceAccount [] 0 (diagnosticEvents txMeta)

/-! ## Both -/

structure InvocationResult where
  invocations : List ExtractedInvocation
  operationTree : Option Json

/-- What the root call of a transaction returned. -/
def sorobanReturnValue : TransactionMeta → Option ScVal
  | .v3 _ _ _ sorobanMeta => sorobanMeta.map (·.returnValue)
  | .v4 _ _ _ sorobanReturnValue _ _ => sorobanReturnValue
  | .v0 _ | .v1 _ _ | .v2 _ _ _ => none

/-- The source of the first host function call. -/
def rootCaller (ops : List Operation) (txSourceAccount : String) : String :=
  (ops.findSome? fun op =>
    match op.body with
    | .invokeHostFunction _ _ => some ((op.sourceAccount.map muxedToGStrkey).getD txSourceAccount)
    | .other _ => none).getD txSourceAccount

def extractInvocations (envelope : InnerTxRef) (txMeta : Option TransactionMeta)
    (transactionHash : String) (ledgerSequence : UInt32) (createdAt : ℤ)
    (txSourceAccount : String) (successful : Bool) : InvocationResult :=
  let ops := envelope.operations
  let ctx : FlattenCtx := ⟨transactionHash, ledgerSequence, createdAt, successful⟩
  let rootReturnValue := ((txMeta.bind sorobanReturnValue).map scvalToTypedJson).getD .null
  let trees := (authTrees ops txSourceAccount).map fun tree =>
    invocationToJson tree.1 rootReturnValue successful
  let diagInvocations := (txMeta.map fun txMeta =>
    extractInvocationsFromDiagnostics ctx txMeta (rootCaller ops txSourceAccount)).getD []
  { invocations := if diagInvocations.isEmpty then
        flattenAuthTree ctx ops txSourceAccount rootReturnValue
      else diagInvocations
    operationTree := if trees.isEmpty then none else some (.arr trees) }

end

end SorobanExplorer
