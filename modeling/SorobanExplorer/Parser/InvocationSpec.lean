import SorobanExplorer.Parser.Invocation

/-!
# The tree behind the rows

The recursion that the stacks stand for: `renderInvocation` renders a tree node by node,
`nearestFrames` lists its calls in preorder under the nearest invoked contract, and
`forestRows` lists the calls of a trace.

* `invocationToJson_eq`: the iterative rendering is the rendering of the mirror image,
  so a tree is rendered as it stands exactly when it is its own mirror image;
* `flattenInvocation_eq_iff`: a call below a creation is given no caller;
* `extractInvocationsFromDiagnostics_eq`: a trace of whole calls, whatever else is
  between its events, gives the calls of the forest.
-/

namespace SorobanExplorer

open DepthFirst Text

variable [Crates]

/-! ## Rendering -/

mutual

/-- The rendering of a tree, its children from first to last. -/
def renderInvocation (successful : Bool) (returnValue : Json) :
    SorobanAuthorizedInvocation → Json
  | .mk function subInvocations =>
      nodeJson successful ⟨.mk function subInvocations, returnValue⟩
        (renderInvocations successful subInvocations)

def renderInvocations (successful : Bool) : List SorobanAuthorizedInvocation → List Json
  | [] => []
  | child :: rest =>
      renderInvocation successful .null child :: renderInvocations successful rest

end

namespace SorobanAuthorizedInvocation

mutual

/-- The children of every node the other way round. -/
def mirror : SorobanAuthorizedInvocation → SorobanAuthorizedInvocation
  | .mk function subInvocations => .mk function (mirrors subInvocations).reverse

def mirrors : List SorobanAuthorizedInvocation → List SorobanAuthorizedInvocation
  | [] => []
  | child :: rest => child.mirror :: mirrors rest

end

end SorobanAuthorizedInvocation

/-- What a tree shows: at every node, what is called and with which arguments. -/
inductive Outline
  | node (decoded : DecodedFunction) (children : List Outline)

namespace SorobanAuthorizedInvocation

mutual

def outline : SorobanAuthorizedInvocation → Outline
  | .mk function subInvocations =>
      .node (decodeAuthorizedFunction function) (outlines subInvocations)

def outlines : List SorobanAuthorizedInvocation → List Outline
  | [] => []
  | child :: rest => child.outline :: outlines rest

end

end SorobanAuthorizedInvocation

open SorobanAuthorizedInvocation

theorem renderInvocations_eq (successful : Bool) (nodes : List SorobanAuthorizedInvocation) :
    renderInvocations successful nodes = nodes.map (renderInvocation successful .null) := by
  induction nodes with
  | nil => rfl
  | cons child rest ih => rw [renderInvocations, ih, List.map_cons]

omit [Crates] in
theorem mirrors_eq (nodes : List SorobanAuthorizedInvocation) :
    mirrors nodes = nodes.map mirror := by
  induction nodes with
  | nil => rfl
  | cons child rest ih => rw [mirrors, ih, List.map_cons]

/-- Results taken off the end render the mirror image. -/
theorem fold_nodeJson (successful : Bool) (visit : Visit) :
    Visit.shape.fold (fun visit below => nodeJson successful visit below.reverse) visit =
      renderInvocation successful visit.returnValue visit.node.mirror := by
  induction visit using Visit.shape.induction with
  | step visit ih =>
      obtain ⟨⟨function, subInvocations⟩, returnValue⟩ := visit
      have hbelow : (Visit.shape.children ⟨.mk function subInvocations, returnValue⟩).map
          (Visit.shape.fold fun visit below => nodeJson successful visit below.reverse) =
            (subInvocations.map mirror).map (renderInvocation successful .null) := by
        rw [List.map_congr_left ih]
        show (subInvocations.map fun child => (⟨child, .null⟩ : Visit)).map _ = _
        rw [List.map_map, List.map_map]
        rfl
      have hrendered : renderInvocations successful (mirrors subInvocations).reverse =
          ((subInvocations.map mirror).map (renderInvocation successful .null)).reverse := by
        rw [renderInvocations_eq, mirrors_eq, List.map_reverse]
      calc Visit.shape.fold _ ⟨.mk function subInvocations, returnValue⟩
          = nodeJson successful ⟨.mk function subInvocations, returnValue⟩
              ((subInvocations.map mirror).map (renderInvocation successful .null)).reverse := by
            rw [Shape.fold_eq, hbelow]
        _ = renderInvocation successful returnValue
              (SorobanAuthorizedInvocation.mk function subInvocations).mirror := by
            rw [mirror, renderInvocation, hrendered]
            rfl

theorem invocationToJson_eq (root : SorobanAuthorizedInvocation) (rootReturnValue : Json)
    (successful : Bool) : invocationToJson root rootReturnValue successful =
      renderInvocation successful rootReturnValue root.mirror := by
  rw [invocationToJson, Shape.walk_eq, List.flatMap_singleton, Shape.rebuild_preorder,
    fold_nodeJson, List.nil_append, List.getLast?_singleton, Option.getD_some]

omit [Crates] in
theorem optionJson_injective : Function.Injective optionJson := by
  intro text other h
  cases text <;> cases other <;> simp_all [optionJson]

mutual

/-- A rendering shows what a tree shows, and no more. -/
theorem renderInvocation_eq_iff (successful : Bool) (returnValue : Json) :
    (node other : SorobanAuthorizedInvocation) →
      (renderInvocation successful returnValue node = renderInvocation successful returnValue other
        ↔ node.outline = other.outline)
  | .mk function subInvocations, .mk function' subInvocations' => by
      have hbelow := renderInvocations_eq_iff successful subInvocations subInvocations'
      have hdecoded : decodeAuthorizedFunction function = decodeAuthorizedFunction function' ↔
          optionJson (decodeAuthorizedFunction function).contractId =
              optionJson (decodeAuthorizedFunction function').contractId ∧
            optionJson (decodeAuthorizedFunction function).functionName =
              optionJson (decodeAuthorizedFunction function').functionName ∧
            (decodeAuthorizedFunction function).functionArgs =
              (decodeAuthorizedFunction function').functionArgs := by
        rw [optionJson_injective.eq_iff, optionJson_injective.eq_iff, DecodedFunction.ext_iff]
      simp only [renderInvocation, nodeJson, decoded, SorobanAuthorizedInvocation.function, outline,
        Outline.node.injEq, hdecoded, ← hbelow]
      simp [and_assoc]

theorem renderInvocations_eq_iff (successful : Bool) :
    (nodes others : List SorobanAuthorizedInvocation) →
      (renderInvocations successful nodes = renderInvocations successful others ↔
        outlines nodes = outlines others)
  | [], [] => by simp [renderInvocations, outlines]
  | [], _ :: _ => by simp [renderInvocations, outlines]
  | _ :: _, [] => by simp [renderInvocations, outlines]
  | node :: nodes, other :: others => by
      simp only [renderInvocations, outlines, List.cons.injEq]
      rw [renderInvocation_eq_iff successful .null node other,
        renderInvocations_eq_iff successful nodes others]

end

/-! ## Rows of a tree -/

mutual

/-- The calls of a tree in preorder, each below the root under the nearest invoked
contract `above` it. -/
def nearestFrames (depth : ℕ) (caller above : Option String) (returnValue : Json) :
    SorobanAuthorizedInvocation → List Frame
  | .mk function subInvocations =>
      ⟨.mk function subInvocations, depth, caller, returnValue⟩ ::
        nearestBelow (depth + 1) ((decodeAuthorizedFunction function).contractId.or above)
          subInvocations

def nearestBelow (depth : ℕ) (above : Option String) :
    List SorobanAuthorizedInvocation → List Frame
  | [] => []
  | child :: rest =>
      nearestFrames depth above above .null child ++ nearestBelow depth above rest

end

mutual

/-- No creation that has calls below it stands below an invoked contract. -/
def CreatesAtTop (above : Option String) : SorobanAuthorizedInvocation → Prop
  | .mk function subInvocations =>
      ((decodeAuthorizedFunction function).contractId = none → above ≠ none →
        subInvocations = []) ∧
      CreatesAtTops ((decodeAuthorizedFunction function).contractId.or above) subInvocations

def CreatesAtTops (above : Option String) : List SorobanAuthorizedInvocation → Prop
  | [] => True
  | child :: rest => CreatesAtTop above child ∧ CreatesAtTops above rest

end

/-- The calls a walk from one frame meets. -/
def framesFrom (depth : ℕ) (caller : Option String) (returnValue : Json)
    (node : SorobanAuthorizedInvocation) : List Frame :=
  Frame.shape.preorder ⟨node, depth, caller, returnValue⟩

theorem framesFrom_mk (depth : ℕ) (caller : Option String) (returnValue : Json)
    (function : SorobanAuthorizedFunction) (subInvocations : List SorobanAuthorizedInvocation) :
    framesFrom depth caller returnValue (.mk function subInvocations) =
      ⟨.mk function subInvocations, depth, caller, returnValue⟩ ::
        subInvocations.flatMap
          (framesFrom (depth + 1) (decodeAuthorizedFunction function).contractId .null) := by
  rw [framesFrom, Shape.preorder_eq]
  show _ :: ((subInvocations.map fun child => _).flatMap _) = _
  rw [List.flatMap_map]
  rfl

/-- A frame as its row shows it. -/
def FlattenCtx.shown (ctx : FlattenCtx) (frame : Frame) : ExtractedInvocation :=
  ctx.row frame 0

theorem rows_eq_iff (ctx : FlattenCtx) (index : ℕ) (frames others : List Frame) :
    ctx.rows index frames = ctx.rows index others ↔
      frames.map ctx.shown = others.map ctx.shown := by
  induction frames generalizing others index with
  | nil => cases others <;> simp [FlattenCtx.rows]
  | cons frame frames ih =>
      cases others with
      | nil => simp [FlattenCtx.rows]
      | cons other others =>
          have ih := ih (index + 1) others
          unfold FlattenCtx.rows at ih ⊢
          rw [List.zipIdx_cons, List.zipIdx_cons, List.map_cons, List.map_cons, List.cons.injEq, ih,
            List.map_cons, List.map_cons, List.cons.injEq]
          refine and_congr_left fun _ => ?_
          simp [FlattenCtx.row, FlattenCtx.shown]

mutual

theorem length_framesFrom (depth : ℕ) (caller above : Option String) (returnValue : Json) :
    (node : SorobanAuthorizedInvocation) → (framesFrom depth caller returnValue node).length =
      (nearestFrames depth caller above returnValue node).length
  | .mk function subInvocations => by
      rw [framesFrom_mk, nearestFrames, List.length_cons, List.length_cons,
        length_framesBelow]

theorem length_framesBelow (depth : ℕ) (caller above : Option String) :
    (nodes : List SorobanAuthorizedInvocation) →
      (nodes.flatMap (framesFrom depth caller .null)).length = (nearestBelow depth above nodes).length
  | [] => rfl
  | child :: rest => by
      rw [List.flatMap_cons, nearestBelow, List.length_append, List.length_append,
        length_framesBelow depth caller above rest]
      obtain ⟨function, subInvocations⟩ := child
      rw [framesFrom_mk, nearestFrames, List.length_cons, List.length_cons,
        length_framesBelow]

end

/-- The first call below a node shows the caller it was given. -/
theorem caller_eq_of_shown_eq (ctx : FlattenCtx) {depth : ℕ} {caller above : Option String}
    {nodes : List SorobanAuthorizedInvocation} (hne : nodes ≠ [])
    (h : (nodes.flatMap (framesFrom depth caller .null)).map ctx.shown =
      (nearestBelow depth above nodes).map ctx.shown) : caller = above := by
  cases nodes with
  | nil => exact absurd rfl hne
  | cons child rest =>
      obtain ⟨function, subInvocations⟩ := child
      rw [List.flatMap_cons, framesFrom_mk, nearestBelow, nearestFrames, List.cons_append,
        List.cons_append, List.map_cons, List.map_cons] at h
      exact congrArg ExtractedInvocation.caller (List.cons.inj h).1

mutual

/-- The calls of a walk are shown under the nearest contracts exactly where no
creation hides one. -/
theorem shown_framesFrom_iff (ctx : FlattenCtx) (depth : ℕ) (caller above : Option String)
    (returnValue : Json) : (node : SorobanAuthorizedInvocation) →
      ((framesFrom depth caller returnValue node).map ctx.shown =
        (nearestFrames depth caller above returnValue node).map ctx.shown ↔ CreatesAtTop above node)
  | .mk function subInvocations => by
      rw [framesFrom_mk, nearestFrames, List.map_cons, List.map_cons, CreatesAtTop, List.cons.injEq,
        eq_self, true_and]
      cases hcontract : (decodeAuthorizedFunction function).contractId with
      | some contract =>
          rw [Option.some_or, shown_framesBelow_iff ctx (depth + 1) (some contract) subInvocations]
          simp
      | none =>
          rw [Option.none_or]
          cases above with
          | none =>
              rw [shown_framesBelow_iff ctx (depth + 1) none subInvocations]
              simp
          | some contract =>
              constructor
              · intro h
                have hempty : subInvocations = [] := by
                  by_contra hne
                  exact absurd (caller_eq_of_shown_eq ctx hne h) (by simp)
                rw [hempty]
                exact ⟨fun _ _ => rfl, trivial⟩
              · intro h
                rw [h.1 rfl (by simp)]
                rfl

theorem shown_framesBelow_iff (ctx : FlattenCtx) (depth : ℕ) (above : Option String) :
    (nodes : List SorobanAuthorizedInvocation) →
      ((nodes.flatMap (framesFrom depth above .null)).map ctx.shown =
        (nearestBelow depth above nodes).map ctx.shown ↔ CreatesAtTops above nodes)
  | [] => by simp [nearestBelow, CreatesAtTops]
  | child :: rest => by
      have hlength : ((framesFrom depth above .null child).map ctx.shown).length =
          ((nearestFrames depth above above .null child).map ctx.shown).length := by
        rw [List.length_map, List.length_map, length_framesFrom depth above above]
      rw [List.flatMap_cons, nearestBelow, List.map_append, List.map_append, CreatesAtTops,
        ← shown_framesFrom_iff ctx depth above above .null child,
        ← shown_framesBelow_iff ctx depth above rest]
      constructor
      · exact fun h => List.append_inj h hlength
      · rintro ⟨hchild, hrest⟩
        rw [hchild, hrest]

end

theorem flattenInvocation_eq_iff (ctx : FlattenCtx) (index : ℕ) (root : SorobanAuthorizedInvocation)
    (rootCaller : Option String) (rootReturnValue : Json) :
    flattenInvocation ctx index root rootCaller rootReturnValue =
        ctx.rows index (nearestFrames 0 rootCaller none rootReturnValue root) ↔
      CreatesAtTop none root := by
  rw [flattenInvocation, Shape.walk_eq, List.flatMap_singleton, rows_eq_iff]
  exact shown_framesFrom_iff ctx 0 rootCaller none rootReturnValue root

/-- A tree is rendered and flattened as it stands exactly if it is its own mirror image
and no creation with calls below it stands below an invoked contract. -/
theorem invocationTree_faithful_iff (ctx : FlattenCtx) (index : ℕ)
    (root : SorobanAuthorizedInvocation) (rootCaller : Option String) (rootReturnValue : Json) :
    (invocationToJson root rootReturnValue ctx.successful =
        renderInvocation ctx.successful rootReturnValue root ∧
      flattenInvocation ctx index root rootCaller rootReturnValue =
        ctx.rows index (nearestFrames 0 rootCaller none rootReturnValue root)) ↔
    root.mirror.outline = root.outline ∧ CreatesAtTop none root := by
  rw [invocationToJson_eq, renderInvocation_eq_iff, flattenInvocation_eq_iff]

/-- Two calls below one. -/
def twoCalls : SorobanAuthorizedInvocation :=
  let call (name : UInt8) : SorobanAuthorizedFunction :=
    .contractFn ⟨.contract Crates.pinnedContract, [name], []⟩
  .mk (call 114) [.mk (call 97) [], .mk (call 98) []]

omit [Crates] in
/-- The second call is rendered before the first. -/
theorem not_invocationTree_faithful :
    ¬ ∀ (_ : Crates) (ctx : FlattenCtx) (index : ℕ) (root : SorobanAuthorizedInvocation)
      (rootCaller : Option String) (rootReturnValue : Json),
      invocationToJson root rootReturnValue ctx.successful =
          renderInvocation ctx.successful rootReturnValue root ∧
        flattenInvocation ctx index root rootCaller rootReturnValue =
          ctx.rows index (nearestFrames 0 rootCaller none rootReturnValue root) := by
  intro hclaim
  let _ : Crates := Crates.pinned
  obtain ⟨hrender, -⟩ := hclaim Crates.pinned ⟨"", 5, 0, true⟩ 0 twoCalls none .null
  rw [invocationToJson_eq, renderInvocation_eq_iff] at hrender
  simp only [twoCalls, mirror, mirrors, List.reverse_cons, List.reverse_nil, List.nil_append,
    List.cons_append, outline, outlines, Outline.node.injEq, List.cons.injEq] at hrender
  exact absurd (congrArg DecodedFunction.functionName hrender.2.1.1) (by decide)

/-! ## Rows of a trace -/

/-- A call of a contract, and the calls it made. -/
inductive CallTree
  | call (contract : ContractId) (inner : List CallTree)

/-- A topic that names a contract: its raw hash, or its address. -/
inductive NamesContract (contract : ContractId) : ScVal → Prop
  | bytes : NamesContract contract (.bytes (Hash.bytes contract))
  | address : NamesContract contract (.address (.contract contract))

/-- The host's word for a call of a contract. -/
structure IsFnCall (contract : ContractId) (event : ContractEvent) : Prop where
  type : event.type = .diagnostic
  topics : ∃ name target rest, event.topics = .symbol name :: target :: rest ∧
    fromUtf8 name = some "fn_call" ∧ NamesContract contract target

/-- The host's word for a return. -/
structure IsFnReturn (event : ContractEvent) : Prop where
  type : event.type = .diagnostic
  topics : ∃ name rest, event.topics = .symbol name :: rest ∧
    fromUtf8 name = some "fn_return"

/-- An event that is neither a call nor a return. -/
def IsOther (event : ContractEvent) : Prop :=
  event.type = .diagnostic → ∀ name rest, event.topics = .symbol name :: rest →
    fromUtf8 name ≠ some "fn_call" ∧ fromUtf8 name ≠ some "fn_return"

/-- Events that serialise a forest of calls, with other events anywhere between. -/
inductive Traces : List CallTree → List ContractEvent → Prop
  | done : Traces [] []
  | other {forest : List CallTree} {event : ContractEvent} {events : List ContractEvent}
      (hother : IsOther event) (rest : Traces forest events) : Traces forest (event :: events)
  | call {contract : ContractId} {inner forest : List CallTree} {enter leave : ContractEvent}
      {inside after : List ContractEvent} (henter : IsFnCall contract enter)
      (hinside : Traces inner inside) (hleave : IsFnReturn leave) (hafter : Traces forest after) :
      Traces (.call contract inner :: forest) (enter :: inside ++ leave :: after)

mutual

/-- A forest's calls. -/
def CallTree.size : CallTree → ℕ
  | .call _ inner => CallTree.sizes inner + 1

def CallTree.sizes : List CallTree → ℕ
  | [] => 0
  | tree :: rest => tree.size + CallTree.sizes rest

end

mutual

/-- The row of a call, numbered `index`, and the rows of the calls below it. -/
def callRows (ctx : FlattenCtx) (caller : String) (depth index : ℕ) :
    CallTree → List ExtractedInvocation
  | .call contract inner =>
      diagRow ctx (Crates.scAddressStrkey (.contract contract)) caller index depth ::
        forestRows ctx (Crates.scAddressStrkey (.contract contract)) (depth + 1) (index + 1) inner

/-- The rows of a forest in preorder: depth the nesting depth, caller the contract of
the enclosing call. -/
def forestRows (ctx : FlattenCtx) (caller : String) (depth index : ℕ) :
    List CallTree → List ExtractedInvocation
  | [] => []
  | tree :: rest =>
      callRows ctx caller depth index tree ++ forestRows ctx caller depth (index + tree.size) rest

end

theorem decodeCallTarget_eq {contract : ContractId} {target : ScVal}
    (h : NamesContract contract target) :
    decodeCallTarget target = some (Crates.scAddressStrkey (.contract contract)) := by
  cases h with
  | bytes => rw [decodeCallTarget, if_pos (Hash.length_bytes contract), Hash.ofBytes_bytes]
  | address => rfl

theorem classify_fnCall {contract : ContractId} {event : ContractEvent}
    (h : IsFnCall contract event) : classifyDiagTopic event.topics =
      some (.fnCall (Crates.scAddressStrkey (.contract contract))) := by
  obtain ⟨name, target, rest, htopics, hname, hnames⟩ := h.topics
  rw [htopics]
  simp [classifyDiagTopic, hname, decodeCallTarget_eq hnames]

theorem classify_fnReturn {event : ContractEvent} (h : IsFnReturn event) :
    classifyDiagTopic event.topics = some .fnReturn := by
  obtain ⟨name, rest, htopics, hname⟩ := h.topics
  rw [htopics]
  simp [classifyDiagTopic, hname]

theorem classify_other {event : ContractEvent} (h : IsOther event)
    (htype : event.type = .diagnostic) : classifyDiagTopic event.topics = none := by
  unfold classifyDiagTopic
  cases htopics : event.topics with
  | nil => rfl
  | cons topic rest =>
      cases topic with
      | symbol name =>
          obtain ⟨hcall, hreturn⟩ := h htype name rest htopics
          simp only [List.head?_cons, Option.bind_eq_bind, Option.bind_some]
          cases hname : fromUtf8 name with
          | none => rfl
          | some text =>
              rw [hname] at hcall hreturn
              rw [Option.bind_some, if_neg fun h => hcall (congrArg some h),
                if_neg fun h => hreturn (congrArg some h)]
      | _ => rfl

/-- Whatever is being called, a serialised forest gives its rows and leaves the stack as
it was. -/
theorem walkDiagnostics_traces (ctx : FlattenCtx) (txSourceAccount : String)
    {forest : List CallTree} {events : List ContractEvent} (h : Traces forest events) :
    ∀ (stack : List String) (index : ℕ) (rest : List ContractEvent),
      walkDiagnostics ctx txSourceAccount stack index (events ++ rest) =
        forestRows ctx (stack.head?.getD txSourceAccount) stack.length index forest ++
          walkDiagnostics ctx txSourceAccount stack (index + CallTree.sizes forest) rest := by
  -- on the trace: what a call encloses leaves the stack with that call on top
  induction h with
  | done =>
      intro stack index rest
      rfl
  | @other forest event events hother _ ih =>
      intro stack index rest
      rw [List.cons_append, walkDiagnostics]
      by_cases htype : event.type = .diagnostic
      · rw [if_neg (not_not.mpr htype), classify_other hother htype]
        exact ih stack index rest
      · rw [if_pos htype]
        exact ih stack index rest
  | @call contract inner forest enter leave inside after henter _ hleave _ ihinside ihafter =>
      intro stack index rest
      rw [List.append_assoc, List.cons_append, List.cons_append, walkDiagnostics,
        if_neg (not_not.mpr henter.type), classify_fnCall henter]
      show diagRow _ _ _ _ _ :: walkDiagnostics _ _ _ _ (inside ++ leave :: (after ++ rest)) = _
      rw [ihinside, walkDiagnostics, if_neg (not_not.mpr hleave.type), classify_fnReturn hleave]
      show diagRow _ _ _ _ _ :: (_ ++ walkDiagnostics _ _ stack _ (after ++ rest)) = _
      rw [ihafter, forestRows, callRows, CallTree.sizes, CallTree.size]
      have hcount : index + 1 + CallTree.sizes inner + CallTree.sizes forest =
          index + (CallTree.sizes inner + 1 + CallTree.sizes forest) := by omega
      have hnext : index + 1 + CallTree.sizes inner = index + (CallTree.sizes inner + 1) := by omega
      rw [hcount, hnext, List.append_assoc, List.cons_append]
      rfl

/-- The rows of a trace are the calls of its forest in preorder, each with its nesting
depth and under the contract of the enclosing call. -/
theorem extractInvocationsFromDiagnostics_eq (ctx : FlattenCtx) (txMeta : TransactionMeta)
    (txSourceAccount : String) {forest : List CallTree}
    (h : Traces forest (diagnosticEvents txMeta)) :
    extractInvocationsFromDiagnostics ctx txMeta txSourceAccount =
      forestRows ctx txSourceAccount 0 0 forest := by
  have hwalk := walkDiagnostics_traces ctx txSourceAccount h [] 0 []
  rw [List.append_nil, walkDiagnostics, List.append_nil] at hwalk
  exact hwalk

/-- A host event with a symbol first. -/
def hostEvent (name : Bytes) (topics : List ScVal) : ContractEvent :=
  ⟨none, .diagnostic, .symbol name :: topics, .void⟩

def fnCallName : Bytes := [102, 110, 95, 99, 97, 108, 108]

def fnReturnName : Bytes := [102, 110, 95, 114, 101, 116, 117, 114, 110]

/-- A call that makes a call, with a log entry between the two. -/
def nestedTrace : TransactionMeta :=
  .v4 [] [] [] none [] [
    hostEvent fnCallName [.bytes (Hash.bytes Crates.pinnedContract)],
    hostEvent [108, 111, 103] [],
    hostEvent fnCallName [.address (.contract Crates.pinnedUsdc)],
    hostEvent fnReturnName [],
    hostEvent fnReturnName []]

omit [Crates] in
theorem traces_nestedTrace :
    Traces [.call Crates.pinnedContract [.call Crates.pinnedUsdc []]]
      (diagnosticEvents nestedTrace) := by
  have hcall : fromUtf8 fnCallName = some "fn_call" := by decide
  have hreturn : fromUtf8 fnReturnName = some "fn_return" := by decide
  have hleave : IsFnReturn (hostEvent fnReturnName []) := ⟨rfl, _, _, rfl, hreturn⟩
  have hlog : IsOther (hostEvent [108, 111, 103] []) := by
    intro _ name rest htopics
    obtain rfl : [108, 111, 103] = name := by simpa using (List.cons.inj htopics).1
    decide
  have hinner : Traces [.call Crates.pinnedUsdc []]
      (hostEvent fnCallName [.address (.contract Crates.pinnedUsdc)] :: [] ++
        hostEvent fnReturnName [] :: []) :=
    .call ⟨rfl, _, _, _, rfl, hcall, .address⟩ .done hleave .done
  exact .call ⟨rfl, _, _, _, rfl, hcall, .bytes⟩ (.other hlog hinner) hleave .done

omit [Crates] in
theorem extractInvocationsFromDiagnostics_nestedTrace :
    let _ : Crates := Crates.pinned
    extractInvocationsFromDiagnostics ⟨"", 5, 0, true⟩ nestedTrace Crates.pinnedAccountStrkey =
      forestRows ⟨"", 5, 0, true⟩ Crates.pinnedAccountStrkey 0 0
        [.call Crates.pinnedContract [.call Crates.pinnedUsdc []]] :=
  let _ : Crates := Crates.pinned
  extractInvocationsFromDiagnostics_eq _ _ _ traces_nestedTrace

end SorobanExplorer
