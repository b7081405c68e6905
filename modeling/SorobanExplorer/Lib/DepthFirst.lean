import Mathlib.Algebra.Order.BigOperators.Group.List
import Mathlib.Algebra.Order.Group.Nat
import Mathlib.Algebra.Ring.Nat
import Mathlib.Data.List.Basic

/-!
# Depth-first walks on a stack

A tree is anything with children of less weight.  A walk that pops a node and pushes its
children leaves the nodes in preorder (`walk_eq`); a result built from a preorder read
backwards, each node taking the results of its children off the end of what is built,
has the children of every node the other way round (`rebuild_preorder`).
-/

namespace DepthFirst

/-- What has children, all of them together lighter than itself. -/
structure Shape (τ : Type*) where
  children : τ → List τ
  weight : τ → ℕ
  lighter : ∀ node, ((children node).map weight).sum < weight node

variable {τ β : Type*} (shape : Shape τ)

namespace Shape

theorem weight_lt_of_mem {node child : τ} (h : child ∈ shape.children node) :
    shape.weight child < shape.weight node :=
  (List.single_le_sum (fun _ _ => Nat.zero_le _) _ (List.mem_map_of_mem h)).trans_lt
    (shape.lighter node)

/-- What holds of a node if it holds of its children holds of every node. -/
theorem induction {P : τ → Prop} (step : ∀ node, (∀ child ∈ shape.children node, P child) → P node)
    (node : τ) : P node :=
  step node fun child _h => induction step child
termination_by shape.weight node
decreasing_by exact shape.weight_lt_of_mem _h

/-- The value of a node from the values of its children. -/
def fold (combine : τ → List β → β) (node : τ) : β :=
  combine node ((shape.children node).attach.map fun child => fold combine child.1)
termination_by shape.weight node
decreasing_by exact shape.weight_lt_of_mem child.2

theorem fold_eq (combine : τ → List β → β) (node : τ) :
    shape.fold combine node = combine node ((shape.children node).map (shape.fold combine)) := by
  rw [fold, List.attach_map_val (f := shape.fold combine)]

/-- A node before its children, these from first to last. -/
def preorder : τ → List τ :=
  shape.fold fun node below => node :: below.flatten

theorem preorder_eq (node : τ) :
    shape.preorder node = node :: (shape.children node).flatMap shape.preorder := by
  rw [preorder, fold_eq, List.flatMap_def]

/-- Pop a node, push its children, the first on top. -/
def walk : List τ → List τ
  | [] => []
  | node :: stack => node :: walk (shape.children node ++ stack)
termination_by stack => (stack.map shape.weight).sum
decreasing_by
  rw [List.map_append, List.sum_append, List.map_cons, List.sum_cons]
  exact Nat.add_lt_add_right (shape.lighter node) _

/-- A walk meets the nodes of its stack in preorder. -/
theorem walk_eq (stack : List τ) : shape.walk stack = stack.flatMap shape.preorder := by
  induction stack using walk.induct shape with
  | case1 => rw [walk, List.flatMap_nil]
  | case2 node stack ih =>
      rw [walk, ih, List.flatMap_append, List.flatMap_cons, preorder_eq, List.cons_append]

/-- Each node takes the results of its children off the end, and its own is put there. -/
def rebuild (combine : τ → List β → β) : List τ → List β → List β
  | [], results => results
  | node :: visits, results =>
      let rest := results.length - (shape.children node).length
      rebuild combine visits (results.take rest ++ [combine node (results.drop rest)])

theorem rebuild_append (combine : τ → List β → β) (visits visits' : List τ) (results : List β) :
    shape.rebuild combine (visits ++ visits') results =
      shape.rebuild combine visits' (shape.rebuild combine visits results) := by
  induction visits generalizing results with
  | nil => rfl
  | cons node visits ih => exact ih _

/-- Children whose results are taken off the end come last to first. -/
theorem rebuild_preorder (combine : τ → List β → β) (node : τ) :
    ∀ results, shape.rebuild combine (shape.preorder node).reverse results =
      results ++ [shape.fold (fun node below => combine node below.reverse) node] := by
  induction node using shape.induction with
  | step node ih =>
      set result : τ → β := shape.fold fun node below => combine node below.reverse with hresult
      -- the results of a list of children are put down from the last to the first
      have hchildren : ∀ nodes : List τ, (∀ child ∈ nodes, child ∈ shape.children node) →
          ∀ results, shape.rebuild combine (nodes.flatMap shape.preorder).reverse results =
            results ++ (nodes.map result).reverse := by
        intro nodes
        induction nodes with
        | nil =>
            intro _ results
            rw [List.flatMap_nil, List.reverse_nil, rebuild, List.map_nil, List.reverse_nil,
              List.append_nil]
        | cons child nodes ihnodes =>
            intro hmem results
            have hrest := ihnodes fun other hother => hmem other (List.mem_cons_of_mem _ hother)
            calc shape.rebuild combine ((child :: nodes).flatMap shape.preorder).reverse results
                = shape.rebuild combine (shape.preorder child).reverse
                    (shape.rebuild combine (nodes.flatMap shape.preorder).reverse results) := by
                  rw [List.flatMap_cons, List.reverse_append, rebuild_append]
              _ = results ++ (nodes.map result).reverse ++ [result child] := by
                  rw [hrest, ih child (hmem child List.mem_cons_self)]
              _ = results ++ ((child :: nodes).map result).reverse := by
                  rw [List.map_cons, List.reverse_cons, List.append_assoc]
      intro results
      set below := ((shape.children node).map result).reverse with hbelow
      have hlength : (results ++ below).length - (shape.children node).length =
          results.length := by
        simp [hbelow]
      calc shape.rebuild combine (shape.preorder node).reverse results
          = shape.rebuild combine [node] (results ++ below) := by
            rw [preorder_eq, List.reverse_cons, rebuild_append, hchildren _ fun _ => id]
        _ = results ++ [combine node below] := by
            rw [rebuild, hlength, List.take_left' rfl, List.drop_left' rfl, rebuild]
        _ = results ++ [result node] := by rw [hresult, fold_eq]

end Shape

end DepthFirst
