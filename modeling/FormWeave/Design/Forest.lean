import FormWeave.Design.Kind

/-!
# The forest of a list of nodes

A list of nodes with depths is a forest: the children of a node are the nodes behind it that lie
deeper, up to the first one that does not, each with its own. `Forest.ofNodes` reads the forest off
the list from the right; `Forest.nodes` lists a forest in depth-first order.
-/

namespace FormWeave

inductive Tree (ν : Type)
  | node (root : ν) (children : List (Tree ν))
  deriving Repr

namespace Tree

variable {ν : Type}

def root : Tree ν → ν
  | node r _ => r

def children : Tree ν → List (Tree ν)
  | node _ cs => cs

end Tree

namespace Forest

variable {ν : Type}

mutual
def treeNodes : Tree ν → List ν
  | .node root children => root :: nodes children

def nodes : List (Tree ν) → List ν
  | [] => []
  | tree :: rest => treeNodes tree ++ nodes rest
end

theorem nodes_append (xs ys : List (Tree ν)) : nodes (xs ++ ys) = nodes xs ++ nodes ys := by
  induction xs with
  | nil => rfl
  | cons x xs ih => simp [nodes, ih]

variable [DesignNode ν]

/-- Puts a node in front of a forest: the leading trees that lie deeper go below it. -/
def cons (node : ν) (forest : List (Tree ν)) : List (Tree ν) :=
  .node node (forest.takeWhile fun tree => DesignNode.below node tree.root) ::
    forest.dropWhile fun tree => DesignNode.below node tree.root

def ofNodes (nodes : List ν) : List (Tree ν) := nodes.foldr cons []

/-- The forest of a list holds the nodes of the list in their order. -/
theorem nodes_ofNodes (list : List ν) : nodes (ofNodes list) = list := by
  induction list with
  | nil => rfl
  | cons x xs ih =>
    simp only [ofNodes, List.foldr_cons] at *
    rw [cons, nodes, treeNodes, List.cons_append, ← nodes_append, List.takeWhile_append_dropWhile]
    rw [ih]

end Forest

end FormWeave
