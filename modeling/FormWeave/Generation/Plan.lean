import FormWeave.Design.Kind

/-!
# The plan of a run

Which node writes which code in which order is decided before anything is written. A plan is the
list of steps of a run, made from the depths and kinds of the nodes alone.

A comment that leads the design goes above everything else. Each top node then has the setup code
of its whole subtree written, and its structure: opening code, children, closing code. In a class
the functions wait until the other members and the closing code are written. A comment that ends
the design goes below everything else.
-/

namespace FormWeave

inductive Phase
  | setup
  | opening
  | closing
  /-- The opening code of a comment that frames the file. -/
  | framing
  deriving DecidableEq, Repr

inductive Step (ν : Type)
  | write (phase : Phase) (node : ν)
  | prologue
  | endClass
  | endGuard
  deriving DecidableEq, Repr

namespace Plan

variable {ν : Type} [DesignNode ν]

open DesignNode (below kind)

def subtreeSize (root : ν) (rest : List ν) : Nat := (rest.takeWhile (below root)).length

/-- The structure of those trees that start within the first `count` nodes and whose root is one
of `chosen`. The opening code of the last node of all is left out if that is a comment: it frames
the file. -/
def walk (chosen : ν → Bool) : (count : Nat) → List ν → List (Step ν)
  | 0, _ => []
  | _ + 1, [] => []
  | count + 1, node :: rest =>
    let size := subtreeSize node rest
    let tree :=
      if chosen node then
        let opening :=
          if rest.isEmpty && kind node == .comment then [] else [Step.write .opening node]
        let isFunction (n : ν) := kind n == .function
        -- Functions come last: their definitions stand outside the constructor.
        if kind node == .widgetClass then
          opening ++ walk (fun n => !isFunction n) size rest ++ [.write .closing node] ++
            walk isFunction size rest ++ [.endClass]
        else opening ++ walk (fun _ => true) size rest ++ [.write .closing node]
      else []
    tree ++ walk chosen (count - size) (rest.drop size)
termination_by _ nodes => nodes.length
decreasing_by all_goals simp only [List.length_cons, List.length_drop]; omega

def trees : List ν → List (Step ν)
  | [] => []
  | node :: rest =>
    let size := subtreeSize node rest
    let body := walk (fun _ => true) (size + 1) (node :: rest)
    (node :: rest.take size).map (.write .setup) ++ body ++ trees (rest.drop size)
termination_by nodes => nodes.length
decreasing_by simp only [List.length_cons, List.length_drop]; omega

def steps (nodes : List ν) : List (Step ν) :=
  let trailing := nodes.getLast?.filter fun node => kind node == .comment
  Step.prologue :: trees nodes ++ [.endGuard] ++ trailing.toList.map (.write .framing)

end Plan

def plan {ν : Type} [DesignNode ν] : List ν → List (Step ν)
  | [] => Plan.steps ([] : List ν)
  | node :: rest =>
    if DesignNode.kind node == .comment then .write .framing node :: Plan.steps rest
    else Plan.steps (node :: rest)

end FormWeave
