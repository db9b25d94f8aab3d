import StackCode.Graph.Cleanup

/-!
# Drawings of value graphs

A flowchart in the Mermaid notation: a line for every node, a line for every
edge, and a colour for the edges of control and of data.
-/

namespace StackCode

namespace EdgeKind

def arrow : EdgeKind → String
  | .info => "-.->"
  | _ => "-->"

def inscription : EdgeKind → String
  | .data (.argument place) => "|" ++ toString place ++ "| "
  | .data (.predecessor node) => "|" ++ Text.position node ++ "| "
  | _ => ""

def colour? : EdgeKind → Option String
  | .control => some "stroke:red;"
  | .data _ => some "stroke:green;"
  | .info => none

end EdgeKind

namespace ValueGraph

def nodeLine (node : Node) : String :=
  "  node_" ++ toString node.id ++ "(" ++ node.text ++ ")\n"

/-- The lines of an edge, which has a number among all edges. -/
def edgeLines (edge : Edge) (number : Nat) : String :=
  let line := "  node_" ++ toString edge.source ++ " " ++ edge.kind.arrow ++ " " ++
    edge.kind.inscription ++ "node_" ++ toString edge.target ++ "\n"
  match edge.kind.colour? with
  | some colour => line ++ "  linkStyle " ++ toString number ++ " " ++ colour ++ "\n"
  | none => line

def drawing (graph : ValueGraph) : String :=
  let edges := graph.edges.zipIdx.map fun (edge, number) => edgeLines edge number
  "flowchart TD\n" ++ String.join (graph.nodes.map nodeLine) ++ String.join edges

end ValueGraph

end StackCode
