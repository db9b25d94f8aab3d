import StackCode.Graph.Flow
import StackCode.Graph.Listing

/-!
# Listings of flow graphs

The listing by block, with the inputs and outputs of every block and of every
instruction.
-/

namespace StackCode

open StackCode.Text (commaSeparated position)

namespace FlowRef

def text : FlowRef → String
  | .instruction index => position index
  | .input place => "in_" ++ toString place
  | .output place => "out_" ++ toString place
  | .pass number => "pass_" ++ toString number

end FlowRef

namespace FlowGraph

def refsText (refs : List FlowRef) : String :=
  commaSeparated (refs.map FlowRef.text)

/-- A line of its own about a boundary of a block. -/
def boundaryLine (direction : String) (refs : List FlowRef) : String :=
  if refs.isEmpty then "" else "        # " ++ direction ++ ": " ++ refsText refs ++ "\n"

def flowNote (flow : DataFlow) : String :=
  let part (direction : String) (refs : List FlowRef) : List String :=
    if refs.isEmpty then [] else [direction ++ ": " ++ refsText refs]
  let parts := part "in" flow.ins ++ part "out" flow.outs
  if parts.isEmpty then "" else " # " ++ StackCode.Text.separated "; " parts

def listing (flow : FlowGraph) : String :=
  flow.graph.annotated "dfg" {
    head := fun block => boundaryLine "in" (flow.blockFlow block).ins
    behind := fun index => flowNote (flow.instructionFlow index)
    tail := fun block => boundaryLine "out" (flow.blockFlow block).outs }

end FlowGraph

end StackCode
