import StackCode.Graph.Blocks
import StackCode.Sequence.Listing

/-!
# Listings by block

A listing of a sequence in which every block names the blocks before and after
it.  Notes may be added at the head and the tail of a block and behind an
instruction.
-/

namespace StackCode

/-- What is added to a listing by block. -/
structure BlockNotes where
  head : Nat → String := fun _ => ""
  behind : Nat → String := fun _ => ""
  tail : Nat → String := fun _ => ""

namespace BlockGraph

open StackCode.Text (commaSeparated)

def blockName (graph : BlockGraph) (block : Nat) : String :=
  "block_" ++ toString (graph.startOf block)

def headLine (graph : BlockGraph) (block : Block) : String :=
  let origin :=
    if block.predecessors.isEmpty then ""
    else " # from: " ++ commaSeparated (block.predecessors.map graph.blockName)
  block.name ++ ":" ++ origin ++ "\n"

/-- The line at the end of a block that says where control goes. -/
def tailLine (graph : BlockGraph) (block : Block) : String :=
  let goals := block.successors.map graph.blockName ++ if block.leaves then ["leaves"] else []
  if goals.isEmpty then "" else "        # to: " ++ commaSeparated goals ++ "\n"

def blockText (graph : BlockGraph) (notes : BlockNotes) (number : Nat) (block : Block) : String :=
  let lines := block.indices.map fun index =>
    "    " ++ graph.code.line index ++ notes.behind index ++ "\n"
  graph.headLine block ++ notes.head number ++ String.join lines ++ graph.tailLine block ++
    notes.tail number

def annotated (graph : BlockGraph) (kind : String) (notes : BlockNotes) : String :=
  let blocks := graph.numbered.map fun (number, block) => graph.blockText notes number block
  "== " ++ kind ++ " " ++ graph.code.title ++ "\n" ++ String.join blocks

def listing (graph : BlockGraph) : String :=
  graph.annotated "cfg" {}

end BlockGraph

end StackCode
