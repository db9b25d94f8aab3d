/-!
# Why a sequence has no graph
-/

namespace StackCode

inductive GraphError where
  /-- The sequence has a feature that graphs do not show. -/
  | unsupported (sequence reason : String)
  /--
  The numbers of values differ at the boundary of the block that starts at
  `block`, or on its edge to the successor that starts at `successor`.
  -/
  | flowImbalance (block : Nat) (successor : Option Nat) (expected actual : Nat)
  /-- A node lacks the value of one of its operands. -/
  | labelGap (node missing : Nat)
  deriving DecidableEq

namespace GraphError

def message : GraphError → String
  | .unsupported sequence reason =>
      "unsupported instruction sequence " ++ sequence ++ ": " ++ reason
  | .flowImbalance block (some successor) expected actual =>
      "flow imbalance on edge block_" ++ toString block ++ " -> block_" ++ toString successor ++
        ": successor takes " ++ toString expected ++ ", block gives " ++ toString actual
  | .flowImbalance block none expected actual =>
      "flow imbalance in block_" ++ toString block ++ ": expected " ++ toString expected ++
        " values, found " ++ toString actual
  | .labelGap node missing =>
      "node " ++ toString node ++ " has no incoming data edge for argument " ++ toString missing

end GraphError

end StackCode
