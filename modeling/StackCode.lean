import StackCode.Main
import StackCode.Profile
import StackCode.Proofs.Machine.Restoration
import StackCode.Proofs.Machine.Purity
import StackCode.Proofs.Machine.Limits
import StackCode.Proofs.Machine.Headroom
import StackCode.Proofs.Machine.Brackets
import StackCode.Proofs.Machine.Scoping
import StackCode.Proofs.Machine.Isolation
import StackCode.Proofs.Machine.Workload
import StackCode.Proofs.Machine.Course
import StackCode.Proofs.Machine.Causes
import StackCode.Proofs.Machine.Blame
import StackCode.Proofs.Machine.FoundGlobals
import StackCode.Proofs.Machine.StackEffect
import StackCode.Proofs.Machine.Entries
import StackCode.Proofs.Machine.Abbreviations
import StackCode.Proofs.Parameters
import StackCode.Proofs.Arithmetic
import StackCode.Proofs.Responding
import StackCode.Proofs.Preorder
import StackCode.Proofs.Graph.Coverage
import StackCode.Proofs.Graph.Division
import StackCode.Proofs.Graph.Ledger
import StackCode.Proofs.Graph.Looks
import StackCode.Proofs.OperandCount
import StackCode.Proofs.Values.Order
import StackCode.Proofs.Values.Labels
import StackCode.Proofs.Values.NormalForm
import StackCode.Proofs.Values.Selection
import StackCode.Proofs.Values.Consistency
