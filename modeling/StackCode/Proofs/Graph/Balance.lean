import StackCode.Instruction.Forms
import StackCode.Proofs.Graph.Settling

/-!
# A flow graph decides whether a sequence is balanced

If there are depths for the blocks of a sequence, the slack of a block is what
it finds on the stack beyond what it takes.  Along an edge slack never shrinks,
and at an end of the sequence there is none; so if every block can come to an
end, no block has any slack, and what each takes is its depth.
-/

namespace StackCode

namespace FlowGraph

variable {code : Sequence} {flow : FlowGraph} {depth : Nat → Nat}

/-- What a block takes and offers is what its code does, above the same number of passes. -/
theorem PadsBlocks.exists_passes (padded : flow.PadsBlocks (.ofCode code)) {number : Nat}
    {block : Block} (found : (BlockGraph.ofCode code).blocks[number]? = some block) :
    ∃ passes, (flow.blockFlow number).ins.length = passes + block.draws code ∧
      (flow.blockFlow number).outs.length = passes + block.yields code := by
  obtain ⟨passes, -, same⟩ := padded.block number block found
  rw [same]
  exact ⟨passes.length, LocalFlow.length_through code block passes⟩

theorem size_blocks (accepted : build (.ofCode code) = .ok flow) :
    flow.blocks.size = (BlockGraph.ofCode code).blocks.size := by
  obtain ⟨exchanged, done, checked⟩ := bind_eq_ok_iff.mp accepted
  obtain ⟨-, -, same⟩ := bind_eq_ok_iff.mp checked
  obtain rfl := Except.ok.inj same
  rcases exchange_ends code with ⟨flow, ended, size, -⟩ | ⟨error, ended, -⟩
  · rw [done] at ended
    rwa [Except.ok.inj ended]
  · rw [done] at ended
    cases ended

/-- What the blocks of an accepted sequence take are depths. -/
theorem PadsBlocks.depths (padded : flow.PadsBlocks (.ofCode code)) (balanced : flow.Balanced)
    (size : flow.blocks.size = (BlockGraph.ofCode code).blocks.size) :
    (BlockGraph.ofCode code).Depths fun number => (flow.blockFlow number).ins.length := by
  have same := padded.graph_eq
  constructor
  case entry =>
    cases found : (BlockGraph.ofCode code).blocks[0]? with
    | some block => rw [balanced.entry block (same ▸ found), List.length_nil]
    | none =>
        -- there is no block at all
        rw [Array.getElem?_eq_none_iff, ← size] at found
        rw [blockFlow, Array.getElem?_eq_none found]
        rfl
  case enough =>
    intro number block found
    obtain ⟨passes, taken, -⟩ := padded.exists_passes found
    rw [taken]
    exact Nat.le_add_left _ _
  case edge =>
    intro number block found successor follows
    obtain ⟨passes, taken, offered⟩ := padded.exists_passes found
    have agrees := balanced.edge number block (same ▸ found) successor follows
    rw [BlockGraph.code_ofCode]
    omega
  case exit =>
    intro number block found last
    obtain ⟨passes, taken, offered⟩ := padded.exists_passes found
    have none := congrArg List.length (balanced.exit number block (same ▸ found) last)
    rw [List.length_nil] at none
    rw [BlockGraph.code_ofCode]
    omega

section Slack

variable (padded : flow.PadsBlocks (.ofCode code))
  (provided : ∀ (number : Nat) (block : Block),
    (BlockGraph.ofCode code).blocks[number]? = some block → ∀ successor ∈ block.successors,
      (flow.blockFlow successor).ins.length ≤ (flow.blockFlow number).outs.length)
  (depths : (BlockGraph.ofCode code).Depths depth)
  (least : ∀ number < (BlockGraph.ofCode code).blocks.size,
    (flow.blockFlow number).ins.length ≤ depth number)
include padded provided depths least

end Slack

/-- A sum whose second operand is chosen while the first one lies on the stack. -/
def onePlusChoice : Sequence where
  name := "<compiled>"
  kind := .top
  code := #[.putOne, .putOne, .branchIf 0, .putOne, .jump 1, .putZero, .usual .plus, .leave]
  labels := #[some 5, some 6]
  locals := []
  parameters := .none
  handlers := []

end FlowGraph

end StackCode
