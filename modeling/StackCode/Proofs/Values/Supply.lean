import StackCode.Proofs.Values.Cleanup

/-!
# Value graphs say what supplies operands

The value graph of an accepted sequence of which every block is reached exists.
Each operand of each instruction has one edge in it, and the instructions from
which a way through phis leads to that edge are those that push the operand on
some walk through the blocks.
-/

namespace StackCode.ValueGraph

variable {code : Sequence} {flow : FlowGraph} {graph : ValueGraph} {bound : Nat}

/-- The assembled graph serves each operand by one edge. -/
theorem serves_of_holds (padded : flow.PadsBlocks (.ofCode code))
    (holds : graph.Holds flow bound (allNodes flow) (allEdges flow))
    {supplies : Nat → Nat → Nat → Prop}
    (served : ∀ index instruction place, code.instruction? index = some instruction →
      place < instruction.reads → ∃ edge, graph.argumentEdges index place = [edge] ∧
        ∀ supplier, graph.Feeds supplier edge.source ↔ supplies supplier index place) :
    ServesAll code supplies graph where
  sound := holds.sound
  fits id edge listed := by
    rw [holds.ins] at listed
    exact fits_allEdges padded holds (List.mem_filter.mp listed).1
  instruction id index name := kindOf?_instruction_iff padded holds
  kept index instruction place there taken := .inl (served index instruction place there taken)
  operand := served
  only index instruction there edge listed label kind := by
    rw [holds.ins] at listed
    obtain ⟨listed, target⟩ := List.mem_filter.mp listed
    exact place_lt_of_mem_allEdges padded holds listed there (of_decide_eq_true target) kind

/-- The value graph of a balanced flow graph exists and says what supplies each operand. -/
theorem exists_serving_build (padded : flow.PadsBlocks (.ofCode code)) (balanced : flow.Balanced)
    (connected : (BlockGraph.ofCode code).Connected) :
    ∃ values, build flow = .ok values ∧
      ServesAll code (BlockGraph.ofCode code).Supplies values := by
  obtain ⟨assembled, bound, done, holds⟩ := assemble_ok padded balanced
  have others (index : Nat) (instruction : Instruction) (place : Nat)
      (there : code.instruction? index = some instruction) (taken : place < instruction.reads) :
      ∃ supplier, supplier ≠ index ∧ (BlockGraph.ofCode code).Supplies supplier index place := by
    obtain ⟨number, block, -, present, inside⟩ :=
      BlockGraph.exists_block (Sequence.lt_length there)
    have reached := connected number (Array.getElem?_eq_some_iff.mp present).1
    exact BlockGraph.exists_other_supplier padded balanced reached present inside there taken
  have assembles := serves_of_holds padded holds fun index instruction place there taken => by
    obtain ⟨source, single, feeds⟩ := exists_operand_edge padded balanced holds there taken
    exact ⟨_, single, fun supplier => ⟨(feeds supplier).2 connected, (feeds supplier).1⟩⟩
  have serves := assembles.toServes.cleanup.serves_all others
  refine ⟨assembled.cleanup.2, ?_, serves⟩
  simp only [build, done, bind, Except.bind, serves.check]
  rfl

def oneOrZero : Sequence where
  name := "<compiled>"
  kind := .top
  code := #[.putOne, .branchIf 0, .putOne, .jump 1, .putZero, .leave]
  labels := #[some 4, some 5]
  locals := []
  parameters := .none
  handlers := []

theorem connected_oneOrZero : (BlockGraph.ofCode oneOrZero).Connected :=
  BlockGraph.connected_of_earlier (by decide)

end StackCode.ValueGraph
