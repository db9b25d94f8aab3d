import StackCode.Instruction.Forms
import StackCode.Proofs.Values.Supply

/-!
# Operands that lose their edge

The builder of value graphs connects no node with itself.  Where a loop is never
entered, an instruction may be the only one that supplies an operand of its own,
and then the cleanup drops the edge of that operand.  This is the only way in
which the value graph of an accepted sequence may fail to be built.
-/

namespace StackCode.ValueGraph

/-- What an instruction pushes may come to an operand of an instruction. -/
def FeedsOperand (graph : ValueGraph) (supplier index place : Nat) : Prop :=
  ∃ edge ∈ graph.argumentEdges index place, graph.Feeds supplier edge.source

theorem feedsOperand_iff {graph : ValueGraph} {index place : Nat} {edge : Edge}
    (single : graph.argumentEdges index place = [edge]) (supplier : Nat) :
    graph.FeedsOperand supplier index place ↔ graph.Feeds supplier edge.source := by
  simp [FeedsOperand, single]

variable {code : Sequence} {flow : FlowGraph}

/-- The assembled graph serves each operand by what may come to it. -/
theorem serves_feedsOperand {graph : ValueGraph} {bound : Nat}
    (padded : flow.PadsBlocks (.ofCode code)) (balanced : flow.Balanced)
    (holds : graph.Holds flow bound (allNodes flow) (allEdges flow)) :
    ServesAll code graph.FeedsOperand graph :=
  serves_of_holds padded holds fun index instruction place there taken => by
    obtain ⟨source, single, -⟩ := exists_operand_edge padded balanced holds there taken
    exact ⟨_, single, fun supplier => (feedsOperand_iff single supplier).symm⟩

/-- What is built is what the cleanup leaves of an assembled graph. -/
theorem exists_assembled {values : ValueGraph} (padded : flow.PadsBlocks (.ofCode code))
    (balanced : flow.Balanced) (done : build flow = .ok values) :
    ∃ assembled bound, assembled.Holds flow bound (allNodes flow) (allEdges flow) ∧
      Serves code assembled.FeedsOperand assembled ∧ values = assembled.cleanup.2 := by
  obtain ⟨assembled, bound, joined, holds⟩ := assemble_ok padded balanced
  obtain ⟨assembled', joined', done⟩ := bind_eq_ok_iff.mp done
  obtain rfl := Except.ok.inj (joined.symm.trans joined')
  obtain ⟨⟨⟩, -, done⟩ := bind_eq_ok_iff.mp done
  exact ⟨assembled, bound, holds, (serves_feedsOperand padded balanced holds).toServes,
    (Except.ok.inj done).symm⟩

/--
An accepted sequence has a value graph, unless some instruction that is never
reached is the only one to supply an operand of its own: the builder then
reports an operand of that kind as missing.
-/
theorem gaps_are_self_supplied {blocks : BlockGraph} (built : BlockGraph.build code = .ok blocks)
    (accepted : FlowGraph.build blocks = .ok flow) :
    ∃ assembled, assemble flow = .ok assembled ∧
      ((∃ values, build flow = .ok values) ∨
        ∃ index instruction missing, build flow = .error (.labelGap index missing) ∧
          code.instruction? index = some instruction ∧ missing < instruction.reads ∧
          (∀ supplier, assembled.FeedsOperand supplier index missing ↔ supplier = index) ∧
          ∀ (number : Nat) (block : Block), blocks.blocks[number]? = some block →
            index ∈ block.indices → ¬ blocks.Reached number) := by
  obtain rfl := BlockGraph.ofCode_of_build built
  obtain ⟨padded, balanced⟩ := FlowGraph.build_ok accepted
  obtain ⟨assembled, bound, done, holds⟩ := assemble_ok padded balanced
  have serves := (serves_feedsOperand padded balanced holds).toServes.cleanup
  refine ⟨assembled, done, ?_⟩
  rcases serves.check_cases with passed | ⟨index, instruction, missing, there, taken, failed, none⟩
  · refine .inl ⟨assembled.cleanup.2, ?_⟩
    simp only [build, done, bind, Except.bind, passed]
    rfl
  · have alone (supplier : Nat) :
        assembled.FeedsOperand supplier index missing ↔ supplier = index := by
      rcases serves.kept index instruction missing there taken with ⟨edge, single, -⟩ | ⟨-, alone⟩
      · rw [none] at single
        cases single
      · exact alone supplier
    refine .inr ⟨index, instruction, missing, ?_, there, taken, alone, ?_⟩
    · simp only [build, done, bind, Except.bind, failed]
    · intro number block present inside reached
      obtain ⟨supplier, other, supplied⟩ :=
        BlockGraph.exists_other_supplier padded balanced reached present inside there taken
      obtain ⟨source, single, feeds⟩ := exists_operand_edge padded balanced holds there taken
      have fed := (feedsOperand_iff single supplier).mpr ((feeds supplier).1 supplied)
      exact other ((alone supplier).mp fed)

/-- A sequence behind whose end a loop adds `nil` to what its last turn has left. -/
def deadSum : Sequence where
  name := "<compiled>"
  kind := .top
  code := #[.putNil, .leave, .putNil, .usual .plus, .jump 0]
  labels := #[some 2]
  locals := []
  parameters := .none
  handlers := []

theorem build_deadSum : build (.ofBlocks (.ofCode deadSum)) = .error (.labelGap 3 0) := by
  with_unfolding_all rfl

/-- The sum of the loop is the only one to supply its own first operand, and is rejected. -/
theorem gaps_are_self_supplied_deadSum :
    BlockGraph.build deadSum = .ok (.ofCode deadSum) ∧
    FlowGraph.build (.ofCode deadSum) = .ok (.ofBlocks (.ofCode deadSum)) ∧
    build (.ofBlocks (.ofCode deadSum)) = .error (.labelGap 3 0) ∧
    ∃ assembled, assemble (.ofBlocks (.ofCode deadSum)) = .ok assembled ∧
      ∀ supplier, assembled.FeedsOperand supplier 3 0 ↔ supplier = 3 := by
  have built : BlockGraph.build deadSum = .ok (.ofCode deadSum) := rfl
  have accepted : FlowGraph.build (.ofCode deadSum) = .ok (.ofBlocks (.ofCode deadSum)) := rfl
  refine ⟨built, accepted, build_deadSum, ?_⟩
  obtain ⟨assembled, done, cases⟩ := gaps_are_self_supplied built accepted
  refine ⟨assembled, done, ?_⟩
  rcases cases with ⟨values, finished⟩ | ⟨index, instruction, missing, failed, -, -, alone, -⟩
  · rw [build_deadSum] at finished
    cases finished
  · rw [build_deadSum] at failed
    obtain ⟨rfl, rfl⟩ := GraphError.labelGap.inj (Except.error.inj failed)
    exact alone

end StackCode.ValueGraph
