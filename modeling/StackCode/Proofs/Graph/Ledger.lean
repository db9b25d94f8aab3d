import StackCode.Proofs.Graph.Balance
import StackCode.Proofs.Graph.Origins

/-!
# Values are neither lost nor duplicated

Each value that an instruction pushes goes to one place: to an operand of a later
instruction of the block, or to an output of the block.  Each input of a block is
one operand of one of its instructions.  The lists of producers and consumers agree,
and the values that pass through a block stand at the front on both of its sides.
-/

namespace StackCode

namespace Operand

def producer? : Operand → Option Nat
  | .produced index => some index
  | .below _ => none

/-- The number of operands taken from below the block before this one. -/
def earlier? : Operand → Option Nat
  | .produced _ => none
  | .below earlier => some earlier

end Operand

namespace LocalFlow

variable {code : Sequence}

/-! ## What becomes of a value -/

def uses (flow : LocalFlow) : List Operand :=
  flow.operands.flatten

/-- The number of values of an instruction that were taken or are on the stack. -/
def settled (flow : LocalFlow) (producer : Nat) : Nat :=
  (flow.uses.filterMap Operand.producer?).count producer + flow.stack.count producer

theorem producers_popped (count : Nat) (stack : List Nat) (taken : Nat) :
    (popped count stack taken).filterMap Operand.producer? = stack.take count := by
  have own : Operand.producer? ∘ Operand.produced = some := rfl
  have below : Operand.producer? ∘ Operand.below = fun _ => none := rfl
  rw [popped, List.filterMap_append, List.filterMap_map, List.filterMap_map, own, below]
  simp

theorem earlier_popped (count : Nat) (stack : List Nat) (taken : Nat) :
    (popped count stack taken).filterMap Operand.earlier? =
      List.range' taken (count - stack.length) := by
  have own : Operand.earlier? ∘ Operand.produced = fun _ => none := rfl
  have below : Operand.earlier? ∘ Operand.below = some := rfl
  rw [popped, List.filterMap_append, List.filterMap_map, List.filterMap_map, own, below]
  simp

theorem uses_step (flow : LocalFlow) (index : Nat) (instruction : Instruction) :
    (flow.step index instruction).uses =
      (popped instruction.reads flow.stack flow.taken).reverse ++ flow.uses := by
  rw [step_eq]
  rfl

/-- An instruction adds its own values, and moves others from the stack to its operands. -/
theorem settled_step (flow : LocalFlow) (index : Nat) (instruction : Instruction)
    (producer : Nat) :
    (flow.step index instruction).settled producer =
      flow.settled producer + if index = producer then instruction.writes else 0 := by
  have moved : (flow.stack.take instruction.reads).count producer +
      (flow.stack.drop instruction.reads).count producer = flow.stack.count producer := by
    rw [← List.count_append, List.take_append_drop]
  rw [settled, uses_step, List.filterMap_append, List.filterMap_reverse, producers_popped,
    step_eq, settled]
  simp only [List.count_append, List.count_reverse, List.count_replicate, beq_iff_eq]
  omega

theorem settled_run (flow : LocalFlow) {indices : List Nat} {producer : Nat}
    (absent : producer ∉ indices) :
    (run code flow indices).settled producer = flow.settled producer := by
  induction indices generalizing flow with
  | nil => rfl
  | cons index rest ih =>
      rw [List.mem_cons, not_or] at absent
      obtain ⟨apart, absent⟩ := absent
      cases found : code.instruction? index with
      | none => rw [run_cons_of_none found, ih _ absent]
      | some instruction =>
          rw [run_cons found, ih _ absent, settled_step, if_neg (Ne.symm apart), Nat.add_zero]

/-- Each value of an instruction is taken within the block or left at its end. -/
theorem settled_ofBlock {block : Block} {index : Nat} {instruction : Instruction}
    (inside : index ∈ block.indices) (found : code.instruction? index = some instruction) :
    (ofBlock code block).settled index = instruction.writes := by
  obtain ⟨rest, split⟩ := Block.indices_split inside
  have different : block.indices.Nodup := List.nodup_range'
  rw [split, List.nodup_middle, List.nodup_cons, List.mem_append, not_or] at different
  obtain ⟨⟨before, after⟩, -⟩ := different
  rw [ofBlock_eq, split, run_append, run_cons found, settled_run _ after, settled_step,
    settled_run _ before, if_pos rfl]
  simp [settled, uses, empty]

theorem settled_eq_zero {block : Block} {index : Nat} (outside : index ∉ block.indices) :
    (ofBlock code block).settled index = 0 := by
  rw [ofBlock_eq, settled_run _ outside]
  rfl

/-! ## What becomes of an input -/

/-- The operands taken from below are numbered from zero on, without gaps. -/
def Drawn (flow : LocalFlow) : Prop :=
  (flow.uses.filterMap Operand.earlier?).Perm (List.range flow.taken)

theorem Drawn.step {flow : LocalFlow} (drawn : flow.Drawn) (index : Nat)
    (instruction : Instruction) : (flow.step index instruction).Drawn := by
  have numbers (first count : Nat) :
      List.range (first + count) = List.range first ++ List.range' first count := by
    simp only [List.range_eq_range']
    rw [← List.range'_append_1, Nat.zero_add]
  have fresh := List.reverse_perm
    (List.range' flow.taken (instruction.reads - flow.stack.length))
  rw [Drawn, uses_step, List.filterMap_append, List.filterMap_reverse, earlier_popped, step_eq]
  dsimp only
  rw [numbers]
  exact (fresh.append drawn).trans List.perm_append_comm

theorem Drawn.run {flow : LocalFlow} (drawn : flow.Drawn) (indices : List Nat) :
    (run code flow indices).Drawn :=
  run_keeps drawn (fun _ index instruction drawn => drawn.step index instruction) indices

theorem drawn_ofBlock (code : Sequence) (block : Block) : (ofBlock code block).Drawn :=
  have empty : empty.Drawn := List.Perm.refl []
  empty.run block.indices

/-! ## The operands of a block -/

variable (flow : LocalFlow)

theorem perm_flatten_instructionIns :
    flow.instructionIns.flatten.Perm (flow.uses.map flow.origin) := by
  rw [instructionIns, ← List.map_flatten]
  exact (List.reverse_perm flow.operands).flatten.map flow.origin

theorem count_instruction (producer : Nat) :
    flow.instructionIns.flatten.count (.instruction producer) =
      (flow.uses.filterMap Operand.producer?).count producer := by
  rw [flow.perm_flatten_instructionIns.count_eq, List.count, List.countP_map,
    List.count_filterMap]
  refine List.countP_congr fun operand _ => ?_
  cases operand with
  | produced index => simp [origin, Operand.producer?]
  | below earlier => simp [origin, Operand.producer?]

theorem count_outs_boundary (producer : Nat) :
    flow.boundary.outs.count (.instruction producer) = flow.stack.count producer := by
  rw [boundary, List.count_map_of_injective _ _ fun _ _ => FlowRef.instruction.inj,
    List.count_reverse]

/-- Each input is one of the operands, once. -/
theorem count_input {flow : LocalFlow} (drawn : flow.Drawn) {place : Nat}
    (within : place < flow.taken) : flow.instructionIns.flatten.count (.input place) = 1 := by
  have once : (flow.uses.filterMap Operand.earlier?).count (flow.taken - 1 - place) = 1 := by
    rw [drawn.count_eq]
    exact List.count_eq_one_of_mem List.nodup_range (List.mem_range.mpr (by omega))
  rw [← once, flow.perm_flatten_instructionIns.count_eq, List.count, List.countP_map,
    List.count_filterMap]
  refine List.countP_congr fun operand used => ?_
  cases operand with
  | produced index => simp [origin, Operand.earlier?]
  | below earlier =>
      have low : earlier < flow.taken :=
        List.mem_range.mp (drawn.mem_iff.mp (List.mem_filterMap.mpr ⟨_, used, rfl⟩))
      simp only [origin, Operand.earlier?, Function.comp_apply, beq_iff_eq, FlowRef.input.injEq,
        Option.some.injEq]
      omega

end LocalFlow

namespace FlowGraph

variable {code : Sequence}

/-! ## Producers and consumers -/

theorem length_outputsOf (boundary : DataFlow) (index : Nat) :
    (outputsOf boundary index).length = boundary.outs.count (.instruction index) := by
  rw [outputsOf, List.length_map, ← List.countP_eq_length_filter, List.count]
  nth_rewrite 2 [← List.zipIdx_map_fst 0 boundary.outs]
  rw [List.countP_map]
  refine List.countP_congr fun entry _ => ?_
  simp

theorem mem_outputsOf {boundary : DataFlow} {index : Nat} {ref : FlowRef} :
    ref ∈ outputsOf boundary index ↔
      ∃ place, ref = .output place ∧ boundary.outs[place]? = some (.instruction index) := by
  simp only [outputsOf, List.mem_map, List.mem_filter, List.mem_zipIdx_iff_getElem?,
    decide_eq_true_eq, Prod.exists]
  constructor
  · rintro ⟨_, place, ⟨found, rfl⟩, rfl⟩
    exact ⟨place, rfl, found⟩
  · rintro ⟨place, rfl, found⟩
    exact ⟨_, place, ⟨found, rfl⟩, rfl⟩

theorem consumersOf_eq (ins : List (List FlowRef)) (index : Nat) :
    consumersOf ins index = ins.zipIdx.flatMap fun (refs, consumer) =>
      List.replicate (refs.count (.instruction index)) (.instruction consumer) := by
  unfold consumersOf
  congr 1
  funext ⟨refs, consumer⟩
  dsimp only
  rw [List.map_const', ← List.countP_eq_length_filter, List.count]
  rfl

theorem length_consumersOf (ins : List (List FlowRef)) (index : Nat) :
    (consumersOf ins index).length = ins.flatten.count (.instruction index) := by
  rw [consumersOf_eq, List.length_flatMap, List.count_flatten]
  nth_rewrite 2 [← List.zipIdx_map_fst 0 ins]
  rw [List.map_map]
  congr 1
  refine List.map_congr_left fun entry _ => ?_
  simp

theorem output_not_mem_consumersOf {ins : List (List FlowRef)} {index place : Nat} :
    .output place ∉ consumersOf ins index := by
  rw [consumersOf_eq]
  simp

/-- A consumer is listed as often as it has the producer among its operands. -/
theorem count_consumersOf (ins : List (List FlowRef)) (index consumer : Nat) :
    (consumersOf ins index).count (.instruction consumer) =
      (ins[consumer]?.getD []).count (.instruction index) := by
  have elsewhere (place : Nat) (entry : List FlowRef × Nat)
      (listed : ins.zipIdx[place]? = some entry) (apart : place ≠ consumer) :
      ((List.replicate (entry.1.count (.instruction index)) (.instruction entry.2)).filter
        (· == FlowRef.instruction consumer)) = [] := by
    rw [List.getElem?_zipIdx, Nat.zero_add, Option.map_eq_some_iff] at listed
    obtain ⟨refs, -, rfl⟩ := listed
    simp [apart]
  rw [consumersOf_eq, List.count_eq_length_filter, List.filter_flatMap]
  cases found : ins[consumer]? with
  | none =>
      refine congrArg List.length (List.flatMap_eq_nil_iff.mpr fun entry mem => ?_)
      obtain ⟨place, listed⟩ := List.mem_iff_getElem?.mp mem
      refine elsewhere place entry listed ?_
      rintro rfl
      rw [List.getElem?_zipIdx, found] at listed
      cases listed
  | some refs =>
      have here : ins.zipIdx[consumer]? = some (refs, consumer) := by
        rw [List.getElem?_zipIdx, found, Nat.zero_add]
        rfl
      rw [flatMap_eq_of_single here elsewhere]
      simp

/-! ## The flow of one instruction -/

section Accepted

variable {flow : FlowGraph} (padded : flow.PadsBlocks (.ofCode code))
include padded

theorem size_instructions : flow.instructions.size = code.length := by
  have same : (ofBlocks (.ofCode code)).instructions.size = (allIns (.ofCode code)).length := by
    simp [ofBlocks, allIns]
  rw [padded.instructions_eq, same, length_allIns]

/-- Behind the end of the code there is no flow. -/
theorem instructionFlow_of_le {index : Nat} (beyond : code.length ≤ index) :
    flow.instructionFlow index = default := by
  rw [instructionFlow, Array.getElem?_eq_none (size_instructions padded ▸ beyond)]
  rfl

theorem getElem?_allIns_getD (index : Nat) :
    (allIns (.ofCode code))[index]?.getD [] = (flow.instructionFlow index).ins := by
  rw [instructionFlow, padded.instructions_eq, getElem?_instructions]
  cases (allIns (.ofCode code))[index]? <;> rfl

/-- The operands of the instructions of a block, in code order. -/
theorem flatMap_ins {number : Nat} {block : Block}
    (present : (BlockGraph.ofCode code).blocks[number]? = some block) :
    (block.indices.flatMap fun index => (flow.instructionFlow index).ins) =
      (LocalFlow.ofBlock code block).instructionIns.flatten := by
  have all := present_indices (BlockGraph.end_le present)
  rw [List.flatMap_def]
  congr 1
  refine List.ext_getElem? fun place => ?_
  rw [List.getElem?_map, Block.indices]
  by_cases within : place < block.length
  · have inside : block.start + place ∈ block.indices := by
      simp only [Block.indices, List.mem_range'_1]
      omega
    obtain ⟨instruction, found⟩ := all _ inside
    have own := LocalFlow.getElem?_instructionIns all inside found
    rw [Nat.add_sub_cancel_left] at own
    rw [own, List.getElem?_range' within, Nat.one_mul]
    exact congrArg some (ins_instructionFlow padded present inside found)
  · rw [List.getElem?_eq_none (by simpa using within), List.getElem?_eq_none]
    · rfl
    · rw [LocalFlow.length_instructionIns all]
      exact Nat.le_of_not_lt within

section Inside

variable {number index : Nat} {block : Block}
  (present : (BlockGraph.ofCode code).blocks[number]? = some block)
  (inside : index ∈ block.indices)
include present inside

omit padded in
/-- No other block settles the values of an instruction. -/
theorem settled_elsewhere {other : Nat} {block' : Block}
    (found : (BlockGraph.ofCode code).blocks.toList[other]? = some block')
    (apart : other ≠ number) : (LocalFlow.ofBlock code block').settled index = 0 := by
  rw [Array.getElem?_toList] at found
  exact LocalFlow.settled_eq_zero fun shared =>
    apart (BlockGraph.block_unique found shared present inside).1

omit padded in
/-- The values of an instruction are left over at the end of its block only. -/
theorem flatMap_outputsOf :
    ((BlockGraph.ofCode code).blocks.toList.flatMap fun block =>
        outputsOf (LocalFlow.ofBlock code block).boundary index) =
      outputsOf (LocalFlow.ofBlock code block).boundary index := by
  have here : (BlockGraph.ofCode code).blocks.toList[number]? = some block := by
    rw [Array.getElem?_toList, present]
  refine flatMap_eq_of_single here fun other block' found apart => ?_
  have nothing := settled_elsewhere present inside found apart
  rw [← List.length_eq_zero_iff, length_outputsOf, LocalFlow.count_outs_boundary]
  exact Nat.eq_zero_of_add_eq_zero_left nothing

theorem outs_instructionFlow :
    (flow.instructionFlow index).outs =
      outputsOf (LocalFlow.ofBlock code block).boundary index ++
        consumersOf (allIns (.ofCode code)) index := by
  obtain ⟨instruction, found⟩ := Sequence.exists_instruction (BlockGraph.lt_length present inside)
  rw [instructionFlow, padded.instructions_eq, getElem?_instructions,
    getElem?_allIns present inside found]
  exact congrArg (· ++ _) (flatMap_outputsOf present inside)

omit padded in
/-- The values of an instruction are taken within its block only. -/
theorem count_flatten_allIns :
    (allIns (.ofCode code)).flatten.count (.instruction index) =
      (LocalFlow.ofBlock code block).instructionIns.flatten.count (.instruction index) := by
  have flattened : (allIns (.ofCode code)).flatten =
      (BlockGraph.ofCode code).blocks.toList.flatMap fun block =>
        (LocalFlow.ofBlock code block).instructionIns.flatten := by
    rw [allIns, List.flatMap_map, ← List.flatMap_id, List.flatMap_assoc]
    simp only [List.flatMap_id, BlockGraph.code_ofCode]
  have here : (BlockGraph.ofCode code).blocks.toList[number]? = some block := by
    rw [Array.getElem?_toList, present]
  rw [flattened, List.count_eq_length_filter, List.filter_flatMap, flatMap_eq_of_single here,
    List.count_eq_length_filter]
  intro other block' found apart
  have nothing := settled_elsewhere present inside found apart
  rw [LocalFlow.settled, ← LocalFlow.count_instruction, List.count_eq_length_filter] at nothing
  exact List.eq_nil_of_length_eq_zero (Nat.eq_zero_of_add_eq_zero_right nothing)

/-- An instruction has one outgoing value for each that it pushes. -/
theorem length_outs_instructionFlow {instruction : Instruction}
    (found : code.instruction? index = some instruction) :
    (flow.instructionFlow index).outs.length = instruction.writes := by
  rw [outs_instructionFlow padded present inside, List.length_append, length_outputsOf,
    length_consumersOf, count_flatten_allIns present inside, LocalFlow.count_instruction,
    LocalFlow.count_outs_boundary, Nat.add_comm]
  exact LocalFlow.settled_ofBlock inside found

/-- The instruction offers the outputs of the block that are its values. -/
theorem output_mem_outs_iff {place : Nat} :
    .output place ∈ (flow.instructionFlow index).outs ↔
      (LocalFlow.ofBlock code block).stack.reverse[place]? = some index := by
  rw [outs_instructionFlow padded present inside, List.mem_append,
    or_iff_left output_not_mem_consumersOf, mem_outputsOf]
  simp only [FlowRef.output.injEq, exists_eq_left', LocalFlow.boundary, List.getElem?_map,
    Option.map_eq_some_iff, FlowRef.instruction.injEq, exists_eq_right]

/-- A value goes to an instruction as often as the instruction takes it. -/
theorem count_outs_instructionFlow (consumer : Nat) :
    (flow.instructionFlow index).outs.count (.instruction consumer) =
      (flow.instructionFlow consumer).ins.count (.instruction index) := by
  have none : (outputsOf (LocalFlow.ofBlock code block).boundary index).count
      (.instruction consumer) = 0 := by
    refine List.count_eq_zero.mpr fun listed => ?_
    obtain ⟨_, same, -⟩ := mem_outputsOf.mp listed
    cases same
  rw [outs_instructionFlow padded present inside, List.count_append, none, Nat.zero_add,
    count_consumersOf, getElem?_allIns_getD padded]

end Inside

/-- What an instruction pushes goes to later instructions of its block. -/
theorem consumer_after {producer consumer : Nat}
    (given : .instruction consumer ∈ (flow.instructionFlow producer).outs) :
    producer < consumer ∧ ∃ (number : Nat) (block : Block),
      (BlockGraph.ofCode code).blocks[number]? = some block ∧ producer ∈ block.indices ∧
        consumer ∈ block.indices := by
  have within {index : Nat} (used : flow.instructionFlow index ≠ default) :
      index < code.length :=
    Nat.lt_of_not_le fun beyond => used (instructionFlow_of_le padded beyond)
  have low : producer < code.length := within fun same => by
    rw [same] at given
    cases given
  obtain ⟨number, block, -, present, inside⟩ := BlockGraph.exists_block low
  rw [← List.count_pos_iff, count_outs_instructionFlow padded present inside,
    List.count_pos_iff] at given
  have high : consumer < code.length := within fun same => by
    rw [same] at given
    cases given
  obtain ⟨other, block', -, present', inside'⟩ := BlockGraph.exists_block high
  obtain ⟨shared, before⟩ := producer_lt padded present' inside' given
  exact ⟨before, other, block', present', shared, inside'⟩

end Accepted

/-! ## The whole account -/

/--
What is pushed is taken or left over, once; what comes into a block is taken or
passes through, once; and both ends of every flow agree.
-/
structure Accounts (flow : FlowGraph) (graph : BlockGraph) : Prop where
  size : flow.instructions.size = graph.code.length
  reads : ∀ index instruction, graph.code.instruction? index = some instruction →
    (flow.instructionFlow index).ins.length = instruction.reads
  writes : ∀ index instruction, graph.code.instruction? index = some instruction →
    (flow.instructionFlow index).outs.length = instruction.writes
  mirrored : ∀ producer consumer, producer < graph.code.length → consumer < graph.code.length →
    (flow.instructionFlow producer).outs.count (.instruction consumer) =
      (flow.instructionFlow consumer).ins.count (.instruction producer)
  later : ∀ producer consumer, .instruction consumer ∈ (flow.instructionFlow producer).outs →
    producer < consumer ∧ ∃ (number : Nat) (block : Block),
      graph.blocks[number]? = some block ∧ producer ∈ block.indices ∧ consumer ∈ block.indices
  block : ∀ (number : Nat) (block : Block), graph.blocks[number]? = some block →
    ∃ (passes : List Nat) (taken : Nat) (left : List Nat), passes.Nodup ∧
      (flow.blockFlow number).ins = passes.map .pass ++ (List.range taken).map .input ∧
      (∀ place < taken,
        (block.indices.flatMap fun index => (flow.instructionFlow index).ins).count
          (.input place) = 1) ∧
      (flow.blockFlow number).outs = passes.map .pass ++ left.map .instruction ∧
      (∀ producer ∈ left, producer ∈ block.indices) ∧
      ∀ producer ∈ block.indices, ∀ place,
        left[place]? = some producer ↔ .output place ∈ (flow.instructionFlow producer).outs

/-- A flow graph that is accepted accounts for all values. -/
theorem values_are_accounted_for {blocks : BlockGraph} {flow : FlowGraph}
    (built : BlockGraph.build code = .ok blocks) (accepted : build blocks = .ok flow) :
    flow.Accounts blocks := by
  obtain rfl := BlockGraph.ofCode_of_build built
  obtain ⟨padded, -⟩ := build_ok accepted
  constructor
  case size => exact size_instructions padded
  case reads =>
    intro index instruction found
    obtain ⟨number, block, -, present, inside⟩ := BlockGraph.exists_block (Sequence.lt_length found)
    rw [ins_instructionFlow padded present inside found, List.length_map,
      LocalFlow.length_operandsAt]
  case writes =>
    intro index instruction found
    obtain ⟨number, block, -, present, inside⟩ := BlockGraph.exists_block (Sequence.lt_length found)
    exact length_outs_instructionFlow padded present inside found
  case mirrored =>
    intro producer consumer within _
    obtain ⟨number, block, -, present, inside⟩ := BlockGraph.exists_block within
    exact count_outs_instructionFlow padded present inside consumer
  case later => exact fun producer consumer given => consumer_after padded given
  case block =>
    intro number block present
    obtain ⟨passes, different, same⟩ := padded.block number block present
    refine ⟨passes, (LocalFlow.ofBlock code block).taken,
      (LocalFlow.ofBlock code block).stack.reverse, different, ?_, ?_, ?_, ?_, ?_⟩
    · rw [same]
      rfl
    · intro place within
      rw [flatMap_ins padded present]
      exact LocalFlow.count_input (LocalFlow.drawn_ofBlock code block) within
    · rw [same]
      rfl
    · exact fun producer pushed => LocalFlow.mem_of_mem_stack (List.mem_reverse.mp pushed)
    · exact fun producer inside place => (output_mem_outs_iff padded present inside).symm

/-- The sum takes the value that has passed through an arm of the choice and the one left there. -/
theorem values_are_accounted_for_onePlusChoice :
    BlockGraph.build onePlusChoice = .ok (.ofCode onePlusChoice) ∧ ∃ flow,
      build (.ofCode onePlusChoice) = .ok flow ∧ flow.Accounts (.ofCode onePlusChoice) ∧
      flow.blockFlow 1 = ⟨[.pass 0], [.pass 0, .instruction 3]⟩ ∧
      flow.instructionFlow 3 = ⟨[], [.output 0]⟩ ∧
      flow.instructionFlow 6 = ⟨[.input 0, .input 1], [.instruction 7]⟩ := by
  have built : BlockGraph.build onePlusChoice = .ok (.ofCode onePlusChoice) := rfl
  have checked : (build (.ofCode onePlusChoice)).toOption.any (fun flow =>
      flow.blockFlow 1 = ⟨[.pass 0], [.pass 0, .instruction 3]⟩ ∧
      flow.instructionFlow 3 = ⟨[], [.output 0]⟩ ∧
      flow.instructionFlow 6 = ⟨[.input 0, .input 1], [.instruction 7]⟩) = true := by
    decide +kernel
  obtain ⟨flow, accepted, checked⟩ := exists_of_any checked
  exact ⟨built, flow, accepted, values_are_accounted_for built accepted,
    of_decide_eq_true checked⟩

end FlowGraph

end StackCode
