import StackCode.Proofs.Graph.Walks

/-!
# Where operands come from

The flow of an instruction in a flow graph lists what its block's abstract stack
holds when the instruction is read.  An operand is a result of an earlier
instruction of the block or one of the inputs of the block.
-/

namespace StackCode

namespace LocalFlow

variable {code : Sequence}

def Present (code : Sequence) (indices : List Nat) : Prop :=
  ∀ index ∈ indices, ∃ instruction, code.instruction? index = some instruction

/-- Every instruction adds one list of operands, in front. -/
theorem operands_run (flow : LocalFlow) {indices : List Nat} (present : Present code indices) :
    ∃ new, (run code flow indices).operands = new ++ flow.operands ∧
      new.length = indices.length := by
  induction indices generalizing flow with
  | nil => exact ⟨[], rfl, rfl⟩
  | cons index rest ih =>
      obtain ⟨instruction, found⟩ := present index List.mem_cons_self
      have others : Present code rest := fun other listed =>
        present other (List.mem_cons_of_mem index listed)
      obtain ⟨new, grown, length⟩ := ih (flow.step index instruction) others
      refine ⟨new ++ [(popped instruction.reads flow.stack flow.taken).reverse], ?_, ?_⟩
      · rw [run_cons found, grown, step_eq, List.append_assoc, List.singleton_append]
      · rw [List.length_append, length, List.length_singleton, List.length_cons]

theorem present_of_subset {indices : List Nat} (inside : ∀ index ∈ indices, index < code.length) :
    Present code indices := fun index listed =>
  Sequence.exists_instruction (inside index listed)

/-- Each instruction of a block has one list of operands. -/
theorem length_instructionIns {block : Block} (present : Present code block.indices) :
    (ofBlock code block).instructionIns.length = block.length := by
  obtain ⟨new, grown, length⟩ := operands_run empty present
  rw [instructionIns, List.length_map, List.length_reverse, ofBlock_eq, grown]
  simp [empty, length, Block.indices]

/-- The operands of an instruction of a block stand at its place in the block. -/
theorem getElem?_instructionIns {block : Block} {index : Nat} {instruction : Instruction}
    (present : Present code block.indices) (inside : index ∈ block.indices)
    (found : code.instruction? index = some instruction) :
    (ofBlock code block).instructionIns[index - block.start]? =
      some ((operandsAt code block index instruction).map (ofBlock code block).origin) := by
  obtain ⟨rest, split⟩ := Block.indices_split inside
  rw [split] at present
  have before : Present code (block.indicesBefore index) := fun other listed =>
    present other (List.mem_append_left _ listed)
  have after : Present code rest := fun other listed =>
    present other (List.mem_append_right _ (List.mem_cons_of_mem index listed))
  obtain ⟨old, grown, length⟩ := operands_run empty before
  obtain ⟨new, grown', -⟩ := operands_run ((upTo code block index).step index instruction) after
  have operands : (ofBlock code block).operands =
      new ++ (operandsAt code block index instruction :: old) := by
    have fresh : (upTo code block index).operands = old := by
      rw [upTo, grown]
      exact List.append_nil old
    rw [ofBlock_eq, split, run_append, run_cons found, ← upTo, grown', step_eq, operandsAt]
    dsimp only
    rw [fresh]
  have place : index - block.start = old.length := by
    rw [length, Block.indicesBefore, List.length_range']
  rw [instructionIns, operands, List.getElem?_map, place]
  simp

/-- An operand that the block produces itself comes from an instruction before. -/
theorem mem_of_produced {block : Block} {index producer : Nat} {instruction : Instruction}
    (taken : .produced producer ∈ operandsAt code block index instruction) :
    producer ∈ block.indicesBefore index := by
  rw [operandsAt, List.mem_reverse, popped] at taken
  rcases List.mem_append.mp taken with own | below
  · obtain ⟨tag, pushed, same⟩ := List.mem_map.mp own
    obtain rfl := Operand.produced.inj same
    exact mem_of_mem_stack (List.mem_of_mem_take pushed)
  · obtain ⟨earlier, -, same⟩ := List.mem_map.mp below
    cases same

/-- An operand from below a block is one of those that the block takes. -/
theorem lt_taken_of_below {block : Block} {index earlier : Nat} {instruction : Instruction}
    (inside : index ∈ block.indices) (found : code.instruction? index = some instruction)
    (taken : .below earlier ∈ operandsAt code block index instruction) :
    earlier < (ofBlock code block).taken := by
  have reads := reads_le inside found
  rw [operandsAt, List.mem_reverse, popped] at taken
  rcases List.mem_append.mp taken with own | below
  · obtain ⟨tag, -, same⟩ := List.mem_map.mp own
    cases same
  · obtain ⟨place, range, same⟩ := List.mem_map.mp below
    obtain rfl := Operand.below.inj same
    rw [List.mem_range'_1] at range
    omega

end LocalFlow

/-- If all items but the one at a place give nothing, the whole list gives what that one gives. -/
theorem flatMap_eq_of_single {α β : Type} {list : List α} {piece : α → List β} {place : Nat}
    {item : α} (found : list[place]? = some item)
    (others : ∀ other item, list[other]? = some item → other ≠ place → piece item = []) :
    list.flatMap piece = piece item := by
  induction list generalizing place with
  | nil => cases found
  | cons head rest ih =>
      rw [List.flatMap_cons]
      cases place with
      | zero =>
          obtain rfl : head = item := Option.some.inj found
          have nothing : rest.flatMap piece = [] := by
            refine List.flatMap_eq_nil_iff.mpr fun item listed => ?_
            obtain ⟨other, found'⟩ := List.mem_iff_getElem?.mp listed
            exact others (other + 1) item found' (Nat.succ_ne_zero other)
          rw [nothing, List.append_nil]
      | succ place =>
          rw [others 0 head rfl (Nat.succ_ne_zero place).symm, List.nil_append]
          exact ih found fun other item found' apart =>
            others (other + 1) item found' (mt Nat.succ.inj apart)

namespace BlockGraph

/-- A list that is made of one piece for each extent has each piece at the place of its extent. -/
theorem Tiles.getElem?_flatMap {α : Type} {first last : Nat} {extents : List (Nat × Nat)}
    (tiles : Tiles first extents last) {piece : Nat × Nat → List α}
    (lengths : ∀ extent ∈ extents, (piece extent).length = extent.2 - extent.1)
    {start stop index : Nat} (listed : (start, stop) ∈ extents) (low : start ≤ index)
    (high : index < stop) :
    (extents.flatMap piece)[index - first]? = (piece (start, stop))[index - start]? := by
  induction extents generalizing first with
  | nil => cases listed
  | cons head rest ih =>
      obtain ⟨begin, finish⟩ := head
      obtain ⟨rfl, nonempty, tail⟩ := tiles
      have length := lengths (begin, finish) List.mem_cons_self
      dsimp only at length
      rw [List.flatMap_cons]
      rcases List.mem_cons.mp listed with here | later
      · obtain ⟨rfl, rfl⟩ := Prod.mk.inj here
        rw [List.getElem?_append_left (by omega)]
      · have bounds := tail.bounds later
        rw [List.getElem?_append_right (by omega), length]
        have place : index - begin - (finish - begin) = index - finish := by omega
        rw [place]
        exact ih tail (fun extent listed => lengths extent (List.mem_cons_of_mem _ listed)) later

/-- A list that is made of one piece for each extent is as long as all extents together. -/
theorem Tiles.length_flatMap {α : Type} {first last : Nat} {extents : List (Nat × Nat)}
    (tiles : Tiles first extents last) {piece : Nat × Nat → List α}
    (lengths : ∀ extent ∈ extents, (piece extent).length = extent.2 - extent.1) :
    (extents.flatMap piece).length = last - first := by
  induction extents generalizing first with
  | nil =>
      obtain rfl := tiles
      simp
  | cons head rest ih =>
      have length := lengths head List.mem_cons_self
      obtain ⟨rfl, nonempty, tail⟩ := tiles
      have remaining := tail.le
      rw [List.flatMap_cons, List.length_append, length,
        ih tail fun extent listed => lengths extent (List.mem_cons_of_mem _ listed)]
      omega

end BlockGraph

namespace FlowGraph

variable {code : Sequence}

def allIns (graph : BlockGraph) : List (List FlowRef) :=
  (graph.blocks.toList.map (LocalFlow.ofBlock graph.code)).flatMap LocalFlow.instructionIns

def outputsOf (boundary : DataFlow) (index : Nat) : List FlowRef :=
  (boundary.outs.zipIdx.filter fun entry => entry.1 = .instruction index).map
    fun entry => .output entry.2

def consumersOf (ins : List (List FlowRef)) (index : Nat) : List FlowRef :=
  ins.zipIdx.flatMap fun (refs, consumer) =>
    (refs.filter (· = .instruction index)).map fun _ => .instruction consumer

/-- An instruction that is left at the end of a block provides the outputs of its places. -/
theorem filter_offers (flow : LocalFlow) (index : Nat) :
    (flow.offers.filter (·.1 = index)).map Prod.snd = outputsOf flow.boundary index := by
  rw [LocalFlow.offers, LocalFlow.boundary, outputsOf, List.zipIdx_map]
  simp [List.filter_map, Function.comp_def]

/-- Each operand that an instruction produced adds its consumer. -/
theorem filter_takings (ins : List (List FlowRef)) (index : Nat) :
    ((takings ins).filter (·.1 = index)).map Prod.snd = consumersOf ins index := by
  have own (refs : List FlowRef) (consumer : Nat) :
      ((refs.filterMap fun ref =>
        ref.producer?.map (·, FlowRef.instruction consumer)).filter (·.1 = index)).map Prod.snd =
        (refs.filter (· = .instruction index)).map fun _ => .instruction consumer := by
    induction refs with
    | nil => rfl
    | cons ref rest ih =>
        cases ref with
        | instruction producer =>
            by_cases same : producer = index <;>
              simpa [FlowRef.producer?, same] using ih
        | _ => simpa [FlowRef.producer?] using ih
  rw [takings, consumersOf, List.filter_flatMap, List.map_flatMap]
  exact congrArg (ins.zipIdx.flatMap ·) (funext fun entry => own entry.1 entry.2)

/-- An instruction has its operands, and what the blocks and the instructions take from it. -/
theorem getElem?_instructions (graph : BlockGraph) (index : Nat) :
    (ofBlocks graph).instructions[index]? = (allIns graph)[index]?.map fun refs =>
      { ins := refs
        outs := (graph.blocks.toList.flatMap fun block =>
            outputsOf (LocalFlow.ofBlock graph.code block).boundary index) ++
          consumersOf (allIns graph) index } := by
  simp only [ofBlocks, List.getElem?_toArray, List.getElem?_zipWith, Array.getElem?_toList]
  rw [getElem?_pushEach, Array.getElem?_replicate, ← allIns]
  cases found : (allIns graph)[index]? with
  | none => rfl
  | some refs =>
      rw [if_pos (List.getElem?_eq_some_iff.mp found).1]
      simp [filter_takings, List.filter_flatMap, List.map_flatMap, List.flatMap_map, filter_offers]

def extentIns (code : Sequence) (extent : Nat × Nat) : List (List FlowRef) :=
  (LocalFlow.ofBlock code (BlockGraph.blockOfExtent code 0 extent.1 extent.2)).instructionIns

theorem allIns_ofCode (code : Sequence) :
    allIns (.ofCode code) = (BlockGraph.extents code).flatMap (extentIns code) := by
  have flows : (BlockGraph.ofCode code).blocks.toList.map (LocalFlow.ofBlock code) =
      (BlockGraph.extents code).map fun extent =>
        LocalFlow.ofBlock code (BlockGraph.blockOfExtent code 0 extent.1 extent.2) := by
    refine List.ext_getElem? fun place => ?_
    rw [List.getElem?_map, Array.getElem?_toList, BlockGraph.getElem?_blocks, List.getElem?_map,
      Option.map_map]
    rfl
  rw [allIns, BlockGraph.code_ofCode, flows, List.flatMap_map]
  rfl

theorem present_indices {block : Block} (within : block.start + block.length ≤ code.length) :
    LocalFlow.Present code block.indices := by
  refine LocalFlow.present_of_subset fun other listed => ?_
  simp only [Block.indices, List.mem_range'_1] at listed
  omega

theorem length_extentIns {extent : Nat × Nat} (listed : extent ∈ BlockGraph.extents code) :
    (extentIns code extent).length = extent.2 - extent.1 := by
  have bounds := (BlockGraph.tiles_extents code).bounds listed
  refine LocalFlow.length_instructionIns (present_indices ?_)
  simp only [BlockGraph.blockOfExtent]
  omega

theorem length_allIns (code : Sequence) : (allIns (.ofCode code)).length = code.length := by
  rw [allIns_ofCode]
  exact (BlockGraph.tiles_extents code).length_flatMap fun extent => length_extentIns

theorem getElem?_allIns {number index : Nat} {block : Block} {instruction : Instruction}
    (present : (BlockGraph.ofCode code).blocks[number]? = some block)
    (inside : index ∈ block.indices) (found : code.instruction? index = some instruction) :
    (allIns (.ofCode code))[index]? = some ((LocalFlow.operandsAt code block index instruction).map
      (LocalFlow.ofBlock code block).origin) := by
  have own := LocalFlow.getElem?_instructionIns (present_indices (BlockGraph.end_le present))
    inside found
  obtain ⟨start, stop, extent, -, -, rfl⟩ := BlockGraph.exists_extent present
  have range : start ≤ index ∧ index < stop := by
    simp only [Block.indices, BlockGraph.blockOfExtent, List.mem_range'_1] at inside
    omega
  have place := (BlockGraph.tiles_extents code).getElem?_flatMap (fun extent => length_extentIns)
    (List.mem_of_getElem? extent) range.1 range.2
  rw [allIns_ofCode]
  exact place.trans own

/-- The flow of an instruction lists the origins of its operands. -/
theorem ins_instructionFlow {flow : FlowGraph} (padded : flow.PadsBlocks (.ofCode code))
    {number index : Nat} {block : Block} {instruction : Instruction}
    (present : (BlockGraph.ofCode code).blocks[number]? = some block)
    (inside : index ∈ block.indices) (found : code.instruction? index = some instruction) :
    (flow.instructionFlow index).ins =
      (LocalFlow.operandsAt code block index instruction).map
        (LocalFlow.ofBlock code block).origin := by
  rw [instructionFlow, padded.instructions_eq, getElem?_instructions,
    getElem?_allIns present inside found]
  rfl

/-- What an instruction takes from its own block comes from an instruction before it. -/
theorem producer_lt {flow : FlowGraph} (padded : flow.PadsBlocks (.ofCode code))
    {number index producer : Nat} {block : Block}
    (present : (BlockGraph.ofCode code).blocks[number]? = some block)
    (inside : index ∈ block.indices)
    (taken : .instruction producer ∈ (flow.instructionFlow index).ins) :
    producer ∈ block.indices ∧ producer < index := by
  obtain ⟨instruction, found⟩ := Sequence.exists_instruction (BlockGraph.lt_length present inside)
  rw [ins_instructionFlow padded present inside found] at taken
  obtain ⟨operand, listed, origin⟩ := List.mem_map.mp taken
  cases operand with
  | below earlier => cases origin
  | produced other =>
      obtain rfl := FlowRef.instruction.inj origin
      have before := LocalFlow.mem_of_produced listed
      simp only [Block.indices, Block.indicesBefore, List.mem_range'_1] at before inside ⊢
      omega

end FlowGraph
end StackCode
