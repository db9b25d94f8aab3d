import StackCode.Proofs.Values.Operands

/-!
# What feeds a node

An instruction feeds itself, and it feeds the phis that its value comes to
through other phis.  In the assembled graph the instructions that feed the phi
of an input are the tags that walks to its block leave at the place of the input.
-/

namespace StackCode.ValueGraph

open Site

/-- A way backwards from a node, through phis alone, comes to the supplier. -/
inductive Feeds (graph : ValueGraph) (supplier : Nat) : Nat → Prop where
  | here {index : Nat} {name : String} :
      graph.kindOf? supplier = some (.instruction index name) → Feeds graph supplier supplier
  | phi {id : Nat} {edge : Edge} {label : DataLabel} :
      graph.kindOf? id = some .phi → edge ∈ graph.insOf id → edge.kind = .data label →
      Feeds graph supplier edge.source → Feeds graph supplier id

variable {graph : ValueGraph} {flow : FlowGraph}

/-- Nothing but itself feeds an instruction. -/
theorem feeds_instruction_iff {supplier id index : Nat} {name : String}
    (known : graph.kindOf? id = some (.instruction index name)) :
    graph.Feeds supplier id ↔ supplier = id := by
  constructor
  · intro feeds
    cases feeds with
    | here => rfl
    | phi other =>
        rw [known] at other
        cases other
  · rintro rfl
    exact .here known

/-- The nodes of the first inputs are the first phis. -/
theorem filterMap_first_inputs {first rest : List FlowRef} {inputs : List Nat}
    (different : (first ++ rest).Nodup) (length : inputs.length = (first ++ rest).length) :
    (first.filterMap fun ref => inputs[(first ++ rest).idxOf ref]?) = inputs.take first.length := by
  have place_of {ref : FlowRef} {place : Nat} (found : first[place]? = some ref) :
      place < first.length ∧ (first ++ rest).idxOf ref = place := by
    have within := (List.getElem?_eq_some_iff.mp found).1
    refine ⟨within, idxOf_eq_of_getElem? different ?_⟩
    rw [List.getElem?_append_left within, found]
  have defined (ref : FlowRef) (listed : ref ∈ first) :
      (inputs[(first ++ rest).idxOf ref]?).isSome := by
    obtain ⟨place, found⟩ := List.mem_iff_getElem?.mp listed
    obtain ⟨within, same⟩ := place_of found
    have present : place < inputs.length := by
      rw [length, List.length_append]
      omega
    rw [same, List.getElem?_eq_getElem present]
    rfl
  refine List.ext_getElem? fun place => ?_
  rw [getElem?_filterMap_of_isSome defined]
  cases found : first[place]? with
  | none =>
      have beyond := List.getElem?_eq_none_iff.mp found
      rw [Option.bind_none, List.getElem?_take_eq_none beyond]
  | some ref =>
      obtain ⟨within, same⟩ := place_of found
      rw [Option.bind_some, same, List.getElem?_take_of_lt within]

/-- The outputs of a block are the phis of the values that pass, and then its own results. -/
theorem outputs_eq {code : Sequence} {site : Site} {passes : List Nat} (different : passes.Nodup)
    (boundary : site.boundary flow =
      (LocalFlow.ofBlock code site.block).boundary.through passes) :
    site.outputs flow =
      (site.inputs flow).take passes.length ++
        (LocalFlow.ofBlock code site.block).stack.reverse := by
  have passing := filterMap_first_inputs
    (nodup_ins_through different (LocalFlow.ofBlock code site.block))
    (site.length_inputs.trans (congrArg (fun boundary => boundary.ins.length) boundary))
  rw [List.length_map, List.filterMap_map] at passing
  rw [outputs, boundary, ← passing, DataFlow.through, LocalFlow.boundary, List.filterMap_append,
    List.filterMap_map, List.filterMap_map]
  exact congrArg _ List.filterMap_some

section Accepted

variable {code : Sequence} (padded : flow.PadsBlocks (.ofCode code)) (balanced : flow.Balanced)
  {bound : Nat} (holds : graph.Holds flow bound (allNodes flow) (allEdges flow))

section
include padded balanced

/-- A walk to a block leaves what passes through the block and what its code takes. -/
theorem height_of_walk {number : Nat} {site : Site} {passes stack : List Nat}
    (found : (sites flow)[number]? = some site)
    (through : site.boundary flow =
      (LocalFlow.ofBlock code site.block).boundary.through passes)
    (walk : (BlockGraph.ofCode code).Walk number stack) :
    stack.length = passes.length + (LocalFlow.ofBlock code site.block).taken := by
  have present := present_of_found padded found
  obtain ⟨rfl, -⟩ := getElem?_sites found
  have boundary : flow.blockFlow site.number = site.boundary flow := rfl
  rw [walk.length_eq padded balanced present, boundary, through]
  simp [DataFlow.through, LocalFlow.boundary]

/-- An output of a block is a phi that hands on what is below, or the tag that a walk leaves. -/
theorem output_cases {number place value : Nat} {site : Site}
    (found : (sites flow)[number]? = some site)
    (output : (site.outputs flow)[place]? = some value) :
    ((site.inputs flow)[place]? = some value ∧
      ∀ stack, (BlockGraph.ofCode code).Walk number stack →
        (code.runTags stack site.block.indices).reverse[place]? = stack.reverse[place]?) ∨
    (value ∈ site.block.indices ∧
      ∀ stack, (BlockGraph.ofCode code).Walk number stack →
        (code.runTags stack site.block.indices).reverse[place]? = some value) := by
  obtain ⟨passes, different, through⟩ := exists_passes padded found
  have height {stack : List Nat} (walk : (BlockGraph.ofCode code).Walk number stack) :=
    height_of_walk padded balanced found through walk
  have enough : passes.length ≤ (site.inputs flow).length := by
    rw [length_inputs, through]
    simp [DataFlow.through]
  rw [outputs_eq different through] at output
  rcases Nat.lt_or_ge place passes.length with passing | own
  · rw [List.getElem?_append_left (by simp; omega), List.getElem?_take_of_lt passing] at output
    refine .inl ⟨output, fun stack walk => ?_⟩
    have length := height walk
    rw [LocalFlow.reverse_runTags code site.block length,
      List.getElem?_append_left (by simp; omega), List.getElem?_take_of_lt passing]
  · have counted : ((site.inputs flow).take passes.length).length = passes.length := by
      rw [List.length_take]
      omega
    rw [List.getElem?_append_right (by omega), counted] at output
    refine .inr ⟨LocalFlow.mem_of_mem_stack
      (List.mem_reverse.mp (List.mem_of_getElem? output)), fun stack walk => ?_⟩
    have length := height walk
    have counted' : (stack.reverse.take passes.length).length = passes.length := by
      rw [List.length_take, List.length_reverse]
      omega
    rw [LocalFlow.reverse_runTags code site.block length,
      List.getElem?_append_right (by omega), counted', output]

end

section
include padded holds

/-- What feeds an output of a block feeds the phis that the output leads to. -/
theorem feeds_of_output {before number place value phi supplier : Nat} {origin site : Site}
    (there : (sites flow)[before]? = some origin) (reached : number ∈ origin.block.successors)
    (found : (sites flow)[number]? = some site)
    (output : (origin.outputs flow)[place]? = some value)
    (given : (site.inputs flow)[place]? = some phi) (feeds : graph.Feeds supplier value) :
    graph.Feeds supplier phi := by
  by_cases same : value = phi
  · exact same ▸ feeds
  · have listed := mem_allEdges_of_output padded there reached found output given same
    have known := kindOf?_input holds found (List.mem_of_getElem? given)
    have incoming : (⟨value, phi, .data (.predecessor (origin.piece flow).tail)⟩ : Edge) ∈
        graph.insOf phi := by
      rw [holds.ins]
      exact List.mem_filter.mpr ⟨listed, by simp⟩
    exact .phi known incoming rfl feeds

end

omit holds in
include padded balanced in
/-- A block before has an output at the place of every phi of a block. -/
theorem exists_output {before number place phi : Nat} {origin site : Site}
    (there : (sites flow)[before]? = some origin) (reached : number ∈ origin.block.successors)
    (found : (sites flow)[number]? = some site) (given : (site.inputs flow)[place]? = some phi) :
    ∃ value, (origin.outputs flow)[place]? = some value := by
  have entry : (before, origin.block) ∈ flow.graph.numbered :=
    FlowGraph.mem_numbered.mpr (getElem?_sites there).2
  have agree := outputs_agree padded balanced entry number reached
  rw [pieceOf_pieces found, pieceOf_pieces there] at agree
  have within : place < (origin.outputs flow).length := by
    rw [← show (site.inputs flow).length = (origin.outputs flow).length from agree]
    exact (List.getElem?_eq_some_iff.mp given).1
  exact ⟨_, List.getElem?_eq_getElem within⟩

include padded balanced holds

/-- What a walk leaves at the place of an input feeds the phi of the input. -/
theorem feeds_of_walk {number : Nat} {stack : List Nat}
    (walk : (BlockGraph.ofCode code).Walk number stack) {site : Site} {place supplier phi : Nat}
    (found : (sites flow)[number]? = some site) (given : (site.inputs flow)[place]? = some phi)
    (left : stack.reverse[place]? = some supplier) : graph.Feeds supplier phi := by
  induction walk generalizing site place supplier phi with
  | entry => cases left
  | @step before number block stack walk present reached ih =>
      obtain ⟨origin, there, rfl, -, -, -⟩ := exists_ready_site padded present
      obtain ⟨value, output⟩ := exists_output padded balanced there reached found given
      refine feeds_of_output padded holds there reached found output given ?_
      rcases output_cases padded balanced there output with ⟨passed, same⟩ | ⟨own, tag⟩
      · exact ih there passed ((same stack walk).symm.trans left)
      · obtain rfl := Option.some.inj ((tag stack walk).symm.trans left)
        obtain ⟨name, known⟩ := kindOf?_index padded holds there own
        exact .here known

/-- What feeds the phi of an input is left at its place by some walk. -/
theorem walk_of_feeds (connected : (BlockGraph.ofCode code).Connected) {supplier phi : Nat}
    (feeds : graph.Feeds supplier phi) {number place : Nat} {site : Site}
    (found : (sites flow)[number]? = some site) (given : (site.inputs flow)[place]? = some phi) :
    ∃ stack, (BlockGraph.ofCode code).Walk number stack ∧
      stack.reverse[place]? = some supplier := by
  induction feeds generalizing number place site with
  | here known =>
      rw [kindOf?_input holds found (List.mem_of_getElem? given)] at known
      cases known
  | @phi id edge label _ listed kind feeds ih =>
      rw [holds.ins] at listed
      obtain ⟨listed, target⟩ := List.mem_filter.mp listed
      obtain ⟨before, origin, there, reached, output⟩ :=
        exists_output_of_mem_allEdges padded holds listed found given (of_decide_eq_true target)
          kind
      have present := present_of_found padded there
      rcases output_cases padded balanced there output with ⟨passed, same⟩ | ⟨own, tag⟩
      · obtain ⟨stack, walk, left⟩ := ih there passed
        exact ⟨_, .step walk present reached, (same stack walk).trans left⟩
      · obtain ⟨name, known⟩ := kindOf?_index padded holds there own
        obtain rfl := (feeds_instruction_iff known).mp feeds
        obtain ⟨stack, walk⟩ :=
          (connected before (Array.getElem?_eq_some_iff.mp present).1).exists_walk
        exact ⟨_, .step walk present reached, tag stack walk⟩

omit balanced in
/-- An operand that its block produces is fed by its producer alone. -/
theorem feeds_produced {supplier number index producer : Nat} {site : Site}
    {instruction : Instruction} (found : (sites flow)[number]? = some site)
    (inside : index ∈ site.block.indices)
    (listed : .produced producer ∈ LocalFlow.operandsAt code site.block index instruction) :
    ((∃ stack, (BlockGraph.ofCode code).Walk number stack ∧
        (Operand.produced producer).tag? stack = some supplier) → graph.Feeds supplier producer) ∧
    ((BlockGraph.ofCode code).Connected → graph.Feeds supplier producer →
      ∃ stack, (BlockGraph.ofCode code).Walk number stack ∧
        (Operand.produced producer).tag? stack = some supplier) := by
  have before := LocalFlow.mem_of_produced listed
  have own : producer ∈ site.block.indices := by
    simp only [Block.indicesBefore, Block.indices, List.mem_range'_1] at before inside ⊢
    omega
  obtain ⟨name, known⟩ := kindOf?_index padded holds found own
  rw [feeds_instruction_iff known]
  have present := present_of_found padded found
  constructor
  · rintro ⟨stack, -, tagged⟩
    exact (Option.some.inj tagged).symm
  · rintro connected rfl
    obtain ⟨stack, walk⟩ :=
      (connected number (Array.getElem?_eq_some_iff.mp present).1).exists_walk
    exact ⟨stack, walk, rfl⟩

/-- An operand from below its block is fed by the tags that walks leave at its depth. -/
theorem feeds_below {supplier number phi earlier : Nat} {site : Site} {passes : List Nat}
    (found : (sites flow)[number]? = some site)
    (through : site.boundary flow =
      (LocalFlow.ofBlock code site.block).boundary.through passes)
    (low : earlier < (LocalFlow.ofBlock code site.block).taken)
    (given : (site.inputs flow)[passes.length +
      ((LocalFlow.ofBlock code site.block).taken - 1 - earlier)]? = some phi) :
    ((∃ stack, (BlockGraph.ofCode code).Walk number stack ∧
        (Operand.below earlier).tag? stack = some supplier) → graph.Feeds supplier phi) ∧
    ((BlockGraph.ofCode code).Connected → graph.Feeds supplier phi →
      ∃ stack, (BlockGraph.ofCode code).Walk number stack ∧
        (Operand.below earlier).tag? stack = some supplier) := by
  -- the deepest tag is the first input, so the places count in opposite directions
  have deep {stack : List Nat} (walk : (BlockGraph.ofCode code).Walk number stack) :
      stack.reverse[passes.length +
        ((LocalFlow.ofBlock code site.block).taken - 1 - earlier)]? = stack[earlier]? := by
    have height := height_of_walk padded balanced found through walk
    rw [List.getElem?_reverse (by omega)]
    congr 1
    omega
  constructor
  · rintro ⟨stack, walk, tagged⟩
    exact feeds_of_walk padded balanced holds walk found given ((deep walk).trans tagged)
  · intro connected feeds
    obtain ⟨stack, walk, left⟩ :=
      walk_of_feeds padded balanced holds connected feeds found given
    exact ⟨stack, walk, (deep walk).symm.trans left⟩

omit balanced holds padded in
/-- The phi of an input stands above those of the values that pass through the block. -/
theorem exists_phi_of_below {site : Site} {passes : List Nat} (different : passes.Nodup)
    (through : site.boundary flow =
      (LocalFlow.ofBlock code site.block).boundary.through passes)
    {place : Nat} (low : place < (LocalFlow.ofBlock code site.block).taken) :
    ∃ phi, (site.inputs flow)[passes.length + place]? = some phi ∧
      outputNode? (site.boundary flow).ins (site.inputs flow) (.input place) = some phi := by
  have stands : (site.boundary flow).ins[passes.length + place]? = some (.input place) := by
    rw [through, DataFlow.through, LocalFlow.boundary]
    rw [List.getElem?_append_right (by simp), List.length_map, Nat.add_sub_cancel_left,
      List.getElem?_map, List.getElem?_range low]
    rfl
  have nodup : (site.boundary flow).ins.Nodup := by
    rw [through]
    exact nodup_ins_through different _
  have within : passes.length + place < (site.inputs flow).length := by
    rw [length_inputs]
    exact (List.getElem?_eq_some_iff.mp stands).1
  have position : (site.boundary flow).ins.idxOf (.input place) = passes.length + place :=
    idxOf_eq_of_getElem? nodup stands
  refine ⟨_, List.getElem?_eq_getElem within, ?_⟩
  rw [outputNode?, position, List.getElem?_eq_getElem within]
  intro producer
  simp

/--
What provides an operand is fed by the tags that walks leave where the operand
is taken, and by nothing else if every block is reached.
-/
theorem exists_provider {number index : Nat} {site : Site} {instruction : Instruction}
    {operand : Operand} (found : (sites flow)[number]? = some site)
    (inside : index ∈ site.block.indices) (there : code.instruction? index = some instruction)
    (listed : operand ∈ LocalFlow.operandsAt code site.block index instruction) :
    ∃ source, outputNode? (site.boundary flow).ins (site.inputs flow)
        ((LocalFlow.ofBlock code site.block).origin operand) = some source ∧
      ∀ supplier, ((∃ stack, (BlockGraph.ofCode code).Walk number stack ∧
          operand.tag? stack = some supplier) → graph.Feeds supplier source) ∧
        ((BlockGraph.ofCode code).Connected → graph.Feeds supplier source →
          ∃ stack, (BlockGraph.ofCode code).Walk number stack ∧
            operand.tag? stack = some supplier) := by
  cases operand with
  | produced producer =>
      exact ⟨producer, rfl, fun supplier => feeds_produced padded holds found inside listed⟩
  | below earlier =>
      have low := LocalFlow.lt_taken_of_below inside there listed
      obtain ⟨passes, different, through⟩ := exists_passes padded found
      have within : (LocalFlow.ofBlock code site.block).taken - 1 - earlier <
          (LocalFlow.ofBlock code site.block).taken := by omega
      obtain ⟨phi, given, provided⟩ := exists_phi_of_below different through within
      exact ⟨phi, provided, fun supplier =>
        feeds_below padded balanced holds found through low given⟩

/--
In the assembled graph every operand has one edge.  What supplies the operand
feeds the edge, and nothing else does if every block is reached.
-/
theorem exists_operand_edge {index place : Nat} {instruction : Instruction}
    (there : code.instruction? index = some instruction) (taken : place < instruction.reads) :
    ∃ source, (graph.insOf index).filter (fun edge => edge.kind = .data (.argument place)) =
        [argumentEdge source index place] ∧
      ∀ supplier, ((BlockGraph.ofCode code).Supplies supplier index place →
          graph.Feeds supplier source) ∧
        ((BlockGraph.ofCode code).Connected → graph.Feeds supplier source →
          (BlockGraph.ofCode code).Supplies supplier index place) := by
  obtain ⟨number, block, -, present, inside⟩ :=
    BlockGraph.exists_block (Sequence.lt_length there)
  obtain ⟨site, found, rfl, -, -, -⟩ := exists_ready_site padded present
  have within : place < (LocalFlow.operandsAt code site.block index instruction).length := by
    rw [LocalFlow.length_operandsAt]
    exact taken
  obtain ⟨operand, listed⟩ :
      ∃ operand, (LocalFlow.operandsAt code site.block index instruction)[place]? = some operand :=
    ⟨_, List.getElem?_eq_getElem within⟩
  obtain ⟨source, provided, feeds⟩ := exists_provider padded balanced holds found inside
    there (List.mem_of_getElem? listed)
  refine ⟨source, ?_, fun supplier => ?_⟩
  · have ref : (flow.instructionFlow index).ins[place]? =
        some ((LocalFlow.ofBlock code site.block).origin operand) := by
      rw [FlowGraph.ins_instructionFlow padded present inside there, List.getElem?_map, listed]
      rfl
    rw [filter_insOf holds]
    exact filter_reaches_allEdges padded found inside ref provided
  · rw [BlockGraph.supplies_iff padded balanced present inside there]
    obtain ⟨fed, only⟩ := feeds supplier
    constructor
    · rintro ⟨stack, operand', walk, listed', tagged⟩
      obtain rfl := Option.some.inj (listed.symm.trans listed')
      exact fed ⟨stack, walk, tagged⟩
    · intro connected feeds
      obtain ⟨stack, walk, tagged⟩ := only connected feeds
      exact ⟨stack, operand, walk, listed, tagged⟩

end Accepted

end StackCode.ValueGraph
