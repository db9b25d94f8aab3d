import StackCode.Proofs.Values.Sources

/-!
# The edges of the assembled graph

Every edge comes from a site or from a join, and its kind says what its ends
are.  Every operand of an instruction has exactly one edge, and every edge into
a phi comes from the output of a block before, at the phi's place.
-/

namespace StackCode.ValueGraph

open Site

variable {flow : FlowGraph}

/-! ## Numbers of phis -/

theorem le_first_of_mem_layOut {first : Nat} {entries : List (Nat × Block)} {site : Site}
    (listed : site ∈ layOut flow first entries) : first ≤ site.first := by
  induction entries generalizing first with
  | nil => cases listed
  | cons entry rest ih =>
      rcases List.mem_cons.mp listed with rfl | later
      · exact Nat.le_refl _
      · exact Nat.le_trans (Site.first_le_next ⟨first, entry.1, entry.2⟩) (ih later)

theorem pairwise_layOut (flow : FlowGraph) (first : Nat) (entries : List (Nat × Block)) :
    (layOut flow first entries).Pairwise fun one other => one.next flow ≤ other.first := by
  induction entries generalizing first with
  | nil => exact List.Pairwise.nil
  | cons entry rest ih =>
      exact List.pairwise_cons.mpr ⟨fun other listed => le_first_of_mem_layOut listed, ih _⟩

theorem getElem?_inputs {site : Site} {place phi : Nat} :
    (site.inputs flow)[place]? = some phi ↔
      place < (site.boundary flow).ins.length ∧
        phi = site.first + (site.merge flow).length + place := by
  rw [inputs, List.getElem?_eq_some_iff]
  simp [eq_comm]

/-- The number of a phi says which input of which block it is. -/
theorem input_unique {number number' place place' phi : Nat} {site site' : Site}
    (found : (sites flow)[number]? = some site) (found' : (sites flow)[number']? = some site')
    (given : (site.inputs flow)[place]? = some phi)
    (given' : (site'.inputs flow)[place']? = some phi) :
    number = number' ∧ site = site' ∧ place = place' := by
  rw [getElem?_inputs] at given given'
  have apart {one other : Nat} {first second : Site} (before : one < other)
      (here : (sites flow)[one]? = some first) (there : (sites flow)[other]? = some second) :
      first.next flow ≤ second.first := by
    obtain ⟨low, rfl⟩ := List.getElem?_eq_some_iff.mp here
    obtain ⟨high, rfl⟩ := List.getElem?_eq_some_iff.mp there
    exact List.pairwise_iff_getElem.mp (pairwise_layOut flow _ _) one other low high before
  rcases Nat.lt_trichotomy number number' with before | rfl | after
  · have order := apart before found found'
    unfold Site.next at order
    omega
  · obtain rfl := Option.some.inj (found.symm.trans found')
    exact ⟨rfl, rfl, by omega⟩
  · have order := apart after found' found
    unfold Site.next at order
    omega

theorem length_le_of_mem_inputs {number phi : Nat} {site : Site}
    (found : (sites flow)[number]? = some site) (given : phi ∈ site.inputs flow) :
    flow.graph.code.length ≤ phi := by
  have room := length_le_firstSynthetic flow.graph.code.length
  have order := le_first_of_mem_layOut (List.mem_of_getElem? found)
  have low := (List.mem_range'_1.mp given).1
  omega

/-! ## What the ends of edges are -/

/-- The ends of an edge are such as its kind requires. -/
def Fits (graph : ValueGraph) (edge : Edge) : Prop :=
  match edge.kind with
  | .control => graph.kindOf? edge.target ≠ some .phi
  | .info => graph.kindOf? edge.target = some .merge
  | .data (.argument _) =>
      graph.kindOf? edge.source ≠ some .merge ∧
        ∃ index name, graph.kindOf? edge.target = some (.instruction index name)
  | .data (.predecessor _) =>
      graph.kindOf? edge.source ≠ some .merge ∧ graph.kindOf? edge.target = some .phi

section Accepted

variable {code : Sequence} (padded : flow.PadsBlocks (.ofCode code))

include padded in
/-- Some different values pass through a block, below what its code takes and leaves. -/
theorem exists_passes {number : Nat} {site : Site} (found : (sites flow)[number]? = some site) :
    ∃ passes : List Nat, passes.Nodup ∧
      site.boundary flow = (LocalFlow.ofBlock code site.block).boundary.through passes := by
  obtain ⟨rfl, -⟩ := getElem?_sites found
  exact padded.block site.number site.block (present_of_found padded found)

theorem nodup_ins_through {passes : List Nat} (different : passes.Nodup) (local_flow : LocalFlow) :
    (local_flow.boundary.through passes).ins.Nodup := by
  refine List.nodup_append.mpr ⟨?_, ?_, ?_⟩
  · exact List.Pairwise.map FlowRef.pass
      (fun one other apart same => apart (FlowRef.pass.inj same)) different
  · exact List.Pairwise.map FlowRef.input
      (fun one other apart same => apart (FlowRef.input.inj same)) List.nodup_range
  · intro first passing second taken same
    obtain ⟨pass, -, rfl⟩ := List.mem_map.mp passing
    obtain ⟨place, -, rfl⟩ := List.mem_map.mp taken
    cases same

theorem producer_not_mem_ins_through {passes : List Nat} {local_flow : LocalFlow}
    (producer : Nat) : .instruction producer ∉ (local_flow.boundary.through passes).ins := by
  simp [DataFlow.through, LocalFlow.boundary]

variable {graph : ValueGraph} {bound : Nat}
  (holds : graph.Holds flow bound (allNodes flow) (allEdges flow))

include holds in
theorem kindOf?_of_mem_nodes {number id : Nat} {site : Site} {kind : NodeKind}
    (found : (sites flow)[number]? = some site) (listed : (id, kind) ∈ site.nodes flow) :
    graph.kindOf? id = some kind :=
  (holds.kinds id kind).mpr (List.mem_flatMap.mpr ⟨site, List.mem_of_getElem? found, listed⟩)

include holds in
theorem kindOf?_input {number phi : Nat} {site : Site} (found : (sites flow)[number]? = some site)
    (given : phi ∈ site.inputs flow) : graph.kindOf? phi = some .phi :=
  kindOf?_of_mem_nodes holds found (mem_nodes.mpr (.inr (.inr ⟨given, rfl⟩)))

include holds in
theorem kindOf?_merge {number merge : Nat} {site : Site}
    (found : (sites flow)[number]? = some site) (merged : merge ∈ site.merge flow) :
    graph.kindOf? merge = some .merge :=
  kindOf?_of_mem_nodes holds found (mem_nodes.mpr (.inr (.inl ⟨merged, rfl⟩)))

include holds in
theorem exists_site_of_kindOf? {id : Nat} {kind : NodeKind} (known : graph.kindOf? id = some kind) :
    ∃ (number : Nat) (site : Site), (sites flow)[number]? = some site ∧
      (id, kind) ∈ site.nodes flow := by
  obtain ⟨site, listed, own⟩ := List.mem_flatMap.mp ((holds.kinds id kind).mp known)
  obtain ⟨number, found⟩ := List.mem_iff_getElem?.mp listed
  exact ⟨number, site, found, own⟩

include padded holds

/-- The nodes of instructions are those of the code, under their indices. -/
theorem kindOf?_instruction_iff {id index : Nat} {name : String} :
    graph.kindOf? id = some (.instruction index name) ↔
      id = index ∧ ∃ instruction, code.instruction? index = some instruction ∧
        name = instruction.nodeName := by
  constructor
  · intro known
    obtain ⟨number, site, found, own⟩ := exists_site_of_kindOf? holds known
    rcases mem_nodes.mp own with instruction | ⟨-, other⟩ | ⟨-, other⟩
    · obtain ⟨inside, read, there, same⟩ := mem_instructionNodes.mp instruction
      obtain ⟨rfl, rfl⟩ := NodeKind.instruction.inj same
      rw [padded.graph_eq] at there
      exact ⟨rfl, read, there, rfl⟩
    · cases other
    · cases other
  · rintro ⟨rfl, instruction, found, rfl⟩
    obtain ⟨number, block, -, present, inside⟩ :=
      BlockGraph.exists_block (Sequence.lt_length found)
    obtain ⟨site, there, rfl, -, -, -⟩ := exists_ready_site padded present
    refine kindOf?_of_mem_nodes holds there (mem_nodes.mpr (.inl ?_))
    rw [padded.graph_eq]
    exact mem_instructionNodes.mpr ⟨inside, instruction, found, rfl⟩

theorem kindOf?_index {number index : Nat} {site : Site}
    (found : (sites flow)[number]? = some site) (inside : index ∈ site.block.indices) :
    ∃ name, graph.kindOf? index = some (.instruction index name) := by
  have present := present_of_found padded found
  have within := lt_length padded present inside
  rw [padded.graph_eq] at within
  obtain ⟨instruction, read⟩ := Sequence.exists_instruction within
  exact ⟨instruction.nodeName,
    (kindOf?_instruction_iff padded holds).mpr ⟨rfl, instruction, read, rfl⟩⟩

/-- No phi acts in a chain of control. -/
theorem kindOf?_chain {number id : Nat} {site : Site} (found : (sites flow)[number]? = some site)
    (linked : id ∈ site.chain flow) : graph.kindOf? id ≠ some .phi := by
  rcases List.mem_append.mp linked with merge | fixed
  · rw [kindOf?_merge holds found merge]
    simp
  · obtain ⟨name, known⟩ := kindOf?_index padded holds found (mem_fixedInstructions fixed)
    rw [known]
    simp

theorem kindOf?_head {number : Nat} {site : Site} (found : (sites flow)[number]? = some site) :
    graph.kindOf? (site.piece flow).head ≠ some .phi := by
  unfold piece
  cases first : (site.chain flow).head? with
  | none =>
      have present := present_of_found padded found
      obtain ⟨name, known⟩ := kindOf?_index padded holds found
        (BlockGraph.start_mem_indices present)
      rw [Option.getD_none, known]
      simp
  | some id => exact kindOf?_chain padded holds found (List.mem_of_head? first)

theorem kindOf?_output {number value : Nat} {site : Site}
    (found : (sites flow)[number]? = some site) (offered : value ∈ site.outputs flow) :
    graph.kindOf? value ≠ some .merge := by
  rcases mem_of_mem_outputs (ready_of_found padded found) offered with inside | phi
  · obtain ⟨name, known⟩ := kindOf?_index padded holds found inside
    rw [known]
    simp
  · rw [kindOf?_input holds found phi]
    simp

omit padded holds in
/-- An edge of the assembled graph is one of a piece or of a join. -/
theorem mem_allEdges_cases {edge : Edge} (listed : edge ∈ allEdges flow) :
    (∃ (number : Nat) (site : Site), (sites flow)[number]? = some site ∧ Inner flow site edge) ∨
    edge ∈ flow.graph.numbered.flatMap (controlEdges (pieces flow)) ∨
    edge ∈ flow.graph.numbered.flatMap (dataEdges (pieces flow)) := by
  rcases List.mem_append.mp (mem_proper.mp listed).1 with front | data
  · rcases List.mem_append.mp front with inner | control
    · obtain ⟨site, mem, own⟩ := List.mem_flatMap.mp inner
      obtain ⟨number, found⟩ := List.mem_iff_getElem?.mp mem
      exact .inl ⟨number, site, found, inner_of_mem_edges own⟩
    · exact .inr (.inl control)
  · exact .inr (.inr data)

theorem fits_inner {number : Nat} {site : Site} {edge : Edge}
    (found : (sites flow)[number]? = some site) (inner : Inner flow site edge) :
    graph.Fits edge := by
  cases inner with
  | control _ linked => exact kindOf?_chain padded holds found linked
  | info _ merged => exact kindOf?_merge holds found merged
  | use given inside _ =>
      obtain ⟨name, known⟩ := kindOf?_index padded holds found inside
      refine ⟨?_, _, name, known⟩
      rw [argumentEdge, kindOf?_input holds found given]
      simp
  | operand inside taken =>
      obtain ⟨name, known⟩ := kindOf?_index padded holds found inside
      have producer := ((ready_of_found padded found).produced _ inside _
        (List.mem_of_getElem? taken)).1
      obtain ⟨name', known'⟩ := kindOf?_index padded holds found producer
      refine ⟨?_, _, name, known⟩
      rw [argumentEdge, known']
      simp

/-- Every edge of the assembled graph has the ends that it should have. -/
theorem fits_allEdges {edge : Edge} (listed : edge ∈ allEdges flow) : graph.Fits edge := by
  rcases mem_allEdges_cases listed with ⟨number, site, found, inner⟩ | control | data
  · exact fits_inner padded holds found inner
  · obtain ⟨number, successor, site, following, -, -, found', rfl⟩ :=
      (mem_controlEdges padded).mp control
    exact kindOf?_head padded holds found'
  · obtain ⟨number, successor, place, value, phi, site, following, found, -, found', output,
      input, rfl⟩ := (mem_dataEdges padded).mp data
    exact ⟨kindOf?_output padded holds found (List.mem_of_getElem? output),
      kindOf?_input holds found' (List.mem_of_getElem? input)⟩

/-- Every value that an instruction receives is one of its operands. -/
theorem place_lt_of_mem_allEdges {edge : Edge} {index : Nat} {instruction : Instruction}
    {label : DataLabel} (listed : edge ∈ allEdges flow)
    (there : code.instruction? index = some instruction) (target : edge.target = index)
    (kind : edge.kind = .data label) : ∃ place < instruction.reads, label = .argument place := by
  have known := (kindOf?_instruction_iff padded holds).mpr ⟨rfl, instruction, there, rfl⟩
  rcases mem_allEdges_cases listed with ⟨number, site, found, inner⟩ | control | data
  · obtain ⟨inside, place, within, rfl⟩ := inner.exists_place kind
    have present := present_of_found padded found
    rw [target] at inside within
    rw [FlowGraph.ins_instructionFlow padded present inside there, List.length_map,
      LocalFlow.length_operandsAt] at within
    exact ⟨place, within, rfl⟩
  · obtain ⟨⟨number, block⟩, -, joined⟩ := List.mem_flatMap.mp control
    obtain ⟨successor, -, rfl⟩ := List.mem_map.mp joined
    cases kind
  · obtain ⟨number, successor, place, value, phi, site, following, -, -, found', -, input,
      rfl⟩ := (mem_dataEdges padded).mp data
    obtain rfl := target
    rw [kindOf?_input holds found' (List.mem_of_getElem? input)] at known
    cases known

/-- The values that a phi receives are the outputs of the blocks before, at the phi's place. -/
theorem exists_output_of_mem_allEdges {edge : Edge} {number place phi : Nat} {site : Site}
    {label : DataLabel} (listed : edge ∈ allEdges flow)
    (found : (sites flow)[number]? = some site)
    (given : (site.inputs flow)[place]? = some phi) (target : edge.target = phi)
    (kind : edge.kind = .data label) :
    ∃ (before : Nat) (origin : Site), (sites flow)[before]? = some origin ∧
      number ∈ origin.block.successors ∧ (origin.outputs flow)[place]? = some edge.source := by
  have known := kindOf?_input holds found (List.mem_of_getElem? given)
  rcases mem_allEdges_cases listed with ⟨_, other, there, inner⟩ | control | data
  · have inside := (inner.exists_place kind).1
    rw [target] at inside
    obtain ⟨name, known'⟩ := kindOf?_index padded holds there inside
    rw [known] at known'
    cases known'
  · obtain ⟨⟨_, block⟩, -, joined⟩ := List.mem_flatMap.mp control
    obtain ⟨successor, -, rfl⟩ := List.mem_map.mp joined
    cases kind
  · obtain ⟨before, successor, place', value, phi', origin, following, there, reached, found',
      output, input, rfl⟩ := (mem_dataEdges padded).mp data
    obtain rfl := target
    obtain ⟨rfl, rfl, rfl⟩ := input_unique found found' given input
    exact ⟨before, origin, there, reached, output⟩

omit holds in
/-- Each output leads to the phi at its place in each successor, unless it is that phi. -/
theorem mem_allEdges_of_output {before number place value phi : Nat} {origin site : Site}
    (there : (sites flow)[before]? = some origin) (reached : number ∈ origin.block.successors)
    (found : (sites flow)[number]? = some site)
    (output : (origin.outputs flow)[place]? = some value)
    (given : (site.inputs flow)[place]? = some phi) (apart : value ≠ phi) :
    (⟨value, phi, .data (.predecessor (origin.piece flow).tail)⟩ : Edge) ∈ allEdges flow :=
  mem_proper.mpr ⟨List.mem_append_right _ ((mem_dataEdges padded).mpr
    ⟨before, number, place, value, phi, origin, site, there, reached, found, output, given, rfl⟩),
    apart⟩

omit holds in
/-- What provides an operand is not the instruction itself. -/
theorem provider_ne {number index place source : Nat} {site : Site} {ref : FlowRef}
    (found : (sites flow)[number]? = some site) (inside : index ∈ site.block.indices)
    (taken : (flow.instructionFlow index).ins[place]? = some ref)
    (provided : outputNode? (site.boundary flow).ins (site.inputs flow) ref = some source) :
    source ≠ index := by
  have ready := ready_of_found padded found
  cases ref with
  | instruction producer =>
      obtain rfl := Option.some.inj provided
      exact Nat.ne_of_lt (ready.produced index inside _ (List.mem_of_getElem? taken)).2
  | _ =>
      have high := length_le_of_mem_inputs found (List.mem_of_getElem? provided)
      have low := ready.inside index inside
      omega

omit padded in
/-- The edges to a node with a label are those that were added. -/
theorem filter_insOf (target : Nat) (label : DataLabel) :
    (graph.insOf target).filter (fun edge => edge.kind = .data label) =
      (allEdges flow).filter (leads target label) := by
  rw [holds.ins, List.filter_filter]
  refine List.filter_congr fun edge _ => ?_
  simp [leads, Bool.and_comm]

omit padded holds in
/-- The edges with a label are within the pieces or pass a value on, since control has no labels. -/
theorem filter_leads_allEdges (target : Nat) (label : DataLabel) :
    (allEdges flow).filter (leads target label) =
      proper (((sites flow).flatMap (Site.edges flow)).filter (leads target label) ++
        (flow.graph.numbered.flatMap (dataEdges (pieces flow))).filter (leads target label)) := by
  have control : (flow.graph.numbered.flatMap (controlEdges (pieces flow))).filter
      (leads target label) = [] := by
    refine filter_leads_eq_nil fun edge listed _ => ?_
    obtain ⟨_, -, joined⟩ := List.mem_flatMap.mp listed
    obtain ⟨successor, -, rfl⟩ := List.mem_map.mp joined
    simp
  have joined : ((sites flow).flatMap (Site.edges flow) ++
      flow.graph.numbered.flatMap (controlEdges (pieces flow)) ++
      flow.graph.numbered.flatMap (dataEdges (pieces flow))).filter (leads target label) =
        ((sites flow).flatMap (Site.edges flow)).filter (leads target label) ++
          (flow.graph.numbered.flatMap (dataEdges (pieces flow))).filter (leads target label) := by
    rw [List.filter_append, List.filter_append, control, List.append_nil]
  rw [allEdges, proper, List.filter_comm, joined, proper]

omit holds in
/-- Every operand of an instruction has exactly one edge, from what provides it. -/
theorem filter_reaches_allEdges {number index place source : Nat} {site : Site} {ref : FlowRef}
    (found : (sites flow)[number]? = some site) (inside : index ∈ site.block.indices)
    (taken : (flow.instructionFlow index).ins[place]? = some ref)
    (provided : outputNode? (site.boundary flow).ins (site.inputs flow) ref = some source) :
    (allEdges flow).filter (reaches index place) = [argumentEdge source index place] := by
  obtain ⟨passes, different, boundary⟩ := exists_passes padded found
  have within : (site.edges flow).filter (reaches index place) =
      [argumentEdge source index place] := by
    rw [filter_reaches_edges _ _ inside taken, provided]
    · rfl
    · rw [boundary]
      exact nodup_ins_through different _
    · rw [boundary]
      exact producer_not_mem_ins_through
  have pieces_only : ((sites flow).flatMap (Site.edges flow)).filter (reaches index place) =
      [argumentEdge source index place] := by
    rw [List.filter_flatMap, flatMap_eq_of_single found, within]
    intro other site' found' apart
    refine filter_reaches_eq_nil fun edge listed target kind => apart ?_
    have inside' := ((inner_of_mem_edges listed).exists_place kind).1
    rw [target] at inside'
    have present := present_of_found padded found
    have present' := present_of_found padded found'
    exact (BlockGraph.block_unique present inside present' inside').1.symm
  have data : (flow.graph.numbered.flatMap (dataEdges (pieces flow))).filter
      (reaches index place) = [] := by
    refine filter_reaches_eq_nil fun edge listed _ => ?_
    obtain ⟨_, _, _, _, _, _, _, -, -, -, -, -, rfl⟩ := (mem_dataEdges padded).mp listed
    simp
  have apart := provider_ne padded found inside taken provided
  rw [reaches_eq_leads] at pieces_only data ⊢
  rw [filter_leads_allEdges, pieces_only, data]
  simp [proper, argumentEdge, apart]

end Accepted

end StackCode.ValueGraph
