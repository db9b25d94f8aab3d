import StackCode.Proofs.Graph.Origins
import StackCode.Proofs.Values.Sites

/-!
# What the assembly of a value graph holds

The pieces of all blocks are added one after the other, and then joined along
the edges of the block graph.  If the flow graph is balanced nothing fails, and
the nodes and the edges of the result are those of the sites and of the joins.
-/

namespace StackCode

open ValueGraph

namespace Site

/-- The sites of some blocks, the numbers of each after those of the one before. -/
def layOut (flow : FlowGraph) : Nat → List (Nat × Block) → List Site
  | _, [] => []
  | first, (number, block) :: rest =>
      let site : Site := ⟨first, number, block⟩
      site :: layOut flow (site.next flow) rest

variable {flow : FlowGraph}

theorem first_le_next (site : Site) : site.first ≤ site.next flow := by
  unfold next
  omega

theorem mem_merge {site : Site} {id : Nat} (listed : id ∈ site.merge flow) : id = site.first := by
  unfold merge at listed
  split at listed
  · exact List.mem_singleton.mp listed
  · cases listed

/-- The nodes of a piece: instructions, a merge, and phis. -/
theorem mem_nodes {site : Site} {id : Nat} {kind : NodeKind} :
    (id, kind) ∈ site.nodes flow ↔
      (id, kind) ∈ instructionNodes flow.graph.code site.block.indices ∨
      (id ∈ site.merge flow ∧ kind = .merge) ∨ (id ∈ site.inputs flow ∧ kind = .phi) := by
  simp only [nodes, List.mem_append, List.mem_map, Prod.mk.injEq, or_assoc]
  constructor
  · rintro (instruction | ⟨merge, listed, rfl, rfl⟩ | ⟨phi, listed, rfl, rfl⟩)
    · exact .inl instruction
    · exact .inr (.inl ⟨listed, rfl⟩)
    · exact .inr (.inr ⟨listed, rfl⟩)
  · rintro (instruction | ⟨listed, rfl⟩ | ⟨listed, rfl⟩)
    · exact .inl instruction
    · exact .inr (.inl ⟨id, listed, rfl, rfl⟩)
    · exact .inr (.inr ⟨id, listed, rfl, rfl⟩)

theorem numbered_index {site : Site} (ready : site.Ready flow) {index : Nat}
    (inside : index ∈ site.block.indices) : Numbered (site.nodes flow) index := by
  obtain ⟨kind, listed⟩ := numbered_instructionNodes inside (ready.inside index inside)
  exact ⟨kind, mem_nodes.mpr (.inl listed)⟩

theorem numbered_input {site : Site} {phi : Nat} (listed : phi ∈ site.inputs flow) :
    Numbered (site.nodes flow) phi :=
  ⟨.phi, mem_nodes.mpr (.inr (.inr ⟨listed, rfl⟩))⟩

theorem numbered_chain {site : Site} (ready : site.Ready flow) {id : Nat}
    (listed : id ∈ site.chain flow) : Numbered (site.nodes flow) id := by
  rcases List.mem_append.mp listed with merge | fixed
  · exact ⟨.merge, mem_nodes.mpr (.inr (.inl ⟨merge, rfl⟩))⟩
  · exact numbered_index ready (mem_fixedInstructions fixed)

theorem numbered_head {site : Site} (ready : site.Ready flow)
    (nonempty : site.block.start ∈ site.block.indices) :
    Numbered (site.nodes flow) (site.piece flow).head := by
  unfold piece
  cases first : (site.chain flow).head? with
  | none => exact numbered_index ready nonempty
  | some id => exact numbered_chain ready (List.mem_of_head? first)

theorem numbered_tail {site : Site} (ready : site.Ready flow)
    (nonempty : site.block.start ∈ site.block.indices) :
    Numbered (site.nodes flow) (site.piece flow).tail := by
  unfold piece
  cases last : (site.chain flow).getLast? with
  | none => exact numbered_index ready nonempty
  | some id => exact numbered_chain ready (List.mem_of_getLast? last)

/-- The node of an output is an instruction of the block or one of its phis. -/
theorem mem_of_mem_outputs {site : Site} (ready : site.Ready flow) {value : Nat}
    (listed : value ∈ site.outputs flow) :
    value ∈ site.block.indices ∨ value ∈ site.inputs flow := by
  obtain ⟨ref, offered, provided⟩ := List.mem_filterMap.mp listed
  rcases ready.provided ref offered with ⟨producer, inside, rfl⟩ | ⟨taken, other⟩
  · obtain rfl := Option.some.inj provided
    exact .inl inside
  · cases ref with
    | instruction index => exact absurd rfl (other index)
    | _ => exact .inr (List.mem_of_getElem? provided)

/-- A node of a piece is an instruction of the block or has a number of the site's own. -/
theorem mem_indices_or_first_le {site : Site} {id : Nat}
    (numbered : Numbered (site.nodes flow) id) :
    id ∈ site.block.indices ∨ site.first ≤ id := by
  obtain ⟨kind, listed⟩ := numbered
  rcases mem_nodes.mp listed with instruction | ⟨merge, -⟩ | ⟨phi, -⟩
  · exact .inl (mem_instructionNodes.mp instruction).1
  · exact .inr (Nat.le_of_eq (mem_merge merge).symm)
  · have low := (List.mem_range'_1.mp phi).1
    exact .inr (by omega)

end Site

namespace ValueGraph

open Site

variable {graph : ValueGraph} {flow : FlowGraph}

/-- Blocks are added by the edits of their pieces, which may all be made. -/
theorem Holds.addBlocks {first : Nat} {nodes : List (Nat × NodeKind)} {edges : List Edge}
    (holds : graph.Holds flow first nodes edges) {entries : List (Nat × Block)}
    (room : flow.graph.code.length ≤ first)
    (ready : ∀ entry ∈ entries, ∀ first, Site.Ready flow ⟨first, entry.1, entry.2⟩)
    (fresh : ∀ entry ∈ entries, ∀ index ∈ entry.2.indices, ¬ Numbered nodes index)
    (disjoint : entries.Pairwise fun one other =>
      ∀ index ∈ one.2.indices, index ∉ other.2.indices) :
    ValueGraph.addBlocks entries graph = .ok ((layOut flow first entries).map (Site.piece flow),
      graph.replay ((layOut flow first entries).flatMap (Site.edits flow))) ∧
    graph.Reaches ((layOut flow first entries).flatMap (Site.edits flow)) fun grown =>
      ∃ next, grown.Holds flow next
        (nodes ++ (layOut flow first entries).flatMap (Site.nodes flow))
        (edges ++ proper ((layOut flow first entries).flatMap (Site.edges flow))) := by
  induction entries generalizing graph first nodes edges with
  | nil => exact ⟨rfl, trivial, first, by simpa [layOut, proper] using holds⟩
  | cons entry rest ih =>
      obtain ⟨number, block⟩ := entry
      obtain ⟨own, others⟩ := List.forall_mem_cons.mp ready
      obtain ⟨new, fresh⟩ := List.forall_mem_cons.mp fresh
      obtain ⟨apart, disjoint⟩ := List.pairwise_cons.mp disjoint
      let site : Site := ⟨first, number, block⟩
      have here : site.Ready flow := own first
      have below (index : Nat) (inside : index ∈ block.indices) : index < first :=
        Nat.lt_of_lt_of_le (here.inside index inside) room
      have start : graph.Holds flow site.first nodes edges := holds
      have reached := start.reaches_site here below new
      have fresh' (entry : Nat × Block) (listed : entry ∈ rest) (index : Nat)
          (inside : index ∈ entry.2.indices) :
          ¬ Numbered (nodes ++ site.nodes flow) index := by
        rintro ⟨kind, mem⟩
        rcases List.mem_append.mp mem with old | piece
        · exact fresh entry listed index inside ⟨kind, old⟩
        · rcases mem_indices_or_first_le ⟨kind, piece⟩ with shared | high
          · exact apart entry listed index shared inside
          · have low := (others entry listed first).inside index inside
            have high : first ≤ index := high
            omega
      have rest_added {grown : ValueGraph} (holds : grown.Holds flow (site.next flow)
          (nodes ++ site.nodes flow) (edges ++ proper (site.edges flow))) :=
        ih holds (Nat.le_trans room site.first_le_next) others fresh' disjoint
      have complete := reached.append fun grown holds => (rest_added holds).2
      rw [List.append_assoc, List.append_assoc, ← proper_append] at complete
      refine ⟨?_, complete⟩
      have added := addBlock_eq here holds.flow_eq holds.next_eq
      rw [ValueGraph.addBlocks, added]
      simp only [bind, Except.bind, (rest_added reached.2).1]
      rw [layOut, List.flatMap_cons, replay_append]
      rfl

/-! ## Joins -/

theorem Holds.withStart {next : Nat} {nodes : List (Nat × NodeKind)} {edges : List Edge}
    (holds : graph.Holds flow next nodes edges) (start : Nat) :
    ({ graph with start } : ValueGraph).Holds flow next nodes edges where
  flow_eq := holds.flow_eq
  next_eq := holds.next_eq
  sound := holds.sound.withStart start
  bounded := holds.bounded
  kinds := holds.kinds
  ins := holds.ins

theorem Holds.reaches_start {next : Nat} {nodes : List (Nat × NodeKind)} {edges : List Edge}
    (holds : graph.Holds flow next nodes edges) (start : Nat) :
    graph.Reaches [.start start] (·.Holds flow next nodes edges) :=
  ⟨⟨trivial, trivial⟩, holds.withStart start⟩

/-- Steps that each add some edges together add all of them. -/
theorem foldlM_connectEach {α : Type} {items : List α}
    {step : ValueGraph → α → Except GraphError ValueGraph} {edgesOf : α → List Edge}
    (adds : ∀ item ∈ items, ∀ graph, step graph item = .ok (graph.connectEach (edgesOf item)))
    (graph : ValueGraph) :
    items.foldlM step graph = .ok (graph.connectEach (items.flatMap edgesOf)) := by
  induction items generalizing graph with
  | nil => rfl
  | cons item rest ih =>
      obtain ⟨first, others⟩ := List.forall_mem_cons.mp adds
      rw [List.foldlM_cons, first graph, List.flatMap_cons, connectEach_append, ← ih others]
      rfl

def controlEdges (pieces : Array Piece) (entry : Nat × Block) : List Edge :=
  entry.2.successors.map fun successor =>
    ⟨(pieceOf pieces entry.1).tail, (pieceOf pieces successor).head, .control⟩

def passEdges (pieces : Array Piece) (entry : Nat × Block) (output : Nat × Nat) : List Edge :=
  entry.2.successors.flatMap fun successor =>
    (pieceOf pieces successor).inputs[output.2]?.toList.map fun phi =>
      ⟨output.1, phi, .data (.predecessor (pieceOf pieces entry.1).tail)⟩

def dataEdges (pieces : Array Piece) (entry : Nat × Block) : List Edge :=
  (pieceOf pieces entry.1).outputs.zipIdx.flatMap (passEdges pieces entry)

theorem foldl_joinControl (pieces : Array Piece) (entries : List (Nat × Block))
    (graph : ValueGraph) :
    entries.foldl (joinControl pieces) graph =
      graph.connectEach (entries.flatMap (controlEdges pieces)) := by
  induction entries generalizing graph with
  | nil => rfl
  | cons entry rest ih =>
      have here : joinControl pieces graph entry =
          graph.connectEach (controlEdges pieces entry) := by
        rw [joinControl, connectEach, controlEdges, List.foldl_map]
      rw [List.foldl_cons, ih, here, List.flatMap_cons, connectEach_append]

/-- If every successor has as many phis as the block has outputs, nothing is left over. -/
theorem joinData_eq {pieces : Array Piece} {entry : Nat × Block}
    (agree : ∀ successor ∈ entry.2.successors,
      (pieceOf pieces successor).inputs.length = (pieceOf pieces entry.1).outputs.length)
    (graph : ValueGraph) :
    joinData pieces graph entry = .ok (graph.connectEach (dataEdges pieces entry)) := by
  refine foldlM_connectEach (fun output listed graph => ?_) graph
  obtain ⟨value, place⟩ := output
  refine foldlM_connectEach (fun successor reached graph => ?_) graph
  have inside : place < (pieceOf pieces successor).inputs.length := by
    rw [agree successor reached]
    simpa using (List.mem_zipIdx listed).2.1
  simp only [passValue, List.getElem?_eq_getElem inside]
  rfl

/-! ## The whole graph -/

def sites (flow : FlowGraph) : List Site :=
  layOut flow (firstSynthetic flow.graph.code.length) flow.graph.numbered

def pieces (flow : FlowGraph) : Array Piece :=
  ((sites flow).map (Site.piece flow)).toArray

def allNodes (flow : FlowGraph) : List (Nat × NodeKind) :=
  (sites flow).flatMap (Site.nodes flow)

/-- The edges of the assembled graph, in the order in which they are added. -/
def allEdges (flow : FlowGraph) : List Edge :=
  proper ((sites flow).flatMap (Site.edges flow) ++
    flow.graph.numbered.flatMap (controlEdges (pieces flow)) ++
    flow.graph.numbered.flatMap (dataEdges (pieces flow)))

def startOf (flow : FlowGraph) : Nat :=
  (((sites flow).map (Site.piece flow)).head?.map Piece.head).getD 0

def assemblyEdits (flow : FlowGraph) : List Edit :=
  (sites flow).flatMap (Site.edits flow) ++ [.start (startOf flow)] ++
    (flow.graph.numbered.flatMap (controlEdges (pieces flow))).map .connect ++
    (flow.graph.numbered.flatMap (dataEdges (pieces flow))).map .connect

theorem map_layOut (flow : FlowGraph) (first : Nat) (entries : List (Nat × Block)) :
    (layOut flow first entries).map (fun site => (site.number, site.block)) = entries := by
  induction entries generalizing first with
  | nil => rfl
  | cons entry rest ih =>
      rw [layOut, List.map_cons, ih]

theorem getElem?_numbered (graph : BlockGraph) (number : Nat) :
    graph.numbered[number]? = graph.blocks[number]?.map fun block => (number, block) := by
  rw [BlockGraph.numbered, List.getElem?_map, List.getElem?_zipIdx, Array.getElem?_toList,
    Nat.zero_add, Option.map_map]
  rfl

/-- The sites are those of the blocks, in order. -/
theorem getElem?_sites {number : Nat} {site : Site} (found : (sites flow)[number]? = some site) :
    site.number = number ∧ flow.graph.blocks[number]? = some site.block := by
  have same := congrArg (fun entries => entries[number]?)
    (map_layOut flow (firstSynthetic flow.graph.code.length) flow.graph.numbered)
  rw [List.getElem?_map, show (layOut flow _ flow.graph.numbered)[number]? = some site from found,
    getElem?_numbered, Option.map_some] at same
  obtain ⟨block, present, pair⟩ := Option.map_eq_some_iff.mp same.symm
  obtain ⟨rfl, rfl⟩ := Prod.mk.inj pair
  exact ⟨rfl, present⟩

theorem exists_site {number : Nat} {block : Block}
    (present : flow.graph.blocks[number]? = some block) :
    ∃ site, (sites flow)[number]? = some site ∧ site.number = number ∧ site.block = block := by
  have same := congrArg (fun entries => entries[number]?)
    (map_layOut flow (firstSynthetic flow.graph.code.length) flow.graph.numbered)
  rw [List.getElem?_map, getElem?_numbered, present, Option.map_some] at same
  obtain ⟨site, found, pair⟩ := Option.map_eq_some_iff.mp same
  obtain ⟨number_eq, block_eq⟩ := Prod.mk.inj pair
  exact ⟨site, found, number_eq, block_eq⟩

theorem pieceOf_pieces {number : Nat} {site : Site} (found : (sites flow)[number]? = some site) :
    pieceOf (pieces flow) number = site.piece flow := by
  simp [pieceOf, pieces, found]

section Accepted

variable {code : Sequence} (padded : flow.PadsBlocks (.ofCode code))
include padded

theorem lt_length {number index : Nat} {block : Block}
    (present : (BlockGraph.ofCode code).blocks[number]? = some block)
    (inside : index ∈ block.indices) : index < flow.graph.code.length := by
  rw [padded.graph_eq]
  exact BlockGraph.lt_length present inside

theorem ready {number : Nat} {block : Block}
    (present : (BlockGraph.ofCode code).blocks[number]? = some block) (first : Nat) :
    Site.Ready flow ⟨first, number, block⟩ where
  inside index inside := lt_length padded present inside
  produced index inside producer taken := FlowGraph.producer_lt padded present inside taken
  provided ref offered := by
    obtain ⟨passes, -, same⟩ := padded.block number block present
    simp only [boundary, same, DataFlow.through] at offered ⊢
    rcases List.mem_append.mp offered with pass | own
    · refine .inr ⟨List.mem_append_left _ pass, fun index => ?_⟩
      obtain ⟨number, -, rfl⟩ := List.mem_map.mp pass
      simp
    · obtain ⟨producer, pushed, rfl⟩ := List.mem_map.mp own
      exact .inl ⟨producer, LocalFlow.mem_of_mem_stack (List.mem_reverse.mp pushed), rfl⟩

/-- The block of a site is the block of its number. -/
theorem present_of_found {number : Nat} {site : Site} (found : (sites flow)[number]? = some site) :
    (BlockGraph.ofCode code).blocks[number]? = some site.block := by
  rw [← padded.graph_eq]
  exact (getElem?_sites found).2

theorem ready_of_found {number : Nat} {site : Site} (found : (sites flow)[number]? = some site) :
    site.Ready flow := by
  obtain ⟨rfl, -⟩ := getElem?_sites found
  exact ready padded (present_of_found padded found) site.first

theorem disjoint_numbered :
    flow.graph.numbered.Pairwise fun one other =>
      ∀ index ∈ one.2.indices, index ∉ other.2.indices := by
  refine List.pairwise_iff_getElem.mpr fun first second low high before index inside shared => ?_
  have one := List.getElem?_eq_getElem low
  have other := List.getElem?_eq_getElem high
  rw [getElem?_numbered] at one other
  obtain ⟨block, present, same⟩ := Option.map_eq_some_iff.mp one
  obtain ⟨block', present', same'⟩ := Option.map_eq_some_iff.mp other
  rw [← same] at inside
  rw [← same'] at shared
  rw [padded.graph_eq] at present present'
  have equal := (BlockGraph.block_unique present inside present' shared).1
  omega

/-- Every block has a site, and its piece is where the joins look for it. -/
theorem exists_ready_site {number : Nat} {block : Block}
    (present : (BlockGraph.ofCode code).blocks[number]? = some block) :
    ∃ site, (sites flow)[number]? = some site ∧ site.block = block ∧
      site.boundary flow = flow.blockFlow number ∧
      pieceOf (pieces flow) number = site.piece flow ∧ site.Ready flow := by
  rw [← padded.graph_eq] at present
  obtain ⟨site, found, rfl, rfl⟩ := exists_site present
  rw [padded.graph_eq] at present
  exact ⟨site, found, rfl, rfl, pieceOf_pieces found, ready padded present site.first⟩

omit padded in
theorem numbered_allNodes {number id : Nat} {site : Site}
    (found : (sites flow)[number]? = some site) (own : Numbered (site.nodes flow) id) :
    Numbered (allNodes flow) id := by
  obtain ⟨kind, listed⟩ := own
  exact ⟨kind, List.mem_flatMap.mpr ⟨site, List.mem_of_getElem? found, listed⟩⟩

/-- An entry of the table and one of its successors belong to two sites. -/
theorem exists_linked_sites {number successor : Nat} {block : Block}
    (entry : (number, block) ∈ flow.graph.numbered) (reached : successor ∈ block.successors) :
    ∃ site following, (sites flow)[number]? = some site ∧ site.block = block ∧
      pieceOf (pieces flow) number = site.piece flow ∧
      (sites flow)[successor]? = some following ∧
      pieceOf (pieces flow) successor = following.piece flow := by
  have present := FlowGraph.mem_numbered.mp entry
  rw [padded.graph_eq] at present
  obtain ⟨following, present'⟩ := BlockGraph.exists_successor present reached
  obtain ⟨site, found, same, -, piece, -⟩ := exists_ready_site padded present
  obtain ⟨site', found', -, -, piece', -⟩ := exists_ready_site padded present'
  exact ⟨site, site', found, same, piece, found', piece'⟩

/-- An edge of control between blocks leads from the tail of one to the head of a successor. -/
theorem mem_controlEdges {edge : Edge} :
    edge ∈ flow.graph.numbered.flatMap (controlEdges (pieces flow)) ↔
      ∃ (number successor : Nat) (site following : Site),
        (sites flow)[number]? = some site ∧ successor ∈ site.block.successors ∧
        (sites flow)[successor]? = some following ∧
        edge = ⟨(site.piece flow).tail, (following.piece flow).head, .control⟩ := by
  constructor
  · intro listed
    obtain ⟨⟨number, block⟩, entry, joined⟩ := List.mem_flatMap.mp listed
    obtain ⟨successor, reached, rfl⟩ := List.mem_map.mp joined
    obtain ⟨site, site', found, rfl, piece, found', piece'⟩ :=
      exists_linked_sites padded entry reached
    exact ⟨number, successor, site, site', found, reached, found', by rw [piece, piece']⟩
  · rintro ⟨number, successor, site, following, found, reached, found', rfl⟩
    have present := (getElem?_sites found).2
    refine List.mem_flatMap.mpr ⟨(number, site.block), FlowGraph.mem_numbered.mpr present, ?_⟩
    refine List.mem_map.mpr ⟨successor, reached, ?_⟩
    rw [pieceOf_pieces found, pieceOf_pieces found']

theorem controlEdges_ends :
    ∀ edge ∈ flow.graph.numbered.flatMap (controlEdges (pieces flow)),
      Numbered (allNodes flow) edge.source ∧ Numbered (allNodes flow) edge.target := by
  intro edge listed
  obtain ⟨number, successor, site, following, found, -, found', rfl⟩ :=
    (mem_controlEdges padded).mp listed
  have present := present_of_found padded found
  have present' := present_of_found padded found'
  exact ⟨numbered_allNodes found (numbered_tail (ready_of_found padded found)
      (BlockGraph.start_mem_indices present)),
    numbered_allNodes found' (numbered_head (ready_of_found padded found')
      (BlockGraph.start_mem_indices present'))⟩

/-- An edge of data between blocks leads from an output to the phi of a successor at its place. -/
theorem mem_dataEdges {edge : Edge} :
    edge ∈ flow.graph.numbered.flatMap (dataEdges (pieces flow)) ↔
      ∃ (number successor place value phi : Nat) (site following : Site),
        (sites flow)[number]? = some site ∧ successor ∈ site.block.successors ∧
        (sites flow)[successor]? = some following ∧ (site.outputs flow)[place]? = some value ∧
        (following.inputs flow)[place]? = some phi ∧
        edge = ⟨value, phi, .data (.predecessor (site.piece flow).tail)⟩ := by
  constructor
  · intro listed
    obtain ⟨⟨number, block⟩, entry, joined⟩ := List.mem_flatMap.mp listed
    obtain ⟨⟨value, place⟩, output, passed⟩ := List.mem_flatMap.mp joined
    obtain ⟨successor, reached, taken⟩ := List.mem_flatMap.mp passed
    obtain ⟨phi, input, rfl⟩ := List.mem_map.mp taken
    obtain ⟨site, site', found, rfl, piece, found', piece'⟩ :=
      exists_linked_sites padded entry reached
    dsimp only at output input ⊢
    rw [piece, List.mem_zipIdx_iff_getElem?] at output
    rw [piece', Option.mem_toList] at input
    exact ⟨number, successor, place, value, phi, site, site', found, reached, found', output,
      input, by rw [piece]⟩
  · rintro ⟨number, successor, place, value, phi, site, following, found, reached, found', output,
      input, rfl⟩
    have present := (getElem?_sites found).2
    refine List.mem_flatMap.mpr ⟨(number, site.block), FlowGraph.mem_numbered.mpr present, ?_⟩
    refine List.mem_flatMap.mpr ⟨(value, place), ?_, ?_⟩
    · rw [pieceOf_pieces found, List.mem_zipIdx_iff_getElem?]
      exact output
    · refine List.mem_flatMap.mpr ⟨successor, reached, List.mem_map.mpr ⟨phi, ?_, ?_⟩⟩
      · rw [pieceOf_pieces found', Option.mem_toList]
        exact input
      · rw [pieceOf_pieces found]

theorem dataEdges_ends :
    ∀ edge ∈ flow.graph.numbered.flatMap (dataEdges (pieces flow)),
      Numbered (allNodes flow) edge.source ∧ Numbered (allNodes flow) edge.target := by
  intro edge listed
  obtain ⟨number, successor, place, value, phi, site, following, found, reached, found', output,
    input, rfl⟩ := (mem_dataEdges padded).mp listed
  refine ⟨numbered_allNodes found ?_,
    numbered_allNodes found' (numbered_input (List.mem_of_getElem? input))⟩
  have ready := ready_of_found padded found
  rcases mem_of_mem_outputs ready (List.mem_of_getElem? output) with inside | phi
  · exact numbered_index ready inside
  · exact numbered_input phi

/-- The pieces of all blocks are added without failure, by edits that may all be made. -/
theorem addBlocks_replays :
    addBlocks flow.graph.numbered (empty flow) = .ok ((sites flow).map (Site.piece flow),
      (empty flow).replay ((sites flow).flatMap (Site.edits flow))) ∧
    (empty flow).Reaches ((sites flow).flatMap (Site.edits flow)) fun grown =>
      ∃ next, grown.Holds flow next (allNodes flow)
        (proper ((sites flow).flatMap (Site.edges flow))) := by
  have ready (entry : Nat × Block) (listed : entry ∈ flow.graph.numbered) :=
    ready padded (padded.graph_eq ▸ FlowGraph.mem_numbered.mp listed)
  have added := (Holds.empty flow).addBlocks (length_le_firstSynthetic _) ready
    (fun entry listed index inside => by rintro ⟨kind, mem⟩; cases mem) (disjoint_numbered padded)
  rw [List.nil_append, List.nil_append] at added
  exact added

/-- The pieces of all blocks are added without failure, and they are those of the sites. -/
theorem addBlocks_ok :
    ∃ grown next, addBlocks flow.graph.numbered (empty flow) =
        .ok ((sites flow).map (Site.piece flow), grown) ∧
      grown.Holds flow next (allNodes flow) (proper ((sites flow).flatMap (Site.edges flow))) := by
  obtain ⟨added, -, next, holds⟩ := addBlocks_replays padded
  exact ⟨_, next, added, holds⟩

variable (balanced : flow.Balanced)
include balanced

/-- A block has as many outputs as each of its successors has phis. -/
theorem outputs_agree {entry : Nat × Block} (listed : entry ∈ flow.graph.numbered) :
    ∀ successor ∈ entry.2.successors, (pieceOf (pieces flow) successor).inputs.length =
      (pieceOf (pieces flow) entry.1).outputs.length := by
  intro successor reached
  have found := FlowGraph.mem_numbered.mp listed
  have agreed := balanced.edge entry.1 entry.2 found successor reached
  rw [padded.graph_eq] at found
  obtain ⟨following, present⟩ := BlockGraph.exists_successor found reached
  obtain ⟨site, -, -, boundary, piece, ready⟩ := exists_ready_site padded found
  obtain ⟨site', -, -, boundary', piece', -⟩ := exists_ready_site padded present
  rw [piece, piece']
  refine site'.length_inputs.trans ?_
  rw [boundary', agreed, ← boundary]
  exact ready.length_outputs.symm

/-- A balanced flow graph is assembled without failure, by edits that may all be made. -/
theorem assemble_replays :
    assemble flow = .ok ((empty flow).replay (assemblyEdits flow)) ∧
    (empty flow).Reaches (assemblyEdits flow) fun graph =>
      ∃ next, graph.Holds flow next (allNodes flow) (allEdges flow) := by
  obtain ⟨added, reached⟩ := addBlocks_replays padded
  obtain ⟨permits, next, holds⟩ := reached
  have reached : (empty flow).Reaches ((sites flow).flatMap (Site.edits flow))
      (·.Holds flow next (allNodes flow) (proper ((sites flow).flatMap (Site.edges flow)))) :=
    ⟨permits, holds⟩
  have complete := ((reached.append fun grown holds => holds.reaches_start (startOf flow)).append
    fun grown holds => holds.reaches_connect (controlEdges_ends padded)).append
    fun grown holds => holds.reaches_connect (dataEdges_ends padded)
  rw [← proper_append, ← proper_append] at complete
  refine ⟨?_, complete.1, next, complete.2⟩
  unfold assemble
  simp only [added, bind, Except.bind]
  rw [assemblyEdits, replay_append, replay_append, replay_append, replay_connect, replay_connect,
    ← foldl_joinControl]
  exact foldlM_connectEach
    (fun entry listed => joinData_eq (outputs_agree padded balanced listed)) _

/-- A balanced flow graph is assembled without failure. -/
theorem assemble_ok :
    ∃ graph next, assemble flow = .ok graph ∧
      graph.Holds flow next (allNodes flow) (allEdges flow) := by
  obtain ⟨assembled, -, next, holds⟩ := assemble_replays padded balanced
  exact ⟨_, next, assembled, holds⟩

end Accepted

end ValueGraph
end StackCode
