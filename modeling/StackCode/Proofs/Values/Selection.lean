import StackCode.Proofs.Values.NormalForm

/-!
# What phis select

A phi stands for a place of the stack where a block begins.  For each block before,
it receives one value, labelled with the last node of that block: whatever the
block may leave at the place.  The value is missing only where the phi would
receive itself.  The cleanup gives values other sources and drops some, but what
feeds them stays the same.
-/

namespace StackCode

/-- Some walk that ends in the block leaves the tag at a place, counted from the bottom. -/
def BlockGraph.Delivers (graph : BlockGraph) (number place supplier : Nat) : Prop :=
  ∃ block stack, graph.blocks[number]? = some block ∧ graph.Walk number stack ∧
    (graph.code.runTags stack block.indices).reverse[place]? = some supplier

namespace Site

/-- The last instruction of a block with side effects, else its merge, else its first one. -/
def tail (flow : FlowGraph) (site : Site) : Nat :=
  match (ValueGraph.fixedInstructions flow.graph.code site.block).getLast?, site.merge flow with
  | some last, _ => last
  | none, merge :: _ => merge
  | none, [] => site.block.start

theorem tail_piece (flow : FlowGraph) (site : Site) : (site.piece flow).tail = site.tail flow := by
  have single : site.merge flow = [] ∨ site.merge flow = [site.first] := by
    unfold Site.merge
    split
    · exact .inr rfl
    · exact .inl rfl
  unfold piece tail chain
  dsimp only
  rw [List.getLast?_append]
  cases (ValueGraph.fixedInstructions flow.graph.code site.block).getLast? with
  | some last => rfl
  | none => rcases single with none | one <;> simp [*]

end Site

namespace ValueGraph

open Site

/-- What is produced feeds the one value of the phi with the label, and nothing else does.  Or the
phi has no value with the label, and what is produced feeds its other values. -/
def Selects (graph : ValueGraph) (phi tail : Nat) (produced : Nat → Prop) : Prop :=
  (∃ edge, graph.labelledEdges phi (.predecessor tail) = [edge] ∧
    ∀ supplier, graph.Feeds supplier edge.source ↔ produced supplier) ∨
  (graph.labelledEdges phi (.predecessor tail) = [] ∧
    ∀ supplier, produced supplier → ∃ edge ∈ graph.insOf phi, graph.Feeds supplier edge.source)

/-- The phi of an input selects once for each block before, and receives nothing else. -/
structure SelectsByBlock (flow : FlowGraph) (blocks : BlockGraph) (graph : ValueGraph)
    (block : Block) (place phi : Nat) : Prop where
  once : ∀ predecessor ∈ block.predecessors, ∃ origin, (sites flow)[predecessor]? = some origin ∧
    graph.Selects phi (origin.tail flow) (blocks.Delivers predecessor place)
  only : ∀ edge ∈ graph.insOf phi, ∃ predecessor ∈ block.predecessors,
    ∃ origin, (sites flow)[predecessor]? = some origin ∧
      edge.kind = .data (.predecessor (origin.tail flow))

variable {code : Sequence} {flow : FlowGraph} {graph : ValueGraph}
  {supplies : Nat → Nat → Nat → Prop} {produced : Nat → Prop}

/-! ## The cleanup -/

/-- What an edge to a node carries is carried as long as the node is left. -/
theorem Reduces.carries {count : Nat} {final : ValueGraph} (reduces : graph.Reduces count final)
    (serves : Serves code supplies graph) {target : Nat} {label : DataLabel}
    (carries : graph.Carries target label produced) (left : final.Live target) :
    final.Carries target label produced := by
  induction reduces with
  | refl => exact carries
  | step before stored done ih =>
      have serves' := before.serves serves
      rcases serves'.bypass?_cases stored done with
        ⟨producer, sole, rewires⟩ | ⟨merge, -, rewires⟩
      · obtain ⟨apart, live⟩ := rewires.live left
        exact (ih live).bypassed_phi serves' sole rewires apart
      · obtain ⟨apart, live⟩ := rewires.live left
        exact (carries_bypassed_merge serves' rewires merge
          (fun _ => control_of_mem_throughEdges) apart).mpr (ih live)

/-- A phi that feeds itself with what is produced has it from its other values. -/
theorem Carries.selects {phi tail : Nat} (known : graph.kindOf? phi = some .phi)
    (carries : graph.Carries phi (.predecessor tail) produced) :
    graph.Selects phi tail produced := by
  refine carries.imp_right (And.imp_right fun itself supplier made => ?_)
  cases (itself supplier).mp made with
  | here other =>
      rw [known] at other
      cases other
  | phi _ listed _ feeds => exact ⟨_, listed, feeds⟩

/-! ## The assembled graph -/

section Accepted

variable (padded : flow.PadsBlocks (.ofCode code)) {bound : Nat}
  (holds : graph.Holds flow bound (allNodes flow) (allEdges flow))

include padded

include holds in
/-- The last node of a block says which block it is. -/
theorem tail_unique {number number' : Nat} {site site' : Site}
    (found : (sites flow)[number]? = some site) (found' : (sites flow)[number']? = some site')
    (same : (site.piece flow).tail = (site'.piece flow).tail) : number = number' := by
  have fixed_ne {number number' : Nat} {site site' : Site}
      (found : (sites flow)[number]? = some site) (found' : (sites flow)[number']? = some site')
      (fixed : (site.piece flow).tail ∈ flow.spine number)
      (merged : site'.merge flow = [(site.piece flow).tail]) : False := by
    obtain ⟨rfl, -⟩ := getElem?_sites found
    exact kindOf?_spine padded holds found fixed (kindOf?_merge holds found' (by simp [merged]))
  rcases tail_cases found with fixed | ⟨merged, -⟩
  · rcases tail_cases found' with fixed' | ⟨merged', -⟩
    · obtain ⟨rfl, -⟩ := getElem?_sites found
      obtain ⟨rfl, -⟩ := getElem?_sites found'
      have inside' := mem_spine padded found' fixed'
      rw [← same] at inside'
      exact (BlockGraph.block_unique (present_of_found padded found)
        (mem_spine padded found fixed) (present_of_found padded found') inside').1
    · exact (fixed_ne found found' fixed (same ▸ merged')).elim
  · rcases tail_cases found' with fixed' | ⟨merged', -⟩
    · exact (fixed_ne found' found fixed' (same ▸ merged)).elim
    · exact (merge_unique found found' merged (same ▸ merged')).1

/-- A phi that a value is passed on to is an input of a successor, at the place of the value. -/
theorem exists_input_of_passed {number successor place phi : Nat} {site : Site}
    (found : (sites flow)[number]? = some site) (reached : successor ∈ site.block.successors)
    (passed : phi ∈ (pieceOf (pieces flow) successor).inputs[place]?.toList) :
    ∃ following, (sites flow)[successor]? = some following ∧
      (following.inputs flow)[place]? = some phi := by
  obtain ⟨_, present⟩ :=
    BlockGraph.exists_successor (present_of_found padded found) reached
  obtain ⟨following, found', -, -, piece, -⟩ := exists_ready_site padded present
  rw [piece, Option.mem_toList] at passed
  exact ⟨following, found', passed⟩

/-- An output of a block is passed on to a phi once, since no successor is listed twice. -/
theorem filter_leads_passEdges {before number place value phi : Nat} {origin site : Site}
    (there : (sites flow)[before]? = some origin) (reached : number ∈ origin.block.successors)
    (found : (sites flow)[number]? = some site)
    (given : (site.inputs flow)[place]? = some phi) :
    (passEdges (pieces flow) (before, origin.block) (value, place)).filter
        (leads phi (.predecessor (origin.piece flow).tail)) =
      [⟨value, phi, .data (.predecessor (origin.piece flow).tail)⟩] := by
  obtain ⟨position, listed⟩ := List.mem_iff_getElem?.mp reached
  unfold passEdges
  rw [List.filter_flatMap, flatMap_eq_of_single listed, pieceOf_pieces found, pieceOf_pieces there]
  · rw [show (site.piece flow).inputs[place]? = some phi from given]
    simp [leads]
  · intro other successor listed' apart
    refine filter_leads_eq_nil fun edge made target _ => apart ?_
    obtain ⟨phi', passed, rfl⟩ := List.mem_map.mp made
    obtain rfl : phi' = phi := target
    obtain ⟨following, found', given'⟩ :=
      exists_input_of_passed padded there (List.mem_of_getElem? listed') passed
    obtain ⟨rfl, -, -⟩ := input_unique found found' given given'
    have within := (List.getElem?_eq_some_iff.mp listed').1
    have different := BlockGraph.nodup_successors (present_of_found padded there)
    exact (List.getElem?_inj within different).mp (listed'.trans listed.symm)

/-- Of the values that a block passes on, one comes to a phi of a successor. -/
theorem filter_leads_dataEdges {before number place value phi : Nat} {origin site : Site}
    (there : (sites flow)[before]? = some origin) (reached : number ∈ origin.block.successors)
    (found : (sites flow)[number]? = some site)
    (output : (origin.outputs flow)[place]? = some value)
    (given : (site.inputs flow)[place]? = some phi) :
    (dataEdges (pieces flow) (before, origin.block)).filter
        (leads phi (.predecessor (origin.piece flow).tail)) =
      [⟨value, phi, .data (.predecessor (origin.piece flow).tail)⟩] := by
  have listed : (pieceOf (pieces flow) before).outputs.zipIdx[place]? = some (value, place) := by
    rw [pieceOf_pieces there, List.getElem?_zipIdx,
      show (origin.piece flow).outputs[place]? = some value from output]
    simp
  unfold dataEdges
  rw [List.filter_flatMap, flatMap_eq_of_single listed]
  · exact filter_leads_passEdges padded there reached found given
  · rintro other ⟨value', place'⟩ listed' apart
    refine filter_leads_eq_nil fun edge made target _ => apart ?_
    obtain ⟨successor, reached', made⟩ := List.mem_flatMap.mp made
    obtain ⟨phi', passed, rfl⟩ := List.mem_map.mp made
    obtain rfl : phi' = phi := target
    obtain ⟨following, found', given'⟩ := exists_input_of_passed padded there reached' passed
    obtain ⟨-, -, rfl⟩ := input_unique found found' given given'
    rw [List.getElem?_zipIdx, Nat.zero_add, Option.map_eq_some_iff] at listed'
    obtain ⟨_, -, same⟩ := listed'
    exact (Prod.mk.inj same).2

include holds

omit padded in
/-- A phi stands for an input of a block. -/
theorem exists_input_of_phi {phi : Nat} (known : graph.kindOf? phi = some .phi) :
    ∃ (number : Nat) (site : Site) (place : Nat),
      (sites flow)[number]? = some site ∧ (site.inputs flow)[place]? = some phi := by
  obtain ⟨number, site, found, own⟩ := exists_site_of_kindOf? holds known
  rcases Site.mem_nodes.mp own with instruction | ⟨-, other⟩ | ⟨given, -⟩
  · obtain ⟨-, _, -, other⟩ := mem_instructionNodes.mp instruction
    cases other
  · cases other
  · obtain ⟨place, given⟩ := List.mem_iff_getElem?.mp given
    exact ⟨number, site, place, found, given⟩

/-- The labels of the phi of an input name the last nodes of the blocks before. -/
theorem exists_predecessor_of_labelled {number place phi tail : Nat} {site : Site}
    (found : (sites flow)[number]? = some site) (given : (site.inputs flow)[place]? = some phi)
    (labelled : graph.Labelled phi tail) :
    ∃ predecessor ∈ site.block.predecessors, ∃ origin,
      (sites flow)[predecessor]? = some origin ∧ tail = origin.tail flow := by
  obtain ⟨predecessor, number', origin, site', there, reached, found', given', rfl⟩ :=
    exists_tail_of_labelled padded holds labelled
  obtain ⟨place', given'⟩ := List.mem_iff_getElem?.mp given'
  obtain ⟨rfl, rfl, rfl⟩ := input_unique found found' given given'
  refine ⟨predecessor, ?_, origin, there, tail_piece flow origin⟩
  exact (BlockGraph.mem_predecessors_iff (present_of_found padded found)).mpr
    ⟨origin.block, present_of_found padded there, reached⟩

/-- A phi has one edge with the label of a block before, unless it would come from the phi. -/
theorem labelledEdges_input {before number place value phi : Nat} {origin site : Site}
    (there : (sites flow)[before]? = some origin) (reached : number ∈ origin.block.successors)
    (found : (sites flow)[number]? = some site)
    (output : (origin.outputs flow)[place]? = some value)
    (given : (site.inputs flow)[place]? = some phi) :
    graph.labelledEdges phi (.predecessor (origin.piece flow).tail) =
      link value phi (.data (.predecessor (origin.piece flow).tail)) := by
  have pieces_only : ((sites flow).flatMap (Site.edges flow)).filter
      (leads phi (.predecessor (origin.piece flow).tail)) = [] := by
    refine filter_leads_eq_nil fun edge listed _ kind => ?_
    obtain ⟨site, -, own⟩ := List.mem_flatMap.mp listed
    obtain ⟨-, _, -, same⟩ := (inner_of_mem_edges own).exists_place kind
    cases same
  have data : (flow.graph.numbered.flatMap (dataEdges (pieces flow))).filter
      (leads phi (.predecessor (origin.piece flow).tail)) =
        [⟨value, phi, .data (.predecessor (origin.piece flow).tail)⟩] := by
    have entry : flow.graph.numbered[before]? = some (before, origin.block) := by
      rw [getElem?_numbered, (getElem?_sites there).2]
      rfl
    rw [List.filter_flatMap, flatMap_eq_of_single entry]
    · exact filter_leads_dataEdges padded there reached found output given
    · rintro other ⟨number', block'⟩ entry' apart
      refine filter_leads_eq_nil fun edge listed _ kind => apart ?_
      rw [getElem?_numbered, Option.map_eq_some_iff] at entry'
      obtain ⟨_, present, same⟩ := entry'
      obtain ⟨rfl, rfl⟩ := Prod.mk.inj same
      obtain ⟨origin', there', -, rfl⟩ := exists_site present
      obtain ⟨output', -, made⟩ := List.mem_flatMap.mp listed
      obtain ⟨successor, -, made⟩ := List.mem_flatMap.mp made
      obtain ⟨phi', -, rfl⟩ := List.mem_map.mp made
      rw [pieceOf_pieces there'] at kind
      have tails := DataLabel.predecessor.inj (EdgeKind.data.inj kind)
      exact tail_unique padded holds there' there tails
  rw [labelledEdges, filter_insOf holds, filter_leads_allEdges, pieces_only, data,
    List.nil_append, proper_cons]
  exact List.append_nil _

variable (balanced : flow.Balanced) (connected : (BlockGraph.ofCode code).Connected)
include balanced connected

/-- What feeds an output of a block is what the block delivers at the place of the output. -/
theorem feeds_output_iff {number place value supplier : Nat} {site : Site}
    (found : (sites flow)[number]? = some site)
    (output : (site.outputs flow)[place]? = some value) :
    graph.Feeds supplier value ↔ (BlockGraph.ofCode code).Delivers number place supplier := by
  have present := present_of_found padded found
  rcases output_cases padded balanced found output with ⟨passed, same⟩ | ⟨own, tag⟩
  · constructor
    · intro feeds
      obtain ⟨stack, walk, left⟩ :=
        walk_of_feeds padded balanced holds connected feeds found passed
      exact ⟨site.block, stack, present, walk, (same stack walk).trans left⟩
    · rintro ⟨block, stack, present', walk, left⟩
      obtain rfl := Option.some.inj (present.symm.trans present')
      exact feeds_of_walk padded balanced holds walk found passed
        ((same stack walk).symm.trans left)
  · obtain ⟨name, known⟩ := kindOf?_index padded holds found own
    rw [feeds_instruction_iff known]
    constructor
    · rintro rfl
      obtain ⟨stack, walk⟩ :=
        (connected number (Array.getElem?_eq_some_iff.mp present).1).exists_walk
      exact ⟨site.block, stack, present, walk, tag stack walk⟩
    · rintro ⟨block, stack, present', walk, left⟩
      obtain rfl := Option.some.inj (present.symm.trans present')
      exact Option.some.inj (left.symm.trans (tag stack walk))

/-- The edge to a phi from a block before carries what that block delivers. -/
theorem carries_input {number predecessor place phi : Nat} {site : Site}
    (found : (sites flow)[number]? = some site) (given : (site.inputs flow)[place]? = some phi)
    (listed : predecessor ∈ site.block.predecessors) :
    ∃ origin, (sites flow)[predecessor]? = some origin ∧
      graph.Carries phi (.predecessor (origin.tail flow))
        ((BlockGraph.ofCode code).Delivers predecessor place) := by
  obtain ⟨block, present, reached⟩ :=
    (BlockGraph.mem_predecessors_iff (present_of_found padded found)).mp listed
  obtain ⟨origin, there, rfl, -, -, -⟩ := exists_ready_site padded present
  obtain ⟨value, output⟩ := exists_output padded balanced there reached found given
  have delivers (supplier : Nat) : graph.Feeds supplier value ↔
      (BlockGraph.ofCode code).Delivers predecessor place supplier :=
    feeds_output_iff padded holds balanced connected there output
  have edges := labelledEdges_input padded holds there reached found output given
  refine ⟨origin, there, ?_⟩
  rw [← tail_piece]
  by_cases itself : value = phi
  · obtain rfl := itself
    refine .inr ⟨by simpa [link] using edges, fun supplier => (delivers supplier).symm⟩
  · exact .inl ⟨_, by simpa [link, itself] using edges, delivers⟩

end Accepted

/-! ## The graph that is built -/

/--
If all blocks of an accepted sequence are reached, each phi that its value graph
has left stands for one input of one block.  For every block before, it receives
what that block delivers at the place of the input, and it receives nothing else.
-/
theorem phis_select_by_predecessor {blocks : BlockGraph}
    (built : BlockGraph.build code = .ok blocks) (accepted : FlowGraph.build blocks = .ok flow)
    (connected : blocks.Connected) :
    ∃ grown values, addBlocks flow.graph.numbered (empty flow) =
        .ok ((sites flow).map (Site.piece flow), grown) ∧ build flow = .ok values ∧
      (∀ phi, values.kindOf? phi = some .phi → ∃ (number : Nat) (site : Site) (place : Nat),
        (sites flow)[number]? = some site ∧ (site.inputs flow)[place]? = some phi) ∧
      ∀ (number : Nat) (block : Block) (site : Site) (place phi : Nat),
        blocks.blocks[number]? = some block → (sites flow)[number]? = some site →
        (site.inputs flow)[place]? = some phi → values.kindOf? phi = some .phi →
        SelectsByBlock flow blocks values block place phi := by
  obtain rfl := BlockGraph.ofCode_of_build built
  obtain ⟨padded, balanced⟩ := FlowGraph.build_ok accepted
  obtain ⟨grown, -, added, -⟩ := addBlocks_ok padded
  obtain ⟨values, done, -⟩ := exists_serving_build padded balanced connected
  obtain ⟨assembled, bound, holds, serves, rfl⟩ := exists_assembled padded balanced done
  have remains := serves.remains.cleanup
  have reduces := Reduces.cleanup assembled
  refine ⟨grown, _, added, done, fun phi left => ?_, ?_⟩
  · exact exists_input_of_phi holds (reduces.kindOf? serves left)
  · intro number block site place phi present found given left
    obtain rfl := Option.some.inj (present.symm.trans (present_of_found padded found))
    constructor
    · intro predecessor listed
      obtain ⟨origin, there, carries⟩ :=
        carries_input padded holds balanced connected found given listed
      exact ⟨origin, there, (reduces.carries serves carries ⟨_, left⟩).selects left⟩
    · intro edge listed
      obtain ⟨⟨tail, kind⟩, -⟩ := remains.serves.label_of_mem left listed
      have labelled := remains.labelled _ _ ⟨edge, listed, kind⟩
      obtain ⟨predecessor, before, origin, there, rfl⟩ :=
        exists_predecessor_of_labelled padded holds found given labelled
      exact ⟨predecessor, before, origin, there, kind⟩

/-- A value that one turn of a loop leaves as it is, and the next one replaces. -/
def renewed : Sequence where
  name := "<compiled>"
  kind := .top
  code := #[.putOne, .putSelf, .branchIf 0, .pop, .putZero, .putSelf, .branchIf 0, .leave]
  labels := #[some 1]
  locals := []
  parameters := .none
  handlers := []

theorem connected_renewed : (BlockGraph.ofCode renewed).Connected :=
  BlockGraph.connected_of_earlier (by decide)

/-- The phi at the head of the loop has the first value and the new one.  It has no edge of the
turn that leaves the value as it is, since that turn hands the phi on to itself. -/
theorem phis_select_by_predecessor_renewed :
    BlockGraph.build renewed = .ok (.ofCode renewed) ∧ (BlockGraph.ofCode renewed).Connected ∧
    ∃ flow values, FlowGraph.build (.ofCode renewed) = .ok flow ∧ build flow = .ok values ∧
      values.kindOf? 1001 = some .phi ∧
      (∃ edge, values.labelledEdges 1001 (.predecessor 6) = [edge] ∧
        ∀ supplier, values.Feeds supplier edge.source ↔
          (BlockGraph.ofCode renewed).Delivers 2 0 supplier) ∧
      values.labelledEdges 1001 (.predecessor 2) = [] ∧
      ∀ supplier, (BlockGraph.ofCode renewed).Delivers 1 0 supplier →
        ∃ edge ∈ values.insOf 1001, values.Feeds supplier edge.source := by
  have built : BlockGraph.build renewed = .ok (.ofCode renewed) := rfl
  have computed : (FlowGraph.build (.ofCode renewed)).toOption.any (fun flow =>
      ((sites flow).map fun site => (site.inputs flow, site.tail flow)) =
        [([], 0), ([1001], 2), ([1002], 6), ([1003], 7)] ∧
      (build flow).toOption.any (fun values => values.kindOf? 1001 = some .phi ∧
        values.labelledEdges 1001 (.predecessor 6) ≠ [] ∧
        values.labelledEdges 1001 (.predecessor 2) = [])) = true := by
    decide +kernel
  obtain ⟨flow, accepted, computed⟩ := exists_of_any computed
  obtain ⟨laid, computed⟩ := of_decide_eq_true computed
  obtain ⟨values, done, computed⟩ := exists_of_any computed
  obtain ⟨left, received, missing⟩ := of_decide_eq_true computed
  obtain ⟨_, values', -, done', -, selects⟩ :=
    phis_select_by_predecessor built accepted connected_renewed
  obtain rfl := Except.ok.inj (done.symm.trans done')
  have entry {number : Nat} {site : Site} (found : (sites flow)[number]? = some site) :
      [([], 0), ([1001], 2), ([1002], 6), ([1003], 7)][number]? =
        some (site.inputs flow, site.tail flow) := by
    rw [← laid, List.getElem?_map, found]
    rfl
  have present : (BlockGraph.ofCode renewed).blocks[1]? = some _ := rfl
  obtain ⟨site, found, -⟩ := exists_ready_site (FlowGraph.build_ok accepted).1 present
  have given := (Prod.mk.inj (Option.some.inj (entry found))).1
  have chosen := selects 1 _ site 0 1001 present found (by rw [← given]; rfl) left
  obtain ⟨turn, at_turn, keeps⟩ := chosen.once 1 (by decide)
  obtain ⟨next, at_next, renews⟩ := chosen.once 2 (by decide)
  rw [← (Prod.mk.inj (Option.some.inj (entry at_turn))).2] at keeps
  rw [← (Prod.mk.inj (Option.some.inj (entry at_next))).2] at renews
  refine ⟨built, connected_renewed, flow, values, accepted, done, left, ?_, missing, ?_⟩
  · exact renews.resolve_right fun none => received none.1
  · rcases keeps with ⟨edge, single, -⟩ | ⟨-, others⟩
    · rw [missing] at single
      cases single
    · exact others

end ValueGraph

end StackCode
