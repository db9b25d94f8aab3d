import StackCode.Proofs.Assembling
import StackCode.Proofs.Graph.Control

/-!
# Blocks divide the code

The block graph of an assembled sequence without handlers exists.  Its blocks lie
end to end, and none is empty.  A block begins where control can enter from
elsewhere, the tables say which block holds an instruction, and the two ends of
an edge list each other once.
-/

namespace StackCode.BlockGraph

def span (block : Block) : Nat × Nat :=
  (block.start, block.start + block.length)

/-- Control may enter at the index from the start, along a branch or after a condition. -/
def Entered (code : Sequence) (index : Nat) : Prop :=
  index = 0 ∨ (∃ source, index ∈ code.branchTargets source) ∨
    ∃ source instruction, code.instruction? source = some instruction ∧
      instruction.fallsThrough = true ∧ index = source + 1

/-- The block after another, if control may go on there from its last instruction. -/
def follower (graph : BlockGraph) (number last : Nat) : List Nat :=
  match graph.code.instruction? last with
  | some instruction =>
      if (instruction.branches = false ∧ instruction.leaves = false ∨
          instruction.fallsThrough = true) ∧ number + 1 < graph.blocks.size then
        [number + 1]
      else []
  | none => []

/--
The blocks of a graph divide the code.  All indices that are looked up in a table
on the way are within the table.
-/
structure Divides (graph : BlockGraph) (code : Sequence) : Prop where
  code_eq : graph.code = code
  /-- The blocks lie end to end over the whole code, and none is empty. -/
  tiles : Tiles 0 (graph.blocks.toList.map span) code.length
  begins : ∀ index, (∃ (number : Nat) (block : Block),
      graph.blocks[number]? = some block ∧ block.start = index) ↔
    index < code.length ∧ Entered code index
  containing : ∀ index number, graph.blockContaining? index = some number ↔
    ∃ block, graph.blocks[number]? = some block ∧
      block.start ≤ index ∧ index < block.start + block.length
  starting : ∀ index number, graph.blockStartingAt? index = some number ↔
    ∃ block, graph.blocks[number]? = some block ∧ block.start = index
  held : graph.blockOf.size = code.length
  aimed : ∀ index, ∀ target ∈ code.branchTargets index, target < code.length
  successors_lt : ∀ (number : Nat) (block : Block), graph.blocks[number]? = some block →
    ∀ successor ∈ block.successors, successor < graph.blocks.size
  /-- The blocks of the targets in order, then the next block; of equal ones the first is kept. -/
  successors : ∀ (number : Nat) (block : Block), graph.blocks[number]? = some block →
    block.successors.Nodup ∧ ∃ targets : List Nat,
      targets.map some = (code.branchTargets block.last).map graph.blockContaining? ∧
      block.successors = (targets ++ graph.follower number block.last).eraseDups
  predecessors : ∀ (number : Nat) (block : Block), graph.blocks[number]? = some block →
    block.predecessors.Nodup ∧ ∀ predecessor, predecessor ∈ block.predecessors ↔
      ∃ before, graph.blocks[predecessor]? = some before ∧ number ∈ before.successors

variable {code : Sequence}

/-! ## Where blocks begin and end -/

theorem map_span_blocks (code : Sequence) :
    (ofCode code).blocks.toList.map span = extents code := by
  apply List.ext_getElem?
  intro number
  rw [List.getElem?_map, Array.getElem?_toList, getElem?_blocks]
  cases found : (extents code)[number]? with
  | none => rfl
  | some extent =>
      have bounds := (tiles_extents code).bounds (List.mem_of_getElem? found)
      have stop : extent.1 + (extent.2 - extent.1) = extent.2 := by omega
      simp [span, blockOfExtent, stop]

theorem size_blocks (code : Sequence) : (ofCode code).blocks.size = (extents code).length := by
  rw [← map_span_blocks, List.length_map, Array.length_toList]

theorem mem_leaders_iff {index : Nat} :
    index ∈ leaders code ↔ (∃ source, index ∈ code.branchTargets source) ∨
      ∃ source instruction, code.instruction? source = some instruction ∧
        instruction.fallsThrough = true ∧ index = source + 1 := by
  simp only [leaders, List.mem_flatMap, List.mem_range, List.mem_append]
  constructor
  · rintro ⟨source, inside, aimed | next⟩
    · exact .inl ⟨source, aimed⟩
    · obtain ⟨instruction, found⟩ := Sequence.exists_instruction inside
      by_cases conditional : instruction.fallsThrough = true
      · simp only [found, conditional, if_true, List.mem_singleton] at next
        exact .inr ⟨source, instruction, found, conditional, next⟩
      · simp [found, conditional] at next
  · rintro (⟨source, aimed⟩ | ⟨source, instruction, found, conditional, rfl⟩)
    · exact ⟨source, Sequence.lt_length_of_target aimed, .inl aimed⟩
    · exact ⟨source, Sequence.lt_length found, .inr (by simp [found, conditional])⟩

theorem begins_iff {index : Nat} :
    (∃ (number : Nat) (block : Block),
      (ofCode code).blocks[number]? = some block ∧ block.start = index) ↔
    index < code.length ∧ Entered code index := by
  rw [← mem_starts_iff, mem_starts, mem_leaders_iff, Entered]

/-! ## Tables -/

theorem Tiles.length_assigned {first last : Nat} {extents : List (Nat × Nat)}
    (tiles : Tiles first extents last) (offset : Nat) :
    ((extents.zipIdx offset).flatMap fun ((start, stop), number) =>
      List.replicate (stop - start) number).length = last - first := by
  induction extents generalizing first offset with
  | nil =>
      obtain rfl := tiles
      simp
  | cons head rest ih =>
      obtain ⟨rfl, nonempty, tail⟩ := tiles
      have remaining := tail.le
      rw [List.zipIdx_cons, List.flatMap_cons, List.length_append, ih tail, List.length_replicate]
      omega

/-- The table gives a block for every instruction. -/
theorem size_blockOf (code : Sequence) : (ofCode code).blockOf.size = code.length := by
  have length := (tiles_extents code).length_assigned 0
  simpa [ofCode, assignment] using length

theorem containing_iff {index number : Nat} :
    (ofCode code).blockContaining? index = some number ↔
      ∃ block, (ofCode code).blocks[number]? = some block ∧
        block.start ≤ index ∧ index < block.start + block.length := by
  simp only [blockContaining?, blockOf_eq_some_iff, Block.indices, List.mem_range'_1]

theorem starting_iff {index number : Nat} :
    (ofCode code).blockStartingAt? index = some number ↔
      ∃ block, (ofCode code).blocks[number]? = some block ∧ block.start = index := by
  have reduced : (ofCode code).blockStartingAt? index = some number ↔
      (ofCode code).blockContaining? index = some number ∧
        ∃ block, (ofCode code).blocks[number]? = some block ∧ block.start = index := by
    simp only [blockStartingAt?, Option.bind_eq_bind, Option.bind_eq_some_iff]
    constructor
    · rintro ⟨other, held, block, present, begins⟩
      split at begins
      · obtain rfl := Option.some.inj begins
        exact ⟨held, block, present, ‹_›⟩
      · cases begins
    · rintro ⟨held, block, present, begins⟩
      exact ⟨number, held, block, present, if_pos begins⟩
  rw [reduced]
  constructor
  · exact And.right
  · rintro ⟨block, present, rfl⟩
    have inside := start_mem_indices present
    exact ⟨blockOf_eq_some_iff.mpr ⟨block, present, inside⟩, block, present, rfl⟩

/-! ## Edges -/

/-- Behind an extent lies the next one, or the end. -/
theorem Tiles.next {first last : Nat} {extents : List (Nat × Nat)}
    (tiles : Tiles first extents last) {number start stop : Nat}
    (found : extents[number]? = some (start, stop)) :
    (∃ beyond, extents[number + 1]? = some (stop, beyond)) ∨
      number + 1 = extents.length ∧ stop = last := by
  induction extents generalizing first number with
  | nil => cases found
  | cons head rest ih =>
      obtain ⟨rfl, -, tail⟩ := tiles
      cases number with
      | zero =>
          obtain rfl := Option.some.inj found
          cases rest with
          | nil => exact .inr ⟨rfl, tail⟩
          | cons second others =>
              obtain ⟨rfl, -, -⟩ := tail
              exact .inl ⟨second.2, rfl⟩
      | succ number =>
          rcases ih tail found with ⟨beyond, next⟩ | ⟨length, done⟩
          · exact .inl ⟨beyond, next⟩
          · exact .inr ⟨by rw [List.length_cons, length], done⟩

/-- The instruction after a block lies in the next block, if there is one. -/
theorem blockOf_after {number : Nat} {block : Block}
    (found : (ofCode code).blocks[number]? = some block) :
    (ofCode code).blockOf[block.last + 1]? =
      if number + 1 < (ofCode code).blocks.size then some (number + 1) else none := by
  obtain ⟨start, stop, extent, nonempty, -, rfl⟩ := exists_extent found
  have after : (blockOfExtent code number start stop).last + 1 = stop := by
    simp only [Block.last, blockOfExtent]
    omega
  rw [after, size_blocks]
  rcases (tiles_extents code).next extent with ⟨beyond, next⟩ | ⟨length, rfl⟩
  · have more : number + 1 < (extents code).length := (List.getElem?_eq_some_iff.mp next).1
    have bounds := (tiles_extents code).bounds (List.mem_of_getElem? next)
    rw [if_pos more]
    exact getElem?_assignment.mpr ⟨stop, beyond, next, Nat.le_refl _, bounds.2.1⟩
  · rw [if_neg (Nat.not_lt.mpr (Nat.le_of_eq length.symm)),
      Array.getElem?_eq_none (Nat.le_of_eq (size_blockOf code))]

theorem successors_eq {number : Nat} {block : Block}
    (found : (ofCode code).blocks[number]? = some block) :
    block.successors = ((code.branchTargets block.last).filterMap
      (fun target => (ofCode code).blockOf[target]?) ++
        (ofCode code).follower number block.last).eraseDups := by
  have after := blockOf_after found
  obtain ⟨start, stop, extent, nonempty, -, rfl⟩ := exists_extent found
  rw [last_blockOfExtent nonempty] at after ⊢
  have table : (ofCode code).blockOf = assignment (extents code) := rfl
  rw [table] at after ⊢
  simp only [blockOfExtent, successorsAt, follower, code_ofCode]
  congr 2
  cases code.instruction? (stop - 1) with
  | none => rfl
  | some instruction =>
      dsimp only
      rw [after]
      by_cases more : number + 1 < (ofCode code).blocks.size <;>
        simp [more, Instruction.continues]

/-- A block is listed once at most by each block after it. -/
theorem nodup_predecessors {number : Nat} {block : Block}
    (found : (ofCode code).blocks[number]? = some block) : block.predecessors.Nodup := by
  obtain ⟨start, stop, -, -, -, rfl⟩ := exists_extent found
  have counted := List.zipIdx_map_snd 0 (allSuccessors code)
  have kept : List.Sublist
      (((allSuccessors code).zipIdx.filter fun entry => entry.1.contains number).map Prod.snd)
      (List.range' 0 (allSuccessors code).length) := by
    rw [← counted]
    exact List.filter_sublist.map _
  exact kept.nodup List.nodup_range'

/-- The blocks of a sequence of which all branches hit divide it. -/
theorem divides_ofCode (aimed : ∀ index, ∀ target ∈ code.branchTargets index,
    target < code.length) : (ofCode code).Divides code where
  code_eq := rfl
  tiles := by
    rw [map_span_blocks]
    exact tiles_extents code
  begins index := begins_iff
  containing index number := containing_iff
  starting index number := starting_iff
  held := size_blockOf code
  aimed := aimed
  successors_lt number block found successor listed := by
    obtain ⟨following, present⟩ := exists_successor found listed
    exact (Array.getElem?_eq_some_iff.mp present).1
  successors number block found := by
    have same := successors_eq found
    constructor
    · exact nodup_successors found
    · refine ⟨_, map_some_filterMap fun target listed => ?_, same⟩
      have inside := aimed _ target listed
      rw [← size_blockOf] at inside
      rw [blockContaining?, Array.getElem?_eq_getElem inside]
      rfl
  predecessors number block found :=
    ⟨nodup_predecessors found, fun predecessor => mem_predecessors_iff found⟩

/-- A branch of a sequence that was built has all its targets within the sequence. -/
theorem lt_length_of_built {assembly : Assembly} (built : assembly.build = .ok code)
    {index target : Nat} (aimed : target ∈ code.branchTargets index) : target < code.length := by
  obtain ⟨instruction, found⟩ :=
    Sequence.exists_instruction (Sequence.lt_length_of_target aimed)
  simp only [Sequence.branchTargets, found, List.mem_filterMap] at aimed
  obtain ⟨label, tried, bound⟩ := aimed
  obtain ⟨target', bound', inside⟩ := Assembly.exists_target built found tried
  obtain rfl := Option.some.inj (bound.symm.trans bound')
  exact inside

/-- Every sequence without handlers that was built has a block graph, which divides it. -/
theorem build_divides {assembly : Assembly} (built : assembly.build = .ok code)
    (plain : code.handlers = []) :
    ∃ graph, build code = .ok graph ∧ graph.Divides code := by
  refine ⟨ofCode code, ?_, divides_ofCode fun index target => lt_length_of_built built⟩
  rw [build, plain]
  rfl

/-- The steps of a choice of which two cases are the same, and of a condition without effect. -/
def sameCases : List AssemblyStep :=
  [.newLabel, .newLabel, .newLabel, .emit .putOne,
    .emit (.caseDispatch [(.integer 1, 0), (.integer 2, 1)] 2), .bind 0, .bind 1, .emit .putOne,
    .emit (.branchIf 2), .bind 2, .emit .putNil, .emit .leave]

/-- Blocks that are aimed at twice are listed once, in the order in which they are tried. -/
theorem build_divides_sameCases :
    ∃ code graph, (Assembly.top.applyAll sameCases).build = .ok code ∧ code.handlers = [] ∧
      build code = .ok graph ∧ graph.Divides code ∧
      graph.blocks.toList.map Block.successors = [[1, 2], [2], []] := by
  have built : (Assembly.top.applyAll sameCases).build =
      .ok (Assembly.top.applyAll sameCases).finished := rfl
  have plain : (Assembly.top.applyAll sameCases).finished.handlers = [] := rfl
  obtain ⟨graph, done, divides⟩ := build_divides built plain
  refine ⟨_, graph, built, plain, done, divides, ?_⟩
  obtain rfl := ofCode_of_build done
  rfl

end StackCode.BlockGraph
