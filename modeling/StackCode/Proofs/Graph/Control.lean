import Mathlib.Tactic.ByContra
import StackCode.Proofs.Graph.Tiling

/-!
# Where control goes between blocks

What the block graph of a sequence says about control: which block holds an
instruction, where blocks begin, and which blocks follow each other.  A block
has the successors that its last instruction asks for, and the predecessors that
have it as a successor.
-/

namespace StackCode

/-- Every list gets the items for its place, in order. -/
theorem getElem?_pushEach {α : Type} (lists : Array (List α)) (entries : List (Nat × α))
    (place : Nat) :
    (pushEach lists entries)[place]? =
      lists[place]?.map (· ++ (entries.filter (·.1 = place)).map Prod.snd) := by
  unfold pushEach
  induction entries generalizing lists with
  | nil => simp
  | cons entry rest ih =>
      rw [List.foldl_cons, ih, Array.getElem?_modify]
      by_cases here : entry.1 = place
      · simp [here, Function.comp_def]
      · simp [here]

@[simp] theorem size_pushEach {α : Type} (lists : Array (List α)) (entries : List (Nat × α)) :
    (pushEach lists entries).size = lists.size := by
  unfold pushEach
  induction entries generalizing lists with
  | nil => rfl
  | cons entry rest ih => rw [List.foldl_cons, ih, Array.size_modify]

theorem Sequence.lt_length {code : Sequence} {index : Nat} {instruction : Instruction}
    (found : code.instruction? index = some instruction) : index < code.length :=
  (Array.getElem?_eq_some_iff.mp found).1

theorem Sequence.exists_instruction {code : Sequence} {index : Nat} (inside : index < code.length) :
    ∃ instruction, code.instruction? index = some instruction :=
  ⟨_, Array.getElem?_eq_getElem inside⟩

/-- Only instructions have branch targets. -/
theorem Sequence.lt_length_of_target {code : Sequence} {index target : Nat}
    (aimed : target ∈ code.branchTargets index) : index < code.length := by
  cases found : code.instruction? index with
  | none => simp [Sequence.branchTargets, found] at aimed
  | some instruction => exact Sequence.lt_length found

namespace BlockGraph

variable {code : Sequence}

@[simp]
theorem code_ofCode (code : Sequence) : (ofCode code).code = code := rfl

theorem ofCode_of_build {graph : BlockGraph} (built : build code = .ok graph) :
    graph = ofCode code := by
  unfold build at built
  split at built
  · exact (Except.ok.inj built).symm
  · cases built

/-! ## Blocks that list each other -/

/-- Of equal items only the first one is kept. -/
theorem nodup_eraseDups (list : List Nat) : list.eraseDups.Nodup := by
  induction counted : list.length using Nat.strongRecOn generalizing list with
  | ind count ih =>
      cases list with
      | nil => simp
      | cons head rest =>
          rw [List.eraseDups_cons, List.nodup_cons]
          constructor
          · simp [List.mem_eraseDups]
          · have shorter := List.length_filter_le (fun other => !other == head) rest
            rw [List.length_cons] at counted
            exact ih _ (by omega) _ rfl

def predecessorsOf (successors : List (List Nat)) (block : Nat) : List Nat :=
  (successors.zipIdx.filter fun entry => entry.1.contains block).map Prod.snd

/-- A block that lists another one once adds itself to its predecessors once. -/
theorem getElem?_predecessorLists {successors : List (List Nat)}
    (once : ∀ listed ∈ successors, listed.Nodup) {block : Nat}
    (within : block < successors.length) :
    (predecessorLists successors)[block]? = some (predecessorsOf successors block) := by
  have pushed (entries : List (List Nat × Nat)) (once : ∀ entry ∈ entries, entry.1.Nodup) :
      ((entries.flatMap fun entry => entry.1.map (·, entry.2)).filter (·.1 = block)).map Prod.snd =
        (entries.filter fun entry => entry.1.contains block).map Prod.snd := by
    induction entries with
    | nil => rfl
    | cons entry rest ih =>
        have own : ((entry.1.map (·, entry.2)).filter (·.1 = block)).map Prod.snd =
            List.replicate (entry.1.count block) entry.2 := by
          rw [List.filter_map, List.map_map, Function.comp_def, Function.comp_def, List.filter_eq,
            List.map_replicate]
        rw [List.flatMap_cons, List.filter_append, List.map_append, own,
          ih fun entry listed => once entry (List.mem_cons_of_mem _ listed),
          (once entry List.mem_cons_self).count]
        by_cases listed : block ∈ entry.1 <;> simp [listed]
  rw [predecessorLists, getElem?_pushEach, Array.getElem?_replicate, if_pos within]
  refine congrArg some (pushed successors.zipIdx fun entry listed => once entry.1 ?_)
  exact List.fst_mem_of_mem_zipIdx listed

/-! ## The blocks of a sequence -/

def allSuccessors (code : Sequence) : List (List Nat) :=
  (extents code).map fun extent => successorsAt code (assignment (extents code)) (extent.2 - 1)

theorem nodup_allSuccessors (code : Sequence) :
    ∀ listed ∈ allSuccessors code, listed.Nodup := by
  intro listed mem
  obtain ⟨extent, -, rfl⟩ := List.mem_map.mp mem
  exact nodup_eraseDups _

def blockOfExtent (code : Sequence) (number start stop : Nat) : Block where
  start := start
  length := stop - start
  predecessors := predecessorsOf (allSuccessors code) number
  successors := successorsAt code (assignment (extents code)) (stop - 1)
  leaves := leavesAt code (stop - 1)

theorem getElem?_blocks (number : Nat) :
    (ofCode code).blocks[number]? =
      (extents code)[number]?.map fun extent => blockOfExtent code number extent.1 extent.2 := by
  simp only [ofCode, List.getElem?_toArray, List.getElem?_map, List.getElem?_zipIdx, Nat.zero_add]
  cases found : (extents code)[number]? with
  | none => simp [List.zip, List.getElem?_zipWith, found]
  | some extent =>
      have within : number < (allSuccessors code).length := by
        simpa [allSuccessors] using (List.getElem?_eq_some_iff.mp found).1
      have listed := getElem?_predecessorLists (nodup_allSuccessors code) within
      rw [allSuccessors] at listed
      simp [List.zip, List.getElem?_zipWith, found, blockOfExtent, allSuccessors, listed]

theorem exists_extent {number : Nat} {block : Block}
    (found : (ofCode code).blocks[number]? = some block) :
    ∃ start stop, (extents code)[number]? = some (start, stop) ∧ start < stop ∧
      stop ≤ code.length ∧ block = blockOfExtent code number start stop := by
  rw [getElem?_blocks, Option.map_eq_some_iff] at found
  obtain ⟨⟨start, stop⟩, found, rfl⟩ := found
  have bounds := (tiles_extents code).bounds (List.mem_of_getElem? found)
  exact ⟨start, stop, found, bounds.2.1, bounds.2.2, rfl⟩

theorem last_blockOfExtent {start stop : Nat} (nonempty : start < stop) (number : Nat) :
    (blockOfExtent code number start stop).last = stop - 1 := by
  simp only [Block.last, blockOfExtent]
  omega

theorem length_pos {number : Nat} {block : Block}
    (found : (ofCode code).blocks[number]? = some block) : 0 < block.length := by
  obtain ⟨start, stop, -, nonempty, -, rfl⟩ := exists_extent found
  exact Nat.sub_pos_of_lt nonempty

theorem end_le {number : Nat} {block : Block}
    (found : (ofCode code).blocks[number]? = some block) :
    block.start + block.length ≤ code.length := by
  obtain ⟨start, stop, -, nonempty, inside, rfl⟩ := exists_extent found
  simp only [blockOfExtent]
  omega

theorem lt_length {number index : Nat} {block : Block}
    (present : (ofCode code).blocks[number]? = some block) (inside : index ∈ block.indices) :
    index < code.length := by
  have ends := end_le present
  simp only [Block.indices, List.mem_range'_1] at inside
  omega

/-- The block of an instruction is the one whose extent holds it. -/
theorem blockOf_eq_some_iff {index number : Nat} :
    (ofCode code).blockOf[index]? = some number ↔
      ∃ block, (ofCode code).blocks[number]? = some block ∧ index ∈ block.indices := by
  have held : (ofCode code).blockOf = assignment (extents code) := rfl
  rw [held, getElem?_assignment, getElem?_blocks]
  constructor
  · rintro ⟨start, stop, found, reached, before⟩
    refine ⟨blockOfExtent code number start stop, by rw [found]; rfl, ?_⟩
    simp only [Block.indices, blockOfExtent, List.mem_range'_1]
    omega
  · rintro ⟨block, found, inside⟩
    obtain ⟨⟨start, stop⟩, listed, rfl⟩ := Option.map_eq_some_iff.mp found
    simp only [Block.indices, blockOfExtent, List.mem_range'_1] at inside
    exact ⟨start, stop, listed, by omega, by omega⟩

/-- Every instruction lies in a block. -/
theorem exists_block {index : Nat} (inside : index < code.length) :
    ∃ (number : Nat) (block : Block), (ofCode code).blockOf[index]? = some number ∧
      (ofCode code).blocks[number]? = some block ∧ index ∈ block.indices := by
  have covered : ∀ {first last : Nat} {extents : List (Nat × Nat)}, Tiles first extents last →
      first ≤ index → index < last → ∃ extent ∈ extents, extent.1 ≤ index ∧ index < extent.2 := by
    intro first last extents
    induction extents generalizing first with
    | nil => rintro rfl reached before; omega
    | cons head rest ih =>
        rintro ⟨rfl, nonempty, tail⟩ reached before
        rcases Nat.lt_or_ge index head.2 with here | there
        · exact ⟨head, by simp, reached, here⟩
        · obtain ⟨extent, found, holds⟩ := ih tail there before
          exact ⟨extent, by simp [found], holds⟩
  obtain ⟨⟨start, stop⟩, found, reached, before⟩ :=
    covered (tiles_extents code) (Nat.zero_le _) inside
  obtain ⟨number, found⟩ := List.mem_iff_getElem?.mp found
  have held : (ofCode code).blockOf[index]? = some number :=
    getElem?_assignment.mpr ⟨start, stop, found, reached, before⟩
  obtain ⟨block, present, mem⟩ := blockOf_eq_some_iff.mp held
  exact ⟨number, block, held, present, mem⟩

/-- No two blocks hold an instruction. -/
theorem block_unique {index first second : Nat} {one other : Block}
    (present : (ofCode code).blocks[first]? = some one) (inside : index ∈ one.indices)
    (present' : (ofCode code).blocks[second]? = some other) (inside' : index ∈ other.indices) :
    first = second ∧ one = other := by
  have held := blockOf_eq_some_iff.mpr ⟨one, present, inside⟩
  rw [blockOf_eq_some_iff.mpr ⟨other, present', inside'⟩] at held
  obtain rfl := Option.some.inj held
  exact ⟨rfl, Option.some.inj (present.symm.trans present')⟩

theorem mem_indices {index number : Nat} {block : Block}
    (held : (ofCode code).blockOf[index]? = some number)
    (present : (ofCode code).blocks[number]? = some block) : index ∈ block.indices := by
  obtain ⟨block', present', inside⟩ := blockOf_eq_some_iff.mp held
  rw [present] at present'
  rwa [Option.some.inj present']

theorem start_mem_indices {number : Nat} {block : Block}
    (present : (ofCode code).blocks[number]? = some block) : block.start ∈ block.indices := by
  simp [Block.indices, List.mem_range'_1, length_pos present]

theorem mem_starts_iff {index : Nat} :
    index ∈ starts code ↔
      ∃ (number : Nat) (block : Block),
        (ofCode code).blocks[number]? = some block ∧ block.start = index := by
  rw [← map_fst_extents, List.mem_map]
  constructor
  · rintro ⟨⟨start, stop⟩, found, rfl⟩
    obtain ⟨number, found⟩ := List.mem_iff_getElem?.mp found
    exact ⟨number, blockOfExtent code number start stop, by rw [getElem?_blocks, found]; rfl, rfl⟩
  · rintro ⟨number, block, found, rfl⟩
    obtain ⟨start, stop, listed, -, -, rfl⟩ := exists_extent found
    exact ⟨(start, stop), List.mem_of_getElem? listed, rfl⟩

/-- An index that begins a block is not inside another one. -/
theorem start_of_mem_starts {index number : Nat} {block : Block} (begins : index ∈ starts code)
    (found : (ofCode code).blocks[number]? = some block) (inside : index ∈ block.indices) :
    block.start = index := by
  obtain ⟨number', block', found', rfl⟩ := mem_starts_iff.mp begins
  rw [(block_unique found inside found' (start_mem_indices found')).2]

/-- The first instruction after a block begins the next one. -/
theorem start_after {number next : Nat} {block following : Block}
    (found : (ofCode code).blocks[number]? = some block)
    (present : (ofCode code).blocks[next]? = some following)
    (inside : block.last + 1 ∈ following.indices) : following.start = block.last + 1 := by
  have positive := length_pos found
  have nonempty := length_pos present
  simp only [Block.indices, Block.last, List.mem_range'_1] at inside ⊢
  by_contra off
  -- The last instruction of the block would lie in the following block as well.
  have shared : block.start + block.length - 1 ∈ following.indices := by
    simp only [Block.indices, List.mem_range'_1]
    omega
  have own : block.start + block.length - 1 ∈ block.indices := by
    simp only [Block.indices, List.mem_range'_1]
    omega
  have first := blockOf_eq_some_iff.mpr ⟨block, found, own⟩
  have second := blockOf_eq_some_iff.mpr ⟨following, present, shared⟩
  rw [first] at second
  obtain rfl := Option.some.inj second
  rw [found] at present
  obtain rfl := Option.some.inj present
  omega

/-- Behind a conditional branch a block begins, if there is an instruction left. -/
theorem mem_starts_of_fallsThrough {index : Nat} {instruction : Instruction}
    (found : code.instruction? index = some instruction)
    (conditional : instruction.fallsThrough = true) (inside : index + 1 < code.length) :
    index + 1 ∈ starts code := by
  refine mem_starts.mpr ⟨inside, .inr ?_⟩
  simp only [leaders, List.mem_flatMap, List.mem_range]
  exact ⟨index, by omega, by simp [found, conditional]⟩

/-- Every target of a branch begins a block. -/
theorem mem_starts_of_target {index target : Nat} (aimed : target ∈ code.branchTargets index)
    (inside : target < code.length) : target ∈ starts code := by
  refine mem_starts.mpr ⟨inside, .inr ?_⟩
  simp only [leaders, List.mem_flatMap, List.mem_range]
  exact ⟨index, Sequence.lt_length_of_target aimed, List.mem_append_left _ aimed⟩

/-- A conditional branch is the last instruction of its block. -/
theorem last_of_fallsThrough {index number : Nat} {block : Block} {instruction : Instruction}
    (found : code.instruction? index = some instruction)
    (conditional : instruction.fallsThrough = true)
    (present : (ofCode code).blocks[number]? = some block) (inside : index ∈ block.indices) :
    block.last = index := by
  have within := end_le present
  simp only [Block.indices, List.mem_range'_1] at inside
  by_contra earlier
  simp only [Block.last] at earlier
  have begins := mem_starts_of_fallsThrough found conditional (by omega)
  have held : index + 1 ∈ block.indices := by
    simp only [Block.indices, List.mem_range'_1]
    omega
  have same := start_of_mem_starts begins present held
  omega

/-- The first block holds the first instruction. -/
theorem exists_first_block (nonempty : 0 < code.length) :
    ∃ block, (ofCode code).blocks[0]? = some block ∧ block.start = 0 ∧ 0 ∈ block.indices := by
  obtain ⟨rest, begins⟩ := starts_eq_cons nonempty
  have first := congrArg List.head? ((map_fst_extents code).trans begins)
  rw [List.head?_map, List.head?_cons, Option.map_eq_some_iff] at first
  obtain ⟨⟨start, stop⟩, found, rfl⟩ := first
  rw [List.head?_eq_getElem?] at found
  have present : (ofCode code).blocks[0]? = some (blockOfExtent code 0 0 stop) := by
    rw [getElem?_blocks, found]
    rfl
  refine ⟨_, present, rfl, ?_⟩
  simpa [Block.indices, List.mem_range'_1, blockOfExtent] using length_pos present

/-! ## Successors and predecessors -/

/-- The successors are the blocks of the last instruction's targets, and the next block if control
may go on there. -/
theorem mem_successors_iff {number successor : Nat} {block : Block}
    (found : (ofCode code).blocks[number]? = some block) :
    successor ∈ block.successors ↔
      (∃ target ∈ code.branchTargets block.last,
        (ofCode code).blockOf[target]? = some successor) ∨
      (∃ instruction, code.instruction? block.last = some instruction ∧
        instruction.continues = true ∧
        (ofCode code).blockOf[block.last + 1]? = some successor) := by
  obtain ⟨start, stop, -, nonempty, -, rfl⟩ := exists_extent found
  have held : (ofCode code).blockOf = assignment (extents code) := rfl
  rw [last_blockOfExtent nonempty, held]
  simp only [blockOfExtent, successorsAt, List.mem_eraseDups, List.mem_append,
    List.mem_filterMap]
  cases code.instruction? (stop - 1) with
  | none => simp
  | some instruction => by_cases goes : instruction.continues = true <;> simp [goes]

/-- No block is listed twice after another. -/
theorem nodup_successors {number : Nat} {block : Block}
    (found : (ofCode code).blocks[number]? = some block) : block.successors.Nodup := by
  obtain ⟨start, stop, -, -, -, rfl⟩ := exists_extent found
  exact nodup_eraseDups _

/-- A successor is a block. -/
theorem exists_successor {number successor : Nat} {block : Block}
    (found : (ofCode code).blocks[number]? = some block) (listed : successor ∈ block.successors) :
    ∃ following, (ofCode code).blocks[successor]? = some following := by
  rcases (mem_successors_iff found).mp listed with ⟨_, -, held⟩ | ⟨_, -, -, held⟩
  · obtain ⟨following, present, -⟩ := blockOf_eq_some_iff.mp held
    exact ⟨following, present⟩
  · obtain ⟨following, present, -⟩ := blockOf_eq_some_iff.mp held
    exact ⟨following, present⟩

/-- Predecessors and successors are the two ends of the same edges. -/
theorem mem_predecessors_iff {number predecessor : Nat} {block : Block}
    (found : (ofCode code).blocks[number]? = some block) :
    predecessor ∈ block.predecessors ↔
      ∃ before, (ofCode code).blocks[predecessor]? = some before ∧
        number ∈ before.successors := by
  obtain ⟨start, stop, -, -, -, rfl⟩ := exists_extent found
  simp only [blockOfExtent, predecessorsOf, List.mem_map, List.mem_filter, allSuccessors,
    Prod.exists, List.mem_zipIdx_iff_getElem?, List.getElem?_map, getElem?_blocks]
  constructor
  · rintro ⟨successors, _, ⟨listed, follows⟩, rfl⟩
    obtain ⟨extent, found, rfl⟩ := Option.map_eq_some_iff.mp listed
    exact ⟨_, by rw [found]; rfl, by simpa using follows⟩
  · rintro ⟨before, present, follows⟩
    obtain ⟨extent, found, rfl⟩ := Option.map_eq_some_iff.mp present
    exact ⟨_, predecessor, ⟨by rw [found]; rfl, by simpa using follows⟩, rfl⟩

theorem leaves_iff {number : Nat} {block : Block}
    (found : (ofCode code).blocks[number]? = some block) :
    block.leaves = true ↔
      ∃ instruction, code.instruction? block.last = some instruction ∧
        instruction.leaves = true := by
  obtain ⟨start, stop, -, nonempty, -, rfl⟩ := exists_extent found
  rw [last_blockOfExtent nonempty]
  simp only [blockOfExtent, leavesAt]
  cases code.instruction? (stop - 1) <;> simp

end BlockGraph

end StackCode
