import StackCode.Proofs.Graph.Control
import StackCode.Proofs.Machine.Journal
import StackCode.Assembly.Step
import StackCode.ObjectModel.Host

/-!
# The block graph covers what frames do

A frame goes on inside a block or along an edge to the start of a block.  The
edges of a block are read off its last instruction, and code behind a jump or a
dispatch stays in the block of the jump; such a jump leaves the block for one of
its own targets, and that edge is missing.
-/

namespace StackCode

namespace BlockGraph

/-- The target is the next instruction of the same block, or begins a successor of the block. -/
def Covers (graph : BlockGraph) (source target : Nat) : Prop :=
  ∃ number block, graph.blockContaining? source = some number ∧
    graph.blocks[number]? = some block ∧
    (target = source + 1 ∧ graph.blockContaining? target = some number ∨
      ∃ successor ∈ block.successors, graph.blockStartingAt? target = some successor)

/-- The target is the next instruction of the same block, or the last one leads to it. -/
def Follows (graph : BlockGraph) (source target : Nat) : Prop :=
  ∃ number block, graph.blockContaining? source = some number ∧
    graph.blocks[number]? = some block ∧
    (target = source + 1 ∧ graph.blockContaining? target = some number ∨
      source = block.last ∧
        ∃ successor ∈ block.successors, graph.blockStartingAt? target = some successor)

theorem Follows.covers {graph : BlockGraph} {source target : Nat}
    (follows : graph.Follows source target) : graph.Covers source target := by
  obtain ⟨number, block, held, present, inside | ⟨-, onwards⟩⟩ := follows
  · exact ⟨number, block, held, present, .inl inside⟩
  · exact ⟨number, block, held, present, .inr onwards⟩

/--
The source is a jump or a dispatch with code behind it in its block, and the
target is one of its own targets and begins a block.
-/
def Strays (graph : BlockGraph) (source target : Nat) : Prop :=
  ∃ number block instruction, graph.blockContaining? source = some number ∧
    graph.blocks[number]? = some block ∧ source < block.last ∧
    graph.code.instruction? source = some instruction ∧ instruction.branches = true ∧
    instruction.fallsThrough = false ∧ target ∈ graph.code.branchTargets source ∧
    (graph.blockStartingAt? target).isSome

variable {code : Sequence}

theorem blockStartingAt?_eq {index number : Nat} {block : Block} (begins : index ∈ starts code)
    (held : (ofCode code).blockOf[index]? = some number)
    (found : (ofCode code).blocks[number]? = some block) :
    (ofCode code).blockStartingAt? index = some number := by
  obtain ⟨block', found', inside⟩ := blockOf_eq_some_iff.mp held
  rw [found] at found'
  obtain rfl := Option.some.inj found'
  simp [blockStartingAt?, blockContaining?, held, found, start_of_mem_starts begins found inside]

theorem start_of_blockStartingAt? {graph : BlockGraph} {index number : Nat}
    (begins : graph.blockStartingAt? index = some number) :
    ∃ block, graph.blocks[number]? = some block ∧ block.start = index := by
  simp only [blockStartingAt?, Option.bind_eq_bind, Option.bind_eq_some_iff] at begins
  obtain ⟨held, -, block, found, begins⟩ := begins
  split at begins
  · rename_i start
    obtain rfl := Option.some.inj begins
    exact ⟨block, found, start⟩
  · cases begins

/-- Control that goes on to the next instruction stays in its block or enters a successor. -/
theorem follows_next {index : Nat} {instruction : Instruction}
    (found : code.instruction? index = some instruction) (goes : instruction.continues = true)
    (inside : index + 1 < code.length) : (ofCode code).Follows index (index + 1) := by
  obtain ⟨number, block, held, present, mem⟩ := exists_block (Nat.lt_of_succ_lt inside)
  refine ⟨number, block, held, present, ?_⟩
  obtain ⟨next, following, held', present', mem'⟩ := exists_block inside
  simp only [Block.indices, List.mem_range'_1] at mem
  rcases Nat.lt_or_ge (index + 1) (block.start + block.length) with before | behind
  · refine .inl ⟨rfl, blockOf_eq_some_iff.mpr ⟨block, present, ?_⟩⟩
    simp only [Block.indices, List.mem_range'_1]
    omega
  · have last : block.last = index := by
      simp only [Block.last]
      omega
    have begins : index + 1 ∈ starts code := by
      rw [← last] at mem' ⊢
      exact mem_starts_iff.mpr ⟨next, following, present', start_after present present' mem'⟩
    refine .inr ⟨last.symm, next,
      (mem_successors_iff present).mpr (.inr ⟨instruction, ?_, goes, ?_⟩),
      blockStartingAt?_eq begins held' present'⟩
    · rw [last]
      exact found
    · rw [last]
      exact held'

/-- Control that jumps from the end of a block enters a successor. -/
theorem follows_jump {index target number : Nat} {block : Block}
    (aimed : target ∈ code.branchTargets index) (inside : target < code.length)
    (held : (ofCode code).blockOf[index]? = some number)
    (present : (ofCode code).blocks[number]? = some block) (last : block.last = index) :
    (ofCode code).Follows index target := by
  obtain ⟨next, following, held', present', -⟩ := exists_block inside
  have begins := mem_starts_of_target aimed inside
  refine ⟨number, block, held, present,
    .inr ⟨last.symm, next, ?_, blockStartingAt?_eq begins held' present'⟩⟩
  exact (mem_successors_iff present).mpr (.inl ⟨target, last ▸ aimed, held'⟩)

theorem mem_branchTargets {index target : Nat} {instruction : Instruction}
    (found : code.instruction? index = some instruction)
    (yields : instruction.Yields code (.jump target)) : target ∈ code.branchTargets index := by
  obtain ⟨label, tried, bound⟩ := yields
  simp only [Sequence.branchTargets, found, List.mem_filterMap]
  exact ⟨label, tried, bound⟩

theorem branches_of_yields {target : Nat} {instruction : Instruction}
    (yields : instruction.Yields code (.jump target)) : instruction.branches = true := by
  obtain ⟨label, tried, -⟩ := yields
  by_contra straight
  rw [Instruction.branchLabels_eq_nil (by simpa using straight)] at tried
  cases tried

/-- From each instruction control goes along the graph, or astray from the middle of a block. -/
theorem follows_or_strays {source target : Nat} {instruction : Instruction} {outcome : Outcome}
    (found : code.instruction? source = some instruction)
    (yields : instruction.Yields code outcome) (place : target = outcome.place source)
    (stays : ∀ result, outcome ≠ .leave result) (inside : target < code.length) :
    (ofCode code).Follows source target ∨ (ofCode code).Strays source target := by
  cases outcome with
  | leave result => exact absurd rfl (stays result)
  | next =>
      obtain rfl : target = source + 1 := place
      exact .inl (follows_next found yields inside)
  | jump aim =>
      obtain rfl : target = aim := place
      have aimed := mem_branchTargets found yields
      obtain ⟨number, block, held, present, mem⟩ := exists_block (Sequence.lt_length found)
      rcases Nat.lt_or_ge source block.last with before | behind
      · obtain ⟨next, following, held', present', -⟩ := exists_block inside
        have begins := mem_starts_of_target aimed inside
        refine .inr ⟨number, block, instruction, held, present, before, found,
          branches_of_yields yields, ?_, aimed, ?_⟩
        · by_contra conditional
          have last := last_of_fallsThrough found (by simpa using conditional) present mem
          omega
        · rw [blockStartingAt?_eq begins held' present']
          rfl
      · have last : block.last = source := by
          simp only [Block.indices, List.mem_range'_1] at mem
          simp only [Block.last] at behind ⊢
          omega
        exact .inl (follows_jump aimed inside held present last)

end BlockGraph

def FrameInvariant.none : FrameInvariant where
  holds _ _ := True
  entered _ _ _ _ _ _ := trivial
  kept _ _ _ _ _ := trivial

namespace Journal

/--
Whatever the host does, each step of a frame goes along the block graph of its
sequence or strays from it, and a frame that returns at the end of a block does
so in a block that is marked as leaving.
-/
theorem moves_follow_blocks {σ : Type} (host : Host σ) (limits : Limits) (state : σ)
    (context : Context) (top code : Sequence) (graph : BlockGraph)
    (built : BlockGraph.build code = .ok graph) :
    (∀ move ∈ (ofRun host limits state context top).moves, move.code = code →
      graph.Covers move.source move.target ∨ graph.Strays move.source move.target) ∧
    (∀ visit ∈ (ofRun host limits state context top).visits, visit.code = code →
      visit.instruction.leaves = true →
      ∃ number block, graph.blockContaining? visit.pc = some number ∧
        graph.blocks[number]? = some block ∧ visit.pc ≤ block.last ∧
        (block.leaves = true ∨ visit.pc < block.last)) := by
  obtain rfl := BlockGraph.ofCode_of_build built
  have accepted := FrameInvariant.none.accepts_ofRun host limits state context top
  constructor
  · intro move listed rfl
    obtain ⟨after, place, present, leads⟩ := accepted.moves move listed
    obtain ⟨before, instruction, outcome, -, -, found, performs, next, stays⟩ := leads
    obtain ⟨following, present⟩ := Option.isSome_iff_exists.mp present
    exact (BlockGraph.follows_or_strays found performs.yields (place ▸ next) stays
      (Sequence.lt_length present)).imp_left BlockGraph.Follows.covers
  · intro visit listed rfl leaves
    obtain ⟨-, found, -⟩ := accepted.visits visit listed
    obtain ⟨number, block, held, present, mem⟩ :=
      BlockGraph.exists_block (Sequence.lt_length found)
    have reach : visit.pc ≤ block.last := by
      simp only [Block.indices, Block.last, List.mem_range'_1] at mem ⊢
      omega
    refine ⟨number, block, held, present, reach, ?_⟩
    rcases Nat.lt_or_eq_of_le reach with before | last
    · exact .inr before
    · exact .inl ((BlockGraph.leaves_iff present).mpr ⟨visit.instruction, last ▸ found, leaves⟩)

/-- A jump to the end, followed in its block by code that no jump reaches. -/
def jumpOverDeadCode : Sequence where
  name := "<compiled>"
  kind := .top
  code := #[.jump 0, .nop, .jump 1, .putNil, .leave, .nop]
  labels := #[some 3, some 2]
  locals := []
  parameters := .none
  handlers := []

def overDeadCode : Journal :=
  ofRun ObjectModel.host .usual (.withTables .empty .empty) .empty jumpOverDeadCode

theorem moves_overDeadCode :
    overDeadCode.moves = [⟨jumpOverDeadCode, 0, 3⟩, ⟨jumpOverDeadCode, 3, 4⟩] := rfl

theorem leave_mem_visits_overDeadCode :
    ∃ visit ∈ overDeadCode.visits, visit.code = jumpOverDeadCode ∧ visit.pc = 4 ∧
      visit.instruction = .leave := by
  refine ⟨overDeadCode.visits.get ⟨2, by decide⟩, List.get_mem _ _, rfl, rfl, rfl⟩

/-- The jump over dead code strays, and the leave has code behind it in its block. -/
theorem moves_follow_blocks_overDeadCode :
    BlockGraph.build jumpOverDeadCode = .ok (.ofCode jumpOverDeadCode) ∧
    ((BlockGraph.ofCode jumpOverDeadCode).Covers 0 3 ∨
      (BlockGraph.ofCode jumpOverDeadCode).Strays 0 3) ∧
    ∃ number block, (BlockGraph.ofCode jumpOverDeadCode).blockContaining? 4 = some number ∧
      (BlockGraph.ofCode jumpOverDeadCode).blocks[number]? = some block ∧ 4 ≤ block.last ∧
      (block.leaves = true ∨ 4 < block.last) := by
  have follows := moves_follow_blocks ObjectModel.host .usual (.withTables .empty .empty) .empty
    jumpOverDeadCode jumpOverDeadCode (.ofCode jumpOverDeadCode) rfl
  refine ⟨rfl, follows.1 ⟨jumpOverDeadCode, 0, 3⟩ ?_ rfl, ?_⟩
  · exact moves_overDeadCode ▸ List.mem_cons_self
  · obtain ⟨⟨code, pc, instruction, context⟩, listed, rfl, rfl, rfl⟩ :=
      leave_mem_visits_overDeadCode
    exact follows.2 _ listed rfl rfl

/--
The edge over dead code is missing from the graph of an assembled sequence, and
so is the mark of a block whose leave has code behind it.
-/
theorem not_covers_over_dead_code :
    Assembly.top.assemble
      [.newLabel, .newLabel, .emit (.jump 0), .emit .nop, .bind 1, .emit (.jump 1), .bind 0,
        .emit .putNil, .emit .leave, .emit .nop] = .ok jumpOverDeadCode ∧
    (∃ move ∈ overDeadCode.moves, move.code = jumpOverDeadCode ∧
      ¬ (BlockGraph.ofCode jumpOverDeadCode).Covers move.source move.target) ∧
    ∃ visit ∈ overDeadCode.visits, visit.code = jumpOverDeadCode ∧ visit.instruction = .leave ∧
      ∃ number block,
        (BlockGraph.ofCode jumpOverDeadCode).blockContaining? visit.pc = some number ∧
        (BlockGraph.ofCode jumpOverDeadCode).blocks[number]? = some block ∧
        block.leaves = false := by
  refine ⟨rfl, ⟨⟨jumpOverDeadCode, 0, 3⟩, ?_, rfl, ?_⟩, ?_⟩
  · exact moves_overDeadCode ▸ List.mem_cons_self
  · rintro ⟨number, block, held, present, ⟨next, -⟩ | ⟨successor, listed, begins⟩⟩
    · cases next
    · obtain rfl : 0 = number := Option.some.inj held
      obtain rfl : 2 = successor := Option.some.inj begins
      obtain rfl : _ = block := Option.some.inj present
      exact absurd listed (by decide)
  · obtain ⟨⟨code, pc, instruction, context⟩, listed, rfl, rfl, rfl⟩ :=
      leave_mem_visits_overDeadCode
    exact ⟨_, listed, rfl, rfl, 2, _, rfl, rfl, rfl⟩

end Journal

end StackCode
