import StackCode.Proofs.Graph.Coverage
import StackCode.Proofs.Graph.Exchange
import StackCode.Proofs.Machine.Restoration
import StackCode.Instruction.Forms
import StackCode.Assembly.Step

/-!
# The flow graph counts the operands of every frame

If control leaves blocks only at their ends, then a frame of an accepted
sequence has at each instruction as many operands as its flow graph says: the
inputs of the block and what the block gained so far.  No instruction of such a
frame runs short of operands, and it leaves with its result alone.

The catalog counts operands in words, so all this holds of sequences whose
instructions take no more than a word can count.
-/

namespace StackCode

namespace Instruction

/-- The descriptor of an operator names as many arguments as the instruction takes. -/
def Described : Instruction → Prop
  | .operate operation call => call.argumentCount = operation.argumentCount
  | .notEqual _ call => call.argumentCount = 1
  | _ => True

instance (instruction : Instruction) : Decidable instruction.Described := by
  unfold Described
  split <;> infer_instance

/-- What the instruction takes and what it puts back can be counted in 32 bits. -/
def Fits (instruction : Instruction) : Prop :=
  instruction.demand < 2 ^ 32 ∧ instruction.supply < 2 ^ 32

instance (instruction : Instruction) : Decidable instruction.Fits :=
  inferInstanceAs (Decidable (_ ∧ _))

variable {instruction : Instruction}

/-- The catalog counts the operands in a word, if the descriptor does not name another number. -/
theorem reads_eq_mod (described : instruction.Described) :
    instruction.reads = instruction.demand % 2 ^ 32 := by
  cases instruction with
  | operate operation call =>
      have same : call.argumentCount = operation.argumentCount := described
      simp [reads, readCount, demand, takes, same]
  | notEqual operation call =>
      have same : call.argumentCount = 1 := described
      simp [reads, readCount, demand, takes, same]
  | _ => simp [reads, readCount, demand, takes, Nat.mod_eq_of_lt (UInt32.toNat_lt _)]

theorem writes_eq_mod : instruction.writes = instruction.supply % 2 ^ 32 := by
  cases instruction <;>
    simp [writes, writeCount, supply, Nat.mod_eq_of_lt (UInt32.toNat_lt _)]

theorem described_of_reads_eq (same : instruction.reads = instruction.demand) :
    instruction.Described := by
  cases instruction with
  | operate operation call =>
      have one : call.argumentCount.toNat + 1 = (operation.argumentCount + 1).toNat := same.symm
      refine UInt32.toNat_inj.mp (Nat.succ.inj (one.trans ?_))
      cases operation <;> rfl
  | notEqual operation call =>
      have one : call.argumentCount.toNat + 1 = 2 := same.symm
      exact UInt32.toNat_inj.mp (Nat.succ.inj one)
  | _ => trivial

/-- The catalog counts what an instruction does, but for words and descriptors that are wrong. -/
theorem counted_iff :
    instruction.reads = instruction.demand ∧ instruction.writes = instruction.supply ↔
      instruction.Described ∧ instruction.Fits := by
  constructor
  · rintro ⟨reads, writes⟩
    exact ⟨described_of_reads_eq reads, reads ▸ UInt32.toNat_lt _, writes ▸ UInt32.toNat_lt _⟩
  · rintro ⟨described, taken, given⟩
    exact ⟨(reads_eq_mod described).trans (Nat.mod_eq_of_lt taken),
      writes_eq_mod.trans (Nat.mod_eq_of_lt given)⟩

end Instruction

/-- What an instruction does to the number of operands. -/
theorem Context.Performs.gain {code : Sequence} {before after : Context}
    {instruction : Instruction} {outcome : Outcome}
    (performs : before.Performs code instruction outcome after)
    (described : instruction.Described) (fits : instruction.Fits) :
    (after.operands.length : Int) = before.operands.length + instruction.gain := by
  have enough := performs.enough
  obtain ⟨values, counted, replaced⟩ := performs.replaced
  obtain ⟨reads, writes⟩ := Instruction.counted_iff.mpr ⟨described, fits⟩
  rw [replaced, List.length_append, List.length_reverse, List.length_drop, counted,
    Instruction.gain, reads, writes]
  omega

/-- Only the last instruction of a block may not go on to the next one. -/
def BlockGraph.Straight (graph : BlockGraph) : Prop :=
  ∀ block ∈ graph.blocks, ∀ index ∈ block.indices, ∀ instruction ∈ graph.code.instruction? index,
    instruction.continues = false → index = block.last

instance (graph : BlockGraph) : Decidable graph.Straight :=
  inferInstanceAs (Decidable (∀ block ∈ graph.blocks, ∀ index ∈ block.indices,
    ∀ instruction ∈ graph.code.instruction? index,
      instruction.continues = false → index = block.last))

theorem BlockGraph.Straight.not_strays {code : Sequence} (straight : (ofCode code).Straight)
    {source target : Nat} : ¬ (ofCode code).Strays source target := by
  rintro ⟨number, block, instruction, held, present, before, found, branches, plain, -⟩
  have closed : instruction.continues = false := by
    simp [Instruction.continues, branches, plain]
  have last := straight block (Array.mem_of_getElem? present) source (mem_indices held present)
    instruction found closed
  omega

namespace FlowGraph

/-- The operands are as many as the flow graph says for the next instruction. -/
def Counts (flow : FlowGraph) (context : Context) : Prop :=
  ∀ (number : Nat) (block : Block), flow.graph.blocks[number]? = some block →
    context.pc ∈ block.indices →
    (context.operands.length : Int) = (flow.blockFlow number).ins.length +
      flow.graph.code.gain (block.indicesBefore context.pc)

section Counting

variable {code : Sequence} {flow : FlowGraph} (padded : flow.PadsBlocks (.ofCode code))
  (balanced : flow.Balanced)
include padded

/-- A frame that is counted has the operands of its next instruction. -/
theorem Counts.enough {context : Context} {number : Nat} {block : Block}
    {instruction : Instruction} (counts : flow.Counts context)
    (present : (BlockGraph.ofCode code).blocks[number]? = some block)
    (inside : context.pc ∈ block.indices)
    (found : code.instruction? context.pc = some instruction) :
    instruction.reads ≤ context.operands.length := by
  have counted := counts number block (by rw [padded.graph_eq]; exact present) inside
  have taken := padded.taken_le present
  have reads := LocalFlow.reads_le_gain inside found
  rw [padded.graph_eq] at counted
  simp only [BlockGraph.code_ofCode] at counted taken
  omega

include balanced

theorem counts_entered (context : Context) (running : Sequence) (self : Value)
    (parent : Option Nat) (block : Option Closure) (arguments : List Value)
    (same : running = code) :
    flow.Counts { context.enter running self parent block arguments with pc := 0 } := by
  subst same
  have nothing : ({ context.enter running self parent block arguments with pc := 0 } :
      Context).operands = [] := context.operands_enter ..
  intro number block present inside
  rw [padded.graph_eq] at present
  have nonempty : 0 < running.length := by
    have within := BlockGraph.end_le present
    have positive := BlockGraph.length_pos present
    omega
  obtain ⟨first, present', start, inside'⟩ := BlockGraph.exists_first_block nonempty
  obtain ⟨rfl, rfl⟩ := BlockGraph.block_unique present inside present' inside'
  have empty := balanced.entry block (by rw [padded.graph_eq]; exact present)
  have before : block.indicesBefore 0 = [] := by
    simp [Block.indicesBefore]
  simp [empty, before, nothing, Sequence.gain]

/-- The count goes along the edges of the graph. -/
theorem Counts.follows {before after : Context} {instruction : Instruction} {outcome : Outcome}
    (counts : flow.Counts before) (found : code.instruction? before.pc = some instruction)
    (performs : before.Performs code instruction outcome after)
    (described : instruction.Described) (fits : instruction.Fits)
    (follows : (BlockGraph.ofCode code).Follows before.pc after.pc) : flow.Counts after := by
  intro number block present inside
  rw [padded.graph_eq] at present
  have grown := performs.gain described fits
  obtain ⟨source, origin, held, present', way⟩ := follows
  have within := BlockGraph.mem_indices held present'
  have counted := counts source origin (by rw [padded.graph_eq]; exact present') within
  rw [padded.graph_eq] at counted ⊢
  have split : code.gain (origin.indicesBefore (before.pc + 1)) =
      code.gain (origin.indicesBefore before.pc) + instruction.gain := by
    rw [Block.indicesBefore_succ within, Sequence.gain_append, Sequence.gain_singleton found]
  rcases way with ⟨next, same⟩ | ⟨last, successor, listed, begins⟩
  · -- inside the block the count grows with the code
    obtain ⟨rfl, rfl⟩ := BlockGraph.block_unique present inside present'
      (BlockGraph.mem_indices same present')
    rw [next]
    simp only [BlockGraph.code_ofCode] at counted ⊢
    omega
  · -- at the end of the block it is the number of outputs, which the successor takes
    obtain ⟨following, present'', start⟩ := BlockGraph.start_of_blockStartingAt? begins
    obtain ⟨rfl, rfl⟩ := BlockGraph.block_unique present inside present''
      (start ▸ BlockGraph.start_mem_indices present'')
    have agreed := balanced.edge source origin (by rw [padded.graph_eq]; exact present') number
      listed
    have offered := padded.length_outs present'
    have whole := Block.indicesBefore_last (BlockGraph.length_pos present')
    rw [← whole, ← last, ← Block.indicesBefore_succ within] at offered
    rw [← start, Block.indicesBefore_start]
    simp only [BlockGraph.code_ofCode, Sequence.gain, List.map_nil, List.sum_nil] at *
    omega

/-- A frame that is counted leaves with a single operand. -/
theorem Counts.leaves {context : Context} {number : Nat} {block : Block}
    (counts : flow.Counts context) (straight : (BlockGraph.ofCode code).Straight)
    (present : (BlockGraph.ofCode code).blocks[number]? = some block)
    (inside : context.pc ∈ block.indices) (found : code.instruction? context.pc = some .leave) :
    context.operands.length = 1 := by
  have last : context.pc = block.last :=
    straight block (Array.mem_of_getElem? present) context.pc inside .leave found rfl
  have alone : block.successors = [] := by
    refine List.eq_nil_iff_forall_not_mem.mpr fun successor listed => ?_
    rw [last] at found
    rcases (BlockGraph.mem_successors_iff present).mp listed with ⟨target, aimed, -⟩ | onwards
    · simp [Sequence.branchTargets, found, Instruction.branchLabels] at aimed
    · obtain ⟨instruction, found', continues, -⟩ := onwards
      rw [found] at found'
      obtain rfl := Option.some.inj found'
      cases continues
  have nothing := balanced.exit number block (by rw [padded.graph_eq]; exact present) alone
  have offered := padded.length_outs present
  have whole := Block.indicesBefore_last (BlockGraph.length_pos present)
  rw [nothing, BlockGraph.code_ofCode, ← whole, ← last, Sequence.gain_append,
    Sequence.gain_singleton found] at offered
  have counted := counts number block (by rw [padded.graph_eq]; exact present) inside
  have one : Instruction.leave.gain = -1 := rfl
  rw [padded.graph_eq] at counted
  simp only [BlockGraph.code_ofCode, List.length_nil] at counted offered
  omega

/-- A counted frame that goes on is counted at its next instruction. -/
theorem Counts.goesOn {before after : Context} {instruction : Instruction} {outcome : Outcome}
    (counts : flow.Counts before) (straight : (BlockGraph.ofCode code).Straight)
    (described : instruction.Described) (fits : instruction.Fits)
    (found : code.instruction? before.pc = some instruction)
    (performs : before.Performs code instruction outcome after)
    (place : after.pc = outcome.place before.pc) (stays : ∀ result, outcome ≠ .leave result) :
    flow.Counts after := by
  intro number block present inside
  have held : (BlockGraph.ofCode code).blocks[number]? = some block := by
    rw [← padded.graph_eq]
    exact present
  have within : after.pc < code.length := by
    have ends := BlockGraph.end_le held
    simp only [Block.indices, List.mem_range'_1] at inside
    omega
  rcases BlockGraph.follows_or_strays found performs.yields place stays within with
    follows | strays
  · exact counts.follows padded balanced found performs described fits follows number block
      present inside
  · exact absurd strays straight.not_strays

def counting (straight : (BlockGraph.ofCode code).Straight)
    (described : ∀ instruction ∈ code.code, instruction.Described)
    (fits : ∀ instruction ∈ code.code, instruction.Fits) : FrameInvariant where
  holds running context := running = code → flow.Counts context
  entered := counts_entered padded balanced
  kept counts found performs place stays := by
    rintro rfl
    have listed := Array.mem_of_getElem? found
    exact (counts rfl).goesOn padded balanced straight (described _ listed) (fits _ listed) found
      performs place stays

end Counting

end FlowGraph

namespace Journal

end Journal

end StackCode
