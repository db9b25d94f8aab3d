import StackCode.Proofs.Graph.Control
import StackCode.Proofs.Graph.Exchange

/-!
# Walks through a block graph

A walk runs whole blocks, one after the other along the edges, on a stack whose
cells are tagged with the instruction that pushed them.  It begins in the first
block on the empty stack.  The operands that an instruction takes on some walk
say which instructions supply it.
-/

namespace StackCode

namespace Sequence

/-- Take what an instruction reads, and push its own tag for all that it writes. -/
def pushTags (code : Sequence) (stack : List Nat) (index : Nat) : List Nat :=
  match code.instruction? index with
  | some instruction => List.replicate instruction.writes index ++ stack.drop instruction.reads
  | none => stack

def runTags (code : Sequence) (stack : List Nat) (indices : List Nat) : List Nat :=
  indices.foldl code.pushTags stack

theorem mem_runTags {code : Sequence} {tag : Nat} {stack indices : List Nat}
    (found : tag ∈ code.runTags stack indices) : tag ∈ stack ∨ tag ∈ indices := by
  induction indices generalizing stack with
  | nil => exact .inl found
  | cons index rest ih =>
      rcases ih found with pushed | later
      · unfold pushTags at pushed
        split at pushed
        · rcases List.mem_append.mp pushed with own | old
          · exact .inr (List.mem_cons.mpr (.inl (List.eq_of_mem_replicate own)))
          · exact .inl (List.mem_of_mem_drop old)
        · exact .inl pushed
      · exact .inr (List.mem_cons_of_mem index later)

end Sequence

namespace BlockGraph

/-- The walks that end in front of a block, with the tags that they leave on the stack. -/
inductive Walk (graph : BlockGraph) : Nat → List Nat → Prop where
  | entry : Walk graph 0 []
  | step {number successor : Nat} {block : Block} {stack : List Nat} :
      Walk graph number stack → graph.blocks[number]? = some block →
      successor ∈ block.successors →
      Walk graph successor (graph.code.runTags stack block.indices)

/-- The blocks that control may come to from the first one, along the edges. -/
inductive Reached (graph : BlockGraph) : Nat → Prop where
  | entry : Reached graph 0
  | step {number successor : Nat} {block : Block} :
      Reached graph number → graph.blocks[number]? = some block →
      successor ∈ block.successors → Reached graph successor

def Connected (graph : BlockGraph) : Prop :=
  ∀ number < graph.blocks.size, graph.Reached number

def operandTags (graph : BlockGraph) (stack : List Nat) (block : Block) (index : Nat)
    (instruction : Instruction) : List Nat :=
  ((graph.code.runTags stack (block.indicesBefore index)).take instruction.reads).reverse

/-- The operand of an instruction at a place is pushed by the supplier on some walk. -/
def Supplies (graph : BlockGraph) (supplier index place : Nat) : Prop :=
  ∃ number block stack instruction, graph.Walk number stack ∧
    graph.blocks[number]? = some block ∧ index ∈ block.indices ∧
    graph.code.instruction? index = some instruction ∧
    (graph.operandTags stack block index instruction)[place]? = some supplier

variable {graph : BlockGraph}

theorem Reached.exists_walk {number : Nat} (reached : graph.Reached number) :
    ∃ stack, graph.Walk number stack := by
  induction reached with
  | entry => exact ⟨[], .entry⟩
  | step _ found listed ih =>
      obtain ⟨stack, walk⟩ := ih
      exact ⟨_, .step walk found listed⟩

/-- Where each block but the first comes after an earlier one, every block is reached. -/
theorem connected_of_earlier (earlier : ∀ number < graph.blocks.size, number = 0 ∨
      ∃ before < number, ∃ block ∈ graph.blocks[before]?, number ∈ block.successors) :
    graph.Connected := by
  intro number
  induction number using Nat.strongRecOn with
  | ind number ih =>
      intro within
      rcases earlier number within with rfl | ⟨before, less, block, present, listed⟩
      · exact .entry
      · exact .step (ih before less (Nat.lt_trans less within)) present listed

end BlockGraph

/-! ## Walks and abstract stacks -/

def Operand.tag? (below : List Nat) : Operand → Option Nat
  | .produced index => some index
  | .below earlier => below[earlier]?

namespace LocalFlow

def onTop (flow : LocalFlow) (below : List Nat) : List Nat :=
  flow.stack ++ below.drop flow.taken

theorem onTop_step (flow : LocalFlow) (below : List Nat) {code : Sequence} {index : Nat}
    {instruction : Instruction} (found : code.instruction? index = some instruction) :
    code.pushTags (flow.onTop below) index = (flow.step index instruction).onTop below := by
  rw [Sequence.pushTags, found, step_eq]
  simp only [onTop, List.drop_append, List.drop_drop, List.append_assoc]

theorem onTop_run (code : Sequence) (flow : LocalFlow) (below indices : List Nat) :
    code.runTags (flow.onTop below) indices = (run code flow indices).onTop below := by
  induction indices generalizing flow with
  | nil => rfl
  | cons index rest ih =>
      cases found : code.instruction? index with
      | none =>
          rw [run_cons_of_none found, ← ih]
          simp [Sequence.runTags, Sequence.pushTags, found]
      | some instruction =>
          rw [run_cons found, ← ih, ← onTop_step flow below found]
          rfl

theorem runTags_indices (code : Sequence) (block : Block) (stack : List Nat) :
    code.runTags stack block.indices = (ofBlock code block).onTop stack :=
  onTop_run code empty stack block.indices

theorem runTags_upTo (code : Sequence) (block : Block) (index : Nat) (stack : List Nat) :
    code.runTags stack (block.indicesBefore index) = (upTo code block index).onTop stack :=
  onTop_run code empty stack (block.indicesBefore index)

/-- Only the instructions that ran have pushed what is on an abstract stack. -/
theorem mem_of_mem_stack {code : Sequence} {tag : Nat} {indices : List Nat}
    (pushed : tag ∈ (run code empty indices).stack) : tag ∈ indices := by
  have above : tag ∈ code.runTags (empty.onTop []) indices := by
    rw [onTop_run]
    exact List.mem_append_left _ pushed
  rcases Sequence.mem_runTags above with old | own
  · cases old
  · exact own

/-- What is taken off the stack carries the tags of the operands. -/
theorem getElem?_take_onTop (flow : LocalFlow) (below : List Nat) (count place : Nat) :
    ((flow.onTop below).take count)[place]? =
      (popped count flow.stack flow.taken)[place]?.bind (Operand.tag? below) := by
  unfold onTop popped
  rcases Nat.lt_or_ge place count with taken | beyond
  · rw [List.getElem?_take_of_lt taken]
    rcases Nat.lt_or_ge place flow.stack.length with own | deeper
    · rw [List.getElem?_append_left own, List.getElem?_append_left (by simp; omega)]
      simp [taken, Operand.tag?, own]
    · rw [List.getElem?_append_right deeper, List.getElem?_append_right (by simp; omega)]
      have least : min count flow.stack.length = flow.stack.length := by omega
      have more : place - flow.stack.length < count - flow.stack.length := by omega
      simp [least, more, Operand.tag?]
  · rw [List.getElem?_eq_none (by simp; omega)]
    rw [List.getElem?_eq_none (by simp; omega)]
    rfl

def operandsAt (code : Sequence) (block : Block) (index : Nat) (instruction : Instruction) :
    List Operand :=
  (popped instruction.reads (upTo code block index).stack (upTo code block index).taken).reverse

theorem length_operandsAt (code : Sequence) (block : Block) (index : Nat)
    (instruction : Instruction) :
    (operandsAt code block index instruction).length = instruction.reads := by
  rw [operandsAt, List.length_reverse, length_popped]

theorem length_operandTags {graph : BlockGraph} {stack : List Nat} {block : Block} {index : Nat}
    {instruction : Instruction} (inside : index ∈ block.indices)
    (found : graph.code.instruction? index = some instruction)
    (enough : (ofBlock graph.code block).taken ≤ stack.length) :
    (graph.operandTags stack block index instruction).length = instruction.reads := by
  have reads := reads_le inside found
  rw [BlockGraph.operandTags, runTags_upTo, onTop]
  simp only [List.length_reverse, List.length_take, List.length_append, List.length_drop]
  omega

/-- The operands of an instruction carry the tags that the abstract stack says. -/
theorem getElem?_operandTags {graph : BlockGraph} {stack : List Nat} {block : Block} {index : Nat}
    {instruction : Instruction} (inside : index ∈ block.indices)
    (found : graph.code.instruction? index = some instruction)
    (enough : (ofBlock graph.code block).taken ≤ stack.length) (place : Nat) :
    (graph.operandTags stack block index instruction)[place]? =
      (operandsAt graph.code block index instruction)[place]?.bind (Operand.tag? stack) := by
  have length := length_operandTags inside found enough
  unfold BlockGraph.operandTags operandsAt at *
  rw [runTags_upTo] at *
  rw [List.length_reverse] at length
  rcases Nat.lt_or_ge place instruction.reads with taken | beyond
  · rw [List.getElem?_reverse (by omega), length, getElem?_take_onTop,
      List.getElem?_reverse (by rw [length_popped]; omega), length_popped]
  · rw [List.getElem?_eq_none (by rw [List.length_reverse]; omega),
      List.getElem?_eq_none (by rw [List.length_reverse, length_popped]; omega)]
    rfl

/-- After a block the deepest tags are those that pass through it; its own lie above them. -/
theorem reverse_runTags (code : Sequence) (block : Block) {stack : List Nat} {passes : Nat}
    (length : stack.length = passes + (ofBlock code block).taken) :
    (code.runTags stack block.indices).reverse =
      stack.reverse.take passes ++ (ofBlock code block).stack.reverse := by
  rw [runTags_indices, onTop, List.reverse_append]
  congr 1
  rw [List.reverse_drop, length]
  congr 1
  omega

end LocalFlow

namespace BlockGraph

section Accepted

variable {code : Sequence} {flow : FlowGraph} (padded : flow.PadsBlocks (.ofCode code))
  (balanced : flow.Balanced)
include padded balanced

/-- A walk leaves as many tags as the next block takes values. -/
theorem Walk.length_eq {number : Nat} {stack : List Nat} (walk : (ofCode code).Walk number stack)
    {block : Block} (present : (ofCode code).blocks[number]? = some block) :
    stack.length = (flow.blockFlow number).ins.length := by
  induction walk generalizing block with
  | entry =>
      rw [balanced.entry block (by rw [padded.graph_eq]; exact present)]
      rfl
  | @step number successor origin stack _ found listed ih =>
      have taken := padded.taken_le found
      have offered := padded.length_outs found
      have gained := LocalFlow.length_boundary code origin
      have agreed := balanced.edge number origin (by rw [padded.graph_eq]; exact found) successor
        listed
      have before := ih found
      rw [agreed, LocalFlow.runTags_indices]
      simp only [code_ofCode, LocalFlow.onTop, LocalFlow.boundary, List.length_append,
        List.length_drop, List.length_map, List.length_reverse, List.length_range] at *
      omega

/-- A walk leaves enough tags for the block that it leads to. -/
theorem Walk.taken_le {number : Nat} {stack : List Nat} (walk : (ofCode code).Walk number stack)
    {block : Block} (present : (ofCode code).blocks[number]? = some block) :
    (LocalFlow.ofBlock code block).taken ≤ stack.length := by
  rw [walk.length_eq padded balanced present]
  exact padded.taken_le present

/-- The suppliers of an instruction are the tags of its operands after the walks to its block. -/
theorem supplies_iff {number index place supplier : Nat} {block : Block}
    {instruction : Instruction} (present : (ofCode code).blocks[number]? = some block)
    (inside : index ∈ block.indices) (found : code.instruction? index = some instruction) :
    (ofCode code).Supplies supplier index place ↔
      ∃ stack operand, (ofCode code).Walk number stack ∧
        (LocalFlow.operandsAt code block index instruction)[place]? = some operand ∧
        operand.tag? stack = some supplier := by
  constructor
  · rintro ⟨other, block', stack, instruction', walk, present', inside', found', tagged⟩
    obtain ⟨rfl, rfl⟩ := block_unique present' inside' present inside
    obtain rfl : instruction' = instruction := Option.some.inj (found'.symm.trans found)
    rw [LocalFlow.getElem?_operandTags inside found' (walk.taken_le padded balanced present),
      Option.bind_eq_some_iff] at tagged
    obtain ⟨operand, taken, tagged⟩ := tagged
    exact ⟨stack, operand, walk, taken, tagged⟩
  · rintro ⟨stack, operand, walk, taken, tagged⟩
    refine ⟨number, block, stack, instruction, walk, present, inside, found, ?_⟩
    rw [LocalFlow.getElem?_operandTags inside found (walk.taken_le padded balanced present),
      code_ofCode, taken]
    exact tagged

omit padded balanced in
/-- A block that is reached is reached by a walk on which it has not run. -/
theorem exists_fresh_walk {number : Nat} {block : Block}
    (reached : (ofCode code).Reached number)
    (present : (ofCode code).blocks[number]? = some block) :
    ∃ stack, (ofCode code).Walk number stack ∧ ∀ tag ∈ stack, tag ∉ block.indices := by
  -- A walk either leaves no tag of the block, or has come to the block in that way before.
  have either {last : Nat} {stack : List Nat} (walk : (ofCode code).Walk last stack) :
      (∃ stack, (ofCode code).Walk number stack ∧ ∀ tag ∈ stack, tag ∉ block.indices) ∨
        ∀ tag ∈ stack, tag ∉ block.indices := by
    induction walk with
    | entry => exact .inr fun tag listed => by cases listed
    | @step last successor origin stack walk found listed ih =>
        rcases ih with before | clean
        · exact .inl before
        · by_cases here : last = number
          · subst here
            exact .inl ⟨stack, walk, clean⟩
          · refine .inr fun tag pushed inside => ?_
            rcases Sequence.mem_runTags pushed with old | own
            · exact clean tag old inside
            · exact here (block_unique found own present inside).1
  obtain ⟨stack, walk⟩ := reached.exists_walk
  rcases either walk with before | clean
  · exact before
  · exact ⟨stack, walk, clean⟩

/-- No operand of an instruction that is reached comes from that instruction alone. -/
theorem exists_other_supplier {number index place : Nat} {block : Block}
    {instruction : Instruction} (reached : (ofCode code).Reached number)
    (present : (ofCode code).blocks[number]? = some block) (inside : index ∈ block.indices)
    (found : code.instruction? index = some instruction) (taken : place < instruction.reads) :
    ∃ supplier, supplier ≠ index ∧ (ofCode code).Supplies supplier index place := by
  obtain ⟨stack, walk, fresh⟩ := exists_fresh_walk reached present
  have length : ((ofCode code).operandTags stack block index instruction).length =
      instruction.reads :=
    LocalFlow.length_operandTags inside found (walk.taken_le padded balanced present)
  rw [← length] at taken
  obtain ⟨tag, tagged⟩ :
      ∃ tag, ((ofCode code).operandTags stack block index instruction)[place]? = some tag :=
    ⟨_, List.getElem?_eq_getElem taken⟩
  refine ⟨tag, ?_, number, block, stack, instruction, walk, present, inside, found, tagged⟩
  have pushed := List.mem_of_mem_take (List.mem_reverse.mp (List.mem_of_getElem? tagged))
  rcases Sequence.mem_runTags pushed with old | own
  · rintro rfl
    exact fresh tag old inside
  · simp only [Block.indicesBefore, List.mem_range'_1] at own
    omega

end Accepted

end BlockGraph

end StackCode
