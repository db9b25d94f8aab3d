import StackCode.Proofs.Attempts
import StackCode.Proofs.Graph.LocalFlow

/-!
# What the exchange of values does

The exchange between blocks only lets values pass through them.  So each block
of a flow graph has the inputs and outputs that its code asks for, above a row
of values that pass through; and if the graph is accepted, the numbers of values
agree on every edge.
-/

namespace StackCode

namespace DataFlow

/-- The flow of a block through which some more values pass. -/
def through (flow : DataFlow) (passes : List Nat) : DataFlow where
  ins := passes.map .pass ++ flow.ins
  outs := passes.map .pass ++ flow.outs

theorem pad_eq (flow : DataFlow) (first count : Nat) :
    flow.pad first count = flow.through (List.range' first count) := rfl

theorem through_nil (flow : DataFlow) : flow.through [] = flow := rfl

theorem through_through (flow : DataFlow) (earlier later : List Nat) :
    (flow.through earlier).through later = flow.through (later ++ earlier) := by
  simp [through]

end DataFlow

namespace FlowGraph

/-- At the start a block takes and offers what its code does. -/
theorem getElem?_ofBlocks {graph : BlockGraph} {number : Nat} {block : Block}
    (found : graph.blocks[number]? = some block) :
    (ofBlocks graph).blocks[number]? = some (LocalFlow.ofBlock graph.code block).boundary := by
  simp [ofBlocks, found]

/-- Each block is as at the start, but for different values that pass through it. -/
structure Exchange.Pads (blocks : Array DataFlow) (exchange : Exchange) : Prop where
  size : exchange.passing.size = blocks.size
  block : ∀ (number : Nat) (flow : DataFlow), blocks[number]? = some flow →
    ∃ passes : List Nat, exchange.blocks[number]? = some (flow.through passes) ∧ passes.Nodup ∧
      ∀ pass ∈ passes, pass < exchange.passing[number]?.getD 0

namespace Exchange.Pads

variable {blocks : Array DataFlow} {exchange next : Exchange} {graph : BlockGraph}
  {limit need number : Nat}

theorem provide (pads : exchange.Pads blocks)
    (done : provide graph limit need exchange number = .ok next) : next.Pads blocks := by
  unfold FlowGraph.provide at done
  dsimp only at done
  split at done
  · obtain rfl := Except.ok.inj done
    exact pads
  · split at done
    · cases done
    · obtain rfl := Except.ok.inj done
      refine ⟨by simpa using pads.size, fun other flow found => ?_⟩
      obtain ⟨passes, padded, different, bounded⟩ := pads.block other flow found
      have inside : other < blocks.size := (Array.getElem?_eq_some_iff.mp found).1
      have present : other < exchange.blocks.size := (Array.getElem?_eq_some_iff.mp padded).1
      by_cases same : number = other
      · subst same
        -- the new passes are numbered from where the old ones end
        generalize need - (exchange.blocks[number]?.getD default).outs.length = missing
        refine ⟨List.range' (exchange.passing[number]?.getD 0) missing ++ passes, ?_, ?_, ?_⟩
        · simp only [Array.set!_eq_setIfInBounds, Array.getElem?_setIfInBounds_self_of_lt present,
            padded, Option.getD_some, DataFlow.pad_eq, DataFlow.through_through]
        · refine List.nodup_append.mpr ⟨List.nodup_range', different, ?_⟩
          intro first fresh second old same
          have high := (List.mem_range'_1.mp fresh).1
          have low := bounded second old
          omega
        · intro pass listed
          simp only [Array.set!_eq_setIfInBounds, Array.getElem?_setIfInBounds_self, pads.size,
            inside, if_true, Option.getD_some]
          rcases List.mem_append.mp listed with fresh | old
          · exact (List.mem_range'_1.mp fresh).2
          · exact Nat.lt_of_lt_of_le (bounded pass old) (Nat.le_add_right _ _)
      · refine ⟨passes, ?_, different, ?_⟩
        · simpa [Array.getElem?_setIfInBounds_ne same] using padded
        · simpa [Array.getElem?_setIfInBounds_ne same] using bounded

theorem supply (pads : exchange.Pads blocks)
    (done : supply graph limit exchange number = .ok next) : next.Pads blocks :=
  foldlM_ok done pads fun _ _ _ _ pads done => pads.provide done

theorem start (flow : FlowGraph) : (Exchange.start flow).Pads flow.blocks where
  size := by simp [Exchange.start]
  block number block found := ⟨[], found, List.nodup_nil, by simp⟩

end Exchange.Pads

theorem settle_nil {exchange : Exchange} (listed : exchange.work = []) (graph : BlockGraph)
    (limit budget : Nat) : settle graph limit budget exchange = some (.ok exchange.blocks) := by
  rw [settle.eq_def]
  dsimp only
  rw [listed]

theorem settle_cons {exchange : Exchange} {block : Nat} {rest : List Nat}
    (listed : exchange.work = block :: rest) (graph : BlockGraph) (limit budget : Nat) :
    settle graph limit (budget + 1) exchange =
      match supply graph limit { exchange with work := rest } block with
      | .ok exchange => settle graph limit budget exchange
      | .error error => some (.error error) := by
  obtain ⟨blocks, passing, work⟩ := exchange
  obtain rfl : work = block :: rest := listed
  rfl

/-- The exchange comes to an outcome after some looks, without any bound on their number. -/
inductive Exchange.Settles (graph : BlockGraph) (limit : Nat) :
    Exchange → Nat → Except GraphError (Array DataFlow) → Prop where
  | done {exchange : Exchange} :
      exchange.work = [] → Settles graph limit exchange 0 (.ok exchange.blocks)
  | fails {exchange : Exchange} {block : Nat} {rest : List Nat} {error : GraphError} :
      exchange.work = block :: rest →
      supply graph limit { exchange with work := rest } block = .error error →
      Settles graph limit exchange 1 (.error error)
  | look {exchange next : Exchange} {block looks : Nat} {rest : List Nat}
      {outcome : Except GraphError (Array DataFlow)} :
      exchange.work = block :: rest →
      supply graph limit { exchange with work := rest } block = .ok next →
      Settles graph limit next looks outcome → Settles graph limit exchange (looks + 1) outcome

/-- A budget allows for an outcome if and only if the exchange comes to it within so many looks. -/
theorem settle_eq_some_iff {graph : BlockGraph} {limit budget : Nat} {exchange : Exchange}
    {outcome : Except GraphError (Array DataFlow)} :
    settle graph limit budget exchange = some outcome ↔
      ∃ looks ≤ budget, exchange.Settles graph limit looks outcome := by
  constructor
  · intro settled
    induction budget generalizing exchange with
    | zero =>
        cases listed : exchange.work with
        | nil =>
            rw [settle_nil listed] at settled
            obtain rfl := Option.some.inj settled
            exact ⟨0, Nat.le_refl 0, .done listed⟩
        | cons block rest =>
            rw [settle.eq_def] at settled
            dsimp only at settled
            rw [listed] at settled
            cases settled
    | succ budget ih =>
        cases listed : exchange.work with
        | nil =>
            rw [settle_nil listed] at settled
            obtain rfl := Option.some.inj settled
            exact ⟨0, Nat.zero_le _, .done listed⟩
        | cons block rest =>
            rw [settle_cons listed] at settled
            split at settled
            · rename_i next supplied
              obtain ⟨looks, within, settles⟩ := ih settled
              exact ⟨looks + 1, Nat.succ_le_succ within, .look listed supplied settles⟩
            · rename_i error failed
              obtain rfl := Option.some.inj settled
              exact ⟨1, Nat.succ_le_succ (Nat.zero_le budget), .fails listed failed⟩
  · rintro ⟨looks, within, settles⟩
    induction settles generalizing budget with
    | done listed => exact settle_nil listed graph limit budget
    | fails listed failed =>
        obtain ⟨budget, rfl⟩ := Nat.exists_eq_add_of_le' within
        rw [settle_cons listed, failed]
    | look listed supplied _ ih =>
        obtain ⟨budget, rfl⟩ := Nat.exists_eq_add_of_le' (Nat.le_trans (Nat.le_add_left 1 _) within)
        rw [settle_cons listed, supplied]
        exact ih (Nat.le_of_succ_le_succ within)

/-- The answer of the exchange is what it comes to, if the looks are within its budget. -/
theorem exchange_eq_of_settles {flow : FlowGraph} {looks : Nat}
    {outcome : Except GraphError (Array DataFlow)}
    (settles : (Exchange.start flow).Settles flow.graph (pushes flow.graph.code) looks outcome)
    (within : looks ≤ flow.blocks.size * (pushes flow.graph.code + 1)) :
    flow.exchange = outcome.map fun blocks => { flow with blocks } := by
  unfold exchange
  dsimp only
  rw [settle_eq_some_iff.mpr ⟨looks, within, settles⟩]
  cases outcome <;> rfl

theorem Exchange.Settles.pads {blocks settled : Array DataFlow} {graph : BlockGraph}
    {limit looks : Nat} {exchange : Exchange}
    (settles : exchange.Settles graph limit looks (.ok settled)) (pads : exchange.Pads blocks) :
    ∃ last : Exchange, last.blocks = settled ∧ last.Pads blocks := by
  generalize ends : Except.ok settled = outcome at settles
  induction settles with
  | @done exchange _ => exact ⟨exchange, (Except.ok.inj ends).symm, pads⟩
  | fails => cases ends
  | @look exchange _ _ _ rest _ _ supplied _ ih =>
      have unlisted : Exchange.Pads blocks { exchange with work := rest } :=
        ⟨pads.size, pads.block⟩
      exact ih (unlisted.supply supplied) ends

/-- Every block of the flow graph is its code's boundary above some different passing values. -/
structure PadsBlocks (graph : BlockGraph) (flow : FlowGraph) : Prop where
  graph_eq : flow.graph = graph
  instructions_eq : flow.instructions = (ofBlocks graph).instructions
  block : ∀ (number : Nat) (block : Block), graph.blocks[number]? = some block →
    ∃ passes : List Nat, passes.Nodup ∧
      flow.blockFlow number = (LocalFlow.ofBlock graph.code block).boundary.through passes

namespace PadsBlocks

variable {graph : BlockGraph} {flow : FlowGraph} (padded : flow.PadsBlocks graph) {number : Nat}
  {block : Block} (present : graph.blocks[number]? = some block)
include padded present

/-- What a block offers is what it takes and what its code gains. -/
theorem length_outs :
    ((flow.blockFlow number).outs.length : Int) =
      (flow.blockFlow number).ins.length + graph.code.gain block.indices := by
  obtain ⟨passes, -, same⟩ := padded.block number block present
  have own := LocalFlow.length_boundary graph.code block
  rw [same]
  simp only [DataFlow.through, List.length_append, List.length_map] at own ⊢
  omega

/-- A block takes at least what its code takes from below. -/
theorem taken_le :
    (LocalFlow.ofBlock graph.code block).taken ≤ (flow.blockFlow number).ins.length := by
  obtain ⟨passes, -, same⟩ := padded.block number block present
  rw [same]
  simp [DataFlow.through, LocalFlow.boundary]

end PadsBlocks

theorem exchange_pads {graph : BlockGraph} {flow : FlowGraph}
    (done : (ofBlocks graph).exchange = .ok flow) : flow.PadsBlocks graph := by
  unfold exchange at done
  dsimp only at done
  split at done
  · rename_i settled ended
    obtain ⟨blocks, rfl, done⟩ := bind_eq_ok_iff.mp done
    obtain rfl := Except.ok.inj done
    obtain ⟨looks, -, settles⟩ := settle_eq_some_iff.mp ended
    obtain ⟨last, rfl, pads⟩ := settles.pads (.start _)
    refine ⟨rfl, rfl, fun number block found => ?_⟩
    obtain ⟨passes, padded, different, -⟩ := pads.block number _ (getElem?_ofBlocks found)
    exact ⟨passes, different, by simp [blockFlow, padded]⟩
  · obtain rfl := Except.ok.inj done
    refine ⟨rfl, rfl, fun number block found => ⟨[], List.nodup_nil, ?_⟩⟩
    simp [blockFlow, getElem?_ofBlocks found, DataFlow.through_nil]

structure Balanced (flow : FlowGraph) : Prop where
  entry : ∀ block, flow.graph.blocks[0]? = some block → (flow.blockFlow 0).ins = []
  exit : ∀ (number : Nat) (block : Block), flow.graph.blocks[number]? = some block →
    block.successors = [] → (flow.blockFlow number).outs = []
  edge : ∀ (number : Nat) (block : Block), flow.graph.blocks[number]? = some block →
    ∀ successor ∈ block.successors,
      (flow.blockFlow successor).ins.length = (flow.blockFlow number).outs.length

theorem mem_numbered {graph : BlockGraph} {number : Nat} {block : Block} :
    (number, block) ∈ graph.numbered ↔ graph.blocks[number]? = some block := by
  rw [BlockGraph.numbered, List.mem_map]
  constructor
  · rintro ⟨⟨block, number⟩, listed, same⟩
    obtain ⟨rfl, rfl⟩ := Prod.mk.inj same
    simpa [List.mem_zipIdx_iff_getElem?] using listed
  · intro found
    exact ⟨(block, number), by simpa [List.mem_zipIdx_iff_getElem?] using found, rfl⟩

theorem checkBlock_ok {flow : FlowGraph} {number : Nat} {block : Block}
    (passed : flow.checkBlock number block = .ok ()) :
    (number = 0 → (flow.blockFlow number).ins = []) ∧
    (block.successors = [] → (flow.blockFlow number).outs = []) ∧
    ∀ successor ∈ block.successors,
      (flow.blockFlow successor).ins.length = (flow.blockFlow number).outs.length := by
  unfold checkBlock at passed
  dsimp only at passed
  split at passed
  · cases passed
  · rename_i entry
    split at passed
    · cases passed
    · rename_i exit
      refine ⟨fun first => ?_, fun last => ?_, fun successor listed => ?_⟩
      · exact Decidable.byContradiction fun taken => entry ⟨first, taken⟩
      · exact Decidable.byContradiction fun left => exit ⟨last, left⟩
      · have agreed := forM_eq_ok_iff.mp passed successor listed
        split at agreed
        · cases agreed
        · rename_i agrees
          exact Decidable.of_not_not agrees

theorem balanced_of_check {flow : FlowGraph} (passed : flow.check = .ok ()) : flow.Balanced := by
  have each (number : Nat) (block : Block) (found : flow.graph.blocks[number]? = some block) :=
    checkBlock_ok (forM_eq_ok_iff.mp passed (number, block) (mem_numbered.mpr found))
  exact ⟨fun block found => (each 0 block found).1 rfl,
    fun number block found => (each number block found).2.1,
    fun number block found => (each number block found).2.2⟩

/-- What is known of the flow graph of an accepted block graph. -/
theorem build_ok {graph : BlockGraph} {flow : FlowGraph} (built : build graph = .ok flow) :
    flow.PadsBlocks graph ∧ flow.Balanced := by
  obtain ⟨padded, exchanged, built⟩ := bind_eq_ok_iff.mp built
  obtain ⟨⟨⟩, passed, built⟩ := bind_eq_ok_iff.mp built
  obtain rfl := Except.ok.inj built
  exact ⟨exchange_pads exchanged, balanced_of_check passed⟩

end FlowGraph

end StackCode
