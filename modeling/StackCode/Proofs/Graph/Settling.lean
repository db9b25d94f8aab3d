import Mathlib.Algebra.Order.BigOperators.Group.Finset
import StackCode.Proofs.Graph.Depths
import StackCode.Proofs.Graph.Exchange

/-!
# The exchange of values settles

To look at a block is to pad those of its predecessors that offer too little.
What keeps a turn of the exchange is this: whatever is not on the list of work
is provided for, and no block takes more than it finds in a balanced sequence.
A padded block is put on the list, but it also comes closer to the limit, so the
list is empty before the budget is used up.
-/

namespace StackCode

namespace BlockGraph

theorem mem_predecessors {code : Sequence} {number predecessor : Nat} :
    predecessor ∈ (ofCode code).predecessors number ↔
      ∃ before, (ofCode code).blocks[predecessor]? = some before ∧
        number ∈ before.successors := by
  cases found : (ofCode code).blocks[number]? with
  | some block =>
      rw [predecessors, found]
      exact mem_predecessors_iff found
  | none =>
      rw [predecessors, found]
      constructor
      · rintro ⟨⟩
      · rintro ⟨before, present, listed⟩
        obtain ⟨following, some⟩ := exists_successor present listed
        rw [found] at some
        cases some

structure DepthsWithin (graph : BlockGraph) (limit : Nat) (depth : Nat → Nat) : Prop where
  depths : graph.Depths depth
  within : ∀ number < graph.blocks.size, depth number ≤ limit

end BlockGraph

namespace FlowGraph

namespace Exchange

def takes (exchange : Exchange) (number : Nat) : Nat :=
  (exchange.blocks[number]?.getD default).ins.length

def offers (exchange : Exchange) (number : Nat) : Nat :=
  (exchange.blocks[number]?.getD default).outs.length

/-- The looks that are still due, and the paddings that the limit still allows. -/
def effort (limit : Nat) (exchange : Exchange) : Nat :=
  exchange.work.length +
    ∑ number ∈ Finset.range exchange.blocks.size, (limit - exchange.takes number)

/-! ## One padding -/

structure Widened (exchange next : Exchange) (need number : Nat) : Prop where
  size : next.blocks.size = exchange.blocks.size
  short : exchange.offers number < need
  offers : next.offers number = need
  takes : next.takes number = exchange.takes number + (need - exchange.offers number)
  frame : ∀ other, other ≠ number →
    next.takes other = exchange.takes other ∧ next.offers other = exchange.offers other
  work : next.work = number :: exchange.work

/-- A block offers enough, or it is padded, or the padding exceeds the limit. -/
theorem provide_cases (graph : BlockGraph) (limit need : Nat) {exchange : Exchange} {number : Nat}
    (present : number < exchange.blocks.size) :
    (need ≤ exchange.offers number ∧ provide graph limit need exchange number = .ok exchange) ∨
    (∃ next, provide graph limit need exchange number = .ok next ∧
      Widened exchange next need number ∧ next.takes number ≤ limit) ∨
    (∃ error, provide graph limit need exchange number = .error error ∧
      limit < exchange.takes number + (need - exchange.offers number)) := by
  unfold provide
  dsimp only
  split
  · rename_i enough
    exact .inl ⟨Nat.sub_eq_zero_iff_le.mp enough, rfl⟩
  · rename_i missing
    have short : exchange.offers number < need := Nat.lt_of_sub_ne_zero missing
    generalize room : exchange.passing[number]?.getD 0 = first
    have longer (values : List FlowRef) : ((List.range' first
        (need - exchange.offers number)).map FlowRef.pass ++ values).length =
          values.length + (need - exchange.offers number) := by
      simp [Nat.add_comm]
    split
    · rename_i beyond
      refine .inr (.inr ⟨_, rfl, ?_⟩)
      simp only [DataFlow.pad_eq, DataFlow.through] at beyond
      exact longer _ ▸ beyond
    · rename_i inside
      refine .inr (.inl ⟨_, rfl, ?_, ?_⟩)
      · constructor
        case size => simp
        case short => exact short
        case offers =>
          simp only [Exchange.offers, Array.set!_eq_setIfInBounds,
            Array.getElem?_setIfInBounds_self_of_lt present, Option.getD_some, DataFlow.pad_eq,
            DataFlow.through]
          refine (longer _).trans ?_
          simp only [Exchange.offers] at short ⊢
          omega
        case takes =>
          simp only [Exchange.takes, Array.set!_eq_setIfInBounds,
            Array.getElem?_setIfInBounds_self_of_lt present, Option.getD_some, DataFlow.pad_eq,
            DataFlow.through]
          exact longer _
        case frame =>
          intro other different
          simp [Exchange.takes, Exchange.offers,
            Array.getElem?_setIfInBounds_ne (Ne.symm different)]
        case work => rfl
      · simp only [Exchange.takes, Array.set!_eq_setIfInBounds,
          Array.getElem?_setIfInBounds_self_of_lt present, Option.getD_some]
        exact Nat.le_of_not_lt inside

namespace Widened

variable {exchange next : Exchange} {need number : Nat}
  (widened : Widened exchange next need number)
include widened

theorem takes_le (other : Nat) : exchange.takes other ≤ next.takes other := by
  by_cases same : other = number
  · rw [same, widened.takes]
    exact Nat.le_add_right _ _
  · exact Nat.le_of_eq (widened.frame other same).1.symm

theorem offers_le (other : Nat) : exchange.offers other ≤ next.offers other := by
  by_cases same : other = number
  · rw [same, widened.offers]
    exact Nat.le_of_lt widened.short
  · exact Nat.le_of_eq (widened.frame other same).2.symm

/-- A padding makes up for the look that it asks for. -/
theorem effort_le {limit : Nat} (present : number < exchange.blocks.size)
    (within : next.takes number ≤ limit) : next.effort limit ≤ exchange.effort limit := by
  have less : ∑ other ∈ Finset.range exchange.blocks.size, (limit - next.takes other) <
      ∑ other ∈ Finset.range exchange.blocks.size, (limit - exchange.takes other) := by
    apply Finset.sum_lt_sum
    · intro other _
      exact Nat.sub_le_sub_left (widened.takes_le other) limit
    · refine ⟨number, Finset.mem_range.mpr present, ?_⟩
      have grown := widened.takes
      have short := widened.short
      omega
  rw [effort, effort, widened.size, widened.work, List.length_cons]
  omega

end Widened

/-! ## What a turn keeps -/

/-- The blocks are padded, but take no more than in a balanced sequence within the limit. -/
structure Modest (code : Sequence) (limit : Nat) (exchange : Exchange) : Prop where
  pads : exchange.Pads (ofBlocks (.ofCode code)).blocks
  size : exchange.blocks.size = (BlockGraph.ofCode code).blocks.size
  least : ∀ depth, (BlockGraph.ofCode code).DepthsWithin limit depth →
    ∀ number < (BlockGraph.ofCode code).blocks.size, exchange.takes number ≤ depth number

def Provided (graph : BlockGraph) (exchange : Exchange) : Prop :=
  ∀ number, number ∉ exchange.work → ∀ predecessor ∈ graph.predecessors number,
    exchange.takes number ≤ exchange.offers predecessor

/--
In the middle of a look at a block, with some of its predecessors still to come.
The block itself may be among its predecessors; if it is padded, it is on the
list of work again.
-/
structure Looking (graph : BlockGraph) (need block : Nat) (pending : List Nat)
    (exchange : Exchange) : Prop where
  least : need ≤ exchange.takes block
  same : block ∉ exchange.work → exchange.takes block = need
  provided : ∀ number, number ∉ exchange.work → ∀ predecessor ∈ graph.predecessors number,
    (number = block → predecessor ∉ pending) → exchange.takes number ≤ exchange.offers predecessor

namespace Modest

variable {code : Sequence} {limit need block predecessor : Nat} {exchange next : Exchange}

/-- What a block takes and offers is what its code does, above the same number of passes. -/
theorem exists_passes (modest : exchange.Modest code limit) {number : Nat} {block : Block}
    (found : (BlockGraph.ofCode code).blocks[number]? = some block) :
    ∃ passes, exchange.takes number = passes + block.draws code ∧
      exchange.offers number = passes + block.yields code := by
  obtain ⟨passes, padded, -, -⟩ := modest.pads.block number _ (getElem?_ofBlocks found)
  rw [takes, Exchange.offers, padded]
  exact ⟨passes.length, LocalFlow.length_through code block passes⟩

/-- In a balanced sequence a block finds what it takes to provide for a successor. -/
theorem padded_le (modest : exchange.Modest code limit)
    (edge : predecessor ∈ (BlockGraph.ofCode code).predecessors block)
    (least : need ≤ exchange.takes block) {depth : Nat → Nat}
    (within : (BlockGraph.ofCode code).DepthsWithin limit depth) :
    exchange.takes predecessor + (need - exchange.offers predecessor) ≤ depth predecessor := by
  obtain ⟨before, found, listed⟩ := BlockGraph.mem_predecessors.mp edge
  obtain ⟨following, present⟩ := BlockGraph.exists_successor found listed
  obtain ⟨passes, taken, offered⟩ := modest.exists_passes found
  have enough := within.depths.enough predecessor before found
  have along := within.depths.edge predecessor before found block listed
  have own := modest.least depth within predecessor (Array.getElem?_eq_some_iff.mp found).1
  have next := modest.least depth within block (Array.getElem?_eq_some_iff.mp present).1
  rw [BlockGraph.code_ofCode] at enough along
  omega

theorem lt_size (modest : exchange.Modest code limit)
    (edge : predecessor ∈ (BlockGraph.ofCode code).predecessors block) :
    predecessor < exchange.blocks.size := by
  obtain ⟨before, found, -⟩ := BlockGraph.mem_predecessors.mp edge
  rw [modest.size]
  exact (Array.getElem?_eq_some_iff.mp found).1

theorem widen (modest : exchange.Modest code limit)
    (edge : predecessor ∈ (BlockGraph.ofCode code).predecessors block)
    (least : need ≤ exchange.takes block)
    (done : provide (.ofCode code) limit need exchange predecessor = .ok next)
    (widened : Widened exchange next need predecessor) : next.Modest code limit where
  pads := modest.pads.provide done
  size := widened.size.trans modest.size
  least depth within number inside := by
    by_cases same : number = predecessor
    · rw [same, widened.takes]
      exact modest.padded_le edge least within
    · rw [(widened.frame number same).1]
      exact modest.least depth within number inside

end Modest

theorem Looking.widen {graph : BlockGraph} {need block predecessor : Nat} {pending : List Nat}
    {exchange next : Exchange}
    (looking : exchange.Looking graph need block (predecessor :: pending))
    (widened : Widened exchange next need predecessor) :
    next.Looking graph need block pending where
  least := Nat.le_trans looking.least (widened.takes_le block)
  same unlisted := by
    rw [widened.work, List.mem_cons, not_or] at unlisted
    rw [(widened.frame block unlisted.1).1]
    exact looking.same unlisted.2
  provided number unlisted other edge ahead := by
    rw [widened.work, List.mem_cons, not_or] at unlisted
    rw [(widened.frame number unlisted.1).1]
    by_cases here : number = block ∧ other = predecessor
    · obtain ⟨rfl, rfl⟩ := here
      rw [looking.same unlisted.2, widened.offers]
    · refine Nat.le_trans (looking.provided number unlisted.2 other edge ?_)
        (widened.offers_le other)
      intro same listed
      rcases List.mem_cons.mp listed with first | later
      · exact here ⟨same, first⟩
      · exact ahead same later

theorem Looking.skip {graph : BlockGraph} {need block predecessor : Nat} {pending : List Nat}
    {exchange : Exchange} (looking : exchange.Looking graph need block (predecessor :: pending))
    (enough : need ≤ exchange.offers predecessor) :
    exchange.Looking graph need block pending where
  least := looking.least
  same := looking.same
  provided number unlisted other edge ahead := by
    by_cases here : number = block ∧ other = predecessor
    · obtain ⟨rfl, rfl⟩ := here
      rw [looking.same unlisted]
      exact enough
    · refine looking.provided number unlisted other edge ?_
      intro same listed
      rcases List.mem_cons.mp listed with first | later
      · exact here ⟨same, first⟩
      · exact ahead same later

/-- The predecessors still to come are provided for, unless no depths are within the limit. -/
theorem Looking.finish {code : Sequence} {limit need block : Nat} {pending : List Nat}
    {exchange : Exchange} (modest : exchange.Modest code limit)
    (looking : exchange.Looking (.ofCode code) need block pending)
    (edges : ∀ predecessor ∈ pending,
      predecessor ∈ (BlockGraph.ofCode code).predecessors block) :
    (∃ next, pending.foldlM (provide (.ofCode code) limit need) exchange = .ok next ∧
      next.Modest code limit ∧ next.Looking (.ofCode code) need block [] ∧
      next.effort limit ≤ exchange.effort limit) ∨
    (∃ error, pending.foldlM (provide (.ofCode code) limit need) exchange = .error error ∧
      ∀ depth, ¬ (BlockGraph.ofCode code).DepthsWithin limit depth) := by
  induction pending generalizing exchange with
  | nil => exact .inl ⟨exchange, rfl, modest, looking, Nat.le_refl _⟩
  | cons predecessor pending ih =>
      obtain ⟨edge, edges⟩ := List.forall_mem_cons.mp edges
      have present := modest.lt_size edge
      rw [List.foldlM_cons]
      rcases provide_cases (.ofCode code) limit need present with
        ⟨enough, done⟩ | ⟨next, done, widened, within⟩ | ⟨error, failed, beyond⟩
      · rw [done]
        exact ih modest (looking.skip enough) edges
      · rw [done]
        rcases ih (modest.widen edge looking.least done widened) (looking.widen widened) edges with
          ⟨last, finished, kept, looked, effort⟩ | none
        · exact .inl ⟨last, finished, kept, looked,
            Nat.le_trans effort (widened.effort_le present within)⟩
        · exact .inr none
      · rw [failed]
        refine .inr ⟨error, rfl, fun depth within => ?_⟩
        have needed := modest.padded_le edge looking.least within
        have allowed := within.within predecessor (modest.size ▸ present)
        omega

/-! ## A whole exchange -/

variable {code : Sequence} {limit : Nat} {exchange : Exchange}

/-- One look costs at least one unit of effort, and all else is kept. -/
theorem Modest.supply {block : Nat} {rest : List Nat} (modest : exchange.Modest code limit)
    (provided : exchange.Provided (.ofCode code)) (listed : exchange.work = block :: rest) :
    (∃ next, supply (.ofCode code) limit { exchange with work := rest } block = .ok next ∧
      next.Modest code limit ∧ next.Provided (.ofCode code) ∧
      next.effort limit < exchange.effort limit) ∨
    (∃ error, supply (.ofCode code) limit { exchange with work := rest } block = .error error ∧
      ∀ depth, ¬ (BlockGraph.ofCode code).DepthsWithin limit depth) := by
  have unlisted : Modest code limit { exchange with work := rest } :=
    ⟨⟨modest.pads.size, modest.pads.block⟩, modest.size, modest.least⟩
  have looking : Looking (.ofCode code) (exchange.takes block) block
      ((BlockGraph.ofCode code).predecessors block) { exchange with work := rest } := by
    refine ⟨Nat.le_refl _, fun _ => rfl, ?_⟩
    intro number absent predecessor edge ahead
    by_cases same : number = block
    · exact absurd (same ▸ edge) (ahead same)
    · refine provided number ?_ predecessor edge
      rw [listed, List.mem_cons, not_or]
      exact ⟨same, absent⟩
  have cost : effort limit { exchange with work := rest } < exchange.effort limit := by
    unfold effort
    rw [listed, List.length_cons]
    exact Nat.add_lt_add_right (Nat.lt_succ_self _) _
  rcases looking.finish unlisted fun _ edge => edge with
    ⟨next, finished, kept, looked, effort⟩ | failed
  · refine .inl ⟨next, finished, kept, ?_, Nat.lt_of_le_of_lt effort cost⟩
    intro number absent predecessor edge
    exact looked.provided number absent predecessor edge fun _ => List.not_mem_nil
  · exact .inr failed

/-- The exchange settles within its effort, and fails only if no depths are within the limit. -/
theorem Modest.settles (modest : exchange.Modest code limit)
    (provided : exchange.Provided (.ofCode code)) :
    ∃ looks ≤ exchange.effort limit,
      (∃ last : Exchange, exchange.Settles (.ofCode code) limit looks (.ok last.blocks) ∧
        last.Modest code limit ∧ last.Provided (.ofCode code) ∧ last.work = []) ∨
      (∃ error, exchange.Settles (.ofCode code) limit looks (.error error) ∧
        ∀ depth, ¬ (BlockGraph.ofCode code).DepthsWithin limit depth) := by
  induction spent : exchange.effort limit using Nat.strongRecOn generalizing exchange with
  | ind effort ih =>
      subst spent
      cases listed : exchange.work with
      | nil => exact ⟨0, Nat.zero_le _, .inl ⟨exchange, .done listed, modest, provided, listed⟩⟩
      | cons block rest =>
          rcases modest.supply provided listed with
            ⟨next, done, kept, met, less⟩ | ⟨error, failed, none⟩
          · obtain ⟨looks, within, ends⟩ := ih _ less kept met rfl
            refine ⟨looks + 1, Nat.lt_of_le_of_lt within less, ?_⟩
            rcases ends with ⟨last, settles, last_facts⟩ | ⟨error, settles, none⟩
            · exact .inl ⟨last, .look listed done settles, last_facts⟩
            · exact .inr ⟨error, .look listed done settles, none⟩
          · have due : 1 ≤ exchange.effort limit := by
              rw [Exchange.effort, listed, List.length_cons]
              omega
            exact ⟨1, due, .inr ⟨error, .fails listed failed, none⟩⟩

theorem start_modest (code : Sequence) (limit : Nat) :
    (start (ofBlocks (.ofCode code))).Modest code limit where
  pads := .start _
  size := by simp [start, ofBlocks]
  least depth within number inside := by
    have found := Array.getElem?_eq_getElem inside
    have enough := within.depths.enough number _ found
    rw [takes, start, getElem?_ofBlocks found, Option.getD_some]
    rw [LocalFlow.draws_eq] at enough
    simpa [LocalFlow.boundary] using enough

theorem start_provided (code : Sequence) :
    (start (ofBlocks (.ofCode code))).Provided (.ofCode code) := by
  intro number absent predecessor edge
  obtain ⟨before, found, listed⟩ := BlockGraph.mem_predecessors.mp edge
  obtain ⟨following, present⟩ := BlockGraph.exists_successor found listed
  have inside := (Array.getElem?_eq_some_iff.mp present).1
  exact absurd (by simpa [start, ofBlocks] using inside) absent

theorem effort_start_le (flow : FlowGraph) (limit : Nat) :
    (start flow).effort limit ≤ flow.blocks.size * (limit + 1) := by
  have each : ∑ number ∈ Finset.range flow.blocks.size, (limit - (start flow).takes number) ≤
      flow.blocks.size * limit := by
    have bounded := Finset.sum_le_card_nsmul (Finset.range flow.blocks.size)
      (fun number => limit - (start flow).takes number) limit fun _ _ => Nat.sub_le _ _
    rwa [Finset.card_range, Nat.nsmul_eq_mul] at bounded
  have listed : (start flow).work.length = flow.blocks.size := by simp [start]
  rw [effort, listed, Nat.mul_add, Nat.mul_one, Nat.add_comm]
  exact Nat.add_le_add_right each _

end Exchange

/--
The exchange of values ends.  If it fails there are no depths within the number
of pushes; otherwise every block offers what its successors take, and takes no
more than in a balanced sequence.
-/
theorem exchange_ends (code : Sequence) :
    (∃ flow, (ofBlocks (.ofCode code)).exchange = .ok flow ∧
      flow.blocks.size = (BlockGraph.ofCode code).blocks.size ∧
      (∀ (number : Nat) (block : Block), (BlockGraph.ofCode code).blocks[number]? = some block →
        ∀ successor ∈ block.successors,
          (flow.blockFlow successor).ins.length ≤ (flow.blockFlow number).outs.length) ∧
      ∀ depth, (BlockGraph.ofCode code).DepthsWithin (pushes code) depth →
        ∀ number < (BlockGraph.ofCode code).blocks.size,
          (flow.blockFlow number).ins.length ≤ depth number) ∨
    (∃ error, (ofBlocks (.ofCode code)).exchange = .error error ∧
      ∀ depth, ¬ (BlockGraph.ofCode code).DepthsWithin (pushes code) depth) := by
  obtain ⟨looks, spent, ends⟩ := (Exchange.start_modest code (pushes code)).settles
    (Exchange.start_provided code)
  have within := Nat.le_trans spent (Exchange.effort_start_le _ (pushes code))
  rcases ends with ⟨last, settles, modest, provided, finished⟩ | ⟨error, settles, none⟩
  · have settled := exchange_eq_of_settles settles within
    refine .inl ⟨_, settled, modest.size, ?_, modest.least⟩
    intro number block found successor listed
    refine provided successor ?_ number (BlockGraph.mem_predecessors.mpr ⟨block, found, listed⟩)
    rw [finished]
    exact List.not_mem_nil
  · have failed := exchange_eq_of_settles settles within
    exact .inr ⟨error, failed, none⟩

end FlowGraph

end StackCode
