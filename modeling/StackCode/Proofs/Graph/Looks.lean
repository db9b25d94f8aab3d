import StackCode.Proofs.Graph.Balance

/-!
# How long the exchange of values takes

A padded block is looked at again, so that blocks on a loop can pad one another
over and over, and a block that follows itself can be padded in the middle of its
own look.  But the inputs of a block only grow, and not beyond the number of
values that the code pushes.  So the exchange ends for every code, balanced or
not, and the number of its looks is bounded.
-/

namespace StackCode

namespace FlowGraph

/-- The exchange comes to one outcome only, and after one number of looks. -/
theorem Exchange.Settles.unique {graph : BlockGraph} {limit looks others : Nat}
    {exchange : Exchange} {outcome other : Except GraphError (Array DataFlow)}
    (first : exchange.Settles graph limit looks outcome)
    (second : exchange.Settles graph limit others other) : looks = others ∧ outcome = other := by
  -- the list of work and the look at its head decide which case it is on both sides
  induction first generalizing others with
  | done emptied =>
      cases second with
      | done => exact ⟨rfl, rfl⟩
      | fails listed => cases emptied.symm.trans listed
      | look listed => cases emptied.symm.trans listed
  | fails listed failed =>
      cases second with
      | done emptied => cases emptied.symm.trans listed
      | fails listed' failed' =>
          obtain ⟨rfl, rfl⟩ := List.cons.inj (listed.symm.trans listed')
          exact ⟨rfl, congrArg _ (Except.error.inj (failed.symm.trans failed'))⟩
      | look listed' supplied =>
          obtain ⟨rfl, rfl⟩ := List.cons.inj (listed.symm.trans listed')
          cases failed.symm.trans supplied
  | look listed supplied _ ih =>
      cases second with
      | done emptied => cases emptied.symm.trans listed
      | fails listed' failed =>
          obtain ⟨rfl, rfl⟩ := List.cons.inj (listed.symm.trans listed')
          cases supplied.symm.trans failed
      | look listed' supplied' settles =>
          obtain ⟨rfl, rfl⟩ := List.cons.inj (listed.symm.trans listed')
          obtain rfl := Except.ok.inj (supplied.symm.trans supplied')
          exact (ih settles).imp_left (congrArg Nat.succ)

/--
Looking at blocks until none is left to look at comes to one outcome, after one
number of looks.  There are at most as many looks as there are blocks, times the
number of values that the code pushes plus one, and the outcome is the answer of
the exchange.  Where it does not fail, every block offers at least as many values
as each of its successors takes.
-/
theorem exchange_ends_in_time {code : Sequence} {graph : BlockGraph}
    (built : BlockGraph.build code = .ok graph) :
    (∃ looks ≤ graph.blocks.size * ((code.code.toList.map Instruction.writes).sum + 1),
      ∃ outcome, (∀ others other,
        (Exchange.start (ofBlocks graph)).Settles graph (pushes code) others other ↔
          others = looks ∧ other = outcome) ∧
        (ofBlocks graph).exchange = outcome.map fun blocks => { ofBlocks graph with blocks }) ∧
    ∀ flow, (ofBlocks graph).exchange = .ok flow →
      ∀ (number : Nat) (block : Block), graph.blocks[number]? = some block →
        ∀ successor ∈ block.successors,
          (flow.blockFlow successor).ins.length ≤ (flow.blockFlow number).outs.length := by
  obtain rfl := BlockGraph.ofCode_of_build built
  constructor
  · have modest := Exchange.start_modest code (pushes code)
    obtain ⟨looks, spent, ends⟩ := modest.settles (Exchange.start_provided code)
    have within := Nat.le_trans spent (Exchange.effort_start_le _ (pushes code))
    obtain ⟨outcome, settles⟩ : ∃ outcome, (Exchange.start (ofBlocks (.ofCode code))).Settles
        (.ofCode code) (pushes code) looks outcome := by
      rcases ends with ⟨last, settles, -⟩ | ⟨error, settles, -⟩
      · exact ⟨_, settles⟩
      · exact ⟨_, settles⟩
    refine ⟨looks, ?_, outcome, fun others other => ⟨fun again => again.unique settles, ?_⟩,
      exchange_eq_of_settles settles within⟩
    · have size : (ofBlocks (.ofCode code)).blocks.size = (BlockGraph.ofCode code).blocks.size :=
        modest.size
      rwa [← size, ← pushes_eq_sum]
    · rintro ⟨rfl, rfl⟩
      exact settles
  · intro flow exchanged
    rcases exchange_ends code with ⟨flow', ended, -, provided, -⟩ | ⟨error, ended, -⟩
    · obtain rfl := Except.ok.inj (exchanged.symm.trans ended)
      exact provided
    · cases exchanged.symm.trans ended

/-- A loop of which every round takes one value more than it pushes. -/
def drainingLoop : Sequence where
  name := "<compiled>"
  kind := .top
  code := #[.putNil, .pop, .putSelf, .branchIf 0, .putNil, .leave]
  labels := #[some 1]
  locals := []
  parameters := .none
  handlers := []

/--
The block of the loop is padded until it takes more values than the code pushes;
the arms of a choice are padded once, and then provide for the sum after it.
-/
theorem exchange_ends_in_time_drainingLoop :
    BlockGraph.build drainingLoop = .ok (.ofCode drainingLoop) ∧
    (∃ looks ≤ 12, ∀ others other,
      (Exchange.start (ofBlocks (.ofCode drainingLoop))).Settles (.ofCode drainingLoop) 3
        others other ↔ others = looks ∧ other = .error (.flowImbalance 1 none 3 4)) ∧
    BlockGraph.build onePlusChoice = .ok (.ofCode onePlusChoice) ∧
    ∃ flow, (ofBlocks (.ofCode onePlusChoice)).exchange = .ok flow ∧
      (flow.blockFlow 1).ins = [.pass 0] ∧
      (flow.blockFlow 3).ins.length ≤ (flow.blockFlow 1).outs.length := by
  have draining : BlockGraph.build drainingLoop = .ok (.ofCode drainingLoop) := rfl
  have choosing : BlockGraph.build onePlusChoice = .ok (.ofCode onePlusChoice) := rfl
  obtain ⟨⟨looks, within, outcome, only, answers⟩, -⟩ := exchange_ends_in_time draining
  obtain ⟨-, provided⟩ := exchange_ends_in_time choosing
  refine ⟨draining, ⟨looks, within, ?_⟩, choosing, ?_⟩
  · have failed : (ofBlocks (.ofCode drainingLoop)).exchange =
        .error (.flowImbalance 1 none 3 4) := rfl
    cases outcome with
    | ok blocks => cases failed.symm.trans answers
    | error error =>
        obtain rfl := Except.error.inj (failed.symm.trans answers)
        exact only
  · have padded : (ofBlocks (.ofCode onePlusChoice)).exchange.toOption.any (fun flow =>
        (flow.blockFlow 1).ins = [.pass 0]) = true := by
      decide +kernel
    obtain ⟨flow, exchanged, passes⟩ := exists_of_any padded
    exact ⟨flow, exchanged, of_decide_eq_true passes,
      provided flow exchanged 1 _ rfl 3 (by decide)⟩

end FlowGraph

end StackCode
