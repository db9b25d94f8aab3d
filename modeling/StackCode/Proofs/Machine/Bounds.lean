import StackCode.Proofs.Machine.Conservation
import StackCode.Proofs.Machine.Watch

/-!
# What bounds a run

In every state of a watched run the history and the resources add up: each
instruction in it was paid for with a unit of fuel, each call of the host is
counted, and the live frames and the frames that there is room for make up the
call depth.  So an error that reports a limit is raised exactly at the limit.

This holds side by side with the run that is not watched, which is shown to be
the same.
-/

namespace StackCode

def Sight.Allowed (limits : Limits) (earlier : History) : Sight → Prop
  | .event _ context => context.frames.size ≤ limits.callDepth
  | .raise error context =>
      context.frames.size ≤ limits.callDepth ∧
      (error = .fuelExceeded → History.executed earlier = limits.fuel) ∧
      (error = .callDepthExceeded → context.frames.size = limits.callDepth) ∧
      (error = .hostCallLimitExceeded → History.sends earlier = limits.hostCalls)

inductive History.Lawful (limits : Limits) : History → Prop where
  | nil : Lawful limits []
  | snoc {history : History} {sight : Sight} :
      Lawful limits history → sight.Allowed limits history → Lawful limits (history ++ [sight])

theorem History.Lawful.allowed {limits : Limits} {history : History}
    (lawful : Lawful limits history) {earlier later : History} {sight : Sight}
    (split : history = earlier ++ sight :: later) : sight.Allowed limits earlier := by
  induction lawful generalizing later with
  | nil => simp at split
  | @snoc history last lawful allowed ih =>
      rcases snoc_eq_split split with ⟨rfl, rfl⟩ | ⟨rest, before⟩
      · exact allowed
      · exact ih before

/-! ## Hosts that count their calls -/

/-- However the conversation goes on, each state the host hands over fits the number of calls. -/
def Conversation.Keeps {σ : Type} (counts : σ → Nat → Prop) : Nat → Conversation σ → Prop
  | calls, .done _ state => counts state calls
  | calls, .yield _ state resume =>
      counts state calls ∧ ∀ answer state' calls', counts state' calls' →
        (resume answer state').Keeps counts calls'

/-- Each call of the host is counted once, and nothing else is. -/
structure Host.Counts {σ : Type} (host : Host σ) (counts : σ → Nat → Prop) : Prop where
  global : ∀ {state calls}, counts state calls → ∀ name, counts (host.global state name).2 calls
  constant : ∀ {state calls}, counts state calls → ∀ scope name,
    counts (host.constant state scope name).2 calls
  respondsTo : ∀ {state calls}, counts state calls → ∀ receiver name,
    counts (host.respondsTo state receiver name).2 calls
  send : ∀ {state calls}, counts state calls → ∀ receiver method arguments,
    counts (host.send state receiver method arguments).2 (calls + 1)
  sendWithBlock : ∀ {state calls}, counts state calls → ∀ receiver method arguments,
    (host.sendWithBlock state receiver method arguments).Keeps counts (calls + 1)

/-- A host need not count anything. -/
theorem Host.counts_anything {σ : Type} (host : Host σ) : host.Counts fun _ _ => True := by
  have keeps (conversation : Conversation σ) (calls : Nat) :
      conversation.Keeps (fun _ _ => True) calls := by
    induction conversation generalizing calls with
    | done => trivial
    | yield arguments state resume ih => exact ⟨trivial, fun answer state' calls' _ => ih _ _ _⟩
  constructor
  case sendWithBlock =>
    intro state calls _ receiver method arguments
    exact keeps _ _
  all_goals
    intros
    trivial

/-! ## What every state keeps -/

/-- The history and the resources add up, with room for some frames and less fuel than a bound. -/
structure Machine.Balances {σ : Type} (limits : Limits) (room bound : Nat)
    (machine : Machine σ History) : Prop where
  given : machine.limits = limits
  fuel : History.executed machine.trace + machine.fuel = limits.fuel
  below : machine.fuel < bound
  calls : History.sends machine.trace = machine.hostCalls
  within : machine.hostCalls ≤ limits.hostCalls
  room : machine.context.frames.size + room = limits.callDepth
  lawful : History.Lawful limits machine.trace

def Exit.Due {σ : Type} (limits : Limits) (exit : Exit) (machine : Machine σ History) : Prop :=
  ∀ error, exit = .raise error →
    (Sight.raise error machine.context).Allowed limits machine.trace

namespace Machine.Balances

variable {σ : Type} {limits : Limits} {room bound : Nat} {machine : Machine σ History}

theorem mono (balances : machine.Balances limits room bound) {bound' : Nat}
    (wider : bound ≤ bound') : machine.Balances limits room bound' :=
  { balances with below := Nat.lt_of_lt_of_le balances.below wider }

theorem withContext (balances : machine.Balances limits room bound) {context : Context}
    (size : context.frames.size = machine.context.frames.size) :
    ({ machine with context } : Machine σ History).Balances limits room bound :=
  { balances with room := size ▸ balances.room }

theorem withHost (balances : machine.Balances limits room bound) (host : σ) :
    ({ machine with host } : Machine σ History).Balances limits room bound :=
  { balances with }

theorem depth_le (balances : machine.Balances limits room bound) :
    machine.context.frames.size ≤ limits.callDepth := by
  have full := balances.room
  omega

theorem sends_le (balances : machine.Balances limits room bound) :
    History.sends machine.trace ≤ limits.hostCalls := by
  rw [balances.calls]
  exact balances.within

/-- An event that is neither an instruction nor a call changes nothing that is counted. -/
theorem noting (balances : machine.Balances limits room bound) {event : Event}
    (instruction : (Sight.event event machine.context).isInstruction = false)
    (send : (Sight.event event machine.context).isSend = false) :
    (machine.noting History.watcher event).Balances limits room bound := by
  have seen : (machine.noting History.watcher event).trace =
      machine.trace ++ [.event event machine.context] :=
    History.see_watcher event machine.context machine.trace
  refine ⟨balances.given, ?_, balances.below, ?_, balances.within, balances.room, ?_⟩
  · rw [seen, History.executed_append]
    change _ + machine.fuel = _
    simpa [History.executed, instruction] using balances.fuel
  · rw [seen, History.sends_append]
    change _ = machine.hostCalls
    simpa [History.sends, send] using balances.calls
  · rw [seen]
    exact .snoc balances.lawful balances.depth_le

/-- A call of the host that is counted and reported. -/
theorem sending (balances : machine.Balances limits room bound)
    (left : machine.hostCalls < limits.hostCalls) (method : String) (depth pc : Nat) :
    (({ machine with hostCalls := machine.hostCalls + 1 } : Machine σ History).noting
      History.watcher (.enter (.hostCall method) depth pc)).Balances limits room bound := by
  have fuel := balances.fuel
  have calls := balances.calls
  unfold Machine.noting
  rw [History.see_watcher]
  refine { balances with fuel := ?_, calls := ?_, within := left, lawful := ?_ }
  · rw [History.executed_append]
    exact fuel
  · rw [History.sends_append]
    exact congrArg (· + 1) calls
  · exact .snoc balances.lawful balances.depth_le

/-- An instruction that is paid for and reported. -/
theorem paying (balances : machine.Balances limits room (bound + 1)) (left : machine.fuel ≠ 0)
    (code : Sequence) (pc : Nat) (instruction : Instruction) (depth : Nat) :
    (({ machine with fuel := machine.fuel - 1 } : Machine σ History).noting
      History.watcher (.instruction code pc instruction depth)).Balances limits room bound := by
  have fuel := balances.fuel
  have below := balances.below
  unfold Machine.noting
  rw [History.see_watcher]
  refine { balances with fuel := ?_, below := ?_, calls := ?_, lawful := ?_ }
  · rw [History.executed_append]
    change History.executed machine.trace + 1 + (machine.fuel - 1) = limits.fuel
    omega
  · change machine.fuel - 1 < bound
    omega
  · rw [History.sends_append]
    exact balances.calls
  · exact .snoc balances.lawful balances.depth_le

/-- Entering a frame takes up room for one. -/
theorem entering (balances : machine.Balances limits (room + 1) bound) (code : Sequence)
    (self : Value) (parent : Option Nat) (block : Option Closure) (arguments : List Value) :
    ({ machine with context := machine.context.enter code self parent block arguments } :
      Machine σ History).Balances limits room (machine.fuel + 1) := by
  refine { balances with below := Nat.lt_succ_self _, room := ?_ }
  have full := balances.room
  have size : (machine.context.enter code self parent block arguments).frames.size =
      machine.context.frames.size + 1 := Array.size_push _
  change (machine.context.enter code self parent block arguments).frames.size + room = _
  omega

/-- Leaving a frame makes room again. -/
theorem leaving (balances : machine.Balances limits room bound) {frame bound' : Nat}
    (last : frame + (room + 1) = limits.callDepth) (wider : bound ≤ bound') :
    ({ machine with context := machine.context.leave frame } :
      Machine σ History).Balances limits (room + 1) bound' := by
  refine { balances.mono wider with room := ?_ }
  have full := balances.room
  have size : (machine.context.leave frame).frames.size = frame := by
    rw [Context.size_leave]
    omega
  change (machine.context.leave frame).frames.size + (room + 1) = limits.callDepth
  omega

theorem raising (balances : machine.Balances limits room bound) {exit : Exit}
    (due : exit.Due limits machine) :
    ({ machine with trace := machine.trace ++ History.raised machine.context exit } :
      Machine σ History).Balances limits room bound := by
  cases exit with
  | located fault =>
      have same : machine.trace ++ History.raised machine.context (.located fault) =
          machine.trace := List.append_nil _
      rw [same]
      exact balances
  | raise error =>
      refine { balances with fuel := ?_, calls := ?_, lawful := .snoc balances.lawful (due _ rfl) }
      · have fuel := balances.fuel
        simpa [History.executed, History.raised, Sight.isInstruction] using fuel
      · have calls := balances.calls
        simpa [History.sends, History.raised, Sight.isSend] using calls

/-- No error but those of limits can come at a wrong time. -/
theorem due_of_plain (balances : machine.Balances limits room bound) {error : RunError}
    (plain : error.ofLimit = false) : (Exit.raise error).Due limits machine := by
  intro raised same
  obtain rfl := Exit.raise.inj same
  refine ⟨balances.depth_le, ?_, ?_, ?_⟩ <;> rintro rfl <;> cases plain

/-- The limit on calls of the host is reported when it is reached. -/
theorem due_of_hostCalls (balances : machine.Balances limits room bound)
    (reached : machine.limits.hostCalls ≤ machine.hostCalls) :
    (Exit.raise .hostCallLimitExceeded).Due limits machine := by
  intro raised same
  obtain rfl := Exit.raise.inj same
  have calls := balances.calls
  have within := balances.within
  rw [balances.given] at reached
  refine ⟨balances.depth_le, nofun, nofun, fun _ => ?_⟩
  omega

/-- Fuel is reported missing when as many instructions have run as there was fuel for. -/
theorem due_of_fuel (balances : machine.Balances limits room bound) (spent : machine.fuel = 0) :
    (Exit.raise .fuelExceeded).Due limits machine := by
  intro raised same
  obtain rfl := Exit.raise.inj same
  have fuel := balances.fuel
  refine ⟨balances.depth_le, fun _ => ?_, nofun, nofun⟩
  omega

/-- The depth of calls is reported exceeded when there is no room for another frame. -/
theorem due_of_room (balances : machine.Balances limits 0 bound) :
    (Exit.raise .callDepthExceeded).Due limits machine := by
  intro raised same
  obtain rfl := Exit.raise.inj same
  exact ⟨balances.depth_le, nofun, fun _ => balances.room, nofun⟩

end Machine.Balances

/-! ## Side by side -/

section Shadows

variable {σ τ : Type} (observer : Observer τ) (trace : τ) (limits : Limits) (room bound : Nat)

structure Machine.Shadows (machine : Machine σ History) (machine' : Machine σ τ) : Prop where
  same : machine' = machine.withTrace (History.seenBy observer trace machine.trace)
  balances : machine.Balances limits room bound

structure Machine.Tallies (counts : σ → Nat → Prop) (machine : Machine σ History)
    (machine' : Machine σ τ) : Prop
    extends Shadows observer trace limits room bound machine machine' where
  counted : counts machine.host machine.hostCalls

/-- An execution and its watched form tally to the end, and stop early only when it is due. -/
abbrev Execution.Paired (counts : σ → Nat → Prop) {α : Type} (watched : Execution σ History α)
    (execution : Execution σ τ α) : Prop :=
  Alongside (Machine.Tallies observer trace limits room bound counts)
    (fun exit machine _ => exit.Due limits machine) watched execution

end Shadows

variable {σ τ : Type} {observer : Observer τ} {trace : τ} {limits : Limits} {room bound : Nat}
  {counts : σ → Nat → Prop} {machine : Machine σ History} {machine' : Machine σ τ}

theorem Machine.noting_withTrace (observer : Observer τ) (trace : τ)
    (machine : Machine σ History) (event : Event) :
    (machine.withTrace (History.seenBy observer trace machine.trace)).noting observer event =
      (machine.noting History.watcher event).withTrace
        (History.seenBy observer trace (machine.noting History.watcher event).trace) := by
  simp only [noting, withTrace, History.see_watcher, History.seenBy_event]

theorem Machine.Tallies.mono {bound' : Nat}
    (tallies : Tallies observer trace limits room bound counts machine machine')
    (wider : bound ≤ bound') : Tallies observer trace limits room bound' counts machine machine' :=
  ⟨⟨tallies.same, tallies.balances.mono wider⟩, tallies.counted⟩

theorem Machine.Tallies.raising {exit : Exit}
    (tallies : Tallies observer trace limits room bound counts machine machine')
    (due : exit.Due limits machine) :
    Tallies observer trace limits room bound counts
      { machine with trace := machine.trace ++ History.raised machine.context exit } machine' := by
  refine ⟨⟨?_, tallies.balances.raising due⟩, tallies.counted⟩
  rw [tallies.same, History.seenBy_raised]
  rfl

theorem Machine.Tallies.noting
    (tallies : Tallies observer trace limits room bound counts machine machine') (event : Event)
    (instruction : (Sight.event event machine.context).isInstruction = false)
    (send : (Sight.event event machine.context).isSend = false) :
    Tallies observer trace limits room bound counts (machine.noting History.watcher event)
      (machine'.noting observer event) := by
  refine ⟨⟨?_, tallies.balances.noting instruction send⟩, tallies.counted⟩
  rw [tallies.same, noting_withTrace]

/-- What is left is the frame that entered the last one. -/
theorem Machine.Tallies.leaving {frame bound' : Nat}
    (tallies : Tallies observer trace limits room bound counts machine machine')
    (last : frame + (room + 1) = limits.callDepth) (wider : bound ≤ bound') :
    Tallies observer trace limits (room + 1) bound' counts
      { machine with context := machine.context.leave frame }
      { machine' with context := machine'.context.leave frame } := by
  obtain ⟨⟨rfl, balances⟩, counted⟩ := tallies
  exact ⟨⟨rfl, balances.leaving last wider⟩, counted⟩

theorem Machine.Tallies.tandem :
    Tandem (Tallies observer trace limits room bound counts)
      (fun exit machine (_ : Machine σ τ) => exit.Due limits machine) where
  context := by
    rintro machine machine' ⟨⟨rfl, balances⟩, counted⟩
    rfl
  moved := by
    rintro machine machine' ⟨⟨rfl, balances⟩, counted⟩ operands
    exact ⟨⟨rfl, balances.withContext rfl⟩, counted⟩
  jumped := by
    rintro machine machine' ⟨⟨rfl, balances⟩, counted⟩ pc
    exact ⟨⟨rfl, balances.withContext rfl⟩, counted⟩
  globalSet := by
    rintro machine machine' ⟨⟨rfl, balances⟩, counted⟩ name value
    exact ⟨⟨rfl, balances.withContext rfl⟩, counted⟩
  methodDefined := by
    rintro machine machine' ⟨⟨rfl, balances⟩, counted⟩ className name body
    exact ⟨⟨rfl, balances.withContext rfl⟩, counted⟩
  localSet := by
    rintro machine machine' ⟨⟨rfl, balances⟩, counted⟩ frame slot level value context assigned
    have size := Context.size_eq_of_outline (Context.Resumes.of_setLocal? assigned).outline
    exact ⟨⟨rfl, balances.withContext size⟩, counted⟩
  failed := by
    rintro machine machine' ⟨⟨rfl, balances⟩, counted⟩ error plain
    exact balances.due_of_plain plain
  passed := by
    rintro machine machine' - fault error same
    cases same

namespace Execution

/-! ## Calls of the host -/

section Calls

variable {host : Host σ} (counting : host.Counts counts)
  {enter : Activation → Execution σ History Value} {enter' : Activation → Execution σ τ Value}
  (enters : ∀ activation,
    Paired observer trace limits room bound counts (enter activation) (enter' activation))
include enters

theorem invokeForHost_alongside (block : Closure) (arguments : List Value) :
    Paired observer trace limits room bound counts (invokeForHost enter block arguments)
      (invokeForHost enter' block arguments) := by
  have invoked : Paired observer trace limits room bound counts (invoke enter block arguments)
      (invoke enter' block arguments) :=
    .bind (.context Machine.Tallies.tandem) fun _ => enters _
  refine .bind invoked.attempt fun outcome => ?_
  cases outcome <;> exact .pure _

/-- However often the host runs the block, it has counted its calls in the end. -/
theorem converse_meets (block : Closure) (conversation : Conversation σ)
    (shadows : machine.Shadows observer trace limits room bound machine')
    (keeps : conversation.Keeps counts machine.hostCalls) :
    Meets (converse enter block conversation) (converse enter' block conversation) machine machine'
      (fun _ => Machine.Tallies observer trace limits room bound counts)
      (fun exit after after' =>
        Machine.Tallies observer trace limits room bound counts after after' ∧
          exit.Due limits after) := by
  induction conversation generalizing machine machine' with
  | done result state =>
      obtain ⟨rfl, balances⟩ := shadows
      exact ⟨rfl, ⟨rfl, balances.withHost state⟩, keeps⟩
  | yield arguments state resume ih =>
      obtain ⟨rfl, balances⟩ := shadows
      obtain ⟨counted, further⟩ := keeps
      apply Meets.bind
      refine ⟨rfl, ?_⟩
      apply Meets.bind
      apply (invokeForHost_alongside enters block arguments _ _
        ⟨⟨rfl, balances.withHost state⟩, counted⟩).mono
      · rintro answer after after' ⟨⟨rfl, balances⟩, counted⟩
        exact ih answer after.host ⟨rfl, balances⟩ (further answer _ _ counted)
      · intro exit after after' exits
        exact exits

include counting

theorem converseWithHost_meets (receiver : Value) (method : String) (arguments : List Value)
    (block : Option Closure) {calls : Nat}
    (shadows : machine.Shadows observer trace limits room bound machine')
    (made : machine.hostCalls = calls + 1) (counted : counts machine.host calls) :
    Meets (converseWithHost host enter receiver method arguments block)
      (converseWithHost host enter' receiver method arguments block) machine machine'
      (fun _ => Machine.Tallies observer trace limits room bound counts)
      (fun exit after after' =>
        Machine.Tallies observer trace limits room bound counts after after' ∧
          exit.Due limits after) := by
  cases block with
  | none =>
      obtain ⟨rfl, balances⟩ := shadows
      have sent := counting.send counted receiver method arguments
      rw [← made] at sent
      exact ⟨rfl, ⟨rfl, balances.withHost _⟩, sent⟩
  | some block =>
      obtain ⟨rfl, balances⟩ := shadows
      have sent := counting.sendWithBlock counted receiver method arguments
      rw [← made] at sent
      exact converse_meets enters block _ ⟨rfl, balances⟩ sent

/-- A call of the host is counted on its way, or refused where the limit is reached. -/
theorem callHost_alongside (receiver : Value) (method : String) (arguments : List Value)
    (block : Option Closure) :
    Paired observer trace limits room bound counts
      (callHost host History.watcher enter receiver method arguments block)
      (callHost host observer enter' receiver method arguments block) := by
  rintro machine machine' ⟨⟨rfl, balances⟩, counted⟩
  apply Meets.bind
  refine meets_countHostCall ?_ ?_ ?_ ?_
  · rfl
  · rfl
  · intro reached
    exact ⟨⟨⟨rfl, balances⟩, counted⟩, balances.due_of_hostCalls reached⟩
  intro left
  rw [balances.given] at left
  apply Meets.bind
  refine ⟨rfl, ?_⟩
  apply meets_report
  apply Meets.bind
  have sent := balances.sending left method machine.context.frames.size
    (machine.context.pc - 1)
  apply (converseWithHost_meets counting enters receiver method arguments block
    ⟨Machine.noting_withTrace observer trace { machine with hostCalls := machine.hostCalls + 1 } _,
      sent⟩ rfl counted).mono
  · intro result after after' returned
    apply meets_report
    have reported := returned.noting (.exit (.hostCall method) machine.context.frames.size
      (machine.context.pc - 1)) rfl rfl
    cases result with
    | ok value => exact ⟨rfl, reported⟩
    | error error => exact Alongside.throwHostError Machine.Tallies.tandem error _ _ reported
  · intro exit after after' exited
    exact exited

theorem partners : Partners (Machine.Tallies observer trace limits room bound counts)
    (fun exit machine _ => exit.Due limits machine) host host History.watcher observer
    enter enter' where
  globals name _ _ := by
    rintro machine machine' ⟨⟨rfl, balances⟩, counted⟩
    exact ⟨rfl, ⟨rfl, balances.withHost _⟩, counting.global counted name⟩
  constants scope name := by
    rintro machine machine' ⟨⟨rfl, balances⟩, counted⟩
    exact ⟨rfl, ⟨rfl, balances.withHost _⟩, counting.constant counted scope name⟩
  methods receiver name := by
    rintro machine machine' ⟨⟨rfl, balances⟩, counted⟩
    exact ⟨rfl, ⟨rfl, balances.withHost _⟩, counting.respondsTo counted receiver name⟩
  calls := callHost_alongside counting enters
  enters := enters

/-- A frame uses up a unit of fuel with each instruction, so fuel ends before the bound does. -/
theorem fetch_meets (code : Sequence) (frame pc : Nat)
    (tallies : Machine.Tallies observer trace limits room (bound + 1) counts machine machine') :
    Meets
      (match code.instruction? pc with
        | none => fail (.pcOutOfRange pc)
        | some instruction => advance host History.watcher enter code frame pc instruction)
      (match code.instruction? pc with
        | none => fail (.pcOutOfRange pc)
        | some instruction => advance host observer enter' code frame pc instruction)
      machine machine' (fun _ => Machine.Tallies observer trace limits room bound counts)
      (fun exit after after' =>
        Machine.Tallies observer trace limits room (bound + 1) counts after after' ∧
          exit.Due limits after) := by
  cases code.instruction? pc with
  | none => exact ⟨rfl, tallies, Machine.Tallies.tandem.failed tallies _ rfl⟩
  | some instruction =>
      obtain ⟨⟨rfl, balances⟩, counted⟩ := tallies
      refine advance_meets Machine.Tallies.tandem (partners counting enters) code frame pc
        instruction ?_ ?_ ?_ ?_
      · rfl
      · intro spent
        exact ⟨⟨⟨rfl, balances⟩, counted⟩, balances.due_of_fuel spent⟩
      · intro left
        exact ⟨⟨Machine.noting_withTrace observer trace
          { machine with fuel := machine.fuel - 1 } _,
          balances.paying left code pc instruction _⟩, counted⟩
      · intro exit after after' tallies due
        exact ⟨tallies.mono (Nat.le_succ bound), due⟩

end Calls

/-! ## Frames -/

section Frames

variable {host : Host σ} (counting : host.Counts counts)
include counting

/-- Running a frame ends with a result or with a fault that has a place. -/
theorem dispatch_meets {enter : Activation → Execution σ History Value}
    {enter' : Activation → Execution σ τ Value}
    (enters : ∀ bound activation,
      Paired observer trace limits room bound counts (enter activation) (enter' activation))
    (code : Sequence) (frame bound : Nat)
    (tallies : Machine.Tallies observer trace limits room bound counts machine machine') :
    Meets (dispatchWatched host enter code frame bound)
      (dispatch host observer enter' code frame bound) machine machine'
      (fun _ => Machine.Tallies observer trace limits room bound counts)
      (fun exit after after' =>
        Machine.Tallies observer trace limits room bound counts after after' ∧
          ∃ fault, exit = .located fault) := by
  induction bound generalizing machine machine' with
  | zero =>
      -- The bound was chosen past the fuel that was left, so it does not run out.
      exact absurd tallies.balances.below (Nat.not_lt_zero _)
  | succ bound ih =>
      apply Meets.bind
      refine ⟨Machine.Tallies.tandem.context tallies, ?_⟩
      apply Meets.bind
      apply meets_locatedAt
      apply meets_noting
      apply (fetch_meets counting (enters bound) code frame _ tallies).mono
      · intro outcome after after' tallies
        cases outcome with
        | leave result => exact ⟨rfl, tallies.mono (Nat.le_succ bound)⟩
        | next | jump =>
            apply (ih tallies).mono
            · intro value after after' tallies
              exact tallies.mono (Nat.le_succ bound)
            · intro exit after after' exited
              exact ⟨exited.1.mono (Nat.le_succ bound), exited.2⟩
      · intro exit after after' exited
        exact ⟨exited.1.raising exited.2, _, rfl⟩

/-- However a frame ends, the run is back in the frame that entered it. -/
theorem evaluate_paired (room bound : Nat) (activation : Activation) :
    Paired observer trace limits room bound counts (evaluateWatched host room activation)
      (evaluate host observer room activation) := by
  induction room generalizing bound activation with
  | zero =>
      intro machine machine' tallies
      -- The refusal is due where it is noted, and still due to the one who asked for the frame.
      apply meets_noting
      have due := tallies.balances.due_of_room
      have raised := tallies.raising due
      exact ⟨rfl, raised, raised.balances.due_of_room⟩
  | succ room ih =>
      obtain ⟨code, self, parent, block, arguments⟩ := activation
      rintro machine machine' ⟨⟨rfl, balances⟩, counted⟩
      have entered : Machine.Tallies observer trace limits room (machine.fuel + 1) counts _ _ :=
        ⟨⟨rfl, balances.entering code self parent block arguments⟩, counted⟩
      have started := Machine.Tallies.tandem.jumped
        (entered.noting
          (.enter (.frame code) (machine.context.frames.size + 1) machine.context.pc) rfl rfl) 0
      rw [evaluateWatched, evaluate]
      apply meets_get
      apply meets_modifyContext
      apply meets_report
      apply meets_modifyContext
      apply Meets.bind
      apply meets_attempt
      apply (dispatch_meets counting ih code machine.context.frames.size (machine.fuel + 1)
        started).mono
      · intro value after after' tallies
        apply meets_report
        apply meets_modifyContext
        exact ⟨rfl, (tallies.noting _ rfl rfl).leaving balances.room balances.below⟩
      · rintro exit after after' ⟨tallies, fault, rfl⟩
        apply meets_report
        apply meets_modifyContext
        exact ⟨rfl, (tallies.noting _ rfl rfl).leaving balances.room balances.below, nofun⟩

end Frames

end Execution

end StackCode
