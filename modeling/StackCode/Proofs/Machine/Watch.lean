import StackCode.Proofs.Machine.Alongside

/-!
# Watched runs

An observer learns of what a run does, but not of an error that is raised: the
host may swallow it, and then the run goes on.  A watched run keeps a history
that has the raised errors as well, each in the context of its moment.  Apart
from the history it is the run itself, under whatever observer.
-/

namespace StackCode

/--
Something that happens in a run, in the context of that moment.  The entry of a
frame is seen with that frame among the live ones, so no number of live frames
goes unseen.
-/
inductive Sight where
  | event (event : Event) (context : Context)
  | raise (error : RunError) (context : Context)

namespace Sight

def context : Sight → Context
  | .event _ context | .raise _ context => context

def isInstruction : Sight → Bool
  | .event (.instruction ..) _ => true
  | _ => false

def isSend : Sight → Bool
  | .event (.enter (.hostCall _) ..) _ => true
  | _ => false

end Sight

/-- What happened in a run so far, earliest first. -/
abbrev History := List Sight

namespace History

def executed (history : History) : Nat :=
  history.countP Sight.isInstruction

def sends (history : History) : Nat :=
  history.countP Sight.isSend

def seenBy {τ : Type} (observer : Observer τ) (trace : τ) (history : History) : τ :=
  history.foldl (fun trace sight =>
    match sight with
    | .event event context => observer.see event context trace
    | .raise .. => trace) trace

def watcher : Observer History :=
  ⟨.full, fun event context history => history ++ [.event event context]⟩

def raised (context : Context) : Exit → History
  | .raise error => [.raise error context]
  | .located _ => []

theorem see_watcher (event : Event) (context : Context) (history : History) :
    watcher.see event context history = history ++ [.event event context] := by
  cases event with
  | enter scope | exit scope => cases scope <;> rfl
  | _ => rfl

/-- A sight of a history with one more is the last one, or it comes before. -/
theorem snoc_eq_split {history earlier later : History} {last sight : Sight}
    (split : history ++ [last] = earlier ++ sight :: later) :
    history = earlier ∧ last = sight ∨ ∃ rest, history = earlier ++ sight :: rest := by
  rcases List.eq_nil_or_concat later with rfl | ⟨rest, final, rfl⟩
  · obtain ⟨same, same'⟩ := List.append_inj' split rfl
    exact .inl ⟨same, List.head_eq_of_cons_eq same'⟩
  · rw [List.concat_eq_append, ← List.cons_append, ← List.append_assoc] at split
    exact .inr ⟨rest, (List.append_inj' split rfl).1⟩

theorem executed_append (earlier later : History) :
    executed (earlier ++ later) = executed earlier + executed later :=
  List.countP_append

theorem sends_append (earlier later : History) :
    sends (earlier ++ later) = sends earlier + sends later :=
  List.countP_append

theorem seenBy_event {τ : Type} (observer : Observer τ) (trace : τ) (history : History)
    (event : Event) (context : Context) :
    seenBy observer trace (history ++ [.event event context]) =
      observer.see event context (seenBy observer trace history) := by
  simp [seenBy]

theorem seenBy_raised {τ : Type} (observer : Observer τ) (trace : τ) (history : History)
    (context : Context) (exit : Exit) :
    seenBy observer trace (history ++ raised context exit) = seenBy observer trace history := by
  cases exit <;> simp [seenBy, raised]

end History

namespace Execution

variable {σ : Type}

def noting {α : Type} (execution : Execution σ History α) : Execution σ History α := do
  match ← attempt execution with
  | .ok value => return value
  | .error exit =>
      modify fun machine =>
        { machine with trace := machine.trace ++ History.raised machine.context exit }
      throw exit

/-- To note an error that is raised changes nothing but the history. -/
theorem ends_noting {α : Type} {execution : Execution σ History α} {machine : Machine σ History}
    {returns : α → Machine σ History → Prop} {exits : Exit → Machine σ History → Prop} :
    Ends (noting execution) machine returns exits ↔
      Ends execution machine returns (fun exit after => exits exit
        { after with trace := after.trace ++ History.raised after.context exit }) := by
  unfold noting
  rw [ends_bind, ends_attempt]
  exact Iff.rfl

/-- What is raised goes into the history; beside that an execution is as before. -/
theorem meets_noting {τ α : Type} {execution : Execution σ History α}
    {execution' : Execution σ τ α} {machine : Machine σ History} {machine' : Machine σ τ}
    {returns : α → Machine σ History → Machine σ τ → Prop}
    {exits : Exit → Machine σ History → Machine σ τ → Prop}
    (meets : Meets execution execution' machine machine' returns
      (fun exit after after' => exits exit
        { after with trace := after.trace ++ History.raised after.context exit } after')) :
    Meets (noting execution) execution' machine machine' returns exits := by
  have unfolded : noting execution machine =
      match execution machine with
      | .ok value after => .ok value after
      | .error exit after => .error exit
          { after with trace := after.trace ++ History.raised after.context exit } := by
    change EStateM.bind (attempt execution) _ machine = _
    unfold EStateM.bind attempt
    cases execution machine <;> rfl
  revert meets
  unfold Meets
  rw [unfolded]
  cases execution machine <;> cases execution' machine' <;> exact id

/-- Run the instructions of a frame, as `dispatch` does. -/
def dispatchWatched (host : Host σ) (enter : Activation → Execution σ History Value)
    (code : Sequence) (frame : Nat) : Nat → Execution σ History Value
  | 0 => noting (fail .fuelExceeded)
  | bound + 1 => do
      let pc := (← context).pc
      let outcome ← locatedAt code pc <| noting <|
        match code.instruction? pc with
        | none => fail (.pcOutOfRange pc)
        | some instruction => advance host History.watcher enter code frame pc instruction
      match outcome with
      | .leave result => return result
      | _ => dispatchWatched host enter code frame bound

/--
Enter a frame, as `evaluate` does.  A refused entry is noted where it is
refused, and once more where the instruction that asked for it fails.
-/
def evaluateWatched (host : Host σ) : Nat → Activation → Execution σ History Value
  | 0, _ => noting (fail .callDepthExceeded)
  | room + 1, ⟨code, self, parent, block, arguments⟩ => do
      let caller ← get
      let frame := caller.context.frames.size
      let callerPc := caller.context.pc
      modifyContext fun context => context.enter code self parent block arguments
      report History.watcher (.enter (.frame code) (frame + 1) callerPc)
      modifyContext fun context => { context with pc := 0 }
      let result ← attempt <|
        dispatchWatched host (evaluateWatched host room) code frame (caller.fuel + 1)
      report History.watcher (.exit (.frame code) (frame + 1) callerPc)
      modifyContext fun context => context.leave frame
      match result with
      | .ok value => return value
      | .error exit => throw exit

end Execution

namespace Machine

variable {σ τ τ' : Type}

def withTrace (machine : Machine σ τ) (trace : τ') : Machine σ τ' :=
  { context := machine.context, limits := machine.limits, fuel := machine.fuel,
    hostCalls := machine.hostCalls, host := machine.host, trace }

/-- The end of a run: an exit becomes a fault, and a result is left on the stack. -/
def conclude (observer : Observer τ) (code : Sequence)
    (outcome : EStateM.Result Exit (Machine σ τ) Value) : Except Fault Value × Machine σ τ :=
  let (result, ended) : Except Fault Value × Machine σ τ :=
    match outcome with
    | .ok value machine => (.ok value, machine)
    | .error exit machine => (.error (exit.locate code.name 0), machine)
  (result, (ended.keepResult result).noting observer (.runEnd code (faultOf? result)))

theorem run_eq_conclude (host : Host σ) (observer : Observer τ) (limits : Limits) (state : σ)
    (trace : τ) (context : Context) (code : Sequence) :
    run host observer limits state trace context code =
      conclude observer code
        (Execution.evaluate host observer limits.callDepth ⟨code, .main, none, none, []⟩
          ((start limits state trace context).noting observer (.runStart code))) :=
  rfl

/-- Executions that go on alike are concluded alike. -/
theorem exists_conclude {σ' : Type} {related : Machine σ τ → Machine σ' τ' → Prop}
    {reason : Exit → Machine σ τ → Machine σ' τ' → Prop} {execution : Execution σ τ Value}
    {execution' : Execution σ' τ' Value} {machine : Machine σ τ} {machine' : Machine σ' τ'}
    (ended : Execution.Meets execution execution' machine machine' (fun _ => related)
      (fun exit after after' => related after after' ∧ reason exit after after'))
    (observer : Observer τ) (observer' : Observer τ') (code : Sequence) :
    ∃ result after after', related after after' ∧
      conclude observer code (execution machine) =
        (result, (after.keepResult result).noting observer (.runEnd code (faultOf? result))) ∧
      conclude observer' code (execution' machine') =
        (result, (after'.keepResult result).noting observer' (.runEnd code (faultOf? result))) := by
  revert ended
  unfold Execution.Meets
  cases execution machine with
  | ok value after =>
      cases execution' machine' with
      | error => exact False.elim
      | ok value' after' =>
          rintro ⟨rfl, both⟩
          exact ⟨.ok value', after, after', both, rfl, rfl⟩
  | error exit after =>
      cases execution' machine' with
      | ok => exact False.elim
      | error exit' after' =>
          rintro ⟨rfl, both, -⟩
          exact ⟨.error (exit'.locate code.name 0), after, after', both, rfl, rfl⟩

/-- Run a top-level sequence in a context, as `run` does, and keep the history. -/
def watch (host : Host σ) (limits : Limits) (state : σ) (context : Context) (code : Sequence) :
    Except Fault Value × Machine σ History :=
  conclude History.watcher code
    (Execution.evaluateWatched host limits.callDepth ⟨code, .main, none, none, []⟩
      ((start limits state [] context).noting History.watcher (.runStart code)))

end Machine

end StackCode
