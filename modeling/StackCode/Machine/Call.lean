import StackCode.Machine.State

/-!
# Calls

A call goes to a method that the program defined for the class of the
receiver, or else to the host.  The host may run the block of the call; a
block runs in a frame whose parent is the frame that made the block.

Frames are entered through a function `enter`, which is given from outside.
-/

namespace StackCode

/-- A sequence about to be entered, with everything its frame needs. -/
structure Activation where
  code : Sequence
  self : Value
  parent : Option Nat
  block : Option Closure
  arguments : List Value

namespace Execution

variable {σ τ : Type}

/--
The arguments fit the declared parameters: leading ones only, and as many of
them as there are arguments.
-/
def binds (parameters : Parameters) (arguments : List Value) : Bool :=
  parameters.isEmpty && arguments.isEmpty ||
    parameters.isLeadOnly && parameters.lead == arguments.length

/-- Run a block; a yield inside it reaches the block of the frame that made it. -/
def invoke (enter : Activation → Execution σ τ Value) (block : Closure) (arguments : List Value) :
    Execution σ τ Value := do
  let outer := (← context).blockOf? block.parent
  enter ⟨block.body, block.self, some block.parent, outer, arguments⟩

/-- Run a block for the host, which is told a failure as a located fault. -/
def invokeForHost (enter : Activation → Execution σ τ Value) (block : Closure)
    (arguments : List Value) : Execution σ τ (Except HostError Value) := do
  match ← attempt (invoke enter block arguments) with
  | .ok value => return .ok value
  | .error exit => return .error (.block (exit.locate block.body.name 0))

/-- Follow a conversation about a block to its end. -/
def converse (enter : Activation → Execution σ τ Value) (block : Closure) :
    Conversation σ → Execution σ τ (Except HostError Value)
  | .done result state => askHost fun _ => (result, state)
  | .yield arguments state resume => do
      askHost fun _ => ((), state)
      let answer ← invokeForHost enter block arguments
      let machine ← get
      converse enter block (resume answer machine.host)

def converseWithHost (host : Host σ) (enter : Activation → Execution σ τ Value)
    (receiver : Value) (method : String) (arguments : List Value) :
    Option Closure → Execution σ τ (Except HostError Value)
  | none => askHost fun state => host.send state receiver method arguments
  | some block => do
      let machine ← get
      converse enter block (host.sendWithBlock machine.host receiver method arguments)

def countHostCall : Execution σ τ Unit := do
  let machine ← get
  if machine.limits.hostCalls ≤ machine.hostCalls then
    fail .hostCallLimitExceeded
  modify fun machine => { machine with hostCalls := machine.hostCalls + 1 }

/-- Call a method of the host, between the events of its scope. -/
def callHost (host : Host σ) (observer : Observer τ) (enter : Activation → Execution σ τ Value)
    (receiver : Value) (method : String) (arguments : List Value) (block : Option Closure) :
    Execution σ τ Value := do
  countHostCall
  let caller ← context
  let depth := caller.frames.size
  let pc := caller.pc - 1
  report observer (.enter (.hostCall method) depth pc)
  let result ← converseWithHost host enter receiver method arguments block
  report observer (.exit (.hostCall method) depth pc)
  match result with
  | .ok value => return value
  | .error error => throw (.ofHostError error)

/-- Call a method: one that the program defined, or else the host's. -/
def call (host : Host σ) (observer : Observer τ) (enter : Activation → Execution σ τ Value)
    (receiver : Value) (method : String) (arguments : List Value) (block : Option Closure) :
    Execution σ τ Value := do
  match (← context).method? receiver.className method with
  | some body =>
      if binds body.parameters arguments then
        enter ⟨body, receiver, none, block, arguments⟩
      else
        fail (.unsupportedCallShape method arguments.length)
  | none => callHost host observer enter receiver method arguments block

end Execution

end StackCode
