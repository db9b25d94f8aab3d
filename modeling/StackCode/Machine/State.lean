import StackCode.Machine.Host
import StackCode.Machine.Trace

/-!
# Machines

The state of a run: the context, what is left of the limits, the state of the
host and that of the observer.  An execution works on a machine and ends with
a result or with an exit; the machine is kept either way.
-/

namespace StackCode

structure Limits where
  fuel : Nat
  callDepth : Nat
  hostCalls : Nat
  deriving DecidableEq

namespace Limits

def usual : Limits :=
  ⟨1000000, 256, 1000000⟩

end Limits

/-- The state of a run under a host with states `σ` and an observer with states `τ`. -/
structure Machine (σ τ : Type) where
  context : Context
  limits : Limits
  /-- The instructions that may still run. -/
  fuel : Nat
  /-- The calls handed to the host so far. -/
  hostCalls : Nat
  host : σ
  trace : τ

/-- An execution: a step of a machine that ends with a result or an exit. -/
abbrev Execution (σ τ α : Type) :=
  EStateM Exit (Machine σ τ) α

namespace Execution

variable {σ τ α : Type}

def fail (error : RunError) : Execution σ τ α :=
  throw (.raise error)

def attempt (execution : Execution σ τ α) : Execution σ τ (Except Exit α) := fun machine =>
  match execution machine with
  | .ok value machine => .ok (.ok value) machine
  | .error exit machine => .ok (.error exit) machine

def context : Execution σ τ Context := do
  return (← get).context

def modifyContext (change : Context → Context) : Execution σ τ Unit :=
  modify fun machine => { machine with context := change machine.context }

def askHost (question : σ → α × σ) : Execution σ τ α :=
  modifyGet fun machine =>
    let (answer, host) := question machine.host
    (answer, { machine with host })

def report (observer : Observer τ) (event : Event) : Execution σ τ Unit :=
  modify fun machine =>
    { machine with trace := observer.see event machine.context machine.trace }

/-- What is found on the stack, and the context after that; the frame may own too little. -/
def onStack (find : Context → Option (α × Context)) : Execution σ τ α := fun machine =>
  match find machine.context with
  | some (found, context) => .ok found { machine with context }
  | none => .error (.raise .stackUnderflow) machine

def pop : Execution σ τ Value :=
  onStack Context.pop?

/-- Take operands off the stack; the deepest comes first. -/
def popMany (count : Nat) : Execution σ τ (List Value) :=
  onStack fun context => context.popMany? count

def peek (place : Nat) : Execution σ τ Value :=
  onStack fun context => (context.peek? place).map (·, context)

def poke (place : Nat) (value : Value) : Execution σ τ Unit :=
  onStack fun context => (context.poke? place value).map ((), ·)

def push (values : List Value) : Execution σ τ Unit :=
  modifyContext fun context => context.push values

end Execution

end StackCode
