import StackCode.Machine.Context
import StackCode.Machine.Error

/-!
# Traces

A run reports what it does as a series of events.  An observer names the
classes of events it wants and folds those into a state of its own.  Events of
other classes are not reported to it.
-/

namespace StackCode

inductive EventClass where
  | run
  | instruction
  | call
  | host
  deriving DecidableEq

/-- A set of event classes. -/
structure TraceMask where
  run : Bool
  instruction : Bool
  call : Bool
  host : Bool
  deriving DecidableEq

namespace TraceMask

def none : TraceMask := ⟨false, false, false, false⟩

def full : TraceMask := ⟨true, true, true, true⟩

/-- The events of frames and of host calls. -/
def scopes : TraceMask := ⟨false, false, true, true⟩

def contains (mask : TraceMask) : EventClass → Bool
  | .run => mask.run
  | .instruction => mask.instruction
  | .call => mask.call
  | .host => mask.host

def ofList (classes : List EventClass) : TraceMask :=
  ⟨classes.contains .run, classes.contains .instruction, classes.contains .call,
   classes.contains .host⟩

end TraceMask

/-- What is entered and left: a frame, or a call of the host. -/
inductive Scope where
  | frame (code : Sequence)
  | hostCall (method : String)

namespace Scope

def eventClass : Scope → EventClass
  | .frame _ => .call
  | .hostCall _ => .host

end Scope

inductive Event where
  | runStart (code : Sequence)
  | runEnd (code : Sequence) (fault : Option Fault)
  /-- An instruction is about to run, with so many operands on the stack. -/
  | instruction (code : Sequence) (pc : Nat) (instruction : Instruction) (depth : Nat)
  /-- A scope is entered from the call site at `pc`. -/
  | enter (scope : Scope) (depth pc : Nat)
  | exit (scope : Scope) (depth pc : Nat)

namespace Event

def eventClass : Event → EventClass
  | .runStart _ | .runEnd .. => .run
  | .instruction .. => .instruction
  | .enter scope .. | .exit scope .. => scope.eventClass

end Event

/-- One who follows a run: the events wanted, and how an event changes the state. -/
structure Observer (τ : Type) where
  mask : TraceMask
  note : Event → Context → τ → τ

namespace Observer

def silent : Observer Unit :=
  ⟨.none, fun _ _ state => state⟩

def recorder (mask : TraceMask) : Observer (Array Event) :=
  ⟨mask, fun event _ events => events.push event⟩

/-- The state after an event, which counts only if its class is wanted. -/
def see {τ : Type} (observer : Observer τ) (event : Event) (context : Context) (state : τ) : τ :=
  if observer.mask.contains event.eventClass then observer.note event context state else state

end Observer

end StackCode
