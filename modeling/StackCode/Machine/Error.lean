import StackCode.Value.Basic
import StackCode.Text.Layout

/-!
# What can go wrong in a run

A host error is what the object model reports.  A run error is what stops an
instruction.  A fault is a run error with the place where it arose.  A block
that fails while the host runs it hands its fault back inside a host error.
-/

namespace StackCode

mutual

/-- A failure that the host's object model reports. -/
inductive HostError where
  | unknownMethod (receiver method : String)
  | argumentCount (expected actual : Nat)
  | typeMismatch (expected actual : String)
  | raised (reason : String)
  /-- A block that the host ran failed. -/
  | block (fault : Fault)

inductive RunError where
  /-- The frame owns fewer operands than the instruction takes. -/
  | stackUnderflow
  /-- A local is read before it is assigned, or does not exist. -/
  | undefinedLocal (name : String) (slot level : Nat)
  | undefinedConstant (name : String)
  /-- A defined method is called with arguments it does not bind. -/
  | unsupportedCallShape (method : String) (argumentCount : Nat)
  | noBlockGiven
  /-- A branch names a label that is not bound. -/
  | badLabel (label : Nat)
  /-- Execution went past the last instruction. -/
  | pcOutOfRange (pc : Nat)
  | typeMismatch (expected actual : String)
  | unsupported (instruction reason : String)
  | host (error : HostError)
  | fuelExceeded
  | callDepthExceeded
  | hostCallLimitExceeded

/-- A run error and the instruction it arose at. -/
structure Fault where
  sequence : String
  pc : Nat
  error : RunError

end

mutual

def HostError.message : HostError → String
  | .unknownMethod receiver method => "undefined method `" ++ method ++ "' for " ++ receiver
  | .argumentCount expected actual =>
      "wrong number of arguments (given " ++ toString actual ++ ", expected " ++
        toString expected ++ ")"
  | .typeMismatch expected actual => actual ++ " can't be coerced into " ++ expected
  | .raised reason => reason
  | .block fault => fault.message

def RunError.message : RunError → String
  | .stackUnderflow => "operand stack underflow"
  | .undefinedLocal name slot level =>
      "local variable `" ++ name ++ "' (" ++ toString slot ++ "@" ++ toString level ++
        ") used before assignment"
  | .undefinedConstant name => "uninitialized constant " ++ name
  | .unsupportedCallShape method argumentCount =>
      "unsupported parameter shape for `" ++ method ++ "' called with " ++
        toString argumentCount ++ " arguments"
  | .noBlockGiven => "no block given (yield)"
  | .badLabel label => "label_" ++ toString label ++ " is not bound"
  | .pcOutOfRange pc => "pc " ++ toString pc ++ " is past the end of the sequence"
  | .typeMismatch expected actual => "expected " ++ expected ++ ", got " ++ actual
  | .unsupported instruction reason => instruction ++ ": unsupported " ++ reason
  | .host error => "host error: " ++ error.message
  | .fuelExceeded => "fuel exhausted"
  | .callDepthExceeded => "call depth exceeded"
  | .hostCallLimitExceeded => "host call limit exceeded"

def Fault.message : Fault → String
  | ⟨sequence, pc, error⟩ =>
      error.message ++ " (at " ++ sequence ++ ":" ++ Text.position pc ++ ")"

end

mutual

/-- The wordings of the errors behind a host error, nearest first. -/
def HostError.sources : HostError → List String
  | .block fault => fault.message :: fault.sources
  | _ => []

def RunError.sources : RunError → List String
  | .host error => error.message :: error.sources
  | _ => []

def Fault.sources : Fault → List String
  | ⟨_, _, error⟩ => error.message :: error.sources

end

/--
How an instruction is left early: with an error that has no place yet, or with
a fault from a deeper frame.
-/
inductive Exit where
  | raise (error : RunError)
  | located (fault : Fault)

namespace Exit

/-- The fault of an exit; an error without a place arose at the given one. -/
def locate (exit : Exit) (sequence : String) (pc : Nat) : Fault :=
  match exit with
  | .raise error => ⟨sequence, pc, error⟩
  | .located fault => fault

/-- A host error as an exit; the fault of a block goes on as it is. -/
def ofHostError : HostError → Exit
  | .block fault => .located fault
  | error => .raise (.host error)

end Exit

end StackCode
