import StackCode.Machine.Step

/-!
# Runs

A frame runs its sequence instruction by instruction until the sequence is
left or something goes wrong.  On the way out the caller gets back its
operands and its next instruction, however the frame ended.

The nesting of frames is bounded by the room that the call depth leaves, and
the instructions of a frame by the fuel that is left at its entry, so every
run ends.
-/

namespace StackCode

namespace Execution

variable {σ τ : Type}

/-- An execution whose exits without a place arise at an instruction of `code`. -/
def locatedAt {α : Type} (code : Sequence) (pc : Nat) (execution : Execution σ τ α) :
    Execution σ τ α := do
  match ← attempt execution with
  | .ok value => return value
  | .error exit => throw (.located (exit.locate code.name pc))

def burn : Execution σ τ Unit := do
  let machine ← get
  if machine.fuel = 0 then fail .fuelExceeded
  modify fun machine => { machine with fuel := machine.fuel - 1 }

/-- Report that an instruction is about to run, if anyone wants to know. -/
def reportInstruction (observer : Observer τ) (code : Sequence) (pc : Nat)
    (instruction : Instruction) : Execution σ τ Unit := do
  if observer.mask.instruction then
    report observer (.instruction code pc instruction (← context).depth)

/-- Report an instruction, make the next one the successor, and run it. -/
def advance (host : Host σ) (observer : Observer τ) (enter : Activation → Execution σ τ Value)
    (code : Sequence) (frame pc : Nat) (instruction : Instruction) : Execution σ τ Outcome := do
  burn
  reportInstruction observer code pc instruction
  modifyContext fun context => { context with pc := pc + 1 }
  let outcome ← step host observer enter code frame instruction
  match outcome with
  | .jump target => modifyContext fun context => { context with pc := target }
  | _ => pure ()
  return outcome

/--
Run the instructions of a frame up to the one that leaves it.  The number
bounds the instructions of this frame; it is chosen past the fuel that is
left, so that the fuel ends first.
-/
def dispatch (host : Host σ) (observer : Observer τ) (enter : Activation → Execution σ τ Value)
    (code : Sequence) (frame : Nat) : Nat → Execution σ τ Value
  | 0 => fail .fuelExceeded
  | bound + 1 => do
      let pc := (← context).pc
      let outcome ← locatedAt code pc <|
        match code.instruction? pc with
        | none => fail (.pcOutOfRange pc)
        | some instruction => advance host observer enter code frame pc instruction
      match outcome with
      | .leave result => return result
      | _ => dispatch host observer enter code frame bound

/-- Enter a frame, if there is room for one, and run its sequence. -/
def evaluate (host : Host σ) (observer : Observer τ) : Nat → Activation → Execution σ τ Value
  | 0, _ => fail .callDepthExceeded
  | room + 1, ⟨code, self, parent, block, arguments⟩ => do
      let caller ← get
      let frame := caller.context.frames.size
      let callerPc := caller.context.pc
      modifyContext fun context => context.enter code self parent block arguments
      report observer (.enter (.frame code) (frame + 1) callerPc)
      modifyContext fun context => { context with pc := 0 }
      let result ← attempt <|
        dispatch host observer (evaluate host observer room) code frame (caller.fuel + 1)
      report observer (.exit (.frame code) (frame + 1) callerPc)
      modifyContext fun context => context.leave frame
      match result with
      | .ok value => return value
      | .error exit => throw exit

end Execution

namespace Machine

variable {σ τ : Type}

def start (limits : Limits) (host : σ) (trace : τ) (context : Context) : Machine σ τ :=
  { context := context.reset, limits, fuel := limits.fuel, hostCalls := 0, host, trace }

def noting (observer : Observer τ) (event : Event) (machine : Machine σ τ) : Machine σ τ :=
  { machine with trace := observer.see event machine.context machine.trace }

/-- Leave the result of a run on the stack. -/
def keepResult (result : Except Fault Value) (machine : Machine σ τ) : Machine σ τ :=
  match result with
  | .ok value =>
      { machine with context := machine.context.push [value] }
  | .error _ => machine

def faultOf? : Except Fault Value → Option Fault
  | .ok _ => none
  | .error fault => some fault

def execute (host : Host σ) (observer : Observer τ) (code : Sequence) (machine : Machine σ τ) :
    Except Fault Value × Machine σ τ :=
  let started := machine.noting observer (.runStart code)
  let (result, ended) : Except Fault Value × Machine σ τ :=
    match Execution.evaluate host observer started.limits.callDepth
        ⟨code, .main, none, none, []⟩ started with
    | .ok value machine => (.ok value, machine)
    | .error exit machine => (.error (exit.locate code.name 0), machine)
  (result, (ended.keepResult result).noting observer (.runEnd code (faultOf? result)))

/--
Run a top-level sequence in a context.  The operands and frames of the context
are dropped first; its globals and methods carry over.
-/
def run (host : Host σ) (observer : Observer τ) (limits : Limits) (state : σ) (trace : τ)
    (context : Context) (code : Sequence) : Except Fault Value × Machine σ τ :=
  (start limits state trace context).execute host observer code

end Machine

end StackCode
