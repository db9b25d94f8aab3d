import StackCode.Instruction.Effect
import StackCode.Text.Layout

/-!
# Assemblies

An assembly is a sequence in the making.  It collects instructions, hands out
labels and slots, and binds each label at most once, to the instruction that
comes next.
-/

namespace StackCode

inductive BuildError where
  | unboundLabel (label : Label)
  | labelBoundTwice (label : Label)
  /-- A jump target lies past the last instruction. -/
  | labelOutOfRange (label : Label) (target : Nat)
  | localOutOfRange (index slot locals : Nat)
  deriving DecidableEq

namespace BuildError

def message : BuildError → String
  | .unboundLabel label => "label_" ++ toString label ++ " is never bound"
  | .labelBoundTwice label => "label_" ++ toString label ++ " is bound twice"
  | .labelOutOfRange label target =>
      "label_" ++ toString label ++ " is bound past the end (" ++ toString target ++ ")"
  | .localOutOfRange index slot locals =>
      "local slot " ++ toString slot ++ " out of range at " ++ Text.position index ++
        " (" ++ toString locals ++ " locals)"

end BuildError

/-- A sequence in the making. -/
structure Assembly where
  name : String
  kind : SequenceKind
  code : Array Instruction
  /-- The labels handed out, with the index each is bound to so far. -/
  labels : Array (Option Nat)
  locals : List String
  parameters : Parameters
  handlers : List Handler

namespace Assembly

def empty (name : String) (kind : SequenceKind) : Assembly :=
  ⟨name, kind, #[], #[], [], .none, []⟩

/-- The index of the next instruction. -/
def position (assembly : Assembly) : Nat :=
  assembly.code.size

/-- The slot of a name: that of its first declaration, or else the next free one. -/
def slotOf (assembly : Assembly) (name : String) : Nat :=
  assembly.locals.idxOf name

def declare (assembly : Assembly) (name : String) : Assembly :=
  if name ∈ assembly.locals then assembly
  else { assembly with locals := assembly.locals ++ [name] }

/-- The name of a slot, empty for a slot that is not declared. -/
def slotName (assembly : Assembly) (slot : Nat) : String :=
  assembly.locals[slot]?.getD ""

def nextLabel (assembly : Assembly) : Label :=
  assembly.labels.size

def newLabel (assembly : Assembly) : Assembly :=
  { assembly with labels := assembly.labels.push none }

def bind (assembly : Assembly) (label : Label) : Except BuildError Assembly :=
  match assembly.labels[label]? with
  | none => .error (.unboundLabel label)
  | some (some _) => .error (.labelBoundTwice label)
  | some none =>
      .ok { assembly with labels := assembly.labels.set! label (some assembly.position) }

def emit (assembly : Assembly) (instruction : Instruction) : Assembly :=
  { assembly with code := assembly.code.push instruction }

def handle (assembly : Assembly) (handler : Handler) : Assembly :=
  { assembly with handlers := assembly.handlers ++ [handler] }

/-- A body whose leading parameters are the given names, in order. -/
def withParameters (name : String) (kind : SequenceKind) (parameters : List String) : Assembly :=
  { parameters.foldl declare (empty name kind) with
    parameters := .leading parameters.length }

def top : Assembly :=
  empty "<compiled>" .top

def method (name : String) (parameters : List String) : Assembly :=
  withParameters name .method parameters

def block (name : String) (parameters : List String) : Assembly :=
  withParameters name .block parameters

end Assembly

end StackCode
