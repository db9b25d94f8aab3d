import StackCode.Value.Basic
import StackCode.Instruction.Operation

/-!
# Instructions and sequences

An instruction works on the operand stack of its frame.  A sequence is a unit
of code: its instructions, the places its labels are bound to, the names of
its locals, its parameters and its exception handlers.  The bodies of blocks
and methods are sequences too and belong to the instruction that mentions
them.
-/

namespace StackCode

/-- A jump target, by number. -/
abbrev Label := Nat

/-- What a sequence was made from. -/
inductive SequenceKind where
  | top
  | method
  | block
  deriving DecidableEq

structure Parameters where
  lead : Nat
  optional : Nat
  rest : Bool
  post : Nat
  keyword : Nat
  keywordRest : Bool
  block : Bool
  deriving DecidableEq

namespace Parameters

def leading (count : Nat) : Parameters :=
  ⟨count, 0, false, 0, 0, false, false⟩

def none : Parameters := leading 0

instance : Inhabited Parameters := ⟨none⟩

def isEmpty (parameters : Parameters) : Bool :=
  parameters = none

def isLeadOnly (parameters : Parameters) : Bool :=
  parameters = leading parameters.lead

@[simp] theorem isLeadOnly_leading (count : Nat) : (leading count).isLeadOnly = true := by
  simp [isLeadOnly, leading]

end Parameters

mutual

inductive Instruction where
  | nop
  | pop
  | dup
  | dupN (count : UInt32)
  | swap
  /-- Push a copy of the operand `depth` places below the top. -/
  | topN (depth : UInt32)
  /-- Overwrite the operand `depth` places below the top with the top. -/
  | setN (depth : UInt32)
  | adjustStack (count : UInt32)
  | putNil
  | putSelf
  | putObject (value : Value)
  | putZero
  | putOne
  | putString (text : String)
  | putSpecialObject (object : SpecialObject)
  | newArray (count : UInt32)
  | dupArray (value : Value)
  /-- Make a hash of `pairs` keys and values. -/
  | newHash (pairs : UInt32)
  | dupHash (value : Value)
  | newRange (excludeEnd : Bool)
  | concatArray
  | splatArray (copy : Bool)
  | concatStrings (count : UInt32)
  | toRegexp (options : Nat) (count : UInt32)
  | intern
  | objectToString (call : CallSite)
  | anyToString
  | expandArray (size flag : UInt32)
  | newArrayMin (count : UInt32)
  | newArrayMax (count : UInt32)
  | frozenString (text : String) (call : CallSite)
  | sharedString (text : String) (call : CallSite)
  | getLocal (name : String) (slot level : Nat)
  | setLocal (name : String) (slot level : Nat)
  | getOwnLocal (name : String) (slot : Nat)
  | getOuterLocal (name : String) (slot : Nat)
  | setOwnLocal (name : String) (slot : Nat)
  | setOuterLocal (name : String) (slot : Nat)
  | getGlobal (name : String)
  | setGlobal (name : String)
  | getConstant (name : String)
  | jump (label : Label)
  | branchIf (label : Label)
  | branchUnless (label : Label)
  | branchNil (label : Label)
  /-- Jump to the label of the first key equal to the operand. -/
  | caseDispatch (cases : List (Value × Label)) (otherwise : Label)
  | leave
  | send (call : CallSite) (block : Option Sequence)
  | sendWithoutBlock (call : CallSite)
  | invokeBlock (call : CallSite)
  | defineMethod (name : String) (body : Sequence)
  | operate (operation : Operation) (call : CallSite)
  | notEqual (equalCall notEqualCall : CallSite)
  /-- Index by a literal string. -/
  | elementWith (key : String) (call : CallSite)
  | setElementWith (key : String) (call : CallSite)
  | defined (kind : DefinedKind) (object value : Value)
  | getInlineCache (label : Label) (cache : Nat)
  | setInlineCache (cache : Nat)

/-- An exception handler with the region it covers. -/
structure Handler where
  kind : HandlerKind
  body : Option Sequence
  first : Label
  last : Label
  exit : Label

structure Sequence where
  name : String
  kind : SequenceKind
  code : Array Instruction
  /-- The instruction index that each label is bound to, if it is bound. -/
  labels : Array (Option Nat)
  locals : List String
  parameters : Parameters
  handlers : List Handler

end

instance : Inhabited Instruction := ⟨.nop⟩

end StackCode
