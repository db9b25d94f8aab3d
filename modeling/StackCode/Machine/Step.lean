import StackCode.Machine.Call
import StackCode.Sequence.Basic
import StackCode.Value.Inspect

/-!
# One instruction

An instruction takes its operands off the stack as it needs them, acts on them,
and puts what it makes of them back.  Then it says how the frame goes on.
-/

namespace StackCode

/-- How a frame goes on after an instruction. -/
inductive Outcome where
  | next
  | jump (target : Nat)
  | leave (result : Value)

namespace Execution

variable {σ τ : Type}

/-- The keys and values of a hash, from operands that alternate between them. -/
def pairUp : List Value → List (Value × Value)
  | key :: value :: rest => (key, value) :: pairUp rest
  | _ => []

def targetOf (code : Sequence) (label : Label) : Execution σ τ Nat :=
  match code.labelTarget? label with
  | some target => return target
  | none => fail (.badLabel label)

def jumpTo (code : Sequence) (label : Label) : Execution σ τ Outcome :=
  return .jump (← targetOf code label)

def jumpIf (code : Sequence) (condition : Bool) (label : Label) : Execution σ τ Outcome :=
  if condition then jumpTo code label else return .next

def readLocal (frame : Nat) (name : String) (slot level : Nat) : Execution σ τ Value := do
  match (← context).local? frame slot level with
  | some value => return value
  | none => fail (.undefinedLocal name slot level)

def writeLocal (frame : Nat) (name : String) (slot level : Nat) (value : Value) :
    Execution σ τ Unit := do
  match (← context).setLocal? frame slot level value with
  | some assigned => modifyContext fun _ => assigned
  | none => fail (.undefinedLocal name slot level)

/-- A global, and if only the host has it, from now on the program's own copy. -/
def findGlobal (host : Host σ) (name : String) : Execution σ τ (Option Value) := do
  match (← context).global? name with
  | some value => return some value
  | none =>
      match ← askHost fun state => host.global state name with
      | some value =>
          modifyContext fun context => context.setGlobal name value
          return some value
      | none => return none

/-- A constant in a scope; without one it is looked up lexically, if that is allowed. -/
def findConstant (host : Host σ) (name : String) (scope lexically : Value) :
    Execution σ τ (Option Value) :=
  if scope.isNil then
    if lexically.isTruthy then askHost fun state => host.constant state none name
    else return none
  else
    askHost fun state => host.constant state (some scope) name

def readConstant (host : Host σ) (name : String) (scope lexically : Value) :
    Execution σ τ Value := do
  match ← findConstant host name scope lexically with
  | some value => return value
  | none => fail (.undefinedConstant name)

def symbolOf : Value → Execution σ τ Value
  | .string name | .symbol name => return .symbol name
  | other => fail (.typeMismatch "String" other.className)

def isDefined (host : Host σ) (kind : DefinedKind) (object operand : Value) :
    Execution σ τ Bool := do
  let name := object.toName
  match kind with
  | .nil | .self | .trueLiteral | .falseLiteral | .assignment | .expression | .localVariable =>
      return true
  | .globalVariable => return (← findGlobal host name).isSome
  | .constant =>
      let scope := if operand.isNil then none else some operand
      return (← askHost fun state => host.constant state scope name).isSome
  | .method =>
      if ((← context).method? operand.className name).isSome then return true
      else askHost fun state => host.respondsTo state operand name
  | .instanceVariable | .classVariable | .blockCall | .parentMethod =>
      fail (.unsupported "defined" "expression kind")

def yieldTo (enter : Activation → Execution σ τ Value) (frame : Nat) (arguments : List Value) :
    Execution σ τ Value := do
  match (← context).blockOf? frame with
  | some block => invoke enter block arguments
  | none => fail .noBlockGiven

def step (host : Host σ) (observer : Observer τ) (enter : Activation → Execution σ τ Value)
    (code : Sequence) (frame : Nat) (instruction : Instruction) : Execution σ τ Outcome := do
  let call := call host observer enter
  match instruction with
  | .nop => return .next
  | .pop =>
      let _ ← pop
      return .next
  | .dup =>
      push [← peek 0]
      return .next
  | .dupN count =>
      let top ← popMany count.toNat
      push top
      push top
      return .next
  | .swap =>
      let top ← pop
      let below ← pop
      push [top]
      push [below]
      return .next
  | .topN depth =>
      push [← peek depth.toNat]
      return .next
  | .setN depth =>
      poke depth.toNat (← peek 0)
      return .next
  | .adjustStack count =>
      let _ ← popMany count.toNat
      return .next
  | .putNil | .getInlineCache .. =>
      push [.nil]
      return .next
  | .putSelf =>
      push [(← context).selfOf frame]
      return .next
  | .putObject value | .dupArray value | .dupHash value =>
      push [value]
      return .next
  | .putZero =>
      push [.integer 0]
      return .next
  | .putOne =>
      push [.integer 1]
      return .next
  | .putString text | .frozenString text _ | .sharedString text _ =>
      push [.string text]
      return .next
  | .putSpecialObject object =>
      push [.special object]
      return .next
  | .newArray count =>
      push [.array (← popMany count.toNat)]
      return .next
  | .newHash pairs =>
      push [.hash (pairUp (← popMany (pairs.toNat * 2)))]
      return .next
  | .newRange excludeEnd =>
      let stop ← pop
      let start ← pop
      push [.range start stop excludeEnd]
      return .next
  | .concatArray =>
      let top ← pop
      let below ← pop
      push [.array (below.toItems ++ top.toItems)]
      return .next
  | .splatArray _ =>
      push [.array (← pop).toItems]
      return .next
  | .concatStrings count =>
      push [.string (Value.concatenated (← popMany count.toNat))]
      return .next
  | .toRegexp options count =>
      push [.regexp (Value.concatenated (← popMany count.toNat)) options]
      return .next
  | .intern =>
      push [← symbolOf (← pop)]
      return .next
  | .objectToString site =>
      let value ← pop
      push [← if value.isString then pure value
        else call value (site.method?.getD "to_s") [] none]
      return .next
  | .anyToString =>
      let text ← pop
      let object ← pop
      push [if text.isString then text else .string object.inspect]
      return .next
  | .expandArray size flag =>
      if flag ≠ 0 then fail (.unsupported "expandarray" "splat or post flags")
      let items := (← pop).toItems
      -- the first item ends up on top
      push ((List.range size.toNat).reverse.map fun index => items[index]?.getD .nil)
      return .next
  | .newArrayMin count =>
      push [← call (.array (← popMany count.toNat)) "min" [] none]
      return .next
  | .newArrayMax count =>
      push [← call (.array (← popMany count.toNat)) "max" [] none]
      return .next
  | .getLocal name slot level =>
      push [← readLocal frame name slot level]
      return .next
  | .getOwnLocal name slot =>
      push [← readLocal frame name slot 0]
      return .next
  | .getOuterLocal name slot =>
      push [← readLocal frame name slot 1]
      return .next
  | .setLocal name slot level =>
      writeLocal frame name slot level (← pop)
      return .next
  | .setOwnLocal name slot =>
      writeLocal frame name slot 0 (← pop)
      return .next
  | .setOuterLocal name slot =>
      writeLocal frame name slot 1 (← pop)
      return .next
  | .getGlobal name =>
      push [(← findGlobal host name).getD .nil]
      return .next
  | .setGlobal name =>
      let value ← pop
      modifyContext fun context => context.setGlobal name value
      return .next
  | .getConstant name =>
      let lexically ← pop
      let scope ← pop
      push [← readConstant host name scope lexically]
      return .next
  | .jump label => jumpTo code label
  | .branchIf label => jumpIf code (← pop).isTruthy label
  | .branchUnless label => jumpIf code (!(← pop).isTruthy) label
  | .branchNil label => jumpIf code (← pop).isNil label
  | .caseDispatch cases otherwise =>
      let key ← pop
      jumpTo code (((cases.find? fun entry => entry.1 == key).map Prod.snd).getD otherwise)
  | .leave => return .leave (← pop)
  | .send site block =>
      let arguments ← popMany site.argumentCount.toNat
      let receiver ← pop
      let self := (← context).selfOf frame
      let closure := block.map fun body => ⟨body, self, frame⟩
      push [← call receiver site.method arguments closure]
      return .next
  | .sendWithoutBlock site | .operate _ site | .notEqual _ site =>
      let arguments ← popMany site.argumentCount.toNat
      let receiver ← pop
      push [← call receiver site.method arguments none]
      return .next
  | .elementWith key site =>
      push [← call (← pop) (site.method?.getD "[]") [.string key] none]
      return .next
  | .setElementWith key site =>
      let value ← pop
      let receiver ← pop
      push [← call receiver (site.method?.getD "[]=") [.string key, value] none]
      return .next
  | .invokeBlock site =>
      push [← yieldTo enter frame (← popMany site.argumentCount.toNat)]
      return .next
  | .defineMethod name body =>
      modifyContext fun context =>
        context.defineMethod (context.selfOf frame).className name body
      return .next
  | .defined kind object value =>
      push [if ← isDefined host kind object (← pop) then value else .nil]
      return .next
  | .setInlineCache _ =>
      let _ ← peek 0
      return .next

end Execution

end StackCode
