import StackCode.ObjectModel.Methods
import StackCode.Machine.Host
import StackCode.Table

/-!
# The standard object model

A host with the core methods of numbers, strings and collections.  It counts
the calls it gets and collects the lines that a program puts out.  Counting
and iterating methods run their block once for each number or item, in order,
and stop at the first failure.
-/

namespace StackCode

structure ObjectModel where
  output : Array String
  globals : Table String Value
  constants : Table String Value
  calls : Nat

namespace ObjectModel

def withTables (globals constants : Table String Value) : ObjectModel :=
  ⟨#[], globals, constants, 0⟩

def setGlobal (model : ObjectModel) (name : String) (value : Value) : ObjectModel :=
  { model with globals := model.globals.insert name value }

def countCall (model : ObjectModel) : ObjectModel :=
  { model with calls := model.calls + 1 }

/-- Put out the arguments, each on a line; without arguments an empty line. -/
def putLines (model : ObjectModel) (arguments : List Value) : ObjectModel :=
  let lines := if arguments.isEmpty then [""] else arguments.map Value.text
  { model with output := model.output ++ lines.toArray }

/-- The outcome of a counting method that has no block to run. -/
def timesWithoutBlock (arguments : List Value) : Except HostError Value :=
  if arguments.isEmpty then .error (.raised "no block given (yield)")
  else .error (.argumentCount 0 arguments.length)

def send (model : ObjectModel) (receiver : Value) (method : String) (arguments : List Value) :
    Except HostError Value × ObjectModel :=
  let model := model.countCall
  match receiver with
  | .integer _ =>
      if method = "times" then (timesWithoutBlock arguments, model)
      else (numericMethod receiver method arguments, model)
  | .float _ => (numericMethod receiver method arguments, model)
  | .string text => (stringMethod text method arguments, model)
  | .array items => (arrayMethod items method arguments, model)
  | .hash pairs => (hashMethod pairs method arguments, model)
  | .main =>
      if method = "puts" then (.ok .nil, model.putLines arguments)
      else (comparison receiver method arguments, model)
  | _ => (comparison receiver method arguments, model)

/-- Run the block for the numbers from `next` on, `rounds` of them; then answer `result`. -/
def countUp (result : Value) : Nat → Int64 → ObjectModel → Conversation ObjectModel
  | 0, _, model => .done (.ok result) model
  | rounds + 1, next, model =>
      .yield [.integer next] model fun answer model =>
        match answer with
        | .ok _ => countUp result rounds (next + 1) model
        | .error error => .done (.error error) model

def iterate (result : Value) : List Value → ObjectModel → Conversation ObjectModel
  | [], model => .done (.ok result) model
  | item :: rest, model =>
      .yield [item] model fun answer model =>
        match answer with
        | .ok _ => iterate result rest model
        | .error error => .done (.error error) model

/-- Run the block for each item; then answer the block's results, of which the latest come first. -/
def collect (results : List Value) : List Value → ObjectModel → Conversation ObjectModel
  | [], model => .done (.ok (.array results.reverse)) model
  | item :: rest, model =>
      .yield [item] model fun answer model =>
        match answer with
        | .ok value => collect (value :: results) rest model
        | .error error => .done (.error error) model

/-- Call a method with a block; most methods have no use for it. -/
def sendWithBlock (model : ObjectModel) (receiver : Value) (method : String)
    (arguments : List Value) : Conversation ObjectModel :=
  match receiver, method, arguments with
  | .integer number, "times", [] => countUp receiver number.toInt.toNat 0 model.countCall
  | .array items, "each", [] => iterate receiver items model.countCall
  | .array items, "map", [] => collect [] items model.countCall
  | _, _, _ =>
      let (result, model) := model.send receiver method arguments
      .done result model

/-- A top-level constant; no scope but the top level holds any. -/
def constant (model : ObjectModel) (scope : Option Value) (name : String) : Option Value :=
  match scope with
  | none | some .main => model.constants.get? name
  | some _ => none

def commonMethods : List String :=
  ["==", "!=", "!", "nil?", "to_s", "inspect"]

/-- The further methods that a value responds to. -/
def ownMethods : Value → List String
  | .integer _ =>
      ["+", "-", "*", "/", "%", "<", "<=", ">", ">=", "<<", "&", "|", "succ", "times"]
  | .float _ => ["+", "-", "*", "/", "%", "<", "<=", ">", ">="]
  | .string _ =>
      ["+", "<<", "*", "length", "size", "empty?", "upcase", "to_sym", "=~", "<", "<=", ">",
       ">="]
  | .array _ =>
      ["length", "size", "empty?", "first", "last", "[]", "<<", "push", "+", "min", "max", "sum",
       "each", "map"]
  | .hash _ => ["[]", "length", "size", "empty?", "key?"]
  | .main => ["puts"]
  | _ => []

def respondsTo (receiver : Value) (method : String) : Bool :=
  commonMethods.contains method || (ownMethods receiver).contains method

def host : Host ObjectModel where
  send := send
  sendWithBlock := sendWithBlock
  global model name := (model.globals.get? name, model)
  constant model scope name := (model.constant scope name, model)
  respondsTo model receiver method := (respondsTo receiver method, model)

end ObjectModel

end StackCode
