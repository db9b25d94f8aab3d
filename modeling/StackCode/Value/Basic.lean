/-!
# Values

The values that instructions move around.  The machine itself only tests a
value for truth and names its class; all operations on values belong to the
host's object model.
-/

namespace StackCode

/-- The objects that the machine itself provides. -/
inductive SpecialObject where
  | machineCore
  | classBase
  | constantBase
  deriving DecidableEq

namespace SpecialObject

/-- The number of a special object in listings. -/
def code : SpecialObject → Nat
  | .machineCore => 1
  | .classBase => 2
  | .constantBase => 3

end SpecialObject

inductive Value where
  | nil
  | bool (truth : Bool)
  | integer (number : Int64)
  | float (number : Float)
  | string (text : String)
  | symbol (name : String)
  | array (items : List Value)
  /-- The pairs in insertion order; keys may repeat. -/
  | hash (pairs : List (Value × Value))
  | range (start stop : Value) (excludeEnd : Bool)
  | regexp (source : String) (options : Nat)
  /-- The receiver of top-level code. -/
  | main
  | special (object : SpecialObject)
  /-- An object of the host, known by its class and a handle. -/
  | object (className : String) (handle : Nat)

namespace Value

instance : Inhabited Value := ⟨.nil⟩

/-- All values but `nil` and `false` count as true. -/
def isTruthy : Value → Bool
  | .nil | .bool false => false
  | _ => true

def isNil : Value → Bool
  | .nil => true
  | _ => false

theorem isNil_iff (value : Value) : value.isNil = true ↔ value = .nil := by
  cases value <;> simp [isNil]

theorem isTruthy_eq_false_iff (value : Value) :
    value.isTruthy = false ↔ value = .nil ∨ value = .bool false := by
  cases value with
  | bool truth => cases truth <;> simp [isTruthy]
  | _ => simp [isTruthy]

/-- The class under which the methods of a value are looked up. -/
def className : Value → String
  | .nil => "NilClass"
  | .bool true => "TrueClass"
  | .bool false => "FalseClass"
  | .integer _ => "Integer"
  | .float _ => "Float"
  | .string _ => "String"
  | .symbol _ => "Symbol"
  | .array _ => "Array"
  | .hash _ => "Hash"
  | .range .. => "Range"
  | .regexp .. => "Regexp"
  | .main => "Object"
  | .special _ => "VMCore"
  | .object name _ => name

mutual

/--
Equality of structure.  Floats are compared as numbers, so the two zeros are
equal and a float that is not a number differs from itself; a number of one
kind never equals one of another kind.
-/
def same : Value → Value → Bool
  | .nil, .nil => true
  | .bool first, .bool second => first == second
  | .integer first, .integer second => first == second
  | .float first, .float second => first == second
  | .string first, .string second => first == second
  | .symbol first, .symbol second => first == second
  | .array first, .array second => sameItems first second
  | .hash first, .hash second => samePairs first second
  | .range start stop excludeEnd, .range start' stop' excludeEnd' =>
      same start start' && same stop stop' && excludeEnd == excludeEnd'
  | .regexp source options, .regexp source' options' =>
      source == source' && options == options'
  | .main, .main => true
  | .special first, .special second => first == second
  | .object name handle, .object name' handle' => name == name' && handle == handle'
  | _, _ => false

def sameItems : List Value → List Value → Bool
  | [], [] => true
  | first :: rest, first' :: rest' => same first first' && sameItems rest rest'
  | _, _ => false

def samePairs : List (Value × Value) → List (Value × Value) → Bool
  | [], [] => true
  | (key, value) :: rest, (key', value') :: rest' =>
      same key key' && same value value' && samePairs rest rest'
  | _, _ => false

end

instance : BEq Value := ⟨same⟩

theorem beq_eq_same (first second : Value) : (first == second) = same first second :=
  rfl

/-- The items of an array, no items for `nil`, and a single item for any other value. -/
def toItems : Value → List Value
  | .array items => items
  | .nil => []
  | value => [value]

/-- The name that a symbol or a string stands for; other values name nothing. -/
def toName : Value → String
  | .symbol name | .string name => name
  | _ => ""

def isString : Value → Bool
  | .string _ => true
  | _ => false

end Value

end StackCode
