import StackCode.Value.Basic
import StackCode.Text.Quoted
import StackCode.Text.Layout
import StackCode.Number.FloatText

/-!
# The written forms of a value

`inspect` writes a value the way a literal is written, with strings quoted.
`text` is the form in which a value enters a longer text: strings and symbols
stand for themselves and `nil` leaves no trace.
-/

namespace StackCode.Value

open StackCode.Text (quoted commaSeparated)
open StackCode.Number (floatText)

mutual

/-- The value written as a literal. -/
def inspect : Value → String
  | .nil => "nil"
  | .bool true => "true"
  | .bool false => "false"
  | .integer number => toString number.toInt
  | .float number => floatText number
  | .string text => quoted text
  | .symbol name => ":" ++ name
  | .array items => "[" ++ commaSeparated (inspectItems items) ++ "]"
  | .hash pairs => "\x7b" ++ commaSeparated (inspectPairs pairs) ++ "\x7d"
  | .range start stop excludeEnd =>
      inspect start ++ (if excludeEnd then "..." else "..") ++ inspect stop
  | .regexp source _ => "/" ++ source ++ "/"
  | .main => "main"
  | .special marker => toString marker.code
  | .object name handle => "#<" ++ name ++ ":" ++ toString handle ++ ">"

def inspectItems : List Value → List String
  | [] => []
  | first :: rest => inspect first :: inspectItems rest

def inspectPairs : List (Value × Value) → List String
  | [] => []
  | (key, value) :: rest => (inspect key ++ "=>" ++ inspect value) :: inspectPairs rest

end

theorem inspectItems_eq_map (items : List Value) : inspectItems items = items.map inspect := by
  induction items with
  | nil => rfl
  | cons first rest ih => simp [inspectItems, ih]

def text : Value → String
  | .string text | .symbol text => text
  | .nil => ""
  | value => value.inspect

def concatenated (parts : List Value) : String :=
  String.join (parts.map text)

end StackCode.Value
