import StackCode.ObjectModel.Comparison
import StackCode.Text.UpperCase

/-!
# Methods of the object model

The methods of numbers, strings, arrays and hashes that take no block.  A
method that a class does not have is looked for among the comparisons.  Arrays
are values: a method that would change one answers a new one.
-/

namespace StackCode.ObjectModel

def numericMethod (receiver : Value) (method : String) (arguments : List Value) :
    Except HostError Value :=
  match receiver, arguments with
  | .integer number, [] =>
      if method = "succ" then .integer <$> exactInteger (number.toInt + 1)
      else comparison receiver method arguments
  | .integer first, [.integer second] =>
      match integerMethod? first second method with
      | some result => .integer <$> result
      | none => comparison receiver method arguments
  | _, [other] =>
      match toFloat? receiver, toFloat? other with
      | some first, some second =>
          match floatMethod? first second method with
          | some result => .ok (.float result)
          | none => comparison receiver method arguments
      | _, _ =>
          if wantsNumber method then
            .error (.typeMismatch (numericClass receiver) other.className)
          else
            comparison receiver method arguments
  | _, _ => comparison receiver method arguments

/-- The byte offset of the first occurrence of one text in another. -/
def byteOffset? (part : List Char) : List Char → Option Nat
  | [] => if part.isEmpty then some 0 else none
  | first :: rest =>
      if part.isPrefixOf (first :: rest) then some 0
      else (byteOffset? part rest).map (first.utf8Size + ·)

def count (number : Nat) : Value :=
  .integer (Int64.ofNat number)

/-- A text several times in a row; the empty text is not worth repeating. -/
def repeated (times : Nat) (text : String) : String :=
  if text.isEmpty then "" else String.join (List.replicate times text)

def stringMethod (text : String) (method : String) (arguments : List Value) :
    Except HostError Value :=
  match method, arguments with
  | "+", [.string other] => .ok (.string (text ++ other))
  | "<<", [other] => .ok (.string (text ++ other.text))
  | "length", [] | "size", [] => .ok (count text.length)
  | "empty?", [] => .ok (.bool text.isEmpty)
  | "upcase", [] => .ok (.string (Text.upperCase text))
  | "to_sym", [] => .ok (.symbol text)
  | "=~", [.regexp source _] =>
      .ok (((byteOffset? source.toList text.toList).map count).getD .nil)
  | "*", [.integer times] =>
      if times < 0 then .error (.raised "negative argument")
      else .ok (.string (repeated times.toInt.toNat text))
  | _, _ => comparison (.string text) method arguments

/-- The place of an index, which counts from the end if it is negative. -/
def place? (length : Nat) (index : Int64) : Option Nat :=
  let forward := if index < 0 then length + index.toInt else index.toInt
  if 0 ≤ forward ∧ forward < length then some forward.toNat else none

/-- The first of the items that all later ones fail to better. -/
def extremum (better : Ordering) : List Value → Except HostError Value
  | [] => .ok .nil
  | first :: rest =>
      rest.foldlM (fun best item =>
        match compare? item best with
        | some order => .ok (if order = better then item else best)
        | none => .error (.raised "comparison failed")) first

/-- The methods of arrays that take no block. -/
def arrayMethod (items : List Value) (method : String) (arguments : List Value) :
    Except HostError Value :=
  match method, arguments with
  | "length", [] | "size", [] => .ok (count items.length)
  | "empty?", [] => .ok (.bool items.isEmpty)
  | "first", [] => .ok (items.head?.getD .nil)
  | "last", [] => .ok (items.getLast?.getD .nil)
  | "<<", [value] | "push", [value] => .ok (.array (items ++ [value]))
  | "+", [.array more] => .ok (.array (items ++ more))
  | "min", [] => extremum .lt items
  | "max", [] => extremum .gt items
  | "sum", [] => items.foldlM (fun sum item => numericMethod sum "+" [item]) (.integer 0)
  | "each", [] | "map", [] => .error (.raised "no block given (yield)")
  | "[]", [.integer index] =>
      .ok (((place? items.length index).bind fun place => items[place]?).getD .nil)
  | "[]=", [.integer index, value] =>
      match place? items.length index with
      | some _ => .ok value
      | none => .error (.raised ("index " ++ toString index.toInt ++ " out of array"))
  | _, _ => comparison (.array items) method arguments

def hashMethod (pairs : List (Value × Value)) (method : String) (arguments : List Value) :
    Except HostError Value :=
  match method, arguments with
  | "[]", [key] => .ok (((pairs.find? fun pair => pair.1 == key).map Prod.snd).getD .nil)
  | "length", [] | "size", [] => .ok (count pairs.length)
  | "empty?", [] => .ok (.bool pairs.isEmpty)
  | "key?", [key] => .ok (.bool (pairs.any fun pair => pair.1 == key))
  | _, _ => comparison (.hash pairs) method arguments

end StackCode.ObjectModel
