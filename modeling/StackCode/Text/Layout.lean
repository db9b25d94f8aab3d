import StackCode.Text.Ranges

/-!
# Columns and line ends

Numbers padded with zeros, words padded to a column, and lines cut of their
trailing blanks.
-/

namespace StackCode.Text

def zeroPadded (width number : Nat) : String :=
  let digits := Nat.toDigits 10 number
  String.ofList (List.replicate (width - digits.length) '0' ++ digits)

/-- An instruction index as four digits or more. -/
def position (index : Nat) : String :=
  zeroPadded 4 index

/-- A word followed by spaces up to a column. -/
def column (width : Nat) (word : String) : String :=
  word ++ String.ofList (List.replicate (width - word.length) ' ')

/-- The code points of the property *White_Space*. -/
def blanks : List (Nat × Nat) :=
  [(0x9, 0xD), (0x20, 0x20), (0x85, 0x85), (0xA0, 0xA0), (0x1680, 0x1680), (0x2000, 0x200A),
   (0x2028, 0x2029), (0x202F, 0x202F), (0x205F, 0x205F), (0x3000, 0x3000)]

def withoutTrailingBlanks (line : String) : String :=
  String.ofList ((line.toList.reverse.dropWhile (covers blanks)).reverse)

def separated (separator : String) (words : List String) : String :=
  separator.intercalate words

def commaSeparated (words : List String) : String :=
  separated ", " words

end StackCode.Text
