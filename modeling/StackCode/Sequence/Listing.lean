import StackCode.Sequence.Basic
import StackCode.Instruction.Mnemonic
import StackCode.Value.Inspect

/-!
# Listings

A listing shows a sequence line by line: the index of the instruction, its
name, and its operands from a fixed column on.  Labels are shown with the index
they are bound to.
-/

namespace StackCode.Sequence

open StackCode.Text (quoted commaSeparated position column withoutTrailingBlanks)

def labelText (sequence : Sequence) (label : Label) : String :=
  match sequence.labelTarget? label with
  | some target => "label_" ++ toString label ++ " (" ++ toString target ++ ")"
  | none => "label_" ++ toString label

def slotText (name : String) (slot : Nat) : String :=
  name ++ "@" ++ toString slot

def cacheText (cache : Nat) : String :=
  "<is:" ++ toString cache ++ ">"

def casesText (sequence : Sequence) (cases : List (Value × Label)) : String :=
  "\x7b" ++
    commaSeparated (cases.map fun (key, label) =>
      key.inspect ++ "=>" ++ sequence.labelText label) ++
  "\x7d"

def operandText (sequence : Sequence) : Instruction → String
  | .dupN count | .topN count | .setN count | .adjustStack count | .newArray count
  | .concatStrings count | .newArrayMin count | .newArrayMax count => toString count
  | .newHash pairs => toString (pairs * 2)
  | .putObject value | .dupArray value | .dupHash value => value.inspect
  | .putString text => quoted text
  | .putSpecialObject object => toString object.code
  | .newRange excludeEnd => if excludeEnd then "1" else "0"
  | .splatArray copy => if copy then "true" else "false"
  | .toRegexp options count => commaSeparated [toString options, toString count]
  | .expandArray size flag => commaSeparated [toString size, toString flag]
  | .objectToString call | .sendWithoutBlock call | .invokeBlock call | .operate _ call =>
      call.text
  | .frozenString text call | .sharedString text call | .elementWith text call
  | .setElementWith text call => commaSeparated [quoted text, call.text]
  | .getOwnLocal name slot | .getOuterLocal name slot | .setOwnLocal name slot
  | .setOuterLocal name slot => slotText name slot
  | .getLocal name slot level | .setLocal name slot level =>
      commaSeparated [slotText name slot, toString level]
  | .getGlobal name | .setGlobal name | .getConstant name => ":" ++ name
  | .jump label | .branchIf label | .branchUnless label | .branchNil label =>
      sequence.labelText label
  | .caseDispatch cases otherwise =>
      commaSeparated [sequence.casesText cases, sequence.labelText otherwise]
  | .send call block =>
      commaSeparated [call.text, match block with | some body => body.name | none => "nil"]
  | .defineMethod name body => commaSeparated [":" ++ name, body.name]
  | .notEqual equalCall notEqualCall => commaSeparated [equalCall.text, notEqualCall.text]
  | .defined kind object value =>
      commaSeparated [toString kind.code, object.inspect, value.inspect]
  | .getInlineCache label cache => commaSeparated [sequence.labelText label, cacheText cache]
  | .setInlineCache cache => cacheText cache
  | .nop | .pop | .dup | .swap | .putNil | .putSelf | .putZero | .putOne | .concatArray
  | .intern | .anyToString | .leave => ""

/-- The column at which operands end up is one past this width. -/
def mnemonicWidth : Nat := 38

/-- The line of the instruction at an index, and nothing past the end. -/
def line (sequence : Sequence) (index : Nat) : String :=
  match sequence.instruction? index with
  | some instruction =>
      withoutTrailingBlanks <|
        position index ++ " " ++ column mnemonicWidth instruction.mnemonic ++ " " ++
          sequence.operandText instruction
  | none => ""

def title (sequence : Sequence) : String :=
  "#<ISeq:" ++ sequence.name ++ ">"

/-- The listing of a sequence without the sequences inside it. -/
def listing (sequence : Sequence) : String :=
  let catches := if sequence.handlers.isEmpty then "FALSE" else "TRUE"
  let head := "== disasm " ++ sequence.title ++ " (catch: " ++ catches ++ ")\n"
  let lines := (List.range sequence.length).map fun index => sequence.line index ++ "\n"
  head ++ String.join lines

end StackCode.Sequence
