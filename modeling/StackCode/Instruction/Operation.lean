import StackCode.CallSite

/-!
# Operations with an instruction of their own

The frequent calls of the object model each have a specialised instruction.
All of them only forward to a method; the operation fixes the method, the
number of arguments and the names of the instruction.
-/

namespace StackCode

/-- A frequent call of the object model. -/
inductive Operation where
  | plus
  | minus
  | times
  | divide
  | modulo
  | equal
  | less
  | lessOrEqual
  | greater
  | greaterOrEqual
  | shiftLeft
  | bitAnd
  | bitOr
  | element
  | setElement
  | length
  | size
  | isEmpty
  | isNil
  | negation
  | successor
  | patternMatch
  deriving DecidableEq

namespace Operation

def all : List Operation :=
  [.plus, .minus, .times, .divide, .modulo, .equal, .less, .lessOrEqual, .greater,
   .greaterOrEqual, .shiftLeft, .bitAnd, .bitOr, .element, .setElement, .length, .size,
   .isEmpty, .isNil, .negation, .successor, .patternMatch]

def method : Operation → String
  | .plus => "+"
  | .minus => "-"
  | .times => "*"
  | .divide => "/"
  | .modulo => "%"
  | .equal => "=="
  | .less => "<"
  | .lessOrEqual => "<="
  | .greater => ">"
  | .greaterOrEqual => ">="
  | .shiftLeft => "<<"
  | .bitAnd => "&"
  | .bitOr => "|"
  | .element => "[]"
  | .setElement => "[]="
  | .length => "length"
  | .size => "size"
  | .isEmpty => "empty?"
  | .isNil => "nil?"
  | .negation => "!"
  | .successor => "succ"
  | .patternMatch => "=~"

/-- The number of arguments beside the receiver. -/
def argumentCount : Operation → UInt32
  | .length | .size | .isEmpty | .isNil | .negation | .successor => 0
  | .setElement => 2
  | _ => 1

def mnemonic : Operation → String
  | .plus => "opt_plus"
  | .minus => "opt_minus"
  | .times => "opt_mult"
  | .divide => "opt_div"
  | .modulo => "opt_mod"
  | .equal => "opt_eq"
  | .less => "opt_lt"
  | .lessOrEqual => "opt_le"
  | .greater => "opt_gt"
  | .greaterOrEqual => "opt_ge"
  | .shiftLeft => "opt_ltlt"
  | .bitAnd => "opt_and"
  | .bitOr => "opt_or"
  | .element => "opt_aref"
  | .setElement => "opt_aset"
  | .length => "opt_length"
  | .size => "opt_size"
  | .isEmpty => "opt_empty_p"
  | .isNil => "opt_nil_p"
  | .negation => "opt_not"
  | .successor => "opt_succ"
  | .patternMatch => "opt_regexpmatch2"

/-- The name of the instruction in drawings of a value graph. -/
def nodeName : Operation → String
  | .plus => "OptPlus"
  | .minus => "OptMinus"
  | .times => "OptMult"
  | .divide => "OptDiv"
  | .modulo => "OptMod"
  | .equal => "OptEq"
  | .less => "OptLt"
  | .lessOrEqual => "OptLe"
  | .greater => "OptGt"
  | .greaterOrEqual => "OptGe"
  | .shiftLeft => "OptLtLt"
  | .bitAnd => "OptAnd"
  | .bitOr => "OptOr"
  | .element => "OptAref"
  | .setElement => "OptAset"
  | .length => "OptLength"
  | .size => "OptSize"
  | .isEmpty => "OptEmptyP"
  | .isNil => "OptNilP"
  | .negation => "OptNot"
  | .successor => "OptSucc"
  | .patternMatch => "OptRegexpMatch2"

def ofMnemonic? (name : String) : Option Operation :=
  all.find? (·.mnemonic = name)

def callSite (operation : Operation) : CallSite :=
  .plain operation.method operation.argumentCount

@[simp] theorem argumentCount_callSite (operation : Operation) :
    operation.callSite.argumentCount = operation.argumentCount :=
  rfl

end Operation

/-- What a `defined` instruction asks about. -/
inductive DefinedKind where
  | nil
  | instanceVariable
  | localVariable
  | globalVariable
  | classVariable
  | constant
  | method
  | blockCall
  | parentMethod
  | self
  | trueLiteral
  | falseLiteral
  | assignment
  | expression
  deriving DecidableEq

namespace DefinedKind

def all : List DefinedKind :=
  [.nil, .instanceVariable, .localVariable, .globalVariable, .classVariable, .constant, .method,
   .blockCall, .parentMethod, .self, .trueLiteral, .falseLiteral, .assignment, .expression]

def code : DefinedKind → Nat
  | .nil => 1
  | .instanceVariable => 2
  | .localVariable => 3
  | .globalVariable => 4
  | .classVariable => 5
  | .constant => 6
  | .method => 7
  | .blockCall => 8
  | .parentMethod => 9
  | .self => 10
  | .trueLiteral => 11
  | .falseLiteral => 12
  | .assignment => 13
  | .expression => 14

end DefinedKind

inductive HandlerKind where
  | rescue
  | ensure
  | retry
  | breakLoop
  | nextIteration
  | redo
  deriving DecidableEq

end StackCode
