import StackCode.Text.Layout

/-!
# Call sites

What a call-like instruction says about its call: the method, the number of
positional arguments and the calling convention.  The convention is a set of
flags in sixteen bits, of which thirteen have a name; unnamed bits are kept but
never written.
-/

namespace StackCode

/-- The calling convention of a call site, as a set of bits. -/
structure CallFlags where
  bits : UInt16
  deriving DecidableEq

namespace CallFlags

def none : CallFlags := ⟨0⟩

def bit (position : Nat) : CallFlags :=
  ⟨1 <<< UInt16.ofNat position⟩

/-- The names of the flags, lowest bit first. -/
def flagNames : List String :=
  ["ARGS_SPLAT", "ARGS_BLOCKARG", "FCALL", "VCALL", "ARGS_SIMPLE", "BLOCKISEQ", "KWARG",
   "KW_SPLAT", "TAILCALL", "SUPER", "ZSUPER", "OPT_SEND", "KW_SPLAT_MUT"]

/-- Called without an explicit receiver. -/
def ownReceiver : CallFlags := bit 2

def bareName : CallFlags := bit 3

def plainArguments : CallFlags := bit 4

def blockBody : CallFlags := bit 5

def union (first second : CallFlags) : CallFlags :=
  ⟨first.bits ||| second.bits⟩

instance : OrOp CallFlags := ⟨union⟩

def contains (flags part : CallFlags) : Bool :=
  flags.bits &&& part.bits == part.bits

def isEmpty (flags : CallFlags) : Bool :=
  flags.bits == 0

/-- The names of the flags in the set, lowest bit first. -/
def names (flags : CallFlags) : List String :=
  (flagNames.zipIdx.filter fun (_, position) => flags.contains (bit position)).map Prod.fst

def text (flags : CallFlags) : String :=
  Text.separated "|" flags.names

end CallFlags

/-- The descriptor of a call: a method, if the call names one, an argument count and flags. -/
structure CallSite where
  method? : Option String
  argumentCount : UInt32
  flags : CallFlags
  deriving DecidableEq

namespace CallSite

/-- A call with a receiver and plain arguments. -/
def plain (method : String) (argumentCount : UInt32) : CallSite :=
  ⟨some method, argumentCount, .plainArguments⟩

def ofSelf (method : String) (argumentCount : UInt32) : CallSite :=
  ⟨some method, argumentCount, .ownReceiver ||| .plainArguments⟩

/-- A bare identifier that turns out to be a call. -/
def ofName (method : String) : CallSite :=
  ⟨some method, 0, .ownReceiver ||| .bareName ||| .plainArguments⟩

/-- The method's name, empty for a call that names none. -/
def method (call : CallSite) : String :=
  call.method?.getD ""

def text (call : CallSite) : String :=
  let flags := if call.flags.isEmpty then "" else ", " ++ call.flags.text
  "<calldata!mid:" ++ call.method ++ ", argc:" ++ toString call.argumentCount ++ flags ++ ">"

end CallSite

end StackCode
