import StackCode.Instruction.Basic

/-!
# Names of instructions

Every instruction has a name in listings and another one in drawings of a
value graph.
-/

namespace StackCode.Instruction

def mnemonic : Instruction → String
  | .nop => "nop"
  | .pop => "pop"
  | .dup => "dup"
  | .dupN _ => "dupn"
  | .swap => "swap"
  | .topN _ => "topn"
  | .setN _ => "setn"
  | .adjustStack _ => "adjuststack"
  | .putNil => "putnil"
  | .putSelf => "putself"
  | .putObject _ => "putobject"
  | .putZero => "putobject_INT2FIX_0_"
  | .putOne => "putobject_INT2FIX_1_"
  | .putString _ => "putstring"
  | .putSpecialObject _ => "putspecialobject"
  | .newArray _ => "newarray"
  | .dupArray _ => "duparray"
  | .newHash _ => "newhash"
  | .dupHash _ => "duphash"
  | .newRange _ => "newrange"
  | .concatArray => "concatarray"
  | .splatArray _ => "splatarray"
  | .concatStrings _ => "concatstrings"
  | .toRegexp .. => "toregexp"
  | .intern => "intern"
  | .objectToString _ => "objtostring"
  | .anyToString => "anytostring"
  | .expandArray .. => "expandarray"
  | .newArrayMin _ => "opt_newarray_min"
  | .newArrayMax _ => "opt_newarray_max"
  | .frozenString .. => "opt_str_freeze"
  | .sharedString .. => "opt_str_uminus"
  | .getLocal .. => "getlocal"
  | .setLocal .. => "setlocal"
  | .getOwnLocal .. => "getlocal_WC_0"
  | .getOuterLocal .. => "getlocal_WC_1"
  | .setOwnLocal .. => "setlocal_WC_0"
  | .setOuterLocal .. => "setlocal_WC_1"
  | .getGlobal _ => "getglobal"
  | .setGlobal _ => "setglobal"
  | .getConstant _ => "getconstant"
  | .jump _ => "jump"
  | .branchIf _ => "branchif"
  | .branchUnless _ => "branchunless"
  | .branchNil _ => "branchnil"
  | .caseDispatch .. => "opt_case_dispatch"
  | .leave => "leave"
  | .send .. => "send"
  | .sendWithoutBlock _ => "opt_send_without_block"
  | .invokeBlock _ => "invokeblock"
  | .defineMethod .. => "definemethod"
  | .operate operation _ => operation.mnemonic
  | .notEqual .. => "opt_neq"
  | .elementWith .. => "opt_aref_with"
  | .setElementWith .. => "opt_aset_with"
  | .defined .. => "defined"
  | .getInlineCache .. => "opt_getinlinecache"
  | .setInlineCache _ => "opt_setinlinecache"

/-- The name of an instruction in drawings of a value graph. -/
def nodeName : Instruction → String
  | .nop => "Nop"
  | .pop => "Pop"
  | .dup => "Dup"
  | .dupN _ => "DupN"
  | .swap => "Swap"
  | .topN _ => "TopN"
  | .setN _ => "SetN"
  | .adjustStack _ => "AdjustStack"
  | .putNil => "PutNil"
  | .putSelf => "PutSelf"
  | .putObject _ => "PutObject"
  | .putZero => "PutObjectInt2Fix0"
  | .putOne => "PutObjectInt2Fix1"
  | .putString _ => "PutString"
  | .putSpecialObject _ => "PutSpecialObject"
  | .newArray _ => "NewArray"
  | .dupArray _ => "DupArray"
  | .newHash _ => "NewHash"
  | .dupHash _ => "DupHash"
  | .newRange _ => "NewRange"
  | .concatArray => "ConcatArray"
  | .splatArray _ => "SplatArray"
  | .concatStrings _ => "ConcatStrings"
  | .toRegexp .. => "ToRegexp"
  | .intern => "Intern"
  | .objectToString _ => "ObjToString"
  | .anyToString => "AnyToString"
  | .expandArray .. => "ExpandArray"
  | .newArrayMin _ => "OptNewArrayMin"
  | .newArrayMax _ => "OptNewArrayMax"
  | .frozenString .. => "OptStrFreeze"
  | .sharedString .. => "OptStrUminus"
  | .getLocal .. => "GetLocal"
  | .setLocal .. => "SetLocal"
  | .getOwnLocal .. => "GetLocalWC0"
  | .getOuterLocal .. => "GetLocalWC1"
  | .setOwnLocal .. => "SetLocalWC0"
  | .setOuterLocal .. => "SetLocalWC1"
  | .getGlobal _ => "GetGlobal"
  | .setGlobal _ => "SetGlobal"
  | .getConstant _ => "GetConstant"
  | .jump _ => "Jump"
  | .branchIf _ => "BranchIf"
  | .branchUnless _ => "BranchUnless"
  | .branchNil _ => "BranchNil"
  | .caseDispatch .. => "OptCaseDispatch"
  | .leave => "Leave"
  | .send .. => "Send"
  | .sendWithoutBlock _ => "OptSendWithoutBlock"
  | .invokeBlock _ => "InvokeBlock"
  | .defineMethod .. => "DefineMethod"
  | .operate operation _ => operation.nodeName
  | .notEqual .. => "OptNeq"
  | .elementWith .. => "OptArefWith"
  | .setElementWith .. => "OptAsetWith"
  | .defined .. => "Defined"
  | .getInlineCache .. => "OptGetInlineCache"
  | .setInlineCache _ => "OptSetInlineCache"

end StackCode.Instruction
