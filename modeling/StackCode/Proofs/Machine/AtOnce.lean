import Mathlib.Algebra.GroupWithZero.Nat
import StackCode.Proofs.Machine.Ending

/-!
# One instruction at once

An instruction takes its operands in one go or in two, acts on them, and then puts
something on the stack or goes on elsewhere.  Most of what there is to say of an
instruction is about the acting.  So here the three are told apart: the operands are
gathered, an action of their list comes to values or to a place to go on, and the
values are pushed.  To run an instruction is to do the one after the other.

How many operands an instruction gathers and how many values it comes to is said
here by itself, in numbers without bound; the counts of the catalog are not used.
-/

namespace StackCode

namespace Instruction

/-- The numbers of operands that an instruction takes, one group after another. -/
def takes : Instruction → List Nat
  | .nop | .putNil | .putSelf | .putObject _ | .putZero | .putOne | .putString _
  | .putSpecialObject _ | .dupArray _ | .dupHash _ | .frozenString .. | .sharedString ..
  | .getLocal .. | .getOwnLocal .. | .getOuterLocal .. | .getGlobal _ | .jump _
  | .defineMethod .. | .getInlineCache .. => []
  | .pop | .dup | .splatArray _ | .intern | .objectToString _ | .expandArray ..
  | .setLocal .. | .setOwnLocal .. | .setOuterLocal .. | .setGlobal _ | .branchIf _
  | .branchUnless _ | .branchNil _ | .caseDispatch .. | .leave | .elementWith ..
  | .defined .. | .setInlineCache _ => [1]
  | .swap | .newRange _ | .concatArray | .anyToString | .getConstant _
  | .setElementWith .. => [1, 1]
  | .dupN count | .adjustStack count | .newArray count | .concatStrings count
  | .newArrayMin count | .newArrayMax count | .toRegexp _ count => [count.toNat]
  | .topN depth | .setN depth => [depth.toNat + 1]
  | .newHash pairs => [pairs.toNat * 2]
  | .send call _ | .sendWithoutBlock call | .operate _ call | .notEqual _ call =>
      [call.argumentCount.toNat, 1]
  | .invokeBlock call => [call.argumentCount.toNat]

def demand (instruction : Instruction) : Nat :=
  instruction.takes.sum

def supply : Instruction → Nat
  | .nop | .pop | .adjustStack _ | .setLocal .. | .setOwnLocal .. | .setOuterLocal ..
  | .setGlobal _ | .jump _ | .branchIf _ | .branchUnless _ | .branchNil _
  | .caseDispatch .. | .leave | .defineMethod .. => 0
  | .dup | .swap => 2
  | .dupN count => count.toNat * 2
  | .topN depth => depth.toNat + 2
  | .setN depth => depth.toNat + 1
  | .expandArray size _ => size.toNat
  | _ => 1

end Instruction

/-- What acting on operands comes to: values to push, or a way to go on. -/
inductive Upshot where
  | push (values : List Value)
  | jump (target : Nat)
  | leave (result : Value)

namespace Upshot

def values : Upshot → List Value
  | .push values => values
  | .jump _ | .leave _ => []

def outcome : Upshot → Outcome
  | .push _ => .next
  | .jump target => .jump target
  | .leave result => .leave result

end Upshot

namespace Execution

variable {σ τ α : Type}

/-! ## Gathering operands -/

/-- Take groups of operands, the upper ones first; the deepest operand comes first. -/
def gather : List Nat → Execution σ τ (List Value)
  | [] => return []
  | count :: counts => do
      let upper ← popMany count
      let lower ← gather counts
      return lower ++ upper

/-- With enough operands a frame gathers as many as the groups have together. -/
theorem gather_eq_of_le {counts : List Nat} {machine : Machine σ τ}
    (enough : counts.sum ≤ machine.context.operands.length) :
    gather counts machine = .ok (machine.context.operands.take counts.sum).reverse
      (machine.withOperands (machine.context.operands.drop counts.sum)) := by
  induction counts generalizing machine with
  | nil => simp [gather, pure, EStateM.pure]
  | cons count counts ih =>
      rw [List.sum_cons] at enough ⊢
      have popped := (popMany_eq machine count).trans (if_pos (by omega))
      have rest := @ih (machine.withOperands (machine.context.operands.drop count))
        (by simp; omega)
      rw [gather, bind_eq_of_ok popped, bind_eq_of_ok rest]
      simp [List.take_add, List.drop_drop, pure, EStateM.pure]

/-- With fewer operands the gathering fails, perhaps after some groups were taken. -/
theorem gather_eq_of_lt {counts : List Nat} {machine : Machine σ τ}
    (short : machine.context.operands.length < counts.sum) :
    ∃ operands, gather counts machine =
      .error (.raise .stackUnderflow) (machine.withOperands operands) := by
  induction counts generalizing machine with
  | nil => exact absurd short (Nat.not_lt_zero _)
  | cons count counts ih =>
      rw [List.sum_cons] at short
      by_cases enough : count ≤ machine.context.operands.length
      · have popped := (popMany_eq machine count).trans (if_pos enough)
        obtain ⟨operands, failed⟩ :=
          @ih (machine.withOperands (machine.context.operands.drop count)) (by simp; omega)
        refine ⟨operands, ?_⟩
        rw [gather, bind_eq_of_ok popped, bind_eq_of_error failed,
          Machine.withOperands_withOperands]
      · refine ⟨machine.context.operands, ?_⟩
        rw [gather, bind_eq_of_error ((popMany_eq machine count).trans (if_neg enough)),
          Machine.withOperands_self]

/-- Gathering operands fails exactly if the frame owns too few of them. -/
theorem ends_gather_bind {β : Type} {counts : List Nat} {next : List Value → Execution σ τ β}
    {machine : Machine σ τ} {returns : β → Machine σ τ → Prop} {exits : Exit → Machine σ τ → Prop}
    (gathered : counts.sum ≤ machine.context.operands.length →
      Ends (next (machine.context.operands.take counts.sum).reverse)
        (machine.withOperands (machine.context.operands.drop counts.sum)) returns exits)
    (missing : machine.context.operands.length < counts.sum → ∀ operands,
      exits (.raise .stackUnderflow) (machine.withOperands operands)) :
    Ends (gather counts >>= next) machine returns exits := by
  by_cases enough : counts.sum ≤ machine.context.operands.length
  · exact (ends_bind_of_ok (gather_eq_of_le enough)).mpr (gathered enough)
  · have short := Nat.lt_of_not_le enough
    obtain ⟨operands, failed⟩ := gather_eq_of_lt short
    exact (ends_bind_of_error failed).mpr (missing short operands)

theorem gather_singleton (count : Nat) :
    gather [count] = (popMany count : Execution σ τ (List Value)) := by
  simp [gather]

/-! ## Acting on operands -/

def withOne (operands : List Value) (act : Value → Execution σ τ α) : Execution σ τ α :=
  match operands with
  | [value] => act value
  | _ => fail .stackUnderflow

def withTwo (operands : List Value) (act : Value → Value → Execution σ τ α) : Execution σ τ α :=
  match operands with
  | [below, top] => act below top
  | _ => fail .stackUnderflow

def withReceiver (operands : List Value) (act : Value → List Value → Execution σ τ α) :
    Execution σ τ α :=
  match operands with
  | receiver :: arguments => act receiver arguments
  | [] => fail .stackUnderflow

/-- Act on the operands of an instruction, of which the deepest comes first. -/
def perform (host : Host σ) (observer : Observer τ) (enter : Activation → Execution σ τ Value)
    (code : Sequence) (frame : Nat) (instruction : Instruction) (operands : List Value) :
    Execution σ τ Upshot :=
  let answer (receiver : Value) (method : String) (arguments : List Value)
      (block : Option Closure) : Execution σ τ Upshot := do
    return .push [← call host observer enter receiver method arguments block]
  let jumpIf (condition : Bool) (label : Label) : Execution σ τ Upshot :=
    if condition then return .jump (← targetOf code label) else return .push []
  match instruction with
  | .nop | .adjustStack _ => return .push []
  | .pop => withOne operands fun _ => return .push []
  | .dupN _ => return .push (operands ++ operands)
  | .swap => withTwo operands fun below top => return .push [top, below]
  | .dup | .topN _ => return .push (operands ++ operands.take 1)
  | .setN _ => return .push (operands.getLast?.toList ++ operands.drop 1)
  | .putNil | .getInlineCache .. => return .push [.nil]
  | .putSelf => return .push [(← context).selfOf frame]
  | .putObject value | .dupArray value | .dupHash value => return .push [value]
  | .putZero => return .push [.integer 0]
  | .putOne => return .push [.integer 1]
  | .putString text | .frozenString text _ | .sharedString text _ => return .push [.string text]
  | .putSpecialObject object => return .push [.special object]
  | .newArray _ => return .push [.array operands]
  | .newHash _ => return .push [.hash (pairUp operands)]
  | .newRange excludeEnd =>
      withTwo operands fun start stop => return .push [.range start stop excludeEnd]
  | .concatArray =>
      withTwo operands fun below top => return .push [.array (below.toItems ++ top.toItems)]
  | .splatArray _ => withOne operands fun value => return .push [.array value.toItems]
  | .concatStrings _ => return .push [.string (Value.concatenated operands)]
  | .toRegexp options _ => return .push [.regexp (Value.concatenated operands) options]
  | .intern => withOne operands fun value => return .push [← symbolOf value]
  | .objectToString site =>
      withOne operands fun value =>
        if value.isString then return .push [value]
        else answer value (site.method?.getD "to_s") [] none
  | .anyToString =>
      withTwo operands fun object text =>
        return .push [if text.isString then text else .string object.inspect]
  | .expandArray size _ =>
      withOne operands fun value =>
        let items := value.toItems
        return .push ((List.range size.toNat).reverse.map fun index => items[index]?.getD .nil)
  | .newArrayMin _ => answer (.array operands) "min" [] none
  | .newArrayMax _ => answer (.array operands) "max" [] none
  | .getLocal name slot level => return .push [← readLocal frame name slot level]
  | .getOwnLocal name slot => return .push [← readLocal frame name slot 0]
  | .getOuterLocal name slot => return .push [← readLocal frame name slot 1]
  | .setLocal name slot level =>
      withOne operands fun value => do
        writeLocal frame name slot level value
        return .push []
  | .setOwnLocal name slot =>
      withOne operands fun value => do
        writeLocal frame name slot 0 value
        return .push []
  | .setOuterLocal name slot =>
      withOne operands fun value => do
        writeLocal frame name slot 1 value
        return .push []
  | .getGlobal name => return .push [(← findGlobal host name).getD .nil]
  | .setGlobal name =>
      withOne operands fun value => do
        modifyContext fun context => context.setGlobal name value
        return .push []
  | .getConstant name =>
      withTwo operands fun scope lexically =>
        return .push [← readConstant host name scope lexically]
  | .jump label => return .jump (← targetOf code label)
  | .branchIf label => withOne operands fun value => jumpIf value.isTruthy label
  | .branchUnless label => withOne operands fun value => jumpIf (!value.isTruthy) label
  | .branchNil label => withOne operands fun value => jumpIf value.isNil label
  | .caseDispatch cases otherwise =>
      withOne operands fun key =>
        let label := ((cases.find? fun entry => entry.1 == key).map Prod.snd).getD otherwise
        return .jump (← targetOf code label)
  | .leave => withOne operands fun value => return .leave value
  | .send site block =>
      withReceiver operands fun receiver arguments => do
        let self := (← context).selfOf frame
        let closure := block.map fun body => ⟨body, self, frame⟩
        answer receiver site.method arguments closure
  | .sendWithoutBlock site | .operate _ site | .notEqual _ site =>
      withReceiver operands fun receiver arguments =>
        answer receiver site.method arguments none
  | .elementWith key site =>
      withOne operands fun receiver =>
        answer receiver (site.method?.getD "[]") [.string key] none
  | .setElementWith key site =>
      withTwo operands fun receiver value =>
        answer receiver (site.method?.getD "[]=") [.string key, value] none
  | .invokeBlock _ => return .push [← yieldTo enter frame operands]
  | .defineMethod name body => do
      modifyContext fun context =>
        context.defineMethod (context.selfOf frame).className name body
      return .push []
  | .defined kind object value =>
      withOne operands fun operand => do
        return .push [if ← isDefined host kind object operand then value else .nil]
  | .setInlineCache _ => return .push operands

def checkForm : Instruction → Execution σ τ Unit
  | .expandArray _ flag =>
      if flag ≠ 0 then fail (.unsupported "expandarray" "splat or post flags") else pure ()
  | _ => pure ()

def settle (upshot : Upshot) : Execution σ τ Outcome := do
  push upshot.values
  return upshot.outcome

theorem ends_settle {upshot : Upshot} {machine : Machine σ τ}
    {returns : Outcome → Machine σ τ → Prop} {exits : Exit → Machine σ τ → Prop} :
    Ends (settle upshot) machine returns exits ↔ returns upshot.outcome
      (machine.withOperands (upshot.values.reverse ++ machine.context.operands)) := by
  simp [settle]

/-! ## One after the other -/

theorem push_nil : push [] = (pure () : Execution σ τ Unit) := by
  funext machine
  rw [push_eq]
  simp [pure, EStateM.pure]

theorem push_push_bind (first second : List Value) (next : Execution σ τ α) :
    (push first >>= fun _ => push second >>= fun _ => next) =
      push (first ++ second) >>= fun _ => next := by
  funext machine
  rw [bind_eq_of_ok (push_eq machine first), bind_eq_of_ok (push_eq _ second),
    bind_eq_of_ok (push_eq machine _)]
  simp

theorem settle_jump (target : Nat) :
    settle (.jump target) = (pure (.jump target) : Execution σ τ Outcome) := by
  rw [settle, Upshot.values, push_nil, pure_bind, Upshot.outcome]

theorem settle_leave (result : Value) :
    settle (.leave result) = (pure (.leave result) : Execution σ τ Outcome) := by
  rw [settle, Upshot.values, push_nil, pure_bind, Upshot.outcome]

theorem settle_nothing : settle (.push []) = (pure .next : Execution σ τ Outcome) := by
  rw [settle, Upshot.values, push_nil, pure_bind, Upshot.outcome]

theorem jumpIf_eq (code : Sequence) (condition : Bool) (label : Label) :
    jumpIf code condition label = ((if condition then return .jump (← targetOf code label)
      else return .push []) >>= settle : Execution σ τ Outcome) := by
  cases condition <;> simp [jumpIf, jumpTo, settle_jump, settle_nothing]

section Bind

variable {β : Type}

theorem withOne_bind (operands : List Value) (act : Value → Execution σ τ α)
    (next : α → Execution σ τ β) :
    withOne operands act >>= next = withOne operands fun value => act value >>= next := by
  unfold withOne
  split <;> rfl

theorem withTwo_bind (operands : List Value) (act : Value → Value → Execution σ τ α)
    (next : α → Execution σ τ β) :
    withTwo operands act >>= next = withTwo operands fun below top => act below top >>= next := by
  unfold withTwo
  split <;> rfl

theorem withReceiver_bind (operands : List Value) (act : Value → List Value → Execution σ τ α)
    (next : α → Execution σ τ β) :
    withReceiver operands act >>= next =
      withReceiver operands fun receiver arguments => act receiver arguments >>= next := by
  unfold withReceiver
  split <;> rfl

theorem pop_bind (next : Value → Execution σ τ α) :
    pop >>= next = gather [1] >>= fun operands => withOne operands next := by
  funext machine
  have popped := pop_eq machine
  have gathered := popMany_eq machine 1
  rw [gather_singleton]
  cases shape : machine.context.operands with
  | nil =>
      rw [shape] at popped gathered
      rw [bind_eq_of_error popped, bind_eq_of_error gathered]
  | cons top rest =>
      rw [shape] at popped gathered
      rw [bind_eq_of_ok popped, bind_eq_of_ok (gathered.trans (if_pos (by simp)))]
      rfl

theorem popMany_bind (count : Nat) (next : List Value → Execution σ τ α) :
    popMany count >>= next = gather [count] >>= next := by
  rw [gather_singleton]

/-- Of what comes after an operand was taken, only what it does with a single one matters. -/
theorem popMany_one_bind_congr {first second : List Value → Execution σ τ α}
    (same : ∀ value, first [value] = second [value]) :
    popMany 1 >>= first = popMany 1 >>= second := by
  funext machine
  have popped := popMany_eq machine 1
  cases shape : machine.context.operands with
  | nil =>
      rw [shape] at popped
      rw [bind_eq_of_error popped, bind_eq_of_error popped]
  | cons top rest =>
      rw [shape] at popped
      have popped := popped.trans (if_pos (by simp))
      rw [bind_eq_of_ok popped, bind_eq_of_ok popped]
      exact congrFun (same top) _

/-- Operands taken in two goes. -/
theorem popMany_pop_bind (count : Nat) (next : Value → List Value → Execution σ τ α) :
    (popMany count >>= fun upper => pop >>= fun lower => next lower upper) =
      gather [count, 1] >>= fun operands => withReceiver operands next := by
  simp only [gather, pop_bind, bind_assoc, pure_bind, List.nil_append]
  exact bind_congr fun upper => popMany_one_bind_congr fun lower => rfl

theorem pop_pop_bind (next : Value → Value → Execution σ τ α) :
    (pop >>= fun top => pop >>= fun below => next below top) =
      gather [1, 1] >>= fun operands => withTwo operands next := by
  simp only [gather, pop_bind, bind_assoc, pure_bind, List.nil_append]
  exact popMany_one_bind_congr fun top => popMany_one_bind_congr fun below => rfl

end Bind

/-- The operands from the top down to a place, that one first. -/
theorem reverse_take_succ {operands : List Value} {place : Nat} {value : Value}
    (found : operands[place]? = some value) :
    (operands.take (place + 1)).reverse = value :: (operands.take place).reverse := by
  rw [List.take_add_one, found, List.reverse_append]
  rfl

section Places

variable (next : Execution σ τ α)

/-- An operand that is copied is taken with all above it, which are put back. -/
theorem peek_push_bind (place : Nat) :
    (peek place >>= fun value => push [value] >>= fun _ => next) =
      gather [place + 1] >>= fun operands => push (operands ++ operands.take 1) >>= fun _ =>
        next := by
  funext machine
  have peeked := peek_eq machine place
  have gathered := popMany_eq machine (place + 1)
  rw [gather_singleton]
  cases found : machine.context.operands[place]? with
  | none =>
      have short := List.getElem?_eq_none_iff.mp found
      rw [found] at peeked
      rw [bind_eq_of_error peeked, bind_eq_of_error (gathered.trans (if_neg (by omega)))]
  | some value =>
      obtain ⟨owned, -⟩ := List.getElem?_eq_some_iff.mp found
      have copied : ((machine.context.operands.take (place + 1)).reverse ++
            (machine.context.operands.take (place + 1)).reverse.take 1).reverse ++
          machine.context.operands.drop (place + 1) = value :: machine.context.operands := by
        rw [List.reverse_append, List.append_assoc, List.reverse_reverse, List.take_append_drop,
          reverse_take_succ found]
        rfl
      rw [found] at peeked
      rw [bind_eq_of_ok peeked, bind_eq_of_ok (gathered.trans (if_pos owned)),
        bind_eq_of_ok (push_eq machine [value]), bind_eq_of_ok (push_eq _ _)]
      simp only [Machine.context_withOperands, Context.operands_withOperands, copied,
        Machine.withOperands_withOperands]
      rfl

/-- To look at the top operand is to take it and to put it back. -/
theorem peek_bind :
    (peek 0 >>= fun _ => next) =
      gather [1] >>= fun operands => push operands >>= fun _ => next := by
  funext machine
  have peeked := peek_eq machine 0
  have gathered := popMany_eq machine 1
  rw [gather_singleton]
  cases shape : machine.context.operands with
  | nil =>
      rw [shape] at peeked gathered
      rw [bind_eq_of_error peeked, bind_eq_of_error (gathered.trans (if_neg (by simp)))]
  | cons top rest =>
      rw [shape] at peeked gathered
      rw [bind_eq_of_ok peeked, bind_eq_of_ok (gathered.trans (if_pos (by simp))),
        bind_eq_of_ok (push_eq _ _), Machine.context_withOperands, Context.operands_withOperands,
        List.reverse_reverse, List.take_append_drop, Machine.withOperands_withOperands, ← shape,
        Machine.withOperands_self]

/-- An operand that is overwritten is taken with all above it, which are put back. -/
theorem peek_poke_bind (place : Nat) :
    (peek 0 >>= fun value => poke place value >>= fun _ => next) =
      gather [place + 1] >>= fun operands =>
        push (operands.getLast?.toList ++ operands.drop 1) >>= fun _ => next := by
  funext machine
  have peeked := peek_eq machine 0
  have gathered := popMany_eq machine (place + 1)
  rw [gather_singleton]
  cases shape : machine.context.operands with
  | nil =>
      rw [shape] at peeked gathered
      rw [bind_eq_of_error peeked, bind_eq_of_error (gathered.trans (if_neg (by simp)))]
  | cons top rest =>
      rw [shape] at peeked gathered
      have poked := poke_eq machine place top
      rw [shape] at poked
      rw [bind_eq_of_ok peeked]
      by_cases owned : place < (top :: rest).length
      · rw [bind_eq_of_ok (poked.trans (if_pos owned)),
          bind_eq_of_ok (gathered.trans (if_pos owned)), bind_eq_of_ok (push_eq _ _),
          List.getLast?_reverse, reverse_take_succ (List.getElem?_eq_getElem owned),
          List.set_eq_take_append_cons_drop, if_pos owned]
        simp
      · rw [bind_eq_of_error (poked.trans (if_neg owned)),
          bind_eq_of_error (gathered.trans (if_neg owned))]

end Places

/-- To run an instruction is to gather its operands, to act on them, and to push the values. -/
theorem step_eq (host : Host σ) (observer : Observer τ)
    (enter : Activation → Execution σ τ Value) (code : Sequence) (frame : Nat)
    (instruction : Instruction) :
    step host observer enter code frame instruction = (do
      checkForm instruction
      let operands ← gather instruction.takes
      let upshot ← perform host observer enter code frame instruction operands
      settle upshot) := by
  cases instruction with
  | nop =>
      simp only [step, checkForm, perform, Instruction.takes, gather, pure_bind, settle_nothing]
  | putNil | getInlineCache | putObject | dupArray | dupHash | putZero | putOne | putString
  | frozenString | sharedString | putSpecialObject | putSelf | getLocal | getOwnLocal
  | getOuterLocal | getGlobal =>
      simp only [step, checkForm, perform, Instruction.takes, gather, pure_bind, bind_assoc]
      rfl
  | defineMethod =>
      simp only [step, checkForm, perform, Instruction.takes, gather, pure_bind, bind_assoc,
        settle_nothing]
  | jump =>
      simp only [step, checkForm, perform, Instruction.takes, gather, pure_bind, bind_assoc,
        settle_jump, jumpTo]
  | dup | topN =>
      simp only [step, checkForm, perform, Instruction.takes, pure_bind, peek_push_bind]
      rfl
  | setN =>
      simp only [step, checkForm, perform, Instruction.takes, pure_bind, peek_poke_bind]
      rfl
  | setInlineCache =>
      simp only [step, checkForm, perform, Instruction.takes, pure_bind, peek_bind]
      rfl
  | dupN =>
      simp only [step, checkForm, perform, Instruction.takes, pure_bind, popMany_bind,
        push_push_bind]
      rfl
  | adjustStack =>
      simp only [step, checkForm, perform, Instruction.takes, pure_bind, popMany_bind,
        settle_nothing]
  | newArray | newHash | concatStrings | toRegexp | newArrayMin | newArrayMax | invokeBlock =>
      simp only [step, checkForm, perform, Instruction.takes, pure_bind, bind_assoc, popMany_bind]
      rfl
  | pop | setLocal | setOwnLocal | setOuterLocal | setGlobal =>
      simp only [step, checkForm, perform, Instruction.takes, pure_bind, bind_assoc, pop_bind,
        withOne_bind, settle_nothing]
  | splatArray | intern | elementWith | defined =>
      simp only [step, checkForm, perform, Instruction.takes, pure_bind, bind_assoc, pop_bind,
        withOne_bind]
      rfl
  | leave =>
      simp only [step, checkForm, perform, Instruction.takes, pure_bind, pop_bind, withOne_bind,
        settle_leave]
  | caseDispatch =>
      simp only [step, checkForm, perform, Instruction.takes, pure_bind, bind_assoc, pop_bind,
        withOne_bind, settle_jump, jumpTo]
  | branchIf | branchUnless | branchNil =>
      simp only [step, checkForm, perform, Instruction.takes, pure_bind, pop_bind,
        withOne_bind, jumpIf_eq]
  | objectToString =>
      simp only [step, checkForm, perform, Instruction.takes, pure_bind, pop_bind, withOne_bind]
      refine bind_congr fun operands => congrArg (withOne operands) (funext fun value => ?_)
      split
      · rfl
      · simp only [bind_assoc, pure_bind]
        rfl
  | expandArray size flag =>
      simp only [step, checkForm, perform, Instruction.takes, pop_bind, withOne_bind, pure_bind]
      split <;> rfl
  | swap =>
      simp only [step, checkForm, perform, Instruction.takes, pure_bind, pop_pop_bind,
        withTwo_bind, push_push_bind]
      rfl
  | newRange | concatArray | anyToString | getConstant | setElementWith =>
      simp only [step, checkForm, perform, Instruction.takes, pure_bind, bind_assoc, pop_pop_bind,
        withTwo_bind]
      rfl
  | send | sendWithoutBlock | operate | notEqual =>
      simp only [step, checkForm, perform, Instruction.takes, pure_bind, bind_assoc,
        popMany_pop_bind, withReceiver_bind]
      rfl

end Execution

end StackCode
