import StackCode.Instruction.Forms
import StackCode.ObjectModel.Host
import StackCode.Proofs.Machine.Outrunning

/-!
# Instructions that stand for two

The least and the greatest of the top operands, and an element by a literal key,
have instructions of their own.  Each stands for two instructions in a row: one that
pushes a value, and one that calls a method.  The short form takes at once the
operands that the two take one after the other, and it makes the same call.

So it has the same effect, whatever the call does.  It uses one unit of fuel less,
and its call is made from another place.  Neither shows, unless the fuel ends.
-/

namespace StackCode

/-- The instruction stands for others in a row, with the descriptors that a compiler gives them. -/
inductive Instruction.Abbreviates : Instruction → List Instruction → Prop where
  | least (count : UInt32) :
      Abbreviates (.newArrayMin count) [.newArray count, .sendWithoutBlock (.plain "min" 0)]
  | greatest (count : UInt32) :
      Abbreviates (.newArrayMax count) [.newArray count, .sendWithoutBlock (.plain "max" 0)]
  | elementWith (key : String) :
      Abbreviates (.usualElementWith key) [.putString key, .usual .element]

/-! ## Effects -/

/-- What a machine has beside the operands of its innermost frame. -/
structure Surroundings (σ : Type) where
  frames : Array Frame
  globals : Table String Value
  methods : Table (String × String) Sequence
  host : σ
  hostCalls : Nat

namespace Machine

variable {σ τ : Type}

def surroundings (machine : Machine σ τ) : Surroundings σ where
  frames := machine.context.frames
  globals := machine.context.globals
  methods := machine.context.methods
  host := machine.host
  hostCalls := machine.hostCalls

/-- The machine when an instruction is paid for and reported, before it takes operands. -/
def stepping (observer : Observer τ) (code : Sequence) (pc : Nat) (instruction : Instruction)
    (machine : Machine σ τ) : Machine σ τ :=
  let paid := { machine with fuel := machine.fuel - 1 }
  let seen := paid.noting observer (.instruction code pc instruction paid.context.depth)
  { seen with context := { seen.context with pc := pc + 1 } }

theorem Ahead.surroundings_eq {place : Nat} {machine : Machine σ τ} {machine' : Machine σ History}
    (ahead : machine.Ahead place place machine') :
    machine'.surroundings = machine.surroundings := by
  obtain ⟨live, -⟩ := ahead
  rw [Context.calledFrom_of_outside _ place _ (Nat.le_of_eq live)]
  rfl

end Machine

/-- Both return with the same operands or both exit in the same way, in the same surroundings. -/
inductive SameEffect {σ τ τ' : Type} :
    EStateM.Result Exit (Machine σ τ) Unit → EStateM.Result Exit (Machine σ τ') Unit → Prop where
  | returned {after : Machine σ τ} {after' : Machine σ τ'} :
      after'.context.operands = after.context.operands →
      after'.surroundings = after.surroundings → SameEffect (.ok () after) (.ok () after')
  | exited {exit : Exit} {after : Machine σ τ} {after' : Machine σ τ'} :
      after'.surroundings = after.surroundings →
      SameEffect (.error exit after) (.error exit after')

/-- What has the same effect as a third has the same effect. -/
theorem SameEffect.of_third {σ τ τ' τ'' : Type} {first : EStateM.Result Exit (Machine σ τ) Unit}
    {second : EStateM.Result Exit (Machine σ τ') Unit}
    {third : EStateM.Result Exit (Machine σ τ'') Unit} (firsts : SameEffect first third)
    (seconds : SameEffect second third) : SameEffect first second := by
  cases firsts with
  | returned operands surroundings =>
      obtain ⟨operands', surroundings'⟩ := seconds
      exact .returned (operands'.symm.trans operands) (surroundings'.symm.trans surroundings)
  | exited surroundings =>
      obtain _ | surroundings' := seconds
      exact .exited (surroundings'.symm.trans surroundings)

namespace Execution

variable {σ τ : Type}

/-- The execution has the effect of the result, unless its fuel ends. -/
def HasEffect (execution : Execution σ History Unit) (machine : Machine σ History)
    (result : EStateM.Result Exit (Machine σ τ) Unit) : Prop :=
  Ends execution machine
    (fun value after => after.trace.starved = true ∨ SameEffect result (.ok value after))
    (fun exit after => after.trace.starved = true ∨ SameEffect result (.error exit after))

theorem HasEffect.sameEffect {execution : Execution σ History Unit} {machine : Machine σ History}
    {first second : EStateM.Result Exit (Machine σ τ) Unit}
    (firsts : HasEffect execution machine first) (seconds : HasEffect execution machine second)
    (fed : (execution.final machine).trace.starved = false) : SameEffect first second := by
  cases ended : execution machine with
  | ok value after =>
      rw [final, ended] at fed
      have unstarved : after.trace.starved ≠ true := by simp [fed]
      exact .of_third ((firsts.of_ok ended).resolve_left unstarved)
        ((seconds.of_ok ended).resolve_left unstarved)
  | error exit after =>
      rw [final, ended] at fed
      have unstarved : after.trace.starved ≠ true := by simp [fed]
      exact .of_third ((firsts.of_error ended).resolve_left unstarved)
        ((seconds.of_error ended).resolve_left unstarved)

/-- As long as no frame is live at the place, what outruns has the same effect. -/
theorem Outruns.hasEffect {place : Nat} {execution : Execution σ τ Unit}
    {execution' : Execution σ History Unit} (outruns : Outruns place place execution execution')
    {machine : Machine σ τ} {machine' : Machine σ History}
    (ahead : machine.Ahead place place machine') :
    HasEffect execution' machine' (execution machine) := by
  refine (outruns.goes ahead).mono ?_ ?_
  · rintro value after' (starved | ⟨after, done, ahead⟩)
    · exact .inl starved
    · rw [done]
      exact .inr (.returned ahead.operands_eq ahead.surroundings_eq)
  · rintro exit after' (starved | ⟨after, failed, ahead⟩)
    · exact .inl starved
    · rw [failed]
      exact .inr (.exited ahead.surroundings_eq)

/-! ## Instructions in a row -/

def inRow (act : Nat → Instruction → Execution σ τ Outcome) :
    Nat → List Instruction → Execution σ τ Unit
  | _, [] => return ()
  | pc, instruction :: rest => do
      let _ ← act pc instruction
      inRow act (pc + 1) rest

def straight (host : Host σ) (observer : Observer τ) (room : Nat) (code : Sequence)
    (frame : Nat) : Nat → List Instruction → Execution σ τ Unit :=
  inRow (advance host observer (evaluate host observer room) code frame)

def straightWatched (host : Host σ) (room : Nat) (code : Sequence) (frame : Nat) :
    Nat → List Instruction → Execution σ History Unit :=
  inRow fun pc instruction =>
    noting (advance host History.watcher (evaluateWatched host room) code frame pc instruction)

theorem straight_outruns {place size : Nat} (inside : place ≤ size) (host : Host σ)
    (observer : Observer τ) (room : Nat) (code : Sequence) (frame pc : Nat)
    (instructions : List Instruction) :
    Outruns place size (straight host observer room code frame pc instructions)
      (straightWatched host room code frame pc instructions) := by
  have enters := evaluate_outruns host observer room inside
  induction instructions generalizing pc with
  | nil => exact .pure ()
  | cons instruction rest ih =>
      exact .bind (advance_outruns enters code frame pc instruction) fun _ => ih (pc + 1)

/-! ## Instructions that push -/

/-- The instruction acts on its operands, and pushes what that comes to. -/
def Pushes (host : Host σ) (observer : Observer τ) (enter : Activation → Execution σ τ Value)
    (instruction : Instruction) (act : List Value → Execution σ τ (List Value)) : Prop :=
  ∀ code frame, step host observer enter code frame instruction = do
    let values ← act (← gather instruction.takes)
    push values
    return .next

def answer (host : Host σ) (observer : Observer τ) (enter : Activation → Execution σ τ Value)
    (receiver : Value) (method : String) (arguments : List Value) :
    Execution σ τ (List Value) := do
  return [← call host observer enter receiver method arguments none]

/-- Call a method of the first operand, with the others as arguments. -/
def answerFirst (host : Host σ) (observer : Observer τ) (enter : Activation → Execution σ τ Value)
    (method : String) : List Value → Execution σ τ (List Value)
  | receiver :: arguments => answer host observer enter receiver method arguments
  | [] => fail .stackUnderflow

theorem answer_outruns {place : Nat} (host : Host σ) (observer : Observer τ) (room : Nat)
    (receiver : Value) (method : String) (arguments : List Value) :
    Outruns place place
      (answer host observer (evaluate host observer room) receiver method arguments)
      (answer host History.watcher (evaluateWatched host room) receiver method arguments) := by
  have enters := evaluate_outruns host observer room (Nat.le_refl place)
  refine .bind ?_ fun value => .pure [value]
  exact Concord.call (outrunning_partners enters) receiver method arguments none nofun

section Forms

variable (host : Host σ) (observer : Observer τ) (enter : Activation → Execution σ τ Value)

/-- What an instruction does with its operands says what it pushes. -/
theorem Pushes.of_perform {instruction : Instruction}
    {act : List Value → Execution σ τ (List Value)}
    (plain : checkForm instruction = (pure () : Execution σ τ Unit))
    (acts : ∀ code frame operands, perform host observer enter code frame instruction operands =
      do return .push (← act operands)) :
    Pushes host observer enter instruction act := by
  intro code frame
  rw [step_eq, plain]
  simp only [acts, settle, Upshot.values, Upshot.outcome, pure_bind, bind_assoc]

theorem newArray_pushes (count : UInt32) : Pushes host observer enter (.newArray count)
    fun operands => return [.array operands] :=
  .of_perform host observer enter rfl fun _ _ _ => rfl

theorem putString_pushes (text : String) : Pushes host observer enter (.putString text)
    fun _ => return [.string text] :=
  .of_perform host observer enter rfl fun _ _ _ => rfl

theorem sendWithoutBlock_pushes (site : CallSite) :
    Pushes host observer enter (.sendWithoutBlock site)
      (answerFirst host observer enter site.method) := by
  refine .of_perform host observer enter rfl fun code frame operands => ?_
  cases operands with
  | nil => rfl
  | cons receiver arguments => simp only [perform, withReceiver, answerFirst, answer, pure_bind,
      bind_assoc]

/-- An operation is the call that its descriptor says. -/
theorem operate_pushes (operation : Operation) (site : CallSite) :
    Pushes host observer enter (.operate operation site)
      (answerFirst host observer enter site.method) :=
  sendWithoutBlock_pushes host observer enter site

theorem elementWith_pushes (key : String) :
    Pushes host observer enter (.usualElementWith key) fun operands =>
      match operands with
      | [receiver] => answer host observer enter receiver "[]" [.string key]
      | _ => fail .stackUnderflow := by
  refine .of_perform host observer enter rfl fun code frame operands => ?_
  match operands with
  | [] | _ :: _ :: _ => rfl
  | [receiver] =>
      simp only [Instruction.usualElementWith, perform, withOne, answer, bind_assoc, pure_bind]
      rfl

end Forms

section Pushes

variable {host : Host σ} {observer : Observer τ} {enter : Activation → Execution σ τ Value}
  {room : Nat} {instruction : Instruction} {act : List Value → Execution σ τ (List Value)}

/-- An instruction that pushes is paid for, and takes its operands before it acts. -/
theorem ends_advance (pushes : Pushes host observer enter instruction act) (code : Sequence)
    (frame pc : Nat) {machine : Machine σ τ} {returns : Outcome → Machine σ τ → Prop}
    {exits : Exit → Machine σ τ → Prop}
    (spent : machine.fuel = 0 → exits (.raise .fuelExceeded) machine)
    (missing : machine.fuel ≠ 0 → machine.context.operands.length < instruction.demand →
      ∀ operands, exits (.raise .stackUnderflow)
        ((machine.stepping observer code pc instruction).withOperands operands))
    (acted : machine.fuel ≠ 0 → instruction.demand ≤ machine.context.operands.length →
      Ends (act (machine.context.operands.take instruction.demand).reverse)
        ((machine.stepping observer code pc instruction).withOperands
          (machine.context.operands.drop instruction.demand))
        (fun values after => returns .next
          (after.withOperands (values.reverse ++ after.context.operands))) exits) :
    Ends (advance host observer enter code frame pc instruction) machine returns exits := by
  unfold advance
  rw [ends_bind, ends_burn]
  split
  · exact spent ‹_›
  rename_i paid
  rw [ends_bind, ends_reportInstruction, ends_bind, ends_modifyContext, ends_bind,
    pushes code frame]
  refine ends_gather_bind (fun enough => ?_) (missing paid)
  simp only [ends_bind, ends_push, ends_pure]
  exact acted paid enough

variable (pushes : Pushes host observer (evaluate host observer room) instruction act)
  (code : Sequence) (frame pc : Nat) {machine : Machine σ τ} (paid : machine.fuel ≠ 0)
include pushes paid

/-- A single instruction is what comes after it is paid for. -/
theorem straight_eq :
    straight host observer room code frame pc [instruction] machine =
      (do let values ← act (← gather instruction.takes); push values : Execution σ τ Unit)
        (machine.stepping observer code pc instruction) := by
  have shape : straight host observer room code frame pc [instruction] = (do
      burn
      reportInstruction observer code pc instruction
      modifyContext fun context => { context with pc := pc + 1 }
      let values ← act (← gather instruction.takes)
      push values) := by
    simp only [straight, inRow, advance, pushes code frame, bind_assoc, pure_bind, bind_pure_unit]
  rw [shape, bind_eq_of_ok (by rw [burn_eq, if_neg paid]),
    bind_eq_of_ok (reportInstruction_eq ..)]
  rfl

theorem straight_eq_of_le (enough : instruction.demand ≤ machine.context.operands.length) :
    straight host observer room code frame pc [instruction] machine =
      (act (machine.context.operands.take instruction.demand).reverse >>= push)
        ((machine.stepping observer code pc instruction).withOperands
          (machine.context.operands.drop instruction.demand)) := by
  rw [straight_eq pushes code frame pc paid]
  exact bind_eq_of_ok (gather_eq_of_le enough)

theorem straight_eq_of_lt (missing : machine.context.operands.length < instruction.demand) :
    ∃ operands, straight host observer room code frame pc [instruction] machine =
      .error (.raise .stackUnderflow)
        ((machine.stepping observer code pc instruction).withOperands operands) := by
  obtain ⟨operands, failed⟩ := @gather_eq_of_lt _ _ instruction.takes
    (machine.stepping observer code pc instruction) missing
  exact ⟨operands, (straight_eq pushes code frame pc paid).trans (bind_eq_of_error failed)⟩

end Pushes

/-!
## Two instructions for one

Of the operands that the short form takes, the upper ones are those that the first of
the two instructions takes.  The second one takes the value that they were made into,
and the lower ones.
-/

section Window

variable {host : Host σ} {observer : Observer τ} {room place : Nat}
  {short first second : Instruction} {lower : Nat}
  {act : List Value → Execution σ τ (List Value)}
  {act' : List Value → Execution σ History (List Value)} {made : List Value → Value}
  (wide : short.demand = first.demand + lower) (deep : second.demand = lower + 1)
  (shorts : Pushes host observer (evaluate host observer room) short act)
  (firsts : Pushes host History.watcher (evaluateWatched host room) first
    fun operands => return [made operands])
  (seconds : Pushes host History.watcher (evaluateWatched host room) second act')
  (acts : ∀ below above : List Value, below.length = lower → above.length = first.demand →
    Outruns place place (act (below ++ above)) (act' (below ++ [made above])))
  (code code' : Sequence) (frame pc pc' : Nat) {machine : Machine σ τ}
  {machine' : Machine σ History}
include wide shorts

include firsts in
/-- The first instruction puts one value in the place of the upper operands. -/
theorem first_ends (ahead : machine.Ahead place place machine') :
    Ends (noting (advance host History.watcher (evaluateWatched host room) code' frame pc' first))
      machine'
      (fun _ after' => first.demand ≤ machine.context.operands.length ∧
        (machine.withOperands (made (machine.context.operands.take first.demand).reverse ::
          machine.context.operands.drop first.demand)).Ahead place place after')
      (fun exit after' => after'.trace.starved = true ∨
        SameEffect (straight host observer room code frame pc [short] machine)
          (.error exit after')) := by
  have same := ahead.operands_eq
  have less := ahead.fuel_le
  rw [ends_noting]
  refine ends_advance firsts code' frame pc' ?_ ?_ ?_
  · exact fun _ => .inl (History.starved_raised _ _)
  · intro paid missing operands
    rw [same] at missing
    have short : machine.context.operands.length < short.demand := by omega
    obtain ⟨operands', failed⟩ :=
      straight_eq_of_lt shorts code frame pc (Nat.ne_of_gt (by omega)) short
    rw [failed]
    exact .inr (.exited ahead.surroundings_eq)
  · intro _ enough
    rw [same] at enough
    refine ⟨enough, ?_⟩
    rw [same, Machine.context_withOperands, Context.operands_withOperands,
      Machine.withOperands_withOperands]
    -- No frame is entered yet, so the machines may be at different instructions.
    exact (ahead.withOperands _).elsewhere machine.context.pc (pc' + 1)
      (Nat.le_trans (Nat.sub_le _ 1) less) machine.trace _

include deep seconds acts in
/-- The second instruction acts on that value and on the lower operands. -/
theorem second_hasEffect (enough : first.demand ≤ machine.context.operands.length)
    (ahead : (machine.withOperands (made (machine.context.operands.take first.demand).reverse ::
      machine.context.operands.drop first.demand)).Ahead place place machine') :
    HasEffect (straightWatched host room code' frame pc' [second]) machine'
      (straight host observer room code frame pc [short] machine) := by
  have same : machine'.context.operands =
      made (machine.context.operands.take first.demand).reverse ::
        machine.context.operands.drop first.demand := by
    rw [ahead.operands_eq, Machine.context_withOperands, Context.operands_withOperands]
  have less : machine'.fuel ≤ machine.fuel := ahead.fuel_le
  unfold HasEffect straightWatched
  simp only [inRow, ends_bind, ends_pure]
  rw [ends_noting]
  refine ends_advance seconds code' frame pc' ?_ ?_ ?_
  · exact fun _ => .inl (History.starved_raised _ _)
  · -- The operands differ here, but after an exit they do not count.
    intro paid missing operands
    rw [same, List.length_cons, List.length_drop, deep] at missing
    have short : machine.context.operands.length < short.demand := by omega
    obtain ⟨operands', failed⟩ :=
      straight_eq_of_lt shorts code frame pc (Nat.ne_of_gt (by omega)) short
    rw [failed]
    exact .inr (.exited ahead.surroundings_eq)
  · intro paid left
    rw [same, List.length_cons, List.length_drop, deep] at left
    have above : (machine.context.operands.take first.demand).reverse.length = first.demand := by
      simp [enough]
    have below : ((machine.context.operands.drop first.demand).take lower).reverse.length =
        lower := by
      simp
      omega
    have outruns := ((acts _ _ below above).bind fun values => .push values).noting
    have left := ahead.withOperands (machine.context.operands.drop (first.demand + lower))
    rw [Machine.withOperands_withOperands] at left
    have effect := outruns.hasEffect
      (left.elsewhere (pc + 1) (pc' + 1) (Nat.sub_le_sub_right less 1)
        (machine.stepping observer code pc short).trace
        (machine'.stepping History.watcher code' pc' second).trace)
    simp only [HasEffect, ends_noting, ends_bind, ends_push] at effect
    rw [straight_eq_of_le shorts code frame pc (Nat.ne_of_gt (by omega)) (by omega), wide, same,
      deep, List.take_succ_cons, List.reverse_cons, List.drop_succ_cons, List.drop_drop,
      List.take_add, List.reverse_append]
    exact effect

include deep firsts seconds acts in
/-- Two instructions have the effect of a short form that acts as they do together. -/
theorem window_hasEffect (ahead : machine.Ahead place place machine') :
    HasEffect (straightWatched host room code' frame pc' [first, second]) machine'
      (straight host observer room code frame pc [short] machine) := by
  rw [HasEffect, straightWatched, inRow, ends_bind]
  refine (first_ends wide shorts firsts code code' frame pc pc' ahead).mono ?_ fun _ _ => id
  rintro _ middle ⟨enough, ahead⟩
  exact second_hasEffect wide deep shorts seconds acts code code' frame pc (pc' + 1) enough ahead

end Window

section Abbreviations

variable (host : Host σ) (observer : Observer τ) (room : Nat) (code code' : Sequence)
  (frame pc pc' : Nat) {place : Nat} {machine : Machine σ τ} {machine' : Machine σ History}
  (ahead : machine.Ahead place place machine')
include ahead

/-- A short form for an array and a method without arguments. -/
theorem arrayCall_hasEffect {short : Instruction} {count : UInt32} {method : String}
    (takes : short.takes = [count.toNat])
    (shorts : Pushes host observer (evaluate host observer room) short fun operands =>
      answer host observer (evaluate host observer room) (.array operands) method []) :
    HasEffect (straightWatched host room code' frame pc'
        [.newArray count, .sendWithoutBlock (.plain method 0)]) machine'
      (straight host observer room code frame pc [short] machine) := by
  have wide : short.demand = (Instruction.newArray count).demand + 0 := by
    rw [Instruction.demand, takes]
    rfl
  refine window_hasEffect wide rfl shorts (newArray_pushes host _ _ count)
    (sendWithoutBlock_pushes host _ _ _) (fun below above none _ => ?_) code code' frame pc pc'
    ahead
  obtain rfl := List.eq_nil_of_length_eq_zero none
  exact answer_outruns host observer room (.array above) method []

theorem abbreviation_hasEffect {short : Instruction} {full : List Instruction}
    (abbreviates : short.Abbreviates full) :
    HasEffect (straightWatched host room code' frame pc' full) machine'
      (straight host observer room code frame pc [short] machine) := by
  cases abbreviates with
  | least | greatest =>
      exact arrayCall_hasEffect host observer room code code' frame pc pc' ahead rfl
        (.of_perform host observer _ rfl fun _ _ _ => by
          simp only [perform, answer, bind_assoc]
          rfl)
  | elementWith key =>
      refine window_hasEffect rfl rfl (elementWith_pushes host observer _ key)
        (putString_pushes host _ _ key) (operate_pushes host _ _ .element _)
        (fun below above one none => ?_) code code' frame pc pc' ahead
      obtain ⟨receiver, rfl⟩ := List.length_eq_one_iff.mp one
      obtain rfl := List.eq_nil_of_length_eq_zero none
      exact answer_outruns host observer room receiver "[]" [.string key]

end Abbreviations

/--
A short form has the effect of the instructions that it stands for, if their fuel
does not end: whatever the host does, wherever the instructions stand, and whether
the program defined the method that they call or the host has it.
-/
theorem abbreviations_have_the_same_effect {short : Instruction} {full : List Instruction}
    (abbreviates : short.Abbreviates full) (host : Host σ) (observer : Observer τ) (room : Nat)
    (code code' : Sequence) (frame pc pc' : Nat) (machine : Machine σ τ)
    (fed : ((straightWatched host room code' frame pc' full).final
      (machine.withTrace [])).trace.starved = false) :
    SameEffect (straight host observer room code frame pc [short] machine)
      (straight host observer room code' frame pc' full machine) := by
  have ahead : machine.Ahead machine.context.frames.size machine.context.frames.size
      (machine.withTrace []) :=
    .of_context machine.context.pc
      (Context.calledFrom_of_outside machine.context _ _ (Nat.le_refl _)).symm rfl (Nat.le_refl _)
      rfl rfl rfl
  have shorter :=
    abbreviation_hasEffect host observer room code code' frame pc pc' ahead abbreviates
  have longer := (straight_outruns (Nat.le_refl machine.context.frames.size) host observer room
    code' frame pc' full).hasEffect ahead
  exact shorter.sameEffect longer fed

/-- A method of arrays that a program may define in place of the host's. -/
def lengthAsMin : Sequence where
  name := "min"
  kind := .method
  code := #[.putSelf, .usual .length, .leave]
  labels := #[]
  locals := []
  parameters := .none
  handlers := []

/-- The fuel is just enough for the long form, and what it calls goes on to the host. -/
theorem abbreviations_have_the_same_effect_ownMethod :
    let context := Context.empty.defineMethod "Array" "min" lengthAsMin
    let machine : Machine ObjectModel Unit :=
      ⟨context.withOperands [.integer 7, .integer 4, .nil], ⟨5, 1, 1⟩, 5, 0,
        .withTables .empty .empty, ()⟩
    let full : List Instruction := [.newArray 2, .sendWithoutBlock (.plain "min" 0)]
    let shorter := straight ObjectModel.host .silent 1 lengthAsMin 0 7 [.newArrayMin 2]
    let longer := straight ObjectModel.host .silent 1 lengthAsMin 0 0 full
    (Instruction.newArrayMin 2).Abbreviates full ∧
    ((straightWatched ObjectModel.host 1 lengthAsMin 0 0 full).final
      (machine.withTrace [])).trace.starved = false ∧
    (longer.final machine).fuel = 0 ∧ (longer.final machine).hostCalls = 1 ∧
    ((longer.final machine).context.operands == [.integer 2, .nil]) = true ∧
    SameEffect (shorter machine) (longer machine) := by
  intro context machine full shorter longer
  have fed : ((straightWatched ObjectModel.host 1 lengthAsMin 0 0 full).final
      (machine.withTrace [])).trace.starved = false := by
    decide +kernel
  refine ⟨.least 2, fed, by decide +kernel, by decide +kernel, by decide +kernel, ?_⟩
  exact abbreviations_have_the_same_effect (.least 2) _ _ _ _ _ _ _ _ _ fed

end Execution

end StackCode
