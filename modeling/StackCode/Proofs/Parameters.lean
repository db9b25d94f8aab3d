import Mathlib.Data.List.Nodup
import StackCode.Proofs.Assembling
import StackCode.Proofs.Machine.Entries

/-!
# Where arguments go

An assembly has one slot for each name, so parameters of the same name share the
slot of the first of them.  The arguments go to the slots in order, one for each
parameter.  So the slots of the parameters are their names without repetitions, and a
parameter that comes after a repetition finds the argument of one before it.  Each
finds its own exactly if all repetitions come last.
-/

namespace StackCode

/-- One more element is kept if it is not among the others. -/
theorem eraseDups_snoc (names : List String) (name : String) :
    (names ++ [name]).eraseDups =
      if name ∈ names then names.eraseDups else names.eraseDups ++ [name] := by
  rw [List.eraseDups_append]
  by_cases known : name ∈ names <;> simp [known, List.removeAll, List.eraseDups_cons]

theorem eraseDups_eq_self {names : List String} (nodup : names.Nodup) :
    names.eraseDups = names := by
  induction names using List.reverseRecOn with
  | nil => rfl
  | append_singleton names name ih =>
      obtain ⟨rest, -, apart⟩ := List.nodup_append.mp nodup
      have fresh : name ∉ names := fun known =>
        apart name known name (List.mem_singleton.mpr rfl) rfl
      rw [eraseDups_snoc, if_neg fresh, ih rest]

namespace Assembly

theorem locals_declare (assembly : Assembly) (name : String) :
    (assembly.declare name).locals =
      if name ∈ assembly.locals then assembly.locals else assembly.locals ++ [name] := by
  unfold declare
  split <;> rfl

/-- The slots of a new body are those of its parameters, each name once. -/
theorem locals_withParameters (name : String) (kind : SequenceKind) (parameters : List String) :
    (withParameters name kind parameters).locals = parameters.eraseDups := by
  change (parameters.foldl declare (empty name kind)).locals = _
  induction parameters using List.reverseRecOn with
  | nil => rfl
  | append_singleton parameters parameter ih =>
      rw [List.foldl_append, List.foldl_cons, List.foldl_nil, locals_declare, ih, eraseDups_snoc]
      simp only [List.mem_eraseDups]

/-- A step keeps the slots, and gives no name a second one. -/
theorem locals_step (assembly : Assembly) (step : AssemblyStep) :
    let after := ((assembly.apply step).toOption).getD assembly
    assembly.locals <+: after.locals ∧ (assembly.locals.Nodup → after.locals.Nodup) := by
  cases step with
  | declare name =>
      change assembly.locals <+: (assembly.declare name).locals ∧
        (_ → (assembly.declare name).locals.Nodup)
      rw [locals_declare]
      split
      · exact ⟨List.prefix_refl _, id⟩
      · rename_i fresh
        refine ⟨List.prefix_append _ _, fun nodup => ?_⟩
        rw [← List.concat_eq_append]
        exact nodup.concat fresh
  | bind label =>
      dsimp only [apply]
      unfold bind
      split <;> exact ⟨List.prefix_refl _, id⟩
  | newLabel | setParameters | emit | readLocal | writeLocal | handle =>
      exact ⟨List.prefix_refl _, id⟩

/-- All steps together keep the slots, and give no name a second one. -/
theorem locals_applyAll (start : Assembly) (steps : List AssemblyStep) :
    start.locals <+: (start.applyAll steps).locals ∧
      (start.locals.Nodup → (start.applyAll steps).locals.Nodup) := by
  induction steps using List.reverseRecOn with
  | nil => exact ⟨List.prefix_refl _, id⟩
  | append_singleton steps step ih =>
      rw [applyAll_snoc]
      obtain ⟨kept, nodup⟩ := locals_step (start.applyAll steps) step
      exact ⟨ih.1.trans kept, nodup ∘ ih.2⟩

/-- Unless a step sets them, the parameters stay as they were declared. -/
theorem parameters_applyAll (start : Assembly) {steps : List AssemblyStep}
    (kept : ∀ parameters, .setParameters parameters ∉ steps) :
    (start.applyAll steps).parameters = start.parameters := by
  induction steps using List.reverseRecOn with
  | nil => rfl
  | append_singleton steps step ih =>
      have before := ih fun parameters listed => kept parameters (List.mem_append_left _ listed)
      rw [applyAll_snoc, ← before]
      cases step with
      | setParameters parameters =>
          exact absurd (List.mem_append_right _ (.head _)) (kept parameters)
      | bind label =>
          dsimp only [apply]
          unfold bind
          split <;> rfl
      | declare name =>
          dsimp only [apply, declare]
          split <;> rfl
      | newLabel | emit | readLocal | writeLocal | handle => rfl

end Assembly

/-! ## Entering -/

namespace Context

/-- At entry a slot holds the argument at its place, if there are such a slot and argument. -/
theorem local?_enter (caller : Context) (code : Sequence) (self : Value) (parent : Option Nat)
    (block : Option Closure) (arguments : List Value) (slot : Nat) :
    (caller.enter code self parent block arguments).local? caller.frames.size slot 0 =
      if slot < code.locals.length then arguments[slot]? else none := by
  have entered : (caller.enter code self parent block arguments).local? caller.frames.size slot 0 =
      (Frame.initialLocals code.locals.length arguments)[slot]?.join := by
    simp only [local?, enclosing?, enter, Array.getElem?_push_size, Option.bind_some, bind]
    cases (Frame.initialLocals code.locals.length arguments)[slot]? <;> rfl
  rw [entered, Frame.initialLocals, List.getElem?_toArray, List.getElem?_take]
  split
  · rw [List.getElem?_append, List.length_map]
    split
    · rw [List.getElem?_map]
      cases arguments[slot]? <;> rfl
    · rename_i within unpassed
      have missing : arguments[slot]? = none := List.getElem?_eq_none (Nat.le_of_not_lt unpassed)
      have free : slot - arguments.length < code.locals.length := by omega
      rw [missing, List.getElem?_replicate, if_pos free, Option.join_some]
  · rfl

end Context

/-- Leading parameters fit as many arguments as there are of them. -/
theorem binds_leading {count : Nat} {arguments : List Value} :
    Execution.binds (.leading count) arguments = true ↔ arguments.length = count := by
  have empty : (Parameters.leading count).isEmpty = true ↔ count = 0 := by
    simp [Parameters.isEmpty, Parameters.none, Parameters.leading]
  rw [Execution.binds, Bool.or_eq_true, Bool.and_eq_true, Bool.and_eq_true, empty,
    Parameters.isLeadOnly_leading, List.isEmpty_iff_length_eq_zero, beq_iff_eq]
  constructor
  · rintro (⟨rfl, none⟩ | ⟨-, same⟩)
    · exact none
    · exact same.symm
  · exact fun same => .inr ⟨rfl, same.symm⟩

/-- Whenever the code is entered, each parameter finds in its slot an argument passed for it. -/
def Sequence.Serves (code : Sequence) (parameters : List String) : Prop :=
  ∀ (caller : Context) (self : Value) (parent : Option Nat) (block : Option Closure)
    (arguments : List Value), arguments.length = parameters.length →
    ∀ name ∈ parameters, ∃ index : Nat, parameters[index]? = some name ∧
      (caller.enter code self parent block arguments).local? caller.frames.size
        (code.locals.idxOf name) 0 = arguments[index]?

def distinctArguments (count : Nat) : List Value :=
  (List.range count).map fun index => .array (List.replicate index .nil)

theorem distinctArguments_unique {count first second : Nat} (within : first < count)
    (same : (distinctArguments count)[second]? = (distinctArguments count)[first]?) :
    second = first := by
  simp only [distinctArguments, List.getElem?_map, List.getElem?_range within] at same
  by_cases present : second < count
  · simp only [List.getElem?_range present, Option.map_some, Option.some.injEq,
      Value.array.injEq] at same
    simpa using congrArg List.length same
  · simp [Nat.le_of_not_lt present] at same

namespace Assembly

/-- Whenever it is asked for, the slot of a parameter is that of its first mention. -/
theorem slotOf_parameter (name : String) (kind : SequenceKind) {parameters : List String}
    {parameter : String} (listed : parameter ∈ parameters) (steps : List AssemblyStep) :
    ((withParameters name kind parameters).applyAll steps).slotOf parameter =
      parameters.eraseDups.idxOf parameter := by
  obtain ⟨kept, -⟩ := locals_applyAll (withParameters name kind parameters) steps
  rw [locals_withParameters] at kept
  obtain ⟨rest, same⟩ := kept
  rw [slotOf, ← same, List.idxOf_append_of_mem (List.mem_eraseDups.mpr listed)]

section Built

variable {name : String} {kind : SequenceKind} {parameters : List String}
  {steps : List AssemblyStep} {code : Sequence}
  (built : ((withParameters name kind parameters).applyAll steps).build = .ok code)
include built

/-- The first slots are those of the parameters, and no two slots have the same name. -/
theorem locals_of_build : parameters.eraseDups <+: code.locals ∧ code.locals.Nodup := by
  obtain ⟨rfl, -⟩ := build_eq_ok_iff.mp built
  obtain ⟨kept, nodup⟩ := locals_applyAll (withParameters name kind parameters) steps
  obtain ⟨-, once⟩ := locals_applyAll (empty name kind) (parameters.map .declare)
  have declared : (empty name kind).applyAll (parameters.map .declare) =
      parameters.foldl declare (empty name kind) := by
    rw [applyAll, List.foldl_map]
    rfl
  rw [declared] at once
  refine ⟨?_, nodup (once List.nodup_nil)⟩
  rw [← locals_withParameters name kind parameters]
  exact kept

/-- Each parameter has the slot at its own place exactly if none is repeated. -/
theorem slots_iff_nodup :
    (∀ index < parameters.length, code.locals[index]? = parameters[index]?) ↔
      parameters.Nodup := by
  obtain ⟨first, nodup⟩ := locals_of_build built
  constructor
  · intro own
    have leading : parameters <+: code.locals := by
      rw [List.prefix_iff_getElem?]
      intro index within
      rw [own index within, List.getElem?_eq_getElem within]
    exact nodup.sublist leading.sublist
  · intro distinct index within
    rw [eraseDups_eq_self distinct, List.prefix_iff_getElem?] at first
    rw [first index within, List.getElem?_eq_getElem within]

/-- The argument in the slot of a parameter is the one at the place of the slot. -/
theorem local?_of_build {parameter : String} (listed : parameter ∈ parameters)
    (caller : Context) (self : Value) (parent : Option Nat) (block : Option Closure)
    (arguments : List Value) :
    (caller.enter code self parent block arguments).local? caller.frames.size
        (parameters.eraseDups.idxOf parameter) 0 =
      arguments[parameters.eraseDups.idxOf parameter]? := by
  have known : parameters.eraseDups.idxOf parameter < parameters.eraseDups.length :=
    List.idxOf_lt_length_iff.mpr (List.mem_eraseDups.mpr listed)
  rw [Context.local?_enter,
    if_pos (Nat.lt_of_lt_of_le known (locals_of_build built).1.length_le)]

/-- Each parameter finds an argument of its own if all repetitions come last, and only then. -/
theorem serves_iff : code.Serves parameters ↔ parameters.eraseDups <+: parameters := by
  have slot {parameter : String} (listed : parameter ∈ parameters) :
      code.locals.idxOf parameter = parameters.eraseDups.idxOf parameter := by
    obtain ⟨rfl, -⟩ := build_eq_ok_iff.mp built
    exact slotOf_parameter name kind listed steps
  constructor
  · intro serves
    rw [List.prefix_iff_getElem?]
    intro place within
    have known : parameters.eraseDups[place] ∈ parameters.eraseDups := List.getElem_mem within
    have listed := List.mem_eraseDups.mp known
    have first : parameters.eraseDups.idxOf parameters.eraseDups[place] = place := by
      have distinct : parameters.eraseDups.Nodup :=
        (locals_of_build built).2.sublist (locals_of_build built).1.sublist
      exact distinct.idxOf_getElem place within
    obtain ⟨index, own, same⟩ := serves .empty .main none none
      (distinctArguments parameters.length) (by simp [distinctArguments]) _ listed
    rw [slot listed, local?_of_build built listed, first] at same
    have inside : index < parameters.length := (List.getElem?_eq_some_iff.mp own).1
    obtain rfl := distinctArguments_unique inside same
    exact own
  · intro leading caller self parent block arguments counted parameter listed
    have known := List.mem_eraseDups.mpr listed
    refine ⟨parameters.eraseDups.idxOf parameter, ?_, ?_⟩
    · have within := List.idxOf_lt_length_iff.mpr known
      rw [List.prefix_iff_getElem?] at leading
      rw [leading _ within, List.getElem_idxOf within]
    · rw [slot listed]
      exact local?_of_build built listed caller self parent block arguments

/-- A frame of the code that is not a block's comes with an argument for each parameter. -/
theorem counted_of_fits (kept : ∀ declared, .setParameters declared ∉ steps)
    {activation : Activation} (running : activation.code = code) (fits : activation.Fits)
    (outermost : activation.parent = none) : activation.arguments.length = parameters.length := by
  have declared : code.parameters = .leading parameters.length := by
    obtain ⟨rfl, -⟩ := build_eq_ok_iff.mp built
    exact parameters_applyAll (withParameters name kind parameters) kept
  rcases fits with inner | binds
  · rw [outermost] at inner
    cases inner
  · rw [running, declared] at binds
    exact binds_leading.mp binds

end Built

/--
The slots of a body are named after its parameters, each name once, and what is
declared later comes after them.  So each slot has the name of the parameter at its
place exactly if no name is repeated.  The slot of a parameter has the argument at
the place of the slot, and that is an argument of its own exactly if all repetitions
come last.  In every run the code is entered with such slots, and unless it is run as
a block or as the program, with an argument for each parameter.
-/
theorem parameters_share_slots {name : String} {kind : SequenceKind} {parameters : List String}
    {steps : List AssemblyStep} {code : Sequence}
    (built : ((withParameters name kind parameters).applyAll steps).build = .ok code) :
    (parameters.eraseDups <+: code.locals ∧ code.locals.Nodup) ∧
    ((∀ index < parameters.length, code.locals[index]? = parameters[index]?) ↔
      parameters.Nodup) ∧
    (∀ parameter ∈ parameters, ∀ taken, taken <+: steps →
      ((withParameters name kind parameters).applyAll taken).slotOf parameter =
        parameters.eraseDups.idxOf parameter) ∧
    (∀ (caller : Context) (self : Value) (parent : Option Nat) (block : Option Closure)
        (arguments : List Value), arguments.length = parameters.length →
      let entered := caller.enter code self parent block arguments
      (∀ parameter ∈ parameters,
        entered.local? caller.frames.size (parameters.eraseDups.idxOf parameter) 0 =
          arguments[parameters.eraseDups.idxOf parameter]?) ∧
      ∀ slot, parameters.length ≤ slot → entered.local? caller.frames.size slot 0 = none) ∧
    (code.Serves parameters ↔ parameters.eraseDups <+: parameters) ∧
    ((∀ declared, .setParameters declared ∉ steps) →
      ∀ {σ : Type} (host : Host σ) (limits : Limits) (state : σ) (context : Context)
        (program : Sequence),
      let (result, ended) := Machine.watch host limits state context program
      (∀ {τ : Type} (observer : Observer τ) (trace : τ),
        Machine.run host observer limits state trace context program =
          (result, ended.withTrace (ended.trace.seenBy observer trace))) ∧
      ∀ depth pc entered, .event (.enter (.frame code) depth pc) entered ∈ ended.trace →
        ∃ (caller : Context) (self : Value) (parent : Option Nat) (block : Option Closure)
            (arguments : List Value),
          entered = caller.enter code self parent block arguments ∧
          depth = caller.frames.size + 1 ∧
          (parent = none → 1 < depth → arguments.length = parameters.length)) := by
  refine ⟨locals_of_build built, slots_iff_nodup built, ?_, ?_, serves_iff built, ?_⟩
  · exact fun parameter listed taken _ => slotOf_parameter name kind listed taken
  · intro caller self parent block arguments counted entered
    refine ⟨fun parameter listed =>
      local?_of_build built listed caller self parent block arguments, fun slot past => ?_⟩
    rw [Context.local?_enter, List.getElem?_eq_none (counted ▸ past), ite_self]
  · intro kept σ host limits state context program
    refine ⟨fun observer trace =>
      Machine.run_eq_watch host observer limits state trace context program, ?_⟩
    intro depth pc entered seen
    obtain ⟨earlier, later, split⟩ := List.append_of_mem seen
    have follows := Machine.watch_follows host limits state context program
    obtain ⟨caller, activation, running, due, size, -, deep, same⟩ :=
      follows.entries _ _ _ split
    refine ⟨caller, _, _, _, _, same, by rw [deep, size], fun outermost inside => ?_⟩
    generalize Event.sites (History.events earlier) = sites at due deep
    cases due with
    | program => exact absurd inside (by simp [deep])
    | inside fits => exact counted_of_fits built kept running fits outermost

/-- A repetition at the end takes no argument from the others. -/
theorem parameters_share_slots_aba :
    let steps : List AssemblyStep := [.readLocal 1, .emit .leave]
    ∃ code, ((withParameters "m" .method ["a", "b", "a"]).applyAll steps).build = .ok code ∧
      code.locals = ["a", "b"] ∧ code.Serves ["a", "b", "a"] := by
  intro steps
  have built : ((withParameters "m" .method ["a", "b", "a"]).applyAll steps).build =
      .ok ((withParameters "m" .method ["a", "b", "a"]).applyAll steps).finished := rfl
  obtain ⟨-, -, -, -, serves, -⟩ := parameters_share_slots built
  exact ⟨_, built, rfl, serves.mpr (by decide)⟩

/-- A repetition before another parameter leaves it with the argument of the repetition. -/
theorem repetition_takes_an_argument :
    let steps : List AssemblyStep := [.declare "b", .readLocal 1, .emit .leave]
    ∃ code, ((withParameters "m" .method ["a", "a", "b"]).applyAll steps).build = .ok code ∧
      code.parameters = .leading 3 ∧ code.locals[1]? = some "b" ∧ code.locals[2]? = none ∧
      (Context.empty.enter code .main none none [.integer 1, .integer 2, .integer 3]).local? 0
        (code.locals.idxOf "b") 0 = some (.integer 2) ∧
      ¬ code.Serves ["a", "a", "b"] := by
  intro steps
  have built : ((withParameters "m" .method ["a", "a", "b"]).applyAll steps).build =
      .ok ((withParameters "m" .method ["a", "a", "b"]).applyAll steps).finished := rfl
  exact ⟨_, built, rfl, rfl, rfl, rfl, mt (serves_iff built).mp (by decide)⟩

end Assembly

end StackCode
