import Mathlib.Data.List.Induction
import StackCode.Assembly.Step
import StackCode.Proofs.Attempts

/-!
# What can be assembled

A label is bound by the first step that binds it once it has been handed out;
steps that bind it before or again fail and change nothing.  So a label is bound
at most once, to the number of instructions before that step.  An assembly
becomes a sequence exactly if all labels that are mentioned are bound, those of
jumps to an instruction, and all locals of its own scope are declared.
-/

namespace StackCode

namespace Assembly

def boundAt? (assembly : Assembly) (label : Label) : Option Nat :=
  assembly.labels[label]?.join

def before (start : Assembly) (steps : List AssemblyStep) (moment : Nat) : Assembly :=
  start.applyAll (steps.take moment)

/-- The step with the number binds the label. -/
def Binds (start : Assembly) (steps : List AssemblyStep) (moment : Nat) (label : Label) : Prop :=
  steps[moment]? = some (.bind label) ∧
    ∃ bound, (start.before steps moment).bind label = .ok bound

/-- All labels that the assembled steps mention are bound, and all their own locals declared. -/
structure Complete (start : Assembly) (steps : List AssemblyStep) : Prop where
  labels : ∀ instruction ∈ (start.applyAll steps).code, ∀ label ∈ instruction.labels,
    ∃ moment, start.Binds steps moment label ∧ (instruction.branches = true →
      (start.before steps moment).position < (start.applyAll steps).code.size)
  handlers : ∀ handler ∈ (start.applyAll steps).handlers,
    ∀ label ∈ [handler.first, handler.last, handler.exit],
      ∃ moment, start.Binds steps moment label
  locals : ∀ instruction ∈ (start.applyAll steps).code, ∀ slot,
    instruction.localSlot? = some (slot, 0) → slot < (start.applyAll steps).locals.length

/-! ## Binding labels -/

theorem applyAll_snoc (start : Assembly) (steps : List AssemblyStep) (step : AssemblyStep) :
    start.applyAll (steps ++ [step]) =
      ((start.applyAll steps).apply step).toOption.getD (start.applyAll steps) := by
  rw [applyAll, List.foldl_append]
  rfl

/-- A label can be bound if it has been handed out and is not bound yet. -/
theorem bind_ok_iff {assembly : Assembly} {label : Label} :
    (∃ bound, assembly.bind label = .ok bound) ↔ assembly.labels[label]? = some none := by
  unfold bind
  split <;> simp [*]

theorem boundAt?_bind {assembly : Assembly} {label : Label}
    (unbound : assembly.labels[label]? = some none) (other : Label) :
    (((assembly.bind label).toOption).getD assembly).boundAt? other =
      if other = label then some assembly.position else assembly.boundAt? other := by
  have within : label < assembly.labels.size := (Array.getElem?_eq_some_iff.mp unbound).1
  have bound : assembly.bind label =
      .ok { assembly with labels := assembly.labels.set! label (some assembly.position) } := by
    unfold bind
    rw [unbound]
  rw [bound]
  by_cases same : other = label
  · subst same
    simp [boundAt?, Except.toOption, within]
  · simp [boundAt?, Except.toOption, same, Array.getElem?_setIfInBounds_ne (Ne.symm same)]

/-- A step binds a label or leaves it as it was. -/
theorem boundAt?_step (assembly : Assembly) (step : AssemblyStep) (label : Label) (pc : Nat) :
    (((assembly.apply step).toOption).getD assembly).boundAt? label = some pc ↔
      assembly.boundAt? label = some pc ∨
        step = .bind label ∧ assembly.labels[label]? = some none ∧ assembly.position = pc := by
  cases step with
  | bind other =>
      by_cases unbound : assembly.labels[other]? = some none
      · have step := boundAt?_bind unbound label
        change (((assembly.bind other).toOption).getD assembly).boundAt? label = some pc ↔ _
        rw [step]
        by_cases same : label = other
        · subst same
          simp [boundAt?, unbound]
        · simp [same, Ne.symm same]
      · have refused : (assembly.bind other).toOption = none := by
          unfold bind
          split <;> simp_all [Except.toOption]
        change (((assembly.bind other).toOption).getD assembly).boundAt? label = some pc ↔ _
        rw [refused]
        constructor
        · exact .inl
        · rintro (bound | ⟨same, free, -⟩)
          · exact bound
          · cases same
            exact absurd free unbound
  | newLabel =>
      have pushed : (assembly.labels.push none)[label]?.join = assembly.labels[label]?.join := by
        rw [Array.getElem?_push]
        split
        · rename_i fresh
          simp [fresh]
        · rfl
      simp [apply, newLabel, Except.toOption, boundAt?, pushed]
  | declare name =>
      by_cases known : name ∈ assembly.locals <;>
        simp [apply, declare, known, Except.toOption, boundAt?]
  | setParameters | emit | readLocal | writeLocal | handle =>
      simp [apply, emit, handle, Except.toOption, boundAt?]

section Steps

variable {start : Assembly} (fresh : ∀ label, start.boundAt? label = none)
include fresh

/-- A label is bound to the number of instructions before the step that binds it. -/
theorem boundAt?_applyAll (steps : List AssemblyStep) (label : Label) (pc : Nat) :
    (start.applyAll steps).boundAt? label = some pc ↔
      ∃ moment, start.Binds steps moment label ∧ (start.before steps moment).position = pc := by
  induction steps using List.reverseRecOn with
  | nil => simp [applyAll, fresh, Binds]
  | append_singleton steps step ih =>
      rw [applyAll_snoc, boundAt?_step, ih]
      constructor
      · rintro (⟨moment, ⟨found, free⟩, place⟩ | ⟨rfl, free, place⟩)
        · have within : moment < steps.length := (List.getElem?_eq_some_iff.mp found).1
          have same : start.before (steps ++ [step]) moment = start.before steps moment := by
            rw [before, before, List.take_append_of_le_length (Nat.le_of_lt within)]
          refine ⟨moment, ⟨?_, ?_⟩, ?_⟩
          · rw [List.getElem?_append_left within, found]
          · rw [same]
            exact free
          · rw [same]
            exact place
        · have same : start.before (steps ++ [.bind label]) steps.length =
              start.applyAll steps := by
            rw [before, List.take_left]
          refine ⟨steps.length, ⟨List.getElem?_concat_length, ?_⟩, ?_⟩
          · rw [same]
            exact bind_ok_iff.mpr free
          · rw [same]
            exact place
      · rintro ⟨moment, ⟨found, free⟩, place⟩
        by_cases within : moment < steps.length
        · have same : start.before (steps ++ [step]) moment = start.before steps moment := by
            rw [before, before, List.take_append_of_le_length (Nat.le_of_lt within)]
          rw [List.getElem?_append_left within] at found
          rw [same] at free place
          exact .inl ⟨moment, ⟨found, free⟩, place⟩
        · have last : moment = steps.length := by
            have inside : moment < (steps ++ [step]).length :=
              (List.getElem?_eq_some_iff.mp found).1
            rw [List.length_append, List.length_singleton] at inside
            omega
          subst last
          rw [List.getElem?_concat_length] at found
          rw [before, List.take_left] at free place
          exact .inr ⟨Option.some.inj found, bind_ok_iff.mp free, place⟩

/-- No two steps bind the same label. -/
theorem Binds.unique {steps : List AssemblyStep} {label : Label} {first second : Nat}
    (binds : start.Binds steps first label) (binds' : start.Binds steps second label) :
    first = second := by
  have ordered {first second : Nat} (binds : start.Binds steps first label)
      (binds' : start.Binds steps second label) : ¬ first < second := by
    intro earlier
    -- before the second step the label is bound already
    have held : start.Binds (steps.take second) first label := by
      refine ⟨?_, ?_⟩
      · rw [List.getElem?_take_of_lt earlier]
        exact binds.1
      · rw [before, List.take_take, Nat.min_eq_left (Nat.le_of_lt earlier)]
        exact binds.2
    have bound := (boundAt?_applyAll fresh (steps.take second) label _).mpr ⟨first, held, rfl⟩
    have free : (start.applyAll (steps.take second)).labels[label]? = some none :=
      bind_ok_iff.mp binds'.2
    simp [boundAt?, free] at bound
  have := ordered binds binds'
  have := ordered binds' binds
  omega

theorem exists_boundAt? {steps : List AssemblyStep} {label : Label} {property : Nat → Prop} :
    (∃ pc, (start.applyAll steps).boundAt? label = some pc ∧ property pc) ↔
      ∃ moment, start.Binds steps moment label ∧
        property (start.before steps moment).position := by
  constructor
  · rintro ⟨pc, bound, holds⟩
    obtain ⟨moment, binds, rfl⟩ := (boundAt?_applyAll fresh steps label pc).mp bound
    exact ⟨moment, binds, holds⟩
  · rintro ⟨moment, binds, holds⟩
    exact ⟨_, (boundAt?_applyAll fresh steps label _).mpr ⟨moment, binds, rfl⟩, holds⟩

end Steps

/-! ## Building -/

theorem target_eq_ok_iff {assembly : Assembly} {label : Label} {pc : Nat} :
    assembly.target label = .ok pc ↔ assembly.boundAt? label = some pc := by
  unfold target boundAt?
  cases assembly.labels[label]?.join <;> simp

theorem checkLabel_eq_ok_iff {assembly : Assembly} {branches : Bool} {label : Label} :
    assembly.checkLabel branches label = .ok () ↔ ∃ pc, assembly.boundAt? label = some pc ∧
      (branches = true → pc < assembly.code.size) := by
  unfold checkLabel
  rw [bind_eq_ok_iff]
  simp only [target_eq_ok_iff]
  refine exists_congr fun pc => and_congr_right fun _ => ?_
  cases branches with
  | false => simp [pure, Except.pure]
  | true =>
      by_cases past : assembly.position ≤ pc
      · have outside : ¬ pc < assembly.code.size := Nat.not_lt.mpr past
        simp [past, outside, throw, throwThe, MonadExceptOf.throw]
      · have inside : pc < assembly.code.size := Nat.lt_of_not_le past
        simp [past, inside, pure, Except.pure]

theorem checkLocal_eq_ok_iff {assembly : Assembly} (index : Nat) {instruction : Instruction} :
    assembly.checkLocal index instruction = .ok () ↔
      ∀ slot, instruction.localSlot? = some (slot, 0) → slot < assembly.locals.length := by
  unfold checkLocal
  split
  · rename_i slot found
    by_cases declared : slot < assembly.locals.length
    · simp [declared, found]
    · simp [declared, found]
  · rename_i other
    simp only [true_iff]
    exact fun slot found => absurd found (other slot)

theorem checkInstruction_eq_ok_iff {assembly : Assembly} {index : Nat}
    {instruction : Instruction} :
    assembly.checkInstruction index instruction = .ok () ↔
      (∀ label ∈ instruction.labels, ∃ pc, assembly.boundAt? label = some pc ∧
        (instruction.branches = true → pc < assembly.code.size)) ∧
      ∀ slot, instruction.localSlot? = some (slot, 0) → slot < assembly.locals.length := by
  have labels : instruction.labels.forM (assembly.checkLabel instruction.branches) = .ok () ↔ _ :=
    forM_eq_ok_iff
  simp only [checkLabel_eq_ok_iff] at labels
  unfold checkInstruction
  rw [bind_eq_ok_iff, ← labels, ← checkLocal_eq_ok_iff index]
  exact ⟨fun ⟨_, checked⟩ => checked, fun checked => ⟨(), checked⟩⟩

theorem checkHandler_eq_ok_iff {assembly : Assembly} {handler : Handler} :
    assembly.checkHandler handler = .ok () ↔
      ∀ label ∈ [handler.first, handler.last, handler.exit],
        ∃ pc, assembly.boundAt? label = some pc := by
  have found (label : Label) : (∃ pc, assembly.boundAt? label = some pc) ↔
      ∃ pc, assembly.target label = .ok pc := by
    simp only [target_eq_ok_iff]
  simp only [found, List.forall_mem_cons, List.not_mem_nil, false_implies, forall_const, and_true]
  unfold checkHandler
  cases first : assembly.target handler.first <;> cases last : assembly.target handler.last <;>
    cases exit : assembly.target handler.exit <;>
      simp [first, last, exit, Bind.bind, Except.bind, pure, Except.pure]

/-- The sequence of an assembly that passes all checks. -/
def finished (assembly : Assembly) : Sequence where
  name := assembly.name
  kind := assembly.kind
  code := assembly.code
  labels := assembly.labels
  locals := assembly.locals
  parameters := assembly.parameters
  handlers := assembly.handlers

theorem build_eq_ok_iff {assembly : Assembly} {code : Sequence} :
    assembly.build = .ok code ↔ code = assembly.finished ∧
      (∀ instruction ∈ assembly.code, (∀ label ∈ instruction.labels,
        ∃ pc, assembly.boundAt? label = some pc ∧
          (instruction.branches = true → pc < assembly.code.size)) ∧
        ∀ slot, instruction.localSlot? = some (slot, 0) → slot < assembly.locals.length) ∧
      ∀ handler ∈ assembly.handlers, ∀ label ∈ [handler.first, handler.last, handler.exit],
        ∃ pc, assembly.boundAt? label = some pc := by
  have checked : (assembly.code.toList.zipIdx.forM fun entry =>
      assembly.checkInstruction entry.2 entry.1) = .ok () ↔ _ := forM_eq_ok_iff
  have handled : assembly.handlers.forM assembly.checkHandler = .ok () ↔ _ := forM_eq_ok_iff
  simp only [checkInstruction_eq_ok_iff] at checked
  simp only [checkHandler_eq_ok_iff] at handled
  have listed (property : Instruction → Prop) :
      (∀ entry ∈ assembly.code.toList.zipIdx, property entry.1) ↔
        ∀ instruction ∈ assembly.code, property instruction := by
    rw [← List.forall_mem_map, List.zipIdx_map_fst]
    simp only [Array.mem_toList_iff]
  unfold build
  rw [bind_eq_ok_iff]
  simp only [bind_eq_ok_iff]
  constructor
  · rintro ⟨⟨⟩, passed, ⟨⟩, passed', same⟩
    exact ⟨(Except.ok.inj same).symm, (listed _).mp (checked.mp passed), handled.mp passed'⟩
  · rintro ⟨rfl, passed, passed'⟩
    exact ⟨(), checked.mpr ((listed _).mpr passed), (), handled.mpr passed', rfl⟩

theorem labelTarget?_finished (assembly : Assembly) (label : Label) :
    assembly.finished.labelTarget? label = assembly.boundAt? label :=
  rfl

theorem labels_foldl_declare (parameters : List String) (assembly : Assembly) :
    (parameters.foldl declare assembly).labels = assembly.labels := by
  induction parameters generalizing assembly with
  | nil => rfl
  | cons name rest ih =>
      rw [List.foldl_cons, ih, declare]
      split <;> rfl

/-- A new assembly has no labels. -/
theorem boundAt?_withParameters (name : String) (kind : SequenceKind) (parameters : List String)
    (label : Label) : (withParameters name kind parameters).boundAt? label = none := by
  have labels : (withParameters name kind parameters).labels = #[] :=
    labels_foldl_declare parameters (empty name kind)
  simp [boundAt?, labels]

/-- From a start without labels, what is complete can be built, and nothing else. -/
theorem build_applyAll_iff {start : Assembly} (fresh : ∀ label, start.boundAt? label = none)
    (steps : List AssemblyStep) :
    (∃ code, (start.applyAll steps).build = .ok code) ↔ start.Complete steps := by
  simp only [build_eq_ok_iff, exists_eq_left]
  constructor
  · rintro ⟨instructions, handlers⟩
    refine ⟨fun instruction listed label mentioned => ?_, fun handler listed label mentioned => ?_,
      fun instruction listed => (instructions instruction listed).2⟩
    · exact (exists_boundAt? fresh).mp ((instructions instruction listed).1 label mentioned)
    · obtain ⟨pc, bound⟩ := handlers handler listed label mentioned
      obtain ⟨moment, binds, -⟩ := (boundAt?_applyAll fresh steps label pc).mp bound
      exact ⟨moment, binds⟩
  · intro complete
    refine ⟨fun instruction listed => ⟨fun label mentioned => ?_,
      complete.locals instruction listed⟩, fun handler listed label mentioned => ?_⟩
    · exact (exists_boundAt? fresh).mpr (complete.labels instruction listed label mentioned)
    · obtain ⟨moment, binds⟩ := complete.handlers handler listed label mentioned
      exact ⟨_, (boundAt?_applyAll fresh steps label _).mpr ⟨moment, binds, rfl⟩⟩

/-- In what was built, every label that control may pass to is bound to an instruction. -/
theorem exists_target {assembly : Assembly} {code : Sequence} (built : assembly.build = .ok code)
    {pc : Nat} {instruction : Instruction} (found : code.instruction? pc = some instruction)
    {label : Label} (tried : label ∈ instruction.branchLabels) :
    ∃ target, code.labelTarget? label = some target ∧ target < code.length := by
  obtain ⟨rfl, instructions, -⟩ := build_eq_ok_iff.mp built
  have branches : instruction.branches = true := by
    by_contra straight
    rw [Instruction.branchLabels_eq_nil (Bool.not_eq_true _ ▸ straight)] at tried
    cases tried
  have mentioned : label ∈ instruction.labels := by
    cases instruction <;> first | exact tried | cases branches
  obtain ⟨target, bound, within⟩ :=
    (instructions instruction (Array.mem_of_getElem? found)).1 label mentioned
  exact ⟨target, bound, within branches⟩

end Assembly

/-! ## Assembled sequences -/

/-- The sequence was assembled step by step, and so were the sequences inside it. -/
inductive Sequence.Assembled : Sequence → Prop where
  | intro {name : String} {kind : SequenceKind} {parameters : List String}
      {steps : List AssemblyStep} {code : Sequence} :
      ((Assembly.withParameters name kind parameters).applyAll steps).build = .ok code →
      (∀ child ∈ code.children, child.Assembled) → code.Assembled

namespace Sequence.Assembled

variable {code : Sequence} {pc : Nat} {instruction : Instruction}

/-- What an instruction of the code owns was assembled too. -/
theorem body (assembled : code.Assembled) (found : code.instruction? pc = some instruction)
    {body : Sequence} (owned : instruction.body? = some body) : body.Assembled := by
  cases assembled with
  | intro built children =>
      refine children body (List.mem_append_left _ ?_)
      exact List.mem_filterMap.mpr
        ⟨instruction, Array.mem_toList_iff.mpr (Array.mem_of_getElem? found), owned⟩

/-- Every label that control may pass to is bound to an instruction. -/
theorem target (assembled : code.Assembled) (found : code.instruction? pc = some instruction)
    {label : Label} (tried : label ∈ instruction.branchLabels) :
    ∃ target, code.labelTarget? label = some target ∧ target < code.length := by
  cases assembled with
  | intro built children => exact Assembly.exists_target built found tried

end Sequence.Assembled

end StackCode
