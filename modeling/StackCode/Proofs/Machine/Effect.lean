import StackCode.Proofs.Machine.Respect

/-!
# What one instruction does

An instruction that has its operands yields an outcome of the kind the catalog
gives for it.
-/

namespace StackCode.Execution

variable {σ τ : Type} {observer : Observer τ} {relation : Machine σ τ → Machine σ τ → Prop}
  {gives : Upshot → Prop}

/-! ## Operands -/

theorem withOne_respects {operands : List Value} {act : Value → Execution σ τ Upshot}
    (one : operands.length = 1) (acts : ∀ value, Respects relation (act value) gives) :
    Respects relation (withOne operands act) gives := by
  obtain ⟨value, rfl⟩ := List.length_eq_one_iff.mp one
  exact acts value

theorem withTwo_respects {operands : List Value} {act : Value → Value → Execution σ τ Upshot}
    (two : operands.length = 2) (acts : ∀ below top, Respects relation (act below top) gives) :
    Respects relation (withTwo operands act) gives :=
  match operands, two with
  | [below, top], _ => acts below top

theorem withReceiver_respects {operands : List Value} {count : Nat}
    {act : Value → List Value → Execution σ τ Upshot} (some : operands.length = count + 1)
    (acts : ∀ receiver arguments, Respects relation (act receiver arguments) gives) :
    Respects relation (withReceiver operands act) gives := by
  obtain ⟨receiver, arguments, rfl⟩ := List.exists_cons_of_length_eq_add_one some
  exact acts receiver arguments

/-! ## Outcomes -/

/-- The label of a dispatch is that of one of its cases, or the last one. -/
theorem dispatchLabel_mem (cases : List (Value × Label)) (otherwise : Label) (key : Value) :
    ((cases.find? fun entry => entry.1 == key).map Prod.snd).getD otherwise ∈
      (Instruction.caseDispatch cases otherwise).branchLabels := by
  simp only [Instruction.branchLabels, List.mem_eraseDups, List.mem_append, List.mem_map,
    List.mem_singleton]
  cases found : cases.find? fun entry => entry.1 == key with
  | none => exact .inr rfl
  | some entry => exact .inl ⟨entry, List.mem_of_find?_eq_some found, rfl⟩

section Outcomes

variable (lasting : Lasting observer relation)
include lasting

theorem push_respects {code : Sequence} {instruction : Instruction} {values : List Value}
    (straight : instruction.continues = true) (counted : values.length = instruction.supply) :
    Respects relation (return .push values) (instruction.Makes code) :=
  .pure lasting ⟨straight, counted⟩

/-- An execution for one value makes an instruction that pushes one value. -/
theorem pushOne_respects {code : Sequence} {instruction : Instruction} {α : Type}
    {execution : Execution σ τ α} {value : α → Value}
    (respects : Respects relation execution fun _ => True)
    (straight : instruction.continues = true) (counted : instruction.supply = 1) :
    Respects relation (do return .push [value (← execution)]) (instruction.Makes code) :=
  .bind lasting respects fun _ _ => push_respects lasting straight counted.symm

/-- An execution for its effect makes an instruction that pushes nothing. -/
theorem pushNone_respects {code : Sequence} {instruction : Instruction}
    {execution : Execution σ τ Unit} (respects : Respects relation execution fun _ => True)
    (straight : instruction.continues = true) (silent : instruction.supply = 0) :
    Respects relation (do execution; return .push []) (instruction.Makes code) :=
  .bind lasting respects fun _ _ => push_respects lasting straight silent.symm

theorem jump_respects {code : Sequence} {instruction : Instruction} {label : Label}
    (tried : label ∈ instruction.branchLabels) (silent : instruction.supply = 0) :
    Respects relation (do return .jump (← targetOf code label)) (instruction.Makes code) :=
  .bind lasting (targetOf_respects lasting code label) fun _ bound =>
    .pure lasting ⟨⟨label, tried, bound⟩, silent.symm⟩

theorem jumpIf_respects {code : Sequence} {instruction : Instruction} {label : Label}
    {condition : Bool} (tried : label ∈ instruction.branchLabels)
    (conditional : instruction.fallsThrough = true) (silent : instruction.supply = 0) :
    Respects relation
      (if condition then do return .jump (← targetOf code label) else return .push [])
      (instruction.Makes code) := by
  split
  · exact jump_respects lasting tried silent
  · exact push_respects lasting (by simp [Instruction.continues, conditional]) silent.symm

end Outcomes

/-! ## Instructions -/

section Instructions

variable (lasting : Lasting observer relation) {enter : Activation → Execution σ τ Value}
  (entering : ∀ activation, Respects relation (enter activation) fun _ => True)
include lasting entering

/-- Acting on all the operands it takes, an instruction makes what the catalog says. -/
theorem perform_respects (host : Host σ) (code : Sequence) (frame : Nat)
    {instruction : Instruction} {operands : List Value}
    (enough : operands.length = instruction.demand) :
    Respects relation (perform host observer enter code frame instruction operands)
      (instruction.Makes code) := by
  have called (receiver : Value) (method : String) (arguments : List Value)
      (block : Option Closure) (straight : instruction.continues = true)
      (counted : instruction.supply = 1) :
      Respects relation
        (do return .push [← call host observer enter receiver method arguments block])
        (instruction.Makes code) :=
    pushOne_respects lasting (call_respects lasting entering host receiver method arguments block)
      straight counted
  cases instruction with
  | nop | adjustStack | putNil | getInlineCache | putObject | dupArray | dupHash | putZero
  | putOne | putString | frozenString | sharedString | putSpecialObject | newArray | newHash
  | concatStrings | toRegexp =>
      exact push_respects lasting rfl rfl
  | pop | splatArray => exact withOne_respects enough fun _ => push_respects lasting rfl rfl
  | dup | topN | dupN | setInlineCache =>
      refine push_respects lasting rfl ?_
      simp only [Instruction.demand, Instruction.takes, List.sum_cons, List.sum_nil] at enough
      simp [enough, Instruction.supply] <;> omega
  | setN depth =>
      refine push_respects lasting rfl ?_
      obtain ⟨first, rest, rfl⟩ := List.exists_cons_of_length_eq_add_one enough
      simp only [Instruction.demand, Instruction.takes, List.length_cons, List.sum_cons,
        List.sum_nil] at enough
      simp [Instruction.supply, List.getLast?_cons]
      omega
  | putSelf => exact pushOne_respects lasting (.context lasting) rfl rfl
  | swap | newRange | concatArray | anyToString =>
      exact withTwo_respects enough fun _ _ => push_respects lasting rfl rfl
  | intern =>
      exact withOne_respects enough fun _ =>
        pushOne_respects lasting (symbolOf_respects lasting _) rfl rfl
  | objectToString site =>
      refine withOne_respects enough fun value => ?_
      split
      · exact push_respects lasting rfl rfl
      · exact called _ _ _ _ rfl rfl
  | expandArray size flag =>
      refine withOne_respects enough fun value => push_respects lasting rfl ?_
      simp [Instruction.supply]
  | newArrayMin | newArrayMax => exact called _ _ _ _ rfl rfl
  | getLocal | getOwnLocal | getOuterLocal =>
      exact pushOne_respects lasting (readLocal_respects lasting _ _ _ _) rfl rfl
  | setLocal | setOwnLocal | setOuterLocal =>
      exact withOne_respects enough fun _ =>
        pushNone_respects lasting (writeLocal_respects lasting _ _ _ _ _) rfl rfl
  | getGlobal name =>
      exact pushOne_respects lasting (findGlobal_respects lasting host name) rfl rfl
  | setGlobal name =>
      exact withOne_respects enough fun value =>
        pushNone_respects lasting (.setGlobal lasting name value) rfl rfl
  | getConstant name =>
      exact withTwo_respects enough fun scope lexically =>
        pushOne_respects lasting (readConstant_respects lasting host name scope lexically) rfl rfl
  | jump label => exact jump_respects lasting (List.mem_singleton.mpr rfl) rfl
  | branchIf | branchUnless | branchNil =>
      exact withOne_respects enough fun _ =>
        jumpIf_respects lasting (List.mem_singleton.mpr rfl) rfl rfl
  | caseDispatch cases otherwise =>
      exact withOne_respects enough fun key =>
        jump_respects lasting (dispatchLabel_mem cases otherwise key) rfl
  | leave => exact withOne_respects enough fun _ => .pure lasting ⟨rfl, rfl⟩
  | send site block =>
      refine withReceiver_respects enough fun receiver arguments => ?_
      exact .bind lasting (.context lasting) fun _ _ => called _ _ _ _ rfl rfl
  | sendWithoutBlock | operate | notEqual =>
      exact withReceiver_respects enough fun _ _ => called _ _ _ _ rfl rfl
  | elementWith => exact withOne_respects enough fun _ => called _ _ _ _ rfl rfl
  | setElementWith => exact withTwo_respects enough fun _ _ => called _ _ _ _ rfl rfl
  | invokeBlock site =>
      exact pushOne_respects lasting (yieldTo_respects lasting entering frame operands) rfl rfl
  | defineMethod name body =>
      exact pushNone_respects lasting (.defineMethod lasting frame name body) rfl rfl
  | defined kind object value =>
      exact withOne_respects enough fun operand =>
        pushOne_respects lasting (isDefined_respects lasting host kind object operand) rfl rfl

end Instructions

end StackCode.Execution
