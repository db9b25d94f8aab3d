import StackCode.Proofs.Machine.Conservation

/-!
# Accounts of runs

An account says what an observer may see of a run.  One relation ties the
observer's states before and after anything that returns to its caller; another
says how far a frame has come between two of its instructions.  If the events of
the machine carry the one from instruction to instruction and hand it on to the
other when the frame is left, then the first holds across every frame of every
run, however deep it lies and however it ends.

The same induction shows that every frame gives its caller back what it found.
-/

namespace StackCode

/-- The events that a frame sees between its entry and its end, seen by an observer. -/
structure Account {τ : Type} (observer : Observer τ) where
  /-- The states before and after a call. -/
  across : τ → τ → Prop
  /-- The state at the entry of a frame, its context between two instructions, the state then. -/
  within : Sequence → τ → Context → τ → Prop
  keeps : observer.Keeps across
  enters : ∀ {context : Context} (code : Sequence) (self : Value) (parent : Option Nat)
    (block : Option Closure) (arguments : List Value) (entry : τ),
    within code entry { context.enter code self parent block arguments with pc := 0 }
      (observer.see (.enter (.frame code) (context.frames.size + 1) context.pc)
        (context.enter code self parent block arguments) entry)
  advances : ∀ {code : Sequence} {entry trace trace' : τ} {context context' : Context}
    {instruction : Instruction} {outcome : Outcome},
    within code entry context trace → code.instruction? context.pc = some instruction →
    across (observer.see (.instruction code context.pc instruction context.depth) context trace)
      trace' →
    context.Performs code instruction outcome context' →
    context'.pc = outcome.place context.pc → (∀ result, outcome ≠ .leave result) →
    within code entry context' trace'
  stops : ∀ {code : Sequence} {entry trace : τ} {context : Context},
    within code entry context trace → ∀ (context' : Context) (depth pc : Nat),
    across entry (observer.see (.exit (.frame code) depth pc) context' trace)
  halts : ∀ {code : Sequence} {entry trace trace' : τ} {context : Context}
    {instruction : Instruction},
    within code entry context trace → code.instruction? context.pc = some instruction →
    across (observer.see (.instruction code context.pc instruction context.depth) context trace)
      trace' →
    ∀ (context' : Context) (depth pc : Nat),
    across entry (observer.see (.exit (.frame code) depth pc) context' trace')

namespace Execution

variable {σ τ : Type} {observer : Observer τ}

/-- What one turn of a frame comes to, seen from outside. -/
theorem advance_ends {relation : τ → τ → Prop} {enter : Activation → Execution σ τ Value}
    (keeps : observer.Keeps relation)
    (entering : ∀ activation,
      Respects (Machine.Returns relation) (enter activation) fun _ => True)
    (host : Host σ) (code : Sequence) (frame : Nat) (instruction : Instruction)
    (machine : Machine σ τ) :
    Ends (advance host observer enter code frame machine.context.pc instruction) machine
      (fun outcome after =>
        machine.context.Performs code instruction outcome after.context ∧
        after.context.pc = outcome.place machine.context.pc ∧ relation
          (observer.see (.instruction code machine.context.pc instruction machine.context.depth)
            machine.context machine.trace) after.trace)
      (fun _ after =>
        machine.context.SameGround after.context ∧ (after.trace = machine.trace ∨ relation
          (observer.see (.instruction code machine.context.pc instruction machine.context.depth)
            machine.context machine.trace) after.trace)) := by
  unfold advance
  rw [ends_bind, ends_burn]
  split
  · exact ⟨.refl _, .inl rfl⟩
  · rw [ends_bind, ends_reportInstruction, ends_bind, ends_modifyContext, ends_bind]
    refine (step_ends keeps entering host code frame instruction _).mono ?_ ?_
    · rintro outcome after ⟨⟨ground, yields, enough, replaced⟩, place, traced⟩
      cases outcome with
      | next | leave => exact ⟨⟨⟨ground.1, ground.2⟩, yields, enough, replaced⟩, place, traced⟩
      | jump target => exact ⟨⟨⟨ground.1, ground.2⟩, yields, enough, replaced⟩, rfl, traced⟩
    · rintro exit after ⟨ground, traced, -⟩
      exact ⟨⟨ground.1, ground.2⟩, .inr traced⟩

variable (account : Account observer)

def Stopped (code : Sequence) (entry trace : τ) : Prop :=
  ∀ (context : Context) (depth pc : Nat),
    account.across entry (observer.see (.exit (.frame code) depth pc) context trace)

theorem dispatch_ends {enter : Activation → Execution σ τ Value}
    (entering : ∀ activation,
      Respects (Machine.Returns account.across) (enter activation) fun _ => True)
    (host : Host σ) (code : Sequence) (frame bound : Nat) (entry : τ) (machine : Machine σ τ)
    (come : account.within code entry machine.context machine.trace) :
    Ends (dispatch host observer enter code frame bound) machine
      (fun _ after => machine.context.SameGround after.context ∧
        Stopped account code entry after.trace)
      (fun exit after => machine.context.SameGround after.context ∧
        Stopped account code entry after.trace ∧ exit ≠ .raise .stackUnderflow) := by
  induction bound generalizing machine with
  | zero => exact ⟨.refl _, account.stops come, by simp⟩
  | succ bound ih =>
      unfold dispatch
      rw [ends_bind, ends_context, ends_bind, ends_locatedAt]
      cases found : code.instruction? machine.context.pc with
      | none => exact ⟨.refl _, account.stops come, by simp [Exit.locate]⟩
      | some instruction =>
          refine (advance_ends account.keeps entering host code frame instruction machine).mono
            ?_ ?_
          · rintro outcome after ⟨performs, place, seen⟩
            have further (stays : ∀ result, outcome ≠ .leave result) :=
              (ih after (account.advances come found seen performs place stays)).mono
                (fun _ _ ends => And.imp_left performs.toSameGround.trans ends)
                (fun _ _ ends => And.imp_left performs.toSameGround.trans ends)
            cases outcome with
            | leave result => exact ⟨performs.toSameGround, account.halts come found seen⟩
            | next | jump => exact further (by simp)
          · rintro exit after ⟨ground, traced⟩
            refine ⟨ground, ?_, by simp⟩
            rcases traced with same | seen
            · rw [same]
              exact account.stops come
            · exact account.halts come found seen

/-- Every frame gives its caller back what it found, and its account adds up. -/
theorem evaluate_respects (host : Host σ) (room : Nat) (activation : Activation) :
    Respects (Machine.Returns account.across) (evaluate host observer room activation)
      fun _ => True := by
  induction room generalizing activation with
  | zero =>
      exact .fail (Machine.Returns.lasting account.keeps) (by simp)
  | succ room ih =>
      obtain ⟨code, self, parent, block, arguments⟩ := activation
      intro machine
      unfold evaluate
      simp only [ends_bind, ends_get, ends_modifyContext, ends_report, ends_attempt]
      refine (dispatch_ends account ih host code machine.context.frames.size
        (machine.fuel + 1) machine.trace _
        (account.enters code self parent block arguments machine.trace)).mono ?_ ?_
      · rintro value after ⟨ground, stopped⟩
        exact ⟨⟨.of_leave ⟨ground.1, ground.2⟩, stopped _ _ _⟩, trivial⟩
      · rintro exit after ⟨ground, stopped, other⟩
        exact ⟨⟨.of_leave ⟨ground.1, ground.2⟩, stopped _ _ _⟩, other⟩

end Execution

/-- A run is the call of its sequence between two events. -/
theorem Machine.run_returns {σ τ : Type} {observer : Observer τ} (account : Account observer)
    (host : Host σ) (limits : Limits) (state : σ) (trace : τ) (context : Context)
    (code : Sequence) :
    ∃ ended : Machine σ τ,
      Returns account.across
        ((start limits state trace context).noting observer (.runStart code)) ended ∧
      (run host observer limits state trace context code).2 =
        (ended.keepResult (run host observer limits state trace context code).1).noting observer
          (.runEnd code (faultOf? (run host observer limits state trace context code).1)) := by
  have returns := Execution.evaluate_respects account host limits.callDepth
    ⟨code, .main, none, none, []⟩
    ((start limits state trace context).noting observer (.runStart code))
  have room : ((start limits state trace context).noting observer
    (.runStart code)).limits.callDepth = limits.callDepth := rfl
  unfold run execute
  simp only [room]
  cases ended : Execution.evaluate host observer limits.callDepth
    ⟨code, .main, none, none, []⟩
    ((start limits state trace context).noting observer (.runStart code)) with
  | ok value after => exact ⟨after, (returns.of_ok ended).1, rfl⟩
  | error exit after => exact ⟨after, (returns.of_error ended).1, rfl⟩

end StackCode
